import Retype.Component.Complexity
import Retype.Decimal.Binary

/-!
# Component profiles

Everything that is known about one source file: what it was classified as, its
inventory, its patterns and complexity, and, once the whole corpus is known, its
place among the other files. The counts that complexity is scored from are read
off the profile.
-/

set_option autoImplicit false

namespace Retype

inductive Category where
  | layout
  | ui
  | form
  | feature
  | page
  | utility
  | other
  deriving DecidableEq, Repr, Inhabited

namespace Category

def text : Category → String
  | layout => "layout"
  | ui => "ui"
  | form => "form"
  | feature => "feature"
  | page => "page"
  | utility => "utility"
  | other => "other"

def all : List Category := [layout, ui, form, feature, page, utility, other]

def ofText? (s : String) : Option Category := all.find? fun c => c.text == s

end Category

inductive Priority where
  | migrated
  | highest
  | high
  | medium
  | low
  deriving DecidableEq, Repr, Inhabited

namespace Priority

def text : Priority → String
  | migrated => "migrated"
  | highest => "highest"
  | high => "high"
  | medium => "medium"
  | low => "low"

def all : List Priority := [migrated, highest, high, medium, low]

def ofText? (s : String) : Option Priority := all.find? fun p => p.text == s

end Priority

/-- How much a file is used: the number of its dependents, and their weights in halves. -/
structure Usage where
  direct : Nat := 0
  halves : Nat := 0
  isCritical : Bool := false
  deriving DecidableEq, Repr, Inhabited

structure Profile where
  path : String
  name : String
  kind : Kind
  language : Language := .javascript
  exportType : ExportType := .none
  boundary : Option String := none
  props : List Property := []
  state : List StateSlot := []
  effects : List Effect := []
  refs : List RefSlot := []
  contexts : List ContextUse := []
  callbacks : List Callback := []
  hooks : List CustomHook := []
  imports : List Import := []
  patterns : List Pattern := []
  complexity : Option (Score Float) := none
  category : Category := .other
  dependencies : List String := []
  dependents : List String := []
  usage : Option Usage := none
  priority : Option Priority := none
  migrated : Bool := false
  hasMarkup : Bool := false
  parseError : Bool := false
  fileSize : Nat := 0
  digest : String := ""
  deriving Inhabited

namespace LegacyType

def isComplex : LegacyType → Bool
  | named _ kind => kind == "object" || kind == "array" || kind == "func"
  | instanceOf _ _ => false
  | _ => true

end LegacyType

namespace Property

def typeMarks : List String := ["Record<", "[]", "=>", "|", "\x7b", "Array<", "object"]

def isComplex (p : Property) : Bool :=
  p.legacy.any LegacyType.isComplex ||
    let type := ((p.declared.bind nonEmpty) <|> p.inferred).getD ""
    typeMarks.any fun mark => Affix.occurs mark type

end Property

namespace Pattern

def isComplexLogic : Pattern → Bool
  | conditionalRendering | listRendering | dataFetching | formHandling | controlledInput => true
  | composition | memoization => false

end Pattern

namespace Profile

def exported (p : Profile) : Bool := p.exportType ≠ .none

def tier (p : Profile) : Tier := (p.complexity.map (·.tier)).getD .low

def externalDependencies (p : Profile) : List String :=
  Order.distinct ((p.imports.filter fun i => !i.internal).map (·.specifier))

def ownProps (p : Profile) : List Property := p.props.filter fun q => !q.isWhole

def count (p : Profile) : Indicator → Nat
  | .propCount => p.ownProps.length
  | .optionalProps => (p.ownProps.filter (·.isOptional)).length
  | .complexProps => (p.ownProps.filter (·.isComplex)).length
  | .childrenUsage =>
    (if p.ownProps.any fun q => q.name == "children" then 1 else 0) +
      (if p.patterns.contains .composition then 1 else 0)
  | .stateCount => p.state.length
  | .effectCount => p.effects.length
  | .callbackCount => p.callbacks.length
  | .refCount => p.refs.length
  | .complexLogic => (p.patterns.filter Pattern.isComplexLogic).length
  | .externalDeps => p.externalDependencies.length
  | .classComponent => if p.kind = .classComponent then 1 else 0
  | .hocUsage => if p.kind = .higherOrderComponent then 1 else 0

/-- The score of a profile, its sum rounded to four places. -/
def score {m : Type → Type} {μ : Type} [Monad m] (scale : Scale m Float μ)
    (scoring : Scoring Float μ) (p : Profile) : m (Score Float) :=
  scoring.score scale (Decimal.roundTo 4) p.count

end Profile

end Retype

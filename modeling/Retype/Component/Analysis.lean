import Retype.Component.TypeText

/-!
# Analysis of one unit

The profile of a source unit: its classification, inventory, patterns, inferred
types and category. Nothing here fails: a unit whose tree is missing or broken
has the profile of an unknown module.
-/

set_option autoImplicit false

namespace Retype

namespace Category

/-- The category that a folder's name gives. -/
def ofFolder? (name : String) : Option Category :=
  if name == "layout" || name == "layouts" then some layout
  else if name == "ui" then some ui
  else if name == "forms" || name == "form" then some form
  else if name == "pages" then some page
  else if name == "utils" || name == "helpers" then some utility
  else none

/-- Folders decide before anything else, in this order of categories. -/
def ofPath? (path : String) : Option Category :=
  let found := ((Path.segments path).dropLast).filterMap ofFolder?
  [layout, ui, form, page, utility].find? found.contains

end Category

namespace Profile

/-- Function components of some size that hold several states are features. -/
def isFeature (p : Profile) : Bool := 2 ≤ p.state.length && 500 ≤ p.fileSize

def categorize (p : Profile) : Category :=
  match Category.ofPath? p.path with
  | some c => c
  | none =>
    if p.patterns.contains .formHandling then .form
    else if p.kind = .functionComponent then (if p.isFeature then .feature else .ui)
    else .other

end Profile

/-- What a module holds, before types are inferred. -/
structure Inventory where
  props : List Property := []
  state : List StateSlot := []
  effects : List Effect := []
  refs : List RefSlot := []
  contexts : List ContextUse := []
  callbacks : List Callback := []
  hooks : List CustomHook := []
  imports : List Import := []
  deriving Inhabited

def Inventory.ofRoot (src : Source) (table : AliasTable) (root : Node) (c : Classification) :
    Inventory :=
  let imports := Import.all src table root
  let hooks := Hooks.ofRoot src imports root
  let members := match c.found with
    | some hit =>
      if c.kind = Kind.classComponent then ClassMembers.ofClass src hit.node else ({} : ClassMembers)
    | none => ({} : ClassMembers)
  { props := Property.ofModule src root c
    state := members.state src ++ hooks.state
    effects := members.effects ++ hooks.effects
    refs := hooks.refs
    contexts := hooks.contexts
    callbacks := hooks.callbacks
    hooks := hooks.custom.map (·.2)
    imports := imports }

/-- What a unit says of itself, before it has a category. -/
def SourceUnit.inventoryProfile (u : SourceUnit) (table : AliasTable) : Profile :=
  let c := Classification.ofUnit u
  let inv := match u.root? with
    | none => ({} : Inventory)
    | some root => Inventory.ofRoot u.source table root c
  { path := u.path
    name := c.name
    kind := c.kind
    language := u.language
    exportType := c.exportType
    boundary := c.boundary
    props := inv.props.map Property.withType
    state := inv.state.map StateSlot.withType
    effects := inv.effects
    refs := inv.refs
    contexts := inv.contexts
    callbacks := inv.callbacks
    hooks := inv.hooks
    imports := inv.imports
    patterns := match u.root? with
      | none => []
      | some root => Pattern.ofRoot u.source root
    migrated := u.language ≠ .javascript
    hasMarkup := u.root?.any u.source.hasMarkup
    parseError := u.hasError
    fileSize := u.source.octets.size
    digest := u.source.digest }

/-- The profile of a unit, without its score. Usage and priority depend on the
other files and come later, and whether its target is there on the project. -/
def SourceUnit.profile (u : SourceUnit) (table : AliasTable) : Profile :=
  let p := u.inventoryProfile table
  { p with category := p.categorize }

end Retype

import Retype.Component.Pattern

/-!
# Complexity scores

Twelve indicators count something about a component. A graded indicator turns
its count into zero to three points by three thresholds, a plain one gives a
fixed value as soon as its count is not zero; the points times the weight, but
never less than nothing, are its contribution. The raw score is the settled sum
of the contributions, and three cut points sort it into tiers. Numbers may be of
any kind with these operations, and the marks that they are held against of any
kind with a scale, so that the rule can be run on values as they are written,
where a comparison may fail, and studied on exact numbers, where none does.
-/

set_option autoImplicit false

namespace Retype

inductive Tier where
  | low
  | medium
  | high
  | veryHigh
  deriving DecidableEq, Repr, Inhabited

namespace Tier

def text : Tier → String
  | low => "low"
  | medium => "medium"
  | high => "high"
  | veryHigh => "very-high"

def all : List Tier := [low, medium, high, veryHigh]

def ofText? (s : String) : Option Tier := all.find? fun t => t.text == s

def isHigh (t : Tier) : Bool := t = high || t = veryHigh

end Tier

inductive Indicator where
  | propCount
  | optionalProps
  | complexProps
  | childrenUsage
  | stateCount
  | effectCount
  | callbackCount
  | refCount
  | complexLogic
  | externalDeps
  | classComponent
  | hocUsage
  deriving DecidableEq, Repr, Inhabited

namespace Indicator

def text : Indicator → String
  | propCount => "prop_count"
  | optionalProps => "optional_props"
  | complexProps => "complex_props"
  | childrenUsage => "children_usage"
  | stateCount => "state_count"
  | effectCount => "effect_count"
  | callbackCount => "callback_count"
  | refCount => "ref_count"
  | complexLogic => "complex_logic"
  | externalDeps => "external_deps"
  | classComponent => "class_component"
  | hocUsage => "hoc_usage"

def all : List Indicator :=
  [propCount, optionalProps, complexProps, childrenUsage, stateCount, effectCount, callbackCount,
   refCount, complexLogic, externalDeps, classComponent, hocUsage]

def ofText? (s : String) : Option Indicator := all.find? fun i => i.text == s

end Indicator

structure Triple (μ : Type) where
  first : μ
  second : μ
  third : μ
  deriving BEq, DecidableEq, Repr, Inhabited

/-- How many marks are passed before the first that stops. Those after it are not looked at. -/
def Triple.passed {m : Type → Type} {μ : Type} [Monad m] (t : Triple μ) (stops : μ → m Bool) :
    m Nat := do
  if ← stops t.first then return 0
  if ← stops t.second then return 1
  if ← stops t.third then return 2
  return 3

/-- How one indicator is weighed. Without thresholds it is plain. -/
structure Gauge (ν μ : Type) where
  weight : ν
  thresholds : Option (Triple μ)
  value : ν
  deriving BEq, DecidableEq, Repr, Inhabited

structure Scoring (ν μ : Type) where
  gauge : Indicator → Gauge ν μ
  cuts : Triple μ

structure Score (ν : Type) where
  raw : ν
  tier : Tier
  contributions : List (Indicator × ν)
  deriving DecidableEq, Repr, Inhabited

/-- How counts and sums are held against marks. -/
structure Scale (m : Type → Type) (ν μ : Type) where
  /-- Whether a count is at most a mark. -/
  within : Nat → μ → m Bool
  /-- Whether a sum is below a mark. -/
  below : ν → μ → m Bool

def Scale.exact (ν : Type) [NatCast ν] [LE ν] [LT ν] [DecidableLE ν] [DecidableLT ν] :
    Scale Id ν ν :=
  ⟨fun n t => pure (decide ((n : ν) ≤ t)), fun x t => pure (decide (x < t))⟩

def Tier.above : Nat → Tier
  | 0 => low
  | 1 => medium
  | 2 => high
  | _ => veryHigh

namespace Scoring

section Rule

variable {m : Type → Type} {ν μ : Type} [Monad m]
  [Zero ν] [Add ν] [Mul ν] [NatCast ν] [LT ν] [DecidableLT ν]

def points (scale : Scale m ν μ) (g : Gauge ν μ) (count : Nat) : m ν :=
  match g.thresholds with
  | some t => return ((← t.passed (scale.within count) : Nat) : ν)
  | none => return if count = 0 then 0 else g.value

def contribution (scale : Scale m ν μ) (g : Gauge ν μ) (count : Nat) : m ν := do
  let x := (← points scale g count) * g.weight
  return if 0 < x then x else 0

def contributions (scale : Scale m ν μ) (s : Scoring ν μ) (counts : Indicator → Nat) :
    m (List (Indicator × ν)) :=
  Indicator.all.mapM fun i => return (i, ← contribution scale (s.gauge i) (counts i))

def total (contributions : List (Indicator × ν)) : ν :=
  contributions.foldl (fun sum c => sum + c.2) 0

/-- The score of counts; `settle` rounds the sum. -/
def score (scale : Scale m ν μ) (settle : ν → ν) (s : Scoring ν μ) (counts : Indicator → Nat) :
    m (Score ν) := do
  let cs ← contributions scale s counts
  let raw := settle (total cs)
  return ⟨raw, Tier.above (← s.cuts.passed (scale.below raw)), cs⟩

end Rule

end Scoring

instance instNatCastFloat : NatCast Float := ⟨Float.ofNat⟩

end Retype

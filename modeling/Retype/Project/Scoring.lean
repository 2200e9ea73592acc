import Retype.Component.Profile
import Retype.Json.Comparison
import Retype.Json.Conversion
import Retype.Project.ConfigError

/-!
# Scoring as it is set

Weights and values are numbers, but thresholds and cut points may be any three
values: they are compared only when a profile is scored, each only if those
before it did not settle the matter. Of the cut points it is asked beforehand
that they do not descend.
-/

set_option autoImplicit false

namespace Retype

abbrev WrittenScoring := Scoring Float Json

def Scale.written : Scale (Except Fault) Float Json :=
  ⟨fun count mark => Json.holds .atMost (.nat count) mark,
   fun sum mark => Json.holds .less (.float sum) mark⟩

namespace WrittenScoring

def graded (weight : Float) (a b c : Int) : Gauge Float Json :=
  ⟨weight, some ⟨.int a, .int b, .int c⟩, 0⟩

def plain (weight value : Float) : Gauge Float Json := ⟨weight, none, value⟩

def standardGauge : Indicator → Gauge Float Json
  | .propCount => graded 1.0 3 6 10
  | .optionalProps => graded 0.7 2 5 8
  | .complexProps => graded 1.5 1 3 5
  | .childrenUsage => graded 0.5 0 1 2
  | .stateCount => graded 1.0 2 4 7
  | .effectCount => graded 1.2 1 3 5
  | .callbackCount => graded 1.0 2 5 8
  | .refCount => graded 0.8 1 3 5
  | .complexLogic => graded 1.5 2 5 8
  | .externalDeps => graded 1.3 3 7 12
  | .classComponent => plain 1.5 2
  | .hocUsage => plain 1.8 2

def standard : WrittenScoring := ⟨standardGauge, ⟨.int 5, .int 10, .int 15⟩⟩

def set (s : WrittenScoring) (i : Indicator) (g : Gauge Float Json) : WrittenScoring :=
  { s with gauge := fun j => if j = i then g else s.gauge j }

/-- Three marks out of one value, refused with `e` if it holds another number of them. -/
def tripleOf (e : ConfigError) (v : Json) : Except ConfigFailure (Triple Json) := do
  let _ ← v.size
  match ← v.each with
  | [a, b, c] => return ⟨a, b, c⟩
  | _ => throw (.refused e)

/-- Reads the changes that one indicator is given. -/
def readGauge (current : Gauge Float Json) (name : String) (spec : Json) :
    Except ConfigFailure (Gauge Float Json) := do
  let thresholds ← match spec with
    | .obj members => match Keyed.get? "thresholds" members with
      | none => pure current.thresholds
      | some .null => pure none
      | some v => some <$> tripleOf (.thresholdCount name) v
    | v => throw (.upset (.fault (.noMember v.form "get")))
  let weight ← match spec.field? "weight" with
    | none => pure current.weight
    | some v => v.toFloat
  let value ← match spec.field? "value" with
    | none => pure current.value
    | some v => v.toFloat
  return ⟨weight, thresholds, value⟩

def readIndicator (s : WrittenScoring) (member : String × Json) :
    Except ConfigFailure WrittenScoring :=
  match Indicator.ofText? member.1 with
  | none => .error (.refused (.unknownIndicator member.1))
  | some i => (readGauge (s.gauge i) member.1 member.2).map (s.set i)

/-- Whether three marks do not descend. Neighbours are compared, and the ends
only if one pair of neighbours descends and the other does not. -/
def ascends (t : Triple Json) : Except Fault Bool := do
  let first ← Json.holds .less t.second t.first
  let last ← Json.holds .less t.third t.second
  if first ≠ last then
    let _ ← Json.holds .less t.third t.first
  return !first && !last

def readCuts (v : Json) : Except ConfigFailure (Triple Json) := do
  let t ← tripleOf .cutPoints v
  if ← ascends t then return t else throw (.refused .cutPoints)

def read (v : Json) : Except ConfigFailure WrittenScoring := do
  let indicators ← v.getD "indicators" (.obj [])
  let s ← (← indicators.members?).foldlM readIndicator standard
  match v.field? "tier_cut_points" with
  | none => return s
  | some cuts => return { s with cuts := ← readCuts cuts }

end WrittenScoring

end Retype

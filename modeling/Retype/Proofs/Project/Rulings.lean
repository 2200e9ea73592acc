import Retype.Proofs.Json.Keys
import Retype.Proofs.Project.Files
import Retype.Proofs.Project.Marks
import Retype.Project.Config

/-!
# How settings files are turned down

A text that cannot be taken as settings is refused for a reason, or reading it breaks off by
trouble of another kind. Which of the two it is shows at the first of its members that cannot be
taken: trouble comes of a scoring whose parts are of the wrong form, of weights and values that
make no number, and of cut points that do not compare.
-/

set_option autoImplicit false

namespace Retype

inductive Ruling where
  | refused
  | upset
  deriving DecidableEq, Repr

def Failure.ruling {ε : Type} : Failure ε → Ruling
  | refused _ => .refused
  | upset _ => .upset

namespace Json

def parts? : Json → Option (List Json)
  | arr items => some items
  | str s => some (s.toList.map fun c => str c.toString)
  | obj members => some (members.map fun m => str m.1)
  | null | bool _ | int _ | float _ => none

def descends (v w : Json) : Bool := holds .less w v matches .ok true

end Json

theorem WrittenScoring.tripleOf_some {v : Json} {items : List Json} (e : ConfigError)
    (h : v.parts? = some items) : tripleOf e v = tripleOf e (.arr items) := by
  cases v <;> cases h <;> rfl

theorem WrittenScoring.tripleOf_parts (e : ConfigError) (v : Json) : tripleOf e v = match v.parts? with
    | none => .error (.upset (.fault (.noLength v.form)))
    | some [a, b, c] => .ok ⟨a, b, c⟩
    | some _ => .error (.refused e) := by
  cases h : v.parts? with
  | none => cases v with
    | arr | str | obj => cases h
    | null | bool | int | float => rfl
  | some items =>
    rw [tripleOf_some e h]
    rcases items with _ | ⟨a, _ | ⟨b, _ | ⟨c, _ | ⟨d, rest⟩⟩⟩⟩ <;> rfl

namespace Ruling

open Json (comparable descends)

/-! ## What is ruled on the parts of settings -/

def ofNumber : Json → Option Ruling
  | .float _ | .bool _ => none
  | .int n => match Json.ofInt n with
    | .ok _ => none
    | .error _ => some .upset
  | .str s => if (Numeral.float? s).isSome then none else some .upset
  | .null | .arr _ | .obj _ => some .upset

def ofThree (v : Json) : Option Ruling :=
  match v.parts? with
  | none => some .upset
  | some [_, _, _] => none
  | some _ => some .refused

def ofThresholds : Option Json → Option Ruling
  | none | some .null => none
  | some v => ofThree v

def ofSpec : Json → Option Ruling
  | .obj members => (ofThresholds (Keyed.get? "thresholds" members)).or
      (((Keyed.get? "weight" members).bind ofNumber).or ((Keyed.get? "value" members).bind ofNumber))
  | _ => some .upset

def ofIndicator (member : String × Json) : Option Ruling :=
  if (Indicator.ofText? member.1).isSome then ofSpec member.2 else some .refused

/-- Neighbours are compared, and the ends if one pair of neighbours descends and the other does not. -/
def ofOrder (a b c : Json) : Option Ruling :=
  if comparable b a && comparable c b && (descends a b == descends b c || comparable c a) then
    if descends a b || descends b c then some .refused else none
  else some .upset

def ofCuts (v : Json) : Option Ruling :=
  match v.parts? with
  | none => some .upset
  | some [a, b, c] => ofOrder a b c
  | some _ => some .refused

def ofIndicators : Option Json → Option Ruling
  | none => none
  | some (.obj indicators) => indicators.findSome? ofIndicator
  | some _ => some .upset

def ofScoring : Json → Option Ruling
  | .obj members => (ofIndicators (Keyed.get? "indicators" members)).or
      ((Keyed.get? "tier_cut_points" members).bind ofCuts)
  | _ => some .upset

def ofMember (member : String × Json) : Option Ruling :=
  if member.1 = "scoring" then ofScoring member.2
  else if Config.isSetting member.1 then
    if member.1 = "interface_mode" ∧ Config.isPlacement member.2 = false then some .refused else none
  else some .refused

def ofText (l : Json.Limits) (text : String) : Option Ruling :=
  match Json.read l text with
  | .ok (.obj members) => members.findSome? ofMember
  | .ok _ | .error (.malformed _ _) => some .refused
  | .error (.longNumeral _) | .error .tooDeep => some .upset

/-! ## How the parts are turned down -/

theorem failing_lift {α : Type} (x : Except Fault α) :
    failing Failure.ruling (liftM x : Except ConfigFailure α) = (failing Fault.kind x).map fun _ => .upset := by
  cases x <;> rfl

theorem failing_number (v : Json) : failing Failure.ruling (liftM v.toFloat : Except ConfigFailure Float) =
    ofNumber v := by
  rw [failing_lift]
  cases v with
  | int n =>
    simp only [Json.toFloat, Json.numberOr, ofNumber]
    cases Json.ofInt n <;> rfl
  | str s =>
    simp only [Json.toFloat, ofNumber]
    cases Numeral.float? s <;> rfl
  | null | bool | float | arr | obj => rfl

theorem failing_triple (e : ConfigError) (v : Json) :
    failing Failure.ruling (WrittenScoring.tripleOf e v) = ofThree v := by
  rw [WrittenScoring.tripleOf_parts]
  unfold ofThree
  cases v.parts? with
  | none => rfl
  | some items => rcases items with _ | ⟨a, _ | ⟨b, _ | ⟨c, _ | ⟨d, rest⟩⟩⟩⟩ <;> rfl

def given (x : Float) : Option Json → Except ConfigFailure Float
  | none => .ok x
  | some v => liftM v.toFloat

def givenThresholds (current : Option (Triple Json)) (name : String) :
    Option Json → Except ConfigFailure (Option (Triple Json))
  | none => .ok current
  | some .null => .ok none
  | some v => (WrittenScoring.tripleOf (.thresholdCount name) v).map some

theorem readGauge_eq (current : Gauge Float Json) (name : String) (members : List (String × Json)) :
    WrittenScoring.readGauge current name (.obj members) = do
      let thresholds ← givenThresholds current.thresholds name (Keyed.get? "thresholds" members)
      let weight ← given current.weight (Keyed.get? "weight" members)
      let value ← given current.value (Keyed.get? "value" members)
      return ⟨weight, thresholds, value⟩ := by
  simp only [WrittenScoring.readGauge, Json.field?]
  cases Keyed.get? "weight" members <;> cases Keyed.get? "value" members
  all_goals
    cases Keyed.get? "thresholds" members with
    | none => rfl
    | some v => cases v <;> rfl

theorem failing_given (x : Float) (v : Option Json) : failing Failure.ruling (given x v) = v.bind ofNumber := by
  cases v with
  | none => rfl
  | some v => exact failing_number v

theorem failing_givenThresholds (current : Option (Triple Json)) (name : String) (v : Option Json) :
    failing Failure.ruling (givenThresholds current name v) = ofThresholds v := by
  rcases v with _ | v
  · rfl
  · cases v with
    | null | bool | int | float => rfl
    | str | arr | obj => exact (failing_map _ _).trans (failing_triple _ _)

theorem failing_gauge (current : Gauge Float Json) (name : String) (spec : Json) :
    failing Failure.ruling (WrittenScoring.readGauge current name spec) = ofSpec spec := by
  cases spec with
  | obj members =>
    rw [readGauge_eq, ofSpec, ← failing_givenThresholds current.thresholds name,
      ← failing_given current.weight, ← failing_given current.value]
    refine failing_bind fun thresholds _ => failing_bind fun weight _ => ?_
    exact (failing_bind (k := none) fun value _ => rfl).trans (Option.or_none ..)
  | null | bool | int | float | str | arr => rfl

theorem failing_indicator (s : WrittenScoring) (member : String × Json) :
    failing Failure.ruling (s.readIndicator member) = ofIndicator member := by
  unfold WrittenScoring.readIndicator ofIndicator
  cases Indicator.ofText? member.1 with
  | none => rfl
  | some i => exact (failing_map _ _).trans (failing_gauge _ _ _)

theorem failing_order (a b c : Json) : failing Failure.ruling (do
      if ← WrittenScoring.ascends ⟨a, b, c⟩ then return (⟨a, b, c⟩ : Triple Json)
      else throw (.refused .cutPoints) : Except ConfigFailure (Triple Json)) = ofOrder a b c := by
  unfold WrittenScoring.ascends ofOrder descends
  rw [← Json.isSome_holds .less b a, ← Json.isSome_holds .less c b, ← Json.isSome_holds .less c a]
  generalize Json.holds .less b a = first
  generalize Json.holds .less c b = last
  generalize Json.holds .less c a = ends
  -- each of the three comparisons is undefined, false or true
  rcases first with _ | _ | _ <;> rcases last with _ | _ | _ <;> rcases ends with _ | _ | _ <;> rfl

theorem failing_cuts (v : Json) : failing Failure.ruling (WrittenScoring.readCuts v) = ofCuts v := by
  unfold WrittenScoring.readCuts ofCuts
  rw [WrittenScoring.tripleOf_parts]
  cases v.parts? with
  | none => rfl
  | some items =>
    rcases items with _ | ⟨a, _ | ⟨b, _ | ⟨c, _ | ⟨d, rest⟩⟩⟩⟩
    · rfl
    · rfl
    · rfl
    · exact failing_order a b c
    · rfl

def givenIndicators : Option Json → Except ConfigFailure WrittenScoring
  | none => .ok .standard
  | some v => do (← v.members?).foldlM WrittenScoring.readIndicator .standard

def givenCuts (s : WrittenScoring) : Option Json → Except ConfigFailure WrittenScoring
  | none => .ok s
  | some v => (WrittenScoring.readCuts v).map fun cuts => { s with cuts := cuts }

theorem read_eq (members : List (String × Json)) : WrittenScoring.read (.obj members) =
    givenIndicators (Keyed.get? "indicators" members) >>= fun s =>
      givenCuts s (Keyed.get? "tier_cut_points" members) := by
  unfold WrittenScoring.read
  simp only [Json.getD, Json.field?]
  have hcuts : ∀ s : WrittenScoring, (match Keyed.get? "tier_cut_points" members with
      | none => return s
      | some cuts => return { s with cuts := ← WrittenScoring.readCuts cuts } :
        Except ConfigFailure WrittenScoring) = givenCuts s (Keyed.get? "tier_cut_points" members) := by
    intro s
    cases Keyed.get? "tier_cut_points" members with
    | none => rfl
    | some v => cases h : WrittenScoring.readCuts v <;> simp [givenCuts, h] <;> rfl
  cases Keyed.get? "indicators" members with
  | none => exact hcuts _
  | some v =>
    cases v with
    | obj indicators => exact bind_congr hcuts
    | null | bool | int | float | str | arr => rfl

theorem failing_indicators (v : Option Json) : failing Failure.ruling (givenIndicators v) = ofIndicators v := by
  cases v with
  | none => rfl
  | some v =>
    cases v with
    | obj indicators => exact failing_foldlM failing_indicator indicators _
    | null | bool | int | float | str | arr => rfl

theorem failing_givenCuts (s : WrittenScoring) (v : Option Json) :
    failing Failure.ruling (givenCuts s v) = v.bind ofCuts := by
  cases v with
  | none => rfl
  | some v => exact (failing_map _ _).trans (failing_cuts v)

theorem failing_scoring (v : Json) : failing Failure.ruling (WrittenScoring.read v) = ofScoring v := by
  cases v with
  | obj members =>
    rw [read_eq, ofScoring, failing_bind fun s _ => failing_givenCuts s _, failing_indicators]
  | null | bool | int | float | str | arr => rfl

theorem failing_member (file : String) (c : Config) (member : String × Json) :
    failing Failure.ruling (c.set file member) = ofMember member := by
  obtain ⟨key, v⟩ := member
  simp only [Config.set, ofMember, beq_iff_eq]
  by_cases hs : key = "scoring"
  · rw [if_pos hs, if_pos hs, failing_map, failing_scoring]
  · rw [if_neg hs, if_neg hs]
    cases hk : Config.isSetting key with
    | false => rfl
    | true =>
      by_cases hp : key = "interface_mode" ∧ Config.isPlacement v = false
      · simp [hp, failing, Failure.ruling]
      · have hplaced : (key == "interface_mode" && !Config.isPlacement v) = false := by simpa using hp
        simp [hp, hplaced, failing]

theorem failing_text (l : Json.Limits) (processors : Option Nat) (root path text : String) :
    failing Failure.ruling (Config.ofText l processors root path text) = ofText l text := by
  unfold Config.ofText ofText
  cases Json.read l text with
  | error e => cases e <;> rfl
  | ok v =>
    cases v with
    | obj members => exact failing_foldlM (fun c member => failing_member _ c member) members _
    | null | bool | int | float | str | arr => rfl

end Ruling

end Retype

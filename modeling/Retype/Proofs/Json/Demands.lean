import Retype.Json.Conversion
import Retype.Proofs.Fault

/-!
# Demands on values

A record is read of a value by steps, each of which asks something of the value: that it is
a table with a key, that what stands there makes an integer, that it can be gone through. A
demand tells of what kind the fault is if the value does not meet it. The first demand of a
record that is not met tells of what kind the fault of reading it is.
-/

set_option autoImplicit false

namespace Retype

namespace Json

/-- The kind of the fault that comes of asking something of a value, if it cannot serve. -/
abbrev Demand := Json → Option Fault.Kind

namespace Demand

def anything : Demand := fun _ => none

def integer : Demand
  | .int _ | .bool _ => none
  | .float x => if (Binary.of? x).isSome then none else some (if x.isNaN then .value else .range)
  | .str s => if (Numeral.int? s).isSome then none else some .value
  | .null | .arr _ | .obj _ => some .type

def each (d : Demand) : Demand
  | .arr items => items.findSome? d
  | .str s => (s.toList.map fun c => Json.str c.toString).findSome? d
  | .obj members => (members.map fun m => Json.str m.1).findSome? d
  | .null | .bool _ | .int _ | .float _ => some .type

def needed (key : String) (d : Demand) : Demand
  | .obj members => match Keyed.get? key members with
    | some m => d m
    | none => some .key
  | _ => some .type

def allowed (key : String) (d : Demand) : Demand
  | .obj members => (Keyed.get? key members).bind d
  | _ => some .member

def all (ds : List Demand) : Demand := fun v => ds.findSome? fun d => d v

end Demand

open Demand

variable {α β : Type} {v : Json} {d : Demand} {f : Json → Except Fault α}

theorem failing_toInt (v : Json) : failing Fault.kind v.toInt = integer v := by
  cases v with
  | int | bool | null | arr | obj => rfl
  | float x =>
    simp only [toInt, integer]
    cases hx : Binary.of? x with
    | some => rfl
    | none => cases hn : x.isNaN <;> simp [failing, Fault.kind]
  | str s =>
    simp only [toInt, integer]
    cases hs : Numeral.int? s with
    | some => rfl
    | none =>
      by_cases hd : Numeral.digitLimit < Numeral.leadingDigits s
      · simp [failing, hd, Fault.kind]
      · simp [failing, hd, Fault.kind]

theorem failing_each (hf : ∀ v, failing Fault.kind (f v) = d v) (v : Json) :
    failing Fault.kind (v.each >>= List.mapM f) = Demand.each d v := by
  have hitems : ∀ items : List Json, failing Fault.kind (items.mapM f) = items.findSome? d := by
    intro items
    rw [failing_mapM, funext hf]
  cases v with
  | arr | str | obj => exact hitems _
  | null | bool | int | float => rfl

theorem failing_items (v : Json) : failing Fault.kind v.each = Demand.each anything v := by
  have hitems : ∀ items : List Json, items.findSome? anything = none :=
    fun items => List.findSome?_eq_none_iff.mpr fun _ _ => rfl
  cases v with
  | arr | str | obj => exact (hitems _).symm
  | null | bool | int | float => rfl

theorem failing_need (key : String) (hf : ∀ v, failing Fault.kind (f v) = d v) (v : Json) :
    failing Fault.kind (v.need key >>= f) = needed key d v := by
  cases v with
  | obj members =>
    simp only [need, needed]
    cases Keyed.get? key members with
    | none => rfl
    | some m => exact hf m
  | _ => rfl

theorem failing_getD (key : String) {w : Json} (hf : ∀ v, failing Fault.kind (f v) = d v)
    (hw : d w = none) (v : Json) : failing Fault.kind (v.getD key w >>= f) = allowed key d v := by
  cases v with
  | obj members =>
    simp only [getD, allowed, bind_ok, hf]
    cases Keyed.get? key members with
    | none => exact hw
    | some m => rfl
  | _ => rfl

theorem failing_needed (key : String) (v : Json) : failing Fault.kind (v.need key) = needed key anything v := by
  have h := failing_need key (f := Except.ok) (d := anything) (fun _ => rfl) v
  rwa [show (Except.ok : Json → Except Fault Json) = pure from rfl, bind_pure] at h

theorem failing_allowed (key : String) (w v : Json) :
    failing Fault.kind (v.getD key w) = allowed key anything v := by
  have h := failing_getD key (f := Except.ok) (d := anything) (w := w) (fun _ => rfl) rfl v
  rwa [show (Except.ok : Json → Except Fault Json) = pure from rfl, bind_pure] at h

theorem failing_next {ds : List Demand} {x : Except Fault α} {r : α → Except Fault β}
    (hx : failing Fault.kind x = d v) (hr : ∀ a, failing Fault.kind (r a) = all ds v) :
    failing Fault.kind (x >>= r) = all (d :: ds) v := by
  rw [failing_bind fun a _ => hr a, hx, all, all, List.findSome?_cons]
  cases d v <;> rfl

/-- A step of reading that looks at what the one before it gave. -/
theorem failing_through {γ : Type} {ds : List Demand} {x : Except Fault γ} {g : γ → Except Fault α}
    {r : γ → α → Except Fault β} (hx : failing Fault.kind (x >>= g) = d v)
    (hr : ∀ c a, failing Fault.kind (r c a) = all ds v) :
    failing Fault.kind (x >>= fun c => g c >>= r c) = all (d :: ds) v := by
  cases x with
  | error f =>
    rw [all, List.findSome?_cons, ← hx]
    rfl
  | ok c =>
    rw [bind_ok] at hx ⊢
    exact failing_next hx (hr c)

/-! ## What an unmet demand tells -/

namespace Demand

variable {ds : List Demand} {members : List (String × Json)} {key : String} {k : Fault.Kind}

theorem all_told (h : all ds v = some k) : ∃ d ∈ ds, d v = some k :=
  List.exists_of_findSome?_eq_some h

theorem needed_told (h : needed key d (.obj members) = some k) :
    k = .key ∨ ∃ m, Keyed.get? key members = some m ∧ d m = some k := by
  simp only [needed] at h
  cases hm : Keyed.get? key members with
  | none =>
    rw [hm] at h
    exact Or.inl (Option.some.inj h).symm
  | some m =>
    rw [hm] at h
    exact Or.inr ⟨m, rfl, h⟩

theorem allowed_told (h : allowed key d (.obj members) = some k) :
    ∃ m, Keyed.get? key members = some m ∧ d m = some k :=
  Option.bind_eq_some_iff.mp h

theorem each_told (h : each d v = some k) : k = .type ∨ ∃ w, d w = some k := by
  have hitems : ∀ items : List Json, items.findSome? d = some k → ∃ w, d w = some k := by
    intro items hk
    obtain ⟨w, -, hw⟩ := List.exists_of_findSome?_eq_some hk
    exact ⟨w, hw⟩
  cases v with
  | arr | str | obj => exact Or.inr (hitems _ h)
  | null | bool | int | float => exact Or.inl (Option.some.inj h).symm

theorem integer_told (h : integer v = some k) : k = .type ∨ k = .value ∨
    k = .range ∧ ∃ x, v = .float x ∧ Binary.of? x = none ∧ x.isNaN = false := by
  cases v with
  | int | bool => cases h
  | null | arr | obj => exact Or.inl (Option.some.inj h).symm
  | str s =>
    simp only [integer] at h
    split at h
    · cases h
    · exact Or.inr (Or.inl (Option.some.inj h).symm)
  | float x =>
    simp only [integer] at h
    split at h
    · cases h
    · next hx =>
      cases hn : x.isNaN with
      | true =>
        rw [hn] at h
        exact Or.inr (Or.inl (Option.some.inj h).symm)
      | false =>
        rw [hn] at h
        exact Or.inr (Or.inr ⟨(Option.some.inj h).symm, x, rfl, Option.not_isSome_iff_eq_none.mp hx, hn⟩)

end Demand

end Json

end Retype

import Mathlib.Algebra.BigOperators.Group.List.Basic
import Mathlib.Algebra.Ring.Int.Defs
import Retype.Proofs.Run.Records

/-!
# Which batches have totals

The complexities of a batch are added in turn: whole numbers exactly, and from the first
floating-point number on as floating-point numbers. The batch has an average exactly if all of
them are numbers, those that are rounded are near a floating-point number, and the share of each
member is finite; it has an effort if that is finite too.
-/

set_option autoImplicit false

namespace Retype

def Binary.Finite (x : Float) : Prop := (of? x).isSome

namespace Json

def whole? : Json → Option Int
  | int n => some n
  | bool b => some (if b then 1 else 0)
  | _ => none

def near? (v : Json) : Option Float := (v.numberOr .tooLarge).toOption

end Json

namespace Batch

variable {vs : List Json} {v s : Json} {a : Int} {x : Float}

/-! ## Sums -/

theorem add_whole {n : Int} (h : v.whole? = some n) : add (.int a) v = .ok (.int (a + n)) := by
  cases v with
  | int | bool =>
    cases h
    rfl
  | _ => cases h

theorem sum_whole {ns : List Int} (h : vs.mapM Json.whole? = some ns) :
    vs.foldlM add (.int a) = .ok (.int (a + ns.sum)) := by
  induction vs generalizing a ns with
  | nil =>
    cases h
    simp [pure, Except.pure]
  | cons v vs ih =>
    rw [List.mapM_cons] at h
    obtain ⟨n, hn, h⟩ := Option.bind_eq_some_iff.mp h
    obtain ⟨ms, hms, h⟩ := Option.bind_eq_some_iff.mp h
    cases h
    rw [List.foldlM_cons, add_whole hn, bind_ok, ih hms, List.sum_cons, Int.add_assoc]

theorem numberOr_near {e : Fault} {y : Float} : v.numberOr e = .ok y ↔ v.near? = some y := by
  cases v with
  | int n =>
    simp only [Json.near?, Json.numberOr]
    cases Json.ofInt n <;> simp [Except.toOption]
  | null | bool | float | str | arr | obj => simp [Json.near?, Json.numberOr, Except.toOption]

/-- Two numbers are added as floating-point numbers if each is near one. -/
theorem rounded_sum {e : Fault} {w : Json} :
    (do return .float ((← v.numberOr e) + (← w.numberOr e)) : Except Fault Json) = .ok s ↔
      ∃ x y, v.near? = some x ∧ w.near? = some y ∧ s = .float (x + y) := by
  constructor
  · intro h
    obtain ⟨x, hx, h⟩ := ok_bind h
    obtain ⟨y, hy, h⟩ := ok_bind h
    cases h
    exact ⟨x, y, numberOr_near.mp hx, numberOr_near.mp hy, rfl⟩
  · rintro ⟨x, y, hx, hy, rfl⟩
    rw [numberOr_near.mpr hx, bind_ok, numberOr_near.mpr hy]
    rfl

theorem add_float : add (.float x) v = .ok s ↔ ∃ y, v.near? = some y ∧ s = .float (x + y) := by
  have hx : (Json.float x).near? = some x := rfl
  cases v with
  | int | bool | float => exact rounded_sum.trans (by simp [hx])
  | null | str | arr | obj => simp [add, Json.near?, Json.numberOr, Except.toOption, throw, throwThe, MonadExceptOf.throw]

theorem add_int_float : add (.int a) (.float x) = .ok s ↔
    ∃ y, (Json.int a).near? = some y ∧ s = .float (y + x) := by
  have hx : (Json.float x).near? = some x := rfl
  exact rounded_sum.trans (by simp [hx])

theorem add_int_other (hw : v.whole? = none) (hf : ∀ x, v ≠ .float x) : add (.int a) v ≠ .ok s := by
  cases v with
  | int | bool => cases hw
  | float x => exact absurd rfl (hf x)
  | null | str | arr | obj => exact fun h => nomatch h

theorem sum_float : vs.foldlM add (.float x) = .ok s ↔
    ∃ ys, vs.mapM Json.near? = some ys ∧ s = .float (ys.foldl (· + ·) x) := by
  induction vs generalizing x with
  | nil =>
    constructor
    · intro h
      cases h
      exact ⟨[], rfl, rfl⟩
    · rintro ⟨ys, hys, rfl⟩
      cases hys
      rfl
  | cons v vs ih =>
    rw [List.foldlM_cons]
    constructor
    · intro h
      obtain ⟨r, hr, h⟩ := ok_bind h
      obtain ⟨y, hy, rfl⟩ := add_float.mp hr
      obtain ⟨ys, hys, rfl⟩ := ih.mp h
      exact ⟨y :: ys, by rw [List.mapM_cons, hy, hys]; rfl, rfl⟩
    · rintro ⟨zs, hzs, rfl⟩
      rw [List.mapM_cons] at hzs
      obtain ⟨y, hy, hzs⟩ := Option.bind_eq_some_iff.mp hzs
      obtain ⟨ys, hys, hzs⟩ := Option.bind_eq_some_iff.mp hzs
      cases hzs
      rw [add_float.mpr ⟨y, hy, rfl⟩, bind_ok]
      exact ih.mpr ⟨ys, hys, rfl⟩

/-- What numbers add up to: whole ones to a whole number, and from the first that is none on to
floating-point numbers. -/
inductive Sum (a : Int) (vs : List Json) : Json → Prop where
  | whole {ns : List Int} (h : vs.mapM Json.whole? = some ns) : Sum a vs (.int (a + ns.sum))
  | rounded {pre post : List Json} {x y : Float} {ns : List Int} {ys : List Float}
      (h : vs = pre ++ .float x :: post) (hpre : pre.mapM Json.whole? = some ns)
      (hy : (Json.int (a + ns.sum)).near? = some y) (hpost : post.mapM Json.near? = some ys) :
      Sum a vs (.float (ys.foldl (· + ·) (y + x)))

theorem Sum.cons {n : Int} (hv : v.whole? = some n) (h : Sum (a + n) vs s) : Sum a (v :: vs) s := by
  cases h with
  | @whole ns h =>
    have hall : (v :: vs).mapM Json.whole? = some (n :: ns) := by
      rw [List.mapM_cons, hv, h]
      rfl
    rw [Int.add_assoc, ← List.sum_cons]
    exact .whole hall
  | @rounded pre post x y ns ys h hpre hy hpost =>
    have hall : (v :: pre).mapM Json.whole? = some (n :: ns) := by
      rw [List.mapM_cons, hv, hpre]
      rfl
    rw [Int.add_assoc, ← List.sum_cons] at hy
    exact .rounded (by rw [h]; rfl) hall hy hpost

theorem sum_iff : vs.foldlM add (.int a) = .ok s ↔ Sum a vs s := by
  constructor
  · intro h
    induction vs generalizing a with
    | nil =>
      cases h
      have hsum : Sum a [] (.int (a + [].sum)) := .whole rfl
      rwa [List.sum_nil, Int.add_zero] at hsum
    | cons v vs ih =>
      rw [List.foldlM_cons] at h
      obtain ⟨r, hr, h⟩ := ok_bind h
      cases hw : v.whole? with
      | some n =>
        rw [add_whole hw] at hr
        cases hr
        exact .cons hw (ih h)
      | none =>
        -- the sum is exact up to here, and from the first floating-point number on it is rounded
        by_cases hf : ∃ x, v = .float x
        · obtain ⟨x, rfl⟩ := hf
          obtain ⟨y, hy, rfl⟩ := add_int_float.mp hr
          obtain ⟨ys, hys, rfl⟩ := sum_float.mp h
          have hpre : [].mapM Json.whole? = some [] := rfl
          refine .rounded (List.nil_append _).symm hpre ?_ hys
          rwa [List.sum_nil, Int.add_zero]
        · exact absurd hr (add_int_other hw fun x hx => hf ⟨x, hx⟩)
  · intro h
    cases h with
    | whole h => exact sum_whole h
    | @rounded pre post x y ns ys h hpre hy hpost =>
      rw [h, List.foldlM_append, sum_whole hpre, bind_ok, List.foldlM_cons,
        add_int_float.mpr ⟨y, hy, rfl⟩, bind_ok]
      exact sum_float.mpr ⟨ys, hpost, rfl⟩

/-! ## Totals -/

/-- The share of each of some members in a sum. -/
def Shared (n : Nat) : Json → Float → Prop
  | .int sum, x => x = Decimal.quotient sum n
  | .float sum, x => x = sum / Float.ofNat n
  | _, _ => False

theorem settle_iff : (∃ n, settle x = .ok n) ↔ Binary.Finite x := by
  unfold settle Binary.Finite
  cases Binary.of? x <;> simp

/-- A sum is shared out to an integer if the share is finite. -/
theorem settled_share {n : Nat} (h : Sum a vs s) :
    (∃ k, (share n s >>= settle) = .ok k) ↔ ∃ x, Shared n s x ∧ Binary.Finite x := by
  cases h with
  | whole =>
    simp only [share, Shared, exists_eq_left]
    split
    · exact settle_iff
    · next hx => exact iff_of_false (fun ⟨k, hk⟩ => nomatch hk) hx
  | rounded =>
    simp only [Shared, exists_eq_left]
    exact settle_iff

def Averaged (b : Batch) : Prop :=
  b.members = [] ∨ ∃ s x, Sum 0 (b.members.map (·.complexity)) s ∧ Shared b.size s x ∧ Binary.Finite x

theorem average_iff (b : Batch) : (∃ n, b.average = .ok n) ↔ b.Averaged := by
  unfold average Averaged
  cases hm : b.members with
  | nil => simp
  | cons m ms =>
    simp only [List.isEmpty_cons, Bool.false_eq_true, if_false, reduceCtorEq, false_or]
    constructor
    · rintro ⟨n, h⟩
      obtain ⟨s, hs, hshare⟩ := ok_bind h
      have hsum := sum_iff.mp hs
      obtain ⟨x, hx, hf⟩ := (settled_share hsum).mp ⟨n, hshare⟩
      exact ⟨s, x, hsum, hx, hf⟩
    · rintro ⟨s, x, hsum, hx, hf⟩
      obtain ⟨n, hn⟩ := (settled_share hsum).mpr ⟨x, hx, hf⟩
      refine ⟨n, ?_⟩
      rw [sum_iff.mpr hsum]
      exact hn

def Estimated (b : Batch) : Prop :=
  ∃ n, b.average = .ok n ∧
    Binary.Finite (Decimal.toFloat ((b.size : Int) * n < 0) ((b.size : Int) * n).natAbs (-1))

theorem effort_iff (b : Batch) : (∃ x, b.effort = .ok x) ↔ b.Estimated := by
  unfold Estimated
  constructor
  · rintro ⟨x, h⟩
    obtain ⟨n, hn, h⟩ := ok_bind h
    refine ⟨n, hn, ?_⟩
    dsimp only at h
    split at h
    · next hf => exact hf
    · cases h
  · rintro ⟨n, hn, hf⟩
    have heffort : b.effort = .ok (Decimal.toFloat ((b.size : Int) * n < 0) ((b.size : Int) * n).natAbs (-1)) := by
      rw [effort, hn, bind_ok]
      exact if_pos hf
    exact ⟨_, heffort⟩

theorem written_iff (b : Batch) : (∃ v, b.toJson = .ok v) ↔ b.Estimated := by
  rw [← effort_iff]
  constructor
  · rintro ⟨v, hv⟩
    obtain ⟨n, x, -, hx, -⟩ := toJson_ok.mp hv
    exact ⟨x, hx⟩
  · rintro ⟨x, hx⟩
    obtain ⟨n, hn, -⟩ := ok_bind hx
    exact ⟨_, toJson_ok.mpr ⟨n, x, hn, hx, rfl⟩⟩

end Batch

end Retype

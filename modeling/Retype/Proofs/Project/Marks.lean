import Retype.Proofs.Fault
import Retype.Proofs.Project.Scores

/-!
# What marks serve

Thresholds and cut points may be any three values. Whether two values compare does not depend
on the sign that is asked about. A profile has a score exactly if the first cut point is a
number and, for every indicator with thresholds, each threshold that its count is held against
is one: the first, and each other if the count passes those before it.
-/

set_option autoImplicit false

namespace Retype

namespace Json

mutual

/-- Whether two values have an order: texts, numbers, and lists whose first items that differ have one. -/
def comparable : Json → Json → Bool
  | str _, str _ => true
  | arr vs, arr ws => comparableItems vs ws
  | v, w => v.magnitude?.isSome && w.magnitude?.isSome

def comparableItems : List Json → List Json → Bool
  | v :: vs, w :: ws => if same v w then comparableItems vs ws else comparable v w
  | _, _ => true

end

mutual

theorem isSome_holds (sign : Sign) (v w : Json) : (holds sign v w).toOption.isSome = comparable v w := by
  cases v with
  | arr vs =>
    cases w with
    | arr ws =>
      rw [holds, comparable]
      exact isSome_holdsOfItems sign vs ws
    | null | bool | int | float | str | obj => rfl
  | null | bool | int | float | str | obj => cases w <;> rfl

theorem isSome_holdsOfItems (sign : Sign) (vs ws : List Json) :
    (holdsOfItems sign vs ws).toOption.isSome = comparableItems vs ws := by
  cases vs with
  | nil => cases ws <;> rfl
  | cons v vs =>
    cases ws with
    | nil => rfl
    | cons w ws =>
      rw [holdsOfItems, comparableItems]
      split
      · exact isSome_holdsOfItems sign vs ws
      · exact isSome_holds sign v w

end

theorem holds_iff {sign : Sign} {v w : Json} : (∃ b, holds sign v w = .ok b) ↔ comparable v w = true := by
  rw [← isSome_holds sign v w]
  cases holds sign v w <;> simp [Except.toOption]

theorem number_comparable {v w : Json} (hv : v.IsNumber) : comparable v w = true ↔ w.IsNumber := by
  obtain ⟨m, hm⟩ := hv
  cases v with
  | null | str | arr | obj => cases hm
  | int | bool | float => cases w <;> simp [comparable, magnitude?, IsNumber]

theorem comparable_number {v w : Json} (hv : v.IsNumber) : comparable w v = true ↔ w.IsNumber := by
  obtain ⟨m, hm⟩ := hv
  cases v with
  | null | str | arr | obj => cases hm
  | int | bool | float => cases w <;> simp [comparable, magnitude?, IsNumber]

theorem holds_magnitudes (sign : Sign) {v w : Json} {m n : Magnitude} (hm : v.magnitude? = some m)
    (hn : w.magnitude? = some n) : holds sign v w = .ok (sign.ofMagnitudes m n) := by
  cases v with
  | null | str | arr | obj => cases hm
  | int | bool | float =>
    cases w with
    | null | str | arr | obj => cases hn
    | int | bool | float => simp only [holds, hm, hn]

end Json

/-- Of two numbers one is at most the other, unless one of them is undefined. -/
theorem Magnitude.atMost_of_not_before {m n : Magnitude} (hm : m ≠ undefined) (hn : n ≠ undefined)
    (h : n.before m = false) : Sign.atMost.ofMagnitudes m n = true := by
  cases m with
  | undefined => exact absurd rfl hm
  | bottom => cases n <;> first | rfl | exact absurd rfl hn
  | top => cases n <;> first | rfl | exact absurd rfl hn | cases h
  | fraction a b =>
    cases n with
    | undefined => exact absurd rfl hn
    | bottom => cases h
    | top => rfl
    | fraction c d =>
      have hle : a * d ≤ c * b := by simpa [before] using h
      rcases Int.lt_or_eq_of_le hle with hlt | heq
      · simp [Sign.ofMagnitudes, Sign.picks, before, hlt]
      · simp [Sign.ofMagnitudes, Sign.picks, before, same, heq]

def Json.IsDefined (v : Json) : Prop := ∃ m, v.magnitude? = some m ∧ m ≠ .undefined

theorem Json.atMost_of_not_less {v w : Json} (hv : v.IsDefined) (hw : w.IsDefined)
    (h : holds .less w v = .ok false) : holds .atMost v w = .ok true := by
  obtain ⟨m, hm, hmd⟩ := hv
  obtain ⟨n, hn, hnd⟩ := hw
  rw [holds_magnitudes .less hn hm] at h
  rw [holds_magnitudes .atMost hm hn, Magnitude.atMost_of_not_before hmd hnd (Except.ok.inj h)]

/-! ## Scores -/

namespace Triple

/-- What three marks have to be for something to be held against them until one of them stops. -/
def Serves (t : Triple Json) (stops : Json → Except Fault Bool) : Prop :=
  t.first.IsNumber ∧ (stops t.first = .ok true ∨
    t.second.IsNumber ∧ (stops t.second = .ok true ∨ t.third.IsNumber))

theorem passed_iff {t : Triple Json} {stops : Json → Except Fault Bool}
    (hstops : ∀ v, (∃ b, stops v = .ok b) ↔ v.IsNumber) : (∃ n, t.passed stops = .ok n) ↔ t.Serves stops := by
  unfold passed Serves
  rw [← hstops, ← hstops, ← hstops]
  cases h₁ : stops t.first with
  | error => simp [bind, Except.bind]
  | ok b₁ =>
    cases b₁ with
    | true => simp [bind, Except.bind, pure, Except.pure]
    | false =>
      cases h₂ : stops t.second with
      | error => simp [bind, Except.bind]
      | ok b₂ =>
        cases b₂ with
        | true => simp [bind, Except.bind, pure, Except.pure]
        | false =>
          cases h₃ : stops t.third with
          | error => simp [bind, Except.bind]
          | ok b₃ => cases b₃ <;> simp [bind, Except.bind, pure, Except.pure]

end Triple

namespace WrittenScoring

theorem within_iff (count : Nat) (v : Json) : (∃ b, Scale.written.within count v = .ok b) ↔ v.IsNumber :=
  Json.holds_iff.trans (Json.number_comparable ⟨_, rfl⟩)

theorem below_iff (sum : Float) (v : Json) : (∃ b, Scale.written.below sum v = .ok b) ↔ v.IsNumber :=
  Json.holds_iff.trans (Json.number_comparable ⟨_, rfl⟩)

theorem contribution_iff {g : Gauge Float Json} {count : Nat} :
    (∃ x, Scoring.contribution Scale.written g count = .ok x) ↔
      ∀ t, g.thresholds = some t → t.Serves (Scale.written.within count) := by
  unfold Scoring.contribution Scoring.points
  cases ht : g.thresholds with
  | none => exact iff_of_true ⟨_, rfl⟩ fun t h => nomatch h
  | some t =>
    have hpassed := Triple.passed_iff (t := t) (within_iff count)
    constructor
    · rintro ⟨x, hx⟩ t' ht'
      cases ht'
      obtain ⟨points, hp, -⟩ := ok_bind hx
      obtain ⟨n, hn, -⟩ := ok_bind hp
      exact hpassed.mp ⟨n, hn⟩
    · intro h
      obtain ⟨n, hn⟩ := hpassed.mpr (h t rfl)
      dsimp only
      rw [hn]
      exact ⟨_, rfl⟩

theorem contributions_iff {s : WrittenScoring} {counts : Indicator → Nat} (is : List Indicator) :
    (∃ cs, (is.mapM fun i => do
        return (i, ← Scoring.contribution Scale.written (s.gauge i) (counts i)) : Except Fault _) = .ok cs) ↔
      ∀ i ∈ is, ∀ t, (s.gauge i).thresholds = some t → t.Serves (Scale.written.within (counts i)) := by
  induction is with
  | nil => exact iff_of_true ⟨[], rfl⟩ fun i hi => nomatch hi
  | cons i is ih =>
    rw [List.forall_mem_cons, ← contribution_iff, ← ih, List.mapM_cons]
    constructor
    · rintro ⟨cs, h⟩
      obtain ⟨c, hc, h⟩ := ok_bind h
      obtain ⟨x, hx, -⟩ := ok_bind hc
      obtain ⟨cs', hcs, -⟩ := ok_bind h
      exact ⟨⟨x, hx⟩, cs', hcs⟩
    · rintro ⟨⟨x, hx⟩, cs, hcs⟩
      rw [hx, hcs]
      exact ⟨_, rfl⟩

theorem mem_all (i : Indicator) : i ∈ Indicator.all := by cases i <;> decide

/-- Of the cut points each next one is not before the last. -/
structure Ascends (t : Triple Json) : Prop where
  first : Json.holds .less t.second t.first = .ok false
  last : Json.holds .less t.third t.second = .ok false

theorem Ascends.numeric {t : Triple Json} (h : Ascends t) (hn : t.first.IsNumber) : t.Numeric := by
  have hsecond := (Json.comparable_number hn).mp (Json.holds_iff.mp ⟨_, h.first⟩)
  exact ⟨hn, hsecond, (Json.comparable_number hsecond).mp (Json.holds_iff.mp ⟨_, h.last⟩)⟩

/-- Under cut points that ascend, counts have a score exactly if the cut points are numbers and
every threshold that a count is held against is one. -/
theorem score_iff {s : WrittenScoring} (hcuts : Ascends s.cuts) (settle : Float → Float)
    (counts : Indicator → Nat) : (∃ x, Scoring.score Scale.written settle s counts = .ok x) ↔
      s.cuts.first.IsNumber ∧
        ∀ i t, (s.gauge i).thresholds = some t → t.Serves (Scale.written.within (counts i)) := by
  have hall : (∃ cs, Scoring.contributions Scale.written s counts = .ok cs) ↔
      ∀ i t, (s.gauge i).thresholds = some t → t.Serves (Scale.written.within (counts i)) :=
    (contributions_iff Indicator.all).trans ⟨fun h i => h i (mem_all i), fun h i _ => h i⟩
  rw [← hall, Scoring.score]
  constructor
  · rintro ⟨x, h⟩
    obtain ⟨cs, hcs, h⟩ := ok_bind h
    obtain ⟨n, hn, -⟩ := ok_bind h
    exact ⟨((Triple.passed_iff (below_iff _)).mp ⟨n, hn⟩).1, cs, hcs⟩
  · rintro ⟨hn, cs, hcs⟩
    obtain ⟨n, hpassed⟩ := Triple.passed_numbers (hcuts.numeric hn)
      (Scale.written.below (settle (Scoring.total cs))) fun v hv => (below_iff _ v).mpr hv
    rw [hcs, bind_ok]
    dsimp only
    rw [hpassed]
    exact ⟨_, rfl⟩

end WrittenScoring

end Retype

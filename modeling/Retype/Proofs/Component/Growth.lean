import Mathlib.Algebra.BigOperators.Group.List.Basic
import Mathlib.Algebra.Order.BigOperators.Group.List
import Mathlib.Data.List.Forall2
import Mathlib.Data.Rat.Cast.Order
import Mathlib.Tactic.GCongr
import Mathlib.Tactic.Linarith
import Mathlib.Tactic.Positivity
import Retype.Component.Profile
import Retype.Json.Comparison

/-!
# Scores grow with the counts

On exact numbers a score never falls when counts rise, whatever the weights, values and marks
are: marks that are out of order only make steps that are never taken, and where a weight would
turn a rise into a fall, nothing is contributed at all. Rounding and the cut into tiers keep the
order.
-/

set_option autoImplicit false

namespace Retype

/-! ## Rounding -/

theorem nearest_bounds (num den : Nat) : num / den ≤ nearest num den ∧ nearest num den ≤ num / den + 1 := by
  simp only [nearest]
  split <;> try split <;> try split
  all_goals omega

/-- The larger of two fractions is not rounded to the smaller integer. -/
theorem nearest_le {a b c d : Nat} (hb : 0 < b) (hd : 0 < d) (h : a * d ≤ c * b) :
    nearest a b ≤ nearest c d := by
  have hlow : a / b ≤ c / d := by
    rw [← Nat.mul_div_mul_right a b hd, ← Nat.mul_div_mul_left c d hb, Nat.mul_comm b c]
    exact Nat.div_le_div_right h
  rcases Nat.lt_or_eq_of_le hlow with hlt | heq
  · exact (nearest_bounds a b).2.trans ((Nat.succ_le_of_lt hlt).trans (nearest_bounds c d).1)
  · -- where the next integer below is the same, what is left over decides
    have hrest : 2 * (a % b) * d ≤ 2 * (c % d) * b := by
      rw [← Nat.div_add_mod a b, ← Nat.div_add_mod c d, heq] at h
      linarith
    have hover : b < 2 * (a % b) → d < 2 * (c % d) := fun hr => by
      have := Nat.mul_lt_mul_of_pos_right hr hd
      have hproduct : d * b < 2 * (c % d) * b := by linarith
      exact Nat.lt_of_mul_lt_mul_right hproduct
    have hhalf : b ≤ 2 * (a % b) → d ≤ 2 * (c % d) := fun hr => by
      have := Nat.mul_le_mul_right d hr
      have hproduct : d * b ≤ 2 * (c % d) * b := by linarith
      exact Nat.le_of_mul_le_mul_right hproduct hb
    simp only [nearest, ← heq]
    grind

namespace Decimal

def settled (places : Nat) (x : ℚ) : ℚ :=
  Binary.signed (decide (x < 0)) (nearest (x.num.natAbs * 10 ^ places) x.den) / 10 ^ places

theorem settled_of_nonneg {places : Nat} {x : ℚ} (hx : 0 ≤ x) :
    settled places x = (nearest (x.num.natAbs * 10 ^ places) x.den : ℚ) / 10 ^ places := by
  rw [settled, decide_eq_false (not_lt.mpr hx)]
  rfl

theorem settled_le {places : Nat} {x y : ℚ} (hx : 0 ≤ x) (h : x ≤ y) :
    settled places x ≤ settled places y := by
  have hy : 0 ≤ y := hx.trans h
  have hcross : x.num.natAbs * y.den ≤ y.num.natAbs * x.den := by
    have hle := (Rat.le_iff x y).mp h
    rw [← Int.natAbs_of_nonneg (Rat.num_nonneg.mpr hx), ← Int.natAbs_of_nonneg (Rat.num_nonneg.mpr hy)] at hle
    exact_mod_cast hle
  have hscaled : x.num.natAbs * 10 ^ places * y.den ≤ y.num.natAbs * 10 ^ places * x.den := by
    have := Nat.mul_le_mul_right (10 ^ places) hcross
    linarith
  rw [settled_of_nonneg hx, settled_of_nonneg hy]
  gcongr
  exact nearest_le x.den_pos y.den_pos hscaled

end Decimal

/-! ## Marks -/

/-- The scale of exact sums. Marks may be any numbers, also endless ones and what is no number. -/
def Scale.marked : Scale Id ℚ Magnitude :=
  ⟨fun count mark => pure (Sign.atMost.ofMagnitudes (.fraction count 1) mark),
   fun sum mark => pure (Sign.less.ofMagnitudes (.fraction sum.num sum.den) mark)⟩

theorem Scale.within_of_le {m n : Nat} (h : m ≤ n) {mark : Magnitude}
    (hn : (marked.within n mark).run = true) : (marked.within m mark).run = true := by
  cases mark with
  | fraction num den =>
    have := Nat.mul_le_mul_right den h
    simp [marked, Sign.ofMagnitudes, Sign.picks, Magnitude.before, Magnitude.same] at hn ⊢
    omega
  | bottom => exact hn
  | top => exact hn
  | undefined => exact hn

theorem Scale.below_of_le {x y : ℚ} (h : x ≤ y) {mark : Magnitude}
    (hy : (marked.below y mark).run = true) : (marked.below x mark).run = true := by
  cases mark with
  | fraction num den =>
    simp only [marked, Sign.ofMagnitudes, Sign.picks, Magnitude.before, Id.run_pure, decide_eq_true_eq] at hy ⊢
    have hcross := mul_le_mul_of_nonneg_right ((Rat.le_iff x y).mp h) (Int.natCast_nonneg den)
    have hstep := mul_lt_mul_of_pos_right hy (Int.natCast_pos.mpr x.den_pos)
    exact lt_of_mul_lt_mul_right (by linarith) (Int.natCast_nonneg y.den)
  | bottom => exact hy
  | top => exact hy
  | undefined => exact hy

section

variable {μ : Type} {t : Triple μ} {stops stops' : μ → Id Bool}

theorem Triple.passed_run : (t.passed stops).run =
    if (stops t.first).run then 0 else if (stops t.second).run then 1 else if (stops t.third).run then 2
    else 3 := rfl

theorem Triple.passed_le (h : ∀ mark, (stops' mark).run = true → (stops mark).run = true) :
    (t.passed stops).run ≤ (t.passed stops').run := by
  have hfirst := h t.first
  have hsecond := h t.second
  have hthird := h t.third
  rw [passed_run, passed_run]
  grind

end

/-! ## Contributions -/

namespace Scoring

variable {s : Scoring ℚ Magnitude} {g : Gauge ℚ Magnitude} {m n : Nat} {counts counts' : Indicator → Nat}

theorem contribution_run (g : Gauge ℚ Magnitude) (n : Nat) : (contribution Scale.marked g n).run =
    max 0 ((points Scale.marked g n).run * g.weight) := by
  show (if 0 < (points Scale.marked g n).run * g.weight then (points Scale.marked g n).run * g.weight else 0) = _
  split
  · next hpos => exact (max_eq_right hpos.le).symm
  · next hneg => exact (max_eq_left (not_lt.mp hneg)).symm

theorem contribution_nonneg (g : Gauge ℚ Magnitude) (n : Nat) : 0 ≤ (contribution Scale.marked g n).run := by
  rw [contribution_run]
  exact le_max_left _ _

theorem weighed_le {x y w : ℚ} (hx : 0 ≤ x) (h : x ≤ y) : max 0 (x * w) ≤ max 0 (y * w) := by
  rcases le_total 0 w with hw | hw
  · exact max_le_max le_rfl (mul_le_mul_of_nonneg_right h hw)
  · rw [max_eq_left (mul_nonpos_of_nonneg_of_nonpos hx hw)]
    exact le_max_left _ _

theorem contribution_le (g : Gauge ℚ Magnitude) (h : m ≤ n) :
    (contribution Scale.marked g m).run ≤ (contribution Scale.marked g n).run := by
  rw [contribution_run, contribution_run]
  cases ht : g.thresholds with
  | some t =>
    have hpassed : (t.passed (Scale.marked.within m)).run ≤ (t.passed (Scale.marked.within n)).run :=
      Triple.passed_le fun mark => Scale.within_of_le h
    have hpoints : ∀ k, (points Scale.marked g k).run = ((t.passed (Scale.marked.within k)).run : ℚ) := by
      intro k
      rw [points, ht]
      rfl
    rw [hpoints, hpoints]
    exact weighed_le (Nat.cast_nonneg _) (Nat.cast_le.mpr hpassed)
  | none =>
    have hpoints : ∀ k, (points Scale.marked g k).run = if k = 0 then 0 else g.value := by
      intro k
      rw [points, ht]
      rfl
    rw [hpoints, hpoints]
    by_cases hm : m = 0
    · rw [if_pos hm, zero_mul, max_self]
      exact le_max_left _ _
    · rw [if_neg hm, if_neg (by omega)]

theorem contributions_run (s : Scoring ℚ Magnitude) (counts : Indicator → Nat) :
    (contributions Scale.marked s counts).run =
      Indicator.all.map fun i => (i, (contribution Scale.marked (s.gauge i) (counts i)).run) :=
  List.idRun_mapM

/-! ## Sums -/

theorem total_sum (cs : List (Indicator × ℚ)) : total cs = (cs.map Prod.snd).sum := by
  rw [total, List.sum_eq_foldl, List.foldl_map]

theorem total_le {cs ds : List (Indicator × ℚ)} (h : List.Forall₂ (fun c d => c.2 ≤ d.2) cs ds) :
    total cs ≤ total ds := by
  rw [total_sum, total_sum]
  exact List.Forall₂.sum_le_sum (by simpa using h)

theorem total_nonneg {cs : List (Indicator × ℚ)} (h : ∀ c ∈ cs, 0 ≤ c.2) : 0 ≤ total cs := by
  rw [total_sum]
  refine List.sum_nonneg fun x hx => ?_
  obtain ⟨c, hc, rfl⟩ := List.mem_map.mp hx
  exact h c hc

end Scoring

/-! ## Tiers -/

def Tier.rank : Tier → Nat
  | low => 0
  | medium => 1
  | high => 2
  | veryHigh => 3

theorem Tier.above_rank (n : Nat) : (above n).rank = min n 3 := by
  match n with
  | 0 | 1 | 2 => rfl
  | n + 3 => simp [above, rank]

theorem Tier.above_le {m n : Nat} (h : m ≤ n) : (above m).rank ≤ (above n).rank := by
  rw [above_rank, above_rank]
  exact min_le_min_right 3 h

/-! ## Scores -/

namespace Profile

def exactScore (s : Scoring ℚ Magnitude) (p : Profile) : Score ℚ :=
  (s.score Scale.marked (Decimal.settled 4) p.count).run

variable {s : Scoring ℚ Magnitude} {p q : Profile}

theorem exactScore_contributions (s : Scoring ℚ Magnitude) (p : Profile) : (p.exactScore s).contributions =
    Indicator.all.map fun i => (i, (Scoring.contribution Scale.marked (s.gauge i) (p.count i)).run) :=
  Scoring.contributions_run s p.count

theorem exactScore_raw (s : Scoring ℚ Magnitude) (p : Profile) :
    (p.exactScore s).raw = Decimal.settled 4 (Scoring.total (p.exactScore s).contributions) := rfl

theorem exactScore_tier (s : Scoring ℚ Magnitude) (p : Profile) : (p.exactScore s).tier =
    .above (s.cuts.passed (Scale.marked.below (p.exactScore s).raw)).run := rfl

/-- Where no indicator counts more, no indicator contributes more, and neither the raw score nor
the tier is higher; and no contribution is below zero. -/
theorem exactScore_le (s : Scoring ℚ Magnitude) (h : ∀ i, p.count i ≤ q.count i) :
    List.Forall₂ (fun x y => x.1 = y.1 ∧ 0 ≤ x.2 ∧ x.2 ≤ y.2) (p.exactScore s).contributions
        (q.exactScore s).contributions ∧
      (p.exactScore s).contributions.map Prod.fst = Indicator.all ∧
      (p.exactScore s).raw ≤ (q.exactScore s).raw ∧
      (p.exactScore s).tier.rank ≤ (q.exactScore s).tier.rank := by
  have hpairs : List.Forall₂ (fun x y => x.1 = y.1 ∧ 0 ≤ x.2 ∧ x.2 ≤ y.2) (p.exactScore s).contributions
      (q.exactScore s).contributions := by
    rw [exactScore_contributions, exactScore_contributions, List.forall₂_map_left_iff,
      List.forall₂_map_right_iff, List.forall₂_same]
    exact fun i _ => ⟨rfl, Scoring.contribution_nonneg _ _, Scoring.contribution_le _ (h i)⟩
  have hraw : (p.exactScore s).raw ≤ (q.exactScore s).raw := by
    rw [exactScore_raw, exactScore_raw]
    refine Decimal.settled_le (Scoring.total_nonneg fun c hc => ?_)
      (Scoring.total_le (hpairs.imp fun _ _ hxy => hxy.2.2))
    rw [exactScore_contributions] at hc
    obtain ⟨i, -, rfl⟩ := List.mem_map.mp hc
    exact Scoring.contribution_nonneg _ _
  refine ⟨hpairs, ?_, hraw, ?_⟩
  · rw [exactScore_contributions, List.map_map]
    exact List.map_id _
  · rw [exactScore_tier, exactScore_tier]
    exact Tier.above_le (Triple.passed_le fun mark => Scale.below_of_le hraw)

/-- Weights and values below zero, thresholds and cut points that are out of order, and marks
that no count and no sum is held against. -/
def upsideDown : Scoring ℚ Magnitude where
  gauge
    | .effectCount => ⟨3 / 7, some ⟨.fraction 2 1, .fraction 0 1, .undefined⟩, 0⟩
    | .refCount => ⟨-2, some ⟨.fraction 0 1, .fraction 9 1, .top⟩, 0⟩
    | .classComponent => ⟨-1, none, -3⟩
    | .hocUsage => ⟨1, none, -3⟩
    | _ => ⟨1, some ⟨.top, .bottom, .fraction 5 2⟩, 0⟩
  cuts := ⟨.fraction 1 1, .bottom, .fraction 4 1⟩

def plainPart : Profile := { path := "a.jsx", name := "A", kind := .functionComponent, effects := [default] }

def busyPart : Profile :=
  { path := "b.jsx", name := "B", kind := .classComponent, effects := [default, default, default]
    refs := [default] }

theorem upsideDown_le : (∀ i, plainPart.count i ≤ busyPart.count i) ∧
    (plainPart.exactScore upsideDown).raw = 0 ∧
    (busyPart.exactScore upsideDown).raw = 42857 / 10000 ∧
    (plainPart.exactScore upsideDown).tier = .low ∧ (busyPart.exactScore upsideDown).tier = .veryHigh ∧
    (plainPart.exactScore upsideDown).raw ≤ (busyPart.exactScore upsideDown).raw := by
  have hcounts : ∀ i, plainPart.count i ≤ busyPart.count i := by
    intro i
    cases i <;> decide
  obtain ⟨-, -, hraw, -⟩ := exactScore_le upsideDown hcounts
  exact ⟨hcounts, by decide +kernel, by decide +kernel, by decide +kernel, by decide +kernel, hraw⟩

end Profile

end Retype

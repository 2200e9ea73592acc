import Retype.Project.Scoring

/-!
# Scores of profiles

Where all thresholds and cut points are numbers, every profile has a score.
-/

set_option autoImplicit false

namespace Retype

def Json.IsNumber (v : Json) : Prop := ∃ m, v.magnitude? = some m

/-- Numbers compare. -/
theorem Json.holds_numbers {v w : Json} (sign : Sign) (hv : v.IsNumber) (hw : w.IsNumber) :
    ∃ b, holds sign v w = .ok b := by
  obtain ⟨m, hm⟩ := hv
  obtain ⟨n, hn⟩ := hw
  refine ⟨sign.ofMagnitudes m n, ?_⟩
  cases v with
  | null | str | arr | obj => cases hm
  | _ =>
    cases w with
    | null | str | arr | obj => cases hn
    | _ => simp only [holds, hm, hn]

structure Triple.Numeric (t : Triple Json) : Prop where
  first : t.first.IsNumber
  second : t.second.IsNumber
  third : t.third.IsNumber

theorem Triple.passed_numbers {t : Triple Json} (h : t.Numeric) (stops : Json → Except Fault Bool)
    (hs : ∀ v : Json, v.IsNumber → ∃ b, stops v = .ok b) : ∃ n, t.passed stops = .ok n := by
  obtain ⟨a, ha⟩ := hs _ h.first
  obtain ⟨b, hb⟩ := hs _ h.second
  obtain ⟨c, hc⟩ := hs _ h.third
  unfold passed
  simp only [ha, hb, hc, bind, Except.bind, pure, Except.pure]
  cases a <;> cases b <;> cases c <;> exact ⟨_, rfl⟩

namespace WrittenScoring

structure Numeric (s : WrittenScoring) : Prop where
  thresholds : ∀ i t, (s.gauge i).thresholds = some t → t.Numeric
  cuts : s.cuts.Numeric

variable {s : WrittenScoring}

theorem contribution_numbers {g : Gauge Float Json}
    (h : ∀ t, g.thresholds = some t → t.Numeric) (count : Nat) :
    ∃ x, Scoring.contribution Scale.written g count = .ok x := by
  unfold Scoring.contribution Scoring.points
  cases ht : g.thresholds with
  | none => exact ⟨_, rfl⟩
  | some t =>
    obtain ⟨n, hn⟩ := Triple.passed_numbers (h t ht) (Scale.written.within count)
      fun v hv => Json.holds_numbers .atMost ⟨_, rfl⟩ hv
    simp only [hn, bind, Except.bind]
    exact ⟨_, rfl⟩

theorem contributions_numbers (h : s.Numeric) (counts : Indicator → Nat) :
    ∃ cs, Scoring.contributions Scale.written s counts = .ok cs := by
  unfold Scoring.contributions
  induction Indicator.all with
  | nil => exact ⟨[], rfl⟩
  | cons i is ih =>
    obtain ⟨x, hx⟩ := contribution_numbers (h.thresholds i) (counts i)
    obtain ⟨cs, hcs⟩ := ih
    rw [List.mapM_cons, hx, hcs]
    exact ⟨_, rfl⟩

theorem score_numbers (h : s.Numeric) (settle : Float → Float) (counts : Indicator → Nat) :
    ∃ x, Scoring.score Scale.written settle s counts = .ok x := by
  obtain ⟨cs, hcs⟩ := contributions_numbers h counts
  obtain ⟨n, hn⟩ := Triple.passed_numbers h.cuts
    (Scale.written.below (settle (Scoring.total cs)))
    fun v hv => Json.holds_numbers .less ⟨_, rfl⟩ hv
  unfold Scoring.score
  simp only [hcs, hn, bind, Except.bind]
  exact ⟨_, rfl⟩

theorem standard_numeric : standard.Numeric where
  thresholds := by
    intro i t ht
    cases i <;> cases ht <;> exact ⟨⟨_, rfl⟩, ⟨_, rfl⟩, ⟨_, rfl⟩⟩
  cuts := ⟨⟨_, rfl⟩, ⟨_, rfl⟩, ⟨_, rfl⟩⟩

end WrittenScoring

end Retype

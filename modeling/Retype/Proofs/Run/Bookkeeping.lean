import Mathlib.Logic.Relation
import Retype.Proofs.Run.Progress

/-!
# The views of progress agree

What is pending, how many are completed, which comes next and the outcomes in order are all
read off the same results. They fit together whatever checkpoint progress was taken up from,
and in whatever order outcomes of the batch are committed, also to an index that has one; and
no commit takes back the number of completed indices, or the next one.
-/

set_option autoImplicit false

namespace Retype.Progress

/-- How progress through a batch of some size begins: with nothing, or with what a checkpoint
tells, whatever that is. -/
inductive Begins (count : Nat) : Progress → Prop where
  | fresh (batch : Int) : Begins count { batch, count }
  | resumed (c : Checkpoint) : Begins count (ofCheckpoint c count)

/-- An outcome is committed that is of an index of the batch. -/
def Commits (p q : Progress) : Prop :=
  ∃ o : Outcome, (0 ≤ o.index ∧ o.index < p.count) ∧ q = p.commit o

/-- All that can be asked of progress through a batch of some size agrees. -/
structure Consistent (count : Nat) (p : Progress) : Prop where
  ascending : p.pending.Pairwise (· < ·)
  unfilled : ∀ i, i ∈ p.pending ↔ (0 ≤ i ∧ i < count) ∧ i ∉ p.done
  total : p.completed + p.pending.length = count
  head : p.next = p.pending.head?.getD count
  first : Checkpoint.IsNext count p.done p.next
  all : (p.ordered.map (·.index)).Perm p.done
  ordered : (p.ordered.map (·.index)).Pairwise (· < ·)

variable {count : Nat} {p q r : Progress}

theorem Begins.sound (h : Begins count p) : p.Sound ∧ p.count = count := by
  cases h with
  | fresh batch => exact ⟨fresh_sound batch count, rfl⟩
  | resumed c => exact ⟨ofCheckpoint_sound c count, rfl⟩

theorem Sound.consistent (h : p.Sound) (hc : p.count = count) : Consistent count p where
  ascending := p.pending_ascending
  unfilled := fun i => by rw [mem_pending, hc]
  total := by
    have hlength := h.parts.length_eq
    rw [List.length_append, List.length_map, List.length_range, hc, Int.toNat_natCast] at hlength
    rwa [done, Keyed.keys, List.length_map] at hlength
  head := by rw [next_eq_head, hc]
  first := hc ▸ next_isNext (hc ▸ Int.natCast_nonneg count) fun i hi => (h.within i hi).2
  all := ordered_indices h
  ordered := ordered_ascending h

theorem Commits.sound (h : Commits p q) (hp : p.Sound) : q.Sound ∧ q.count = p.count := by
  obtain ⟨o, ⟨h₀, hc⟩, rfl⟩ := h
  exact ⟨commit_sound hp h₀ hc, rfl⟩

theorem Commits.done (h : Commits p q) : p.done ⊆ q.done := by
  obtain ⟨o, -, rfl⟩ := h
  exact fun i hi => mem_done_commit.mpr (Or.inr hi)

theorem commits_keep (h : Relation.ReflTransGen Commits p q) (hp : p.Sound) :
    (q.Sound ∧ q.count = p.count) ∧ p.done ⊆ q.done := by
  induction h with
  | refl => exact ⟨⟨hp, rfl⟩, fun _ => id⟩
  | tail _ hstep ih =>
    obtain ⟨⟨hsound, hcount⟩, hdone⟩ := ih
    obtain ⟨hsound', hcount'⟩ := hstep.sound hsound
    exact ⟨⟨hsound', hcount'.trans hcount⟩, fun i hi => hstep.done (hdone hi)⟩

theorem advance (hp : p.Sound) (hpc : p.count = count) (hqc : Consistent count q)
    (hdone : p.done ⊆ q.done) : p.completed ≤ q.completed ∧ p.next ≤ q.next := by
  constructor
  · have hle := (List.subperm_of_subset hp.distinct hdone).length_le
    simpa only [done, Keyed.keys, List.length_map, completed] using hle
  · by_contra hearlier
    -- an index before the first that is open in `p` is done there, and so in `q`
    have hfirst := (hp.consistent hpc).first
    exact hqc.first.unfilled (hdone (hfirst.below q.next hqc.first.low (by omega)))

/-- After any commits from any beginning all that can be asked of progress agrees, and further
commits take back neither the number of completed indices nor the next index. -/
theorem commits_consistent (hp : Begins count p) (hq : Relation.ReflTransGen Commits p q) :
    Consistent count q ∧ ∀ r, Relation.ReflTransGen Commits q r →
      q.completed ≤ r.completed ∧ q.next ≤ r.next := by
  obtain ⟨hsound, hcount⟩ := hp.sound
  obtain ⟨⟨hqs, hqc⟩, -⟩ := commits_keep hq hsound
  have hqc := hqc.trans hcount
  refine ⟨hqs.consistent hqc, fun r hr => ?_⟩
  obtain ⟨⟨hrs, hrc⟩, hdone⟩ := commits_keep hr hqs
  exact advance hqs hqc (hrs.consistent (hrc.trans hqc)) hdone

/-- A checkpoint that claims much: outcomes of indices that no batch of three has, one index
twice, and counters that fit nothing. -/
def boastful : Checkpoint :=
  { batch := 1, count := -4, completed := 99, current := 12, next := -1
    results := [-1, 2, 7, 2].map fun i => { index := i, name := .null, success := true } }

theorem boastful_consistent : Begins 3 (ofCheckpoint boastful 3) ∧ ∃ q r,
    Relation.ReflTransGen Commits (ofCheckpoint boastful 3) q ∧ Relation.ReflTransGen Commits q r ∧
      q.pending = [0, 1] ∧ r.pending = [1] ∧ Consistent 3 q ∧ q.completed ≤ r.completed ∧ q.next ≤ r.next := by
  have hbegins : Begins 3 (ofCheckpoint boastful 3) := .resumed boastful
  have hagain : Commits (ofCheckpoint boastful 3)
      ((ofCheckpoint boastful 3).commit { index := 2, name := .null, success := false }) :=
    ⟨_, by decide, rfl⟩
  have hfirst : Commits ((ofCheckpoint boastful 3).commit { index := 2, name := .null, success := false })
      (((ofCheckpoint boastful 3).commit { index := 2, name := .null, success := false }).commit
        { index := 0, name := .null, success := true }) :=
    ⟨_, by decide, rfl⟩
  obtain ⟨hconsistent, hmonotone⟩ := commits_consistent hbegins (.single hagain)
  exact ⟨hbegins, _, _, .single hagain, .single hfirst, by decide, by decide, hconsistent,
    hmonotone _ (.single hfirst)⟩

end Retype.Progress

import Mathlib.Data.List.Pairwise
import Mathlib.Data.List.Range
import Retype.Proofs.Keyed
import Retype.Proofs.Order
import Retype.Run.Progress

/-!
# Sound progress

Progress is sound if every outcome stands under its own index, once, and within
the batch. Committing keeps it sound, and so does taking it up again from any
checkpoint. A checkpoint of sound progress tells the truth: its outcomes ascend,
their number is the one it gives, and the next index is the first without one.
-/

set_option autoImplicit false

namespace Retype

open Keyed (keys)

namespace Checkpoint

def indices (c : Checkpoint) : List Int := c.results.map (·.index)

/-- The first index without an outcome, past the end if there is none. -/
structure IsNext (count : Int) (indices : List Int) (n : Int) : Prop where
  low : 0 ≤ n
  high : n ≤ count
  unfilled : n ∉ indices
  below : ∀ i, 0 ≤ i → i < n → i ∈ indices

/-- What a checkpoint of a batch of some size says about its outcomes is so. -/
structure Truthful (count : Int) (c : Checkpoint) : Prop where
  completed : c.completed = c.results.length
  ascending : c.indices.Pairwise (· < ·)
  within : ∀ i ∈ c.indices, 0 ≤ i ∧ i < count
  next : IsNext count c.indices c.next

end Checkpoint

namespace Progress

def done (p : Progress) : List Int := keys p.results

structure Sound (p : Progress) : Prop where
  distinct : p.done.Nodup
  own : ∀ e ∈ p.results, e.2.index = e.1
  within : ∀ i ∈ p.done, 0 ≤ i ∧ i < p.count

/-! ## Pending indices -/

theorem mem_pending {p : Progress} {i : Int} :
    i ∈ p.pending ↔ (0 ≤ i ∧ i < p.count) ∧ i ∉ p.done := by
  have hdone : (!Keyed.has i p.results) = true ↔ i ∉ p.done := by
    rw [done, ← Keyed.has_iff]
    simp
  rw [pending, List.mem_filter, hdone, List.mem_map]
  constructor
  · rintro ⟨⟨k, hk, rfl⟩, hi⟩
    rw [List.mem_range] at hk
    exact ⟨⟨Int.natCast_nonneg k, by rw [Int.ofNat_eq_natCast]; omega⟩, hi⟩
  · rintro ⟨⟨h0, hc⟩, hi⟩
    refine ⟨⟨i.toNat, ?_, ?_⟩, hi⟩
    · rw [List.mem_range]
      omega
    · rw [Int.ofNat_eq_natCast]
      omega

theorem pending_ascending (p : Progress) : p.pending.Pairwise (· < ·) := by
  refine List.Pairwise.filter _ (List.pairwise_map.mpr ?_)
  refine List.pairwise_lt_range.imp fun h => ?_
  simpa using h

theorem pending_nodup (p : Progress) : p.pending.Nodup :=
  p.pending_ascending.imp fun h => Int.ne_of_lt h

theorem nextFrom_eq_head (p : Progress) (i n : Nat) : p.nextFrom i n =
    ((((List.range' i n).map Int.ofNat).filter fun i => !Keyed.has i p.results).head?).getD p.count := by
  induction n generalizing i with
  | zero => rfl
  | succ n ih =>
    rw [nextFrom, List.range'_succ, List.map_cons, List.filter_cons, Int.ofNat_eq_natCast]
    by_cases hi : Keyed.has (i : Int) p.results = true
    · rw [if_pos hi, if_neg (by simp [hi]), ih]
    · rw [if_neg hi, if_pos (by simp [hi])]
      rfl

theorem next_eq_head (p : Progress) : p.next = p.pending.head?.getD p.count := by
  rw [next, nextFrom_eq_head, pending, List.range_eq_range']

theorem next_isNext {p : Progress} (hc : 0 ≤ p.count) (h : ∀ i ∈ p.done, i < p.count) :
    Checkpoint.IsNext p.count p.done p.next := by
  rw [next_eq_head]
  have hasc := p.pending_ascending
  cases hp : p.pending with
  | nil =>
    have hall : ∀ i, 0 ≤ i → i < p.count → i ∈ p.done := by
      intro i h0 hi
      by_cases hd : i ∈ p.done
      · exact hd
      · have := mem_pending.mpr ⟨⟨h0, hi⟩, hd⟩
        rw [hp] at this
        cases this
    refine ⟨hc, Int.le_refl _, fun hd => ?_, hall⟩
    exact absurd (h p.count hd) (Int.lt_irrefl _)
  | cons n rest =>
    have hn := mem_pending.mp (hp ▸ List.mem_cons_self : n ∈ p.pending)
    refine ⟨hn.1.1, Int.le_of_lt hn.1.2, hn.2, fun i h0 hi => ?_⟩
    by_cases hd : i ∈ p.done
    · exact hd
    · have hmem := mem_pending.mpr ⟨⟨h0, Int.lt_trans hi hn.1.2⟩, hd⟩
      rw [hp] at hmem hasc
      rcases List.mem_cons.mp hmem with rfl | hmem
      · exact absurd hi (Int.lt_irrefl _)
      · have := List.rel_of_pairwise_cons hasc hmem
        exact absurd (Int.lt_trans hi this) (Int.lt_irrefl _)

/-! ## Committing -/

theorem mem_done_commit {p : Progress} {o : Outcome} {i : Int} :
    i ∈ (p.commit o).done ↔ i = o.index ∨ i ∈ p.done := Keyed.mem_keys_put

theorem commit_sound {p : Progress} {o : Outcome} (h : p.Sound) (h0 : 0 ≤ o.index)
    (hc : o.index < p.count) : (p.commit o).Sound := by
  refine ⟨Keyed.nodup_keys_put h.distinct, fun e he => ?_, fun i hi => ?_⟩
  · rcases Keyed.mem_put he with rfl | he
    · rfl
    · exact h.own e he
  · rcases mem_done_commit.mp hi with rfl | hi
    · exact ⟨h0, hc⟩
    · exact h.within i hi

/-! ## Checkpoints -/

theorem ordered_perm (p : Progress) : p.ordered.Perm (p.results.map (·.2)) :=
  (List.mergeSort_perm p.results _).map _

theorem own_indices {p : Progress} (h : p.Sound) : p.results.map (·.2.index) = p.done :=
  List.map_congr_left h.own

theorem ordered_indices {p : Progress} (h : p.Sound) : (p.ordered.map (·.index)).Perm p.done := by
  have hp := p.ordered_perm.map (·.index)
  rw [List.map_map] at hp
  rw [← own_indices h]
  exact hp

theorem ordered_ascending {p : Progress} (h : p.Sound) :
    (p.ordered.map (·.index)).Pairwise (· < ·) := by
  have hown : p.ordered.map (·.index) = (p.results.mergeSort fun a b => a.1 ≤ b.1).map (·.1) := by
    rw [ordered, List.map_map]
    exact List.map_congr_left fun e he => h.own e (List.mem_mergeSort.mp he)
  rw [hown]
  exact Order.mergeSort_ascending h.distinct

/-- Indices that ascend and are all those of a batch are so in one order only. -/
theorem ascending_eq {is : List Int} {count : Nat} (ha : is.Pairwise (· < ·))
    (hall : ∀ i : Int, i ∈ is ↔ 0 ≤ i ∧ i < count) :
    is = (List.range count).map Int.ofNat := by
  have hr : ((List.range count).map Int.ofNat).Pairwise (· < ·) :=
    List.pairwise_map.mpr (List.pairwise_lt_range.imp fun h => by simpa using h)
  refine List.Perm.eq_of_pairwise (fun a b _ _ h h' => absurd (Int.lt_trans h h') (Int.lt_irrefl a))
    ha hr ((List.perm_ext_iff_of_nodup (ha.imp fun h => Int.ne_of_lt h)
      (hr.imp fun h => Int.ne_of_lt h)).mpr fun i => ?_)
  rw [hall, List.mem_map]
  constructor
  · intro h
    exact ⟨i.toNat, List.mem_range.mpr (by omega), by rw [Int.ofNat_eq_natCast]; omega⟩
  · rintro ⟨n, hn, rfl⟩
    rw [List.mem_range] at hn
    rw [Int.ofNat_eq_natCast]
    omega

/-- Once every index has an outcome, the outcomes are those of the indices in turn. -/
theorem ordered_whole {p : Progress} (h : p.Sound) {count : Nat} (hc : p.count = count)
    (hall : ∀ i : Int, 0 ≤ i → i < count → i ∈ p.done) :
    p.ordered.map (·.index) = (List.range count).map Int.ofNat := by
  refine ascending_eq (ordered_ascending h) fun i => ?_
  rw [(ordered_indices h).mem_iff]
  constructor
  · intro hi
    have := h.within i hi
    rwa [hc] at this
  · rintro ⟨h₀, hi⟩
    exact hall i h₀ hi

/-- Outcomes that are committed one after the other are kept in that order. -/
theorem results_commits {p : Progress} {os : List Outcome} (hnew : ∀ o ∈ os, o.index ∉ p.done)
    (hnodup : (os.map (·.index)).Nodup) :
    (os.foldl commit p).results = p.results ++ os.map fun o => (o.index, o) := by
  induction os generalizing p with
  | nil => simp
  | cons o os ih =>
    rw [List.map_cons, List.nodup_cons] at hnodup
    have hrest : ∀ r ∈ os, r.index ∉ (p.commit o).done := by
      intro r hr hd
      rcases mem_done_commit.mp hd with he | hd
      · exact hnodup.1 (he ▸ List.mem_map_of_mem hr)
      · exact hnew r (List.mem_cons_of_mem o hr) hd
    have hput : (p.commit o).results = p.results ++ [(o.index, o)] :=
      Keyed.put_of_notMem (hnew o List.mem_cons_self)
    rw [List.foldl_cons, ih hrest hnodup.2, hput, List.append_assoc, List.map_cons,
      List.singleton_append]

theorem ordered_commits {batch count : Int} {os : List Outcome}
    (h : (os.map (·.index)).Pairwise (· < ·)) :
    (os.foldl commit { batch, count }).ordered = os := by
  have hnew : ∀ o ∈ os, o.index ∉ done { batch, count } := by simp [done, keys]
  have hresults := results_commits hnew (h.imp fun hlt => Int.ne_of_lt hlt)
  have hsorted : (os.map fun o => (o.index, o)).Pairwise fun a b => decide (a.1 ≤ b.1) = true := by
    rw [List.pairwise_map] at h ⊢
    exact h.imp fun hlt => by simpa using Int.le_of_lt hlt
  rw [ordered, hresults, List.nil_append, List.mergeSort_of_pairwise hsorted, List.map_map]
  simp [Function.comp_def]

theorem mem_checkpoint_indices {p : Progress} (h : p.Sound) {error : Json} {timestamp : String}
    {i : Int} : i ∈ (p.checkpoint error timestamp).indices ↔ i ∈ p.done :=
  (ordered_indices h).mem_iff

theorem checkpoint_truthful {p : Progress} (h : p.Sound) (hc : 0 ≤ p.count) (error : Json)
    (timestamp : String) : (p.checkpoint error timestamp).Truthful p.count := by
  refine ⟨?_, ordered_ascending h, fun i hi => ?_, ?_⟩
  · have hlen := p.ordered_perm.length_eq
    rw [List.length_map] at hlen
    simp only [checkpoint, completed, hlen]
  · exact h.within i ((mem_checkpoint_indices h).mp hi)
  · obtain ⟨h1, h2, h3, h4⟩ := next_isNext hc fun i hi => (h.within i hi).2
    exact ⟨h1, h2, fun hn => h3 ((mem_checkpoint_indices h).mp hn),
      fun i h0 hi => (mem_checkpoint_indices h).mpr (h4 i h0 hi)⟩

theorem mem_done_ofCheckpoint {c : Checkpoint} {count i : Int} :
    i ∈ (ofCheckpoint c count).done ↔ i ∈ c.indices ∧ 0 ≤ i ∧ i < count := by
  rw [done, ofCheckpoint, Keyed.mem_keys_ofList, keys, List.map_map]
  simp only [List.mem_map, List.mem_filter, Bool.and_eq_true, decide_eq_true_eq, Function.comp,
    Checkpoint.indices]
  constructor
  · rintro ⟨o, ⟨ho, h0, hc⟩, rfl⟩
    exact ⟨⟨o, ho, rfl⟩, h0, hc⟩
  · rintro ⟨⟨o, ho, rfl⟩, h0, hc⟩
    exact ⟨o, ⟨ho, h0, hc⟩, rfl⟩

theorem ofCheckpoint_sound (c : Checkpoint) (count : Int) : (ofCheckpoint c count).Sound := by
  refine ⟨Keyed.nodup_keys_ofList _, fun e he => ?_, fun i hi => (mem_done_ofCheckpoint.mp hi).2⟩
  obtain ⟨o, -, rfl⟩ := List.mem_map.mp (Keyed.mem_of_ofList he)
  rfl

/-- What is done and what is pending are together all indices of the batch, each once. -/
theorem Sound.parts {p : Progress} (h : p.Sound) :
    (p.done ++ p.pending).Perm ((List.range p.count.toNat).map Int.ofNat) := by
  have hrange : ((List.range p.count.toNat).map Int.ofNat).Nodup :=
    List.nodup_range.map fun _ _ h => Int.ofNat.inj h
  have happart : (p.done ++ p.pending).Nodup := by
    refine List.nodup_append.mpr ⟨h.distinct, p.pending_nodup, ?_⟩
    rintro i hi j hj rfl
    exact (mem_pending.mp hj).2 hi
  refine (List.perm_ext_iff_of_nodup happart hrange).mpr fun i => ?_
  have hwithin : i ∈ (List.range p.count.toNat).map Int.ofNat ↔ 0 ≤ i ∧ i < p.count := by
    rw [List.mem_map]
    constructor
    · rintro ⟨n, hn, rfl⟩
      rw [List.mem_range] at hn
      rw [Int.ofNat_eq_natCast]
      omega
    · intro h
      exact ⟨i.toNat, List.mem_range.mpr (by omega), by rw [Int.ofNat_eq_natCast]; omega⟩
  rw [List.mem_append, mem_pending, hwithin]
  constructor
  · rintro (hi | hi)
    · exact h.within i hi
    · exact hi.1
  · intro hi
    by_cases hd : i ∈ p.done
    · exact Or.inl hd
    · exact Or.inr ⟨hi, hd⟩

theorem fresh_sound (batch count : Int) : ({ batch, count } : Progress).Sound := by
  constructor
  · exact List.nodup_nil
  · intro e he
    cases he
  · intro i hi
    cases hi

end Progress

end Retype

import Mathlib.Data.List.Nodup
import Mathlib.Data.List.Pairwise
import Mathlib.Data.List.Perm.Basic
import Retype.Roadmap.Batch

/-!
# Dealing profiles to batches

A batch takes those of its candidates that no earlier batch has taken. So no path is
dealt twice, and since everything pending is a candidate of the last batch, the batches
together are what is pending.
-/

set_option autoImplicit false

namespace Retype

namespace Batches

variable {taken : List String} {ps : List Profile} {p : Profile}

/-! ## What a batch takes -/

theorem claim_sublist (taken : List String) (ps : List Profile) : (claim taken ps).Sublist ps := by
  induction ps generalizing taken with
  | nil => exact .slnil
  | cons p ps ih =>
    rw [claim]
    split
    · exact (ih taken).cons p
    · exact (ih _).cons_cons p

theorem claim_fresh (h : p ∈ claim taken ps) : p.path ∉ taken := by
  induction ps generalizing taken with
  | nil => cases h
  | cons q ps ih =>
    rw [claim] at h
    split at h
    · exact ih h
    · next hq =>
      rcases List.mem_cons.mp h with rfl | h
      · simpa using hq
      · exact fun hp => ih h (List.mem_cons_of_mem _ hp)

theorem claim_nodup (taken : List String) (ps : List Profile) :
    ((claim taken ps).map (·.path)).Nodup := by
  induction ps generalizing taken with
  | nil => exact List.nodup_nil
  | cons p ps ih =>
    rw [claim]
    split
    · exact ih taken
    · refine List.nodup_cons.mpr ⟨fun hp => ?_, ih _⟩
      obtain ⟨q, hq, hqp⟩ := List.mem_map.mp hp
      exact claim_fresh hq (by simp [hqp])

/-- The path of a candidate was taken before, or is now. -/
theorem claim_covers (h : p ∈ ps) :
    p.path ∈ taken ∨ p.path ∈ (claim taken ps).map (·.path) := by
  induction ps generalizing taken with
  | nil => cases h
  | cons q ps ih =>
    rw [claim]
    split
    · next hq =>
      rcases List.mem_cons.mp h with rfl | h
      · exact Or.inl (by simpa using hq)
      · exact ih h
    · rw [List.map_cons, List.mem_cons]
      rcases List.mem_cons.mp h with rfl | h
      · exact Or.inr (Or.inl rfl)
      · rcases @ih (q.path :: taken) h with hp | hp
        · exact (List.mem_cons.mp hp).elim (fun he => Or.inr (Or.inl he)) Or.inl
        · exact Or.inr (Or.inr hp)

/-! ## What all batches take -/

variable {batches : List (List String → List Profile)}

theorem mem_deal (h : p ∈ (deal taken batches).flatten) :
    ∃ batch ∈ batches, ∃ taken, p ∈ batch taken := by
  induction batches generalizing taken with
  | nil => cases h
  | cons batch batches ih =>
    rw [deal, List.flatten_cons, List.mem_append] at h
    rcases h with h | h
    · exact ⟨batch, List.mem_cons_self, taken, (claim_sublist _ _).subset h⟩
    · obtain ⟨other, hmem, hother⟩ := ih h
      exact ⟨other, List.mem_cons_of_mem _ hmem, hother⟩

theorem deal_fresh (h : p ∈ (deal taken batches).flatten) : p.path ∉ taken := by
  induction batches generalizing taken with
  | nil => cases h
  | cons batch batches ih =>
    rw [deal, List.flatten_cons, List.mem_append] at h
    rcases h with h | h
    · exact claim_fresh h
    · exact fun hp => ih h (List.mem_append_right _ hp)

theorem deal_nodup (taken : List String) (batches : List (List String → List Profile)) :
    ((deal taken batches).flatten.map (·.path)).Nodup := by
  induction batches generalizing taken with
  | nil => exact List.nodup_nil
  | cons batch batches ih =>
    rw [deal, List.flatten_cons, List.map_append, List.nodup_append]
    refine ⟨claim_nodup _ _, ih _, fun a ha b hb hab => ?_⟩
    obtain ⟨q, hq, rfl⟩ := List.mem_map.mp hb
    exact deal_fresh hq (List.mem_append_left _ (hab ▸ ha))

/-- What some batch would take whatever is taken already, is dealt. -/
theorem deal_covers {batch : List String → List Profile} (hb : batch ∈ batches)
    (h : ∀ taken, p ∈ batch taken) :
    p.path ∈ taken ∨ p.path ∈ (deal taken batches).flatten.map (·.path) := by
  induction batches generalizing taken with
  | nil => cases hb
  | cons other batches ih =>
    rw [deal, List.flatten_cons, List.map_append, List.mem_append]
    rcases List.mem_cons.mp hb with rfl | hb
    · exact (claim_covers (h taken)).imp_right Or.inl
    · rcases @ih ((claim taken (other taken)).map (·.path) ++ taken) hb with hp | hp
      · rcases List.mem_append.mp hp with hp | hp
        · exact Or.inr (Or.inl hp)
        · exact Or.inl hp
      · exact Or.inr (Or.inr hp)

/-! ## The candidates -/

theorem byEase_perm (ps : List Profile) : (byEase ps).Perm ps := List.mergeSort_perm ps _

theorem share_subset (tenths whole : Nat) (ps : List Profile) : share tenths whole ps ⊆ ps :=
  (List.take_sublist _ ps).subset

theorem unclaimed_subset (taken : List String) (ps : List Profile) : unclaimed taken ps ⊆ ps :=
  List.filter_sublist.subset

structure Ranks.Within (r : Ranks) : Prop where
  highest : r.highest ⊆ r.pending
  high : r.high ⊆ r.pending
  medium : r.medium ⊆ r.pending
  low : r.low ⊆ r.pending

theorem Ranks.ofProfiles_within (ps : List Profile) : (Ranks.ofProfiles ps).Within := by
  have rank : ∀ q : Priority, byEase ((Ranks.ofProfiles ps).pending.filter fun p => p.priority = some q) ⊆
      (Ranks.ofProfiles ps).pending :=
    fun q => List.Subset.trans (byEase_perm _).subset List.filter_sublist.subset
  exact ⟨rank .highest, rank .high, rank .medium, rank .low⟩

/-- The candidates of every batch are pending. -/
theorem candidates_pending {r : Ranks} (hr : r.Within) {batch : List String → List Profile}
    (hb : batch ∈ candidates r) (taken : List String) : batch taken ⊆ r.pending := by
  have filtered : ∀ {ps : List Profile} (f : Profile → Bool), ps ⊆ r.pending → ps.filter f ⊆ r.pending :=
    fun _ h => List.Subset.trans List.filter_sublist.subset h
  have shared : ∀ {ps : List Profile} (tenths whole : Nat), ps ⊆ r.pending →
      share tenths whole ps ⊆ r.pending :=
    fun _ _ h => List.Subset.trans (share_subset _ _ _) h
  have unclaimed : ∀ {ps : List Profile}, ps ⊆ r.pending → unclaimed taken ps ⊆ r.pending :=
    fun h => List.Subset.trans (unclaimed_subset _ _) h
  simp only [candidates, List.mem_cons, List.not_mem_nil, or_false] at hb
  rcases hb with rfl | rfl | rfl | rfl | rfl | rfl
  · exact List.append_subset.mpr ⟨shared _ _ hr.highest, shared _ _ hr.high⟩
  · refine List.append_subset.mpr ⟨List.append_subset.mpr ⟨?_, ?_⟩, ?_⟩
    · exact unclaimed hr.highest
    · exact shared _ _ (unclaimed (filtered _ hr.high))
    · exact shared _ _ (unclaimed (filtered _ hr.medium))
  · exact filtered _ (List.append_subset.mpr ⟨hr.high, hr.medium⟩)
  · exact List.append_subset.mpr ⟨hr.high, filtered _ hr.medium⟩
  · exact List.append_subset.mpr ⟨hr.medium, filtered _ hr.low⟩
  · exact (byEase_perm _).subset

theorem pending_candidate {r : Ranks} (h : p ∈ r.pending) :
    ∃ batch ∈ candidates r, ∀ taken, p ∈ batch taken :=
  ⟨fun _ => byEase r.pending, by simp [candidates], fun _ => (byEase_perm _).mem_iff.mpr h⟩

/-- The batches together are the pending profiles. -/
theorem ofProfiles_flatten (h : (ps.map (·.path)).Nodup) :
    (ofProfiles ps).flatten.Perm (ps.filter fun p => p.priority ≠ some .migrated) := by
  have hpending : (Ranks.ofProfiles ps).pending = ps.filter fun p => p.priority ≠ some .migrated := rfl
  have hwithin : ∀ q ∈ (ofProfiles ps).flatten, q ∈ (Ranks.ofProfiles ps).pending := by
    intro q hq
    obtain ⟨batch, hb, taken, hq⟩ := mem_deal hq
    exact candidates_pending (Ranks.ofProfiles_within ps) hb taken hq
  refine (List.perm_ext_iff_of_nodup (List.Nodup.of_map _ (deal_nodup [] _))
    ((List.Nodup.of_map _ h).filter _)).mpr fun q => ⟨hwithin q, fun hq => ?_⟩
  obtain ⟨batch, hb, hall⟩ := pending_candidate (hpending ▸ hq)
  have hpath : q.path ∈ (ofProfiles ps).flatten.map (·.path) :=
    (deal_covers hb hall).resolve_left List.not_mem_nil
  obtain ⟨q', hq', hsame⟩ := List.mem_map.mp hpath
  have hmem : q' ∈ ps := (List.mem_filter.mp (hwithin q' hq')).1
  have heq : q' = q := List.inj_on_of_nodup_map h hmem (List.mem_filter.mp hq).1 hsame
  exact heq ▸ hq'

end Batches

/-! ## The batches of a plan -/

namespace Batch

variable {ps : List Profile} {p : Profile}

theorem plan_ids (ps : List Profile) : (plan ps).map (·.id) = [1, 2, 3, 4, 5, 6] := rfl

theorem plan_members (ps : List Profile) :
    (plan ps).flatMap (·.members) = (Batches.ofProfiles ps).flatten.map Member.ofProfile := by
  obtain ⟨a, b, c, d, e, f, h⟩ : ∃ a b c d e f, Batches.ofProfiles ps = [a, b, c, d, e, f] :=
    ⟨_, _, _, _, _, _, rfl⟩
  rw [plan, h]
  simp [titles]

theorem plan_paths_nodup (ps : List Profile) :
    (((plan ps).flatMap (·.members)).map (·.path)).Nodup := by
  have hpath : (Member.path ∘ Member.ofProfile) = (Json.str ∘ Profile.path) := rfl
  rw [plan_members, List.map_map, hpath, ← List.map_map]
  exact (Batches.deal_nodup [] _).map fun _ _ he => Json.str.inj he

/-- The batches of a plan are numbered from one to six and are a partition of the
profiles that are not migrated: each of those is in one batch, once, and nothing else
is in any. -/
theorem plan_partitions (h : (ps.map (·.path)).Nodup) :
    (plan ps).map (·.id) = [1, 2, 3, 4, 5, 6] ∧
      ((plan ps).flatMap (·.members)).Perm
        ((ps.filter fun p => p.priority ≠ some .migrated).map Member.ofProfile) ∧
      (((plan ps).flatMap (·.members)).map (·.path)).Nodup ∧
      (∀ p ∈ ps, p.priority ≠ some .migrated →
        ∃! b, b ∈ plan ps ∧ Member.ofProfile p ∈ b.members) ∧
      ∀ p ∈ ps, p.priority = some .migrated →
        ∀ b ∈ plan ps, ∀ m ∈ b.members, m.path ≠ .str p.path := by
  have hperm : ((plan ps).flatMap (·.members)).Perm
      ((ps.filter fun p => p.priority ≠ some .migrated).map Member.ofProfile) :=
    plan_members ps ▸ (Batches.ofProfiles_flatten h).map _
  have hnodup := plan_paths_nodup ps
  refine ⟨plan_ids ps, hperm, hnodup, fun p hp hm => ?_, fun p hp hm b hb m hmb he => ?_⟩
  · have hmem : Member.ofProfile p ∈ (plan ps).flatMap (·.members) :=
      hperm.mem_iff.mpr (List.mem_map_of_mem (List.mem_filter.mpr ⟨hp, by simpa using hm⟩))
    obtain ⟨b, hb, hpb⟩ := List.mem_flatMap.mp hmem
    refine ⟨b, ⟨hb, hpb⟩, fun b' ⟨hb', hpb'⟩ => ?_⟩
    by_contra hne
    have hdisjoint := (List.nodup_flatMap.mp (List.Nodup.of_map _ hnodup)).2
    have : Std.Symm (Function.onFun List.Disjoint fun b : Batch => b.members) :=
      ⟨fun _ _ h _ ha hb => h hb ha⟩
    exact hdisjoint.forall hb' hb hne hpb' hpb
  · have hmem := hperm.mem_iff.mp (List.mem_flatMap.mpr ⟨b, hb, hmb⟩)
    obtain ⟨q, hq, rfl⟩ := List.mem_map.mp hmem
    obtain ⟨hq, hpending⟩ := List.mem_filter.mp hq
    have hpq : q = p := List.inj_on_of_nodup_map h hq hp (Json.str.inj he)
    rw [hpq, hm] at hpending
    simp at hpending

def sample : List Profile :=
  [{ path := "a.jsx", name := "A", kind := .functionComponent, priority := some .migrated },
   { path := "b.jsx", name := "B", kind := .functionComponent, priority := some .highest },
   { path := "c.jsx", name := "C", kind := .functionComponent, priority := some .high },
   { path := "d.jsx", name := "D", kind := .functionComponent, priority := some .medium },
   { path := "e.jsx", name := "E", kind := .functionComponent, priority := some .low },
   { path := "f.jsx", name := "F", kind := .functionComponent }]

theorem sample_partitioned : (sample.map (·.path)).Nodup ∧
    ((plan sample).flatMap (·.members)).Perm
      ((sample.filter fun p => p.priority ≠ some .migrated).map Member.ofProfile) ∧
    (∀ p ∈ sample, p.priority ≠ some .migrated →
      ∃! b, b ∈ plan sample ∧ Member.ofProfile p ∈ b.members) ∧
    ∀ b ∈ plan sample, ∀ m ∈ b.members, m.path ≠ .str "a.jsx" := by
  have hd : (sample.map (·.path)).Nodup := by decide
  obtain ⟨-, hperm, -, hone, hnone⟩ := plan_partitions hd
  exact ⟨hd, hperm, hone, hnone _ List.mem_cons_self rfl⟩

end Batch

end Retype

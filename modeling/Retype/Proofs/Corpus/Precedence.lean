import Mathlib.Data.List.Flatten
import Retype.Proofs.Corpus.Arrangement

/-!
# Priorities decide the batches

Where a profile lands depends on what the batches before have taken. But a batch has
candidates of some priorities only, and takes every candidate that is left, so each priority
has a first batch that may take it and a last one that leaves nothing of it. The first batch
takes the beginnings of two sorted ranks.
-/

set_option autoImplicit false

namespace Retype

namespace Profile

/-- Fewer dependencies, or as many and an earlier path. -/
def Before (p q : Profile) : Prop :=
  p.dependencies.length < q.dependencies.length ∨
    (p.dependencies.length = q.dependencies.length ∧ p.path < q.path)

theorem Before.not_easier {p q : Profile} (h : p.Before q) : ¬ q.easierThan p = true := by
  rw [Batches.easierThan_iff]
  rintro (hq | ⟨hq, hpath⟩)
  · rcases h with h | ⟨h, -⟩ <;> omega
  · rcases h with h | ⟨-, h⟩
    · omega
    · exact String.not_le.mpr h hpath

end Profile

/-- The numbers of the batches that may have a profile of that priority. -/
def Priority.batches : Option Priority → List Int
  | some .highest => [1, 2]
  | some .high => [1, 2, 3, 4]
  | some .medium => [2, 3, 4, 5]
  | some .low => [5, 6]
  | none => [6]
  | some .migrated => []

namespace Batches

variable {taken : List String} {ps : List Profile} {p q : Profile}

/-! ## A batch among the others -/

section Deal

variable {batches : List (List String → List Profile)} {i j : Nat} {group : List Profile}
  {batch : List String → List Profile}

/-- A group is what its batch takes, given what was taken at first and what the groups before have. -/
theorem deal_group (h : (deal taken batches)[i]? = some group) :
    ∃ batch seen, batches[i]? = some batch ∧ group = claim seen (batch seen) ∧
      ∀ path, path ∈ seen ↔ path ∈ taken ∨ path ∈ ((deal taken batches).take i).flatten.map (·.path) := by
  induction batches generalizing taken i with
  | nil => simp [deal] at h
  | cons batch batches ih =>
    rw [deal] at h ⊢
    cases i with
    | zero =>
      cases h
      exact ⟨batch, taken, rfl, rfl, by simp⟩
    | succ i =>
      obtain ⟨other, seen, hother, rfl, hseen⟩ := ih h
      refine ⟨other, seen, hother, rfl, fun path => ?_⟩
      rw [hseen, List.take_succ_cons, List.flatten_cons, List.map_append, List.mem_append,
        List.mem_append, or_comm (a := path ∈ List.map _ _), or_assoc]

/-- After a batch that takes it whenever it can, a profile is taken. -/
theorem taken_by (hb : batches[j]? = some batch) (h : ∀ seen, p.path ∉ seen → p ∈ batch seen) :
    p.path ∈ taken ∨ p.path ∈ ((deal taken batches).take (j + 1)).flatten.map (·.path) := by
  induction batches generalizing taken j with
  | nil => simp at hb
  | cons other batches ih =>
    rw [deal, List.take_succ_cons, List.flatten_cons, List.map_append, List.mem_append]
    cases j with
    | zero =>
      cases hb
      by_cases hp : p.path ∈ taken
      · exact Or.inl hp
      · exact (claim_covers (h taken hp)).imp_right Or.inl
    | succ j =>
      rcases @ih ((claim taken (other taken)).map (·.path) ++ taken) j hb with hp | hp
      · exact (List.mem_append.mp hp).elim (fun hp => Or.inr (Or.inl hp)) Or.inl
      · exact Or.inr (Or.inr hp)

/-- So no later batch has it. -/
theorem group_le (hg : (deal [] batches)[i]? = some group) (hp : p ∈ group)
    (hb : batches[j]? = some batch) (h : ∀ seen, p.path ∉ seen → p ∈ batch seen) : i ≤ j := by
  obtain ⟨other, seen, -, rfl, hseen⟩ := deal_group hg
  by_contra hlt
  have htaken : p.path ∈ ((deal [] batches).take (j + 1)).flatten.map (·.path) :=
    (taken_by hb h).resolve_left List.not_mem_nil
  refine claim_fresh hp ((hseen _).mpr (Or.inr ?_))
  obtain ⟨q, hq, hpath⟩ := List.mem_map.mp htaken
  refine List.mem_map.mpr ⟨q, ?_, hpath⟩
  have hle : j + 1 ≤ i := by omega
  exact (List.take_sublist_take_left hle).flatten.subset hq

end Deal

/-! ## The first batch and the last -/

/-- The pending profiles of one priority, by ease. -/
def rank (ps : List Profile) (q : Priority) : List Profile :=
  byEase ((Ranks.ofProfiles ps).pending.filter fun p => p.priority = some q)

theorem Ranks.ofProfiles_eq (ps : List Profile) : Ranks.ofProfiles ps =
    ⟨ps.filter fun p => p.priority ≠ some .migrated, rank ps .highest, rank ps .high, rank ps .medium,
      rank ps .low⟩ :=
  rfl

theorem mem_rank {q : Priority} : p ∈ rank ps q ↔ p ∈ ps ∧ p.priority = some q ∧ q ≠ .migrated := by
  rw [rank, (byEase_perm _).mem_iff, Ranks.ofProfiles_eq, List.mem_filter, List.mem_filter]
  simp only [ne_eq, decide_eq_true_eq, and_assoc]
  refine and_congr_right fun _ => ⟨fun ⟨hm, hq⟩ => ⟨hq, fun h => hm (h ▸ hq)⟩, fun ⟨hq, hm⟩ => ⟨?_, hq⟩⟩
  rw [hq, Option.some.injEq]
  exact hm

/-- Counted from zero: the first batch that may have a profile of that priority. -/
def earliest : Option Priority → Nat
  | some .highest => 0
  | some .high => 0
  | some .medium => 1
  | some .low => 4
  | _ => 5

/-- Counted from zero: the batch that takes all that is left of that priority. -/
def latest : Option Priority → Nat
  | some .highest => 1
  | some .high => 3
  | some .medium => 4
  | _ => 5

variable {i : Nat} {batch : List String → List Profile}

theorem candidate_earliest {seen : List String} (hb : (candidates (.ofProfiles ps))[i]? = some batch)
    (h : p ∈ batch seen) : earliest p.priority ≤ i := by
  have hrank : ∀ {q : Priority}, p ∈ rank ps q → p.priority = some q := fun h => (mem_rank.mp h).2.1
  have hfilter : ∀ {f : Profile → Bool} {qs : List Profile}, p ∈ qs.filter f → p ∈ qs :=
    fun h => (List.mem_filter.mp h).1
  rw [Ranks.ofProfiles_eq] at hb
  match i, hb with
  | 0, hb =>
    cases hb
    rcases List.mem_append.mp h with h | h
    · simp [hrank (share_subset _ _ _ h), earliest]
    · simp [hrank (share_subset _ _ _ h), earliest]
  | 1, hb =>
    cases hb
    rcases List.mem_append.mp h with h | h
    · rcases List.mem_append.mp h with h | h
      · simp [hrank (unclaimed_subset _ _ h), earliest]
      · simp [hrank (hfilter (unclaimed_subset _ _ (share_subset _ _ _ h))), earliest]
    · simp [hrank (hfilter (unclaimed_subset _ _ (share_subset _ _ _ h))), earliest]
  | 2, hb =>
    cases hb
    rcases List.mem_append.mp (hfilter h) with h | h <;> simp [hrank h, earliest]
  | 3, hb =>
    cases hb
    rcases List.mem_append.mp h with h | h
    · simp [hrank h, earliest]
    · simp [hrank (hfilter h), earliest]
  | 4, hb =>
    cases hb
    rcases List.mem_append.mp h with h | h
    · simp [hrank h, earliest]
    · simp [hrank (hfilter h), earliest]
  | i + 5, hb =>
    have hall : earliest p.priority ≤ 5 := by
      unfold earliest
      split <;> decide
    exact Nat.le_trans hall (Nat.le_add_left 5 i)

theorem candidate_latest (hp : p ∈ ps) (hm : p.priority ≠ some .migrated) :
    ∃ batch, (candidates (.ofProfiles ps))[latest p.priority]? = some batch ∧
      ∀ seen, p.path ∉ seen → p ∈ batch seen := by
  have hpending : p ∈ byEase (Ranks.ofProfiles ps).pending := by
    rw [(byEase_perm _).mem_iff, Ranks.ofProfiles_eq, List.mem_filter]
    exact ⟨hp, decide_eq_true hm⟩
  have hrank : ∀ {q : Priority}, p.priority = some q → q ≠ .migrated → p ∈ rank ps q := fun h hq =>
    mem_rank.mpr ⟨hp, h, hq⟩
  rcases hq : p.priority with _ | q
  · exact ⟨_, rfl, fun _ _ => hpending⟩
  cases q with
  | migrated => exact absurd hq hm
  | highest =>
    refine ⟨_, rfl, fun seen hseen => ?_⟩
    have hleft : p ∈ unclaimed seen (rank ps .highest) :=
      List.mem_filter.mpr ⟨hrank hq (by decide), by simpa using hseen⟩
    exact List.mem_append_left _ (List.mem_append_left _ hleft)
  | high => exact ⟨_, rfl, fun _ _ => List.mem_append_left _ (hrank hq (by decide))⟩
  | medium => exact ⟨_, rfl, fun _ _ => List.mem_append_left _ (hrank hq (by decide))⟩
  | low => exact ⟨_, rfl, fun _ _ => hpending⟩

theorem mem_batches {q : Option Priority} (hm : q ≠ some .migrated) (h : earliest q ≤ i) (h' : i ≤ latest q) :
    (i + 1 : Int) ∈ Priority.batches q := by
  rcases q with _ | q
  · simp only [earliest, latest, Priority.batches, List.mem_cons, List.not_mem_nil] at *
    omega
  · cases q with
    | migrated => exact absurd rfl hm
    | _ =>
      simp only [earliest, latest, Priority.batches, List.mem_cons, List.not_mem_nil] at *
      omega

theorem group_priority {group : List Profile} (hg : (ofProfiles ps)[i]? = some group) (hp : p ∈ group) :
    p ∈ ps ∧ (i + 1 : Int) ∈ Priority.batches p.priority := by
  obtain ⟨batch, seen, hb, rfl, -⟩ := deal_group hg
  have hcandidate := (claim_sublist _ _).subset hp
  have hpending := candidates_pending (Ranks.ofProfiles_within ps) (List.mem_of_getElem? hb) seen hcandidate
  rw [Ranks.ofProfiles_eq, List.mem_filter, decide_eq_true_eq] at hpending
  obtain ⟨hmem, hm⟩ := hpending
  obtain ⟨last, hlast, hall⟩ := candidate_latest hmem hm
  exact ⟨hmem, mem_batches hm (candidate_earliest hb hcandidate) (group_le hg hp hlast hall)⟩

/-! ## The beginnings of two ranks -/

theorem claim_self (h : (ps.map (·.path)).Nodup) (hfresh : ∀ p ∈ ps, p.path ∉ taken) :
    claim taken ps = ps := by
  induction ps generalizing taken with
  | nil => rfl
  | cons p ps ih =>
    obtain ⟨hp, hps⟩ := List.nodup_cons.mp h
    have hnew : taken.contains p.path = false := by
      simpa using hfresh p List.mem_cons_self
    rw [claim, hnew, if_neg Bool.false_ne_true, ih hps]
    intro q hq htaken
    rcases List.mem_cons.mp htaken with he | htaken
    · exact hp (List.mem_map.mpr ⟨q, hq, he⟩)
    · exact hfresh q (List.mem_cons_of_mem _ hq) htaken

theorem rank_nodup (h : (ps.map (·.path)).Nodup) (q : Priority) : ((rank ps q).map (·.path)).Nodup := by
  refine ((byEase_perm _).map _).nodup_iff.mpr (h.sublist (List.Sublist.map _ ?_))
  exact List.filter_sublist.trans List.filter_sublist

/-- The first group: the easiest of the two priorities that come first. -/
theorem first_group (h : (ps.map (·.path)).Nodup) : (ofProfiles ps)[0]? = some
    (share 8 (rank ps .highest).length (rank ps .highest) ++ share 3 (rank ps .high).length (rank ps .high)) := by
  refine congrArg some (claim_self ?_ fun _ _ => List.not_mem_nil)
  rw [List.map_append, List.nodup_append]
  refine ⟨(rank_nodup h _).sublist ((List.take_sublist _ _).map _),
    (rank_nodup h _).sublist ((List.take_sublist _ _).map _), ?_⟩
  rintro _ ha _ hb rfl
  obtain ⟨p, hp, rfl⟩ := List.mem_map.mp ha
  obtain ⟨q, hq, hpath⟩ := List.mem_map.mp hb
  obtain ⟨hp, hhighest, -⟩ := mem_rank.mp (share_subset _ _ _ hp)
  obtain ⟨hq, hhigh, -⟩ := mem_rank.mp (share_subset _ _ _ hq)
  rw [List.inj_on_of_nodup_map h hq hp hpath, hhighest] at hhigh
  cases hhigh

theorem mem_share {rating : Priority} {tenths whole : Nat} (hp : p ∈ share tenths whole (rank ps rating)) :
    p ∈ ps ∧ p.priority = some rating :=
  have ⟨hmem, hrating, _⟩ := mem_rank.mp (share_subset _ _ _ hp)
  ⟨hmem, hrating⟩

/-- With a profile, the beginning of a rank has all of the priority that come before. -/
theorem share_closed {rating : Priority} {tenths whole : Nat} (hp : p ∈ share tenths whole (rank ps rating))
    (hq : q ∈ ps) (hsame : q.priority = p.priority) (hb : q.Before p) :
    q ∈ share tenths whole (rank ps rating) := by
  obtain ⟨-, hrating, hm⟩ := mem_rank.mp (share_subset _ _ _ hp)
  have hrank : q ∈ rank ps rating := mem_rank.mpr ⟨hq, hsame.trans hrating, hm⟩
  have hsorted : (rank ps rating).Pairwise fun a b => a.easierThan b = true := byEase_sorted _
  unfold share at hp ⊢
  rw [← List.take_append_drop ((whole * tenths + 9) / 10) (rank ps rating)] at hrank hsorted
  rw [List.pairwise_append] at hsorted
  -- What the beginning leaves is no easier than what it has.
  exact (List.mem_append.mp hrank).resolve_right fun hdrop => hb.not_easier (hsorted.2.2 p hp q hdrop)

end Batches

/-! ## The batches of a plan -/

namespace Batch

variable {ps : List Profile} {p : Profile}

theorem plan_group {i : Nat} {b : Batch} (h : (plan ps)[i]? = some b) :
    ∃ group, (Batches.ofProfiles ps)[i]? = some group ∧ b.id = i + 1 ∧
      b.members = group.map Member.ofProfile := by
  unfold plan at h
  simp only [List.getElem?_map, List.getElem?_zipIdx, Option.map_eq_some_iff, List.getElem?_zip_eq_some] at h
  obtain ⟨_, ⟨⟨_, group⟩, ⟨-, hg⟩, rfl⟩, rfl⟩ := h
  exact ⟨group, hg, by simp, rfl⟩

theorem mem_group (h : (ps.map (·.path)).Nodup) (hp : p ∈ ps) {group : List Profile}
    (hsub : ∀ q ∈ group, q ∈ ps) (hmem : Member.ofProfile p ∈ group.map Member.ofProfile) : p ∈ group := by
  obtain ⟨q, hq, he⟩ := List.mem_map.mp hmem
  have hpath : q.path = p.path := Json.str.inj (congrArg Member.path he)
  exact List.inj_on_of_nodup_map h (hsub q hq) hp hpath ▸ hq

theorem plan_batch (h : (ps.map (·.path)).Nodup) (hp : p ∈ ps) {b : Batch} (hb : b ∈ plan ps)
    (hmem : Member.ofProfile p ∈ b.members) : b.id ∈ Priority.batches p.priority := by
  obtain ⟨i, hi⟩ := List.mem_iff_getElem?.mp hb
  obtain ⟨group, hg, hid, hgroup⟩ := plan_group hi
  have hin := mem_group h hp (fun q hq => (Batches.group_priority hg hq).1) (hgroup ▸ hmem)
  exact hid ▸ (Batches.group_priority hg hin).2

theorem plan_takes (h : (ps.map (·.path)).Nodup) (hp : p ∈ ps) (hm : p.priority ≠ some .migrated) :
    ∃ b ∈ plan ps, Member.ofProfile p ∈ b.members := by
  have hdealt : Member.ofProfile p ∈ (plan ps).flatMap (·.members) := by
    rw [plan_members]
    refine List.mem_map_of_mem ((Batches.ofProfiles_flatten h).mem_iff.mpr ?_)
    exact List.mem_filter.mpr ⟨hp, decide_eq_true hm⟩
  exact List.mem_flatMap.mp hdealt

/-- Batches respect priority: every pending profile is in a batch, and in none but those for its
priority; the first batch has the beginning of what is highest and then that of what is high, and
whoever is in it, so is all of the same priority that comes before. -/
theorem plan_priorities (h : (ps.map (·.path)).Nodup) :
    (∀ p ∈ ps, p.priority ≠ some .migrated →
      ∃ b ∈ plan ps, Member.ofProfile p ∈ b.members ∧ b.id ∈ Priority.batches p.priority) ∧
    (∀ p ∈ ps, ∀ b ∈ plan ps, Member.ofProfile p ∈ b.members → b.id ∈ Priority.batches p.priority) ∧
    ∃ first, (plan ps).head? = some first ∧ first.id = 1 ∧
      (∃ top rest : List Profile, first.members = (top ++ rest).map Member.ofProfile ∧
        (∀ p ∈ top, p ∈ ps ∧ p.priority = some .highest) ∧
        ∀ p ∈ rest, p ∈ ps ∧ p.priority = some .high) ∧
      ∀ p ∈ ps, ∀ q ∈ ps, q.priority = p.priority → q.Before p →
        Member.ofProfile p ∈ first.members → Member.ofProfile q ∈ first.members := by
  refine ⟨fun p hp hm => ?_, fun p hp b hb hmem => plan_batch h hp hb hmem, ?_⟩
  · obtain ⟨b, hb, hmem⟩ := plan_takes h hp hm
    exact ⟨b, hb, hmem, plan_batch h hp hb hmem⟩
  · obtain ⟨first, hfirst⟩ : ∃ first, (plan ps)[0]? = some first := ⟨_, rfl⟩
    obtain ⟨group, hg, hid, hgroup⟩ := plan_group hfirst
    cases (Batches.first_group h).symm.trans hg
    refine ⟨first, List.head?_eq_getElem?.trans hfirst, hid, ⟨_, _, hgroup, fun _ => Batches.mem_share,
      fun _ => Batches.mem_share⟩, fun p hp q hq hsame hbefore hmem => ?_⟩
    rw [hgroup] at hmem ⊢
    have hin := mem_group h hp (fun q hq => (Batches.group_priority hg hq).1) hmem
    refine List.mem_map_of_mem ?_
    rcases List.mem_append.mp hin with hin | hin
    · exact List.mem_append_left _ (Batches.share_closed hin hq hsame hbefore)
    · exact List.mem_append_right _ (Batches.share_closed hin hq hsame hbefore)

/-- Five profiles of the highest priority, of which the first batch has four, and one of low priority. -/
def crowd : List Profile :=
  { path := "f.jsx", name := "F", kind := .functionComponent, priority := some .low } ::
    ["e.jsx", "d.jsx", "c.jsx", "b.jsx", "a.jsx"].map fun path =>
      { path := path, name := "X", kind := .functionComponent, priority := some .highest }

theorem crowd_priorities : (crowd.map (·.path)).Nodup ∧
    (∀ p ∈ crowd, ∃ b ∈ plan crowd, Member.ofProfile p ∈ b.members ∧ b.id ∈ Priority.batches p.priority) ∧
    ∃ first, (plan crowd).head? = some first ∧ first.id = 1 ∧
      ∀ p ∈ crowd, ∀ q ∈ crowd, q.priority = p.priority → q.Before p →
        Member.ofProfile p ∈ first.members → Member.ofProfile q ∈ first.members := by
  have hd : (crowd.map (·.path)).Nodup := by decide
  have hpending : ∀ p ∈ crowd, p.priority ≠ some .migrated := by decide
  obtain ⟨hall, -, first, hfirst, hid, -, hclosed⟩ := plan_priorities hd
  exact ⟨hd, fun p hp => hall p hp (hpending p hp), first, hfirst, hid, hclosed⟩

end Batch

end Retype

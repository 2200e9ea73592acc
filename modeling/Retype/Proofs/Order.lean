import Mathlib.Data.List.Induction
import Mathlib.Data.List.Nodup
import Mathlib.Data.List.Perm.Basic
import Retype.Order

/-!
# What is chosen and sorted

What a choice picks stands in the list it picks from. What is sorted, and what is freed
of repetition, depends on the members of a list and not on their order, as far as the
order that is sorted by tells them apart.
-/

set_option autoImplicit false

namespace Retype.Order

variable {α : Type}

theorem mem_of_leastBy {key : α → Nat} {xs : List α} {x : α}
    (h : leastBy key xs = some x) : x ∈ xs := by
  induction xs generalizing x with
  | nil => simp [leastBy] at h
  | cons a xs ih =>
    rw [leastBy] at h
    split at h
    · cases h
      exact List.mem_cons_self
    · next b hb =>
      split at h
      · cases h
        exact List.mem_cons_of_mem a (ih hb)
      · cases h
        exact List.mem_cons_self

theorem nil_of_leastBy {key : α → Nat} {xs : List α} (h : leastBy key xs = none) : xs = [] := by
  cases xs with
  | nil => rfl
  | cons a xs =>
    rw [leastBy] at h
    split at h
    · cases h
    · split at h <;> cases h

/-- Nothing in the list has a lesser key than what is chosen. -/
theorem leastBy_le {key : α → Nat} {xs : List α} {x y : α} (h : leastBy key xs = some x)
    (hy : y ∈ xs) : key x ≤ key y := by
  induction xs generalizing x with
  | nil => cases hy
  | cons a xs ih =>
    rw [leastBy] at h
    split at h
    · next hnone =>
      cases h
      rw [nil_of_leastBy hnone, List.mem_singleton] at hy
      exact Nat.le_of_eq (congrArg key hy.symm)
    · next b hb =>
      split at h <;> cases h <;> rcases List.mem_cons.mp hy with rfl | hy
      · omega
      · exact ih hb hy
      · exact Nat.le_refl _
      · have := ih hb hy
        omega

/-- What is chosen is the first of the least: whatever stands before it has a greater key, and
nothing behind it has a lesser one. -/
theorem leastBy_eq_some_iff {key : α → Nat} {xs : List α} {x : α} :
    leastBy key xs = some x ↔ ∃ before after, xs = before ++ x :: after ∧
      (∀ y ∈ before, key x < key y) ∧ ∀ y ∈ after, key x ≤ key y := by
  induction xs generalizing x with
  | nil => simp [leastBy]
  | cons a xs ih =>
    constructor
    · intro h
      have hleast : ∀ y ∈ a :: xs, key x ≤ key y := fun y hy => leastBy_le h hy
      rw [leastBy] at h
      split at h
      · cases h
        exact ⟨[], xs, rfl, nofun, fun y hy => hleast y (List.mem_cons_of_mem a hy)⟩
      · next b hb =>
        split at h
        · next hlt =>
          cases h
          obtain ⟨before, after, rfl, hbefore, hafter⟩ := ih.mp hb
          exact ⟨a :: before, after, rfl, List.forall_mem_cons.mpr ⟨hlt, hbefore⟩, hafter⟩
        · cases h
          exact ⟨[], xs, rfl, nofun, fun y hy => hleast y (List.mem_cons_of_mem a hy)⟩
    · rintro ⟨before, after, hsplit, hbefore, hafter⟩
      rw [leastBy]
      cases before with
      | nil =>
        obtain ⟨rfl, rfl⟩ := List.cons.inj hsplit
        split
        · rfl
        · next b hb => rw [if_neg (Nat.not_lt.mpr (hafter b (mem_of_leastBy hb)))]
      | cons c before =>
        obtain ⟨rfl, rfl⟩ := List.cons.inj hsplit
        obtain ⟨hlt, hbefore⟩ := List.forall_mem_cons.mp hbefore
        rw [ih.mpr ⟨before, after, rfl, hbefore, hafter⟩]
        exact if_pos hlt

/-! ## Sorting -/

theorem mergeSort_congr {le : α → α → Bool} {xs ys : List α}
    (trans : ∀ a b c, le a b = true → le b c = true → le a c = true)
    (total : ∀ a b, (le a b || le b a) = true) (h : xs.Perm ys)
    (anti : ∀ a ∈ xs, ∀ b ∈ ys, le a b = true → le b a = true → a = b) :
    xs.mergeSort le = ys.mergeSort le := by
  refine List.Perm.eq_of_pairwise (fun a b ha hb => ?_) (List.pairwise_mergeSort trans total xs)
    (List.pairwise_mergeSort trans total ys)
    (((List.mergeSort_perm xs le).trans h).trans (List.mergeSort_perm ys le).symm)
  exact anti a (List.mem_mergeSort.mp ha) b (List.mem_mergeSort.mp hb)

theorem byDescending_sorted (key : α → Nat) (xs : List α) :
    (byDescending key xs).Pairwise fun a b => key b ≤ key a := by
  have h : (byDescending key xs).Pairwise fun a b => decide (key b ≤ key a) = true := by
    apply List.pairwise_mergeSort
    · intro a b c hab hbc
      rw [decide_eq_true_eq] at *
      exact Nat.le_trans hbc hab
    · intro a b
      simpa using Nat.le_total (key b) (key a)
  exact h.imp of_decide_eq_true

/-- What is sorted by a number that tells its members apart ascends by it. -/
theorem mergeSort_ascending {f : α → Int} {xs : List α} (h : (xs.map f).Nodup) :
    ((xs.mergeSort fun a b => f a ≤ f b).map f).Pairwise (· < ·) := by
  have hsort : (xs.mergeSort fun a b => f a ≤ f b).Pairwise fun a b => decide (f a ≤ f b) = true := by
    apply List.pairwise_mergeSort
    · intro a b c hab hbc
      rw [decide_eq_true_eq] at *
      exact Int.le_trans hab hbc
    · intro a b
      simpa using Int.le_total (f a) (f b)
  have hle : ((xs.mergeSort fun a b => f a ≤ f b).map f).Pairwise (· ≤ ·) :=
    List.pairwise_map.mpr (hsort.imp of_decide_eq_true)
  have hne : ((xs.mergeSort fun a b => f a ≤ f b).map f).Nodup :=
    ((List.mergeSort_perm xs _).map f).nodup_iff.mpr h
  exact (hle.and hne).imp fun ⟨hle, hne⟩ => by omega

theorem ascending_unique {f : α → Int} {xs ys : List α} (hx : (xs.map f).Pairwise (· < ·))
    (hy : (ys.map f).Pairwise (· < ·)) (h : ∀ a, a ∈ xs ↔ a ∈ ys) : xs = ys := by
  have hnodup : ∀ {zs : List α}, (zs.map f).Pairwise (· < ·) → zs.Nodup := fun hz =>
    List.Nodup.of_map f (hz.imp Int.ne_of_lt)
  rw [List.pairwise_map] at hx hy
  refine List.Perm.eq_of_pairwise (fun a b _ _ hab hba => absurd (Int.lt_trans hab hba) (Int.lt_irrefl _))
    hx hy ((List.perm_ext_iff_of_nodup ?_ ?_).mpr h)
  · exact hnodup (List.pairwise_map.mpr hx)
  · exact hnodup (List.pairwise_map.mpr hy)

theorem sortTexts_perm (xs : List String) : (sortTexts xs).Perm xs := List.mergeSort_perm xs _

@[simp] theorem mem_sortTexts {x : String} {xs : List String} : x ∈ sortTexts xs ↔ x ∈ xs :=
  (sortTexts_perm xs).mem_iff

theorem sortTexts_congr {xs ys : List String} (h : xs.Perm ys) : sortTexts xs = sortTexts ys := by
  refine mergeSort_congr ?_ ?_ h ?_
  · intro a b c hab hbc
    simp only [decide_eq_true_eq] at *
    exact String.le_trans hab hbc
  · intro a b
    simpa using String.le_total a b
  · intro a _ b _ hab hba
    simp only [decide_eq_true_eq] at *
    exact String.le_antisymm hab hba

theorem sortTexts_sorted (xs : List String) : (sortTexts xs).Pairwise (· ≤ ·) := by
  have h : (sortTexts xs).Pairwise fun a b => decide (a ≤ b) = true := by
    apply List.pairwise_mergeSort
    · intro a b c hab hbc
      simp only [decide_eq_true_eq] at *
      exact String.le_trans hab hbc
    · intro a b
      simpa using String.le_total a b
  exact h.imp of_decide_eq_true

theorem sortTexts_ascending {xs : List String} (h : xs.Nodup) : (sortTexts xs).Pairwise (· < ·) := by
  have hn : (sortTexts xs).Nodup := (sortTexts_perm xs).nodup_iff.mpr h
  refine (List.Pairwise.and (sortTexts_sorted xs) hn).imp fun ⟨hle, hne⟩ => ?_
  exact String.not_le.mp fun hba => hne (String.le_antisymm hle hba)

theorem nodup_of_ascending {xs : List String} (h : xs.Pairwise (· < ·)) : xs.Nodup := by
  refine h.imp fun {a b} hab => ?_
  rintro rfl
  exact String.lt_irrefl a hab

theorem ascending_ext {xs ys : List String} (hx : xs.Pairwise (· < ·)) (hy : ys.Pairwise (· < ·))
    (h : ∀ a, a ∈ xs ↔ a ∈ ys) : xs = ys := by
  have hperm : xs.Perm ys :=
    (List.perm_ext_iff_of_nodup (nodup_of_ascending hx) (nodup_of_ascending hy)).mpr h
  refine hperm.eq_of_pairwise (fun a b _ _ hab hba => ?_) hx hy
  exact absurd (String.lt_trans hab hba) (String.lt_irrefl a)

theorem listBefore_cons {a b : String} {as bs : List String} :
    listBefore (a :: as) (b :: bs) = true ↔ a < b ∨ (a = b ∧ listBefore as bs = true) := by
  rw [listBefore]
  split
  · next h =>
    subst h
    exact ⟨fun hl => Or.inr ⟨rfl, hl⟩, fun hl => (hl.resolve_left (String.lt_irrefl a)).2⟩
  · next h => simp [h]

theorem listBefore_trans {as bs cs : List String} (hab : listBefore as bs = true)
    (hbc : listBefore bs cs = true) : listBefore as cs = true := by
  induction as generalizing bs cs with
  | nil => simp [listBefore]
  | cons a as ih =>
    cases bs with
    | nil => simp [listBefore] at hab
    | cons b bs =>
      cases cs with
      | nil => simp [listBefore] at hbc
      | cons c cs =>
        rw [listBefore_cons] at *
        rcases hab with hab | ⟨rfl, hab⟩
        · rcases hbc with hbc | ⟨rfl, -⟩
          · exact Or.inl (String.lt_trans hab hbc)
          · exact Or.inl hab
        · exact hbc.imp_right fun ⟨hac, hbc⟩ => ⟨hac, ih hab hbc⟩

theorem listBefore_total (as bs : List String) :
    (listBefore as bs || listBefore bs as) = true := by
  rw [Bool.or_eq_true]
  induction as generalizing bs with
  | nil => exact Or.inl (by simp [listBefore])
  | cons a as ih =>
    cases bs with
    | nil => exact Or.inr (by simp [listBefore])
    | cons b bs =>
      rw [listBefore_cons, listBefore_cons]
      by_cases hab : a < b
      · exact Or.inl (Or.inl hab)
      by_cases hba : b < a
      · exact Or.inr (Or.inl hba)
      have heq : a = b := String.le_antisymm (String.not_lt.mp hba) (String.not_lt.mp hab)
      exact (ih bs).imp (fun h => Or.inr ⟨heq, h⟩) fun h => Or.inr ⟨heq.symm, h⟩

theorem listBefore_antisymm {as bs : List String} (hab : listBefore as bs = true)
    (hba : listBefore bs as = true) : as = bs := by
  induction as generalizing bs with
  | nil =>
    cases bs with
    | nil => rfl
    | cons b bs => simp [listBefore] at hba
  | cons a as ih =>
    cases bs with
    | nil => simp [listBefore] at hab
    | cons b bs =>
      rw [listBefore_cons] at *
      rcases hab with hab | ⟨rfl, hab⟩
      · rcases hba with hba | ⟨rfl, -⟩
        · exact absurd (String.lt_trans hab hba) (String.lt_irrefl a)
        · exact absurd hab (String.lt_irrefl _)
      · rcases hba with hba | ⟨-, hba⟩
        · exact absurd hba (String.lt_irrefl a)
        · rw [ih hab hba]

theorem sortLists_perm (xss : List (List String)) : (sortLists xss).Perm xss :=
  List.mergeSort_perm xss _

@[simp] theorem mem_sortLists {xs : List String} {xss : List (List String)} :
    xs ∈ sortLists xss ↔ xs ∈ xss :=
  (sortLists_perm xss).mem_iff

theorem sortLists_sorted (xss : List (List String)) :
    (sortLists xss).Pairwise fun as bs => listBefore as bs = true := by
  apply List.pairwise_mergeSort
  · exact fun _ _ _ => listBefore_trans
  · exact listBefore_total

theorem sortLists_congr {xss yss : List (List String)} (h : xss.Perm yss) :
    sortLists xss = sortLists yss :=
  mergeSort_congr (fun _ _ _ => listBefore_trans) listBefore_total h
    fun _ _ _ _ => listBefore_antisymm

/-! ## Without repetition -/

theorem single_of_nodup {xs : List α} {x : α} (hne : xs ≠ []) (hnodup : xs.Nodup) (h : ∀ y ∈ xs, y = x) :
    xs = [x] := by
  match xs with
  | [] => exact absurd rfl hne
  | [y] => rw [h y List.mem_cons_self]
  | y :: z :: rest =>
    have hyz : y = z := (h y List.mem_cons_self).trans (h z (List.mem_cons_of_mem y List.mem_cons_self)).symm
    exact absurd (hyz ▸ List.mem_cons_self) (List.nodup_cons.mp hnodup).1

theorem distinct_append_congr [BEq α] {xs ys : List α} (h : distinct xs = distinct ys) (zs : List α) :
    distinct (xs ++ zs) = distinct (ys ++ zs) := by
  rw [distinct, distinct, List.reverse_inj] at h
  rw [distinct, distinct, List.foldl_append, List.foldl_append, h]

section

variable [BEq α] [LawfulBEq α]

theorem mem_distinct {x : α} {xs : List α} : x ∈ distinct xs ↔ x ∈ xs := by
  have general : ∀ seen : List α, x ∈ xs.foldl (fun seen x => if seen.contains x then seen
      else x :: seen) seen ↔ x ∈ seen ∨ x ∈ xs := by
    induction xs with
    | nil => simp
    | cons a xs ih =>
      intro seen
      rw [List.foldl_cons, ih, List.mem_cons]
      split
      · next h =>
        have ha : a ∈ seen := List.contains_iff_mem.mp h
        constructor
        · exact Or.imp_right Or.inr
        · rintro (hx | rfl | hx)
          · exact Or.inl hx
          · exact Or.inl ha
          · exact Or.inr hx
      · rw [List.mem_cons, or_assoc, or_left_comm]
  rw [distinct, List.mem_reverse, general []]
  simp

theorem nodup_distinct (xs : List α) : (distinct xs).Nodup := by
  have general : ∀ seen : List α, seen.Nodup → (xs.foldl (fun seen x => if seen.contains x then seen
      else x :: seen) seen).Nodup := by
    induction xs with
    | nil => exact fun _ h => h
    | cons a xs ih =>
      intro seen hs
      rw [List.foldl_cons]
      split
      · exact ih seen hs
      · next h => exact ih _ (List.nodup_cons.mpr ⟨fun ha => h (List.contains_iff_mem.mpr ha), hs⟩)
  exact List.nodup_reverse.mpr (general [] List.nodup_nil)

theorem distinct_perm {xs ys : List α} (h : xs.Perm ys) : (distinct xs).Perm (distinct ys) :=
  (List.perm_ext_iff_of_nodup (nodup_distinct xs) (nodup_distinct ys)).mpr fun _ => by
    rw [mem_distinct, mem_distinct, h.mem_iff]

theorem distinct_concat (xs : List α) (x : α) :
    distinct (xs ++ [x]) = if xs.contains x then distinct xs else distinct xs ++ [x] := by
  have hseen : (xs.foldl (fun seen x => if seen.contains x then seen else x :: seen) []).contains x =
      xs.contains x := by
    rw [Bool.eq_iff_iff, List.contains_iff_mem, List.contains_iff_mem, ← List.mem_reverse]
    exact mem_distinct
  rw [distinct, List.foldl_concat, hseen]
  split
  · rfl
  · rw [List.reverse_cons, distinct]

theorem distinct_of_nodup {xs : List α} (h : xs.Nodup) : distinct xs = xs := by
  induction xs using List.reverseRecOn with
  | nil => rfl
  | append_singleton xs x ih =>
    rw [List.nodup_append] at h
    have hx : ¬ xs.contains x = true := fun hx =>
      h.2.2 x (List.contains_iff_mem.mp hx) x List.mem_cons_self rfl
    rw [distinct_concat, if_neg hx, ih h.1]

theorem distinct_append_of_subset {xs ys : List α} (h : ys ⊆ xs) : distinct (xs ++ ys) = distinct xs := by
  induction ys using List.reverseRecOn with
  | nil => rw [List.append_nil]
  | append_singleton ys y ih =>
    have hy : (xs ++ ys).contains y = true :=
      List.contains_iff_mem.mpr (List.mem_append_left ys (h (List.mem_append_right ys List.mem_cons_self)))
    rw [← List.append_assoc, distinct_concat, if_pos hy, ih fun z hz => h (List.mem_append_left [y] hz)]

theorem distinct_append_distinct (xs ys : List α) : distinct (xs ++ distinct ys) = distinct (xs ++ ys) := by
  induction ys using List.reverseRecOn with
  | nil => rfl
  | append_singleton ys y ih =>
    rw [distinct_concat, ← List.append_assoc]
    by_cases hy : ys.contains y = true
    · rw [if_pos hy, ih]
      exact (distinct_append_of_subset fun z hz => by
        rw [List.mem_singleton] at hz
        exact hz ▸ List.mem_append_right xs (List.contains_iff_mem.mp hy)).symm
    · rw [if_neg hy, ← List.append_assoc]
      exact distinct_append_congr ih [y]

theorem distinct_flatMap_distinct {β : Type} (f : β → List α) (xs : List β) :
    distinct (xs.flatMap fun x => distinct (f x)) = distinct (xs.flatMap f) := by
  induction xs using List.reverseRecOn with
  | nil => rfl
  | append_singleton xs x ih =>
    simp only [List.flatMap_append, List.flatMap_singleton]
    rw [distinct_append_distinct]
    exact distinct_append_congr ih (f x)

/-- Nothing is lost where each of several sources is used only once. -/
theorem distinct_distinct_flatMap {β : Type} [BEq β] [LawfulBEq β] (f : β → List α) (xs : List β) :
    distinct ((distinct xs).flatMap f) = distinct (xs.flatMap f) := by
  induction xs using List.reverseRecOn with
  | nil => rfl
  | append_singleton xs x ih =>
    rw [distinct_concat, List.flatMap_append, List.flatMap_singleton]
    by_cases hx : xs.contains x = true
    · rw [if_pos hx, ih]
      exact (distinct_append_of_subset fun y hy =>
        List.mem_flatMap.mpr ⟨x, List.contains_iff_mem.mp hx, hy⟩).symm
    · rw [if_neg hx, List.flatMap_append, List.flatMap_singleton]
      exact distinct_append_congr ih (f x)

end

end Retype.Order

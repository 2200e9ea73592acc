import Retype.Proofs.Path.Extension
import Retype.Project.Workspace

/-!
# The folders above a path

A plain path is a slash and segments, each of which says something. The folders that
it leads through are those that its folder leads through, and that folder; and they
are those of every other path with the same folder.
-/

set_option autoImplicit false

namespace Retype

open Retype.Path

/-- Segments that are neither empty nor `.`. -/
def Path.Telling (ss : List (List Char)) : Prop := ∀ s ∈ ss, s ≠ [] ∧ s ≠ ['.'] ∧ '/' ∉ s

def Path.rooted (ss : List (List Char)) : String := String.ofList ('/' :: joinSegments ss)

/-- A slash, and then segments, at least one. -/
def Path.Plain (p : String) : Prop := ∃ ss, ss ≠ [] ∧ Telling ss ∧ p = rooted ss

namespace Workspace

theorem above_cons {ss : List String} (hne : ss ≠ []) (s : String) :
    above (s :: ss) = s :: (above ss).map (s ++ "/" ++ ·) := by
  rw [above]
  exact hne

theorem above_snoc {ss : List (List Char)} (hne : ss ≠ []) (s : List Char) :
    above ((ss ++ [s]).map String.ofList) =
      above (ss.map String.ofList) ++ [String.ofList (joinSegments ss)] := by
  induction ss with
  | nil => exact absurd rfl hne
  | cons t ss ih =>
    by_cases hss : ss = []
    · rw [hss]
      rfl
    · rw [List.cons_append, List.map_cons, above_cons (by simp), ih hss, List.map_cons,
        above_cons (by simpa using hss), List.map_append, List.cons_append, joinSegments_cons hss]
      simp [String.append_assoc]

theorem leadOf_rooted {ss : List (List Char)} (ht : Telling ss) :
    leadOf ('/' :: joinSegments ss) = ['/'] := by
  cases ss with
  | nil => rfl
  | cons s ss =>
    obtain ⟨hne, -, hslash⟩ := ht s List.mem_cons_self
    obtain ⟨c, cs, rfl⟩ := List.exists_cons_of_ne_nil hne
    have hc : c ≠ '/' := fun h => hslash (h ▸ List.mem_cons_self)
    have hjoin : ∃ rest, joinSegments ((c :: cs) :: ss) = c :: rest := by
      by_cases hss : ss = []
      · exact ⟨cs, by rw [hss]; rfl⟩
      · exact ⟨cs ++ '/' :: joinSegments ss, by rw [joinSegments_cons hss]; rfl⟩
    obtain ⟨rest, hrest⟩ := hjoin
    rw [hrest]
    unfold leadOf
    split <;> simp_all

theorem segmentsOf_rooted {ss : List (List Char)} (hne : ss ≠ []) (ht : Telling ss) :
    segmentsOf ('/' :: joinSegments ss) = [] :: ss := by
  rw [segmentsOf_slash, segmentsOf_joinSegments hne fun s hs => (ht s hs).2.2]

theorem tidy_rooted {ss : List (List Char)} (hne : ss ≠ []) (ht : Telling ss) :
    tidy (rooted ss) = rooted ss := by
  have hkeep : ss.filter (fun s => !(s = [] || s = ['.'])) = ss := by
    rw [List.filter_eq_self]
    intro s hs
    simp [(ht s hs).1, (ht s hs).2.1]
  have hall : ([] :: ss).filter (fun s => !(s = [] || s = ['.'])) = ss := by
    rw [List.filter_cons_of_neg (by simp), hkeep]
  simp only [tidy, rooted, String.toList_ofList, leadOf_rooted ht, segmentsOf_rooted hne ht, hall]
  simp

theorem foldersAbove_rooted {ss : List (List Char)} (hne : ss ≠ []) (ht : Telling ss) :
    foldersAbove (rooted ss) = (above (ss.map String.ofList)).map ("/" ++ ·) := by
  rw [foldersAbove, tidy_rooted hne ht, segments, rooted, String.toList_ofList,
    segmentsOf_rooted hne ht]
  rfl

/-! ## The folder of a path -/

theorem cut_slash (x : List Char) {s : List Char} (h : '/' ∉ s) :
    (cut (x ++ '/' :: s)).1 = x ++ ['/'] := by
  rw [List.append_cons, cut_head (Or.inr ⟨x, rfl⟩) h]

theorem joinSegments_ends {ss : List (List Char)} (hne : ss ≠ []) :
    ∃ y, ∃ l ∈ ss, joinSegments ss = y ++ l := by
  induction ss with
  | nil => exact absurd rfl hne
  | cons t ss ih =>
    by_cases hss : ss = []
    · exact ⟨[], t, List.mem_cons_self, by rw [hss]; rfl⟩
    · obtain ⟨y, l, hl, hy⟩ := ih hss
      refine ⟨t ++ '/' :: y, l, List.mem_cons_of_mem t hl, ?_⟩
      rw [joinSegments_cons hss, hy, List.append_assoc, List.cons_append]

theorem dropEnd_slash (y : List Char) {l : List Char} (hne : l ≠ []) (h : '/' ∉ l) :
    Blank.dropEnd (· = '/') (y ++ l ++ ['/']) = y ++ l := by
  obtain ⟨c, cs, hc⟩ := List.exists_cons_of_ne_nil (show l.reverse ≠ [] by simpa using hne)
  have hslash : c ≠ '/' := by
    intro hc'
    refine h (List.mem_reverse.mp ?_)
    rw [hc, hc']
    exact List.mem_cons_self
  have hdrop : ('/' :: (c :: cs ++ y.reverse)).dropWhile (fun c => decide (c = '/')) =
      c :: cs ++ y.reverse := by
    simp [hslash]
  rw [Blank.dropEnd, List.reverse_append, List.reverse_append, hc, List.reverse_singleton,
    List.singleton_append, hdrop, List.reverse_append, List.reverse_reverse, ← hc,
    List.reverse_reverse]

theorem parent_rooted {ss : List (List Char)} (hne : ss ≠ []) (ht : Telling ss) {s : List Char}
    (hs : '/' ∉ s) : parent (rooted (ss ++ [s])) = rooted ss := by
  obtain ⟨y, l, hl, hy⟩ := joinSegments_ends hne
  have hcut : (cut ('/' :: joinSegments (ss ++ [s]))).1 = '/' :: y ++ l ++ ['/'] := by
    rw [joinSegments_snoc hne, hy, ← List.cons_append, cut_slash _ hs, List.cons_append,
      List.cons_append, List.cons_append]
  obtain ⟨hlne, -, hlslash⟩ := ht l hl
  have hsome : ¬ ('/' :: y ++ l ++ ['/']).all (· = '/') = true := by
    intro hall
    obtain ⟨c, cs, rfl⟩ := List.exists_cons_of_ne_nil hlne
    have hc : c = '/' := by
      have := List.all_eq_true.mp hall c (by simp)
      simpa using this
    exact hlslash (hc ▸ List.mem_cons_self)
  have hfolder : folder (rooted (ss ++ [s])) = rooted ss := by
    rw [folder, rooted, String.toList_ofList, hcut, if_neg hsome, dropEnd_slash ('/' :: y) hlne hlslash,
      rooted, hy, List.cons_append]
  rw [parent, hfolder]
  simp [rooted]

theorem parent_top {s : List Char} (hs : '/' ∉ s) : parent (rooted [s]) = "/" := by
  have hcut : (cut ('/' :: s)).1 = ['/'] := cut_slash [] hs
  have hfolder : folder (rooted [s]) = "/" := by
    rw [folder, rooted, String.toList_ofList, joinSegments, hcut]
    rfl
  rw [parent, hfolder]
  rfl

/-- The folders that are made for a path are those above it, or only the top. -/
theorem foldersAbove_parent {p : String} (h : Plain p) :
    foldersAbove (parent p) ++ [parent p] = foldersAbove p ∨
      foldersAbove (parent p) ++ [parent p] = ["/"] ∧ foldersAbove p = [] := by
  obtain ⟨ss, hne, ht, rfl⟩ := h
  obtain ⟨init, s, rfl⟩ : ∃ init s, ss = init ++ [s] :=
    ⟨_, _, (List.dropLast_concat_getLast hne).symm⟩
  have hs := (ht s (by simp)).2.2
  have hti : Telling init := fun t h => ht t (List.mem_append_left _ h)
  by_cases hi : init = []
  · right
    subst hi
    rw [List.nil_append, parent_top hs, foldersAbove_rooted (List.cons_ne_nil s []) ht]
    exact ⟨rfl, rfl⟩
  · left
    rw [parent_rooted hi hti hs, foldersAbove_rooted hi hti, foldersAbove_rooted hne ht,
      above_snoc hi, List.map_append]
    simp [rooted]

theorem parent_plain {p : String} (h : Plain p) : parent p = "/" ∨ Plain (parent p) := by
  obtain ⟨ss, hne, ht, rfl⟩ := h
  obtain ⟨init, s, rfl⟩ : ∃ init s, ss = init ++ [s] :=
    ⟨_, _, (List.dropLast_concat_getLast hne).symm⟩
  have hs := (ht s (by simp)).2.2
  have hti : Telling init := fun t h => ht t (List.mem_append_left _ h)
  by_cases hi : init = []
  · left
    subst hi
    exact parent_top hs
  · exact Or.inr ⟨init, hi, hti, parent_rooted hi hti hs⟩

theorem tidy_plain {p : String} (h : Plain p) : tidy p = p := by
  obtain ⟨ss, hne, ht, rfl⟩ := h
  exact tidy_rooted hne ht

/-! ## Drafts -/

def draftOf (p : String) : String := p ++ ".tmp"

theorem draftOf_rooted (init : List (List Char)) (s : List Char) :
    draftOf (rooted (init ++ [s])) = rooted (init ++ [s ++ ".tmp".toList]) := by
  apply String.toList_injective
  simp only [draftOf, String.toList_append, rooted, String.toList_ofList]
  by_cases hi : init = []
  · subst hi
    rfl
  · rw [joinSegments_snoc hi, joinSegments_snoc hi]
    simp

theorem draft_telling {init : List (List Char)} {s : List Char} (ht : Telling (init ++ [s])) :
    Telling (init ++ [s ++ ".tmp".toList]) := by
  intro t h
  rcases List.mem_append.mp h with h | h
  · exact ht t (List.mem_append_left _ h)
  · obtain ⟨-, -, hs⟩ := ht s (by simp)
    cases List.mem_singleton.mp h
    refine ⟨by simp, fun h => ?_, fun h => ?_⟩
    · have := congrArg List.length h
      simp at this
    · rcases List.mem_append.mp h with h | h
      · exact hs h
      · revert h
        decide

theorem foldersAbove_draft {p : String} (h : Plain p) : foldersAbove (draftOf p) = foldersAbove p := by
  obtain ⟨ss, hne, ht, rfl⟩ := h
  obtain ⟨init, s, rfl⟩ : ∃ init s, ss = init ++ [s] :=
    ⟨_, _, (List.dropLast_concat_getLast hne).symm⟩
  rw [draftOf_rooted, foldersAbove_rooted (by simp) (draft_telling ht), foldersAbove_rooted hne ht]
  by_cases hi : init = []
  · subst hi
    rfl
  · rw [above_snoc hi, above_snoc hi]

end Workspace

end Retype

import Mathlib.Data.List.Basic
import Retype.Proofs.Project.Folders

/-!
# Functions that keep the last segment

Joining a folder, tidying and making normal change what stands before the last segment of
a path, and not the segment. So what is appended to the segment is appended to the result,
and the extension stays what it was.
-/

set_option autoImplicit false

namespace Retype

namespace Path

variable {f g : String → String} {p x : String}

/-! ## Keeping the last segment -/

/-- A function of paths that changes only what stands before a last segment. -/
def Keeps (f : String → String) : Prop :=
  ∀ h, Head h → ∃ h', Head h' ∧ ∀ b, Names b → '/' ∉ b → (f (String.ofList (h ++ b))).toList = h' ++ b

theorem Keeps.id : Keeps id :=
  fun h hh => ⟨h, hh, fun _ _ _ => String.toList_ofList⟩

theorem Keeps.comp (hg : Keeps g) (hf : Keeps f) : Keeps fun p => g (f p) := by
  intro h hh
  obtain ⟨h', hh', hf⟩ := hf h hh
  obtain ⟨h'', hh'', hg⟩ := hg h' hh'
  refine ⟨h'', hh'', fun b hb hslash => ?_⟩
  rw [← hg b hb hslash, ← hf b hb hslash, String.ofList_toList]

/-- The last segment of a path stays, whatever plain text is appended to it. -/
theorem Keeps.append (hf : Keeps f) (hp : Worded (base p).toList) :
    base (f p) = base p ∧ ∀ x : String, '/' ∉ x.toList → f (p ++ x) = f p ++ x := by
  obtain ⟨h', hh', hf⟩ := hf (cut p.toList).1 (cut_ends p.toList)
  have hslash := slash_notMem_cut p.toList
  rw [base, String.toList_ofList] at hp
  have hself : (f p).toList = h' ++ (cut p.toList).2 := by
    rw [← hf _ hp.names hslash, cut_parts, String.ofList_toList]
  constructor
  · rw [base, hself, cut_head hh' hslash, base]
  · intro x hx
    have hlong : '/' ∉ (cut p.toList).2 ++ x.toList := fun hmem =>
      (List.mem_append.mp hmem).elim hslash hx
    have happend := hf _ (hp.append x.toList).names hlong
    rw [← List.append_assoc, cut_parts, ← String.toList_append, String.ofList_toList] at happend
    apply String.toList_injective
    rw [happend, String.toList_append, hself, List.append_assoc]

/-! ## Joining, tidying and making normal -/

/-- The slashes at the front do not depend on the last segment. -/
theorem leadOf_append (h : List Char) {b : List Char} (hb : b.head? ≠ some '/') :
    leadOf (h ++ b) = leadOf h := by
  match h with
  | [] => exact leadOf_relative hb
  | [c] =>
    cases b with
    | nil => rfl
    | cons d b =>
      have hd : d ≠ '/' := fun h => hb (congrArg some h)
      by_cases hc : c = '/' <;> simp [leadOf, hc, hd]
  | [c, d] =>
    cases b with
    | nil => rfl
    | cons e b =>
      have he : e ≠ '/' := fun h => hb (congrArg some h)
      by_cases hc : c = '/' <;> by_cases hd : d = '/' <;> simp [leadOf, hc, hd, he]
  | c :: d :: e :: h =>
    by_cases hc : c = '/' <;> by_cases hd : d = '/' <;> by_cases he : e = '/' <;>
      simp [leadOf, hc, hd, he]

theorem head_leadOf (h : List Char) : Head (leadOf h) := by
  unfold leadOf
  split
  · exact Or.inr ⟨[], rfl⟩
  · exact Or.inr ⟨['/'], rfl⟩
  · exact Or.inr ⟨[], rfl⟩
  · exact Or.inl rfl

theorem head?_of_plain {b : List Char} (hslash : '/' ∉ b) : b.head? ≠ some '/' := by
  intro h
  exact hslash (List.mem_of_mem_head? h)

theorem segmentsOf_head {h : List Char} (hh : Head h) :
    ∃ ss, ∀ b, '/' ∉ b → segmentsOf (h ++ b) = ss ++ [b] := by
  rcases hh with rfl | ⟨d, rfl⟩
  · exact ⟨[], fun b hb => segmentsOf_plain hb⟩
  · refine ⟨segmentsOf d, fun b hb => ?_⟩
    rw [List.append_assoc, List.singleton_append, segmentsOf_append_slash, segmentsOf_plain hb]

theorem joinSegments_last (ss : List (List Char)) :
    ∃ h, Head h ∧ ∀ b, joinSegments (ss ++ [b]) = h ++ b := by
  by_cases hss : ss = []
  · subst hss
    exact ⟨[], Or.inl rfl, fun _ => rfl⟩
  · refine ⟨joinSegments ss ++ ['/'], Or.inr ⟨_, rfl⟩, fun b => ?_⟩
    rw [joinSegments_snoc hss, List.append_assoc, List.singleton_append]

/-- A path that is joined to a folder ends as it did, and where it is absolute is seen before
its last segment. -/
theorem join_segment (a : String) {h : List Char} (hh : Head h) :
    ∃ g, Head g ∧ ∀ b, '/' ∉ b → (join a (String.ofList (h ++ b))).toList = g ++ b := by
  have hlead : ∃ l, Head l ∧ ∀ b, isAbsolute b = false → (join a b).toList = l ++ b.toList := by
    by_cases ha : (a.isEmpty || a.toList.getLast? = some '/') = true
    · refine ⟨a.toList, ?_, fun b hb => ?_⟩
      · rcases (Bool.or_eq_true _ _).mp ha with ha | ha
        · left
          rw [String.isEmpty_iff.mp ha]
          rfl
        · exact Or.inr (List.getLast?_eq_some_iff.mp (of_decide_eq_true ha))
      · rw [join, if_neg (by simp [hb]), if_pos ha, String.toList_append]
    · refine ⟨a.toList ++ ['/'], Or.inr ⟨_, rfl⟩, fun b hb => ?_⟩
      rw [join, if_neg (by simp [hb]), if_neg ha, String.toList_append, String.toList_append]
      rfl
  obtain ⟨l, hl, hjoin⟩ := hlead
  -- a last segment has no slash, so whether the path is absolute is seen before it
  have habs : ∀ b : List Char, '/' ∉ b →
      isAbsolute (String.ofList (h ++ b)) = decide (h.head? = some '/') := by
    intro b hb
    rw [isAbsolute, String.toList_ofList]
    cases h with
    | nil => simpa using head?_of_plain hb
    | cons c h => rfl
  by_cases hroot : h.head? = some '/'
  · refine ⟨h, hh, fun b hb => ?_⟩
    rw [join, if_pos (by rw [habs b hb]; exact decide_eq_true hroot), String.toList_ofList]
  · refine ⟨l ++ h, hl.append hh, fun b hb => ?_⟩
    rw [hjoin _ (by rw [habs b hb]; exact decide_eq_false hroot), String.toList_ofList,
      List.append_assoc]

theorem keeps_join (a : String) : Keeps (join a) := by
  intro h hh
  obtain ⟨g, hg, hjoin⟩ := join_segment a hh
  exact ⟨g, hg, fun b _ hslash => hjoin b hslash⟩

theorem keeps_tidy : Keeps tidy := by
  intro h hh
  obtain ⟨ss, hss⟩ := segmentsOf_head hh
  obtain ⟨h', hh', hjoin⟩ := joinSegments_last (ss.filter fun s => !(s = [] || s = ['.']))
  refine ⟨leadOf h ++ h', (head_leadOf h).append hh', fun b hb hslash => ?_⟩
  have hkeep : (!(b = [] || b = ['.'])) = true := by simp [hb.1, hb.2.1]
  have hfilter : (ss ++ [b]).filter (fun s => !(s = [] || s = ['.'])) =
      ss.filter (fun s => !(s = [] || s = ['.'])) ++ [b] := by
    rw [List.filter_append, List.filter_cons_of_pos (by simpa using hkeep), List.filter_nil]
  have hne : ¬ (leadOf h ++ (h' ++ b)).isEmpty = true := by simp [hb.1]
  simp only [tidy, String.toList_ofList, hss b hslash, leadOf_append h (head?_of_plain hslash),
    hfilter, hjoin, if_neg hne, List.append_assoc]

theorem keeps_normal : Keeps normal := by
  intro h hh
  obtain ⟨ss, hss⟩ := segmentsOf_head hh
  obtain ⟨h', hh', hjoin⟩ := joinSegments_last (climbAll (!(leadOf h).isEmpty) ss)
  refine ⟨leadOf h ++ h', (head_leadOf h).append hh', fun b hb hslash => ?_⟩
  have hclimb : climbAll (!(leadOf h).isEmpty) (ss ++ [b]) = climbAll (!(leadOf h).isEmpty) ss ++ [b] := by
    rw [climbAll_eq, climbFrom_append, climbFrom_cons, climbFrom_nil, climb_names hb,
      List.reverse_cons, climbAll_eq]
  have hne : ¬ leadOf h ++ (h' ++ b) = [] := by simp [hb.1]
  simp only [normal, normalOf, String.toList_ofList, hss b hslash,
    leadOf_append h (head?_of_plain hslash), hclimb, hjoin, if_neg hne, List.append_assoc]

/-! ## Last characters -/

/-- A path that ends with neither a slash nor a dot. -/
def Closes (p : String) : Prop := ∃ c, p.toList.getLast? = some c ∧ c ≠ '/' ∧ c ≠ '.'

theorem Closes.worded (hp : Closes p) : Worded (base p).toList := by
  obtain ⟨c, hc, hslash, hdot⟩ := hp
  rw [← cut_parts p.toList] at hc
  rw [base, String.toList_ofList]
  cases hb : (cut p.toList).2 with
  | nil =>
    rw [hb, List.append_nil] at hc
    rcases cut_ends p.toList with hh | ⟨d, hh⟩
    · rw [hh] at hc
      cases hc
    · rw [hh, List.getLast?_concat] at hc
      exact absurd (Option.some.inj hc).symm hslash
  | cons d b =>
    rw [hb, List.getLast?_append_of_ne_nil _ (List.cons_ne_nil d b)] at hc
    exact ⟨c, List.mem_of_mem_getLast? hc, hdot⟩

/-- Nothing but what stands before it can be taken away from a last segment. -/
theorem Closes.last_tail {h : List Char} (hp : Closes p) (hh : Head h) (hx : p.toList = h ++ x.toList) :
    x.toList.getLast? = p.toList.getLast? := by
  obtain ⟨c, hc, hslash, hdot⟩ := hp
  rw [hx] at hc ⊢
  cases hb : x.toList with
  | nil =>
    rw [hb, List.append_nil] at hc
    rcases hh with rfl | ⟨d, rfl⟩
    · cases hc
    · rw [List.getLast?_concat] at hc
      exact absurd (Option.some.inj hc).symm hslash
  | cons d b => rw [List.getLast?_append_of_ne_nil _ (List.cons_ne_nil d b)]

theorem Closes.tail {h : List Char} (hp : Closes p) (hh : Head h) (hx : p.toList = h ++ x.toList) :
    Closes x := by
  rw [Closes, hp.last_tail hh hx]
  exact hp

theorem Keeps.last (hf : Keeps f) (hp : Closes p) : (f p).toList.getLast? = p.toList.getLast? := by
  have hworded := hp.worded
  rw [base, String.toList_ofList] at hworded
  obtain ⟨h', -, hf⟩ := hf (cut p.toList).1 (cut_ends p.toList)
  have hself : (f p).toList = h' ++ (cut p.toList).2 := by
    rw [← hf _ hworded.names (slash_notMem_cut p.toList), cut_parts, String.ofList_toList]
  have hne := hworded.names.1
  rw [hself, List.getLast?_append_of_ne_nil _ hne]
  conv => rhs; rw [← cut_parts p.toList, List.getLast?_append_of_ne_nil _ hne]

end Path

namespace Workspace

open Retype.Path

theorem above_last (ss : List String) (s t : String) : above (ss ++ [s]) = above (ss ++ [t]) := by
  induction ss with
  | nil => rfl
  | cons a ss ih => rw [List.cons_append, List.cons_append, above_cons (by simp), above_cons (by simp), ih]

/-- More at the end of its last segment leaves the folders above a path as they are. -/
theorem foldersAbove_append {p x : String} (hp : Worded (base p).toList) (hx : '/' ∉ x.toList) :
    foldersAbove (p ++ x) = foldersAbove p := by
  have hslash := slash_notMem_cut p.toList
  rw [base, String.toList_ofList] at hp
  obtain ⟨g, hg, htidy⟩ := keeps_tidy _ (cut_ends p.toList)
  obtain ⟨ss, hss⟩ := segmentsOf_head hg
  have hself : (tidy p).toList = g ++ (cut p.toList).2 := by
    rw [← htidy _ hp.names hslash, cut_parts, String.ofList_toList]
  have hplain : '/' ∉ (cut p.toList).2 ++ x.toList := fun h => (List.mem_append.mp h).elim hslash hx
  have hmore : (tidy (p ++ x)).toList = g ++ ((cut p.toList).2 ++ x.toList) := by
    rw [← htidy _ (hp.append x.toList).names hplain, ← List.append_assoc, cut_parts,
      ← String.toList_append, String.ofList_toList]
  rw [foldersAbove, foldersAbove, segments, segments, hself, hmore, hss _ hslash, hss _ hplain,
    List.map_append, List.map_append]
  cases ss with
  | nil => rfl
  | cons s ss =>
    rw [List.map_cons, List.cons_append, List.cons_append, List.drop_one, List.drop_one, List.tail_cons,
      List.tail_cons, List.map_singleton, List.map_singleton, above_last]

end Workspace

end Retype

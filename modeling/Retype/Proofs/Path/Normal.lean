import Mathlib.Data.List.TakeWhile
import Retype.Proofs.Path.Climbing

/-!
# Normal paths and relative ways

A path that stays within the directory it is read from is the list of the names
it leads through, and its normal form is those names. The way from a folder to
such a path, followed from that folder, leads through the same names.
-/

set_option autoImplicit false

namespace Retype.Path

/-! ## Names -/

def namesOf (p : String) : List (List Char) := climbAll false (segmentsOf p.toList)

def ofNames (ns : List (List Char)) : List Char := if ns = [] then ['.'] else joinSegments ns

/-- A path that stays within the directory it is read from. -/
def Inner (p : String) : Prop := isAbsolute p = false ∧ dots ∉ namesOf p

instance (p : String) : Decidable (Inner p) := inferInstanceAs (Decidable (_ ∧ _))

theorem namesOf_eq (p : String) : namesOf p = (climbFrom false [] (segmentsOf p.toList)).reverse := rfl

theorem mem_namesOf {p : String} {s : List Char} (h : s ∈ namesOf p) :
    (Names s ∨ s = dots) ∧ '/' ∉ s := by
  rw [namesOf_eq, List.mem_reverse] at h
  obtain ⟨names, k, hr, hn⟩ : Reached (climbFrom false [] (segmentsOf p.toList)) :=
    climbFrom_reached _ nil_reached
  constructor
  · rw [hr] at h
    rcases List.mem_append.mp h with h | h
    · exact Or.inl (hn s h)
    · exact Or.inr (List.eq_of_mem_replicate h)
  · rcases mem_climbFrom h with h | h
    · cases h
    · exact slash_notMem_segment h

theorem Inner.names {p : String} (h : Inner p) : ∀ s ∈ namesOf p, Names s := by
  intro s hs
  rcases (mem_namesOf hs).1 with hn | rfl
  · exact hn
  · exact absurd hs h.2

theorem joinSegments_ne_nil {ss : List (List Char)} (hne : ss ≠ []) (h : ∀ s ∈ ss, s ≠ []) :
    joinSegments ss ≠ [] := by
  cases ss with
  | nil => exact absurd rfl hne
  | cons s ss =>
    cases ss with
    | nil => exact h s List.mem_cons_self
    | cons t ts =>
      rw [joinSegments]
      · simp
      · exact List.cons_ne_nil t ts

theorem joinSegments_head {ss : List (List Char)} (h : ∀ s ∈ ss, s ≠ [] ∧ '/' ∉ s) :
    (joinSegments ss).head? ≠ some '/' := by
  cases ss with
  | nil => simp [joinSegments]
  | cons s ss =>
    obtain ⟨hne, hslash⟩ := h s List.mem_cons_self
    obtain ⟨c, cs, rfl⟩ := List.exists_cons_of_ne_nil hne
    have hc : c ≠ '/' := fun hc => hslash (hc ▸ List.mem_cons_self)
    by_cases hss : ss = []
    · simpa [hss, joinSegments] using hc
    · simpa [joinSegments_cons hss] using hc

theorem leadOf_relative {p : List Char} (h : p.head? ≠ some '/') : leadOf p = [] := by
  unfold leadOf
  split <;> simp_all

/-- The normal form of a path that is not absolute. -/
theorem normal_relative {p : String} (h : isAbsolute p = false) :
    normal p = String.ofList (ofNames (namesOf p)) := by
  have hlead : leadOf p.toList = [] := leadOf_relative (by simpa [isAbsolute] using h)
  have hbody : climbAll (!(leadOf p.toList).isEmpty) (segmentsOf p.toList) = namesOf p := by
    rw [hlead]
    rfl
  rw [normal, normalOf, hbody, hlead, ofNames, List.nil_append]
  by_cases hn : namesOf p = []
  · rw [hn]
    rfl
  · have hne : ∀ s ∈ namesOf p, s ≠ [] := by
      intro s hs
      rcases (mem_namesOf hs).1 with hn | rfl
      · exact hn.1
      · decide
    rw [if_neg (joinSegments_ne_nil hn hne), if_neg hn]

theorem leadOf_absolute {p : List Char} (h : p.head? = some '/') : ∃ ls, leadOf p = '/' :: ls := by
  cases p with
  | nil => cases h
  | cons c p =>
    cases h
    unfold leadOf
    split <;> simp_all

theorem isAbsolute_of_normal {p : String} (h : isAbsolute (normal p) = false) :
    isAbsolute p = false := by
  cases hp : isAbsolute p with
  | false => rfl
  | true =>
    obtain ⟨ls, hls⟩ := leadOf_absolute (by simpa [isAbsolute] using hp)
    rw [isAbsolute, normal, normalOf, hls] at h
    simp at h

theorem climbFrom_ofNames {absolute : Bool} {ns : List (List Char)} (hs : ∀ s ∈ ns, '/' ∉ s)
    (done : List (List Char)) :
    climbFrom absolute done (segmentsOf (ofNames ns)) = climbFrom absolute done ns := by
  rw [ofNames]
  split
  · next h =>
    rw [h]
    rfl
  · next h => rw [segmentsOf_joinSegments h hs]

theorem inner_of_escapes {p : String} (ha : isAbsolute p = false) (he : escapes (normal p) = false) :
    Inner p := by
  refine ⟨ha, fun hd => ?_⟩
  rw [normal_relative ha] at he
  obtain ⟨names, k, hr, hn⟩ : Reached (climbFrom false [] (segmentsOf p.toList)) :=
    climbFrom_reached _ nil_reached
  have hns : namesOf p = List.replicate k dots ++ names.reverse := by
    rw [namesOf_eq, hr, List.reverse_append, List.reverse_replicate]
  cases k with
  | zero =>
    rw [hns] at hd
    simp only [List.replicate_zero, List.nil_append, List.mem_reverse] at hd
    exact (hn dots hd).2.2 rfl
  | succ k =>
    rw [hns, List.replicate_succ, List.cons_append, ofNames, if_neg (List.cons_ne_nil _ _)] at he
    cases hrest : List.replicate k dots ++ names.reverse with
    | nil =>
      rw [hrest] at he
      exact absurd he (by decide)
    | cons t ts =>
      rw [hrest, joinSegments] at he
      · simp [escapes, Affix.begins, Affix.afterOf, dots] at he
      · exact List.cons_ne_nil t ts

/-! ## Folders and joins -/

theorem reverse_parts {α : Type} (q : α → Bool) (l : List α) :
    (l.reverse.dropWhile q).reverse ++ (l.reverse.takeWhile q).reverse = l := by
  rw [← List.reverse_append, List.takeWhile_append_dropWhile, List.reverse_reverse]

theorem cut_eq (p : List Char) :
    (cut p).1 = (p.reverse.dropWhile (· ≠ '/')).reverse := by
  have hp := reverse_parts (· ≠ '/') p
  have hlen := congrArg List.length hp
  rw [List.length_append] at hlen
  have htake : (cut p).1 = p.take (p.length - (p.reverse.takeWhile (· ≠ '/')).reverse.length) := rfl
  have hleft : ((p.reverse.dropWhile (· ≠ '/')).reverse ++
      (p.reverse.takeWhile (· ≠ '/')).reverse).take (p.reverse.dropWhile (· ≠ '/')).reverse.length =
      (p.reverse.dropWhile (· ≠ '/')).reverse := List.take_left
  rw [hp] at hleft
  rw [htake, ← hlen, Nat.add_sub_cancel, hleft]

theorem cut_ends (p : List Char) : (cut p).1 = [] ∨ ∃ h, (cut p).1 = h ++ ['/'] := by
  rw [cut_eq]
  cases hd : p.reverse.dropWhile (· ≠ '/') with
  | nil => exact Or.inl rfl
  | cons c cs =>
    have hc := List.head?_dropWhile_not (· ≠ '/') p.reverse
    rw [hd] at hc
    have hc : c = '/' := by simpa using hc
    exact Or.inr ⟨cs.reverse, by rw [hc, List.reverse_cons]⟩

theorem cut_append (p : List Char) : ∃ b, p = (cut p).1 ++ b := by
  rw [cut_eq]
  exact ⟨_, (reverse_parts (· ≠ '/') p).symm⟩

/-- A path is its folder, a slash and more, unless it has no folder or is absolute. -/
theorem folder_cases (p : String) :
    (∃ more, p.toList = (folder p).toList ++ '/' :: more) ∨ (folder p).toList = [] ∨
      isAbsolute p = true := by
  obtain ⟨b, hb⟩ := cut_append p.toList
  rw [folder]
  rcases cut_ends p.toList with hh | ⟨h, hh⟩
  · rw [hh]
    exact Or.inr (Or.inl rfl)
  by_cases hall : (cut p.toList).1.all (· = '/') = true
  · have hslash : ∀ c ∈ h, c = '/' := by
      rw [hh] at hall
      simpa using hall
    right; right
    cases h with
    | nil =>
      rw [isAbsolute, hb, hh]
      rfl
    | cons c cs =>
      rw [isAbsolute, hb, hh, hslash c List.mem_cons_self]
      rfl
  · rw [if_neg hall, String.toList_ofList]
    left
    have hparts := reverse_parts (· = '/') (cut p.toList).1
    cases hes : ((cut p.toList).1.reverse.takeWhile (· = '/')).reverse with
    | nil => simp [hh] at hes
    | cons e es =>
      have he : e ∈ (cut p.toList).1.reverse.takeWhile (· = '/') := by
        rw [← List.mem_reverse, hes]
        exact List.mem_cons_self
      have he : e = '/' := by simpa using List.mem_takeWhile_imp he
      rw [hes, he] at hparts
      refine ⟨es ++ b, ?_⟩
      conv => lhs; rw [hb, ← hparts]
      rw [Blank.dropEnd, List.append_assoc, List.cons_append]

theorem Inner.folder {p : String} (h : Inner p) : Inner (folder p) := by
  rcases folder_cases p with ⟨more, hp⟩ | hp | hp
  · have ha := h.1
    have hd := h.2
    rw [namesOf_eq, List.mem_reverse, hp, segmentsOf_append_slash, climbFrom_append] at hd
    refine ⟨?_, fun hf => hd ?_⟩
    · rw [isAbsolute, hp] at ha
      rw [isAbsolute]
      cases hf : (Path.folder p).toList with
      | nil => rfl
      | cons c cs =>
        rw [hf] at ha
        exact ha
    · exact dots_mem_climbFrom _ (by rwa [namesOf_eq, List.mem_reverse] at hf)
  · rw [Inner, isAbsolute, namesOf, hp]
    decide
  · rw [h.1] at hp
    cases hp

theorem climbFrom_join {absolute : Bool} {a b : String} (hb : isAbsolute b = false)
    (done : List (List Char)) :
    climbFrom absolute done (segmentsOf (join a b).toList) =
      climbFrom absolute (climbFrom absolute done (segmentsOf a.toList)) (segmentsOf b.toList) := by
  rw [join, if_neg (by simp [hb])]
  split
  · next h =>
    simp only [Bool.or_eq_true, String.isEmpty_iff, decide_eq_true_eq] at h
    rcases h with rfl | h
    · rfl
    · obtain ⟨cs, hcs⟩ := List.getLast?_eq_some_iff.mp h
      rw [String.toList_append, hcs, List.append_assoc, List.singleton_append,
        segmentsOf_append_slash, segmentsOf_append_slash, climbFrom_append, climbFrom_append]
      rfl
  · have hab : (a ++ "/" ++ b).toList = a.toList ++ '/' :: b.toList := by simp
    rw [hab, segmentsOf_append_slash, climbFrom_append]

/-! ## Relative ways -/

theorem stripCommon_append (xs as bs : List (List Char)) :
    stripCommon (xs ++ as) (xs ++ bs) = stripCommon as bs := by
  induction xs with
  | nil => rfl
  | cons x xs ih => rw [List.cons_append, List.cons_append, stripCommon, if_pos rfl, ih]

/-- What two ways have in common is at the front of both. -/
theorem stripCommon_eq (as bs : List (List Char)) :
    ∃ xs, as = xs ++ (stripCommon as bs).1 ∧ bs = xs ++ (stripCommon as bs).2 := by
  induction as generalizing bs with
  | nil => exact ⟨[], rfl, rfl⟩
  | cons a as ih =>
    cases bs with
    | nil => exact ⟨[], rfl, rfl⟩
    | cons b bs =>
      rw [stripCommon]
      split
      · next hab =>
        obtain ⟨xs, h1, h2⟩ := ih bs
        refine ⟨a :: xs, ?_, ?_⟩
        · rw [List.cons_append, ← h1]
        · rw [List.cons_append, ← h2, hab]
      · exact ⟨[], rfl, rfl⟩

theorem absoluteSegments_relative {here : List (List Char)} {p : String} (h : Inner p) :
    absoluteSegments here p.toList = climbAll true here ++ namesOf p := by
  have ha : ¬ p.toList.head? = some '/' := by simpa [isAbsolute] using h.1
  have hd : dots ∉ climbFrom false [] (segmentsOf p.toList) := by
    rw [← List.mem_reverse, ← namesOf_eq]
    exact h.2
  rw [absoluteSegments, if_neg ha, climbAll_eq, climbFrom_append, climbFrom_inside hd,
    List.reverse_append, ← namesOf_eq, climbAll_eq]

/-- The way up and down from one folder to a path: as many `..` as the folder has names
of its own, then the names that only the path has. -/
theorem relativeOf_inner (here : List (List Char)) {target start : String} (ht : Inner target)
    (hs : Inner start) :
    ∃ common up down, namesOf target = common ++ down ∧ namesOf start = common ++ up ∧
      relativeOf here target.toList start.toList = ofNames (up.map (fun _ => dots) ++ down) := by
  obtain ⟨common, h1, h2⟩ := stripCommon_eq (namesOf target) (namesOf start)
  refine ⟨common, _, _, h1, h2, ?_⟩
  rw [relativeOf, absoluteSegments_relative ht, absoluteSegments_relative hs, stripCommon_append]
  rfl

/-- Following the way from a folder leads to where it was drawn to. -/
theorem climbFrom_way {target start : String} {common up down : List (List Char)} (ht : Inner target)
    (hs : Inner start) (h1 : namesOf target = common ++ down) (h2 : namesOf start = common ++ up) :
    climbFrom false (namesOf start).reverse (up.map (fun _ => dots) ++ down) =
      (namesOf target).reverse := by
  have hup : dots ∉ up.reverse := by
    intro hd
    refine hs.2 ?_
    rw [h2]
    exact List.mem_append_right common (List.mem_reverse.mp hd)
  have hdown : ∀ s ∈ down, Names s := by
    intro s hsd
    refine ht.names s ?_
    rw [h1]
    exact List.mem_append_right common hsd
  have hmap : (up.map fun _ => dots) = up.reverse.map fun _ => dots := by
    rw [List.map_const', List.map_const', List.length_reverse]
  rw [climbFrom_append, h2, List.reverse_append, hmap, climbFrom_dots hup, climbFrom_names hdown,
    h1, List.reverse_append]

end Retype.Path

import Retype.Proofs.Path.Normal

/-!
# Last segments and extensions

A path is what stands before its last segment, and that segment. The extension is cut off
the segment alone, and only if more than dots stands before it. So whether a text is the
extension of what it is appended to is known from the last segment.
-/

set_option autoImplicit false

namespace Retype.Path

variable {h b s e : List Char} {p q x y : String}

/-! ## The last segment -/

/-- What can stand before a last segment: nothing, or what ends with a slash. -/
def Head (h : List Char) : Prop := h = [] ∨ ∃ d, h = d ++ ['/']

theorem Head.append {a : List Char} (ha : Head a) (hh : Head h) : Head (a ++ h) := by
  rcases hh with rfl | ⟨d, rfl⟩
  · rwa [List.append_nil]
  · exact Or.inr ⟨a ++ d, (List.append_assoc _ _ _).symm⟩

theorem slash_notMem_cut (p : List Char) : '/' ∉ (cut p).2 := by
  intro hmem
  have := List.mem_takeWhile_imp (List.mem_reverse.mp hmem)
  simp at this

theorem cut_parts (p : List Char) : (cut p).1 ++ (cut p).2 = p := by
  rw [cut_eq]
  exact reverse_parts (· ≠ '/') p

theorem cut_head (hh : Head h) (hb : '/' ∉ b) : cut (h ++ b) = (h, b) := by
  have hplain : ∀ c ∈ b.reverse, decide (c ≠ '/') = true := by
    intro c hc
    simpa using fun he : c = '/' => hb (he ▸ List.mem_reverse.mp hc)
  have hstop : h.reverse.takeWhile (· ≠ '/') = [] := by
    rcases hh with rfl | ⟨d, rfl⟩
    · rfl
    · simp
  have hsegment : (cut (h ++ b)).2 = b := by
    show ((h ++ b).reverse.takeWhile (· ≠ '/')).reverse = b
    rw [List.reverse_append, List.takeWhile_append_of_pos hplain, hstop, List.append_nil,
      List.reverse_reverse]
  have hparts := cut_parts (h ++ b)
  rw [hsegment] at hparts
  exact Prod.ext (List.append_cancel_right hparts) hsegment

theorem cut_append_plain (p : List Char) (hb : '/' ∉ b) : cut (p ++ b) = ((cut p).1, (cut p).2 ++ b) := by
  conv => lhs; rw [← cut_parts p, List.append_assoc]
  refine cut_head (cut_ends p) fun hmem => ?_
  rcases List.mem_append.mp hmem with hmem | hmem
  · exact slash_notMem_cut p hmem
  · exact hb hmem

theorem base_append (hx : '/' ∉ x.toList) : (base (p ++ x)).toList = (base p).toList ++ x.toList := by
  simp only [base, String.toList_ofList, String.toList_append, cut_append_plain p.toList hx]

/-! ## Extensions of a segment -/

/-- A segment that holds more than dots. -/
def Worded (b : List Char) : Prop := ∃ c ∈ b, c ≠ '.'

theorem Worded.append (hb : Worded b) (e : List Char) : Worded (b ++ e) := by
  obtain ⟨c, hc, hne⟩ := hb
  exact ⟨c, List.mem_append_left e hc, hne⟩

theorem Worded.names (hb : Worded b) : Names b := by
  obtain ⟨c, hc, hne⟩ := hb
  refine ⟨?_, ?_, ?_⟩
  · rintro rfl
    cases hc
  · rintro rfl
    exact hne (List.mem_singleton.mp hc)
  · rintro rfl
    simp only [dots, List.mem_cons, List.not_mem_nil, or_false, or_self] at hc
    exact hne hc

/-- A segment that holds more than dots is dots, and then something else. -/
theorem Worded.parts (hb : Worded b) :
    ∃ c r, c ≠ '.' ∧ b.dropWhile (· = '.') = c :: r ∧ b = b.takeWhile (· = '.') ++ c :: r := by
  cases hrest : b.dropWhile (· = '.') with
  | nil =>
    obtain ⟨c, hc, hne⟩ := hb
    have := List.dropWhile_eq_nil_iff.mp hrest c hc
    exact absurd (of_decide_eq_true this) hne
  | cons c r =>
    have hc := List.head?_dropWhile_not (· = '.') b
    rw [hrest] at hc
    refine ⟨c, r, by simpa using hc, rfl, ?_⟩
    rw [← hrest, List.takeWhile_append_dropWhile]

/-- What follows the last dot is the extension, if more than dots stands before it. -/
theorem cutExtension_dot (hs : Worded s) (he : '.' ∉ e) : cutExtension (s ++ '.' :: e) = (s, '.' :: e) := by
  obtain ⟨c, r, hc, -, hsplit⟩ := hs.parts
  have hall : ∀ d ∈ s.takeWhile (· = '.'), decide (d = '.') = true := by
    intro d hd
    simpa using List.mem_takeWhile_imp hd
  have hwhole : s ++ '.' :: e = s.takeWhile (· = '.') ++ (c :: r ++ '.' :: e) := by
    conv => lhs; rw [hsplit, List.append_assoc]
  have hdots : (s ++ '.' :: e).takeWhile (· = '.') = s.takeWhile (· = '.') := by
    rw [hwhole, List.takeWhile_append_of_pos hall, List.cons_append,
      List.takeWhile_cons_of_neg (by simpa using hc), List.append_nil]
  have hrest : (s ++ '.' :: e).dropWhile (· = '.') = c :: r ++ '.' :: e := by
    rw [hwhole, List.dropWhile_append_of_pos hall, List.cons_append,
      List.dropWhile_cons_of_neg (by simpa using hc)]
  have hext : ((c :: r ++ '.' :: e).reverse.takeWhile (· ≠ '.')).reverse = e := by
    have hplain : ∀ d ∈ e.reverse, decide (d ≠ '.') = true := by
      intro d hd
      simpa using fun hd' : d = '.' => he (hd' ▸ List.mem_reverse.mp hd)
    rw [List.reverse_append, List.reverse_cons, List.append_assoc,
      List.takeWhile_append_of_pos hplain]
    simp
  have hlen : ¬ e.length = (c :: r ++ '.' :: e).length := by
    simp only [List.length_append, List.length_cons]
    omega
  have htake : (c :: r ++ '.' :: e).take ((c :: r ++ '.' :: e).length - e.length - 1) = c :: r := by
    have : (c :: r ++ '.' :: e).length - e.length - 1 = (c :: r).length := by
      simp only [List.length_append, List.length_cons]
      omega
    rw [this, List.take_left]
  simp only [cutExtension, hdots, hrest, hext, if_neg hlen, htake]
  rw [← hsplit]

/-- A segment has no extension, or it is more than dots, then a dot and the extension. -/
theorem cutExtension_cases (b : List Char) : cutExtension b = (b, []) ∨
    ∃ s e, Worded s ∧ '.' ∉ e ∧ b = s ++ '.' :: e ∧ cutExtension b = (s, '.' :: e) := by
  have hrest := reverse_parts (· ≠ '.') (b.dropWhile (· = '.'))
  have he : '.' ∉ ((b.dropWhile (· = '.')).reverse.takeWhile (· ≠ '.')).reverse := by
    intro hmem
    have := List.mem_takeWhile_imp (List.mem_reverse.mp hmem)
    simp at this
  -- the rest after the dots in front is cut at its own last dot, if it has one
  cases hd : (b.dropWhile (· = '.')).reverse.dropWhile (· ≠ '.') with
  | nil =>
    left
    rw [hd, List.reverse_nil, List.nil_append] at hrest
    simp only [cutExtension, hrest, if_true]
  | cons d ds =>
    right
    have hdot := List.head?_dropWhile_not (· ≠ '.') (b.dropWhile (· = '.')).reverse
    rw [hd] at hdot
    have hdot : d = '.' := by simpa using hdot
    rw [hd, hdot, List.reverse_cons, List.append_assoc, List.singleton_append] at hrest
    have hworded : Worded (b.takeWhile (· = '.') ++ ds.reverse) := by
      cases hds : ds.reverse with
      | nil =>
        have hhead := List.head?_dropWhile_not (· = '.') b
        rw [← hrest, hds] at hhead
        simp at hhead
      | cons c cs =>
        have hhead := List.head?_dropWhile_not (· = '.') b
        rw [← hrest, hds] at hhead
        exact ⟨c, by simp, by simpa using hhead⟩
    have hb : b = b.takeWhile (· = '.') ++ ds.reverse ++
        '.' :: ((b.dropWhile (· = '.')).reverse.takeWhile (· ≠ '.')).reverse := by
      rw [List.append_assoc, hrest, List.takeWhile_append_dropWhile]
    refine ⟨_, _, hworded, he, hb, ?_⟩
    conv => lhs; rw [hb]
    exact cutExtension_dot hworded he

/-! ## Extensions of a path -/

theorem splitExtension_whole (p : String) : stem p ++ extension p = p := by
  apply String.toList_injective
  rw [stem, extension]
  conv => rhs; rw [← cut_parts p.toList]
  rcases cutExtension_cases (cut p.toList).2 with hcut | ⟨s, e, -, -, hb, hcut⟩
  · simp only [splitExtension, hcut]
    simp
  · simp only [splitExtension, hcut]
    rw [hb]
    simp

def Fits (p x : String) : Prop :=
  '/' ∉ x.toList ∧ cutExtension ((base p).toList ++ x.toList) = ((base p).toList, x.toList)

theorem Fits.split (hx : Fits p x) : splitExtension (p ++ x) = (p, x) := by
  obtain ⟨hslash, hcut⟩ := hx
  rw [base, String.toList_ofList] at hcut
  simp only [splitExtension, String.toList_append, cut_append_plain p.toList hslash, hcut, cut_parts,
    String.ofList_toList]

theorem Fits.append_inj (hx : Fits p x) (hy : Fits q y) : p ++ x = q ++ y ↔ p = q ∧ x = y := by
  constructor
  · intro h
    have hsplit := hx.split
    rw [h, hy.split] at hsplit
    exact ⟨(congrArg Prod.fst hsplit).symm, (congrArg Prod.snd hsplit).symm⟩
  · rintro ⟨rfl, rfl⟩
    rfl

theorem Fits.congr (hx : Fits p x) (hbase : base q = base p) : Fits q x := by
  rw [Fits, hbase]
  exact hx

theorem fits_dot (hs : Worded (base p).toList) (he : '.' ∉ e) (hslash : '/' ∉ e) :
    Fits p (String.ofList ('.' :: e)) := by
  rw [Fits, String.toList_ofList]
  exact ⟨by simpa using hslash, cutExtension_dot hs he⟩

end Retype.Path

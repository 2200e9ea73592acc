import Retype.Proofs.Path.Within
import Retype.Proofs.Project.Companions

/-!
# Paths from the top

An absolute path that is written as the names it leads through, and what lies below it: a
relative path leads on from its names, and what is found below a folder that was made tidy is
found below the folder's normal form.
-/

set_option autoImplicit false

namespace Retype.Path

variable {p y : String} {ss : List (List Char)}

/-! ## Written as names -/

theorem segmentsOf_inj {xs ys : List Char} (h : segmentsOf xs = segmentsOf ys) : xs = ys := by
  rw [← joinSegments_segmentsOf xs, h, joinSegments_segmentsOf]

theorem isAbsolute_of_nonempty {names : List (List Char)} (hsame : names = ss ++ segmentsOf y.toList)
    (hnames : ∀ s ∈ names, s ≠ []) : isAbsolute y = false := by
  by_contra habsolute
  obtain ⟨rest, hrest⟩ := List.head?_eq_some_iff.mp (by simpa [isAbsolute] using habsolute)
  refine hnames [] ?_ rfl
  rw [hsame, hrest, segmentsOf_slash]
  simp

theorem isAbsolute_names (h : ∀ s ∈ segmentsOf y.toList, Names s) : isAbsolute y = false :=
  isAbsolute_of_nonempty (List.nil_append _).symm fun s hs => (h s hs).1

theorem filter_names (h : ∀ s ∈ ss, Names s) : ss.filter (fun s => !(s = [] || s = ['.'])) = ss := by
  rw [List.filter_eq_self]
  intro s hs
  simp [(h s hs).1, (h s hs).2.1]

theorem told_names (h : ∀ s ∈ segmentsOf y.toList, Names s) : told y = segmentsOf y.toList :=
  filter_names h

theorem told_slash (b : String) : told (b ++ "/") = told b := by
  have hlist : (b ++ "/").toList = b.toList ++ '/' :: [] := by simp
  rw [told, hlist, segmentsOf_append_slash, List.filter_append, told]
  simp [segmentsOf]

/-! ## Paths from the top -/

/-- The segments of a path behind the first, which is empty in an absolute path. -/
def further (p : String) : List (List Char) := (segmentsOf p.toList).tail

/-- An absolute path that is written as the names it leads through, at least one. -/
structure Seated (p : String) : Prop where
  absolute : (segmentsOf p.toList).head? = some []
  below : further p ≠ []
  names : ∀ s ∈ further p, Names s

instance (p : String) : Decidable (Seated p) :=
  decidable_of_iff ((segmentsOf p.toList).head? = some [] ∧ further p ≠ [] ∧ ∀ s ∈ further p, Names s)
    ⟨fun ⟨h1, h2, h3⟩ => ⟨h1, h2, h3⟩, fun ⟨h1, h2, h3⟩ => ⟨h1, h2, h3⟩⟩

theorem Seated.segments (h : Seated p) : segmentsOf p.toList = [] :: further p := by
  obtain ⟨ss, hss⟩ := List.head?_eq_some_iff.mp h.absolute
  rw [further, hss]
  rfl

theorem Seated.toList (h : Seated p) : p.toList = '/' :: joinSegments (further p) := by
  rw [← joinSegments_segmentsOf p.toList, h.segments, joinSegments_cons h.below]
  rfl

theorem Seated.plain (h : Seated p) : ∀ s ∈ further p, s ≠ [] ∧ '/' ∉ s := fun s hs =>
  ⟨(h.names s hs).1, slash_notMem_segment (List.mem_of_mem_tail hs)⟩

theorem Seated.second (h : Seated p) : ∃ c cs, p.toList = '/' :: c :: cs ∧ c ≠ '/' := by
  have hhead := joinSegments_head h.plain
  have hne := joinSegments_ne_nil h.below fun s hs => (h.plain s hs).1
  obtain ⟨c, cs, hcs⟩ := List.exists_cons_of_ne_nil hne
  refine ⟨c, cs, by rw [h.toList, hcs], fun hc => hhead ?_⟩
  rw [hcs, hc]
  rfl

theorem Seated.last (h : Seated p) : p.toList.getLast? ≠ some '/' := by
  intro hlast
  obtain ⟨cs, hcs⟩ := List.getLast?_eq_some_iff.mp hlast
  have hsegments := h.segments
  rw [hcs, segmentsOf_append_slash] at hsegments
  obtain ⟨first, rest, hfirst⟩ := List.exists_cons_of_ne_nil (segmentsOf_ne_nil cs)
  rw [hfirst] at hsegments
  obtain ⟨-, hfurther⟩ := List.cons.inj hsegments
  have hempty : [] ∈ further p := by
    rw [← hfurther]
    simp [segmentsOf]
  exact (h.names [] hempty).1 rfl

theorem Seated.join (h : Seated p) (hy : isAbsolute y = false) : join p y = p ++ "/" ++ y := by
  have hne : p.isEmpty = false := by
    obtain ⟨c, cs, hcs, -⟩ := h.second
    rw [← Bool.not_eq_true, String.isEmpty_iff]
    rintro rfl
    simp at hcs
  unfold Path.join
  rw [if_neg (by simp [hy]), if_neg (by simp [hne, h.last])]

/-! ## Normal forms -/

theorem leadOf_single {c : Char} (hc : c ≠ '/') (cs : List Char) : leadOf ('/' :: c :: cs) = ['/'] := by
  simp [leadOf, hc]

theorem normal_single (h : leadOf p.toList = ['/']) :
    normal p = rooted (climbFrom true [] (segmentsOf p.toList)).reverse := by
  rw [normal, normalOf, h]
  rfl

theorem Seated.lead (h : Seated p) (y : String) : leadOf (p ++ "/" ++ y).toList = ['/'] := by
  obtain ⟨c, cs, hcs, hc⟩ := h.second
  rw [String.toList_append, String.toList_append, hcs]
  exact leadOf_single hc _

theorem segments_under (p y : String) :
    segmentsOf (p ++ "/" ++ y).toList = segmentsOf p.toList ++ segmentsOf y.toList := by
  have hlist : (p ++ "/" ++ y).toList = p.toList ++ '/' :: y.toList := by simp
  rw [hlist, segmentsOf_append_slash]

theorem Seated.normal_under (h : Seated p) (y : String) : normal (p ++ "/" ++ y) =
    rooted (climbFrom true (further p).reverse (segmentsOf y.toList)).reverse := by
  have hclimb : climbFrom true [] (segmentsOf p.toList) = (further p).reverse := by
    rw [h.segments, climbFrom_cons, climb_pass (Or.inl rfl), climbFrom_names h.names, List.append_nil]
  rw [normal_single (h.lead y), segments_under, climbFrom_append, hclimb]

theorem rooted_append {ts : List (List Char)} (hs : ss ≠ []) (ht : ts ≠ []) :
    rooted (ss ++ ts) = rooted ss ++ "/" ++ String.ofList (joinSegments ts) := by
  apply String.toList_injective
  simp only [rooted, String.toList_ofList, String.toList_append, joinSegments_append hs ht]
  simp

theorem rooted_inj {ts : List (List Char)} (hs : ss ≠ []) (ht : ts ≠ []) (hss : ∀ s ∈ ss, '/' ∉ s)
    (hts : ∀ s ∈ ts, '/' ∉ s) (h : rooted ss = rooted ts) : ss = ts := by
  have hjoin := (List.cons.inj (String.ofList_injective h)).2
  rw [← segmentsOf_joinSegments hs hss, hjoin, segmentsOf_joinSegments ht hts]

theorem Seated.told_join (h : Seated p) (hy : isAbsolute y = false) :
    told (Path.join p y) = further p ++ told y := by
  have hself : (segmentsOf p.toList).filter (fun s => !(s = [] || s = ['.'])) = further p := by
    rw [h.segments, List.filter_cons_of_neg (by simp), filter_names h.names]
  rw [h.join hy, told, segments_under, List.filter_append, hself, told]

/-! ## Below a tidy path -/

/-- The segments of a tidy path with one slash at the front. -/
theorem tidy_segments (h : leadOf (tidy y).toList = ['/']) (hne : tidy y ≠ "/") :
    segmentsOf (tidy y).toList = [] :: told y := by
  have htidy : tidy y = if (leadOf y.toList ++ joinSegments (told y)).isEmpty then "."
      else String.ofList (leadOf y.toList ++ joinSegments (told y)) := rfl
  have hlist : (tidy y).toList = leadOf y.toList ++ joinSegments (told y) := by
    rw [htidy] at h ⊢
    split at h
    · cases h
    · next hfull => rw [if_neg hfull, String.toList_ofList]
  have hlead : leadOf y.toList = ['/'] := by
    rw [hlist, leadOf_told] at h
    exact h
  rw [hlead] at hlist
  have htold : told y ≠ [] := by
    intro hnone
    rw [hnone] at hlist
    exact hne (String.toList_injective hlist)
  rw [hlist, List.singleton_append, segmentsOf_slash,
    segmentsOf_joinSegments htold fun s hs => (told_plain y s hs).2]

/-- What begins with one slash and goes on otherwise begins so if it is cut at a later slash. -/
theorem lead_cut {b x : String} {c : Char} {cs : List Char} (hb : b ≠ "") (hc : c ≠ '/')
    (h : (b ++ "/" ++ x).toList = '/' :: c :: cs) : leadOf b.toList = ['/'] ∧ b ≠ "/" := by
  have hlist : (b ++ "/" ++ x).toList = b.toList ++ '/' :: x.toList := by simp
  rw [hlist] at h
  match hl : b.toList with
  | [] => exact absurd (String.toList_injective hl) hb
  | [d] =>
    rw [hl] at h
    exact absurd (List.cons.inj (List.cons.inj h).2).1.symm hc
  | d :: e :: r =>
    rw [hl] at h
    obtain ⟨rfl, hrest⟩ := List.cons.inj h
    obtain ⟨rfl, -⟩ := List.cons.inj hrest
    refine ⟨leadOf_single hc r, ?_⟩
    rintro rfl
    cases hl

/-- A tidy folder with something below that is written below `root`, too, begins like it. -/
theorem Seated.front {root path tail : String} (h : Seated root) (hne : tidy y ≠ "")
    (hpath : tidy y ++ "/" ++ tail = root ++ "/" ++ path) :
    leadOf (tidy y).toList = ['/'] ∧
      told y ++ segmentsOf tail.toList = further root ++ segmentsOf path.toList := by
  obtain ⟨c, cs, hroot, hc⟩ := h.second
  have hbegin : (tidy y ++ "/" ++ tail).toList = '/' :: c :: (cs ++ '/' :: path.toList) := by
    rw [hpath, String.toList_append, String.toList_append, hroot]
    simp
  obtain ⟨hlead, htop⟩ := lead_cut hne hc hbegin
  have hboth := segments_under (tidy y) tail
  rw [hpath, segments_under, h.segments, tidy_segments hlead htop] at hboth
  exact ⟨hlead, (List.cons.inj hboth).2.symm⟩

/-- A file below the normal form of a tidy folder that is written below `root`, too: it is the
file that its path from `root` leads to, and that path is written with the folder's segments. -/
theorem Seated.found {root path tail : String} (h : Seated root)
    (hfile : Seated (normal (tidy y) ++ "/" ++ tail))
    (hpath : tidy y ++ "/" ++ tail = root ++ "/" ++ path) :
    normal (Path.join root path) = normal (tidy y) ++ "/" ++ tail ∧
      told y ++ segmentsOf tail.toList = further root ++ segmentsOf path.toList ∧
      ∀ s ∈ segmentsOf tail.toList, Names s := by
  have hne : tidy y ≠ "" := by
    intro hempty
    rw [hempty] at hfile
    exact absurd hfile.absolute (by simp [show normal "" = "." from rfl, segmentsOf])
  obtain ⟨hlead, hsame⟩ := h.front hne hpath
  have htail : ∀ s ∈ segmentsOf tail.toList, Names s := by
    intro s hs
    refine hfile.names s ?_
    rw [further, segments_under, List.tail_append_of_ne_nil (segmentsOf_ne_nil _)]
    exact List.mem_append_right _ hs
  have hrelative : isAbsolute path = false := isAbsolute_of_nonempty hsame fun s hs =>
    (List.mem_append.mp hs).elim (fun hs => (told_plain y s hs).1) fun hs => (htail s hs).1
  have hreached : (climbFrom true [] (segmentsOf (tidy y).toList)).reverse ≠ [] := by
    intro hnone
    rw [normal_single hlead, hnone] at hfile
    refine (hfile.names [] ?_).1 rfl
    rw [further, segments_under]
    exact List.mem_append_left _ (by decide)
  refine ⟨?_, hsame, htail⟩
  rw [h.join hrelative, normal_single (h.lead path), ← hpath, segments_under, climbFrom_append,
    climbFrom_names htail, List.reverse_append, List.reverse_reverse, normal_single hlead,
    rooted_append hreached (segmentsOf_ne_nil _), joinSegments_segmentsOf, String.ofList_toList]

end Retype.Path

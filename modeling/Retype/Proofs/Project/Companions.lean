import Retype.Proofs.Run.Targets

/-!
# Targets and companions lie apart

Whatever the path of a target is, its companion is another file, and neither of the two is
the draft that the other is written to first. Where the target's last segment names
something the segments differ; where it does not, the target is no longer than the folder
that the companion is in.
-/

set_option autoImplicit false

namespace Retype

namespace Path

variable {absolute : Bool} {p : String} {s b g : List Char}

/-! ## Tidy paths -/

/-- The segments of a path that say something. -/
def told (p : String) : List (List Char) :=
  (segmentsOf p.toList).filter fun s => !(s = [] || s = ['.'])

theorem told_plain (p : String) : ∀ s ∈ told p, s ≠ [] ∧ '/' ∉ s := by
  intro s hs
  obtain ⟨hmem, hkeep⟩ := List.mem_filter.mp hs
  exact ⟨fun h => by simp [h] at hkeep, slash_notMem_segment hmem⟩

theorem climbFrom_told (p : String) (done : List (List Char)) :
    climbFrom absolute done (told p) = climbFrom absolute done (segmentsOf p.toList) := by
  have general : ∀ (ss done : List (List Char)),
      climbFrom absolute done (ss.filter fun s => !(s = [] || s = ['.'])) =
        climbFrom absolute done ss := by
    intro ss
    induction ss with
    | nil => exact fun _ => rfl
    | cons s ss ih =>
      intro done
      by_cases hs : s = [] ∨ s = ['.']
      · rw [List.filter_cons_of_neg (by rcases hs with rfl | rfl <;> decide), climbFrom_cons,
          climb_pass hs, ih]
      · rw [List.filter_cons_of_pos (by simpa using hs), climbFrom_cons, climbFrom_cons, ih]
  exact general _ done

theorem leadOf_cases (cs : List Char) :
    leadOf cs = [] ∨ leadOf cs = ['/'] ∨ leadOf cs = ['/', '/'] := by
  unfold leadOf
  split <;> simp

theorem leadOf_told (p : String) :
    leadOf (leadOf p.toList ++ joinSegments (told p)) = leadOf p.toList := by
  rw [leadOf_append _ (joinSegments_head (told_plain p))]
  rcases leadOf_cases p.toList with h | h | h <;> rw [h] <;> rfl

theorem climbFrom_lead (cs body : List Char) (done : List (List Char)) :
    climbFrom absolute done (segmentsOf (leadOf cs ++ body)) =
      climbFrom absolute done (segmentsOf body) := by
  have hslash : ∀ body : List Char, climbFrom absolute done (segmentsOf ('/' :: body)) =
      climbFrom absolute done (segmentsOf body) := by
    intro body
    rw [segmentsOf_slash, climbFrom_cons, climb_pass (Or.inl rfl)]
  rcases leadOf_cases cs with h | h | h <;> simp only [h, List.cons_append, List.nil_append, hslash]

/-- A path that was made tidy has the normal form that it had. -/
theorem normal_tidy (p : String) : normal (tidy p) = normal p := by
  have hclimb : ∀ absolute, climbFrom absolute [] (segmentsOf (leadOf p.toList ++
      joinSegments (told p))) = climbFrom absolute [] (segmentsOf p.toList) := by
    intro absolute
    rw [climbFrom_lead, ← climbFrom_told]
    by_cases hnone : told p = []
    · rw [hnone]
      rfl
    · rw [segmentsOf_joinSegments hnone fun s hs => (told_plain p s hs).2]
  have htidy : tidy p = if (leadOf p.toList ++ joinSegments (told p)).isEmpty then "."
      else String.ofList (leadOf p.toList ++ joinSegments (told p)) := rfl
  rw [htidy]
  split
  · next hempty =>
    -- nothing is left of the path, so it was made of segments that say nothing
    obtain ⟨hlead, hjoin⟩ := List.append_eq_nil_iff.mp (List.isEmpty_iff.mp hempty)
    have hnone : told p = [] := by
      by_contra hne
      exact joinSegments_ne_nil hne (fun s hs => (told_plain p s hs).1) hjoin
    have hreach : climbFrom false [] (segmentsOf p.toList) = [] := by
      rw [← climbFrom_told, hnone]
      rfl
    have hdot : normal p = "." := by
      simp [normal, normalOf, hlead, climbAll_eq, hreach, joinSegments]
    rw [hdot]
    rfl
  · rw [normal, normal, normalOf, normalOf, String.toList_ofList, leadOf_told, climbAll_eq,
      climbAll_eq, hclimb]

/-! ## Last segments that name nothing -/

theorem joinSegments_longer (ss : List (List Char)) (b : List Char) :
    (joinSegments ss).length + b.length ≤ (joinSegments (ss ++ [b])).length := by
  by_cases hss : ss = []
  · subst hss
    simp [joinSegments]
  · rw [joinSegments_snoc hss, List.length_append, List.length_cons]
    omega

theorem joinSegments_dots (ss : List (List Char)) :
    (joinSegments (ss ++ [dots])).length ≤ (joinSegments ss).length + 3 := by
  by_cases hss : ss = []
  · subst hss
    simp [joinSegments, dots]
  · rw [joinSegments_snoc hss, List.length_append, List.length_cons]
    simp [dots]

/-- A segment that names nothing adds little to what a climb has reached. -/
theorem climb_short (done : List (List Char)) (hs : ¬ Names s) :
    (joinSegments (climb absolute done s).reverse).length ≤ (joinSegments done.reverse).length + 3 := by
  rcases segment_cases s with hpass | rfl | hnames
  · rw [climb_pass hpass]
    omega
  · cases done with
    | nil => cases absolute <;> decide
    | cons d rest =>
      by_cases hd : d = dots
      · have hclimb : climb absolute (d :: rest) dots = dots :: d :: rest := by
          rw [hd]
          rfl
        rw [hclimb, List.reverse_cons]
        exact joinSegments_dots _
      · have := joinSegments_longer rest.reverse d
        rw [climb_dots_cons hd, List.reverse_cons]
        omega
  · exact absurd hnames hs

/-- A path that ends in a name of some length is longer than one that ends in no name. -/
theorem normal_length (hg : Head g) (hs : ¬ Names s) (hslash : '/' ∉ s) (hb : Names b)
    (hplain : '/' ∉ b) (hlong : 3 < b.length) :
    (normal (String.ofList (g ++ s))).toList.length <
      (normal (String.ofList (g ++ b))).toList.length := by
  obtain ⟨ss, hss⟩ := segmentsOf_head hg
  have hnormal : ∀ t, '/' ∉ t → normalOf (g ++ t) =
      if leadOf g ++ joinSegments (climb (!(leadOf g).isEmpty)
        (climbFrom (!(leadOf g).isEmpty) [] ss) t).reverse = [] then ['.']
      else leadOf g ++ joinSegments (climb (!(leadOf g).isEmpty)
        (climbFrom (!(leadOf g).isEmpty) [] ss) t).reverse := by
    intro t ht
    rw [normalOf, leadOf_append g (head?_of_plain ht), hss t ht, climbAll_eq, climbFrom_append]
    rfl
  generalize hdone : climbFrom (!(leadOf g).isEmpty) [] ss = done at hnormal
  have hshort : (joinSegments (climb (!(leadOf g).isEmpty) done s).reverse).length ≤
      (joinSegments done.reverse).length + 3 := climb_short done hs
  have hnamed : climb (!(leadOf g).isEmpty) done b = b :: done := climb_names hb
  have hwide := joinSegments_longer done.reverse b
  rw [← List.reverse_cons, ← hnamed] at hwide
  have hne : leadOf g ++ joinSegments (climb (!(leadOf g).isEmpty) done b).reverse ≠ [] := by
    intro h
    rw [(List.append_eq_nil_iff.mp h).2, List.length_nil] at hwide
    omega
  simp only [normal, String.toList_ofList]
  rw [hnormal b hplain, hnormal s hslash, if_neg hne, List.length_append]
  split
  · rw [List.length_singleton]
    omega
  · rw [List.length_append]
    omega

theorem append_cut (p : String) (x : List Char) :
    p ++ String.ofList x = String.ofList ((cut p.toList).1 ++ ((cut p.toList).2 ++ x)) := by
  rw [← List.append_assoc, cut_parts]
  apply String.toList_injective
  simp

theorem normal_ends (p : String) {x : List Char} (hx : Worded x) (hslash : '/' ∉ x) :
    ∃ h, (normal (p ++ String.ofList x)).toList = h ++ x := by
  obtain ⟨h, -, hnormal⟩ := keeps_normal _ (cut_ends p.toList)
  obtain ⟨c, hc, hne⟩ := hx
  have hworded : Worded ((cut p.toList).2 ++ x) := ⟨c, List.mem_append_right _ hc, hne⟩
  have hplain : '/' ∉ (cut p.toList).2 ++ x := fun hmem =>
    (List.mem_append.mp hmem).elim (slash_notMem_cut _) hslash
  exact ⟨h ++ (cut p.toList).2, by rw [List.append_assoc, ← hnormal _ hworded.names hplain, append_cut]⟩

theorem draft_last (p : String) : (normal (Workspace.draftOf p)).toList.getLast? = some 'p' := by
  obtain ⟨h, hnormal⟩ := normal_ends p (x := ".tmp".toList) ⟨'t', by decide, by decide⟩ (by decide)
  rw [show Workspace.draftOf p = p ++ String.ofList ".tmp".toList from rfl, hnormal,
    List.getLast?_append]
  rfl

theorem draft_unscripted (p : String) : ¬ Scripted (normal (Workspace.draftOf p)) := by
  rintro ⟨c, hc, hlower⟩
  rw [draft_last] at hc
  cases hc
  exact absurd hlower (by decide)

/-- The place of a path is not that of its draft. -/
theorem normal_ne_draft (p : String) : normal p ≠ normal (Workspace.draftOf p) := by
  intro he
  have hslash := slash_notMem_cut p.toList
  have hself : p = String.ofList ((cut p.toList).1 ++ (cut p.toList).2) := by
    rw [cut_parts, String.ofList_toList]
  have hworded : Worded ((cut p.toList).2 ++ ".tmp".toList) :=
    ⟨'t', List.mem_append_right _ (by decide), by decide⟩
  have hplain : '/' ∉ (cut p.toList).2 ++ ".tmp".toList := fun hmem =>
    (List.mem_append.mp hmem).elim hslash (by decide)
  have hlength := congrArg (fun q => q.toList.length) he
  rw [show Workspace.draftOf p = p ++ String.ofList ".tmp".toList from rfl, append_cut] at hlength
  by_cases hnames : Names (cut p.toList).2
  · obtain ⟨h, -, hnormal⟩ := keeps_normal _ (cut_ends p.toList)
    rw [hnormal _ hworded.names hplain, congrArg normal hself, hnormal _ hnames hslash] at hlength
    simp at hlength
  · have hlong : 3 < ((cut p.toList).2 ++ ".tmp".toList).length := by
      rw [List.length_append]
      exact Nat.lt_add_left _ (by decide)
    have := normal_length (cut_ends p.toList) hnames hslash hworded.names hplain hlong
    rw [← hself] at this
    omega

end Path

/-! ## Targets and companions -/

namespace Config

open Retype.Path Workspace

variable (c : Config) (target : String)

theorem segment_ne {s x : List Char} (hx : '.' ∈ x) : s ≠ (cutExtension s).1 ++ '.' :: x := by
  intro h
  rcases cutExtension_cases s with hcut | ⟨r, e, -, he, hs, hcut⟩
  · rw [hcut] at h
    have := congrArg List.length h
    simp at this
  · rw [hcut] at h
    rw [hs] at h
    obtain rfl : e = x := by simpa using h
    exact he hx

theorem slash_notMem_stem {s : List Char} (h : '/' ∉ s) : '/' ∉ (cutExtension s).1 := by
  rcases cutExtension_cases s with hcut | ⟨r, e, -, -, hs, hcut⟩
  · rwa [hcut]
  · rw [hcut]
    rw [hs] at h
    exact fun hmem => h (List.mem_append_left _ hmem)

theorem fileOf_join : c.fileOf target = normal (join c.root target) := normal_tidy _

theorem companionPath_cut : companionPath target = String.ofList
    ((cut target.toList).1 ++ ((cutExtension (cut target.toList).2).1 ++ ".types.ts".toList)) := by
  rw [companionPath, stem, splitExtension]
  apply String.toList_injective
  simp

/-- A target, its companion and the draft of the companion are three files, and the draft of
the target is not the companion. -/
theorem companion_apart :
    c.fileOf target ≠ c.fileOf (companionPath target) ∧
      c.fileOf target ≠ normal (draftOf (c.place (companionPath target))) ∧
      normal (draftOf (c.place target)) ≠ c.fileOf (companionPath target) := by
  have hslash := slash_notMem_cut target.toList
  obtain ⟨g, hg, hjoin⟩ := join_segment c.root (cut_ends target.toList)
  obtain ⟨h, -, hnormal⟩ := keeps_normal g hg
  have htarget : c.fileOf target = normal (String.ofList (g ++ (cut target.toList).2)) := by
    rw [fileOf_join, ← hjoin _ hslash, String.ofList_toList, cut_parts, String.ofList_toList]
  -- the companion's last segment, which names something whatever the target's is
  generalize hk : (cutExtension (cut target.toList).2).1 ++ ".types.ts".toList = k
  have hworded : Worded k := hk ▸ ⟨'t', List.mem_append_right _ (by decide), by decide⟩
  have hplain : '/' ∉ k := by
    rw [← hk, List.mem_append, not_or]
    exact ⟨slash_notMem_stem hslash, by decide⟩
  have hcompanion : (c.fileOf (companionPath target)).toList = h ++ k := by
    rw [fileOf_join, companionPath_cut, hk, ← hnormal k hworded.names hplain, ← hjoin k hplain,
      String.ofList_toList]
  have hdraft : (normal (draftOf (c.place (companionPath target)))).toList =
      h ++ (k ++ ".tmp".toList) := by
    have hbase : base (companionPath target) = String.ofList k := by
      rw [companionPath_cut, hk, base, String.toList_ofList, cut_head (cut_ends _) hplain]
    have hplace := (((keeps_tidy.comp (keeps_join c.root)).append (p := companionPath target)
      (by rwa [hbase, String.toList_ofList])).1)
    have happend := (keeps_normal.append (p := c.place (companionPath target))
      (by rw [place, hplace, hbase, String.toList_ofList]; exact hworded)).2 ".tmp" (by decide)
    rw [draftOf, happend, String.toList_append, ← List.append_assoc, ← hcompanion]
    rfl
  have hother : ∀ x, (c.fileOf target).toList ≠ h ++ (k ++ x) := by
    intro x he
    by_cases hnames : Names (cut target.toList).2
    · rw [htarget, hnormal _ hnames hslash] at he
      have hsegment := List.append_cancel_left he
      rw [← hk, List.append_assoc] at hsegment
      exact segment_ne (x := "types.ts".toList ++ x) (List.mem_append_left _ (by decide)) hsegment
    · have hlong : 3 < k.length := by
        rw [← hk, List.length_append]
        exact Nat.lt_add_left _ (by decide)
      have hlength := normal_length hg hnames hslash hworded.names hplain hlong
      rw [← htarget, he, hnormal k hworded.names hplain, List.length_append, List.length_append,
        List.length_append] at hlength
      omega
  refine ⟨fun he => hother [] ?_, fun he => hother ".tmp".toList ?_, fun he => ?_⟩
  · rw [he, hcompanion, List.append_nil]
  · rw [he, hdraft]
  · obtain ⟨d, hd⟩ := normal_ends (c.place target) (x := ".tmp".toList) ⟨'t', by decide, by decide⟩
      (by decide)
    have hlast : (h ++ k).getLast? = some 's' := by
      rw [← hk]
      simp
    rw [← hcompanion, ← he, show draftOf (c.place target) = c.place target ++ String.ofList ".tmp".toList from rfl,
      hd] at hlast
    simp at hlast

end Config

end Retype

import Mathlib.Data.Nat.Find
import Mathlib.Data.Set.List
import Retype.Proofs.Path.Seated

/-!
# The deepest source folder

A discovered file lies below one of the source folders, and of those that it lies below one is
the deepest. Its target is found in another way: the folders are compared with its path as
texts, the longest first. The two agree where each folder is written as the names it leads
through, and the extension is one that is replaced.
-/

set_option autoImplicit false

namespace Retype

open Retype.Path

/-- Every file has a path that is written as the names it leads through. -/
def Workspace.Seated (w : Workspace) : Prop := ∀ e ∈ w.entries, e.2 ≠ .folder → Path.Seated e.1

instance (w : Workspace) : Decidable w.Seated := inferInstanceAs (Decidable (∀ _ ∈ _, _ → _))

theorem Workspace.Seated.of_filesBelow {w : Workspace} (h : w.Seated) {base p : String}
    (hp : p ∈ w.filesBelow base) : Path.Seated p := by
  rw [Workspace.filesBelow, List.mem_mergeSort, List.mem_filterMap] at hp
  obtain ⟨⟨key, entry⟩, hmem, hkey⟩ := hp
  cases entry with
  | file text =>
    simp only [Option.ite_none_right_eq_some, Option.some.injEq] at hkey
    exact hkey.2 ▸ h _ hmem (by simp)
  | folder => cases hkey

namespace Config

variable {c : Config} {w : Workspace} {dirs : List String} {dir path rest tail : String}

/-! ## Where a file lies -/

/-- The file that a path leads to lies below a folder, and `rest` is the way to it from there. -/
def Lies (c : Config) (dir path rest : String) : Prop := c.fileOf path = c.fileOf dir ++ "/" ++ rest

instance (c : Config) (dir path rest : String) : Decidable (c.Lies dir path rest) :=
  inferInstanceAs (Decidable (_ = _))

/-- The way to a file from the deepest of some folders that it lies below. -/
structure Deepest (c : Config) (dirs : List String) (path rest : String) : Prop where
  lies : ∃ dir ∈ dirs, c.Lies dir path rest
  least : ∀ dir ∈ dirs, ∀ rest', c.Lies dir path rest' → rest.length ≤ rest'.length

theorem after?_eq_lies : Affix.after? (c.fileOf dir ++ "/") (c.fileOf path) = some rest ↔ c.Lies dir path rest :=
  Affix.after?_eq_some

instance : Decidable (c.Deepest dirs path rest) :=
  decidable_of_iff ((∃ dir ∈ dirs, c.Lies dir path rest) ∧ ∀ dir ∈ dirs,
      ∀ rest' ∈ Affix.after? (c.fileOf dir ++ "/") (c.fileOf path), rest.length ≤ rest'.length)
    ⟨fun ⟨hlies, hleast⟩ => ⟨hlies, fun dir hdir _ h => hleast dir hdir _ (after?_eq_lies.mpr h)⟩,
      fun ⟨hlies, hleast⟩ => ⟨hlies, fun dir hdir _ h => hleast dir hdir _ (after?_eq_lies.mp h)⟩⟩

theorem exists_deepest (h : ∃ dir ∈ dirs, ∃ rest, c.Lies dir path rest) :
    ∃ rest, c.Deepest dirs path rest := by
  classical
  have hsome : ∃ n rest, (∃ dir ∈ dirs, c.Lies dir path rest) ∧ rest.length = n := by
    obtain ⟨dir, hdir, rest, hlies⟩ := h
    exact ⟨_, rest, ⟨dir, hdir, hlies⟩, rfl⟩
  obtain ⟨rest, hlies, hlength⟩ := Nat.find_spec hsome
  refine ⟨rest, hlies, fun dir hdir rest' hlies' => ?_⟩
  rw [hlength]
  exact Nat.find_min' hsome ⟨rest', ⟨dir, hdir, hlies'⟩, rfl⟩

/-! ## Discovered files -/

/-- A file was found below a folder: how it lies there, and how its path is written. -/
structure Found (c : Config) (dir path tail : String) : Prop where
  lies : c.Lies dir path tail
  written : told (join c.root dir) ++ segmentsOf tail.toList = further c.root ++ segmentsOf path.toList
  names : ∀ s ∈ segmentsOf tail.toList, Names s

theorem filesIn_found (hroot : Path.Seated c.root) (hw : w.Seated) {files : List String}
    (h : Discovery.filesIn c w (.str dir) = .ok files) (hp : path ∈ files) : ∃ tail, c.Found dir path tail := by
  obtain ⟨step, hstep, h⟩ := ok_bind h
  cases show dir = step from Except.ok.inj (ok_mapError hstep)
  obtain ⟨isFolder, -, h⟩ := ok_bind h
  split at h
  · obtain ⟨tail, htails, hfrom⟩ := ok_mapM h hp
    obtain ⟨file, hfile, htail⟩ := List.mem_filterMap.mp htails
    have hpath : Affix.after? (c.root ++ "/") (c.place dir ++ "/" ++ tail) = some path := by
      have hfrom := ok_mapError hfrom
      unfold Discovery.fromRoot at hfrom
      split at hfrom
      · next p hp => rw [hp, Except.ok.inj hfrom]
      · cases hfrom
    have hseated := hw.of_filesBelow hfile
    rw [Affix.after?_eq_some] at htail hpath
    rw [htail] at hseated
    obtain ⟨hnormal, hwritten, hnames⟩ := hroot.found hseated hpath
    refine ⟨tail, ?_, hwritten, hnames⟩
    rw [Lies, fileOf_join, fileOf, place, hnormal]
  · cases h
    cases hp

/-- What is discovered was found below a source folder, and every source folder is a text. -/
theorem discover_found (hroot : Path.Seated c.root) (hw : w.Seated) {sources : List (String × Language)}
    (h : c.discover w = .ok sources) : ∃ dirs : List String,
      (c.value "source_dirs").each = .ok (dirs.map .str) ∧
        ∀ path l, (path, l) ∈ sources → ∃ dir ∈ dirs, ∃ tail, c.Found dir path tail := by
  obtain ⟨filter, values, hvalues, hread, hsources⟩ := discover_parts h
  have htext : ∀ v ∈ values, v ∈ Set.range Json.str := by
    intro v hv
    obtain ⟨files, hfiles⟩ := hread v hv
    obtain ⟨step, hstep, -⟩ := ok_bind hfiles
    cases v with
    | str s => exact ⟨s, rfl⟩
    | _ => cases hstep
  obtain ⟨dirs, rfl⟩ : values ∈ Set.range (List.map Json.str) := by
    rw [Set.range_list_map]
    exact htext
  refine ⟨dirs, hvalues, fun path l hmem => ?_⟩
  obtain ⟨-, v, hv, files, hfiles, hfile⟩ := hsources path l hmem
  obtain ⟨dir, hdir, rfl⟩ := List.mem_map.mp hv
  exact ⟨dir, hdir, filesIn_found hroot hw hfiles hfile⟩

/-! ## Folders as texts -/

/-- A folder that is written as the names it leads through, and with no more than one slash at
its end; the top is written as nothing or as a dot. -/
def Spelled (dir : String) : Prop := dir = "" ∨ ∃ b, Local b ∧ (dir = b ∨ dir = b ++ "/")

/-- How a folder is written, if it is spelled: as its names, or as the top. -/
theorem Spelled.written (h : Spelled dir) :
    (told dir = [] ∧ (dir = "" ∨ dir = "." ∨ dir = "./")) ∨
      (told dir ≠ [] ∧ (∀ s ∈ told dir, Names s) ∧
        (dir.toList = joinSegments (told dir) ∨ dir.toList = joinSegments (told dir) ++ ['/'])) := by
  rcases h with rfl | ⟨b, hb, hdir⟩
  · exact Or.inl ⟨by simp [told, segmentsOf], Or.inl rfl⟩
  have htold : told dir = told b := by
    rcases hdir with rfl | rfl
    · rfl
    · exact told_slash b
  rcases local_iff.mp hb with rfl | hnames
  · exact Or.inl ⟨by rw [htold]; simp [told, segmentsOf], Or.inr hdir⟩
  · rw [htold, told_names hnames]
    refine Or.inr ⟨segmentsOf_ne_nil _, hnames, ?_⟩
    rw [joinSegments_segmentsOf]
    rcases hdir with rfl | rfl
    · exact Or.inl rfl
    · exact Or.inr String.toList_append

theorem Spelled.names (h : Spelled dir) : ∀ s ∈ told dir, Names s := by
  rcases h.written with ⟨hnone, -⟩ | ⟨-, hnames, -⟩
  · simp [hnone]
  · exact hnames

theorem Spelled.relative (h : Spelled dir) : isAbsolute dir = false := by
  rcases h.written with ⟨-, rfl | rfl | rfl⟩ | ⟨hne, -, hdir⟩
  · rfl
  · rfl
  · rfl
  · have hhead := joinSegments_head (told_plain dir)
    have hsome := joinSegments_ne_nil hne fun s hs => (told_plain dir s hs).1
    obtain ⟨d, ds, hds⟩ := List.exists_cons_of_ne_nil hsome
    rw [hds] at hhead hdir
    rw [isAbsolute]
    rcases hdir with hdir | hdir <;> simpa [hdir] using hhead

theorem Spelled.trimmed (h : Spelled dir) (hne : told dir ≠ []) :
    Blank.dropEnd (· = '/') dir.toList = joinSegments (told dir) := by
  obtain ⟨y, l, hl, hy⟩ := Workspace.joinSegments_ends hne
  have hslash := Workspace.dropEnd_slash y (told_plain dir l hl).1 (told_plain dir l hl).2
  have hbare : Blank.dropEnd (· = '/') (y ++ l) = Blank.dropEnd (· = '/') (y ++ l ++ ['/']) := by
    simp [Blank.dropEnd]
  rcases h.written with ⟨hnone, -⟩ | ⟨-, -, hdir | hdir⟩
  · exact absurd hnone hne
  · rw [hdir, hy, hbare, hslash]
  · rw [hdir, hy, hslash]

theorem Spelled.trimmed_top (h : Spelled dir) (hnone : told dir = []) :
    Blank.dropEnd (· = '/') dir.toList = [] ∨ Blank.dropEnd (· = '/') dir.toList = ['.'] := by
  rcases h.written with ⟨-, rfl | rfl | rfl⟩ | ⟨hne, -⟩
  · exact Or.inl rfl
  · exact Or.inr rfl
  · exact Or.inr rfl
  · exact absurd hnone hne

theorem Found.names_path (hroot : Path.Seated c.root) {deep : String} (h : c.Found deep path tail)
    (hs : Spelled deep) : ∀ s ∈ segmentsOf path.toList, Names s := by
  have hwritten := h.written
  rw [hroot.told_join hs.relative, List.append_assoc] at hwritten
  rw [← List.append_cancel_left hwritten]
  exact fun s hm => (List.mem_append.mp hm).elim (hs.names s) (h.names s)

theorem fileOf_told (hroot : Path.Seated c.root) (ha : isAbsolute path = false)
    (hn : ∀ s ∈ told path, Names s) : c.fileOf path = rooted (further c.root ++ told path) := by
  rw [fileOf_join, hroot.join ha, hroot.normal_under, ← climbFrom_told, climbFrom_names hn,
    List.reverse_append, List.reverse_reverse, List.reverse_reverse]

/-- A file lies below a folder as its names go on from those of the folder. -/
theorem lies_iff (hroot : Path.Seated c.root) (hd : Spelled dir)
    (hp : ∀ s ∈ segmentsOf path.toList, Names s) :
    c.Lies dir path rest ↔ segmentsOf path.toList = told dir ++ segmentsOf rest.toList := by
  have hpath : c.fileOf path = rooted (further c.root ++ segmentsOf path.toList) := by
    rw [← told_names hp]
    exact fileOf_told hroot (isAbsolute_names hp) (by rwa [told_names hp])
  have hbelow : rooted (further c.root ++ told dir) ++ "/" ++ rest =
      rooted (further c.root ++ (told dir ++ segmentsOf rest.toList)) := by
    rw [← List.append_assoc, rooted_append (by simp [hroot.below]) (segmentsOf_ne_nil _),
      joinSegments_segmentsOf, String.ofList_toList]
  rw [Lies, hpath, fileOf_told hroot hd.relative hd.names, hbelow]
  refine ⟨fun h => ?_, fun h => by rw [h]⟩
  have hslash : ∀ ss : List (List Char), (∀ s ∈ ss, '/' ∉ s) → ∀ s ∈ further c.root ++ ss, '/' ∉ s :=
    fun ss hss s hs => (List.mem_append.mp hs).elim (fun hs => (hroot.plain s hs).2) (hss s)
  refine List.append_cancel_left (rooted_inj (by simp [hroot.below]) (by simp [hroot.below])
    (hslash _ fun s hs => slash_notMem_segment hs) (hslash _ fun s hs => ?_) h)
  exact (List.mem_append.mp hs).elim (fun hs => (told_plain dir s hs).2) slash_notMem_segment

/-- Compared as texts, a path stands behind a folder that is spelled exactly if it lies there
and the folder is not the top. -/
theorem below?_iff (hd : Spelled dir) (hp : ∀ s ∈ segmentsOf path.toList, Names s) :
    Target.below? dir path = some rest ↔
      told dir ≠ [] ∧ segmentsOf path.toList = told dir ++ segmentsOf rest.toList := by
  have hread : Target.below? dir path = some rest ↔
      path.toList = Blank.dropEnd (· = '/') dir.toList ++ '/' :: rest.toList := by
    rw [Target.below?, Affix.after?_eq_some, ← String.toList_inj]
    simp
  rw [hread]
  by_cases hne : told dir = []
  · -- the top is written as what no path begins with
    refine ⟨fun h => ?_, fun h => absurd hne h.1⟩
    rw [h, segmentsOf_append_slash] at hp
    rcases hd.trimmed_top hne with hcut | hcut
    · exact absurd rfl (hp [] (by simp [hcut, segmentsOf])).1
    · exact absurd rfl (hp ['.'] (by simp [hcut, segmentsOf])).2.1
  · have hparts : segmentsOf (joinSegments (told dir) ++ '/' :: rest.toList) =
        told dir ++ segmentsOf rest.toList := by
      rw [segmentsOf_append_slash, segmentsOf_joinSegments hne fun s hs => (told_plain dir s hs).2]
    rw [hd.trimmed hne]
    exact ⟨fun h => ⟨hne, by rw [h, hparts]⟩, fun h => segmentsOf_inj (h.2.trans hparts.symm)⟩

theorem joinSegments_length_right {ss ts : List (List Char)} (ht : ts ≠ []) :
    (joinSegments ts).length ≤ (joinSegments (ss ++ ts)).length := by
  by_cases hs : ss = []
  · rw [hs, List.nil_append]
  · rw [joinSegments_append hs ht, List.length_append, List.length_cons]
    omega

/-- Of two folders above a path the deeper one has the longer text. -/
theorem length_deeper {deep : String} {more : List (List Char)} (hd : Spelled dir) (hdeep : Spelled deep)
    (hne : told dir ≠ []) (hmore : more ≠ []) (h : told deep = told dir ++ more) : dir.length < deep.length := by
  have hsome : joinSegments more ≠ [] := joinSegments_ne_nil hmore fun s hs =>
    (told_plain deep s (h ▸ List.mem_append_right _ hs)).1
  have hpositive := List.length_pos_iff.mpr hsome
  have hlength : dir.toList.length ≤ (joinSegments (told dir)).length + 1 := by
    rcases hd.written with ⟨hnone, -⟩ | ⟨-, -, hdir | hdir⟩
    · exact absurd hnone hne
    · rw [hdir]
      omega
    · rw [hdir, List.length_append, List.length_singleton]
  have hlength' : (joinSegments (told deep)).length ≤ deep.toList.length := by
    rcases hdeep.written with ⟨hnone, -⟩ | ⟨-, -, hdir | hdir⟩
    · rw [hnone]
      exact Nat.zero_le _
    · rw [hdir]
    · rw [hdir, List.length_append]
      omega
  rw [h, joinSegments_append hne hmore, List.length_append, List.length_cons] at hlength'
  rw [← String.length_toList, ← String.length_toList]
  omega

/-- What the first of some folders leaves of a path, longest first, is no longer than what any
folder leaves that the path lies below. -/
theorem below?_least {folders : List String} (hs : ∀ dir ∈ folders, Spelled dir)
    (hsorted : folders.Pairwise fun a b => b.length ≤ a.length) (hp : ∀ s ∈ segmentsOf path.toList, Names s)
    (hfirst : folders.findSome? (fun dir => Target.below? dir path) = some tail) (hd : dir ∈ folders)
    (hrest : segmentsOf path.toList = told dir ++ segmentsOf rest.toList) : tail.length ≤ rest.length := by
  obtain ⟨before, first, after, hsplit, hread, hbefore⟩ := List.findSome?_eq_some_iff.mp hfirst
  have hmem : first ∈ folders := hsplit ▸ List.mem_append_right _ List.mem_cons_self
  obtain ⟨hne, htail⟩ := (below?_iff (hs first hmem) hp).mp hread
  rw [htail] at hrest
  have hjoin : ∀ x : String, x.length = (joinSegments (segmentsOf x.toList)).length := fun x => by
    rw [joinSegments_segmentsOf, String.length_toList]
  rw [hjoin tail, hjoin rest]
  rcases List.append_eq_append_iff.mp hrest with ⟨more, hdeep, hmore⟩ | ⟨more, -, hmore⟩
  · -- the folder is below the first: if it is another one, it would have come before
    by_cases hnone : more = []
    · rw [hmore, hnone, List.nil_append]
    have hlonger := length_deeper (hs first hmem) (hs dir hd) hne hnone hdeep
    have hmatches : Target.below? dir path = some rest := by
      refine (below?_iff (hs dir hd) hp).mpr ⟨by simp [hdeep, hne], ?_⟩
      rw [htail, hrest]
    rw [hsplit, List.mem_append, List.mem_cons] at hd
    rw [hsplit, List.pairwise_append, List.pairwise_cons] at hsorted
    rcases hd with hd | rfl | hd
    · rw [hbefore dir hd] at hmatches
      cases hmatches
    · exact absurd hlonger (Nat.lt_irrefl _)
    · have hle := hsorted.2.1.1 dir hd
      omega
  · rw [hmore]
    exact joinSegments_length_right (segmentsOf_ne_nil _)

/-! ## What a target is made of -/

def tailOf (c : Config) (path : String) : Except Fault String := do
  tailBelow (Target.slashed path) (← c.foldersByLength)

theorem foldersByLength_texts (hdirs : (c.value "source_dirs").each = .ok (dirs.map .str)) :
    c.foldersByLength = .ok ((Order.byDescending String.length dirs).map .str) := by
  have hsized : ((dirs.map Json.str).mapM fun dir => do return (← dir.size, dir) : Except Fault _) =
      .ok (dirs.map fun dir => (dir.length, Json.str dir)) := by
    rw [List.mapM_map]
    exact mapM_total (fun _ => rfl) dirs
  have hsorted : (Order.byDescending String.length dirs).map (fun dir => (dir.length, Json.str dir)) =
      Order.byDescending (·.1) (dirs.map fun dir => (dir.length, Json.str dir)) :=
    List.map_mergeSort fun _ _ _ _ => rfl
  rw [foldersByLength, hdirs, bind_ok, hsized, bind_ok, ← hsorted, List.map_map]
  rfl

theorem tailBelow_texts (path : String) (folders : List String) : tailBelow path (folders.map .str) =
    .ok ((folders.findSome? fun dir => Target.below? dir path).getD path) := by
  induction folders with
  | nil => rfl
  | cons dir folders ih =>
    have htext : (Json.str dir).textWith "rstrip" = .ok dir := rfl
    rw [List.map_cons, tailBelow, htext, bind_ok, List.findSome?_cons]
    cases Target.below? dir path with
    | some tail => rfl
    | none => exact ih

theorem tailOf_texts (hdirs : (c.value "source_dirs").each = .ok (dirs.map .str)) : c.tailOf path =
    .ok (((Order.byDescending String.length dirs).findSome? fun dir =>
      Target.below? dir (Target.slashed path)).getD (Target.slashed path)) := by
  rw [tailOf, foldersByLength_texts hdirs, bind_ok, tailBelow_texts]

theorem slashed_self (h : '\\' ∉ path.toList) : Target.slashed path = path := by
  have hmap : path.toList.map (fun c => if c = '\\' then '/' else c) = path.toList.map id :=
    List.map_congr_left fun c hc => if_neg fun (he : c = '\\') => h (he ▸ hc)
  rw [Target.slashed, Affix.exchange, hmap, List.map_id, String.ofList_toList]

theorem Lies.length_inj {dir' rest' : String} (h : c.Lies dir path rest) (h' : c.Lies dir' path rest')
    (hlength : rest.length = rest'.length) : rest = rest' := by
  have hboth : (c.fileOf dir ++ "/").toList ++ rest.toList = (c.fileOf dir' ++ "/").toList ++ rest'.toList := by
    rw [← String.toList_append, ← String.toList_append]
    exact congrArg String.toList (h.symm.trans h')
  rw [← String.length_toList, ← String.length_toList] at hlength
  exact String.toList_injective (List.append_inj_right' hboth hlength)

/-- Where the folders are spelled, a target is made of the way from the deepest of them. -/
theorem tailOf_deepest (hroot : Path.Seated c.root) (hdirs : (c.value "source_dirs").each = .ok (dirs.map .str))
    (hs : ∀ dir ∈ dirs, Spelled dir) (hp : ∀ s ∈ segmentsOf path.toList, Names s) (hslash : '\\' ∉ path.toList)
    (h : c.Deepest dirs path rest) : c.tailOf path = .ok rest := by
  have hmem : ∀ {dir}, dir ∈ Order.byDescending String.length dirs ↔ dir ∈ dirs := List.mem_mergeSort
  have hsorted := Order.byDescending_sorted String.length dirs
  obtain ⟨dir, hdir, hlies⟩ := h.lies
  have hrest := (lies_iff hroot (hs dir hdir) hp).mp hlies
  rw [tailOf_texts hdirs, slashed_self hslash]
  refine congrArg Except.ok ?_
  cases hfirst : (Order.byDescending String.length dirs).findSome? fun dir => Target.below? dir path with
  | some tail =>
    have hle := below?_least (fun d hd => hs d (hmem.mp hd)) hsorted hp hfirst (hmem.mpr hdir) hrest
    obtain ⟨first, hin, hread⟩ := List.exists_of_findSome?_eq_some hfirst
    have hfound := (lies_iff hroot (hs first (hmem.mp hin)) hp).mpr
      ((below?_iff (hs first (hmem.mp hin)) hp).mp hread).2
    exact hfound.length_inj hlies (Nat.le_antisymm hle (h.least first (hmem.mp hin) tail hfound))
  | none =>
    have hunread := List.findSome?_eq_none_iff.mp hfirst dir (hmem.mpr hdir)
    have htop : told dir = [] := by
      by_contra hne
      rw [(below?_iff (hs dir hdir) hp).mpr ⟨hne, hrest⟩] at hunread
      cases hunread
    rw [htop, List.nil_append] at hrest
    exact String.toList_injective (segmentsOf_inj hrest)

end Config

end Retype

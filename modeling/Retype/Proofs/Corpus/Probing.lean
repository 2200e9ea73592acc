import Retype.Proofs.Path.Extension
import Retype.Proofs.Path.Within
import Retype.Resolver

/-!
# Probing for what a relative specifier was written for

A file is imported without its extension, and an index file by its folder. The relative
specifier of such a path, read in the file that it was written for, is the path again, and
the first file that it may mean is found: the two computations of a path agree for any two
folders of the project. An index file at the top is the exception. It is probed for under
`./index`, and no file of the corpus is written so.
-/

set_option autoImplicit false

namespace Retype

namespace Path

variable {a : String}

/-- Whatever stands before a slash in a normal path of the project is names. -/
theorem Local.names_before {rest : String} (h : Local (a ++ "/" ++ rest)) :
    ∀ s ∈ segmentsOf a.toList, Names s := by
  have hsegments : segmentsOf (a ++ "/" ++ rest).toList = segmentsOf a.toList ++ segmentsOf rest.toList := by
    rw [← segmentsOf_append_slash]
    simp
  intro s hs
  rcases local_iff.mp h with htop | hnames
  · have hl := congrArg String.toList htop
    cases ha : a.toList with
    | nil => simp [ha] at hl
    | cons c cs => simp [ha] at hl
  · exact hnames s (hsegments ▸ List.mem_append_left _ hs)

/-- A normal path of the project without its end is one, too, if a name is left at the end. -/
theorem Local.without_end {x : String} (h : Local (a ++ x)) (hnames : Names (base a).toList) : Local a := by
  rw [base, String.toList_ofList] at hnames
  have hparts := cut_parts a.toList
  have hplain := slash_notMem_cut a.toList
  refine local_iff.mpr (Or.inr ?_)
  rcases cut_ends a.toList with hhead | ⟨dir, hhead⟩
  · rw [hhead, List.nil_append] at hparts
    rw [← hparts, segmentsOf_plain hplain]
    exact fun s hs => List.mem_singleton.mp hs ▸ hnames
  · rw [hhead, List.append_assoc, List.singleton_append] at hparts
    have hsplit : a ++ x = String.ofList dir ++ "/" ++ (String.ofList (cut a.toList).2 ++ x) := by
      apply String.toList_injective
      conv => lhs; rw [String.toList_append, ← hparts]
      simp
    have hdir := (hsplit ▸ h).names_before
    rw [String.toList_ofList] at hdir
    rw [← hparts, segmentsOf_append_slash, segmentsOf_plain hplain]
    intro s hs
    rcases List.mem_append.mp hs with hs | hs
    · exact hdir s hs
    · exact List.mem_singleton.mp hs ▸ hnames

end Path

namespace AliasTable

open Retype.Path (Inner Local)

variable (t : AliasTable)

theorem isRelative_relative (target writer : String) : isRelative (t.relative target writer) = true :=
  (t.relative_reads (String.ofList_toList).symm).1

end AliasTable

namespace Resolver

open Retype.Path (Inner Local Names)

variable {r : Resolver} {base p importer : String} {extensions : List String}

/-! ## What a path means -/

def indexOf (base : String) : String := if base = "." then "index" else base ++ "/index"

/-- The files that a path may mean: the path itself and with each extension, and the index file
of the folder with each extension. -/
def meant (base : String) (extensions : List String) : List String :=
  base :: extensions.map (base ++ ·) ++ extensions.map (indexOf base ++ ·)

/-- A file that is imported by a path: by its own without the extension, or by its folder's. -/
inductive StandsFor (extensions : List String) (base : String) : String → Prop
  | file {ext : String} (known : ext ∈ extensions) (stem : base = "." ∨ Names (Path.base base).toList) :
      StandsFor extensions base (base ++ ext)
  | index {ext : String} (known : ext ∈ extensions) : StandsFor extensions base (base ++ "/index" ++ ext)
  | topIndex {ext : String} (known : ext ∈ extensions) (top : base = ".") :
      StandsFor extensions base ("index" ++ ext)

/-- A file of the corpus that is imported by a path, and the first there of all that the path
may mean. -/
structure Means (r : Resolver) (base p : String) : Prop where
  imported : StandsFor r.extensions base p
  held : p ∈ r.corpus
  first : ∃ before after, meant base r.extensions = before ++ p :: after ∧ ∀ f ∈ before, f ∉ r.corpus

/-- What a file of the project is imported by is a path of the project. -/
theorem StandsFor.local_base (h : StandsFor extensions base p) (hp : Local p) : Local base := by
  cases h with
  | topIndex _ top => exact Path.local_iff.mpr (Or.inl top)
  | @index ext _ =>
    have hsplit : base ++ "/index" ++ ext = base ++ "/" ++ ("index" ++ ext) := by
      simp only [String.append_assoc]
      rfl
    exact Path.local_iff.mpr (Or.inr (hsplit ▸ hp).names_before)
  | @file ext _ stem =>
    rcases stem with rfl | hnames
    · decide +kernel
    · exact hp.without_end hnames

/-! ## Probing -/

theorem candidates_absolute (hb : Path.isAbsolute base = true) (h : p ∈ candidates base extensions) :
    Path.isAbsolute p = true := by
  simp only [candidates, List.cons_append, List.mem_cons, List.mem_append, List.mem_map] at h
  rcases h with rfl | ⟨ext, -, rfl⟩ | ⟨ext, -, rfl⟩
  · exact hb
  · exact Path.isAbsolute_append hb ext
  · rw [String.append_assoc]
    exact Path.isAbsolute_append hb _

theorem candidates_meant (hb : base ≠ ".") : candidates base extensions = meant base extensions := by
  rw [candidates, meant, indexOf, if_neg hb]

theorem candidates_top (h : p ∈ candidates "." extensions) : p.toList.head? = some '.' := by
  simp only [candidates, List.cons_append, List.mem_cons, List.mem_append, List.mem_map] at h
  rcases h with rfl | ⟨ext, -, rfl⟩ | ⟨ext, -, rfl⟩ <;> simp

theorem Means.found (h : r.Means base p) : (meant base r.extensions).find? r.corpus.contains = some p := by
  obtain ⟨before, after, hsplit, hbefore⟩ := h.first
  rw [List.find?_eq_some_iff_append]
  exact ⟨by simpa using h.held, before, after, hsplit, fun f hf => by simpa using hbefore f hf⟩

/-- What a path means is found, unless it is an index file at the top. -/
theorem Means.probed (h : r.Means base p) (htop : ¬ ∃ ext ∈ r.extensions, base = "." ∧ p = "index" ++ ext) :
    (candidates base r.extensions).find? r.corpus.contains = some p := by
  have hfound := h.found
  by_cases hb : base = "."
  · subst hb
    rw [meant, List.find?_append, Option.or_eq_some_iff] at hfound
    rcases hfound with hfound | ⟨-, hfound⟩
    · rw [candidates, List.find?_append, hfound]
      rfl
    · obtain ⟨ext, hext, hp⟩ := List.mem_map.mp (List.mem_of_find?_eq_some hfound)
      exact absurd ⟨ext, hext, rfl, hp.symm⟩ htop
  · rwa [candidates_meant hb]

/-- A relative specifier that was written for a file of the project is resolved to what its
path means exactly if it is read from a folder of the project and does not mean an index file
at the top. -/
theorem resolve_relative_iff (hcorpus : ∀ f ∈ r.corpus, Local f) (h : r.Means base p) :
    r.resolve (r.table.relative base importer) importer = some p ↔
      Inner (Path.folder importer) ∧ ¬ ∃ ext ∈ r.extensions, base = "." ∧ p = "index" ++ ext := by
  have hlocal := hcorpus p h.held
  have hbase := h.imported.local_base hlocal
  have hwritten : base = String.ofList (Path.ofNames (Path.namesOf base)) :=
    hbase.normal.symm.trans (Path.normal_relative hbase.relative)
  constructor
  · intro hresolve
    unfold resolve at hresolve
    split at hresolve
    · cases hresolve
    next q hq =>
    have hmem := List.mem_of_find?_eq_some hresolve
    have hf : Inner (Path.folder importer) := by
      by_contra hf
      have ha := r.table.expand_outside (r.table.isRelative_relative base importer) hf hq
      have hrelative := hlocal.relative
      rw [candidates_absolute ha hmem] at hrelative
      cases hrelative
    refine ⟨hf, ?_⟩
    rintro ⟨ext, -, rfl, rfl⟩
    rw [r.table.expand_relative hbase.inner hwritten hbase.inside hf, Option.some_inj] at hq
    subst hq
    have hhead := candidates_top hmem
    simp at hhead
  · rintro ⟨hf, htop⟩
    rw [resolve, r.table.expand_relative hbase.inner hwritten hbase.inside hf]
    exact h.probed htop

def indexed : Resolver :=
  ⟨["index.js", "components/A.jsx", "components/modal/index.jsx"], ⟨AliasTable.standard, []⟩, [".js", ".jsx"]⟩

theorem indexed_local : ∀ f ∈ indexed.corpus, Local f := by decide +kernel

theorem modal_resolved : indexed.Means "components/modal" "components/modal/index.jsx" ∧
    Inner (Path.folder "src/app/page.tsx") ∧
    indexed.resolve (indexed.table.relative "components/modal" "src/app/page.tsx") "src/app/page.tsx" =
      some "components/modal/index.jsx" := by
  have hmeans : indexed.Means "components/modal" "components/modal/index.jsx" :=
    { imported := StandsFor.index (show ".jsx" ∈ indexed.extensions by decide)
      held := by decide
      first := ⟨(meant "components/modal" indexed.extensions).take 4, [], by decide +kernel, by decide +kernel⟩ }
  have hf : Inner (Path.folder "src/app/page.tsx") := by decide +kernel
  have htop : ¬ ∃ ext ∈ indexed.extensions, "components/modal" = "." ∧ "components/modal/index.jsx" = "index" ++ ext :=
    fun ⟨_, _, h, _⟩ => absurd h (by decide)
  exact ⟨hmeans, hf, (resolve_relative_iff indexed_local hmeans).mpr ⟨hf, htop⟩⟩

/-- The index file at the top is not found by the specifier that was written for it. -/
theorem topIndex_missed : (∀ f ∈ indexed.corpus, Local f) ∧ indexed.Means "." "index.js" ∧
    Local "components/A.jsx" ∧ indexed.table.relative "." "components/A.jsx" = ".." ∧
    indexed.resolve ".." "components/A.jsx" = none :=
  ⟨indexed_local,
    { imported := StandsFor.topIndex (show ".js" ∈ indexed.extensions by decide) rfl
      held := by decide
      first := ⟨(meant "." indexed.extensions).take 3, ["index.jsx"], by decide +kernel, by decide +kernel⟩ },
    by decide +kernel, by decide +kernel, by decide +kernel⟩

end Resolver

end Retype

import Retype.Proofs.Path.Specifier
import Retype.Proofs.Text.Affix

/-!
# The shortest specifier

What a specifier is made into is the shortest of the relative specifier and the alias forms
on offer, and an alias form where it can be. An alias form is an alias and what remains of a
path below the alias's folder. It is on offer unless the folder is the path itself, or is
not written as its names: folders are compared with paths as texts.
-/

set_option autoImplicit false

namespace Retype

namespace Path

/-- What leads on from a folder to a path: the names of the path that are left after those
of the folder, in their normal form, or nothing at all if none are left. -/
structure Remains (dir target rest : String) : Prop where
  names : namesOf target = namesOf dir ++ namesOf rest
  written : rest = "" ∨ rest = String.ofList (ofNames (namesOf rest))

/-- What follows a folder in a path as texts: all of the path if the folder has no text. -/
def Follows (dir target rest : String) : Prop :=
  (dir = "" ∧ rest = target) ∨ (dir ≠ "" ∧ target = dir ++ "/" ++ rest)

/-- A folder that is written as its names. -/
def Tidy (dir : String) : Prop :=
  dir = "" ∨ (namesOf dir ≠ [] ∧ dir = String.ofList (ofNames (namesOf dir)))

instance (dir target rest : String) : Decidable (Remains dir target rest) :=
  decidable_of_iff (namesOf target = namesOf dir ++ namesOf rest ∧
      (rest = "" ∨ rest = String.ofList (ofNames (namesOf rest))))
    ⟨fun ⟨h1, h2⟩ => ⟨h1, h2⟩, fun ⟨h1, h2⟩ => ⟨h1, h2⟩⟩

variable {dir target rest : String}

theorem namesOf_segments {p : String} (h : ∀ s ∈ segmentsOf p.toList, Names s) :
    namesOf p = segmentsOf p.toList := by
  rw [namesOf_eq, climbFrom_names h, List.append_nil, List.reverse_reverse]

theorem ofNames_segments {p : String} (h : namesOf p = segmentsOf p.toList) :
    p = String.ofList (ofNames (namesOf p)) := by
  rw [h, ofNames, if_neg (segmentsOf_ne_nil p.toList), joinSegments_segmentsOf, String.ofList_toList]

theorem segments_of_written {p : String} (hn : p = String.ofList (ofNames (namesOf p))) :
    p = "." ∨ namesOf p = segmentsOf p.toList := by
  by_cases hnil : namesOf p = []
  · rw [hnil] at hn
    exact Or.inl hn
  · have hslash : ∀ s ∈ namesOf p, '/' ∉ s := fun s hs => (mem_namesOf hs).2
    right
    conv => rhs; rw [hn]
    rw [String.toList_ofList, ofNames, if_neg hnil, segmentsOf_joinSegments hnil hslash]

theorem ofNames_append {ns ms : List (List Char)} (hn : ns ≠ []) (hm : ms ≠ []) :
    ofNames (ns ++ ms) = ofNames ns ++ '/' :: ofNames ms := by
  rw [ofNames, ofNames, ofNames, if_neg hn, if_neg hm, if_neg (by simp [hn]), joinSegments_append hn hm]

/-- What follows a folder in a normal path remains of it below the folder. -/
theorem Follows.remains (h : Follows dir target rest) (ht : Inner target)
    (hn : target = String.ofList (ofNames (namesOf target))) : Remains dir target rest := by
  rcases h with ⟨rfl, rfl⟩ | ⟨-, h⟩
  · exact ⟨(List.nil_append _).symm, Or.inr hn⟩
  have hl : target.toList = dir.toList ++ '/' :: rest.toList := by simp [h]
  have hsegments : segmentsOf target.toList = segmentsOf dir.toList ++ segmentsOf rest.toList := by
    rw [hl, segmentsOf_append_slash]
  have hnames : namesOf target = segmentsOf target.toList := by
    rcases segments_of_written hn with rfl | hnames
    · cases hd : dir.toList with
      | nil => simp [hd] at hl
      | cons c cs => simp [hd] at hl
    · exact hnames
  have hall : ∀ s ∈ segmentsOf dir.toList ++ segmentsOf rest.toList, Names s := by
    rw [← hsegments, ← hnames]
    exact ht.names
  have hdir := namesOf_segments fun s hs => hall s (List.mem_append_left _ hs)
  have hrest := namesOf_segments fun s hs => hall s (List.mem_append_right _ hs)
  exact ⟨by rw [hnames, hsegments, hdir, hrest], Or.inr (ofNames_segments hrest)⟩

/-- What remains of a normal path below another folder follows it, if the folder is written
as its names. -/
theorem Remains.follows (h : Remains dir target rest)
    (hn : target = String.ofList (ofNames (namesOf target))) (hd : Tidy dir)
    (hne : namesOf dir ≠ namesOf target) : Follows dir target rest := by
  have hrest : namesOf rest ≠ [] := by
    intro hnil
    rw [h.names, hnil, List.append_nil] at hne
    exact hne rfl
  have hwritten : rest = String.ofList (ofNames (namesOf rest)) :=
    h.written.resolve_left fun hempty => hrest (by rw [hempty]; rfl)
  rcases hd with rfl | ⟨hnil, hdir⟩
  · have hnames : namesOf target = namesOf rest := h.names
    rw [← hnames, ← hn] at hwritten
    exact Or.inl ⟨rfl, hwritten⟩
  · refine Or.inr ⟨fun hempty => hnil (by rw [hempty]; rfl), ?_⟩
    conv => lhs; rw [hn, h.names, ofNames_append hnil hrest]
    conv => rhs; rw [hdir, hwritten]
    rw [← String.toList_inj]
    simp

end Path

namespace AliasTable

open Retype.Path (Inner Remains Follows Tidy namesOf ofNames)

variable (t : AliasTable) {e : String × String} {target writer form : String}

/-- An alias and what remains of a path below its folder, if the file reads it as the path. -/
structure FormOf (e : String × String) (target writer form : String) : Prop where
  parts : ∃ rest, Remains e.2 target rest ∧ form = e.1 ++ rest
  reads : t.expand form writer = some target

/-- An alias form of a path for a file. -/
def IsForm (target writer form : String) : Prop := ∃ e ∈ t.folders, t.FormOf e target writer form

theorem mem_byFolder : e ∈ t.byFolder ↔ e ∈ t.folders := List.mem_mergeSort

theorem mem_byAlias : e ∈ t.byAlias ↔ e ∈ t.folders := List.mem_mergeSort

theorem byFolder_single (h : t.folders = [e]) : t.byFolder = [e] := by
  rw [byFolder, h]
  exact List.mergeSort_singleton e

theorem byAlias_single (h : t.folders = [e]) : t.byAlias = [e] := by
  rw [byAlias, h]
  exact List.mergeSort_singleton e

theorem standard_folders (base : List String) : (⟨standard, base⟩ : AliasTable).folders =
    [("@types/", "src/types"), ("@components/", "components"), ("@src-components/", "src/components"),
      ("@hooks/", "src/hooks"), ("@lib/", "lib"), ("@src-lib/", "src/lib"), ("@app/", "src/app"),
      ("@src-types/", "src/types"), ("@public/", "public"), ("@/", "src")] := by
  change AliasTable.folders ⟨standard, []⟩ = _
  decide +kernel

theorem standard_byFolder (base : List String) : (⟨standard, base⟩ : AliasTable).byFolder =
    [("@src-components/", "src/components"), ("@components/", "components"), ("@types/", "src/types"),
      ("@hooks/", "src/hooks"), ("@src-types/", "src/types"), ("@src-lib/", "src/lib"),
      ("@app/", "src/app"), ("@public/", "public"), ("@lib/", "lib"), ("@/", "src")] := by
  rw [byFolder, standard_folders, Order.byDescending]
  simp +decide [List.mergeSort, List.MergeSort.Internal.splitInTwo]

theorem standard_byAlias (base : List String) : (⟨standard, base⟩ : AliasTable).byAlias =
    [("@src-components/", "src/components"), ("@components/", "components"), ("@src-types/", "src/types"),
      ("@src-lib/", "src/lib"), ("@public/", "public"), ("@types/", "src/types"), ("@hooks/", "src/hooks"),
      ("@lib/", "lib"), ("@app/", "src/app"), ("@/", "src")] := by
  rw [byAlias, standard_folders, Order.byDescending]
  simp +decide [List.mergeSort, List.MergeSort.Internal.splitInTwo]

/-- What is expanded is no package. -/
theorem isInternal_of_expand {spec importer p : String} (h : t.expand spec importer = some p) :
    t.isInternal spec = true := by
  unfold isInternal
  cases hrelative : isRelative spec with
  | true => rfl
  | false =>
    cases hrooted : isRooted spec with
    | true => rfl
    | false =>
      obtain ⟨hx, -⟩ := Option.filter_eq_some_iff.mp h
      obtain ⟨x, hx, -⟩ := Option.map_eq_some_iff.mp hx
      simp only [hrelative, hrooted, Bool.false_eq_true, if_false] at hx
      obtain ⟨e, he, hread⟩ := List.exists_of_findSome?_eq_some hx
      obtain ⟨rest, hrest, -⟩ := Option.map_eq_some_iff.mp hread
      simp only [Bool.false_or, List.any_eq_true]
      exact ⟨e, he, Affix.begins_of_after? hrest⟩

/-! ## Forms on offer -/

theorem mem_aliasForms : form ∈ t.aliasForms target writer ↔ ∃ e ∈ t.folders, ∃ rest,
    Follows e.2 target rest ∧ form = e.1 ++ rest ∧ t.expand form writer = some target := by
  have hrest : ∀ dir rest : String, (if dir.isEmpty then some target else
      Affix.after? (dir ++ "/") target) = some rest ↔ Follows dir target rest := by
    intro dir rest
    by_cases hdir : dir = ""
    · rw [if_pos (String.isEmpty_iff.mpr hdir), Option.some_inj]
      exact ⟨fun h => Or.inl ⟨hdir, h.symm⟩, fun h => (h.resolve_right fun h => h.1 hdir).2.symm⟩
    · rw [if_neg (mt String.isEmpty_iff.mp hdir), Affix.after?_eq_some]
      exact ⟨fun h => Or.inr ⟨hdir, h⟩, fun h => (h.resolve_left fun h => hdir h.1).2⟩
  simp only [aliasForms, List.mem_filterMap, mem_byFolder, Option.filter_eq_some_iff,
    Option.map_eq_some_iff, beq_iff_eq, hrest]
  constructor
  · rintro ⟨e, he, ⟨rest, hfollows, rfl⟩, hread⟩
    exact ⟨e, he, rest, hfollows, rfl, hread⟩
  · rintro ⟨e, he, rest, hfollows, rfl, hread⟩
    exact ⟨e, he, ⟨rest, hfollows, rfl⟩, hread⟩

section

variable {spec importer : String}

theorem isForm_of_offered (ht : Inner target) (hn : target = String.ofList (ofNames (namesOf target)))
    (h : form ∈ t.aliasForms target writer) : t.IsForm target writer form := by
  obtain ⟨e, he, rest, hrest, hform, hread⟩ := t.mem_aliasForms.mp h
  exact ⟨e, he, ⟨rest, hrest.remains ht hn, hform⟩, hread⟩

theorem offered_of_form (hn : target = String.ofList (ofNames (namesOf target))) (he : e ∈ t.folders)
    (h : t.FormOf e target writer form) (hd : Tidy e.2) (hne : namesOf e.2 ≠ namesOf target) :
    form ∈ t.aliasForms target writer := by
  obtain ⟨⟨rest, hrest, hform⟩, hread⟩ := h
  exact t.mem_aliasForms.mpr ⟨e, he, rest, hrest.follows hn hd hne, hform, hread⟩

/-! ## The choice -/

/-- What is chosen of the texts on offer and another one: a shortest of those on offer, if it
is not longer than the other, and otherwise the other. -/
def Chosen (offered : List String) (other n : String) : Prop :=
  (n ∈ offered ∧ n.length ≤ other.length ∧ ∀ f ∈ offered, n.length ≤ f.length) ∨
    (n = other ∧ ∀ f ∈ offered, n.length < f.length)

theorem Chosen.le_other {offered : List String} {other n : String} (h : Chosen offered other n) :
    n.length ≤ other.length := by
  rcases h with ⟨-, hle, -⟩ | ⟨rfl, -⟩
  · exact hle
  · exact Nat.le_refl _

theorem Chosen.le_offered {offered : List String} {other n f : String} (h : Chosen offered other n)
    (hf : f ∈ offered) : n.length ≤ f.length := by
  rcases h with ⟨-, -, hle⟩ | ⟨-, hlt⟩
  · exact hle f hf
  · exact Nat.le_of_lt (hlt f hf)

/-- The choice is a shortest among all of a kind, and of that kind where one is not longer
than the other text, exactly if what is on offer is as short as each of these. -/
theorem Chosen.least_iff {offered : List String} {other n : String} {Kind : String → Prop}
    (h : Chosen offered other n) (hoffered : ∀ f ∈ offered, Kind f) :
    ((∀ form, Kind form → n.length ≤ form.length) ∧
        ((∃ form, Kind form ∧ form.length ≤ other.length) → Kind n)) ↔
      ∀ form, Kind form → other.length < form.length ∨
        ∃ f, (f ∈ offered ∨ (f = other ∧ Kind f)) ∧ f.length ≤ form.length := by
  constructor
  · rintro ⟨hleast, hchosen⟩ form hform
    by_cases hlong : other.length < form.length
    · exact Or.inl hlong
    have hn := hchosen ⟨form, hform, Nat.le_of_not_lt hlong⟩
    refine Or.inr ⟨n, ?_, hleast form hform⟩
    rcases h with ⟨hmem, -⟩ | ⟨heq, -⟩
    · exact Or.inl hmem
    · exact Or.inr ⟨heq, hn⟩
  · intro hmatched
    constructor
    · intro form hform
      rcases hmatched form hform with hlong | ⟨f, hf | ⟨rfl, -⟩, hle⟩
      · exact Nat.le_trans h.le_other (Nat.le_of_lt hlong)
      · exact Nat.le_trans (h.le_offered hf) hle
      · exact Nat.le_trans h.le_other hle
    · rintro ⟨form, hform, hle⟩
      rcases h with ⟨hmem, -⟩ | ⟨rfl, hlt⟩
      · exact hoffered n hmem
      -- nothing on offer is as short as the other text, so that one is of the kind
      · rcases hmatched form hform with hlong | ⟨f, hf | ⟨rfl, hf⟩, hfle⟩
        · omega
        · have := hlt f hf
          omega
        · exact hf

theorem normalize_chosen (w : String) (h : t.expand spec importer = some target) :
    Chosen (t.aliasForms target w) (t.relative target w) (t.normalize spec importer w) := by
  simp only [normalize, h]
  split
  · next form hform =>
    split
    · next hle => exact Or.inl ⟨Order.mem_of_leastBy hform, hle, fun f hf => Order.leastBy_le hform hf⟩
    · next hlt =>
      refine Or.inr ⟨rfl, fun f hf => ?_⟩
      have := Order.leastBy_le hform hf
      omega
  · next hnone =>
    refine Or.inr ⟨rfl, fun f hf => ?_⟩
    rw [Order.nil_of_leastBy hnone] at hf
    cases hf

/-- What a specifier of a path in the project is made into denotes that path and is no longer
than the relative specifier. It is shortest among all alias forms, and an alias form where
one is not longer than the relative specifier, exactly if for each such form one on offer,
or the relative specifier being one itself, is as short. A form is on offer unless its
alias's folder is the path or is not written as its names. -/
theorem normalize_shortest (h : t.expand spec importer = some target)
    (ha : Path.isAbsolute target = false) (hw : Inner writer) :
    let n := t.normalize spec importer writer
    let plain := t.relative target writer
    let offered := t.aliasForms target writer
    (t.expand n writer = some target ∧ t.isInternal n = true ∧ n.length ≤ plain.length) ∧
    (((∀ form, t.IsForm target writer form → n.length ≤ form.length) ∧
        ((∃ form, t.IsForm target writer form ∧ form.length ≤ plain.length) →
          t.IsForm target writer n)) ↔
      ∀ form, t.IsForm target writer form → plain.length < form.length ∨
        ∃ f, (f ∈ offered ∨ (f = plain ∧ t.IsForm target writer f)) ∧ f.length ≤ form.length) ∧
    (∀ form ∈ offered, t.IsForm target writer form) ∧
    ∀ e ∈ t.folders, ∀ form, t.FormOf e target writer form → Tidy e.2 →
      namesOf e.2 ≠ namesOf target → form ∈ offered := by
  intro n plain offered
  obtain ⟨x, rfl, he⟩ := t.expand_normal h
  obtain ⟨ht, hn⟩ := Path.normal_inner ha he
  have hread : t.expand n writer = some (Path.normal x) := t.expand_normalize h ha hw
  have hchosen : Chosen offered plain n := t.normalize_chosen writer h
  have hoffered : ∀ form ∈ offered, t.IsForm (Path.normal x) writer form :=
    fun form hform => t.isForm_of_offered ht hn hform
  exact ⟨⟨hread, t.isInternal_of_expand hread, hchosen.le_other⟩, hchosen.least_iff hoffered, hoffered,
    fun e he form hform hd hne => t.offered_of_form hn he hform hd hne⟩

theorem icon_shortest :
    let t : AliasTable := ⟨standard, []⟩
    let n := t.normalize "./Icon" "components/Button.jsx" "src/components/Button.tsx"
    t.expand n "src/components/Button.tsx" = some "components/Icon" ∧
      n.length ≤ (t.relative "components/Icon" "src/components/Button.tsx").length := by
  have h : AliasTable.expand ⟨standard, []⟩ "./Icon" "components/Button.jsx" = some "components/Icon" := by
    decide +kernel
  obtain ⟨⟨hread, -, hle⟩, -⟩ := normalize_shortest ⟨standard, []⟩ h rfl
    (show Inner "src/components/Button.tsx" by decide +kernel)
  exact ⟨hread, hle⟩

def single : AliasTable := ⟨[("@/", "src/")], []⟩

theorem single_folders : single.folders = [("@/", "src")] := by decide +kernel

theorem single_expand :
    single.expand "@/" "components/a/b.jsx" = some "src" ∧ single.expand "@/" "components/a/b.tsx" = some "src" := by
  simp only [expand, unalias, byAlias_single _ single_folders]
  decide +kernel

/-- An alias is passed over for its own folder. -/
theorem single_passed :
    single.expand "@/" "components/a/b.jsx" = some "src" ∧ Inner "components/a/b.jsx" ∧
      Inner "components/a/b.tsx" ∧ single.IsForm "src" "components/a/b.tsx" "@/" ∧
      "@/".length < (single.normalize "@/" "components/a/b.jsx" "components/a/b.tsx").length ∧
      "@/".length ≤ (single.relative "src" "components/a/b.tsx").length ∧
      ¬ single.IsForm "src" "components/a/b.tsx"
        (single.normalize "@/" "components/a/b.jsx" "components/a/b.tsx") := by
  have hnone : single.aliasForms "src" "components/a/b.tsx" = [] := by
    have hfolder : single.byFolder = [("@/", "src")] := by
      rw [byFolder, single_folders]
      exact List.mergeSort_singleton _
    simp only [aliasForms, hfolder]
    rfl
  have hplain : single.relative "src" "components/a/b.tsx" = "../../src" := by decide +kernel
  have hn : single.normalize "@/" "components/a/b.jsx" "components/a/b.tsx" = "../../src" := by
    simp only [normalize, single_expand.1, hnone, Order.leastBy, hplain]
  rw [hn, hplain]
  refine ⟨single_expand.1, by decide, by decide, ?_, by decide, by decide, ?_⟩
  · exact ⟨("@/", "src"), by simp [single_folders], ⟨"", by decide, rfl⟩, single_expand.2⟩
  · rintro ⟨e, he, ⟨rest, -, hform⟩, -⟩
    rw [single_folders, List.mem_singleton] at he
    have hhead := congrArg (fun s => s.toList.head?) hform
    simp [he] at hhead

end

end AliasTable

end Retype

import Retype.AliasTable
import Retype.Proofs.Order
import Retype.Proofs.Path.Normal

/-!
# What a normalised specifier denotes

The relative specifier of a path and each alias form on offer expand to that path
in the file that is written. So a specifier that is made normal for another file
denotes there what it denoted where it was read.
-/

set_option autoImplicit false

namespace Retype

namespace Path

theorem namesOf_ofNames {ns : List (List Char)} (hn : ∀ s ∈ ns, Names s) (hs : ∀ s ∈ ns, '/' ∉ s) :
    namesOf (String.ofList (ofNames ns)) = ns := by
  rw [namesOf_eq, String.toList_ofList, climbFrom_ofNames hs, climbFrom_names hn, List.append_nil,
    List.reverse_reverse]

theorem Inner.namesOf_normal {p : String} (h : Inner p) : namesOf (normal p) = namesOf p := by
  rw [normal_relative h.1]
  exact namesOf_ofNames h.names fun s hs => (mem_namesOf hs).2

theorem normal_inner {p : String} (ha : isAbsolute (normal p) = false)
    (he : escapes (normal p) = false) :
    Inner (normal p) ∧ normal p = String.ofList (ofNames (namesOf (normal p))) := by
  have hp := inner_of_escapes (isAbsolute_of_normal ha) he
  rw [Inner, hp.namesOf_normal]
  exact ⟨⟨ha, hp.2⟩, normal_relative hp.1⟩

end Path

namespace AliasTable

open Retype.Path (Inner namesOf ofNames climbFrom segmentsOf dots)

variable (t : AliasTable)

theorem expand_normal {spec importer p : String} (h : t.expand spec importer = some p) :
    ∃ x, p = Path.normal x ∧ Path.escapes p = false := by
  obtain ⟨hx, he⟩ := Option.filter_eq_some_iff.mp h
  obtain ⟨x, -, rfl⟩ := Option.map_eq_some_iff.mp hx
  exact ⟨x, rfl, by simpa using he⟩

theorem isRelative_of_escapes {p : String} (h : Path.escapes p = true) : isRelative p = true := by
  rw [Path.escapes, Bool.or_eq_true, decide_eq_true_eq] at h
  rcases h with rfl | h
  · rfl
  · cases hl : p.toList with
    | nil => simp [Affix.begins, Affix.afterOf, hl] at h
    | cons c cs =>
      rw [isRelative, hl]
      by_cases hc : '.' = c
      · rw [← hc]
        rfl
      · simp [Affix.begins, Affix.afterOf, hl, hc] at h

/-- A relative specifier begins with a dot and leads along the way it was made of. -/
theorem relative_reads {target writer : String} {way : List Char}
    (hway : Path.relative t.base target
      (if (Path.folder writer).isEmpty then "." else Path.folder writer) = String.ofList way) :
    isRelative (t.relative target writer) = true ∧ ∀ done,
      climbFrom false done (segmentsOf (t.relative target writer).toList) =
        climbFrom false done (segmentsOf way) := by
  unfold relative
  dsimp only
  rw [hway]
  split
  · next he => exact ⟨isRelative_of_escapes he, fun done => by rw [String.toList_ofList]⟩
  · have hl : ("./" ++ String.ofList way).toList = '.' :: '/' :: way := by simp
    refine ⟨?_, fun done => ?_⟩
    · rw [isRelative, hl]
      rfl
    · have hs := Path.segmentsOf_append_slash ['.'] way
      rw [List.singleton_append] at hs
      rw [hl, hs, Path.climbFrom_append]
      rfl

theorem isAbsolute_of_isRelative {p : String} (h : isRelative p = true) :
    Path.isAbsolute p = false := by
  rw [isRelative, decide_eq_true_eq] at h
  rw [Path.isAbsolute, h]
  rfl

theorem isAbsolute_join {a b : String} (ha : Path.isAbsolute a = false) (hb : Path.isAbsolute b = false) :
    Path.isAbsolute (Path.join a b) = false := by
  rw [Path.join, if_neg (by simp [hb])]
  rw [Path.isAbsolute] at *
  cases hl : a.toList with
  | nil =>
    have hempty : a = "" := String.toList_eq_nil_iff.mp hl
    subst hempty
    simpa using hb
  | cons c cs =>
    rw [hl] at ha
    split <;> simpa [hl] using ha

/-- The relative specifier of a path expands to it in the file that is written. -/
theorem expand_relative {target writer : String} (ht : Inner target)
    (hn : target = String.ofList (ofNames (namesOf target))) (he : Path.escapes target = false)
    (hf : Inner (Path.folder writer)) : t.expand (t.relative target writer) writer = some target := by
  let start := if (Path.folder writer).isEmpty then "." else Path.folder writer
  have hstart : Inner start ∧ namesOf start = namesOf (Path.folder writer) := by
    unfold start
    split
    · next h =>
      rw [String.isEmpty_iff.mp h]
      decide
    · exact ⟨hf, rfl⟩
  obtain ⟨common, up, down, h1, h2, hway⟩ :=
    Path.relativeOf_inner (t.base.map String.toList) ht hstart.1
  have hrelative : Path.relative t.base target start =
      String.ofList (ofNames (up.map (fun _ => dots) ++ down)) := congrArg String.ofList hway
  obtain ⟨hrel, hreads⟩ := t.relative_reads hrelative
  have hplain := isAbsolute_of_isRelative hrel
  have hslash : ∀ s ∈ up.map (fun _ => dots) ++ down, '/' ∉ s := by
    intro s hs
    rcases List.mem_append.mp hs with hs | hs
    · obtain ⟨-, -, rfl⟩ := List.mem_map.mp hs
      decide
    · have : s ∈ namesOf target := h1 ▸ List.mem_append_right common hs
      exact (Path.mem_namesOf this).2
  have hjoin : namesOf (Path.join (Path.folder writer) (t.relative target writer)) = namesOf target := by
    rw [Path.namesOf_eq, Path.climbFrom_join hplain, hreads, Path.climbFrom_ofNames hslash,
      ← List.reverse_reverse (climbFrom false [] (segmentsOf (Path.folder writer).toList)),
      ← Path.namesOf_eq, ← hstart.2, Path.climbFrom_way ht hstart.1 h1 h2, List.reverse_reverse]
  have hnormal : Path.normal (Path.join (Path.folder writer) (t.relative target writer)) = target := by
    rw [Path.normal_relative (isAbsolute_join hf.1 hplain), hjoin, ← hn]
  rw [expand]
  simp only [hrel, if_true, Option.map_some, hnormal]
  simp [he]

theorem expand_aliasForm {target writer form : String} (h : form ∈ t.aliasForms target writer) :
    t.expand form writer = some target := by
  obtain ⟨e, -, hf⟩ := List.mem_filterMap.mp h
  have hf := (Option.filter_eq_some_iff.mp hf).2
  simpa using hf

/-- A specifier that is made normal for a file denotes there what it denoted where it
was read. -/
theorem expand_normalize {spec importer writer p : String} (h : t.expand spec importer = some p)
    (ha : Path.isAbsolute p = false) (hw : Inner writer) :
    t.expand (t.normalize spec importer writer) writer = some p := by
  obtain ⟨x, rfl, he⟩ := t.expand_normal h
  obtain ⟨hp, hn⟩ := Path.normal_inner ha he
  have hplain := t.expand_relative hp hn he hw.folder
  rw [normalize, h]
  dsimp only
  split
  · next form hform =>
    split
    · exact t.expand_aliasForm (Order.mem_of_leastBy hform)
    · exact hplain
  · exact hplain

end AliasTable

end Retype

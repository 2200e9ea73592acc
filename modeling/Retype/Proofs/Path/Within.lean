import Retype.Proofs.Path.Shortest

/-!
# Staying within the project

A relative specifier leads on from the folder of its file, one that begins with a slash from
the top of the project, and any other from the folder of the longest alias that it begins
with. What it expands to is a normal path of the project, with one exception: if what follows
the alias begins with a slash, it takes the place of the alias's folder, and the path that is
reached is absolute.
-/

set_option autoImplicit false

namespace Retype

namespace Path

/-- A normal path that is relative and does not lead out of the directory it is read from. -/
structure Local (p : String) : Prop where
  relative : isAbsolute p = false
  normal : Path.normal p = p
  inside : escapes p = false

instance (p : String) : Decidable (Local p) :=
  decidable_of_iff (isAbsolute p = false ∧ Path.normal p = p ∧ escapes p = false)
    ⟨fun ⟨h1, h2, h3⟩ => ⟨h1, h2, h3⟩, fun ⟨h1, h2, h3⟩ => ⟨h1, h2, h3⟩⟩

variable {p : String}

theorem dots_mem_namesOf (h : escapes p = true) : dots ∈ namesOf p := by
  rw [escapes, Bool.or_eq_true, decide_eq_true_eq] at h
  rcases h with rfl | h
  · decide
  · obtain ⟨rest, hrest⟩ := Option.isSome_iff_exists.mp h
    have hp : p.toList = "../".toList ++ rest := Affix.afterOf_eq_some.mp hrest
    rw [show "../".toList ++ rest = dots ++ '/' :: rest from rfl] at hp
    rw [namesOf_eq, hp, segmentsOf_append_slash, climbFrom_append, List.mem_reverse]
    exact dots_mem_climbFrom _ (by decide)

theorem Inner.normal_inside (h : Inner p) : escapes (Path.normal p) = false := by
  by_contra he
  have hd := dots_mem_namesOf (by simpa using he)
  rw [h.namesOf_normal] at hd
  exact h.2 hd

theorem Local.inner (h : Local p) : Inner p :=
  inner_of_escapes h.relative (by rw [h.normal]; exact h.inside)

theorem normal_local (ha : isAbsolute (Path.normal p) = false) (he : escapes (Path.normal p) = false) :
    Local (Path.normal p) := by
  obtain ⟨-, hn⟩ := normal_inner ha he
  exact ⟨ha, (normal_relative ha).trans hn.symm, he⟩

/-- The normal paths of a project are its top, and what is written as the names it leads through. -/
theorem local_iff : Local p ↔ p = "." ∨ ∀ s ∈ segmentsOf p.toList, Names s := by
  constructor
  · intro h
    refine (segments_of_written (h.normal.symm.trans (normal_relative h.relative))).imp_right fun hnames => ?_
    rw [← hnames]
    exact h.inner.names
  · rintro (rfl | h)
    · decide +kernel
    · have hnames := namesOf_segments h
      have ha : isAbsolute p = false := by
        by_contra habs
        have hhead : p.toList.head? = some '/' := by simpa [isAbsolute] using habs
        obtain ⟨cs, hcs⟩ := List.head?_eq_some_iff.mp hhead
        rw [hcs, segmentsOf_slash] at h
        exact (h [] List.mem_cons_self).1 rfl
      refine ⟨ha, ?_, ?_⟩
      · rw [normal_relative ha, ← ofNames_segments hnames]
      · by_contra he
        have hd := dots_mem_namesOf (by simpa using he)
        rw [hnames] at hd
        exact (h dots hd).2.2 rfl

theorem isAbsolute_normal (p : String) : isAbsolute (Path.normal p) = isAbsolute p := by
  cases ha : isAbsolute p with
  | false =>
    rw [normal_relative ha, isAbsolute, String.toList_ofList, ofNames]
    split
    · rfl
    · have hhead : (joinSegments (namesOf p)).head? ≠ some '/' := by
        refine joinSegments_head fun s hs => ⟨?_, (mem_namesOf hs).2⟩
        rcases (mem_namesOf hs).1 with hn | rfl
        · exact hn.1
        · decide
      simpa using hhead
  | true =>
    cases hn : isAbsolute (Path.normal p) with
    | false => rw [isAbsolute_of_normal hn] at ha; cases ha
    | true => rfl

theorem escapes_of_isAbsolute (ha : isAbsolute p = true) : escapes p = false := by
  cases he : escapes p with
  | false => rfl
  | true =>
    have hrelative := AliasTable.isAbsolute_of_isRelative (AliasTable.isRelative_of_escapes he)
    rw [hrelative] at ha
    cases ha

theorem join_of_isAbsolute {a b : String} (hb : isAbsolute b = true) : join a b = b := if_pos hb

theorem isAbsolute_append {a : String} (ha : isAbsolute a = true) (b : String) : isAbsolute (a ++ b) = true := by
  rw [isAbsolute, decide_eq_true_eq] at *
  obtain ⟨cs, hcs⟩ := List.head?_eq_some_iff.mp ha
  rw [String.toList_append, hcs]
  rfl

theorem isAbsolute_join_left {a : String} (ha : isAbsolute a = true) (b : String) :
    isAbsolute (join a b) = true := by
  unfold join
  split
  · assumption
  · split
    · exact isAbsolute_append ha b
    · rw [String.append_assoc]
      exact isAbsolute_append ha _

end Path

namespace AliasTable

open Retype.Path (Inner Local)

variable (t : AliasTable) {e e' : String × String} {spec importer rest rest' x : String}

/-! ## The alias that is read -/

/-- An alias that a specifier begins with, longest of all that it begins with, and what
follows it. -/
structure LedBy (spec : String) (e : String × String) (rest : String) : Prop where
  known : e ∈ t.folders
  parts : spec = e.1 ++ rest
  longest : ∀ e' ∈ t.folders, Affix.begins e'.1 spec = true → e'.1.length ≤ e.1.length

variable {t}

theorem LedBy.rest_unique (h : t.LedBy spec e rest) (h' : t.LedBy spec e' rest') : rest = rest' := by
  have hbegins := Affix.begins_of_after? (Affix.after?_eq_some.mpr h.parts)
  have hbegins' := Affix.begins_of_after? (Affix.after?_eq_some.mpr h'.parts)
  have hlen : e.1.toList.length = e'.1.toList.length :=
    Nat.le_antisymm (h'.longest e h.known hbegins) (h.longest e' h'.known hbegins')
  have hparts : e.1.toList ++ rest.toList = e'.1.toList ++ rest'.toList := by
    rw [← String.toList_append, ← String.toList_append, ← h.parts, ← h'.parts]
  exact String.toList_injective (List.append_inj_right hparts hlen)

/-- What is read of an alias form is the longest alias that it begins with. -/
theorem unalias_led (h : t.unalias spec = some x) : ∃ e rest, t.LedBy spec e rest ∧ x = Path.join e.2 rest := by
  obtain ⟨before, e, after, hsplit, hread, hbefore⟩ := List.findSome?_eq_some_iff.mp h
  obtain ⟨rest, hrest, hx⟩ := Option.map_eq_some_iff.mp hread
  have hknown : e ∈ t.byAlias := by
    rw [hsplit]
    exact List.mem_append_right before List.mem_cons_self
  refine ⟨e, rest, ⟨t.mem_byAlias.mp hknown, Affix.after?_eq_some.mp hrest, fun e' he' hbegins => ?_⟩, hx.symm⟩
  have hsorted := Order.byDescending_sorted (fun e : String × String => e.1.length) t.folders
  have hmem := t.mem_byAlias.mpr he'
  rw [hsplit, List.mem_append, List.mem_cons] at hmem
  rcases hmem with hmem | rfl | hmem
  · have hnone := hbefore e' hmem
    simp only [Option.map_eq_none_iff] at hnone
    rw [Affix.begins, ← Option.isSome_map, ← Affix.after?, hnone] at hbegins
    cases hbegins
  · exact Nat.le_refl _
  · rw [show Order.byDescending _ t.folders = _ from hsplit] at hsorted
    exact (List.pairwise_cons.mp (List.pairwise_append.mp hsorted).2.1).1 e' hmem

theorem LedBy.unalias (h : t.LedBy spec e rest) : ∃ dir, t.unalias spec = some (Path.join dir rest) := by
  have hsome : (t.unalias spec).isSome = true := by
    refine List.findSome?_isSome_iff.mpr ⟨e, t.mem_byAlias.mpr h.known, ?_⟩
    rw [Option.isSome_map, Affix.after?_eq_some.mpr h.parts]
    rfl
  obtain ⟨x, hx⟩ := Option.isSome_iff_exists.mp hsome
  obtain ⟨e', rest', hled, rfl⟩ := unalias_led hx
  rw [h.rest_unique hled]
  exact ⟨e'.2, hx⟩

theorem folders_relative (h : e ∈ t.folders) : Path.isAbsolute e.2 = false := by
  obtain ⟨entry, -, rfl⟩ := List.mem_map.mp h
  have hparts := Path.reverse_parts (· = '/') (entry.2.toList.dropWhile (· = '/'))
  have hhead := List.head?_dropWhile_not (· = '/') entry.2.toList
  rw [← hparts] at hhead
  simp only [Path.isAbsolute, String.toList_ofList, Blank.trimBy, Blank.dropEnd]
  cases hl : ((entry.2.toList.dropWhile (· = '/')).reverse.dropWhile (· = '/')).reverse with
  | nil => rfl
  | cons c cs => simpa [hl] using hhead

/-! ## What is reached -/

variable (t)

/-- Where a specifier leads in a file, before the path is made normal. -/
inductive Leads (spec importer : String) : String → Prop
  | relative (h : isRelative spec = true) : Leads spec importer (Path.join (Path.folder importer) spec)
  | rooted (hrelative : isRelative spec = false) (h : isRooted spec = true) :
      Leads spec importer (String.ofList (spec.toList.dropWhile (· = '/')))
  | aliased (hrelative : isRelative spec = false) (hrooted : isRooted spec = false)
      {e : String × String} {rest : String} (h : t.LedBy spec e rest) :
      Leads spec importer (Path.join e.2 rest)

/-- The specifier is read by an alias, and what follows the alias begins with a slash. -/
def Uproots (spec : String) : Prop :=
  isRelative spec = false ∧ isRooted spec = false ∧
    ∃ e rest, t.LedBy spec e rest ∧ Path.isAbsolute rest = true

theorem leads_of_expand {p : String} (h : t.expand spec importer = some p) :
    ∃ x, t.Leads spec importer x ∧ p = Path.normal x := by
  obtain ⟨hnormal, -⟩ := Option.filter_eq_some_iff.mp h
  obtain ⟨x, hx, hp⟩ := Option.map_eq_some_iff.mp hnormal
  refine ⟨x, ?_, hp.symm⟩
  split at hx
  · next hrelative =>
    cases hx
    exact .relative hrelative
  · next hrelative =>
    rw [Bool.not_eq_true] at hrelative
    split at hx
    · next hrooted =>
      cases hx
      exact .rooted hrelative hrooted
    · next hrooted =>
      rw [Bool.not_eq_true] at hrooted
      obtain ⟨e, rest, hled, rfl⟩ := unalias_led hx
      exact .aliased hrelative hrooted hled

/-- A relative specifier denotes nothing exactly if it leads out of the project. -/
theorem expand_none_iff (h : isRelative spec = true) (hf : Path.isAbsolute (Path.folder importer) = false) :
    t.expand spec importer = none ↔ ¬ Inner (Path.join (Path.folder importer) spec) := by
  have ha := isAbsolute_join hf (isAbsolute_of_isRelative h)
  simp only [expand, h, if_true, Option.map_some, Option.filter_some]
  constructor
  · intro hnone hinner
    simp [hinner.normal_inside] at hnone
  · intro hout
    have he : Path.escapes (Path.normal (Path.join (Path.folder importer) spec)) = true := by
      by_contra he
      exact hout (Path.inner_of_escapes ha (by simpa using he))
    simp [he]

/-- From a folder outside of the project a relative specifier leads to no path in it. -/
theorem expand_outside {p : String} (hspec : isRelative spec = true) (hf : ¬ Inner (Path.folder importer))
    (h : t.expand spec importer = some p) : Path.isAbsolute p = true := by
  cases ha : Path.isAbsolute (Path.folder importer) with
  | true =>
    obtain ⟨x, hleads, rfl⟩ := t.leads_of_expand h
    rw [Path.isAbsolute_normal]
    cases hleads with
    | relative => exact Path.isAbsolute_join_left ha spec
    | rooted hrelative => simp [hspec] at hrelative
    | aliased hrelative => simp [hspec] at hrelative
  | false =>
    have hd : Path.dots ∈ Path.namesOf (Path.folder importer) := by
      by_contra hd
      exact hf ⟨ha, hd⟩
    have hnone : t.expand spec importer = none := by
      refine (t.expand_none_iff hspec ha).mpr fun hin => hin.2 ?_
      rw [Path.namesOf_eq, List.mem_reverse] at hd ⊢
      rw [Path.climbFrom_join (isAbsolute_of_isRelative hspec)]
      exact Path.dots_mem_climbFrom _ hd
    rw [h] at hnone
    cases hnone

variable {t}

theorem Leads.uproots (h : t.Leads spec importer x) (hi : Inner importer) (ha : Path.isAbsolute x = true) :
    t.Uproots spec := by
  cases h with
  | relative h =>
    rw [isAbsolute_join hi.folder.1 (isAbsolute_of_isRelative h)] at ha
    cases ha
  | rooted =>
    have hhead := List.head?_dropWhile_not (· = '/') spec.toList
    rw [Path.isAbsolute, String.toList_ofList, decide_eq_true_eq] at ha
    rw [ha] at hhead
    cases hhead
  | @aliased hrelative hrooted e rest hled =>
    refine ⟨hrelative, hrooted, e, rest, hled, ?_⟩
    by_contra hrest
    rw [isAbsolute_join (folders_relative hled.known) (by simpa using hrest)] at ha
    cases ha

theorem Uproots.expand (h : t.Uproots spec) (importer : String) :
    ∃ p, t.expand spec importer = some p ∧ Path.isAbsolute p = true := by
  obtain ⟨hrelative, hrooted, e, rest, hled, hrest⟩ := h
  obtain ⟨dir, hx⟩ := hled.unalias
  rw [Path.join_of_isAbsolute hrest] at hx
  have ha : Path.isAbsolute (Path.normal rest) = true := by rw [Path.isAbsolute_normal, hrest]
  refine ⟨Path.normal rest, ?_, ha⟩
  simp [AliasTable.expand, hrelative, hrooted, hx, Path.escapes_of_isAbsolute ha]

theorem local_of_expand {p : String} (hi : Inner importer) (h : t.expand spec importer = some p)
    (hu : ¬ t.Uproots spec) : Local p := by
  obtain ⟨x, hleads, rfl⟩ := t.leads_of_expand h
  obtain ⟨-, -, he⟩ := t.expand_normal h
  refine Path.normal_local ?_ he
  by_contra ha
  rw [Path.isAbsolute_normal, Bool.not_eq_false] at ha
  exact hu (hleads.uproots hi ha)

variable (t)

/-- What a specifier expands to is a normal path that stays within the project, exactly unless
its alias is followed by a slash. -/
theorem expand_within (hi : Inner importer) :
    (∀ p, t.expand spec importer = some p → Local p) ↔ ¬ t.Uproots spec := by
  constructor
  · intro hlocal hu
    obtain ⟨p, h, ha⟩ := hu.expand importer
    rw [(hlocal p h).relative] at ha
    cases ha
  · exact fun hu p h => local_of_expand hi h hu

def bare : AliasTable := ⟨[("@", "src/")], []⟩

theorem bare_unalias (spec : String) : bare.unalias spec = (Affix.after? "@" spec).map (Path.join "src") := by
  have hfolders : bare.folders = [("@", "src")] := by decide +kernel
  rw [unalias, bare.byAlias_single hfolders, List.findSome?_singleton]

theorem bare_within : bare.expand "@lib/api" "components/A.jsx" = some "src/lib/api" ∧
    Inner "components/A.jsx" ∧ Local "src/lib/api" := by
  have h : bare.expand "@lib/api" "components/A.jsx" = some "src/lib/api" := by
    rw [expand, bare_unalias]
    decide +kernel
  have hi : Inner "components/A.jsx" := by decide +kernel
  have hu : ¬ bare.Uproots "@lib/api" := by
    intro hu
    obtain ⟨p, hp, ha⟩ := hu.expand "components/A.jsx"
    rw [h, Option.some_inj] at hp
    rw [← hp] at ha
    exact absurd ha (by decide)
  exact ⟨h, hi, (bare.expand_within hi).mpr hu _ h⟩

/-- What follows the alias takes the place of its folder. -/
theorem bare_uprooted : Local "components/A.jsx" ∧
    bare.expand "@/lib/api" "components/A.jsx" = some "/lib/api" ∧ ¬ Local "/lib/api" := by
  refine ⟨by decide +kernel, ?_, fun h => absurd h.relative (by decide)⟩
  rw [expand, bare_unalias]
  decide +kernel

end AliasTable

end Retype

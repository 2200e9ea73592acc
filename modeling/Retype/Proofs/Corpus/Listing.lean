import Mathlib.Data.List.Basic
import Mathlib.Data.List.Nodup
import Mathlib.Data.List.Perm.Basic
import Retype.Corpus.Report
import Retype.Proofs.Keyed
import Retype.Proofs.Text.Affix

/-!
# The tables of the report

A report can be read line by line. The rows of its tables, each taken with the headings above it,
are those of the profiles, one for each, under the category and the tier that it has. Names do not
matter for that, and may be shared.
-/

set_option autoImplicit false

namespace Retype

/-- Elements sorted by a property are all there, if the property has one of the given values. -/
theorem fibers_perm {α κ : Type} [DecidableEq κ] (f : α → κ) {ks : List κ} (hk : ks.Nodup) {xs : List α}
    (h : ∀ x ∈ xs, f x ∈ ks) : (ks.flatMap fun k => xs.filter fun x => f x = k).Perm xs := by
  induction ks generalizing xs with
  | nil =>
    cases xs with
    | nil => exact .nil
    | cons x xs => exact absurd (h x List.mem_cons_self) List.not_mem_nil
  | cons k ks ih =>
    obtain ⟨hnot, hk⟩ := List.nodup_cons.mp hk
    -- the other values sort what is left once the elements of the first one are taken out
    have hothers : (ks.flatMap fun k' => xs.filter fun x => f x = k') =
        ks.flatMap fun k' => (xs.filter fun x => !decide (f x = k)).filter fun x => f x = k' := by
      refine List.flatMap_congr fun k' hk' => ?_
      rw [List.filter_filter]
      refine List.filter_congr fun x _ => ?_
      by_cases hx : f x = k'
      · have hne : f x ≠ k := fun he => hnot (he ▸ hx ▸ hk')
        simp [hx, hx ▸ hne]
      · simp [hx]
    rw [List.flatMap_cons, hothers]
    refine (List.Perm.append_left _ (ih hk fun x hx => ?_)).trans (List.filter_append_perm _ xs)
    obtain ⟨hx, hne⟩ := List.mem_filter.mp hx
    exact (List.mem_cons.mp (h x hx)).resolve_left (by simpa using hne)

def Tier.heading (t : Tier) : String := "### " ++ t.label ++ " Complexity"

def Category.heading (c : Category) : String := "## " ++ c.title ++ " Components"

namespace Report

variable {ps : List Profile} {cycles : List (List String)} {p : Profile} {line : String}

/-! ## Reading tables -/

def tableHead : String := "| Component | Dependencies | Used By | Migration Priority |"

def isRow (line : String) : Bool := Affix.begins "| " line && line != tableHead

/-- The rows of all tables, each with the headings of the chapter and of the table that it is in. -/
def rowsUnder : String → String → List String → List (String × String × String)
  | _, _, [] => []
  | chapter, table, line :: rest =>
    if Affix.begins "## " line then rowsUnder line "" rest
    else if Affix.begins "### " line then rowsUnder chapter line rest
    else if isRow line then (chapter, table, line) :: rowsUnder chapter table rest
    else rowsUnder chapter table rest

/-- Whatever headings lines without a row leave, there is no row in them. -/
theorem rowsUnder_rowless {ls : List String} (h : ∀ line ∈ ls, isRow line = false) (chapter table : String)
    (rest : List String) :
    ∃ chapter' table', rowsUnder chapter table (ls ++ rest) = rowsUnder chapter' table' rest := by
  induction ls generalizing chapter table with
  | nil => exact ⟨_, _, rfl⟩
  | cons line ls ih =>
    have ih := fun chapter table => ih (fun l hl => h l (List.mem_cons_of_mem line hl)) chapter table
    rw [List.cons_append, rowsUnder, h line List.mem_cons_self]
    split
    · exact ih line ""
    · split
      · exact ih chapter line
      · exact ih chapter table

theorem isRow_head (h : isRow line = true) : line.toList.head? = some '|' := by
  obtain ⟨hbegins, -⟩ := Bool.and_eq_true_iff.mp h
  obtain ⟨rest, hrest⟩ := Option.isSome_iff_exists.mp hbegins
  rw [Affix.afterOf_eq_some.mp hrest]
  rfl

theorem priority_last (o : Option Priority) :
    ∃ cs c, ((o.map (·.text)).getD "-").toList = cs ++ [c] ∧ c ≠ 'y' := by
  rcases o with - | p
  · exact ⟨[], '-', rfl, by decide⟩
  cases p with
  | migrated => exact ⟨"migrate".toList, 'd', rfl, by decide⟩
  | highest => exact ⟨"highes".toList, 't', rfl, by decide⟩
  | high => exact ⟨"hig".toList, 'h', rfl, by decide⟩
  | medium => exact ⟨"mediu".toList, 'm', rfl, by decide⟩
  | low => exact ⟨"lo".toList, 'w', rfl, by decide⟩

/-- A row is not taken for the head of a table, even if the names in it are those of the columns. -/
theorem row_ne_head (names : List (String × String)) (p : Profile) : row names p ≠ tableHead := by
  intro he
  obtain ⟨cs, c, hcs, hc⟩ := priority_last p.priority
  -- a name can hold bars and blanks, so the two lines are compared from their ends
  have hhead : tableHead.toList =
      "| Component | Dependencies | Used By | Migration Priorit".toList ++ ['y', ' ', '|'] := rfl
  have hrow : (row names p).toList = ("| " ++ p.name ++ " | " ++ listed names p.dependencies ++ " | " ++
      listed names p.dependents ++ " | ").toList ++ cs ++ [c, ' ', '|'] := by
    simp [row, hcs]
  have hends := (List.append_inj' (hrow.symm.trans ((congrArg String.toList he).trans hhead)) rfl).2
  exact hc (List.cons.inj hends).1

theorem isRow_row (names : List (String × String)) (p : Profile) : isRow (row names p) = true := by
  refine Bool.and_eq_true_iff.mpr ⟨?_, by simpa using row_ne_head names p⟩
  have hrow : row names p = "| " ++ (p.name ++ " | " ++ listed names p.dependencies ++ " | " ++
      listed names p.dependents ++ " | " ++ (p.priority.map (·.text)).getD "-" ++ " |") := by
    simp [row, String.append_assoc]
  exact Affix.begins_of_after? (Affix.after?_eq_some.mpr hrow)

theorem begins_hash {lead : List Char} (h : line.toList.head? = some '|') :
    (Affix.afterOf ('#' :: lead) line.toList).isSome = false := by
  obtain ⟨cs, hcs⟩ := List.head?_eq_some_iff.mp h
  rw [hcs]
  rfl

theorem rowsUnder_rows (names : List (String × String)) (ps : List Profile) (chapter table : String)
    (rest : List String) :
    rowsUnder chapter table (ps.map (row names) ++ rest) =
      ps.map (fun p => (chapter, table, row names p)) ++ rowsUnder chapter table rest := by
  induction ps with
  | nil => rfl
  | cons p ps ih =>
    have hrow := isRow_row names p
    have hhead := isRow_head hrow
    have hchapter : Affix.begins "## " (row names p) = false := begins_hash hhead
    have htable : Affix.begins "### " (row names p) = false := begins_hash hhead
    rw [List.map_cons, List.cons_append, rowsUnder, hchapter, htable, hrow, ih]
    rfl

/-! ## The tables of a report -/

theorem rowsUnder_tableHeading (t : Tier) (chapter table : String) (rest : List String) :
    rowsUnder chapter table (t.heading :: rest) = rowsUnder chapter t.heading rest := by
  have hchapter : Affix.begins "## " t.heading = false := by cases t <;> rfl
  have htable : Affix.begins "### " t.heading = true := by cases t <;> rfl
  rw [rowsUnder, hchapter, htable]
  rfl

theorem rowsUnder_chapterHeading (c : Category) (chapter table : String) (rest : List String) :
    rowsUnder chapter table (c.heading :: rest) = rowsUnder c.heading "" rest := by
  have hchapter : Affix.begins "## " c.heading = true := by cases c <;> rfl
  rw [rowsUnder, hchapter]
  rfl

def ofTier (ps : List Profile) (t : Tier) : List Profile := (ps.filter fun p => p.tier = t).mergeSort nameBefore

theorem table_eq (names : List (String × String)) (ps : List Profile) (t : Tier) :
    ofTier ps t = [] ∧ table names ps t = [] ∨ table names ps t =
      t.heading :: "" :: tableHead :: "|---|---|---|---|" :: ((ofTier ps t).map (row names) ++ [""]) := by
  rw [table, ofTier]
  cases (ps.filter fun p => p.tier = t).mergeSort nameBefore with
  | nil => exact Or.inl ⟨rfl, rfl⟩
  | cons q qs => exact Or.inr rfl

theorem rowsUnder_table (names : List (String × String)) (ps : List Profile) (t : Tier)
    (chapter₀ table₀ : String) (rest : List String) :
    ∃ table', rowsUnder chapter₀ table₀ (table names ps t ++ rest) =
      (ofTier ps t).map (fun p => (chapter₀, t.heading, row names p)) ++ rowsUnder chapter₀ table' rest := by
  rcases table_eq names ps t with ⟨hnone, he⟩ | he
  · exact ⟨table₀, by rw [he, hnone]; rfl⟩
  · refine ⟨t.heading, ?_⟩
    have hskip : ∀ rest, rowsUnder chapter₀ t.heading ("" :: tableHead :: "|---|---|---|---|" :: rest) =
        rowsUnder chapter₀ t.heading rest := fun _ => rfl
    rw [he, List.cons_append, rowsUnder_tableHeading]
    simp only [List.cons_append, List.append_assoc, List.nil_append]
    rw [hskip, rowsUnder_rows]
    rfl

theorem rowsUnder_tables (names : List (String × String)) (ps : List Profile) (ts : List Tier)
    (chapter₀ table₀ : String) (rest : List String) :
    ∃ table', rowsUnder chapter₀ table₀ (ts.flatMap (table names ps) ++ rest) =
      (ts.flatMap fun t => (ofTier ps t).map fun p => (chapter₀, t.heading, row names p)) ++
        rowsUnder chapter₀ table' rest := by
  induction ts generalizing table₀ with
  | nil => exact ⟨table₀, rfl⟩
  | cons t ts ih =>
    obtain ⟨table₁, hhere⟩ := rowsUnder_table names ps t chapter₀ table₀ (ts.flatMap (table names ps) ++ rest)
    obtain ⟨table', hrest⟩ := ih table₁
    exact ⟨table', by rw [List.flatMap_cons, List.append_assoc, hhere, hrest, List.flatMap_cons, List.append_assoc]⟩

def listing (names : List (String × String)) (p : Profile) : String × String × String :=
  (p.category.heading, p.tier.heading, row names p)

def ofCategory (ps : List Profile) (c : Category) : List Profile :=
  Tier.all.flatMap (ofTier (ps.filter fun p => p.category = c))

theorem ofTier_perm (ps : List Profile) (t : Tier) : (ofTier ps t).Perm (ps.filter fun p => p.tier = t) :=
  List.mergeSort_perm _ _

theorem mem_tiers (t : Tier) : t ∈ Tier.all := by cases t <;> decide

theorem mem_categories (c : Category) : c ∈ Category.all := by cases c <;> decide

theorem ofCategory_perm (ps : List Profile) : (Category.all.flatMap (ofCategory ps)).Perm ps := by
  refine (List.Perm.flatMap_left _ fun c _ => ?_).trans
    (fibers_perm (fun p : Profile => p.category) (by decide) fun p _ => mem_categories p.category)
  exact (List.Perm.flatMap_left _ fun t _ => ofTier_perm _ t).trans
    (fibers_perm (fun p : Profile => p.tier) (by decide) fun p _ => mem_tiers p.tier)

theorem ofTier_member {c : Category} {t : Tier} (h : p ∈ ofTier (ps.filter fun p => p.category = c) t) :
    p.category = c ∧ p.tier = t := by
  obtain ⟨hp, ht⟩ := List.mem_filter.mp ((ofTier_perm _ t).mem_iff.mp h)
  exact ⟨of_decide_eq_true (List.mem_filter.mp hp).2, of_decide_eq_true ht⟩

theorem rowsUnder_chapter (ps : List Profile) (c : Category) (chapter₀ table₀ : String) (rest : List String) :
    ∃ chapter' table', rowsUnder chapter₀ table₀ (chapter ps c ++ rest) =
      (ofCategory ps c).map (listing (names ps)) ++ rowsUnder chapter' table' rest := by
  rw [chapter]
  split
  · next hnone =>
    have hempty : ofCategory ps c = [] := by simp [ofCategory, hnone, ofTier]
    exact ⟨chapter₀, table₀, by rw [hempty]; rfl⟩
  · next members hne =>
    have hskip : ∀ rest, rowsUnder c.heading "" ("" :: rest) = rowsUnder c.heading "" rest := fun _ => rfl
    obtain ⟨table', htables⟩ := rowsUnder_tables (names ps) (ps.filter fun p => p.category = c) Tier.all c.heading
      "" rest
    refine ⟨c.heading, table', ?_⟩
    rw [show "## " ++ c.title ++ " Components" = c.heading from rfl, List.append_assoc, List.cons_append,
      rowsUnder_chapterHeading, List.cons_append, List.nil_append, hskip, htables, ofCategory, List.map_flatMap]
    refine congrArg (· ++ _) (List.flatMap_congr fun t _ => List.map_congr_left fun p hp => ?_)
    obtain ⟨hc, ht⟩ := ofTier_member hp
    rw [listing, hc, ht]

theorem rowsUnder_chapters (ps : List Profile) (cs : List Category) (chapter₀ table₀ : String)
    (rest : List String) :
    ∃ chapter' table', rowsUnder chapter₀ table₀ (cs.flatMap (chapter ps) ++ rest) =
      (cs.flatMap (ofCategory ps)).map (listing (names ps)) ++ rowsUnder chapter' table' rest := by
  induction cs generalizing chapter₀ table₀ with
  | nil => exact ⟨chapter₀, table₀, rfl⟩
  | cons c cs ih =>
    obtain ⟨chapter₁, table₁, hhere⟩ := rowsUnder_chapter ps c chapter₀ table₀ (cs.flatMap (chapter ps) ++ rest)
    obtain ⟨chapter', table', hrest⟩ := ih chapter₁ table₁
    exact ⟨chapter', table', by
      rw [List.flatMap_cons, List.append_assoc, hhere, hrest, List.flatMap_cons, List.map_append, List.append_assoc]⟩

/-! ## What stands around the tables -/

def front (ps : List Profile) : List String :=
  ["# Component Relationships", "", toString ps.length ++ " components analyzed.", ""]

theorem lines_eq (ps : List Profile) (cycles : List (List String)) :
    lines ps cycles = front ps ++ (Category.all.flatMap (chapter ps) ++ (drawing ps ++
      cycleChapter (names ps) cycles)) := by
  rw [lines, List.append_assoc, List.append_assoc]
  rfl

theorem isDigit_of_mem {n : Nat} {d : Char} (h : d ∈ (toString n).toList) : d.isDigit = true := by
  rw [Nat.toString_eq_ofList_toDigits, String.toList_ofList] at h
  exact Nat.isDigit_of_mem_toDigits (by decide) (by decide) h

theorem front_head (h : line ∈ front ps) :
    line.toList.head? ≠ some '|' ∧ line.toList.head? ≠ some ' ' := by
  simp only [front, List.mem_cons, List.not_mem_nil, or_false] at h
  rcases h with rfl | rfl | rfl | rfl
  · decide
  · decide
  · have hne : (toString ps.length).toList ≠ [] := by
      rw [Nat.toString_eq_ofList_toDigits, String.toList_ofList]
      exact Nat.toDigits_ne_nil
    obtain ⟨d, ds, hds⟩ := List.exists_cons_of_ne_nil hne
    have hdigit : d.isDigit = true := isDigit_of_mem (hds ▸ List.mem_cons_self)
    have hhead : (toString ps.length ++ " components analyzed.").toList.head? = some d := by
      rw [String.toList_append, hds]
      rfl
    rw [hhead]
    constructor <;>
    · rintro ⟨⟩
      exact absurd hdigit (by decide)
  · decide

theorem mem_cycleChapter {names : List (String × String)} (h : line ∈ cycleChapter names cycles) :
    line ∈ ["## Import Cycles", ""] ∨
      ∃ c ∈ cycles, line = "- " ++ String.intercalate " ↔ " (c.map (nameOf names)) := by
  rw [cycleChapter.eq_def] at h
  split at h
  · exact absurd h List.not_mem_nil
  · simp only [List.mem_append, List.mem_map, List.mem_singleton] at h
    rcases h with (h | ⟨c, hc, rfl⟩) | rfl
    · exact Or.inl h
    · exact Or.inr ⟨c, hc, rfl⟩
    · exact Or.inl (by simp)

theorem cycleChapter_head {names : List (String × String)} (h : line ∈ cycleChapter names cycles) :
    line.toList.head? ≠ some '|' ∧ line.toList.head? ≠ some ' ' := by
  rcases mem_cycleChapter h with h | ⟨c, -, rfl⟩
  · have hfixed : ∀ line ∈ ["## Import Cycles", ""],
        line.toList.head? ≠ some '|' ∧ line.toList.head? ≠ some ' ' := by decide
    exact hfixed line h
  · simp

def chapterLines (c : Category) : List String :=
  [c.heading, "", tableHead, "|---|---|---|---|"] ++ Tier.all.map Tier.heading

theorem mem_chapter {c : Category} (h : line ∈ chapter ps c) :
    line ∈ chapterLines c ∨ ∃ p ∈ ps, line = row (names ps) p := by
  have hfixed : ∀ line ∈ [c.heading, "", tableHead, "|---|---|---|---|"], line ∈ chapterLines c :=
    fun _ hline => List.mem_append_left _ hline
  have hblank : "" ∈ chapterLines c := hfixed "" (by simp)
  rw [chapter] at h
  split at h
  · exact absurd h List.not_mem_nil
  rcases List.mem_append.mp h with h | h
  · rcases List.mem_cons.mp h with rfl | h
    · exact Or.inl List.mem_cons_self
    · exact Or.inl (List.mem_singleton.mp h ▸ hblank)
  obtain ⟨t, -, h⟩ := List.mem_flatMap.mp h
  rcases table_eq (names ps) (ps.filter fun p => p.category = c) t with ⟨-, he⟩ | he
  · exact absurd (he ▸ h) List.not_mem_nil
  rw [he] at h
  simp only [List.mem_cons, List.mem_append, List.mem_map, List.not_mem_nil, or_false] at h
  rcases h with rfl | rfl | rfl | rfl | ⟨p, hp, rfl⟩ | rfl
  · exact Or.inl (List.mem_append_right _ (List.mem_map_of_mem (mem_tiers t)))
  · exact Or.inl hblank
  · exact Or.inl (hfixed tableHead (by simp))
  · exact Or.inl (hfixed "|---|---|---|---|" (by simp))
  · exact Or.inr ⟨p, List.mem_of_mem_filter (List.mem_of_mem_filter ((ofTier_perm _ t).mem_iff.mp hp)), rfl⟩
  · exact Or.inl hblank

theorem chapter_head {c : Category} (h : line ∈ chapter ps c) : line.toList.head? ≠ some ' ' := by
  rcases mem_chapter h with h | ⟨p, -, rfl⟩
  · have hfixed : ∀ line ∈ chapterLines c, line.toList.head? ≠ some ' ' := by cases c <;> decide
    exact hfixed line h
  · rw [isRow_head (isRow_row (names ps) p)]
    decide

def opening : List String := ["## Dependency Graph", "", "```mermaid", "graph TD"]

def closing : List String := ["```", "", legend, ""]

theorem frame_head (h : line ∈ opening ++ closing) :
    line.toList.head? ≠ some '|' ∧ line.toList.head? ≠ some ' ' := by
  have hfixed : ∀ line ∈ opening ++ closing,
      line.toList.head? ≠ some '|' ∧ line.toList.head? ≠ some ' ' := by decide
  exact hfixed line h

theorem drawing_eq (ps : List Profile) :
    drawing ps = opening ++ (ps.map (nodeLine (nodes ps)) ++ (ps.flatMap (arrowLines (nodes ps)) ++ closing)) := by
  rw [drawing, List.append_assoc, List.append_assoc]
  rfl

theorem mem_drawing (h : line ∈ drawing ps) : line ∈ opening ++ closing ∨
    (∃ p ∈ ps, line = nodeLine (nodes ps) p) ∨ ∃ p ∈ ps, line ∈ arrowLines (nodes ps) p := by
  rw [drawing_eq] at h
  simp only [List.mem_append, List.mem_map, List.mem_flatMap] at h ⊢
  rcases h with h | ⟨p, hp, rfl⟩ | h | h
  · exact Or.inl (Or.inl h)
  · exact Or.inr (Or.inl ⟨p, hp, rfl⟩)
  · exact Or.inr (Or.inr h)
  · exact Or.inl (Or.inr h)

theorem mem_arrowLines {ids : List (String × String)} (h : line ∈ arrowLines ids p) :
    ∃ d goal, d ∈ p.dependencies ∧ Keyed.get? d ids = some goal ∧
      line = "  " ++ nodeOf ids p.path ++ " --> " ++ goal := by
  obtain ⟨d, hd, h⟩ := List.mem_filterMap.mp h
  obtain ⟨goal, hgoal, rfl⟩ := Option.map_eq_some_iff.mp h
  exact ⟨d, goal, hd, hgoal, rfl⟩

theorem drawing_head (h : line ∈ drawing ps) : line.toList.head? ≠ some '|' := by
  rcases mem_drawing h with h | ⟨p, -, rfl⟩ | ⟨p, -, h⟩
  · exact (frame_head h).1
  · simp [nodeLine]
  · obtain ⟨d, goal, -, -, rfl⟩ := mem_arrowLines h
    simp

theorem isRow_of_head (h : line.toList.head? ≠ some '|') : isRow line = false :=
  Bool.eq_false_iff.mpr fun hrow => h (isRow_head hrow)

/-- Read back, the tables list each profile once, under its category and its tier. -/
theorem rows_perm (ps : List Profile) (cycles : List (List String)) :
    (rowsUnder "" "" (lines ps cycles)).Perm (ps.map (listing (names ps))) := by
  have hrest : ∀ line ∈ drawing ps ++ cycleChapter (names ps) cycles, isRow line = false := fun line h =>
    isRow_of_head ((List.mem_append.mp h).elim drawing_head fun h => (cycleChapter_head h).1)
  have hbefore : ∀ line ∈ front ps, isRow line = false := fun line h => isRow_of_head (front_head h).1
  obtain ⟨chapter₁, table₁, hfront⟩ := rowsUnder_rowless hbefore "" ""
    (Category.all.flatMap (chapter ps) ++ (drawing ps ++ cycleChapter (names ps) cycles))
  obtain ⟨chapter₂, table₂, htables⟩ := rowsUnder_chapters ps Category.all chapter₁ table₁
    (drawing ps ++ cycleChapter (names ps) cycles)
  obtain ⟨chapter₃, table₃, hnone⟩ := rowsUnder_rowless hrest chapter₂ table₂ []
  rw [List.append_nil] at hnone
  rw [lines_eq, hfront, htables, hnone, rowsUnder, List.append_nil]
  exact (ofCategory_perm ps).map _

end Report

end Retype

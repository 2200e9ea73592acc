import Retype.Proofs.Path.Within

/-!
# Normalising twice

What a path is written as in a file is the first of the shortest alias forms on offer, or the
relative specifier if that is shorter than each of them. A specifier that was made so stays
when it is made normal again for the file, because it is read there as the path that it was
made of. One that leads out of the project is left as it is; but the file that is written may
be in a deeper folder, and from there the same specifier can lead to a path of the project.
-/

set_option autoImplicit false

namespace Retype

namespace Path

variable {done done' ss : List (List Char)} {p a b spec : String}

/-- A climb that stays above its beginning does so from any deeper place. -/
theorem dots_notMem_climbFrom_deeper (hd : dots ∉ done') (hlen : done.length ≤ done'.length)
    (h : dots ∉ climbFrom false done ss) : dots ∉ climbFrom false done' ss := by
  induction ss generalizing done done' with
  | nil => exact hd
  | cons s ss ih =>
    rw [climbFrom_cons] at h ⊢
    rcases segment_cases s with hs | rfl | hs
    · rw [climb_pass hs] at h ⊢
      exact ih hd hlen h
    · cases done with
      | nil => exact absurd (dots_mem_climbFrom ss List.mem_cons_self) h
      | cons d done =>
        cases done' with
        | nil => exact absurd hlen (by simp)
        | cons d' done' =>
          have hne : d ≠ dots := fun he => h (dots_mem_climbFrom ss (dots_mem_climb (he ▸ List.mem_cons_self)))
          have hne' : d' ≠ dots := fun he => hd (he ▸ List.mem_cons_self)
          rw [climb_dots_cons hne] at h
          rw [climb_dots_cons hne']
          exact ih (fun hm => hd (List.mem_cons_of_mem d' hm)) (Nat.le_of_succ_le_succ hlen) h
    · rw [climb_names hs] at h ⊢
      have hlonger : (s :: done).length ≤ (s :: done').length := Nat.succ_le_succ hlen
      refine ih (fun hm => ?_) hlonger h
      exact (List.mem_cons.mp hm).elim (fun he => hs.2.2 he.symm) hd

theorem inner_join_deeper (hb : Inner b) (hspec : isAbsolute spec = false)
    (hlen : (namesOf a).length ≤ (namesOf b).length) (h : Inner (join a spec)) : Inner (join b spec) := by
  refine ⟨AliasTable.isAbsolute_join hb.1 hspec, ?_⟩
  have hd := h.2
  have hdeep := hb.2
  rw [namesOf_eq, List.mem_reverse] at hd hdeep ⊢
  rw [namesOf_eq, namesOf_eq, List.length_reverse, List.length_reverse] at hlen
  rw [climbFrom_join hspec] at hd ⊢
  exact dots_notMem_climbFrom_deeper hdeep hlen hd

end Path

namespace AliasTable

open Retype.Path (Inner namesOf)

variable (t : AliasTable) {spec importer writer target n : String}

/-! ## What a path is written as -/

/-- The first of the shortest alias forms on offer if it is not longer than the relative
specifier, and the relative specifier if it is shorter than all of them. -/
def Settled (target writer n : String) : Prop :=
  (n.length ≤ (t.relative target writer).length ∧
    ∃ before after, t.aliasForms target writer = before ++ n :: after ∧
      (∀ f ∈ before, n.length < f.length) ∧ ∀ f ∈ after, n.length ≤ f.length) ∨
  (n = t.relative target writer ∧ ∀ f ∈ t.aliasForms target writer, n.length < f.length)

theorem normalize_eq_iff (h : t.expand spec importer = some target) :
    t.normalize spec importer writer = n ↔ t.Settled target writer n := by
  simp only [normalize, h, Settled, ← Order.leastBy_eq_some_iff]
  generalize t.relative target writer = plain
  cases hleast : Order.leastBy String.length (t.aliasForms target writer) with
  | none => simp [Order.nil_of_leastBy hleast, eq_comm]
  | some form =>
    have hmem := Order.mem_of_leastBy hleast
    by_cases hle : form.length ≤ plain.length
    · simp only [hle, if_true, Option.some_inj]
      constructor
      · rintro rfl
        exact Or.inl ⟨hle, rfl⟩
      · rintro (⟨-, hn⟩ | ⟨rfl, hlt⟩)
        · exact hn
        · exact absurd (hlt form hmem) (Nat.not_lt.mpr hle)
    · simp only [hle, if_false, Option.some_inj]
      constructor
      · rintro rfl
        refine Or.inr ⟨rfl, fun f hf => ?_⟩
        exact Nat.lt_of_lt_of_le (Nat.lt_of_not_le hle) (Order.leastBy_le hleast hf)
      · rintro (⟨hn, rfl⟩ | ⟨rfl, -⟩)
        · exact absurd hn hle
        · rfl

theorem normalize_of_none (h : t.expand spec importer = none) : t.normalize spec importer writer = spec := by
  simp only [normalize, h]

/-! ## Reading it again -/

theorem expand_congr (h : isRelative spec = false) (importer writer : String) :
    t.expand spec importer = t.expand spec writer := by
  simp [expand, h]

theorem expand_none_shallower (hi : Inner importer) (hw : Inner writer)
    (hlen : (namesOf (Path.folder writer)).length ≤ (namesOf (Path.folder importer)).length)
    (h : t.expand spec importer = none) : t.expand spec writer = none := by
  cases hrelative : isRelative spec with
  | false => rw [t.expand_congr hrelative writer importer, h]
  | true =>
    rw [t.expand_none_iff hrelative hi.folder.1] at h
    rw [t.expand_none_iff hrelative hw.folder.1]
    exact fun hin => h (Path.inner_join_deeper hi.folder (isAbsolute_of_isRelative hrelative) hlen hin)

/-! ## Normalising twice -/

/-- A specifier that was made normal for a file stays when it is made normal again there,
exactly if it is settled where it can be read as another path than before: if it led out of
the project, or if its alias is followed by a slash. It stays in particular if neither is so,
and if the file that is written is in a folder that is not deeper. -/
theorem normalize_twice (hi : Inner importer) (hw : Inner writer) :
    let n := t.normalize spec importer writer
    (t.normalize n writer writer = n ↔
      (t.expand spec importer = none → ∀ q, t.expand spec writer = some q → t.Settled q writer spec) ∧
      (t.Uproots spec → ∀ q, t.expand n writer = some q → t.Settled q writer n)) ∧
    (¬ t.Uproots spec → t.expand spec importer ≠ none ∨
      (namesOf (Path.folder writer)).length ≤ (namesOf (Path.folder importer)).length →
      t.normalize n writer writer = n) := by
  intro n
  -- made normal again, the result stays where it denotes nothing or is settled
  have hstays : t.normalize n writer writer = n ↔ ∀ q, t.expand n writer = some q → t.Settled q writer n := by
    cases hread : t.expand n writer with
    | none => simp [t.normalize_of_none hread]
    | some q => simp [t.normalize_eq_iff hread]
  have hkept : ∀ p, t.expand spec importer = some p → ¬ t.Uproots spec →
      ∀ q, t.expand n writer = some q → t.Settled q writer n := by
    intro p hp hu q hq
    have hread : t.expand n writer = some p := t.expand_normalize hp (local_of_expand hi hp hu).relative hw
    rw [hread, Option.some_inj] at hq
    exact hq ▸ (t.normalize_eq_iff hp).mp rfl
  have hleft : t.expand spec importer = none → n = spec := t.normalize_of_none
  have hiff : t.normalize n writer writer = n ↔
      (t.expand spec importer = none → ∀ q, t.expand spec writer = some q → t.Settled q writer spec) ∧
      (t.Uproots spec → ∀ q, t.expand n writer = some q → t.Settled q writer n) := by
    rw [hstays]
    constructor
    · exact fun h => ⟨fun hnone => hleft hnone ▸ h, fun _ => h⟩
    · rintro ⟨hout, hup⟩
      by_cases hu : t.Uproots spec
      · exact hup hu
      · cases hp : t.expand spec importer with
        | none =>
          rw [hleft hp]
          exact hout hp
        | some p => exact hkept p hp hu
  refine ⟨hiff, fun hu hcase => hiff.mpr ⟨fun hnone q hq => ?_, fun h => absurd h hu⟩⟩
  have hlen := hcase.resolve_left (not_not_intro hnone)
  rw [t.expand_none_shallower hi hw hlen hnone] at hq
  cases hq

theorem icon_twice :
    let t : AliasTable := ⟨standard, []⟩
    let n := t.normalize "./Icon" "components/Button.jsx" "src/components/Button.tsx"
    t.normalize n "src/components/Button.tsx" "src/components/Button.tsx" = n := by
  have hread : AliasTable.expand ⟨standard, []⟩ "./Icon" "components/Button.jsx" ≠ none := by
    decide +kernel
  have hu : ¬ AliasTable.Uproots ⟨standard, []⟩ "./Icon" := fun hu => absurd hu.1 (by decide)
  exact (normalize_twice ⟨standard, []⟩ (show Inner "components/Button.jsx" by decide +kernel)
    (show Inner "src/components/Button.tsx" by decide +kernel)).2 hu (Or.inl hread)

def library : AliasTable := ⟨[("@lib/", "lib/")], []⟩

theorem library_folders : library.folders = [("@lib/", "lib")] := by decide +kernel

/-- What leads out of the project is left as it is, and leads to a path of the project from
the deeper folder that it was left in. -/
theorem climbing_rewritten :
    library.isInternal "../../lib/api" = true ∧ Path.Local "components/A.jsx" ∧
      Path.Local "src/components/A.tsx" ∧
      library.normalize "../../lib/api" "components/A.jsx" "src/components/A.tsx" = "../../lib/api" ∧
      library.normalize "../../lib/api" "src/components/A.tsx" "src/components/A.tsx" = "@lib/api" := by
  have hout : library.expand "../../lib/api" "components/A.jsx" = none := by decide +kernel
  have hin : library.expand "../../lib/api" "src/components/A.tsx" = some "lib/api" := by decide +kernel
  have hforms : library.aliasForms "lib/api" "src/components/A.tsx" = ["@lib/api"] := by
    simp only [aliasForms, library.byFolder_single library_folders, expand, unalias,
      library.byAlias_single library_folders]
    decide +kernel
  refine ⟨rfl, by decide +kernel, by decide +kernel, library.normalize_of_none hout, ?_⟩
  rw [library.normalize_eq_iff hin]
  refine Or.inl ⟨by decide +kernel, [], [], hforms, by simp, by simp⟩

end AliasTable

end Retype

import Retype.Corpus.Discovery
import Retype.Proofs.Fault
import Retype.Proofs.Order
import Retype.Proofs.Project.LastSegment
import Retype.Proofs.Run.Foresight
import Retype.Proofs.Text.Affix

/-!
# Targets that coincide

A source keeps its last segment on the way to its target, but for the extension. So
the targets of two sources, and the companions beside them, can be compared by what
stands before the extensions.
-/

set_option autoImplicit false

namespace Retype

open Retype.Path

/-! ## Discovered sources -/

/-- A path that ends like a source: with an `s` or an `x`, small or not. -/
def Path.Scripted (p : String) : Prop :=
  ∃ c, p.toList.getLast? = some c ∧ (c.toLower = 's' ∨ c.toLower = 'x')

theorem Path.Scripted.closes {p : String} (h : Scripted p) : Closes p := by
  obtain ⟨c, hc, hlower⟩ := h
  have hne : ∀ d : Char, d.toLower ≠ 's' → d.toLower ≠ 'x' → c ≠ d := by
    rintro d hs hx rfl
    exact hlower.elim hs hx
  exact ⟨c, hc, hne _ (by decide) (by decide), hne _ (by decide) (by decide)⟩

theorem Path.Keeps.scripted {f : String → String} {p : String} (hf : Keeps f) (h : Scripted p) :
    Scripted (f p) := by
  rw [Scripted, hf.last h.closes]
  exact h

theorem last_letter {ext : String} {l : Language} (h : Language.ofExtension? ext = some l) :
    Scripted ext := by
  have hlower : ext.toLower = ".js" ∨ ext.toLower = ".jsx" ∨ ext.toLower = ".mjs" ∨
      ext.toLower = ".ts" ∨ ext.toLower = ".tsx" := by
    unfold Language.ofExtension? at h
    dsimp only at h
    split at h
    · next hjs => exact hjs.imp id (Or.imp id Or.inl)
    · split at h
      · next hts => exact Or.inr (Or.inr (Or.inr (Or.inl hts)))
      · split at h
        · next htsx => exact Or.inr (Or.inr (Or.inr (Or.inr htsx)))
        · cases h
  have hlast : (ext.toList.map Char.toLower).getLast? = some 's' ∨
      (ext.toList.map Char.toLower).getLast? = some 'x' := by
    rw [← String.toList_map]
    show ext.toLower.toList.getLast? = _ ∨ ext.toLower.toList.getLast? = _
    rcases hlower with h | h | h | h | h <;> rw [h] <;> decide
  rw [List.getLast?_map, Option.map_eq_some_iff, Option.map_eq_some_iff] at hlast
  rcases hlast with ⟨c, hc, hs⟩ | ⟨c, hc, hx⟩
  · exact ⟨c, hc, Or.inl hs⟩
  · exact ⟨c, hc, Or.inr hx⟩

theorem scripted_path {path : String} {l : Language} (h : Language.ofPath? path = some l) : Scripted path := by
  obtain ⟨c, hc, hlower⟩ : Scripted (Path.extension path) := last_letter h
  refine ⟨c, ?_, hlower⟩
  rw [← splitExtension_whole path, String.toList_append, List.getLast?_append, hc]
  rfl

theorem scripted_slashed {path : String} {l : Language} (h : Language.ofPath? path = some l) :
    Scripted (Target.slashed path) := by
  obtain ⟨c, hlast, hlower⟩ := scripted_path h
  have hback : c ≠ '\\' := by
    rintro rfl
    exact hlower.elim (by decide) (by decide)
  refine ⟨c, ?_, hlower⟩
  rw [Target.slashed, Affix.exchange, String.toList_ofList, List.getLast?_map, hlast, Option.map_some,
    if_neg hback]

theorem Discovery.Filter.language_ofPath {f : Discovery.Filter} {path : String} {l : Language}
    (h : f.language? path = .ok (some l)) : Language.ofPath? path = some l := by
  unfold language? at h
  split at h
  · cases h
  · obtain ⟨marked, -, h⟩ := ok_bind h
    split at h
    · cases h
    · exact Except.ok.inj h

/-- What is discovered: every source folder is gone through, and each source is a file below
one of them that takes part. -/
theorem Config.discover_parts {c : Config} {w : Workspace} {sources : List (String × Language)}
    (h : c.discover w = .ok sources) : ∃ (filter : Discovery.Filter) (dirs : List Json),
      (c.value "source_dirs").each = .ok dirs ∧
      (∀ dir ∈ dirs, ∃ files, Discovery.filesIn c w dir = .ok files) ∧
      ∀ path l, (path, l) ∈ sources → filter.language? path = .ok (some l) ∧
        ∃ dir ∈ dirs, ∃ files, Discovery.filesIn c w dir = .ok files ∧ path ∈ files := by
  obtain ⟨filter, -, h⟩ := ok_bind h
  obtain ⟨dirs, hdirs, h⟩ := ok_bind (ok_mapError h)
  obtain ⟨found, hfound, h⟩ := ok_bind h
  cases h
  refine ⟨filter, dirs, ok_mapError hdirs, fun dir hdir => ?_, fun path l hl => ?_⟩
  · obtain ⟨own, -, hown⟩ := mem_mapM hfound hdir
    obtain ⟨files, hfiles, -⟩ := ok_bind hown
    exact ⟨files, hfiles⟩
  · obtain ⟨own, hown, hl⟩ := List.mem_flatten.mp (Order.mem_distinct.mp hl)
    obtain ⟨dir, hmem, hdir⟩ := ok_mapM hfound hown
    obtain ⟨files, hfiles, hdir⟩ := ok_bind hdir
    obtain ⟨read, hread, hdir⟩ := ok_bind hdir
    cases hdir
    obtain ⟨entry, hentry, hsome⟩ := List.mem_filterMap.mp hl
    obtain ⟨file, hin, hfile⟩ := ok_mapM hread hentry
    obtain ⟨language, hlanguage, hfile⟩ := ok_bind hfile
    cases hfile
    obtain ⟨l', rfl, hpath⟩ := Option.map_eq_some_iff.mp hsome
    cases hpath
    exact ⟨ok_mapError hlanguage, dir, hmem, files, hfiles, hin⟩

theorem Config.discover_language {c : Config} {w : Workspace} {sources : List (String × Language)}
    (h : c.discover w = .ok sources) {path : String} {l : Language} (hl : (path, l) ∈ sources) :
    Language.ofPath? path = some l := by
  obtain ⟨filter, dirs, -, -, hsources⟩ := discover_parts h
  exact Discovery.Filter.language_ofPath (hsources path l hl).1

/-! ## Targets in two parts -/

/-- What stands before the extension of a path still ends in more than dots, and the
extension that a target gets instead fits there. -/
theorem fits_target {tail : String} (h : Worded (base tail).toList) (hasMarkup : Bool) :
    Worded (base (stem tail)).toList ∧
      Fits (stem tail) (Target.extension (Path.extension tail) hasMarkup) := by
  have hslash := slash_notMem_cut tail.toList
  rw [base, String.toList_ofList] at h
  -- without an extension the target gets none; otherwise every extension it can get is
  -- a dot and what has neither dot nor slash
  rcases cutExtension_cases (cut tail.toList).2 with hcut | ⟨s, e, hs, he, hb, hcut⟩
  · have hsplit : splitExtension tail = (tail, "") := by
      simp only [splitExtension, hcut, cut_parts, String.ofList_toList]
    rw [stem, Path.extension, hsplit]
    refine ⟨by rwa [base, String.toList_ofList], List.not_mem_nil, ?_⟩
    rw [base, String.toList_ofList]
    show cutExtension (_ ++ []) = _
    rw [List.append_nil, hcut]
    rfl
  · have hsplit : splitExtension tail =
        (String.ofList ((cut tail.toList).1 ++ s), String.ofList ('.' :: e)) := by
      simp only [splitExtension, hcut]
    have hse : '/' ∉ s ∧ '/' ∉ e := by
      rw [hb] at hslash
      exact ⟨fun hm => hslash (List.mem_append_left _ hm),
        fun hm => hslash (List.mem_append_right _ (List.mem_cons_of_mem _ hm))⟩
    have hbase : (base (stem tail)).toList = s := by
      rw [stem, hsplit, base, String.toList_ofList, String.toList_ofList,
        cut_head (cut_ends tail.toList) hse.1]
    have hworded : Worded (base (stem tail)).toList := by
      rw [hbase]
      exact hs
    refine ⟨hworded, ?_⟩
    rw [Path.extension, hsplit, Target.extension]
    split
    · exact fits_dot hworded (e := "tsx".toList) (by decide) (by decide)
    · split
      · exact fits_dot hworded (e := "ts".toList) (by decide) (by decide)
      · exact fits_dot hworded he hse.2

namespace Target

variable {s t e g : String}

/-- What is written for a target in two parts: the target, and a companion beside it. -/
def outputs (external : Bool) (s e : String) : List String :=
  (s ++ e) :: if external then [s ++ ".types.ts"] else []

/-- Two targets in two parts coincide, or have one companion, or one is the companion of
the other. -/
def Clash (external : Bool) (s e t g : String) : Prop :=
  s = t ∧ (e = g ∨ external) ∨
    external ∧ (s = t ++ ".types" ∧ e = ".ts" ∨ t = s ++ ".types" ∧ g = ".ts")

theorem fits_types (s : String) : Fits (s ++ ".types") ".ts" := by
  refine fits_dot (e := "ts".toList) ?_ (by decide) (by decide)
  rw [base_append (by decide)]
  exact ⟨'t', List.mem_append_right _ (by decide), by decide⟩

theorem mem_outputs {external : Bool} {x : String} :
    x ∈ outputs external s e ↔ x = s ++ e ∨ external = true ∧ x = s ++ ".types.ts" := by
  cases external <;> simp [outputs]

/-- Two targets share an output exactly where they clash. -/
theorem shared_iff {external : Bool} (hs : Fits s e) (ht : Fits t g) :
    (∃ x ∈ outputs external s e, x ∈ outputs external t g) ↔ Clash external s e t g := by
  have htypes : ∀ r : String, r ++ ".types.ts" = (r ++ ".types") ++ ".ts" := by
    intro r
    rw [String.append_assoc]
    rfl
  have hleft : s ++ e = t ++ ".types.ts" ↔ s = t ++ ".types" ∧ e = ".ts" := by
    rw [htypes, hs.append_inj (fits_types t)]
  have hright : t ++ g = s ++ ".types.ts" ↔ t = s ++ ".types" ∧ g = ".ts" := by
    rw [htypes, ht.append_inj (fits_types s)]
  constructor
  · rintro ⟨x, hx, hx'⟩
    rw [mem_outputs] at hx hx'
    rcases hx with rfl | ⟨hext, rfl⟩
    · rcases hx' with hx' | ⟨hext, hx'⟩
      · obtain ⟨hst, heg⟩ := (hs.append_inj ht).mp hx'
        exact Or.inl ⟨hst, Or.inl heg⟩
      · exact Or.inr ⟨hext, Or.inl (hleft.mp hx')⟩
    · rcases hx' with hx' | ⟨-, hx'⟩
      · exact Or.inr ⟨hext, Or.inr (hright.mp hx'.symm)⟩
      · exact Or.inl ⟨(String.append_left_inj _).mp hx', Or.inr hext⟩
  · rintro (⟨rfl, rfl | hext⟩ | ⟨hext, hst | hts⟩)
    · exact ⟨s ++ e, mem_outputs.mpr (Or.inl rfl), mem_outputs.mpr (Or.inl rfl)⟩
    · exact ⟨s ++ ".types.ts", mem_outputs.mpr (Or.inr ⟨hext, rfl⟩),
        mem_outputs.mpr (Or.inr ⟨hext, rfl⟩)⟩
    · exact ⟨s ++ e, mem_outputs.mpr (Or.inl rfl), mem_outputs.mpr (Or.inr ⟨hext, hleft.mpr hst⟩)⟩
    · exact ⟨t ++ g, mem_outputs.mpr (Or.inr ⟨hext, hright.mpr hts⟩), mem_outputs.mpr (Or.inl rfl)⟩

end Target

/-! ## Outputs of sources -/

namespace Config

variable {c : Config} {path p q s e : String}

/-- What lies below a source folder is the end of a path, from a slash on. -/
theorem tailBelow_suffix {dirs : List Json} {tail : String} (h : tailBelow path dirs = .ok tail) :
    ∃ lead, Head lead ∧ path.toList = lead ++ tail.toList := by
  induction dirs with
  | nil =>
    cases h
    exact ⟨[], Or.inl rfl, rfl⟩
  | cons dir dirs ih =>
    obtain ⟨d, -, h⟩ := ok_bind h
    split at h
    · next below hbelow =>
      cases h
      rw [Target.below?] at hbelow
      refine ⟨_, Or.inr ⟨Blank.dropEnd (· = '/') d.toList, rfl⟩, ?_⟩
      rw [Affix.after?_eq_some.mp hbelow, String.toList_append, String.toList_append, String.toList_ofList]
      rfl
    · exact ih h

/-- The target of a source in two parts: what stands before the extension, which is where
the source lies below its folder, and the extension. -/
def targetParts (c : Config) (path : String) (hasMarkup : Bool) : Except Fault (String × String) := do
  let tail ← tailBelow (Target.slashed path) (← c.foldersByLength)
  return (join (← (c.value "target_dir").path) (stem tail),
    Target.extension (Path.extension tail) hasMarkup)

def external (c : Config) : Bool := c.placement = .external

/-- The paths that migrating a source may write: its target, and the companion of the
target where interfaces are placed outside. -/
def mayWrite (c : Config) (path : String) (hasMarkup : Bool) : List String :=
  match c.target path hasMarkup with
  | .ok target => target :: if c.external then [companionPath target] else []
  | .error _ => []

def fileOf (c : Config) (path : String) : String := normal (c.place path)

theorem keeps_fileOf (c : Config) : Keeps c.fileOf :=
  keeps_normal.comp (keeps_tidy.comp (keeps_join c.root))

theorem tail_scripted {l : Language} (hpath : Language.ofPath? path = some l) {dirs : List Json}
    {tail : String} (h : tailBelow (Target.slashed path) dirs = .ok tail) : Scripted tail := by
  obtain ⟨lead, hlead, hslashed⟩ := tailBelow_suffix h
  have hscripted := scripted_slashed hpath
  rw [Scripted, hscripted.closes.last_tail hlead hslashed]
  exact hscripted

theorem target_eq (hjs : Language.ofPath? path = some .javascript) (hasMarkup : Bool) :
    c.target path hasMarkup = (c.targetParts path hasMarkup).map fun s => s.1 ++ s.2 := by
  unfold target targetParts
  cases hdirs : c.foldersByLength with
  | error f => rfl
  | ok dirs =>
    simp only [bind, Except.bind]
    cases htail : tailBelow (Target.slashed path) dirs with
    | error f => rfl
    | ok tail =>
      cases hdir : (c.value "target_dir").path with
      | error f => rfl
      | ok dir =>
        obtain ⟨hworded, hfits⟩ := fits_target (tail_scripted hjs htail).closes.worded hasMarkup
        have hjoin : Target.ofTail dir tail hasMarkup =
            join dir (stem tail) ++ Target.extension (Path.extension tail) hasMarkup := by
          rw [← ((keeps_join dir).append hworded).2 _ hfits.1]
          simp only [Target.ofTail, stem, Path.extension]
        simp only [hjoin, Except.map, pure, Except.pure]

theorem targetParts_fits {hasMarkup : Bool} (hjs : Language.ofPath? path = some .javascript)
    (h : c.targetParts path hasMarkup = .ok (s, e)) : Worded (base s).toList ∧ Fits s e := by
  obtain ⟨dirs, -, h⟩ := ok_bind h
  obtain ⟨tail, htail, h⟩ := ok_bind h
  obtain ⟨dir, -, h⟩ := ok_bind h
  obtain ⟨rfl, rfl⟩ := Prod.mk.inj (Except.ok.inj h)
  obtain ⟨hworded, hfits⟩ := fits_target (tail_scripted hjs htail).closes.worded hasMarkup
  have hbase : base (join dir (stem tail)) = base (stem tail) := ((keeps_join dir).append hworded).1
  refine ⟨?_, hfits.congr hbase⟩
  rw [hbase]
  exact hworded

/-- What a source may write, in two parts. -/
theorem mem_mayWrite {hasMarkup : Bool} {x : String}
    (hjs : Language.ofPath? path = some .javascript) : x ∈ c.mayWrite path hasMarkup ↔
      ∃ s e, c.targetParts path hasMarkup = .ok (s, e) ∧ x ∈ Target.outputs c.external s e := by
  rw [mayWrite, target_eq hjs]
  cases hparts : c.targetParts path hasMarkup with
  | error f => simp [Except.map]
  | ok parts =>
    obtain ⟨s, e⟩ := parts
    have hstem : companionPath (s ++ e) = s ++ ".types.ts" := by
      rw [companionPath, stem, (targetParts_fits hjs hparts).2.split]
    simp only [Except.map, hstem]
    constructor
    · exact fun hx => ⟨s, e, rfl, hx⟩
    · rintro ⟨s', e', heq, hx⟩
      cases heq
      exact hx

theorem map_outputs {f : String → String} (hf : Keeps f) (external : Bool)
    (hs : Worded (base s).toList) (he : Fits s e) :
    (Target.outputs external s e).map f = Target.outputs external (f s) e := by
  obtain ⟨-, happend⟩ := hf.append hs
  have htypes : f (s ++ ".types.ts") = f s ++ ".types.ts" := happend _ (by decide)
  cases external <;> simp [Target.outputs, happend e he.1, htypes]

/-- A target is what a source is below its folder, with another extension. -/
theorem target_tail {hasMarkup : Bool} {t : String} (h : c.target path hasMarkup = .ok t) :
    ∃ dirs tail dir, c.foldersByLength = .ok dirs ∧ tailBelow (Target.slashed path) dirs = .ok tail ∧
      (c.value "target_dir").path = .ok dir ∧
      t = join dir (stem tail ++ Target.extension (Path.extension tail) hasMarkup) := by
  obtain ⟨dirs, hdirs, h⟩ := ok_bind h
  obtain ⟨tail, htail, h⟩ := ok_bind h
  obtain ⟨dir, hdir, h⟩ := ok_bind h
  refine ⟨dirs, tail, dir, hdirs, htail, hdir, ?_⟩
  have ht : Target.ofTail dir tail hasMarkup = t := Except.ok.inj h
  rw [← ht]
  simp only [Target.ofTail, stem, Path.extension]

/-- The extension of a target ends like that of a source. -/
theorem scripted_extension {tail : String} (h : Scripted tail) (hasMarkup : Bool) :
    Scripted (stem tail ++ Target.extension (Path.extension tail) hasMarkup) := by
  have hnew : ∀ x : String, Scripted x → Scripted (stem tail ++ x) := by
    rintro x ⟨c, hc, hlower⟩
    refine ⟨c, ?_, hlower⟩
    rw [String.toList_append, List.getLast?_append, hc]
    rfl
  unfold Target.extension
  split
  · exact hnew _ ⟨'x', by decide, by decide⟩
  · split
    · exact hnew _ ⟨'s', by decide, by decide⟩
    · rwa [splitExtension_whole]

/-- What a source may write leads to files that end like sources. -/
theorem mayWrite_scripted {l : Language} (hpath : Language.ofPath? path = some l) {hasMarkup : Bool}
    {x : String} (hx : x ∈ c.mayWrite path hasMarkup) : Scripted (c.fileOf x) := by
  suffices h : Scripted x from c.keeps_fileOf.scripted h
  unfold mayWrite at hx
  split at hx
  · next t ht =>
    rcases List.mem_cons.mp hx with rfl | hx
    · obtain ⟨dirs, tail, dir, -, htail, -, htarget⟩ := target_tail ht
      rw [htarget]
      exact (keeps_join dir).scripted (scripted_extension (tail_scripted hpath htail) hasMarkup)
    · split at hx
      · have hlast : (companionPath t).toList.getLast? = some 's' := by
          rw [companionPath, String.toList_append, List.getLast?_append]
          rfl
        rw [List.mem_singleton.mp hx]
        exact ⟨'s', hlast, by decide⟩
      · cases hx
  · cases hx

/-- The targets of two sources clash, once what stands before their extensions is read
in some way. -/
def Coincide (c : Config) (f : String → String) (p : String) (m : Bool) (q : String) (n : Bool) : Prop :=
  ∃ s e t g, c.targetParts p m = .ok (s, e) ∧ c.targetParts q n = .ok (t, g) ∧
    Target.Clash c.external (f s) e (f t) g

theorem coincide_iff {f : String → String} (hf : Keeps f)
    (hp : Language.ofPath? p = some .javascript) (hq : Language.ofPath? q = some .javascript)
    (m n : Bool) :
    (∃ x ∈ (c.mayWrite p m).map f, x ∈ (c.mayWrite q n).map f) ↔ c.Coincide f p m q n := by
  have hmap : ∀ {r k y}, Language.ofPath? r = some .javascript →
      (y ∈ (c.mayWrite r k).map f ↔ ∃ s e, c.targetParts r k = .ok (s, e) ∧
        y ∈ Target.outputs c.external (f s) e) := by
    intro r k y hr
    rw [List.mem_map]
    constructor
    · rintro ⟨x, hx, rfl⟩
      obtain ⟨s, e, hparts, hx⟩ := (mem_mayWrite hr).mp hx
      obtain ⟨hs, he⟩ := targetParts_fits hr hparts
      exact ⟨s, e, hparts, map_outputs hf _ hs he ▸ List.mem_map_of_mem hx⟩
    · rintro ⟨s, e, hparts, hy⟩
      obtain ⟨hs, he⟩ := targetParts_fits hr hparts
      rw [← map_outputs hf _ hs he] at hy
      obtain ⟨x, hx, rfl⟩ := List.mem_map.mp hy
      exact ⟨x, (mem_mayWrite hr).mpr ⟨s, e, hparts, hx⟩, rfl⟩
  have hfits : ∀ {r k s e}, Language.ofPath? r = some .javascript →
      c.targetParts r k = .ok (s, e) → Fits (f s) e := by
    intro r k s e hr hparts
    obtain ⟨hs, he⟩ := targetParts_fits hr hparts
    exact he.congr (hf.append hs).1
  constructor
  · rintro ⟨x, hx, hx'⟩
    obtain ⟨s, e, hs, hx⟩ := (hmap hp).mp hx
    obtain ⟨t, g, ht, hx'⟩ := (hmap hq).mp hx'
    exact ⟨s, e, t, g, hs, ht, (Target.shared_iff (hfits hp hs) (hfits hq ht)).mp ⟨x, hx, hx'⟩⟩
  · rintro ⟨s, e, t, g, hs, ht, hclash⟩
    obtain ⟨x, hx, hx'⟩ := (Target.shared_iff (hfits hp hs) (hfits hq ht)).mpr hclash
    exact ⟨x, (hmap hp).mpr ⟨s, e, hs, hx⟩, (hmap hq).mpr ⟨t, g, ht, hx'⟩⟩

/-- Two JavaScript sources of a project share nothing that they may write, unless what
stands before the extensions of their targets is the same and the extensions are too or
companions are written, or where companions are written one target is the companion of
the other. So it is for the files that the paths lead to, too. -/
theorem discovered_apart_iff {w : Workspace} {sources : List (String × Language)}
    (hw : c.discover w = .ok sources) (hp : (p, .javascript) ∈ sources)
    (hq : (q, .javascript) ∈ sources) (m n : Bool) :
    ((c.mayWrite p m).Disjoint (c.mayWrite q n) ↔ ¬ c.Coincide id p m q n) ∧
      (((c.mayWrite p m).map c.fileOf).Disjoint ((c.mayWrite q n).map c.fileOf) ↔
        ¬ c.Coincide c.fileOf p m q n) := by
  have hp := discover_language hw hp
  have hq := discover_language hw hq
  have hdisjoint : ∀ xs ys : List String, xs.Disjoint ys ↔ ¬ ∃ x ∈ xs, x ∈ ys := by
    intro xs ys
    simp [List.Disjoint]
  constructor
  · rw [← coincide_iff Keeps.id hp hq, hdisjoint, List.map_id, List.map_id]
  · rw [← coincide_iff c.keeps_fileOf hp hq, hdisjoint]

def twoFolders : Config :=
  { Config.standard (some 2) "/p" with
    values := Keyed.put "source_dirs" (.texts ["components", "pages"]) (Config.defaults (some 2)) }

def twoButtons : Workspace :=
  ⟨[("/p", .folder), ("/p/components", .folder), ("/p/components/Button.jsx", .file ""),
    ("/p/pages", .folder), ("/p/pages/Button.jsx", .file "")]⟩

theorem twoButtons_discovered : twoFolders.discover twoButtons =
    .ok [("components/Button.jsx", .javascript), ("pages/Button.jsx", .javascript)] := by
  decide +kernel

theorem twoButtons_apart_iff : twoFolders.discover twoButtons =
      .ok [("components/Button.jsx", .javascript), ("pages/Button.jsx", .javascript)] ∧
    ∀ m n, ((twoFolders.mayWrite "components/Button.jsx" m).Disjoint
        (twoFolders.mayWrite "pages/Button.jsx" n) ↔
      ¬ twoFolders.Coincide id "components/Button.jsx" m "pages/Button.jsx" n) := by
  have hw := twoButtons_discovered
  refine ⟨hw, fun m n => ?_⟩
  exact (discovered_apart_iff hw (by simp) (by simp) m n).1

theorem twoFolders_byLength : twoFolders.foldersByLength = .ok [.str "components", .str "pages"] := by
  have hsized : (([.str "components", .str "pages"] : List Json).mapM fun dir => do
      return (← dir.size, dir) : Except Fault _) =
      .ok [(10, .str "components"), (5, .str "pages")] := rfl
  have hsorted : Order.byDescending (·.1) [(10, Json.str "components"), (5, .str "pages")] =
      [(10, .str "components"), (5, .str "pages")] := by
    apply List.mergeSort_of_pairwise
    simp
  have heach : (twoFolders.value "source_dirs").each =
      .ok [.str "components", .str "pages"] := rfl
  rw [foldersByLength, heach, bind_ok, hsized, bind_ok, hsorted]
  rfl

/-- Both components have the same target, with or without markup. -/
theorem twoButtons_coincide : twoFolders.discover twoButtons =
      .ok [("components/Button.jsx", .javascript), ("pages/Button.jsx", .javascript)] ∧
    ∀ m n, "src/components/Button.tsx" ∈ twoFolders.mayWrite "components/Button.jsx" m ∧
      "src/components/Button.tsx" ∈ twoFolders.mayWrite "pages/Button.jsx" n := by
  refine ⟨twoButtons_discovered, fun m n => ?_⟩
  simp only [mayWrite, target, twoFolders_byLength, bind, Except.bind]
  constructor
  · revert m
    decide +kernel
  · revert n
    decide +kernel

end Config

/-! ## Outputs of items -/

/-- The companion of a target is written only where interfaces are placed outside. -/
theorem SourceUnit.retype_places {u : SourceUnit} {table : AliasTable} {kind : Kind} {s : Synthesis}
    {target : String} {t : Retyped} (h : u.retype table kind s target = .ok t) :
    t.target = target ∧ ∀ k ∈ t.companion, s.placement = .external ∧ k.path = companionPath target := by
  unfold SourceUnit.retype at h
  split at h
  · cases h
  · simp only at h
    split at h
    · cases h
    · split at h
      · cases h
      · cases h
        refine ⟨rfl, fun k hk => ?_⟩
        rw [Option.mem_def, Retyping.companion?] at hk
        split at hk
        · next hplaced =>
          obtain ⟨text, -, rfl⟩ := Option.map_eq_some_iff.mp hk
          exact ⟨of_decide_eq_true ((Bool.and_eq_true _ _).mp hplaced).1, rfl⟩
        · cases hk

theorem Config.profile_path {c : Config} {w : Workspace} {u : SourceUnit} {p : Profile}
    (h : c.profile w u = .ok p) : p.path = u.path := by
  obtain ⟨table, -, h⟩ := ok_bind h
  obtain ⟨score, -, h⟩ := ok_bind h
  obtain ⟨migrated, -, h⟩ := ok_bind h
  cases h
  rfl

namespace Conditions

variable {k : Conditions} {w : Workspace} {path : String} {t : Retyped}

theorem ok_attempt {α : Type} {stage : Stage} {work : Except Trouble α} {x : α}
    (h : k.attempt stage path work = .ok x) : work = .ok x := by
  obtain ⟨-, -, h⟩ := ok_bind h
  exact ok_mapError h

/-- What an item went through that something was prepared for. -/
theorem prepared_stages (h : k.prepare w path = .ok (.ready t)) : ∃ u p target table,
    k.load w path = .ok u ∧ u.language = .javascript ∧ k.config.profile w u = .ok p ∧
      k.config.targetOf p = .ok target ∧ k.config.aliasTable = .ok table ∧
      u.retype table p.kind (k.config.synthesis p) target = .ok t := by
  obtain ⟨u, hu, h⟩ := ok_bind h
  unfold prepareUnit at h
  split at h
  · cases h
  · next hlanguage =>
    obtain ⟨found, -, h⟩ := ok_bind h
    split at h
    · cases h
    · obtain ⟨p, hp, h⟩ := ok_bind h
      obtain ⟨s, hs, h⟩ := ok_bind h
      obtain ⟨target, htarget, h⟩ := ok_bind h
      obtain ⟨r, hr, h⟩ := ok_bind h
      split at h
      · cases h
      · cases h
        cases show k.config.synthesis p = s from Except.ok.inj (ok_attempt hs)
        obtain ⟨table, htable, hr⟩ := ok_bind (ok_mapError (ok_attempt hr))
        exact ⟨u, p, target, table, hu, Decidable.not_not.mp hlanguage, ok_attempt hp,
          ok_mapError (ok_mapError htarget), htable, Except.ok.inj hr⟩

/-- What is prepared for an item goes to the target of its source, and a companion, which is
only prepared where interfaces are placed outside, beside it. -/
theorem prepared_target (h : k.prepare w path = .ok (.ready t)) :
    ∃ hasMarkup, k.config.target path hasMarkup = .ok t.target ∧
      ∀ n ∈ t.companion, k.config.external = true ∧ n.path = companionPath t.target := by
  obtain ⟨u, p, target, table, hu, -, hp, htarget, -, hr⟩ := prepared_stages h
  obtain ⟨rfl, hcompanion⟩ := SourceUnit.retype_places hr
  refine ⟨p.hasMarkup, ?_, fun n hn => ?_⟩
  · rw [← load_path hu, ← Config.profile_path hp]
    exact htarget
  · obtain ⟨hplacement, hpath⟩ := hcompanion n hn
    exact ⟨decide_eq_true hplacement, hpath⟩

/-- What is prepared for an item goes where migrating its source may write. -/
theorem prepared_mayWrite (h : k.prepare w path = .ok (.ready t)) : ∃ hasMarkup,
    (k.config.outputs t).map (·.1) ⊆ (k.config.mayWrite path hasMarkup).map k.config.place := by
  obtain ⟨hasMarkup, htarget, hcompanion⟩ := prepared_target h
  refine ⟨hasMarkup, fun x hx => ?_⟩
  rw [Config.mayWrite, htarget, List.map_cons]
  rw [Config.outputs, List.map_cons] at hx
  rcases List.mem_cons.mp hx with rfl | hx
  · exact List.mem_cons_self
  · obtain ⟨o, ho, rfl⟩ := List.mem_map.mp hx
    obtain ⟨n, hn, rfl⟩ := Option.map_eq_some_iff.mp (Option.mem_toList.mp ho)
    obtain ⟨hexternal, hpath⟩ := hcompanion n hn
    rw [hexternal, hpath]
    simp

end Conditions

end Retype

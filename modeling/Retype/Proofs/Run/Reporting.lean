import Retype.Proofs.Run.History

/-!
# What the report of failures tells

A run with failures writes the report of its batch, and a run without failures leaves what
stands at its place. So after runs of one batch the report is that of the last run that had
failures: it lists exactly these, in the order of their indices, each with the path of the
component there. It is stale where runs without failures came after.
-/

set_option autoImplicit false

namespace Retype

open Retype.Path Workspace

/-! ## Texts at a place -/

namespace Workspace

variable {touched : String → Prop} {w w' : Workspace} {k p text : String}

def textAt? (w : Workspace) (k : String) : Option String :=
  match w.entryAt? k with
  | some (.file text) => some text
  | _ => none

theorem textAt?_eq_some : w.textAt? k = some text ↔ w.entryAt? k = some (.file text) := by
  unfold textAt?
  cases w.entryAt? k with
  | none => simp
  | some e => cases e <;> simp

theorem Spares.textAt? (h : Spares touched w w') (hk : ¬ touched k) : w'.textAt? k = w.textAt? k := by
  apply Option.ext
  intro text
  rw [Workspace.textAt?_eq_some, Workspace.textAt?_eq_some]
  exact h.file_iff hk

theorem writeBelow_text (h : w.writeBelow p text = (w', none)) : w'.textAt? (normal p) = some text := by
  obtain ⟨w₁, -, hwrite⟩ := writeBelow_steps h
  have hread := (write_spares hwrite).2
  exact textAt?_eq_some.mpr (read_eq_ok.mp hread).2

end Workspace

/-! ## The place of a report -/

/-- The text of the report on a summary, if it tells of failures. -/
def Summary.reportText? (t : Summary) (b : Batch) : Option String :=
  if t.failures.isEmpty then none else some ((Json.arr (t.failures.map (failureEntry b))).pretty ++ "\n")

namespace Archive

variable {a : Archive} {w w' : Workspace} {b : Batch} {t t' : Summary}

theorem place_ends (a : Archive) (batch : Int) {x : String} (y : String) {c : Char}
    (hx : x.toList.getLast? = some c) (hslash : c ≠ '/') (hdot : c ≠ '.') (hy : '/' ∉ y.toList) :
    ∃ front, normal (join a.folder ("batch-" ++ toString batch ++ (x ++ y))) = front ++ y := by
  have hclose : Closes ("batch-" ++ toString batch ++ x) := by
    refine ⟨c, ?_, hslash, hdot⟩
    rw [String.toList_append, List.getLast?_append, hx]
    rfl
  have hkeeps := ((keeps_normal.comp (keeps_join a.folder)).append hclose.worded).2 y hy
  rw [← String.append_assoc]
  exact ⟨_, hkeeps⟩

theorem fileOf_ends (a : Archive) (batch : Int) : ∃ front, normal (a.fileOf batch) = front ++ "t.json" := by
  have hlast : "-checkpoin".toList.getLast? = some 'n' := by decide
  rw [fileOf, show "-checkpoint.json" = "-checkpoin" ++ "t.json" from rfl]
  exact a.place_ends batch "t.json" hlast (by decide) (by decide) (by decide)

theorem failuresOf_ends (a : Archive) (id : Int) : ∃ front, normal (a.failuresOf id) = front ++ "s.json" := by
  have hlast : "-failure".toList.getLast? = some 'e' := by decide
  rw [failuresOf, show "-failures.json" = "-failure" ++ "s.json" from rfl]
  exact a.place_ends id "s.json" hlast (by decide) (by decide) (by decide)

theorem failures_ne_draft (a : Archive) (id : Int) (p : String) :
    normal (a.failuresOf id) ≠ normal (draftOf p) := by
  intro he
  obtain ⟨front, hfront⟩ := a.failuresOf_ends id
  have hlast := draft_last p
  rw [← he, hfront, String.toList_append, List.getLast?_append] at hlast
  cases hlast

theorem failures_apart (a : Archive) (id : Int) : ¬ a.CheckpointPlace (normal (a.failuresOf id)) := by
  rintro ⟨batch, hk | hk⟩
  · -- the folder of the archive can be any path, so only how the places end tells them apart
    obtain ⟨front, hfront⟩ := a.failuresOf_ends id
    obtain ⟨front', hfront'⟩ := a.fileOf_ends batch
    have hends := congrArg String.toList (hfront.symm.trans (hk.trans hfront'))
    rw [String.toList_append, String.toList_append] at hends
    exact absurd (List.append_inj' hends rfl).2 (by decide)
  · exact a.failures_ne_draft id _ hk

/-- The report of a run with failures is written anew; without any, what was there stays. -/
theorem report_text (h : a.report w b t = (w', .ok t')) (hdry : t.dryRun = false) :
    w'.textAt? (normal (a.failuresOf b.id)) =
      (t'.reportText? b).or (w.textAt? (normal (a.failuresOf b.id))) := by
  have hresults : t'.failures = t.failures := congrArg (List.filter Outcome.failed) (Runner.report_results h)
  rw [Summary.reportText?, hresults]
  have hcases := Runner.report_ok h
  rw [hdry, Bool.or_false] at hcases
  rcases hcases with ⟨hnone, rfl, -⟩ | ⟨hsome, hwrite, -⟩
  · rw [if_pos hnone, Option.none_or]
  · rw [if_neg hsome, Option.some_or]
    exact writeBelow_text hwrite

end Archive

/-! ## What a summary lists -/

namespace Summary

variable {t : Summary} {b : Batch}

/-- The failed results of a summary are in the order of their indices, and the entry for each has the
path of the component there. -/
structure Lists (t : Summary) (b : Batch) : Prop where
  ascending : (t.failures.map (·.index)).Pairwise (· < ·)
  entries : ∀ o ∈ t.failures, ∃ (n : Nat) (m : Member), o.index = n ∧ b.members[n]? = some m ∧
    failureEntry b o = .obj [("index", .int n), ("name", o.name), ("path", m.path), ("stage", o.stage),
      ("error", o.error)]

theorem lists_of_indices (h : t.results.map (·.index) = (List.range b.size).map Int.ofNat) : t.Lists b := by
  constructor
  · have hsub : (t.failures.map (·.index)).Sublist ((List.range b.size).map Int.ofNat) :=
      h ▸ List.filter_sublist.map _
    apply List.Pairwise.sublist hsub
    apply List.Pairwise.map _ _ List.pairwise_lt_range
    intro m n hlt
    exact Int.ofNat_lt.mpr hlt
  · intro o ho
    have hmem : o.index ∈ (List.range b.size).map Int.ofNat :=
      h ▸ List.mem_map_of_mem (List.mem_of_mem_filter ho)
    obtain ⟨n, hn, hindex⟩ := List.mem_map.mp hmem
    have hin : n < b.members.length := List.mem_range.mp hn
    refine ⟨n, b.members[n], hindex.symm, List.getElem?_eq_getElem hin, ?_⟩
    have hnonneg : ¬ Int.ofNat n < 0 := Int.not_lt.mpr (Int.natCast_nonneg n)
    rw [failureEntry, ← hindex, if_neg hnonneg, Int.ofNat_eq_natCast, Int.toNat_natCast,
      List.getElem?_eq_getElem hin]
    rfl

end Summary

/-! ## Runs -/

/-- Runs of a batch that are no rehearsals and have the place of their report at `k`, where no
component of the batch has an output. -/
structure Conditions.Reports (c : Conditions) (e : Equipment) (b : Batch) (k : String) : Prop where
  writes : c.options.dryRun = false
  place : normal (e.archive.failuresOf b.id) = k
  aside : ∀ m ∈ b.members, ∀ path hasMarkup, m.path.step = .ok path →
    ∀ x ∈ c.config.mayWrite path hasMarkup, c.config.fileOf x ≠ k

variable {c : Conditions} {e : Equipment} {b : Batch} {k : String} {s s' : Site} {r r' : Runner}
  {t : Summary} {id : Int}

namespace Conditions

theorem reports_of_sources (hw : c.options.dryRun = false)
    (h : ∀ m ∈ b.members, ∀ path, m.path.step = .ok path → ∃ l, Language.ofPath? path = some l) :
    c.Reports e b (normal (e.archive.failuresOf b.id)) := by
  refine ⟨hw, rfl, fun m hm path hasMarkup hstep x hx he => ?_⟩
  obtain ⟨l, hl⟩ := h m hm path hstep
  have hplace : e.archive.Place (normal (e.archive.failuresOf b.id)) := ⟨b.id, Or.inr (Or.inr rfl)⟩
  exact Archive.place_unscripted hplace (he ▸ Config.mayWrite_scripted hl hx)

theorem Reports.migrate (hc : c.Reports e b k) {m : Member} (hm : m ∈ b.members) {w w' : Workspace} {i : Int}
    {result : Except Mishap Outcome} (h : c.migrate w i m = (w', result)) : w'.textAt? k = w.textAt? k := by
  cases migrate_ends h with
  | early | unseen | yields => rfl
  | @writes path t seen w' failure hreach hseen _ hw =>
    apply (writeEach_touches hw).textAt?
    rintro ⟨x, hx, hk | hk⟩
    · obtain ⟨hasMarkup, hmay⟩ := prepared_mayWrite hreach.prepared
      have hout := (changed_sublist hseen).subset hx
      obtain ⟨y, hy, hplace⟩ := List.mem_map.mp (hmay (List.mem_map_of_mem hout))
      apply hc.aside m hm path hasMarkup hreach.step y hy
      rw [Config.fileOf, hplace, hk]
    · exact e.archive.failures_ne_draft b.id x.1 (hc.place.trans hk)

theorem Reports.apart (hc : c.Reports e b k) : ¬ e.archive.CheckpointPlace k :=
  hc.place ▸ e.archive.failures_apart b.id

end Conditions

namespace Work

/-- Items and their checkpoints leave the report as it is. -/
theorem item_reports (hc : c.Reports e b k) (work : Work) (i : Int) :
    (item c e b work i).1.site.files.textAt? k = work.site.files.textAt? k := by
  unfold item
  cases c.memoryFault? e with
  | some f => rfl
  | none =>
    cases hm : b.members[i.toNat]? with
    | none => rfl
    | some m =>
      cases hi : c.migrate work.site.files i m with
      | mk files result =>
        have hmigrated := hc.migrate (List.mem_of_getElem? hm) hi
        cases result with
        | error => simpa only [hi] using hmigrated
        | ok o =>
          have hsaved := (e.archive.save_spares { work.site with files := files }
            ((work.progress.commit o).checkpoint .null c.now)).textAt? hc.apart
          simpa only [hi, commit] using hsaved.trans hmigrated

theorem all_reports (hc : c.Reports e b k) (work : Work) :
    (all c e b work).1.site.files.textAt? k = work.site.files.textAt? k :=
  all_keeps (P := fun done => done.site.files.textAt? k = work.site.files.textAt? k)
    (fun done i hsame => (item_reports hc done i).trans hsame) rfl

end Work

namespace Runner

theorem start_reports (hc : c.Reports e b k) {p : Except RunError Progress} (h : start c e s b = (s', p)) :
    s'.files.textAt? k = s.files.textAt? k := by
  unfold start at h
  split at h
  · split at h <;>
    · cases h
      rfl
  · have hclear := (e.archive.clear_spares s b.id).textAt? hc.apart
    split at h <;>
    · next hcleared =>
      cases h
      rwa [hcleared] at hclear

theorem conclude_reports (hc : c.Reports e b k) {work : Work} (h : conclude c e r b work = (r', s', .ok t)) :
    s'.files.textAt? k = (t.reportText? b).or (work.site.files.textAt? k) := by
  have hsaved := (e.archive.save_spares work.site (work.progress.checkpoint .null c.now)).textAt? hc.apart
  unfold conclude at h
  cases hsave : e.archive.save work.site (work.progress.checkpoint .null c.now) with
  | mk s₁ failure =>
    rw [hsave] at hsaved
    simp only [hsave] at h
    cases failure with
    | some => cases h
    | none =>
      simp only at h
      split at h
      · cases h
      · next hreport =>
        cases h
        have htext := Archive.report_text hreport hc.writes
        simp only [hc.place] at htext
        rw [htext, hsaved]

/-- A run that completes writes its report if it has failures, and else leaves the one that is there. -/
theorem run_reports (hc : c.Reports e b k) (hb : find c s id = .ok b) (h : run c e r s id = (r', s', .ok t)) :
    s'.files.textAt? k = (t.reportText? b).or (s.files.textAt? k) ∧ t.Lists b := by
  obtain ⟨b', s₁, p, r₁, hb', hstart, hbatch⟩ := run_completed h
  cases hb.symm.trans hb'
  obtain ⟨work, hall, r₂, hconclude⟩ := runBatch_concluded hbatch
  have hworked := Work.all_reports hc ⟨s₁, p⟩
  rw [hall] at hworked
  constructor
  · rw [conclude_reports hc hconclude, hworked, start_reports hc hstart]
  · obtain ⟨b', hb', hindices⟩ := run_indices h
    cases hb.symm.trans hb'
    exact Summary.lists_of_indices hindices

end Runner

theorem Course.Runs.completed_report {ω J : Type} {L : Labour ω J} {kept : Option Checkpoint}
    {enabled : Bool} {workers size : Int} {survivors : List (Worker J)} {x y : Course ω J}
    (h : Course.Runs L (x.started (.resumed b.id b.size kept) enabled workers size survivors) y)
    (hc : y.control = .completed) (ht : t.results = y.progress.ordered) (hdry : t.dryRun = false)
    {a : Archive} {w w' : Workspace} {t' : Summary} (hr : a.report w b t = (w', .ok t')) :
    t'.Lists b ∧ w'.textAt? (normal (a.failuresOf b.id)) =
      (t'.reportText? b).or (w.textAt? (normal (a.failuresOf b.id))) := by
  refine ⟨Summary.lists_of_indices ?_, Archive.report_text hr hdry⟩
  rw [Runner.report_results hr, ht, h.completed_indices hc]

/-! ## Runs in turn -/

/-- Completed runs of one batch in turn, none of them a rehearsal, each with the batch as it found it. What
happens in between leaves the report as it is. -/
inductive Reruns (k : String) (id : Int) (s₀ : Site) : List (Batch × Summary) → Site → Prop where
  | start : Reruns k id s₀ [] s₀
  | between {runs : List (Batch × Summary)} {s s' : Site} (h : Reruns k id s₀ runs s)
      (hk : s'.files.textAt? k = s.files.textAt? k) : Reruns k id s₀ runs s'
  | run {runs : List (Batch × Summary)} {s s' : Site} {c : Conditions} {e : Equipment} {r r' : Runner}
      {b : Batch} {t : Summary} (h : Reruns k id s₀ runs s) (hc : c.Reports e b k)
      (hb : Runner.find c s id = .ok b) (hr : Runner.run c e r s id = (r', s', .ok t)) :
      Reruns k id s₀ (runs ++ [(b, t)]) s'

namespace Reruns

variable {s₀ : Site} {runs earlier : List (Batch × Summary)}

def reports (runs : List (Batch × Summary)) : List String := runs.filterMap fun x => x.2.reportText? x.1

theorem reports_concat (runs : List (Batch × Summary)) (b : Batch) (t : Summary) :
    (reports (runs ++ [(b, t)])).getLast? = (t.reportText? b).or (reports runs).getLast? := by
  rw [reports, List.filterMap_append, List.getLast?_append]
  cases h : t.reportText? b with
  | none => simp [h, reports]
  | some text => simp [h]

theorem text_eq (h : Reruns k id s₀ runs s) :
    s.files.textAt? k = (reports runs).getLast?.or (s₀.files.textAt? k) := by
  induction h with
  | start => rfl
  | between _ hk ih => rw [hk, ih]
  | run _ hc hb hr ih => rw [(Runner.run_reports hc hb hr).1, ih, reports_concat, Option.or_assoc]

theorem lists (h : Reruns k id s₀ runs s) : ∀ x ∈ runs, x.2.Lists x.1 := by
  induction h with
  | start => exact nofun
  | between _ _ ih => exact ih
  | run _ hc hb hr ih =>
    intro x hx
    rcases List.mem_append.mp hx with hx | hx
    · exact ih x hx
    · cases List.mem_singleton.mp hx
      exact (Runner.run_reports hc hb hr).2

theorem reportText?_eq_none : t.reportText? b = none ↔ t.failures = [] := by
  rw [Summary.reportText?]
  cases t.failures with
  | nil => simp
  | cons o os => simp

theorem reportText?_of_failures (h : t.failures ≠ []) :
    t.reportText? b = some ((Json.arr (t.failures.map (failureEntry b))).pretty ++ "\n") :=
  if_neg fun hempty => h (List.isEmpty_iff.mp hempty)

theorem reports_eq_nil : reports runs = [] ↔ ∀ x ∈ runs, x.2.failures = [] := by
  rw [reports, List.filterMap_eq_nil_iff]
  exact forall₂_congr fun x _ => reportText?_eq_none

/-- After runs of a batch, the report is that of the last one with failures, or what stood there before
all of them. After a run with failures it lists exactly these, in the order of their indices, each with
the path of the component there. That a report stands there says that the last run had failures if it
had some, or none of the runs before had any and there was no report at first; else the report is stale. -/
theorem report_current_iff (h : Reruns k id s₀ (earlier ++ [(b, t)]) s) :
    s.files.textAt? k = (reports (earlier ++ [(b, t)])).getLast?.or (s₀.files.textAt? k) ∧
    (t.failures ≠ [] →
      s.files.textAt? k = some ((Json.arr (t.failures.map (failureEntry b))).pretty ++ "\n")) ∧
    t.Lists b ∧
    (((s.files.textAt? k).isSome = true ↔ t.failures ≠ []) ↔
      t.failures ≠ [] ∨ (∀ x ∈ earlier, x.2.failures = []) ∧ s₀.files.textAt? k = none) := by
  have htext := h.text_eq
  have hlists := h.lists (b, t) (List.mem_append_right _ (List.mem_singleton_self _))
  have hlast := htext
  rw [reports_concat, Option.or_assoc] at hlast
  by_cases hfailed : t.failures = []
  · rw [reportText?_eq_none.mpr hfailed, Option.none_or] at hlast
    have hstale : (s.files.textAt? k).isSome = false ↔
        (∀ x ∈ earlier, x.2.failures = []) ∧ s₀.files.textAt? k = none := by
      rw [hlast, Option.isSome_eq_false_iff, Option.isNone_iff_eq_none, Option.or_eq_none_iff,
        List.getLast?_eq_none_iff, reports_eq_nil]
    refine ⟨htext, fun hsome => absurd hfailed hsome, hlists, ?_⟩
    rw [← hstale]
    simp [hfailed]
  · rw [reportText?_of_failures hfailed, Option.some_or] at hlast
    refine ⟨htext, fun _ => hlast, hlists, ?_⟩
    simp [hfailed, hlast]

/-! ## A component that comes after its first run -/

def awaiting : Site :=
  ⟨⟨[("/r", .file "[\x7b\"id\":1,\"components\":[\x7b\"name\":\"b\",\"path\":\"b.ts\"\x7d]\x7d]")]⟩, []⟩

def arrived (s : Site) : Site := { s with files := s.files.put "/b.ts" (.file "a;") }

def awaitedReport : String := "/k/batch-1-failures.json"

def outline (b : Batch) (t : Summary) : List (Option String) × Nat :=
  (b.members.map fun m => m.path.step.toOption, t.failures.length)

/-- The folder of the archive and the outlines of the runs, if the batch is run before the component is
there and afterwards. -/
def bothRun? : Option (String × (List (Option String) × Nat) × (List (Option String) × Nat)) := do
  let e ← (History.shelving.equip none).toOption
  let first := Runner.run History.shelving e {} awaiting 1
  let b₁ ← (Runner.find History.shelving awaiting 1).toOption
  let t₁ ← first.2.2.toOption
  let b₂ ← (Runner.find History.shelving (arrived first.2.1) 1).toOption
  let t₂ ← (Runner.run History.shelving e first.1 (arrived first.2.1) 1).2.2.toOption
  return (e.archive.folder, outline b₁ t₁, outline b₂ t₂)

theorem bothRun?_outlines : bothRun? = some ("/k", ([some "b.ts"], 1), ([some "b.ts"], 0)) := by
  decide +kernel

theorem arrived_text (s : Site) : (arrived s).files.textAt? awaitedReport = s.files.textAt? awaitedReport := by
  have hne : awaitedReport ≠ normal "/b.ts" := by decide
  rw [textAt?, arrived, entryAt?_put_other hne, textAt?]

theorem outlined_reports (he : e.archive.folder = "/k") (hb : Runner.find History.shelving s 1 = .ok b)
    (hpaths : (b.members.map fun m => m.path.step.toOption) = [some "b.ts"]) :
    History.shelving.Reports e b awaitedReport := by
  have hplace : normal (e.archive.failuresOf b.id) = awaitedReport := by
    rw [Archive.failuresOf, he, Runner.find_id hb]
    decide +kernel
  rw [← hplace]
  refine Conditions.reports_of_sources rfl fun m hm path hpath => ⟨.typescript, ?_⟩
  have hsome : m.path.step.toOption ∈ [some "b.ts"] :=
    hpaths ▸ List.mem_map_of_mem hm
  rw [hpath, List.mem_singleton] at hsome
  cases hsome
  decide +kernel

theorem awaiting_history : ∃ b₁ t₁ b₂ t₂ s, Reruns awaitedReport 1 awaiting [(b₁, t₁), (b₂, t₂)] s ∧
    t₁.failures ≠ [] ∧ t₂.failures = [] := by
  have h := bothRun?_outlines
  simp only [bothRun?, bind, Option.bind_eq_some_iff] at h
  obtain ⟨e, -, b₁, hb₁, t₁, ht₁, b₂, hb₂, t₂, ht₂, h⟩ := h
  simp only [pure, Option.some.injEq, Prod.mk.injEq, outline] at h
  obtain ⟨hfolder, ⟨hpaths₁, hfailed₁⟩, ⟨hpaths₂, hfailed₂⟩⟩ := h
  have hfirst := Reruns.start.run (outlined_reports hfolder (ok_toOption hb₁) hpaths₁) (ok_toOption hb₁)
    (History.run_eq (ok_toOption ht₁))
  have hbetween := hfirst.between (arrived_text _)
  have hboth := hbetween.run (outlined_reports hfolder (ok_toOption hb₂) hpaths₂) (ok_toOption hb₂)
    (History.run_eq (ok_toOption ht₂))
  refine ⟨b₁, t₁, b₂, t₂, _, hboth, ?_, List.length_eq_zero_iff.mp hfailed₂⟩
  intro hnone
  rw [hnone] at hfailed₁
  cases hfailed₁

/-- The report of the first run stays when the second one has no failures. -/
theorem awaiting_stale : ∃ b₁ t₁ b₂ t₂ s, Reruns awaitedReport 1 awaiting [(b₁, t₁), (b₂, t₂)] s ∧
    awaiting.files.textAt? awaitedReport = none ∧ t₂.failures = [] ∧
    s.files.textAt? awaitedReport = t₁.reportText? b₁ ∧ (s.files.textAt? awaitedReport).isSome = true := by
  obtain ⟨b₁, t₁, b₂, t₂, s, h, hfailed, hnone⟩ := awaiting_history
  have hempty : awaiting.files.textAt? awaitedReport = none := by decide
  have htext := h.text_eq
  rw [← List.singleton_append, reports_concat, reportText?_eq_none.mpr hnone, Option.none_or, hempty,
    Option.or_none, ← List.nil_append [(b₁, t₁)], reports_concat] at htext
  rw [show (reports []).getLast? = none from rfl, Option.or_none] at htext
  refine ⟨b₁, t₁, b₂, t₂, s, h, hempty, hnone, htext, ?_⟩
  rw [htext, reportText?_of_failures hfailed]
  rfl

theorem awaiting_current : ∃ b₁ t₁ b₂ t₂ s, Reruns awaitedReport 1 awaiting ([(b₁, t₁)] ++ [(b₂, t₂)]) s ∧
    t₂.Lists b₂ ∧ ¬ ((s.files.textAt? awaitedReport).isSome = true ↔ t₂.failures ≠ []) := by
  obtain ⟨b₁, t₁, b₂, t₂, s, h, hfailed, hnone⟩ := awaiting_history
  rw [← List.singleton_append] at h
  obtain ⟨-, -, hlists, hcurrent⟩ := report_current_iff h
  refine ⟨b₁, t₁, b₂, t₂, s, h, hlists, fun hiff => ?_⟩
  rcases hcurrent.mp hiff with hsome | ⟨hnever, -⟩
  · exact hsome hnone
  · exact hfailed (hnever _ List.mem_cons_self)

end Reruns

end Retype

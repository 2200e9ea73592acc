import Retype.Proofs.Run.Copying
import Retype.Proofs.Run.Coverage
import Retype.Proofs.Run.Ending
import Retype.Proofs.Run.Passage
import Retype.Proofs.Run.Safety
import Retype.Proofs.Run.Sequence

/-!
# What a resumed run takes over

A resumed run takes over the outcomes of a checkpoint by their indices, whatever the
components are called that it was written for, and works on the components of its batch
that have no outcome there, each once, in whatever order its shards get to them. So its
results are named for the components of the batch exactly where those that it took over are.
-/

set_option autoImplicit false

namespace Retype

/-- The outcome that a checkpoint tells under an index; the last one, if it tells several. -/
def Checkpoint.lastAt? (p : Checkpoint) (i : Int) : Option Outcome :=
  (p.results.filter (·.index == i)).getLast?

namespace Progress

variable {p : Progress} {os : List Outcome} {kept : Option Checkpoint} {batch i : Int} {count : Nat}

theorem get?_ofCheckpoint {p : Checkpoint} {count : Int} (hi : 0 ≤ i ∧ i < count) :
    Keyed.get? i (ofCheckpoint p count).results = p.lastAt? i := by
  rw [ofCheckpoint, Keyed.get?_ofList_map, Checkpoint.lastAt?, List.filter_filter]
  congr 1
  refine List.filter_congr fun o _ => ?_
  by_cases ho : o.index = i
  · simp [ho, hi.1, hi.2]
  · simp [ho]

theorem get?_resumed (hi : 0 ≤ i ∧ i < count) :
    Keyed.get? i (resumed batch count kept).results = kept.bind (·.lastAt? i) := by
  cases kept with
  | none => rfl
  | some p => exact get?_ofCheckpoint hi

theorem resumed_count : (resumed batch count kept).count = count := by
  cases kept <;> rfl

theorem resumed_sound : (resumed batch count kept).Sound := by
  cases kept with
  | none => exact fresh_sound batch count
  | some p => exact ofCheckpoint_sound p count

/-- What is pending is what the checkpoint tells nothing about. -/
theorem resumed_pending : (resumed batch count kept).pending =
    ((List.range count).map Int.ofNat).filter fun i => (kept.bind (·.lastAt? i)).isNone := by
  rw [pending, resumed_count, Int.toNat_natCast]
  refine List.filter_congr fun i hi => ?_
  obtain ⟨n, hn, rfl⟩ := List.mem_map.mp hi
  have hin : (0 : Int) ≤ Int.ofNat n ∧ Int.ofNat n < count := by
    rw [List.mem_range] at hn
    rw [Int.ofNat_eq_natCast]
    omega
  rw [Keyed.has, get?_resumed hin]
  cases kept.bind (·.lastAt? (Int.ofNat n)) <;> rfl

theorem commits_sound (h : p.Sound) (hin : ∀ o ∈ os, 0 ≤ o.index ∧ o.index < p.count) :
    (os.foldl commit p).Sound ∧ (os.foldl commit p).count = p.count := by
  induction os generalizing p with
  | nil => exact ⟨h, rfl⟩
  | cons o os ih =>
    obtain ⟨h₀, hc⟩ := hin o List.mem_cons_self
    exact ih (commit_sound h h₀ hc) fun r hr => hin r (List.mem_cons_of_mem o hr)

/-- Outcomes of all that was pending make progress whole. -/
theorem commits_whole (h : p.Sound) (hc : p.count = count) (hos : (os.map (·.index)).Perm p.pending) :
    (os.foldl commit p).Sound ∧ (os.foldl commit p).count = count ∧
      (os.foldl commit p).results = p.results ++ os.map (fun o => (o.index, o)) ∧
      ∀ i : Int, 0 ≤ i → i < count → i ∈ (os.foldl commit p).done := by
  have hmem : ∀ o ∈ os, (0 ≤ o.index ∧ o.index < p.count) ∧ o.index ∉ p.done := fun o ho =>
    mem_pending.mp (hos.subset (List.mem_map_of_mem ho))
  obtain ⟨hsound, hcount⟩ := commits_sound h fun o ho => (hmem o ho).1
  have hresults := results_commits (fun o ho => (hmem o ho).2) (hos.nodup_iff.mpr p.pending_nodup)
  refine ⟨hsound, hcount.trans hc, hresults, fun i h₀ hi => ?_⟩
  rw [done, hresults, Keyed.keys, List.map_append, List.mem_append]
  by_cases hd : i ∈ p.done
  · exact Or.inl hd
  · right
    rw [List.map_map]
    exact hos.mem_iff.mpr (mem_pending.mpr ⟨⟨h₀, hc ▸ hi⟩, hd⟩)

/-- An outcome of progress that is whole stands at its own index. -/
theorem ordered_at (h : p.Sound) (hc : p.count = count)
    (hall : ∀ i : Int, 0 ≤ i → i < count → i ∈ p.done) {n : Nat} {o : Outcome}
    (ho : ((n : Int), o) ∈ p.results) : p.ordered[n]? = some o := by
  have hindex : o.index = n := h.own _ ho
  obtain ⟨k, hk⟩ := List.mem_iff_getElem?.mp
    (p.ordered_perm.mem_iff.mpr (List.mem_map_of_mem (f := (·.2)) ho))
  have hwhole := congrArg (·[k]?) (ordered_whole h hc hall)
  simp only [List.getElem?_map, hk, Option.map_some] at hwhole
  obtain ⟨j, hj, hjk⟩ := Option.map_eq_some_iff.mp hwhole.symm
  have hkj : k = j := (List.getElem?_eq_some_iff.mp hj).elim fun _ hj => by simpa using hj
  have : k = n := by
    rw [Int.ofNat_eq_natCast] at hjk
    omega
  rwa [this] at hk

end Progress

namespace Runner

open Progress

variable {c : Conditions} {e : Equipment} {b : Batch} {s s' : Site}

theorem start_resumed (hr : c.options.resume = true) {p : Progress} (h : start c e s b = (s', .ok p)) :
    s' = s ∧ ∃ kept, e.archive.load s b.id = .ok kept ∧ p = .resumed b.id b.size kept := by
  unfold start at h
  rw [if_pos hr] at h
  cases hload : e.archive.load s b.id with
  | error t =>
    simp only [hload] at h
    cases h
  | ok kept =>
    simp only [hload] at h
    cases kept <;>
    · cases h
      exact ⟨rfl, _, rfl, rfl⟩

/-- A report is written where there are failures to tell, and the summary then says where. -/
theorem report_ok {a : Archive} {w w' : Workspace} {told told' : Summary}
    (h : a.report w b told = (w', .ok told')) :
    (told.failures.isEmpty || told.dryRun) = true ∧ w' = w ∧ told' = told ∨
      ¬ (told.failures.isEmpty || told.dryRun) = true ∧
      w.writeJson (a.failuresOf b.id) (.arr (told.failures.map (failureEntry b))) = (w', none) ∧
        told' = { told with report := some (a.failuresOf b.id) } := by
  unfold Archive.report at h
  split at h
  · next hnone =>
    cases h
    exact Or.inl ⟨hnone, rfl, rfl⟩
  · next hsome =>
    simp only at h
    split at h
    · cases h
    · next hwrite =>
      cases h
      exact Or.inr ⟨hsome, hwrite, rfl⟩

theorem report_results {a : Archive} {w w' : Workspace} {told told' : Summary}
    (h : a.report w b told = (w', .ok told')) : told'.results = told.results := by
  rcases report_ok h with ⟨-, -, rfl⟩ | ⟨-, -, rfl⟩ <;> rfl

theorem conclude_results {r r' : Runner} {k : Work} {told : Summary}
    (h : conclude c e r b k = (r', s', .ok told)) : told.results = k.progress.ordered := by
  unfold conclude at h
  cases hsave : e.archive.save k.site (k.progress.checkpoint .null c.now) with
  | mk s₁ failure =>
    simp only [hsave] at h
    cases failure with
    | some => cases h
    | none =>
      simp only at h
      split at h
      · cases h
      · next hreport =>
        cases h
        exact report_results hreport

theorem all_commits {p : Progress} {k : Work} (hc : p.count = b.size)
    (h : Work.all c e b ⟨s, p⟩ = (k, none)) :
    ∃ os, Passage c e b s os k.site ∧ k.progress = os.foldl Progress.commit p ∧
      os.map (·.index) = p.pending := by
  obtain ⟨os, ⟨hpassage, hcommits⟩, hindices⟩ := Work.all_does h
  refine ⟨os, hpassage, hcommits, hindices rfl fun i hi => ?_⟩
  have hin : 0 ≤ i ∧ i < p.count := (mem_pending.mp hi).1
  omega

section Completed

variable {r r' : Runner} {p : Progress} {told : Summary}

/-- A batch that is run to its end is worked off and then concluded. -/
theorem runBatch_concluded (h : runBatch c e r s b p = (r', s', .ok told)) :
    ∃ k, Work.all c e b ⟨s, p⟩ = (k, none) ∧ ∃ r₁, conclude c e r₁ b k = (r', s', .ok told) := by
  unfold runBatch at h
  split at h
  · cases h
  · cases hall : Work.all c e b ⟨s, p⟩ with
    | mk k stop =>
      rw [hall] at h
      cases stop with
      | some => cases h
      | none => exact ⟨k, rfl, _, h⟩

theorem runBatch_completed (hc : p.count = b.size) (h : runBatch c e r s b p = (r', s', .ok told)) :
    ∃ os, Passage c e b s os s' ∧ os.map (·.index) = p.pending ∧
      told.results = (os.foldl Progress.commit p).ordered := by
  obtain ⟨k, hall, r₁, hconcluded⟩ := runBatch_concluded h
  obtain ⟨os, hpassage, hcommits, hindices⟩ := all_commits hc hall
  have hconclude := conclude_passage (c := c) (e := e) (b := b) r₁ k
  rw [hconcluded] at hconclude
  have hboth := hpassage.trans hconclude
  rw [List.append_nil] at hboth
  exact ⟨os, hboth, hindices, by rw [conclude_results hconcluded, hcommits]⟩

theorem run_completed {id : Int} (h : run c e r s id = (r', s', .ok told)) :
    ∃ b s₁ p r₁, find c s id = .ok b ∧ start c e s b = (s₁, .ok p) ∧
      runBatch c e r₁ s₁ b p = (r', s', .ok told) := by
  unfold run at h
  split at h
  · cases h
  · cases hb : find c s id with
    | error =>
      simp only [hb] at h
      cases h
    | ok b =>
      simp only [hb] at h
      cases hstart : start c e s b with
      | mk s₁ p =>
        cases p with
        | error =>
          simp only [hstart] at h
          cases h
        | ok p =>
          simp only [hstart] at h
          exact ⟨b, s₁, p, _, rfl, hstart, h⟩

theorem start_progress (h : start c e s b = (s', .ok p)) : ∃ kept, p = .resumed b.id b.size kept := by
  unfold start at h
  split at h
  · split at h <;> cases h
    · exact ⟨none, rfl⟩
    · exact ⟨some _, rfl⟩
  · split at h <;> cases h
    exact ⟨none, rfl⟩

theorem run_indices {id : Int} (h : run c e r s id = (r', s', .ok told)) :
    ∃ b, find c s id = .ok b ∧ told.results.map (·.index) = (List.range b.size).map Int.ofNat := by
  obtain ⟨b, s₁, p, r₁, hb, hstart, hbatch⟩ := run_completed h
  obtain ⟨kept, rfl⟩ := start_progress hstart
  obtain ⟨os, -, hindices, hresults⟩ := runBatch_completed resumed_count hbatch
  obtain ⟨hsound, hcount, -, hwhole⟩ := commits_whole resumed_sound resumed_count (.of_eq hindices)
  exact ⟨b, hb, by rw [hresults, ordered_whole hsound hcount hwhole]⟩

end Completed

theorem run_taken (hr : c.options.resume = true) {id : Int} (hb : find c s id = .ok b)
    {r r' : Runner} {told : Summary} (h : run c e r s id = (r', s', .ok told)) :
    ∃ kept os, e.archive.load s b.id = .ok kept ∧ Passage c e b s os s' ∧
      os.map (·.index) = (resumed b.id b.size kept).pending ∧
      told.results = (os.foldl commit (resumed b.id b.size kept)).ordered := by
  obtain ⟨b', s₁, p, r₁, hb', hstart, hbatch⟩ := run_completed h
  cases hb.symm.trans hb'
  obtain ⟨rfl, kept, hload, rfl⟩ := start_resumed hr hstart
  obtain ⟨os, hpassage, hindices, hresults⟩ := runBatch_completed resumed_count hbatch
  exact ⟨kept, os, hload, hpassage, hindices, hresults⟩

end Runner

/-! ## What an item may come to -/

namespace Conditions

open Job

variable {c : Conditions} {b : Batch} {i : Int} {j : Job} {o : Outcome}

/-- A job on an item, as far as its steps may bring it in a world that others change between them. -/
inductive Leads (c : Conditions) (b : Batch) (i : Int) : Job → Prop
  | begun : Leads c b i (untouched i)
  | step {w j w' j'} : Leads c b i j → c.Works b w j w' j' → Leads c b i j'

/-- An outcome that processing an item may come to, beside others. -/
def Yields (c : Conditions) (b : Batch) (i : Int) (o : Outcome) : Prop :=
  ∃ j, c.Leads b i j ∧ j.outcome? = some o

theorem Leads.of (h : c.Leads b i j) {m : Member} (hm : b.members[i.toNat]? = some m) :
    j.Of (c.begun i m) := by
  induction h with
  | begun => rfl
  | step _ hstep ih =>
    refine Works.of (fun m' hm' => ?_) ih hstep
    cases hm.symm.trans hm'
    exact ⟨rfl, rfl⟩

theorem Yields.same (h : c.Yields b i o) {m : Member} (hm : b.members[i.toNat]? = some m) :
    o.index = i ∧ o.name = m.name := by
  obtain ⟨j, hj, ho⟩ := h
  have hof := hj.of hm
  cases j with
  | done r =>
    cases ho
    exact hof
  | _ => cases ho

theorem yields_of_migrate {w w' : Workspace} {m : Member} (hm : b.members[i.toNat]? = some m)
    (h : c.migrate w i m = (w', .ok o)) : c.Yields b i o := by
  have hleads : ∀ z, c.Through b (w, untouched i) z → c.Leads b i z.2 := by
    intro z hz
    induction hz with
    | refl => exact .begun
    | tail _ hstep ih => exact .step ih (.step hstep)
  exact ⟨done o, hleads _ (migrate_through hm h), rfl⟩

/-! ## Taking results over -/

/-- What a resumed run makes of a batch after a checkpoint. It processes the items that have no
outcome there, each once. Of each item it tells the last outcome that the checkpoint holds under
its index, or else what came of processing it; and all that it tells carries the names of the
components if what it took over does. -/
structure TakesOver (c : Conditions) (b : Batch) (kept : Option Checkpoint) (os results : List Outcome) :
    Prop where
  processed : (os.map (·.index)).Perm
    (((List.range b.size).map Int.ofNat).filter fun i => (kept.bind (·.lastAt? i)).isNone)
  whole : results.map (·.index) = (List.range b.size).map Int.ofNat
  each : ∀ (n : Nat) m, b.members[n]? = some m → ∃ o, results[n]? = some o ∧
    match kept.bind (·.lastAt? n) with
    | some taken => o = taken
    | none => o ∈ os ∧ c.Yields b n o ∧ o.name = m.name
  named : (∀ (n : Nat) m o, b.members[n]? = some m → results[n]? = some o → o.name = m.name) ↔
    ∀ (n : Nat) m taken, b.members[n]? = some m → kept.bind (·.lastAt? n) = some taken →
      taken.name = m.name

theorem takesOver {kept : Option Checkpoint} {os : List Outcome}
    (hos : (os.map (·.index)).Perm (Progress.resumed b.id b.size kept).pending)
    (hyields : ∀ o ∈ os, c.Yields b o.index o) :
    c.TakesOver b kept os (os.foldl Progress.commit (.resumed b.id b.size kept)).ordered := by
  obtain ⟨hsound, hcount, hresults, hwhole⟩ :=
    Progress.commits_whole Progress.resumed_sound Progress.resumed_count hos
  have heach : ∀ (n : Nat) m, b.members[n]? = some m →
      ∃ o, (os.foldl Progress.commit (.resumed b.id b.size kept)).ordered[n]? = some o ∧
        match kept.bind (·.lastAt? n) with
        | some taken => o = taken
        | none => o ∈ os ∧ c.Yields b n o ∧ o.name = m.name := by
    intro n m hm
    have hin : (0 : Int) ≤ n ∧ (n : Int) < b.size := by
      have : n < b.size := (List.getElem?_eq_some_iff.mp hm).1
      omega
    cases htaken : kept.bind (·.lastAt? n) with
    | some taken =>
      have hget : Keyed.get? (n : Int) (Progress.resumed b.id b.size kept).results = some taken :=
        (Progress.get?_resumed hin).trans htaken
      have hmem := Keyed.get?_of_mem hget
      exact ⟨taken, Progress.ordered_at hsound hcount hwhole (hresults ▸ List.mem_append_left _ hmem), rfl⟩
    | none =>
      have hpending : (n : Int) ∈ os.map (·.index) := by
        rw [hos.mem_iff, Progress.resumed_pending, List.mem_filter, htaken]
        exact ⟨List.mem_map.mpr ⟨n, List.mem_range.mpr (by omega), rfl⟩, rfl⟩
      obtain ⟨o, ho, hindex⟩ := List.mem_map.mp hpending
      have hmem : ((n : Int), o) ∈ os.map fun o => (o.index, o) :=
        List.mem_map.mpr ⟨o, ho, by rw [hindex]⟩
      have hyield : c.Yields b n o := hindex ▸ hyields o ho
      exact ⟨o, Progress.ordered_at hsound hcount hwhole (hresults ▸ List.mem_append_right _ hmem), ho,
        hyield, (hyield.same hm).2⟩
  refine ⟨hos.trans (.of_eq Progress.resumed_pending), Progress.ordered_whole hsound hcount hwhole, heach,
    fun hnamed n m taken hm htaken => ?_, fun hnamed n m o hm ho => ?_⟩
  · obtain ⟨o, ho, hmatch⟩ := heach n m hm
    rw [htaken] at hmatch
    exact hmatch ▸ hnamed n m o hm ho
  · obtain ⟨o', ho', hmatch⟩ := heach n m hm
    cases ho.symm.trans ho'
    cases htaken : kept.bind (·.lastAt? n) with
    | some taken =>
      rw [htaken] at hmatch
      exact hmatch ▸ hnamed n m taken hm htaken
    | none =>
      rw [htaken] at hmatch
      exact hmatch.2.2

end Conditions

/-! ## One run -/

namespace Course

section

variable {ω J : Type} {L : Labour ω J} {count : Nat} {s t : Course ω J} {p : Progress}
  {enabled : Bool} {workers size : Int} {survivors : List (Worker J)}

theorem Runs.origin (h : Runs L s t) : t.origin = s.origin := by
  induction h with
  | refl => rfl
  | tail _ hstep ih =>
    rw [← ih]
    rcases hstep with hstep | hstep
    · cases hstep with
      | toil h => cases h <;> rfl
      | linger | drift => rfl
    · cases hstep <;> rfl

/-- A run that completes commits all that it posts, which is an outcome for each index that
was pending. -/
theorem Runs.completed_commits (hp : p.count = count)
    (h : Runs L (s.started p enabled workers size survivors) t) (hc : t.control = .completed) :
    t.progress = t.posted.foldl Progress.commit p ∧ (t.posted.map (·.index)).Perm p.pending := by
  have hpending : ∀ i ∈ p.pending, 0 ≤ i ∧ i < count := fun i hi => hp ▸ (Progress.mem_pending.mp hi).1
  have hall : Flow L count t ∧ Covered L count t ∧ t.Traced := by
    clear hc
    induction h with
    | refl => exact ⟨started_flow s hpending, started_covered s hp, rfl⟩
    | tail _ hstep ih =>
      obtain ⟨hf, hcov, ht⟩ := ih
      exact hstep.elim (fun h => ⟨h.flow hf, h.covered hcov, h.traced ht⟩)
        fun h => ⟨h.flow hf, h.covered hf hcov, h.traced ht⟩
  obtain ⟨hf, hcov, ht⟩ := hall
  have horigin : t.origin = p := h.origin
  have hidle : t.control.Idle := by rw [hc]; trivial
  have hcommits : t.commits = t.posted := by
    have hcalm := (hf.calm (Or.inr hidle)).2
    rw [hc, (hf.settled hidle).1] at hcalm
    simpa [Control.held] using hcalm
  refine ⟨by rw [← hcommits, ← horigin]; exact ht, ?_⟩
  have hnodup : (t.posted.map (·.index)).Nodup := hcommits ▸ hf.commits_distinct
  refine (List.perm_ext_iff_of_nodup hnodup p.pending_nodup).mpr fun i => ⟨fun hi => ?_, fun hi => ?_⟩
  · have hitem : i ∈ t.items L := List.mem_append_left _ hi
    exact Progress.mem_pending.mpr ⟨hp ▸ hf.within i hitem, horigin ▸ hf.fresh i hitem⟩
  · obtain ⟨hin, hnew⟩ := Progress.mem_pending.mp hi
    have hdone := hcov.done_of_idle hf hidle (hcov.closing (by rw [hc]; trivial)) hin.1 (hp ▸ hin.2)
    rw [hf.done_eq ht, filled, horigin, hcommits] at hdone
    exact (List.mem_append.mp hdone).resolve_left hnew

theorem Runs.completed_indices {batch : Int} {kept : Option Checkpoint}
    (h : Runs L (s.started (.resumed batch count kept) enabled workers size survivors) t)
    (hc : t.control = .completed) : t.progress.ordered.map (·.index) = (List.range count).map Int.ofNat := by
  obtain ⟨hprogress, hpending⟩ := h.completed_commits Progress.resumed_count hc
  obtain ⟨hsound, hcount, -, hwhole⟩ :=
    Progress.commits_whole Progress.resumed_sound Progress.resumed_count hpending
  rw [hprogress, Progress.ordered_whole hsound hcount hwhole]

end

variable {c : Conditions} {b : Batch} {held : String → Prop} {s t : Course Workspace Job}

/-- The shards of a run work on its items, and what they posted came of them. -/
structure Led (c : Conditions) (b : Batch) (s : Course Workspace Job) : Prop where
  jobs : ∀ x ∈ s.workers, ∀ j, x.job = some j → c.Leads b j.owner j
  posted : ∀ o ∈ s.posted, c.Yields b o.index o

theorem started_led (s : Course Workspace Job) (p : Progress) (enabled : Bool) (workers size : Int)
    (survivors : List (Worker Job)) : Led c b (s.started p enabled workers size survivors) :=
  ⟨fun _ hx => absurd hx List.not_mem_nil, fun _ ho => absurd ho List.not_mem_nil⟩

theorem Shift.led (h : Shift (c.labour b held) s t) (hs : Led c b s) : Led c b t := by
  cases h with
  | linger | drift => exact { hs with }
  | toil h =>
    obtain ⟨l, r, x, y, hw, hw', hact⟩ := h.acts
    obtain ⟨outbox, posted, ht, hposted⟩ := h.frame
    have hy : ∀ j, y.job = some j → c.Leads b j.owner j := by
      intro j hj
      rcases hact.2 with ⟨-, hjob⟩ | ⟨k, j', hk, hj', hstep⟩
      · rcases hjob j hj with hj | ⟨i, -, rfl⟩
        · exact hs.jobs x (by simp [hw]) j hj
        · exact .begun
      · cases hj'.symm.trans hj
        have hled := hs.jobs x (by simp [hw]) k hk
        rw [← Conditions.Works.owner_eq hstep] at hled
        exact .step hled hstep
    rw [ht]
    refine ⟨fun z hz => ?_, fun o ho => ?_⟩
    · rw [hw', List.mem_append, List.mem_cons] at hz
      rcases hz with hz | rfl | hz
      · exact hs.jobs z (by simp [hw, hz])
      · exact hy
      · exact hs.jobs z (by simp [hw, hz])
    · rcases hposted o ho with ho | ⟨-, z, hz, j, hj, hout⟩
      · exact hs.posted o ho
      · have howner : o.index = j.owner := (c.labour b held).owner_outcome hout
        exact ⟨j, howner ▸ hs.jobs z hz j hj, hout⟩

theorem Move.led (h : Move s t) (hs : Led c b s) : Led c b t := by
  obtain ⟨-, hposted, -, hworkers⟩ := h.workers
  refine ⟨fun x hx j hj => ?_, hposted ▸ hs.posted⟩
  rcases hworkers x hx with hx | hx
  · exact hs.jobs x hx j hj
  · rw [hx] at hj
    cases hj

theorem Runs.led (h : Runs (c.labour b held) s t) (hs : Led c b s) : Led c b t := by
  induction h with
  | refl => exact hs
  | tail _ hstep ih => exact hstep.elim (fun h => h.led ih) fun h => h.led ih

end Course

namespace Conditions

open Course

/-- A resumed run takes over what the checkpoint tells last under each index of the batch, and
processes the components under the other indices: however its shards take turns, beside whatever
was left of runs before; and so does the program's run that works alone. -/
theorem resumed_takesOver (c : Conditions) (b : Batch) :
    (∀ (held : String → Prop) (s t : Course Workspace Job) (kept : Option Checkpoint) (enabled : Bool)
        (workers size : Int) (survivors : List (Worker Job)), s.vault.load b.id = .ok kept →
      Runs (c.labour b held) (s.started (.resumed b.id b.size kept) enabled workers size survivors) t →
      t.control = .completed → c.TakesOver b kept t.posted t.progress.ordered) ∧
    ∀ (e : Equipment) (r r' : Runner) (s s' : Site) (id : Int) (told : Summary),
      c.options.resume = true → Runner.find c s id = .ok b →
      Runner.run c e r s id = (r', s', .ok told) →
      ∃ kept os, e.archive.load s b.id = .ok kept ∧ Passage c e b s os s' ∧
        c.TakesOver b kept os told.results := by
  refine ⟨fun held s t kept enabled workers size survivors _ h hc => ?_,
    fun e r r' s s' id told hr hb h => ?_⟩
  · obtain ⟨hprogress, hpending⟩ := h.completed_commits Progress.resumed_count hc
    have hled : Led c b t := h.led (started_led _ _ _ _ _ _)
    rw [hprogress]
    exact takesOver hpending hled.posted
  · obtain ⟨kept, os, hload, hpassage, hindices, hresults⟩ := Runner.run_taken hr hb h
    have hyields : ∀ o ∈ os, c.Yields b o.index o := by
      intro o ho
      obtain ⟨-, s₁, m, w', -, hm, hmigrate⟩ := hpassage.outcome ho
      exact yields_of_migrate hm hmigrate
    have htakes := takesOver (.of_eq hindices) hyields
    rw [← hresults] at htakes
    exact ⟨kept, os, hload, hpassage, htakes⟩

end Conditions

namespace Runner

/-! ## A roadmap that was written anew -/

def resuming : Conditions :=
  { Conditions.calm with
    config := ⟨"/p", [("roadmap_file", .str "r")], .standard⟩
    options := { resume := true } }

def besides : Equipment := ⟨.int 1, .int 10, ⟨"/p", none, true, .standard⟩, none⟩

/-- A roadmap of one component, and a checkpoint of when another one stood there. -/
def rerouted : Site :=
  ⟨⟨[("/p", .folder),
    ("/p/r", .file "[\x7b\"id\":1,\"components\":[\x7b\"name\":\"b\",\"path\":\"b.jsx\"\x7d]\x7d]"),
    ("/p/batch-1-checkpoint.json",
      .file "\x7b\"batchId\":1,\"results\":[\x7b\"index\":0,\"name\":\"a\",\"success\":true\x7d]\x7d")]⟩, []⟩

theorem rerouted_names :
    (find resuming rerouted 1).toOption.map (fun b => b.members.map (·.name.shown)) = some ["b"] ∧
    (run resuming besides {} rerouted 1).2.2.toOption.map
      (fun told => told.results.map (·.name.shown)) = some ["a"] := by
  decide +kernel

theorem rerouted_completed : ∃ b r' s' told, find resuming rerouted 1 = .ok b ∧
    b.members.map (·.name.shown) = ["b"] ∧
    run resuming besides {} rerouted 1 = (r', s', .ok told) ∧
    told.results.map (·.name.shown) = ["a"] := by
  obtain ⟨hfind, hrun⟩ := rerouted_names
  obtain ⟨b, hb, hmembers⟩ := Option.map_eq_some_iff.mp hfind
  obtain ⟨told, htold, hresults⟩ := Option.map_eq_some_iff.mp hrun
  cases h : run resuming besides {} rerouted 1 with
  | mk r' rest =>
    obtain ⟨s', result⟩ := rest
    rw [h] at htold
    exact ⟨b, r', s', told, ok_toOption hb, hmembers, by rw [← ok_toOption htold], hresults⟩

/-- The result of a component that is no longer in the batch stands in for the one that is
there now, which is not migrated. -/
theorem rerouted_mistaken : ∃ b r' s' told m o, find resuming rerouted 1 = .ok b ∧
    run resuming besides {} rerouted 1 = (r', s', .ok told) ∧
    b.members[0]? = some m ∧ told.results[0]? = some o ∧ m.name.shown = "b" ∧ o.name.shown = "a" := by
  obtain ⟨b, r', s', told, hb, hmembers, hrun, hresults⟩ := rerouted_completed
  obtain ⟨m, ms, hm, hname, -⟩ := List.map_eq_cons_iff.mp hmembers
  obtain ⟨o, os, ho, hname', -⟩ := List.map_eq_cons_iff.mp hresults
  exact ⟨b, r', s', told, m, o, hb, hrun, by rw [hm]; rfl, by rw [ho]; rfl, hname, hname'⟩

/-- A checkpoint of a batch whose only component is one that is not in it any more. -/
def bygone : Checkpoint :=
  ⟨1, 1, 1, 0, 1, [⟨0, .str "a", true, false, .null, .null, .null, [], 0, .null, false⟩], .null, .str ""⟩

def revisited : Course Workspace Job := .new 1 1 ⟨[]⟩ { mirror := some bygone.toJson }

theorem rerouted_takenOver : resuming.options.resume = true ∧
    (∃ b r' s' told kept os, find resuming rerouted 1 = .ok b ∧
      run resuming besides {} rerouted 1 = (r', s', .ok told) ∧
      besides.archive.load rerouted b.id = .ok kept ∧
      resuming.TakesOver b kept os told.results) ∧
    ∃ t, Course.Runs (resuming.labour (Conditions.batchOf ["b"]) fun _ => False)
        (revisited.started (.resumed 1 1 (some bygone.retold)) true 2 10 []) t ∧
      t.control = .completed ∧
      resuming.TakesOver (Conditions.batchOf ["b"]) (some bygone.retold) t.posted t.progress.ordered := by
  obtain ⟨b, r', s', told, hb, -, hrun, -⟩ := rerouted_completed
  obtain ⟨hcourse, -⟩ := Conditions.resumed_takesOver resuming (Conditions.batchOf ["b"])
  obtain ⟨kept, os, hkept, -, htakes⟩ := (Conditions.resumed_takesOver resuming b).2 besides {} r' rerouted
    s' 1 told rfl hb hrun
  have hload : revisited.vault.load 1 = .ok (some bygone.retold) :=
    Vault.reflect_loadMirror {} bygone
  have hpending : (Progress.resumed 1 1 (some bygone.retold)).pending = [] := by decide
  have hwaves : (revisited.started (.resumed 1 1 (some bygone.retold)) true 2 10 []).waves = [] := by
    rw [Course.started, hpending, Shards.waves_nil]
  obtain ⟨t, ht, hdone, -⟩ := Course.Runs.completed (L := resuming.labour (Conditions.batchOf ["b"]) fun _ => False)
    (s := revisited.started (.resumed 1 1 (some bygone.retold)) true 2 10 []) .refl rfl hwaves rfl rfl
  exact ⟨rfl, ⟨b, r', s', told, kept, os, hb, hrun, hkept, htakes⟩, t, ht, hdone,
    hcourse _ _ t _ true 2 10 [] hload ht hdone⟩

end Runner

end Retype

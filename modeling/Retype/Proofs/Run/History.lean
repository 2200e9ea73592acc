import Mathlib.Algebra.BigOperators.Group.List.Basic
import Mathlib.Algebra.Ring.Nat
import Retype.Proofs.Run.Tally

/-!
# Histories of runs

Whoever counts what came of runs, the summaries or the ledger, counts the same. A summary has
one result for each component of its batch, and counts it in one of three ways. A fresh run
puts its results in the ledger in the place of all that was there of its batch; so after runs
of different batches, whatever happened to the other files in between, the ledger counts what
the summaries count together.
-/

set_option autoImplicit false

namespace Retype

open Keyed (keys)

namespace Summary

theorem counted (t : Summary) : t.succeeded + t.skipped + t.failures.length = t.results.length := by
  unfold succeeded skipped failures
  induction t.results with
  | nil => rfl
  | cons o os ih =>
    cases hs : o.success <;> cases hk : o.skipped <;>
    · simp [Outcome.succeeded, Outcome.failed, hs, hk] at ih ⊢
      omega

theorem failures_unsuccessful {told : Summary} (h : ∀ o ∈ told.results, o.success = false → o.skipped = false) :
    told.failures.length = told.results.countP fun o => !o.success := by
  rw [Summary.failures, List.countP_eq_length_filter]
  congr 1
  refine List.filter_congr fun o ho => ?_
  cases hs : o.success with
  | true => simp [Outcome.failed, hs]
  | false => simp [Outcome.failed, hs, h o ho hs]

end Summary

variable {c : Conditions} {e : Equipment} {b : Batch} {s s₁ s' : Site} {r r' : Runner} {told : Summary}
  {id : Int} {path : String}

theorem Conditions.migrate_unskipped {w w' : Workspace} {i : Int} {m : Member} {o : Outcome}
    (h : c.migrate w i m = (w', .ok o)) (ho : o.success = false) : o.skipped = false := by
  generalize hr : Except.ok o = r at h
  cases migrate_ends h with
  | early h =>
    cases h <;> cases hr
    · rfl
    · rfl
    · cases ho
    · cases ho
  | unseen =>
    cases hr
    rfl
  | yields =>
    cases hr
    cases ho
  | @writes _ _ _ _ failure =>
    cases failure with
    | some =>
      cases hr
      rfl
    | none =>
      rcases checked_ok hr.symm with ⟨warnings, rfl⟩ | ⟨text, rfl⟩
      · cases ho
      · rfl

namespace Ledger

/-! ## Ledgers under a run -/

variable {batch : Int} {rest : List ((Int × Int) × Outcome)} {p : Progress} {l l' : Ledger} {error : Json}
  {now : String}

/-- A ledger that a run keeps its checkpoints in: the rows of other batches are as they were, and
those of its own batch are of outcomes that were committed. -/
structure Shelved (batch : Int) (rest : List ((Int × Int) × Outcome)) (p : Progress) (l : Ledger) : Prop where
  distinct : (keys l.rows).Nodup
  others : l.others batch = rest
  done : ∀ i, (batch, i) ∈ keys l.rows → i ∈ p.done

/-- A ledger has what was committed, and nothing else of its batch. -/
def Full (rest : List ((Int × Int) × Outcome)) (p : Progress) (l : Ledger) : Prop :=
  ∀ f, Kept f → tally f l.rows = tally f rest + p.ordered.countP f

theorem cleared_shelved (hd : (keys l.rows).Nodup) : Shelved batch (l.others batch) p (l.clear batch) :=
  ⟨clear_distinct hd, clear_others l batch, fun _ hi => absurd hi clear_keys⟩

theorem Shelved.commit (h : Shelved batch rest p l) (o : Outcome) : Shelved batch rest (p.commit o) l :=
  { h with done := fun i hi => Progress.mem_done_commit.mpr (Or.inr (h.done i hi)) }

theorem indices_done (hp : ∀ x ∈ p.results, x.2.index = x.1) {i : Int}
    (hi : i ∈ p.ordered.map (·.index)) : i ∈ p.done := by
  obtain ⟨o, ho, rfl⟩ := List.mem_map.mp hi
  obtain ⟨x, hx, rfl⟩ := List.mem_map.mp (p.ordered_perm.mem_iff.mp ho)
  exact hp x hx ▸ List.mem_map_of_mem hx

theorem Shelved.save (h : Shelved batch rest p l) (hbatch : p.batch = batch)
    (hp : ∀ x ∈ p.results, x.2.index = x.1) (hsave : l.save (p.checkpoint error now) = some l') :
    Shelved batch rest p l' := by
  subst hbatch
  refine ⟨save_distinct hsave h.distinct, (save_others hsave).trans h.others, fun i hi => ?_⟩
  rcases save_keys hsave hi with hold | hnew
  · exact h.done i hold
  · exact indices_done hp hnew

theorem Shelved.full (h : Shelved batch rest p l) (hbatch : p.batch = batch) (hp : p.Sound)
    (hsave : l.save (p.checkpoint error now) = some l') : Full rest p l' := by
  subst hbatch
  have hdistinct : (p.checkpoint error now).indices.Nodup :=
    (Progress.ordered_ascending hp).imp fun hlt => Int.ne_of_lt hlt
  have hall : ∀ i, (p.batch, i) ∈ keys l.rows → i ∈ (p.checkpoint error now).indices :=
    fun i hi => (Progress.mem_checkpoint_indices hp).mpr (h.done i hi)
  intro f hf
  have htally := save_tally hsave h.distinct hdistinct hall hf
  rwa [show l.others (p.checkpoint error now).batch = rest from h.others] at htally

theorem others_of_unfiled (h : ∀ i, (batch, i) ∉ keys l.rows) : l.others batch = l.rows := by
  refine List.filter_eq_self.mpr fun r hr => bne_iff_ne.mpr ?_
  rintro rfl
  exact h r.1.2 (List.mem_map_of_mem hr)

theorem Shelved.full_fresh (h : Shelved batch rest p l) (hp : p.results = []) : Full rest p l := by
  have hnone : p.done = [] := by rw [Progress.done, hp]; rfl
  have hrows : l.rows = rest := by
    rw [← h.others, others_of_unfiled fun i hi => by simpa [hnone] using h.done i hi]
  intro f _
  have hordered : p.ordered = [] := by
    rw [← List.length_eq_zero_iff, (p.ordered_perm).length_eq, hp]
    rfl
  rw [hrows, hordered]
  rfl

/-- Beside the rows of another ledger, a full one counts what a summary of the run does. -/
theorem Full.counts {l₀ : Ledger} (h : Full l₀.rows p l) {told : Summary} (htold : told.results = p.ordered)
    (hun : ∀ o ∈ told.results, o.success = false → o.skipped = false) :
    l.succeeded = l₀.succeeded + told.succeeded ∧ l.skipped = l₀.skipped + told.skipped ∧
      l.unsuccessful = l₀.unsuccessful + told.failures.length := by
  have hsucceeded := h Outcome.succeeded (kept_marks fun success skipped => success && !skipped)
  have hskipped := h (·.skipped) (kept_marks fun _ skipped => skipped)
  have hfailed := h (fun o => !o.success) (kept_marks fun success _ => !success)
  rw [← htold] at hsucceeded hskipped hfailed
  refine ⟨?_, ?_, ?_⟩
  · rw [succeeded_tally, succeeded_tally, hsucceeded, List.countP_eq_length_filter]
    rfl
  · rw [skipped_tally, skipped_tally, hskipped, List.countP_eq_length_filter]
    rfl
  · rw [unsuccessful_tally, unsuccessful_tally, hfailed, Summary.failures_unsuccessful hun]

end Ledger

namespace Conditions

variable {i : Int} {j : Job} {o : Outcome}

theorem Leads.formed (hc : c.Recovers) (h : c.Leads b i j) : Formed j := by
  induction h with
  | begun => trivial
  | step _ hstep ih => exact hstep.formed hc ih

theorem Yields.formed (hc : c.Recovers) (h : c.Yields b i o) : ∃ f, o.Has f := by
  obtain ⟨j, hj, ho⟩ := h
  have hformed := hj.formed hc
  cases j with
  | done r =>
    cases ho
    exact hformed
  | _ => cases ho

end Conditions

namespace Work

/-- Work whose checkpoints go to a ledger under a path. -/
structure Shelved (path : String) (rest : List ((Int × Int) × Outcome)) (k : Work) : Prop where
  stands : k.site.files.isFile path = true
  own : ∀ x ∈ k.progress.results, x.2.index = x.1
  shelved : (k.site.shelf path).Shelved k.progress.batch rest k.progress

variable {rest : List ((Int × Int) × Outcome)} {k : Work}

theorem Shelved.commit (hpath : Path.Ledgered path) (ha : e.archive.ledger = some path)
    (he : e.archive.enabled = true) (hk : Shelved path rest k) (o : Outcome) :
    Shelved path rest (Work.commit c e k o).1 := by
  have hown : ∀ x ∈ (k.progress.commit o).results, x.2.index = x.1 := by
    intro x hx
    rcases Keyed.mem_put hx with rfl | hx
    · rfl
    · exact hk.own x hx
  have hstands : (Work.commit c e k o).1.site.files.isFile path = true :=
    hpath.stands ((Passage.here (c := c) (b := default)).save _) hk.stands
  refine ⟨hstands, hown, ?_⟩
  -- a checkpoint that cannot be saved is left out of the ledger, and the work goes on
  rcases Archive.save_shelf (p := (k.progress.commit o).checkpoint .null c.now) ha he hk.stands with
    hsave | ⟨hsame, -⟩
  · exact (hk.shelved.commit o).save rfl hown hsave
  · exact hsame ▸ hk.shelved.commit o

theorem Shelved.item (hpath : Path.Ledgered path) (ha : e.archive.ledger = some path)
    (he : e.archive.enabled = true) (hk : Shelved path rest k) (i : Int) :
    Shelved path rest (item c e b k i).1 := by
  unfold Work.item
  cases c.memoryFault? e with
  | some f => exact hk
  | none =>
    cases hm : b.members[i.toNat]? with
    | none => exact hk
    | some m =>
      cases hi : c.migrate k.site.files i m with
      | mk files o =>
        have hmigrated : Shelved path rest { k with site := { k.site with files := files } } :=
          { hk with stands := hpath.stands ((Passage.here (e := e)).item hm hi) hk.stands }
        cases o with
        | error => simpa only [hi] using hmigrated
        | ok o => simpa only [hi] using hmigrated.commit hpath ha he o

theorem Shelved.all (hpath : Path.Ledgered path) (ha : e.archive.ledger = some path)
    (he : e.archive.enabled = true) (hk : Shelved path rest k) : Shelved path rest (all c e b k).1 :=
  all_keeps (fun _ i hk => hk.item hpath ha he i) hk

end Work

/-! ## Runs -/

namespace Runner

theorem find_id (h : find c s id = .ok b) : b.id = id := by
  unfold find at h
  split at h
  · cases h
  · split at h
    · cases h
    · unfold Batch.select at h
      split at h
      · next hfound =>
        cases h
        simpa using List.find?_some hfound
      · cases h

theorem start_fresh (hr : c.options.resume = false) {p : Progress} (h : start c e s b = (s₁, .ok p)) :
    s₁ = (e.archive.clear s b.id).1 ∧ p = { batch := b.id, count := b.size } := by
  unfold start at h
  simp only [hr, Bool.false_eq_true, if_false] at h
  cases hclear : e.archive.clear s b.id with
  | mk s₂ failure =>
    rw [hclear] at h
    cases failure with
    | some => cases h
    | none =>
      cases h
      exact ⟨rfl, rfl⟩

theorem conclude_saved {r₁ : Runner} {k : Work} (h : conclude c e r₁ b k = (r', s', .ok told)) :
    (e.archive.save k.site (k.progress.checkpoint .null c.now)).2 = none ∧
      s'.ledgers = (e.archive.save k.site (k.progress.checkpoint .null c.now)).1.ledgers ∧
      told.batch = b.id := by
  unfold conclude at h
  cases hsave : e.archive.save k.site (k.progress.checkpoint .null c.now) with
  | mk s₁ failure =>
    simp only [hsave] at h
    cases failure with
    | some => cases h
    | none =>
      simp only at h
      split at h
      · cases h
      · next hreport =>
        cases h
        refine ⟨rfl, rfl, ?_⟩
        rcases report_ok hreport with ⟨-, -, rfl⟩ | ⟨-, -, rfl⟩ <;> rfl

theorem run_counted (hb : find c s id = .ok b) (h : run c e r s id = (r', s', .ok told)) :
    told.results.length = b.size := by
  obtain ⟨b', hb', hindices⟩ := run_indices h
  cases hb.symm.trans hb'
  rw [← List.length_map (f := (·.index)), hindices, List.length_map, List.length_range]

end Runner

/-- Fresh runs that are no rehearsals and keep their checkpoints in the ledger under a path. -/
structure Conditions.Shelves (c : Conditions) (path : String) (e : Equipment) : Prop where
  fresh : c.options.resume = false
  writes : c.options.dryRun = false
  equipped : c.equip (some path) = .ok e

theorem Conditions.Shelves.archive (h : c.Shelves path e) :
    e.archive.ledger = some path ∧ e.archive.enabled = true := by
  obtain ⟨-, -, folder, -, harchive⟩ := equip_ok h.equipped
  have henabled : (!c.options.dryRun) = true := by rw [h.writes, Bool.not_false]
  rw [harchive]
  exact ⟨rfl, henabled⟩

namespace Runner

theorem commits_batch (p : Progress) (os : List Outcome) :
    (os.foldl Progress.commit p).batch = p.batch := by
  induction os generalizing p with
  | nil => rfl
  | cons o os ih => exact ih (p.commit o)

/-- A fresh run clears what the ledger has of its batch, and nothing else. -/
theorem start_shelved (hpath : Path.Ledgered path) (hc : c.Shelves path e)
    (hs : s.files.isFile path = true) (hd : (keys (s.shelf path).rows).Nodup) {p : Progress}
    (h : start c e s b = (s₁, .ok p)) :
    Work.Shelved path ((s.shelf path).others b.id) ⟨s₁, p⟩ ∧ p = { batch := b.id, count := b.size } := by
  obtain ⟨ha, he⟩ := hc.archive
  obtain ⟨rfl, rfl⟩ := start_fresh hc.fresh h
  have hshelf := Archive.clear_shelf ha he hs b.id
  refine ⟨⟨?_, nofun, ?_⟩, rfl⟩
  · exact hpath.stands ((Passage.here (c := c)).clear) hs
  · rw [hshelf]
    exact Ledger.cleared_shelved hd

/-- What a fresh run that completes does to a ledger: its results come to the rows of the
other batches, which stay. -/
theorem run_shelved (hpath : Path.Ledgered path) (hc : c.Shelves path e)
    (hs : s.files.isFile path = true) (hd : (keys (s.shelf path).rows).Nodup)
    (h : run c e r s id = (r', s', .ok told)) :
    told.batch = id ∧ s'.files.isFile path = true ∧ (keys (s'.shelf path).rows).Nodup ∧
      (s'.shelf path).others id = (s.shelf path).others id ∧
      ∀ f, Ledger.Kept f → Ledger.tally f (s'.shelf path).rows =
        Ledger.tally f ((s.shelf path).others id) + told.results.countP f := by
  obtain ⟨b, s₁, p, r₁, hb, hstart, hbatch⟩ := run_completed h
  obtain ⟨hshelved, rfl⟩ := start_shelved hpath hc hs hd hstart
  obtain ⟨k, hall, r₂, hconclude⟩ := runBatch_concluded hbatch
  obtain ⟨ha, he⟩ := hc.archive
  have hk := hshelved.all (c := c) (b := b) hpath ha he
  simp only [hall] at hk
  obtain ⟨os, -, hcommits, hindices⟩ := all_commits rfl hall
  have hsound := (Progress.commits_whole (Progress.fresh_sound b.id b.size) rfl (.of_eq hindices)).1
  have hbatch := commits_batch { batch := b.id, count := b.size } os
  rw [← hcommits] at hsound hbatch
  obtain ⟨hsaved, hledgers, htold⟩ := conclude_saved hconclude
  -- a run that completes has saved its last checkpoint, whatever became of those before
  have hsave := (Archive.save_shelf ha he hk.stands).resolve_right fun hfailed => hfailed.2 hsaved
  rw [← Site.shelf_congr hledgers] at hsave
  have hsaved := hk.shelved.save rfl hk.own hsave
  have htally := hk.shelved.full rfl hsound hsave
  rw [hbatch, find_id hb] at hsaved
  rw [find_id hb] at htally
  refine ⟨htold.trans (find_id hb), ?_, hsaved.distinct, hsaved.others, fun f hf => ?_⟩
  · obtain ⟨os, hpassage⟩ := run_passage (e := e) hb r
    rw [h] at hpassage
    exact hpath.stands hpassage hs
  · rw [htally f hf, conclude_results hconclude]

theorem run_unskipped (hr : c.options.resume = false) (h : run c e r s id = (r', s', .ok told)) :
    ∀ o ∈ told.results, o.success = false → o.skipped = false := by
  intro o ho
  obtain ⟨b, s₁, p, r₁, -, hstart, hbatch⟩ := run_completed h
  obtain ⟨-, rfl⟩ := start_fresh hr hstart
  obtain ⟨os, hpassage, hindices, hresults⟩ := runBatch_completed rfl hbatch
  have hall := (Progress.commits_whole (Progress.fresh_sound b.id b.size) rfl (.of_eq hindices)).2.2.1
  rw [hresults, (Progress.ordered_perm _).mem_iff, hall] at ho
  have hmem : o ∈ os := by simpa using ho
  obtain ⟨-, s₂, m, w', -, -, hmigrate⟩ := hpassage.outcome hmem
  exact Conditions.migrate_unskipped hmigrate

end Runner

/-! ## Shards that take turns -/

namespace Course

section

variable {ω J : Type} {L : Labour ω J} {batch : Int} {count : Nat} {s t : Course ω J}
  {rest : List ((Int × Int) × Outcome)}

/-- A run that keeps its checkpoints in a ledger, which has all that was committed whenever
nothing waits to be saved. -/
structure Shelved (batch : Int) (rest : List ((Int × Int) × Outcome)) (s : Course ω J) : Prop where
  saves : s.enabled = true
  ledger : ∃ l, s.vault.ledger = some l ∧ l.Shelved batch rest s.progress ∧
    ((s.control.Filed ∨ ∃ e c, s.control = .reflecting e c) → l.Full rest s.progress)

theorem Shift.shelved (h : Shift L s t) (hs : Shelved batch rest s) : Shelved batch rest t := by
  cases h with
  | toil h => cases h <;> exact { hs with }
  | linger | drift => exact { hs with }

theorem Move.shelved (h : Move s t) (hk : Kept batch count s) (hs : Shelved batch rest s) :
    Shelved batch rest t := by
  obtain ⟨hsaves, l, hl, hshelved, hfull⟩ := hs
  rcases h.cases with ⟨hp, hv, -, hen, -, -, -, hfiled, heven⟩ | ⟨o, e, -, rfl⟩ |
    ⟨e, error, time, v, -, -, hv, rfl⟩ | ⟨e, c, hc, rfl⟩
  · refine ⟨hen.trans hsaves, l, hv ▸ hl, hp ▸ hshelved, fun hc => hp ▸ hfull (Or.inl ?_)⟩
    rcases hc with hc | ⟨e, c, hc⟩
    · exact hfiled hc (hen.trans hsaves)
    · rw [hc] at heven
      exact heven.elim
  · exact ⟨hsaves, l, hl, hshelved.commit o, fun hc => hc.elim False.elim nofun⟩
  · rw [Vault.record, hl] at hv
    obtain ⟨l', hsave, rfl⟩ := Option.map_eq_some_iff.mp hv
    exact ⟨hsaves, l', rfl, hshelved.save hk.own hk.sound.own hsave,
      fun _ => hshelved.full hk.own hk.sound hsave⟩
  · exact ⟨hsaves, l, hl, hshelved, fun _ => hfull (Or.inr ⟨e, c, hc⟩)⟩

theorem Runs.shelved (h : Runs L s t) (hf : Flow L count s) (hk : Kept batch count s)
    (hs : Shelved batch rest s) : Shelved batch rest t := by
  have hall : Flow L count t ∧ Kept batch count t ∧ Shelved batch rest t := by
    induction h with
    | refl => exact ⟨hf, hk, hs⟩
    | tail _ hstep ih =>
      obtain ⟨hf, hk, hs⟩ := ih
      exact hstep.elim (fun h => ⟨h.flow hf, h.kept hk, h.shelved hs⟩)
        fun h => ⟨h.flow hf, h.kept hf hk, h.shelved hk hs⟩
  exact hall.2.2

variable {w : ω} {v : Vault} {l : Ledger} {workers size : Int} {survivors : List (Worker J)}

/-- However the shards of a fresh run take turns, when it is completed the ledger has its outcomes
beside the rows of the other batches. -/
theorem Runs.completed_full (hv : v.Own batch) (hs : Reachable L batch count (new batch count w v) s)
    (hc : s.control = .clearing) (hsurvive : s.Outlives survivors) (hl : s.vault.ledger = some l)
    (hd : (keys l.rows).Nodup) (hcleared : ∀ i, (batch, i) ∉ keys l.rows)
    (h : Runs L ({ s with vault := s.vault.clearMirror }.started (.resumed batch count none) true workers
      size survivors) t) (hdone : t.control = .completed) :
    ∃ l', t.vault.ledger = some l' ∧ l'.others batch = l.others batch ∧ l'.Full (l.others batch) t.progress := by
  have hstart : Reachable L batch count (new batch count w v) ({ s with vault := s.vault.clearMirror }.started
      (.resumed batch count none) true workers size survivors) := hs.next (.start (.fresh hc hsurvive))
  have hf := hstart.flow (new_flow w v)
  have hk := hstart.kept (new_flow w v) (new_kept hv)
  have hshelved : l.Shelved batch (l.others batch) (.resumed batch count none) :=
    ⟨hd, rfl, fun i hi => absurd hi (hcleared i)⟩
  obtain ⟨-, l', hl', hkept, hfull⟩ := h.shelved hf hk ⟨rfl, l, hl, hshelved, fun _ => hshelved.full_fresh rfl⟩
  exact ⟨l', hl', hkept.others, hfull (Or.inl (by rw [hdone]; trivial))⟩

end

variable {c : Conditions} {b : Batch} {held : String → Prop} {s t : Course Workspace Job}

/-- However the shards of a fresh run take turns, when it is completed it has an outcome with one
form for each component, and the ledger counts of its batch what the summary does. -/
theorem Runs.completed_counted (hc : c.Recovers) {w : Workspace} {v : Vault} (hv : v.Own b.id)
    (hs : Reachable (c.labour b held) b.id b.size (new b.id b.size w v) s) (hclear : s.control = .clearing)
    {survivors : List (Worker Job)} (hsurvive : s.Outlives survivors) {l : Ledger}
    (hl : s.vault.ledger = some l) (hd : (keys l.rows).Nodup) (hcleared : ∀ i, (b.id, i) ∉ keys l.rows)
    {workers size : Int} (h : Runs (c.labour b held) ({ s with vault := s.vault.clearMirror }.started
      (.resumed b.id b.size none) true workers size survivors) t) (hdone : t.control = .completed)
    {told : Summary} (htold : told.results = t.progress.ordered) :
    (∀ o ∈ told.results, ∃! f, o.Has f) ∧ told.results.length = b.size ∧
    told.succeeded + told.skipped + told.failures.length = b.size ∧
    ∃ l', t.vault.ledger = some l' ∧ l'.succeeded = l.succeeded + told.succeeded ∧
      l'.skipped = l.skipped + told.skipped ∧ l'.unsuccessful = l.unsuccessful + told.failures.length := by
  obtain ⟨hposted, hindices⟩ := h.completed_commits rfl hdone
  obtain ⟨-, -, hresults, -⟩ := Progress.commits_whole Progress.resumed_sound Progress.resumed_count hindices
  have hled := h.led (started_led _ _ _ _ _ _)
  have hforms : ∀ o ∈ told.results, ∃ f, o.Has f := by
    intro o ho
    rw [htold, hposted, (Progress.ordered_perm _).mem_iff, hresults] at ho
    exact (hled.posted o (by simpa [Progress.resumed] using ho)).formed hc
  have hlength : told.results.length = b.size := by
    rw [htold, ← List.length_map (f := (·.index)), h.completed_indices hdone,
      List.length_map, List.length_range]
  have hun : ∀ o ∈ told.results, o.success = false → o.skipped = false := by
    intro o ho hsuccess
    obtain ⟨f, hf⟩ := hforms o ho
    cases f with
    | succeeded => exact hf.2.1
    | skipped => exact absurd (hsuccess.symm.trans hf.1) (by decide)
    | failed => exact hf.2.1
  obtain ⟨l', hl', -, hfull⟩ := h.completed_full hv hs hclear hsurvive hl hd hcleared hdone
  rw [Ledger.others_of_unfiled hcleared] at hfull
  refine ⟨fun o ho => ?_, hlength, told.counted.trans hlength, l', hl', hfull.counts htold hun⟩
  obtain ⟨f, hf⟩ := hforms o ho
  exact hf.unique

end Course

/-! ## Histories -/

/-- What comes of fresh runs with one ledger, one after the other, while other files may change. -/
inductive History (path : String) (s₀ : Site) : List Summary → Site → Prop where
  | start : History path s₀ [] s₀
  | between {told : List Summary} {s s' : Site} (h : History path s₀ told s)
      (hl : s'.ledgers = s.ledgers) (hs : s'.files.isFile path = true) : History path s₀ told s'
  | run {told : List Summary} {s s' : Site} {c : Conditions} {e : Equipment} {r r' : Runner} {id : Int}
      {t : Summary} (h : History path s₀ told s) (hc : c.Shelves path e)
      (hr : Runner.run c e r s id = (r', s', .ok t)) : History path s₀ (told ++ [t]) s'

namespace History

/-- A ledger that counts what some summaries count together. -/
structure Summed (path : String) (told : List Summary) (s : Site) : Prop where
  stands : s.files.isFile path = true
  distinct : (keys (s.shelf path).rows).Nodup
  within : ∀ k ∈ keys (s.shelf path).rows, k.1 ∈ told.map (·.batch)
  totals : ∀ f, Ledger.Kept f →
    Ledger.tally f (s.shelf path).rows = (told.map fun t => t.results.countP f).sum
  unskipped : ∀ t ∈ told, ∀ o ∈ t.results, o.success = false → o.skipped = false

variable {s₀ : Site} {summaries : List Summary} {l₀ : Ledger}

theorem summed_empty (h₀ : s.ledger? path = some l₀) (hempty : l₀.rows = []) : Summed path [] s := by
  unfold Site.ledger? at h₀
  split at h₀
  · next hs =>
    have hrows : (s.shelf path).rows = [] := by
      rw [← hempty, ← Option.some.inj h₀]
      rfl
    refine ⟨hs, ?_, ?_, ?_, nofun⟩
    · rw [hrows]
      exact List.nodup_nil
    · rw [hrows]
      exact nofun
    · intro f _
      rw [hrows]
      rfl
  · cases h₀

/-- A run of a batch that no summary is of adds its results. -/
theorem Summed.run (hpath : Path.Ledgered path) (h : Summed path summaries s) (hc : c.Shelves path e)
    (hr : Runner.run c e r s id = (r', s', .ok told)) (hnew : told.batch ∉ summaries.map (·.batch)) :
    Summed path (summaries ++ [told]) s' := by
  obtain ⟨hbatch, hstands, hdistinct, hothers, htally⟩ :=
    Runner.run_shelved hpath hc h.stands h.distinct hr
  rw [hbatch] at hnew
  have hold : (s.shelf path).others id = (s.shelf path).rows :=
    Ledger.others_of_unfiled fun i hi => hnew (h.within _ hi)
  refine ⟨hstands, hdistinct, fun k hk => ?_, fun f hf => ?_, fun t ht => ?_⟩
  · rw [List.map_append, List.mem_append]
    obtain ⟨row, hrow, rfl⟩ := List.mem_map.mp hk
    by_cases hid : row.1.1 = id
    · exact Or.inr (List.mem_singleton.mpr (hid.trans hbatch.symm))
    · have hmem : row ∈ (s'.shelf path).others id := List.mem_filter.mpr ⟨hrow, by simpa using hid⟩
      rw [hothers, hold] at hmem
      exact Or.inl (h.within _ (List.mem_map_of_mem hmem))
  · rw [htally f hf, hold, h.totals f hf, List.map_append, List.sum_append, List.map_singleton,
      List.sum_singleton]
  · rcases List.mem_append.mp ht with ht | ht
    · exact h.unskipped t ht
    · rw [List.mem_singleton.mp ht]
      exact Runner.run_unskipped hc.fresh hr

/-- Over runs of different batches a ledger that was empty counts what the summaries do. -/
theorem summed (hpath : Path.Ledgered path) (h₀ : s₀.ledger? path = some l₀) (hempty : l₀.rows = [])
    (h : History path s₀ summaries s) (hd : (summaries.map (·.batch)).Nodup) :
    Summed path summaries s := by
  induction h with
  | start => exact summed_empty h₀ hempty
  | @between told s s' _ hl hs ih =>
    obtain ⟨-, hdistinct, hwithin, htotals, hunskipped⟩ := ih hd
    rw [← Site.shelf_congr hl] at hdistinct hwithin htotals
    exact ⟨hs, hdistinct, hwithin, htotals, hunskipped⟩
  | run _ hc hr ih =>
    rw [List.map_append, List.nodup_append] at hd
    obtain ⟨hold, -, hnew⟩ := hd
    exact (ih hold).run hpath hc hr fun hmem => hnew _ hmem _ (List.mem_singleton_self _) rfl

theorem Summed.counts (h : Summed path summaries s) :
    ∃ l, s.ledger? path = some l ∧ l.succeeded = (summaries.map Summary.succeeded).sum ∧
      l.skipped = (summaries.map Summary.skipped).sum ∧
      l.unsuccessful = (summaries.map (·.failures.length)).sum := by
  refine ⟨_, Site.ledger?_stands h.stands, ?_, ?_, ?_⟩
  · rw [Ledger.succeeded_tally,
      h.totals Outcome.succeeded (Ledger.kept_marks fun success skipped => success && !skipped)]
    simp only [List.countP_eq_length_filter]
    rfl
  · rw [Ledger.skipped_tally, h.totals (·.skipped) (Ledger.kept_marks fun _ skipped => skipped)]
    simp only [List.countP_eq_length_filter]
    rfl
  · rw [Ledger.unsuccessful_tally, h.totals (fun o => !o.success) (Ledger.kept_marks fun success _ => !success)]
    exact congrArg List.sum (List.map_congr_left fun t ht => (Summary.failures_unsuccessful (h.unskipped t ht)).symm)

/-- Where nothing that goes wrong in a stage is an interruption, all that comes of an item has
exactly one form, and an item ends more than itself exactly where the target that it is to be
skipped for cannot be looked for. Every run that completes has a result for each component of
its batch, and each is counted in one way. After fresh runs of different batches, a ledger that
was empty counts what the summaries count together. -/
theorem counts_agree (hc : c.Recovers) (hpath : Path.Ledgered path) (h₀ : s₀.ledger? path = some l₀)
    (hempty : l₀.rows = []) (h : History path s₀ summaries s) (hd : (summaries.map (·.batch)).Nodup) :
    (∀ w i m, (∀ o, (c.migrate w i m).2 = .ok o → ∃! f, o.Has f) ∧
      ∀ mishap, (c.migrate w i m).2 = .error mishap ↔ ∃ t, c.Astray w m t ∧ mishap = .ofTrouble t) ∧
    (∀ (k : Conditions) (e : Equipment) (r r' : Runner) (s s' : Site) (id : Int) (b : Batch) (t : Summary),
      Runner.find k s id = .ok b → Runner.run k e r s id = (r', s', .ok t) →
        t.succeeded + t.skipped + t.failures.length = t.results.length ∧ t.results.length = b.size) ∧
    ∃ l, s.ledger? path = some l ∧ l.succeeded = (summaries.map Summary.succeeded).sum ∧
      l.skipped = (summaries.map Summary.skipped).sum ∧
      l.unsuccessful = (summaries.map (·.failures.length)).sum := by
  refine ⟨fun w i m => ⟨fun o ho => ?_, fun mishap => Conditions.migrate_interrupted hc⟩, ?_,
    (summed hpath h₀ hempty h hd).counts⟩
  · obtain ⟨f, hf⟩ := Conditions.migrate_has hc ho
    exact hf.unique
  · intro k e r r' s s' id b t hb hrun
    exact ⟨t.counted, Runner.run_counted hb hrun⟩

/-! ## Two runs -/

def shelving : Conditions :=
  { Conditions.calm with
    config := ⟨"/", [("roadmap_file", .str "r"), ("checkpoint_dir", .str "k"), ("workers", .int 1),
      ("shard_size", .int 1)], .standard⟩ }

/-- A roadmap of two batches and a ledger that is empty. The component of the first batch has
no path, that of the second is in the target language. -/
def opened : Site :=
  ⟨⟨[("/r", .file ("[\x7b\"id\":1,\"components\":[\x7b\"name\":\"a\",\"path\":5\x7d]\x7d," ++
      "\x7b\"id\":2,\"components\":[\x7b\"name\":\"b\",\"path\":\"b.ts\"\x7d]\x7d]")),
    ("/b.ts", .file "a;"), ("/l.duckdb", .file "")]⟩, []⟩

def marks (t : Summary) : Int × Nat × Nat × Nat := (t.batch, t.succeeded, t.skipped, t.failures.length)

/-- The marks of the summaries, if both batches are run. -/
def bothRun? : Option ((Int × Nat × Nat × Nat) × (Int × Nat × Nat × Nat)) := do
  let e ← (shelving.equip (some "/l.duckdb")).toOption
  let first := Runner.run shelving e {} opened 1
  let t₁ ← first.2.2.toOption
  let t₂ ← (Runner.run shelving e {} first.2.1 2).2.2.toOption
  return (marks t₁, marks t₂)

theorem bothRun?_marks : bothRun? = some ((1, 0, 0, 1), (2, 0, 1, 0)) := by
  decide +kernel

theorem run_eq {x : Runner × Site × Except RunError Summary} (h : x.2.2 = .ok told) :
    x = (x.1, x.2.1, .ok told) := by
  rw [← h]

theorem opened_history : ∃ t₁ t₂ s, History "/l.duckdb" opened [t₁, t₂] s ∧
    marks t₁ = (1, 0, 0, 1) ∧ marks t₂ = (2, 0, 1, 0) := by
  have h := bothRun?_marks
  simp only [bothRun?, bind, Option.bind_eq_some_iff] at h
  obtain ⟨e, he, t₁, ht₁, t₂, ht₂, h⟩ := h
  have hshelves : shelving.Shelves "/l.duckdb" e := ⟨rfl, rfl, ok_toOption he⟩
  have hmarks := Prod.mk.inj (Option.some.inj h)
  have hfirst : History "/l.duckdb" opened [t₁] (Runner.run shelving e {} opened 1).2.1 :=
    History.start.run hshelves (run_eq (ok_toOption ht₁))
  exact ⟨t₁, t₂, _, hfirst.run hshelves (run_eq (ok_toOption ht₂)), hmarks⟩

theorem calm_recovers {config : Config} {options : RunOptions} :
    Conditions.Recovers { Conditions.calm with config := config, options := options } :=
  fun _ _ _ h => nomatch h

theorem opened_agrees : shelving.Recovers ∧ Path.Ledgered "/l.duckdb" ∧
    opened.ledger? "/l.duckdb" = some {} ∧ ∃ t₁ t₂ s l, History "/l.duckdb" opened [t₁, t₂] s ∧
      ([t₁, t₂].map (·.batch)).Nodup ∧ s.ledger? "/l.duckdb" = some l ∧
      l.succeeded = 0 ∧ l.skipped = 1 ∧ l.unsuccessful = 1 := by
  have hpath : Path.Ledgered "/l.duckdb" := by decide
  have hledger : opened.ledger? "/l.duckdb" = some {} := Site.ledger?_stands (by decide +kernel)
  obtain ⟨t₁, t₂, s, hhistory, h₁, h₂⟩ := opened_history
  simp only [marks, Prod.mk.injEq] at h₁ h₂
  have hd : ([t₁, t₂].map (·.batch)).Nodup := by simp [h₁.1, h₂.1]
  obtain ⟨-, -, l, hl, hsucceeded, hskipped, hfailed⟩ :=
    counts_agree (c := shelving) calm_recovers hpath hledger rfl hhistory hd
  refine ⟨calm_recovers, hpath, hledger, t₁, t₂, s, l, hhistory, hd, hl, ?_, ?_, ?_⟩
  · simp [hsucceeded, h₁.2.1, h₂.2.1]
  · simp [hskipped, h₁.2.2.1, h₂.2.2.1]
  · simp [hfailed, h₁.2.2.2, h₂.2.2.2]

/-! ## A target folder that is no text -/

def numbered (skips : Bool) : Conditions :=
  { Conditions.calm with
    config := ⟨"/p", Keyed.put "target_dir" (.int 5) (Config.defaults (some 2)), .standard⟩
    options := { skipExisting := skips } }

def sourced : Workspace :=
  ⟨[("/p", .folder), ("/p/components", .folder), ("/p/components/a.js", .file "a;")]⟩

theorem numbered_unseen : failing Trouble.kind
    ((numbered true).config.existingTarget? sourced "components/a.js") = some "TypeError" := by
  decide +kernel

/-- Nothing comes of an item whose target cannot be looked for, where it would be skipped for
it. Where it would not be, the item fails at its analysis. -/
theorem numbered_raises : (numbered true).Recovers ∧
    (∃ mishap, ((numbered true).migrate sourced 0 (Conditions.memberAt "components/a.js")).2 =
      .error mishap ∧ mishap.kind = "TypeError" ∧ mishap.interrupts = false) ∧
    ∃ o, ((numbered false).migrate sourced 0 (Conditions.memberAt "components/a.js")).2 = .ok o ∧
      o.Has .failed ∧ o.stage = .str "analyze" := by
  obtain ⟨t, ht, hkind⟩ := failing_eq_some.mp numbered_unseen
  have hread : sourced.read ((numbered true).config.place "components/a.js") = .ok "a;" := by
    decide +kernel
  have hlanguage : SourceUnit.languageFor "components/a.js" = .javascript := by decide +kernel
  have hload := fun skips => Conditions.load_parsed (c := numbered skips) rfl hread rfl rfl
  have hrecovers : ∀ skips, (numbered skips).Recovers := fun _ => calm_recovers
  refine ⟨hrecovers true, ⟨_, (Conditions.migrate_interrupted (hrecovers true)).mpr
    ⟨t, ⟨rfl, _, _, rfl, hload true, hlanguage, ht⟩, rfl⟩, hkind, rfl⟩, ?_⟩
  have hmigrate := Conditions.migrate_analyzed (c := numbered false) (i := 0)
    (m := Conditions.memberAt "components/a.js") (fun _ _ => rfl) rfl rfl (hload false) hlanguage rfl
    WrittenScoring.standard_numeric ht
  exact ⟨_, hmigrate, ⟨rfl, rfl, ⟨.analyze, rfl⟩, _, t.message_ne, rfl⟩, rfl⟩

end History

end Retype

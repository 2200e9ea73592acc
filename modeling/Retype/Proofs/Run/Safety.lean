import Retype.Proofs.Run.Flow

/-!
# What runs keep

Every checkpoint that is saved tells the truth and holds what all before it held,
however shards, main line and interruptions take turns, and however often a run is
taken up again. No outcome is committed that was not posted, none twice, and a wave
is left behind only when all that was posted is committed.
-/

set_option autoImplicit false

namespace Retype.Course

variable {ω J : Type} {L : Labour ω J} {batch : Int} {count : Nat} {s t : Course ω J}

/-- What a run has and what is saved fit together. -/
structure Kept (batch : Int) (count : Nat) (s : Course ω J) : Prop where
  sound : s.progress.Sound
  own : s.progress.batch = batch
  whole : s.progress.count = count
  vault : s.vault.Own batch
  truthful : ∀ c ∈ s.saved, c.Truthful count
  grown : s.saved.Pairwise fun c d => d.indices ⊆ c.indices
  kept : ∀ c ∈ s.saved, ∀ i ∈ c.indices, i ∈ s.vault.indices batch count
  known : s.control.Up → s.enabled = true → ∀ c ∈ s.saved, c.indices ⊆ s.progress.done
  entered : s.control.Up → ∀ o ∈ s.commits, Keyed.get? o.index s.progress.results = some o
  emptied : s.control = .clearing → s.saved = []
  current : ∀ e c, s.control = .reflecting e c → s.enabled = true ∧
    (∃ error time, c = s.progress.checkpoint error time) ∧ (s.vault.ledger ≠ none → c ∈ s.saved)
  newest : s.control.Filed → s.enabled = true → s.commits ≠ [] →
    ∃ error time cs, s.saved = s.progress.checkpoint error time :: cs

/-- What a run has is what it took over and what it committed. -/
def Traced (s : Course ω J) : Prop := s.progress = s.commits.foldl Progress.commit s.origin

theorem resumed_sound (batch : Int) (count : Nat) (kept : Option Checkpoint) :
    (Progress.resumed batch count kept).Sound := by
  cases kept with
  | none => exact Progress.fresh_sound batch count
  | some c => exact Progress.ofCheckpoint_sound c count

theorem resumed_count (batch : Int) (count : Nat) (kept : Option Checkpoint) :
    (Progress.resumed batch count kept).count = count := by
  cases kept <;> rfl

/-! ## Steps -/

theorem new_kept {w : ω} {v : Vault} (hv : v.Own batch) :
    Kept batch count (new batch count w v : Course ω J) where
  sound := resumed_sound batch count none
  own := rfl
  whole := rfl
  vault := hv
  truthful := fun _ hc => nomatch hc
  grown := List.Pairwise.nil
  kept := fun _ hc => nomatch hc
  known := fun _ _ _ hc => nomatch hc
  entered := fun _ _ hc => nomatch hc
  emptied := fun _ => rfl
  current := fun _ _ hc => nomatch hc
  newest := False.elim

theorem Shift.kept (h : Shift L s t) (hs : Kept batch count s) : Kept batch count t := by
  cases h with
  | toil h => cases h <;> exact { hs with }
  | linger | drift => exact { hs with }

/-- A move of the main line commits an outcome, saves a checkpoint, or does neither. -/
theorem Move.cases (h : Move s t) :
    (t.progress = s.progress ∧ t.vault = s.vault ∧ t.saved = s.saved ∧ t.enabled = s.enabled ∧
      t.commits = s.commits ∧ t.origin = s.origin ∧ (t.control.Up → s.control.Up) ∧
      (t.control.Filed → t.enabled = true → s.control.Filed) ∧ t.control.Even) ∨
    (∃ o e, s.control.held = [o] ∧ t = s.committed o e) ∨
    (∃ e error time v, s.control = .recording e ∧ s.enabled = true ∧
      s.vault.record (s.progress.checkpoint error time) = some v ∧
      t = { s with
        vault := v
        control := .reflecting e (s.progress.checkpoint error time)
        saved := if s.vault.ledger.isSome then s.progress.checkpoint error time :: s.saved
          else s.saved }) ∨
    (∃ e c, s.control = .reflecting e c ∧
      t = { s with vault := s.vault.reflect c, control := e.next, saved := c :: s.saved }) := by
  cases h with
  | commit hc => exact Or.inr (Or.inl ⟨_, _, by rw [hc]; rfl, rfl⟩)
  | keep hc => exact Or.inr (Or.inl ⟨_, _, by rw [hc]; rfl, rfl⟩)
  | record hc hen hv => exact Or.inr (Or.inr (Or.inl ⟨_, _, _, _, hc, hen, hv, rfl⟩))
  | reflect hc => exact Or.inr (Or.inr (Or.inr ⟨_, _, hc, rfl⟩))
  | @pass e hc hen =>
    refine Or.inl ⟨rfl, rfl, rfl, rfl, rfl, rfl, fun _ => by rw [hc]; trivial, fun _ h => ?_, ?_⟩
    · exact absurd (h.symm.trans hen) (by decide)
    · cases e <;> trivial
  | crash => exact Or.inl ⟨rfl, rfl, rfl, rfl, rfl, rfl, False.elim, False.elim, trivial⟩
  | interrupt hc =>
    exact Or.inl ⟨rfl, rfl, rfl, rfl, rfl, rfl, fun _ => Control.inWave_up hc, False.elim, trivial⟩
  | abort hc =>
    exact Or.inl ⟨rfl, rfl, rfl, rfl, rfl, rfl, fun _ => Control.exposed_up hc, False.elim, trivial⟩
  | last hc | raise hc | pick hc | drop hc | salvaged hc =>
    exact Or.inl ⟨rfl, rfl, rfl, rfl, rfl, rfl, fun _ => by rw [hc]; trivial, False.elim, trivial⟩
  | wave hc | take hc | idle hc | seen hc | busy hc | late hc | close hc =>
    exact Or.inl ⟨rfl, rfl, rfl, rfl, rfl, rfl, fun _ => by rw [hc]; trivial,
      fun _ _ => by rw [hc]; trivial, trivial⟩

theorem Kept.turned (hs : Kept batch count s) (hp : t.progress = s.progress)
    (hv : t.vault = s.vault) (hsaved : t.saved = s.saved) (hen : t.enabled = s.enabled)
    (hcs : t.commits = s.commits) (hup : t.control.Up → s.control.Up)
    (hfiled : t.control.Filed → t.enabled = true → s.control.Filed) (he : t.control.Even) :
    Kept batch count t := by
  constructor
  · exact hp ▸ hs.sound
  · exact hp ▸ hs.own
  · exact hp ▸ hs.whole
  · exact hv ▸ hs.vault
  · exact hsaved ▸ hs.truthful
  · exact hsaved ▸ hs.grown
  · rw [hsaved, hv]
    exact hs.kept
  · intro h h'
    rw [hsaved, hp]
    exact hs.known (hup h) (hen ▸ h')
  · intro h
    rw [hcs, hp]
    exact hs.entered (hup h)
  · intro h
    rw [h] at he
    exact he.elim
  · intro e c h
    rw [h] at he
    exact he.elim
  · intro h h'
    rw [hcs, hsaved, hp]
    exact hs.newest (hfiled h h') (hen ▸ h')

theorem Kept.committed (hs : Kept batch count s) {o : Outcome} {e : Errand} (hup : s.control.Up)
    (ho : 0 ≤ o.index ∧ o.index < count) (hnew : o.index ∉ s.commits.map (·.index)) :
    Kept batch count (s.committed o e) := by
  refine ⟨?_, hs.own, hs.whole, hs.vault, hs.truthful, hs.grown, hs.kept, ?_, ?_, nofun, nofun,
    False.elim⟩
  · exact Progress.commit_sound hs.sound ho.1 (by rw [hs.whole]; exact ho.2)
  · intro _ hen c hc i hi
    exact Progress.mem_done_commit.mpr (Or.inr (hs.known hup hen c hc hi))
  · intro _ o' ho'
    rcases List.mem_append.mp ho' with ho' | ho'
    · have hne : o'.index ≠ o.index := fun h => hnew (h ▸ List.mem_map_of_mem ho')
      exact (Keyed.get?_put_other _ hne).trans (hs.entered hup o' ho')
    · cases List.mem_singleton.mp ho'
      exact Keyed.get?_put_self _

theorem Kept.checkpoint_truthful (hs : Kept batch count s) (error : Json) (time : String) :
    (s.progress.checkpoint error time).Truthful count := by
  have h := Progress.checkpoint_truthful hs.sound (by rw [hs.whole]; exact Int.natCast_nonneg count)
    error time
  rwa [hs.whole] at h

theorem Kept.mem_checkpoint (hs : Kept batch count s) {error : Json} {time : String} (i : Int) :
    i ∈ (s.progress.checkpoint error time).indices ↔ i ∈ s.progress.done :=
  Progress.mem_checkpoint_indices hs.sound

/-- A checkpoint of the progress joins those that are saved. -/
theorem Kept.joined (hs : Kept batch count s) (error : Json) (time : String) (hup : s.control.Up)
    (hen : s.enabled = true) :
    (∀ d ∈ s.progress.checkpoint error time :: s.saved, d.Truthful count) ∧
      (s.progress.checkpoint error time :: s.saved).Pairwise (fun c d => d.indices ⊆ c.indices) ∧
      ∀ d ∈ s.progress.checkpoint error time :: s.saved, d.indices ⊆ s.progress.done := by
  refine ⟨?_, List.pairwise_cons.mpr ⟨fun d hd i h => ?_, hs.grown⟩, ?_⟩
  · intro d hd
    rcases List.mem_cons.mp hd with rfl | hd
    · exact hs.checkpoint_truthful error time
    · exact hs.truthful d hd
  · exact (hs.mem_checkpoint i).mpr (hs.known hup hen d hd h)
  · intro d hd i h
    rcases List.mem_cons.mp hd with rfl | hd
    · exact (hs.mem_checkpoint i).mp h
    · exact hs.known hup hen d hd h

theorem Kept.recorded (hs : Kept batch count s) {e : Errand} {error : Json} {time : String}
    {v : Vault} (hc : s.control = .recording e) (hen : s.enabled = true)
    (hv : s.vault.record (s.progress.checkpoint error time) = some v) :
    Kept batch count { s with
      vault := v
      control := .reflecting e (s.progress.checkpoint error time)
      saved := if s.vault.ledger.isSome then s.progress.checkpoint error time :: s.saved
        else s.saved } := by
  have hup : s.control.Up := by rw [hc]; trivial
  obtain ⟨hall, hgrown, hsub⟩ := hs.joined error time hup hen
  by_cases hl : s.vault.ledger = none
  · -- Without a ledger nothing is saved yet.
    cases Vault.record_none hv hl
    have hsaved : s.vault.ledger.isSome = false := by rw [hl]; rfl
    simp only [hsaved, Bool.false_eq_true, if_false]
    refine ⟨hs.sound, hs.own, hs.whole, hs.vault, hs.truthful, hs.grown, hs.kept,
      fun _ => hs.known hup, fun _ => hs.entered hup, nofun, fun e' c h => ?_, False.elim⟩
    cases h
    exact ⟨hen, ⟨error, time, rfl⟩, fun hn => absurd hl hn⟩
  · have hsaved : s.vault.ledger.isSome = true := Option.isSome_iff_ne_none.mpr hl
    simp only [hsaved, if_true]
    refine ⟨hs.sound, hs.own, hs.whole, Vault.record_own hv hs.vault, hall, hgrown,
      fun d hd i h => ?_, fun _ _ => hsub, fun _ => hs.entered hup, nofun, fun e' c h => ?_, False.elim⟩
    · have hidx : i ∈ (s.progress.checkpoint error time).indices := (hs.mem_checkpoint i).mpr (hsub d hd h)
      have := Vault.record_indices hv hl hidx ((hs.checkpoint_truthful error time).within i hidx)
      rwa [show (s.progress.checkpoint error time).batch = batch from hs.own] at this
    · cases h
      exact ⟨hen, ⟨error, time, rfl⟩, fun _ => List.mem_cons_self⟩

theorem Kept.reflected (hs : Kept batch count s) {e : Errand} {c : Checkpoint}
    (hc : s.control = .reflecting e c) : Kept batch count
      { s with vault := s.vault.reflect c, control := e.next, saved := c :: s.saved } := by
  have hup : s.control.Up := by rw [hc]; trivial
  obtain ⟨hen, ⟨error, time, rfl⟩, hledger⟩ := hs.current e c hc
  obtain ⟨hall, hgrown, hsub⟩ := hs.joined error time hup hen
  refine ⟨hs.sound, hs.own, hs.whole, ?_, hall, hgrown, fun d hd i h => ?_, fun _ _ => hsub,
    fun _ => hs.entered hup, fun h => ?_, fun e' c' h => ?_, fun _ _ _ => ⟨error, time, s.saved, rfl⟩⟩
  · have hown : (s.progress.checkpoint error time).batch = batch := hs.own
    exact hown ▸ Vault.reflect_own
  · have hidx : i ∈ (s.progress.checkpoint error time).indices := (hs.mem_checkpoint i).mpr (hsub d hd h)
    refine Vault.reflect_indices hidx (fun hl => ?_) ((hs.checkpoint_truthful error time).within i hidx)
    exact hs.kept _ (hledger hl) i hidx
  · cases e <;> cases h
  · cases e <;> cases h

theorem Flow.held_within (hs : Flow L count s) {o : Outcome} (ho : s.control.held = [o]) :
    0 ≤ o.index ∧ o.index < count := by
  refine hs.within o.index (List.mem_append_left _ (List.mem_map_of_mem ?_))
  refine hs.passed.subset ?_
  simp [ho]

theorem Flow.commits_sublist (hs : Flow L count s) : s.commits.Sublist s.posted := by
  refine List.Sublist.trans ?_ hs.passed
  rw [List.append_assoc]
  exact List.sublist_append_left _ _

theorem Flow.commits_distinct (hs : Flow L count s) : (s.commits.map (·.index)).Nodup :=
  hs.distinct.sublist ((hs.commits_sublist.map _).trans (List.sublist_append_left _ _))

theorem Move.kept (h : Move s t) (hf : Flow L count s) (hs : Kept batch count s) :
    Kept batch count t := by
  rcases h.cases with ⟨hp, hv, hsaved, hen, hcs, -, hup, hfiled, he⟩ | ⟨o, e, ho, rfl⟩ |
    ⟨e, error, time, v, hc, hen, hv, rfl⟩ | ⟨e, c, hc, rfl⟩
  · exact hs.turned hp hv hsaved hen hcs hup hfiled he
  · refine hs.committed (Control.held_up ho) (hf.held_within ho) fun hmem => ?_
    have hd := (h.flow hf).commits_distinct
    rw [committed, List.map_append, List.nodup_append] at hd
    exact hd.2.2 o.index hmem o.index (by simp) rfl
  · exact hs.recorded hc hen hv
  · exact hs.reflected hc

theorem Kept.started (hs : Kept batch count s) {kept : Option Checkpoint} {enabled : Bool}
    {workers size : Int} {survivors : List (Worker J)} (hbatch : ∀ c, kept = some c → c.batch = batch)
    (hknown : enabled = true → ∀ c ∈ s.saved,
      c.indices ⊆ (Progress.resumed batch count kept).done) :
    Kept batch count (s.started (.resumed batch count kept) enabled workers size survivors) := by
  refine ⟨resumed_sound batch count kept, ?_, resumed_count batch count kept, hs.vault, hs.truthful,
    hs.grown, hs.kept, fun _ => hknown, nofun, nofun, nofun, fun _ _ h => absurd rfl h⟩
  cases kept with
  | none => rfl
  | some c => exact hbatch c rfl

theorem Start.kept (h : Start batch count s t) (hs : Kept batch count s) : Kept batch count t := by
  cases h with
  | @resume kept enabled workers size survivors hc hload =>
    refine hs.started (fun c hk => ?_) fun _ c hcs i hi => ?_
    · cases hk
      exact Vault.load_own hs.vault hload
    · have := hs.kept c hcs i hi
      rwa [Vault.indices, hload] at this
  | clear hc =>
    exact ⟨hs.sound, hs.own, hs.whole, hs.vault, by simp, .nil, by simp, fun h => False.elim h,
      fun h => False.elim h, fun _ => rfl, by simp, False.elim⟩
  | fresh hc =>
    have hnone := hs.emptied hc
    have hv : Kept batch count { s with vault := s.vault.clearMirror } := by
      refine ⟨hs.sound, hs.own, hs.whole, .of_unmirrored rfl, hs.truthful, hs.grown, ?_, hs.known, hs.entered,
        hs.emptied, ?_, hs.newest⟩
      · intro c h
        rw [hnone] at h
        cases h
      · intro e c h
        rw [hc] at h
        cases h
    refine hv.started (by simp) fun _ c h => ?_
    rw [hnone] at h
    cases h
  | dry hc => exact hs.started (by simp) (by simp)

theorem Step.kept (h : Step L batch count s t) (hf : Flow L count s) (hs : Kept batch count s) :
    Kept batch count t := by
  cases h with
  | shift h => exact h.kept hs
  | move h => exact h.kept hf hs
  | start h => exact h.kept hs

theorem Reachable.kept {s₀ : Course ω J} (h : Reachable L batch count s₀ s)
    (hf : Flow L count s₀) (hk : Kept batch count s₀) : Kept batch count s := by
  induction h with
  | here => exact hk
  | next hr hstep ih => exact hstep.kept (hr.flow hf) ih

/-! ## What was taken over and committed -/

theorem Shift.traced (h : Shift L s t) (hs : s.Traced) : t.Traced := by
  cases h with
  | toil h => cases h <;> exact hs
  | linger | drift => exact hs

theorem Move.traced (h : Move s t) (hs : s.Traced) : t.Traced := by
  rcases h.cases with ⟨hp, -, -, -, hcs, ho, -⟩ | ⟨o, e, -, rfl⟩ |
    ⟨e, error, time, v, -, -, -, rfl⟩ | ⟨e, c, -, rfl⟩
  · rw [Traced, hp, hcs, ho]
    exact hs
  · show s.progress.commit o = (s.commits ++ [o]).foldl Progress.commit s.origin
    rw [List.foldl_concat, ← hs]
  · exact hs
  · exact hs

theorem Start.traced (h : Start batch count s t) (hs : s.Traced) : t.Traced := by
  cases h with
  | clear => exact hs
  | resume | fresh | dry => rfl

theorem Step.traced (h : Step L batch count s t) (hs : s.Traced) : t.Traced := by
  cases h with
  | shift h => exact h.traced hs
  | move h => exact h.traced hs
  | start h => exact h.traced hs

theorem Reachable.traced {s₀ : Course ω J} (h : Reachable L batch count s₀ s) (h₀ : s₀.Traced) :
    s.Traced := by
  induction h with
  | here => exact h₀
  | next _ hstep ih => exact hstep.traced ih

theorem Flow.results (hs : Flow L count s) (ht : s.Traced) :
    s.progress.results = s.origin.results ++ s.commits.map fun o => (o.index, o) := by
  rw [show s.progress = _ from ht]
  refine Progress.results_commits (fun o ho => hs.fresh o.index ?_) hs.commits_distinct
  exact List.mem_append_left _ (List.mem_map_of_mem (hs.commits_sublist.subset ho))

theorem Flow.done_eq (hs : Flow L count s) (ht : s.Traced) : s.progress.done = s.filled := by
  rw [Progress.done, hs.results ht, filled, Progress.done, Keyed.keys, Keyed.keys, List.map_append,
    List.map_map]
  rfl

/-- A checkpoint that tells what the run took over and committed, and no more. -/
structure Shows (count : Nat) (s : Course ω J) (c : Checkpoint) : Prop where
  results : c.results.Perm (s.origin.results.map (·.2) ++ s.commits)
  completed : c.completed = s.filled.length
  next : Checkpoint.IsNext count s.filled c.next

theorem Kept.shows (hs : Kept batch count s) (hf : Flow L count s) (ht : s.Traced) (error : Json)
    (time : String) : Shows count s (s.progress.checkpoint error time) := by
  have hdone := hf.done_eq ht
  refine ⟨?_, ?_, ?_⟩
  · refine s.progress.ordered_perm.trans ?_
    rw [hf.results ht, List.map_append, List.map_map]
    simp [Function.comp_def]
  · rw [← hdone, Progress.done, Keyed.keys, List.length_map]
    rfl
  · have hcount : (0 : Int) ≤ s.progress.count := by
      rw [hs.whole]
      exact Int.natCast_nonneg count
    have hnext := Progress.next_isNext hcount fun i hi => (hs.sound.within i hi).2
    rwa [hdone, hs.whole] at hnext

/-- What a step saves is the checkpoint of what the run has. -/
theorem Step.saves (h : Step L batch count s t) (hs : Kept batch count s) {c : Checkpoint}
    (hc : t.saved = c :: s.saved) : ∃ error time, c = s.progress.checkpoint error time := by
  have hsame : t.saved ≠ s.saved := by simp [hc]
  cases h with
  | shift h =>
    cases h with
    | toil h => cases h <;> exact absurd rfl hsame
    | linger | drift => exact absurd rfl hsame
  | move h =>
    rcases h.cases with ⟨-, -, hsaved, -⟩ | ⟨o, e, -, rfl⟩ |
      ⟨e, error, time, v, -, -, -, rfl⟩ | ⟨e, c', hc', rfl⟩
    · exact absurd hsaved hsame
    · exact absurd rfl hsame
    · refine ⟨error, time, ?_⟩
      by_cases hl : s.vault.ledger.isSome
      · simp only [hl, if_true] at hc
        exact (List.cons.inj hc).1.symm
      · simp [hl] at hc
    · obtain ⟨-, ⟨error, time, rfl⟩, -⟩ := hs.current e c' hc'
      exact ⟨error, time, (List.cons.inj hc).1.symm⟩
  | start h =>
    cases h with
    | clear => cases hc
    | resume | fresh | dry => exact absurd rfl hsame

/-! ## Every course -/

theorem Checkpoint.Truthful.completed_le {c d : Checkpoint} (hc : c.Truthful count)
    (hd : d.Truthful count) (h : d.indices ⊆ c.indices) : d.completed ≤ c.completed := by
  have hn : d.indices.Nodup := hd.ascending.imp fun h => Int.ne_of_lt h
  have hlen := (List.subperm_of_subset hn h).length_le
  rw [hc.completed, hd.completed]
  simpa [Checkpoint.indices] using hlen

/-- Along every course each checkpoint that is saved tells the truth about its own outcomes
and about the run: it has all that the run took over and committed up to then, and the next
index is the first that has no outcome. While nothing goes wrong the newest one is up to date.
Each holds what all before it held, gives no smaller number of outcomes, and can be loaded
again whole. The outcomes committed in a run are of different items and among those posted;
and a wave is left behind only when all that was posted is committed. -/
theorem Reachable.checkpoints_truthful {w : ω} {v : Vault} (hv : v.Own batch)
    (h : Reachable L batch count (new batch count w v) s) :
    (∀ c ∈ s.saved, c.Truthful count ∧ c.indices ⊆ s.vault.indices batch count) ∧
      (∀ t c, Step L batch count s t → t.saved = c :: s.saved → Shows count s c) ∧
      (s.control.Filed → s.enabled = true → s.commits ≠ [] →
        ∃ c cs, s.saved = c :: cs ∧ Shows count s c) ∧
      s.saved.Pairwise (fun later earlier =>
        earlier.indices ⊆ later.indices ∧ earlier.completed ≤ later.completed) ∧
      (s.commits.map (·.index)).Nodup ∧ s.commits.Sublist s.posted ∧
      (s.control = .between → s.commits = s.posted ∧
        ∀ o ∈ s.posted, Keyed.get? o.index s.progress.results = some o) := by
  have hf := h.flow (new_flow w v)
  have hk := h.kept (new_flow w v) (new_kept hv)
  have ht := h.traced rfl
  refine ⟨fun c hc => ⟨hk.truthful c hc, hk.kept c hc⟩, fun t c hstep hc => ?_, fun hfiled hen hcs => ?_,
    ?_, hf.commits_distinct, hf.commits_sublist, fun hc => ?_⟩
  · obtain ⟨error, time, rfl⟩ := hstep.saves hk hc
    exact hk.shows hf ht error time
  · obtain ⟨error, time, cs, hsaved⟩ := hk.newest hfiled hen hcs
    exact ⟨_, cs, hsaved, hk.shows hf ht error time⟩
  · refine hk.grown.imp_of_mem fun hmem hmem' hsub => ⟨hsub, ?_⟩
    exact Checkpoint.Truthful.completed_le (hk.truthful _ hmem) (hk.truthful _ hmem') hsub
  · have hall := (hf.calm (by simp [hc, Control.Idle])).2
    rw [hc, (hf.settled (by simp [hc, Control.Idle])).1] at hall
    have heq : s.commits = s.posted := by simpa [Control.held] using hall
    refine ⟨heq, fun o ho => hk.entered (by rw [hc]; trivial) o ?_⟩
    rwa [heq]

def prompt : Labour Unit Int where
  begun := id
  Step := fun _ _ _ _ => False
  outcome? := fun i => some { index := i, name := .str "Card", success := true }
  owner := id
  Drift := fun _ _ => False
  owner_begun := fun _ => rfl
  owner_step := False.elim
  owner_outcome := by
    intro j o h
    cases h
    rfl

def prompted : Outcome := { index := 0, name := .str "Card", success := true }

def promptProgress : Progress := Progress.commit { batch := 1, count := 1 } prompted

def promptCheckpoint (error : Json) : Checkpoint := promptProgress.checkpoint error ""

def promptRun (p : Progress) (c : Control) : Course Unit Int :=
  { world := (), vault := {}, progress := p, origin := .resumed 1 1 none, control := c }

def promptFault : Checkpoint := promptCheckpoint (.str "KeyboardInterrupt")

/-- The item is committed, then the run is interrupted and about to save once more. -/
theorem prompt_interrupted : ∃ s : Course Unit Int, Reachable prompt 1 1 (new 1 1 () {}) s ∧
    s.control = .reflecting .fault promptFault ∧ s.saved = [promptCheckpoint .null] := by
  have hwaves : Shards.waves 1 1 [(0 : Int)] = [[[0]]] := by
    simp [Shards.waves, Shards.split, Shards.pieces]
  have h : Reachable prompt 1 1 (new 1 1 () {}) (new 1 1 () {}) := .here
  have h := h.next (.start (@Start.resume _ _ _ _ _ _ true 1 1 [] rfl rfl (Or.inl rfl)))
  have h : Reachable prompt 1 1 _
      { promptRun (.resumed 1 1 none) .waiting with workers := [{ rest := [0] }] } :=
    (h.next (.move (.wave rfl hwaves)) :)
  have h : Reachable prompt 1 1 _
      { promptRun (.resumed 1 1 none) .waiting with workers := [{ rest := [], job := some 0 }] } :=
    (h.next (.shift (.toil (.begin (l := []) rfl))) :)
  have h : Reachable prompt 1 1 _
      { promptRun (.resumed 1 1 none) .waiting with
        workers := [{ rest := [] }], posted := [prompted], outbox := [prompted] } :=
    (h.next (.shift (.toil (.post (l := []) rfl rfl))) :)
  have h : Reachable prompt 1 1 _
      { promptRun (.resumed 1 1 none) (.holding prompted) with
        workers := [{ rest := [] }], posted := [prompted] } :=
    (h.next (.move (.take rfl rfl)) :)
  have h : Reachable prompt 1 1 _
      { promptRun promptProgress (.recording .drain) with
        workers := [{ rest := [] }], posted := [prompted], commits := [prompted] } :=
    (h.next (.move (.commit rfl)) :)
  have h : Reachable prompt 1 1 _
      { promptRun promptProgress (.reflecting .drain (promptCheckpoint .null)) with
        workers := [{ rest := [] }], posted := [prompted], commits := [prompted] } :=
    (h.next (.move (@Move.record _ _ _ _ .null "" _ rfl rfl rfl)) :)
  have h : Reachable prompt 1 1 _
      { promptRun promptProgress .waiting with
        vault := { mirror := some (promptCheckpoint .null).toJson }
        workers := [{ rest := [] }], posted := [prompted], commits := [prompted],
        saved := [promptCheckpoint .null] } :=
    (h.next (.move (.reflect rfl)) :)
  have h : Reachable prompt 1 1 _
      { promptRun promptProgress .salvaging with
        vault := { mirror := some (promptCheckpoint .null).toJson }, stopped := true,
        workers := [{ rest := [] }], posted := [prompted], commits := [prompted],
        saved := [promptCheckpoint .null] } :=
    (h.next (.move (.interrupt trivial)) :)
  have h : Reachable prompt 1 1 _
      { promptRun promptProgress (.recording .fault) with
        vault := { mirror := some (promptCheckpoint .null).toJson }, stopped := true,
        workers := [{ rest := [] }], posted := [prompted], commits := [prompted],
        saved := [promptCheckpoint .null] } :=
    (h.next (.move (.salvaged rfl rfl)) :)
  have h := h.next (.move (@Move.record _ _ _ _ (.str "KeyboardInterrupt") "" _ rfl rfl rfl))
  exact ⟨_, h, rfl, rfl⟩

theorem prompt_checkpoints_truthful : ∃ s t : Course Unit Int,
    Step prompt 1 1 s t ∧ t.control = .down ∧ t.saved = [promptFault, promptCheckpoint .null] ∧
      (∀ c ∈ t.saved, c.Truthful 1 ∧ c.indices ⊆ t.vault.indices 1 1) ∧ Shows 1 s promptFault ∧
      t.saved.Pairwise (fun later earlier =>
        earlier.indices ⊆ later.indices ∧ earlier.completed ≤ later.completed) := by
  obtain ⟨s, h, hc, hsaved⟩ := prompt_interrupted
  have hown : Vault.Own {} 1 := .of_unmirrored rfl
  have hlast : Step prompt 1 1 s _ := .move (.reflect hc)
  obtain ⟨-, hshows, -⟩ := Reachable.checkpoints_truthful hown h
  obtain ⟨htruth, -, -, hgrown, -⟩ := Reachable.checkpoints_truthful hown (h.next hlast)
  exact ⟨s, _, hlast, rfl, congrArg _ hsaved, htruth, hshows _ _ hlast rfl, hgrown⟩

end Retype.Course

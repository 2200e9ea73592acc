import Retype.Proofs.Run.Copying
import Retype.Proofs.Run.Ending
import Retype.Proofs.Run.Lasting
import Retype.Proofs.Run.Targets

/-!
# The forms of outcomes

Whatever comes of an item has one of three forms: it succeeded, or was skipped for a reason,
or failed at a stage with an error. Nothing that goes wrong in a stage ends more than the
item. What goes wrong between the stages does, and there is one such place: where existing
targets count, looking for the target of a source that was loaded.
-/

set_option autoImplicit false

namespace Retype

namespace Outcome

inductive Form where
  | succeeded
  | skipped
  | failed
  deriving DecidableEq

/-- A value that is a text and not an empty one. -/
def Tells (v : Json) : Prop := ∃ s, s ≠ "" ∧ v = .str s

/-- An outcome with all that its form asks for. -/
def Has (o : Outcome) : Form → Prop
  | .succeeded => o.success = true ∧ o.skipped = false ∧ o.error = .null ∧ o.stage = .null
  | .skipped => o.success = true ∧ o.skipped = true ∧ Tells o.reason ∧ o.error = .null
  | .failed => o.success = false ∧ o.skipped = false ∧ (∃ s : Stage, o.stage = .str s.text) ∧ Tells o.error

def form (o : Outcome) : Form :=
  if o.success then if o.skipped then .skipped else .succeeded else .failed

variable {o : Outcome} {f : Form}

theorem Has.eq_form (h : o.Has f) : f = o.form := by
  cases f with
  | succeeded => simp [form, h.1, h.2.1]
  | skipped => simp [form, h.1, h.2.1]
  | failed => simp [form, h.1]

theorem Has.unique (h : o.Has f) : ∃! f, o.Has f :=
  ⟨f, h, fun _ h' => h'.eq_form.trans h.eq_form.symm⟩

end Outcome

/-! ## Interruptions -/

namespace Conditions

open Outcome

/-- What goes wrong before a stage is of some kind, and is no interruption. -/
def Recovers (c : Conditions) : Prop :=
  ∀ stage path m, c.upset stage path = some m → m.interrupts = false ∧ m.kind ≠ ""

/-- The target that an item is to be skipped for cannot be looked for. -/
structure Astray (c : Conditions) (w : Workspace) (m : Member) (t : Trouble) : Prop where
  skips : c.options.skipExisting = true
  fails : ∃ path u, m.path.step = .ok path ∧ c.load w path = .ok u ∧ u.language = .javascript ∧
    c.config.existingTarget? w path = .error t

variable {c : Conditions} {w w' : Workspace} {i : Int} {m : Member} {o r : Outcome} {path : String}
  {u : SourceUnit} {mishap : Mishap}

theorem Recovers.named (hc : c.Recovers) (stage : Stage) (path : String) (m : Mishap)
    (hm : c.upset stage path = some m) : m.kind ≠ "" :=
  (hc stage path m hm).2

theorem enter_recovers (hc : c.Recovers) {stage : Stage} :
    c.enter stage path ≠ .error (.interrupted mishap) := by
  intro h
  unfold enter at h
  split at h
  · cases h
  · next m hm =>
    rw [if_neg (by simp [(hc stage path m hm).1])] at h
    cases h

theorem attempt_recovers (hc : c.Recovers) {α : Type} {stage : Stage} {work : Except Trouble α} :
    c.attempt stage path work ≠ .error (.interrupted mishap) := by
  intro h
  rcases error_bind h with he | ⟨-, -, hwork⟩
  · exact enter_recovers hc he
  · cases work <;> cases hwork

theorem load_recovers (hc : c.Recovers) : c.load w path ≠ .error (.interrupted mishap) := by
  intro h
  rcases error_bind h with he | ⟨-, -, hread⟩
  · exact enter_recovers hc he
  · split at hread
    · cases hread
    · split at hread <;> cases hread

theorem between_interrupted {α : Type} {work : Except Trouble α} :
    between work = .error (.interrupted mishap) ↔ ∃ t, work = .error t ∧ mishap = .ofTrouble t := by
  constructor
  · intro h
    cases work with
    | error t =>
      cases h
      exact ⟨t, rfl, rfl⟩
    | ok => cases h
  · rintro ⟨t, rfl, rfl⟩
    rfl

/-- The target of a profile that could be made is known. -/
theorem profile_target {p : Profile} (hp : c.config.profile w u = .ok p) (hl : u.language = .javascript) :
    ∃ t, c.config.targetOf p = .ok t := by
  have hpath := Config.profile_path hp
  obtain ⟨table, -, hp⟩ := ok_bind hp
  obtain ⟨score, -, hp⟩ := ok_bind hp
  obtain ⟨migrated, hmigrated, -⟩ := ok_bind hp
  rw [Config.isMigrated, if_neg (by simp [hl])] at hmigrated
  obtain ⟨found, hfound, -⟩ := ok_bind hmigrated
  rw [Config.targetOf, hpath]
  -- making it took the targets of the source, and markup decides only on the extension
  rcases c.config.target_cases u.path with ⟨f, hf⟩ | htargets
  · rw [Config.existingTarget?, Config.firstTarget?, hf] at hfound
    cases hfound
  · exact htargets p.hasMarkup

/-- Preparing a unit is interrupted only where the target that it is to be skipped for cannot
be looked for. -/
theorem prepareUnit_interrupted (hc : c.Recovers) :
    c.prepareUnit w path u = .error (.interrupted mishap) ↔ u.language = .javascript ∧
      c.options.skipExisting = true ∧ ∃ t, c.config.existingTarget? w path = .error t ∧
        mishap = .ofTrouble t := by
  unfold prepareUnit
  by_cases hl : u.language = .javascript
  · simp only [hl, ne_eq, not_true_eq_false, if_false, true_and]
    constructor
    · intro h
      rcases error_bind h with hoccupied | ⟨found, -, h⟩
      · unfold occupied? at hoccupied
        split at hoccupied
        · next hs => exact ⟨hs, between_interrupted.mp hoccupied⟩
        · cases hoccupied
      split at h
      · cases h
      rcases error_bind h with he | ⟨p, hp, h⟩
      · exact absurd he (attempt_recovers hc)
      rcases error_bind h with he | ⟨s, -, h⟩
      · exact absurd he (attempt_recovers hc)
      rcases error_bind h with he | ⟨target, -, h⟩
      · obtain ⟨-, -, hp⟩ := ok_bind hp
        obtain ⟨t, ht⟩ := profile_target (ok_mapError hp) hl
        rw [ht] at he
        cases he
      rcases error_bind h with he | ⟨t, -, h⟩
      · exact absurd he (attempt_recovers hc)
      split at h <;> cases h
    · rintro ⟨hs, t, ht, rfl⟩
      rw [occupied?, if_pos hs, ht]
      rfl
  · simp only [ne_eq, hl, not_false_eq_true, if_true, false_and, iff_false]
    intro h
    cases h

theorem halted_raises {h : Halt} : halted o h = .error mishap ↔ h = .interrupted mishap := by
  constructor
  · intro hr
    cases h <;> cases hr
    rfl
  · rintro rfl
    rfl

theorem checked_recovers (hc : c.Recovers) {target : String} : c.checked path target o ≠ .error mishap := by
  intro h
  unfold checked at h
  split at h
  · split at h
    · next he => exact enter_recovers hc (halted_raises.mp h ▸ he)
    · cases h
  · cases h

theorem finish_recovers (hc : c.Recovers) {t : Retyped} : (c.finish w path o t).2 ≠ .error mishap := by
  intro h
  unfold finish at h
  split at h
  · next he => exact enter_recovers hc (halted_raises.mp h ▸ he)
  · split at h
    · cases h
    · split at h
      · cases h
      · cases h
      · exact checked_recovers hc h

/-- An item ends more than itself exactly where the target that it is to be skipped for
cannot be looked for. -/
theorem migrate_interrupted (hc : c.Recovers) :
    (c.migrate w i m).2 = .error mishap ↔ ∃ t, c.Astray w m t ∧ mishap = .ofTrouble t := by
  unfold migrate
  cases hstep : m.path.step with
  | error f =>
    constructor
    · intro h
      cases h
    · rintro ⟨t, hastray, -⟩
      obtain ⟨path, u, hpath, -⟩ := hastray.fails
      rw [hstep] at hpath
      cases hpath
  | ok path =>
    have hprepare : c.prepare w path = .error (.interrupted mishap) ↔
        ∃ t, c.Astray w m t ∧ mishap = .ofTrouble t := by
      constructor
      · intro h
        rcases error_bind h with he | ⟨u, hu, h⟩
        · exact absurd he (load_recovers hc)
        · obtain ⟨hl, hs, t, ht, rfl⟩ := (prepareUnit_interrupted hc).mp h
          exact ⟨t, ⟨hs, path, u, hstep, hu, hl, ht⟩, rfl⟩
      · rintro ⟨t, ⟨hs, path', u, hpath, hu, hl, ht⟩, rfl⟩
        cases hstep.symm.trans hpath
        rw [prepare_loaded hu]
        exact (prepareUnit_interrupted hc).mpr ⟨hl, hs, t, ht, rfl⟩
    rw [← hprepare]
    cases hp : c.prepare w path with
    | error h =>
      simp only [hp, Except.error.injEq]
      exact halted_raises
    | ok p =>
      refine iff_of_false ?_ nofun
      cases p with
      | skip =>
        simp only [hp]
        exact nofun
      | ready =>
        simp only [hp]
        exact finish_recovers hc

/-- Where items are not skipped for their targets, looking for a target is left to the
analysis: what goes wrong there is a failure at that stage. -/
theorem migrate_analyzed (hu : ∀ stage path, c.upset stage path = none)
    (hs : c.options.skipExisting = false) (hm : m.path.step = .ok path) (hload : c.load w path = .ok u)
    (hl : u.language = .javascript) {table : AliasTable} (ha : c.config.aliasTable = .ok table)
    (hn : WrittenScoring.Numeric c.config.scoring) {t : Trouble}
    (ht : c.config.existingTarget? w path = .error t) :
    (c.migrate w i m).2 = .ok ((c.begun i m).failedAt .analyze t.message) := by
  have hprofile : c.config.profile w u = .error t := by
    obtain ⟨score, hscore⟩ :=
      WrittenScoring.score_numbers hn (Decimal.roundTo 4) (u.profile table).count
    have hmigrated : c.config.isMigrated w u = .error t := by
      rw [Config.isMigrated, if_neg (by simp [hl]), load_path hload, ht]
      rfl
    unfold Config.profile
    rw [ha]
    simp only [bind, Except.bind, liftM, monadLift, MonadLift.monadLift, Except.mapError, Profile.score,
      hscore, hmigrated]
  have hprepare : c.prepare w path = .error (.failed .analyze t.message) := by
    rw [prepare_loaded hload]
    unfold prepareUnit
    rw [if_neg (by simp [hl]), occupied?_none hs, bind_ok]
    simp only [attempt, enter, hu, hprofile, bind, Except.bind, Except.mapError]
  unfold migrate
  simp only [hm, hprepare, halted_failed]

/-! ## Forms -/

/-- Of an outcome at the beginning of the stages nothing is known yet. -/
structure Untold (o : Outcome) : Prop where
  success : o.success = false
  skipped : o.skipped = false
  error : o.error = .null
  stage : o.stage = .null

theorem begun_untold (i : Int) (m : Member) : Untold (c.begun i m) := ⟨rfl, rfl, rfl, rfl⟩

theorem Untold.halted (ho : Untold o) {h : Halt} (hs : h.Speaks) (hr : halted o h = .ok r) :
    r.Has .failed := by
  cases h with
  | interrupted => cases hr
  | failed stage text =>
    cases hr
    exact ⟨ho.success, ho.skipped, ⟨stage, rfl⟩, text, hs, rfl⟩

theorem Untold.through (ho : Untold o) (warnings : List Json) :
    { o with success := true, warnings := warnings : Outcome }.Has .succeeded :=
  ⟨rfl, ho.skipped, ho.error, ho.stage⟩

theorem Untold.checked (hc : c.Recovers) (ho : Untold o) {target : String}
    (hr : c.checked path target o = .ok r) : ∃ f, r.Has f := by
  unfold Conditions.checked at hr
  split at hr
  · split at hr
    · next he => exact ⟨_, ho.halted (enter_speaks hc.named he) hr⟩
    · cases hr
      exact ⟨_, ho.through _⟩
  · cases hr
    exact ⟨_, ho.through _⟩

theorem Untold.passed (ho : Untold o) {reason : String} {target : Option String} (hr : reason ≠ "") :
    (passed o reason target).Has .skipped := ⟨rfl, rfl, ⟨reason, hr, rfl⟩, ho.error⟩

theorem Untold.yielded (ho : Untold o) {t : Retyped} : (yielded o t).Has .skipped := by
  refine ⟨rfl, rfl, ⟨_, ?_, rfl⟩, ho.error⟩
  exact append_ne_of_right (by decide)

theorem prepareUnit_reason {reason : String} {target : Option String}
    (h : c.prepareUnit w path u = .ok (.skip reason target)) : reason ≠ "" := by
  unfold prepareUnit at h
  split at h
  · cases h
    decide
  · obtain ⟨found, -, h⟩ := ok_bind h
    split at h
    · cases h
      exact append_ne_of_left (by decide)
    · obtain ⟨p, -, h⟩ := ok_bind h
      obtain ⟨s, -, h⟩ := ok_bind h
      obtain ⟨target, -, h⟩ := ok_bind h
      obtain ⟨r, -, h⟩ := ok_bind h
      split at h <;> cases h

/-! ## Items step by step -/

/-- A job knows nothing of its outcome yet, or has one with a form. -/
def Formed : Job → Prop
  | .untouched _ => True
  | .loaded o _ _ | .looking o _ _ _ _ | .writing o _ _ _ _ => Untold o
  | .done o => ∃ f, o.Has f

variable {b : Batch} {j j' : Job}

theorem ended_formed {r : Except Mishap Outcome} (hr : ∀ o, r = .ok o → ∃ f, o.Has f)
    (h : ended w r = some (w', j)) : Formed j := by
  obtain ⟨o, ho, -, rfl⟩ := ended_eq h
  exact hr o ho

theorem ended_halted (ho : Untold o) {h : Halt} (hs : h.Speaks)
    (hj : ended w (halted o h) = some (w', j)) : Formed j :=
  ended_formed (fun _ hr => ⟨_, ho.halted hs hr⟩) hj

theorem takeUp_formed (hc : c.Recovers) (h : c.takeUp w i m = some (w', j)) : Formed j := by
  have huntold := c.begun_untold i m
  unfold takeUp at h
  split at h
  · next f _ => exact ended_halted (h := .failed .load f.message) huntold f.message_ne h
  · split at h
    · next he => exact ended_halted huntold (load_speaks hc.named he) h
    · cases h
      exact huntold

theorem leadUp_formed (hc : c.Recovers) (ho : Untold o) (h : c.leadUp w o path u = some (w', j)) :
    Formed j := by
  unfold leadUp at h
  split at h
  · next he => exact ended_halted ho (prepareUnit_speaks hc.named he) h
  · next he =>
    cases h
    exact ⟨_, ho.passed (prepareUnit_reason he)⟩
  · next t _ =>
    have ha : Untold (announced o t) := ⟨ho.success, ho.skipped, ho.error, ho.stage⟩
    split at h
    · next he => exact ended_halted ha (enter_speaks hc.named he) h
    · split at h
      · cases h
        exact ⟨_, ha.through _⟩
      · cases h
        exact ha

theorem lookAt_formed (ho : Untold o) {t : Retyped} {seen : List ((String × String) × Option String)}
    {rest : List (String × String)} (h : c.lookAt w o path t seen rest = some (w', j)) : Formed j := by
  unfold lookAt at h
  split at h
  · split at h
    · cases h
      exact ⟨_, ho.yielded⟩
    · cases h
      exact ho
  · split at h
    · next e _ => exact ended_halted (h := .failed .write e.message) ho e.message_ne h
    · cases h
      exact ho

theorem goOn_formed (ho : Untold o) {next : Job} (hn : Formed next) {r : Workspace × Option OsError}
    (h : goOn o next r = some (w', j)) : Formed j := by
  unfold goOn at h
  split at h
  · next w e => exact ended_halted (h := .failed .write e.message) ho e.message_ne h
  · cases h
    exact hn

theorem putDown_formed (hc : c.Recovers) (ho : Untold o) {t : Retyped} {pen : Pen}
    {rest : List (String × String)} (h : c.putDown w o path t pen rest = some (w', j)) : Formed j := by
  have hnext : ∀ pen rest, Formed (.writing o path t pen rest) := fun _ _ => ho
  unfold putDown at h
  split at h
  · exact ended_formed (fun _ => ho.checked hc) h
  · exact goOn_formed ho (hnext _ _) h
  · exact goOn_formed ho (hnext _ _) h
  · exact goOn_formed ho (hnext _ _) h

/-- Whatever becomes of the files between its steps, an item comes to an outcome with a form. -/
theorem Works.formed (hc : c.Recovers) (hj : Formed j) (h : c.Works b w j w' j') : Formed j' := by
  cases h with
  | tear => exact hj
  | step h =>
    cases j with
    | untouched i =>
      obtain ⟨m, -, h⟩ := Option.bind_eq_some_iff.mp h
      exact takeUp_formed hc h
    | loaded => exact leadUp_formed hc hj h
    | looking => exact lookAt_formed hj h
    | writing => exact putDown_formed hc hj h
    | done => cases h

theorem through_formed (hc : c.Recovers) {y z : Workspace × Job} (hy : Formed y.2) (h : c.Through b y z) :
    Formed z.2 := by
  induction h with
  | refl => exact hy
  | tail _ hstep ih => exact (Works.step hstep).formed hc ih

theorem migrate_has (hc : c.Recovers) (h : (c.migrate w i m).2 = .ok o) : ∃ f, o.Has f := by
  let b : Batch := { (default : Batch) with members := .replicate (i.toNat + 1) m }
  have hm : b.members[i.toNat]? = some m := by simp [b]
  exact through_formed hc (y := (w, .untouched i)) trivial (migrate_through hm (Prod.ext rfl h))

end Conditions

end Retype

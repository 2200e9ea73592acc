import Retype.Proofs.Fault
import Retype.Proofs.Run.Verdict

/-!
# How migrating an item ends

An item ends early, and then nothing happened to the files, or it comes to writing: its
outputs cannot be looked at, or they yield to files that stand there, or those that are
not there yet are written one after the other. What comes of an item and what it does to
the files is read off these four endings.
-/

set_option autoImplicit false

namespace Retype

namespace Conditions

open Workspace

variable (c : Conditions)

/-- An item comes to writing what was prepared for it. -/
structure Reaches (w : Workspace) (m : Member) (path : String) (t : Retyped) : Prop where
  step : m.path.step = .ok path
  prepared : c.prepare w path = .ok (.ready t)
  entered : c.enter .write path = .ok ()
  writes : c.options.dryRun = false

/-- What comes of an item that does not come to writing. -/
inductive Early (i : Int) (m : Member) : Except Mishap Outcome → Prop where
  | interrupted {mishap : Mishap} : Early i m (.error mishap)
  | failed {stage : Stage} {text : String} (hs : stage ≠ .verify) :
      Early i m (.ok ((c.begun i m).failedAt stage text))
  | barred {t : Retyped} {text : String} :
      Early i m (.ok ((announced (c.begun i m) t).failedAt .write text))
  | passed {reason : String} {target : Option String} :
      Early i m (.ok (passed (c.begun i m) reason target))
  | rehearsed {t : Retyped} (hd : c.options.dryRun = true) :
      Early i m (.ok { announced (c.begun i m) t with success := true })

/-- The endings of an item, with the files that it leaves and what comes of it. -/
inductive Ending (w : Workspace) (i : Int) (m : Member) :
    Workspace → Except Mishap Outcome → Prop where
  | early {r : Except Mishap Outcome} (h : c.Early i m r) : Ending w i m w r
  | unseen {path : String} {t : Retyped} {e : OsError} (h : c.Reaches w m path t)
      (he : w.standing (c.config.outputs t) = .error e) :
      Ending w i m w (.ok ((announced (c.begun i m) t).failedAt .write e.message))
  | yields {path : String} {t : Retyped} {seen : List ((String × String) × Option String)}
      (h : c.Reaches w m path t) (hseen : w.standing (c.config.outputs t) = .ok seen)
      (hr : refuses c.options.force seen = true) :
      Ending w i m w (.ok (yielded (announced (c.begun i m) t) t))
  | writes {path : String} {t : Retyped} {seen : List ((String × String) × Option String)}
      {w' : Workspace} {e : Option OsError} (h : c.Reaches w m path t)
      (hseen : w.standing (c.config.outputs t) = .ok seen)
      (hr : refuses c.options.force seen = false) (hw : w.writeEach (changed seen) = (w', e)) :
      Ending w i m w' (c.concluded (announced (c.begun i m) t) path t e)

variable {c} {w w' : Workspace} {i : Int} {m : Member} {path : String}

theorem enter_stage {stage s : Stage} {text : String} (h : c.enter stage path = .error (.failed s text)) :
    s = stage := by
  unfold enter at h
  split at h
  · cases h
  · split at h
    · cases h
    · cases h
      rfl

theorem attempt_stage {α : Type} {stage s : Stage} {text : String} {work : Except Trouble α}
    (h : c.attempt stage path work = .error (.failed s text)) : s = stage := by
  rcases error_bind h with he | ⟨-, -, hwork⟩
  · exact enter_stage he
  · cases work with
    | ok => cases hwork
    | error =>
      cases hwork
      rfl

theorem between_interrupts {α : Type} {work : Except Trouble α} {s : Stage} {text : String} :
    between work ≠ .error (Halt.failed s text) := by
  intro h
  cases work <;> cases h

theorem occupied?_interrupts {s : Stage} {text : String} :
    c.occupied? w path ≠ .error (.failed s text) := by
  unfold occupied?
  split
  · exact between_interrupts
  · exact fun h => nomatch h

theorem load_stage {s : Stage} {text : String} (h : c.load w path = .error (.failed s text)) : s = .load := by
  rcases error_bind h with he | ⟨-, -, hread⟩
  · exact enter_stage he
  · split at hread
    · cases hread
      rfl
    · split at hread
      · cases hread
        rfl
      · cases hread

/-- What is prepared for an item never fails at the check of its target. -/
theorem prepare_stage {s : Stage} {text : String} (h : c.prepare w path = .error (.failed s text)) :
    s ≠ .verify := by
  rcases error_bind h with hload | ⟨u, -, hunit⟩
  · rw [load_stage hload]
    decide
  · unfold prepareUnit at hunit
    split at hunit
    · cases hunit
    · rcases error_bind hunit with he | ⟨found, -, hunit⟩
      · exact absurd he occupied?_interrupts
      split at hunit
      · cases hunit
      rcases error_bind hunit with he | ⟨p, -, hunit⟩
      · rw [attempt_stage he]
        decide
      rcases error_bind hunit with he | ⟨syn, -, hunit⟩
      · rw [attempt_stage he]
        decide
      rcases error_bind hunit with he | ⟨target, -, hunit⟩
      · exact absurd he between_interrupts
      rcases error_bind hunit with he | ⟨t, -, hunit⟩
      · rw [attempt_stage he]
        decide
      split at hunit
      · cases hunit
        decide
      · cases hunit

theorem migrate_ends {r : Except Mishap Outcome} (h : c.migrate w i m = (w', r)) :
    c.Ending w i m w' r := by
  unfold migrate at h
  cases hstep : m.path.step with
  | error f =>
    simp only [hstep] at h
    cases h
    exact .early (.failed (by decide))
  | ok path =>
    simp only [hstep] at h
    cases hp : c.prepare w path with
    | error halt =>
      simp only [hp] at h
      cases h
      cases halt with
      | interrupted => exact .early .interrupted
      | failed => exact .early (.failed (prepare_stage hp))
    | ok p =>
      cases p with
      | skip reason target =>
        simp only [hp] at h
        cases h
        exact .early .passed
      | ready t =>
        simp only [hp, finish] at h
        cases henter : c.enter .write path with
        | error halt =>
          simp only [henter] at h
          cases h
          cases halt with
          | interrupted => exact .early .interrupted
          | failed s =>
            cases enter_stage henter
            exact .early .barred
        | ok =>
          simp only [henter] at h
          by_cases hdry : c.options.dryRun = true
          · rw [if_pos hdry] at h
            cases h
            exact .early (.rehearsed hdry)
          · have hreach : c.Reaches w m path t :=
              ⟨hstep, hp, henter, Bool.not_eq_true _ ▸ hdry⟩
            rw [if_neg hdry, writeOutputs] at h
            cases hseen : w.standing (c.config.outputs t) with
            | error e =>
              simp only [hseen] at h
              cases h
              exact .unseen hreach hseen
            | ok seen =>
              simp only [hseen] at h
              by_cases hr : refuses c.options.force seen = true
              · simp only [if_pos hr] at h
                cases h
                exact .yields hreach hseen hr
              · simp only [if_neg hr] at h
                cases hw : w.writeEach (changed seen) with
                | mk w₁ e =>
                  have hend := Ending.writes (i := i) hreach hseen (Bool.not_eq_true _ ▸ hr) hw
                  cases e <;>
                  · simp only [hw] at h
                    cases h
                    exact hend

/-! ## Outcomes -/

/-- An item that was written is checked, and succeeds unless the check cannot be made. -/
theorem checked_ok {target : String} {o r : Outcome} (h : c.checked path target o = .ok r) :
    (∃ warnings, r = { o with success := true, warnings := warnings }) ∨
      ∃ text, r = o.failedAt .verify text := by
  unfold checked at h
  split at h
  · cases he : c.enter .verify path with
    | ok =>
      simp only [he] at h
      cases h
      exact Or.inl ⟨_, rfl⟩
    | error halt =>
      simp only [he] at h
      cases halt with
      | interrupted => cases h
      | failed s text =>
        cases h
        cases enter_stage he
        exact Or.inr ⟨text, rfl⟩
  · cases h
    exact Or.inl ⟨_, rfl⟩

/-- An outcome carries the name of the component that was migrated. -/
theorem migrate_name {o : Outcome} (h : c.migrate w i m = (w', .ok o)) : o.name = m.name := by
  generalize hr : Except.ok o = r at h
  cases migrate_ends h with
  | early h =>
    cases h <;> cases hr <;> rfl
  | unseen => cases hr; rfl
  | yields => cases hr; rfl
  | @writes _ _ _ _ e =>
    cases e with
    | some => cases hr; rfl
    | none =>
      rcases checked_ok hr.symm with ⟨warnings, rfl⟩ | ⟨text, rfl⟩ <;> rfl

end Conditions

end Retype

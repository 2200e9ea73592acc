import Mathlib.Logic.Relation
import Retype.Proofs.Run.Course
import Retype.Proofs.Run.Foresight

/-!
# Items step by step

The work on one item in the steps between which other shards, an interruption or a
crash may come: loading, what leads up to writing, a look at each output, and for each
output that is written its folder, its draft, and the move to its place. Undisturbed,
the steps do what migrating the item does.
-/

set_option autoImplicit false

namespace Retype

inductive Pen where
  | make
  | draft
  | place

/-- An item that is worked on, with its outcome as far as it is known. -/
inductive Job where
  | untouched (index : Int)
  | loaded (o : Outcome) (path : String) (u : SourceUnit)
  | looking (o : Outcome) (path : String) (t : Retyped)
      (seen : List ((String × String) × Option String)) (rest : List (String × String))
  | writing (o : Outcome) (path : String) (t : Retyped) (pen : Pen) (rest : List (String × String))
  | done (o : Outcome)

namespace Outcome

def failedAt (o : Outcome) (stage : Stage) (text : String) : Outcome :=
  { o with error := .str text, stage := .str stage.text }

def SameItem (o r : Outcome) : Prop := o.index = r.index ∧ o.name = r.name

theorem SameItem.symm {o r : Outcome} (h : o.SameItem r) : r.SameItem o := ⟨h.1.symm, h.2.symm⟩

theorem SameItem.trans {o r q : Outcome} (h : o.SameItem r) (h' : r.SameItem q) : o.SameItem q :=
  ⟨h.1.trans h'.1, h.2.trans h'.2⟩

end Outcome

namespace Job

def owner : Job → Int
  | untouched i => i
  | loaded o _ _ | looking o _ _ _ _ | writing o _ _ _ _ | done o => o.index

def outcome? : Job → Option Outcome
  | done o => some o
  | _ => none

/-- A job on the item that an outcome is of. -/
def Of (o : Outcome) : Job → Prop
  | untouched i => i = o.index
  | loaded r _ _ | looking r _ _ _ _ | writing r _ _ _ _ | done r => r.SameItem o

theorem Of.owner {o : Outcome} {j : Job} (h : j.Of o) : j.owner = o.index := by
  cases j with
  | untouched => exact h
  | loaded | looking | writing | done => exact h.1

theorem Of.trans {o r : Outcome} {j : Job} (h : j.Of o) (h' : o.SameItem r) : j.Of r := by
  cases j with
  | untouched => exact Eq.trans h h'.1
  | loaded | looking | writing | done => exact Outcome.SameItem.trans h h'

end Job

namespace Conditions

open Job Workspace

variable (c : Conditions) (b : Batch)

def ended (w : Workspace) : Except Mishap Outcome → Option (Workspace × Job)
  | .ok o => some (w, done o)
  | .error _ => none

def takeUp (w : Workspace) (i : Int) (m : Member) : Option (Workspace × Job) :=
  match m.path.step with
  | .error f => ended w (halted (c.begun i m) (.failed .load f.message))
  | .ok path => match c.load w path with
    | .error h => ended w (halted (c.begun i m) h)
    | .ok u => some (w, loaded (c.begun i m) path u)

def leadUp (w : Workspace) (o : Outcome) (path : String) (u : SourceUnit) :
    Option (Workspace × Job) :=
  match c.prepareUnit w path u with
  | .error h => ended w (halted o h)
  | .ok (.skip reason target) => some (w, done (passed o reason target))
  | .ok (.ready t) => match c.enter .write path with
    | .error h => ended w (halted (announced o t) h)
    | .ok () =>
      if c.options.dryRun then some (w, done { announced o t with success := true })
      else some (w, looking (announced o t) path t [] (c.config.outputs t))

def lookAt (w : Workspace) (o : Outcome) (path : String) (t : Retyped)
    (seen : List ((String × String) × Option String)) :
    List (String × String) → Option (Workspace × Job)
  | [] =>
    if refuses c.options.force seen then some (w, done (yielded o t))
    else some (w, writing o path t .make (changed seen))
  | output :: rest => match w.current? output.1 with
    | .error e => ended w (halted o (.failed .write e.message))
    | .ok text => some (w, looking o path t (seen ++ [(output, text)]) rest)

def goOn (o : Outcome) (next : Job) : Workspace × Option OsError → Option (Workspace × Job)
  | (w, some e) => ended w (halted o (.failed .write e.message))
  | (w, none) => some (w, next)

def putDown (w : Workspace) (o : Outcome) (path : String) (t : Retyped) :
    Pen → List (String × String) → Option (Workspace × Job)
  | _, [] => ended w (c.checked path t.target o)
  | .make, output :: rest =>
    goOn o (writing o path t .draft (output :: rest)) (w.makeFolder (Path.parent output.1))
  | .draft, output :: rest =>
    goOn o (writing o path t .place (output :: rest)) (w.settled (w.write (draftOf output.1) output.2))
  | .place, output :: rest =>
    goOn o (writing o path t .make rest) (w.settled (w.replace (draftOf output.1) output.1))

/-- The next step of a job; none if it is done, or if the step ends more than the item. -/
def advance (w : Workspace) : Job → Option (Workspace × Job)
  | untouched i => b.members[i.toNat]?.bind (c.takeUp w i)
  | loaded o path u => c.leadUp w o path u
  | looking o path t seen rest => c.lookAt w o path t seen rest
  | writing o path t pen rest => c.putDown w o path t pen rest
  | done _ => none

/-- What a job may do to the files: its next step, or a draft that is only begun. -/
inductive Works : Workspace → Job → Workspace → Job → Prop
  | step {w j w' j'} : c.advance b w j = some (w', j') → Works w j w' j'
  | tear {w o path t output rest text w'} : w.write (draftOf output.1) text = .ok w' →
      Works w (writing o path t .draft (output :: rest)) w' (writing o path t .draft (output :: rest))

theorem halted_failed (o : Outcome) (stage : Stage) (text : String) :
    halted o (.failed stage text) = .ok (o.failedAt stage text) := rfl

theorem halted_same {o r : Outcome} {h : Halt} (hr : halted o h = .ok r) : r.SameItem o := by
  cases h with
  | failed => cases hr; exact ⟨rfl, rfl⟩
  | interrupted => cases hr

theorem checked_same {path target : String} {o r : Outcome}
    (hr : c.checked path target o = .ok r) : r.SameItem o := by
  unfold checked at hr
  split at hr
  · split at hr
    · exact halted_same hr
    · cases hr; exact ⟨rfl, rfl⟩
  · cases hr; exact ⟨rfl, rfl⟩

theorem ended_eq {w w' : Workspace} {r : Except Mishap Outcome} {j : Job}
    (h : ended w r = some (w', j)) : ∃ o, r = .ok o ∧ w' = w ∧ j = done o := by
  cases r with
  | ok o =>
    cases h
    exact ⟨o, rfl, rfl, rfl⟩
  | error => cases h

variable {c b}

/-! Whatever is done for an item stays with the item. -/

theorem ended_of {w w' : Workspace} {o : Outcome} {r : Except Mishap Outcome} {j : Job}
    (hr : ∀ o', r = .ok o' → o'.SameItem o) (h : ended w r = some (w', j)) : j.Of o := by
  obtain ⟨o', ho, -, rfl⟩ := ended_eq h
  exact hr o' ho

theorem takeUp_of {w w' : Workspace} {i : Int} {m : Member} {j : Job}
    (h : c.takeUp w i m = some (w', j)) : j.Of (c.begun i m) := by
  unfold takeUp at h
  split at h
  · exact ended_of (fun _ => halted_same) h
  · split at h
    · exact ended_of (fun _ => halted_same) h
    · cases h
      exact ⟨rfl, rfl⟩

theorem leadUp_of {w w' : Workspace} {o : Outcome} {path : String} {u : SourceUnit} {j : Job}
    (h : c.leadUp w o path u = some (w', j)) : j.Of o := by
  unfold leadUp at h
  split at h
  · exact ended_of (fun _ => halted_same) h
  · cases h
    exact ⟨rfl, rfl⟩
  · next t _ =>
    split at h
    · exact ended_of (o := announced o t) (fun _ => halted_same) h
    · split at h <;>
      · cases h
        exact ⟨rfl, rfl⟩

theorem lookAt_of {w w' : Workspace} {o : Outcome} {path : String} {t : Retyped}
    {seen : List ((String × String) × Option String)} {rest : List (String × String)} {j : Job}
    (h : c.lookAt w o path t seen rest = some (w', j)) : j.Of o := by
  unfold lookAt at h
  split at h
  · split at h <;>
    · cases h
      exact ⟨rfl, rfl⟩
  · split at h
    · exact ended_of (fun _ => halted_same) h
    · cases h
      exact ⟨rfl, rfl⟩

theorem goOn_of {w' : Workspace} {o : Outcome} {next j : Job} {r : Workspace × Option OsError}
    (hn : next.Of o) (h : goOn o next r = some (w', j)) : j.Of o := by
  unfold goOn at h
  split at h
  · exact ended_of (fun _ => halted_same) h
  · cases h
    exact hn

theorem putDown_of {w w' : Workspace} {o : Outcome} {path : String} {t : Retyped} {pen : Pen}
    {rest : List (String × String)} {j : Job} (h : c.putDown w o path t pen rest = some (w', j)) :
    j.Of o := by
  have hnext : ∀ pen rest, (writing o path t pen rest).Of o := fun _ _ => ⟨rfl, rfl⟩
  unfold putDown at h
  split at h
  · exact ended_of (fun _ => c.checked_same) h
  · exact goOn_of (hnext _ _) h
  · exact goOn_of (hnext _ _) h
  · exact goOn_of (hnext _ _) h

theorem advance_of {w w' : Workspace} {o : Outcome} {j j' : Job}
    (hbegun : ∀ m, b.members[o.index.toNat]? = some m → o.SameItem (c.begun o.index m))
    (hj : j.Of o) (h : c.advance b w j = some (w', j')) : j'.Of o := by
  cases j with
  | untouched i =>
    cases hj
    obtain ⟨m, hm, h⟩ := Option.bind_eq_some_iff.mp h
    exact (takeUp_of h).trans (hbegun m hm).symm
  | loaded => exact (leadUp_of h).trans hj
  | looking => exact (lookAt_of h).trans hj
  | writing => exact (putDown_of h).trans hj
  | done => cases h

theorem Works.of {w w' : Workspace} {o : Outcome} {j j' : Job}
    (hbegun : ∀ m, b.members[o.index.toNat]? = some m → o.SameItem (c.begun o.index m))
    (hj : j.Of o) (h : c.Works b w j w' j') : j'.Of o := by
  cases h with
  | step h => exact advance_of hbegun hj h
  | tear => exact hj

theorem advance_owner {w w' : Workspace} {j j' : Job} (h : c.advance b w j = some (w', j')) :
    j'.owner = j.owner := by
  cases j with
  | untouched i =>
    obtain ⟨m, -, h⟩ := Option.bind_eq_some_iff.mp h
    exact (takeUp_of h).owner
  | loaded => exact (leadUp_of h).owner
  | looking => exact (lookAt_of h).owner
  | writing => exact (putDown_of h).owner
  | done => cases h

theorem Works.owner_eq {w w' : Workspace} {j j' : Job} (h : c.Works b w j w' j') :
    j'.owner = j.owner := by
  cases h with
  | step h => exact advance_owner h
  | tear => rfl

variable (c b)

/-- The items of a batch as labour. From outside nothing happens to what stands under
the keys that are held. -/
def labour (held : String → Prop) : Labour Workspace Job where
  begun := untouched
  Step := c.Works b
  outcome? := outcome?
  owner := owner
  Drift w w' := ∀ k, held k → w'.entryAt? k = w.entryAt? k
  owner_begun := fun _ => rfl
  owner_step := Works.owner_eq
  owner_outcome := by
    intro j o h
    cases j with
    | done => cases h; rfl
    | _ => cases h

/-! ## Undisturbed steps -/

/-- Steps of one job with nothing between them. -/
def Through : Workspace × Job → Workspace × Job → Prop :=
  Relation.ReflTransGen fun x y => c.advance b x.1 x.2 = some y

variable {c b}

theorem looking_through {w : Workspace} {o : Outcome} {path : String} {t : Retyped}
    {seen seen' : List ((String × String) × Option String)} {rest : List (String × String)}
    (h : w.standing rest = .ok seen') :
    c.Through b (w, looking o path t seen rest) (w, looking o path t (seen ++ seen') []) := by
  induction rest generalizing seen seen' with
  | nil =>
    cases h
    rw [show seen ++ [].reverse = seen from List.append_nil seen]
    exact .refl
  | cons output rest ih =>
    rw [standing_cons] at h
    split at h
    · cases h
    · next text ht =>
      cases hr : w.standing rest with
      | error e =>
        rw [hr] at h
        cases h
      | ok seen'' =>
        rw [hr] at h
        cases h
        have hnext : c.advance b w (looking o path t seen (output :: rest)) =
            some (w, looking o path t (seen ++ [(output, text)]) rest) := by
          simp only [advance, lookAt, ht]
        have := @ih (seen ++ [(output, text)]) seen'' hr
        rw [List.append_assoc] at this
        exact this.head hnext

theorem looking_fails {w : Workspace} {o : Outcome} {path : String} {t : Retyped}
    {seen : List ((String × String) × Option String)} {rest : List (String × String)} {e : OsError}
    (h : w.standing rest = .error e) : c.Through b (w, looking o path t seen rest)
      (w, done (o.failedAt .write e.message)) := by
  induction rest generalizing seen with
  | nil => cases h
  | cons output rest ih =>
    rw [standing_cons] at h
    split at h
    · next e' ht =>
      cases h
      refine .single ?_
      simp only [advance, lookAt, ht, halted_failed, ended]
    · next text ht =>
      have hnext : c.advance b w (looking o path t seen (output :: rest)) =
          some (w, looking o path t (seen ++ [(output, text)]) rest) := by
        simp only [advance, lookAt, ht]
      cases hr : w.standing rest with
      | error e' =>
        rw [hr] at h
        cases h
        exact (ih hr).head hnext
      | ok seen'' =>
        rw [hr] at h
        cases h

def landing (o : Outcome) (path : String) (t : Retyped) (rest : List (String × String)) :
    Option OsError → Job
  | none => writing o path t .make rest
  | some e => done (o.failedAt .write e.message)

theorem advance_make {w w₁ : Workspace} {o : Outcome} {path : String} {t : Retyped} {x : String × String}
    {rest : List (String × String)} (h : w.makeFolder (Path.parent x.1) = (w₁, none)) :
    c.advance b w (writing o path t .make (x :: rest)) = some (w₁, writing o path t .draft (x :: rest)) := by
  simp only [advance, putDown, goOn, h]

theorem advance_draft {w w₁ : Workspace} {o : Outcome} {path : String} {t : Retyped} {x : String × String}
    {rest : List (String × String)} (h : w.write (draftOf x.1) x.2 = .ok w₁) :
    c.advance b w (writing o path t .draft (x :: rest)) = some (w₁, writing o path t .place (x :: rest)) := by
  simp only [advance, putDown, goOn, settled, h]

theorem advance_place {w w₁ : Workspace} {o : Outcome} {path : String} {t : Retyped} {x : String × String}
    {rest : List (String × String)} (h : w.replace (draftOf x.1) x.1 = .ok w₁) :
    c.advance b w (writing o path t .place (x :: rest)) = some (w₁, writing o path t .make rest) := by
  simp only [advance, putDown, goOn, settled, h]

theorem advance_missed {w : Workspace} {o : Outcome} {path : String} {t : Retyped} {x : String × String}
    {rest : List (String × String)} {e : OsError} (h : w.replace (draftOf x.1) x.1 = .error e) :
    c.advance b w (writing o path t .place (x :: rest)) = some (w, done (o.failedAt .write e.message)) := by
  simp only [advance, putDown, goOn, settled, h, halted_failed, ended]

/-- Writing a file whole, in its three steps. -/
theorem writing_whole {w w' : Workspace} {o : Outcome} {path : String} {t : Retyped}
    {output : String × String} {rest : List (String × String)} {e : Option OsError}
    (h : w.writeWhole output.1 output.2 = (w', e)) :
    c.Through b (w, writing o path t .make (output :: rest)) (w', landing o path t rest e) := by
  unfold writeWhole at h
  cases hm : w.makeFolder (Path.parent output.1) with
  | mk w₁ e₁ =>
    rw [hm] at h
    cases e₁ with
    | some e' =>
      obtain ⟨rfl, rfl⟩ := Prod.mk.inj h
      refine .single ?_
      simp only [advance, putDown, goOn, hm, halted_failed, ended, landing]
    | none =>
      refine .head (advance_make hm) ?_
      cases hd : w₁.write (output.1 ++ ".tmp") output.2 with
      | error e' =>
        simp only [unlessFailed, settled, hd, Prod.mk.injEq] at h
        obtain ⟨rfl, rfl⟩ := h
        refine .single ?_
        simp only [advance, putDown, goOn, settled, draftOf, hd, halted_failed, ended, landing]
      | ok w₂ =>
        simp only [unlessFailed, settled, hd] at h
        refine .head (advance_draft hd) (.single ?_)
        cases hp : w₂.replace (output.1 ++ ".tmp") output.1 with
        | error e' =>
          simp only [hp, Prod.mk.injEq] at h
          obtain ⟨rfl, rfl⟩ := h
          exact advance_missed hp
        | ok w₃ =>
          simp only [hp, Prod.mk.injEq] at h
          obtain ⟨rfl, rfl⟩ := h
          exact advance_place hp

theorem writing_through {w w' : Workspace} {o : Outcome} {path : String} {t : Retyped}
    {rest : List (String × String)} {e : Option OsError} (h : w.writeEach rest = (w', e)) :
    c.Through b (w, writing o path t .make rest) (w', landing o path t [] e) := by
  induction rest generalizing w with
  | nil =>
    cases h
    exact .refl
  | cons output rest ih =>
    obtain ⟨place, text⟩ := output
    rw [writeEach] at h
    cases hw : w.writeWhole place text with
    | mk w₁ e₁ =>
      have hwhole := @writing_whole c b _ _ o path t (place, text) rest _ hw
      rw [hw] at h
      cases e₁ with
      | some e' =>
        obtain ⟨rfl, rfl⟩ := Prod.mk.injEq .. ▸ h
        exact hwhole
      | none => exact hwhole.trans (ih h)

theorem finish_through {w w' : Workspace} {path : String} {o r : Outcome} {t : Retyped}
    {u : SourceUnit} (hp : c.prepareUnit w path u = .ok (.ready t))
    (h : c.finish w path o t = (w', .ok r)) :
    c.Through b (w, loaded o path u) (w', done r) := by
  unfold finish at h
  have hlead : c.advance b w (loaded o path u) = c.leadUp w o path u := rfl
  rw [leadUp, hp] at hlead
  cases he : c.enter .write path with
  | error h' =>
    simp only [he] at h hlead
    obtain ⟨rfl, hr⟩ := Prod.mk.inj h
    rw [hr, ended] at hlead
    exact .single hlead
  | ok =>
    simp only [he] at h hlead
    by_cases hdry : c.options.dryRun = true
    · rw [if_pos hdry] at h hlead
      obtain ⟨rfl, hr⟩ := Prod.mk.inj h
      cases hr
      exact .single hlead
    · rw [if_neg hdry] at h hlead
      refine .head hlead ?_
      unfold writeOutputs at h
      cases hs : w.standing (c.config.outputs t) with
      | error e =>
        simp only [hs] at h
        obtain ⟨rfl, hr⟩ := Prod.mk.inj h
        rw [halted_failed] at hr
        cases hr
        exact looking_fails hs
      | ok seen =>
        refine (looking_through hs).trans ?_
        simp only [hs] at h
        have hlook : c.advance b w (looking (announced o t) path t seen []) =
            c.lookAt w (announced o t) path t seen [] := rfl
        rw [lookAt] at hlook
        by_cases hrefuse : refuses c.options.force seen = true
        · simp only [if_pos hrefuse] at h hlook
          obtain ⟨rfl, hr⟩ := Prod.mk.inj h
          cases hr
          exact .single hlook
        · simp only [if_neg hrefuse] at h hlook
          refine .head hlook ?_
          cases hw : w.writeEach (changed seen) with
          | mk w₁ e =>
            have hwriting := @writing_through c b _ _ (announced o t) path t _ _ hw
            cases e with
            | some e =>
              simp only [hw] at h
              obtain ⟨rfl, hr⟩ := Prod.mk.inj h
              rw [halted_failed] at hr
              cases hr
              exact hwriting
            | none =>
              simp only [hw] at h
              obtain ⟨rfl, hr⟩ := Prod.mk.inj h
              refine hwriting.tail ?_
              show c.putDown w₁ (announced o t) path t .make [] = _
              rw [putDown, hr, ended]

/-- Undisturbed, the steps of an item do what migrating it does. -/
theorem migrate_through {w w' : Workspace} {i : Int} {m : Member} {r : Outcome}
    (hm : b.members[i.toNat]? = some m) (h : c.migrate w i m = (w', .ok r)) :
    c.Through b (w, untouched i) (w', done r) := by
  have htake : c.advance b w (untouched i) = c.takeUp w i m := by
    show b.members[i.toNat]?.bind _ = _
    rw [hm, Option.bind_some]
  unfold migrate at h
  rw [takeUp] at htake
  cases hstep : m.path.step with
  | error f =>
    simp only [hstep] at h htake
    obtain ⟨rfl, hr⟩ := Prod.mk.inj h
    rw [hr, ended] at htake
    exact .single htake
  | ok path =>
    simp only [hstep] at h htake
    have hprepare : c.prepare w path = c.load w path >>= c.prepareUnit w path := rfl
    cases hload : c.load w path with
    | error h' =>
      rw [hload] at hprepare htake
      rw [show c.prepare w path = .error h' from hprepare] at h
      obtain ⟨rfl, hr⟩ := Prod.mk.inj h
      simp only [hr, ended] at htake
      exact .single htake
    | ok u =>
      rw [hload] at hprepare htake
      rw [show c.prepare w path = c.prepareUnit w path u from hprepare] at h
      refine .head htake ?_
      have hlead : c.advance b w (loaded (c.begun i m) path u) =
        c.leadUp w (c.begun i m) path u := rfl
      rw [leadUp] at hlead
      cases hu : c.prepareUnit w path u with
      | error h' =>
        simp only [hu] at h hlead
        obtain ⟨rfl, hr⟩ := Prod.mk.inj h
        rw [hr, ended] at hlead
        exact .single hlead
      | ok p =>
        cases p with
        | skip reason target =>
          simp only [hu] at h hlead
          obtain ⟨rfl, hr⟩ := Prod.mk.inj h
          cases hr
          exact .single hlead
        | ready t =>
          simp only [hu] at h
          exact finish_through hu h

theorem through_owner {y z : Workspace × Job} (h : c.Through b y z) : z.2.owner = y.2.owner := by
  induction h with
  | refl => rfl
  | tail _ hstep ih => exact (advance_owner hstep).trans ih

theorem migrate_index {w w' : Workspace} {i : Int} {m : Member} {o : Outcome}
    (hm : b.members[i.toNat]? = some m) (h : c.migrate w i m = (w', .ok o)) : o.index = i :=
  through_owner (migrate_through hm h)

end Conditions

end Retype

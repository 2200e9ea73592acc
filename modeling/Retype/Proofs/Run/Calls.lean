import Retype.Proofs.Run.Inheritance

/-!
# A runner that is called again and again

A call that goes through leaves its runner completed, and one that is stopped among its
items leaves it paused; from both it can be called again. But a call whose planning fails
leaves it planning, and one whose items are all done and whose last checkpoint cannot be
saved leaves it executing. From then on it refuses every call.
-/

set_option autoImplicit false

namespace Retype

/-- Whether another run can start. -/
def Runner.Rests (r : Runner) : Prop := ∃ p, r.phase.enter .planning = .ok p

/-- A call of a runner: what it runs under, the site that it finds, and the batch it asks for. -/
structure Call where
  conditions : Conditions
  equipment : Equipment
  site : Site
  id : Int

/-- How far a call comes that is not refused. -/
inductive Extent where
  | unplanned (e : RunError)
  | stopped (s : Stop)
  | unsaved (e : ArchiveError)
  | through
  deriving DecidableEq, Repr

namespace Extent

def phase : Extent → Phase
  | unplanned _ => .planning
  | stopped _ => .paused
  | unsaved _ => .executing
  | through => .completed

/-- Whether a call ends between two phases: its planning fails, or its last checkpoint. -/
def strands : Extent → Bool
  | unplanned _ | unsaved _ => true
  | stopped _ | through => false

/-- What a call raises or returns. Only the report of failures can still go wrong for one
that went through. -/
inductive Tells : Extent → Except RunError Summary → Prop where
  | unplanned {e : RunError} (h : ∀ f, e ≠ .phase f) : Tells (.unplanned e) (.error e)
  | stopped {s : Stop} : Tells (.stopped s) (.error s.error)
  | unsaved {e : ArchiveError} : Tells (.unsaved e) (.error (.archive e))
  | unreported {e : OsError} : Tells .through (.error (.upset (.os e)))
  | returned {told : Summary} : Tells .through (.ok told)

variable {x : Extent} {r : Except RunError Summary}

theorem rests_phase (x : Extent) (progress : Option Progress) :
    Runner.Rests ⟨x.phase, progress⟩ ↔ x.strands = false := by
  cases x with
  | unplanned | unsaved => exact ⟨fun ⟨_, h⟩ => (nomatch h), fun h => (nomatch h)⟩
  | stopped | through => exact ⟨fun _ => rfl, fun _ => ⟨.planning, rfl⟩⟩

theorem Tells.phase_ne (h : x.Tells r) (f : PhaseError) : r ≠ .error (.phase f) := by
  cases h with
  | unplanned h => exact fun he => h f (Except.error.inj he)
  | @stopped s => cases s <;> exact fun he => nomatch he
  | unsaved | unreported | returned => exact fun he => nomatch he

end Extent

namespace Call

open Runner

/-- Planning finds the batch and the progress to run it from; then its items are worked off,
and at last a checkpoint is saved. -/
def extent (k : Call) : Extent :=
  match find k.conditions k.site k.id with
  | .error e => .unplanned e
  | .ok b => match start k.conditions k.equipment k.site b with
    | (_, .error e) => .unplanned e
    | (s, .ok p) => match Work.all k.conditions k.equipment b ⟨s, p⟩ with
      | (_, some stop) => .stopped stop
      | (w, none) =>
        match k.equipment.archive.save w.site (w.progress.checkpoint .null k.conditions.now) with
        | (_, some e) => .unsaved e
        | (_, none) => .through

def on (k : Call) (r : Runner) : Runner × Site × Except RunError Summary :=
  run k.conditions k.equipment r k.site k.id

variable {c : Conditions} {e : Equipment} {s s' : Site} {b : Batch} {f : RunError}

theorem find_phase_ne {id : Int} (h : find c s id = .error f) (g : PhaseError) : f ≠ .phase g := by
  unfold find at h
  split at h
  · cases h
    exact fun he => nomatch he
  · split at h
    · cases h
      exact fun he => nomatch he
    · unfold Batch.select at h
      split at h
      · cases h
      · cases h
        exact fun he => nomatch he

theorem start_phase_ne (h : start c e s b = (s', .error f)) (g : PhaseError) : f ≠ .phase g := by
  unfold start at h
  split at h
  · split at h
    · cases h
      exact fun he => nomatch he
    · cases h
    · cases h
  · split at h
    · cases h
      exact fun he => nomatch he
    · cases h

/-- A call that finds its runner at rest leaves it in the phase that it comes to. -/
theorem on_rested (k : Call) {r : Runner} (h : r.Rests) :
    (k.on r).1.phase = k.extent.phase ∧ k.extent.Tells (k.on r).2.2 := by
  obtain ⟨phase, hphase⟩ := h
  have hplanning : phase = .planning := by
    unfold Phase.enter at hphase
    split at hphase
    · exact (Except.ok.inj hphase).symm
    · cases hphase
  subst hplanning
  unfold on run extent
  rw [hphase]
  simp only
  cases hb : find k.conditions k.site k.id with
  | error f => exact ⟨rfl, .unplanned (find_phase_ne hb)⟩
  | ok b =>
    simp only
    cases hs : start k.conditions k.equipment k.site b with
    | mk s p =>
      cases p with
      | error f => exact ⟨rfl, .unplanned (start_phase_ne hs)⟩
      | ok p =>
        simp only [runBatch, show Phase.planning.enter .executing = .ok .executing from rfl]
        cases hw : Work.all k.conditions k.equipment b ⟨s, p⟩ with
        | mk w stop =>
          cases stop with
          | some stop => exact ⟨rfl, .stopped⟩
          | none =>
            simp only [conclude]
            cases hsave : k.equipment.archive.save w.site
                (w.progress.checkpoint .null k.conditions.now) with
            | mk s' failure =>
              cases failure with
              | some failure => exact ⟨rfl, .unsaved⟩
              | none =>
                simp only
                split
                · exact ⟨rfl, .unreported⟩
                · exact ⟨rfl, .returned⟩

/-- A runner that is not at rest refuses a call and stays as it is. -/
theorem on_refused (k : Call) {r : Runner} (h : ¬r.Rests) :
    k.on r = (r, k.site, .error (.phase ⟨r.phase, .planning⟩)) := by
  unfold on run
  cases hphase : r.phase.enter .planning with
  | ok p => exact absurd ⟨p, hphase⟩ h
  | error f =>
    have hf : f = ⟨r.phase, .planning⟩ := by
      unfold Phase.enter at hphase
      split at hphase
      · cases hphase
      · exact (Except.error.inj hphase).symm
    rw [hf]

theorem on_rests (k : Call) (r : Runner) :
    (k.on r).1.Rests ↔ r.Rests ∧ k.extent.strands = false := by
  by_cases h : r.Rests
  · have hphase := (k.on_rested h).1
    rw [← k.extent.rests_phase (k.on r).1.progress, ← hphase]
    exact ⟨fun hr => ⟨h, hr⟩, fun hr => hr.2⟩
  · rw [k.on_refused h]
    exact ⟨fun hr => absurd hr h, fun hr => absurd hr.1 h⟩

theorem on_phase_iff (k : Call) (r : Runner) :
    (∃ f, (k.on r).2.2 = .error (.phase f)) ↔ ¬r.Rests := by
  constructor
  · rintro ⟨f, hf⟩ hr
    exact (k.on_rested hr).2.phase_ne f hf
  · intro hr
    exact ⟨_, by rw [k.on_refused hr]⟩

end Call

namespace Runner

def after (calls : List Call) : Runner := calls.foldl (fun r k => (k.on r).1) {}

theorem after_append_singleton (calls : List Call) (k : Call) :
    after (calls ++ [k]) = (k.on (after calls)).1 :=
  List.foldl_concat _ _ _ _

theorem after_rests (calls : List Call) :
    (after calls).Rests ↔ ∀ k ∈ calls, k.extent.strands = false := by
  induction calls using List.reverseRecOn with
  | nil => exact ⟨fun _ _ hk => (nomatch hk), fun _ => ⟨.planning, rfl⟩⟩
  | append_singleton calls k ih =>
    rw [after_append_singleton, k.on_rests, ih]
    constructor
    · rintro ⟨hcalls, hk⟩ x hx
      rcases List.mem_append.mp hx with hx | hx
      · exact hcalls x hx
      · rwa [List.mem_singleton.mp hx]
    · exact fun h => ⟨fun x hx => h x (List.mem_append_left _ hx),
        h k (List.mem_append_right _ (List.mem_singleton_self k))⟩

/-- However often a runner was called, it refuses a call exactly if an earlier one stranded,
and it can be called again exactly if none did. A call that returns leaves it completed, and
one that is stopped among its items leaves it paused. -/
theorem after_calls (calls : List Call) (k : Call) :
    ((∃ f, (k.on (after calls)).2.2 = .error (.phase f)) ↔
      ∃ x ∈ calls, x.extent.strands = true) ∧
    ((after (calls ++ [k])).Rests ↔ ∀ x ∈ calls ++ [k], x.extent.strands = false) ∧
    (∀ told, (k.on (after calls)).2.2 = .ok told → (after (calls ++ [k])).phase = .completed) ∧
    ∀ stop, k.extent = .stopped stop → (∀ x ∈ calls, x.extent.strands = false) →
      (k.on (after calls)).2.2 = .error stop.error ∧ (after (calls ++ [k])).phase = .paused := by
  rw [after_append_singleton]
  refine ⟨?_, ?_, ?_, ?_⟩
  · rw [k.on_phase_iff, after_rests]
    simp only [not_forall, Bool.not_eq_false, exists_prop]
  · rw [← after_append_singleton, after_rests]
  · intro told htold
    by_cases hr : (after calls).Rests
    · obtain ⟨hphase, htells⟩ := k.on_rested hr
      rw [htold] at htells
      rw [hphase]
      generalize k.extent = x at htells ⊢
      cases htells
      rfl
    · rw [k.on_refused hr] at htold
      cases htold
  · intro stop hstop hcalls
    obtain ⟨hphase, htells⟩ := k.on_rested ((after_rests calls).mpr hcalls)
    rw [hstop] at hphase htells
    refine ⟨?_, hphase⟩
    generalize (k.on (after calls)).2.2 = result at htells ⊢
    cases htells
    rfl

/-! ## A roadmap that is planned too late -/

def calling (c : Conditions) (s : Site) : Call := ⟨c, besides, s, 1⟩

def unplanned : Site := ⟨⟨[("/p", .folder)]⟩, []⟩

def planned : Site :=
  ⟨⟨[("/p", .folder),
    ("/p/r", .file "[\x7b\"id\":1,\"components\":[\x7b\"name\":\"b\",\"path\":\"b.jsx\"\x7d]\x7d]")]⟩, []⟩

def interruption : Mishap := { kind := "KeyboardInterrupt", text := "", interrupts := true }

def interrupting : Conditions := { resuming with upset := fun _ _ => some interruption }

theorem planned_through : (calling resuming planned).extent = .through := by decide +kernel

/-- After a call in a project without a roadmap all calls are refused, also one that would go
through on a new runner. -/
theorem unplanned_refused :
    (calling resuming planned).extent = .through ∧
    (calling resuming unplanned).extent = .unplanned (.roadmap (.refused (.missing "/p/r"))) ∧
    (after [calling resuming unplanned]).phase = .planning ∧
    ((calling resuming planned).on (after [calling resuming unplanned])).2.2 =
      .error (.phase ⟨.planning, .planning⟩) := by
  have hunplanned : (calling resuming unplanned).extent =
      .unplanned (.roadmap (.refused (.missing "/p/r"))) := by decide +kernel
  have hphase : (after [calling resuming unplanned]).phase = .planning := by
    have hleft := ((calling resuming unplanned).on_rested (r := {}) ⟨.planning, rfl⟩).1
    rwa [hunplanned] at hleft
  refine ⟨planned_through, hunplanned, hphase, ?_⟩
  rw [Call.on_refused _ (by rintro ⟨p, hp⟩; rw [hphase] at hp; cases hp), hphase]

theorem interrupted_paused :
    (calling resuming planned).extent = .through ∧
    (calling interrupting planned).extent = .stopped (.mishap interruption) ∧
    ((calling interrupting planned).on (after [calling resuming planned])).2.2 =
      .error (.mishap interruption) ∧
    (after [calling resuming planned, calling interrupting planned]).phase = .paused ∧
    (after [calling resuming planned, calling interrupting planned]).Rests := by
  have hstopped : (calling interrupting planned).extent = .stopped (.mishap interruption) := by
    decide +kernel
  obtain ⟨-, hrests, -, hpaused⟩ :=
    after_calls [calling resuming planned] (calling interrupting planned)
  have hcalls : ∀ x ∈ [calling resuming planned], x.extent.strands = false := by
    intro x hx
    rw [List.mem_singleton.mp hx, planned_through]
    rfl
  obtain ⟨hraised, hphase⟩ := hpaused _ hstopped hcalls
  refine ⟨planned_through, hstopped, hraised, hphase, hrests.mpr fun x hx => ?_⟩
  rcases List.mem_append.mp hx with hx | hx
  · exact hcalls x hx
  · rw [List.mem_singleton.mp hx, hstopped]
    rfl

end Runner

end Retype

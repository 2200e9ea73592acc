import Retype.Proofs.Project.Files
import Retype.Proofs.Project.Scores
import Retype.Run.Item

/-!
# What is prepared for an item

What is prepared for an item depends on its source alone, once existing targets are of
no account: whether a target is there is noted in the profile and never looked at.
-/

set_option autoImplicit false

namespace Retype

open Workspace

namespace Workspace

variable {v w : Workspace} {p : String}

theorem read_congr (h : ∀ dir ∈ foldersAbove p ++ [p], w.entry? dir = v.entry? dir) :
    w.read p = v.read p := by
  unfold read
  rw [blocked?_congr fun dir hd => h dir (List.mem_append_left _ hd), h p (by simp)]

/-- Looking for a file is refused for a path that is too long, and for no other. -/
theorem hasFile_found (hs : Path.Short p) (hf : Path.flaw? p ≠ some .tooLong) :
    ∃ found, w.hasFile p = .ok found := by
  have hb : w.blocked? p ≠ some .tooLong := by
    cases hflaw : Path.flaw? p with
    | some cause =>
      rw [blocked?_flaw hflaw]
      rwa [hflaw] at hf
    | none =>
      rw [blocked?_eq hs hflaw]
      intro h
      rcases barred?_cases hs h with h | h <;> cases h
  unfold hasFile look
  cases hcause : w.blocked? p with
  | none => exact ⟨_, rfl⟩
  | some cause =>
    rw [hcause] at hb
    cases cause <;> first | exact ⟨_, rfl⟩ | exact absurd rfl hb

/-! ## Looking at outputs -/

theorem standing_cons (w : Workspace) (o : String × String) (os : List (String × String)) :
    w.standing (o :: os) = match w.current? o.1 with
      | .error e => .error e
      | .ok text => (w.standing os).map ((o, text) :: ·) := by
  have h : ∀ os, w.standing os = os.mapM fun o => return (o, ← w.current? o.1) := fun _ => rfl
  rw [h, h, List.mapM_cons]
  cases w.current? o.1 with
  | error e => rfl
  | ok text => cases List.mapM (m := Except OsError) _ os <;> rfl

theorem standing_outputs {w : Workspace} {os : List (String × String)}
    {seen : List ((String × String) × Option String)} (h : w.standing os = .ok seen) :
    seen.map (·.1) = os := by
  induction os generalizing seen with
  | nil =>
    cases h
    rfl
  | cons o os ih =>
    rw [standing_cons] at h
    split at h
    · cases h
    · cases hr : w.standing os with
      | error e =>
        rw [hr] at h
        cases h
      | ok seen' =>
        rw [hr] at h
        cases h
        rw [List.map_cons, ih hr]

theorem standing_current {w : Workspace} {os : List (String × String)}
    {seen : List ((String × String) × Option String)} (h : w.standing os = .ok seen)
    {a : (String × String) × Option String} (ha : a ∈ seen) : w.current? a.1.1 = .ok a.2 := by
  induction os generalizing seen with
  | nil =>
    cases h
    cases ha
  | cons o os ih =>
    rw [standing_cons] at h
    cases hcur : w.current? o.1 with
    | error e =>
      rw [hcur] at h
      cases h
    | ok text =>
      rw [hcur] at h
      cases hr : w.standing os with
      | error e =>
        rw [hr] at h
        cases h
      | ok seen' =>
        rw [hr] at h
        cases h
        rcases List.mem_cons.mp ha with rfl | ha
        · exact hcur
        · exact ih hr ha

end Workspace

namespace Config

variable (c : Config)

/-- The places where a source may come to be written can be looked for. -/
def Sightly (path : String) : Prop := ∀ hasMarkup t, c.target path hasMarkup = .ok t →
  Path.Short (c.place t) ∧ Path.flaw? (c.place t) ≠ some .tooLong

variable {c}

/-- Whether there is markup decides on the extension of a target and on nothing else. -/
theorem target_cases (path : String) : (∃ f, ∀ hasMarkup, c.target path hasMarkup = .error f) ∨
    ∀ hasMarkup, ∃ t, c.target path hasMarkup = .ok t := by
  unfold target
  cases c.foldersByLength with
  | error f => exact Or.inl ⟨f, fun _ => rfl⟩
  | ok dirs =>
    cases ht : tailBelow (Target.slashed path) dirs with
    | error f => exact Or.inl ⟨f, fun _ => by simp [bind, Except.bind, ht]⟩
    | ok tail =>
      cases (c.value "target_dir").path with
      | error f => exact Or.inl ⟨f, fun _ => by simp [bind, Except.bind, ht]⟩
      | ok dir => exact Or.inr fun _ => ⟨_, by simp only [bind, Except.bind, ht]; rfl⟩

theorem existingTarget?_found {path : String} (h : c.Sightly path)
    (ht : ∀ hasMarkup, ∃ t, c.target path hasMarkup = .ok t) (w : Workspace) :
    ∃ found, c.existingTarget? w path = .ok found := by
  obtain ⟨t, ht₁⟩ := ht true
  obtain ⟨t', ht₂⟩ := ht false
  obtain ⟨found, hfound⟩ := hasFile_found (w := w) (h true t ht₁).1 (h true t ht₁).2
  obtain ⟨found', hfound'⟩ := hasFile_found (w := w) (h false t' ht₂).1 (h false t' ht₂).2
  simp only [existingTarget?, firstTarget?, ht₁, ht₂, hfound, hfound', bind, Except.bind,
    liftM, monadLift, MonadLift.monadLift, Except.mapError]
  cases found <;> cases found' <;> exact ⟨_, rfl⟩

theorem existingTarget?_cases {path : String} (h : c.Sightly path) :
    (∃ f, ∀ w, c.existingTarget? w path = .error (.fault f)) ∨
      ∀ w, ∃ found, c.existingTarget? w path = .ok found := by
  rcases c.target_cases path with ⟨f, hf⟩ | ht
  · refine Or.inl ⟨f, fun w => ?_⟩
    simp only [existingTarget?, firstTarget?, hf]
    rfl
  · exact Or.inr fun w => existingTarget?_found h ht w

/-- Profiles of a unit in two workspaces differ in one note at most. -/
theorem profile_cases {u : SourceUnit} (h : c.Sightly u.path) :
    (∃ e, ∀ w, c.profile w u = .error e) ∨
      ∃ p : Profile, ∀ w, ∃ x, c.profile w u = .ok { p with migrated := x } := by
  unfold profile
  cases c.aliasTable with
  | error f => exact Or.inl ⟨.fault f, fun _ => rfl⟩
  | ok table =>
    cases hscore : ((u.profile table).score Scale.written c.scoring : Except Fault (Score Float)) with
    | error f => exact Or.inl ⟨.fault f, fun _ => by
        simp only [bind, Except.bind, liftM, monadLift, MonadLift.monadLift, Except.mapError,
          hscore]⟩
    | ok score =>
      simp only [bind, Except.bind, liftM, monadLift, MonadLift.monadLift, Except.mapError, hscore]
      unfold isMigrated
      by_cases hl : u.language ≠ .javascript
      · refine Or.inr ⟨{ u.profile table with complexity := some score }, fun _ => ⟨true, ?_⟩⟩
        rw [if_pos hl]
        rfl
      · simp only [if_neg hl]
        rcases existingTarget?_cases h with ⟨f, hf⟩ | hfound
        · refine Or.inl ⟨.fault f, fun w => ?_⟩
          rw [hf w]
          rfl
        · refine Or.inr ⟨{ u.profile table with complexity := some score }, fun w => ?_⟩
          obtain ⟨found, hw⟩ := hfound w
          refine ⟨found.isSome, ?_⟩
          rw [hw]
          rfl

/-- Where the marks of the scoring are numbers, a profile can be told. -/
theorem profile_numbers {w : Workspace} {u : SourceUnit} {table : AliasTable} {x : Bool}
    (ha : c.aliasTable = .ok table) (hs : WrittenScoring.Numeric c.scoring)
    (hm : c.isMigrated w u = .ok x) : ∃ score,
      c.profile w u = .ok { u.profile table with complexity := some score, migrated := x } := by
  obtain ⟨score, hscore⟩ := WrittenScoring.score_numbers hs (Decimal.roundTo 4) (u.profile table).count
  refine ⟨score, ?_⟩
  unfold profile
  rw [ha]
  simp only [bind, Except.bind, liftM, monadLift, MonadLift.monadLift, Except.mapError,
    Profile.score, hscore, hm]
  rfl

end Config

namespace Conditions

variable {c : Conditions} {v w w' : Workspace} {path : String} {u : SourceUnit}

theorem load_congr (h : ∀ dir ∈ foldersAbove (c.config.place path) ++ [c.config.place path],
    w.entry? dir = v.entry? dir) : c.load w path = c.load v path := by
  unfold load Config.readUnit
  rw [read_congr h]

theorem load_path (h : c.load w path = .ok u) : u.path = path := by
  unfold load Config.readUnit at h
  cases henter : c.enter .load path with
  | error e =>
    rw [henter] at h
    cases h
  | ok =>
    rw [henter] at h
    cases hread : w.read (c.config.place path) with
    | error e =>
      simp only [hread, Except.map, bind, Except.bind, throw, throwThe, MonadExceptOf.throw] at h
      cases h
    | ok text =>
      simp only [hread, Except.map, bind, Except.bind] at h
      split at h
      · cases h
      · cases h
        rfl

theorem occupied?_none (hskip : c.options.skipExisting = false) (w : Workspace) (path : String) :
    c.occupied? w path = .ok none := by
  rw [occupied?, hskip]
  rfl

/-- Whether a target is noted as there is of no account for what is prepared. -/
theorem prepareUnit_noted {p : Profile} {x y : Bool} (hskip : c.options.skipExisting = false)
    (hx : c.config.profile w u = .ok { p with migrated := x })
    (hy : c.config.profile v u = .ok { p with migrated := y }) :
    c.prepareUnit w path u = c.prepareUnit v path u := by
  unfold prepareUnit
  rw [occupied?_none hskip, occupied?_none hskip, hx, hy]
  by_cases hl : u.language ≠ .javascript
  · rw [if_pos hl, if_pos hl]
  · rw [if_neg hl, if_neg hl]
    cases henter : c.enter .analyze path with
    | error e => simp only [attempt, henter, bind, Except.bind]
    | ok =>
      simp only [attempt, henter, bind, Except.bind, Except.mapError, pure, Except.pure]
      rfl

theorem prepareUnit_congr (hskip : c.options.skipExisting = false)
    (h : c.config.Sightly u.path) : c.prepareUnit w path u = c.prepareUnit v path u := by
  rcases Config.profile_cases h with ⟨e, he⟩ | ⟨p, hp⟩
  · unfold prepareUnit
    rw [occupied?_none hskip, occupied?_none hskip, he w, he v]
  · obtain ⟨x, hx⟩ := hp w
    obtain ⟨y, hy⟩ := hp v
    exact prepareUnit_noted hskip hx hy

/-! ## Items that nothing upsets -/

variable {t : Retyped} {p : Profile} {target : String} {i : Int} {m : Member}

theorem load_parsed (hu : c.upset = fun _ _ => none) {text : String}
    (hread : w.read (c.config.place path) = .ok text) {tree : Tree}
    (hparse : c.parse (SourceUnit.languageFor path) text = some tree)
    (he : tree.hasError = false) :
    c.load w path = .ok ⟨path, SourceUnit.languageFor path, Source.ofText text, some tree⟩ := by
  have hunit : SourceUnit.hasError
      ⟨path, SourceUnit.languageFor path, Source.ofText text, some tree⟩ = false := he
  unfold load Config.readUnit
  simp only [enter, hu, hread, Except.map, Option.getD_none, hparse, bind, Except.bind, hunit,
    Bool.false_eq_true, if_false, pure, Except.pure]

theorem prepareUnit_profiled (hu : c.upset = fun _ _ => none) (hl : u.language = .javascript)
    (hskip : c.options.skipExisting = false) (hp : c.config.profile w u = .ok p)
    (ht : c.config.targetOf p = .ok target)
    (hr : c.config.retype u p (c.config.synthesis p) target = .ok (.ok t)) :
    c.prepareUnit w path u = .ok (.ready t) := by
  have henter : ∀ stage, c.enter stage path = .ok () := by
    intro stage
    rw [enter, hu]
  unfold prepareUnit
  rw [if_neg (by simp [hl]), occupied?_none hskip]
  simp only [attempt, henter, hp, ht, hr, bind, Except.bind, between, Except.mapError, pure,
    Except.pure, liftM, monadLift, MonadLift.monadLift]

/-- Neither the score nor whether a target is there decides on what is prepared. -/
theorem prepareUnit_ready (hu : c.upset = fun _ _ => none) (hl : u.language = .javascript)
    (hskip : c.options.skipExisting = false) {table : AliasTable}
    (ha : c.config.aliasTable = .ok table) (hs : WrittenScoring.Numeric c.config.scoring)
    (hsight : c.config.Sightly u.path)
    (ht : ∀ hasMarkup, c.config.target u.path hasMarkup = .ok target)
    (hr : u.retype table (u.profile table).kind
      (Synthesis.ofProfile (u.profile table) c.config.placement) target = .ok t) :
    c.prepareUnit w path u = .ok (.ready t) := by
  obtain ⟨found, hfound⟩ := Config.existingTarget?_found hsight (fun x => ⟨target, ht x⟩) w
  have hmigrated : c.config.isMigrated w u = .ok found.isSome := by
    rw [Config.isMigrated, if_neg (by simp [hl]), hfound]
    rfl
  obtain ⟨score, hp⟩ := Config.profile_numbers ha hs hmigrated
  refine prepareUnit_profiled hu hl hskip hp (ht _) ?_
  rw [Config.retype, ha]
  exact congrArg Except.ok hr

theorem migrate_written (hu : c.upset = fun _ _ => none) (hdry : c.options.dryRun = false)
    (hv : c.verifies = false) (hs : m.path.step = .ok path)
    (hp : c.prepare w path = .ok (.ready t))
    (hw : w.writeOutputs c.options.force (c.config.outputs t) = (w', .ok true)) :
    c.migrate w i m = (w', .ok { announced (c.begun i m) t with success := true }) := by
  unfold migrate
  simp only [hs, hp]
  unfold finish
  simp only [enter, hu, hdry, Bool.false_eq_true, if_false, hw, checked, hv]

theorem migrate_refused (hu : c.upset = fun _ _ => none) (hdry : c.options.dryRun = false)
    (hs : m.path.step = .ok path) (hp : c.prepare w path = .ok (.ready t)) {e : OsError}
    (hw : w.writeOutputs c.options.force (c.config.outputs t) = (w', .error e)) :
    c.migrate w i m =
      (w', halted (announced (c.begun i m) t) (.failed .write e.message)) := by
  unfold migrate
  simp only [hs, hp]
  unfold finish
  simp only [enter, hu, hdry, Bool.false_eq_true, if_false, hw]

end Conditions

end Retype

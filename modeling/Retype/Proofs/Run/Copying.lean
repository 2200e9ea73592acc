import Retype.Proofs.Run.Settling

/-!
# Runs of plain copies

Under standard settings, a source of which nothing is to be retyped is copied to its
target. What migrating it comes to is then decided by the writing alone.
-/

set_option autoImplicit false

namespace Retype

namespace Conditions

open Job Workspace

def bareTree : Tree :=
  ⟨⟨"program", true, 0, 2, "", [⟨"expression_statement", true, 0, 2, "",
    [⟨"identifier", true, 0, 1, "", []⟩, ⟨";", false, 1, 2, "", []⟩]⟩]⟩, false⟩

/-- Standard settings of a project in `/p` with targets in `t`, where all sources are read
as `a;` and nothing goes wrong by itself. -/
def calm : Conditions where
  config := ⟨"/p", Keyed.put "target_dir" (.str "t") (Config.defaults (some 2)), .standard⟩
  options := {}
  parse := fun _ _ => some bareTree
  check := fun _ => []
  upset := fun _ _ => none
  now := ""

def bareUnit (path : String) : SourceUnit := ⟨path, .javascript, .ofText "a;", some bareTree⟩

def copied (target : String) : Retyped := ⟨"a;", target, none, 0, []⟩

/-- A path whose source is only copied to a target, if it is `a;`. -/
structure Copies (path goal : String) : Prop where
  language : SourceUnit.languageFor path = .javascript
  target : ∀ hasMarkup, calm.config.target path hasMarkup = .ok goal
  short : Path.Short (calm.config.place goal)
  passable : Path.flaw? (calm.config.place goal) ≠ some .tooLong
  retyped : (bareUnit path).retype ⟨AliasTable.standard, ["p"]⟩
    ((bareUnit path).profile ⟨AliasTable.standard, ["p"]⟩).kind
    (Synthesis.ofProfile ((bareUnit path).profile ⟨AliasTable.standard, ["p"]⟩) .inline) goal =
      .ok (copied goal)

instance (path goal : String) : Decidable (Copies path goal) :=
  decidable_of_iff (SourceUnit.languageFor path = .javascript ∧
      (∀ hasMarkup, calm.config.target path hasMarkup = .ok goal) ∧
      Path.Short (calm.config.place goal) ∧
      Path.flaw? (calm.config.place goal) ≠ some .tooLong ∧
      (bareUnit path).retype ⟨AliasTable.standard, ["p"]⟩
        ((bareUnit path).profile ⟨AliasTable.standard, ["p"]⟩).kind
        (Synthesis.ofProfile ((bareUnit path).profile ⟨AliasTable.standard, ["p"]⟩) .inline)
        goal = .ok (copied goal))
    ⟨fun ⟨h₁, h₂, h₃, h₄, h₅⟩ => ⟨h₁, h₂, h₃, h₄, h₅⟩, fun h => ⟨h.1, h.2, h.3, h.4, h.5⟩⟩

def memberAt (path : String) : Member :=
  ⟨.str path, .str path, .int 0, .str "low", .str "other", .int 0, .int 0⟩

def batchOf (paths : List String) : Batch := ⟨1, .str "sample", .str "", paths.map memberAt⟩

def copyIn (w : Workspace) (goal : String) : Workspace × Except OsError Bool :=
  w.writeOutputs calm.options.force (calm.config.outputs (copied goal))

variable {path goal : String} {w w' : Workspace} {b : Batch} {n : Nat} {e : OsError}

theorem Copies.sightly (h : Copies path goal) : calm.config.Sightly path := by
  intro hasMarkup t ht
  rw [h.target hasMarkup] at ht
  cases ht
  exact ⟨h.short, h.passable⟩

/-- What is prepared for a source that can be read and retyped, if nothing goes wrong by itself. -/
theorem prepare_retyped {c : Conditions} {text : String} {tree : Tree} {table : AliasTable}
    {t : Retyped} (hu : c.upset = fun _ _ => none) (hskip : c.options.skipExisting = false)
    (hl : SourceUnit.languageFor path = .javascript) (hread : w.read (c.config.place path) = .ok text)
    (hparse : c.parse .javascript text = some tree) (he : tree.hasError = false)
    (ha : c.config.aliasTable = .ok table) (hs : WrittenScoring.Numeric c.config.scoring)
    (hsight : c.config.Sightly path) (ht : ∀ hasMarkup, c.config.target path hasMarkup = .ok goal)
    (hr : SourceUnit.retype ⟨path, .javascript, .ofText text, some tree⟩ table
      (SourceUnit.profile ⟨path, .javascript, .ofText text, some tree⟩ table).kind
      (Synthesis.ofProfile (SourceUnit.profile ⟨path, .javascript, .ofText text, some tree⟩ table)
        c.config.placement) goal = .ok t) :
    c.prepare w path = .ok (.ready t) := by
  have hload : c.load w path = .ok ⟨path, .javascript, .ofText text, some tree⟩ := by
    rw [load_parsed hu hread (hl ▸ hparse) he, hl]
  rw [prepare_loaded hload]
  exact prepareUnit_ready hu rfl hskip ha hs hsight ht hr

theorem Copies.prepared (h : Copies path goal) (hr : w.read (calm.config.place path) = .ok "a;") :
    calm.prepare w path = .ok (.ready (copied goal)) :=
  prepare_retyped rfl rfl h.language hr rfl rfl rfl WrittenScoring.standard_numeric h.sightly h.target
    h.retyped

theorem written_eq {x : Workspace × Except OsError Bool} {es : List (String × Entry)}
    {r : Except OsError Bool} (h : x.1.entries = es ∧ x.2 = r) : x = (⟨es⟩, r) := by
  rw [← h.1, ← h.2]

theorem copyIn_eq {es : List (String × Entry)} {r : Except OsError Bool}
    (h : (copyIn w goal).1.entries = es ∧ (copyIn w goal).2 = r) : copyIn w goal = (⟨es⟩, r) :=
  written_eq h

theorem Copies.written (h : Copies path goal) (i : Int)
    (hr : w.read (calm.config.place path) = .ok "a;") (hw : copyIn w goal = (w', .ok true)) :
    calm.migrate w i (memberAt path) = (w',
      .ok { announced (calm.begun i (memberAt path)) (copied goal) with success := true }) := by
  rw [migrate_written rfl rfl rfl rfl (h.prepared hr) hw]

theorem Copies.refused (h : Copies path goal) (i : Int)
    (hr : w.read (calm.config.place path) = .ok "a;") (hw : copyIn w goal = (w', .error e)) :
    calm.migrate w i (memberAt path) = (w',
      .ok ((announced (calm.begun i (memberAt path)) (copied goal)).failedAt .write e.message)) := by
  rw [migrate_refused rfl rfl rfl (h.prepared hr) hw, halted_failed]

theorem Copies.outputs (h : Copies path goal) (hm : b.members[n]? = some (memberAt path))
    (hr : w.read (calm.config.place path) = .ok "a;") :
    calm.outputsOf b w n = [(calm.config.place goal, "a;")] := by
  have hready : calm.Ready b w n (memberAt path) path (copied goal) :=
    ⟨hm, rfl, h.prepared hr, rfl⟩
  exact hready.outputs

/-! ## Copies on their way -/

def copying (i : Int) (path goal : String) (pen : Pen) : Job :=
  writing (announced (calm.begun i (memberAt path)) (copied goal)) path (copied goal) pen
    [(calm.config.place goal, "a;")]

/-- A copy whose target is missing comes undisturbed to where it is to be written. -/
theorem Copies.reaches {i : Int} (h : Copies path goal) (hm : b.members[i.toNat]? = some (memberAt path))
    (hr : w.read (calm.config.place path) = .ok "a;")
    (hcur : w.current? (calm.config.place goal) = .ok none) :
    calm.Through b (w, untouched i) (w, copying i path goal .make) := by
  have hload : calm.load w path = .ok (bareUnit path) := by
    have hparsed : calm.load w path = .ok ⟨path, SourceUnit.languageFor path, Source.ofText "a;", some bareTree⟩ :=
      load_parsed rfl hr rfl rfl
    rwa [h.language] at hparsed
  have hprep : calm.prepareUnit w path (bareUnit path) = .ok (.ready (copied goal)) := by
    rw [← prepare_loaded hload]
    exact h.prepared hr
  have htake : calm.advance b w (untouched i) =
      some (w, loaded (calm.begun i (memberAt path)) path (bareUnit path)) := by
    show b.members[i.toNat]?.bind _ = _
    rw [hm, Option.bind_some, takeUp]
    simp only [show (memberAt path).path.step = .ok path from rfl, hload]
  have hlead : calm.advance b w (loaded (calm.begun i (memberAt path)) path (bareUnit path)) =
      some (w, looking (announced (calm.begun i (memberAt path)) (copied goal)) path (copied goal) []
        [(calm.config.place goal, "a;")]) := by
    show calm.leadUp w _ path _ = _
    rw [leadUp, hprep]
    rfl
  refine .head htake (.head hlead ?_)
  have hstanding : w.standing [(calm.config.place goal, "a;")] =
      .ok [((calm.config.place goal, "a;"), none)] := by
    rw [standing_cons, hcur]
    rfl
  have hlook : calm.Through b
      (w, looking (announced (calm.begun i (memberAt path)) (copied goal)) path (copied goal) []
        [(calm.config.place goal, "a;")]) _ := looking_through hstanding
  refine hlook.tail ?_
  rfl

theorem Copies.drafts {i : Int} (h : Copies path goal) (hm : b.members[i.toNat]? = some (memberAt path))
    (hr : w.read (calm.config.place path) = .ok "a;")
    (hcur : w.current? (calm.config.place goal) = .ok none) {w₁ : Workspace}
    (hmake : w.makeFolder (Path.parent (calm.config.place goal)) = (w₁, none))
    (hdraft : w₁.write (draftOf (calm.config.place goal)) "a;" = .ok w') :
    calm.Through b (w, untouched i) (w', copying i path goal .place) := by
  exact ((h.reaches hm hr hcur).tail (advance_make hmake)).tail (advance_draft hdraft)

end Conditions

end Retype

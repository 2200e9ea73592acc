import Retype.Project.Reading
import Retype.Roadmap.Batch
import Retype.Run.Archive

/-!
# Migrating one item

An item goes through its stages in order: its source is loaded, analysed, given
types, retyped, written and, if that is wanted, checked. What goes wrong in a
stage becomes a failed outcome, and the other items go on; only an interruption
ends more than the item.
-/

set_option autoImplicit false

namespace Retype

/-- What a run is told to do; what is left open the settings decide. -/
structure RunOptions where
  dryRun : Bool := false
  skipExisting : Bool := false
  force : Bool := false
  resume : Bool := false
  verify : Option Bool := none
  workers : Json := .null
  shardSize : Json := .null
  memory : Json := .null
  deriving Repr, Inhabited

/-- What a run depends on besides the files: settings and options, the parser, the
checker of written targets, mishaps before a stage of an item, the time, the memory
in use if it is watched, and what is read from files. -/
structure Conditions where
  config : Config
  options : RunOptions
  parse : Parse
  check : String → List String
  upset : Stage → String → Option Mishap
  now : String
  octets : Option Json := none
  reading : Json.Limits := .standard

inductive Halt where
  | failed (stage : Stage) (text : String)
  | interrupted (m : Mishap)
  deriving DecidableEq, Repr, Inhabited

inductive Preparation where
  | skip (reason : String) (target : Option String)
  | ready (t : Retyped)
  deriving Repr, Inhabited

namespace Conditions

variable (c : Conditions)

def enter (stage : Stage) (path : String) : Except Halt Unit :=
  match c.upset stage path with
  | none => .ok ()
  | some m => .error (if m.interrupts then .interrupted m else .failed stage m.shown)

def attempt {α : Type} (stage : Stage) (path : String) (work : Except Trouble α) :
    Except Halt α := do
  c.enter stage path
  work.mapError fun t => .failed stage t.message

/-- Work between the stages: what goes wrong there ends more than the item. -/
def between {α : Type} (work : Except Trouble α) : Except Halt α :=
  work.mapError fun t => .interrupted (.ofTrouble t)

/-- Loads a source; one with errors in its tree is refused. -/
def load (w : Workspace) (path : String) : Except Halt SourceUnit := do
  c.enter .load path
  match c.config.readUnit w c.parse path none with
  | .error e =>
    let lead := if e.fromSystem then "Cannot read " ++ c.config.place path ++ ": " else ""
    throw (.failed .load (lead ++ e.message))
  | .ok u =>
    if u.hasError then throw (.failed .load (RetypeError.brokenSource path).message) else return u

def occupied? (w : Workspace) (path : String) : Except Halt (Option String) :=
  if c.options.skipExisting then between (c.config.existingTarget? w path) else return none

/-- The stages between loading and writing. -/
def prepareUnit (w : Workspace) (path : String) (u : SourceUnit) : Except Halt Preparation := do
  if u.language ≠ .javascript then return .skip "already TypeScript" none
  match ← c.occupied? w path with
  | some t => return .skip ("target exists: " ++ t) (some t)
  | none =>
    let p ← c.attempt .analyze path (c.config.profile w u)
    let s ← c.attempt .synthesize path (return c.config.synthesis p)
    let target ← between (c.config.targetOf p)
    match ← c.attempt .transform path (c.config.retype u p s target) with
    | .error e => throw (.failed .transform e.message)
    | .ok t => return .ready t

def prepare (w : Workspace) (path : String) : Except Halt Preparation := do
  c.prepareUnit w path (← c.load w path)

def verifies : Bool := c.options.verify.getD c.config.verify

end Conditions

/-! ## Writing -/

def Config.outputs (c : Config) (t : Retyped) : List (String × String) :=
  (c.place t.target, t.code) :: (t.companion.map fun k => (c.place k.path, k.text)).toList

namespace Workspace

def current? (w : Workspace) (path : String) : Except OsError (Option String) := do
  if ← w.hasFile path then return some (← w.readText path) else return none

def standing (w : Workspace) (outputs : List (String × String)) :
    Except OsError (List ((String × String) × Option String)) :=
  outputs.mapM fun o => return (o, ← w.current? o.1)

def writeEach (w : Workspace) : List (String × String) → Workspace × Option OsError
  | [] => (w, none)
  | (path, text) :: rest => unlessFailed (w.writeWhole path text) fun w => w.writeEach rest

/-- Whether a file with another content stands in the place of an output and is to stay. -/
def refuses (force : Bool) (seen : List ((String × String) × Option String)) : Bool :=
  !force && seen.any fun (o, text) => text.any (· ≠ o.2)

def changed (seen : List ((String × String) × Option String)) : List (String × String) :=
  (seen.filter fun (o, text) => text ≠ some o.2).map (·.1)

/-- Writes the outputs of an item, leaving out those that are there already. A file
with another content is only replaced under `force`; otherwise nothing is written.
Tells whether the outputs are now there. -/
def writeOutputs (w : Workspace) (force : Bool) (outputs : List (String × String)) :
    Workspace × Except OsError Bool :=
  match w.standing outputs with
  | .error e => (w, .error e)
  | .ok seen =>
    if refuses force seen then (w, .ok false)
    else match w.writeEach (changed seen) with
      | (w, some e) => (w, .error e)
      | (w, none) => (w, .ok true)

end Workspace

/-! ## The whole item -/

namespace Conditions

variable (c : Conditions)

def begun (index : Int) (m : Member) : Outcome :=
  { index := index, name := m.name, success := false, dryRun := c.options.dryRun }

/-- The outcome of an item whose stages end early, unless they were interrupted. -/
def halted (o : Outcome) : Halt → Except Mishap Outcome
  | .interrupted m => .error m
  | .failed stage text => .ok { o with error := .str text, stage := .str stage.text }

/-- Checks what was written for an item, if that is wanted. -/
def checked (path target : String) (o : Outcome) : Except Mishap Outcome :=
  if c.verifies then
    match c.enter .verify path with
    | .error h => halted o h
    | .ok () => .ok
      { o with success := true, warnings := o.warnings ++ (c.check target).map .str }
  else .ok { o with success := true }

def announced (o : Outcome) (t : Retyped) : Outcome :=
  { o with target := .str t.target, warnings := t.warnings.map .str }

/-- The outcome of an item that another file stands in the way of. -/
def yielded (o : Outcome) (t : Retyped) : Outcome :=
  { o with
    success := true
    skipped := true
    reason := .str ("target exists with different content: " ++ t.target ++ " (use --force)") }

def passed (o : Outcome) (reason : String) (target : Option String) : Outcome :=
  { o with
    success := true
    skipped := true
    reason := .str reason
    target := Json.ofOption .str target }

/-- Writes what was prepared for an item. -/
def finish (w : Workspace) (path : String) (begun : Outcome) (t : Retyped) :
    Workspace × Except Mishap Outcome :=
  let o := announced begun t
  match c.enter .write path with
  | .error h => (w, halted o h)
  | .ok () =>
    if c.options.dryRun then (w, .ok { o with success := true })
    else match w.writeOutputs c.options.force (c.config.outputs t) with
      | (w, .error e) => (w, halted o (.failed .write e.message))
      | (w, .ok false) => (w, .ok (yielded o t))
      | (w, .ok true) => (w, c.checked path t.target o)

/-- Migrates one item of a batch. -/
def migrate (w : Workspace) (index : Int) (m : Member) : Workspace × Except Mishap Outcome :=
  let o := c.begun index m
  match m.path.step with
  | .error f => (w, halted o (.failed .load f.message))
  | .ok path =>
    match c.prepare w path with
    | .error h => (w, halted o h)
    | .ok (.skip reason target) => (w, .ok (passed o reason target))
    | .ok (.ready t) => c.finish w path o t

end Conditions

end Retype

import Retype.Roadmap.File
import Retype.Run.Ledger

/-!
# The archive of checkpoints

Checkpoints go to the ledger, if there is one, and to a JSON file for each
batch, which is replaced as a whole. They are read from the ledger first. A file
that cannot be read as a checkpoint counts as none, unless a value in it is of a
type that reading does not expect.
-/

set_option autoImplicit false

namespace Retype

/-- What runs change: the files of a project and the ledgers that stand among them. -/
structure Site where
  files : Workspace
  ledgers : List (String × Ledger) := []
  deriving Inhabited

namespace Site

def ledger? (s : Site) (path : String) : Option Ledger :=
  if s.files.isFile path then some ((Keyed.get? path s.ledgers).getD {}) else none

def setLedger (s : Site) (path : String) (l : Ledger) : Site :=
  { s with ledgers := Keyed.put path l s.ledgers }

end Site

inductive ArchiveError where
  | ledger
  | os (e : OsError)
  deriving DecidableEq, Repr, Inhabited

namespace Site

/-- Makes sure that a ledger stands under a path whose folder is there. A ledger has no text,
so a file with a text is none, and neither is a folder. -/
def openLedger (s : Site) (path : String) : Except ArchiveError Site :=
  match s.files.look path with
  | .ok (some (.file "")) => .ok s
  | .ok none => match s.files.write path "" with
    | .ok files => .ok ({ s with files := files }.setLedger path {})
    | .error _ => .error .ledger
  | .ok (some _) | .error _ => .error .ledger

end Site

namespace Workspace

/-- Writes a file beside its place and then moves it there, so that what stood
there is replaced as a whole. What was done before a failure stays. -/
def writeWhole (w : Workspace) (path text : String) : Workspace × Option OsError :=
  unlessFailed (w.makeFolder (Path.parent path)) fun w =>
    unlessFailed (w.settled (w.write (path ++ ".tmp") text)) fun w =>
      w.settled (w.replace (path ++ ".tmp") path)

end Workspace

/-- Where checkpoints go. An archive that is not enabled writes nothing. -/
structure Archive where
  folder : String
  ledger : Option String := none
  enabled : Bool := true
  reading : Json.Limits := .standard
  deriving DecidableEq, Repr, Inhabited

namespace Archive

def fileOf (a : Archive) (batch : Int) : String :=
  Path.join a.folder ("batch-" ++ toString batch ++ "-checkpoint.json")

def failuresOf (a : Archive) (batch : Int) : String :=
  Path.join a.folder ("batch-" ++ toString batch ++ "-failures.json")

def ledgerOf (a : Archive) (s : Site) : Option (String × Ledger) :=
  a.ledger.map fun path => (path, (s.ledger? path).getD {})

def record (a : Archive) (s : Site) (c : Checkpoint) : Except ArchiveError Site :=
  match a.ledgerOf s with
  | none => .ok s
  | some (path, l) => match l.save c with
    | none => .error .ledger
    | some l => .ok (s.setLedger path l)

/-- Saves a checkpoint. What was done before a failure stays. -/
def save (a : Archive) (s : Site) (c : Checkpoint) : Site × Option ArchiveError :=
  if !a.enabled then (s, none)
  else match a.record s c with
    | .error e => (s, some e)
    | .ok s =>
      let (files, e) := s.files.writeWhole (a.fileOf c.batch) c.toJson.pretty
      ({ s with files := files }, e.map .os)

/-- The checkpoint that a document holds, if it could be read. One with a fault of a
key or a value is none; other faults escape. -/
def checkpointIn (document : Except Fault Json) : Except Fault (Option Checkpoint) :=
  match document >>= Checkpoint.ofJson with
  | .ok c => .ok (some c)
  | .error f => match f.kind with
    | .key | .value => .ok none
    | .member | .type | .range | .depth => .error f

def checkpointOf (l : Json.Limits) (text : String) : Except Fault (Option Checkpoint) :=
  checkpointIn ((Json.read l text).mapError Json.ReadError.fault)

def loadFile (a : Archive) (s : Site) (batch : Int) : Except Trouble (Option Checkpoint) := do
  if ← s.files.holds (a.fileOf batch) then
    match s.files.readText (a.fileOf batch) with
    | .ok text => checkpointOf a.reading text
    | .error _ => return none
  else return none

def load (a : Archive) (s : Site) (batch : Int) : Except Trouble (Option Checkpoint) :=
  match (a.ledgerOf s).bind fun (_, l) => l.load batch with
  | some c => .ok (some c)
  | none => a.loadFile s batch

/-- Forgets the checkpoint of a batch. What was done before a failure stays. -/
def clear (a : Archive) (s : Site) (batch : Int) : Site × Option OsError :=
  if !a.enabled then (s, none)
  else
    let s := match a.ledgerOf s with
      | none => s
      | some (path, l) => s.setLedger path (l.clear batch)
    match s.files.remove (a.fileOf batch) with
    | .ok files => ({ s with files := files }, none)
    | .error e => (s, some e)

def saveFault (a : Archive) (s : Site) (p : Progress) (m : Mishap) (timestamp : String) : Site :=
  (a.save s (p.faultCheckpoint m timestamp)).1

end Archive

end Retype

import Retype.Json.Printer
import Retype.Json.Reader
import Retype.Project.Trouble
import Retype.Roadmap.Batch

/-!
# The roadmap file

A roadmap is written as a JSON list of batches and read back batch by batch. A
file that is there but cannot be read as batches is refused as a whole.
-/

set_option autoImplicit false

namespace Retype

namespace Workspace

/-- Writes a file, creating the folders above it where they are missing. What was made
before a failure stays. -/
def writeBelow (w : Workspace) (path text : String) : Workspace × Option OsError :=
  unlessFailed (w.makeFolder (Path.parent path)) fun w => w.settled (w.write path text)

def writeJson (w : Workspace) (path : String) (v : Json) : Workspace × Option OsError :=
  w.writeBelow path (v.pretty ++ "\n")

end Workspace

inductive RoadmapError where
  | missing (path : String)
  | invalid (path : String) (why : Trouble)
  deriving DecidableEq, Repr, Inhabited

def RoadmapError.message : RoadmapError → String
  | missing path => "Roadmap not found: " ++ path ++ " (run 'tsmigrate plan' first)"
  | invalid path why => "Invalid roadmap " ++ path ++ ": " ++ why.message

abbrev RoadmapFailure := Failure RoadmapError

namespace Roadmap

/-- The file is refused for a fault of a key, a type or a value; the others escape. -/
def refuse (path : String) (f : Fault) : RoadmapFailure :=
  match f.kind with
  | .key | .type | .value => .refused (.invalid path (.fault f))
  | .member | .range | .depth => .upset (.fault f)

def batchesOf (l : Json.Limits) (text : String) : Except Fault (List Batch) := do
  (← (← (Json.read l text).mapError Json.ReadError.fault).each).mapM Batch.ofJson

def ofText (l : Json.Limits) (path text : String) : Except RoadmapFailure (List Batch) :=
  (batchesOf l text).mapError (refuse path)

def load (l : Json.Limits) (w : Workspace) (path : String) : Except RoadmapFailure (List Batch) := do
  if ← (w.holds path : Except Trouble Bool) then
    match w.readText path with
    | .ok text => ofText l path text
    | .error e => throw (.refused (.invalid path (.os e)))
  else throw (.refused (.missing path))

end Roadmap

end Retype

import Retype.Component.Record
import Retype.Corpus.Discovery
import Retype.Corpus.Graph
import Retype.Corpus.Report
import Retype.Project.Reading
import Retype.Roadmap.File

/-!
# Planning a migration

The sources of a project are discovered and analysed, their imports resolved,
and every profile gets its place in the graph and its priority; then come the
batches. The plan is written as an inventory, a roadmap and a report. A source
that cannot be read is counted and left out.
-/

set_option autoImplicit false

namespace Retype

structure Plan where
  profiles : List Profile
  links : List Link
  graph : Graph
  cycles : List (List String)
  batches : List Batch
  unread : Nat := 0
  deriving Inhabited

namespace Plan

/-- The plan for analysed profiles. -/
def ofProfiles (table : AliasTable) (extensions : List String) (t : Threshold)
    (profiles : List Profile) : Plan :=
  let links := Link.all profiles table extensions
  let graph := Graph.ofLinks profiles links
  let placed := profiles.map fun p => (graph.place t p).withPriority
  { profiles := placed
    links := links
    graph := graph
    cycles := graph.cycles
    batches := Batch.plan placed }

def report (p : Plan) : String := Report.text p.profiles p.cycles

def internalLinks (p : Plan) : Nat := (p.links.filter (·.internal)).length

def tally (xs : List String) : List (String × Nat) :=
  (Order.sortTexts (Order.distinct xs)).map fun x => (x, xs.count x)

def kinds (p : Plan) : List (String × Nat) := tally (p.profiles.map (·.kind.text))

def priorities (p : Plan) : List (String × Nat) :=
  tally (p.profiles.filterMap fun q => q.priority.map (·.text))

end Plan

inductive PlanError where
  | config (e : ConfigError)
  | discovery (e : DiscoveryError)
  | upset (t : Trouble)
  deriving Repr

instance : MonadLift (Except Trouble) (Except PlanError) := ⟨Except.mapError .upset⟩

instance : MonadLift (Except DiscoveryError) (Except PlanError) := ⟨Except.mapError .discovery⟩

/-- The threshold that a value sets. Without profiles nothing asks for it. -/
def Threshold.forProfiles (v : Json) (profiles : List Profile) : Except Fault Threshold :=
  if profiles.isEmpty then .ok (.ofInt 0) else Threshold.ofJson v

namespace Config

variable (c : Config)

/-- The profile of a source. One that cannot be read has none. -/
def profileOf (w : Workspace) (parse : Parse) (path : String) (language : Option Language) :
    Except Trouble (Option Profile) :=
  match c.readUnit w parse path language with
  | .ok u => some <$> c.profile w u
  | .error e => if e.fromSystem then return none else throw (.os e)

/-- Whether one of some source folders is there. Those after it are not looked at. -/
def anyFolder (w : Workspace) : List Json → Except Trouble Bool
  | [] => return false
  | dir :: rest => do
    if ← w.hasFolder (c.place (← dir.step)) then return true else anyFolder w rest

def planOf (profiles : List Profile) : Except Fault Plan := do
  let table ← c.aliasTable
  let extensions ← (← (c.value "extensions").each).mapM (·.textWith "lower")
  return Plan.ofProfiles table extensions (← Threshold.forProfiles (c.value "critical_threshold") profiles) profiles

/-- The plan for the sources of a project. -/
def plan (w : Workspace) (parse : Parse) : Except PlanError Plan := do
  if !w.isFolder c.root then throw (.config (.projectMissing c.root))
  let dirs ← ((c.value "source_dirs").each : Except Trouble _)
  if !(← c.anyFolder w dirs) then
    throw (.config (.sourcesMissing c.root (dirs.map Json.shown)))
  let sources ← c.discover w
  let found ← (sources.mapM fun (path, language) =>
    c.profileOf w parse path (some language) : Except Trouble _)
  let plan ← (c.planOf (found.filterMap id) : Except Trouble _)
  return { plan with unread := (found.filter Option.isNone).length }

end Config

/-! ## Writing a plan -/

namespace Plan

def writeInventory (p : Plan) (c : Config) (w : Workspace) :
    Except Trouble (Workspace × Option OsError) := do
  return w.writeJson (← c.placeOf "inventory_file") (.arr (p.profiles.map Profile.toJson))

/-- Writes the roadmap of a plan; every batch has to have an average. -/
def writeRoadmap (p : Plan) (c : Config) (w : Workspace) :
    Except Trouble (Workspace × Option OsError) := do
  let place ← c.placeOf "roadmap_file"
  let batches ← (p.batches.mapM Batch.toJson : Except Fault _)
  return w.writeJson place (.arr batches)

def writeReport (p : Plan) (c : Config) (w : Workspace) :
    Except Trouble (Workspace × Option OsError) := do
  return w.writeBelow (← c.placeOf "relationships_file") p.report

end Plan

end Retype

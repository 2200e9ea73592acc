import Retype.Run.Item
import Retype.Run.Memory
import Retype.Run.Phase
import Retype.Run.Shards

/-!
# Running a batch

The pending items of a batch are cut into waves of shards. After each item its
outcome is committed and a checkpoint saved. An interruption ends its shard; the
other shards of the wave go on, and then the run ends paused, with a checkpoint
that tells what happened. A run that ends by itself is completed.
-/

set_option autoImplicit false

namespace Retype

structure Summary where
  batch : Int
  name : Json
  total : Nat
  results : List Outcome
  dryRun : Bool
  report : Option String := none
  deriving Repr, Inhabited

namespace Summary

def succeeded (s : Summary) : Nat := (s.results.filter Outcome.succeeded).length

def skipped (s : Summary) : Nat := (s.results.filter (·.skipped)).length

def failures (s : Summary) : List Outcome := s.results.filter Outcome.failed

end Summary

/-- Why a run raises instead of giving a summary. -/
inductive RunError where
  | phase (e : PhaseError)
  | roadmap (e : RoadmapFailure)
  | noBatch (id : Int) (available : List Int)
  | upset (t : Trouble)
  | archive (e : ArchiveError)
  | mishap (m : Mishap)
  deriving DecidableEq, Repr, Inhabited

def noBatchMessage (id : Int) (available : List Int) : String :=
  let listed := String.intercalate ", " (available.map toString)
  "Batch " ++ toString id ++ " not found (available: " ++
    (if listed.isEmpty then "none" else listed) ++ ")"

def ArchiveError.mishap : ArchiveError → Mishap
  | ledger => { kind := "Error", text := "" }
  | os e => { kind := e.cause.kind, text := e.message }

inductive Stop where
  | mishap (m : Mishap)
  | archive (e : ArchiveError)
  deriving DecidableEq, Repr, Inhabited

namespace Stop

def asMishap : Stop → Mishap
  | mishap m => m
  | archive e => e.mishap

def error : Stop → RunError
  | mishap m => .mishap m
  | archive e => .archive e

end Stop

/-! ## What a run works with -/

/-- The settings of a run, once they have been looked at: how many work on how many
items at a time, where checkpoints go, and the limits on memory if it is watched. -/
structure Equipment where
  workers : Json
  shardSize : Json
  archive : Archive
  limits : Option MemoryLimits := none
  deriving Inhabited

namespace Conditions

variable (c : Conditions)

/-- The budget that is asked for, unless it says nothing; else the one that is set. -/
def limits : Except Fault MemoryLimits :=
  MemoryLimits.ofMegabytes
    (if c.options.memory.truth then c.options.memory else c.config.value "memory_budget_mb")
    (c.config.value "memory_high_water") (c.config.value "memory_critical")
    (c.config.value "cooldown_seconds")

/-- Looks at the settings of a run, with the ledger that checkpoints go to if there is one. -/
def equip (ledger : Option String) : Except Fault Equipment := do
  let workers ← Shards.countOf c.options.workers (c.config.value "workers")
  let shardSize ← Shards.countOf c.options.shardSize (c.config.value "shard_size")
  let folder ← c.config.placeOf "checkpoint_dir"
  let limits ← if c.octets.isSome then some <$> c.limits else pure none
  return ⟨workers, shardSize, ⟨folder, ledger, !c.options.dryRun, c.reading⟩, limits⟩

def memoryFault? (e : Equipment) : Option Fault := do
  Watch.fault? (← e.limits) (← c.octets)

end Conditions

/-! ## Items, shards and waves -/

structure Work where
  site : Site
  progress : Progress
  deriving Inhabited

namespace Work

variable (c : Conditions) (e : Equipment) (b : Batch)

def commit (k : Work) (o : Outcome) : Work × Option ArchiveError :=
  let p := k.progress.commit o
  let (site, e) := e.archive.save k.site (p.checkpoint .null c.now)
  (⟨site, p⟩, e)

/-- Migrates an item and commits its outcome, if memory can be watched. -/
def item (k : Work) (index : Int) : Work × Option Stop :=
  match c.memoryFault? e, b.members[index.toNat]? with
  | some f, _ => (k, some (.mishap (.ofTrouble (.fault f))))
  | none, none => (k, none)
  | none, some m =>
    match c.migrate k.site.files index m with
    | (files, .error mishap) => ({ k with site := { k.site with files := files } }, some (.mishap mishap))
    | (files, .ok o) =>
      let (k, e) := commit c e { k with site := { k.site with files := files } } o
      (k, e.map .archive)

def shard (k : Work) : List Int → Work × Option Stop
  | [] => (k, none)
  | i :: rest =>
    match item c e b k i with
    | (k, some s) => (k, some s)
    | (k, none) => shard k rest

/-- All shards of a wave, one after the other: one of the orders in which shards that work
at the same time may take their turns. One that is interrupted leaves the others alone; a
checkpoint that cannot be saved ends the wave. -/
def wave (k : Work) : List (List Int) → Work × Option Stop
  | [] => (k, none)
  | s :: rest =>
    match shard c e b k s with
    | (k, none) => wave k rest
    | (k, some (.archive e)) => (k, some (.archive e))
    | (k, some (.mishap m)) =>
      match wave k rest with
      | (k, some (.archive e)) => (k, some (.archive e))
      | (k, _) => (k, some (.mishap m))

def waves (k : Work) : List (List (List Int)) → Work × Option Stop
  | [] => (k, none)
  | w :: rest =>
    match wave c e b k w with
    | (k, some s) => (k, some s)
    | (k, none) => waves k rest

/-- All that is pending, cut into waves; counts that are not whole stop a run
before its first item. -/
def all (k : Work) : Work × Option Stop :=
  match Shards.wavesBy e.workers e.shardSize k.progress.pending with
  | .error f => (k, some (.mishap (.ofTrouble (.fault f))))
  | .ok ws => waves c e b k ws

end Work

/-! ## The report of failures -/

def failureEntry (b : Batch) (o : Outcome) : Json :=
  let path := if o.index < 0 then none else (b.members[o.index.toNat]?).map (·.path)
  .obj [("index", .int o.index), ("name", o.name), ("path", path.getD .null),
    ("stage", o.stage), ("error", o.error)]

/-- Writes the report of a run with failures; a dry run writes none. What was done before a
failure stays. -/
def Archive.report (a : Archive) (w : Workspace) (b : Batch) (s : Summary) :
    Workspace × Except OsError Summary :=
  if s.failures.isEmpty || s.dryRun then (w, .ok s)
  else
    let path := a.failuresOf b.id
    match w.writeJson path (.arr (s.failures.map (failureEntry b))) with
    | (w, some e) => (w, .error e)
    | (w, none) => (w, .ok { s with report := some path })

/-! ## Runs -/

structure Runner where
  phase : Phase := .idle
  progress : Option Progress := none
  deriving Inhabited

namespace Batch

def select (id : Int) (batches : List Batch) : Except RunError Batch :=
  match batches.find? fun b => b.id == id with
  | some b => .ok b
  | none => .error (.noBatch id (batches.map (·.id)))

end Batch

namespace Runner

variable (c : Conditions) (e : Equipment)

/-- The progress to start from: that of the batch's checkpoint if the run is to be
resumed and there is one, else none. A fresh run clears the old checkpoint. -/
def start (s : Site) (b : Batch) : Site × Except RunError Progress :=
  let fresh : Progress := { batch := b.id, count := b.size }
  if c.options.resume then
    match e.archive.load s b.id with
    | .error t => (s, .error (.upset t))
    | .ok none => (s, .ok fresh)
    | .ok (some cp) => (s, .ok (.ofCheckpoint cp b.size))
  else match e.archive.clear s b.id with
    | (s, some e) => (s, .error (.upset (.os e)))
    | (s, none) => (s, .ok fresh)

/-- Ends a run that went through: a last checkpoint, the summary, the report. -/
def conclude (r : Runner) (b : Batch) (k : Work) : Runner × Site × Except RunError Summary :=
  match e.archive.save k.site (k.progress.checkpoint .null c.now) with
  | (s, some e) => ({ r with phase := .executing }, s, .error (.archive e))
  | (s, none) =>
    let summary : Summary :=
      { batch := b.id
        name := b.name
        total := b.size
        results := k.progress.ordered
        dryRun := c.options.dryRun }
    match e.archive.report s.files b summary with
    | (files, .error e) => ({ r with phase := .completed }, { s with files := files }, .error (.upset (.os e)))
    | (files, .ok summary) => ({ r with phase := .completed }, { s with files := files }, .ok summary)

/-- Runs a batch from some progress on. -/
def runBatch (r : Runner) (s : Site) (b : Batch) (p : Progress) :
    Runner × Site × Except RunError Summary :=
  match r.phase.enter .executing with
  | .error e => ({ r with progress := some p }, s, .error (.phase e))
  | .ok _ =>
    match Work.all c e b ⟨s, p⟩ with
    | (k, none) => conclude c e { r with progress := some k.progress } b k
    | (k, some stop) =>
      (⟨.paused, some k.progress⟩, e.archive.saveFault k.site k.progress stop.asMishap c.now,
        .error stop.error)

def find (s : Site) (id : Int) : Except RunError Batch :=
  match c.config.placeOf "roadmap_file" with
  | .error f => .error (.upset (.fault f))
  | .ok path => match Roadmap.load c.reading s.files path with
    | .error e => .error (.roadmap e)
    | .ok batches => Batch.select id batches

/-- Runs the batch with an id from the roadmap of the project. -/
def run (r : Runner) (s : Site) (id : Int) : Runner × Site × Except RunError Summary :=
  match r.phase.enter .planning with
  | .error e => (r, s, .error (.phase e))
  | .ok phase =>
    let r := { r with phase := phase }
    match find c s id with
    | .error e => (r, s, .error e)
    | .ok b =>
      match start c e s b with
      | (s, .error e) => (r, s, .error e)
      | (s, .ok p) => runBatch c e r s b p

end Runner

end Retype

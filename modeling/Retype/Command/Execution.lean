import Retype.Command.Invocation
import Retype.Corpus.Planning
import Retype.Decimal.Shortest
import Retype.Run.Runner

/-!
# Execution of commands

A command reads and changes the files of a project and prints lines. What the
program itself refuses ends it with a message; whatever else goes wrong escapes
as it is.
-/

set_option autoImplicit false

namespace Retype

/-- What a command depends on besides the files. -/
structure Surroundings where
  here : String
  parse : Parse
  check : String → List String
  now : String
  elapsed : Float
  /-- The memory in use. -/
  octets : Json
  processors : Option Nat
  reading : Json.Limits := .standard

structure Session where
  site : Site
  out : String := ""
  err : String := ""
  deriving Inhabited

/-- Why a command ends early. -/
inductive CommandError where
  | config (e : ConfigError)
  | discovery (e : DiscoveryError)
  | roadmap (e : RoadmapError)
  | run (e : RunError)
  | upset (t : Trouble)
  deriving Repr, Inhabited

namespace CommandError

def ofPlan : PlanError → CommandError
  | .config e => config e
  | .discovery e => discovery e
  | .upset t => upset t

def ofFailure {ε : Type} (refused : ε → CommandError) : Failure ε → CommandError
  | .refused e => refused e
  | .upset t => upset t

def ofArchive : ArchiveError → CommandError
  | .ledger => run (.archive .ledger)
  | .os e => upset (.os e)

/-- The message of what the program itself refuses; none for what escapes. -/
def message? : CommandError → Option String
  | config e => some e.message
  | roadmap e => some e.message
  | run (.roadmap (.refused e)) => some e.message
  | run (.phase e) => some e.message
  | run (.noBatch id available) => some (noBatchMessage id available)
  | _ => none

end CommandError

abbrev Act := ExceptT CommandError (StateM Session)

namespace Act

def say (line : String) : Act Unit := modify fun s => { s with out := s.out ++ line ++ "\n" }

def warn (line : String) : Act Unit := modify fun s => { s with err := s.err ++ line ++ "\n" }

def files : Act Workspace := return (← get).site.files

def setSite (site : Site) : Act Unit := modify fun s => { s with site := site }

def setFiles (files : Workspace) : Act Unit :=
  modify fun s => { s with site := { s.site with files := files } }

def lift {ε α : Type} (f : ε → CommandError) : Except ε α → Act α
  | .ok a => pure a
  | .error e => throw (f e)

def attempt {α : Type} : Except Trouble α → Act α := lift .upset

def look {α : Type} : Except Fault α → Act α := lift fun f => .upset (.fault f)

def change (f : Workspace → Except Trouble (Workspace × Option OsError)) : Act Unit := do
  let (w, e) ← attempt (f (← files))
  setFiles w
  match e with
  | some e => throw (.upset (.os e))
  | none => pure ()

end Act

namespace Execution

open Act

variable (a : Surroundings)

def resolve (path : String) : Act String := do
  let p := Path.normal (Path.join a.here path)
  match Path.flaw? p with
  | none | some .tooLong => return p
  | some cause => throw (.upset (.os { cause := cause, path := p }))

def configAt (config : Option String) (path : String) : Act Config := do
  let root ← resolve a path
  let w ← files
  if ← attempt (w.hasFolder root) then
    Act.lift (.ofFailure .config) (Config.load a.reading a.processors w a.here root config)
  else throw (.config (.projectMissing root))

def ledgerPath (c : Config) : Except Fault String :=
  return c.place (Path.join (← (c.value "checkpoint_dir").path) "migration.duckdb")

def openLedger (c : Config) : Act String := do
  let path ← look (ledgerPath c)
  change fun w => return w.makeFolder (Path.parent path)
  setSite (← Act.lift .ofArchive ((← get).site.openLedger path))
  return path

def findLedger (c : Config) : Act (Option String) := do
  let path ← look (ledgerPath c)
  if ← attempt ((← files).holds path) then
    setSite (← Act.lift .ofArchive ((← get).site.openLedger path))
    return some path
  else return none

def note (path key value : String) : Act Unit := do
  let site := (← get).site
  match site.ledger? path with
  | some l => setSite (site.setLedger path (l.note key (.str value)))
  | none => throw (.run (.archive .ledger))

/-! ## Planning -/

def plan (config : Option String) (path : String) : Act Unit := do
  let c ← configAt a config path
  warn ("Analyzing " ++ c.root)
  let p ← Act.lift .ofPlan (c.plan (← files) a.parse)
  change (p.writeInventory c)
  change (p.writeRoadmap c)
  change (p.writeReport c)
  let ledger ← openLedger c
  note ledger "last_plan_at" a.now
  note ledger "last_plan_components" (toString p.profiles.length)
  say ("  components: " ++ toString p.profiles.length)
  say ("  edges:      " ++ toString p.internalLinks)
  say ("  cycles:     " ++ toString p.cycles.length)
  for (kind, n) in p.kinds do
    say ("    " ++ kind ++ ": " ++ toString n)
  say "  priorities:"
  for (priority, n) in p.priorities do
    say ("    " ++ priority ++ ": " ++ toString n)
  say "  batches:"
  for b in p.batches do
    say ("    " ++ toString b.id ++ ". " ++ b.name.shown ++ " (" ++ toString b.size ++ ")")
  if 0 < p.unread then warn ("  errors:     " ++ toString p.unread)
  let written := ["inventory_file", "roadmap_file", "relationships_file"]
  say ("Wrote " ++ String.intercalate ", " (written.map fun key => (c.value key).shown))

/-! ## Batches -/

def padTo (width : Nat) (s : String) : String :=
  s ++ String.ofList (List.replicate (width - s.length) ' ')

def column (width : Nat) : Json → Except Fault String
  | .str s => .ok (padTo width s)
  | .int n => .ok (padTo width (toString n))
  | .float x => .ok (padTo width (Decimal.text .plain x))
  | .bool b => .ok (padTo width (if b then "1" else "0"))
  | v => .error (.noColumn v.form)

def listMember (m : Member) : Act Unit := do
  let name ← look (column 30 m.name)
  let level ← look (column 10 m.level)
  say ("     - " ++ name ++ " " ++ level ++ " " ++ m.path.shown)

def batches (config : Option String) (path : String) (list : Bool) : Act Unit := do
  let c ← configAt a config path
  let roadmap ← look (c.placeOf "roadmap_file")
  for b in ← Act.lift (.ofFailure .roadmap) (Roadmap.load a.reading (← files) roadmap) do
    say (toString b.id ++ ". " ++ b.name.shown)
    say ("   " ++ b.description.shown)
    let average ← look b.average
    let effort ← look b.effort
    say ("   components: " ++ toString b.size ++ "  avg complexity: " ++ toString average ++
      "  effort: " ++ Decimal.fixed 1 effort ++ "h")
    if list then
      for m in b.members do
        listMember m

/-! ## Running -/

def printSummary (s : Summary) : Act Unit := do
  say ("\nBatch " ++ toString s.batch ++ ": " ++ s.name.shown ++ (if s.dryRun then " (dry run)" else ""))
  say ("  succeeded: " ++ toString s.succeeded)
  say ("  skipped:   " ++ toString s.skipped)
  say ("  failed:    " ++ toString s.failures.length)
  say ("  elapsed:   " ++ Decimal.fixed 1 a.elapsed ++ "s")
  for o in s.failures do
    warn ("  ✗ " ++ o.name.shown ++ " [" ++ o.stage.shown ++ "] " ++ o.error.shown)
  match s.report with
  | some path => say ("Failure report: " ++ path)
  | none => pure ()

def run (config : Option String) (path : String) (id : Int) (options : RunOptions) : Act Unit := do
  let config ← configAt a config path
  let ledger ← if options.dryRun then pure none else do
    let log ← look (config.placeOf "log_dir")
    change fun w => return w.makeFolder log
    some <$> openLedger config
  let c : Conditions := ⟨config, options, a.parse, a.check, fun _ _ => none, a.now, some a.octets, a.reading⟩
  let equipment ← look (c.equip ledger)
  let (_, site, result) := Runner.run c equipment {} (← get).site id
  setSite site
  printSummary a (← Act.lift .run result)

/-! ## Status -/

def overview : Option Ledger → Act Unit
  | none => say "No migration runs recorded yet"
  | some l => do
    let planned := (Keyed.get? "last_plan_at" l.notes).getD .null
    let ids := String.intercalate ", " (l.batches.map toString)
    say ("Planned:   " ++ if planned.truth then planned.shown else "(not planned yet)")
    say ("Batches:   " ++ if ids.isEmpty then "(none run yet)" else ids)
    say ("Succeeded: " ++ toString l.succeeded)
    say ("Skipped:   " ++ toString l.skipped)
    say ("Failed:    " ++ toString l.unsuccessful)

def printCheckpoint (c : Checkpoint) : Act Unit := do
  let failed := c.results.filter Outcome.failed
  say ("Batch:     " ++ toString c.batch)
  say ("Saved:     " ++ c.timestamp.shown)
  say ("Progress:  " ++ toString c.completed ++ "/" ++ toString c.count ++
    "  (next index " ++ toString c.next ++ ")")
  say ("Skipped:   " ++ toString (c.results.filter (·.skipped)).length)
  say ("Failed:    " ++ toString failed.length)
  if c.error.truth then say ("Stopped:   " ++ c.error.shown)
  for o in failed do
    say ("  ✗ [" ++ toString o.index ++ "] " ++ o.name.shown ++ " [" ++ o.stage.shown ++ "] " ++
      o.error.shown)

def status (config : Option String) (path : String) (id : Option Int) : Act Unit := do
  let c ← configAt a config path
  let ledger ← findLedger c
  let site := (← get).site
  match id with
  | none => overview (ledger.bind site.ledger?)
  | some id =>
    let archive : Archive := ⟨← look (c.placeOf "checkpoint_dir"), ledger, true, a.reading⟩
    match ← attempt (archive.load site id) with
    | none => say ("No checkpoint for batch " ++ toString id)
    | some c => printCheckpoint c

/-! ## Analysis of one file -/

def printProfile (c : Config) (p : Profile) : Act Unit := do
  say (p.kind.text ++ "  " ++ p.name ++ "  (" ++ p.path ++ ")")
  say ("  category:   " ++ p.category.text)
  let raw := match p.complexity with
    | some score => Decimal.text .plain score.raw
    | none => "0"
  say ("  complexity: " ++ raw ++ " (" ++ p.tier.text ++ ")")
  unless p.props.isEmpty do
    say "  props:"
  for q in p.props do
    say ("    " ++ q.name ++ (if q.isOptional then "?" else "") ++ ": " ++
      (q.inferred.bind nonEmpty).getD TypeText.unknown)
  unless p.state.isEmpty do
    say "  state:"
  for q in p.state do
    say ("    " ++ q.name ++ ": " ++ (q.inferred.bind nonEmpty).getD TypeText.unknown ++
      "  (" ++ q.hook.text ++ ")")
  unless p.patterns.isEmpty do
    say ("  patterns:   " ++ String.intercalate ", " (Order.sortTexts (p.patterns.map Pattern.text)))
  let specifiers := (p.imports.filter (·.internal)).map (·.specifier)
  unless specifiers.isEmpty do
    say ("  imports:    " ++ String.intercalate ", " specifiers)
  say ("  target:     " ++ (← look (c.targetOf p)))

def pathFrom (root path : String) : Option String :=
  if path = root then some "." else Affix.after? (if root = "/" then "/" else root ++ "/") path

def analyze (config : Option String) (path file : String) (json : Bool) : Act Unit := do
  let c ← configAt a config path
  let place ← resolve a file
  let w ← files
  match pathFrom c.root place with
  | none => throw (.config (.outside file c.root))
  | some path =>
    unless ← attempt (w.hasFile place) do
      throw (.config (.noFile file))
    match ← attempt (c.profileOf w a.parse path none) with
    | none => throw (.config (.notRead file))
    | some p => if json then say p.toJson.pretty else printProfile c p

/-- Executes an invocation. -/
def execute (i : Invocation) : Act Unit :=
  match i.command with
  | .plan path => plan a i.config path
  | .batches path list => batches a i.config path list
  | .run path id options => run a i.config path id options
  | .status path id => status a i.config path id
  | .analyze path file json => analyze a i.config path file json

end Execution

inductive Ending where
  | done
  | refused (message : String)
  | escaped (e : CommandError)
  | rejected (r : Rejection)
  deriving Repr, Inhabited

/-- Executes the command that arguments ask for. -/
def Surroundings.execute (a : Surroundings) (site : Site) (args : List String) : Ending × Session :=
  match Invocation.ofArguments args with
  | .error r => (.rejected r, { site := site })
  | .ok i =>
    match (Execution.execute a i).run { site := site } with
    | (.ok _, session) => (.done, session)
    | (.error e, session) => match e.message? with
      | some message =>
        (.refused message, { session with err := session.err ++ "error: " ++ message ++ "\n" })
      | none => (.escaped e, session)

end Retype

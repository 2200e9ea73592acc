import Retype.AliasTable
import Retype.Component.Synthesis
import Retype.Project.Scoring

/-!
# Settings of a project

A project's settings are defaults, overridden by the members of a JSON object in
a file at its root. Only keys, the placement of interfaces and the scoring are
checked when the file is read; every other value is kept as written, and looked
at where it is used.
-/

set_option autoImplicit false

namespace Retype

structure Config where
  root : String
  values : List (String × Json)
  scoring : WrittenScoring

namespace Config

def fileName : String := "tsmigrate.json"

def aliasDefaults : Json := .obj (AliasTable.standard.map fun (a, dir) => (a, .str dir))

/-- A worker for every processor but one; if their number is not known, it counts as two. -/
def workersFor (processors : Option Nat) : Int :=
  let count : Int := match processors with
    | none | some 0 => 2
    | some n => n
  max 1 (count - 1)

/-- All plain settings with their defaults. -/
def defaults (processors : Option Nat) : List (String × Json) :=
  [("source_dirs", .texts ["components"]),
   ("target_dir", .str "src/components"),
   ("checkpoint_dir", .str ".migration-checkpoints"),
   ("log_dir", .str "logs"),
   ("inventory_file", .str "component-inventory.json"),
   ("roadmap_file", .str "migration-roadmap.json"),
   ("relationships_file", .str "component-relationships.md"),
   ("extensions", .texts [".js", ".jsx", ".ts", ".tsx"]),
   ("exclude_dirs", .texts ["node_modules", ".git", ".next", "dist", "build", "out", "coverage",
     "vendor", "__tests__", "__mocks__", ".migration-checkpoints"]),
   ("exclude_markers", .texts [".test.", ".spec.", ".stories."]),
   ("aliases", aliasDefaults),
   ("critical_threshold", .int 4),
   ("workers", .int (workersFor processors)),
   ("shard_size", .int 10),
   ("memory_budget_mb", .int 8192),
   ("memory_high_water", .float 85.0),
   ("memory_critical", .float 90.0),
   ("cooldown_seconds", .float 5.0),
   ("interface_mode", .str "inline"),
   ("verify", .bool false)]

def standard (processors : Option Nat) (root : String) : Config := ⟨root, defaults processors, .standard⟩

def isSetting (key : String) : Bool := Keyed.has key (defaults none)

def isPlacement : Json → Bool
  | .str s => s == "inline" || s == "external"
  | _ => false

def set (file : String) (c : Config) (member : String × Json) : Except ConfigFailure Config :=
  let (key, v) := member
  if key == "scoring" then (WrittenScoring.read v).map fun s => { c with scoring := s }
  else if !isSetting key then .error (.refused (.unknownKey file key))
  else if key == "interface_mode" && !isPlacement v then .error (.refused (.placement v))
  else .ok { c with values := Keyed.put key v c.values }

/-- Reads the text of a settings file that stands at `path`. -/
def ofText (l : Json.Limits) (processors : Option Nat) (root path text : String) :
    Except ConfigFailure Config :=
  match Json.read l text with
  | .error (.malformed flaw spot) =>
    .error (.refused (.unreadable path (.fault (.badText flaw spot))))
  | .error e => .error (.upset (.fault e.fault))
  | .ok (.obj members) => members.foldlM (set (Path.base path)) (standard processors root)
  | .ok _ => .error (.refused (.notAnObject path))

/-- The settings of the project at `root`: those of the file that is asked for, or
else of the file at the root if there is one. Relative paths start at `here`. -/
def load (l : Json.Limits) (processors : Option Nat) (w : Workspace) (here root : String)
    (asked : Option String) :
    Except ConfigFailure Config := do
  let path := match asked.bind nonEmpty with
    | some p => Path.tidy p
    | none => Path.join root fileName
  let place := Path.join here path
  if ← (w.holds place : Except Trouble Bool) then
    match w.readText place with
    | .ok text => ofText l processors root path text
    | .error e => throw (.refused (.unreadable path (.os { e with path := path })))
  else if (asked.bind nonEmpty).isSome then throw (.refused (.fileMissing path))
  else return standard processors root

def value (c : Config) (key : String) : Json := (Keyed.get? key c.values).getD .null

def place (c : Config) (path : String) : String := Path.tidy (Path.join c.root path)

def placeOf (c : Config) (key : String) : Except Fault String := return c.place (← (c.value key).path)

end Config

end Retype

import Retype.Command.Arguments
import Retype.Run.Item

/-!
# Invocations

What the program is asked to do: a command with its settings, read off the
arguments. Arguments that say nothing sensible are rejected as a whole.
-/

set_option autoImplicit false

namespace Retype

inductive Command where
  | plan (path : String)
  | batches (path : String) (list : Bool)
  | run (path : String) (id : Int) (options : RunOptions)
  | status (path : String) (id : Option Int)
  | analyze (path file : String) (json : Bool)
  deriving Repr, Inhabited

structure Invocation where
  config : Option String
  command : Command
  deriving Repr, Inhabited

inductive Rejection where
  | usage
  | help
  deriving DecidableEq, Repr, Inhabited

namespace Invocation

def helpForm : OptionForm := ⟨["--help", "-h"], false⟩

def pathForm : OptionForm := ⟨["--path"], true⟩

def flag (name : String) : OptionForm := ⟨[name], false⟩

def leadingForms : List OptionForm :=
  [helpForm, ⟨["--verbose", "-v"], false⟩, ⟨["--config"], true⟩]

def runForms : List OptionForm :=
  [helpForm, pathForm, flag "--dry-run", flag "--verbose", flag "--skip-existing", flag "--force",
   flag "--resume", ⟨["--memory"], true⟩, ⟨["--workers"], true⟩, flag "--verify"]

/-- The options before the command, and the arguments from the command on. -/
def cutAtCommand (said : Said) : List String → Option (Said × List String)
  | [] => none
  | s :: rest =>
    match Argument.bundle? leadingForms s, Argument.ofText leadingForms s with
    | some names, _ => cutAtCommand (names.foldl Said.flag said) rest
    | none, none => none
    | none, some .separator => none
    | none, some (.word _) => some (said, s :: rest)
    | none, some (.option _ false (some _)) => none
    | none, some (.option name false none) => cutAtCommand (said.flag name) rest
    | none, some (.option name true (some value)) =>
      cutAtCommand (said.give name value) rest
    | none, some (.option name true none) =>
      match rest with
      | [] => none
      | value :: rest =>
        if Argument.ofText leadingForms value = some (.word value) then
          cutAtCommand (said.give name value) rest
        else none

def read (forms : List OptionForm) (args : List String) : Except Rejection Said :=
  match Argument.all forms args with
  | none => .error .usage
  | some as => match Said.ofArguments {} as with
    | none => .error .usage
    | some said => if said.has "--help" then .error .help else .ok said

def demand {α : Type} : Option α → Except Rejection α
  | some a => .ok a
  | none => .error .usage

def pathOf (said : Said) : String := (said.value? "--path").getD "."

def oneAtMost : List String → Except Rejection (Option String)
  | [] => .ok none
  | [s] => .ok (some s)
  | _ => .error .usage

def one (words : List String) : Except Rejection String := do demand (← oneAtMost words)

def planOf (args : List String) : Except Rejection Command := do
  let said ← read [helpForm] args
  return .plan ((← oneAtMost said.words).getD ".")

def batchesOf (args : List String) : Except Rejection Command := do
  let said ← read [helpForm, pathForm, flag "--list"] args
  if said.words.isEmpty && !said.isSeparated then
    return .batches (pathOf said) (said.has "--list")
  else throw .usage

def runOf (args : List String) : Except Rejection Command := do
  let said ← read runForms args
  let id ← demand (Numeral.int? (← one said.words))
  let workers ← demand (said.integer? "--workers")
  let memory ← demand (said.integer? "--memory")
  return .run (pathOf said) id
    { dryRun := said.has "--dry-run"
      skipExisting := said.has "--skip-existing"
      force := said.has "--force"
      resume := said.has "--resume"
      verify := if said.has "--verify" then some true else none
      workers := Json.ofOption .int workers
      memory := Json.ofOption .int memory }

def statusOf (args : List String) : Except Rejection Command := do
  let said ← read [helpForm, pathForm] args
  match ← oneAtMost said.words with
  | none => return .status (pathOf said) none
  | some s => return .status (pathOf said) (some (← demand (Numeral.int? s)))

def analyzeOf (args : List String) : Except Rejection Command := do
  let said ← read [helpForm, pathForm, flag "--json"] args
  return .analyze (pathOf said) (← one said.words) (said.has "--json")

def commandOf : List String → Except Rejection Command
  | [] => .error .usage
  | name :: args =>
    if name = "plan" then planOf args
    else if name = "batches" then batchesOf args
    else if name = "run" then runOf args
    else if name = "status" then statusOf args
    else if name = "analyze" then analyzeOf args
    else .error .usage

def ofArguments (args : List String) : Except Rejection Invocation := do
  let (said, rest) ← demand (cutAtCommand {} args)
  if said.has "--help" then throw .help
  return ⟨said.value? "--config", ← commandOf rest⟩

end Invocation

end Retype

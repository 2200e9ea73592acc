import Retype.Command.Execution
import Retype.Json.Reader
import Retype.Run.LedgerFile
import Retype.Run.TypeCheck
import Retype.Tree.Reader
import Std.Time

/-!
# The command line

Reads the files below the working directory, executes the command that the
arguments ask for, and writes back what it changed. There is no parser here:
trees come on standard input, one JSON object a line, with the language and the
text that each of them belongs to. Memory is not measured.
-/

set_option autoImplicit false

namespace Retype.Main

def skipped : List String := ["node_modules", ".git"]

def isLedger (path : String) : Bool := Path.extension path == ".duckdb"

/-- All files and folders below a folder; what is no text is left out. -/
partial def readBelow (dir : String) (entries : List (String × Entry)) :
    IO (List (String × Entry)) := do
  let mut entries := entries
  for e in (← (← IO.FS.realPath dir).readDir) do
    let path := e.path.toString
    if (← e.path.isDir) then
      if !skipped.contains e.fileName then
        entries ← readBelow path ((path, .folder) :: entries)
    else
      match String.fromUTF8? (← IO.FS.readBinFile path) with
      | some text => entries := (path, .file text) :: entries
      | none => pure ()
  return entries

def above (path : String) : List (String × Entry) :=
  (Workspace.foldersAbove path).map fun p => (p, .folder)

def ledgerOf (path : String) : Entry → Option Ledger
  | .file text => if isLedger path then (Json.read .unlimited text).toOption.map Ledger.ofJson else none
  | .folder => none

def readSite (here : String) : IO Site := do
  let entries := above here ++ (← readBelow here [(here, .folder)]).reverse
  let files := entries.map fun (path, e) => (path, if (ledgerOf path e).isSome then .file "" else e)
  return ⟨⟨files⟩, entries.filterMap fun (path, e) => (ledgerOf path e).map fun l => (path, l)⟩

/-- Writes every file that is new or has changed, and removes those that are gone. -/
def writeSite (old new : Site) : IO Unit := do
  for (path, e) in new.files.entries do
    match e with
    | .folder => IO.FS.createDirAll path
    | .file text =>
      let text := match new.ledger? path with
        | some l => if isLedger path && text.isEmpty then l.toJson.pretty else text
        | none => text
      if old.files.entry? path ≠ some (.file text) then IO.FS.writeFile path text
  for (path, e) in old.files.entries do
    if (new.files.entry? path).isNone && e ≠ .folder then IO.FS.removeFile path

partial def readTrees (input : IO.FS.Stream) (trees : List ((String × String) × Tree)) :
    IO (List ((String × String) × Tree)) := do
  let line ← input.getLine
  if line.isEmpty then return trees
  match Json.read .unlimited line with
  | .ok v => match v.field? "language", v.field? "source", (v.field? "tree").bind Tree.ofJson with
    | some (.str language), some (.str source), some tree =>
      readTrees input (((language, source), tree) :: trees)
    | _, _, _ => readTrees input trees
  | .error _ => readTrees input trees

def timeStamp : IO String := do
  let now := Std.Time.DateTime.ofTimestamp (← Std.Time.Timestamp.now) Std.Time.TimeZone.ZoneRules.UTC
  return now.toPlainDateTime.format "uuuu-MM-dd'T'HH:mm:ss.SSSSSS" ++ "+00:00"

/-- The checker cannot be started from here; a project with settings for it is told so. -/
def check (site : Site) (here target : String) : List String :=
  TypeCheck.ofTarget (site.files.isThere (Path.join here TypeCheck.settingsFile)) target .notFound

def status : Ending → UInt32
  | .done => 0
  | .rejected .help => 0
  | .rejected .usage => 2
  | .refused _ | .escaped _ => 1

end Retype.Main

open Retype in
def main (args : List String) : IO UInt32 := do
  let here := (← IO.currentDir).toString
  let site ← Main.readSite here
  let trees ← Main.readTrees (← IO.getStdin) []
  let a : Surroundings := ⟨here, Tree.lookUp trees, Main.check site here, ← Main.timeStamp, 0.0, .int 0, none, .standard⟩
  let (ending, session) := a.execute site args
  Main.writeSite site session.site
  IO.print session.out
  IO.eprint session.err
  return Main.status ending

import Retype.Keyed
import Retype.Order
import Retype.Path
import Retype.Text.Half
import Retype.Text.Quoted

/-!
# Files of a project

Files and folders under absolute paths, and the file operations of a run: each
either succeeds or names the cause for which an operating system would refuse
it. There are no links, so the way to a path is the path itself. A path may also
be one that no file can have: with a NUL in it, with a lone half, or too long. A
file holds a text, so its octets can always be read as one; and nothing is refused
for want of leave or of room.
-/

set_option autoImplicit false

namespace Retype

inductive Entry where
  | file (text : String)
  | folder
  deriving DecidableEq, Repr, Inhabited

inductive OsCause where
  | missing
  | present
  | notFolder
  | isFolder
  | tooLong
  /-- A NUL in a path. -/
  | nul
  /-- Lone halves in a path. -/
  | half (run : Half.Run)
  deriving DecidableEq, Repr, Inhabited

/-- A refused file operation: the path it was asked for, and where a rename would have led. -/
structure OsError where
  cause : OsCause
  path : String
  goal : Option String := none
  deriving DecidableEq, Repr, Inhabited

namespace OsCause

/-- The number of what the system itself refuses; none for what is no path at all. -/
def number? : OsCause → Option Nat
  | missing => some 2
  | present => some 17
  | notFolder => some 20
  | isFolder => some 21
  | tooLong => some 36
  | nul | half _ => none

def text : OsCause → String
  | missing => "No such file or directory"
  | present => "File exists"
  | notFolder => "Not a directory"
  | isFolder => "Is a directory"
  | tooLong => "File name too long"
  | nul => "embedded null byte"
  | half run => Quoted.refusal run

/-- The name of the kind of failure. -/
def kind : OsCause → String
  | missing => "FileNotFoundError"
  | present => "FileExistsError"
  | notFolder => "NotADirectoryError"
  | isFolder => "IsADirectoryError"
  | tooLong => "OSError"
  | nul => "ValueError"
  | half _ => "UnicodeEncodeError"

end OsCause

namespace OsError

def fromSystem (e : OsError) : Bool := e.cause.number?.isSome

def message (e : OsError) : String :=
  match e.cause.number? with
  | none => e.cause.text
  | some n =>
    let base := "[Errno " ++ toString n ++ "] " ++ e.cause.text ++ ": " ++ Quoted.literal e.path
    match e.goal with
    | none => base
    | some g => base ++ " -> " ++ Quoted.literal g

end OsError

namespace Path

/-- A path without empty and `.` segments; `..` stays. -/
def tidy (p : String) : String :=
  let cs := p.toList
  let body := joinSegments ((segmentsOf cs).filter fun s => !(s = [] || s = ['.']))
  let whole := leadOf cs ++ body
  if whole.isEmpty then "." else String.ofList whole

/-- The folder of a tidy path; the top is its own folder. -/
def parent (p : String) : String :=
  let dir := folder p
  if dir.isEmpty then "." else dir

/-- Why a path cannot be used, whatever stands under it. A whole path has to stay
below 4096 octets. -/
def flaw? (p : String) : Option OsCause :=
  match Half.nameless? p with
  | some run => some (.half run)
  | none =>
    if p.toList.contains '\x00' then some .nul
    else if 4096 ≤ p.utf8ByteSize then some .tooLong
    else none

def isLong (p : String) : Bool := 255 < (base p).utf8ByteSize

end Path

structure Workspace where
  entries : List (String × Entry)
  deriving Inhabited, Repr

namespace Workspace

def empty : Workspace := ⟨[]⟩

/-- What stands under a path, whatever stands above it. -/
def entry? (w : Workspace) (p : String) : Option Entry :=
  let p := Path.normal p
  if p == "/" then some .folder else Keyed.get? p w.entries

def above : List String → List String
  | [] => []
  | [_] => []
  | s :: rest => s :: (above rest).map (s ++ "/" ++ ·)

/-- The folders that an absolute path leads through, from the top: also those that
it leaves again by `..`. -/
def foldersAbove (p : String) : List String :=
  (above ((Path.segments (Path.tidy p)).drop 1)).map ("/" ++ ·)

def barred? (w : Workspace) (dir : String) : Option OsCause :=
  if Path.isLong dir then some .tooLong
  else match w.entry? dir with
    | some .folder => none
    | some (.file _) => some .notFolder
    | none => some .missing

def blocked? (w : Workspace) (p : String) : Option OsCause :=
  match Path.flaw? p with
  | some cause => some cause
  | none => match (foldersAbove p).findSome? w.barred? with
    | some cause => some cause
    | none => if Path.isLong (Path.tidy p) then some .tooLong else none

/-- What stands under a path. Nothing stands where no path leads, but a path
that is too long is refused. -/
def look (w : Workspace) (p : String) : Except OsError (Option Entry) :=
  match w.blocked? p with
  | some .tooLong => .error { cause := .tooLong, path := p }
  | some _ => .ok none
  | none => .ok (w.entry? p)

def hasFile (w : Workspace) (p : String) : Except OsError Bool :=
  (w.look p).map fun e => e matches some (.file _)

def hasFolder (w : Workspace) (p : String) : Except OsError Bool :=
  (w.look p).map fun e => e == some .folder

def holds (w : Workspace) (p : String) : Except OsError Bool := (w.look p).map Option.isSome

def isFile (w : Workspace) (p : String) : Bool :=
  (w.blocked? p).isNone && match w.entry? p with
    | some (.file _) => true
    | _ => false

def isFolder (w : Workspace) (p : String) : Bool :=
  (w.blocked? p).isNone && w.entry? p == some .folder

def isThere (w : Workspace) (p : String) : Bool := w.isFile p || w.isFolder p

def read (w : Workspace) (p : String) : Except OsError String :=
  match w.blocked? p with
  | some cause => .error { cause := cause, path := p }
  | none => match w.entry? p with
    | some (.file text) => .ok text
    | some .folder => .error { cause := .isFolder, path := p }
    | none => .error { cause := .missing, path := p }

def unifyLines : List Char → List Char
  | [] => []
  | '\r' :: '\n' :: rest => '\n' :: unifyLines rest
  | '\r' :: rest => '\n' :: unifyLines rest
  | c :: rest => c :: unifyLines rest

def readText (w : Workspace) (p : String) : Except OsError String :=
  (w.read p).map fun text => String.ofList (unifyLines text.toList)

def put (w : Workspace) (p : String) (e : Entry) : Workspace :=
  ⟨Keyed.put (Path.normal p) e w.entries⟩

def write (w : Workspace) (p text : String) : Except OsError Workspace :=
  match w.blocked? p with
  | some cause => .error { cause := cause, path := p }
  | none =>
    if w.entry? p == some .folder then .error { cause := .isFolder, path := p }
    else .ok (w.put p (.file text))

def unlessFailed (before : Workspace × Option OsError)
    (go : Workspace → Workspace × Option OsError) : Workspace × Option OsError :=
  match before with
  | (w, some e) => (w, some e)
  | (w, none) => go w

/-- What is there after an operation that changes nothing where it is refused. -/
def settled (w : Workspace) : Except OsError Workspace → Workspace × Option OsError
  | .ok w' => (w', none)
  | .error e => (w, some e)

/-- Makes folders one after the other where they are missing, up to one that cannot be made. -/
def makeEach (w : Workspace) : List String → Workspace × Option OsError
  | [] => (w, none)
  | dir :: rest =>
    if Path.isLong dir then (w, some { cause := .tooLong, path := dir })
    else match w.entry? dir with
      | some .folder => w.makeEach rest
      | some (.file _) => (w, some { cause := .present, path := dir })
      | none => (w.put dir .folder).makeEach rest

/-- Creates a folder and the folders above it, where they are missing. What was made
before a failure stays. -/
def makeFolder (w : Workspace) (p : String) : Workspace × Option OsError :=
  match w.blocked? p with
  | none | some .missing => w.makeEach (foldersAbove p ++ [p])
  | some cause => (w, some { cause := cause, path := p })

def erase (w : Workspace) (p : String) : Workspace :=
  ⟨w.entries.filter fun e => e.1 != Path.normal p⟩

/-- Moves a file over whatever file stands at the goal. -/
def replace (w : Workspace) (p goal : String) : Except OsError Workspace :=
  match w.read p with
  | .error e => .error { e with goal := some goal }
  | .ok text =>
    match w.blocked? goal with
    | some cause => .error { cause := cause, path := p, goal := some goal }
    | none =>
      if w.entry? goal == some .folder then
        .error { cause := .isFolder, path := p, goal := some goal }
      else .ok ((w.erase p).put goal (.file text))

def remove (w : Workspace) (p : String) : Except OsError Workspace :=
  match w.read p with
  | .ok _ => .ok (w.erase p)
  | .error e => if e.cause = .missing then .ok w else .error e

def pathBefore (p q : String) : Bool := Order.listBefore (Path.segments p) (Path.segments q)

def filesBelow (w : Workspace) (dir : String) : List String :=
  let lead := if Path.normal dir == "/" then "/" else Path.normal dir ++ "/"
  (w.entries.filterMap fun (p, e) => match e with
    | .file _ => if Affix.begins lead p then some p else none
    | .folder => none).mergeSort pathBefore

end Workspace

end Retype

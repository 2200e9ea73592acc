import Retype.Corpus.Ignore
import Retype.Project.Settings

/-!
# Discovery of sources

The files below the source folders that take part: those with a wanted
extension and a known language that neither an excluded folder, nor a marker in
their name, nor an ignore rule leaves out. Source folders are gone through in
order, the files of each in the order of their path segments, and no file comes
twice. Each setting is looked at in its turn, and only as far as it is needed.
-/

set_option autoImplicit false

namespace Retype

inductive DiscoveryError where
  | upset (t : Trouble)
  | pattern (m : Ignore.Malformed)
  deriving DecidableEq, Repr

instance : MonadLift (Except Trouble) (Except DiscoveryError) := ⟨Except.mapError .upset⟩

namespace Discovery

def ignoreFile : String := ".gitignore"

/-- The ignore rules at the root of a project. -/
def rules (c : Config) (w : Workspace) : Except DiscoveryError (List Ignore.Rule) :=
  let path := c.place ignoreFile
  if w.isThere path then
    match w.readText path with
    | .error e => .error (.upset (.os e))
    | .ok text => match Ignore.rulesOf text with
      | .error m => .error (.pattern m)
      | .ok rules => .ok rules
  else .ok []

/-- The name that a member of a set is, if it is a text. Neither a list nor a table can
be a member. -/
def element : Json → Except Fault (Option String)
  | .arr _ => .error (.noElement .list)
  | .obj _ => .error (.noElement .table)
  | .str name => .ok (some name)
  | _ => .ok none

def excludedFolders (c : Config) : Except Fault (List String) := do
  return (← (← (c.value "exclude_dirs").each).mapM element).filterMap id

def extensions (c : Config) : Except Fault (List String) := do
  (← (c.value "extensions").each).mapM fun ext => return (← ext.textWith "lower").toLower

/-- Whether one of some markers in a file's name leaves it out. Those after it are
not looked at. -/
def isMarkedBy (name : String) : List Json → Except Fault Bool
  | [] => return false
  | .str marker :: rest => if Affix.occurs marker name then return true else isMarkedBy name rest
  | v :: _ => .error (.noPart v.form)

def isMarked (name : String) (markers : Json) : Except Fault Bool := do
  isMarkedBy name (← markers.each)

structure Filter where
  rules : List Ignore.Rule
  folders : List String
  extensions : List String
  markers : Json

def Filter.ofConfig (c : Config) (w : Workspace) : Except DiscoveryError Filter := do
  let rules ← Discovery.rules c w
  let folders ← (excludedFolders c : Except Trouble _)
  let extensions ← (Discovery.extensions c : Except Trouble _)
  return ⟨rules, folders, extensions, c.value "exclude_markers"⟩

namespace Filter

variable (f : Filter)

def isExcluded (path : String) : Bool :=
  (Path.segments path).dropLast.any f.folders.contains

def hasExtension (path : String) : Bool :=
  f.extensions.contains (Path.extension (Path.base path)).toLower

/-- The language of a file that takes part; none for any other. Markers are
looked at for files with a wanted extension only. -/
def language? (path : String) : Except Fault (Option Language) := do
  if f.isExcluded path || Ignore.leavesOut f.rules path || !f.hasExtension path then return none
  if ← isMarked (Path.base path) f.markers then return none
  return Language.ofPath? path

end Filter

def fromRoot (c : Config) (path : String) : Except Fault String :=
  match Affix.after? (c.root ++ "/") path with
  | some p => .ok p
  | none => .error (.outside path c.root)

def filesIn (c : Config) (w : Workspace) (dir : Json) : Except Trouble (List String) := do
  let base := c.place (← dir.step)
  if ← w.hasFolder base then
    let tails := (w.filesBelow base).filterMap (Affix.after? (Path.normal base ++ "/"))
    tails.mapM fun tail => fromRoot c (base ++ "/" ++ tail)
  else return []

def sourcesIn (c : Config) (w : Workspace) (f : Filter) (dir : Json) :
    Except Trouble (List (String × Language)) := do
  let found ← (← filesIn c w dir).mapM fun p => return (← f.language? p).map fun l => (p, l)
  return found.filterMap id

end Discovery

def Discovery.sources (c : Config) (w : Workspace) (f : Filter) :
    Except Trouble (List (String × Language)) := do
  let found ← (← (c.value "source_dirs").each).mapM (sourcesIn c w f)
  return Order.distinct found.flatten

def Config.discover (c : Config) (w : Workspace) :
    Except DiscoveryError (List (String × Language)) := do
  Discovery.sources c w (← Discovery.Filter.ofConfig c w)

end Retype

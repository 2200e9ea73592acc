import Retype.Project.Config

/-!
# Settings in use

What the settings say for one use each. A value is looked at when its use is
reached and not before, so a value that cannot serve its use is a fault of this
use only.
-/

set_option autoImplicit false

namespace Retype

namespace Target

def slashed (path : String) : String := Affix.exchange '\\' '/' path

def below? (dir path : String) : Option String :=
  Affix.after? (String.ofList (Blank.dropEnd (· = '/') dir.toList) ++ "/") path

/-- The extension of a target: what holds markup becomes `.tsx`. -/
def extension (ext : String) (hasMarkup : Bool) : String :=
  if ext == ".jsx" || (ext == ".js" && hasMarkup) then ".tsx"
  else if ext == ".js" then ".ts"
  else ext

def ofTail (targetDir tail : String) (hasMarkup : Bool) : String :=
  let (stem, ext) := Path.splitExtension tail
  Path.join targetDir (stem ++ extension ext hasMarkup)

end Target

def AliasTable.ofMembers (base : List String) (members : List (String × Json)) :
    Except Fault AliasTable := do
  return ⟨← members.mapM fun (short, dir) => return (short, ← dir.textWith "strip"), base⟩

namespace Config

variable (c : Config)

def aliasTable : Except Fault AliasTable := do
  AliasTable.ofMembers ((Path.segments c.root).drop 1) (← (c.value "aliases").members?)

def placement : Placement :=
  match c.value "interface_mode" with
  | .str s => if s == "external" then .external else .inline
  | _ => .inline

def verify : Bool := (c.value "verify").truth

/-! ## Targets -/

def foldersByLength : Except Fault (List Json) := do
  let sized ← (← (c.value "source_dirs").each).mapM fun dir => return (← dir.size, dir)
  return (Order.byDescending (·.1) sized).map (·.2)

/-- The part of a path below the first of some folders that it lies in. Those after
it are not looked at. -/
def tailBelow (path : String) : List Json → Except Fault String
  | [] => return path
  | dir :: rest => do
    match Target.below? (← dir.textWith "rstrip") path with
    | some tail => return tail
    | none => tailBelow path rest

def target (path : String) (hasMarkup : Bool) : Except Fault String := do
  let path := Target.slashed path
  let tail ← tailBelow path (← c.foldersByLength)
  return Target.ofTail (← (c.value "target_dir").path) tail hasMarkup

def firstTarget? (w : Workspace) (path : String) : List Bool → Except Trouble (Option String)
  | [] => return none
  | hasMarkup :: rest => do
    let t ← c.target path hasMarkup
    if ← w.hasFile (c.place t) then return some t else firstTarget? w path rest

def existingTarget? (w : Workspace) (path : String) : Except Trouble (Option String) :=
  c.firstTarget? w path [true, false]

end Config

end Retype

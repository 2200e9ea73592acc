import Retype.Order
import Retype.Path
import Retype.Text.Affix

/-!
# Import aliases

A table of aliases stands for project folders: `@lib/` may stand for `lib`. An
internal specifier is expanded to the project path that it denotes for the file
that imports it, and normalised to the shortest specifier that denotes the same
path for the file that is written. Paths are project paths; `base` is the
directory that relative ways are measured from.
-/

set_option autoImplicit false

namespace Retype

structure AliasTable where
  entries : List (String × String)
  base : List String := []
  deriving Repr

namespace AliasTable

def standard : List (String × String) :=
  [("@types/", "src/types/"), ("@components/", "components/"),
   ("@src-components/", "src/components/"), ("@hooks/", "src/hooks/"),
   ("@lib/", "lib/"), ("@src-lib/", "src/lib/"), ("@app/", "src/app/"),
   ("@src-types/", "src/types/"), ("@public/", "public/"), ("@/", "src/")]

def folders (t : AliasTable) : List (String × String) :=
  t.entries.map fun (short, dir) =>
    (short, String.ofList (Blank.trimBy (· = '/') dir.toList))

/-- Longest alias first: the order in which aliases are tried. -/
def byAlias (t : AliasTable) : List (String × String) :=
  Order.byDescending (fun e => e.1.length) t.folders

/-- Deepest folder first: the order in which aliases are offered. -/
def byFolder (t : AliasTable) : List (String × String) :=
  Order.byDescending (fun e => e.2.length) t.folders

def aliases (t : AliasTable) : List String := t.byAlias.map (·.1)

def isRelative (spec : String) : Bool := spec.toList.head? = some '.'

def isRooted (spec : String) : Bool := spec.toList.head? = some '/'

def isInternal (t : AliasTable) (spec : String) : Bool :=
  isRelative spec || isRooted spec || t.byAlias.any fun e => Affix.begins e.1 spec

/-- The path an alias form stands for, before it is made normal. -/
def unalias (t : AliasTable) (spec : String) : Option String :=
  t.byAlias.findSome? fun (short, dir) => (Affix.after? short spec).map (Path.join dir)

/-- The project path, without extension probing, that a specifier denotes in the
file `importer`; none for packages and for ways out of the project. -/
def expand (t : AliasTable) (spec importer : String) : Option String :=
  let joined :=
    if isRelative spec then some (Path.join (Path.folder importer) spec)
    else if isRooted spec then some (String.ofList (spec.toList.dropWhile (· = '/')))
    else t.unalias spec
  (joined.map Path.normal).filter fun p => !Path.escapes p

def relative (t : AliasTable) (target writer : String) : String :=
  let dir := Path.folder writer
  let way := Path.relative t.base target (if dir.isEmpty then "." else dir)
  if Path.escapes way then way else "./" ++ way

def aliasForms (t : AliasTable) (target writer : String) : List String :=
  t.byFolder.filterMap fun (short, dir) =>
    let rest := if dir.isEmpty then some target else Affix.after? (dir ++ "/") target
    (rest.map (short ++ ·)).filter fun form => t.expand form writer == some target

/-- The specifier for the file `writer` of what `spec` denotes in the file
`importer`: the shortest alias form unless the relative form is shorter. -/
def normalize (t : AliasTable) (spec importer writer : String) : String :=
  match t.expand spec importer with
  | none => spec
  | some target =>
    let plain := t.relative target writer
    match Order.leastBy String.length (t.aliasForms target writer) with
    | some form => if form.length ≤ plain.length then form else plain
    | none => plain

end AliasTable

end Retype

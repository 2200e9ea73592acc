import Retype.Text.Blank
import Retype.Text.Quoted

/-!
# Checking written targets

A written target can be given to the type checker of its project, if the project
has a settings file for it. What the checker prints comes back as warnings, the
first lines one by one and the others as a count.
-/

set_option autoImplicit false

namespace Retype

inductive CheckerOutcome where
  | exited (status : Int) (out err : String)
  | timedOut (limit : String)
  | notFound
  deriving DecidableEq, Repr, Inhabited

namespace TypeCheck

def settingsFile : String := "tsconfig.json"

def command (target : String) : List String :=
  ["npx", "tsc", "--noEmit", "--jsx", "preserve", "--skipLibCheck", target]

def shownLines : Nat := 5

def warningLines (lines : List String) : List String :=
  (lines.take shownLines).map ("tsc: " ++ ·) ++
    if shownLines < lines.length then
      ["tsc: ... " ++ toString (lines.length - shownLines) ++ " more lines"]
    else []

def exitWarnings (status : Int) (out err : String) : List String :=
  if status = 0 then []
  else
    let lines := Blank.lines (Blank.trim (if out.isEmpty then err else out))
    if lines.isEmpty then ["tsc exited with status " ++ toString status] else warningLines lines

def warnings (target : String) : CheckerOutcome → List String
  | .exited status out err => exitWarnings status out err
  | .timedOut limit =>
    ["type check skipped: Command '" ++ Quoted.literalList (command target) ++
      "' timed out after " ++ limit ++ " seconds"]
  | .notFound => ["type check skipped: [Errno 2] No such file or directory: 'npx'"]

/-- A project without settings for the checker is not checked at all. -/
def ofTarget (hasSettings : Bool) (target : String) (outcome : CheckerOutcome) : List String :=
  if hasSettings then warnings target outcome else []

end TypeCheck

end Retype

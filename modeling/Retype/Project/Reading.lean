import Retype.Component.Analysis
import Retype.Project.Settings
import Retype.Retyping.Unit

/-!
# Units under the settings of a project

The profile of a unit, its target and what is written for it, as the settings
of its project and the files already there decide.
-/

set_option autoImplicit false

namespace Retype

/-- What a parser makes of a text in a language; none if it cannot run. -/
abbrev Parse := Language → String → Option Tree

namespace Config

variable (c : Config)

/-- Reads and parses a file of the project. Without a language given, its name decides. -/
def readUnit (w : Workspace) (parse : Parse) (path : String) (language : Option Language) :
    Except OsError SourceUnit :=
  (w.read (c.place path)).map fun text =>
    let language := language.getD (SourceUnit.languageFor path)
    ⟨path, language, Source.ofText text, parse language text⟩

/-- Whether a unit needs no migration: it is in the target language, or its target is there. -/
def isMigrated (w : Workspace) (u : SourceUnit) : Except Trouble Bool :=
  if u.language ≠ .javascript then return true
  else return (← c.existingTarget? w u.path).isSome

/-- The profile of a unit: first the aliases are looked at, then the scoring, and
last the target. -/
def profile (w : Workspace) (u : SourceUnit) : Except Trouble Profile := do
  let p := u.profile (← c.aliasTable)
  let score ← (p.score Scale.written c.scoring : Except Fault (Score Float))
  return { p with complexity := some score, migrated := ← c.isMigrated w u }

def targetOf (p : Profile) : Except Fault String := c.target p.path p.hasMarkup

def synthesis (p : Profile) : Synthesis := Synthesis.ofProfile p c.placement

def retype (u : SourceUnit) (p : Profile) (s : Synthesis) (target : String) :
    Except Fault (Except RetypeError Retyped) := do
  return u.retype (← c.aliasTable) p.kind s target

end Config

end Retype

import Retype.Decimal.Numeral
import Retype.Keyed
import Retype.Order
import Retype.Text.Affix

/-!
# Arguments of the command line

An argument is a word, an option or a separator. An option may be shortened as
long as it stays the only one with that beginning, and its value stands behind
an equals sign or is the next word. Letters that take no value may share a dash.
A word that looks like a negative number is a word, and after the separator
everything is.
-/

set_option autoImplicit false

namespace Retype

structure OptionForm where
  names : List String
  takesValue : Bool := false
  deriving DecidableEq, Repr, Inhabited

inductive Argument where
  | word (s : String)
  | option (name : String) (takesValue : Bool) (value : Option String)
  | separator
  deriving DecidableEq, Repr, Inhabited

namespace Argument

/-- Digits, or a point with digits after it and maybe before it, after a minus sign. -/
def looksNegative (s : String) : Bool :=
  match s.toList with
  | '-' :: rest =>
    let whole := rest.takeWhile Char.isDigit
    match rest.dropWhile Char.isDigit with
    | [] => !whole.isEmpty
    | '.' :: frac => !frac.isEmpty && frac.all Char.isDigit
    | _ => false
  | _ => false

def named? (options : List OptionForm) (name : String) : Option OptionForm :=
  options.find? fun o => o.names.contains name

def ofForm (o : OptionForm) (value : Option String) : Argument :=
  .option (o.names.head?.getD "") o.takesValue value

def cutValue (s : String) : String × Option String :=
  let cs := s.toList
  match cs.dropWhile (· ≠ '=') with
  | [] => (s, none)
  | _ :: value => (String.ofList (cs.takeWhile (· ≠ '=')), some (String.ofList value))

/-- The options that a shortened text may stand for, each spelling on its own. -/
def fits (options : List OptionForm) (s : String) : List Argument :=
  if Affix.begins "--" s then
    let (name, value) := cutValue s
    options.flatMap fun o => (o.names.filter (Affix.begins name)).map fun _ => ofForm o value
  else
    let short := String.ofList (s.toList.take 2)
    (options.filter fun o => o.names.contains short).map fun o =>
      ofForm o (some (String.ofList (s.toList.drop 2)))

/-- The option that an argument which begins with a dash is, or the word; none if
it is no option or could be several. -/
def ofDashed (options : List OptionForm) (s : String) : Option Argument :=
  match named? options s with
  | some o => some (ofForm o none)
  | none =>
    let (name, value) := cutValue s
    match (if value.isSome then named? options name else none) with
    | some o => some (ofForm o value)
    | none => match fits options s with
      | [a] => some a
      | _ :: _ :: _ => none
      | [] => if looksNegative s || s.toList.contains ' ' then some (.word s) else none

def ofText (options : List OptionForm) (s : String) : Option Argument :=
  if s = "-" || s.toList.head? ≠ some '-' then some (.word s) else ofDashed options s

def letter? (options : List OptionForm) (c : Char) : Option String :=
  ((named? options (String.ofList ['-', c])).filter fun o => !o.takesValue).bind (·.names.head?)

def bundle? (options : List OptionForm) (s : String) : Option (List String) :=
  match s.toList with
  | '-' :: a :: b :: rest => (a :: b :: rest).mapM (letter? options)
  | _ => none

/-- The arguments in turn; after a separator all are words. -/
def all (options : List OptionForm) : List String → Option (List Argument)
  | [] => some []
  | s :: rest =>
    if s = "--" then some (.separator :: rest.map .word)
    else match bundle? options s with
      | some names => do return names.map (.option · false none) ++ (← all options rest)
      | none => do return (← ofText options s) :: (← all options rest)

end Argument

/-- What arguments say: the values of options, those without a value empty, and the words. -/
structure Said where
  options : List (String × String) := []
  words : List String := []
  /-- Whether an option has come after a word, so that no more words are expected. -/
  isSettled : Bool := false
  /-- Whether there was a separator. -/
  isSeparated : Bool := false
  deriving DecidableEq, Repr, Inhabited

namespace Said

def give (said : Said) (name value : String) : Said :=
  { said with options := Keyed.put name value said.options, isSettled := !said.words.isEmpty }

def flag (said : Said) (name : String) : Said := said.give name ""

/-- Goes through arguments; none if an option has a value too many or too few, or
if a separator stands where no more words are expected. -/
def ofArguments (said : Said) : List Argument → Option Said
  | [] => some said
  | .word s :: rest => ofArguments { said with words := said.words ++ [s] } rest
  | .separator :: rest =>
    if said.isSettled then none else ofArguments { said with isSeparated := true } rest
  | .option name true (some value) :: rest => ofArguments (said.give name value) rest
  | .option name true none :: .word value :: rest => ofArguments (said.give name value) rest
  | .option _ true none :: _ => none
  | .option name false none :: rest => ofArguments (said.flag name) rest
  | .option _ false (some _) :: _ => none

def value? (said : Said) (name : String) : Option String := Keyed.get? name said.options

def has (said : Said) (name : String) : Bool := (said.value? name).isSome

def integer? (said : Said) (name : String) : Option (Option Int) :=
  match said.value? name with
  | none => some none
  | some s => (Numeral.int? s).map some

end Said

end Retype

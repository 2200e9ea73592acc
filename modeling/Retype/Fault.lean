import Retype.Json.Reader
import Retype.Text.Quoted

/-!
# Faults

Values that come from files may be of any form, and they are looked at only
where they are used. A use that a value cannot serve is a fault: a key that is
missing, something asked of a form that does not have it, a numeral that cannot
be read, a number without limits, a text that goes too deep. Every fault has a
kind and a message; both stand in checkpoints and reports.
-/

set_option autoImplicit false

namespace Retype

/-- The forms of values. -/
inductive Form where
  | null
  | bool
  | int
  | float
  | text
  | list
  | table
  deriving DecidableEq, Repr, Inhabited

def Form.name : Form → String
  | null => "NoneType"
  | bool => "bool"
  | int => "int"
  | float => "float"
  | text => "str"
  | list => "list"
  | table => "dict"

def Json.form : Json → Form
  | null => .null
  | bool _ => .bool
  | int _ => .int
  | float _ => .float
  | str _ => .text
  | arr _ => .list
  | obj _ => .table

inductive Sign where
  | less
  | atMost
  | greater
  | atLeast
  deriving DecidableEq, Repr, Inhabited

def Sign.text : Sign → String
  | less => "<"
  | atMost => "<="
  | greater => ">"
  | atLeast => ">="

inductive Fault where
  /-- A table without the key. -/
  | missingKey (key : String)
  /-- A form without the member. -/
  | noMember (form : Form) (name : String)
  /-- A form that is asked for a key and has none. -/
  | noKeys (form : Form)
  /-- A form that cannot be gone through. -/
  | noItems (form : Form)
  | noLength (form : Form)
  | noOrder (sign : Sign) (left right : Form)
  | noSum (left right : Form)
  | noProduct (left right : Form)
  /-- A form that no integer can be made of. -/
  | noInteger (form : Form)
  /-- A form that no number can be made of. -/
  | noNumber (form : Form)
  /-- A form that cannot count. -/
  | noCount (form : Form)
  /-- A form that cannot be a member of a set. -/
  | noElement (form : Form)
  /-- A form that cannot be part of a text. -/
  | noPart (form : Form)
  /-- A form that is no path. -/
  | noPath (form : Form)
  /-- A form that cannot lead on from a path. -/
  | noStep (form : Form)
  /-- A form that cannot stand in a column. -/
  | noColumn (form : Form)
  /-- A list that should have another length. -/
  | wrongCount (wanted got : Nat)
  | badInteger (text : String)
  | badNumber (text : String)
  /-- A path that does not lie below a folder. -/
  | outside (path folder : String)
  | notANumber
  /-- An infinite number where an integer is wanted. -/
  | endless
  /-- An integer beyond all floating-point numbers. -/
  | tooLarge
  /-- A text that is no JSON value. -/
  | badText (flaw : Json.Flaw) (spot : Json.Spot)
  | longNumeral (digits : Nat)
  | tooDeep
  deriving DecidableEq, Repr, Inhabited

namespace Fault

/-- The kinds of faults. -/
inductive Kind where
  | key
  | member
  | type
  | value
  | range
  | depth
  deriving DecidableEq, Repr, Inhabited

def Kind.name : Kind → String
  | key => "KeyError"
  | member => "AttributeError"
  | type => "TypeError"
  | value => "ValueError"
  | range => "OverflowError"
  | depth => "RecursionError"

def kind : Fault → Kind
  | missingKey _ => .key
  | noMember _ _ => .member
  | noKeys _ | noItems _ | noLength _ | noOrder _ _ _ | noSum _ _ | noProduct _ _ | noInteger _
  | noNumber _ | noCount _ | noElement _ | noPart _ | noPath _ | noStep _ | noColumn _ => .type
  | wrongCount _ _ | badInteger _ | badNumber _ | outside _ _ | notANumber | badText _ _ | longNumeral _ => .value
  | endless | tooLarge => .range
  | tooDeep => .depth

def message : Fault → String
  | missingKey key => Quoted.literal key
  | noMember form name => "'" ++ form.name ++ "' object has no attribute '" ++ name ++ "'"
  | noKeys .text => "string indices must be integers, not 'str'"
  | noKeys .list => "list indices must be integers or slices, not str"
  | noKeys form => "'" ++ form.name ++ "' object is not subscriptable"
  | noItems form => "'" ++ form.name ++ "' object is not iterable"
  | noLength form => "object of type '" ++ form.name ++ "' has no len()"
  | noOrder sign left right =>
    "'" ++ sign.text ++ "' not supported between instances of '" ++ left.name ++ "' and '" ++
      right.name ++ "'"
  | noSum left right =>
    "unsupported operand type(s) for +: '" ++ left.name ++ "' and '" ++ right.name ++ "'"
  | noProduct left right =>
    "unsupported operand type(s) for *: '" ++ left.name ++ "' and '" ++ right.name ++ "'"
  | noInteger form =>
    "int() argument must be a string, a bytes-like object or a real number, not '" ++ form.name ++ "'"
  | noNumber form =>
    "float() argument must be a string or a real number, not '" ++ form.name ++ "'"
  | noCount form => "'" ++ form.name ++ "' object cannot be interpreted as an integer"
  | noElement form => "unhashable type: '" ++ form.name ++ "'"
  | noPart form => "'in <string>' requires string as left operand, not " ++ form.name
  | noPath form => "expected str, bytes or os.PathLike object, not " ++ form.name
  | noStep form => "unsupported operand type(s) for /: 'PosixPath' and '" ++ form.name ++ "'"
  | noColumn form => "unsupported format string passed to " ++ form.name ++ ".__format__"
  | wrongCount wanted got =>
    if got < wanted then
      "not enough values to unpack (expected " ++ toString wanted ++ ", got " ++ toString got ++ ")"
    else "too many values to unpack (expected " ++ toString wanted ++ ")"
  | badInteger text =>
    "invalid literal for int() with base 10: " ++ String.ofList ((Quoted.literal text).toList.take 200)
  | badNumber text => "could not convert string to float: " ++ Quoted.literal text
  | outside path folder =>
    Quoted.literal path ++ " is not in the subpath of " ++ Quoted.literal folder ++
      " OR one path is relative and the other is absolute."
  | notANumber => "cannot convert float NaN to integer"
  | endless => "cannot convert float infinity to integer"
  | tooLarge => "int too large to convert to float"
  | badText flaw spot => flaw.text ++ ": " ++ spot.text
  | longNumeral digits =>
    "Exceeds the limit (" ++ toString Numeral.digitLimit ++
      " digits) for integer string conversion: value has " ++ toString digits ++
      " digits; use sys.set_int_max_str_digits() to increase the limit"
  | tooDeep => "maximum recursion depth exceeded while decoding a JSON array from a unicode string"

end Fault

/-- The fault of a text that holds no value, as long as nobody refuses it. -/
def Json.ReadError.fault : Json.ReadError → Fault
  | malformed flaw spot => .badText flaw spot
  | longNumeral digits => .longNumeral digits
  | tooDeep => .tooDeep

end Retype

import Retype.Decimal.Shortest
import Retype.Json.Value

/-!
# Text columns

The text under which a text column holds a value that is no text. Lists and
tables are written out, and so are the values in them: nothing as `NULL`, numbers
of one list in one form, texts bare where they cannot be taken for anything else.
-/

set_option autoImplicit false

namespace Retype.Column

def isDoubtful (s : String) : Bool :=
  let cs := s.toList
  cs.isEmpty || cs.head? = some ' ' || cs.getLast? = some ' ' ||
    cs.map Char.toLower = "null".toList || cs.any ("\\'\",:=()[]\x7b\x7d".toList.contains ·)

def quoted (s : String) : String :=
  "'" ++ String.join (s.toList.map fun c =>
    if c = '\\' || c = '\'' then "\\" ++ c.toString else c.toString) ++ "'"

def isText : Json → Bool
  | .str _ => true
  | _ => false

def isFloat : Json → Bool
  | .float _ => true
  | _ => false

def isInt : Json → Bool
  | .int _ => true
  | _ => false

def asInt : Json → Json
  | .bool b => .int (if b then 1 else 0)
  | v => v

def asFloat : Json → Json
  | .bool b => .float (if b then 1.0 else 0.0)
  | .int n => .float (Decimal.toFloat (n < 0) n.natAbs 0)
  | v => v

/-- The items of a list in one form: beside texts each keeps its own. -/
def alike (items : List Json) : List Json :=
  if items.any isText then items
  else if items.any isFloat then items.map asFloat
  else if items.any isInt then items.map asInt
  else items

mutual

/-- The text of a value on its own; its bare texts are told by `bare`. -/
def text (bare : String → String) : Json → String
  | .null => "NULL"
  | .bool b => if b then "true" else "false"
  | .int n => toString n
  | .float x => Decimal.text .plain x
  | .str s => bare s
  | .arr items => "[" ++ String.intercalate ", " (itemTexts items) ++ "]"
  | .obj members => "\x7b" ++ String.intercalate ", " (memberTexts members) ++ "\x7d"

def itemTexts : List Json → List String
  | [] => []
  | v :: rest => text (fun s => if isDoubtful s then quoted s else s) v :: itemTexts rest

def memberTexts : List (String × Json) → List String
  | [] => []
  | (key, v) :: rest =>
    (quoted key ++ ": " ++ text (fun s => if isDoubtful s then quoted s else s) v) ::
      memberTexts rest

end

def cell : Json → Json
  | .null => .null
  | .str s => .str s
  | .arr items => .str (text id (.arr (alike items)))
  | v => .str (text id v)

def filledCell? (v : Json) : Option Json :=
  match v with
  | .null => none
  | _ => some (cell v)

end Retype.Column

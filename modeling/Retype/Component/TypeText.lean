import Retype.Component.Profile
import Retype.Json.Printer

/-!
# Type texts

The type that is written for a prop or a state slot. A type declared in the
source counts first, then the runtime type, then the shape of the default
value; where none of them says anything the type is `unknown`.
-/

set_option autoImplicit false

namespace Retype

namespace TypeText

def unknown : String := "unknown"

def function : String := "(...args: unknown[]) => unknown"

def indexSignature : String := "[key: string]: unknown;"

/-- A union or a function type takes parentheses before it can be part of another type. -/
def group (type : String) : String :=
  if Affix.occurs "|" type || Affix.occurs "=>" type then "(" ++ type ++ ")" else type

/-- A rule that holds of a text, or of the text without one line feed at its end. -/
def holdsToEnd (p : List Char → Bool) (s : String) : Bool :=
  let cs := s.toList
  p cs || (cs.getLast? = some '\n' && p cs.dropLast)

def isIdentifierStart (c : Char) : Bool := Alphabet.isAsciiLetter c || c = '_' || c = '$'

def isIdentifierPart (c : Char) : Bool := Alphabet.isWord c || c = '$'

def isPlainName : String → Bool := holdsToEnd fun
  | [] => false
  | c :: rest => isIdentifierStart c && rest.all isIdentifierPart

def propertyName (name : String) : String := if isPlainName name then name else Json.quote name

def isQuoted (q : Char) (cs : List Char) : Bool :=
  match cs with
  | c :: rest =>
    c = q && rest.getLast? = some q && rest.dropLast.all fun d => d ≠ q && d ≠ '\\'
  | [] => false

def isNumeral (cs : List Char) : Bool :=
  let cs := if cs.head? = some '-' then cs.drop 1 else cs
  let whole := cs.takeWhile Alphabet.isDigit
  !whole.isEmpty && match cs.dropWhile Alphabet.isDigit with
    | [] => true
    | '.' :: frac => !frac.isEmpty && frac.all Alphabet.isDigit
    | _ => false

def isLiteralType : String → Bool := holdsToEnd fun cs =>
  isQuoted '\'' cs || isQuoted '"' cs || isNumeral cs ||
    ["true", "false", "null"].any fun w => w.toList = cs

def union (members : List String) : String := String.intercalate " | " (Order.distinct members)

end TypeText

namespace LegacyType

open TypeText

def namedText? (kind : String) : Option String :=
  Keyed.get? kind
    [("string", "string"), ("number", "number"), ("bool", "boolean"), ("symbol", "symbol"),
     ("func", function), ("array", "unknown[]"), ("object", "Record<string, unknown>"),
     ("node", "React.ReactNode"), ("element", "React.ReactElement"),
     ("elementType", "React.ElementType"), ("any", "any")]

mutual

/-- The type text of a runtime type, if it says anything. -/
def typeText? : LegacyType → Option String
  | named _ kind => namedText? kind
  | arrayOf _ item => some (group (itemText item) ++ "[]")
  | objectOf _ value => some ("Record<string, " ++ itemText value ++ ">")
  | oneOf _ literals =>
    if !literals.isEmpty && literals.all isLiteralType then some (union literals) else none
  | oneOfType _ members => if members.isEmpty then none else some (union (memberTexts members))
  | record _ _ fields =>
    if fields.isEmpty then some "Record<string, unknown>"
    else some ("\x7b " ++ String.intercalate "; " (fieldTexts fields) ++ " \x7d")
  | instanceOf _ target => nonEmpty target

def itemText : Option LegacyType → String
  | none => unknown
  | some t => (typeText? t).getD unknown

def memberTexts : List LegacyType → List String
  | [] => []
  | t :: rest => (typeText? t).getD unknown :: memberTexts rest

def fieldTexts : List (String × LegacyType) → List String
  | [] => []
  | (name, t) :: rest =>
    (propertyName name ++ (if t.required then "" else "?") ++ ": " ++ (typeText? t).getD unknown) ::
      fieldTexts rest

end

end LegacyType

namespace LiteralShape

def typeText : LiteralShape → String
  | string => "string"
  | number => "number"
  | boolean => "boolean"
  | null => "null"
  | undefined => "undefined"
  | array => "unknown[]"
  | object => "Record<string, unknown>"
  | function => TypeText.function

end LiteralShape

/-- The first of the declared type, the runtime type and the default's shape that says something. -/
def TypeText.infer (declared : Option String) (legacy : Option LegacyType)
    (shape : Option LiteralShape) : String :=
  ((declared.bind nonEmpty) <|> (legacy.bind LegacyType.typeText?) <|>
    shape.map LiteralShape.typeText).getD TypeText.unknown

namespace Property

/-- A rest entry and the whole props object have no type of their own. -/
def inferType (p : Property) : String :=
  if p.isWhole || p.isRest then TypeText.unknown
  else TypeText.infer p.declared p.legacy p.defaultShape

def typeText (p : Property) : String := (p.inferred.bind nonEmpty).getD p.inferType

def withType (p : Property) : Property :=
  if p.isWhole || p.isRest then p else { p with inferred := some p.inferType }

end Property

namespace StateSlot

def inferType (s : StateSlot) : String := TypeText.infer none none s.defaultShape

/-- The type argument of a state call: an initial value that is nothing says nothing. -/
def argument (s : StateSlot) : String :=
  let type := (s.inferred.bind nonEmpty).getD s.inferType
  if type == "null" || type == "undefined" then TypeText.unknown else type

def withType (s : StateSlot) : StateSlot := { s with inferred := some s.inferType }

end StateSlot

end Retype

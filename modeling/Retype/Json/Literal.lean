import Retype.Decimal.Shortest
import Retype.Json.Value
import Retype.Text.Quoted

/-!
# Values as literals

The form in which messages show a value that should have been something else.
-/

set_option autoImplicit false

namespace Retype.Json

mutual

def literal : Json → String
  | null => "None"
  | bool b => if b then "True" else "False"
  | int n => toString n
  | float x => Decimal.text Layout.plain x
  | str s => Quoted.literal s
  | arr items => "[" ++ String.intercalate ", " (literals items) ++ "]"
  | obj members => "\x7b" ++ String.intercalate ", " (memberLiterals members) ++ "\x7d"

def literals : List Json → List String
  | [] => []
  | v :: rest => literal v :: literals rest

def memberLiterals : List (String × Json) → List String
  | [] => []
  | (key, v) :: rest => (Quoted.literal key ++ ": " ++ literal v) :: memberLiterals rest

end

/-- A value inside a longer text: texts stand for themselves. -/
def shown : Json → String
  | str s => s
  | v => literal v

end Retype.Json

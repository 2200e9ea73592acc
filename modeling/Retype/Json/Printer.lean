import Retype.Decimal.Shortest
import Retype.Json.Value
import Retype.Text.Half

/-!
# Printing JSON

Two forms: one line with a blank after each comma and colon, and indented by
two blanks a level. Everything outside ASCII is escaped, as one or two UTF-16
units of four hexadecimal digits; a lone half is the one unit that it is.
-/

set_option autoImplicit false

namespace Retype.Json

def hexDigits (n : Nat) : String :=
  let ds := Nat.toDigits 16 n
  String.ofList (List.replicate (4 - ds.length) '0' ++ ds)

def unitEscape (u : Nat) : String := "\\u" ++ hexDigits u

def escape (c : Char) : String :=
  if c = '"' then "\\\""
  else if c = '\\' then "\\\\"
  else if c = '\n' then "\\n"
  else if c = '\r' then "\\r"
  else if c = '\t' then "\\t"
  else if c = '\x08' then "\\b"
  else if c = '\x0C' then "\\f"
  else if 0x20 ≤ c.toNat ∧ c.toNat < 0x7F then c.toString
  else if c.toNat < 0x10000 then unitEscape c.toNat
  else if let some u := Half.unit? c then unitEscape u
  else
    let n := c.toNat - 0x10000
    unitEscape (0xD800 + n / 0x400) ++ unitEscape (0xDC00 + n % 0x400)

def quote (s : String) : String := "\"" ++ String.join (s.toList.map escape) ++ "\""

def number (x : Float) : String := Decimal.text Layout.json x

mutual

def compact : Json → String
  | null => "null"
  | bool b => if b then "true" else "false"
  | int n => toString n
  | float x => number x
  | str s => quote s
  | arr items => "[" ++ String.intercalate ", " (compactItems items) ++ "]"
  | obj members => "\x7b" ++ String.intercalate ", " (compactMembers members) ++ "\x7d"

def compactItems : List Json → List String
  | [] => []
  | v :: rest => compact v :: compactItems rest

def compactMembers : List (String × Json) → List String
  | [] => []
  | (key, v) :: rest => (quote key ++ ": " ++ compact v) :: compactMembers rest

end

def indent (level : Nat) : String := "\n" ++ String.ofList (List.replicate (2 * level) ' ')

def block (level : Nat) (opening closing : String) (parts : List String) : String :=
  if parts.isEmpty then opening ++ closing
  else opening ++ indent (level + 1) ++ String.intercalate ("," ++ indent (level + 1)) parts ++
    indent level ++ closing

mutual

def prettyAt (level : Nat) : Json → String
  | arr items => block level "[" "]" (prettyItems (level + 1) items)
  | obj members => block level "\x7b" "\x7d" (prettyMembers (level + 1) members)
  | v => compact v

def prettyItems (level : Nat) : List Json → List String
  | [] => []
  | v :: rest => prettyAt level v :: prettyItems level rest

def prettyMembers (level : Nat) : List (String × Json) → List String
  | [] => []
  | (key, v) :: rest => (quote key ++ ": " ++ prettyAt level v) :: prettyMembers level rest

end

def pretty (v : Json) : String := prettyAt 0 v

end Retype.Json

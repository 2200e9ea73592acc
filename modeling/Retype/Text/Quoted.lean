import Retype.Text.Half
import Retype.Text.Printable

/-!
# Quoted literals

A text between quotes as messages show it: single quotes, unless the text holds
a single quote and no double quote. The quote in use and the backslash are
escaped, and so is whatever is not printable, as two, four or eight hexadecimal
digits, a lone half as four.
-/

set_option autoImplicit false

namespace Retype.Quoted

def quoteFor (cs : List Char) : Char :=
  if cs.contains '\'' && !cs.contains '"' then '"' else '\''

def hex (width n : Nat) : String :=
  let ds := Nat.toDigits 16 n
  String.ofList (List.replicate (width - ds.length) '0' ++ ds)

def escape (quote c : Char) : String :=
  if c = quote || c = '\\' then "\\" ++ c.toString
  else if c = '\n' then "\\n"
  else if c = '\r' then "\\r"
  else if c = '\t' then "\\t"
  else if let some u := Half.unit? c then "\\u" ++ hex 4 u
  else if Printable.isPrintable c then c.toString
  else if c.toNat < 0x100 then "\\x" ++ hex 2 c.toNat
  else if c.toNat < 0x10000 then "\\u" ++ hex 4 c.toNat
  else "\\U" ++ hex 8 c.toNat

def literal (s : String) : String :=
  let quote := quoteFor s.toList
  quote.toString ++ String.join (s.toList.map (escape quote)) ++ quote.toString

def refusal (run : Half.Run) : String :=
  (if run.count ≤ 1 then
    "'utf-8' codec can't encode character '\\u" ++ hex 4 run.unit ++ "' in position " ++ toString run.place
  else "'utf-8' codec can't encode characters in position " ++ toString run.place ++ "-" ++
    toString (run.place + run.count - 1)) ++ ": surrogates not allowed"

def literalList (xs : List String) : String :=
  "[" ++ String.intercalate ", " (xs.map literal) ++ "]"

end Retype.Quoted

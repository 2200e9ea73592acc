import Retype.Decimal.Binary
import Retype.Text.Alphabet
import Retype.Text.Blank

/-!
# Numerals in texts

Numbers written by hand: blanks around them, a sign, digits of any script, and
single low lines between digits. An integer with too many digits is not read,
however many of them are zeros in front.
-/

set_option autoImplicit false

namespace Retype.Numeral

def digitLimit : Nat := 4300

/-- What may stand around a numeral: every blank but the separators of files,
groups, records and units. -/
def isSpace (c : Char) : Bool := Blank.isBlank c && !(0x1C ≤ c.toNat && c.toNat ≤ 0x1F)

/-- Drops single low lines between digits; a low line elsewhere is no part of a numeral. -/
def joinDigits : List Char → Option (List Char)
  | [] => some []
  | [c] => if c = '_' then none else some [c]
  | c :: d :: rest =>
    if c = '_' then none
    else if d = '_' then
      if Alphabet.isDigit c && rest.head?.any Alphabet.isDigit then
        (joinDigits rest).map (c :: ·)
      else none
    else (joinDigits (d :: rest)).map (c :: ·)

def signOf : List Char → Bool × List Char
  | '-' :: rest => (true, rest)
  | '+' :: rest => (false, rest)
  | cs => (false, cs)

def digitsValue (ds : List Char) : Nat :=
  ds.foldl (fun n d => 10 * n + (Alphabet.digit? d).getD 0) 0

def leadingDigits (s : String) : Nat :=
  let body := (signOf (Blank.trimBy isSpace s.toList)).2
  ((body.takeWhile fun c => c = '_' || Alphabet.isDigit c).filter (· ≠ '_')).length

/-- An integer numeral. -/
def int? (s : String) : Option Int :=
  let (negative, body) := signOf (Blank.trimBy isSpace s.toList)
  match joinDigits body with
  | none => none
  | some ds =>
    if ds.isEmpty || !ds.all Alphabet.isDigit || digitLimit < ds.length then none
    else some (Binary.signed negative (digitsValue ds))

/-- The exponent of a numeral: nothing, or the mark and an integer. -/
def power? (cs : List Char) : Option Int :=
  match cs with
  | [] => some 0
  | e :: rest =>
    if e = 'e' || e = 'E' then
      let (negative, ds) := signOf rest
      if ds.isEmpty || !ds.all Alphabet.isDigit then none
      else some (Binary.signed negative (digitsValue ds))
    else none

def word? (cs : List Char) : Option Float :=
  let w := String.ofList (cs.map Char.toLower)
  if w = "inf" || w = "infinity" then some (1.0 / 0.0)
  else if w = "nan" then some (0.0 / 0.0)
  else none

/-- A numeral with fraction and exponent, or a word for what is not finite. -/
def float? (s : String) : Option Float :=
  let (negative, body) := signOf (Blank.trimBy isSpace s.toList)
  match word? body, joinDigits body with
  | some x, _ => some (if negative then -x else x)
  | none, none => none
  | none, some cs =>
    let whole := cs.takeWhile Alphabet.isDigit
    let rest := cs.dropWhile Alphabet.isDigit
    let (frac, rest) := match rest with
      | '.' :: r => (r.takeWhile Alphabet.isDigit, r.dropWhile Alphabet.isDigit)
      | r => ([], r)
    if whole.isEmpty && frac.isEmpty then none
    else (power? rest).map fun p =>
      Decimal.toFloat negative (digitsValue (whole ++ frac)) (p - frac.length)

end Retype.Numeral

import Retype.Decimal.Numeral
import Retype.Json.Flaw
import Retype.Json.Value
import Retype.Text.Half

/-!
# Reading JSON

A reader for JSON texts. Beyond the standard it takes the words `NaN`,
`Infinity` and `-Infinity`; control characters inside strings, a byte order
mark and anything after the value are refused. Of two members with one key the
last value counts, at the place of the first. What is well formed can still be
too much: reading stops at an integer with too many digits and at a bracket that
is too deep inside others. The first thing wrong in the text is what is named.
-/

set_option autoImplicit false

namespace Retype.Json

inductive ReadError where
  | malformed (flaw : Flaw) (spot : Spot)
  | longNumeral (digits : Nat)
  | tooDeep
  deriving DecidableEq, Repr, Inhabited

/-- Why reading stops, with the part of the text that a flaw shows at. -/
inductive Stop where
  | malformed (flaw : Flaw) (rest : List Char)
  | longNumeral (digits : Nat)
  | tooDeep
  deriving DecidableEq, Repr, Inhabited

def Stop.error (whole : List Char) : Stop → ReadError
  | malformed flaw rest => .malformed flaw (Spot.ofRest whole rest)
  | longNumeral digits => .longNumeral digits
  | tooDeep => .tooDeep

/-- The digits that an integer may have, and the brackets that may stand inside one another. -/
structure Limits where
  digits : Option Nat := none
  depth : Option Nat := none
  deriving DecidableEq, Repr, Inhabited

namespace Limits

def unlimited : Limits := {}

/-- What is read from files by default. How deep a text may go depends on the interpreter
and on where in the run it is read. -/
def standard : Limits := ⟨some Numeral.digitLimit, some 988⟩

def admitsDigits (l : Limits) (n : Nat) : Bool := l.digits.all fun most => n ≤ most

def admitsDepth (l : Limits) (n : Nat) : Bool := l.depth.all fun most => n ≤ most

end Limits

abbrev Reading (α : Type) := Except Stop (α × List Char)

def isSpace (c : Char) : Bool := c = ' ' || c = '\t' || c = '\n' || c = '\r'

def skip (cs : List Char) : List Char := cs.dropWhile isSpace

def isDigit (c : Char) : Bool := '0' ≤ c && c ≤ '9'

def digitsValue (ds : List Char) : Nat :=
  ds.foldl (fun n d => 10 * n + (d.toNat - '0'.toNat)) 0

def hexValue (c : Char) : Option Nat :=
  if '0' ≤ c ∧ c ≤ '9' then some (c.toNat - '0'.toNat)
  else if 'a' ≤ c ∧ c ≤ 'f' then some (c.toNat - 'a'.toNat + 10)
  else if 'A' ≤ c ∧ c ≤ 'F' then some (c.toNat - 'A'.toNat + 10)
  else none

/-- The code unit after a `u`: four hexadecimal digits, which something has to follow. -/
def codeUnit (cs : List Char) : Reading Nat :=
  match cs with
  | _ :: a :: b :: c :: d :: e :: rest =>
    match [a, b, c, d].mapM hexValue with
    | some ds => .ok (ds.foldl (fun n d => 16 * n + d) 0, e :: rest)
    | none => .error (.malformed .badUnit cs)
  | _ => .error (.malformed .badUnit cs)

/-- The character of the code units from a `u` on: two that are halves of one
character make that character. -/
def coded (cs : List Char) : Reading Char :=
  match codeUnit cs with
  | .error e => .error e
  | .ok (high, rest) =>
    match Half.isHigh high, rest with
    | true, '\\' :: 'u' :: more =>
      match codeUnit ('u' :: more) with
      | .error e => .error e
      | .ok (low, more) =>
        if Half.isLow low then .ok (Half.join high low, more) else .ok (Half.ofUnit high, rest)
    | _, _ => .ok (Half.ofUnit high, rest)

/-- What a letter after a backslash stands for. -/
def escaped (c : Char) : Option Char :=
  match c with
  | '"' => some '"'
  | '\\' => some '\\'
  | '/' => some '/'
  | 'b' => some '\x08'
  | 'f' => some '\x0C'
  | 'n' => some '\n'
  | 'r' => some '\r'
  | 't' => some '\t'
  | _ => none

/-- The rest of a string whose opening quote stands at `start`. -/
def stringBody (start : List Char) (fuel : Nat) (done cs : List Char) : Reading String :=
  match fuel, cs with
  | 0, _ => .error (.malformed .openString start)
  | _, [] => .error (.malformed .openString start)
  | fuel + 1, c :: rest =>
    if c = '"' then .ok (String.ofList done.reverse, rest)
    else if c.toNat < 0x20 then .error (.malformed .controlCharacter cs)
    else if c = '\\' then
      match rest with
      | [] => .error (.malformed .openString start)
      | 'u' :: _ =>
        match coded rest with
        | .error e => .error e
        | .ok (e, rest) => stringBody start fuel (e :: done) rest
      | e :: rest =>
        match escaped e with
        | some e => stringBody start fuel (e :: done) rest
        | none => .error (.malformed .badEscape cs)
    else stringBody start fuel (c :: done) rest

def fraction (cs : List Char) : List Char × List Char :=
  match cs with
  | '.' :: rest =>
    let ds := rest.takeWhile isDigit
    if ds.isEmpty then ([], cs) else (ds, rest.dropWhile isDigit)
  | _ => ([], cs)

/-- The exponent, if the text goes on with one. -/
def exponent (cs : List Char) : Option (Bool × List Char) × List Char :=
  match cs with
  | e :: rest =>
    if e = 'e' || e = 'E' then
      let (negative, body) := match rest with
        | '-' :: r => (true, r)
        | '+' :: r => (false, r)
        | r => (false, r)
      let ds := body.takeWhile isDigit
      if ds.isEmpty then (none, cs) else (some (negative, ds), body.dropWhile isDigit)
    else (none, cs)
  | [] => (none, cs)

/-- The number that starts at `start` and has the magnitude at `cs`. -/
def magnitude (l : Limits) (start : List Char) (negative : Bool) (cs : List Char) : Reading Json :=
  let whole := if cs.head? = some '0' then ['0'] else cs.takeWhile isDigit
  if whole.isEmpty then .error (.malformed .noValue start)
  else
    let (frac, rest) := fraction (cs.drop whole.length)
    let (exp, rest) := exponent rest
    match frac, exp with
    | [], none =>
      if l.admitsDigits whole.length then
        .ok (int (Binary.signed negative (digitsValue whole)), rest)
      else .error (.longNumeral whole.length)
    | frac, exp =>
      let power : Int := match exp with
        | none => 0
        | some (true, ds) => -(digitsValue ds : Int)
        | some (false, ds) => digitsValue ds
      .ok (float (Decimal.toFloat negative (digitsValue (whole ++ frac)) (power - frac.length)), rest)

def infinite (negative : Bool) : Json := float (if negative then -(1.0 / 0.0) else 1.0 / 0.0)

/-- A value that is neither a list nor an object. -/
def scalar (l : Limits) (fuel : Nat) (cs : List Char) : Reading Json :=
  match cs with
  | 'n' :: 'u' :: 'l' :: 'l' :: rest => .ok (null, rest)
  | 't' :: 'r' :: 'u' :: 'e' :: rest => .ok (bool true, rest)
  | 'f' :: 'a' :: 'l' :: 's' :: 'e' :: rest => .ok (bool false, rest)
  | 'N' :: 'a' :: 'N' :: rest => .ok (float (0.0 / 0.0), rest)
  | 'I' :: 'n' :: 'f' :: 'i' :: 'n' :: 'i' :: 't' :: 'y' :: rest => .ok (infinite false, rest)
  | '-' :: 'I' :: 'n' :: 'f' :: 'i' :: 'n' :: 'i' :: 't' :: 'y' :: rest => .ok (infinite true, rest)
  | '"' :: rest => (stringBody cs fuel [] rest).map fun (s, rest) => (str s, rest)
  | '-' :: rest => magnitude l cs true rest
  | _ => magnitude l cs false cs

mutual

/-- A value inside `depth` brackets. -/
def value (l : Limits) (depth fuel : Nat) (cs : List Char) : Reading Json :=
  match fuel with
  | 0 => .error (.malformed .noValue cs)
  | fuel + 1 =>
    match skip cs with
    | '[' :: rest =>
      if !l.admitsDepth (depth + 1) then .error .tooDeep
      else match skip rest with
        | ']' :: rest => .ok (arr [], rest)
        | rest => items l (depth + 1) fuel [] rest
    | '\x7b' :: rest =>
      if !l.admitsDepth (depth + 1) then .error .tooDeep
      else match skip rest with
        | '\x7d' :: rest => .ok (obj [], rest)
        | rest => members l (depth + 1) fuel [] rest
    | cs => scalar l fuel cs

/-- The items of a list, those read so far given in reverse. -/
def items (l : Limits) (depth fuel : Nat) (done : List Json) (cs : List Char) : Reading Json :=
  match fuel with
  | 0 => .error (.malformed .noValue cs)
  | fuel + 1 =>
    match value l depth fuel cs with
    | .error e => .error e
    | .ok (v, rest) =>
      match skip rest with
      | ',' :: rest => items l depth fuel (v :: done) rest
      | ']' :: rest => .ok (arr (v :: done).reverse, rest)
      | rest => .error (.malformed .noComma rest)

/-- The members of an object, those read so far given as a table. -/
def members (l : Limits) (depth fuel : Nat) (done : List (String × Json)) (cs : List Char) :
    Reading Json :=
  match fuel with
  | 0 => .error (.malformed .noKey cs)
  | fuel + 1 =>
    match skip cs with
    | '"' :: rest =>
      match stringBody ('"' :: rest) fuel [] rest with
      | .error e => .error e
      | .ok (key, rest) =>
        match skip rest with
        | ':' :: rest =>
          match value l depth fuel rest with
          | .error e => .error e
          | .ok (v, rest) =>
            let done := Keyed.put key v done
            match skip rest with
            | ',' :: rest => members l depth fuel done rest
            | '\x7d' :: rest => .ok (obj done, rest)
            | rest => .error (.malformed .noComma rest)
        | rest => .error (.malformed .noColon rest)
    | rest => .error (.malformed .noKey rest)

end

/-- The value of a text, all of it. Every character of the text pays for at
most two steps of the reading, which bounds them. -/
def whole (l : Limits) (cs : List Char) : Except Stop Json :=
  if cs.head? = some '\ufeff' then .error (.malformed .byteOrderMark cs)
  else match value l 0 (2 * cs.length + 2) cs with
    | .error e => .error e
    | .ok (v, rest) =>
      if (skip rest).isEmpty then .ok v else .error (.malformed .surplus (skip rest))

def read (l : Limits) (text : String) : Except ReadError Json :=
  (whole l text.toList).mapError (Stop.error text.toList)

end Retype.Json

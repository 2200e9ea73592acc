/-!
# Flaws of JSON texts

What can be wrong with a text that is no JSON value, and where in the text it
shows: lines and columns count from one, characters from zero.
-/

set_option autoImplicit false

namespace Retype.Json

inductive Flaw where
  /-- No value where one should stand. -/
  | noValue
  /-- No quoted key where one should stand. -/
  | noKey
  | noColon
  | noComma
  /-- A string without an end. -/
  | openString
  | controlCharacter
  | badEscape
  /-- A code unit that is not four hexadecimal digits. -/
  | badUnit
  /-- Something after the value. -/
  | surplus
  | byteOrderMark
  deriving DecidableEq, Repr, Inhabited

def Flaw.text : Flaw → String
  | noValue => "Expecting value"
  | noKey => "Expecting property name enclosed in double quotes"
  | noColon => "Expecting ':' delimiter"
  | noComma => "Expecting ',' delimiter"
  | openString => "Unterminated string starting at"
  | controlCharacter => "Invalid control character at"
  | badEscape => "Invalid \\escape"
  | badUnit => "Invalid \\uXXXX escape"
  | surplus => "Extra data"
  | byteOrderMark => "Unexpected UTF-8 BOM (decode using utf-8-sig)"

structure Spot where
  line : Nat
  column : Nat
  place : Nat
  deriving DecidableEq, Repr, Inhabited

namespace Spot

def after (passed : List Char) : Spot where
  line := passed.count '\n' + 1
  column := (passed.reverse.takeWhile fun c => c != '\n').length + 1
  place := passed.length

def ofRest (whole rest : List Char) : Spot := after (whole.take (whole.length - rest.length))

def text (s : Spot) : String :=
  "line " ++ toString s.line ++ " column " ++ toString s.column ++
    " (char " ++ toString s.place ++ ")"

end Spot

end Retype.Json

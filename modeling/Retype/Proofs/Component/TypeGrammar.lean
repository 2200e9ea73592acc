import Retype.Json.Reader
import Retype.Proofs.Order

/-!
# Reading type texts

How a type text is read. An array mark binds most tightly, then the bar of a union;
a function type reaches as far to the right as it can, so that it is part of a union
or an array only in parentheses. A union is known by its alternatives: one inside
another is taken apart, and what is said twice counts once.
-/

set_option autoImplicit false

namespace Retype

/-! ## Types -/

/-- What a type does with its parts. -/
inductive Ty.Form where
  | word (text : String)
  | array
  | generic (name : String)
  | function (parameter : String)
  /-- The names of the members, each with whether it may be left out. -/
  | object (members : List (String × Bool))
  | union
  deriving DecidableEq, Repr

inductive Ty where
  | of (form : Ty.Form) (parts : List Ty)
  deriving Repr

namespace Ty

mutual

def decEq (a b : Ty) : Decidable (a = b) :=
  match a, b with
  | of f as, of g bs =>
    if hf : f = g then
      match decEqAll as bs with
      | isTrue h => isTrue (by rw [hf, h])
      | isFalse h => isFalse fun heq => h (of.inj heq).2
    else isFalse fun heq => hf (of.inj heq).1

def decEqAll (as bs : List Ty) : Decidable (as = bs) :=
  match as, bs with
  | [], [] => isTrue rfl
  | [], _ :: _ => isFalse nofun
  | _ :: _, [] => isFalse nofun
  | a :: as, b :: bs =>
    match decEq a b with
    | isFalse h => isFalse fun heq => h (List.cons.inj heq).1
    | isTrue h =>
      match decEqAll as bs with
      | isTrue hs => isTrue (by rw [h, hs])
      | isFalse hs => isFalse fun heq => hs (List.cons.inj heq).2

end

instance : DecidableEq Ty := decEq

def form : Ty → Form
  | of form _ => form

def parts : Ty → List Ty
  | of _ parts => parts

def word (text : String) : Ty := of (.word text) []

def array (item : Ty) : Ty := of .array [item]

def function (parameter : String) (type result : Ty) : Ty := of (.function parameter) [type, result]

def object (members : List ((String × Bool) × Ty)) : Ty :=
  of (.object (members.map Prod.fst)) (members.map Prod.snd)

def isFunction (t : Ty) : Bool :=
  match t.form with
  | .function _ => true
  | _ => false

def alternatives : Ty → List Ty
  | of .union ts => ts
  | t => [t]

def choice : List Ty → Ty
  | [t] => t
  | ts => of .union ts

def unite (ts : List Ty) : Ty := choice (Order.distinct (ts.flatMap alternatives))

mutual

/-- No function type is a part of a union. -/
def isClean : Ty → Bool
  | of form parts => (form != .union || parts.all fun t => !t.isFunction) && areClean parts

def areClean : List Ty → Bool
  | [] => true
  | t :: ts => isClean t && areClean ts

end

end Ty

/-! ## Tokens -/

inductive Mark where
  | openRound
  | closeRound
  | openSquare
  | closeSquare
  | openCurly
  | closeCurly
  | openAngle
  | closeAngle
  | bar
  | colon
  | semicolon
  | comma
  | question
  | equals
  deriving DecidableEq, Repr

inductive Token where
  | word (text : String)
  | mark (m : Mark)
  deriving DecidableEq, Repr

namespace Token

def mark? : Char → Option Mark
  | '(' => some .openRound
  | ')' => some .closeRound
  | '[' => some .openSquare
  | ']' => some .closeSquare
  | '\x7b' => some .openCurly
  | '\x7d' => some .closeCurly
  | '<' => some .openAngle
  | '>' => some .closeAngle
  | '|' => some .bar
  | ':' => some .colon
  | ';' => some .semicolon
  | ',' => some .comma
  | '?' => some .question
  | '=' => some .equals
  | _ => none

/-- Where a character stands: outside quotes, between them, or behind a backslash there. -/
inductive Mode where
  | plain
  | quoted (q : Char)
  | escaped (q : Char)
  deriving DecidableEq, Repr

def isQuote (c : Char) : Bool := c = '"' || c = '\''

def flush (word : List Char) : List Token := if word.isEmpty then [] else [.word (String.ofList word)]

/-- The tokens of a text of which the word that is being read has begun. -/
def lex (mode : Mode) (word : List Char) : List Char → List Token
  | [] => flush word
  | c :: cs =>
    match mode with
    | .plain =>
      if c = ' ' then flush word ++ lex .plain [] cs
      else match mark? c with
        | some m => flush word ++ .mark m :: lex .plain [] cs
        | none => lex (if isQuote c then .quoted c else .plain) (word ++ [c]) cs
    | .quoted q => lex (if c = q then .plain else if c = '\\' then .escaped q else .quoted q) (word ++ [c]) cs
    | .escaped q => lex (.quoted q) (word ++ [c]) cs

end Token

/-- The tokens of a text: marks, and what stands between marks and blanks. What stands
between quotes belongs to one word. -/
def tokens (s : String) : List Token := Token.lex .plain [] s.toList

/-! ## The grammar -/

namespace Ty

/-- The name that a property name stands for. -/
def keyName (word : String) : String :=
  match word.toList with
  | '"' :: rest =>
    match Json.stringBody word.toList (rest.length + 1) [] rest with
    | .ok (name, _) => name
    | .error _ => word
  | _ => word

def arrays (t : Ty) : List Token → Option (Ty × List Token)
  | .mark .openSquare :: .mark .closeSquare :: rest => arrays (array t) rest
  | .mark .openSquare :: _ => none
  | rest => some (t, rest)

mutual

/-- The type that tokens begin with, and the tokens behind it. -/
def typeAt (fuel : Nat) (toks : List Token) : Option (Ty × List Token) :=
  match fuel with
  | 0 => none
  | fuel + 1 =>
    match toks with
    | .mark .openRound :: .word parameter :: .mark .colon :: rest => functionAt fuel parameter rest
    | toks => (operandsAt fuel toks).map fun (ts, rest) => (unite ts, rest)

/-- The rest of a function type, from the type of its parameter on. -/
def functionAt (fuel : Nat) (parameter : String) (toks : List Token) : Option (Ty × List Token) :=
  match fuel with
  | 0 => none
  | fuel + 1 =>
    match typeAt fuel toks with
    | some (type, .mark .closeRound :: .mark .equals :: .mark .closeAngle :: rest) =>
      (typeAt fuel rest).map fun (result, rest) => (function parameter type result, rest)
    | _ => none

def operandsAt (fuel : Nat) (toks : List Token) : Option (List Ty × List Token) :=
  match fuel with
  | 0 => none
  | fuel + 1 =>
    match operandAt fuel toks with
    | some (t, .mark .bar :: rest) => (operandsAt fuel rest).map fun (ts, rest) => (t :: ts, rest)
    | some (t, rest) => some ([t], rest)
    | none => none

def operandAt (fuel : Nat) (toks : List Token) : Option (Ty × List Token) :=
  match fuel with
  | 0 => none
  | fuel + 1 => (primaryAt fuel toks).bind fun (t, rest) => arrays t rest

def primaryAt (fuel : Nat) (toks : List Token) : Option (Ty × List Token) :=
  match fuel with
  | 0 => none
  | fuel + 1 =>
    match toks with
    | .mark .openRound :: rest =>
      match typeAt fuel rest with
      | some (t, .mark .closeRound :: rest) => some (t, rest)
      | _ => none
    | .mark .openCurly :: rest => (membersAt fuel rest).map fun (members, rest) => (object members, rest)
    | .word name :: .mark .openAngle :: rest =>
      (argumentsAt fuel rest).map fun (ts, rest) => (of (.generic name) ts, rest)
    | .word text :: rest => some (word text, rest)
    | _ => none

def membersAt (fuel : Nat) (toks : List Token) : Option (List ((String × Bool) × Ty) × List Token) :=
  match fuel with
  | 0 => none
  | fuel + 1 =>
    match toks with
    | .mark .closeCurly :: rest => some ([], rest)
    | .word key :: .mark .question :: .mark .colon :: rest => memberAt fuel (keyName key, true) rest
    | .word key :: .mark .colon :: rest => memberAt fuel (keyName key, false) rest
    | _ => none

def memberAt (fuel : Nat) (member : String × Bool) (toks : List Token) :
    Option (List ((String × Bool) × Ty) × List Token) :=
  match fuel with
  | 0 => none
  | fuel + 1 =>
    match typeAt fuel toks with
    | some (t, .mark .semicolon :: rest) =>
      (membersAt fuel rest).map fun (members, rest) => ((member, t) :: members, rest)
    | some (t, .mark .closeCurly :: rest) => some ([(member, t)], rest)
    | _ => none

def argumentsAt (fuel : Nat) (toks : List Token) : Option (List Ty × List Token) :=
  match fuel with
  | 0 => none
  | fuel + 1 =>
    match typeAt fuel toks with
    | some (t, .mark .comma :: rest) => (argumentsAt fuel rest).map fun (ts, rest) => (t :: ts, rest)
    | some (t, .mark .closeAngle :: rest) => some ([t], rest)
    | _ => none

end

/-- The type that a text says, if all of it is one type. Every token pays for at most
four steps of the reading. -/
def read (s : String) : Option Ty :=
  match typeAt (4 * (tokens s).length + 4) (tokens s) with
  | some (t, []) => some t
  | _ => none

example : read "(f: a) => b | c[]" =
    some (function "f" (word "a") (unite [word "b", array (word "c")])) := by decide +kernel

end Ty

end Retype

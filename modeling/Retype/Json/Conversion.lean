import Retype.Fault

/-!
# Conversions of written values

A conversion takes of a value what a use asks for, and otherwise names the
fault.
-/

set_option autoImplicit false

namespace Retype.Json

def need (v : Json) (key : String) : Except Fault Json :=
  match v with
  | obj members => match Keyed.get? key members with
    | some m => .ok m
    | none => .error (.missingKey key)
  | v => .error (.noKeys v.form)

def getD (v : Json) (key : String) (default : Json) : Except Fault Json :=
  match v with
  | obj members => .ok ((Keyed.get? key members).getD default)
  | v => .error (.noMember v.form "get")

def members? : Json → Except Fault (List (String × Json))
  | obj members => .ok members
  | v => .error (.noMember v.form "items")

def each : Json → Except Fault (List Json)
  | arr items => .ok items
  | str s => .ok (s.toList.map fun c => str c.toString)
  | obj members => .ok (members.map fun m => str m.1)
  | v => .error (.noItems v.form)

def size : Json → Except Fault Nat
  | arr items => .ok items.length
  | str s => .ok s.length
  | obj members => .ok members.length
  | v => .error (.noLength v.form)

def textWith (member : String) : Json → Except Fault String
  | str s => .ok s
  | v => .error (.noMember v.form member)

def path : Json → Except Fault String
  | str s => .ok s
  | v => .error (.noPath v.form)

def step : Json → Except Fault String
  | str s => .ok s
  | v => .error (.noStep v.form)

/-- An integer out of a value: numbers lose their fraction, texts are read. -/
def toInt : Json → Except Fault Int
  | int n => .ok n
  | bool b => .ok (if b then 1 else 0)
  | float x => match Binary.of? x with
    | some b => .ok b.truncate
    | none => .error (if x.isNaN then .notANumber else .endless)
  | str s => match Numeral.int? s with
    | some n => .ok n
    | none =>
      let digits := Numeral.leadingDigits s
      .error (if Numeral.digitLimit < digits then .longNumeral digits else .badInteger s)
  | v => .error (.noInteger v.form)

def ofInt (n : Int) : Except Fault Float :=
  let x := Decimal.toFloat (n < 0) n.natAbs 0
  if (Binary.of? x).isSome then .ok x else .error .tooLarge

/-- The number that a numeric value is; `e` if it is none. -/
def numberOr (e : Fault) : Json → Except Fault Float
  | int n => ofInt n
  | float x => .ok x
  | bool b => .ok (if b then 1 else 0)
  | _ => .error e

def toFloat : Json → Except Fault Float
  | str s => match Numeral.float? s with
    | some x => .ok x
    | none => .error (.badNumber s)
  | v => v.numberOr (.noNumber v.form)

end Retype.Json

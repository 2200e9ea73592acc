/-!
# Floating-point numbers as exact fractions

A finite number is a sign and `mantissa * 2 ^ exponent`. Rounding to a number
of decimal places and to an integer is done on this exact value; a half goes to
the even neighbour. Nothing is said here about infinities and not-a-number,
which `Binary.of?` leaves out.
-/

set_option autoImplicit false

namespace Retype

structure Binary where
  negative : Bool
  mantissa : Nat
  exponent : Int
  deriving DecidableEq, Repr

namespace Binary

/-- The least mantissa of a number whose first digit is not written down. -/
def hidden : Nat := 1 <<< 52

def of? (x : Float) : Option Binary :=
  let bits := x.toBits.toNat
  let negative := decide (bits >>> 63 = 1)
  let field : Nat := (bits >>> 52) % 2048
  let fraction := bits % hidden
  if field = 2047 then none
  else if field = 0 then some ⟨negative, fraction, -1074⟩
  else some ⟨negative, fraction + hidden, (field : Int) - 1075⟩

def scaled (b : Binary) (scale : Nat) : Nat × Nat :=
  if 0 ≤ b.exponent then (b.mantissa * Nat.pow 2 b.exponent.toNat * scale, 1)
  else (b.mantissa * scale, Nat.pow 2 (-b.exponent).toNat)

def signed (negative : Bool) (n : Nat) : Int := if negative then -(n : Int) else n

end Binary

/-- The integer nearest to a fraction; a half goes to the even neighbour. -/
def nearest (num den : Nat) : Nat :=
  let low := num / den
  let rest := 2 * (num % den)
  if rest < den then low
  else if den < rest then low + 1
  else if low % 2 = 0 then low else low + 1

namespace Binary

def unitsAt (b : Binary) (places : Nat) : Nat :=
  let (num, den) := b.scaled (Nat.pow 10 places)
  nearest num den

def toNearestInt (b : Binary) : Int := signed b.negative (b.unitsAt 0)

def truncate (b : Binary) : Int :=
  let (num, den) := b.scaled 1
  signed b.negative (num / den)

def ceiling (b : Binary) : Int :=
  match b.scaled 1 with
  | (num, den) => -(signed (!b.negative) num / (den : Int))

end Binary

/-- The number that a sign, decimal digits and a power of ten denote, rounded
to nearest; powers far outside the range of floating point are cut short. -/
def Decimal.toFloat (negative : Bool) (digits : Nat) (power : Int) : Float :=
  let size := (Nat.toDigits 10 digits).length
  let x :=
    if digits = 0 ∨ power + size < -400 then 0.0
    else if 400 < power + size then 1.0 / 0.0
    else Float.ofScientific digits (power < 0) power.natAbs
  if negative then -x else x

/-- The number nearest to a fraction with a sign. The fraction is cut off behind more bits
than a number holds, and the last bit says whether anything was cut off. -/
def Decimal.quotient (num : Int) (den : Nat) : Float :=
  let shift := den.log2 + 64 - num.natAbs.log2
  let whole := num.natAbs <<< shift
  let cut := if whole % den = 0 then whole / den else whole / den ||| 1
  let x := Float.ofNat cut / Float.ofNat (1 <<< shift)
  if num < 0 then -x else x

/-- A number rounded to decimal places; what has no exact value stays. -/
def Decimal.roundTo (places : Nat) (x : Float) : Float :=
  match Binary.of? x with
  | none => x
  | some b => Decimal.toFloat b.negative (b.unitsAt places) (-(places : Int))

end Retype

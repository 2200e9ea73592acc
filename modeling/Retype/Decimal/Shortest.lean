import Retype.Decimal.Binary

/-!
# Decimal text of floating-point numbers

The shortest digits that read back as the same number, of those the nearest to
it, and two ways to lay digits out: positional where the exponent is moderate
and scientific elsewhere, or a fixed number of places.
-/

set_option autoImplicit false

namespace Retype

namespace Binary

/-- The reals that round to a magnitude, in quarters of its unit in the last
place. The ends belong to it iff the mantissa is even, and below a power of two
the gap is half as wide. -/
structure Basin where
  low : Nat
  value : Nat
  high : Nat
  closed : Bool
  deriving DecidableEq, Repr

def basin (b : Binary) : Basin where
  low := if b.mantissa = Binary.hidden ∧ -1074 < b.exponent then 4 * b.mantissa - 1 else 4 * b.mantissa - 2
  value := 4 * b.mantissa
  high := 4 * b.mantissa + 2
  closed := b.mantissa % 2 = 0

def Basin.holds (s : Basin) (num den : Nat) : Bool :=
  if s.closed then s.low * den ≤ num && num ≤ s.high * den
  else s.low * den < num && num < s.high * den

/-- One step of the decimal grid `10 ^ power`, in quarters of the unit in the
last place, as numerator and denominator. -/
def gridStep (b : Binary) (power : Int) : Nat × Nat :=
  let shift := b.exponent - 2
  let up := (if 0 ≤ power then Nat.pow 10 power.toNat else 1) * (if shift < 0 then Nat.pow 2 (-shift).toNat else 1)
  let down := (if power < 0 then Nat.pow 10 (-power).toNat else 1) * (if 0 ≤ shift then Nat.pow 2 shift.toNat else 1)
  (up, down)

/-- The point of the grid that the basin holds, of two the nearer and at equal
distance the even one. -/
def gridPoint? (b : Binary) (power : Int) : Option Nat :=
  let s := b.basin
  let (up, down) := b.gridStep power
  let below := s.value * down / up
  let above := below + 1
  let lowIn := s.holds (below * up) down && 0 < below
  let highIn := s.holds (above * up) down
  let lowGap := s.value * down - below * up
  let highGap := above * up - s.value * down
  if lowIn && highIn then
    some (if lowGap < highGap then below
      else if highGap < lowGap then above
      else if below % 2 = 0 then below else above)
  else if lowIn then some below
  else if highIn then some above
  else none

/-- A power of ten that the magnitude does not exceed, at most one too large. -/
def topPower (b : Binary) : Int :=
  let (num, den) := b.scaled 1
  if den ≤ num then (Nat.toDigits 10 (num / den)).length
  else 2 - ((Nat.toDigits 10 (den / num)).length : Int)

/-- The first grid, from coarse to fine, with a point in the basin. -/
def shortestFrom (b : Binary) (top : Int) : Nat → Nat → Nat × Int
  | _, 0 => (b.mantissa, 0)
  | digits, fuel + 1 =>
    let power := top - digits
    match b.gridPoint? power with
    | some n => (n, power)
    | none => b.shortestFrom top (digits + 1) fuel

/-- Digits and power of ten; seventeen digits always suffice, and the first grids may be too coarse. -/
def shortest (b : Binary) : Nat × Int :=
  if b.mantissa = 0 then (0, 0) else b.shortestFrom (b.topPower + 1) 1 20

end Binary

structure Layout where
  /-- Positional notation from `10 ^ first` up to, and without, `10 ^ last`. -/
  first : Int
  last : Int
  infinity : String
  notANumber : String

def Layout.plain : Layout := ⟨-4, 16, "inf", "nan"⟩

def Layout.json : Layout := ⟨-4, 16, "Infinity", "NaN"⟩

namespace Decimal

def zeros (n : Nat) : String := String.ofList (List.replicate n '0')

/-- Digits with the point set `point` places after their beginning, at least
one digit on either side. -/
def positional (digits : List Char) (point : Int) : String :=
  if point ≤ 0 then "0." ++ zeros (-point).toNat ++ String.ofList digits
  else
    let front := digits.take point.toNat
    let back := digits.drop point.toNat
    String.ofList front ++ zeros (point.toNat - front.length) ++ "." ++
      (if back.isEmpty then "0" else String.ofList back)

def powerText (power : Int) : String :=
  let body := toString power.natAbs
  "e" ++ (if power < 0 then "-" else "+") ++ (if body.length < 2 then "0" ++ body else body)

def scientific (digits : List Char) (point : Int) : String :=
  let body := match digits with
    | [] => "0"
    | [d] => d.toString
    | d :: rest => d.toString ++ "." ++ String.ofList rest
  body ++ powerText (point - 1)

/-- The shortest text that reads back as `x`. -/
def text (layout : Layout) (x : Float) : String :=
  match Binary.of? x with
  | none =>
    if x.isNaN then layout.notANumber
    else if x < 0 then "-" ++ layout.infinity else layout.infinity
  | some b =>
    let (n, power) := b.shortest
    let trimmed := ((Nat.toDigits 10 n).reverse.dropWhile (· = '0')).reverse
    let digits := if n = 0 then ['0'] else trimmed
    let point := (Nat.toDigits 10 n).length + power
    let body :=
      if n = 0 then "0.0"
      else if layout.first < point && point ≤ layout.last then positional digits point
      else scientific digits point
    if b.negative then "-" ++ body else body

/-- Exactly `places` digits after the point, at least one of them. -/
def fixed (places : Nat) (x : Float) : String :=
  match Binary.of? x with
  | none => text Layout.plain x
  | some b =>
    let digits := toString (b.unitsAt places)
    let padded := zeros (places + 1 - digits.length) ++ digits
    let cs := padded.toList
    (if b.negative then "-" else "") ++ String.ofList (cs.take (cs.length - places)) ++ "." ++
      String.ofList (cs.drop (cs.length - places))

end Decimal

end Retype

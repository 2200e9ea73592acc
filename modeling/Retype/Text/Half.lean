/-!
# Lone halves

A JSON text can name half of a pair of UTF-16 units by itself, and an octet of a
file name that is no UTF-8 is read as one. No character is such a half, so it is
held as a private character: the unit `u` as `u + 0x100000`. Wherever a text is
shown, the half is shown again as a unit. The private characters from U+10D800 to
U+10DFFF themselves are not told apart from halves.
-/

set_option autoImplicit false

namespace Retype.Half

def isHigh (u : Nat) : Bool := 0xD800 ≤ u && u ≤ 0xDBFF

def isLow (u : Nat) : Bool := 0xDC00 ≤ u && u ≤ 0xDFFF

/-- The character that a unit stands for by itself. -/
def ofUnit (u : Nat) : Char :=
  if isHigh u || isLow u then Char.ofNat (u + 0x100000) else Char.ofNat u

/-- The character that two units stand for together. -/
def join (high low : Nat) : Char :=
  Char.ofNat (0x10000 + (high - 0xD800) * 0x400 + (low - 0xDC00))

/-- The half that a character holds. -/
def unit? (c : Char) : Option Nat :=
  if 0x10D800 ≤ c.toNat && c.toNat ≤ 0x10DFFF then some (c.toNat - 0x100000) else none

/-- Halves in a row in a text: the unit of the first, how many characters stand before
it, and how many halves there are. -/
structure Run where
  unit : Nat
  place : Nat
  count : Nat
  deriving DecidableEq, Repr, Inhabited

def run? (refused : Nat → Bool) (place : Nat) : List Char → Option Run
  | [] => none
  | c :: cs =>
    match (unit? c).filter refused with
    | some u => some ⟨u, place, 1 + (cs.takeWhile fun d => (unit? d).isSome).length⟩
    | none => run? refused (place + 1) cs

/-- The halves for which a text has no octets in UTF-8. -/
def lone? (s : String) : Option Run := run? (fun _ => true) 0 s.toList

/-- The halves for which a text is no file name. Low halves from 0xDC80 to 0xDCFF
stand there for single octets. -/
def nameless? (s : String) : Option Run := run? (fun u => !(0xDC80 ≤ u && u ≤ 0xDCFF)) 0 s.toList

end Retype.Half

import Retype.Text.Half

/-!
# UTF-8

Text as octets and back. A text that holds a lone half has no octets. Reading never
fails: a machine over the octets keeps at most one unfinished character, and every
maximal run of octets that begins a character but cannot finish one is read as a
single U+FFFD.
-/

set_option autoImplicit false

namespace Retype.Utf8

def replacement : Char := Char.ofNat 0xFFFD

def encode (s : String) : List UInt8 := s.toUTF8.data.toList

/-- The octets of a text, unless it holds a lone half. -/
def encode? (s : String) : Except Half.Run (List UInt8) :=
  match Half.lone? s with
  | some run => .error run
  | none => .ok (encode s)

/-- A character whose lead octet has been read: how many octets are still due,
the range of the next one, and the bits gathered so far. -/
structure Unfinished where
  due : Nat
  low : Nat
  high : Nat
  bits : Nat
  deriving DecidableEq, Repr

/-- What one octet means where no character is unfinished. -/
inductive Lead where
  | single (c : Char)
  | opens (u : Unfinished)
  | invalid
  deriving DecidableEq, Repr

def lead (b : Nat) : Lead :=
  if b < 0x80 then .single (Char.ofNat b)
  else if b < 0xC2 then .invalid
  else if b < 0xE0 then .opens ⟨1, 0x80, 0xBF, b - 0xC0⟩
  else if b = 0xE0 then .opens ⟨2, 0xA0, 0xBF, 0⟩
  else if b = 0xED then .opens ⟨2, 0x80, 0x9F, 0xD⟩
  else if b < 0xF0 then .opens ⟨2, 0x80, 0xBF, b - 0xE0⟩
  else if b = 0xF0 then .opens ⟨3, 0x90, 0xBF, 0⟩
  else if b < 0xF4 then .opens ⟨3, 0x80, 0xBF, b - 0xF0⟩
  else if b = 0xF4 then .opens ⟨3, 0x80, 0x8F, 4⟩
  else .invalid

/-- One octet: the characters it completes and what stays unfinished. -/
def fresh (b : Nat) : List Char × Option Unfinished :=
  match lead b with
  | .single c => ([c], none)
  | .opens u => ([], some u)
  | .invalid => ([replacement], none)

def step (pending : Option Unfinished) (b : Nat) : List Char × Option Unfinished :=
  match pending with
  | none => fresh b
  | some u =>
    if u.low ≤ b ∧ b ≤ u.high then
      let bits := u.bits * 64 + (b - 0x80)
      if u.due ≤ 1 then ([Char.ofNat bits], none)
      else ([], some ⟨u.due - 1, 0x80, 0xBF, bits⟩)
    else
      let (cs, next) := fresh b
      (replacement :: cs, next)

def run (pending : Option Unfinished) : List UInt8 → List Char
  | [] => if pending.isSome then [replacement] else []
  | b :: bs =>
    let (cs, next) := step pending b.toNat
    cs ++ run next bs

def decode (bs : List UInt8) : String := String.ofList (run none bs)

end Retype.Utf8

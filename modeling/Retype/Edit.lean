import Retype.Text.Utf8

/-!
# Edits of octets

An edit puts a text in place of a span of octets; an empty span is an
insertion. Edits are applied together: their spans refer to the source as it
was, and insertions at one place keep the order in which they were made. Edits
whose spans overlap are refused, and so is a text that has no octets. A place below
zero is counted from the end.
-/

set_option autoImplicit false

namespace Retype

structure Edit where
  start : Int
  stop : Int
  text : String
  deriving DecidableEq, Repr

namespace Edit

def insertion (place : Nat) (text : String) : Edit := ⟨place, place, text⟩

def before (a b : Edit) : Bool := a.start < b.start || (a.start = b.start && a.stop ≤ b.stop)

def ordered (edits : List Edit) : List Edit := edits.mergeSort before

def clash? : List Edit → Option (Edit × Edit)
  | a :: b :: rest => if b.start < a.stop then some (a, b) else clash? (b :: rest)
  | _ => none

/-- How many octets of a list of some size stand before a place; one before the
beginning or beyond the end means that end. -/
def octetsBefore (size : Nat) (place : Int) : Nat :=
  if place < 0 then size - place.natAbs else place.toNat

def replace (source : List UInt8) (e : Edit) (octets : List UInt8) : List UInt8 :=
  source.take (octetsBefore source.length e.start) ++ octets ++
    source.drop (octetsBefore source.length e.stop)

def apply (source : List UInt8) (e : Edit) : Except Half.Run (List UInt8) :=
  (Utf8.encode? e.text).map (replace source e)

/-- Applies edits from the last to the first, so that no place shifts. -/
def applyEach (source : List UInt8) : List Edit → Except Half.Run (List UInt8)
  | [] => .ok source
  | e :: rest => do apply (← applyEach source rest) e

structure Overlap where
  first : Edit
  second : Edit
  deriving DecidableEq, Repr

def Overlap.message (o : Overlap) : String :=
  s!"Overlapping edits at {o.first.start}-{o.first.stop} and {o.second.start}-{o.second.stop}"

inductive Refusal where
  | overlap (o : Overlap)
  /-- A text with lone halves. -/
  | half (run : Half.Run)
  deriving DecidableEq, Repr

def applyAll (source : List UInt8) (edits : List Edit) : Except Refusal (List UInt8) :=
  match clash? (ordered edits) with
  | some (a, b) => .error (.overlap ⟨a, b⟩)
  | none => (applyEach source (ordered edits)).mapError .half

end Edit

end Retype

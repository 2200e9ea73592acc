/-!
# Choosing and sorting by a key

The first of the least elements, stable sorting in either direction, and lists
without repetition in the order of first occurrence.
-/

set_option autoImplicit false

namespace Retype.Order

/-- The earliest element whose key is least. -/
def leastBy {α : Type} (key : α → Nat) : List α → Option α
  | [] => none
  | a :: rest => match leastBy key rest with
    | none => some a
    | some b => if key b < key a then some b else some a

/-- Largest key first; elements with one key keep their order. -/
def byDescending {α : Type} (key : α → Nat) (xs : List α) : List α :=
  xs.mergeSort fun a b => key b ≤ key a

def sortTexts (xs : List String) : List String :=
  xs.mergeSort fun a b => a ≤ b

def listBefore : List String → List String → Bool
  | [], _ => true
  | _ :: _, [] => false
  | a :: as, b :: bs => if a = b then listBefore as bs else a < b

def sortLists (xss : List (List String)) : List (List String) := xss.mergeSort listBefore

def distinct {α : Type} [BEq α] (xs : List α) : List α :=
  (xs.foldl (fun seen x => if seen.contains x then seen else x :: seen) []).reverse

end Retype.Order

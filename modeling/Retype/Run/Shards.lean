import Retype.Json.Comparison
import Retype.Json.Conversion

/-!
# Shards

A list of items cut into shards of at most so many items, in order. The items
of a run are cut into waves, as large as all workers together can take on at
once, and each wave into shards.
-/

set_option autoImplicit false

namespace Retype.Shards

variable {α : Type}

/-- Pieces of `n + 1` elements, the last one maybe shorter. -/
def pieces (n : Nat) : List α → List (List α)
  | [] => []
  | a :: rest => (a :: rest.take n) :: pieces n (rest.drop n)
termination_by xs => xs.length
decreasing_by
  simp only [List.length_drop, List.length_cons]
  omega

/-- Shards of at most `size` elements; a size below one counts as one. -/
def split (size : Int) (xs : List α) : List (List α) := pieces (size.toNat - 1) xs

def waves (workers size : Int) (xs : List α) : List (List (List α)) :=
  (split (workers * size) xs).map (split size)

/-! ## Sizes as they are set -/

/-- A value, but at least one: what is not greater than one counts as one. -/
def atLeastOne (v : Json) : Except Fault Json := do
  return if ← Json.holds .greater v (.int 1) then v else .int 1

/-- The count that is asked for, unless it says nothing; else the one that is set. -/
def countOf (asked standard : Json) : Except Fault Json :=
  atLeastOne (if asked.truth then asked else standard)

def whole : Json → Except Fault Int
  | .int n => .ok n
  | .bool b => .ok (if b then 1 else 0)
  | v => .error (.noCount v.form)

def splitBy (size : Json) (xs : List α) : Except Fault (List (List α)) := do
  return split (← whole (← atLeastOne size)) xs

def wavesBy (workers size : Json) (xs : List α) : Except Fault (List (List (List α))) := do
  return waves (← whole workers) (← whole size) xs

end Retype.Shards

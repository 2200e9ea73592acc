import Retype.Json.Comparison

/-!
# Critical use

A file is critical when so many other files depend on it, or when their weight
reaches one and a half times as much. Weights are counted in halves, so that both
bounds are on whole numbers.
-/

set_option autoImplicit false

namespace Retype

inductive Bound where
  | atLeast (n : Int)
  | never
  deriving DecidableEq, Repr, Inhabited

namespace Bound

def reached (b : Bound) (count : Nat) : Bool :=
  match b with
  | atLeast n => n ≤ count
  | never => false

def ofFloat (x : Float) : Bound :=
  match Binary.of? x with
  | some b => atLeast b.ceiling
  | none => if x < 0 then atLeast 0 else never

end Bound

structure Threshold where
  direct : Bound
  halves : Bound
  deriving DecidableEq, Repr, Inhabited

namespace Threshold

def ofInt (n : Int) : Threshold := ⟨.atLeast n, .atLeast (3 * n)⟩

/-- The halves in one and a half times a number; without limits, the same of all of them. -/
def halvesOf (x : Float) : Bound :=
  match Binary.of? (1.5 * x) with
  | some b => .atLeast (Binary.ceiling { b with exponent := b.exponent + 1 })
  | none => .ofFloat x

/-- The threshold that a value sets. An integer beyond all floating-point numbers
cannot be multiplied, but below all of them every count is enough. -/
def ofJson : Json → Except Fault Threshold
  | .int n =>
    if n < 0 || (Binary.of? (Decimal.toFloat false n.natAbs 0)).isSome then .ok (ofInt n)
    else .error .tooLarge
  | .bool b => .ok (ofInt (if b then 1 else 0))
  | .float x => .ok ⟨.ofFloat x, halvesOf x⟩
  | v => .error (.noOrder .atLeast .int v.form)

end Threshold

end Retype

import Retype.Fault

/-!
# Comparing written values

Numbers of every form compare with one another, exactly: an integer is never
rounded to be compared. Texts compare with texts by their characters, and lists
with lists by the first items that differ. Nothing else has an order. What is
not a number at all is neither before nor after any number.
-/

set_option autoImplicit false

namespace Retype

inductive Magnitude where
  | bottom
  | fraction (num : Int) (den : Nat)
  | top
  | undefined
  deriving DecidableEq, Repr, Inhabited

namespace Magnitude

def ofFloat (x : Float) : Magnitude :=
  match Binary.of? x with
  | some b =>
    let (num, den) := b.scaled 1
    fraction (Binary.signed b.negative num) den
  | none => if x.isNaN then undefined else if x < 0 then bottom else top

def before : Magnitude → Magnitude → Bool
  | undefined, _ => false
  | _, undefined => false
  | fraction a b, fraction c d => a * d < c * b
  | bottom, bottom => false
  | top, top => false
  | bottom, _ => true
  | _, top => true
  | _, _ => false

/-- Whether two numbers are one; what is undefined is itself. -/
def same : Magnitude → Magnitude → Bool
  | fraction a b, fraction c d => a * d == c * b
  | m, n => m == n

end Magnitude

/-- What a sign says of two things, given which of them comes first and whether they are one. -/
def Sign.picks (sign : Sign) (before same after : Bool) : Bool :=
  match sign with
  | less => before
  | atMost => before || same
  | greater => after
  | atLeast => after || same

def Sign.ofMagnitudes (sign : Sign) (m n : Magnitude) : Bool :=
  sign.picks (m.before n) (m.same n && m != .undefined) (n.before m)

namespace Json

def magnitude? : Json → Option Magnitude
  | int n => some (.fraction n 1)
  | bool b => some (.fraction (if b then 1 else 0) 1)
  | float x => some (.ofFloat x)
  | _ => none

mutual

/-- Whether a list takes two items for one. -/
def same : Json → Json → Bool
  | null, null => true
  | str s, str t => s == t
  | arr xs, arr ys => sameItems xs ys
  | obj ms, obj ns => ms.length == ns.length && sameMembers ms ns
  | v, w => match v.magnitude?, w.magnitude? with
    | some m, some n => m.same n
    | _, _ => false

def sameItems : List Json → List Json → Bool
  | [], [] => true
  | v :: vs, w :: ws => same v w && sameItems vs ws
  | _, _ => false

def sameMembers : List (String × Json) → List (String × Json) → Bool
  | [], _ => true
  | (key, v) :: rest, ns => (match Keyed.get? key ns with
    | some w => same v w
    | none => false) && sameMembers rest ns

end

mutual

def holds (sign : Sign) : Json → Json → Except Fault Bool
  | str s, str t => .ok (sign.picks (s < t) (s == t) (t < s))
  | arr vs, arr ws => holdsOfItems sign vs ws
  | v, w => match v.magnitude?, w.magnitude? with
    | some m, some n => .ok (sign.ofMagnitudes m n)
    | _, _ => .error (.noOrder sign v.form w.form)

/-- The first items that differ decide, or else the lengths. -/
def holdsOfItems (sign : Sign) : List Json → List Json → Except Fault Bool
  | [], ws => .ok (sign.picks (!ws.isEmpty) ws.isEmpty false)
  | _ :: _, [] => .ok (sign.picks false false true)
  | v :: vs, w :: ws => if same v w then holdsOfItems sign vs ws else holds sign v w

end

end Json

end Retype

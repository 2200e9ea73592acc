/-!
# Wildcard patterns over paths

A pattern is a row of tokens: a place that takes one character of a class, a run
of such characters, or an optional part. The segments of a written pattern use
`*`, `?`, bracket expressions and backslash escapes, and none of these crosses a
slash except a negated bracket expression.
-/

set_option autoImplicit false

namespace Retype.Glob

inductive Class where
  | exactly (c : Char)
  | inSegment
  | anything
  | listed (negated : Bool) (ranges : List (Char × Char))
  deriving DecidableEq, Repr, Inhabited

def Class.accepts : Class → Char → Bool
  | exactly c, d => c = d
  | inSegment, d => d ≠ '/'
  | anything, _ => true
  | listed negated ranges, d => negated != ranges.any fun (a, b) => a ≤ d && d ≤ b

def Class.isBackward : Class → Bool
  | listed _ ranges => ranges.any fun (a, b) => b < a
  | _ => false

inductive Atom where
  | one (c : Class)
  | many (c : Class)
  deriving DecidableEq, Repr, Inhabited

inductive Token where
  | atom (a : Atom)
  | maybe (part : List Atom)
  deriving DecidableEq, Repr, Inhabited

def Atom.isBackward : Atom → Bool
  | one c | many c => c.isBackward

def Token.isBackward : Token → Bool
  | atom a => a.isBackward
  | maybe part => part.any Atom.isBackward

def Token.weight : Token → Nat
  | atom _ => 1
  | maybe part => 1 + part.length

def weight : List Token → Nat
  | [] => 0
  | t :: ts => t.weight + weight ts

theorem weight_cons (t : Token) (ts : List Token) : weight (t :: ts) = t.weight + weight ts := rfl

theorem weight_atoms (part : List Atom) (ts : List Token) :
    weight (part.map Token.atom ++ ts) = part.length + weight ts := by
  induction part with
  | nil => simp
  | cons a part ih =>
    simp only [List.map_cons, List.cons_append, List.length_cons, weight_cons, ih, Token.weight]
    omega

/-- Whether a row of tokens takes up a whole text. -/
def covers : List Token → List Char → Bool
  | [], s => s.isEmpty
  | .atom (.one c) :: ts, s => match s with
    | [] => false
    | d :: rest => c.accepts d && covers ts rest
  | .atom (.many c) :: ts, s => covers ts s || match s with
    | [] => false
    | d :: rest => c.accepts d && covers (.atom (.many c) :: ts) rest
  | .maybe part :: ts, s => covers ts s || covers (part.map .atom ++ ts) s
termination_by ts s => (s.length, weight ts)
decreasing_by
  all_goals simp_wf
  · exact Prod.Lex.left _ _ (by simp)
  · exact Prod.Lex.right _ (by simp [weight, Token.weight])
  · exact Prod.Lex.left _ _ (by simp)
  · exact Prod.Lex.right _ (by simp only [weight, Token.weight]; omega)
  · apply Prod.Lex.right
    rw [weight_atoms]
    simp [weight, Token.weight]

/-! ## Segments -/

def isNegation (c : Char) : Bool := c = '!' || c = '^'

/-- How many characters a bracket expression takes after its opening bracket. A
closing bracket at its beginning is a member. -/
def bracketLength? (s : List Char) : Option Nat :=
  let lead := if s.head?.any isNegation then 1 else 0
  let lead := if (s.drop lead).head? = some ']' then lead + 1 else lead
  ((s.drop lead).findIdx? (· = ']')).map (lead + · + 1)

def rangesOf : List Char → List (Char × Char)
  | a :: '-' :: b :: rest => (a, b) :: rangesOf rest
  | a :: rest => (a, a) :: rangesOf rest
  | [] => []

def classOf (body : List Char) : Class :=
  match body with
  | c :: rest => if isNegation c then .listed true (rangesOf rest) else .listed false (rangesOf body)
  | [] => .listed false []

/-- The atoms of one segment; none if it ends in a backslash that escapes nothing. -/
def segment : List Char → Option (List Atom)
  | [] => some []
  | ['\\'] => none
  | '\\' :: c :: rest => (segment rest).map (.one (.exactly c) :: ·)
  | '*' :: rest => (segment rest).map (.many .inSegment :: ·)
  | '?' :: rest => (segment rest).map (.one .inSegment :: ·)
  | '[' :: rest =>
    match bracketLength? rest with
    | none => (segment rest).map (.one (.exactly '[') :: ·)
    | some n => (segment (rest.drop n)).map (.one (classOf (rest.take (n - 1))) :: ·)
  | c :: rest => (segment rest).map (.one (.exactly c) :: ·)
termination_by s => s.length
decreasing_by
  all_goals
    simp only [List.length_cons, List.length_drop]
    omega

end Retype.Glob

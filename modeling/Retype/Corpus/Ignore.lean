import Retype.Path
import Retype.Text.Glob

/-!
# Ignore rules

A file of ignore patterns in the style called `gitwildmatch`, one a line. A
pattern without a slash before its end holds at any depth, any other one from the
top; a pattern with a slash at its end holds only for what lies below; `**` stands
for any number of segments. Patterns that begin with `!` take files back in, and
the last pattern that fits a file decides.
-/

set_option autoImplicit false

namespace Retype.Ignore

open Glob

structure Rule where
  leavesOut : Bool
  tokens : List Token
  deriving DecidableEq, Repr, Inhabited

inductive Malformed where
  /-- No segment, or a backslash that escapes nothing. -/
  | pattern (line : String)
  /-- A range whose end comes before its beginning. -/
  | range (line : String)
  deriving DecidableEq, Repr, Inhabited

def slash : Atom := .one (.exactly '/')

def anyRun : Atom := .many .anything

def anyAbove : Token := .maybe [.one .anything, anyRun, slash]

def anyBetween : Token := .maybe [slash, .one .anything, anyRun]

def withBelow : Token := .maybe [slash, anyRun]

def isAnyDepth (s : List Char) : Bool := s = ['*', '*']

def collapse : List (List Char) → List (List Char)
  | a :: b :: rest =>
    if isAnyDepth a && isAnyDepth b then collapse (b :: rest) else a :: collapse (b :: rest)
  | rest => rest

def anchor (segments : List (List Char)) : List (List Char) :=
  match segments with
  | [] :: rest => rest
  | [s] => if isAnyDepth s then [s] else [['*', '*'], s]
  | [s, []] => if isAnyDepth s then [s, []] else [['*', '*'], s, []]
  | _ => segments

def openEnd : List (List Char) → List (List Char)
  | [] => []
  | [s] => if s = [] then [['*', '*']] else [s]
  | s :: rest => s :: openEnd rest

def segmentAtoms (s : List Char) : Option (List Atom) :=
  if s = ['*'] then some [.one .inSegment, .many .inSegment] else Glob.segment s

/-- The tokens of the segments after the first place; `joined` tells whether a
slash has to come before the next one. -/
def tokensFrom (joined : Bool) : List (List Char) → Option (List Token)
  | [] => some []
  | [s] =>
    if isAnyDepth s then some [.atom slash, .atom anyRun]
    else (segmentAtoms s).map fun as =>
      ((if joined then [slash] else []) ++ as).map .atom ++ [withBelow]
  | s :: rest =>
    if isAnyDepth s then (tokensFrom true rest).map (anyBetween :: ·)
    else do
      let here ← segmentAtoms s
      let more ← tokensFrom true rest
      return ((if joined then [slash] else []) ++ here).map .atom ++ more

/-- The tokens of a pattern's segments; `below` tells whether it ends in a slash. -/
def tokensOf (below : Bool) : List (List Char) → Option (List Token)
  | [] => none
  | [s] =>
    if isAnyDepth s then
      some (if below then [.atom anyRun, .atom slash, .atom anyRun] else [.atom anyRun])
    else tokensFrom false [s]
  | s :: rest =>
    if isAnyDepth s then (tokensFrom false rest).map (anyAbove :: ·) else tokensFrom false (s :: rest)

/-- Drops blanks at the end, unless the last one is escaped. -/
def trimEnd (cs : List Char) : List Char :=
  match cs.reverse with
  | ' ' :: '\\' :: _ => cs
  | _ => Blank.dropEnd Blank.isBlank cs

/-- The rule of a line; comments, blank lines and a lone slash give none. -/
def Rule.ofLine (line : String) : Except Malformed (Option Rule) :=
  let text := trimEnd line.toList
  if text = [] || text.head? = some '#' || text = ['/'] then .ok none
  else
    let leavesOut := text.head? ≠ some '!'
    let segments := Path.segmentsOf (if leavesOut then text else text.drop 1)
    let below := segments.getLast? = some []
    match tokensOf below (collapse (openEnd (anchor segments))) with
    | none => .error (.pattern line)
    | some tokens =>
      if tokens.any Token.isBackward then .error (.range line)
      else .ok (some ⟨leavesOut, tokens⟩)

def rulesOf (text : String) : Except Malformed (List Rule) := do
  return (← (Blank.lines text).mapM Rule.ofLine).filterMap id

/-- The last rule that fits a path decides; a path that none fits stays. -/
def leavesOut (rules : List Rule) (path : String) : Bool :=
  ((rules.reverse.find? fun r => covers r.tokens path.toList).map (·.leavesOut)).getD false

end Retype.Ignore

/-!
# Blanks and lines

Blank characters, trimming, and cutting a text into lines. A line ends at any
of the line boundaries of the character standard, not only at a line feed, and
a carriage return with a line feed is one boundary.
-/

set_option autoImplicit false

namespace Retype.Blank

def isBlank (c : Char) : Bool :=
  let n := c.toNat
  (0x9 ≤ n && n ≤ 0xD) || (0x1C ≤ n && n ≤ 0x20) || n = 0x85 || n = 0xA0 || n = 0x1680 ||
    (0x2000 ≤ n && n ≤ 0x200A) || n = 0x2028 || n = 0x2029 || n = 0x202F || n = 0x205F ||
    n = 0x3000

def isLineEnd (c : Char) : Bool :=
  let n := c.toNat
  (0xA ≤ n && n ≤ 0xD) || (0x1C ≤ n && n ≤ 0x1E) || n = 0x85 || n = 0x2028 || n = 0x2029

def dropEnd (p : Char → Bool) (cs : List Char) : List Char :=
  (cs.reverse.dropWhile p).reverse

def trimBy (p : Char → Bool) (cs : List Char) : List Char :=
  dropEnd p (cs.dropWhile p)

def trim (s : String) : String := String.ofList (trimBy isBlank s.toList)

/-- The lines of a text, the line read so far given in reverse; a text that
ends with a boundary has no empty last line. -/
def linesFrom : List Char → List Char → List (List Char)
  | line, [] => if line.isEmpty then [] else [line.reverse]
  | line, '\r' :: '\n' :: r => line.reverse :: linesFrom [] r
  | line, c :: r =>
    if isLineEnd c then line.reverse :: linesFrom [] r else linesFrom (c :: line) r

def lines (s : String) : List String := (linesFrom [] s.toList).map String.ofList

end Retype.Blank

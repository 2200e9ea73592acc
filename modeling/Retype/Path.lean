import Retype.Text.Affix
import Retype.Text.Blank

/-!
# Paths

Slash-separated paths as text. A path is absolute if it begins with a slash;
exactly two leading slashes are kept as two, any other number becomes one. No
operation here looks at a file system: `..` cancels the segment before it
whether or not that segment is a link.
-/

set_option autoImplicit false

namespace Retype.Path

/-- The segments between slashes: never empty, and a slash at either end gives
an empty segment there. -/
def segmentsOf : List Char → List (List Char)
  | [] => [[]]
  | c :: r =>
    if c = '/' then [] :: segmentsOf r
    else match segmentsOf r with
      | [] => [[c]]
      | s :: ss => (c :: s) :: ss

def joinSegments : List (List Char) → List Char
  | [] => []
  | [s] => s
  | s :: ss => s ++ '/' :: joinSegments ss

def segments (p : String) : List String := (segmentsOf p.toList).map String.ofList

def isAbsolute (p : String) : Bool := p.toList.head? = some '/'

/-- The slashes that a normal form keeps at the front. -/
def leadOf (p : List Char) : List Char :=
  match p with
  | '/' :: '/' :: '/' :: _ => ['/']
  | '/' :: '/' :: _ => ['/', '/']
  | '/' :: _ => ['/']
  | _ => []

def climb (absolute : Bool) (done : List (List Char)) (s : List Char) : List (List Char) :=
  if s = [] ∨ s = ['.'] then done
  else if s ≠ ['.', '.'] then s :: done
  else match done with
    | [] => if absolute then [] else [s]
    | d :: rest => if d = ['.', '.'] then s :: done else rest

def climbAll (absolute : Bool) (ss : List (List Char)) : List (List Char) :=
  (ss.foldl (climb absolute) []).reverse

def normalOf (p : List Char) : List Char :=
  let body := joinSegments (climbAll (!(leadOf p).isEmpty) (segmentsOf p))
  if leadOf p ++ body = [] then ['.'] else leadOf p ++ body

/-- No empty and no `.` segments, and `..` only where nothing is left to cancel. -/
def normal (p : String) : String := String.ofList (normalOf p.toList)

/-- An absolute second part replaces the first. -/
def join (a b : String) : String :=
  if isAbsolute b then b
  else if a.isEmpty || a.toList.getLast? = some '/' then a ++ b
  else a ++ "/" ++ b

def cut (p : List Char) : List Char × List Char :=
  let base := (p.reverse.takeWhile (· ≠ '/')).reverse
  (p.take (p.length - base.length), base)

def base (p : String) : String := String.ofList (cut p.toList).2

/-- The path without its last segment; a folder that is all slashes keeps them. -/
def folder (p : String) : String :=
  let head := (cut p.toList).1
  if head.all (· = '/') then String.ofList head
  else String.ofList (Blank.dropEnd (· = '/') head)

/-- Cuts a file name before its last dot; leading dots belong to the name. -/
def cutExtension (name : List Char) : List Char × List Char :=
  let dots := name.takeWhile (· = '.')
  let rest := name.dropWhile (· = '.')
  let ext := (rest.reverse.takeWhile (· ≠ '.')).reverse
  if ext.length = rest.length then (name, [])
  else (dots ++ rest.take (rest.length - ext.length - 1), '.' :: ext)

def splitExtension (p : String) : String × String :=
  let (head, name) := cut p.toList
  let (stem, ext) := cutExtension name
  (String.ofList (head ++ stem), String.ofList ext)

def stem (p : String) : String := (splitExtension p).1

def extension (p : String) : String := (splitExtension p).2

/-- The segments of the absolute form of a path, read from the directory whose
segments are given. -/
def absoluteSegments (here : List (List Char)) (p : List Char) : List (List Char) :=
  climbAll true (if p.head? = some '/' then segmentsOf p else here ++ segmentsOf p)

def stripCommon : List (List Char) → List (List Char) → List (List Char) × List (List Char)
  | a :: as, b :: bs => if a = b then stripCommon as bs else (a :: as, b :: bs)
  | as, bs => (as, bs)

/-- The way from the folder `start` to `target`, both read from the directory `here`. -/
def relativeOf (here : List (List Char)) (target start : List Char) : List Char :=
  let (down, up) := stripCommon (absoluteSegments here target) (absoluteSegments here start)
  let way := up.map (fun _ => ['.', '.']) ++ down
  if way = [] then ['.'] else joinSegments way

def relative (here : List String) (target start : String) : String :=
  String.ofList (relativeOf (here.map String.toList) target.toList start.toList)

def escapes (p : String) : Bool := p = ".." || Affix.begins "../" p

end Retype.Path

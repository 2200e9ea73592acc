import Retype.Keyed
import Retype.Project.Trouble
import Retype.Run.Checkpoint

/-!
# Progress through a batch

The outcomes committed so far, by index. Everything else is read off them: the
indices still pending, how many are completed, and which comes next. A
checkpoint is made of the progress, and progress is taken up again from a
checkpoint, whose outcomes count only if their indices lie within the batch.
-/

set_option autoImplicit false

namespace Retype

/-- Something that ends the work on an item or on a whole run: its kind and its text. -/
structure Mishap where
  kind : String
  text : String
  interrupts : Bool := false
  deriving DecidableEq, Repr, Inhabited

namespace Mishap

def ofTrouble (t : Trouble) : Mishap := { kind := t.kind, text := t.message }

/-- The text, or the kind of a mishap without text. -/
def shown (m : Mishap) : String := if m.text.isEmpty then m.kind else m.text

def described (m : Mishap) : String := if m.text.isEmpty then m.kind else m.kind ++ ": " ++ m.text

end Mishap

structure Progress where
  batch : Int
  count : Int
  results : List (Int × Outcome) := []
  current : Int := 0
  deriving Repr, Inhabited

namespace Progress

def completed (p : Progress) : Nat := p.results.length

def pending (p : Progress) : List Int :=
  ((List.range p.count.toNat).map Int.ofNat).filter fun i => !Keyed.has i p.results

/-- The first index without an outcome among so many from one on; past the end if there
is none. -/
def nextFrom (p : Progress) (i : Nat) : Nat → Int
  | 0 => p.count
  | n + 1 => if Keyed.has (i : Int) p.results then p.nextFrom (i + 1) n else i

def next (p : Progress) : Int := p.nextFrom 0 p.count.toNat

def commit (p : Progress) (o : Outcome) : Progress :=
  { p with results := Keyed.put o.index o p.results, current := o.index }

def ordered (p : Progress) : List Outcome :=
  (p.results.mergeSort fun a b => a.1 ≤ b.1).map (·.2)

def ofCheckpoint (c : Checkpoint) (count : Int) : Progress :=
  { batch := c.batch
    count := count
    results := Keyed.ofList
      ((c.results.filter fun o => 0 ≤ o.index && o.index < count).map fun o => (o.index, o))
    current := c.current }

def checkpoint (p : Progress) (error : Json) (timestamp : String) : Checkpoint :=
  { batch := p.batch
    count := p.count
    completed := p.completed
    current := p.current
    next := p.next
    results := p.ordered
    error := error
    timestamp := .str timestamp }

def faultCheckpoint (p : Progress) (m : Mishap) (timestamp : String) : Checkpoint :=
  p.checkpoint (.str m.described) timestamp

end Progress

end Retype

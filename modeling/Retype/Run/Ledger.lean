import Retype.Run.Column
import Retype.Run.Progress

/-!
# The ledger of runs

Three tables that outlive a run: notes, one row for each batch that has a
checkpoint, and one row for each outcome, by batch and index. Saving a
checkpoint changes its batch's row and the rows of the outcomes that it carries,
and no others; either all of it is saved or nothing. Whole numbers have to fit
into 32 bits, and names and times have to be there.
-/

set_option autoImplicit false

namespace Retype

/-- A batch's row: the counters of its checkpoint, its error and its time. -/
structure LedgerHead where
  count : Int
  completed : Int
  current : Int
  next : Int
  error : Json
  savedAt : Json
  deriving Repr, Inhabited

structure Ledger where
  notes : List (String × Json) := []
  heads : List (Int × LedgerHead) := []
  rows : List ((Int × Int) × Outcome) := []
  deriving Repr, Inhabited

namespace Ledger

/-- A whole number as a number column holds it: of four octets, with a sign. -/
def number? (n : Int) : Option Int := if -0x80000000 ≤ n && n < 0x80000000 then some n else none

def head? (c : Checkpoint) : Option LedgerHead := do
  return ⟨← number? c.count, ← number? c.completed, ← number? c.current, ← number? c.next,
    Column.cell c.error, ← Column.filledCell? c.timestamp⟩

def row? (o : Outcome) : Option Outcome := do
  return { o with
    index := ← number? o.index
    name := ← Column.filledCell? o.name
    reason := Column.cell o.reason
    error := Column.cell o.error
    stage := Column.cell o.stage
    duration := ← number? o.duration
    target := Column.cell o.target }

/-- Saves a checkpoint; none if a value does not fit its column. -/
def save (l : Ledger) (c : Checkpoint) : Option Ledger := do
  let batch ← number? c.batch
  let head ← head? c
  let rows ← c.results.mapM row?
  return { l with
    heads := Keyed.put batch head l.heads
    rows := rows.foldl (fun rows o => Keyed.put (batch, o.index) o rows) l.rows }

def outcomes (l : Ledger) (batch : Int) : List Outcome :=
  (((l.rows.filter fun r => r.1.1 == batch).mergeSort fun a b => a.1.2 ≤ b.1.2)).map (·.2)

def load (l : Ledger) (batch : Int) : Option Checkpoint :=
  (Keyed.get? batch l.heads).map fun h =>
    { batch := batch
      count := h.count
      completed := h.completed
      current := h.current
      next := h.next
      results := l.outcomes batch
      error := h.error
      timestamp := h.savedAt }

def clear (l : Ledger) (batch : Int) : Ledger :=
  { l with
    heads := l.heads.filter fun h => h.1 != batch
    rows := l.rows.filter fun r => r.1.1 != batch }

def batches (l : Ledger) : List Int := (l.heads.map (·.1)).mergeSort (· ≤ ·)

def succeeded (l : Ledger) : Nat := (l.rows.filter fun r => r.2.succeeded).length

def skipped (l : Ledger) : Nat := (l.rows.filter fun r => r.2.skipped).length

/-- The outcomes without success, whether they were skipped or not. -/
def unsuccessful (l : Ledger) : Nat := (l.rows.filter fun r => !r.2.success).length

def note (l : Ledger) (key : String) (v : Json) : Ledger :=
  { l with notes := Keyed.put key (Column.cell v) l.notes }

end Ledger

end Retype

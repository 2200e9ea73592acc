import Retype.Json.Comparison
import Retype.Json.Conversion

/-!
# Memory under watch

Before each item memory is sampled. Above the high mark unused memory is
collected and a second sample taken; if that is still above the critical mark,
the run rests, collects and samples once more. A budget that is not positive is
never exceeded, and nothing is sampled for it. The marks are values as they are
written, and each is looked at when it is reached.
-/

set_option autoImplicit false

namespace Retype

/-- A budget in octets, the marks in hundredths of it, and how long to rest. -/
structure MemoryLimits where
  budget : Json
  high : Json := .float 85.0
  critical : Json := .float 90.0
  rest : Json := .float 5.0
  deriving Repr, Inhabited

inductive MemoryEvent where
  | sample (octets : Json)
  | collect
  | rest (seconds : Json)
  deriving Repr, Inhabited

namespace MemoryLimits

/-- The octets of a budget in megabytes. A text or a list grows longer by this,
and only its comparison fails. -/
def octetsOf : Json → Except Fault Json
  | .int n => .ok (.int (n * 0x100000))
  | .bool b => .ok (.int (if b then 0x100000 else 0))
  | .float x => .ok (.float (x * 1024 * 1024))
  | .str s => .ok (.str s)
  | .arr items => .ok (.arr items)
  | v => .error (.noProduct v.form .int)

def ofMegabytes (megabytes high critical rest : Json) : Except Fault MemoryLimits := do
  return ⟨← octetsOf megabytes, high, critical, rest⟩

def percent (m : MemoryLimits) (sample : Json) : Except Fault Float := do
  let used ← sample.numberOr (.noProduct .float sample.form)
  return 100.0 * used / (← m.budget.numberOr .tooLarge)

end MemoryLimits

structure MemoryCheck where
  events : List MemoryEvent := []
  samples : List Json
  deriving Repr, Inhabited

inductive MemoryFailure where
  | exhausted
  | fault (f : Fault)
  deriving DecidableEq, Repr, Inhabited

/-- Checks go on from what has happened so far; what happened before a failure stays. -/
abbrev Watch := ExceptT MemoryFailure (StateM MemoryCheck)

namespace Watch

def lift {α : Type} : Except Fault α → Watch α
  | .ok a => pure a
  | .error f => throw (.fault f)

def note (e : MemoryEvent) : Watch Unit := modify fun k => { k with events := k.events ++ [e] }

/-- Takes a sample. -/
def sample : Watch Json := do
  match (← get).samples with
  | [] => throw .exhausted
  | s :: rest =>
    modify fun k => { k with samples := rest }
    note (.sample s)
    return s

def measure (m : MemoryLimits) : Watch Float := do
  if ← lift (Json.holds .atMost m.budget (.int 0)) then return 0.0
  else lift (m.percent (← sample))

/-- One check, which ends with the last percentage. -/
def check (m : MemoryLimits) : Watch Float := do
  let first ← measure m
  if ← lift (Json.holds .atMost (.float first) m.high) then return first
  note .collect
  let second ← measure m
  if ← lift (Json.holds .greater (.float second) m.critical) then
    note (.rest m.rest)
    note .collect
    measure m
  else return second

def fault? (m : MemoryLimits) (octets : Json) : Option Fault :=
  match ((check m).run { samples := List.replicate 3 octets }).1 with
  | .error (.fault f) => some f
  | _ => none

end Watch

namespace MemoryCheck

def collections (events : List MemoryEvent) : Nat := if events.any (· matches .collect) then 1 else 0

def rests (events : List MemoryEvent) : Nat := if events.any (· matches .rest _) then 1 else 0

end MemoryCheck

end Retype

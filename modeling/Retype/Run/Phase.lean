/-!
# Phases of a run

A run is planned, then executed, and ends completed or paused; from both ends
it can be planned again, and a paused run can also be taken up at once.
-/

set_option autoImplicit false

namespace Retype

inductive Phase where
  | idle
  | planning
  | executing
  | completed
  | paused
  deriving DecidableEq, Repr, Inhabited

namespace Phase

def text : Phase → String
  | idle => "idle"
  | planning => "planning"
  | executing => "executing"
  | completed => "completed"
  | paused => "paused"

def all : List Phase := [idle, planning, executing, completed, paused]

def successors : Phase → List Phase
  | idle => [planning]
  | planning => [executing]
  | executing => [completed, paused]
  | paused => [executing, planning]
  | completed => [planning]

end Phase

structure PhaseError where
  here : Phase
  wanted : Phase
  deriving DecidableEq, Repr, Inhabited

def PhaseError.message (e : PhaseError) : String :=
  "Invalid run state transition " ++ e.here.text ++ " → " ++ e.wanted.text

def Phase.enter (here wanted : Phase) : Except PhaseError Phase :=
  if here.successors.contains wanted then .ok wanted else .error ⟨here, wanted⟩

end Retype

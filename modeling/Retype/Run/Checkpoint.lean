import Retype.Run.Outcome

/-!
# Checkpoints

What is known of a batch at one moment: its outcomes so far, the counters that
follow from them, and the error that stopped the run, if one did.
-/

set_option autoImplicit false

namespace Retype

structure Checkpoint where
  batch : Int
  count : Int
  completed : Int
  current : Int
  next : Int
  results : List Outcome := []
  error : Json := .null
  timestamp : Json := .str ""
  deriving Repr, Inhabited

namespace Checkpoint

def toJson (c : Checkpoint) : Json :=
  .obj ([("batchId", .int c.batch), ("timestamp", c.timestamp), ("componentCount", .int c.count),
      ("completedCount", .int c.completed), ("currentIndex", .int c.current),
      ("nextIndex", .int c.next), ("results", .arr (c.results.map Outcome.toJson))] ++
    Outcome.telling "error" c.error)

def ofJson (v : Json) : Except Fault Checkpoint := do
  return {
    batch := ← (← v.need "batchId").toInt
    count := ← (← v.getD "componentCount" (.int 0)).toInt
    completed := ← (← v.getD "completedCount" (.int 0)).toInt
    current := ← (← v.getD "currentIndex" (.int 0)).toInt
    next := ← (← v.getD "nextIndex" (.int 0)).toInt
    results := ← (← (← v.getD "results" (.arr [])).each).mapM Outcome.ofJson
    error := ← v.getD "error" .null
    timestamp := ← v.getD "timestamp" (.str "") }

end Checkpoint

end Retype

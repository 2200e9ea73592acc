import Retype.Json.Conversion

/-!
# Outcomes of items

What came of migrating one item of a batch: it succeeded, was skipped for a
reason, or failed at a stage with an error. Outcomes are kept in files between
runs, and a text in them is whatever the file holds; nothing stands for `null`
and for every value that says nothing.
-/

set_option autoImplicit false

namespace Retype

/-- The stages that an item goes through. -/
inductive Stage where
  | load
  | analyze
  | synthesize
  | transform
  | write
  | verify
  deriving DecidableEq, Repr, Inhabited

def Stage.text : Stage → String
  | load => "load"
  | analyze => "analyze"
  | synthesize => "synthesize"
  | transform => "transform"
  | write => "write"
  | verify => "verify"

structure Outcome where
  index : Int
  name : Json
  success : Bool
  skipped : Bool := false
  reason : Json := .null
  error : Json := .null
  stage : Json := .null
  warnings : List Json := []
  duration : Int := 0
  target : Json := .null
  dryRun : Bool := false
  deriving Repr, Inhabited

namespace Outcome

def succeeded (o : Outcome) : Bool := o.success && !o.skipped

def failed (o : Outcome) : Bool := !o.success && !o.skipped

def telling (key : String) (v : Json) : List (String × Json) := if v.truth then [(key, v)] else []

def toJson (o : Outcome) : Json :=
  .obj ([("index", .int o.index), ("name", o.name), ("success", .bool o.success),
      ("duration_ms", .int o.duration)] ++
    telling "skipped" (.bool o.skipped) ++ telling "reason" o.reason ++ telling "error" o.error ++
    telling "stage" o.stage ++ telling "warnings" (.arr o.warnings) ++
    telling "targetPath" o.target ++ telling "dryRun" (.bool o.dryRun))

def ofJson (v : Json) : Except Fault Outcome := do
  return {
    index := ← (← v.need "index").toInt
    name := ← v.need "name"
    success := (← v.need "success").truth
    skipped := (← v.getD "skipped" (.bool false)).truth
    reason := ← v.getD "reason" .null
    error := ← v.getD "error" .null
    stage := ← v.getD "stage" .null
    warnings := ← (← v.getD "warnings" (.arr [])).each
    duration := ← (← v.getD "duration_ms" (.int 0)).toInt
    target := ← v.getD "targetPath" .null
    dryRun := (← v.getD "dryRun" (.bool false)).truth }

end Outcome

end Retype

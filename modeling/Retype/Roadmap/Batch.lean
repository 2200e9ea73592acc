import Retype.Corpus.Batches
import Retype.Json.Conversion
import Retype.Json.Literal

/-!
# Batches of a roadmap

A roadmap is a list of batches, and a batch a list of members. Roadmaps are
files that may be edited by hand: of a member nothing but its name and path has
to be there, and every value is kept as it was read. Only where a number is
computed from the members can a value turn out to be of the wrong type.
-/

set_option autoImplicit false

namespace Retype

structure Member where
  name : Json
  path : Json
  complexity : Json
  level : Json
  category : Json
  dependencies : Json
  dependents : Json
  deriving Repr, Inhabited

namespace Member

def ofProfile (p : Profile) : Member :=
  { name := .str p.name
    path := .str p.path
    complexity := .float ((p.complexity.map (·.raw)).getD 0.0)
    level := .str p.tier.text
    category := .str p.category.text
    dependencies := .nat p.dependencies.length
    dependents := .nat p.dependents.length }

def toJson (m : Member) : Json :=
  .obj [("name", m.name), ("path", m.path), ("complexity", m.complexity),
    ("complexityLevel", m.level), ("category", m.category),
    ("dependencyCount", m.dependencies), ("usedByCount", m.dependents)]

def ofJson (v : Json) : Except Fault Member := do
  return {
    name := ← v.need "name"
    path := ← v.need "path"
    complexity := ← v.getD "complexity" (.int 0)
    level := ← v.getD "complexityLevel" (.str "low")
    category := ← v.getD "category" (.str "other")
    dependencies := ← v.getD "dependencyCount" (.int 0)
    dependents := ← v.getD "usedByCount" (.int 0) }

end Member

structure Batch where
  id : Int
  name : Json
  description : Json
  members : List Member
  deriving Repr, Inhabited

namespace Batch

def size (b : Batch) : Nat := b.members.length

/-- Adds a number to a sum; whole numbers stay whole. -/
def add (sum v : Json) : Except Fault Json :=
  match sum, v with
  | .int a, .int b => .ok (.int (a + b))
  | .int a, .bool b => .ok (.int (a + if b then 1 else 0))
  | _, _ => do
    let e := Fault.noSum sum.form v.form
    match v with
    | .float _ | .int _ | .bool _ => return .float ((← sum.numberOr e) + (← v.numberOr e))
    | _ => throw e

def settle (x : Float) : Except Fault Int :=
  match Binary.of? x with
  | some b => .ok b.toNearestInt
  | none => .error (if x.isNaN then .notANumber else .endless)

/-- A sum shared out evenly. A whole sum is divided exactly, and may be larger than any
floating-point number. -/
def share (n : Nat) : Json → Except Fault Float
  | .int sum =>
    let x := Decimal.quotient sum n
    if (Binary.of? x).isSome then .ok x else .error .tooLarge
  | sum => do return (← sum.numberOr .tooLarge) / Float.ofNat n

def average (b : Batch) : Except Fault Int :=
  if b.members.isEmpty then .ok 0
  else do settle (← share b.size (← (b.members.map (·.complexity)).foldlM add (.int 0)))

/-- A tenth of an hour for each member and each point of its average complexity. -/
def effort (b : Batch) : Except Fault Float := do
  let points := (b.size : Int) * (← b.average)
  let x := Decimal.toFloat (points < 0) points.natAbs (-1)
  if (Binary.of? x).isSome then return x else throw .tooLarge

def toJson (b : Batch) : Except Fault Json := do
  return .obj [("id", .int b.id), ("name", b.name), ("description", b.description),
    ("componentCount", .nat b.size), ("averageComplexity", .int (← b.average)),
    ("estimatedEffort", .float (← b.effort)), ("components", .arr (b.members.map Member.toJson))]

def ofJson (v : Json) : Except Fault Batch := do
  let written ← v.need "id"
  return {
    id := ← written.toInt
    name := ← v.getD "name" (.str ("Batch " ++ written.shown))
    description := ← v.getD "description" (.str "")
    members := ← (← (← v.getD "components" (.arr [])).each).mapM Member.ofJson }

/-- The names and descriptions of the batches of a plan, in order. -/
def titles : List (String × String) :=
  [("Batch 1: Base Components", "Foundation components with minimum dependencies"),
   ("Batch 2: UI Components", "Common UI elements and utilities"),
   ("Batch 3: Form and Layout Components", "Form handling and page layout components"),
   ("Batch 4: Feature Components (Medium)", "Feature components of moderate complexity"),
   ("Batch 5: Complex Feature Components", "Complex feature components with many dependencies"),
   ("Batch 6: Remaining Components", "Everything not covered by an earlier batch")]

def plan (profiles : List Profile) : List Batch :=
  (titles.zip (Batches.ofProfiles profiles)).zipIdx.map fun (((name, description), group), i) =>
    { id := i + 1
      name := .str name
      description := .str description
      members := group.map Member.ofProfile }

end Batch

end Retype

import Retype.Corpus.Links
import Retype.Corpus.Threshold

/-!
# The import graph

The corpus files with their tiers, and an arrow from each file to each corpus
file that it imports. From the graph come the dependencies, dependents and
usage of a file, and the import cycles.
-/

set_option autoImplicit false

namespace Retype

structure Graph where
  tiers : List (String × Tier)
  arrows : List (String × String)
  deriving DecidableEq, Repr, Inhabited

namespace Graph

def arrowsOf (links : List Link) : List (String × String) :=
  Order.distinct ((links.filter (·.internal)).map fun l => (l.source, l.target))

/-- The graph of the profiles and of whatever their links join; of two profiles with one
path the later gives the tier, and a file without a profile has the lowest. -/
def ofLinks (profiles : List Profile) (links : List Link) : Graph :=
  let arrows := arrowsOf links
  let ends := arrows.flatMap fun a => [a.1, a.2]
  ⟨Keyed.ofList (ends.map (·, .low) ++ profiles.map fun p => (p.path, p.tier)), arrows⟩

def files (g : Graph) : List String := g.tiers.map (·.1)

def dependencies (g : Graph) (path : String) : List String :=
  Order.sortTexts ((g.arrows.filter fun a => a.1 == path).map (·.2))

def dependents (g : Graph) (path : String) : List String :=
  Order.sortTexts ((g.arrows.filter fun a => a.2 == path).map (·.1))

/-! ## Usage -/

/-- How many halves a dependent of a tier adds to the weight of what it imports. -/
def halvesOf : Tier → Nat
  | .low => 2
  | .medium => 3
  | .high => 4
  | .veryHigh => 4

def tierOf (g : Graph) (path : String) : Tier := (Keyed.get? path g.tiers).getD .low

def usage (g : Graph) (t : Threshold) (path : String) : Usage :=
  let users := g.dependents path
  let halves := users.foldr (fun d n => halvesOf (g.tierOf d) + n) 0
  ⟨users.length, halves, t.direct.reached users.length || t.halves.reached halves⟩

def place (g : Graph) (t : Threshold) (p : Profile) : Profile :=
  { p with
    dependencies := g.dependencies p.path
    dependents := g.dependents p.path
    usage := some (g.usage t p.path) }

/-! ## Cycles -/

/-- What can be reached from pending files through files not yet taken. Each
step takes one file away from those that remain. -/
def gather (g : Graph) (remaining pending : List String) : List String :=
  match _h : pending.find? remaining.contains with
  | none => []
  | some p => p :: gather g (remaining.erase p) (g.dependencies p ++ pending)
termination_by remaining.length
decreasing_by
  have mem : p ∈ remaining := by simpa using List.find?_some _h
  have len := List.length_erase_of_mem mem
  have pos := List.length_pos_of_mem mem
  omega

def reachable (g : Graph) (path : String) : List String := g.gather g.files (g.dependencies path)

def reach (g : Graph) : List (String × List String) := g.files.map fun p => (p, g.reachable p)

def reaches (reach : List (String × List String)) (p q : String) : Bool :=
  ((Keyed.get? p reach).getD []).contains q

/-- The files that a file reaches and that reach it, sorted. -/
def knot (g : Graph) (reach : List (String × List String)) (p : String) : List String :=
  Order.sortTexts (g.files.filter fun q => reaches reach p q && reaches reach q p)

/-- The import cycles: each group of two or more files that all reach one
another, and each file that imports itself. -/
def cycles (g : Graph) : List (List String) :=
  let reach := g.reach
  let knots := (Order.distinct (g.files.map (g.knot reach))).filter fun k => 2 ≤ k.length
  let loops := g.files.filter fun p => g.arrows.contains (p, p)
  Order.sortLists (knots ++ loops.map ([·]))

end Graph

end Retype

import Retype.Corpus.Batches
import Retype.Text.Blank

/-!
# The relationship report

A text with a table of the profiles for each category and tier, a drawing of
the graph with one node for each profile, and the cycles among the files.
-/

set_option autoImplicit false

namespace Retype

def Tier.label : Tier → String
  | low => "Low"
  | medium => "Medium"
  | high => "High"
  | veryHigh => "Very High"

def Category.title : Category → String
  | layout => "Layout"
  | ui => "Ui"
  | form => "Form"
  | feature => "Feature"
  | page => "Page"
  | utility => "Utility"
  | other => "Other"

def Priority.marker : Priority → String
  | highest => "🔴"
  | high => "🟠"
  | medium => "🟡"
  | low => "🟢"
  | migrated => "✅"

namespace Report

/-- The name that each path has; of two profiles with one path the later counts. -/
def names (profiles : List Profile) : List (String × String) :=
  Keyed.ofList (profiles.map fun p => (p.path, p.name))

def nameOf (names : List (String × String)) (path : String) : String :=
  (Keyed.get? path names).getD path

def listed (names : List (String × String)) (paths : List String) : String :=
  let text := String.intercalate ", " (paths.map (nameOf names))
  if text.isEmpty then "-" else text

/-! ## Tables -/

def row (names : List (String × String)) (p : Profile) : String :=
  "| " ++ p.name ++ " | " ++ listed names p.dependencies ++ " | " ++ listed names p.dependents ++
    " | " ++ (p.priority.map (·.text)).getD "-" ++ " |"

def nameBefore (p q : Profile) : Bool := if p.name = q.name then p.path ≤ q.path else p.name < q.name

def table (names : List (String × String)) (members : List Profile) (t : Tier) : List String :=
  match (members.filter fun p => p.tier = t).mergeSort nameBefore with
  | [] => []
  | ps =>
    ["### " ++ t.label ++ " Complexity", "",
     "| Component | Dependencies | Used By | Migration Priority |", "|---|---|---|---|"] ++
      ps.map (row names) ++ [""]

def chapter (profiles : List Profile) (c : Category) : List String :=
  match profiles.filter fun p => p.category = c with
  | [] => []
  | members =>
    ["## " ++ c.title ++ " Components", ""] ++ Tier.all.flatMap (table (names profiles) members)

/-! ## The drawing -/

/-- The node that stands for each path; of two profiles with one path the later counts. -/
def nodes (profiles : List Profile) : List (String × String) :=
  Keyed.ofList (profiles.zipIdx.map fun (p, i) => (p.path, "C" ++ toString i))

def nodeOf (nodes : List (String × String)) (path : String) : String :=
  (Keyed.get? path nodes).getD ""

def label (p : Profile) : String :=
  Affix.exchange '"' '\'' (Blank.trim ((p.priority.map (·.marker)).getD "" ++ " " ++ p.name))

def nodeLine (nodes : List (String × String)) (p : Profile) : String :=
  "  " ++ nodeOf nodes p.path ++ "[\"" ++ label p ++ "\"]"

def arrowLines (nodes : List (String × String)) (p : Profile) : List String :=
  p.dependencies.filterMap fun d =>
    (Keyed.get? d nodes).map fun goal => "  " ++ nodeOf nodes p.path ++ " --> " ++ goal

def legend : String :=
  "Legend: " ++ String.intercalate "  "
    ([Priority.highest, .high, .medium, .low, .migrated].map fun q => q.marker ++ " " ++ q.text)

def drawing (profiles : List Profile) : List String :=
  let ids := nodes profiles
  ["## Dependency Graph", "", "```mermaid", "graph TD"] ++ profiles.map (nodeLine ids) ++
    profiles.flatMap (arrowLines ids) ++ ["```", "", legend, ""]

/-! ## The whole -/

def cycleChapter (names : List (String × String)) : List (List String) → List String
  | [] => []
  | cycles =>
    ["## Import Cycles", ""] ++
      cycles.map (fun c => "- " ++ String.intercalate " ↔ " (c.map (nameOf names))) ++ [""]

def lines (profiles : List Profile) (cycles : List (List String)) : List String :=
  ["# Component Relationships", "", toString profiles.length ++ " components analyzed.", ""] ++
    Category.all.flatMap (chapter profiles) ++ drawing profiles ++
    cycleChapter (names profiles) cycles

def text (profiles : List Profile) (cycles : List (List String)) : String :=
  String.intercalate "\n" (lines profiles cycles)

end Report

end Retype

import Mathlib.Data.List.Nodup
import Mathlib.Data.List.Pairwise
import Retype.Proofs.Project.Writing
import Retype.Proofs.Run.Foresight

/-!
# Where the items of a batch are written

What is going to be written for an item is settled when a batch is begun: its outputs,
which of them are not there yet, and how far their writing gets. A batch is orderly if
the items then keep out of each other's way, and out of the way of their sources.
-/

set_option autoImplicit false

namespace Retype

def Batch.pathOf? (b : Batch) (n : Nat) : Option String :=
  b.members[n]?.bind fun m => m.path.step.toOption

namespace Conditions

open Workspace

variable (c : Conditions) (b : Batch) (v : Workspace)

/-! ## What is going to be written -/

/-- What is prepared for an item that gets as far as writing. -/
def intended? (n : Nat) : Option Retyped :=
  (b.pathOf? n).bind fun path => match c.prepare v path, c.enter .write path with
    | .ok (.ready t), .ok () => some t
    | _, _ => none

def outputsOf (n : Nat) : List (String × String) :=
  ((c.intended? b v n).map c.config.outputs).getD []

/-- The outputs that are not there and are to be. -/
def planned (n : Nat) : List (String × String) :=
  match v.standing (c.outputsOf b v n) with
  | .ok seen => if refuses c.options.force seen then [] else changed seen
  | .error _ => []

/-- The outputs that come to be there, up to the first that cannot be written. -/
def reached (n : Nat) : List (String × String) :=
  (c.planned b v n).takeWhile fun x => (v.wholeError? x.1).isNone

/-! ## Where it is written -/

def spots (n : Nat) : List String :=
  (c.outputsOf b v n).flatMap fun x => [Path.normal x.1, Path.normal (draftOf x.1)]

def ways (n : Nat) : List String :=
  (c.outputsOf b v n).flatMap fun x => (foldersAbove x.1).map Path.normal

def sourceWay (n : Nat) : List String :=
  match b.pathOf? n with
  | none => []
  | some path => (foldersAbove (c.config.place path) ++ [c.config.place path]).map Path.normal

/-- The places that matter for what comes of a batch. -/
def Matters (k : String) : Prop :=
  ∃ n, k ∈ c.spots b v n ∨ k ∈ c.ways b v n ∨ k ∈ c.sourceWay b n

/-- A batch whose items keep out of each other's way, begun in a workspace `v`. -/
structure Orderly : Prop where
  writes : c.options.dryRun = false
  skips : c.options.skipExisting = false
  /-- A file is read with line feeds alone, so other line ends would not be found again. -/
  clean : c.options.force = false → ∀ n, ∀ x ∈ c.outputsOf b v n, '\r' ∉ x.2.toList
  plain : ∀ n, ∀ x ∈ c.outputsOf b v n, Path.Plain x.1
  short : ∀ n, ∀ x ∈ c.outputsOf b v n, Path.Short x.1
  sightly : ∀ n path, b.pathOf? n = some path → c.config.Sightly path
  firm : ∀ n, ∀ x ∈ c.outputsOf b v n, Firm v x.1
  distinct : ∀ n, (c.spots b v n).Nodup
  apart : ∀ n m, n ≠ m → (c.spots b v n).Disjoint (c.spots b v m)
  /-- Nothing is written where the way to an output leads. -/
  aside : ∀ n m, (c.spots b v n).Disjoint (c.ways b v m)
  /-- Nothing is written where the way to a source leads. -/
  safe : ∀ n m, (c.sourceWay b n).Disjoint (c.spots b v m)
  /-- What is missing on the way to a source stays missing. -/
  settled : ∀ n m, ∀ k ∈ c.sourceWay b n, v.entryAt? k = none → k ∉ c.ways b v m

variable {c b v} {n : Nat} {x y : String × String}

theorem outputsOf_beyond (h : b.members[n]? = none) : c.outputsOf b v n = [] := by
  rw [outputsOf, intended?, Batch.pathOf?, h]
  rfl

theorem mem_spots (hx : x ∈ c.outputsOf b v n) : Path.normal x.1 ∈ c.spots b v n :=
  List.mem_flatMap.mpr ⟨x, hx, List.mem_cons_self⟩

theorem draft_mem_spots (hx : x ∈ c.outputsOf b v n) :
    Path.normal (draftOf x.1) ∈ c.spots b v n :=
  List.mem_flatMap.mpr ⟨x, hx, List.mem_cons_of_mem _ List.mem_cons_self⟩

theorem mem_ways (hx : x ∈ c.outputsOf b v n) {dir : String} (hd : dir ∈ foldersAbove x.1) :
    Path.normal dir ∈ c.ways b v n :=
  List.mem_flatMap.mpr ⟨x, hx, List.mem_map_of_mem hd⟩

theorem Orderly.spots_ne (h : c.Orderly b v) (hx : x ∈ c.outputsOf b v n)
    (hy : y ∈ c.outputsOf b v n) (hne : x ≠ y) :
    List.Disjoint [Path.normal x.1, Path.normal (draftOf x.1)]
      [Path.normal y.1, Path.normal (draftOf y.1)] := by
  have hp := (List.nodup_flatMap.mp (h.distinct n)).2
  have : Std.Symm (Function.onFun List.Disjoint fun x : String × String =>
      [Path.normal x.1, Path.normal (draftOf x.1)]) :=
    ⟨fun _ _ h _ ha hb => h hb ha⟩
  exact hp.forall hx hy hne

theorem Orderly.output_inj (h : c.Orderly b v) (hx : x ∈ c.outputsOf b v n)
    (hy : y ∈ c.outputsOf b v n) (he : Path.normal x.1 = Path.normal y.1) : x = y := by
  by_contra hne
  exact h.spots_ne hx hy hne (a := Path.normal x.1) (by simp) (by simp [he])

theorem Orderly.draft_inj (h : c.Orderly b v) (hx : x ∈ c.outputsOf b v n)
    (hy : y ∈ c.outputsOf b v n)
    (he : Path.normal (draftOf x.1) = Path.normal (draftOf y.1)) : x = y := by
  by_contra hne
  exact h.spots_ne hx hy hne (a := Path.normal (draftOf x.1)) (by simp) (by simp [he])

theorem Orderly.draft_ne (h : c.Orderly b v) (hx : x ∈ c.outputsOf b v n)
    (hy : y ∈ c.outputsOf b v n) : Path.normal (draftOf x.1) ≠ Path.normal y.1 := by
  intro he
  by_cases hxy : x = y
  · subst hxy
    have := (List.nodup_flatMap.mp (h.distinct n)).1 x hx
    simp [he] at this
  · exact h.spots_ne hx hy hxy (a := Path.normal (draftOf x.1)) (by simp) (by simp [he])

theorem Orderly.outputs_nodup (h : c.Orderly b v) (n : Nat) : (c.outputsOf b v n).Nodup := by
  have hp := (List.nodup_flatMap.mp (h.distinct n)).2
  refine hp.imp fun hd he => ?_
  subst he
  exact hd (a := Path.normal _) List.mem_cons_self List.mem_cons_self

/-! ## Plans -/

theorem planned_sublist (n : Nat) : (c.planned b v n).Sublist (c.outputsOf b v n) := by
  unfold planned
  split
  · next seen hs =>
    split
    · exact List.nil_sublist _
    · rw [← standing_outputs hs]
      exact List.filter_sublist.map _
  · exact List.nil_sublist _

theorem reached_subset {x : String × String} (h : x ∈ c.reached b v n) :
    x ∈ c.planned b v n ∧ v.wholeError? x.1 = none :=
  ⟨(List.takeWhile_sublist _).subset h, by simpa using List.mem_takeWhile_imp h⟩

theorem planned_subset (h : x ∈ c.planned b v n) : x ∈ c.outputsOf b v n :=
  (planned_sublist n).subset h

theorem Orderly.planned_nodup (h : c.Orderly b v) (n : Nat) : (c.planned b v n).Nodup :=
  (h.outputs_nodup n).sublist (planned_sublist n)

end Conditions

end Retype

import Retype.Module.Markup
import Retype.Proofs.Tree.Nesting

/-!
# Whose return makes a function a component

A function counts for a return of markup that stands in its body or at most one block below
a statement of it. What leads down to the return is blocks, clauses, and that statement. So
the function around the return is the function itself, unless the statement is a function of
its own: then a return of the inner function makes the outer one count.
-/

set_option autoImplicit false

namespace Retype

namespace Node

/-- Functions of any form, methods, classes and their blocks: a return inside of one does not
belong to what is around it. -/
def isScope (n : Node) : Bool :=
  n.isFunction || n.isClass ||
    ["generator_function", "method_definition", "class_static_block"].contains n.kind

/-- Nodes that stand in a body, or at most one block below a statement of it, with what leads
down to them, nearest first. -/
inductive Shallow (body : Node) : List Node → Node → Prop
  | direct {r : Node} (h : r ∈ body.namedChildren) : Shallow body [body] r
  | ofStatement {s r : Node} (hs : s ∈ body.namedChildren) (h : r ∈ s.namedChildren) :
      Shallow body [s, body] r
  | ofBlock {s b r : Node} (hs : s ∈ body.namedChildren) (hb : b ∈ s.namedChildren)
      (block : b.isBlock = true) (h : r ∈ b.namedChildren) : Shallow body [b, s, body] r
  | ofClause {s c r : Node} (hs : s ∈ body.namedChildren) (hc : c ∈ s.namedChildren)
      (clause : c.isClause = true) (h : r ∈ c.namedChildren) : Shallow body [c, s, body] r
  | ofClauseBlock {s c b r : Node} (hs : s ∈ body.namedChildren) (hc : c ∈ s.namedChildren)
      (clause : c.isClause = true) (hb : b ∈ c.namedChildren) (block : b.isBlock = true)
      (h : r ∈ b.namedChildren) : Shallow body [b, c, s, body] r

variable {n body s r : Node}

theorem not_isScope_of_isBlock (h : n.isBlock = true) : n.isScope = false := by
  have hkind : n.kind = "statement_block" := by simpa [isBlock] using h
  simp [isScope, isFunction, isClass, hkind]

theorem kind_of_isClause (h : n.isClause = true) :
    n.kind = "else_clause" ∨ n.kind = "catch_clause" ∨ n.kind = "finally_clause" := by
  simpa [isClause] using h

theorem not_isScope_of_isClause (h : n.isClause = true) : n.isScope = false := by
  rcases kind_of_isClause h with hkind | hkind | hkind <;> simp [isScope, isFunction, isClass, hkind]

/-! ## Statements one block below -/

theorem mem_blockStatements (hr : r.kind = "return_statement") : r ∈ n.blockStatements ↔
    r ∈ n.namedChildren ∨ ∃ b ∈ n.namedChildren, b.isBlock = true ∧ r ∈ b.namedChildren := by
  rw [blockStatements, List.mem_flatMap]
  constructor
  · rintro ⟨c, hc, h⟩
    split at h
    · next hblock => exact Or.inr ⟨c, hc, hblock, h⟩
    · split at h
      · exact Or.inl (List.mem_singleton.mp h ▸ hc)
      · cases h
  · rintro (h | ⟨b, hb, hblock, h⟩)
    · exact ⟨r, h, by simp [isBlock, hr]⟩
    · exact ⟨b, hb, by rwa [if_pos hblock]⟩

theorem mem_innerStatements : r ∈ s.innerStatements ↔
    r ∈ s.blockStatements ∨ ∃ c ∈ s.namedChildren, c.isClause = true ∧ r ∈ c.blockStatements := by
  rw [innerStatements, blockStatements, List.mem_flatMap, List.mem_flatMap]
  constructor
  · rintro ⟨c, hc, h⟩
    split at h
    · next hblock => exact Or.inl ⟨c, hc, by rwa [if_pos hblock]⟩
    next hblock =>
    split at h
    · next hreturn => exact Or.inl ⟨c, hc, by rwa [if_neg hblock, if_pos hreturn]⟩
    · split at h
      · next hclause => exact Or.inr ⟨c, hc, hclause, h⟩
      · cases h
  · rintro (⟨c, hc, h⟩ | ⟨c, hc, hclause, h⟩)
    · refine ⟨c, hc, ?_⟩
      split at h
      · next hblock => rwa [if_pos hblock]
      next hblock =>
      split at h
      · next hreturn => rwa [if_neg hblock, if_pos hreturn]
      · cases h
    · have hkind : c.isBlock = false ∧ (c.kind == "return_statement") = false := by
        rcases kind_of_isClause hclause with hkind | hkind | hkind <;> simp [isBlock, hkind]
      exact ⟨c, hc, by simpa [hkind, hclause] using h⟩

/-- The returns in a body and at most one block below a statement of it are the shallow ones. -/
theorem shallow_iff (hr : r.kind = "return_statement") : (∃ way, Shallow body way r) ↔
    ∃ s ∈ body.namedChildren, r = s ∨ r ∈ s.innerStatements := by
  constructor
  · rintro ⟨way, h⟩
    cases h with
    | direct h => exact ⟨r, h, Or.inl rfl⟩
    | ofStatement hs h =>
      have hin := (mem_blockStatements hr).mpr (Or.inl h)
      exact ⟨_, hs, Or.inr (mem_innerStatements.mpr (Or.inl hin))⟩
    | ofBlock hs hb block h =>
      have hin := (mem_blockStatements hr).mpr (Or.inr ⟨_, hb, block, h⟩)
      exact ⟨_, hs, Or.inr (mem_innerStatements.mpr (Or.inl hin))⟩
    | ofClause hs hc clause h =>
      have hin := (mem_blockStatements hr).mpr (Or.inl h)
      exact ⟨_, hs, Or.inr (mem_innerStatements.mpr (Or.inr ⟨_, hc, clause, hin⟩))⟩
    | ofClauseBlock hs hc clause hb block h =>
      have hin := (mem_blockStatements hr).mpr (Or.inr ⟨_, hb, block, h⟩)
      exact ⟨_, hs, Or.inr (mem_innerStatements.mpr (Or.inr ⟨_, hc, clause, hin⟩))⟩
  · rintro ⟨s, hs, rfl | h⟩
    · exact ⟨_, .direct hs⟩
    rcases mem_innerStatements.mp h with h | ⟨c, hc, clause, h⟩
    · rcases (mem_blockStatements hr).mp h with h | ⟨b, hb, block, h⟩
      · exact ⟨_, .ofStatement hs h⟩
      · exact ⟨_, .ofBlock hs hb block h⟩
    · rcases (mem_blockStatements hr).mp h with h | ⟨b, hb, block, h⟩
      · exact ⟨_, .ofClause hs hc clause h⟩
      · exact ⟨_, .ofClauseBlock hs hc clause hb block h⟩

/-- The nearest function around a shallow node is the one whose body it is in, or a function
that is itself a statement of the body. -/
theorem Shallow.nearest {fn : Node} {way : List Node} (h : Shallow body way r) (hf : fn.isScope = true)
    (hbody : body.isBlock = true) :
    (way ++ [fn]).find? isScope = some fn ∨
      ∃ s ∈ body.namedChildren, s.isScope = true ∧ (way ++ [fn]).find? isScope = some s := by
  have hb := not_isScope_of_isBlock hbody
  have hstatement : ∀ s ∈ body.namedChildren, ∀ below : List Node, (∀ n ∈ below, n.isScope = false) →
      (below ++ ([s, body] ++ [fn])).find? isScope = some fn ∨ ∃ inner ∈ body.namedChildren,
        inner.isScope = true ∧ (below ++ ([s, body] ++ [fn])).find? isScope = some inner := by
    intro s hs below hbelow
    have hnone : below.find? isScope = none := List.find?_eq_none.mpr fun n hn => by simp [hbelow n hn]
    cases hscope : s.isScope with
    | true => exact Or.inr ⟨s, hs, hscope, by simp [List.find?_append, hnone, hscope]⟩
    | false => exact Or.inl (by simp [List.find?_append, hnone, hscope, hb, hf])
  cases h with
  | direct => exact Or.inl (by simp [hb, hf])
  | ofStatement hs => exact hstatement _ hs [] nofun
  | ofBlock hs _ block =>
    exact hstatement _ hs [_] (List.forall_mem_singleton.mpr (not_isScope_of_isBlock block))
  | ofClause hs _ clause =>
    exact hstatement _ hs [_] (List.forall_mem_singleton.mpr (not_isScope_of_isClause clause))
  | ofClauseBlock hs _ clause _ block =>
    refine hstatement _ hs [_, _] (List.forall_mem_cons.mpr ⟨not_isScope_of_isBlock block, ?_⟩)
    exact List.forall_mem_singleton.mpr (not_isScope_of_isClause clause)

/-- What leads down to a shallow node is what stands above it. -/
theorem Shallow.met {fn : Node} {way : List Node} (h : Shallow body way r) (hbody : body ∈ fn.children) :
    ⟨r, way ++ [fn]⟩ ∈ fn.visits [] := by
  have hb := child_mem_visits (self_mem_visits [] fn) hbody
  have below : ∀ {c d : Node} {above : List Node}, ⟨c, above⟩ ∈ fn.visits [] → d ∈ c.namedChildren →
      ⟨d, c :: above⟩ ∈ fn.visits [] := fun hc hd => child_mem_visits hc (mem_children_of_named hd)
  cases h with
  | direct h => exact below hb h
  | ofStatement hs h => exact below (below hb hs) h
  | ofBlock hs hb' _ h => exact below (below (below hb hs) hb') h
  | ofClause hs hc _ h => exact below (below (below hb hs) hc) h
  | ofClauseBlock hs hc _ hb' _ h => exact below (below (below (below hb hs) hc) hb') h

end Node

namespace Source

open Node (Shallow isScope)

variable (src : Source) {fn body r : Node}

/-- A return of markup that is shallow in the body of a function, and the function, method or
class that is nearest around it. -/
structure ReturnsFor (fn body owner : Node) (v : Node.Visit) : Prop where
  markup : src.isMarkupReturn v.node = true
  met : v ∈ fn.visits []
  shallow : ∃ way, Shallow body way v.node ∧ v.ancestors = way ++ [fn]
  nearest : v.ancestors.find? isScope = some owner

theorem kind_of_isMarkupReturn (h : src.isMarkupReturn r = true) : r.kind = "return_statement" := by
  rw [isMarkupReturn, Bool.and_eq_true, beq_iff_eq] at h
  exact h.1

theorem returnsMarkup_iff (hbody : fn.child? "body" = some body) (hblock : body.isBlock = true) :
    src.returnsMarkup fn = true ↔ ∃ r, src.isMarkupReturn r = true ∧ ∃ way, Shallow body way r := by
  simp only [returnsMarkup, hbody, hblock, if_true, List.any_eq_true, Bool.or_eq_true]
  constructor
  · rintro ⟨s, hs, h | ⟨r, hr, h⟩⟩
    · exact ⟨s, h, (Node.shallow_iff (src.kind_of_isMarkupReturn h)).mpr ⟨s, hs, Or.inl rfl⟩⟩
    · exact ⟨r, h, (Node.shallow_iff (src.kind_of_isMarkupReturn h)).mpr ⟨s, hs, Or.inr hr⟩⟩
  · rintro ⟨r, h, hway⟩
    obtain ⟨s, hs, rfl | hr⟩ := (Node.shallow_iff (src.kind_of_isMarkupReturn h)).mp hway
    · exact ⟨r, hs, Or.inl h⟩
    · exact ⟨s, hs, Or.inr ⟨r, hr, h⟩⟩

/-- A function, of any form, with a block for its body counts as one that returns markup
exactly for a shallow return of its own, or for one of a function that is a statement of the
body. So it counts for its own returns alone, exactly unless only inner functions have one. -/
theorem returnsMarkup_own (hfn : fn.isScope = true) (hbody : fn.child? "body" = some body)
    (hblock : body.isBlock = true) :
    let Own := ∃ v, src.ReturnsFor fn body fn v
    let Lent := ∃ inner ∈ body.namedChildren, inner.isScope = true ∧ ∃ v, src.ReturnsFor fn body inner v
    (src.returnsMarkup fn = true ↔ Own ∨ Lent) ∧
      ((src.returnsMarkup fn = true → Own) ↔ (Lent → Own)) := by
  intro Own Lent
  have hiff : src.returnsMarkup fn = true ↔ Own ∨ Lent := by
    rw [src.returnsMarkup_iff hbody hblock]
    constructor
    · rintro ⟨r, h, way, hway⟩
      have hmet := hway.met (Node.mem_children_of_child? hbody)
      rcases hway.nearest hfn hblock with hfind | ⟨s, hs, hscope, hfind⟩
      · exact Or.inl ⟨_, h, hmet, ⟨way, hway, rfl⟩, hfind⟩
      · exact Or.inr ⟨s, hs, hscope, _, h, hmet, ⟨way, hway, rfl⟩, hfind⟩
    · rintro (⟨v, h, -, ⟨way, hway, -⟩, -⟩ | ⟨-, -, -, v, h, -, ⟨way, hway, -⟩, -⟩) <;>
        exact ⟨v.node, h, way, hway⟩
  refine ⟨hiff, ?_⟩
  rw [hiff]
  exact ⟨fun h hlent => h (Or.inr hlent), fun h hor => hor.elim id h⟩

/-- `return <b/>;` -/
def returnAt (start : Nat) : Node :=
  ⟨"return_statement", true, start, start + 12, "",
    [⟨"return", false, start, start + 6, "", []⟩,
     ⟨"jsx_self_closing_element", true, start + 7, start + 11, "",
      [⟨"<", false, start + 7, start + 8, "", []⟩, ⟨"identifier", true, start + 8, start + 9, "name", []⟩,
       ⟨"/>", false, start + 9, start + 11, "", []⟩]⟩,
     ⟨";", false, start + 11, start + 12, "", []⟩]⟩

/-- The body of `function Row() { if (ok) { return <b/>; } }`. -/
def branch : Node :=
  ⟨"statement_block", true, 15, 43, "body",
    [⟨"\x7b", false, 15, 16, "", []⟩,
     ⟨"if_statement", true, 17, 41, "",
      [⟨"if", false, 17, 19, "", []⟩,
       ⟨"parenthesized_expression", true, 20, 24, "condition",
        [⟨"(", false, 20, 21, "", []⟩, ⟨"identifier", true, 21, 23, "", []⟩, ⟨")", false, 23, 24, "", []⟩]⟩,
       ⟨"statement_block", true, 25, 41, "consequence",
        [⟨"\x7b", false, 25, 26, "", []⟩, returnAt 27, ⟨"\x7d", false, 40, 41, "", []⟩]⟩]⟩,
     ⟨"\x7d", false, 42, 43, "", []⟩]⟩

def branching : Node :=
  ⟨"function_declaration", true, 0, 43, "",
    [⟨"function", false, 0, 8, "", []⟩, ⟨"identifier", true, 9, 12, "name", []⟩,
     ⟨"formal_parameters", true, 12, 14, "parameters",
      [⟨"(", false, 12, 13, "", []⟩, ⟨")", false, 13, 14, "", []⟩]⟩, branch]⟩

def branchingText : Source := .ofText "function Row() \x7b if (ok) \x7b return <b/>; \x7d \x7d"

theorem branching_own : ∃ v, branchingText.ReturnsFor branching branch branching v := by
  have hscopes : ∀ inner ∈ branch.namedChildren, inner.isScope = false := by decide
  have hcounts : branchingText.returnsMarkup branching = true := by decide +kernel
  refine (returnsMarkup_own _ (by decide) rfl (by decide)).2.mpr ?_ hcounts
  rintro ⟨inner, hinner, hscope, -⟩
  rw [hscopes inner hinner] at hscope
  cases hscope

/-- The body of `function useRow() { function Row() { return <b/>; } return Row; }`. -/
def handing : Node :=
  ⟨"statement_block", true, 18, 65, "body",
    [⟨"\x7b", false, 18, 19, "", []⟩,
     ⟨"function_declaration", true, 20, 51, "",
      [⟨"function", false, 20, 28, "", []⟩, ⟨"identifier", true, 29, 32, "name", []⟩,
       ⟨"formal_parameters", true, 32, 34, "parameters",
        [⟨"(", false, 32, 33, "", []⟩, ⟨")", false, 33, 34, "", []⟩]⟩,
       ⟨"statement_block", true, 35, 51, "body",
        [⟨"\x7b", false, 35, 36, "", []⟩, returnAt 37, ⟨"\x7d", false, 50, 51, "", []⟩]⟩]⟩,
     ⟨"return_statement", true, 52, 63, "",
      [⟨"return", false, 52, 58, "", []⟩, ⟨"identifier", true, 59, 62, "", []⟩, ⟨";", false, 62, 63, "", []⟩]⟩,
     ⟨"\x7d", false, 64, 65, "", []⟩]⟩

def useRow : Node :=
  ⟨"function_declaration", true, 0, 65, "",
    [⟨"function", false, 0, 8, "", []⟩, ⟨"identifier", true, 9, 15, "name", []⟩,
     ⟨"formal_parameters", true, 15, 17, "parameters",
      [⟨"(", false, 15, 16, "", []⟩, ⟨")", false, 16, 17, "", []⟩]⟩, handing]⟩

def useRowText : Source :=
  .ofText "function useRow() \x7b function Row() \x7b return <b/>; \x7d return Row; \x7d"

/-- A hook that hands out a component counts as one, for the return of that component. -/
theorem useRow_lent :
    useRow.isFunction = true ∧ useRow.child? "body" = some handing ∧ handing.isBlock = true ∧
      useRowText.returnsMarkup useRow = true ∧ ¬ ∃ v, useRowText.ReturnsFor useRow handing useRow v := by
  have hnearest : ∀ v ∈ useRow.visits [], useRowText.isMarkupReturn v.node = true →
      (v.ancestors.find? isScope).map (·.start) = some 20 := by decide +kernel
  refine ⟨by decide, rfl, by decide, by decide +kernel, ?_⟩
  rintro ⟨v, h⟩
  have hstart := hnearest v h.met h.markup
  rw [h.nearest] at hstart
  cases hstart

end Source

end Retype

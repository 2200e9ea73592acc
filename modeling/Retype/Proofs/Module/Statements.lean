import Retype.Module.Declaration
import Retype.Proofs.Tree.Nesting

/-!
# Where declarations stand

The statements of a module are the named children of its root, each with what
stands above it. A declared value stands in its statement, and in an export it
stands under the declaration or the value, never under the source.
-/

set_option autoImplicit false

namespace Retype

namespace Statement

theorem mem_collect {above cs : List Node} {s : Statement} (h : s ∈ collect above cs) :
    s.node ∈ cs ∧ s.node.named = true ∧ ∀ a ∈ s.above, a ∈ above ∨ a ∈ cs := by
  induction cs generalizing above with
  | nil => simp [collect] at h
  | cons c cs ih =>
    have deeper : s ∈ collect (c :: above) cs →
        s.node ∈ c :: cs ∧ s.node.named = true ∧ ∀ a ∈ s.above, a ∈ above ∨ a ∈ c :: cs := by
      intro hs
      obtain ⟨hn, hnamed, habove⟩ := ih hs
      refine ⟨List.mem_cons_of_mem c hn, hnamed, fun a ha => ?_⟩
      rcases habove a ha with hac | hac
      · rcases List.mem_cons.mp hac with rfl | hac
        · exact Or.inr List.mem_cons_self
        · exact Or.inl hac
      · exact Or.inr (List.mem_cons_of_mem c hac)
    rw [collect] at h
    split at h
    · next hc =>
      rcases List.mem_cons.mp h with rfl | h
      · exact ⟨List.mem_cons_self, hc, fun a ha => Or.inl ha⟩
      · exact deeper h
    · exact deeper h

/-- What stands above a statement, read upwards, is what comes before it. -/
theorem above_of_collect {above cs : List Node} {s : Statement} (h : s ∈ collect above cs) :
    ∃ before after, cs = before ++ s.node :: after ∧ s.above = before.reverse ++ above := by
  induction cs generalizing above with
  | nil => simp [collect] at h
  | cons c cs ih =>
    have deeper : s ∈ collect (c :: above) cs →
        ∃ before after, c :: cs = before ++ s.node :: after ∧ s.above = before.reverse ++ above := by
      intro hs
      obtain ⟨before, after, hcs, habove⟩ := ih hs
      exact ⟨c :: before, after, by rw [hcs, List.cons_append], by simp [habove]⟩
    rw [collect] at h
    split at h
    · rcases List.mem_cons.mp h with rfl | h
      · exact ⟨[], cs, rfl, rfl⟩
      · exact deeper h
    · exact deeper h

end Statement

namespace Node

theorem mem_children_of_statement {root : Node} {s : Statement} (h : s ∈ root.statements) :
    s.node ∈ root.children :=
  (Statement.mem_collect h).1

theorem mem_children_of_above {root a : Node} {s : Statement} (h : s ∈ root.statements)
    (ha : a ∈ s.above) : a ∈ root.children := by
  have := (Statement.mem_collect h).2.2 a ha
  simpa using this

theorem above_of_statement {root : Node} {s : Statement} (h : s ∈ root.statements) :
    ∃ after, root.children = s.above.reverse ++ s.node :: after := by
  obtain ⟨before, after, hcs, habove⟩ := Statement.above_of_collect h
  exact ⟨after, by rw [hcs, habove, List.append_nil, List.reverse_reverse]⟩

end Node

namespace Declaration

variable {src : Source} {s : Statement} {d : Declaration}

/-- A value of a variable statement is the initial value of one of its declarators. -/
theorem mem_ofVariables {exported isDefault : Bool} {list : Node}
    (h : d ∈ ofVariables src s exported isDefault list) :
    d.statement = s ∧ ∃ v ∈ list.namedChildren, ∃ value, v.child? "value" = some value ∧
      d.node = value.unwrap := by
  obtain ⟨v, hv, hd⟩ := List.mem_filterMap.mp h
  split at hd
  · split at hd
    · next name value hname hvalue =>
      split at hd
      · cases hd
        exact ⟨rfl, v, hv, value, hvalue, rfl⟩
      · cases hd
    · cases hd
  · cases hd

theorem initial_mem_walk {v value : Node} (h : v.child? "value" = some value) :
    value.unwrap ∈ v.walk :=
  Node.mem_walk_of_child (Node.mem_children_of_child? h) (Node.unwrap_mem_walk value)

theorem mem_ofInner {exported isDefault : Bool} {inner : Node}
    (h : d ∈ ofInner src s exported isDefault inner) :
    d.statement = s ∧ d.node ∈ inner.walk ∧
      (inner.isFunction || inner.isClass || inner.isVariables) = true := by
  unfold ofInner at h
  split at h
  · next hk =>
    cases List.mem_singleton.mp h
    exact ⟨rfl, Node.self_mem_walk _, by simp [hk]⟩
  · split at h
    · next hk =>
      obtain ⟨hs, v, hv, value, hvalue, hn⟩ := mem_ofVariables h
      refine ⟨hs, ?_, by simp [hk]⟩
      rw [hn]
      exact Node.mem_walk_of_child (Node.mem_children_of_named hv) (initial_mem_walk hvalue)
    · simp at h

/-- A value exported by its statement stands under the declaration or the value of
the export; any other stands in a function, a class or a variable statement. -/
theorem mem_ofStatement (h : d ∈ ofStatement src s) :
    d.statement = s ∧
      ((s.isExport = true ∧ ∃ c ∈ s.node.children,
          (c.field = "declaration" ∨ c.field = "value") ∧ d.node ∈ c.walk) ∨
        (s.isExport = false ∧ d.node ∈ s.node.walk ∧
          (s.node.isFunction || s.node.isClass || s.node.isVariables) = true)) := by
  unfold ofStatement at h
  split at h
  · next hx =>
    split at h
    · next inner hinner =>
      obtain ⟨hs, hn, -⟩ := mem_ofInner h
      exact ⟨hs, Or.inl ⟨hx, inner, Node.mem_children_of_child? hinner,
        Or.inl (Node.field_of_child? hinner), hn⟩⟩
    · next value _ hvalue =>
      obtain ⟨v, hv, rfl⟩ := Option.map_eq_some_iff.mp hvalue
      cases List.mem_singleton.mp h
      exact ⟨rfl, Or.inl ⟨hx, v, Node.mem_children_of_child? hv,
        Or.inr (Node.field_of_child? hv), Node.unwrap_mem_walk v⟩⟩
    · simp at h
  · next hx =>
    obtain ⟨hs, hn, hk⟩ := mem_ofInner h
    exact ⟨hs, Or.inr ⟨by simpa using hx, hn, hk⟩⟩

theorem mem_of_variables (hv : s.node.isVariables = true) (h : d ∈ ofStatement src s) :
    ∃ v ∈ s.node.namedChildren, ∃ value, v.child? "value" = some value ∧ d.node = value.unwrap := by
  have hkind : s.node.kind = "lexical_declaration" ∨ s.node.kind = "variable_declaration" := by
    simpa [Node.isVariables] using hv
  have hexport : s.isExport = false := by
    rcases hkind with hk | hk <;> simp [Statement.isExport, hk]
  have hvalue : (s.node.isFunction || s.node.isClass) = false := by
    rcases hkind with hk | hk <;> simp [Node.isFunction, Node.isClass, hk]
  simp only [ofStatement, hexport, ofInner, hvalue, hv, if_true] at h
  exact (mem_ofVariables h).2

theorem mem_all {root : Node} (h : d ∈ all src root) :
    d.statement ∈ root.statements ∧ d ∈ ofStatement src d.statement := by
  obtain ⟨s, hs, hd⟩ := List.mem_flatMap.mp h
  have hds := (mem_ofStatement hd).1
  subst hds
  exact ⟨hs, hd⟩

theorem node_mem_walk (h : d ∈ ofStatement src s) : d.node ∈ s.node.walk := by
  rcases (mem_ofStatement h).2 with ⟨-, c, hc, -, hn⟩ | ⟨-, hn, -⟩
  · exact Node.mem_walk_of_child hc hn
  · exact hn

end Declaration

end Retype

import Retype.Module.Declaration
import Retype.Module.Markup
import Retype.Proofs.Module.Statements
import Retype.Proofs.Tree.Likeness

/-!
# Modules that read alike

Functions that read alike return markup alike, statements that read alike declare the same
values and export the same names. A list of statements in which some say nothing is read as
the list without them.
-/

set_option autoImplicit false

namespace Retype

variable {src src' : Source}

/-! ## Calls and markup -/

namespace Source

theorem leadingMarkup_eq (cs : List Node) :
    src.leadingMarkup cs = (cs.find? (·.named)).any src.isMarkup := by
  induction cs with
  | nil => rfl
  | cons c cs ih =>
    rw [leadingMarkup, List.find?_cons, ih]
    cases c.named <;> rfl

theorem fieldMarkup_eq (field : String) (n : Node) :
    src.fieldMarkup field n.children = (n.child? field).any src.isMarkup := by
  rw [Node.child?]
  induction n.children with
  | nil => rfl
  | cons c cs ih =>
    rw [fieldMarkup, List.find?_cons, ih]
    cases c.field == field <;> rfl

theorem isMarkup_eq (n : Node) : src.isMarkup n =
    if n.kind == "parenthesized_expression" then (n.children.find? (·.named)).any src.isMarkup
    else if Node.isElementKind n.kind then true
    else if n.kind == "call_expression" then src.callee? n == some "createElement"
    else if n.kind == "ternary_expression" then
      (n.child? "consequence").any src.isMarkup || (n.child? "alternative").any src.isMarkup
    else if n.kind == "binary_expression" then (n.child? "right").any src.isMarkup
    else false := by
  cases n
  rw [isMarkup, ← leadingMarkup_eq, ← fieldMarkup_eq, ← fieldMarkup_eq, ← fieldMarkup_eq]

end Source

namespace Node.Like

variable {n n' : Node}

theorem callee? (h : Like src src' n n') : src.callee? n = src'.callee? n' := by
  have hfn := h.child? "function"
  unfold Source.callee?
  generalize n.child? "function" = a at hfn ⊢
  generalize n'.child? "function" = b at hfn ⊢
  cases hfn with
  | none => rfl
  | @some fn fn' hr =>
    have hobject := hr.child? "object"
    have hproperty := hr.child? "property"
    dsimp only
    rw [hr.kind, hr.text]
    generalize fn.child? "object" = a at hobject ⊢
    generalize fn'.child? "object" = b at hobject ⊢
    generalize fn.child? "property" = c at hproperty ⊢
    generalize fn'.child? "property" = d at hproperty ⊢
    cases hobject with
    | none => rfl
    | some ho =>
      cases hproperty with
      | none => rfl
      | some hp =>
        dsimp only
        rw [ho.kind, hp.text]

theorem isMarkup (h : Like src src' n n') : src.isMarkup n = src'.isMarkup n' := by
  refine induction (P := fun n n' => src.isMarkup n = src'.isMarkup n') ?_ h
  intro n n' h hc
  have hchild : ∀ field, (n.child? field).any src.isMarkup = (n'.child? field).any src'.isMarkup :=
    fun field => Alike.optionAny_eq (Alike.find? hc fun _ _ hcc => by rw [hcc.1.field])
      fun _ _ hcc => hcc.2
  have hfirst : (n.children.find? (·.named)).any src.isMarkup =
      (n'.children.find? (·.named)).any src'.isMarkup :=
    Alike.optionAny_eq (Alike.find? hc fun _ _ hcc => hcc.1.named) fun _ _ hcc => hcc.2
  rw [Source.isMarkup_eq, Source.isMarkup_eq, h.kind, hfirst, hchild, hchild, hchild, h.callee?]

theorem isMarkupReturn (h : Like src src' n n') : src.isMarkupReturn n = src'.isMarkupReturn n' := by
  have hparts := h.parts
  unfold Source.isMarkupReturn
  generalize n.parts = ps at hparts ⊢
  generalize n'.parts = ps' at hparts ⊢
  cases hparts with
  | nil => rw [h.kind]
  | cons hr _ =>
    dsimp only
    rw [h.kind, hr.isMarkup]

theorem isClause (h : Like src src' n n') : n.isClause = n'.isClause := by
  rw [Node.isClause, Node.isClause, h.kind]

theorem blockStatements (h : Like src src' n n') :
    List.Forall₂ (Like src src') n.blockStatements n'.blockStatements := by
  refine List.rel_flatMap h.namedChildren fun c c' hc => ?_
  rw [hc.isBlock, hc.kind]
  split
  · exact hc.namedChildren
  · split
    · exact .cons hc .nil
    · exact .nil

theorem innerStatements (h : Like src src' n n') :
    List.Forall₂ (Like src src') n.innerStatements n'.innerStatements := by
  refine List.rel_flatMap h.namedChildren fun c c' hc => ?_
  rw [hc.isBlock, hc.kind, hc.isClause]
  split
  · exact hc.namedChildren
  · split
    · exact .cons hc .nil
    · split
      · exact hc.blockStatements
      · exact .nil

theorem returnsMarkup (h : Like src src' n n') : src.returnsMarkup n = src'.returnsMarkup n' := by
  have hbody := h.child? "body"
  unfold Source.returnsMarkup
  generalize n.child? "body" = a at hbody ⊢
  generalize n'.child? "body" = b at hbody ⊢
  cases hbody with
  | none => rfl
  | some hr =>
    have hstatements := Alike.any_eq hr.namedChildren fun stmt stmt' hs =>
      congrArg₂ or hs.isMarkupReturn (Alike.any_eq hs.innerStatements fun _ _ hi => hi.isMarkupReturn)
    dsimp only
    rw [hr.isBlock, hr.isMarkup, hstatements]

end Node.Like

/-! ## Declarations -/

def Statement.Like (src src' : Source) (s s' : Statement) : Prop := Node.Like src src' s.node s'.node

structure Declaration.Like (src src' : Source) (d d' : Declaration) : Prop where
  name : d.name = d'.name
  node : Node.Like src src' d.node d'.node
  exported : d.exported = d'.exported
  isDefault : d.isDefault = d'.isDefault

namespace Statement

variable {s s' : Statement}

theorem Like.isExport (h : Statement.Like src src' s s') : s.isExport = s'.isExport := by
  rw [Statement.isExport, Statement.isExport, Node.Like.kind h]

theorem collect_map (above cs : List Node) : (collect above cs).map (·.node) = cs.filter (·.named) := by
  induction cs generalizing above with
  | nil => rfl
  | cons c cs ih =>
    rw [collect, List.filter_cons]
    split
    · rw [List.map_cons, ih]
    · exact ih _

/-- Of two modules whose children read alike where `keep` and `keep'` choose them, the
statements read alike there. -/
theorem like_of_children {root root' : Node} {keep keep' : Node → Bool}
    (h : List.Forall₂ (Node.Like src src') (root.children.filter keep) (root'.children.filter keep')) :
    List.Forall₂ (Statement.Like src src') (root.statements.filter (keep ·.node))
      (root'.statements.filter (keep' ·.node)) := by
  have hmap : ∀ (r : Node) (k : Node → Bool),
      (r.statements.filter (k ·.node)).map (·.node) = (r.children.filter k).filter (·.named) := by
    intro r k
    rw [Node.statements, List.filter_comm, ← collect_map [], List.filter_map]
    rfl
  have hnamed := Alike.filter (p := (·.named)) (q := (·.named)) h fun _ _ hc => hc.named
  rw [← hmap, ← hmap, List.forall₂_map_left_iff, List.forall₂_map_right_iff] at hnamed
  exact hnamed

end Statement

namespace Declaration

variable {s s' : Statement} {exported isDefault : Bool} {n n' : Node}

theorem like_ofVariables (h : Node.Like src src' n n') : List.Forall₂ (Declaration.Like src src')
    (ofVariables src s exported isDefault n) (ofVariables src' s' exported isDefault n') := by
  refine Alike.filterMap h.namedChildren fun d d' hd => ?_
  have hname := hd.child? "name"
  have hvalue := hd.child? "value"
  rw [hd.kind]
  generalize d.child? "name" = a at hname ⊢
  generalize d'.child? "name" = b at hname ⊢
  generalize d.child? "value" = v at hvalue ⊢
  generalize d'.child? "value" = w at hvalue ⊢
  split
  · cases hname with
    | none => exact .none
    | some hn =>
      cases hvalue with
      | none => exact .none
      | some hv =>
        dsimp only
        rw [hn.kind]
        split
        · exact .some ⟨congrArg some hn.text, hv.unwrap, rfl, rfl⟩
        · exact .none
  · exact .none

theorem like_ofInner (h : Node.Like src src' n n') : List.Forall₂ (Declaration.Like src src')
    (ofInner src s exported isDefault n) (ofInner src' s' exported isDefault n') := by
  rw [ofInner, ofInner, h.isFunction, h.isClass, h.isVariables]
  split
  · exact .cons ⟨h.nameOf, h, rfl, rfl⟩ .nil
  · split
    · exact like_ofVariables h
    · exact .nil

theorem like_ofStatement (h : Statement.Like src src' s s') :
    List.Forall₂ (Declaration.Like src src') (ofStatement src s) (ofStatement src' s') := by
  have hdecl := Node.Like.child? h "declaration"
  have hvalue := Node.Like.value? h "value"
  rw [ofStatement, ofStatement, h.isExport, Node.Like.hasToken h]
  split
  · dsimp only
    generalize s.node.child? "declaration" = a at hdecl ⊢
    generalize s'.node.child? "declaration" = b at hdecl ⊢
    generalize s.node.value? "value" = v at hvalue ⊢
    generalize s'.node.value? "value" = w at hvalue ⊢
    cases hdecl with
    | some hr => exact like_ofInner hr
    | none =>
      cases hvalue with
      | none => exact .nil
      | some hr =>
        refine .cons ⟨?_, hr, rfl, rfl⟩ .nil
        dsimp only
        rw [hr.kind, hr.text, hr.nameOf]
  · exact like_ofInner h

theorem ofStatement_expression (h : s.node.kind = "expression_statement") : ofStatement src s = [] := by
  simp [ofStatement, Statement.isExport, ofInner, Node.isFunction, Node.isClass, Node.isVariables, h]

end Declaration

/-! ## Exports -/

namespace Exports

variable {s s' : Statement} {n n' : Node}

theorem like_declaredNames (h : Node.Like src src' n n') : declaredNames src n = declaredNames src' n' := by
  have hnames := Alike.map_eq (Alike.filter (p := fun d => d.kind == "variable_declarator")
    (q := fun d => d.kind == "variable_declarator") h.namedChildren fun _ _ hd => by rw [hd.kind])
    fun _ _ hd => hd.childText "name"
  rw [declaredNames, declaredNames, h.isVariables, hnames, h.childText]

theorem like_addValue (h : Node.Like src src' n n') (e : Exports) : addValue src n e = addValue src' n' e := by
  have hdecl := h.child? "declaration"
  have hvalue := h.value? "value"
  rw [addValue, addValue, h.hasToken]
  dsimp only
  generalize n.child? "declaration" = a at hdecl ⊢
  generalize n'.child? "declaration" = b at hdecl ⊢
  generalize n.value? "value" = v at hvalue ⊢
  generalize n'.value? "value" = w at hvalue ⊢
  cases hdecl with
  | some hr =>
    dsimp only
    rw [like_declaredNames hr]
  | none =>
    cases hvalue with
    | none => rfl
    | some hr =>
      dsimp only
      rw [hr.kind, hr.text, hr.isFunction, hr.isClass, hr.nameOf]

theorem like_addSpecifier (h : Node.Like src src' n n') (e : Exports) :
    addSpecifier src e n = addSpecifier src' e n' := by
  rw [addSpecifier, addSpecifier, h.childText, h.childText]

theorem like_specifiers (h : Node.Like src src' n n') :
    List.Forall₂ (Node.Like src src') (specifiers n) (specifiers n') :=
  List.rel_flatMap (Alike.filter h.namedChildren fun _ _ hc => by rw [hc.kind])
    fun _ _ hc => Alike.filter hc.namedChildren fun _ _ hs => by rw [hs.kind]

theorem like_add (h : Statement.Like src src' s s') (e : Exports) : add src e s = add src' e s' := by
  rw [add, add, h.isExport, ← Option.not_isSome, ← Option.not_isSome,
    Alike.isSome_eq (Node.Like.child? h "source"), like_addValue h,
    Alike.foldl_eq (like_specifiers h) fun e _ _ hs => like_addSpecifier hs e]

theorem add_expression (h : s.node.kind = "expression_statement") (e : Exports) : add src e s = e := by
  simp [add, Statement.isExport, h]

end Exports

end Retype

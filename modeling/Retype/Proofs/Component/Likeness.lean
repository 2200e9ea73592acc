import Retype.Component.Property
import Retype.Proofs.Component.RuntimeTypes
import Retype.Proofs.Module.Likeness

/-!
# Components that read alike

The searches for components and the readings of props look at kinds, fields and texts, and at
no places: in trees that read alike they find components that read alike, with the same props.
-/

set_option autoImplicit false

namespace Retype

variable {src src' : Source} {n n' : Node}

/-! ## What is searched for -/

/-- The least of related lists by keys that agree. -/
theorem Alike.leastBy {α β : Type} {R : α → β → Prop} {key : α → Nat} {key' : β → Nat} {xs : List α}
    {ys : List β} (h : List.Forall₂ R xs ys) (hkey : ∀ x y, R x y → key x = key' y) :
    Option.Rel R (Order.leastBy key xs) (Order.leastBy key' ys) := by
  induction h with
  | nil => exact .none
  | cons hr _ ih =>
    rw [Order.leastBy, Order.leastBy]
    generalize Order.leastBy key _ = a at ih ⊢
    generalize Order.leastBy key' _ = b at ih ⊢
    cases ih with
    | none => exact .some hr
    | some hs =>
      dsimp only
      rw [hkey _ _ hr, hkey _ _ hs]
      split
      · exact .some hs
      · exact .some hr

namespace Search

theorem like_functionOf (levels : Nat) (h : Node.Like src src' n n') :
    Option.Rel (Node.Like src src') (functionOf levels n) (functionOf levels n') := by
  induction levels generalizing n n' with
  | zero =>
    rw [functionOf, functionOf, h.unwrap.isFunction]
    split
    · exact .some h.unwrap
    · exact .none
  | succ levels ih =>
    rw [functionOf, functionOf, h.unwrap.isFunction]
    split
    · exact .some h.unwrap
    · rw [h.unwrap.isCall]
      split
      · exact Alike.findSome? h.unwrap.arguments fun _ _ ha => ih ha
      · exact .none

theorem like_heritageBase? (h : Node.Like src src' n n') : heritageBase? src n = heritageBase? src' n' := by
  refine Alike.findSome?_eq h.namedChildren fun sub sub' hs => ?_
  have hbase := Alike.orElse (hs.child? "value") (Alike.head? hs.namedChildren)
  rw [hs.kind, hs.text, Node.Like.textOf? hbase]

theorem like_extendsComponent (h : Node.Like src src' n n') :
    extendsComponent src n = extendsComponent src' n' := by
  have hheritage := Alike.filter (p := fun c => c.kind == "class_heritage")
    (q := fun c => c.kind == "class_heritage") h.children fun _ _ hc => by rw [hc.kind]
  rw [extendsComponent, extendsComponent, Alike.findSome?_eq hheritage fun _ _ => like_heritageBase?]

/-! ### Class components -/

/-- Nodes above like nodes: like nodes, or the tops of two modules. -/
def Beneath (src src' : Source) (p p' : Node) : Prop :=
  Node.Like src src' p p' ∨ p.kind = "program" ∧ p'.kind = "program"

/-- Visits of like nodes below nodes that agree. -/
structure LikeVisits (src src' : Source) (v v' : Node.Visit) : Prop where
  node : Node.Like src src' v.node v'.node
  parent : Option.Rel (Beneath src src') v.parent? v'.parent?

theorem like_visits (h : Node.Like src src' n n') {above above' : List Node}
    (ha : Option.Rel (Beneath src src') above.head? above'.head?) :
    List.Forall₂ (LikeVisits src src') (n.visits above) (n'.visits above') := by
  revert above above'
  refine Node.Like.induction (P := fun n n' => ∀ {above above' : List Node},
    Option.Rel (Beneath src src') above.head? above'.head? →
      List.Forall₂ (LikeVisits src src') (n.visits above) (n'.visits above')) ?_ h
  intro n n' h hc above above' ha
  rw [Node.visits_eq, Node.visits_eq]
  exact .cons ⟨h, ha⟩ (List.rel_flatMap hc fun _ _ hcc => hcc.2 (.some (Or.inl h)))

/-- Class components of one name and rank, with nodes that read alike. -/
structure LikeFound (src src' : Source) (f f' : ClassFound) : Prop where
  name : f.hit.name = f'.hit.name
  node : Node.Like src src' f.hit.node f'.hit.node
  isDefault : f.isDefault = f'.isDefault
  exported : f.exported = f'.exported

theorem like_classFound {s s' : Statement} {v v' : Node.Visit} (h : LikeVisits src src' v v') :
    Option.Rel (LikeFound src src') (classFound src s v) (classFound src' s' v') := by
  have hparent := h.parent
  rw [classFound, classFound, h.node.isClass, like_extendsComponent h.node]
  split
  · dsimp only
    rw [h.node.nameOf]
    generalize v.parent? = a at hparent ⊢
    generalize v'.parent? = b at hparent ⊢
    cases hparent with
    | none => exact .some ⟨rfl, h.node, rfl, rfl⟩
    | some hr =>
      rcases hr with hr | ⟨hp, hp'⟩
      · dsimp only
        rw [hr.kind, hr.nameOf, hr.hasToken]
        exact .some ⟨rfl, h.node, rfl, rfl⟩
      · -- the top of a module gives a class neither a name nor an export
        dsimp only
        rw [hp, hp']
        exact .some ⟨rfl, h.node, rfl, rfl⟩
  · exact .none

end Search

/-! ## What is read off an expression -/

namespace LiteralShape

theorem like_ofUnary (h : Node.Like src src' n n') : ofUnary src n = ofUnary src' n' := by
  have hnumber := Alike.optionAny_eq (p := fun a => a.kind == "number") (q := fun a => a.kind == "number")
    (h.value? "argument") fun _ _ ha => by rw [ha.kind]
  rw [ofUnary, ofUnary, h.childText, hnumber]

theorem like_ofExpression (h : Node.Like src src' n n') : ofExpression src n = ofExpression src' n' := by
  unfold ofExpression
  dsimp only
  rw [h.unwrap.kind, h.unwrap.text, like_ofUnary h.unwrap]

end LiteralShape

namespace LegacyType

theorem like_isMarked (h : Node.Like src src' n n') : isMarked src n = isMarked src' n' := by
  rw [isMarked, isMarked, h.unwrap.kind, h.unwrap.childText]

theorem like_core? (h : Node.Like src src' n n') :
    Option.Rel (Node.Like src src') (core? src n) (core? src' n') := by
  rw [core?, core?, like_isMarked h]
  split
  · exact h.unwrap.value? "object"
  · exact .some h.unwrap

theorem like_checker (h : Node.Like src src' n n') : checker src n = checker src' n' := by
  have hfn := h.child? "function"
  unfold checker
  generalize n.child? "function" = a at hfn ⊢
  generalize n'.child? "function" = b at hfn ⊢
  cases hfn with
  | none => rfl
  | some hr =>
    dsimp only
    rw [hr.kind, hr.text, hr.childText]

/-- An argument is read alike if everything in it is. -/
theorem like_ofArgument {arg arg' : Node} (h : Node.Like src src' arg arg')
    (ih : ∀ m m', sizeOf m ≤ sizeOf arg → Node.Like src src' m m' → ofExpression src m = ofExpression src' m')
    (required : Bool) (kind : String) :
    ofArgument src required kind arg = ofArgument src' required kind arg' := by
  have hsmall : ∀ e ∈ arg.unwrap.namedChildren, sizeOf e ≤ sizeOf arg := fun e he =>
    Nat.le_trans (Nat.le_of_lt (Node.sizeOf_mem_named he)) (Node.sizeOf_unwrap arg)
  have hentries := (List.forall₂_and_left _ _).mpr ⟨hsmall, h.unwrap.namedChildren⟩
  have hmembers := Alike.filterMap_eq hentries fun e e' he => ih e e' he.1 he.2
  have hfields : (arg.unwrap.namedChildren.filterMap fun p =>
        if p.kind == "pair" then (field? src p).map fun t => (key src p, t) else none) =
      arg'.unwrap.namedChildren.filterMap fun p =>
        if p.kind == "pair" then (field? src' p).map fun t => (key src' p, t) else none := by
    refine Alike.filterMap_eq hentries fun p p' hp => ?_
    have hvalue : field? src p = field? src' p' := by
      have hv := hp.2.child? "value"
      unfold field?
      cases hl : p.child? "value" <;> cases hl' : p'.child? "value" <;> rw [hl, hl'] at hv <;> cases hv
      · rfl
      · next hr => exact ih _ _ (Nat.le_trans (Nat.le_of_lt (Node.sizeOf_child? hl)) hp.1) hr
    rw [hp.2.kind, hvalue, key, key, Node.Like.keyOf (hp.2.child? "key")]
  have hliterals := Alike.map_eq h.unwrap.parts fun _ _ he => he.text
  rw [ofArgument, ofArgument, ih arg arg' (Nat.le_refl _) h, h.unwrap.kind, hmembers, hfields, hliterals, h.unwrap.text]

theorem like_ofExpression (h : Node.Like src src' n n') : ofExpression src n = ofExpression src' n' := by
  -- on the size of one of the two: what is read next is no child but a part of a part
  induction hsize : sizeOf n using Nat.strongRecOn generalizing n n' with
  | ind size ih =>
    subst hsize
    have hcore := like_core? h
    cases hc : core? src n <;> cases hc' : core? src' n' <;> rw [hc, hc'] at hcore <;> cases hcore
    · rw [ofExpression_none hc, ofExpression_none hc']
    · next core core' hr =>
      have hargs := hr.arguments
      have hsmall : ∀ a ∈ core.arguments, sizeOf a < sizeOf n := fun a ha =>
        Nat.lt_of_lt_of_le (Node.sizeOf_mem_arguments ha) (sizeOf_core? hc)
      rw [ofExpression_some hc, ofExpression_some hc', hr.kind, like_isMarked h, hr.childText, hr.isCall,
        like_checker hr]
      generalize core.arguments = as at hargs hsmall ⊢
      generalize core'.arguments = as' at hargs ⊢
      cases hargs with
      | nil => rfl
      | cons ha _ =>
        dsimp only
        rw [like_ofArgument ha fun m m' hm hmm =>
          ih _ (Nat.lt_of_le_of_lt hm (hsmall _ List.mem_cons_self)) hmm rfl]

end LegacyType

/-! ## Props -/

namespace Property

theorem like_assignedObject? (key : String) (h : Node.Like src src' n n') :
    Option.Rel (Alike.Entry (Node.Like src src')) (assignedObject? src key n) (assignedObject? src' key n') := by
  have hexpr := Alike.head? h.namedChildren
  rw [assignedObject?, assignedObject?, h.kind]
  split
  · generalize n.namedChildren.head? = a at hexpr ⊢
    generalize n'.namedChildren.head? = b at hexpr ⊢
    cases hexpr with
    | none => exact .none
    | @some expr expr' he =>
      have hleft := he.child? "left"
      have hright := he.value? "right"
      dsimp only
      rw [he.kind]
      split
      · generalize expr.child? "left" = l at hleft ⊢
        generalize expr'.child? "left" = l' at hleft ⊢
        generalize expr.value? "right" = r at hright ⊢
        generalize expr'.value? "right" = r' at hright ⊢
        cases hleft with
        | none => exact .none
        | some hl =>
          cases hright with
          | none => exact .none
          | some hr =>
            dsimp only
            rw [hl.kind, hl.childText, hl.childText, hr.kind]
            split
            · exact .some ⟨rfl, hr⟩
            · exact .none
      · exact .none
  · exact .none

theorem like_fieldKey (h : Node.Like src src' n n') :
    Option.Rel (Node.Like src src') (fieldKey n) (fieldKey n') :=
  Alike.orElse (h.child? "property") (h.child? "name")

theorem like_isField (h : Node.Like src src' n n') : n.isField = n'.isField := by
  rw [Node.isField, Node.isField, h.kind]

theorem like_staticObjects (key : String) (h : Node.Like src src' n n') :
    List.Forall₂ (Alike.Entry (Node.Like src src')) (staticObjects src key n) (staticObjects src' key n') := by
  have hbody := h.child? "body"
  unfold staticObjects
  generalize n.child? "body" = a at hbody ⊢
  generalize n'.child? "body" = b at hbody ⊢
  cases hbody with
  | none => exact .nil
  | some hr =>
    refine Alike.filterMap hr.namedChildren fun m m' hm => ?_
    rw [like_isField hm, isStatic, isStatic, hm.hasToken, Node.Like.textOf? (like_fieldKey hm)]
    split
    · exact Alike.map (Alike.optionFilter (hm.value? "value") fun _ _ hv => by rw [hv.kind])
        fun _ _ hv => ⟨h.childText "name", hv⟩
    · exact .none

theorem like_objectPairs (h : Node.Like src src' n n') :
    List.Forall₂ (Node.Like src src') (objectPairs n) (objectPairs n') :=
  Alike.filter h.namedChildren fun _ _ hc => by rw [hc.kind]

theorem like_ofLegacyPair (h : Node.Like src src' n n') : ofLegacyPair src n = ofLegacyPair src' n' := by
  have hlegacy := Alike.bind_eq (h.child? "value") fun _ _ hv => LegacyType.like_ofExpression hv
  rw [ofLegacyPair, ofLegacyPair, Node.Like.keyOf (h.child? "key"), hlegacy]

theorem like_withDefault (name : String) {a b : Option Node} (h : Option.Rel (Node.Like src src') a b) :
    withDefault src name a = withDefault src' name b := by
  have hshape := Alike.bind_eq h fun _ _ hv => LiteralShape.like_ofExpression hv
  rw [withDefault, withDefault, Node.Like.textOf? h, hshape]

theorem like_declaredText {a b : Option Node} (h : Option.Rel (Node.Like src src') a b) :
    declaredText src a = declaredText src' b := by
  rw [declaredText, declaredText, Node.Like.textOf? h]

theorem like_ofPatternEntry (h : Node.Like src src' n n') : ofPatternEntry src n = ofPatternEntry src' n' := by
  have hvalue := h.child? "value"
  have hrest := Node.Like.textOf? (Alike.head? h.namedChildren)
  rw [ofPatternEntry, ofPatternEntry, h.kind, h.text, h.childText, hrest,
    Node.Like.keyOf (h.child? "key"), like_withDefault _ (h.child? "right")]
  generalize n.child? "value" = a at hvalue ⊢
  generalize n'.child? "value" = b at hvalue ⊢
  cases hvalue with
  | none => rfl
  | some hr =>
    dsimp only
    rw [hr.kind, like_withDefault _ (hr.child? "right")]

theorem like_ofPattern (h : Node.Like src src' n n') : ofPattern src n = ofPattern src' n' :=
  Alike.filterMap_eq h.namedChildren fun _ _ => like_ofPatternEntry

theorem like_firstParameter? (h : Node.Like src src' n n') :
    Option.Rel (Node.Like src src') (firstParameter? n) (firstParameter? n') := by
  have hone := h.child? "parameter"
  unfold firstParameter?
  generalize n.child? "parameter" = a at hone ⊢
  generalize n'.child? "parameter" = b at hone ⊢
  cases hone with
  | some hr => exact .some hr
  | none => exact Alike.bind (h.child? "parameters") fun _ _ hp => Alike.head? hp.parts

theorem like_binding? (h : Node.Like src src' n n') :
    Option.Rel (Node.Like src src') (binding? n) (binding? n') := by
  have hinner : Option.Rel (Node.Like src src')
      (if isTypedParameter n then n.child? "pattern" else some n)
      (if isTypedParameter n' then n'.child? "pattern" else some n') := by
    rw [isTypedParameter, isTypedParameter, h.kind]
    split
    · exact h.child? "pattern"
    · exact .some h
  unfold binding?
  generalize (if isTypedParameter n then n.child? "pattern" else some n) = a at hinner ⊢
  generalize (if isTypedParameter n' then n'.child? "pattern" else some n') = b at hinner ⊢
  cases hinner with
  | none => exact .none
  | some hr =>
    dsimp only
    rw [hr.kind]
    split
    · exact hr.child? "left"
    · exact .some hr

theorem like_ofFunction (h : Node.Like src src' n n') : ofFunction src n = ofFunction src' n' := by
  have hpattern := Alike.bind (like_firstParameter? h) fun _ _ hp => like_binding? hp
  unfold ofFunction
  generalize (firstParameter? n).bind binding? = a at hpattern ⊢
  generalize (firstParameter? n').bind binding? = b at hpattern ⊢
  cases hpattern with
  | none => rfl
  | some hr =>
    dsimp only
    rw [hr.kind, hr.text, like_ofPattern hr]

theorem like_ofClassNode (h : Node.Like src src' n n') : ofClassNode src n = ofClassNode src' n' := by
  have hname := h.child? "name"
  rw [ofClassNode, ofClassNode, h.kind, h.childText, h.childText, Node.Like.textOf? (h.value? "value")]
  generalize n.child? "name" = a at hname ⊢
  generalize n'.child? "name" = b at hname ⊢
  cases hname with
  | none => rfl
  | some hr =>
    dsimp only
    rw [hr.kind, like_ofPattern hr]

theorem like_ofClass (h : Node.Like src src' n n') : ofClass src n = ofClass src' n' := by
  rw [ofClass, ofClass, Alike.flatMap_eq h.walk fun _ _ => like_ofClassNode]

theorem like_assume (table : List (String × Property)) {d d' : String × Option Node}
    (h : Alike.Entry (Option.Rel (Node.Like src src')) d d') : assume src table d = assume src' table d' := by
  rw [assume, assume, h.name, like_withDefault d'.1 h.value]

theorem like_merge (declared observed : List Property) {ds ds' : List (String × Option Node)}
    (h : List.Forall₂ (Alike.Entry (Option.Rel (Node.Like src src'))) ds ds') :
    merge src declared observed ds = merge src' declared observed ds' := by
  rw [merge, merge, Alike.foldl_eq h fun table _ _ hd => like_assume table hd]

end Property

end Retype

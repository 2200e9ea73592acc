import Retype.Proofs.Component.Finding
import Retype.Proofs.Edit.Splicing
import Retype.Retyping.Unit

/-!
# Where edits stand

An edit of a module either replaces the span of a node or inserts a text at a
place. The replaced nodes are the source strings of imports and exports and one
parameter without parentheses. Texts are inserted at the edges of statements,
inside the component, and after the callee of a call.
-/

set_option autoImplicit false

namespace Retype

namespace Edit

def Replaces (n : Node) (e : Edit) : Prop := e.start = n.start ∧ e.stop = n.stop

def InsertsAt (p : Nat) (e : Edit) : Prop := e.start = p ∧ e.stop = p

theorem insertsAt_insertion (p : Nat) (text : String) : InsertsAt p (insertion p text) := ⟨rfl, rfl⟩

theorem InsertsAt.apart {p q : Nat} {a b : Edit} (ha : InsertsAt p a) (hb : InsertsAt q b) :
    Apart a b := by
  obtain ⟨h1, h2⟩ := ha
  obtain ⟨h3, h4⟩ := hb
  unfold Apart
  omega

/-- An edit that ends before a node begins, or begins after the node has ended. -/
def Clears (n : Node) (e : Edit) : Prop := e.stop ≤ n.start ∨ (n.stop : Int) ≤ e.start

theorem InsertsAt.clears {p : Nat} {n : Node} {e : Edit} (he : InsertsAt p e)
    (h : Node.Avoids p n) : Clears n e := by
  obtain ⟨h1, h2⟩ := he
  unfold Node.Avoids at h
  unfold Clears
  omega

theorem Replaces.clears {m n : Node} {e : Edit} (he : Replaces m e) (h : Node.Apart m n) :
    Clears n e := by
  obtain ⟨h1, h2⟩ := he
  unfold Node.Apart Node.Before at h
  unfold Clears
  omega

theorem Replaces.apart {n : Node} {a b : Edit} (ha : Replaces n a) (hb : Clears n b) :
    Apart a b := by
  obtain ⟨h1, h2⟩ := ha
  unfold Clears at hb
  unfold Apart
  omega

theorem insertions_apart {es : List Edit} (h : ∀ e ∈ es, ∃ p, InsertsAt p e) :
    es.Pairwise Apart := by
  refine List.pairwise_of_forall_mem_list ?_
  intro a ha b hb
  obtain ⟨p, hp⟩ := h a ha
  obtain ⟨q, hq⟩ := h b hb
  exact hp.apart hq

end Edit

namespace Retyping

open Edit (Replaces InsertsAt Clears)

variable {src : Source} {root : Node}

/-- What a parser promises of the tree of a module without errors: spans are nested,
a source string holds neither a call nor a class, and the parameter of a function that
needs no parentheses holds no call. What a `catch` binds is no such parameter. -/
structure WellParsed (root : Node) : Prop where
  nested : Node.Nested root
  plainSources : ∀ n ∈ specifierNodes root, ∀ d ∈ n.walk, d.isCall = false ∧ d.isClass = false
  plainParameters : ∀ fn ∈ root.walk, fn.isFunction = true → ∀ p ∈ fn.child? "parameter",
    ∀ d ∈ p.walk, d.isCall = false

instance (root : Node) : Decidable (WellParsed root) :=
  decidable_of_iff (Node.Nested root ∧
      (∀ n ∈ specifierNodes root, ∀ d ∈ n.walk, d.isCall = false ∧ d.isClass = false) ∧
      ∀ fn ∈ root.walk, fn.isFunction = true → ∀ p ∈ fn.child? "parameter",
        ∀ d ∈ p.walk, d.isCall = false)
    ⟨fun ⟨h1, h2, h3⟩ => ⟨h1, h2, h3⟩, fun ⟨h1, h2, h3⟩ => ⟨h1, h2, h3⟩⟩

/-! ## Source strings -/

theorem mem_specifierNodes {n : Node} : n ∈ specifierNodes root ↔
    ∃ s ∈ root.namedChildren, (s.kind = "import_statement" ∨ s.kind = "export_statement") ∧
      s.child? "source" = some n := by
  simp only [specifierNodes, List.mem_filterMap, List.mem_filter, Bool.or_eq_true, beq_iff_eq]
  constructor
  · rintro ⟨s, ⟨hs, hk⟩, hn⟩
    exact ⟨s, hs, hk, hn⟩
  · rintro ⟨s, hs, hk, hn⟩
    exact ⟨s, ⟨hs, hk⟩, hn⟩

theorem specifierEdit?_replaces {table : AliasTable} {importer writer : String} {n : Node} {e : Edit}
    (h : specifierEdit? src table importer writer n = some e) : Replaces n e := by
  unfold specifierEdit? at h
  split at h
  · cases h
  · simp only at h
    split at h
    · cases h
      exact ⟨rfl, rfl⟩
    · cases h

theorem specifierEdits_replace {table : AliasTable} {importer writer : String} {e : Edit}
    (h : e ∈ specifierEdits src table importer writer root) :
    ∃ n ∈ specifierNodes root, Replaces n e := by
  obtain ⟨n, hn, he⟩ := List.mem_filterMap.mp h
  exact ⟨n, hn, specifierEdit?_replaces he⟩

theorem specifierNodes_apart (h : Node.Nested root) :
    (specifierNodes root).Pairwise Node.Apart := by
  have hsub : (root.namedChildren.filter fun s =>
      s.kind == "import_statement" || s.kind == "export_statement").Sublist root.children :=
    List.filter_sublist.trans List.filter_sublist
  refine List.pairwise_filterMap.mpr ((h.laid.inOrder.sublist hsub).imp_of_mem ?_)
  intro a b ha hb hab m hm n hn
  have hap : Node.Apart a b := Or.inl hab
  exact hap.of_mem (h.child (hsub.subset ha)) (h.child (hsub.subset hb))
    (Node.child_mem_walk (Node.mem_children_of_child? hm))
    (Node.child_mem_walk (Node.mem_children_of_child? hn))

theorem specifierEdits_apart (h : Node.Nested root) (table : AliasTable) (importer writer : String) :
    (specifierEdits src table importer writer root).Pairwise Edit.Apart := by
  refine List.pairwise_filterMap.mpr ((specifierNodes_apart h).imp ?_)
  intro m n hmn a ha b hb
  exact (specifierEdit?_replaces ha).apart ((specifierEdit?_replaces hb).clears hmn.symm)

/-- A node of a statement is apart from a source string, unless the string is of the
same statement and the node is under no other child of it. -/
theorem apart_from_source {n s x : Node} (h : Node.Nested root) (hn : n ∈ specifierNodes root)
    (hs : s ∈ root.children) (hx : x ∈ s.walk)
    (hother : (s.kind = "import_statement" ∨ s.kind = "export_statement") →
      s.child? "source" = some n → ∃ c ∈ s.children, c ≠ n ∧ x ∈ c.walk) :
    Node.Apart x n := by
  obtain ⟨t, ht, htk, htn⟩ := mem_specifierNodes.mp hn
  have htc := Node.mem_children_of_named ht
  have hnt := Node.mem_children_of_child? htn
  by_cases hst : s = t
  · subst hst
    obtain ⟨c, hc, hcn, hxc⟩ := hother htk htn
    have hns := h.child hs
    exact (hns.laid.children_apart hc hnt hcn).of_mem (hns.child hc) (hns.child hnt) hxc
      (Node.self_mem_walk n)
  · exact (h.laid.children_apart hs htc hst).of_mem (h.child hs) (h.child htc) hx
      (Node.child_mem_walk hnt)

/-- A value declared in a module is apart from every source string. -/
theorem declared_apart {n : Node} {d : Declaration} (h : Node.Nested root)
    (hn : n ∈ specifierNodes root) (hd : d ∈ Declaration.all src root) : Node.Apart d.node n := by
  obtain ⟨hds, hdo⟩ := Declaration.mem_all hd
  refine apart_from_source h hn (Node.mem_children_of_statement hds) (Declaration.node_mem_walk hdo) ?_
  intro hsk hsn
  have hnf := Node.field_of_child? hsn
  rcases (Declaration.mem_ofStatement hdo).2 with ⟨-, c, hc, hcf, hdc⟩ | ⟨hx, -, hk⟩
  · refine ⟨c, hc, ?_, hdc⟩
    rintro rfl
    rcases hcf with hcf | hcf <;> exact absurd (hcf.symm.trans hnf) (by decide)
  · rcases hsk with hsk | hsk
    · simp [Node.isFunction, Node.isClass, Node.isVariables, hsk] at hk
    · simp [Statement.isExport, hsk] at hx

/-- A class in a statement is apart from every source string. -/
theorem class_apart {n s x : Node} (h : WellParsed root) (hn : n ∈ specifierNodes root)
    (hs : s ∈ root.children) (hx : x ∈ s.walk) (hk : x.isClass = true) : Node.Apart x n := by
  refine apart_from_source h.nested hn hs hx ?_
  intro hsk hsn
  rcases Node.mem_walk.mp hx with rfl | ⟨c, hc, hxc⟩
  · rcases hsk with hsk | hsk <;> simp [Node.isClass, hsk] at hk
  · refine ⟨c, hc, ?_, hxc⟩
    rintro rfl
    have hplain := (h.plainSources c hn x hxc).2
    rw [hk] at hplain
    cases hplain

/-! ## Places of insertions -/

theorem importSpot_top : Node.TopPlace root (importSpot src root).place := by
  have start : Node.TopPlace root 0 := Or.inl rfl
  unfold importSpot
  split
  · next last hlast =>
    have hmem : last ∈ root.children :=
      Node.mem_children_of_named (List.mem_filter.mp (List.mem_of_getLast? hlast)).1
    exact Or.inr ⟨last, hmem, Or.inr rfl⟩
  · split
    · exact start
    · next first hfirst =>
      split
      · have hmem := Node.mem_children_of_named (List.mem_of_find?_eq_some hfirst)
        exact Or.inr ⟨first, hmem, Or.inr rfl⟩
      · exact start

theorem attachedStart_top {below : Node} {above : List Node} (hb : below ∈ root.children)
    (ha : ∀ a ∈ above, a ∈ root.children) : Node.TopPlace root (attachedStart src below above) := by
  induction above generalizing below with
  | nil => exact Or.inr ⟨below, hb, Or.inl rfl⟩
  | cons a above ih =>
    rw [attachedStart]
    split
    · exact ih (ha a List.mem_cons_self) fun c hc => ha c (List.mem_cons_of_mem a hc)
    · exact Or.inr ⟨below, hb, Or.inl rfl⟩

theorem interfacePlace_top {c : Classification} (hc : ∀ hit ∈ c.found, Search.Placed root hit) :
    Node.TopPlace root (interfacePlace src root c) := by
  unfold interfacePlace
  split
  · next hit hhit =>
    obtain ⟨hs, -⟩ := hc hit hhit
    exact attachedStart_top (Node.mem_children_of_statement hs) fun a ha =>
      Node.mem_children_of_above hs ha
  · exact importSpot_top

theorem interfaceEdits_insert {c : Classification} {s : Synthesis} {target : String} {e : Edit}
    (hc : ∀ hit ∈ c.found, Search.Placed root hit) (he : e ∈ interfaceEdits src root c s target) :
    ∃ p, Node.TopPlace root p ∧ InsertsAt p e := by
  unfold interfaceEdits at he
  split at he
  · simp at he
  · split at he
    · cases List.mem_singleton.mp he
      exact ⟨_, importSpot_top, Edit.insertsAt_insertion _ _⟩
    · rcases List.mem_append.mp he with he | he
      · split at he
        · cases List.mem_singleton.mp he
          exact ⟨_, importSpot_top, Edit.insertsAt_insertion _ _⟩
        · simp at he
      · cases List.mem_singleton.mp he
        exact ⟨_, interfacePlace_top hc, Edit.insertsAt_insertion _ _⟩

theorem stateEdits_insert {e : Edit} (he : e ∈ stateEdits src root) :
    ∃ call ∈ root.walk, call.isCall = true ∧ ∃ callee ∈ call.children, InsertsAt callee.stop e := by
  obtain ⟨v, hv, hve⟩ := List.mem_filterMap.mp he
  unfold stateEdit? at hve
  split at hve
  · next hk =>
    obtain ⟨callee, hcallee, rfl⟩ := Option.map_eq_some_iff.mp hve
    simp only [Bool.and_eq_true] at hk
    exact ⟨v.node, Node.mem_walk_of_visit hv, hk.1.1, callee, Node.mem_children_of_child? hcallee,
      Edit.insertsAt_insertion _ _⟩
  · cases hve

theorem callee_avoids {n call callee : Node} (h : Node.Nested root) (hn : n ∈ root.walk)
    (hplain : ∀ d ∈ n.walk, d.isCall = false) (hc : call ∈ root.walk) (hk : call.isCall = true)
    (hcallee : callee ∈ call.children) : Node.Avoids callee.stop n := by
  refine h.child_stop_avoids hn hc hcallee ?_
  intro hin
  have := hplain call hin
  rw [hk] at this
  cases this

/-! ## The component -/

/-- An edit inside a node: it replaces the parameter of a function without parentheses,
or inserts a text at some place of the node. -/
def Inside (owner : Node) (e : Edit) : Prop :=
  (∃ p, owner.isFunction = true ∧ owner.child? "parameter" = some p ∧ Replaces p e) ∨
    ∃ p, owner.start ≤ p ∧ p ≤ owner.stop ∧ InsertsAt p e

theorem inside_stop {owner d : Node} (h : Node.Nested owner) (hd : d ∈ owner.walk) (text : String) :
    Inside owner (Edit.insertion d.stop text) := by
  have hw := h.within hd
  have hf := h.forward hd
  exact Or.inr ⟨d.stop, Nat.le_trans hw.1 hf, hw.2, Edit.insertsAt_insertion _ _⟩

theorem firstParameter_mem_walk {fn p : Node} (h : Property.firstParameter? fn = some p) :
    p ∈ fn.walk := by
  unfold Property.firstParameter? at h
  split at h
  · next q hq =>
    cases h
    exact Node.child_mem_walk (Node.mem_children_of_child? hq)
  · obtain ⟨ps, hps, hp⟩ := Option.bind_eq_some_iff.mp h
    have hpp := Node.child_mem_walk (Node.mem_children_of_parts (List.mem_of_mem_head? hp))
    exact Node.mem_walk_of_child (Node.mem_children_of_child? hps) hpp

theorem notable_mem_walk {param t : Node} (h : notable? param = some t) : t ∈ param.walk := by
  unfold notable? at h
  have h := (Option.filter_eq_some_iff.mp h).1
  split at h
  · split at h
    · cases h
    · exact Node.child_mem_walk (Node.mem_children_of_child? h)
  · split at h
    · exact Node.child_mem_walk (Node.mem_children_of_child? h)
    · cases h
      exact Node.self_mem_walk _

theorem signatureEdits_insert {fn : Node} {name : Option String} {e : Edit}
    (hs : fn.child? "parameter" = none) (he : e ∈ signatureEdits src fn name) :
    ∃ d ∈ fn.walk, ∃ text, e = Edit.insertion d.stop text := by
  simp only [signatureEdits, hs] at he
  rcases List.mem_append.mp he with he | he
  · obtain ⟨t, ht, rfl⟩ := Option.map_eq_some_iff.mp (Option.mem_toList.mp he)
    split at ht
    · cases ht
    · obtain ⟨param, hparam, hnote⟩ := Option.bind_eq_some_iff.mp ht
      exact ⟨t, Node.walk_trans (notable_mem_walk hnote) (firstParameter_mem_walk hparam), _, rfl⟩
  · split at he
    · next ps _ hps =>
      cases List.mem_singleton.mp he
      exact ⟨ps, Node.child_mem_walk (Node.mem_children_of_child? hps), _, rfl⟩
    · simp at he

theorem signatureEdits_replace (src : Source) {fn single : Node} (name : Option String)
    (hs : fn.child? "parameter" = some single) :
    signatureEdits src fn name = [] ∨ ∃ e, signatureEdits src fn name = [e] ∧ Replaces single e := by
  simp only [signatureEdits, hs]
  split
  · exact Or.inl rfl
  · exact Or.inr ⟨_, rfl, rfl, rfl⟩

theorem signatureEdits_inside {fn : Node} {name : Option String} {e : Edit} (h : Node.Nested fn)
    (hfn : fn.isFunction = true) (he : e ∈ signatureEdits src fn name) : Inside fn e := by
  cases hs : fn.child? "parameter" with
  | none =>
    obtain ⟨d, hd, text, rfl⟩ := signatureEdits_insert hs he
    exact inside_stop h hd text
  | some single =>
    rcases signatureEdits_replace src name hs with hnil | ⟨r, hr, hrep⟩
    · rw [hnil] at he
      cases he
    · rw [hr] at he
      cases List.mem_singleton.mp he
      exact Or.inl ⟨single, hfn, hs, hrep⟩

/-- The edits of a signature are one replacement, or insertions only. -/
theorem signatureEdits_apart (fn : Node) (name : Option String) :
    (signatureEdits src fn name).Pairwise Edit.Apart := by
  cases hs : fn.child? "parameter" with
  | none =>
    refine Edit.insertions_apart fun e he => ?_
    obtain ⟨d, -, text, rfl⟩ := signatureEdits_insert hs he
    exact ⟨_, Edit.insertsAt_insertion _ _⟩
  | some single =>
    rcases signatureEdits_replace src name hs with hnil | ⟨r, hr, -⟩
    · rw [hnil]
      exact List.Pairwise.nil
    · rw [hr]
      exact List.pairwise_singleton _ _

theorem baseEdit?_inside {cls : Node} {name : String} {e : Edit} (h : Node.Nested cls)
    (he : baseEdit? src cls name = some e) : Inside cls e := by
  unfold baseEdit? at he
  split at he
  · next value hv =>
    split at he
    · cases he
    · cases he
      obtain ⟨sub, hsub, ht⟩ := List.exists_of_findSome?_eq_some hv
      obtain ⟨clause, hclause, hsub⟩ := List.mem_flatMap.mp hsub
      have hcls := Node.child_mem_walk (List.mem_filter.mp hclause).1
      have hsw := Node.walk_trans (Node.child_mem_walk (Node.mem_children_of_named hsub)) hcls
      refine inside_stop h (Node.walk_trans ?_ hsw) _
      unfold heritageTarget at ht
      split at ht
      · cases ht
      · split at ht
        · obtain ⟨hval, -⟩ := Prod.mk.inj (Option.some.inj ht)
          exact Node.child_mem_walk (Node.mem_children_of_child? hval)
        · cases ht
          exact Node.self_mem_walk _
  · cases he

end Retyping

end Retype

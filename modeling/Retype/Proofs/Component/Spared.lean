import Retype.Proofs.Component.Likeness
import Retype.Proofs.Component.Naming

/-!
# Modules that differ in what is assigned to one component

Two modules that read alike but for the prop types and the default values assigned to one
owner. If the statements that assign them hold no component of their own, both modules
declare and export the same, and the same component is found in both.
-/

set_option autoImplicit false

namespace Retype

namespace Property

/-- The members of a component that hold an object about its props. -/
def ownedKeys : List String := ["propTypes", "defaultProps"]

variable (src src' : Source)

def gives (owner : String) (stmt : Node) : Bool :=
  ownedKeys.any fun key => (assignedObject? src key stmt).any fun e => e.1 == owner

def isTypeOf (wanted : String) (n : Node) : Bool :=
  (n.kind == "interface_declaration" || n.kind == "type_alias_declaration") &&
    src.childText "name" n == wanted

/-- A node that is no class component, no class with objects about props, and no declaration
of the interface of an owner. -/
structure Mute (owner : String) (n : Node) : Prop where
  noComponent : n.isClass = true → Search.extendsComponent src n = false
  noObject : n.isClass = true → ∀ key ∈ ownedKeys, staticObjects src key n = []
  noInterface : isTypeOf src (owner ++ "Props") n = false

instance (owner : String) (n : Node) : Decidable (Mute src owner n) :=
  decidable_of_iff ((n.isClass = true → Search.extendsComponent src n = false) ∧
      (n.isClass = true → ∀ key ∈ ownedKeys, staticObjects src key n = []) ∧
      isTypeOf src (owner ++ "Props") n = false)
    ⟨fun h => ⟨h.1, h.2.1, h.2.2⟩, fun h => ⟨h.noComponent, h.noObject, h.noInterface⟩⟩

/-- Two modules that read alike but for the statements that assign objects about props to
`other`, with nothing in these statements that counts for `owner`. -/
structure Spared (owner other : String) (root root' : Node) : Prop where
  top : root.kind = "program"
  top' : root'.kind = "program"
  rest : List.Forall₂ (Node.Like src src') (root.children.filter fun s => !gives src other s)
    (root'.children.filter fun s => !gives src' other s)
  mute : ∀ s ∈ root.children, gives src other s = true → ∀ n ∈ s.walk, Mute src owner n
  mute' : ∀ s ∈ root'.children, gives src' other s = true → ∀ n ∈ s.walk, Mute src' owner n

variable {src src'}

theorem assignedObject?_eq {key : String} {stmt : Node} {e : String × Node}
    (h : assignedObject? src key stmt = some e) :
    stmt.kind = "expression_statement" ∧ ∃ expr left, stmt.namedChildren.head? = some expr ∧
      expr.child? "left" = some left ∧ e.1 = src.childText "object" left := by
  unfold assignedObject? at h
  split at h
  · next hk =>
    split at h
    · cases h
    · next expr hexpr =>
      split at h
      · split at h
        · next left right hl hr =>
          split at h
          · cases h
            exact ⟨eq_of_beq hk, expr, left, hexpr, hl, rfl⟩
          · cases h
        · cases h
      · cases h
  · cases h

theorem gives_iff {owner : String} {stmt : Node} : gives src owner stmt = true ↔
    ∃ key ∈ ownedKeys, ∃ e, assignedObject? src key stmt = some e ∧ e.1 = owner := by
  simp [gives, Option.any_eq_true]

theorem gives_eq {owner : String} {stmt stmt' : Node} (h : Node.Like src src' stmt stmt') :
    gives src owner stmt = gives src' owner stmt' :=
  List.any_congr rfl fun key => Alike.optionAny_eq (like_assignedObject? key h) fun _ _ he => by rw [he.name]

theorem kind_of_gives {owner : String} {stmt : Node} (h : gives src owner stmt = true) :
    stmt.kind = "expression_statement" := by
  obtain ⟨key, -, e, he, -⟩ := gives_iff.mp h
  exact (assignedObject?_eq he).1

theorem owner_of_gives {owner key : String} {stmt : Node} {e : String × Node}
    (h : gives src owner stmt = true) (he : assignedObject? src key stmt = some e) : e.1 = owner := by
  obtain ⟨key', -, e', he', rfl⟩ := gives_iff.mp h
  obtain ⟨-, expr, left, hexpr, hleft, heq⟩ := assignedObject?_eq he
  obtain ⟨-, expr', left', hexpr', hleft', heq'⟩ := assignedObject?_eq he'
  rw [hexpr] at hexpr'
  cases hexpr'
  rw [hleft] at hleft'
  cases hleft'
  rw [heq, heq']

end Property

/-! ## What both modules hold -/

structure Match.Like (src src' : Source) (m m' : Match) : Prop where
  name : m.name = m'.name
  node : Node.Like src src' m.node m'.node

namespace Property.Spared

open List (Forall₂)

variable {src src' : Source} {owner other : String} {root root' : Node}

/-- A module and the same module with statements at its end that assign to an owner. -/
theorem of_appended (given : List Node) (htop : root.kind = "program") (htop' : root'.kind = "program")
    (hchildren : root'.children = root.children ++ given)
    (hnone : ∀ s ∈ root.children, gives src other s = false)
    (hfront : src.octets.toList <+: src'.octets.toList)
    (hwithin : ∀ s ∈ root.children, ∀ n ∈ s.walk, n.stop ≤ src.octets.toList.length)
    (hgiven : ∀ s ∈ given, gives src' other s = true ∧ ∀ n ∈ s.walk, Mute src' owner n) :
    Spared src src' owner other root root' := by
  have hsame : ∀ s ∈ root.children, Node.Like src src' s s := fun s hs =>
    Node.Like.of_texts fun n hn => Node.Like.textOf_extended hfront (hwithin s hs n hn)
  have hnone' : ∀ s ∈ root.children, gives src' other s = false := fun s hs =>
    (gives_eq (hsame s hs)).symm.trans (hnone s hs)
  refine ⟨htop, htop', ?_, fun s hs hg => ?_, fun s hs hg => ?_⟩
  · have hkeep : (root.children.filter fun s => !gives src other s) = root.children :=
      List.filter_eq_self.mpr fun s hs => by rw [hnone s hs]; rfl
    have hkeep' : (root.children.filter fun s => !gives src' other s) = root.children :=
      List.filter_eq_self.mpr fun s hs => by rw [hnone' s hs]; rfl
    have hdrop : (given.filter fun s => !gives src' other s) = [] :=
      List.filter_eq_nil_iff.mpr fun s hs => by rw [(hgiven s hs).1]; decide
    rw [hchildren, List.filter_append, hkeep, hkeep', hdrop, List.append_nil]
    exact List.forall₂_same.mpr hsame
  · rw [hnone s hs] at hg
    cases hg
  · rw [hchildren, List.mem_append] at hs
    rcases hs with hs | hs
    · rw [hnone' s hs] at hg
      cases hg
    · exact (hgiven s hs).2

theorem statements (h : Spared src src' owner other root root') :
    Forall₂ (Statement.Like src src') (root.statements.filter fun s => !gives src other s.node)
      (root'.statements.filter fun s => !gives src' other s.node) :=
  Statement.like_of_children h.rest

theorem flatMap_statements {γ : Type} (src : Source) (other : String) {root : Node} {f : Statement → List γ}
    (hf : ∀ s ∈ root.statements, gives src other s.node = true → f s = []) :
    (root.statements.filter fun s => !gives src other s.node).flatMap f = root.statements.flatMap f :=
  Alike.flatMap_filter fun s hs hg => hf s hs (by simpa using hg)

theorem declarations (h : Spared src src' owner other root root') :
    Forall₂ (Declaration.Like src src') (Declaration.all src root) (Declaration.all src' root') := by
  rw [Declaration.all, Declaration.all,
    ← flatMap_statements src other fun s _ hg =>
      Declaration.ofStatement_expression (kind_of_gives hg),
    ← flatMap_statements src' other fun s _ hg =>
      Declaration.ofStatement_expression (kind_of_gives hg)]
  exact List.rel_flatMap h.statements fun _ _ hs => Declaration.like_ofStatement hs

theorem exports (h : Spared src src' owner other root root') :
    Exports.ofRoot src root = Exports.ofRoot src' root' := by
  rw [Exports.ofRoot, Exports.ofRoot,
    ← Alike.foldl_filter (p := fun s => !gives src other s.node) (f := Exports.add src) fun s _ hg =>
      Exports.add_expression (kind_of_gives (by simpa using hg)),
    ← Alike.foldl_filter (p := fun s => !gives src' other s.node) (f := Exports.add src') fun s _ hg =>
      Exports.add_expression (kind_of_gives (by simpa using hg)),
    Alike.foldl_eq h.statements fun e _ _ hs => Exports.like_add hs e]

theorem functionComponent (h : Spared src src' owner other root root') :
    Option.Rel (Match.Like src src') (Search.functionComponent src root)
      (Search.functionComponent src' root') := by
  have hfound := Alike.filterMap (P := fun x y => Declaration.Like src src' x.1 y.1 ∧ Node.Like src src' x.2 y.2)
    (f := fun d => ((Search.functionOf 2 d.node).filter src.returnsMarkup).map fun fn => (d, fn))
    (g := fun d => ((Search.functionOf 2 d.node).filter src'.returnsMarkup).map fun fn => (d, fn))
    h.declarations fun d d' hd =>
      Alike.map (Alike.optionFilter (Search.like_functionOf 2 hd.node) fun _ _ hn => hn.returnsMarkup)
        fun _ _ hn => ⟨hd, hn⟩
  rw [Search.functionComponent, Search.functionComponent]
  refine Alike.map (Alike.leastBy hfound fun x y hxy => ?_) fun x y hxy => ⟨hxy.1.name, hxy.2⟩
  dsimp only
  rw [h.exports, hxy.1.name, hxy.1.isDefault, hxy.1.exported]

theorem found_eq (src : Source) (root : Node) :
    ((Search.visits root).filterMap fun (s, v) => Search.classFound src s v) =
      root.statements.flatMap fun s => (s.node.visits [root]).filterMap (Search.classFound src s) := by
  rw [Search.visits, List.filterMap_flatMap]
  simp only [List.filterMap_map]
  rfl

theorem no_classFound {src : Source} {root : Node} {s : Statement}
    (h : ∀ n ∈ s.node.walk, n.isClass = true → Search.extendsComponent src n = false) :
    (s.node.visits [root]).filterMap (Search.classFound src s) = [] := by
  rw [List.filterMap_eq_nil_iff]
  intro v hv
  have hnone : ¬ (v.node.isClass && Search.extendsComponent src v.node) = true := by
    intro hboth
    obtain ⟨hclass, hext⟩ := Bool.and_eq_true_iff.mp hboth
    rw [h v.node (Node.mem_walk_of_visit hv) hclass] at hext
    cases hext
  rw [Search.classFound, if_neg hnone]

theorem classComponent (h : Spared src src' owner other root root') :
    Option.Rel (Match.Like src src') (Search.classComponent src root) (Search.classComponent src' root') := by
  have hfound : Forall₂ (Search.LikeFound src src')
      ((Search.visits root).filterMap fun (s, v) => Search.classFound src s v)
      ((Search.visits root').filterMap fun (s, v) => Search.classFound src' s v) := by
    rw [found_eq, found_eq,
      ← flatMap_statements src other fun s hs hg => no_classFound fun n hn =>
        (h.mute s.node (Node.mem_children_of_statement hs) hg n hn).noComponent,
      ← flatMap_statements src' other fun s hs hg => no_classFound fun n hn =>
        (h.mute' s.node (Node.mem_children_of_statement hs) hg n hn).noComponent]
    refine List.rel_flatMap h.statements fun s s' hs => ?_
    exact Alike.filterMap (Search.like_visits hs (.some (Or.inr ⟨h.top, h.top'⟩)))
      fun v v' hv => Search.like_classFound hv
  rw [Search.classComponent, Search.classComponent]
  refine Alike.map (Alike.leastBy hfound fun f f' hf => ?_) fun f f' hf => ⟨hf.name, hf.node⟩
  rw [h.exports, hf.name, hf.isDefault, hf.exported]

/-- What is gathered on a walk through the modules, if the statements that assign to the other
owner give nothing. -/
theorem walk_flatMap {γ δ : Type} {P : γ → δ → Prop} {f : Node → List γ} {g : Node → List δ}
    (h : Spared src src' owner other root root') (hfg : ∀ n n', Node.Like src src' n n' → Forall₂ P (f n) (g n'))
    (hf : f root = []) (hg : g root' = []) (hmute : ∀ n, Mute src owner n → f n = [])
    (hmute' : ∀ n, Mute src' owner n → g n = []) :
    Forall₂ P (root.walk.flatMap f) (root'.walk.flatMap g) := by
  -- the walk is the top, which gives nothing, and the walks through the children
  have hsplit : ∀ {γ : Type} {src : Source} {root : Node} {f : Node → List γ}, f root = [] →
      (∀ n, Mute src owner n → f n = []) →
      (∀ s ∈ root.children, gives src other s = true → ∀ n ∈ s.walk, Mute src owner n) →
      root.walk.flatMap f =
        (root.children.filter fun s => !gives src other s).flatMap fun s => s.walk.flatMap f := by
    intro γ src root f hroot hf hmute
    rw [Node.walk_eq, List.flatMap_cons, hroot, List.nil_append, List.flatMap_assoc]
    refine (Alike.flatMap_filter fun s hs hg => ?_).symm
    exact List.flatMap_eq_nil_iff.mpr fun n hn => hf n (hmute s hs (by simpa using hg) n hn)
  rw [hsplit hf hmute h.mute, hsplit hg hmute' h.mute']
  exact List.rel_flatMap h.rest fun s s' hs => List.rel_flatMap hs.walk fun n n' hn => hfg n n' hn

end Property.Spared

/-! ## The component that is found -/

namespace Classification

variable {src src' : Source} {path path' : String} {root root' : Node} {owner other : String}

theorem of_classComponent (path : String) {m : Match} (h : Search.classComponent src root = some m) :
    (ofRoot src path root).kind = .classComponent ∧ (ofRoot src path root).found = some m := by
  simp [ofRoot, Search.all, h]

theorem of_functionComponent (path : String) {m : Match} (hc : Search.classComponent src root = none)
    (h : Search.functionComponent src root = some m) :
    (ofRoot src path root).kind = .functionComponent ∧ (ofRoot src path root).found = some m := by
  simp [ofRoot, Search.all, hc, h]

/-- A module is a component if one of the first two searches finds something. -/
theorem component_iff : ((ofRoot src path root).kind = .functionComponent ∨
      (ofRoot src path root).kind = .classComponent) ↔
    (Search.classComponent src root).isSome = true ∨ (Search.functionComponent src root).isSome = true := by
  cases hc : Search.classComponent src root with
  | some m => simp [(of_classComponent path hc).1]
  | none =>
    cases hf : Search.functionComponent src root with
    | some m => simp [(of_functionComponent path hc hf).1]
    | none =>
      cases hh : Search.higherOrderComponent src root <;> cases hu : Search.customHook src root <;>
        cases hp : Search.contextProvider src root <;> simp [ofRoot, Search.all, hc, hf, hh, hu, hp]

theorem component_spared (h : Property.Spared src src' owner other root root') (path path' : String) :
    ((ofRoot src' path' root').kind = .functionComponent ∨ (ofRoot src' path' root').kind = .classComponent) ↔
      ((ofRoot src path root).kind = .functionComponent ∨ (ofRoot src path root).kind = .classComponent) := by
  rw [component_iff, component_iff, Alike.isSome_eq h.classComponent, Alike.isSome_eq h.functionComponent]

/-- The component that one of the modules is found to be, the other is found to be as well. -/
theorem found_spared (h : Property.Spared src src' owner other root root') (path' : String)
    (hk : (ofRoot src path root).kind = .functionComponent ∨ (ofRoot src path root).kind = .classComponent) :
    (ofRoot src' path' root').kind = (ofRoot src path root).kind ∧
      ∃ hit hit', (ofRoot src path root).found = some hit ∧ (ofRoot src' path' root').found = some hit' ∧
        Match.Like src src' hit hit' := by
  have hclass := h.classComponent
  have hfunction := h.functionComponent
  cases hc : Search.classComponent src root <;> cases hc' : Search.classComponent src' root' <;>
    rw [hc, hc'] at hclass <;> cases hclass
  · cases hf : Search.functionComponent src root <;> cases hf' : Search.functionComponent src' root' <;>
      rw [hf, hf'] at hfunction <;> cases hfunction
    · simp [component_iff, hc, hf] at hk
    · next hm =>
      obtain ⟨hkind, hfound⟩ := of_functionComponent path hc hf
      obtain ⟨hkind', hfound'⟩ := of_functionComponent path' hc' hf'
      exact ⟨hkind'.trans hkind.symm, _, _, hfound, hfound', hm⟩
  · next hm =>
    obtain ⟨hkind, hfound⟩ := of_classComponent path hc
    obtain ⟨hkind', hfound'⟩ := of_classComponent path' hc'
    exact ⟨hkind'.trans hkind.symm, _, _, hfound, hfound', hm⟩

/-- A component that is declared under a name has the same name in both modules. -/
theorem name_spared (h : Property.Spared src src' owner other root root') (path' : String)
    (hk : (ofRoot src path root).kind = .functionComponent ∨ (ofRoot src path root).kind = .classComponent)
    {g : String} (hg : (ofRoot src path root).declared = some g) :
    (ofRoot src' path' root').declared = some g ∧
      (ofRoot src' path' root').name = (ofRoot src path root).name := by
  obtain ⟨-, hit, hit', hfound, hfound', hlike⟩ := found_spared h path' hk
  have hdeclared : (ofRoot src' path' root').declared = some g := by
    rw [declared, hfound, Option.bind_some, hlike.name] at hg
    rw [declared, hfound', Option.bind_some, hg]
  refine ⟨hdeclared, ?_⟩
  rw [name_eq, name_eq, givenName, givenName, hdeclared, hg, h.exports]
  -- the path is not asked where the declaration has a name
  generalize (Exports.ofRoot src' root').byDefault.bind nonEmpty = own
  cases own with
  | none => simp only [Option.orElse_eq_orElse, Option.orElse_none, Option.getD_some]
  | some own => simp only [Option.orElse_eq_orElse, Option.orElse_some, Option.getD_some]

end Classification

end Retype

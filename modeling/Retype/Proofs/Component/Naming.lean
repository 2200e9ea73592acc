import Retype.Proofs.Retyping.Collision
import Retype.Proofs.Text.Identifier

/-!
# Names of components

The name of a component is read off a node of its module, or else off its path. Off a node
it is an identifier exactly if the node is one, and off a path exactly if the path happens
to hold one. The name of the interface is an identifier together with it.
-/

set_option autoImplicit false

namespace Retype

theorem nonEmpty_eq {s g : String} (h : nonEmpty s = some g) : s = g ∧ g ≠ "" := by
  unfold nonEmpty at h
  split at h
  · cases h
  · next hs =>
    cases h
    exact ⟨rfl, by simpa using hs⟩

namespace Node

/-- Nodes that give a name to a value: functions, classes, declarators, export specifiers
and whatever an export declares. -/
def isNamer (n : Node) : Bool :=
  n.isFunction || n.isClass || n.kind == "variable_declarator" || n.kind == "export_specifier" ||
    n.field == "declaration"

def isWord (n : Node) : Bool := ["identifier", "type_identifier", "default"].contains n.kind

def exportedWord? (stmt : Node) : Option Node :=
  if stmt.kind == "export_statement" then (stmt.value? "value").filter fun v => v.kind == "identifier"
  else none

def nameNodes (root : Node) : List Node :=
  (root.walk.filter isNamer).filterMap (child? "name") ++ root.children.filterMap exportedWord?

theorem mem_nameNodes_of_child {root p n : Node} (hp : p ∈ root.walk) (hk : p.isNamer = true)
    (hn : p.child? "name" = some n) : n ∈ root.nameNodes :=
  List.mem_append_left _ (List.mem_filterMap.mpr ⟨p, List.mem_filter.mpr ⟨hp, hk⟩, hn⟩)

theorem mem_nameNodes_of_export {root s v : Node} (hs : s ∈ root.children)
    (hk : s.kind = "export_statement") (hv : s.value? "value" = some v) (hw : v.kind = "identifier") :
    v ∈ root.nameNodes := by
  refine List.mem_append_right _ (List.mem_filterMap.mpr ⟨s, hs, ?_⟩)
  simp [exportedWord?, hk, hv, hw]

end Node

variable {src : Source} {root : Node} {path : String}

def ReadOff (src : Source) (root : Node) (g : String) : Prop :=
  g ≠ "" ∧ ∃ n ∈ root.nameNodes, src.textOf n = g

theorem readOff_child {p : Node} {g : String} (hp : p ∈ root.walk) (hk : p.isNamer = true)
    (hg : src.childText "name" p = g) (hne : g ≠ "") : ReadOff src root g := by
  unfold Source.childText at hg
  cases hn : p.child? "name" with
  | none =>
    rw [hn] at hg
    exact absurd hg.symm hne
  | some n =>
    rw [hn] at hg
    exact ⟨hne, n, Node.mem_nameNodes_of_child hp hk hn, hg⟩

theorem readOff_nameOf {p : Node} {g : String} (hp : p ∈ root.walk) (hk : p.isNamer = true)
    (hg : src.nameOf p = some g) : ReadOff src root g :=
  readOff_child hp hk (nonEmpty_eq hg).1 (nonEmpty_eq hg).2

theorem isNamer_of_function {n : Node} (h : n.isFunction = true ∨ n.isClass = true) : n.isNamer = true := by
  rcases h with h | h <;> simp [Node.isNamer, h]

theorem value_mem_walk {s v : Node} (hs : s ∈ root.children) (hv : s.value? "value" = some v) :
    v ∈ root.walk := by
  obtain ⟨w, hw, rfl⟩ := Option.map_eq_some_iff.mp hv
  exact Node.mem_walk_of_child hs
    (Node.mem_walk_of_child (Node.mem_children_of_child? hw) (Node.unwrap_mem_walk w))

/-! ## The default export -/

namespace Exports

theorem declaredNames_readOff {decl : Node} {g : String} (hd : decl ∈ root.walk)
    (hf : decl.field = "declaration") (hg : g ∈ declaredNames src decl) : ReadOff src root g := by
  unfold declaredNames at hg
  obtain ⟨hmem, hne⟩ := List.mem_filter.mp hg
  have hne : g ≠ "" := by simpa using hne
  split at hmem
  · obtain ⟨d, hd', hdg⟩ := List.mem_map.mp hmem
    obtain ⟨hdn, hdk⟩ := List.mem_filter.mp hd'
    have hwalk := Node.walk_trans (Node.child_mem_walk (Node.mem_children_of_named hdn)) hd
    exact readOff_child hwalk (by simp [Node.isNamer, hdk]) hdg hne
  · exact readOff_child hd (by simp [Node.isNamer, hf]) (List.mem_singleton.mp hmem).symm hne

def DefaultReadOff (src : Source) (root : Node) (e : Exports) : Prop :=
  ∀ g, e.byDefault = some g → g ≠ "" → ReadOff src root g

variable {e : Exports}

theorem addValue_readOff {stmt : Node} (hs : stmt ∈ root.children) (hk : stmt.kind = "export_statement")
    (h : DefaultReadOff src root e) : DefaultReadOff src root (addValue src stmt e) := by
  unfold addValue
  dsimp only
  split
  · next decl hdecl =>
    have hwalk := Node.mem_walk_of_child hs (Node.child_mem_walk (Node.mem_children_of_child? hdecl))
    split
    · intro g hg hne
      cases hnames : (declaredNames src decl).head? with
      | none => exact h g (by simpa [hnames] using hg) hne
      | some first =>
        have hfirst : first = g := by simpa [hnames] using hg
        subst hfirst
        exact declaredNames_readOff hwalk (Node.field_of_child? hdecl) (List.mem_of_mem_head? hnames)
    · exact h
  · next value _ hvalue =>
    split
    · split
      · next hw =>
        intro g hg hne
        cases hg
        exact ⟨hne, value, Node.mem_nameNodes_of_export hs hk hvalue (by simpa using hw), rfl⟩
      · split
        · next hf =>
          intro g hg _
          exact readOff_nameOf (value_mem_walk hs hvalue)
            (isNamer_of_function (Bool.or_eq_true_iff.mp hf)) hg
        · exact h
    · exact h
  · exact h

theorem addSpecifier_readOff {spec : Node} (hs : spec ∈ root.walk) (hk : spec.kind = "export_specifier")
    (h : DefaultReadOff src root e) : DefaultReadOff src root (addSpecifier src e spec) := by
  unfold addSpecifier
  dsimp only
  split
  · intro g hg hne
    exact readOff_child hs (by simp [Node.isNamer, hk]) (Option.some.inj hg) hne
  · split <;> exact h

theorem specifier_mem_walk {stmt spec : Node} (hs : stmt ∈ root.children) (h : spec ∈ specifiers stmt) :
    spec ∈ root.walk ∧ spec.kind = "export_specifier" := by
  obtain ⟨clause, hclause, hspec⟩ := List.mem_flatMap.mp h
  obtain ⟨hnamed, hk⟩ := List.mem_filter.mp hspec
  have hc := Node.child_mem_walk (Node.mem_children_of_named (List.mem_filter.mp hclause).1)
  have hp := Node.walk_trans (Node.child_mem_walk (Node.mem_children_of_named hnamed)) hc
  exact ⟨Node.mem_walk_of_child hs hp, by simpa using hk⟩

theorem add_readOff {s : Statement} (hs : s ∈ root.statements) (h : DefaultReadOff src root e) :
    DefaultReadOff src root (add src e s) := by
  unfold add
  split
  · next hx =>
    have hsc := Node.mem_children_of_statement hs
    have hk : s.node.kind = "export_statement" := by
      simpa [Statement.isExport] using (Bool.and_eq_true_iff.mp hx).1
    refine List.foldlRecOn _ _ (addValue_readOff hsc hk h) fun e he spec hspec => ?_
    obtain ⟨hwalk, hkind⟩ := specifier_mem_walk hsc hspec
    exact addSpecifier_readOff hwalk hkind he
  · exact h

theorem byDefault_readOff {g : String} (h : (ofRoot src root).byDefault.bind nonEmpty = some g) :
    ReadOff src root g := by
  obtain ⟨t, ht, hg⟩ := Option.bind_eq_some_iff.mp h
  obtain ⟨rfl, hne⟩ := nonEmpty_eq hg
  have hall : DefaultReadOff src root (root.statements.foldl (add src) ⟨none, []⟩) :=
    List.foldlRecOn _ _ (by intro g hg; cases hg) fun e he s hs => add_readOff hs he
  exact hall t ht hne

end Exports

/-! ## Declared names -/

namespace Node

mutual

theorem unwrap_unwrap : ∀ n : Node, n.unwrap.unwrap = n.unwrap
  | ⟨kind, named, start, stop, field, children⟩ => by
    by_cases hk : (kind == "parenthesized_expression") = true
    · cases h : unwrapFirst children with
      | none => simp [unwrap, hk, h]
      | some c => simp [unwrap, hk, h, unwrapFirst_unwrap children c h]
    · simp [unwrap, hk]

theorem unwrapFirst_unwrap : ∀ (cs : List Node) (c : Node), unwrapFirst cs = some c → c.unwrap = c
  | [], c, h => by simp [unwrapFirst] at h
  | d :: rest, c, h => by
    rw [unwrapFirst] at h
    split at h
    · cases h
      exact unwrap_unwrap d
    · exact unwrapFirst_unwrap rest c h

end

/-- What is above a node that was met on a walk is above the walk or on it. -/
theorem ancestors_mem_walk {above : List Node} {n : Node} {v : Visit} (h : v ∈ visits above n) :
    ∀ a ∈ v.ancestors, a ∈ above ∨ a ∈ n.walk := by
  induction n using children_induction generalizing above with
  | step n ih =>
    rw [visits_eq, List.mem_cons, List.mem_flatMap] at h
    rcases h with rfl | ⟨c, hc, hv⟩
    · exact fun a ha => Or.inl ha
    · intro a ha
      rcases ih c hc hv a ha with hin | hin
      · rcases List.mem_cons.mp hin with rfl | hin
        · exact Or.inr (self_mem_walk a)
        · exact Or.inl hin
      · exact Or.inr (mem_walk_of_child hc hin)

end Node

/-- What a parser promises of names, for the characters that it takes into names: a node that
gives a name is an identifier exactly if it reads like one, and calls have no names. -/
structure WellNamed (x : Script) (src : Source) (root : Node) : Prop where
  words : ∀ n ∈ root.nameNodes, n.isWord = true ↔ x.isIdentifier (src.textOf n) = true
  nameless : ∀ c ∈ root.walk, c.isCall = true → c.child? "name" = none

instance (x : Script) (src : Source) (root : Node) : Decidable (WellNamed x src root) :=
  decidable_of_iff ((∀ n ∈ root.nameNodes, n.isWord = true ↔ x.isIdentifier (src.textOf n) = true) ∧
      ∀ c ∈ root.walk, c.isCall = true → c.child? "name" = none)
    ⟨fun ⟨h1, h2⟩ => ⟨h1, h2⟩, fun ⟨h1, h2⟩ => ⟨h1, h2⟩⟩

theorem WellNamed.readOff_word {x : Script} {n : Node} (h : WellNamed x src root)
    (hn : n ∈ root.nameNodes) (hk : n.kind = "identifier") : ReadOff src root (src.textOf n) := by
  refine ⟨?_, n, hn, rfl⟩
  intro hempty
  have hword := (h.words n hn).mp (by simp [Node.isWord, hk])
  rw [hempty] at hword
  exact absurd hword (by simp [Script.isIdentifier])

namespace Search

/-- Only a function and a call have a function behind them. -/
theorem functionOf_cases {levels : Nat} {n fn : Node} (h : functionOf levels n = some fn) :
    n.unwrap.isFunction = true ∨ n.unwrap.isCall = true := by
  cases levels with
  | zero =>
    rw [functionOf] at h
    split at h
    · exact Or.inl ‹_›
    · cases h
  | succ levels =>
    rw [functionOf] at h
    split at h
    · exact Or.inl ‹_›
    · split at h
      · exact Or.inr ‹_›
      · cases h

end Search

namespace Declaration

theorem ofVariables_readOff {x : Script} {s : Statement} {exported isDefault : Bool} {list : Node}
    {d : Declaration} {g : String} (h : WellNamed x src root) (hl : list ∈ root.walk)
    (hd : d ∈ ofVariables src s exported isDefault list) (hg : d.name = some g) : ReadOff src root g := by
  obtain ⟨v, hv, hd⟩ := List.mem_filterMap.mp hd
  split at hd
  · next hk =>
    split at hd
    · next name value hname _ =>
      split at hd
      · next hw =>
        cases hd
        cases hg
        have hwalk := Node.walk_trans (Node.child_mem_walk (Node.mem_children_of_named hv)) hl
        exact h.readOff_word (Node.mem_nameNodes_of_child hwalk (by simp [Node.isNamer, hk]) hname)
          (by simpa using hw)
      · cases hd
    · cases hd
  · cases hd

theorem ofInner_readOff {x : Script} {s : Statement} {exported isDefault : Bool} {inner : Node}
    {d : Declaration} {g : String} (h : WellNamed x src root) (hi : inner ∈ root.walk)
    (hd : d ∈ ofInner src s exported isDefault inner) (hg : d.name = some g) : ReadOff src root g := by
  unfold ofInner at hd
  split at hd
  · next hk =>
    cases List.mem_singleton.mp hd
    exact readOff_nameOf hi (isNamer_of_function (Bool.or_eq_true_iff.mp hk)) hg
  · split at hd
    · exact ofVariables_readOff h hi hd hg
    · cases hd

/-- The name of a declared value with a function behind it is read off the module. -/
theorem name_readOff {x : Script} {d : Declaration} {levels : Nat} {fn : Node} {g : String}
    (h : WellNamed x src root) (hd : d ∈ all src root)
    (hfn : Search.functionOf levels d.node = some fn) (hg : d.name = some g) : ReadOff src root g := by
  obtain ⟨hds, hdo⟩ := mem_all hd
  have hsc := Node.mem_children_of_statement hds
  unfold ofStatement at hdo
  split at hdo
  · next hx =>
    have hk : d.statement.node.kind = "export_statement" := by simpa [Statement.isExport] using hx
    dsimp only at hdo
    split at hdo
    · next inner hinner =>
      have hwalk := Node.mem_walk_of_child hsc (Node.child_mem_walk (Node.mem_children_of_child? hinner))
      exact ofInner_readOff h hwalk hdo hg
    · next value _ hvalue =>
      have hwalk := value_mem_walk hsc hvalue
      have heq := List.mem_singleton.mp hdo
      rw [heq] at hg hfn
      dsimp only at hg hfn
      split at hg
      · next hw =>
        cases hg
        have hk' : value.kind = "identifier" := by simpa using hw
        exact h.readOff_word (Node.mem_nameNodes_of_export hsc hk hvalue hk') hk'
      · obtain ⟨w, -, rfl⟩ := Option.map_eq_some_iff.mp hvalue
        have hcases := Search.functionOf_cases hfn
        rw [Node.unwrap_unwrap] at hcases
        rcases hcases with hf | hcall
        · exact readOff_nameOf hwalk (isNamer_of_function (Or.inl hf)) hg
        · simp [Source.nameOf, Source.childText, h.nameless _ hwalk hcall, Source.textOf?, nonEmpty] at hg
    · cases hdo
  · exact ofInner_readOff h (Node.mem_walk_of_child hsc (Node.self_mem_walk _)) hdo hg

end Declaration

namespace Search

theorem classFound_readOff {s : Statement} {v : Node.Visit} {f : ClassFound} {g : String}
    (hv : v.node ∈ root.walk) (hp : ∀ p ∈ v.parent?, p ∈ root.walk)
    (hf : classFound src s v = some f) (hg : f.hit.name = some g) : ReadOff src root g := by
  unfold classFound at hf
  split at hf
  · next hk =>
    cases hf
    dsimp only at hg
    cases hn : src.nameOf v.node with
    | some own =>
      rw [hn] at hg
      cases hg
      exact readOff_nameOf hv (isNamer_of_function (Or.inr (Bool.and_eq_true_iff.mp hk).1)) hn
    | none =>
      rw [hn, Option.orElse_eq_orElse, Option.orElse_none] at hg
      split at hg
      · next p hparent =>
        split at hg
        · next hdeclarator =>
          exact readOff_nameOf (hp p hparent) (by simp [Node.isNamer, hdeclarator]) hg
        · cases hg
      · cases hg
  · cases hf

theorem classComponent_readOff {hit : Match} {g : String} (h : classComponent src root = some hit)
    (hg : hit.name = some g) : ReadOff src root g := by
  obtain ⟨f, hleast, rfl⟩ := Option.map_eq_some_iff.mp h
  obtain ⟨⟨s, v⟩, hv, hfound⟩ := List.mem_filterMap.mp (Order.mem_of_leastBy hleast)
  obtain ⟨t, ht, hv⟩ := List.mem_flatMap.mp hv
  obtain ⟨w, hw, heq⟩ := List.mem_map.mp hv
  cases heq
  have hsc := Node.mem_children_of_statement ht
  refine classFound_readOff (Node.mem_walk_of_child hsc (Node.mem_walk_of_visit hw)) ?_ hfound hg
  intro p hp
  rcases Node.ancestors_mem_walk hw p (List.mem_of_mem_head? hp) with hin | hin
  · rw [List.mem_singleton.mp hin]
    exact Node.self_mem_walk root
  · exact Node.mem_walk_of_child hsc hin

end Search

namespace Classification

/-- The name of a component is read off the module, if its declaration has one. -/
theorem declared_readOff {x : Script} {g : String} (h : WellNamed x src root)
    (hk : (ofRoot src path root).kind = .functionComponent ∨ (ofRoot src path root).kind = .classComponent)
    (hg : (ofRoot src path root).declared = some g) : ReadOff src root g := by
  obtain ⟨hit, hfound, hname⟩ := Option.bind_eq_some_iff.mp hg
  obtain ⟨search, hmem, hsearch⟩ := found_by_search hfound
  rcases hk with hk | hk
  · simp [hk, Search.all] at hmem
    subst hmem
    obtain ⟨d, hd, hdn, -, hfn⟩ := Search.functionComponent_declared hsearch
    exact Declaration.name_readOff h hd hfn (hdn ▸ hname)
  · simp [hk, Search.all] at hmem
    subst hmem
    exact Search.classComponent_readOff hsearch hname

/-- The name that a module gives its component: that of the default export, or else that of
the declaration. -/
def givenName (src : Source) (path : String) (root : Node) : Option String :=
  (Exports.ofRoot src root).byDefault.bind nonEmpty <|> (ofRoot src path root).declared

theorem name_eq : (ofRoot src path root).name = (givenName src path root).getD (moduleName path) := rfl

theorem givenName_readOff {x : Script} {g : String} (h : WellNamed x src root)
    (hk : (ofRoot src path root).kind = .functionComponent ∨ (ofRoot src path root).kind = .classComponent)
    (hg : givenName src path root = some g) : ReadOff src root g := by
  unfold givenName at hg
  cases hdefault : (Exports.ofRoot src root).byDefault.bind nonEmpty with
  | some own =>
    rw [hdefault] at hg
    cases hg
    exact Exports.byDefault_readOff hdefault
  | none =>
    rw [hdefault, Option.orElse_eq_orElse, Option.orElse_none] at hg
    exact declared_readOff h hk hg

end Classification

/-! ## The name of the interface -/

/-- A name that is good for an interface: it is read off an identifier of the module, or, for
a component without a name, the path holds an identifier or nothing. -/
def NamedWell (x : Script) (src : Source) (path : String) (root : Node) : Prop :=
  match Classification.givenName src path root with
  | some g => ∃ n ∈ root.nameNodes, n.isWord = true ∧ src.textOf n = g
  | none => moduleName path = "" ∨ x.isIdentifier (moduleName path) = true

namespace SourceUnit

/-- Only a component has an interface, and the interface is named after it. -/
theorem interfaceName_eq {u : SourceUnit} {t : Tree} (ht : u.tree = some t) (hte : t.hasError = false)
    {table : AliasTable} {placement : Placement} {name : String}
    (hname : (Synthesis.ofProfile (u.profile table) placement).interfaceName = some name) :
    let c := Classification.ofRoot u.source u.path t.root
    name = c.name ++ "Props" ∧ (c.kind = .functionComponent ∨ c.kind = .classComponent) := by
  intro c
  have hclass : Classification.ofUnit u = c := classification_of_tree ht hte
  have hprofile : (u.profile table).name = c.name := congrArg Classification.name hclass
  have hcomponent : Synthesis.hasInterface (u.profile table) = true := by
    by_contra hnone
    rw [Synthesis.ofProfile, if_neg hnone] at hname
    cases hname
  rw [Synthesis.ofProfile, if_pos hcomponent, hprofile] at hname
  refine ⟨(Option.some.inj hname).symm, ?_⟩
  have hkind := (Bool.and_eq_true_iff.mp hcomponent).1
  rw [profile_kind, hclass] at hkind
  simpa using hkind

/-- The name of an interface is the name of its component and `Props`. It is an identifier
exactly if the component is named well. -/
theorem interfaceName_identifier {x : Script} {u : SourceUnit} {t : Tree} (ht : u.tree = some t)
    (hte : t.hasError = false) (hw : WellNamed x u.source t.root) (table : AliasTable)
    (placement : Placement) {name : String}
    (hname : (Synthesis.ofProfile (u.profile table) placement).interfaceName = some name) :
    name = (Classification.ofRoot u.source u.path t.root).name ++ "Props" ∧
      (x.isIdentifier name = true ↔ NamedWell x u.source u.path t.root) := by
  obtain ⟨rfl, hkind⟩ := interfaceName_eq ht hte hname
  refine ⟨rfl, ?_⟩
  rw [x.isIdentifier_append (by decide) (List.all_eq_true.mp (by decide)), Classification.name_eq, NamedWell]
  cases hgiven : Classification.givenName u.source u.path t.root with
  | none => simp only [Option.getD_none]
  | some g =>
    obtain ⟨hne, n, hn, rfl⟩ := Classification.givenName_readOff hw hkind hgiven
    rw [Option.getD_some, or_iff_right hne]
    constructor
    · exact fun h => ⟨n, hn, (hw.words n hn).mpr h, rfl⟩
    · rintro ⟨m, hm, hword, heq⟩
      exact heq ▸ (hw.words m hm).mp hword

/-- A component without a name: `export default p => <b/>;`. -/
def nameless (path : String) : SourceUnit where
  path := path
  language := .javascript
  source := .ofText "export default p => <b/>;"
  tree := some ⟨⟨"program", true, 0, 25, "",
    [⟨"export_statement", true, 0, 25, "",
      [⟨"export", false, 0, 6, "", []⟩, ⟨"default", false, 7, 14, "", []⟩,
       ⟨"arrow_function", true, 15, 24, "value",
        [⟨"identifier", true, 15, 16, "parameter", []⟩, ⟨"=>", false, 17, 19, "", []⟩,
         ⟨"jsx_self_closing_element", true, 20, 24, "body",
          [⟨"<", false, 20, 21, "", []⟩, ⟨"identifier", true, 21, 22, "name", []⟩,
           ⟨"/>", false, 22, 24, "", []⟩]⟩]⟩,
       ⟨";", false, 24, 25, "", []⟩]⟩]⟩, false⟩

theorem nameless_of_folder :
    (Synthesis.ofProfile ((nameless "components/Button/index.jsx").profile ⟨AliasTable.standard, []⟩)
      .inline).interfaceName = some "ButtonProps" ∧
      Script.ascii.isIdentifier "ButtonProps" = true := by
  obtain ⟨t, ht⟩ : ∃ t, (nameless "components/Button/index.jsx").tree = some t := ⟨_, rfl⟩
  have hte : t.hasError = false := by
    cases ht
    rfl
  have hw : WellNamed .ascii (nameless "components/Button/index.jsx").source t.root := by
    cases ht
    decide +kernel
  have hname : (Synthesis.ofProfile ((nameless "components/Button/index.jsx").profile
      ⟨AliasTable.standard, []⟩) .inline).interfaceName = some "ButtonProps" := by decide +kernel
  have hwell : NamedWell .ascii (nameless "components/Button/index.jsx").source
      (nameless "components/Button/index.jsx").path t.root := by
    cases ht
    exact Or.inr (by decide +kernel)
  exact ⟨hname, (interfaceName_identifier ht hte hw _ _ hname).2.mpr hwell⟩

/-- A file name need not be an identifier, whatever characters names may have. -/
theorem nameless_of_file :
    (nameless "components/my-widget.jsx").hasError = false ∧
      (Synthesis.ofProfile ((nameless "components/my-widget.jsx").profile ⟨AliasTable.standard, []⟩)
        .inline).interfaceName = some "my-widgetProps" ∧
      ∀ x : Script, x.isIdentifier "my-widgetProps" = false := by
  refine ⟨rfl, by decide +kernel, fun x => ?_⟩
  rfl

end SourceUnit

end Retype

import Retype.Proofs.Retyping.Collision

/-!
# Modules at rest

A module that is retyped for its own path stays as it is if and only if it has already
all that retyping gives. What it has is said here of the tree: which declarations and
imports bind the name of the interface, which part of a parameter takes a type note, what
a class extends, which state calls have type arguments. Each kind of edit is absent exactly
when its part of that holds.
-/

set_option autoImplicit false

namespace Retype

namespace Retyping

/-! ## What a module has already -/

/-- A statement at the top of a module, or the declaration that it exports. -/
inductive TopDeclaration (root : Node) : Node → Prop
  | plain {d : Node} (hd : d ∈ root.namedChildren) (hk : d.kind ≠ "export_statement") :
      TopDeclaration root d
  | exported {stmt d : Node} (hstmt : stmt ∈ root.namedChildren)
      (hk : stmt.kind = "export_statement") (hd : stmt.child? "declaration" = some d) :
      TopDeclaration root d

def TypeDeclared (src : Source) (root : Node) (name : String) : Prop :=
  ∃ d, TopDeclaration root d ∧
    (d.kind = "interface_declaration" ∨ d.kind = "type_alias_declaration") ∧
    src.childText "name" d = name

inductive PartBinds (src : Source) (part : Node) : String → Prop
  | byDefault (hk : part.kind = "identifier") : PartBinds src part (src.textOf part)
  | wholly {i : Node} (hk : part.kind = "namespace_import") (hi : i ∈ part.namedChildren)
      (hik : i.kind = "identifier") : PartBinds src part (src.textOf i)
  | listed {spec : Node} (hk : part.kind = "named_imports") (hs : spec ∈ part.namedChildren)
      (hsk : spec.kind = "import_specifier") : PartBinds src part (Import.boundName src spec)

def ImportBinds (src : Source) (root : Node) (name : String) : Prop :=
  ∃ stmt ∈ root.namedChildren, stmt.kind = "import_statement" ∧
    ∃ clause ∈ stmt.namedChildren, clause.kind = "import_clause" ∧
      ∃ part ∈ clause.namedChildren, PartBinds src part name

/-- A pattern that takes a type note right behind it. -/
def TakesNote (n : Node) : Prop :=
  n.kind = "identifier" ∨ n.kind = "object_pattern" ∨ n.kind = "array_pattern"

/-- A parameter has no type, and a part of it takes a note. -/
inductive Untyped : Node → Node → Prop
  | plain {p : Node} (ht : TakesNote p) : Untyped p p
  | byDefault {p t : Node} (hk : p.kind = "assignment_pattern") (hl : p.child? "left" = some t)
      (ht : TakesNote t) : Untyped p t
  | wrapped {p t : Node} (hk : p.kind = "required_parameter" ∨ p.kind = "optional_parameter")
      (hno : p.child? "type" = none) (hp : p.child? "pattern" = some t) (ht : TakesNote t) :
      Untyped p t

/-- A function component has its types. Only an interface calls for the type of a
parameter; the type of the result is called for in any case. -/
structure Signed (fn : Node) (interfaceName : Option String) : Prop where
  bare : interfaceName.isSome → fn.child? "parameter" = none
  parameter : interfaceName.isSome → ∀ p, Property.firstParameter? fn = some p → ∀ t, ¬ Untyped p t
  result : (fn.child? "return_type").isSome ∨ fn.hasToken "async" = true ∨
    (fn.child? "parameter" = none ∧ fn.child? "parameters" = none)

/-- What a class extends: the first entry of its heritage that is no list of interfaces. -/
def extended? (cls : Node) : Option Node :=
  ((cls.children.filter fun c => c.kind == "class_heritage").flatMap Node.namedChildren).find?
    fun sub => sub.kind != "implements_clause"

/-- An extended entry has no type arguments, and a value that takes some. -/
inductive Unapplied (src : Source) : Node → Node → Prop
  | clause {sub value : Node} (hk : sub.kind = "extends_clause")
      (hno : sub.child? "type_arguments" = none) (hv : sub.child? "value" = some value)
      (ht : Affix.occurs "<" (src.textOf value) = false) : Unapplied src sub value
  | expression {sub : Node} (hk : sub.kind ≠ "extends_clause")
      (ht : Affix.occurs "<" (src.textOf sub) = false) : Unapplied src sub sub

/-- A module has all that retyping it for its own path gives. -/
structure AtRest (src : Source) (root : Node) (table : AliasTable) (path : String)
    (c : Classification) (interfaceName : Option String) : Prop where
  interface : ∀ name, interfaceName = some name → TypeDeclared src root name ∨ ImportBinds src root name
  signature : c.kind = .functionComponent → ∀ hit, c.found = some hit → Signed hit.node interfaceName
  base : c.kind = .classComponent → interfaceName.isSome → ∀ hit, c.found = some hit →
    ∀ sub, extended? hit.node = some sub → ∀ value, ¬ Unapplied src sub value
  states : ∀ n ∈ root.walk, n.isCall = true → src.hook? n = some "useState" →
    (n.child? "type_arguments").isSome
  specifiers : ∀ stmt ∈ root.namedChildren,
    (stmt.kind = "import_statement" ∨ stmt.kind = "export_statement") →
    ∀ n, stmt.child? "source" = some n → ∀ spec, src.stringOf? n = some spec →
    table.isInternal spec = true → table.normalize spec path path = spec

variable {src : Source} {root : Node}

/-! ## The interface -/

theorem topDeclaration_iff {d : Node} :
    TopDeclaration root d ↔ ∃ stmt ∈ root.namedChildren, declarationOf stmt = some d := by
  constructor
  · rintro (⟨hd, hk⟩ | ⟨hstmt, hk, hd⟩)
    · exact ⟨d, hd, by simp [declarationOf, hk]⟩
    · exact ⟨_, hstmt, by simp [declarationOf, hk, hd]⟩
  · rintro ⟨stmt, hstmt, h⟩
    unfold declarationOf at h
    split at h
    · next hk => exact .exported hstmt (by simpa using hk) h
    · next hk =>
      cases h
      exact .plain hstmt (by simpa using hk)

theorem declaresType_iff {name : String} :
    declaresType src root name = true ↔ TypeDeclared src root name := by
  simp only [declaresType, TypeDeclared, topDeclaration_iff, List.any_eq_true, Option.any_eq_true,
    Bool.and_eq_true, Bool.or_eq_true, beq_iff_eq]
  constructor
  · rintro ⟨stmt, hstmt, d, hd, hk⟩
    exact ⟨d, ⟨stmt, hstmt, hd⟩, hk⟩
  · rintro ⟨d, ⟨stmt, hstmt, hd⟩, hk⟩
    exact ⟨stmt, hstmt, d, hd, hk⟩

theorem mem_clauseNames {part : Node} {name : String} :
    name ∈ Import.clauseNames src part ↔ PartBinds src part name := by
  unfold Import.clauseNames
  constructor
  · intro h
    split at h
    · next hk =>
      cases List.mem_singleton.mp h
      exact .byDefault (by simpa using hk)
    · split at h
      · next hk =>
        obtain ⟨i, hi, rfl⟩ := List.mem_map.mp h
        obtain ⟨hi, hik⟩ := List.mem_filter.mp hi
        exact .wholly (by simpa using hk) hi (by simpa using hik)
      · split at h
        · next hk =>
          obtain ⟨spec, hs, rfl⟩ := List.mem_map.mp h
          obtain ⟨hs, hsk⟩ := List.mem_filter.mp hs
          exact .listed (by simpa using hk) hs (by simpa using hsk)
        · cases h
  · rintro (hk | ⟨hk, hi, hik⟩ | ⟨hk, hs, hsk⟩)
    · simp [hk]
    · simp only [hk, String.reduceBEq, Bool.false_eq_true, if_false, if_true]
      exact List.mem_map_of_mem (List.mem_filter.mpr ⟨hi, by simpa using hik⟩)
    · simp only [hk, String.reduceBEq, Bool.false_eq_true, if_false, if_true]
      exact List.mem_map_of_mem (List.mem_filter.mpr ⟨hs, by simpa using hsk⟩)

theorem mem_importedNames {name : String} :
    name ∈ importedNames src root ↔ ImportBinds src root name := by
  simp only [importedNames, importStatements, Import.importedNames, List.mem_flatMap,
    List.mem_filter, mem_clauseNames, beq_iff_eq, and_assoc, ImportBinds]

theorem missingInterface?_eq_none {s : Synthesis} : missingInterface? src root s = none ↔
    ∀ name, s.interfaceName = some name → TypeDeclared src root name ∨ ImportBinds src root name := by
  simp only [missingInterface?, Option.filter_eq_none_iff, Bool.and_eq_true, Bool.not_eq_true',
    ← declaresType_iff, ← mem_importedNames]
  refine forall_congr' fun name => forall_congr' fun _ => ?_
  by_cases hd : declaresType src root name = true <;> simp [hd]

theorem interfaceEdits_eq_nil {c : Classification} {s : Synthesis} {target : String} :
    interfaceEdits src root c s target = [] ↔ missingInterface? src root s = none := by
  unfold interfaceEdits
  split
  · next h => simp [h]
  · next name h => cases s.placement <;> simp [h]

/-! ## The signature -/

theorem notable?_eq_some {p t : Node} : notable? p = some t ↔ Untyped p t := by
  have hwrapped : Property.isTypedParameter p = true ↔
      p.kind = "required_parameter" ∨ p.kind = "optional_parameter" := by
    simp [Property.isTypedParameter]
  have htakes : ∀ n : Node, ["identifier", "object_pattern", "array_pattern"].contains n.kind = true ↔
      TakesNote n := by
    intro n
    simp [TakesNote]
  unfold notable?
  rw [Option.filter_eq_some_iff, htakes]
  constructor
  · rintro ⟨h, ht⟩
    split at h
    · next hk =>
      split at h
      · cases h
      · next hno => exact .wrapped (hwrapped.mp hk) (by simpa using hno) h ht
    · split at h
      · next hk => exact .byDefault (by simpa using hk) h ht
      · cases h
        exact .plain ht
  · rintro (ht | ⟨hk, hl, ht⟩ | ⟨hk, hno, hp, ht⟩)
    · refine ⟨?_, ht⟩
      rcases ht with ht | ht | ht <;> simp [Property.isTypedParameter, ht]
    · refine ⟨?_, ht⟩
      simp [Property.isTypedParameter, hk, hl]
    · refine ⟨?_, ht⟩
      simp [hwrapped.mpr hk, hno, hp]

theorem resultType?_eq_none {fn : Node} :
    resultType? fn = none ↔ (fn.child? "return_type").isSome ∨ fn.hasToken "async" = true := by
  unfold resultType?
  split
  · next h => simpa using h
  · next h => simpa using h

theorem signatureEdits_bare {fn single : Node} {name : Option String}
    (hs : fn.child? "parameter" = some single) :
    signatureEdits src fn name = [] ↔ name = none ∧ resultType? fn = none := by
  simp only [signatureEdits, hs]
  simp

theorem signatureEdits_listed {fn : Node} {name : Option String}
    (hs : fn.child? "parameter" = none) : signatureEdits src fn name = [] ↔
      (name.isSome → ∀ p, Property.firstParameter? fn = some p → ∀ t, ¬ Untyped p t) ∧
        (resultType? fn = none ∨ fn.child? "parameters" = none) := by
  simp only [signatureEdits, hs]
  rw [List.append_eq_nil_iff, Option.toList_eq_nil_iff, Option.map_eq_none_iff]
  refine and_congr ?_ ?_
  · cases name with
    | none => simp
    | some n =>
      simp only [Option.bind_eq_none_iff, Option.isSome_some, true_implies, ← notable?_eq_some]
      refine forall_congr' fun p => forall_congr' fun _ => ?_
      exact Option.eq_none_iff_forall_ne_some
  · cases resultType? fn <;> cases fn.child? "parameters" <;> simp

/-- A function gets no edit exactly when it has its types. -/
theorem signatureEdits_eq_nil {fn : Node} {name : Option String} :
    signatureEdits src fn name = [] ↔ Signed fn name := by
  cases hs : fn.child? "parameter" with
  | some single =>
    rw [signatureEdits_bare hs, resultType?_eq_none]
    constructor
    · rintro ⟨rfl, hr⟩
      exact ⟨by simp, by simp, or_assoc.mp (Or.inl hr)⟩
    · rintro ⟨hb, -, hr⟩
      refine ⟨?_, by simpa [hs] using hr⟩
      cases name with
      | none => rfl
      | some n => simp [hs] at hb
  | none =>
    rw [signatureEdits_listed hs, resultType?_eq_none, or_assoc]
    constructor
    · rintro ⟨hp, hr⟩
      exact ⟨fun _ => hs, hp, by simpa [hs] using hr⟩
    · rintro ⟨-, hp, hr⟩
      exact ⟨hp, by simpa [hs] using hr⟩

/-! ## The base of a class -/

theorem heritageTarget_eq_none {sub : Node} :
    heritageTarget sub = none ↔ sub.kind = "implements_clause" := by
  unfold heritageTarget
  split
  · next h => simpa using h
  · next h =>
    split <;> simpa using h

theorem baseEdit?_eq (cls : Node) (name : String) :
    baseEdit? src cls name = match (extended? cls).bind heritageTarget with
      | some (some value, false) =>
        if Affix.occurs "<" (src.textOf value) then none
        else some (Edit.insertion value.stop ("<" ++ name ++ ">"))
      | _ => none := by
  have hfind : ∀ subs : List Node, subs.findSome? heritageTarget =
      (subs.find? fun sub => sub.kind != "implements_clause").bind heritageTarget := by
    intro subs
    induction subs with
    | nil => rfl
    | cons sub subs ih =>
      by_cases hk : sub.kind = "implements_clause"
      · rw [List.findSome?_cons, heritageTarget_eq_none.mpr hk, List.find?_cons_of_neg (by simp [hk])]
        exact ih
      · rw [List.findSome?_cons, List.find?_cons_of_pos (by simpa using hk), Option.bind_some]
        cases h : heritageTarget sub with
        | none => exact absurd (heritageTarget_eq_none.mp h) hk
        | some x => rfl
  rw [baseEdit?, hfind]
  rfl

theorem unapplied_iff {cls sub value : Node} (hsub : extended? cls = some sub) : Unapplied src sub value ↔
    heritageTarget sub = some (some value, false) ∧ Affix.occurs "<" (src.textOf value) = false := by
  have hk : sub.kind ≠ "implements_clause" := by
    simpa using List.find?_some hsub
  have hk' : (sub.kind == "implements_clause") = false := by simpa using hk
  constructor
  · rintro (⟨hk, hno, hv, ht⟩ | ⟨hk, ht⟩)
    · exact ⟨by simp [heritageTarget, hk, hno, hv], ht⟩
    · exact ⟨by simp [heritageTarget, hk, hk'], ht⟩
  · rintro ⟨h, ht⟩
    simp only [heritageTarget, hk', Bool.false_eq_true, if_false] at h
    split at h
    · next hk =>
      simp only [Option.some.injEq, Prod.mk.injEq, Option.isSome_eq_false_iff, Option.isNone_iff_eq_none] at h
      exact .clause (by simpa using hk) h.2 h.1 ht
    · next hk =>
      cases h
      exact .expression (by simpa using hk) ht

/-- A class gets no edit exactly when its base takes no type argument. -/
theorem baseEdit?_eq_none {cls : Node} {name : String} : baseEdit? src cls name = none ↔
    ∀ sub, extended? cls = some sub → ∀ value, ¬ Unapplied src sub value := by
  rw [baseEdit?_eq]
  cases hsub : extended? cls with
  | none => simp
  | some sub =>
    simp only [Option.bind_some, Option.some.injEq, forall_eq']
    simp only [unapplied_iff hsub]
    cases h : heritageTarget sub with
    | none => simp
    | some x =>
      obtain ⟨value, typed⟩ := x
      cases value <;> cases typed <;> simp

/-! ## State calls and specifiers -/

theorem stateEdit?_eq_none {v : Node.Visit} : stateEdit? src v = none ↔
    (v.node.isCall = true → src.hook? v.node = some "useState" →
      (v.node.child? "type_arguments").isSome) := by
  have hcallee : src.hook? v.node = some "useState" → (v.node.child? "function").isSome := by
    intro h
    unfold Source.hook? at h
    split at h
    · cases h
    · next hf => rw [hf]; rfl
  unfold stateEdit?
  split
  · next h =>
    simp only [Bool.and_eq_true, beq_iff_eq, Option.isNone_iff_eq_none] at h
    have hsome := hcallee h.1.2
    simp [h, Option.isSome_iff_ne_none.mp hsome]
  · next h =>
    simp only [Bool.and_eq_true, beq_iff_eq, Option.isNone_iff_eq_none, not_and, and_imp] at h
    simp only [true_iff]
    exact fun hc hu => Option.isSome_iff_ne_none.mpr (h hc hu)

theorem stateEdits_eq_nil : stateEdits src root = [] ↔
    ∀ n ∈ root.walk, n.isCall = true → src.hook? n = some "useState" →
      (n.child? "type_arguments").isSome := by
  simp only [stateEdits, List.filterMap_eq_nil_iff, stateEdit?_eq_none]
  rw [← Node.visits_nodes [] root]
  simp

theorem specifierEdits_eq_nil {table : AliasTable} {importer writer : String} :
    specifierEdits src table importer writer root = [] ↔
    ∀ stmt ∈ root.namedChildren,
      (stmt.kind = "import_statement" ∨ stmt.kind = "export_statement") →
      ∀ n, stmt.child? "source" = some n → ∀ spec, src.stringOf? n = some spec →
      table.isInternal spec = true → table.normalize spec importer writer = spec := by
  have hone : ∀ n, specifierEdit? src table importer writer n = none ↔
      ∀ spec, src.stringOf? n = some spec → table.isInternal spec = true →
        table.normalize spec importer writer = spec := by
    intro n
    unfold specifierEdit?
    cases src.stringOf? n with
    | none => simp
    | some spec => simp
  simp only [specifierEdits, List.filterMap_eq_nil_iff, hone, mem_specifierNodes]
  constructor
  · intro h stmt hstmt hk n hn
    exact h n ⟨stmt, hstmt, hk, hn⟩
  · rintro h n ⟨stmt, hstmt, hk, hn⟩
    exact h stmt hstmt hk n hn

/-! ## All edits of a module -/

variable {path : String} {c : Classification} {table : AliasTable} {s : Synthesis}

theorem componentEdits_eq_nil (hc : c = Classification.ofRoot src path root) {name : Option String} :
    componentEdits src c.kind c name = [] ↔
      (c.kind = .functionComponent → ∀ hit, c.found = some hit → Signed hit.node name) ∧
      (c.kind = .classComponent → name.isSome → ∀ hit, c.found = some hit →
        ∀ sub, extended? hit.node = some sub → ∀ value, ¬ Unapplied src sub value) := by
  unfold componentEdits
  cases hf : c.found with
  | none => simp
  | some hit =>
    by_cases hfun : c.kind = .functionComponent
    · have hnode : hit.node.isFunction = true := by
        subst hc
        obtain ⟨d, -, -, hd⟩ := Classification.found_function hfun hf
        exact Search.functionOf_isFunction hd
      simp [hfun, hnode, signatureEdits_eq_nil]
    · by_cases hcls : c.kind = .classComponent
      · cases name with
        | none => simp [hcls]
        | some n => simp [hcls, baseEdit?_eq_none]
      · simp [hfun, hcls]

theorem edits_eq_nil (hc : c = Classification.ofRoot src path root) :
    edits src table path path root c.kind c s = [] ↔ AtRest src root table path c s.interfaceName := by
  simp only [edits, List.append_eq_nil_iff, specifierEdits_eq_nil, interfaceEdits_eq_nil,
    missingInterface?_eq_none, componentEdits_eq_nil hc, stateEdits_eq_nil]
  constructor
  · rintro ⟨⟨⟨hspec, hint⟩, hsig, hbase⟩, hstate⟩
    exact ⟨hint, hsig, hbase, hstate, hspec⟩
  · rintro ⟨hint, hsig, hbase, hstate, hspec⟩
    exact ⟨⟨⟨hspec, hint⟩, hsig, hbase⟩, hstate⟩

end Retyping

namespace SourceUnit

open Retyping

/-- What is written for a unit is its source, with no companion, if there are no edits. -/
theorem retype_of_edits_nil {u : SourceUnit} {t : Tree} (ht : u.tree = some t)
    (hte : t.hasError = false) {table : AliasTable} {kind : Kind} {s : Synthesis} {target : String}
    (h : edits u.source table u.path target t.root kind
      (Classification.ofRoot u.source u.path t.root) s = []) :
    ∃ r, u.retype table kind s target = .ok r ∧ r.edits = 0 ∧ r.code = u.source.text ∧
      r.companion = none := by
  have hint : interfaceEdits u.source t.root (Classification.ofRoot u.source u.path t.root) s
      target = [] := by
    simp only [edits, List.append_eq_nil_iff] at h
    exact h.1.1.2
  have hmissing : missingInterface? u.source t.root s = none := interfaceEdits_eq_nil.mp hint
  simp only [retype, ht, hte, Bool.false_eq_true, if_false, h, Edit.applyAll_nil]
  exact ⟨_, rfl, rfl, rfl, by simp [companion?, hmissing]⟩

theorem edits_nil_of_retype {u : SourceUnit} {t : Tree} (ht : u.tree = some t)
    {table : AliasTable} {kind : Kind} {s : Synthesis} {target : String} {r : Retyped}
    (hr : u.retype table kind s target = .ok r) (hzero : r.edits = 0) :
    edits u.source table u.path target t.root kind
      (Classification.ofRoot u.source u.path t.root) s = [] := by
  unfold retype at hr
  simp only [ht] at hr
  split at hr
  · cases hr
  · split at hr
    · cases hr
    · cases hr
      exact List.eq_nil_of_length_eq_zero hzero

/-- A unit without errors that is retyped for its own path comes out unchanged, with no
edit and no companion, if and only if its module is at rest. -/
theorem retype_unchanged_iff {u : SourceUnit} {t : Tree} (ht : u.tree = some t)
    (hte : t.hasError = false) (table : AliasTable) (placement : Placement) :
    let p := u.profile table
    let s := Synthesis.ofProfile p placement
    (∃ r, u.retype table p.kind s u.path = .ok r ∧ r.edits = 0 ∧ r.code = u.source.text ∧
        r.companion = none) ↔
      AtRest u.source t.root table u.path (Classification.ofRoot u.source u.path t.root)
        s.interfaceName := by
  intro p s
  have hkind : p.kind = (Classification.ofRoot u.source u.path t.root).kind := by
    rw [profile_kind, classification_of_tree ht hte]
  rw [← edits_eq_nil rfl, hkind]
  constructor
  · rintro ⟨r, hr, hzero, -⟩
    exact edits_nil_of_retype ht hr hzero
  · exact fun h => retype_of_edits_nil ht hte h

/-- An interface above a typed arrow function: `interface AProps { x: string }` and
`const A = ({ x }: AProps): JSX.Element => <b/>;`. -/
def annotated : SourceUnit where
  path := "src/components/A.tsx"
  language := .tsx
  source := .ofText
    "interface AProps \x7b x: string \x7d\nconst A = (\x7b x \x7d: AProps): JSX.Element => <b/>;"
  tree := some ⟨⟨"program", true, 0, 78, "",
    [⟨"interface_declaration", true, 0, 30, "",
      [⟨"interface", false, 0, 9, "", []⟩, ⟨"type_identifier", true, 10, 16, "name", []⟩,
       ⟨"interface_body", true, 17, 30, "body",
        [⟨"\x7b", false, 17, 18, "", []⟩,
         ⟨"property_signature", true, 19, 28, "",
          [⟨"property_identifier", true, 19, 20, "name", []⟩,
           ⟨"type_annotation", true, 20, 28, "type",
            [⟨":", false, 20, 21, "", []⟩, ⟨"predefined_type", true, 22, 28, "",
              [⟨"string", false, 22, 28, "", []⟩]⟩]⟩]⟩,
         ⟨"\x7d", false, 29, 30, "", []⟩]⟩]⟩,
     ⟨"lexical_declaration", true, 31, 78, "",
      [⟨"const", false, 31, 36, "kind", []⟩,
       ⟨"variable_declarator", true, 37, 77, "",
        [⟨"identifier", true, 37, 38, "name", []⟩, ⟨"=", false, 39, 40, "", []⟩,
         ⟨"arrow_function", true, 41, 77, "value",
          [⟨"formal_parameters", true, 41, 56, "parameters",
            [⟨"(", false, 41, 42, "", []⟩,
             ⟨"required_parameter", true, 42, 55, "",
              [⟨"object_pattern", true, 42, 47, "pattern",
                [⟨"\x7b", false, 42, 43, "", []⟩,
                 ⟨"shorthand_property_identifier_pattern", true, 44, 45, "", []⟩,
                 ⟨"\x7d", false, 46, 47, "", []⟩]⟩,
               ⟨"type_annotation", true, 47, 55, "type",
                [⟨":", false, 47, 48, "", []⟩, ⟨"type_identifier", true, 49, 55, "", []⟩]⟩]⟩,
             ⟨")", false, 55, 56, "", []⟩]⟩,
           ⟨"type_annotation", true, 56, 69, "return_type",
            [⟨":", false, 56, 57, "", []⟩,
             ⟨"nested_type_identifier", true, 58, 69, "",
              [⟨"identifier", true, 58, 61, "module", []⟩, ⟨".", false, 61, 62, "", []⟩,
               ⟨"type_identifier", true, 62, 69, "name", []⟩]⟩]⟩,
           ⟨"=>", false, 70, 72, "", []⟩,
           ⟨"jsx_self_closing_element", true, 73, 77, "body",
            [⟨"<", false, 73, 74, "", []⟩, ⟨"identifier", true, 74, 75, "name", []⟩,
             ⟨"/>", false, 75, 77, "", []⟩]⟩]⟩]⟩,
       ⟨";", false, 77, 78, "", []⟩]⟩]⟩, false⟩

theorem annotated_unchanged : ∃ t ∈ annotated.tree,
    AtRest annotated.source t.root ⟨AliasTable.standard, []⟩ annotated.path
      (Classification.ofRoot annotated.source annotated.path t.root) (some "AProps") ∧
    ∃ r, annotated.retype ⟨AliasTable.standard, []⟩
        (annotated.profile ⟨AliasTable.standard, []⟩).kind
        (Synthesis.ofProfile (annotated.profile ⟨AliasTable.standard, []⟩) .external)
        annotated.path = .ok r ∧
      r.edits = 0 ∧ r.code = annotated.source.text ∧ r.companion = none := by
  obtain ⟨t, ht⟩ : ∃ t, annotated.tree = some t := ⟨_, rfl⟩
  have hte : t.hasError = false := by
    cases ht
    rfl
  have hname : (Synthesis.ofProfile (annotated.profile ⟨AliasTable.standard, []⟩)
      .external).interfaceName = some "AProps" := by
    decide +kernel
  have hrest : AtRest annotated.source t.root ⟨AliasTable.standard, []⟩ annotated.path
      (Classification.ofRoot annotated.source annotated.path t.root)
      (Synthesis.ofProfile (annotated.profile ⟨AliasTable.standard, []⟩) .external).interfaceName := by
    refine (edits_eq_nil rfl).mp ?_
    cases ht
    decide +kernel
  exact ⟨t, ht, hname ▸ hrest,
    (retype_unchanged_iff ht hte ⟨AliasTable.standard, []⟩ .external).mpr hrest⟩

/-- A typed function that takes nothing out of its parameter:
`function A(\x7b\x7d): JSX.Element \x7b return <b />; \x7d`. -/
def emptyPattern : SourceUnit where
  path := "components/A.tsx"
  language := .tsx
  source := .ofText "function A(\x7b\x7d): JSX.Element \x7b return <b />; \x7d"
  tree := some ⟨⟨"program", true, 0, 45, "",
    [⟨"function_declaration", true, 0, 45, "",
      [⟨"function", false, 0, 8, "", []⟩, ⟨"identifier", true, 9, 10, "name", []⟩,
       ⟨"formal_parameters", true, 10, 14, "parameters",
        [⟨"(", false, 10, 11, "", []⟩,
         ⟨"required_parameter", true, 11, 13, "",
          [⟨"object_pattern", true, 11, 13, "pattern",
            [⟨"\x7b", false, 11, 12, "", []⟩, ⟨"\x7d", false, 12, 13, "", []⟩]⟩]⟩,
         ⟨")", false, 13, 14, "", []⟩]⟩,
       ⟨"type_annotation", true, 14, 27, "return_type",
        [⟨":", false, 14, 15, "", []⟩,
         ⟨"nested_type_identifier", true, 16, 27, "",
          [⟨"identifier", true, 16, 19, "module", []⟩, ⟨".", false, 19, 20, "", []⟩,
           ⟨"type_identifier", true, 20, 27, "name", []⟩]⟩]⟩,
       ⟨"statement_block", true, 28, 45, "body",
        [⟨"\x7b", false, 28, 29, "", []⟩,
         ⟨"return_statement", true, 30, 43, "",
          [⟨"return", false, 30, 36, "", []⟩,
           ⟨"jsx_self_closing_element", true, 37, 42, "",
            [⟨"<", false, 37, 38, "", []⟩, ⟨"identifier", true, 38, 39, "name", []⟩,
             ⟨"/>", false, 40, 42, "", []⟩]⟩,
           ⟨";", false, 42, 43, "", []⟩]⟩,
         ⟨"\x7d", false, 44, 45, "", []⟩]⟩]⟩]⟩, false⟩

/-- A function component comes out unchanged although its first parameter is untyped and
could take a note: there is no interface to note. -/
theorem emptyPattern_unchanged : ∃ t ∈ emptyPattern.tree, t.hasError = false ∧
    (Classification.ofRoot emptyPattern.source emptyPattern.path t.root).kind = .functionComponent ∧
    (∃ hit, (Classification.ofRoot emptyPattern.source emptyPattern.path t.root).found = some hit ∧
      ∃ p, Property.firstParameter? hit.node = some p ∧ ∃ n, Untyped p n) ∧
    ∃ r, emptyPattern.retype ⟨AliasTable.standard, []⟩
        (emptyPattern.profile ⟨AliasTable.standard, []⟩).kind
        (Synthesis.ofProfile (emptyPattern.profile ⟨AliasTable.standard, []⟩) .inline)
        emptyPattern.path = .ok r ∧
      r.edits = 0 ∧ r.code = emptyPattern.source.text ∧ r.companion = none := by
  obtain ⟨t, ht⟩ : ∃ t, emptyPattern.tree = some t := ⟨_, rfl⟩
  have hte : t.hasError = false := by
    cases ht
    rfl
  have hkind : (Classification.ofRoot emptyPattern.source emptyPattern.path t.root).kind =
      .functionComponent := by
    cases ht
    decide +kernel
  have hopen : ((Classification.ofRoot emptyPattern.source emptyPattern.path t.root).found.bind
      fun hit => (Property.firstParameter? hit.node).bind notable?).isSome = true := by
    cases ht
    decide +kernel
  obtain ⟨n, hn⟩ := Option.isSome_iff_exists.mp hopen
  obtain ⟨hit, hhit, hn⟩ := Option.bind_eq_some_iff.mp hn
  obtain ⟨p, hp, hn⟩ := Option.bind_eq_some_iff.mp hn
  refine ⟨t, ht, hte, hkind, ⟨hit, hhit, p, hp, n, notable?_eq_some.mp hn⟩, ?_⟩
  refine retype_of_edits_nil ht hte ?_
  cases ht
  decide +kernel

end SourceUnit

end Retype

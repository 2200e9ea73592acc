import Retype.Proofs.Component.Naming
import Retype.Proofs.Edit.Survival
import Retype.Proofs.Retyping.Prologue
import Retype.Proofs.Retyping.Rest
import Retype.Proofs.Text.Affix

/-!
# What binds React

An interface that mentions `React` needs that name, and a type import of it is inserted
unless an import clause of the module binds it. Then the retyped code binds it in either
case. Other statements that bind the name are not looked at: exactly where one does, the
inserted import binds it a second time.
-/

set_option autoImplicit false

namespace Retype

/-! ## What a module binds at its top -/

/-- The parts of a pattern that are patterns again. -/
inductive PatternPart : Node → Node → Prop
  | entry {p q : Node}
      (hk : p.kind = "object_pattern" ∨ p.kind = "array_pattern" ∨ p.kind = "rest_pattern")
      (hq : q ∈ p.namedChildren) : PatternPart p q
  | pair {p q : Node} (hk : p.kind = "pair_pattern") (hq : p.child? "value" = some q) : PatternPart p q
  | byDefault {p q : Node} (hk : p.kind = "assignment_pattern" ∨ p.kind = "object_assignment_pattern")
      (hq : p.child? "left" = some q) : PatternPart p q

inductive PatternBinds (src : Source) : Node → String → Prop
  | name {p : Node} (hk : p.kind = "identifier" ∨ p.kind = "shorthand_property_identifier_pattern") :
      PatternBinds src p (src.textOf p)
  | part {p q : Node} {name : String} (hq : PatternPart p q) (h : PatternBinds src q name) :
      PatternBinds src p name

def namedDeclarations : List String :=
  ["function_declaration", "generator_function_declaration", "function_signature",
    "class_declaration", "abstract_class_declaration", "enum_declaration", "interface_declaration",
    "type_alias_declaration", "internal_module", "module"]

inductive Declares (src : Source) : Node → String → Prop
  | variable {d v p : Node} {name : String} (hd : d.isVariables = true) (hv : v ∈ d.namedChildren)
      (hk : v.kind = "variable_declarator") (hp : v.child? "name" = some p)
      (h : PatternBinds src p name) : Declares src d name
  | named {d n : Node} (hk : d.kind ∈ namedDeclarations) (hn : d.child? "name" = some n) :
      Declares src d (src.textOf n)
  | alias {d i : Node} (hk : d.kind = "import_alias") (hi : d.namedChildren.head? = some i) :
      Declares src d (src.textOf i)
  | wrapped {d inner : Node} {name : String}
      (hk : d.kind = "ambient_declaration" ∨ d.kind = "expression_statement")
      (hi : inner ∈ d.namedChildren) (h : Declares src inner name) : Declares src d name

namespace Retyping

open Edit (Replaces InsertsAt Clears)

variable {src : Source} {root : Node}

/-- A statement at the top binds a name, and not by an import clause. -/
inductive BoundBeside (src : Source) (root : Node) : String → Prop
  | declared {d : Node} {name : String} (hd : TopDeclaration root d) (h : Declares src d name) :
      BoundBeside src root name
  | required {stmt clause i : Node} (hs : stmt ∈ importStatements root)
      (hc : clause ∈ stmt.namedChildren) (hk : clause.kind = "import_require_clause")
      (hi : clause.namedChildren.head? = some i) : BoundBeside src root (src.textOf i)

def TopBinds (src : Source) (root : Node) (name : String) : Prop :=
  ImportBinds src root name ∨ BoundBeside src root name

/-! ## What the interface mentions -/

/-- A part that has no blank and no line feed is found on one of some lines or behind them. -/
theorem occursIn_lines {part : List Char} (hne : part ≠ []) (hblank : ' ' ∉ part) (hfeed : '\n' ∉ part)
    (fields : List String) (rest : List Char) :
    Affix.occursIn part ((String.join (fields.map fun f => "  " ++ f ++ "\n")).toList ++ rest) =
      (fields.any (fun f => Affix.occursIn part f.toList) || Affix.occursIn part rest) := by
  rw [String.toList_join, List.flatMap_map]
  induction fields with
  | nil => rfl
  | cons f fields ih =>
    have hline : ("  " ++ f ++ "\n").toList = ' ' :: ' ' :: (f.toList ++ ['\n']) := by
      simp only [String.toList_append, List.append_assoc]
      rfl
    rw [List.flatMap_cons, hline, List.append_assoc, List.cons_append, List.cons_append,
      List.append_assoc, List.singleton_append, Affix.occursIn_tail hne hblank,
      Affix.occursIn_tail hne hblank, Affix.occursIn_cut hfeed, ih, List.any_cons, Bool.or_assoc]

/-- An interface mentions `React` in its members or in its own name. -/
theorem occurs_declaration (name : String) (s : Synthesis) :
    Affix.occurs "React." (Synthesis.declaration name s.fields) =
      (Affix.occurs "React." name || s.needsReact) := by
  have hne : "React.".toList ≠ [] := by decide
  have hblank : ' ' ∉ "React.".toList := by decide
  have hfeed : '\n' ∉ "React.".toList := by decide
  have htext : (Synthesis.declaration name s.fields).toList = "interface".toList ++ ' ' :: (name.toList ++
      ' ' :: ("\x7b".toList ++ '\n' :: ((String.join (s.fields.map fun f => "  " ++ f ++ "\n")).toList ++
        ("\x7d".toList ++ '\n' :: [])))) := by
    simp only [Synthesis.declaration, String.toList_append, List.append_assoc]
    rfl
  have hopen : Affix.occursIn "React.".toList "\x7b".toList = false := by decide
  have hclose : Affix.occursIn "React.".toList "\x7d".toList = false := by decide
  have hword : Affix.occursIn "React.".toList "interface".toList = false := by decide
  have hend : Affix.occursIn "React.".toList [] = false := by decide
  rw [Affix.occurs, htext, Affix.occursIn_cut hblank, hword, Bool.false_or, Affix.occursIn_cut hblank,
    Affix.occursIn_cut hfeed, hopen, Bool.false_or, occursIn_lines hne hblank hfeed,
    Affix.occursIn_cut hfeed, hclose, hend, Bool.or_false, Bool.or_false]
  rfl

/-! ## The import of React -/

def reactEdit (src : Source) (root : Node) : Edit := (importSpot src root).line reactImport

theorem importSpot_before : (importSpot src root).before = "" ∨ (importSpot src root).before = "\n" := by
  unfold importSpot
  repeat' split
  all_goals simp

theorem reactEdit_ne {place : Nat} {name : String} {fields : List String} :
    reactEdit src root ≠ Edit.insertion place (Synthesis.declaration name fields ++ "\n") := by
  intro h
  have htext := congrArg (fun e : Edit => e.text.toList.take 2) h
  rcases @importSpot_before src root with hb | hb <;>
    simp [reactEdit, Spot.line, Edit.insertion, Synthesis.declaration, reactImport, hb] at htext

/-- The types of React are imported along with an interface that mentions them, unless the name
is bound by an import clause. -/
theorem mem_reactEdit {c : Classification} {s : Synthesis} {target : String} (hs : s.placement = .inline) :
    reactEdit src root ∈ interfaceEdits src root c s target ↔
      (missingInterface? src root s).isSome = true ∧ s.needsReact = true ∧
        ¬ ImportBinds src root "React" := by
  rw [← mem_importedNames, interfaceEdits, hs]
  cases missingInterface? src root s with
  | none => simp
  | some name =>
    simp only [Option.isSome_some, true_and, List.mem_append, List.mem_singleton, reactEdit_ne, or_false]
    by_cases hneeds : (s.needsReact && !(importedNames src root).contains "React") = true
    · rw [if_pos hneeds]
      simpa [reactEdit] using hneeds
    · rw [if_neg hneeds]
      simpa using hneeds

/-! ## What the code binds -/

def ClauseBinds (src : Source) (clause : Node) (name : String) : Prop :=
  clause.kind = "import_clause" ∧ ∃ part ∈ clause.namedChildren, PartBinds src part name

/-- What a parser promises besides of the imports of a module without errors: the tree is within
the source, and an import clause is not empty, fills no field and holds neither a call nor a
class. -/
structure WellImported (src : Source) (root : Node) : Prop where
  parsed : WellParsed root
  inside : root.stop ≤ src.octets.size
  plain : ∀ s ∈ importStatements root, ∀ c ∈ s.namedChildren, c.kind = "import_clause" →
    ∀ d ∈ c.walk, d.isCall = false ∧ d.isClass = false
  clauses : ∀ s ∈ importStatements root, ∀ c ∈ s.namedChildren, c.kind = "import_clause" →
    c.field = "" ∧ c.start < c.stop

instance (src : Source) (root : Node) : Decidable (WellImported src root) :=
  decidable_of_iff (WellParsed root ∧ root.stop ≤ src.octets.size ∧
      (∀ s ∈ importStatements root, ∀ c ∈ s.namedChildren, c.kind = "import_clause" →
        ∀ d ∈ c.walk, d.isCall = false ∧ d.isClass = false) ∧
      ∀ s ∈ importStatements root, ∀ c ∈ s.namedChildren, c.kind = "import_clause" →
        c.field = "" ∧ c.start < c.stop)
    ⟨fun ⟨h1, h2, h3, h4⟩ => ⟨h1, h2, h3, h4⟩, fun ⟨h1, h2, h3, h4⟩ => ⟨h1, h2, h3, h4⟩⟩

section

variable {path : String} {c : Classification} {table : AliasTable} {importer target : String}
  {s : Synthesis} {name : Option String} {stmt clause : Node}

theorem mem_importStatements : stmt ∈ importStatements root ↔
    stmt ∈ root.namedChildren ∧ stmt.kind = "import_statement" := by
  rw [importStatements, List.mem_filter, beq_iff_eq]

/-- A component stands in no import clause. -/
theorem component_apart_clause {hit : Match} (h : WellImported src root)
    (hk : (Classification.ofRoot src path root).kind = .functionComponent ∨
      (Classification.ofRoot src path root).kind = .classComponent)
    (hf : (Classification.ofRoot src path root).found = some hit) (hs : stmt ∈ importStatements root)
    (hc : clause ∈ stmt.namedChildren) (hck : clause.kind = "import_clause") :
    Node.Apart hit.node clause := by
  obtain ⟨hstmt, hkind⟩ := mem_importStatements.mp hs
  have hsc := Node.mem_children_of_named hstmt
  have hchild := Node.mem_children_of_named hc
  obtain ⟨hps, hpw⟩ := Classification.found_placed hf
  have hpc := Node.mem_children_of_statement hps
  have hn := h.parsed.nested
  by_cases hne : hit.statement.node = stmt
  · rcases hk with hk | hk
    · obtain ⟨d, hd, hds, -⟩ := Classification.found_function hk hf
      obtain ⟨-, hdo⟩ := Declaration.mem_all hd
      rw [← hds] at hdo
      rcases (Declaration.mem_ofStatement hdo).2 with ⟨hx, -⟩ | ⟨-, -, hx⟩
      · simp [Statement.isExport, hne, hkind] at hx
      · simp [hne, Node.isFunction, Node.isClass, Node.isVariables, hkind] at hx
    · -- a class stands in another child of the statement than the clause
      have hclass := Classification.found_class hk hf
      rcases Node.mem_walk.mp (hne ▸ hpw) with heq | ⟨c, hcc, hw⟩
      · simp [heq, Node.isClass, hkind] at hclass
      · have hcne : c ≠ clause := by
          rintro rfl
          rw [(h.plain stmt hs c hc hck _ hw).2] at hclass
          cases hclass
        have hnest := hn.child hsc
        exact (hnest.laid.children_apart hcc hchild hcne).of_mem (hnest.child hcc) (hnest.child hchild) hw
          (Node.self_mem_walk clause)
  · exact (hn.laid.children_apart hpc hsc hne).of_mem (hn.child hpc) (hn.child hsc) hpw
      (Node.child_mem_walk hchild)

/-- No edit of a module touches an import clause. -/
theorem clause_cleared {e : Edit} (h : WellImported src root) (hc : c = Classification.ofRoot src path root)
    (hs : stmt ∈ importStatements root) (hclause : clause ∈ stmt.namedChildren)
    (hk : clause.kind = "import_clause")
    (he : e ∈ edits src table importer target root c.kind c s) : Clears clause e := by
  have hn := h.parsed.nested
  have hsc := Node.mem_children_of_named (mem_importStatements.mp hs).1
  have hchild := Node.mem_children_of_named hclause
  have hwalk := Node.child_mem_walk hchild
  simp only [edits, List.mem_append] at he
  rcases he with ((he | he) | he) | he
  · obtain ⟨n, hsource, hr⟩ := specifierEdits_replace he
    refine hr.clears (apart_from_source hn hsource hsc hwalk fun _ hfield => ?_).symm
    refine ⟨clause, hchild, ?_, Node.self_mem_walk clause⟩
    rintro rfl
    have hempty := (h.clauses stmt hs clause hclause hk).1
    rw [Node.field_of_child? hfield] at hempty
    exact absurd hempty (by decide)
  · exact interface_clears hn (fun hit hf => Classification.found_placed (hc ▸ hf)) hsc hwalk he
  · obtain ⟨hit, hf, hkind, hroot, hin⟩ := componentEdits_inside h.parsed hc he
    subst hc
    exact hin.clears (hn.of_mem hroot) (component_apart_clause h hkind hf hs hclause hk)
  · exact state_clears hn (Node.mem_walk_of_child hsc hwalk)
      (fun d hd => (h.plain stmt hs clause hclause hk d hd).1) he

/-- The code binds React: it has the import of its types in it, or an import clause of the
module that binds it, where that stood. -/
inductive BindsReact (src : Source) (root : Node) (es : List Edit) (out : List UInt8) : Prop
  | inserted (he : reactEdit src root ∈ es) (htop : Node.TopPlace root (importSpot src root).place)
      (hin : Utf8.encode (reactEdit src root).text <:+: out)
  | kept {stmt clause : Node} (hs : stmt ∈ importStatements root) (hc : clause ∈ stmt.namedChildren)
      (hb : ClauseBinds src clause "React")
      (hout : out = Edit.front src.octets.toList es clause.start ++ src.slice clause.start clause.stop ++
        Edit.back src.octets.toList es clause.stop)

/-- A module with an interface that mentions React is retyped to code that binds it. -/
theorem bindsReact {out : List UInt8} (h : WellImported src root)
    (hc : c = Classification.ofRoot src path root) (hs : s.placement = .inline)
    (hm : (missingInterface? src root s).isSome = true) (hn : s.needsReact = true)
    (hout : Edit.applyAll src.octets.toList (edits src table importer target root c.kind c s) = .ok out) :
    BindsReact src root (edits src table importer target root c.kind c s) out := by
  have hfit : ∀ e ∈ edits src table importer target root c.kind c s,
      Edit.Fits src.octets.toList.length e := by
    intro e he
    have hfits := edits_fit h.parsed hc he
    have hin := h.inside
    rw [Array.length_toList]
    exact ⟨hfits.first, hfits.forward, by have := hfits.last; omega⟩
  by_cases hi : ImportBinds src root "React"
  · obtain ⟨stmt, hstmt, hk, clause, hclause, hck, hpart⟩ := hi
    have himport := mem_importStatements.mpr ⟨hstmt, hk⟩
    have hwide := (h.clauses stmt himport clause hclause hck).2
    have happly := Edit.applyAll_untouched hfit (edits_apart h.parsed hc table importer target s)
      (Edit.applied_whole hout) hwide fun e he => clause_cleared h hc himport hclause hck he
    rw [hout, ← Source.slice_eq] at happly
    exact .kept himport hclause ⟨hck, hpart⟩ (Except.ok.inj happly)
  · have hmem : reactEdit src root ∈ interfaceEdits src root c s target :=
      (mem_reactEdit hs).mpr ⟨hm, hn, hi⟩
    have he : reactEdit src root ∈ edits src table importer target root c.kind c s := by
      rw [edits_eq]
      exact List.mem_append_right _ (List.mem_append_left _ hmem)
    exact .inserted he importSpot_top (Edit.applied_holds hfit hout he)

end

end Retyping

namespace SourceUnit

open Retyping

/-- The types of React are imported along with an interface that mentions them, unless React is
bound by an import clause. Then React was bound before exactly if another statement binds it.
Either way the code binds React if the interface mentions it, and not in its own name. There is
code if the texts of the edits have octets. -/
theorem reactImport_bound {u : SourceUnit} {t : Tree} (ht : u.tree = some t) (hte : t.hasError = false)
    (hw : WellImported u.source t.root) (table : AliasTable) (target : String) {s : Synthesis}
    (hs : s.placement = .inline) :
    let p := u.profile table
    let c := Classification.ofRoot u.source u.path t.root
    let inserted := reactEdit u.source t.root ∈ interfaceEdits u.source t.root c s target
    (inserted ↔ (missingInterface? u.source t.root s).isSome = true ∧ s.needsReact = true ∧
        ¬ ImportBinds u.source t.root "React") ∧
      (inserted → (TopBinds u.source t.root "React" ↔ BoundBeside u.source t.root "React")) ∧
      ∀ name ∈ missingInterface? u.source t.root s, Affix.occurs "React." name = false →
        Affix.occurs "React." (Synthesis.declaration name s.fields) = true →
        let es := edits u.source table u.path target t.root p.kind c s
        ((∀ e ∈ es, Edit.Whole e) → ∃ r, u.retype table p.kind s target = .ok r) ∧
          ∀ r, u.retype table p.kind s target = .ok r →
            ∃ out, r.code = Utf8.decode out ∧ BindsReact u.source t.root es out := by
  intro p c inserted
  have hinserted : inserted ↔ _ := mem_reactEdit hs
  refine ⟨hinserted, fun h => or_iff_right (hinserted.mp h).2.2, ?_⟩
  intro name hname hown hmention
  rw [occurs_declaration, hown, Bool.false_or] at hmention
  have hkind : p.kind = c.kind := by rw [profile_kind, classification_of_tree ht hte]
  intro es
  refine ⟨retype_whole ht hte hw.parsed table s target, fun r hr => ?_⟩
  obtain ⟨-, out, hout, hcode⟩ := retype_applied ht hr
  simp only [es]
  rw [hkind] at hout ⊢
  exact ⟨out, hcode, bindsReact hw rfl hs (by rw [hname]; rfl) hmention hout⟩

/-- The statement `A.propTypes = { c: PropTypes.node };` from a place on. -/
def nodeTypesAt (start : Nat) : Node :=
  ⟨"expression_statement", true, start, start + 36, "",
    [⟨"assignment_expression", true, start, start + 35, "",
      [⟨"member_expression", true, start, start + 11, "left",
        [⟨"identifier", true, start, start + 1, "object", []⟩, ⟨".", false, start + 1, start + 2, "", []⟩,
         ⟨"property_identifier", true, start + 2, start + 11, "property", []⟩]⟩,
       ⟨"=", false, start + 12, start + 13, "", []⟩,
       ⟨"object", true, start + 14, start + 35, "right",
        [⟨"\x7b", false, start + 14, start + 15, "", []⟩,
         ⟨"pair", true, start + 16, start + 33, "",
          [⟨"property_identifier", true, start + 16, start + 17, "key", []⟩,
           ⟨":", false, start + 17, start + 18, "", []⟩,
           ⟨"member_expression", true, start + 19, start + 33, "value",
            [⟨"identifier", true, start + 19, start + 28, "object", []⟩,
             ⟨".", false, start + 28, start + 29, "", []⟩,
             ⟨"property_identifier", true, start + 29, start + 33, "property", []⟩]⟩]⟩,
         ⟨"\x7d", false, start + 34, start + 35, "", []⟩]⟩]⟩,
     ⟨";", false, start + 35, start + 36, "", []⟩]⟩

def nodeTyped : SourceUnit where
  path := "components/A.jsx"
  language := .javascript
  source := .ofText "const A = p => <b/>;\nA.propTypes = \x7b c: PropTypes.node \x7d;"
  tree := some ⟨⟨"program", true, 0, 57, "", [arrowAt 0, nodeTypesAt 21]⟩, false⟩

/-- The same component in a module that requires React. -/
def requiringReact : SourceUnit where
  path := "components/A.jsx"
  language := .javascript
  source := .ofText
    "const React = require('react');\nconst A = p => <b/>;\nA.propTypes = \x7b c: PropTypes.node \x7d;"
  tree := some ⟨⟨"program", true, 0, 89, "",
    [⟨"lexical_declaration", true, 0, 31, "",
      [⟨"const", false, 0, 5, "kind", []⟩,
       ⟨"variable_declarator", true, 6, 30, "",
        [⟨"identifier", true, 6, 11, "name", []⟩, ⟨"=", false, 12, 13, "", []⟩,
         ⟨"call_expression", true, 14, 30, "value",
          [⟨"identifier", true, 14, 21, "function", []⟩,
           ⟨"arguments", true, 21, 30, "arguments",
            [⟨"(", false, 21, 22, "", []⟩,
             ⟨"string", true, 22, 29, "",
              [⟨"'", false, 22, 23, "", []⟩, ⟨"string_fragment", true, 23, 28, "", []⟩,
               ⟨"'", false, 28, 29, "", []⟩]⟩,
             ⟨")", false, 29, 30, "", []⟩]⟩]⟩]⟩,
       ⟨";", false, 30, 31, "", []⟩]⟩,
     arrowAt 32, nodeTypesAt 53]⟩, false⟩

theorem nodeTyped_bindsReact : ∃ t ∈ nodeTyped.tree, ∃ r out,
    nodeTyped.retype ⟨AliasTable.standard, []⟩ (nodeTyped.profile ⟨AliasTable.standard, []⟩).kind
        (Synthesis.ofProfile (nodeTyped.profile ⟨AliasTable.standard, []⟩) .inline) "src/components/A.tsx" = .ok r ∧
      r.code = Utf8.decode out ∧
      BindsReact nodeTyped.source t.root (edits nodeTyped.source ⟨AliasTable.standard, []⟩ nodeTyped.path
        "src/components/A.tsx" t.root (nodeTyped.profile ⟨AliasTable.standard, []⟩).kind
        (Classification.ofRoot nodeTyped.source nodeTyped.path t.root)
        (Synthesis.ofProfile (nodeTyped.profile ⟨AliasTable.standard, []⟩) .inline)) out := by
  obtain ⟨t, ht⟩ : ∃ t, nodeTyped.tree = some t := ⟨_, rfl⟩
  have hte : t.hasError = false := by
    cases ht
    rfl
  have hw : WellImported nodeTyped.source t.root := by
    cases ht
    decide +kernel
  have hmissing : missingInterface? nodeTyped.source t.root
      (Synthesis.ofProfile (nodeTyped.profile ⟨AliasTable.standard, []⟩) .inline) = some "AProps" := by
    cases ht
    decide +kernel
  obtain ⟨-, -, hbinds⟩ := reactImport_bound ht hte hw ⟨AliasTable.standard, []⟩ "src/components/A.tsx"
    (rfl : (Synthesis.ofProfile (nodeTyped.profile ⟨AliasTable.standard, []⟩) .inline).placement = .inline)
  obtain ⟨hretyped, hbound⟩ := hbinds "AProps" hmissing (by decide) (by decide +kernel)
  obtain ⟨r, hr⟩ := hretyped (by cases ht; decide +kernel)
  obtain ⟨out, hcode, hout⟩ := hbound r hr
  exact ⟨t, ht, r, out, hr, hcode, hout⟩

/-- The types of React are imported although the module requires React. -/
theorem requiringReact_bound_twice : ∃ t ∈ requiringReact.tree, t.hasError = false ∧
    WellImported requiringReact.source t.root ∧ TopBinds requiringReact.source t.root "React" ∧
    reactEdit requiringReact.source t.root ∈ interfaceEdits requiringReact.source t.root
      (Classification.ofRoot requiringReact.source requiringReact.path t.root)
      (Synthesis.ofProfile (requiringReact.profile ⟨AliasTable.standard, []⟩) .inline) "src/components/A.tsx" := by
  refine ⟨_, rfl, rfl, by decide +kernel, Or.inr ?_, by decide +kernel⟩
  have hname : requiringReact.source.textOf ⟨"identifier", true, 6, 11, "name", []⟩ = "React" := by
    decide +kernel
  refine .declared (.plain List.mem_cons_self (by decide)) (.variable rfl List.mem_cons_self rfl rfl ?_)
  exact hname ▸ PatternBinds.name (Or.inl rfl)

end SourceUnit

end Retype

import Retype.Proofs.Component.Readings
import Retype.Proofs.Path.Specifier
import Retype.Proofs.Retyping.Collision
import Retype.Proofs.Retyping.Literals

/-!
# Imports after retyping

Where the literal of a recorded import stood, the retyped code reads a literal
again. If the import is a statement or passes on names, what it reads denotes for
the target what was denoted before. A required module is read as it was.
-/

set_option autoImplicit false

namespace Retype

namespace Retyping

open Edit (Replaces InsertsAt Clears)

/-! ## What touches a literal -/

variable {src : Source} {n : Node} {spec : String} {root : Node} {path : String} {c : Classification}
  {table : AliasTable} {importer target : String} {s : Synthesis} {name : Option String}

/-- What a parser promises besides of the source of a module without errors: the tree is
within the source, and the literals that imports read have their quotes and hold only
leaves. -/
structure WellQuoted (src : Source) (root : Node) : Prop where
  parsed : WellParsed root
  inside : root.stop ≤ src.octets.size
  quoted : ∀ r ∈ Import.readings src root, src.Quoted r.literal
  leaves : ∀ r ∈ Import.readings src root, ∀ c ∈ r.literal.children, c.children = []

instance (src : Source) (root : Node) : Decidable (WellQuoted src root) :=
  decidable_of_iff (WellParsed root ∧ root.stop ≤ src.octets.size ∧
      (∀ r ∈ Import.readings src root, src.Quoted r.literal) ∧
      ∀ r ∈ Import.readings src root, ∀ c ∈ r.literal.children, c.children = [])
    ⟨fun ⟨h1, h2, h3, h4⟩ => ⟨h1, h2, h3, h4⟩, fun ⟨h1, h2, h3, h4⟩ => ⟨h1, h2, h3, h4⟩⟩

/-- The end of a child is strictly inside no literal but its parent. -/
theorem literal_avoids {a k : Node} (h : Node.Nested root) (ha : a ∈ root.walk)
    (hk : a.kind = "string") (hleaves : ∀ c ∈ a.children, c.children = []) {owner : Node}
    (ho : owner ∈ root.walk) (hkind : owner.kind ≠ "string") (hc : k ∈ owner.children) :
    Node.Avoids k.stop a := by
  refine h.child_stop_avoids ha ho hc ?_
  intro hin
  rcases Node.mem_walk.mp hin with rfl | ⟨d, hd, hod⟩
  · exact hkind hk
  · have hleaf := hleaves d hd
    have hod : owner = d := by
      rcases Node.mem_walk.mp hod with rfl | ⟨e, he, -⟩
      · rfl
      · simp [hleaf] at he
    subst hod
    simp [hleaf] at hc

theorem heritageTarget_place {clause sub value : Node} {typed : Bool}
    (hs : sub ∈ clause.namedChildren) (hk : clause.kind = "class_heritage")
    (ht : heritageTarget sub = some (some value, typed)) :
    ∃ owner, owner ∈ clause.walk ∧ owner.kind ≠ "string" ∧ value ∈ owner.children := by
  unfold heritageTarget at ht
  split at ht
  · cases ht
  · split at ht
    · next hsub =>
      obtain ⟨hval, -⟩ := Prod.mk.inj (Option.some.inj ht)
      have hkind : sub.kind = "extends_clause" := by simpa using hsub
      refine ⟨sub, Node.child_mem_walk (Node.mem_children_of_named hs), ?_,
        Node.mem_children_of_child? hval⟩
      rw [hkind]
      decide
    · cases ht
      refine ⟨clause, Node.self_mem_walk clause, ?_, Node.mem_children_of_named hs⟩
      rw [hk]
      decide

theorem baseEdit?_place {cls : Node} {base : String} {e : Edit}
    (he : baseEdit? src cls base = some e) :
    ∃ owner ∈ cls.walk, owner.kind ≠ "string" ∧ ∃ k ∈ owner.children, InsertsAt k.stop e := by
  unfold baseEdit? at he
  split at he
  · next value hv =>
    split at he
    · cases he
    · cases he
      obtain ⟨sub, hsub, ht⟩ := List.exists_of_findSome?_eq_some hv
      obtain ⟨clause, hclause, hsub⟩ := List.mem_flatMap.mp hsub
      obtain ⟨hcls, hk⟩ := List.mem_filter.mp hclause
      obtain ⟨owner, ho, hkind, hval⟩ := heritageTarget_place hsub (by simpa using hk) ht
      exact ⟨owner, Node.mem_walk_of_child hcls ho, hkind, value, hval,
        Edit.insertsAt_insertion _ _⟩
  · cases he

theorem functionOf_string {a : Node} (ha : a.kind = "string") (levels : Nat) :
    Search.functionOf levels a = none := by
  have hunwrap : a.unwrap = a := Node.unwrap_of_kind (by rw [ha]; decide)
  have hfn : a.isFunction = false := by simp [Node.isFunction, ha]
  have hcall : a.isCall = false := by simp [Node.isCall, ha]
  cases levels <;> simp [Search.functionOf, hunwrap, hfn, hcall]

theorem functionOf_required {call a : Node} (hcall : call.isCall = true)
    (harg : call.arguments = [a]) (ha : a.kind = "string") (levels : Nat) :
    Search.functionOf levels call = none := by
  have hk : call.kind = "call_expression" := by simpa [Node.isCall] using hcall
  have hunwrap : call.unwrap = call := Node.unwrap_of_kind (by rw [hk]; decide)
  have hfn : call.isFunction = false := by simp [Node.isFunction, hk]
  cases levels with
  | zero => simp [Search.functionOf, hunwrap, hfn]
  | succ levels => simp [Search.functionOf, hunwrap, hfn, harg, functionOf_string ha]

/-- The function that a module was classified by is apart from the argument of a call of
`require`. -/
theorem required_apart {hit : Match} {stmt d value a : Node} (h : Node.Nested root)
    (hk : (Classification.ofRoot src path root).kind = .functionComponent)
    (hf : (Classification.ofRoot src path root).found = some hit)
    (hs : stmt ∈ root.namedChildren) (hv : stmt.isVariables = true) (hd : d ∈ stmt.namedChildren)
    (hvalue : d.child? "value" = some value) (hcall : value.unwrap.isCall = true)
    (harg : value.unwrap.arguments = [a]) (ha : a.kind = "string") : Node.Apart hit.node a := by
  obtain ⟨e, he, -, hfn⟩ := Classification.found_function hk hf
  obtain ⟨hes, heo⟩ := Declaration.mem_all he
  have hsc := Node.mem_children_of_named hs
  have hdc := Node.mem_children_of_named hd
  have hec := Node.mem_children_of_statement hes
  have hhit := Node.walk_trans (Search.functionOf_mem_walk hfn) (Declaration.node_mem_walk heo)
  have had : a ∈ d.walk :=
    Node.walk_trans (Node.mem_walk_of_arguments (by rw [harg]; exact List.mem_singleton_self a))
      (Declaration.initial_mem_walk hvalue)
  by_cases hst : e.statement.node = stmt
  · subst hst
    obtain ⟨v, hvm, initial, hinit, hnode⟩ := Declaration.mem_of_variables hv heo
    have hvc := Node.mem_children_of_named hvm
    by_cases hvd : v = d
    · subst hvd
      rw [hinit] at hvalue
      cases hvalue
      rw [hnode, functionOf_required hcall harg ha] at hfn
      cases hfn
    · have hnest := h.child hec
      have hhitv : hit.node ∈ v.walk :=
        Node.walk_trans (hnode ▸ Search.functionOf_mem_walk hfn) (Declaration.initial_mem_walk hinit)
      exact (hnest.laid.children_apart hvc hdc hvd).of_mem (hnest.child hvc) (hnest.child hdc)
        hhitv had
  · exact (h.laid.children_apart hec hsc hst).of_mem (h.child hec) (h.child hsc) hhit
      (Node.mem_walk_of_child hdc had)

theorem component_avoids_required {stmt d value a : Node} {e : Edit} (h : Node.Nested root)
    (hc : c = Classification.ofRoot src path root)
    (hs : stmt ∈ root.namedChildren) (hv : stmt.isVariables = true) (hd : d ∈ stmt.namedChildren)
    (hvalue : d.child? "value" = some value) (hcall : value.unwrap.isCall = true)
    (harg : value.unwrap.arguments = [a]) (ha : a.kind = "string")
    (hleaves : ∀ c ∈ a.children, c.children = []) (haw : a ∈ root.walk)
    (he : e ∈ componentEdits src c.kind c name) : Clears a e := by
  unfold componentEdits at he
  split at he
  · simp at he
  · next hit hf =>
    obtain ⟨hsp, hw⟩ := Classification.found_placed (hc ▸ hf)
    have hroot := Node.mem_walk_of_child (Node.mem_children_of_statement hsp) hw
    split at he
    · next hk =>
      obtain ⟨hkind, hfn⟩ := Bool.and_eq_true_iff.mp hk
      have hkind : c.kind = .functionComponent := by simpa using hkind
      have hap := required_apart h (hc ▸ hkind) (hc ▸ hf) hs hv hd hvalue hcall harg ha
      have hnest := h.of_mem hroot
      exact (signatureEdits_inside hnest hfn he).clears hnest hap
    · split at he
      · split at he
        · obtain ⟨owner, ho, hkind, k, hk, hi⟩ := baseEdit?_place (Option.mem_toList.mp he)
          exact hi.clears (literal_avoids h haw ha hleaves (Node.walk_trans ho hroot) hkind hk)
        · simp at he
      · simp at he

/-- No edit touches the literal of a required module. -/
theorem required_cleared {stmt d value a : Node} {e : Edit} (h : Node.Nested root)
    (hc : c = Classification.ofRoot src path root)
    (hs : stmt ∈ root.namedChildren) (hv : stmt.isVariables = true) (hd : d ∈ stmt.namedChildren)
    (hvalue : d.child? "value" = some value) (hcall : value.unwrap.isCall = true)
    (harg : value.unwrap.arguments = [a]) (ha : a.kind = "string")
    (hleaves : ∀ c ∈ a.children, c.children = [])
    (he : e ∈ edits src table importer target root c.kind c s) : Clears a e := by
  have hsc := Node.mem_children_of_named hs
  have haw : a ∈ stmt.walk := by
    have hin := Node.mem_walk_of_arguments (n := value.unwrap) (a := a) (by simp [harg])
    exact Node.mem_walk_of_child (Node.mem_children_of_named hd)
      (Node.walk_trans hin (Declaration.initial_mem_walk hvalue))
  have har : a ∈ root.walk := Node.mem_walk_of_child hsc haw
  simp only [edits, List.mem_append] at he
  rcases he with ((he | he) | he) | he
  · obtain ⟨n, hn, hr⟩ := specifierEdits_replace he
    refine hr.clears (apart_from_source h hn hsc haw fun hk _ => ?_).symm
    rcases hk with hk | hk <;> simp [Node.isVariables, hk] at hv
  · exact interface_clears h (fun hit hf => Classification.found_placed (hc ▸ hf)) hsc haw he
  · exact component_avoids_required h hc hs hv hd hvalue hcall harg ha hleaves har he
  · obtain ⟨call, hcw, hk, callee, hcallee, hi⟩ := stateEdits_insert he
    refine hi.clears (literal_avoids h har ha hleaves hcw ?_ hcallee)
    have hkind : call.kind = "call_expression" := by simpa [Node.isCall] using hk
    rw [hkind]
    decide

/-! ## What imports read -/

/-- The specifier that the code reads for an import: that of a statement is made normal
for the target, and that of a required module stays. -/
def rewritten (table : AliasTable) (importer target : String) (r : Import.Reading) : String :=
  if r.required then r.specifier else table.normalize r.specifier importer target

theorem source_reads {stmt : Node} {out : List UInt8} (h : WellParsed root) (hq : src.Quoted n)
    (hc : c = Classification.ofRoot src path root) (hs : stmt ∈ root.namedChildren)
    (hk : stmt.kind = "import_statement" ∨ stmt.kind = "export_statement")
    (hn : stmt.child? "source" = some n) (hspec : src.stringOf? n = some spec)
    (hi : table.isInternal spec = true)
    (hf : ∀ e ∈ edits src table importer target root c.kind c s,
      Edit.Fits src.octets.toList.length e)
    (hout : Edit.applyAll src.octets.toList (edits src table importer target root c.kind c s) = .ok out) :
    Reads src.octets.toList (edits src table importer target root c.kind c s) n (Utf8.decode out)
      (table.normalize spec importer target) := by
  have hns : n ∈ specifierNodes root := mem_specifierNodes.mpr ⟨stmt, hs, hk, hn⟩
  have hap := edits_apart h hc table importer target s
  by_cases hsame : table.normalize spec importer target = spec
  · have hnone : specifierEdit? src table importer target n = none := by
      simp [specifierEdit?, hspec, hsame]
    rw [hsame]
    refine reads_untouched hq hspec hf hap (fun e he => ?_) hout
    rw [edits_eq, List.mem_append] at he
    rcases he with he | he
    · obtain ⟨m, hm, hme⟩ := List.mem_filterMap.mp he
      have hmn : m ≠ n := by
        rintro rfl
        rw [hnone] at hme
        cases hme
      exact (specifierEdit?_replaces hme).clears
        ((specifierNodes_apart h.nested).forall hm hns hmn)
    · exact source_cleared h hc hns he
  · obtain ⟨r, hr, htext⟩ : ∃ r, specifierEdit? src table importer target n = some r ∧
        r.text = String.ofList ((src.textOf n).toList.take 1) ++ table.normalize spec importer target ++
          String.ofList ((src.textOf n).toList.take 1) := by
      simp [specifierEdit?, hspec, hi, hsame]
    have hmem : r ∈ edits src table importer target root c.kind c s := by
      unfold edits
      exact List.mem_append_left _ (List.mem_append_left _ (List.mem_append_left _
        (List.mem_filterMap.mpr ⟨n, hns, hr⟩)))
    exact reads_replaced hq hf hap hout hmem (specifierEdit?_replaces hr) htext

/-- Every recorded internal import is read again in the code, as it was rewritten. -/
theorem reading_reads {r : Import.Reading} {out : List UInt8} (h : WellQuoted src root)
    (hc : c = Classification.ofRoot src path root) (hr : r ∈ Import.readings src root)
    (table : AliasTable) (importer target : String) (s : Synthesis)
    (hi : table.isInternal r.specifier = true)
    (hout : Edit.applyAll src.octets.toList (edits src table importer target root c.kind c s) = .ok out) :
    Reads src.octets.toList (edits src table importer target root c.kind c s) r.literal
      (Utf8.decode out) (rewritten table importer target r) := by
  have hf : ∀ e ∈ edits src table importer target root c.kind c s,
      Edit.Fits src.octets.toList.length e := by
    intro e he
    have hfit := edits_fit h.parsed hc he
    have hin := h.inside
    refine ⟨hfit.first, hfit.forward, ?_⟩
    have := hfit.last
    rw [Array.length_toList]
    omega
  obtain ⟨stmt, hs, hspec, hcases⟩ := Import.reading_cases hr
  rcases hcases with ⟨hreq, hk, hn⟩ | ⟨hreq, hv, d, hd, value, hvalue, hcall, harg⟩
  · have hreads := source_reads h.parsed (h.quoted r hr) hc hs hk hn hspec hi hf hout
    simpa [rewritten, hreq] using hreads
  · have hap := edits_apart h.parsed hc table importer target s
    have hstring := Source.kind_of_stringOf? hspec
    have hreads := reads_untouched (h.quoted r hr) hspec hf hap (fun e he =>
      required_cleared h.parsed.nested hc hs hv hd hvalue hcall harg hstring (h.leaves r hr) he) hout
    simpa [rewritten, hreq] using hreads

end Retyping

namespace SourceUnit

open Retyping (WellQuoted Reads rewritten)

/-- Where a literal of a unit stood, the code made of the unit for a target reads this. -/
def ReadsAt (u : SourceUnit) (t : Tree) (table : AliasTable) (s : Synthesis) (target : String)
    (n : Node) (code spec : String) : Prop :=
  Reads u.source.octets.toList (Retyping.edits u.source table u.path target t.root
    (u.profile table).kind (Classification.ofRoot u.source u.path t.root) s) n code spec

theorem retype_reads {u : SourceUnit} {t : Tree} (ht : u.tree = some t) (hte : t.hasError = false)
    (hw : WellQuoted u.source t.root) {table : AliasTable} {s : Synthesis} {target : String}
    {r : Import.Reading} (hr : r ∈ Import.readings u.source t.root)
    (hi : table.isInternal r.specifier = true) {out : Retyped}
    (hout : u.retype table (u.profile table).kind s target = .ok out) :
    u.ReadsAt t table s target r.literal out.code (rewritten table u.path target r) := by
  have hkind : (u.profile table).kind = (Classification.ofRoot u.source u.path t.root).kind := by
    rw [profile_kind, classification_of_tree ht hte]
  obtain ⟨-, octets, hoctets, hcode⟩ := retype_applied ht hout
  rw [hkind] at hoctets
  rw [ReadsAt, hkind, hcode]
  exact Retyping.reading_reads hw rfl hr table u.path target s hi hoctets

/-- A module that requires another: `const x = require('./foo');`. -/
def requiring : SourceUnit where
  path := "components/A.jsx"
  language := .javascript
  source := .ofText "const x = require('./foo');"
  tree := some ⟨⟨"program", true, 0, 27, "",
    [⟨"lexical_declaration", true, 0, 27, "",
      [⟨"const", false, 0, 5, "kind", []⟩,
       ⟨"variable_declarator", true, 6, 26, "",
        [⟨"identifier", true, 6, 7, "name", []⟩, ⟨"=", false, 8, 9, "", []⟩,
         ⟨"call_expression", true, 10, 26, "value",
          [⟨"identifier", true, 10, 17, "function", []⟩,
           ⟨"arguments", true, 17, 26, "arguments",
            [⟨"(", false, 17, 18, "", []⟩,
             ⟨"string", true, 18, 25, "",
              [⟨"'", false, 18, 19, "", []⟩, ⟨"string_fragment", true, 19, 24, "", []⟩,
               ⟨"'", false, 24, 25, "", []⟩]⟩,
             ⟨")", false, 25, 26, "", []⟩]⟩]⟩]⟩,
       ⟨";", false, 26, 27, "", []⟩]⟩]⟩, false⟩

end SourceUnit

end Retype

import Retype.Proofs.Path.Shortest
import Retype.Proofs.Retyping.Places

/-!
# Edits never collide

The nodes that edits replace are apart from one another, and no place where a
text is inserted lies strictly inside one of them. So the edits of a module are
pairwise apart, and a unit without errors is retyped unless the text of an edit has
no octets.
-/

set_option autoImplicit false

namespace Retype

namespace Retyping

open Edit (Replaces InsertsAt Clears)

variable {src : Source} {root : Node}

/-- What a classification of the module found, and where it stands. -/
theorem component_apart {path : String} {hit : Match} {n : Node} (h : WellParsed root)
    (hf : (Classification.ofRoot src path root).found = some hit)
    (hk : (Classification.ofRoot src path root).kind = .functionComponent ∨
      (Classification.ofRoot src path root).kind = .classComponent)
    (hn : n ∈ specifierNodes root) : Node.Apart hit.node n := by
  obtain ⟨hs, hw⟩ := Classification.found_placed hf
  rcases hk with hk | hk
  · obtain ⟨d, hd, -, hhd⟩ := Classification.found_function hk hf
    have hap := declared_apart h.nested hn hd
    have hdw : Node.Nested d.node := by
      obtain ⟨hds, hdo⟩ := Declaration.mem_all hd
      have := h.nested.child (Node.mem_children_of_statement hds)
      exact this.of_mem (Declaration.node_mem_walk hdo)
    obtain ⟨t, ht, -, htn⟩ := mem_specifierNodes.mp hn
    have hnn := (h.nested.child (Node.mem_children_of_named ht)).child
      (Node.mem_children_of_child? htn)
    exact hap.of_mem hdw hnn (Search.functionOf_mem_walk hhd) (Node.self_mem_walk n)
  · exact class_apart h hn (Node.mem_children_of_statement hs) hw (Classification.found_class hk hf)

theorem componentEdits_inside {path : String} {name : Option String} {e : Edit} {c : Classification}
    (h : WellParsed root) (hc : c = Classification.ofRoot src path root)
    (he : e ∈ componentEdits src c.kind c name) :
    ∃ hit, c.found = some hit ∧ (c.kind = .functionComponent ∨ c.kind = .classComponent) ∧
      hit.node ∈ root.walk ∧ Inside hit.node e := by
  unfold componentEdits at he
  split at he
  · simp at he
  · next hit hf =>
    obtain ⟨hs, hw⟩ := Classification.found_placed (hc ▸ hf)
    have hroot := Node.mem_walk_of_child (Node.mem_children_of_statement hs) hw
    have hnest := h.nested.of_mem hroot
    split at he
    · next hk =>
      obtain ⟨hkind, hfn⟩ := Bool.and_eq_true_iff.mp hk
      exact ⟨hit, hf, Or.inl (by simpa using hkind), hroot, signatureEdits_inside hnest hfn he⟩
    · split at he
      · next hk =>
        split at he
        · exact ⟨hit, hf, Or.inr hk, hroot, baseEdit?_inside hnest (Option.mem_toList.mp he)⟩
        · simp at he
      · simp at he

theorem componentEdits_apart (kind : Kind) (c : Classification) (name : Option String) :
    (componentEdits src kind c name).Pairwise Edit.Apart := by
  unfold componentEdits
  split
  · exact List.Pairwise.nil
  · split
    · exact signatureEdits_apart _ name
    · split
      · split
        · exact Option.pairwise_toList
        · exact List.Pairwise.nil
      · exact List.Pairwise.nil

/-! ## All edits of a module -/

theorem Inside.clears {owner n : Node} {e : Edit} (h : Node.Nested owner) (he : Inside owner e)
    (hon : Node.Apart owner n) : Clears n e := by
  rcases he with ⟨p, -, hp, hr⟩ | ⟨p, h1, h2, hi⟩
  · have hpc := Node.child_mem_walk (Node.mem_children_of_child? hp)
    have hpw := h.within hpc
    have hpf := h.forward hpc
    refine hr.clears ?_
    unfold Node.Apart Node.Before at *
    omega
  · exact hi.clears (Node.Avoids.of_apart hon h1 h2)

theorem Inside.apart_insertsAt {owner : Node} {p : Nat} {a b : Edit} (ha : Inside owner a)
    (hb : InsertsAt p b)
    (havoid : owner.isFunction = true → ∀ q, owner.child? "parameter" = some q → Node.Avoids p q) :
    Edit.Apart a b := by
  rcases ha with ⟨q, hfn, hq, har⟩ | ⟨q, -, -, hai⟩
  · exact har.apart (hb.clears (havoid hfn q hq))
  · exact hai.apart hb

section

variable {path : String} {c : Classification} {table : AliasTable} {importer target : String}
  {s : Synthesis} {name : Option String}

theorem interface_clears {n t : Node} {e : Edit} (h : Node.Nested root)
    (hc : ∀ hit ∈ c.found, Search.Placed root hit) (ht : t ∈ root.children) (hn : n ∈ t.walk)
    (he : e ∈ interfaceEdits src root c s target) : Clears n e := by
  obtain ⟨p, hp, hi⟩ := interfaceEdits_insert hc he
  exact hi.clears (hp.avoids h ht hn)

theorem component_clears {n : Node} {e : Edit} (h : WellParsed root)
    (hc : c = Classification.ofRoot src path root) (hn : n ∈ specifierNodes root)
    (he : e ∈ componentEdits src c.kind c name) : Clears n e := by
  obtain ⟨hit, hf, hk, hroot, hin⟩ := componentEdits_inside h hc he
  subst hc
  exact hin.clears (h.nested.of_mem hroot) (component_apart h hf hk hn)

theorem state_clears {n : Node} {e : Edit} (h : Node.Nested root) (hn : n ∈ root.walk)
    (hplain : ∀ d ∈ n.walk, d.isCall = false) (he : e ∈ stateEdits src root) : Clears n e := by
  obtain ⟨call, hcall, hk, callee, hcallee, hi⟩ := stateEdits_insert he
  exact hi.clears (callee_avoids h hn hplain hcall hk hcallee)

def otherEdits (src : Source) (root : Node) (c : Classification) (s : Synthesis) (target : String) :
    List Edit :=
  interfaceEdits src root c s target ++
    (componentEdits src c.kind c s.interfaceName ++ stateEdits src root)

theorem edits_eq (src : Source) (table : AliasTable) (importer target : String) (root : Node)
    (c : Classification) (s : Synthesis) :
    edits src table importer target root c.kind c s =
      specifierEdits src table importer target root ++ otherEdits src root c s target := by
  simp only [edits, otherEdits, List.append_assoc]

/-- No other edit touches a source string. -/
theorem source_cleared {n : Node} {e : Edit} (h : WellParsed root)
    (hc : c = Classification.ofRoot src path root) (hn : n ∈ specifierNodes root)
    (he : e ∈ otherEdits src root c s target) : Clears n e := by
  obtain ⟨t, ht, -, htn⟩ := mem_specifierNodes.mp hn
  have htc := Node.mem_children_of_named ht
  have hnt := Node.child_mem_walk (Node.mem_children_of_child? htn)
  simp only [otherEdits, List.mem_append] at he
  rcases he with he | he | he
  · exact interface_clears h.nested (fun hit hf => Classification.found_placed (hc ▸ hf)) htc hnt he
  · exact component_clears h hc hn he
  · exact state_clears h.nested (Node.mem_walk_of_child htc hnt)
      (fun d hd => (h.plainSources n hn d hd).1) he

theorem interface_component_apart {a b : Edit} (h : WellParsed root)
    (hc : c = Classification.ofRoot src path root) (ha : a ∈ interfaceEdits src root c s target)
    (hb : b ∈ componentEdits src c.kind c name) : Edit.Apart a b := by
  have hplaced : ∀ hit ∈ c.found, Search.Placed root hit := fun hit hf =>
    Classification.found_placed (hc ▸ hf)
  obtain ⟨p, hp, hai⟩ := interfaceEdits_insert hplaced ha
  obtain ⟨hit, hf, -, -, hin⟩ := componentEdits_inside h hc hb
  refine (hin.apart_insertsAt hai fun _ q hq => ?_).symm
  obtain ⟨hs, hw⟩ := hplaced hit hf
  have hqw := Node.walk_trans (Node.child_mem_walk (Node.mem_children_of_child? hq)) hw
  exact hp.avoids h.nested (Node.mem_children_of_statement hs) hqw

theorem component_state_apart {a b : Edit} (h : WellParsed root)
    (hc : c = Classification.ofRoot src path root) (ha : a ∈ componentEdits src c.kind c name)
    (hb : b ∈ stateEdits src root) : Edit.Apart a b := by
  obtain ⟨hit, hf, -, hroot, hin⟩ := componentEdits_inside h hc ha
  obtain ⟨call, hcall, hk, callee, hcallee, hbi⟩ := stateEdits_insert hb
  refine hin.apart_insertsAt hbi fun hfn q hq => ?_
  have hqw := Node.walk_trans (Node.child_mem_walk (Node.mem_children_of_child? hq)) hroot
  exact callee_avoids h.nested hqw (h.plainParameters hit.node hroot hfn q hq) hcall hk hcallee

theorem otherEdits_apart (h : WellParsed root) (hc : c = Classification.ofRoot src path root) :
    (otherEdits src root c s target).Pairwise Edit.Apart := by
  have hinterface : ∀ e ∈ interfaceEdits src root c s target, ∃ p, InsertsAt p e := by
    intro e he
    obtain ⟨p, -, hp⟩ := interfaceEdits_insert
      (fun hit hf => Classification.found_placed (hc ▸ hf)) he
    exact ⟨p, hp⟩
  have hstate : ∀ e ∈ stateEdits src root, ∃ p, InsertsAt p e := by
    intro e he
    obtain ⟨-, -, -, callee, -, hp⟩ := stateEdits_insert he
    exact ⟨callee.stop, hp⟩
  unfold otherEdits
  simp only [List.pairwise_append, List.mem_append]
  refine ⟨Edit.insertions_apart hinterface, ⟨componentEdits_apart c.kind c _,
    Edit.insertions_apart hstate, ?_⟩, ?_⟩
  · exact fun a ha b hb => component_state_apart h hc ha hb
  · rintro a ha b (hb | hb)
    · exact interface_component_apart h hc ha hb
    · obtain ⟨p, hp⟩ := hinterface a ha
      obtain ⟨q, hq⟩ := hstate b hb
      exact hp.apart hq

theorem edits_apart (h : WellParsed root) (hc : c = Classification.ofRoot src path root)
    (table : AliasTable) (importer target : String) (s : Synthesis) :
    (edits src table importer target root c.kind c s).Pairwise Edit.Apart := by
  rw [edits_eq, List.pairwise_append]
  refine ⟨specifierEdits_apart h.nested table importer target, otherEdits_apart h hc, ?_⟩
  intro a ha b hb
  obtain ⟨n, hn, hr⟩ := specifierEdits_replace ha
  exact hr.apart (source_cleared h hc hn hb)

/-! ## Edits within the module -/

theorem Replaces.fits {n : Node} {e : Edit} (h : Node.Nested root) (hn : n ∈ root.walk)
    (he : Replaces n e) : Edit.Fits root.stop e := by
  have hw := h.within hn
  have hf := h.forward hn
  obtain ⟨h1, h2⟩ := he
  constructor <;> omega

theorem InsertsAt.fits {p : Nat} {e : Edit} (hp : p ≤ root.stop) (he : InsertsAt p e) :
    Edit.Fits root.stop e := by
  obtain ⟨h1, h2⟩ := he
  constructor <;> omega

theorem topPlace_le {p : Nat} (h : Node.Nested root) (hp : Node.TopPlace root p) : p ≤ root.stop := by
  rcases hp with rfl | ⟨s, hs, hps⟩
  · exact Nat.zero_le _
  · have hw := h.laid.within s hs
    have hf := (h.child hs).laid.forward
    omega

theorem Inside.fits {owner : Node} {e : Edit} (h : Node.Nested root) (ho : owner ∈ root.walk)
    (he : Inside owner e) : Edit.Fits root.stop e := by
  rcases he with ⟨p, -, hp, hr⟩ | ⟨p, -, hp, hi⟩
  · exact Replaces.fits h
      (Node.walk_trans (Node.child_mem_walk (Node.mem_children_of_child? hp)) ho) hr
  · exact InsertsAt.fits (Nat.le_trans hp (h.within ho).2) hi

theorem edits_fit {e : Edit} (h : WellParsed root) (hc : c = Classification.ofRoot src path root)
    (he : e ∈ edits src table importer target root c.kind c s) : Edit.Fits root.stop e := by
  simp only [edits, List.mem_append] at he
  rcases he with ((he | he) | he) | he
  · obtain ⟨n, hn, hr⟩ := specifierEdits_replace he
    obtain ⟨t, ht, -, htn⟩ := mem_specifierNodes.mp hn
    exact Replaces.fits h.nested (Node.mem_walk_of_child (Node.mem_children_of_named ht)
      (Node.child_mem_walk (Node.mem_children_of_child? htn))) hr
  · obtain ⟨p, hp, hi⟩ := interfaceEdits_insert
      (fun hit hf => Classification.found_placed (hc ▸ hf)) he
    exact InsertsAt.fits (topPlace_le h.nested hp) hi
  · obtain ⟨hit, -, -, hroot, hin⟩ := componentEdits_inside h hc he
    exact hin.fits h.nested hroot
  · obtain ⟨call, hcall, -, callee, hcallee, hi⟩ := stateEdits_insert he
    have hw := h.nested.within (Node.walk_trans (Node.child_mem_walk hcallee) hcall)
    exact InsertsAt.fits hw.2 hi

theorem edits_chained (h : WellParsed root) (hc : c = Classification.ofRoot src path root)
    (table : AliasTable) (importer target : String) (s : Synthesis) :
    Edit.Chained (Edit.ordered (edits src table importer target root c.kind c s)) :=
  Edit.ordered_chained (fun _ he => (edits_fit h hc he).forward) (edits_apart h hc _ _ _ _)

end

end Retyping

/-! ## Retyping a unit -/

namespace SourceUnit

theorem profile_kind (u : SourceUnit) (table : AliasTable) :
    (u.profile table).kind = (Classification.ofUnit u).kind := rfl

theorem retype_broken {u : SourceUnit} (h : u.hasError = true) (table : AliasTable) (kind : Kind)
    (s : Synthesis) (target : String) :
    u.retype table kind s target = .error (.brokenSource u.path) := by
  unfold hasError at h
  unfold retype
  split
  · rfl
  · next t ht =>
    rw [ht] at h
    rw [if_pos h]

theorem tree_of_hasError {u : SourceUnit} (h : u.hasError = false) :
    ∃ t, u.tree = some t ∧ t.hasError = false := by
  unfold hasError at h
  split at h
  · cases h
  · next t ht => exact ⟨t, ht, h⟩

theorem classification_of_tree {u : SourceUnit} {t : Tree} (ht : u.tree = some t)
    (h : t.hasError = false) :
    Classification.ofUnit u = Classification.ofRoot u.source u.path t.root := by
  rw [Classification.ofUnit, ht]
  simp [h]

/-- What is made of the edits of a unit without errors is its code. -/
theorem retype_eq {u : SourceUnit} {t : Tree} (ht : u.tree = some t) (hte : t.hasError = false)
    (table : AliasTable) (kind : Kind) (s : Synthesis) (target : String) :
    u.retype table kind s target =
      match Edit.applyAll u.source.octets.toList (Retyping.edits u.source table u.path target t.root
        kind (Classification.ofRoot u.source u.path t.root) s) with
      | .error r => .error (.refused r)
      | .ok out => .ok
        { code := Utf8.decode out
          target := target
          companion := Retyping.companion? u.source t.root s target
          edits := (Retyping.edits u.source table u.path target t.root kind
            (Classification.ofRoot u.source u.path t.root) s).length
          warnings := s.unknowns } := by
  unfold retype
  rw [ht]
  exact if_neg (by rw [hte]; decide)

/-- What is written for a unit comes of its edits. -/
theorem retype_applied {u : SourceUnit} {t : Tree} (ht : u.tree = some t) {table : AliasTable}
    {kind : Kind} {s : Synthesis} {target : String} {r : Retyped}
    (hr : u.retype table kind s target = .ok r) :
    t.hasError = false ∧ ∃ out, Edit.applyAll u.source.octets.toList
        (Retyping.edits u.source table u.path target t.root kind
          (Classification.ofRoot u.source u.path t.root) s) = .ok out ∧
      r.code = Utf8.decode out := by
  cases hte : t.hasError with
  | true => simp [retype, ht, hte] at hr
  | false =>
    rw [retype_eq ht hte] at hr
    split at hr
    · cases hr
    · next out hout =>
      cases hr
      exact ⟨rfl, out, hout, rfl⟩

variable {u : SourceUnit} {t : Tree} (ht : u.tree = some t) (hte : t.hasError = false)
  (hw : Retyping.WellParsed t.root) (table : AliasTable) (s : Synthesis) (target : String)

include ht hte hw

/-- The edits of a unit without errors never overlap. -/
theorem edits_applied :
    let es := Retyping.edits u.source table u.path target t.root (u.profile table).kind
      (Classification.ofRoot u.source u.path t.root) s
    Edit.applyAll u.source.octets.toList es =
      match Edit.lone? (Edit.ordered es) with
      | some run => .error (.half run)
      | none => .ok ((Edit.ordered es).foldr
          (fun e out => Edit.replace out e (Utf8.encode e.text)) u.source.octets.toList) := by
  have hkind : (u.profile table).kind = (Classification.ofRoot u.source u.path t.root).kind := by
    rw [profile_kind, classification_of_tree ht hte]
  rw [hkind]
  exact Edit.applyAll_chained _ (Retyping.edits_chained hw rfl table u.path target s)

theorem retype_whole
    (h : ∀ e ∈ Retyping.edits u.source table u.path target t.root (u.profile table).kind
      (Classification.ofRoot u.source u.path t.root) s, Edit.Whole e) :
    ∃ r, u.retype table (u.profile table).kind s target = .ok r := by
  have happly := edits_applied ht hte hw table s target
  simp only [Edit.lone?_ordered.mpr h] at happly
  rw [retype_eq ht hte, happly]
  exact ⟨_, rfl⟩

theorem retype_half
    (h : ¬ ∀ e ∈ Retyping.edits u.source table u.path target t.root (u.profile table).kind
      (Classification.ofRoot u.source u.path t.root) s, Edit.Whole e) :
    ∃ run, Edit.lone? (Edit.ordered (Retyping.edits u.source table u.path target t.root
        (u.profile table).kind (Classification.ofRoot u.source u.path t.root) s)) = some run ∧
      u.retype table (u.profile table).kind s target = .error (.refused (.half run)) := by
  obtain ⟨run, hrun⟩ := Option.ne_none_iff_exists'.mp (mt Edit.lone?_ordered.mp h)
  have happly := edits_applied ht hte hw table s target
  simp only [hrun] at happly
  exact ⟨run, hrun, by rw [retype_eq ht hte, happly]⟩

omit ht hte hw

/-- A unit is refused as broken exactly if its tree is missing or broken. The edits of any
other unit never overlap, so it is retyped with the synthesis of its own profile, unless the
text of an edit has no octets: then it is refused for the last such text in order. -/
theorem retype_refused_iff_broken (u : SourceUnit) (table : AliasTable) (placement : Placement)
    (target : String)
    (hw : ∀ t ∈ u.tree, t.hasError = false → Retyping.WellParsed t.root) :
    let p := u.profile table
    let s := Synthesis.ofProfile p placement
    (u.hasError = true → u.retype table p.kind s target = .error (.brokenSource u.path)) ∧
      (u.hasError = false → ∃ t ∈ u.tree,
        let es := Retyping.edits u.source table u.path target t.root p.kind
          (Classification.ofRoot u.source u.path t.root) s
        (∀ o, Edit.applyAll u.source.octets.toList es ≠ .error (.overlap o)) ∧
        ((∀ e ∈ es, Edit.Whole e) → ∃ out r, Edit.applyAll u.source.octets.toList es = .ok out ∧
          u.retype table p.kind s target = .ok r ∧ r.code = Utf8.decode out) ∧
        ((¬ ∀ e ∈ es, Edit.Whole e) → ∃ run, Edit.lone? (Edit.ordered es) = some run ∧
          u.retype table p.kind s target = .error (.refused (.half run)))) := by
  intro p s
  refine ⟨fun h => retype_broken h table p.kind s target, fun h => ?_⟩
  obtain ⟨t, ht, hte⟩ := tree_of_hasError h
  have hwell := hw t ht hte
  refine ⟨t, ht, fun o ho => ?_, fun hwhole => ?_, retype_half ht hte hwell table s target⟩
  · have happly := edits_applied ht hte hwell table s target
    rw [happly] at ho
    split at ho <;> cases ho
  · obtain ⟨r, hr⟩ := retype_whole ht hte hwell table s target hwhole
    obtain ⟨-, out, hout, hcode⟩ := retype_applied ht hr
    exact ⟨out, r, hout, hr, hcode⟩

/-- An import above an arrow function whose parameter has no parentheses:
`import './a';` and `const A = p => <b/>;`. -/
def bareArrow : SourceUnit where
  path := "components/A.jsx"
  language := .javascript
  source := .ofText "import './a';\nconst A = p => <b/>;"
  tree := some ⟨⟨"program", true, 0, 34, "",
    [⟨"import_statement", true, 0, 13, "",
      [⟨"import", false, 0, 6, "", []⟩,
       ⟨"string", true, 7, 12, "source",
        [⟨"'", false, 7, 8, "", []⟩, ⟨"string_fragment", true, 8, 11, "", []⟩,
         ⟨"'", false, 11, 12, "", []⟩]⟩,
       ⟨";", false, 12, 13, "", []⟩]⟩,
     ⟨"lexical_declaration", true, 14, 34, "",
      [⟨"const", false, 14, 19, "kind", []⟩,
       ⟨"variable_declarator", true, 20, 33, "",
        [⟨"identifier", true, 20, 21, "name", []⟩, ⟨"=", false, 22, 23, "", []⟩,
         ⟨"arrow_function", true, 24, 33, "value",
          [⟨"identifier", true, 24, 25, "parameter", []⟩, ⟨"=>", false, 26, 28, "", []⟩,
           ⟨"jsx_self_closing_element", true, 29, 33, "body",
            [⟨"<", false, 29, 30, "", []⟩, ⟨"identifier", true, 30, 31, "name", []⟩,
             ⟨"/>", false, 31, 33, "", []⟩]⟩]⟩]⟩,
       ⟨";", false, 33, 34, "", []⟩]⟩]⟩, false⟩

def bareArrowLiteral : Node :=
  ⟨"string", true, 7, 12, "source",
    [⟨"'", false, 7, 8, "", []⟩, ⟨"string_fragment", true, 8, 11, "", []⟩, ⟨"'", false, 11, 12, "", []⟩]⟩

theorem bareArrow_specifierEdits (table : AliasTable) (target : String) :
    Retyping.specifierEdits bareArrow.source table bareArrow.path target
        (bareArrow.tree.getD default).root =
      let fresh := table.normalize "./a" bareArrow.path target
      if fresh = "./a" then [] else [⟨7, 12, "'" ++ fresh ++ "'"⟩] := by
  have hnodes : Retyping.specifierNodes (bareArrow.tree.getD default).root = [bareArrowLiteral] := rfl
  have hspec : bareArrow.source.stringOf? bareArrowLiteral = some "./a" := by decide +kernel
  have hquote : String.ofList ((bareArrow.source.textOf bareArrowLiteral).toList.take 1) = "'" := by
    decide +kernel
  have hinternal : table.isInternal "./a" = true := rfl
  simp only [Retyping.specifierEdits, hnodes, List.filterMap_cons, List.filterMap_nil,
    Retyping.specifierEdit?, hspec, hquote, hinternal]
  by_cases hsame : table.normalize "./a" bareArrow.path target = "./a" <;>
    simp [hsame, bareArrowLiteral]

theorem bareArrow_normalize :
    AliasTable.normalize ⟨AliasTable.standard, []⟩ "./a" bareArrow.path "src/components/A.tsx" =
      "@components/a" := by
  simp only [AliasTable.normalize, AliasTable.aliasForms, AliasTable.expand, AliasTable.unalias,
    AliasTable.standard_byAlias, AliasTable.standard_byFolder]
  decide +kernel

theorem bareArrow_whole : ∀ t ∈ bareArrow.tree,
    ∀ e ∈ Retyping.edits bareArrow.source ⟨AliasTable.standard, []⟩ bareArrow.path "src/components/A.tsx"
      t.root (bareArrow.profile ⟨AliasTable.standard, []⟩).kind
      (Classification.ofRoot bareArrow.source bareArrow.path t.root)
      (Synthesis.ofProfile (bareArrow.profile ⟨AliasTable.standard, []⟩) .inline), Edit.Whole e := by
  intro t ht
  obtain rfl : bareArrow.tree.getD default = t := by rw [ht]; rfl
  rw [Retyping.edits, bareArrow_specifierEdits, bareArrow_normalize]
  decide +kernel

theorem bareArrow_retyped :
    ∃ r, bareArrow.retype ⟨AliasTable.standard, []⟩ (bareArrow.profile ⟨AliasTable.standard, []⟩).kind
      (Synthesis.ofProfile (bareArrow.profile ⟨AliasTable.standard, []⟩) .inline)
      "src/components/A.tsx" = .ok r := by
  have hw : ∀ t ∈ bareArrow.tree, t.hasError = false → Retyping.WellParsed t.root := by
    intro t ht _
    cases ht
    decide
  obtain ⟨-, hok⟩ := retype_refused_iff_broken bareArrow ⟨AliasTable.standard, []⟩ .inline
    "src/components/A.tsx" hw
  obtain ⟨t, ht, -, hwhole, -⟩ := hok rfl
  obtain ⟨-, r, -, hr, -⟩ := hwhole (bareArrow_whole t ht)
  exact ⟨r, hr⟩

def halfAlias : AliasTable := ⟨[("@" ++ String.singleton (Half.ofUnit 0xD800) ++ "/", "components/")], []⟩

/-- A unit without errors whose import reads at the target as a text that has no octets. -/
theorem bareArrow_half : (∀ t ∈ bareArrow.tree, t.hasError = false ∧ Retyping.WellParsed t.root) ∧
    ∃ run, bareArrow.retype halfAlias (bareArrow.profile halfAlias).kind
      (Synthesis.ofProfile (bareArrow.profile halfAlias) .inline) "src/components/A.tsx" =
        .error (.refused (.half run)) := by
  have hw : ∀ t ∈ bareArrow.tree, t.hasError = false ∧ Retyping.WellParsed t.root := by
    intro t ht
    cases ht
    exact ⟨rfl, by decide⟩
  obtain ⟨-, hok⟩ := retype_refused_iff_broken bareArrow halfAlias .inline "src/components/A.tsx"
    fun t ht _ => (hw t ht).2
  obtain ⟨t, ht, -, -, hhalf⟩ := hok rfl
  have hfolders : halfAlias.folders =
      [("@" ++ String.singleton (Half.ofUnit 0xD800) ++ "/", "components")] := by decide +kernel
  have hnormal : halfAlias.normalize "./a" bareArrow.path "src/components/A.tsx" =
      "@" ++ String.singleton (Half.ofUnit 0xD800) ++ "/a" := by
    simp only [AliasTable.normalize, AliasTable.aliasForms, AliasTable.expand, AliasTable.unalias,
      AliasTable.byAlias_single _ hfolders, AliasTable.byFolder_single _ hfolders]
    decide +kernel
  obtain rfl : bareArrow.tree.getD default = t := by rw [ht]; rfl
  obtain ⟨run, -, hrun⟩ := hhalf fun hwhole => by
    rw [Retyping.edits, bareArrow_specifierEdits, hnormal] at hwhole
    exact absurd (hwhole ⟨7, 12, "'" ++ ("@" ++ String.singleton (Half.ofUnit 0xD800) ++ "/a") ++ "'"⟩
      (by simp +decide)) (by decide +kernel)
  exact ⟨hw, run, hrun⟩

end SourceUnit

end Retype

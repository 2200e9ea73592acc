import Retype.Proofs.Edit.Survival
import Retype.Proofs.Retyping.Imports

/-!
# Retyping only adds

An edit of a module inserts a text, or puts another string into the quotes of a source
string, or puts parentheses around a parameter. So all of the source but the literals of
rewritten specifiers stands in the code, in its order. Nothing is assumed of how edits
lie to one another: that they were applied is enough.
-/

set_option autoImplicit false

namespace Retype

/-! ## Where edits begin and stop -/

/-- A place at the edge of a node of a module, or the very beginning. -/
def Node.Edge (root : Node) (p : Nat) : Prop := p = 0 ∨ ∃ n ∈ root.walk, p = n.start ∨ p = n.stop

theorem Node.TopPlace.edge {root : Node} {p : Nat} (h : TopPlace root p) : Edge root p :=
  h.imp_right fun ⟨s, hs, hp⟩ => ⟨s, child_mem_walk hs, hp⟩

theorem Node.edge_stop {root n : Node} (h : n ∈ root.walk) : Edge root n.stop :=
  Or.inr ⟨n, h, Or.inr rfl⟩

namespace Retyping

open Edit (Replaces InsertsAt)

variable {src : Source} {root : Node} {path importer target : String} {c : Classification}
  {table : AliasTable} {s : Synthesis} {kind : Kind} {name : Option String} {e : Edit}

/-- An edit that puts parentheses around a parameter of a function, and something behind it. -/
def Encloses (src : Source) (root : Node) (e : Edit) : Prop :=
  ∃ fn ∈ root.walk, fn.isFunction = true ∧ ∃ p, fn.child? "parameter" = some p ∧ Replaces p e ∧
    ∃ rest, e.text = "(" ++ src.textOf p ++ rest

theorem signatureEdits_cases {fn : Node} (hfn : fn ∈ root.walk) (hk : fn.isFunction = true)
    (he : e ∈ signatureEdits src fn name) :
    (∃ p, Node.Edge root p ∧ InsertsAt p e) ∨ Encloses src root e := by
  cases hs : fn.child? "parameter" with
  | none =>
    obtain ⟨d, hd, text, rfl⟩ := signatureEdits_insert hs he
    exact Or.inl ⟨d.stop, Node.edge_stop (Node.walk_trans hd hfn), Edit.insertsAt_insertion _ _⟩
  | some single =>
    simp only [signatureEdits, hs] at he
    split at he
    · cases he
    · cases List.mem_singleton.mp he
      refine Or.inr ⟨fn, hfn, hk, single, hs, ⟨rfl, rfl⟩, noteOf name ++ ")" ++ noteOf (resultType? fn), ?_⟩
      simp only [String.append_assoc]

theorem componentEdits_cases (hc : c = Classification.ofRoot src path root)
    (he : e ∈ componentEdits src kind c name) :
    (∃ p, Node.Edge root p ∧ InsertsAt p e) ∨ Encloses src root e := by
  unfold componentEdits at he
  split at he
  · cases he
  · next hit hf =>
    obtain ⟨hs, hw⟩ := Classification.found_placed (hc ▸ hf)
    have hroot := Node.mem_walk_of_child (Node.mem_children_of_statement hs) hw
    split at he
    · next hk => exact signatureEdits_cases hroot (Bool.and_eq_true_iff.mp hk).2 he
    · split at he
      · split at he
        · obtain ⟨owner, ho, -, k, hk, hi⟩ := baseEdit?_place (Option.mem_toList.mp he)
          have hkroot := Node.walk_trans (Node.child_mem_walk hk) (Node.walk_trans ho hroot)
          exact Or.inl ⟨k.stop, Node.edge_stop hkroot, hi⟩
        · cases he
      · cases he

/-- Every edit of a module rewrites a source string, inserts a text at the edge of a node
or encloses a parameter. -/
theorem edits_cases (hc : c = Classification.ofRoot src path root)
    (he : e ∈ edits src table importer target root kind c s) :
    (∃ n ∈ specifierNodes root, specifierEdit? src table importer target n = some e) ∨
      (∃ p, Node.Edge root p ∧ InsertsAt p e) ∨ Encloses src root e := by
  simp only [edits, List.mem_append] at he
  rcases he with ((he | he) | he) | he
  · exact Or.inl (List.mem_filterMap.mp he)
  · obtain ⟨p, hp, hi⟩ := interfaceEdits_insert
      (fun hit hf => Classification.found_placed (hc ▸ hf)) he
    exact Or.inr (Or.inl ⟨p, hp.edge, hi⟩)
  · exact Or.inr (componentEdits_cases hc he)
  · obtain ⟨call, hcall, -, callee, hcallee, hi⟩ := stateEdits_insert he
    have hroot := Node.walk_trans (Node.child_mem_walk hcallee) hcall
    exact Or.inr (Or.inl ⟨callee.stop, Node.edge_stop hroot, hi⟩)

/-! ## Edits of a module that is well placed -/

/-- What a parser promises of where the nodes of a module stand: spans are nested and
within the source, no node begins or stops inside a character, and source strings have
their quotes. -/
structure WellPlaced (src : Source) (root : Node) : Prop where
  nested : Node.Nested root
  inside : root.stop ≤ src.octets.size
  between : ∀ n ∈ root.walk,
    Utf8.Between src.octets.toList n.start ∧ Utf8.Between src.octets.toList n.stop
  quoted : ∀ n ∈ specifierNodes root, n.kind = "string" → src.Quoted n

instance (src : Source) (root : Node) : Decidable (WellPlaced src root) :=
  decidable_of_iff (Node.Nested root ∧ root.stop ≤ src.octets.size ∧
      (∀ n ∈ root.walk,
        Utf8.Between src.octets.toList n.start ∧ Utf8.Between src.octets.toList n.stop) ∧
      ∀ n ∈ specifierNodes root, n.kind = "string" → src.Quoted n)
    ⟨fun ⟨h1, h2, h3, h4⟩ => ⟨h1, h2, h3, h4⟩, fun ⟨h1, h2, h3, h4⟩ => ⟨h1, h2, h3, h4⟩⟩

/-- An edit that only adds to a module. -/
inductive Adds (src : Source) (root : Node) (e : Edit) : Prop
  /-- It inserts a text. -/
  | inserts (h : e.start = e.stop)
  /-- It puts another string into the quotes of a source string. -/
  | requotes {n : Node} (hn : n ∈ specifierNodes root) (hr : Replaces n e) {q : UInt8}
      {inner : List UInt8} {fresh : String} (hq : q = 34 ∨ q = 39)
      (hs : src.slice n.start n.stop = q :: inner ++ [q])
      (ht : e.text = Source.quoteText q ++ fresh ++ Source.quoteText q)
  /-- It puts parentheses around a parameter. -/
  | encloses (h : Encloses src root e)

def rewrittenSources (src : Source) (table : AliasTable) (importer target : String) (root : Node) :
    List Node :=
  (specifierNodes root).filter fun n => (specifierEdit? src table importer target n).isSome

def outside (ns : List Node) (p : Nat) : Bool := ns.all fun n => p < n.start || n.stop ≤ p

theorem outside_of_mem {ns : List Node} {n : Node} {p : Nat} (hn : n ∈ ns) (h1 : n.start ≤ p)
    (h2 : p < n.stop) : outside ns p = false := by
  rw [outside, List.all_eq_false]
  refine ⟨n, hn, ?_⟩
  simp
  omega

theorem mem_walk_of_specifier {n : Node} (hn : n ∈ specifierNodes root) : n ∈ root.walk := by
  obtain ⟨t, ht, -, htn⟩ := mem_specifierNodes.mp hn
  exact Node.mem_walk_of_child (Node.mem_children_of_named ht)
    (Node.child_mem_walk (Node.mem_children_of_child? htn))

theorem span_replaces {n : Node} (hr : Replaces n e) :
    Edit.span src.octets.toList e = src.slice n.start n.stop := by
  rw [Edit.span, hr.1, hr.2, Source.slice_eq]
  rfl

section

variable (h : WellPlaced src root) (hc : c = Classification.ofRoot src path root)

include h in
theorem edge_between {p : Nat} (hv : Utf8.Valid src.octets.toList) (hp : Node.Edge root p) :
    Utf8.Between src.octets.toList p ∧ p ≤ src.octets.size := by
  have hin := h.inside
  rcases hp with rfl | ⟨n, hn, hpn⟩
  · exact ⟨hv.between_zero, Nat.zero_le _⟩
  · have hw := h.nested.within hn
    have hf := h.nested.forward hn
    rcases hpn with rfl | rfl
    · exact ⟨(h.between n hn).1, by omega⟩
    · exact ⟨(h.between n hn).2, by omega⟩

include h in
theorem replaces_cuts {n : Node} (hn : n ∈ root.walk) (hr : Replaces n e) :
    Edit.Fits src.octets.toList.length e ∧ Edit.CutsBetween src.octets.toList e := by
  have hin := h.inside
  have hw := h.nested.within hn
  have hf := h.nested.forward hn
  have hb := h.between n hn
  have h1 := hr.1
  have h2 := hr.2
  rw [Array.length_toList]
  refine ⟨⟨by omega, by omega, by omega⟩, ?_⟩
  rw [Edit.CutsBetween, h1, h2]
  exact hb

include h hc in
/-- An edit of a module that is well placed fits its source and cuts between characters. -/
theorem edits_cut (hv : Utf8.Valid src.octets.toList)
    (he : e ∈ edits src table importer target root kind c s) :
    Edit.Fits src.octets.toList.length e ∧ Edit.CutsBetween src.octets.toList e := by
  rcases edits_cases hc he with ⟨n, hn, hn'⟩ | ⟨p, hp, h1, h2⟩ | ⟨fn, hfn, -, p, hp, hr, -⟩
  · exact replaces_cuts h (mem_walk_of_specifier hn) (specifierEdit?_replaces hn')
  · obtain ⟨hb, hle⟩ := edge_between h hv hp
    rw [Array.length_toList]
    refine ⟨⟨by omega, by omega, by omega⟩, ?_⟩
    rw [Edit.CutsBetween, h1, h2]
    exact ⟨hb, hb⟩
  · exact replaces_cuts h
      (Node.walk_trans (Node.child_mem_walk (Node.mem_children_of_child? hp)) hfn) hr

include h hc in
theorem edits_add (he : e ∈ edits src table importer target root kind c s) : Adds src root e := by
  rcases edits_cases hc he with ⟨n, hn, hn'⟩ | ⟨p, -, h1, h2⟩ | hencloses
  · have hreplaces := specifierEdit?_replaces hn'
    unfold specifierEdit? at hn'
    split at hn'
    · cases hn'
    · next spec hspec =>
      obtain ⟨q, inner, hq, hslice⟩ := (h.quoted n hn (Source.kind_of_stringOf? hspec)).parts
      dsimp only at hn'
      split at hn'
      · cases hn'
        have hquote := Source.quote_quoted hq hslice
        exact .requotes hn hreplaces hq hslice (by rw [hquote])
      · cases hn'
  · exact .inserts (h1.trans h2.symm)
  · exact .encloses hencloses

include h hc in
/-- An edit of a module spares all of its source but the literals of rewritten specifiers. -/
theorem edits_spare (hv : Utf8.Valid src.octets.toList)
    (he : e ∈ edits src table importer target root kind c s) :
    Edit.Spares (outside (rewrittenSources src table importer target root)) src.octets.toList e := by
  obtain ⟨hfits, hcuts⟩ := edits_cut h hc hv he
  rcases edits_cases hc he with ⟨n, hn, hn'⟩ | ⟨p, -, h1, h2⟩ | ⟨fn, -, -, p, -, hr, rest, ht⟩
  · obtain ⟨h1, h2⟩ := specifierEdit?_replaces hn'
    have hmem : n ∈ rewrittenSources src table importer target root :=
      List.mem_filter.mpr ⟨hn, by rw [hn']; rfl⟩
    have hfirst := hfits.first
    have hlen : (Edit.span src.octets.toList e).length ≤ n.stop - n.start := by
      rw [Edit.span, List.length_take]
      omega
    rw [Edit.Spares, Edit.kept_none]
    · exact List.nil_sublist _
    · exact fun i hi hlt => outside_of_mem hmem (by omega) (by omega)
  · exact Edit.spares_insertion (h1.trans h2.symm)
  · have hforward := hfits.forward
    have hvalid := Edit.span_valid hv hcuts (by omega)
    have htext : Utf8.encode (src.textOf p) = Edit.span src.octets.toList e := by
      rw [span_replaces hr] at hvalid ⊢
      exact hvalid.encode_decode
    rw [Edit.Spares, ht, Utf8.encode_append, Utf8.encode_append, htext]
    refine (Edit.kept_sublist _ _ _).trans ?_
    exact (List.sublist_append_right _ _).trans (List.sublist_append_left _ _)

end

end Retyping

namespace SourceUnit

open Retyping

def octetsOutside (u : SourceUnit) (ns : List Node) : List UInt8 :=
  Edit.kept (outside ns) 0 u.source.octets.toList

end SourceUnit

end Retype

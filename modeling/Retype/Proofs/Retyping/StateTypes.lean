import Retype.Proofs.Component.Filing
import Retype.Proofs.Retyping.Collision

/-!
# State types written and reported

A module's state calls are read twice: the inventory has a descriptor of each, and an edit
writes the type argument of each that has none. Both read the same calls, and what is written
is what the descriptor says. On a walk a call comes before whatever stands behind its callee,
so the edits ascend in place.
-/

set_option autoImplicit false

namespace Retype

namespace Node

variable {root : Node}

/-- On a walk of a well-nested tree a node is followed by its descendants and by nodes behind it. -/
theorem Nested.walk_pairwise (h : Nested root) :
    root.walk.Pairwise fun a b => Before a b ∨ ∃ c ∈ a.children, b ∈ c.walk := by
  induction root using children_induction with
  | step n ih =>
    rw [walk_eq, List.pairwise_cons, List.pairwise_flatMap]
    refine ⟨fun b hb => Or.inr (List.mem_flatMap.mp hb), fun c hc => ih c hc (h.child hc), ?_⟩
    refine h.laid.inOrder.imp_of_mem fun {c d} hc hd hcd a ha b hb => Or.inl ?_
    have hac := (h.child hc).within ha
    have hbd := (h.child hd).within hb
    unfold Before at *
    omega

end Node

namespace Source

variable {src : Source}

theorem span_of_textOf {n : Node} (h : src.textOf n ≠ "") : n.start < n.stop := by
  by_contra hle
  refine h ?_
  have hempty : src.octets.extract n.start n.stop = #[] := Array.extract_eq_empty_of_le (by omega)
  rw [textOf, textAt, slice, hempty]
  rfl

/-- What is called as a hook has a name, so it takes up space. -/
theorem callee_of_hook {call : Node} {name : String} (hn : Node.Nested call) (h : src.hook? call = some name) :
    ∃ callee, call.child? "function" = some callee ∧ callee.start < callee.stop := by
  have hname : ∀ {text : String}, (some text).filter isHookName = some name → text ≠ "" := by
    rintro text htext rfl
    simp [Option.filter, isHookName] at htext
  unfold hook? at h
  split at h
  · cases h
  · next callee hcallee =>
    refine ⟨callee, hcallee, ?_⟩
    split at h
    · exact span_of_textOf (hname h)
    · split at h
      · have hproperty := hname h
        unfold childText textOf? at hproperty
        split at hproperty
        · exact absurd rfl hproperty
        · next property hp =>
          have hspan := span_of_textOf hproperty
          have hcallee' := hn.child (Node.mem_children_of_child? hcallee)
          have hin := hcallee'.laid.within property (Node.mem_children_of_child? hp)
          omega
      · cases h

end Source

namespace Retyping

variable (src : Source) (root : Node)

/-- What a parser promises of a call of a hook, by its own name or as a member of `React`: the
callee comes first and holds no call. -/
def PlainCallees : Prop :=
  ∀ call ∈ root.walk, call.isCall = true → (src.hook? call).isSome = true →
    (call.children.head?.any fun c => c.field == "function") = true ∧
      ∀ callee ∈ call.child? "function", ∀ d ∈ callee.walk, d.isCall = false

instance : Decidable (PlainCallees src root) :=
  inferInstanceAs (Decidable (∀ call ∈ root.walk, call.isCall = true → (src.hook? call).isSome = true →
    (call.children.head?.any fun c => c.field == "function") = true ∧
      ∀ callee ∈ call.child? "function", ∀ d ∈ callee.walk, d.isCall = false))

def stateCalls : List Node.Visit :=
  (root.visits []).filter fun v => v.node.isCall && src.hook? v.node == some "useState"

def untypedCalls : List Node.Visit :=
  (stateCalls src root).filter fun v => (v.node.child? "type_arguments").isNone

def descriptor (v : Node.Visit) : StateSlot :=
  (Hooks.stateSlot src .useState (Hooks.binding? v) v.node.arguments).withType

variable {src root}

theorem argument_withType (s : StateSlot) (h : s.inferred = none) : s.withType.argument = s.argument := by
  have hrecorded : (nonEmpty s.inferType).getD s.inferType = s.inferType := by
    unfold nonEmpty
    split <;> rfl
  have hinfer : s.withType.inferType = s.inferType := rfl
  unfold StateSlot.argument
  rw [hinfer, h]
  simp only [StateSlot.withType, Option.bind_some, Option.bind_none, Option.getD_none, hrecorded]

theorem stateEdit?_descriptor {v : Node.Visit} {callee : Node} (hk : v.node.isCall = true)
    (hh : src.hook? v.node = some "useState") (ht : v.node.child? "type_arguments" = none)
    (hc : v.node.child? "function" = some callee) : stateEdit? src v =
      some (Edit.insertion callee.stop ("<" ++ (descriptor src v).argument ++ ">")) := by
  rw [descriptor, argument_withType _ rfl]
  simp [stateEdit?, hk, hh, ht, hc]

/-! ## What the inventory says -/

theorem members_state {c : ClassMembers} {s : StateSlot} (h : s ∈ c.state src) : s.hook = .classField := by
  unfold ClassMembers.state at h
  split at h
  · cases h
  · obtain ⟨entry, -, hentry⟩ := List.mem_filterMap.mp h
    unfold ClassMembers.slot? at hentry
    split at hentry
    · cases hentry
      rfl
    · split at hentry
      · cases hentry
        rfl
      · cases hentry

theorem stateRecord?_useState (src : Source) (name : String) (v : Node.Visit) :
    (Hooks.stateRecord? src (name, v)).filter (fun s => s.hook = .useState) =
      if name = "useState" then
        some (Hooks.stateSlot src .useState (Hooks.binding? v) v.node.arguments)
      else none := by
  unfold Hooks.stateRecord? Hooks.drawer
  split_ifs <;> rfl

/-- Of what is filed as state, the slots of `useState` are those of its calls. -/
theorem filed_states (src : Source) (imports : List Import) (root : Node) :
    (Hooks.ofRoot src imports root).state.filter (fun s => s.hook = .useState) =
      (stateCalls src root).map fun v => Hooks.stateSlot src .useState (Hooks.binding? v) v.node.arguments := by
  rw [(Hooks.ofRoot_filed src imports root).state, Hooks.calls, stateCalls, List.filterMap_filterMap,
    List.filter_filterMap, ← List.filterMap_eq_map, List.filterMap_filter]
  refine List.filterMap_congr fun v _ => ?_
  cases v.node.isCall with
  | false => rfl
  | true =>
    cases src.hook? v.node with
    | none => rfl
    | some name => simpa using stateRecord?_useState src name v

/-- The `useState` descriptors of a profile are those of its calls, in document order. -/
theorem profile_states {u : SourceUnit} {t : Tree} (ht : u.tree = some t) (table : AliasTable) :
    (u.profile table).state.filter (fun s => s.hook = .useState) =
      (stateCalls u.source t.root).map (descriptor u.source) := by
  obtain ⟨members, imports, hstate⟩ : ∃ (members : ClassMembers) (imports : List Import),
      (u.profile table).state =
        (members.state u.source ++ (Hooks.ofRoot u.source imports t.root).state).map StateSlot.withType := by
    simp only [SourceUnit.profile, SourceUnit.inventoryProfile, SourceUnit.root?, ht, Option.map_some,
      Inventory.ofRoot]
    exact ⟨_, _, rfl⟩
  have hmembers : (members.state u.source).filter (fun s => s.hook = .useState) = [] := by
    refine List.filter_eq_nil_iff.mpr fun s hs => ?_
    rw [members_state hs]
    decide
  rw [hstate, List.filter_map]
  have hhook : ((fun s : StateSlot => decide (s.hook = .useState)) ∘ StateSlot.withType) =
      fun s => decide (s.hook = .useState) := rfl
  rw [hhook, List.filter_append, hmembers, List.nil_append, filed_states, List.map_map]
  rfl

/-! ## What is written -/

/-- What is inserted at each call, from the descriptors of the calls. -/
theorem stateEdits_texts (h : Node.Nested root) : (stateEdits src root).map (·.text) =
    (untypedCalls src root).map fun v => "<" ++ (descriptor src v).argument ++ ">" := by
  rw [stateEdits, untypedCalls, stateCalls, List.filter_filter, List.map_filterMap,
    ← List.filterMap_eq_map, List.filterMap_filter]
  refine List.filterMap_congr fun v hv => ?_
  by_cases hk : v.node.isCall = true ∧ src.hook? v.node = some "useState"
  · obtain ⟨callee, hc, -⟩ := Source.callee_of_hook (h.of_mem (Node.mem_walk_of_visit hv)) hk.2
    cases ht : v.node.child? "type_arguments" with
    | none =>
      rw [stateEdit?_descriptor hk.1 hk.2 ht hc]
      simp [hk, Edit.insertion]
    | some args => simp [stateEdit?, ht]
  · simp only [not_and] at hk
    cases hcall : v.node.isCall with
    | false => simp [stateEdit?, hcall]
    | true => simp [stateEdit?, hk hcall]

theorem stateEdit?_place {v : Node.Visit} {e : Edit} (h : stateEdit? src v = some e) :
    v.node.isCall = true ∧ src.hook? v.node = some "useState" ∧
      ∀ callee, v.node.child? "function" = some callee → e.start = callee.stop := by
  unfold stateEdit? at h
  split at h
  · next hk =>
    simp only [Bool.and_eq_true, beq_iff_eq] at hk
    obtain ⟨callee, hc, rfl⟩ := Option.map_eq_some_iff.mp h
    refine ⟨hk.1.1, hk.1.2, fun other ho => ?_⟩
    rw [Option.some.inj (ho.symm.trans hc)]
    rfl
  · cases h

/-- Whatever is called within a hook's call is called behind its callee. -/
theorem PlainCallees.behind {call callee c d : Node} (h : Node.Nested root) (hp : PlainCallees src root)
    (hcall : call ∈ root.walk) (hk : call.isCall = true) (hh : (src.hook? call).isSome = true)
    (hc : call.child? "function" = some callee) (hmem : c ∈ call.children) (hd : d ∈ c.walk)
    (hdk : d.isCall = true) : callee.stop ≤ d.start := by
  obtain ⟨hfirst, hplain⟩ := hp call hcall hk hh
  have hne : c ≠ callee := by
    rintro rfl
    rw [hplain c hc d hd] at hdk
    cases hdk
  have hcalln := h.of_mem hcall
  obtain ⟨rest, hrest⟩ : ∃ rest, call.children = callee :: rest := by
    unfold Node.child? at hc
    cases hchildren : call.children with
    | nil => simp [hchildren] at hc
    | cons first rest =>
      rw [hchildren] at hfirst hc
      rw [List.find?_cons_of_pos (by simpa using hfirst)] at hc
      exact ⟨rest, by rw [Option.some.inj hc]⟩
  have horder := hcalln.laid.inOrder
  rw [hrest] at horder hmem
  have hbefore := (List.pairwise_cons.mp horder).1 c ((List.mem_cons.mp hmem).resolve_left hne)
  have hdc := (hcalln.child (hrest ▸ hmem)).within hd
  unfold Node.Before at hbefore
  omega

/-- Edits of state calls ascend in place, in the order of the calls. -/
theorem stateEdits_ascend (h : Node.Nested root) (hp : PlainCallees src root) :
    (stateEdits src root).Pairwise fun a b => a.start < b.start := by
  have hvisits := h.walk_pairwise
  rw [← Node.visits_nodes [] root, List.pairwise_map] at hvisits
  refine List.pairwise_filterMap.mpr (hvisits.imp_of_mem fun {v w} hv hw hvw a ha b hb => ?_)
  have hvr := Node.mem_walk_of_visit hv
  have hwr := Node.mem_walk_of_visit hw
  obtain ⟨hvk, hvh, hplace⟩ := stateEdit?_place ha
  obtain ⟨hwk, hwh, hplace'⟩ := stateEdit?_place hb
  obtain ⟨callee, hc, -⟩ := Source.callee_of_hook (h.of_mem hvr) hvh
  obtain ⟨callee', hc', hspan⟩ := Source.callee_of_hook (h.of_mem hwr) hwh
  rw [hplace callee hc, hplace' callee' hc']
  have hin := (h v.node hvr).within callee (Node.mem_children_of_child? hc)
  have hin' := (h w.node hwr).within callee' (Node.mem_children_of_child? hc')
  have hbehind : callee.stop ≤ w.node.start := by
    rcases hvw with hbefore | ⟨c, hmem, hd⟩
    · exact Nat.le_trans hin.2 hbefore
    · exact hp.behind h hvr hvk (by rw [hvh]; rfl) hc hmem hd hwk
  omega

/-! ## What is noted -/

/-- Each call whose type is unknown has a note of its own, whatever name it is bound to. -/
theorem calls_noted {p : Profile} {calls : List Node.Visit}
    (hs : p.state.filter (fun s => s.hook = .useState) = calls.map (descriptor src)) (placement : Placement) :
    ((calls.filter fun v => (descriptor src v).argument = TypeText.unknown).map fun v =>
      p.name ++ ": state '" ++ (descriptor src v).name ++ "' has unknown type").Sublist
      (Synthesis.ofProfile p placement).unknowns := by
  have hnotes : (calls.map (descriptor src)).filterMap (Synthesis.stateNote p.name) =
      (calls.filter fun v => (descriptor src v).argument = TypeText.unknown).map fun v =>
        p.name ++ ": state '" ++ (descriptor src v).name ++ "' has unknown type" := by
    rw [List.filterMap_map, ← List.filterMap_eq_map, List.filterMap_filter]
    refine List.filterMap_congr fun v _ => ?_
    simp [Synthesis.stateNote]
  rw [← hnotes, ← hs]
  exact List.sublist_append_right _ _

theorem angled_inj {a b : String} : "<" ++ a ++ ">" = "<" ++ b ++ ">" ↔ a = b := by
  refine ⟨fun h => ?_, fun h => h ▸ rfl⟩
  have hlist := congrArg String.toList h
  simp only [String.toList_append, List.append_cancel_left_eq, List.append_cancel_right_eq] at hlist
  exact String.toList_inj.mp hlist

end Retyping

namespace SourceUnit

open Retyping

/-- The state types written are the state types reported: the profile's descriptors are those of
the calls; the edits, which ascend in place, write what the descriptors of the untyped calls say;
and each call that is given `unknown` has a note of its own among the warnings of what is
written, which is written if the texts of all edits have octets. -/
theorem state_types_reported {u : SourceUnit} {t : Tree} (ht : u.tree = some t) (he : t.hasError = false)
    (hw : WellParsed t.root) (hp : PlainCallees u.source t.root) (table : AliasTable) (placement : Placement)
    (target : String) :
    let p := u.profile table
    let s := Synthesis.ofProfile p placement
    let unknown := (untypedCalls u.source t.root).filter fun v =>
      (descriptor u.source v).argument = TypeText.unknown
    p.state.filter (fun s => s.hook = .useState) = (stateCalls u.source t.root).map (descriptor u.source) ∧
    (stateEdits u.source t.root).Pairwise (fun a b => a.start < b.start) ∧
    (stateEdits u.source t.root).map (·.text) =
      ((untypedCalls u.source t.root).map fun v => "<" ++ (descriptor u.source v).argument ++ ">") ∧
    ((stateEdits u.source t.root).filter fun e => e.text = "<unknown>").length = unknown.length ∧
    ((∀ e ∈ edits u.source table u.path target t.root p.kind
        (Classification.ofRoot u.source u.path t.root) s, Edit.Whole e) →
      ∃ r, u.retype table p.kind s target = .ok r) ∧
    ∀ r, u.retype table p.kind s target = .ok r →
      (unknown.map fun v =>
        p.name ++ ": state '" ++ (descriptor u.source v).name ++ "' has unknown type").Sublist r.warnings := by
  intro p s unknown
  have hstates := profile_states ht table
  have htexts : (stateEdits u.source t.root).map (·.text) =
      (untypedCalls u.source t.root).map fun v => "<" ++ (descriptor u.source v).argument ++ ">" :=
    stateEdits_texts hw.nested
  refine ⟨hstates, stateEdits_ascend hw.nested hp, htexts, ?_,
    retype_whole ht he hw table s target, fun r hr => ?_⟩
  · have hcount : ((stateEdits u.source t.root).filter fun e => e.text = "<unknown>").length =
        (((stateEdits u.source t.root).map (·.text)).filter fun text => text = "<unknown>").length := by
      rw [List.filter_map, List.length_map]
      rfl
    rw [hcount, htexts, List.filter_map, List.length_map]
    refine congrArg List.length (List.filter_congr fun v _ => ?_)
    exact decide_eq_decide.mpr (angled_inj (b := TypeText.unknown))
  · have hwarnings : r.warnings = s.unknowns := by
      rw [retype_eq ht he] at hr
      split at hr <;> cases hr
      rfl
    rw [hwarnings]
    refine List.Sublist.trans (List.Sublist.map _ ?_) (calls_noted hstates placement)
    exact List.Sublist.filter _ List.filter_sublist

/-- A state call within another, and one of which the value is bound. -/
def nestedStatesTree : Tree :=
  ⟨⟨"program", true, 0, 46, "",
    [⟨"expression_statement", true, 0, 21, "",
      [⟨"call_expression", true, 0, 20, "",
        [⟨"identifier", true, 0, 8, "function", []⟩,
         ⟨"arguments", true, 8, 20, "arguments",
          [⟨"(", false, 8, 9, "", []⟩,
           ⟨"call_expression", true, 9, 19, "",
            [⟨"identifier", true, 9, 17, "function", []⟩,
             ⟨"arguments", true, 17, 19, "arguments",
              [⟨"(", false, 17, 18, "", []⟩, ⟨")", false, 18, 19, "", []⟩]⟩]⟩,
           ⟨")", false, 19, 20, "", []⟩]⟩]⟩,
       ⟨";", false, 20, 21, "", []⟩]⟩,
     ⟨"lexical_declaration", true, 22, 46, "",
      [⟨"const", false, 22, 27, "kind", []⟩,
       ⟨"variable_declarator", true, 28, 45, "",
        [⟨"array_pattern", true, 28, 31, "name",
          [⟨"[", false, 28, 29, "", []⟩, ⟨"identifier", true, 29, 30, "", []⟩, ⟨"]", false, 30, 31, "", []⟩]⟩,
         ⟨"=", false, 32, 33, "", []⟩,
         ⟨"call_expression", true, 34, 45, "value",
          [⟨"identifier", true, 34, 42, "function", []⟩,
           ⟨"arguments", true, 42, 45, "arguments",
            [⟨"(", false, 42, 43, "", []⟩, ⟨"number", true, 43, 44, "", []⟩, ⟨")", false, 44, 45, "", []⟩]⟩]⟩]⟩,
       ⟨";", false, 45, 46, "", []⟩]⟩]⟩, false⟩

def nestedStates : SourceUnit where
  path := "components/A.jsx"
  language := .javascript
  source := .ofText "useState(useState());\nconst [v] = useState(0);"
  tree := some nestedStatesTree

theorem nestedStates_reported :
    ∃ r, nestedStates.retype ⟨AliasTable.standard, []⟩ (nestedStates.profile ⟨AliasTable.standard, []⟩).kind
        (Synthesis.ofProfile (nestedStates.profile ⟨AliasTable.standard, []⟩) .inline) "src/components/A.tsx" =
          .ok r ∧
      ["A: state 'state' has unknown type", "A: state 'state' has unknown type"].Sublist r.warnings := by
  have hwell : WellParsed nestedStatesTree.root := by decide +kernel
  have hplain : PlainCallees nestedStates.source nestedStatesTree.root := by decide +kernel
  obtain ⟨-, -, -, -, hretyped, hnotes⟩ := state_types_reported (u := nestedStates) rfl rfl hwell hplain
    ⟨AliasTable.standard, []⟩ .inline "src/components/A.tsx"
  have hunknown : ((untypedCalls nestedStates.source nestedStatesTree.root).filter fun v =>
      (descriptor nestedStates.source v).argument = TypeText.unknown).map
        (fun v => (nestedStates.profile ⟨AliasTable.standard, []⟩).name ++ ": state '" ++
          (descriptor nestedStates.source v).name ++ "' has unknown type") =
      ["A: state 'state' has unknown type", "A: state 'state' has unknown type"] := by
    decide +kernel
  obtain ⟨r, hr⟩ := hretyped (by decide +kernel)
  exact ⟨r, hr, hunknown ▸ hnotes r hr⟩

end SourceUnit

end Retype

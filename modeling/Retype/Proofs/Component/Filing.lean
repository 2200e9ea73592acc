import Mathlib.Algebra.BigOperators.Group.List.Lemmas
import Mathlib.Algebra.Ring.Nat
import Retype.Component.Hooks
import Retype.Proofs.Keyed
import Retype.Proofs.Tree.Nesting

/-!
# Filing hook calls

Every call of a hook is of one kind, which its name tells, and gives one entry to the list
of that kind. A custom hook has one entry for all its calls, which counts them. So the
entries stand in the order of their calls, and together they are as many as the calls.
-/

set_option autoImplicit false

namespace Retype.Hooks

/-- Where a call is filed. -/
inductive Drawer where
  | state (source : StateSource)
  | effect
  | callback
  | ref
  | context
  | custom
  deriving DecidableEq, Repr

def drawer (name : String) : Drawer :=
  if name = "useState" then .state .useState
  else if name = "useReducer" then .state .useReducer
  else if isEffectHook name then .effect
  else if name = "useCallback" ∨ name = "useMemo" then .callback
  else if name = "useRef" then .ref
  else if name = "useContext" then .context
  else .custom

variable (src : Source) (imports : List Import)

/-! ## What one call gives -/

def boundName (v : Node.Visit) : String := src.textOf? (binding? v)

def stateRecord? (c : String × Node.Visit) : Option StateSlot :=
  match drawer c.1 with
  | .state source => some (stateSlot src source (binding? c.2) c.2.node.arguments)
  | _ => none

def effectRecord? (c : String × Node.Visit) : Option Effect :=
  match drawer c.1 with
  | .effect =>
    let args := c.2.node.arguments
    let (trigger, deps) := dependencies src args[1]?
    some ⟨c.1, trigger, deps, hasCleanup args[0]?⟩
  | _ => none

def callbackRecord? (c : String × Node.Visit) : Option Callback :=
  match drawer c.1 with
  | .callback => some ⟨c.1, (nonEmpty (boundName src c.2)).getD "anonymous",
      (dependencies src c.2.node.arguments[1]?).2⟩
  | _ => none

def refRecord? (c : String × Node.Visit) : Option RefSlot :=
  match drawer c.1 with
  | .ref => some ⟨(nonEmpty (boundName src c.2)).getD "anonymous", c.2.node.arguments[0]?.map src.textOf⟩
  | _ => none

def contextRecord? (c : String × Node.Visit) : Option ContextUse :=
  match drawer c.1 with
  | .context => some ⟨src.textOf? c.2.node.arguments[0]?, boundName src c.2⟩
  | _ => none

def customName? (c : String × Node.Visit) : Option String :=
  match drawer c.1 with
  | .custom => some c.1
  | _ => none

def tally (known : Option CustomHook) (name : String) : CustomHook :=
  match known with
  | some known => { known with count := known.count + 1 }
  | none => ⟨name, originOf imports name, 1⟩

/-- A call goes to the end of the list of its kind, or is counted. -/
theorem file_eq (h : Hooks) (c : String × Node.Visit) :
    file src imports h c.1 c.2 =
      { state := h.state ++ (stateRecord? src c).toList
        effects := h.effects ++ (effectRecord? src c).toList
        refs := h.refs ++ (refRecord? src c).toList
        contexts := h.contexts ++ (contextRecord? src c).toList
        callbacks := h.callbacks ++ (callbackRecord? src c).toList
        custom := Keyed.updates id (tally imports) h.custom (customName? c).toList } := by
  unfold file stateRecord? effectRecord? refRecord? contextRecord? callbackRecord? customName? drawer
  simp only [beq_iff_eq, Bool.or_eq_true]
  split_ifs
  case neg =>
    simp only [Option.toList_none, Option.toList_some, List.append_nil, Keyed.updates, List.foldl_cons,
      List.foldl_nil, id_eq]
    cases Keyed.get? c.1 h.custom <;> rfl
  all_goals simp [Keyed.updates, boundName]

/-! ## What all calls give -/

/-- Entries as some calls give them, one after the other. -/
structure Filed (cs : List (String × Node.Visit)) (h : Hooks) : Prop where
  state : h.state = cs.filterMap (stateRecord? src)
  effects : h.effects = cs.filterMap (effectRecord? src)
  refs : h.refs = cs.filterMap (refRecord? src)
  contexts : h.contexts = cs.filterMap (contextRecord? src)
  callbacks : h.callbacks = cs.filterMap (callbackRecord? src)
  custom : h.custom = Keyed.updates id (tally imports) [] (cs.filterMap customName?)

variable {src imports}

theorem Filed.file {cs : List (String × Node.Visit)} {h : Hooks} (hf : Filed src imports cs h)
    (c : String × Node.Visit) : Filed src imports (cs ++ [c]) (file src imports h c.1 c.2) := by
  have hone : ∀ {α : Type} (f : String × Node.Visit → Option α), [c].filterMap f = (f c).toList := by
    intro α f
    cases hc : f c <;> simp [hc]
  rw [file_eq]
  refine ⟨?_, ?_, ?_, ?_, ?_, ?_⟩
  · rw [List.filterMap_append, hone, hf.state]
  · rw [List.filterMap_append, hone, hf.effects]
  · rw [List.filterMap_append, hone, hf.refs]
  · rw [List.filterMap_append, hone, hf.contexts]
  · rw [List.filterMap_append, hone, hf.callbacks]
  · rw [List.filterMap_append, hone, hf.custom, Keyed.updates, Keyed.updates, Keyed.updates,
      List.foldl_append]

theorem ofRoot_filed (src : Source) (imports : List Import) (root : Node) :
    Filed src imports (calls src root) (ofRoot src imports root) := by
  have general : ∀ cs : List (String × Node.Visit),
      Filed src imports cs (cs.foldl (fun h c => file src imports h c.1 c.2) {}) := by
    intro cs
    induction cs using List.reverseRecOn with
    | nil => exact ⟨rfl, rfl, rfl, rfl, rfl, rfl⟩
    | append_singleton cs c ih =>
      rw [List.foldl_concat]
      exact ih.file c
  exact general _

/-! ## Custom hooks -/

def customOf (imports : List Import) (names : List String) (name : String) : CustomHook :=
  ⟨name, originOf imports name, names.count name⟩

theorem get?_tally (imports : List Import) {names : List String} {name : String} (h : name ∈ names) :
    Keyed.get? name (Keyed.updates id (tally imports) [] names) = some (customOf imports names name) := by
  induction names using List.reverseRecOn with
  | nil => cases h
  | append_singleton names last ih =>
    rw [Keyed.updates_concat, id_eq, customOf, List.count_append]
    by_cases hl : last = name
    · subst hl
      rw [Keyed.get?_put_self]
      by_cases hn : last ∈ names
      · rw [ih hn]
        simp [tally, customOf]
      · have hkeys : last ∉ Keyed.keys (Keyed.updates id (tally imports) [] names) := by
          rw [Keyed.keys_updates (by simp), Order.mem_distinct]
          simpa using hn
        have hnone : Keyed.get? last (Keyed.updates id (tally imports) [] names) = none := by
          have := mt Keyed.has_iff.mp hkeys
          simpa [Keyed.has] using this
        rw [hnone, List.count_eq_zero.mpr hn]
        simp [tally]
    · have hn : name ∈ names := by
        have := List.mem_append.mp h
        simpa [Ne.symm hl] using this
      rw [Keyed.get?_put_other _ (Ne.symm hl), ih hn]
      simp [customOf, hl]

/-- Custom hooks stand where they are first called, each with the number of its calls. -/
theorem tally_eq (imports : List Import) (names : List String) :
    (Keyed.updates id (tally imports) [] names).map (·.2) =
      (Order.distinct names).map (customOf imports names) := by
  have hkeys : Keyed.keys (Keyed.updates id (tally imports) [] names) = Order.distinct names := by
    rw [Keyed.keys_updates (by simp), List.map_id]
    rfl
  have hnodup : (Keyed.keys (Keyed.updates id (tally imports) [] names)).Nodup := by
    rw [hkeys]
    exact Order.nodup_distinct names
  rw [← hkeys, Keyed.keys, List.map_map]
  refine List.map_congr_left fun e he => ?_
  have hmem : e.1 ∈ names := by
    rw [← Order.mem_distinct, ← hkeys]
    exact List.mem_map_of_mem he
  have hget := (Keyed.get?_eq_some_iff hnodup).mpr (show (e.1, e.2) ∈ _ from he)
  rw [get?_tally imports hmem] at hget
  exact (Option.some.inj hget).symm

theorem sum_counts (imports : List Import) (names : List String) :
    (((Order.distinct names).map (customOf imports names)).map (·.count)).sum = names.length := by
  have hperm : (Order.distinct names).Perm names.dedup :=
    (List.perm_ext_iff_of_nodup (Order.nodup_distinct names) names.nodup_dedup).mpr fun _ => by
      rw [Order.mem_distinct, List.mem_dedup]
  rw [List.map_map, List.Perm.sum_nat (hperm.map _)]
  exact List.sum_map_count_dedup_eq_length names

/-! ## All entries -/

def isHookCall (src : Source) (n : Node) : Bool := n.isCall && (src.hook? n).isSome

def callsHook (src : Source) (name : String) (n : Node) : Bool :=
  n.isCall && src.hook? n == some name

theorem entries_length (cs : List (String × Node.Visit)) :
    cs.length = (cs.filterMap (stateRecord? src)).length + (cs.filterMap (effectRecord? src)).length +
      (cs.filterMap (callbackRecord? src)).length + (cs.filterMap (refRecord? src)).length +
      (cs.filterMap (contextRecord? src)).length + (cs.filterMap customName?).length := by
  induction cs with
  | nil => rfl
  | cons c cs ih =>
    simp only [List.filterMap_cons, stateRecord?, effectRecord?, callbackRecord?, refRecord?, contextRecord?,
      customName?, List.length_cons]
    cases drawer c.1 <;> simp only [List.length_cons] <;> omega

theorem calls_nodes (src : Source) (root : Node) :
    (calls src root).map (fun c => (c.1, c.2.node)) =
      root.walk.filterMap fun n => if n.isCall then (src.hook? n).map (·, n) else none := by
  rw [calls, List.map_filterMap, ← Node.visits_nodes [] root, List.filterMap_map]
  refine List.filterMap_congr fun v _ => ?_
  simp only [Function.comp_apply]
  split
  · cases src.hook? v.node <;> rfl
  · rfl

theorem calls_length (src : Source) (root : Node) :
    (calls src root).length = root.walk.countP (isHookCall src) := by
  rw [← List.length_map (fun c => (c.1, c.2.node)), calls_nodes, List.length_filterMap_eq_countP]
  refine List.countP_congr fun n _ => ?_
  unfold isHookCall
  cases n.isCall <;> simp

theorem calls_count (src : Source) (root : Node) (name : String) :
    (calls src root).countP (fun c => c.1 == name) = root.walk.countP (callsHook src name) := by
  have hmap : (calls src root).countP (fun c => c.1 == name) =
      ((calls src root).map fun c => (c.1, c.2.node)).countP (fun c => c.1 == name) := by
    rw [List.countP_map]
    rfl
  rw [hmap, calls_nodes, List.countP_filterMap]
  refine List.countP_congr fun n _ => ?_
  unfold callsHook
  cases n.isCall <;> cases src.hook? n <;> simp

/-- A name is that of a custom hook or not, whatever the call. -/
theorem count_customName {cs : List (String × Node.Visit)} {name : String} (h : name ∈ cs.filterMap customName?) :
    (cs.filterMap customName?).count name = cs.countP fun c => c.1 == name := by
  have hdrawer : drawer name = .custom := by
    obtain ⟨c, -, hc⟩ := List.mem_filterMap.mp h
    unfold customName? at hc
    split at hc
    · next hd =>
      cases hc
      exact hd
    · cases hc
  rw [List.count, List.countP_filterMap]
  refine List.countP_congr fun c _ => ?_
  unfold customName?
  by_cases hc : c.1 = name
  · simp [hc, hdrawer]
  · cases drawer c.1 <;> simp [hc]

/-- Whatever the tree, each hook call is in the inventory once: in the one list of its kind, at
its place in document order, or in the count of its custom hook. -/
theorem ofRoot_inventory (src : Source) (imports : List Import) (root : Node) :
    let h := ofRoot src imports root
    let custom := h.custom.map (·.2)
    (root.walk.countP (isHookCall src) = h.state.length + h.effects.length + h.callbacks.length +
      h.refs.length + h.contexts.length + (custom.map (·.count)).sum) ∧
    (custom.map (·.name)).Nodup ∧
    (∀ c ∈ custom, c.count = root.walk.countP (callsHook src c.name)) ∧
    ((calls src root).map (fun c => (c.1, c.2.node)) =
      root.walk.filterMap fun n => if n.isCall then (src.hook? n).map (·, n) else none) ∧
    h.state = (calls src root).filterMap (stateRecord? src) ∧
    h.effects = (calls src root).filterMap (effectRecord? src) ∧
    h.callbacks = (calls src root).filterMap (callbackRecord? src) ∧
    h.refs = (calls src root).filterMap (refRecord? src) ∧
    h.contexts = (calls src root).filterMap (contextRecord? src) ∧
    custom.map (·.name) = Order.distinct ((calls src root).filterMap customName?) := by
  intro h custom
  have hf : Filed src imports (calls src root) h := ofRoot_filed src imports root
  have hcustom : custom =
      (Order.distinct ((calls src root).filterMap customName?)).map
        (customOf imports ((calls src root).filterMap customName?)) := by
    rw [← tally_eq, ← hf.custom]
  have hnames : custom.map (·.name) = Order.distinct ((calls src root).filterMap customName?) := by
    rw [hcustom, List.map_map]
    exact List.map_id _
  refine ⟨?_, ?_, ?_, calls_nodes src root, hf.state, hf.effects, hf.callbacks, hf.refs, hf.contexts, hnames⟩
  · rw [hcustom, sum_counts, ← calls_length, hf.state, hf.effects, hf.callbacks, hf.refs, hf.contexts]
    exact entries_length _
  · rw [hnames]
    exact Order.nodup_distinct _
  · intro c hc
    rw [hcustom] at hc
    obtain ⟨name, hname, rfl⟩ := List.mem_map.mp hc
    rw [customOf, count_customName (Order.mem_distinct.mp hname), calls_count]

end Retype.Hooks

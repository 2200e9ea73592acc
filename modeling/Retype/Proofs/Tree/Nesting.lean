import Mathlib.Data.List.Pairwise
import Retype.Module.Vocabulary

/-!
# Nesting of spans

In a parser's tree the span of a child lies within the span of its parent, and
siblings follow one another without overlap. From this alone any two nodes of a
tree are either one inside the other or apart, and a place at the edge of a
statement never falls strictly inside a node of any statement.
-/

set_option autoImplicit false

namespace Retype.Node

/-! ## Walks -/

theorem walkAll_eq (cs : List Node) : walkAll cs = cs.flatMap walk := by
  induction cs with
  | nil => rfl
  | cons c cs ih => rw [walkAll, ih, List.flatMap_cons]

theorem walk_eq (n : Node) : n.walk = n :: n.children.flatMap walk := by
  cases n
  rw [walk, walkAll_eq]

@[simp] theorem self_mem_walk (n : Node) : n ∈ n.walk := by
  rw [walk_eq]
  exact List.mem_cons_self

theorem mem_walk {n d : Node} : d ∈ n.walk ↔ d = n ∨ ∃ c ∈ n.children, d ∈ c.walk := by
  rw [walk_eq, List.mem_cons, List.mem_flatMap]

theorem mem_walk_of_child {n c d : Node} (hc : c ∈ n.children) (hd : d ∈ c.walk) : d ∈ n.walk :=
  mem_walk.mpr (Or.inr ⟨c, hc, hd⟩)

theorem child_mem_walk {n c : Node} (hc : c ∈ n.children) : c ∈ n.walk :=
  mem_walk_of_child hc (self_mem_walk c)

theorem children_induction {P : Node → Prop} (step : ∀ n, (∀ c ∈ n.children, P c) → P n)
    (n : Node) : P n :=
  step n fun c _ => children_induction step c
termination_by sizeOf n
decreasing_by exact sizeOf_mem_children ‹_›

theorem walk_trans {a b c : Node} (ha : a ∈ b.walk) (hb : b ∈ c.walk) : a ∈ c.walk := by
  induction c using children_induction with
  | step c ih =>
    rcases mem_walk.mp hb with rfl | ⟨d, hd, hbd⟩
    · exact ha
    · exact mem_walk_of_child hd (ih d hd hbd)

theorem mem_children_of_child? {n c : Node} {field : String} (h : n.child? field = some c) :
    c ∈ n.children :=
  List.mem_of_find?_eq_some h

theorem field_of_child? {n c : Node} {field : String} (h : n.child? field = some c) :
    c.field = field := by
  have := List.find?_some h
  simpa using this

theorem mem_children_of_named {n c : Node} (h : c ∈ n.namedChildren) : c ∈ n.children :=
  (List.mem_filter.mp h).1

theorem mem_children_of_parts {n c : Node} (h : c ∈ n.parts) : c ∈ n.children :=
  mem_children_of_named (List.mem_filter.mp h).1

theorem mem_walk_of_arguments {n a : Node} (h : a ∈ n.arguments) : a ∈ n.walk := by
  unfold arguments at h
  split at h
  · simp at h
  · next list hl =>
    exact mem_walk_of_child (mem_children_of_child? hl)
      (child_mem_walk (mem_children_of_parts h))

mutual

theorem unwrap_mem_walk : ∀ n : Node, n.unwrap ∈ n.walk
  | ⟨kind, named, start, stop, field, children⟩ => by
    rw [unwrap]
    split
    · cases h : unwrapFirst children with
      | none => simp
      | some d =>
        obtain ⟨c, hc, hd⟩ := unwrapFirst_mem_walk children d h
        exact mem_walk_of_child hc hd
    · exact self_mem_walk _

theorem unwrapFirst_mem_walk : ∀ (cs : List Node) (d : Node),
    unwrapFirst cs = some d → ∃ c ∈ cs, d ∈ c.walk
  | [], d, h => by simp [unwrapFirst] at h
  | c :: cs, d, h => by
    rw [unwrapFirst] at h
    split at h
    · cases h
      exact ⟨c, List.mem_cons_self, unwrap_mem_walk c⟩
    · obtain ⟨e, he, hd⟩ := unwrapFirst_mem_walk cs d h
      exact ⟨e, List.mem_cons_of_mem c he, hd⟩

end

theorem unwrap_of_kind {n : Node} (h : n.kind ≠ "parenthesized_expression") : n.unwrap = n := by
  cases n
  rw [unwrap, if_neg (by simpa using h)]

mutual

theorem visits_nodes : ∀ (above : List Node) (n : Node),
    (visits above n).map Visit.node = n.walk
  | above, ⟨kind, named, start, stop, field, children⟩ => by
    rw [visits, List.map_cons, visitsAll_nodes, walk]

theorem visitsAll_nodes : ∀ (above : List Node) (cs : List Node),
    (visitsAll above cs).map Visit.node = walkAll cs
  | _, [] => rfl
  | above, c :: cs => by
    rw [visitsAll, List.map_append, visits_nodes above c, visitsAll_nodes above cs, walkAll]

end

theorem mem_walk_of_visit {above : List Node} {n : Node} {v : Visit} (h : v ∈ visits above n) :
    v.node ∈ n.walk := by
  rw [← visits_nodes above n]
  exact List.mem_map_of_mem h

theorem visitsAll_eq (above cs : List Node) : visitsAll above cs = cs.flatMap (visits above) := by
  induction cs with
  | nil => rfl
  | cons c cs ih => rw [visitsAll, ih, List.flatMap_cons]

theorem visits_eq (above : List Node) (n : Node) :
    visits above n = ⟨n, above⟩ :: n.children.flatMap (visits (n :: above)) := by
  cases n
  rw [visits, visitsAll_eq]

theorem self_mem_visits (above : List Node) (n : Node) : ⟨n, above⟩ ∈ visits above n := by
  rw [visits_eq]
  exact List.mem_cons_self

theorem child_mem_visits {above : List Node} {n c : Node} {v : Visit} (h : v ∈ visits above n)
    (hc : c ∈ v.node.children) : ⟨c, v.node :: v.ancestors⟩ ∈ visits above n := by
  induction n using children_induction generalizing above with
  | step n ih =>
    rw [visits_eq, List.mem_cons, List.mem_flatMap] at h ⊢
    rcases h with rfl | ⟨d, hd, hv⟩
    · exact Or.inr ⟨c, hc, self_mem_visits _ c⟩
    · exact Or.inr ⟨d, hd, ih d hd hv⟩

/-! ## Spans -/

/-- One node ends before the other begins. -/
def Before (a b : Node) : Prop := a.stop ≤ b.start

instance (a b : Node) : Decidable (Before a b) := inferInstanceAs (Decidable (_ ≤ _))

def Apart (a b : Node) : Prop := Before a b ∨ Before b a

/-- A place that is not strictly inside a node. -/
def Avoids (p : Nat) (n : Node) : Prop := p ≤ n.start ∨ n.stop ≤ p

/-- The spans around one node: it does not end before it begins, its children lie
within it, and they follow one another. -/
structure Laid (n : Node) : Prop where
  forward : n.start ≤ n.stop
  within : ∀ c ∈ n.children, n.start ≤ c.start ∧ c.stop ≤ n.stop
  inOrder : n.children.Pairwise Before

instance (n : Node) : Decidable (Laid n) :=
  decidable_of_iff (n.start ≤ n.stop ∧ (∀ c ∈ n.children, n.start ≤ c.start ∧ c.stop ≤ n.stop) ∧
    n.children.Pairwise Before)
    ⟨fun ⟨h, hw, ho⟩ => ⟨h, hw, ho⟩, fun ⟨h, hw, ho⟩ => ⟨h, hw, ho⟩⟩

/-- Spans as a parser lays them out. -/
def Nested (root : Node) : Prop := ∀ n ∈ root.walk, Laid n

instance (n : Node) : Decidable (Nested n) := inferInstanceAs (Decidable (∀ _ ∈ _, _))

theorem Apart.symm {a b : Node} (h : Apart a b) : Apart b a := Or.symm h

instance : Std.Symm Apart := ⟨fun _ _ => Apart.symm⟩

theorem Nested.laid {n : Node} (h : Nested n) : Laid n := h n (self_mem_walk n)

theorem Nested.of_mem {n d : Node} (h : Nested n) (hd : d ∈ n.walk) : Nested d :=
  fun e he => h e (walk_trans he hd)

theorem Nested.child {n c : Node} (h : Nested n) (hc : c ∈ n.children) : Nested c :=
  h.of_mem (child_mem_walk hc)

theorem Nested.within {n d : Node} (h : Nested n) (hd : d ∈ n.walk) :
    n.start ≤ d.start ∧ d.stop ≤ n.stop := by
  induction n using children_induction with
  | step n ih =>
    rcases mem_walk.mp hd with rfl | ⟨c, hc, hdc⟩
    · exact ⟨Nat.le_refl _, Nat.le_refl _⟩
    · have hout := h.laid.within c hc
      have hin := ih c hc (h.child hc) hdc
      exact ⟨Nat.le_trans hout.1 hin.1, Nat.le_trans hin.2 hout.2⟩

theorem Nested.forward {n d : Node} (h : Nested n) (hd : d ∈ n.walk) : d.start ≤ d.stop :=
  (h d hd).forward

theorem Laid.children_apart {n a b : Node} (h : Laid n) (ha : a ∈ n.children)
    (hb : b ∈ n.children) (hne : a ≠ b) : Apart a b := by
  have hp : n.children.Pairwise Apart := h.inOrder.imp Or.inl
  exact hp.forall ha hb hne

theorem Apart.of_mem {a b c d : Node} (h : Apart a b) (ha : Nested a) (hb : Nested b)
    (hc : c ∈ a.walk) (hd : d ∈ b.walk) : Apart c d := by
  have h1 := ha.within hc
  have h2 := hb.within hd
  unfold Apart Before at *
  omega

/-- Nodes of a tree are one inside the other, or apart. -/
theorem Nested.nested_or_apart {root a b : Node} (h : Nested root) (ha : a ∈ root.walk)
    (hb : b ∈ root.walk) : a ∈ b.walk ∨ b ∈ a.walk ∨ Apart a b := by
  induction root using children_induction with
  | step n ih =>
    rcases mem_walk.mp ha with rfl | ⟨c, hc, hac⟩
    · exact Or.inr (Or.inl hb)
    rcases mem_walk.mp hb with rfl | ⟨d, hd, hbd⟩
    · exact Or.inl ha
    by_cases hcd : c = d
    · subst hcd
      exact ih c hc (h.child hc) hac hbd
    · have hap := h.laid.children_apart hc hd hcd
      exact Or.inr (Or.inr (hap.of_mem (h.child hc) (h.child hd) hac hbd))

theorem Apart.avoids_stop {a b : Node} (h : Apart a b) (ha : a.start ≤ a.stop) :
    Avoids a.stop b := by
  unfold Apart Before at h
  unfold Avoids
  omega

theorem Avoids.of_apart {p : Nat} {a b : Node} (h : Apart a b) (h1 : a.start ≤ p)
    (h2 : p ≤ a.stop) : Avoids p b := by
  unfold Apart Before at h
  unfold Avoids
  omega

/-- The end of a child is strictly inside no node, unless its parent is inside that node. -/
theorem Nested.child_stop_avoids {root n c k : Node} (h : Nested root) (hn : n ∈ root.walk)
    (hc : c ∈ root.walk) (hk : k ∈ c.children) (hout : c ∉ n.walk) : Avoids k.stop n := by
  have hck := (h c hc).within k hk
  have hkf := h.forward (walk_trans (child_mem_walk hk) hc)
  rcases h.nested_or_apart hc hn with hin | hin | hap
  · exact absurd hin hout
  · rcases mem_walk.mp hin with rfl | ⟨d, hd, hnd⟩
    · exact absurd (self_mem_walk n) hout
    have hcn : Nested c := h.of_mem hc
    have hnw := (hcn.child hd).within hnd
    by_cases hkd : k = d
    · subst hkd
      exact Or.inr hnw.2
    · have hap := hcn.laid.children_apart hk hd hkd
      exact (hap.of_mem (hcn.child hk) (hcn.child hd) (self_mem_walk k) hnd).avoids_stop hkf
  · exact Avoids.of_apart hap (by omega) hck.2

/-! ## Places at the top of a module -/

/-- A place at the edge of a child of the root, or the very beginning. -/
def TopPlace (root : Node) (p : Nat) : Prop :=
  p = 0 ∨ ∃ s ∈ root.children, p = s.start ∨ p = s.stop

theorem TopPlace.avoids {root s n : Node} {p : Nat} (hp : TopPlace root p) (h : Nested root)
    (hs : s ∈ root.children) (hn : n ∈ s.walk) : Avoids p n := by
  have hsn := (h.child hs).within hn
  rcases hp with rfl | ⟨t, ht, hpt⟩
  · exact Or.inl (Nat.zero_le _)
  have htf := (h.child ht).laid.forward
  by_cases hts : t = s
  · subst hts
    unfold Avoids
    omega
  · have hap := h.laid.children_apart ht hs hts
    exact Avoids.of_apart (hap.of_mem (h.child ht) (h.child hs) (self_mem_walk t) hn)
      (by omega) (by omega)

end Retype.Node

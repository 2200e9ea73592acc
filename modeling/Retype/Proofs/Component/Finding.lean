import Retype.Component.Classification
import Retype.Proofs.Module.Statements
import Retype.Proofs.Order

/-!
# What a classification finds

Whatever the search that classified a module found stands in a statement of the
module. A function component stands inside a declared value, and a class
component is a class.
-/

set_option autoImplicit false

namespace Retype

namespace Search

variable {src : Source} {root : Node} {hit : Match}

def Placed (root : Node) (hit : Match) : Prop :=
  hit.statement ∈ root.statements ∧ hit.node ∈ hit.statement.node.walk

theorem functionOf_mem_walk {levels : Nat} {n fn : Node} (h : functionOf levels n = some fn) :
    fn ∈ n.walk := by
  induction levels generalizing n with
  | zero =>
    rw [functionOf] at h
    split at h
    · cases h
      exact Node.unwrap_mem_walk n
    · cases h
  | succ levels ih =>
    rw [functionOf] at h
    split at h
    · cases h
      exact Node.unwrap_mem_walk n
    · split at h
      · obtain ⟨a, ha, hfn⟩ := List.exists_of_findSome?_eq_some h
        have hau := Node.mem_walk_of_arguments ha
        exact Node.walk_trans (ih hfn) (Node.walk_trans hau (Node.unwrap_mem_walk n))
      · cases h

theorem functionOf_isFunction {levels : Nat} {n fn : Node} (h : functionOf levels n = some fn) :
    fn.isFunction = true := by
  induction levels generalizing n with
  | zero =>
    rw [functionOf] at h
    split at h
    · next hk =>
      cases h
      exact hk
    · cases h
  | succ levels ih =>
    rw [functionOf] at h
    split at h
    · next hk =>
      cases h
      exact hk
    · split at h
      · obtain ⟨a, -, hfn⟩ := List.exists_of_findSome?_eq_some h
        exact ih hfn
      · cases h

theorem functionComponent_declared (h : functionComponent src root = some hit) :
    ∃ d ∈ Declaration.all src root, hit.name = d.name ∧ hit.statement = d.statement ∧
      functionOf 2 d.node = some hit.node := by
  obtain ⟨⟨d, fn⟩, hleast, rfl⟩ := Option.map_eq_some_iff.mp h
  obtain ⟨e, he, hfound⟩ := List.mem_filterMap.mp (Order.mem_of_leastBy hleast)
  obtain ⟨f, hf, heq⟩ := Option.map_eq_some_iff.mp hfound
  cases heq
  exact ⟨d, he, rfl, rfl, (Option.filter_eq_some_iff.mp hf).1⟩

theorem mem_visits {s : Statement} {v : Node.Visit} (h : (s, v) ∈ visits root) :
    s ∈ root.statements ∧ v.node ∈ s.node.walk := by
  obtain ⟨t, ht, hv⟩ := List.mem_flatMap.mp h
  obtain ⟨w, hw, heq⟩ := List.mem_map.mp hv
  cases heq
  exact ⟨ht, Node.mem_walk_of_visit hw⟩

theorem classFound_eq {s : Statement} {v : Node.Visit} {f : ClassFound}
    (h : classFound src s v = some f) :
    f.hit.statement = s ∧ f.hit.node = v.node ∧ v.node.isClass = true := by
  by_cases hk : (v.node.isClass && extendsComponent src v.node) = true
  · rw [classFound, if_pos hk] at h
    cases Option.some.inj h
    exact ⟨rfl, rfl, (Bool.and_eq_true_iff.mp hk).1⟩
  · rw [classFound, if_neg hk] at h
    cases h

theorem classComponent_placed (h : classComponent src root = some hit) :
    Placed root hit ∧ hit.node.isClass = true := by
  obtain ⟨f, hleast, rfl⟩ := Option.map_eq_some_iff.mp h
  obtain ⟨⟨s, v⟩, hv, hfound⟩ := List.mem_filterMap.mp (Order.mem_of_leastBy hleast)
  obtain ⟨hs, hn, hk⟩ := classFound_eq hfound
  obtain ⟨hsm, hnw⟩ := mem_visits hv
  rw [Placed, hs, hn]
  exact ⟨⟨hsm, hnw⟩, hk⟩

theorem functionComponent_placed (h : functionComponent src root = some hit) :
    Placed root hit := by
  obtain ⟨d, hd, -, hs, hn⟩ := functionComponent_declared h
  obtain ⟨hds, hdo⟩ := Declaration.mem_all hd
  exact ⟨hs ▸ hds, hs ▸ Node.walk_trans (functionOf_mem_walk hn) (Declaration.node_mem_walk hdo)⟩

theorem declared_placed {d : Declaration} {name : Option String} (h : d ∈ Declaration.all src root) :
    Placed root ⟨name, d.node, d.statement⟩ := by
  obtain ⟨hds, hdo⟩ := Declaration.mem_all h
  exact ⟨hds, Declaration.node_mem_walk hdo⟩

theorem higherOrderMatch_eq {e : Exports} {tags : List String} {d : Declaration}
    (h : higherOrderMatch src e tags d = some hit) :
    ∃ name, hit = ⟨name, d.node, d.statement⟩ := by
  unfold higherOrderMatch at h
  repeat' split at h
  all_goals first | cases h; exact ⟨_, rfl⟩ | cases h

theorem higherOrderComponent_placed (h : higherOrderComponent src root = some hit) :
    Placed root hit := by
  obtain ⟨d, hd, hm⟩ := List.exists_of_findSome?_eq_some h
  obtain ⟨name, rfl⟩ := higherOrderMatch_eq hm
  exact declared_placed hd

theorem customHook_declared (h : customHook src root = some hit) :
    ∃ d ∈ Declaration.all src root, ∃ name, hit = ⟨name, d.node, d.statement⟩ := by
  obtain ⟨d, hd, hm⟩ := List.exists_of_findSome?_eq_some h
  split at hm
  · cases hm
  · split at hm
    · cases hm
      exact ⟨d, hd, _, rfl⟩
    · cases hm

theorem customHook_placed (h : customHook src root = some hit) : Placed root hit := by
  obtain ⟨d, hd, name, rfl⟩ := customHook_declared h
  exact declared_placed hd

theorem contextProvider_placed (h : contextProvider src root = some hit) :
    Placed root hit ∧ hit.node.isCall = true := by
  obtain ⟨⟨s, v⟩, hv, hm⟩ := List.exists_of_findSome?_eq_some h
  simp only at hm
  split at hm
  · next hk =>
    cases hm
    exact ⟨mem_visits hv, (Bool.and_eq_true_iff.mp hk).1⟩
  · cases hm

end Search

namespace Classification

variable {src : Source} {path : String} {root : Node} {hit : Match}

theorem found_by_search (h : (ofRoot src path root).found = some hit) :
    ∃ search, ((ofRoot src path root).kind, search) ∈ Search.all ∧ search src root = some hit := by
  obtain ⟨⟨kind, m⟩, hks, rfl⟩ := Option.map_eq_some_iff.mp h
  obtain ⟨⟨k, search⟩, hmem, hm⟩ := List.exists_of_findSome?_eq_some hks
  obtain ⟨m', hm', heq⟩ := Option.map_eq_some_iff.mp hm
  cases heq
  have hkind : (ofRoot src path root).kind = kind := by
    simp only [ofRoot, hks, Option.map_some, Option.getD_some]
  exact ⟨search, hkind ▸ hmem, hm'⟩

theorem found_of_kind (h : (ofRoot src path root).kind ≠ .unknown) :
    ∃ hit, (ofRoot src path root).found = some hit := by
  cases hfound : (ofRoot src path root).found with
  | some hit => exact ⟨hit, rfl⟩
  | none =>
    unfold ofRoot at hfound h
    simp only [Option.map_eq_none_iff] at hfound
    simp only [hfound, Option.map_none, Option.getD_none] at h
    exact absurd rfl h

theorem found_placed (h : (ofRoot src path root).found = some hit) : Search.Placed root hit := by
  obtain ⟨search, hmem, hs⟩ := found_by_search h
  simp only [Search.all, List.mem_cons, Prod.mk.injEq, List.not_mem_nil, or_false] at hmem
  rcases hmem with ⟨-, rfl⟩ | ⟨-, rfl⟩ | ⟨-, rfl⟩ | ⟨-, rfl⟩ | ⟨-, rfl⟩
  · exact (Search.classComponent_placed hs).1
  · exact Search.functionComponent_placed hs
  · exact Search.higherOrderComponent_placed hs
  · exact Search.customHook_placed hs
  · exact (Search.contextProvider_placed hs).1

theorem found_class (hk : (ofRoot src path root).kind = .classComponent)
    (h : (ofRoot src path root).found = some hit) : hit.node.isClass = true := by
  obtain ⟨search, hmem, hs⟩ := found_by_search h
  simp [hk, Search.all] at hmem
  subst hmem
  exact (Search.classComponent_placed hs).2

theorem found_function (hk : (ofRoot src path root).kind = .functionComponent)
    (h : (ofRoot src path root).found = some hit) :
    ∃ d ∈ Declaration.all src root, hit.statement = d.statement ∧
      Search.functionOf 2 d.node = some hit.node := by
  obtain ⟨search, hmem, hs⟩ := found_by_search h
  simp [hk, Search.all] at hmem
  subst hmem
  obtain ⟨d, hd, -, hdeclared⟩ := Search.functionComponent_declared hs
  exact ⟨d, hd, hdeclared⟩

end Classification

end Retype

import Mathlib.Logic.Relation
import Retype.Corpus.Graph
import Retype.Proofs.Keyed
import Retype.Proofs.Order

/-!
# What a file reaches

The search of a graph finds exactly the files that chains of imports lead to. Each of
its steps takes one file away from those that are left, and a chain that comes to that
file can be begun there anew.
-/

set_option autoImplicit false

namespace Retype.Graph

open Relation

variable {g : Graph} {left pending : List String} {p q r : String}

/-- An import that leads to one of the files that are left. -/
def Leads (g : Graph) (left : List String) (p q : String) : Prop := q ∈ left ∧ q ∈ g.dependencies p

theorem Leads.of_erase (h : g.Leads (left.erase r) p q) : g.Leads left p q :=
  ⟨List.mem_of_mem_erase h.1, h.2⟩

/-- A chain that begins at a pending file comes to the file that is taken, or can do
without it, begun at a pending file or after the one that is taken. -/
theorem chain_around (hp : p ∈ pending) (hl : p ∈ left) (h : ReflTransGen (g.Leads left) p q) :
    q = r ∨ ∃ s ∈ g.dependencies r ++ pending, s ∈ left.erase r ∧
      ReflTransGen (g.Leads (left.erase r)) s q := by
  induction h with
  | refl =>
    by_cases hr : p = r
    · exact Or.inl hr
    · exact Or.inr ⟨p, List.mem_append_right _ hp, (List.mem_erase_of_ne hr).mpr hl, .refl⟩
  | @tail x y _ hxy ih =>
    by_cases hr : y = r
    · exact Or.inl hr
    have hy : y ∈ left.erase r := (List.mem_erase_of_ne hr).mpr hxy.1
    rcases ih with rfl | ⟨s, hs, hsl, hsx⟩
    · exact Or.inr ⟨y, List.mem_append_left _ hxy.2, hy, .refl⟩
    · exact Or.inr ⟨s, hs, hsl, hsx.tail ⟨hy, hxy.2⟩⟩

/-- The search finds what chains from a pending file lead to. -/
theorem mem_gather : q ∈ g.gather left pending ↔
    ∃ p ∈ pending, p ∈ left ∧ ReflTransGen (g.Leads left) p q := by
  fun_induction gather g left pending with
  | case1 left pending hnone =>
    simp only [List.not_mem_nil, false_iff, not_exists, not_and]
    intro p hp hl
    have := List.find?_eq_none.mp hnone p hp
    simp [hl] at this
  | case2 left pending r hr ih =>
    have hleft : r ∈ left := by simpa using List.find?_some hr
    have hpending : r ∈ pending := List.mem_of_find?_eq_some hr
    rw [List.mem_cons, ih]
    constructor
    · rintro (rfl | ⟨s, hs, hsl, hchain⟩)
      · exact ⟨q, hpending, hleft, .refl⟩
      have hchain := ReflTransGen.mono (fun _ _ => Leads.of_erase) _ _ hchain
      have hsl := List.mem_of_mem_erase hsl
      rcases List.mem_append.mp hs with hs | hs
      · exact ⟨r, hpending, hleft, hchain.head ⟨hsl, hs⟩⟩
      · exact ⟨s, hs, hsl, hchain⟩
    · rintro ⟨p, hp, hl, hchain⟩
      exact chain_around hp hl hchain

theorem mem_reachable : q ∈ g.reachable p ↔ TransGen (g.Leads g.files) p q := by
  rw [reachable, mem_gather, TransGen.head'_iff]
  constructor
  · rintro ⟨s, hs, hl, hchain⟩
    exact ⟨s, ⟨hl, hs⟩, hchain⟩
  · rintro ⟨s, ⟨hl, hs⟩, hchain⟩
    exact ⟨s, hs, hl, hchain⟩

theorem reaches_iff : reaches g.reach p q = true ↔ p ∈ g.files ∧ TransGen (g.Leads g.files) p q := by
  rw [reaches, reach, Keyed.get?_map]
  split
  · next hp => simp [hp, ← mem_reachable]
  · next hp => simp [hp]

theorem mem_knot (hp : p ∈ g.files) : q ∈ g.knot g.reach p ↔
    q ∈ g.files ∧ TransGen (g.Leads g.files) p q ∧ TransGen (g.Leads g.files) q p := by
  rw [knot, Order.mem_sortTexts, List.mem_filter, Bool.and_eq_true, reaches_iff, reaches_iff]
  constructor
  · rintro ⟨hq, ⟨-, hpq⟩, -, hqp⟩
    exact ⟨hq, hpq, hqp⟩
  · rintro ⟨hq, hpq, hqp⟩
    exact ⟨hq, ⟨hp, hpq⟩, hq, hqp⟩

end Retype.Graph

import Mathlib.Data.List.Pairwise
import Retype.Proofs.Corpus.Arrows
import Retype.Proofs.Corpus.Reach

/-!
# What the cycles of a graph are

Two files are tied if each reaches the other. The knot of a file is whatever it is tied
to, so the knots of tied files are one, and those of others have no file in common. A
file that reaches itself is tied to another file, or the first import on its way back
leads to itself; the first kind shows in a knot, the second as a loop.
-/

set_option autoImplicit false

namespace Retype.Graph

open Relation

variable {ps : List Profile} {links : List Link} {c d : List String} {p q r : String}

/-- Each of two files leads to the other over one import or more. -/
def Tied (links : List Link) (p q : String) : Prop :=
  TransGen (Link.Joins links) p q ∧ TransGen (Link.Joins links) q p

theorem Tied.symm (h : Tied links p q) : Tied links q p := And.symm h

theorem Tied.trans (hpq : Tied links p q) (hqr : Tied links q r) : Tied links p r :=
  ⟨hpq.1.trans hqr.1, hqr.2.trans hpq.2⟩

theorem Tied.around (h : Tied links p q) : Tied links p p := h.trans h.symm

theorem leads_ofLinks : (ofLinks ps links).Leads (ofLinks ps links).files = Link.Joins links := by
  funext p q
  rw [Leads, mem_dependencies, show (ofLinks ps links).arrows = arrowsOf links from rfl, mem_arrowsOf]
  refine propext ⟨And.right, fun h => ⟨?_, h⟩⟩
  exact mem_files_ofLinks.mpr (Or.inl ⟨p, Or.inr h⟩)

theorem Tied.mem_files (h : Tied links p q) : p ∈ (ofLinks ps links).files := by
  obtain ⟨s, hs, -⟩ := TransGen.head'_iff.mp h.1
  exact mem_files_ofLinks.mpr (Or.inl ⟨s, Or.inl hs⟩)

/-! ## Knots -/

theorem mem_knot_ofLinks (hp : p ∈ (ofLinks ps links).files) :
    q ∈ (ofLinks ps links).knot (ofLinks ps links).reach p ↔ Tied links p q := by
  rw [mem_knot hp, leads_ofLinks]
  exact ⟨And.right, fun h => ⟨Tied.mem_files (Tied.symm h), h⟩⟩

theorem knot_ascending (ps : List Profile) (links : List Link) (p : String) :
    ((ofLinks ps links).knot (ofLinks ps links).reach p).Pairwise (· < ·) := by
  apply Order.sortTexts_ascending
  exact (nodup_files_ofLinks ps links).filter _

theorem knot_eq (h : Tied links p q) : (ofLinks ps links).knot (ofLinks ps links).reach p =
    (ofLinks ps links).knot (ofLinks ps links).reach q := by
  have hp : p ∈ (ofLinks ps links).files := h.mem_files
  have hq : q ∈ (ofLinks ps links).files := h.symm.mem_files
  refine Order.ascending_ext (knot_ascending ps links p) (knot_ascending ps links q) fun r => ?_
  rw [mem_knot_ofLinks hp, mem_knot_ofLinks hq]
  exact ⟨h.symm.trans, h.trans⟩

theorem two_le_length (hp : p ∈ c) (hq : q ∈ c) (hne : p ≠ q) : 2 ≤ c.length := by
  match c with
  | [] => cases hp
  | [a] =>
    cases List.mem_singleton.mp hp
    exact absurd (List.mem_singleton.mp hq).symm hne
  | _ :: _ :: _ => simp

/-! ## Cycles -/

def knots (g : Graph) : List (List String) :=
  (Order.distinct (g.files.map (g.knot g.reach))).filter fun k => 2 ≤ k.length

def loops (g : Graph) : List (List String) :=
  (g.files.filter fun p => g.arrows.contains (p, p)).map ([·])

theorem cycles_eq (g : Graph) : g.cycles = Order.sortLists (g.knots ++ g.loops) := rfl

theorem mem_loops : c ∈ (ofLinks ps links).loops ↔ ∃ p, Link.Joins links p p ∧ c = [p] := by
  rw [loops, List.mem_map]
  constructor
  · rintro ⟨p, hp, rfl⟩
    have hp := (List.mem_filter.mp hp).2
    exact ⟨p, mem_arrowsOf.mp (List.contains_iff_mem.mp hp), rfl⟩
  · rintro ⟨p, hp, rfl⟩
    refine ⟨p, List.mem_filter.mpr ⟨?_, ?_⟩, rfl⟩
    · exact mem_files_ofLinks.mpr (Or.inl ⟨p, Or.inl hp⟩)
    · exact List.contains_iff_mem.mpr (mem_arrowsOf.mpr hp)

theorem mem_cycles : c ∈ (ofLinks ps links).cycles ↔
    (2 ≤ c.length ∧ ∃ p ∈ (ofLinks ps links).files,
      (ofLinks ps links).knot (ofLinks ps links).reach p = c) ∨
    ∃ p, Link.Joins links p p ∧ c = [p] := by
  rw [cycles_eq, Order.mem_sortLists, List.mem_append, mem_loops, knots, List.mem_filter,
    Order.mem_distinct, List.mem_map, decide_eq_true_iff, and_comm]

theorem tied_of_mem (hc : c ∈ (ofLinks ps links).cycles) (hp : p ∈ c) (hq : q ∈ c) : Tied links p q := by
  rcases mem_cycles.mp hc with ⟨-, r, hr, rfl⟩ | ⟨r, hr, rfl⟩
  · have hp := (mem_knot_ofLinks hr).mp hp
    exact hp.symm.trans ((mem_knot_ofLinks hr).mp hq)
  · cases List.mem_singleton.mp hp
    cases List.mem_singleton.mp hq
    exact ⟨.single hr, .single hr⟩

theorem exists_cycle_of_tied (h : Tied links p q) (hne : p ≠ q) :
    ∃ c ∈ (ofLinks ps links).cycles, p ∈ c ∧ q ∈ c := by
  have hf : p ∈ (ofLinks ps links).files := h.mem_files
  have hp := (mem_knot_ofLinks hf).mpr h.around
  have hq := (mem_knot_ofLinks hf).mpr h
  exact ⟨_, mem_cycles.mpr (Or.inl ⟨two_le_length hp hq hne, p, hf, rfl⟩), hp, hq⟩

/-- A file that leads to itself is in a cycle: the first import on the way back leads to
the file itself, or to another file that is tied to it. -/
theorem exists_cycle (h : TransGen (Link.Joins links) p p) : ∃ c ∈ (ofLinks ps links).cycles, p ∈ c := by
  obtain ⟨s, hs, hback⟩ := TransGen.head'_iff.mp h
  by_cases hsp : s = p
  · subst hsp
    exact ⟨[s], mem_cycles.mpr (Or.inr ⟨s, hs, rfl⟩), List.mem_singleton_self s⟩
  · have hback : TransGen (Link.Joins links) s p := by
      rcases reflTransGen_iff_eq_or_transGen.mp hback with heq | hback
      · exact absurd heq.symm hsp
      · exact hback
    have htied : Tied links p s := ⟨.single hs, hback⟩
    obtain ⟨c, hc, hp, -⟩ : ∃ c ∈ (ofLinks ps links).cycles, p ∈ c ∧ s ∈ c :=
      exists_cycle_of_tied htied (Ne.symm hsp)
    exact ⟨c, hc, hp⟩

theorem cycle_ascending (hc : c ∈ (ofLinks ps links).cycles) : c.Pairwise (· < ·) := by
  rcases mem_cycles.mp hc with ⟨-, r, -, rfl⟩ | ⟨r, -, rfl⟩
  · exact knot_ascending ps links r
  · exact List.pairwise_singleton _ r

theorem cycle_unique (hc : c ∈ (ofLinks ps links).cycles) (hd : d ∈ (ofLinks ps links).cycles)
    (h2c : 2 ≤ c.length) (h2d : 2 ≤ d.length) (hpc : p ∈ c) (hpd : p ∈ d) : c = d := by
  have knotted : ∀ {e : List String}, e ∈ (ofLinks ps links).cycles → 2 ≤ e.length → p ∈ e →
      e = (ofLinks ps links).knot (ofLinks ps links).reach p := by
    intro e he h2e hpe
    rcases mem_cycles.mp he with ⟨-, r, hr, rfl⟩ | ⟨r, -, rfl⟩
    · exact knot_eq ((mem_knot_ofLinks hr).mp hpe)
    · exact absurd h2e (by simp)
  rw [knotted hc h2c hpc, knotted hd h2d hpd]

theorem nodup_long_cycles (g : Graph) : (g.cycles.filter fun c => 2 ≤ c.length).Nodup := by
  have hloops : g.loops.filter (fun c => 2 ≤ c.length) = [] := by
    rw [List.filter_eq_nil_iff]
    intro c hc
    obtain ⟨p, -, rfl⟩ := List.mem_map.mp hc
    simp
  have hknots : g.knots.Nodup := (Order.nodup_distinct _).filter _
  rw [cycles_eq, ((Order.sortLists_perm _).filter _).nodup_iff, List.filter_append, hloops,
    List.append_nil]
  exact hknots.filter _

/-- The cycles of a graph are exact. A file is in one if and only if it reaches itself;
two files are in one together if and only if each reaches the other; cycles of two files
or more are apart, and a file alone is a cycle if and only if it imports itself. Each
cycle ascends, the cycles are sorted, and there is none if and only if no file reaches
itself. -/
theorem cycles_exact (ps : List Profile) (links : List Link) :
    let cycles := (ofLinks ps links).cycles
    (∀ p, (∃ c ∈ cycles, p ∈ c) ↔ TransGen (Link.Joins links) p p) ∧
    (∀ p q, p ≠ q → ((∃ c ∈ cycles, p ∈ c ∧ q ∈ c) ↔
      TransGen (Link.Joins links) p q ∧ TransGen (Link.Joins links) q p)) ∧
    (cycles.filter fun c => 2 ≤ c.length).Pairwise List.Disjoint ∧
    (∀ p, [p] ∈ cycles ↔ Link.Joins links p p) ∧
    (∀ c ∈ cycles, c.Pairwise (· < ·)) ∧
    cycles.Pairwise (fun c d => Order.listBefore c d = true) ∧
    (cycles = [] ↔ ∀ p, ¬ TransGen (Link.Joins links) p p) := by
  intro cycles
  have hself : ∀ p, (∃ c ∈ cycles, p ∈ c) ↔ TransGen (Link.Joins links) p p := fun p =>
    ⟨fun ⟨_, hc, hp⟩ => (tied_of_mem hc hp hp).1, exists_cycle⟩
  refine ⟨hself, ?_, ?_, ?_, fun c => cycle_ascending, Order.sortLists_sorted _, ?_⟩
  · intro p q hne
    exact ⟨fun ⟨_, hc, hp, hq⟩ => tied_of_mem hc hp hq, fun h => exists_cycle_of_tied h hne⟩
  · refine (nodup_long_cycles _).pairwise_of_forall_ne fun c hc d hd hne p hpc hpd => hne ?_
    obtain ⟨hc, h2c⟩ := List.mem_filter.mp hc
    obtain ⟨hd, h2d⟩ := List.mem_filter.mp hd
    exact cycle_unique hc hd (of_decide_eq_true h2c) (of_decide_eq_true h2d) hpc hpd
  · intro p
    rw [mem_cycles]
    constructor
    · rintro (⟨h2, -⟩ | ⟨q, hq, he⟩)
      · exact absurd h2 (by simp)
      · cases he
        exact hq
    · intro hp
      exact Or.inr ⟨p, hp, rfl⟩
  · constructor
    · intro hnil p hp
      obtain ⟨c, hc, -⟩ := (hself p).mpr hp
      rw [hnil] at hc
      cases hc
    · intro hno
      refine List.eq_nil_iff_forall_not_mem.mpr fun c hc => ?_
      cases c with
      | nil =>
        rcases mem_cycles.mp hc with ⟨h2, -⟩ | ⟨q, -, he⟩
        · exact absurd h2 (by simp)
        · cases he
      | cons p c => exact hno p ((hself p).mp ⟨p :: c, hc, List.mem_cons_self⟩)

end Retype.Graph

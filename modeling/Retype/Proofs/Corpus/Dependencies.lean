import Mathlib.Algebra.BigOperators.Group.Finset.Basic
import Mathlib.Data.Rat.Cast.Order
import Mathlib.Tactic.Linarith
import Retype.Corpus.Planning
import Retype.Proofs.Corpus.Arrows
import Retype.Proofs.Corpus.Linking

/-!
# Dependencies and usage

A plan gives each profile what it imports and what imports it, both read off one set of
arrows: they mirror each other, and their numbers add up to the same. What is imported
after a package of its own name is no dependency, so it is also not counted as used.
-/

set_option autoImplicit false

namespace Retype

variable {ps : List Profile} {table : AliasTable} {extensions : List String} {t : Threshold}
  {p q : Profile}

def Tier.weight : Tier → ℚ
  | .low => 1
  | .medium => 3 / 2
  | .high => 2
  | .veryHigh => 2

def Usage.weighted (u : Usage) : ℚ := u.halves / 2

/-! ## Counting -/

/-- The members of a list, counted under each of some keys that all of them have. -/
theorem sum_lengths {α : Type} (key : α → String) {keys : List String} {as : List α}
    (hn : keys.Nodup) (hmem : ∀ a ∈ as, key a ∈ keys) :
    (keys.map fun k => (as.filter fun a => key a == k).length).sum = as.length := by
  have hcount : ∀ k, (as.filter fun a => key a == k).length = (as.map key : Multiset String).count k := by
    intro k
    rw [Multiset.coe_count, List.count, List.countP_map, List.countP_eq_length_filter]
    rfl
  simp only [hcount]
  rw [← List.sum_toFinset _ hn, Multiset.sum_count_eq_card, Multiset.coe_card, List.length_map]
  intro k hk
  obtain ⟨a, ha, rfl⟩ := List.mem_map.mp (Multiset.mem_coe.mp hk)
  exact List.mem_toFinset.mpr (hmem a ha)

namespace Graph

variable {g : Graph} {path : String} {users : List Profile}

theorem sum_ends {one other : String × String → String} {files : List String}
    {arrows : List (String × String)} (hn : files.Nodup) (hmem : ∀ a ∈ arrows, one a ∈ files) :
    (files.map fun p => (Order.sortTexts ((arrows.filter fun a => one a == p).map other)).length).sum =
      arrows.length := by
  rw [← sum_lengths one hn hmem]
  simp only [(Order.sortTexts_perm _).length_eq, List.length_map]

theorem halvesOf_weight (t : Tier) : (halvesOf t : ℚ) / 2 = t.weight := by
  cases t <;> norm_num [halvesOf, Tier.weight]

/-- The halves of files that are those of some profiles with their tiers. -/
theorem weighted_usage (htier : ∀ u ∈ users, g.tierOf u.path = u.tier)
    (hp : (g.dependents path).Perm (users.map (·.path))) :
    (g.usage t path).weighted = (users.map fun u => u.tier.weight).sum := by
  have hhalves : (g.usage t path).halves = (users.map fun u => halvesOf u.tier).sum := by
    show ((g.dependents path).foldr (fun d n => halvesOf (g.tierOf d) + n) 0) = _
    rw [← List.foldr_map (f := fun d => halvesOf (g.tierOf d)) (g := (· + ·)), ← List.sum_eq_foldr,
      (hp.map _).sum_eq, List.map_map]
    exact congrArg List.sum (List.map_congr_left fun u hu => congrArg halvesOf (htier u hu))
  rw [Usage.weighted, hhalves]
  -- only the sum is left to cast; the hypotheses are about the whole list
  clear hhalves hp htier
  induction users with
  | nil => simp
  | cons u users ih =>
    simp only [List.map_cons, List.sum_cons, Nat.cast_add, add_div, ih, halvesOf_weight]

end Graph

/-! ## Dependencies -/

namespace Plan

theorem mem_profiles : p ∈ (ofProfiles table extensions t ps).profiles ↔
    ∃ q ∈ ps, ((ofProfiles table extensions t ps).graph.place t q).withPriority = p :=
  List.mem_map

theorem ofProfiles_imports (ps : List Profile) :
    (ofProfiles table extensions t ps).profiles.map (fun p => (p.path, p.imports)) =
      ps.map fun p => (p.path, p.imports) := by
  rw [ofProfiles, List.map_map]
  rfl

theorem mem_arrows {path : String} (hd : (ps.map (·.path)).Nodup) (hp : p ∈ ps) :
    (p.path, path) ∈ (ofProfiles table extensions t ps).graph.arrows ↔
      p.Imports (Link.resolver ps table extensions) path ∧
        ¬ p.Hides (Link.resolver ps table extensions) path := by
  show (p.path, path) ∈ Graph.arrowsOf _ ↔ _
  rw [Graph.mem_arrowsOf, Link.joins_all hd hp]

theorem arrows_within {a b : String} (h : (a, b) ∈ (ofProfiles table extensions t ps).graph.arrows) :
    a ∈ ps.map (·.path) ∧ b ∈ ps.map (·.path) :=
  Link.joins_within (Graph.mem_arrowsOf.mp h)

theorem mem_dependencies {path : String} (hd : (ps.map (·.path)).Nodup)
    (hp : p ∈ (ofProfiles table extensions t ps).profiles) :
    path ∈ p.dependencies ↔ p.Imports (Link.resolver ps table extensions) path ∧
      ¬ p.Hides (Link.resolver ps table extensions) path := by
  obtain ⟨q, hq, rfl⟩ := mem_profiles.mp hp
  exact Graph.mem_dependencies.trans (mem_arrows hd hq)

/-- The dependencies of a profile are the files that its imports resolve to, exactly
unless the first import that leads to the file is one of a package. -/
theorem dependencies_exact_iff (hd : (ps.map (·.path)).Nodup) (table : AliasTable)
    (extensions : List String) (t : Threshold) :
    let plan := ofProfiles table extensions t ps
    let r := Link.resolver ps table extensions
    plan.profiles.map (fun p => (p.path, p.imports)) = ps.map (fun p => (p.path, p.imports)) ∧
      ∀ p ∈ plan.profiles, ∀ path,
        (path ∈ p.dependencies ↔ p.Imports r path) ↔ (p.Imports r path → ¬ p.Hides r path) := by
  intro plan r
  refine ⟨ofProfiles_imports ps, ?_⟩
  intro p hp path
  rw [mem_dependencies hd hp, and_iff_left_iff_imp]

/-- Two components that import each other, one of them after a package that has the
path of the other for its name. -/
def shadowed : List Profile :=
  [{ path := "components/A.jsx", name := "A", kind := .functionComponent,
     imports := [⟨"components/B.jsx", ["Kit"], false⟩, ⟨"./B", ["B"], true⟩] },
   { path := "components/B.jsx", name := "B", kind := .functionComponent,
     imports := [⟨"./A", ["A"], true⟩, ⟨"../components/A.jsx", ["format"], true⟩] }]

def shadowedPlan : Plan :=
  ofProfiles ⟨AliasTable.standard, []⟩ [".js", ".jsx", ".ts", ".tsx"] (.ofInt 4) shadowed

def shadowedResolver : Resolver :=
  Link.resolver shadowed ⟨AliasTable.standard, []⟩ [".js", ".jsx", ".ts", ".tsx"]

theorem shadowed_dependencies : (shadowed.map (·.path)).Nodup ∧ ∀ p ∈ shadowedPlan.profiles, ∀ path,
    (path ∈ p.dependencies ↔ p.Imports shadowedResolver path) ↔
      (p.Imports shadowedResolver path → ¬ p.Hides shadowedResolver path) := by
  have hd : (shadowed.map (·.path)).Nodup := by decide
  exact ⟨hd, (dependencies_exact_iff hd ⟨AliasTable.standard, []⟩ [".js", ".jsx", ".ts", ".tsx"]
    (.ofInt 4)).2⟩

/-- The first component imports the second, which is no dependency of it. -/
theorem shadowed_import_lost : (shadowed.map (·.path)).Nodup ∧ ∃ p ∈ shadowedPlan.profiles,
    p.path = "components/A.jsx" ∧ p.Imports shadowedResolver "components/B.jsx" ∧
      "components/B.jsx" ∉ p.dependencies := by
  have hd : (shadowed.map (·.path)).Nodup := by decide
  have hhidden : ∃ p ∈ shadowedPlan.profiles, p.path = "components/A.jsx" ∧
      p.Imports shadowedResolver "components/B.jsx" ∧ p.Hides shadowedResolver "components/B.jsx" := by
    decide +kernel
  obtain ⟨p, hp, hpath, himports, hhides⟩ := hhidden
  exact ⟨hd, p, hp, hpath, himports, fun hdep => ((mem_dependencies hd hp).mp hdep).2 hhides⟩

/-! ## Usage -/

def users (r : Resolver) (ps : List Profile) (path : String) : List Profile :=
  ps.filter fun p => p.Imports r path ∧ ¬ p.Hides r path

theorem usage_eq (hq : q ∈ (ofProfiles table extensions t ps).profiles) :
    q.usage = some ((ofProfiles table extensions t ps).graph.usage t q.path) := by
  obtain ⟨p, -, rfl⟩ := mem_profiles.mp hq
  rfl

theorem dependents_perm_users (hd : (ps.map (·.path)).Nodup) (path : String) :
    ((ofProfiles table extensions t ps).graph.dependents path).Perm
      ((users (Link.resolver ps table extensions) ps path).map (·.path)) := by
  have hdep : ((ofProfiles table extensions t ps).graph.dependents path).Nodup :=
    Order.nodup_of_ascending (Graph.dependents_ascending (Graph.nodup_arrowsOf _) path)
  have husers : ((users (Link.resolver ps table extensions) ps path).map (·.path)).Nodup :=
    hd.sublist (List.filter_sublist.map _)
  refine (List.perm_ext_iff_of_nodup hdep husers).mpr fun a => ?_
  rw [Graph.mem_dependents, List.mem_map]
  constructor
  · intro h
    obtain ⟨p, hp, rfl⟩ := List.mem_map.mp (arrows_within h).1
    exact ⟨p, List.mem_filter.mpr ⟨hp, decide_eq_true ((mem_arrows hd hp).mp h)⟩, rfl⟩
  · rintro ⟨p, hp, rfl⟩
    obtain ⟨hp, huses⟩ := List.mem_filter.mp hp
    exact (mem_arrows hd hp).mpr (of_decide_eq_true huses)

theorem direct_eq (hd : (ps.map (·.path)).Nodup) {path : String} :
    ((ofProfiles table extensions t ps).graph.usage t path).direct =
      (users (Link.resolver ps table extensions) ps path).length := by
  show ((ofProfiles table extensions t ps).graph.dependents path).length = _
  rw [(dependents_perm_users hd path).length_eq, List.length_map]

/-- All profiles that import a file count as its users exactly if no package hides it
from one of them. -/
theorem length_users_iff (r : Resolver) (ps : List Profile) (path : String) :
    (users r ps path).length = ps.countP (fun p => p.Imports r path) ↔
      ∀ p ∈ ps, p.Imports r path → ¬ p.Hides r path := by
  have husers : users r ps path =
      (ps.filter fun p => p.Imports r path).filter fun p => ¬ p.Hides r path := by
    rw [users, List.filter_filter]
    refine List.filter_congr fun p _ => ?_
    rw [Bool.decide_and, Bool.and_comm]
  rw [husers, List.countP_eq_length_filter, List.length_filter_eq_length_iff]
  constructor
  · intro h p hp himports
    exact of_decide_eq_true (h p (List.mem_filter.mpr ⟨hp, decide_eq_true himports⟩))
  · intro h p hp
    obtain ⟨hp, himports⟩ := List.mem_filter.mp hp
    exact decide_eq_true (h p hp (of_decide_eq_true himports))

/-- Where the threshold is a whole number, a file is critical if its users reach it, or
their weight one and a half times as much. -/
theorem isCritical_iff (g : Graph) (T : Int) (path : String) :
    (g.usage (.ofInt T) path).isCritical = true ↔
      T ≤ (g.usage (.ofInt T) path).direct ∨
        3 / 2 * (T : ℚ) ≤ (g.usage (.ofInt T) path).weighted := by
  have hhalves : ∀ n : Nat, 3 * T ≤ n ↔ 3 / 2 * (T : ℚ) ≤ (n : ℚ) / 2 := by
    intro n
    rw [← Int.cast_le (R := ℚ), Int.cast_mul, Int.cast_natCast, Int.cast_ofNat]
    constructor <;> intro h <;> linarith
  rw [Usage.weighted, ← hhalves]
  show (decide _ || decide _) = true ↔ _
  rw [Bool.or_eq_true, decide_eq_true_iff, decide_eq_true_iff]
  rfl

/-- Dependencies and dependents are the two ends of the same arrows. Both lists ascend
and stay within the corpus, and in sum they are as long. The dependents of a file are
its users, each once; their number and weight are its usage, and with them it is
critical. The users are all that import the file, exactly unless a package hides the
file from one of them. -/
theorem usage_mirrored (hd : (ps.map (·.path)).Nodup) (table : AliasTable)
    (extensions : List String) (T : Int) :
    let plan := ofProfiles table extensions (.ofInt T) ps
    let r := Link.resolver ps table extensions
    (∀ p ∈ plan.profiles, ∀ q ∈ plan.profiles, q.path ∈ p.dependencies ↔ p.path ∈ q.dependents) ∧
    (∀ p ∈ plan.profiles, p.dependencies.Pairwise (· < ·) ∧ p.dependents.Pairwise (· < ·) ∧
      p.dependencies ⊆ ps.map (·.path) ∧ p.dependents ⊆ ps.map (·.path)) ∧
    (∀ q ∈ plan.profiles, ∃ u, q.usage = some u ∧
      q.dependents.Perm ((users r ps q.path).map (·.path)) ∧
      u.direct = (users r ps q.path).length ∧
      u.weighted = ((users r ps q.path).map (·.tier.weight)).sum ∧
      (u.isCritical = true ↔ T ≤ u.direct ∨ 3 / 2 * (T : ℚ) ≤ u.weighted) ∧
      (u.direct = ps.countP (fun p => p.Imports r q.path) ↔
        ∀ p ∈ ps, p.Imports r q.path → ¬ p.Hides r q.path)) ∧
    (plan.profiles.map (·.dependencies.length)).sum =
      (plan.profiles.map fun q => q.usage.elim 0 (·.direct)).sum := by
  intro plan r
  have harrows : plan.graph.arrows.Nodup := Graph.nodup_arrowsOf _
  refine ⟨?_, ?_, ?_, ?_⟩
  · intro p hp q hq
    obtain ⟨p, hp, rfl⟩ := mem_profiles.mp hp
    obtain ⟨q, hq, rfl⟩ := mem_profiles.mp hq
    show q.path ∈ plan.graph.dependencies p.path ↔ p.path ∈ plan.graph.dependents q.path
    rw [Graph.mem_dependencies, Graph.mem_dependents]
  · intro p hp
    obtain ⟨p, hp, rfl⟩ := mem_profiles.mp hp
    refine ⟨Graph.dependencies_ascending harrows p.path, Graph.dependents_ascending harrows p.path, ?_, ?_⟩
    · exact fun a ha => (arrows_within (Graph.mem_dependencies.mp ha)).2
    · exact fun a ha => (arrows_within (Graph.mem_dependents.mp ha)).1
  · intro q hq
    have hperm : q.dependents.Perm ((users r ps q.path).map (·.path)) := by
      obtain ⟨q, -, rfl⟩ := mem_profiles.mp hq
      exact dependents_perm_users hd q.path
    refine ⟨_, usage_eq hq, hperm, direct_eq hd, ?_, isCritical_iff _ T q.path, ?_⟩
    · apply Graph.weighted_usage _ (dependents_perm_users hd q.path)
      intro u hu
      exact Graph.tierOf_ofLinks hd (List.mem_filter.mp hu).1
    · rw [direct_eq hd]
      exact length_users_iff r ps q.path
  · have hout : ((ps.map (·.path)).map fun p => (plan.graph.dependencies p).length).sum =
        plan.graph.arrows.length := Graph.sum_ends hd fun a ha => (arrows_within ha).1
    have hin : ((ps.map (·.path)).map fun p => (plan.graph.dependents p).length).sum =
        plan.graph.arrows.length := Graph.sum_ends hd fun a ha => (arrows_within ha).2
    rw [List.map_map] at hout hin
    show (List.map _ (List.map _ ps)).sum = (List.map _ (List.map _ ps)).sum
    rw [List.map_map, List.map_map]
    exact hout.trans hin.symm

theorem shadowed_usage : (shadowed.map (·.path)).Nodup ∧ ∀ q ∈ shadowedPlan.profiles,
    ∃ u, q.usage = some u ∧ u.direct = (users shadowedResolver shadowed q.path).length ∧
      u.weighted = ((users shadowedResolver shadowed q.path).map (·.tier.weight)).sum ∧
      (u.isCritical = true ↔ 4 ≤ (u.direct : Int) ∨ 3 / 2 * ((4 : Int) : ℚ) ≤ u.weighted) := by
  have hd : (shadowed.map (·.path)).Nodup := by decide
  refine ⟨hd, fun q hq => ?_⟩
  obtain ⟨-, -, husage, -⟩ :=
    usage_mirrored hd ⟨AliasTable.standard, []⟩ [".js", ".jsx", ".ts", ".tsx"] 4
  obtain ⟨u, hu, -, hdirect, hweight, hcritical, -⟩ := husage q hq
  exact ⟨u, hu, hdirect, hweight, hcritical⟩

/-- The first component imports the second, which counts as used by none. -/
theorem shadowed_unused : (shadowed.map (·.path)).Nodup ∧ ∃ q ∈ shadowedPlan.profiles,
    q.path = "components/B.jsx" ∧ q.usage.map (·.direct) = some 0 ∧
      shadowed.countP (fun p => p.Imports shadowedResolver q.path) = 1 := by
  have hd : (shadowed.map (·.path)).Nodup := by decide
  have hnone : ∃ q ∈ shadowedPlan.profiles, q.path = "components/B.jsx" ∧
      (users shadowedResolver shadowed q.path).length = 0 ∧
        shadowed.countP (fun p => p.Imports shadowedResolver q.path) = 1 := by
    decide +kernel
  obtain ⟨q, hq, hpath, husers, hcount⟩ := hnone
  refine ⟨hd, q, hq, hpath, ?_, hcount⟩
  rw [usage_eq hq, Option.map_some, direct_eq hd, ← husers]
  rfl

end Plan

end Retype

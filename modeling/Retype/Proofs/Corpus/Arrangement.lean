import Retype.Corpus.Planning
import Retype.Proofs.Corpus.Arrows
import Retype.Proofs.Corpus.Dealing
import Retype.Proofs.Corpus.Linking
import Retype.Proofs.Corpus.Reach

/-!
# Plans do not depend on the order of discovery

Two arrangements of the same profiles have the same links and the same graph, up to
order. Whatever is read off a graph is sorted, or only counts members, so each profile
gets the same place and priority, the cycles are the same, and every rank, being sorted
by ease and path, is dealt alike.
-/

set_option autoImplicit false

namespace Retype

variable {ps qs : List Profile}

/-! ## Links -/

namespace Link

variable {table : AliasTable} {extensions : List String}

theorem resolver_congr (h : ps.Perm qs) {p : Profile} :
    ofProfile (resolver ps table extensions) p = ofProfile (resolver qs table extensions) p := by
  have hcorpus : (ps.map (·.path)).contains = (qs.map (·.path)).contains := by
    funext path
    rw [Bool.eq_iff_iff, List.contains_iff_mem, List.contains_iff_mem, (h.map _).mem_iff]
  have hresolve : ∀ spec importer, (resolver ps table extensions).resolve spec importer =
      (resolver qs table extensions).resolve spec importer := by
    intro spec importer
    simp only [Resolver.resolve, resolver, hcorpus]
  unfold ofProfile ofImport?
  simp only [hresolve]

/-- Another arrangement of the profiles has the same links. -/
theorem all_perm (h : ps.Perm qs) (hd : (ps.map (·.path)).Nodup) :
    (all ps table extensions).Perm (all qs table extensions) := by
  have hd' : (qs.map (·.path)).Nodup := (h.map _).nodup_iff.mp hd
  unfold all
  rw [distinctEnds_flatMap _ hd, distinctEnds_flatMap _ hd']
  have hsame : (fun p => distinctEnds (ofProfile (resolver ps table extensions) p)) =
      fun p => distinctEnds (ofProfile (resolver qs table extensions) p) := by
    funext p
    rw [resolver_congr h]
  rw [hsame]
  exact h.flatMap_right _

end Link

/-! ## Graphs -/

namespace Graph

structure Alike (g g' : Graph) : Prop where
  tiers : g.tiers.Perm g'.tiers
  arrows : g.arrows.Perm g'.arrows
  once : g.files.Nodup

theorem ofLinks_alike {links links' : List Link} (h : ps.Perm qs) (hd : (ps.map (·.path)).Nodup)
    (hl : links.Perm links') : (ofLinks ps links).Alike (ofLinks qs links') :=
  ⟨tiers_perm h hd hl, arrowsOf_perm hl, nodup_files_ofLinks ps links⟩

variable {g g' : Graph} {path p q : String}

theorem Alike.files (h : g.Alike g') : g.files.Perm g'.files := h.tiers.map _

theorem Alike.dependencies (h : g.Alike g') : g.dependencies = g'.dependencies := by
  funext path
  exact Order.sortTexts_congr ((h.arrows.filter _).map _)

theorem Alike.dependents (h : g.Alike g') : g.dependents = g'.dependents := by
  funext path
  exact Order.sortTexts_congr ((h.arrows.filter _).map _)

theorem Alike.tierOf (h : g.Alike g') : g.tierOf = g'.tierOf := by
  funext path
  rw [Graph.tierOf, Keyed.get?_congr h.tiers h.once, Graph.tierOf]

theorem Alike.usage (h : g.Alike g') (t : Threshold) : g.usage t = g'.usage t := by
  funext path
  simp only [Graph.usage, h.dependents, h.tierOf]

theorem Alike.place (h : g.Alike g') (t : Threshold) : g.place t = g'.place t := by
  funext p
  simp only [Graph.place, h.dependencies, h.dependents, h.usage]

theorem Alike.leads (h : g.Alike g') : g.Leads g.files = g'.Leads g'.files := by
  funext p q
  simp only [Leads, h.dependencies, h.files.mem_iff]

theorem Alike.reaches (h : g.Alike g') : reaches g.reach = Graph.reaches g'.reach := by
  funext p q
  rw [Bool.eq_iff_iff, reaches_iff, reaches_iff, h.leads, h.files.mem_iff]

theorem Alike.knot (h : g.Alike g') : g.knot g.reach = g'.knot g'.reach := by
  funext p
  simp only [Graph.knot, h.reaches]
  exact Order.sortTexts_congr (h.files.filter _)

theorem Alike.loops (h : g.Alike g') :
    (g.files.filter fun p => g.arrows.contains (p, p)).Perm
      (g'.files.filter fun p => g'.arrows.contains (p, p)) := by
  have hsame : (fun p => g.arrows.contains (p, p)) = fun p => g'.arrows.contains (p, p) := by
    funext p
    rw [Bool.eq_iff_iff, List.contains_iff_mem, List.contains_iff_mem, h.arrows.mem_iff]
  rw [hsame]
  exact h.files.filter _

theorem Alike.cycles (h : g.Alike g') : g.cycles = g'.cycles := by
  refine Order.sortLists_congr (List.Perm.append ?_ (h.loops.map _))
  rw [h.knot]
  exact (Order.distinct_perm (h.files.map _)).filter _

end Graph

/-! ## Batches -/

namespace Batches

theorem easierThan_iff {p q : Profile} : p.easierThan q = true ↔
    p.dependencies.length < q.dependencies.length ∨
      (p.dependencies.length = q.dependencies.length ∧ p.path ≤ q.path) := by
  unfold Profile.easierThan
  split
  · next h => simp [h]
  · next h => simp [h]

theorem easierThan_trans (a b c : Profile) (hab : a.easierThan b = true)
    (hbc : b.easierThan c = true) : a.easierThan c = true := by
  rw [easierThan_iff] at *
  rcases hab with hab | ⟨hab, hpab⟩
  · rcases hbc with hbc | ⟨hbc, -⟩
    · exact Or.inl (Nat.lt_trans hab hbc)
    · exact Or.inl (hbc ▸ hab)
  · exact hbc.imp (fun hbc => hab ▸ hbc)
      fun ⟨hbc, hpbc⟩ => ⟨hab.trans hbc, String.le_trans hpab hpbc⟩

theorem easierThan_total (a b : Profile) : (a.easierThan b || b.easierThan a) = true := by
  rw [Bool.or_eq_true, easierThan_iff, easierThan_iff]
  have := String.le_total a.path b.path
  rcases Nat.lt_trichotomy a.dependencies.length b.dependencies.length with h | h | h
  · exact Or.inl (Or.inl h)
  · exact this.imp (fun hp => Or.inr ⟨h, hp⟩) fun hp => Or.inr ⟨h.symm, hp⟩
  · exact Or.inr (Or.inl h)

theorem byEase_sorted (ps : List Profile) : (byEase ps).Pairwise fun a b => a.easierThan b = true :=
  List.pairwise_mergeSort easierThan_trans easierThan_total ps

theorem byEase_congr (h : ps.Perm qs) (hd : (ps.map (·.path)).Nodup) : byEase ps = byEase qs := by
  refine Order.mergeSort_congr easierThan_trans easierThan_total h ?_
  intro a ha b hb hab hba
  rw [easierThan_iff] at hab hba
  have hpath : a.path = b.path := by
    rcases hab with hab | ⟨heq, hpab⟩
    · rcases hba with hba | ⟨heq, -⟩ <;> omega
    · exact String.le_antisymm hpab (hba.resolve_left (by omega)).2
  exact List.inj_on_of_nodup_map hd ha (h.mem_iff.mpr hb) hpath

theorem candidates_congr (h : ps.Perm qs) (hd : (ps.map (·.path)).Nodup) :
    candidates (.ofProfiles ps) = candidates (.ofProfiles qs) := by
  have hsub : ∀ f : Profile → Bool, ((ps.filter f).map (·.path)).Nodup := fun f =>
    hd.sublist (List.filter_sublist.map _)
  have hpending : byEase (Ranks.ofProfiles ps).pending = byEase (Ranks.ofProfiles qs).pending :=
    byEase_congr (h.filter _) (hsub _)
  have hrank : ∀ q : Priority,
      byEase ((Ranks.ofProfiles ps).pending.filter fun p => p.priority = some q) =
        byEase ((Ranks.ofProfiles qs).pending.filter fun p => p.priority = some q) := fun q =>
    byEase_congr ((h.filter _).filter _) ((hsub _).sublist (List.filter_sublist.map _))
  have hhighest : (Ranks.ofProfiles ps).highest = (Ranks.ofProfiles qs).highest := hrank .highest
  have hhigh : (Ranks.ofProfiles ps).high = (Ranks.ofProfiles qs).high := hrank .high
  have hmedium : (Ranks.ofProfiles ps).medium = (Ranks.ofProfiles qs).medium := hrank .medium
  have hlow : (Ranks.ofProfiles ps).low = (Ranks.ofProfiles qs).low := hrank .low
  simp only [candidates, hpending, hhighest, hhigh, hmedium, hlow]

theorem plan_congr (h : ps.Perm qs) (hd : (ps.map (·.path)).Nodup) :
    Batch.plan ps = Batch.plan qs := by
  have hdeal : ofProfiles ps = ofProfiles qs := by
    rw [ofProfiles, candidates_congr h hd, ofProfiles]
  rw [Batch.plan, hdeal, Batch.plan]

end Batches

/-! ## Plans -/

namespace Plan

variable {table : AliasTable} {extensions : List String} {t : Threshold}

theorem ofProfiles_paths (ps : List Profile) :
    (ofProfiles table extensions t ps).profiles.map (·.path) = ps.map (·.path) := by
  rw [ofProfiles, List.map_map]
  rfl

/-- Whatever order profiles of different paths are found in, the plan has the same
cycles and the same batches with the same members in the same order, and every path has
the same profile: the same dependencies, dependents, usage and priority. -/
theorem ofProfiles_arranged (h : ps.Perm qs) (hd : (ps.map (·.path)).Nodup) (table : AliasTable)
    (extensions : List String) (t : Threshold) :
    let plan := ofProfiles table extensions t ps
    let plan' := ofProfiles table extensions t qs
    plan.cycles = plan'.cycles ∧ plan.batches = plan'.batches ∧
      plan.profiles.map (·.path) = ps.map (·.path) ∧ plan.profiles.Perm plan'.profiles ∧
      ∀ p ∈ plan.profiles, ∀ q ∈ plan'.profiles, p.path = q.path →
        p.dependencies = q.dependencies ∧ p.dependents = q.dependents ∧ p.usage = q.usage ∧
          p.priority = q.priority := by
  intro plan plan'
  have hgraph : plan.graph.Alike plan'.graph := Graph.ofLinks_alike h hd (Link.all_perm h hd)
  have hprofiles : plan.profiles.Perm plan'.profiles := by
    show (ps.map fun p => (plan.graph.place t p).withPriority).Perm
      (qs.map fun p => (plan'.graph.place t p).withPriority)
    rw [hgraph.place]
    exact h.map _
  have hpaths : (plan.profiles.map (·.path)).Nodup := by
    rw [ofProfiles_paths]
    exact hd
  refine ⟨hgraph.cycles, Batches.plan_congr hprofiles hpaths, ofProfiles_paths ps, hprofiles, ?_⟩
  intro p hp q hq hpq
  rw [List.inj_on_of_nodup_map hpaths hp (hprofiles.mem_iff.mpr hq) hpq]
  exact ⟨rfl, rfl, rfl, rfl⟩

/-- Two components that import each other, and a page that imports one of them. -/
def entangled : List Profile :=
  [{ path := "components/A.jsx", name := "A", kind := .functionComponent,
     imports := [⟨"./B", ["B"], true⟩] },
   { path := "components/B.jsx", name := "B", kind := .functionComponent,
     imports := [⟨"./A", ["A"], true⟩, ⟨"react", ["React"], false⟩] },
   { path := "pages/index.jsx", name := "Home", kind := .functionComponent,
     imports := [⟨"@components/A", ["A"], true⟩] }]

theorem entangled_arranged : entangled.Perm entangled.reverse ∧ (entangled.map (·.path)).Nodup ∧
    let plan := ofProfiles ⟨AliasTable.standard, []⟩ [".jsx"] (.ofInt 2) entangled
    let plan' := ofProfiles ⟨AliasTable.standard, []⟩ [".jsx"] (.ofInt 2) entangled.reverse
    plan.cycles = plan'.cycles ∧ plan.batches = plan'.batches ∧
      plan.profiles.map (·.path) = ["components/A.jsx", "components/B.jsx", "pages/index.jsx"] ∧
      plan.profiles.Perm plan'.profiles := by
  have hp : entangled.Perm entangled.reverse := entangled.reverse_perm.symm
  have hd : (entangled.map (·.path)).Nodup := by decide
  obtain ⟨hcycles, hbatches, hpaths, hprofiles, -⟩ :=
    ofProfiles_arranged hp hd ⟨AliasTable.standard, []⟩ [".jsx"] (.ofInt 2)
  exact ⟨hp, hd, hcycles, hbatches, hpaths, hprofiles⟩

end Plan

end Retype

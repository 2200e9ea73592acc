import Retype.Corpus.Graph
import Retype.Proofs.Keyed
import Retype.Proofs.Order

/-!
# Files and arrows of a graph

The graph of some links has an arrow for each two files that an internal link joins,
and no arrow twice. Its files are those of the profiles and the ends of its arrows.
What a file imports and what imports it are the two ways to read one arrow, so both
lists ascend, and over all files they have the same number of members.
-/

set_option autoImplicit false

namespace Retype

/-- Some internal link leads from one file to the other. -/
def Link.Joins (links : List Link) (p q : String) : Prop := ⟨p, q, true⟩ ∈ links

namespace Graph

variable {g : Graph} {ps qs : List Profile} {links links' : List Link} {p q : String}

/-! ## Arrows -/

theorem mem_arrowsOf : (p, q) ∈ arrowsOf links ↔ Link.Joins links p q := by
  rw [arrowsOf, Order.mem_distinct, List.mem_map]
  constructor
  · rintro ⟨⟨s, t, b⟩, hl, he⟩
    obtain ⟨hl, hb⟩ := List.mem_filter.mp hl
    obtain ⟨rfl, rfl⟩ := Prod.mk.inj he
    cases hb
    exact hl
  · intro h
    exact ⟨⟨p, q, true⟩, List.mem_filter.mpr ⟨h, rfl⟩, rfl⟩

theorem nodup_arrowsOf (links : List Link) : (arrowsOf links).Nodup := Order.nodup_distinct _

theorem arrowsOf_perm (h : links.Perm links') : (arrowsOf links).Perm (arrowsOf links') :=
  Order.distinct_perm ((h.filter _).map _)

@[simp] theorem mem_dependencies : q ∈ g.dependencies p ↔ (p, q) ∈ g.arrows := by
  simp [dependencies]

@[simp] theorem mem_dependents : q ∈ g.dependents p ↔ (q, p) ∈ g.arrows := by
  simp [dependents]

theorem ends_ascending {one other : String × String → String} {arrows : List (String × String)}
    (hends : ∀ a b, one a = one b → other a = other b → a = b) (h : arrows.Nodup) (p : String) :
    (Order.sortTexts ((arrows.filter fun a => one a == p).map other)).Pairwise (· < ·) := by
  apply Order.sortTexts_ascending
  apply List.Nodup.map_on _ (h.filter _)
  intro a ha b hb hab
  have ha := eq_of_beq (List.mem_filter.mp ha).2
  have hb := eq_of_beq (List.mem_filter.mp hb).2
  exact hends a b (ha.trans hb.symm) hab

theorem dependencies_ascending (h : g.arrows.Nodup) (p : String) :
    (g.dependencies p).Pairwise (· < ·) :=
  ends_ascending (fun _ _ => Prod.ext) h p

theorem dependents_ascending (h : g.arrows.Nodup) (p : String) :
    (g.dependents p).Pairwise (· < ·) :=
  ends_ascending (fun _ _ h2 h1 => Prod.ext h1 h2) h p

/-! ## Files -/

theorem nodup_files_ofLinks (ps : List Profile) (links : List Link) : (ofLinks ps links).files.Nodup :=
  Keyed.nodup_keys_ofList _

theorem mem_files_ofLinks : p ∈ (ofLinks ps links).files ↔
    (∃ q, Link.Joins links p q ∨ Link.Joins links q p) ∨ p ∈ ps.map (·.path) := by
  have hkeys : p ∈ (ofLinks ps links).files ↔
      p ∈ ((arrowsOf links).flatMap fun a => [a.1, a.2]) ∨ p ∈ ps.map (·.path) := by
    show p ∈ Keyed.keys (Keyed.ofList _) ↔ _
    rw [Keyed.mem_keys_ofList, Keyed.keys, List.map_append, List.mem_append, List.map_map, List.map_map]
    exact or_congr_left (by rw [show Prod.fst ∘ (fun e : String => (e, Tier.low)) = id from rfl, List.map_id])
  rw [hkeys, List.mem_flatMap]
  refine or_congr_left ?_
  constructor
  · rintro ⟨⟨s, t⟩, ha, hp⟩
    rw [mem_arrowsOf] at ha
    rcases List.mem_cons.mp hp with rfl | hp
    · exact ⟨t, Or.inl ha⟩
    · cases List.mem_singleton.mp hp
      exact ⟨s, Or.inr ha⟩
  · rintro ⟨q, h | h⟩
    · exact ⟨(p, q), mem_arrowsOf.mpr h, by simp⟩
    · exact ⟨(q, p), mem_arrowsOf.mpr h, by simp⟩

theorem get?_tiers (ps : List Profile) (links : List Link) (p : String) :
    Keyed.get? p (ofLinks ps links).tiers =
      (Keyed.get? p (Keyed.ofList (ps.map fun p => (p.path, p.tier)))).or
        (if p ∈ (arrowsOf links).flatMap (fun a => [a.1, a.2]) then some .low else none) := by
  show Keyed.get? p (Keyed.ofList _) = _
  rw [Keyed.get?_ofList_append, Keyed.get?_ofList_const]

theorem tierOf_ofLinks (hd : (ps.map (·.path)).Nodup) {r : Profile} (hr : r ∈ ps) :
    (ofLinks ps links).tierOf r.path = r.tier := by
  have hkeys : Keyed.keys (ps.map fun p => (p.path, p.tier)) = ps.map (·.path) := by
    rw [Keyed.keys, List.map_map]
    rfl
  have hget : Keyed.get? r.path (ps.map fun p => (p.path, p.tier)) = some r.tier :=
    (Keyed.get?_eq_some_iff (hkeys.symm ▸ hd)).mpr (List.mem_map.mpr ⟨r, hr, rfl⟩)
  rw [tierOf, get?_tiers, Keyed.ofList_eq (hkeys.symm ▸ hd), hget, Option.some_or, Option.getD_some]

/-- The tiers do not depend on the order of the profiles and links. -/
theorem tiers_perm (h : ps.Perm qs) (hd : (ps.map (·.path)).Nodup) (hl : links.Perm links') :
    (ofLinks ps links).tiers.Perm (ofLinks qs links').tiers := by
  have hkeys : ∀ rs : List Profile,
      Keyed.keys (rs.map fun p => (p.path, p.tier)) = rs.map (·.path) := by
    intro rs
    rw [Keyed.keys, List.map_map]
    rfl
  have hd' : (qs.map (·.path)).Nodup := (h.map _).nodup_iff.mp hd
  have hends : ∀ k, (k ∈ (arrowsOf links).flatMap fun a => [a.1, a.2]) ↔
      k ∈ (arrowsOf links').flatMap fun a => [a.1, a.2] := fun k =>
    ((arrowsOf_perm hl).flatMap_right _).mem_iff
  refine Keyed.perm_of_get? (nodup_files_ofLinks ps links) (nodup_files_ofLinks qs links') fun k => ?_
  rw [get?_tiers, get?_tiers, Keyed.ofList_eq ((hkeys ps).symm ▸ hd),
    Keyed.ofList_eq ((hkeys qs).symm ▸ hd'), Keyed.get?_congr (h.map _) ((hkeys ps).symm ▸ hd)]
  simp only [hends]

end Graph

end Retype

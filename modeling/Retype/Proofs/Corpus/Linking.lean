import Retype.Proofs.Corpus.Arrows

/-!
# Which imports become links

Of the links between two ends the first counts, and profiles of different paths share
no links. So a link comes of the first import of its source that leads to its target, be
it a file or a package: where a package has the path of a file for its name and comes
first, the import of the file is lost.
-/

set_option autoImplicit false

namespace Retype

variable {ps : List Profile} {p : Profile} {t : String}

/-! ## What a profile imports -/

/-- Whether an import of a file leads to a path: one of a corpus file leads to what it
resolves to, and one of a package to the name of the package. -/
def Import.leadsTo (r : Resolver) (importer target : String) (i : Import) : Bool :=
  if i.internal then r.resolve i.specifier importer == some target else i.specifier == target

/-- An internal import of a profile resolves to a path. -/
def Profile.Imports (r : Resolver) (p : Profile) (t : String) : Prop :=
  ∃ i ∈ p.imports, i.internal = true ∧ r.resolve i.specifier p.path = some t

instance (r : Resolver) (p : Profile) (t : String) : Decidable (p.Imports r t) :=
  inferInstanceAs (Decidable (∃ i ∈ p.imports, _ ∧ _))

/-- The first import of a profile that leads to a path is one of a package. -/
def Profile.Hides (r : Resolver) (p : Profile) (t : String) : Prop :=
  ∃ i ∈ p.imports.find? (Import.leadsTo r p.path t), i.internal = false

instance (r : Resolver) (p : Profile) (t : String) : Decidable (p.Hides r t) :=
  decidable_of_iff ((p.imports.find? (Import.leadsTo r p.path t)).any fun i => i.internal == false)
    (by simp [Profile.Hides, Option.any_eq_true])

namespace Link

/-! ## The first link between two ends -/

def ends (l : Link) : String × String := (l.source, l.target)

theorem distinctEnds_eq (links : List Link) :
    distinctEnds links = (Keyed.putNews ends [] links).map (·.2) := rfl

theorem mem_distinctEnds {l : Link} {links : List Link} :
    l ∈ distinctEnds links ↔ links.find? (fun m => m.ends == l.ends) = some l := by
  have hkeys : (Keyed.keys (Keyed.putNews ends [] links)).Nodup :=
    Keyed.nodup_keys_putNews List.nodup_nil
  have hget : ∀ k, (k, l) ∈ Keyed.putNews ends [] links ↔
      links.find? (fun m => m.ends == k) = some l := by
    intro k
    rw [← Keyed.get?_eq_some_iff hkeys, Keyed.get?_putNews]
    rfl
  rw [distinctEnds_eq, List.mem_map]
  constructor
  · rintro ⟨⟨k, m⟩, hm, rfl⟩
    have hfirst := (hget k).mp hm
    have hk : m.ends = k := eq_of_beq (List.find?_some (p := fun l : Link => l.ends == k) hfirst)
    rw [hk]
    exact hfirst
  · intro h
    exact ⟨(l.ends, l), (hget _).mpr h, rfl⟩

theorem distinctEnds_append {as bs : List Link} (h : ∀ a ∈ as, ∀ b ∈ bs, a.ends ≠ b.ends) :
    distinctEnds (as ++ bs) = distinctEnds as ++ distinctEnds bs := by
  have hnew : ∀ b ∈ bs, b.ends ∉ Keyed.keys (Keyed.putNews ends [] as) := by
    intro b hb hmem
    obtain ⟨a, ha, hab⟩ := (Keyed.mem_keys_putNews.mp hmem).resolve_left List.not_mem_nil
    exact h a ha b hb hab
  have hsplit : Keyed.putNews ends [] (as ++ bs) =
      Keyed.putNews ends [] as ++ Keyed.putNews ends [] bs := by
    rw [← Keyed.putNews_append hnew, List.append_nil]
    exact List.foldl_append
  rw [distinctEnds_eq, hsplit, List.map_append]
  rfl

/-! ## Links of profiles -/

theorem ofProfile_source {r : Resolver} {p : Profile} {l : Link} (h : l ∈ ofProfile r p) :
    l.source = p.path := by
  obtain ⟨i, -, hi⟩ := List.mem_filterMap.mp h
  unfold ofImport? at hi
  split at hi
  · obtain ⟨target, -, rfl⟩ := Option.map_eq_some_iff.mp hi
    rfl
  · cases hi
    rfl

/-- Profiles of different paths share no links. -/
theorem distinctEnds_flatMap (r : Resolver) (h : (ps.map (·.path)).Nodup) :
    distinctEnds (ps.flatMap (ofProfile r)) = ps.flatMap fun p => distinctEnds (ofProfile r p) := by
  induction ps with
  | nil => rfl
  | cons p ps ih =>
    rw [List.map_cons, List.nodup_cons] at h
    rw [List.flatMap_cons, List.flatMap_cons, distinctEnds_append, ih h.2]
    intro a ha b hb hab
    obtain ⟨q, hq, hb⟩ := List.mem_flatMap.mp hb
    refine h.1 (List.mem_map.mpr ⟨q, hq, ?_⟩)
    rw [← ofProfile_source ha, ← ofProfile_source hb, (Prod.mk.inj hab).1]

theorem any_ends_eq (r : Resolver) (importer : String) (i : Import) :
    ((ofImport? r importer i).any fun m => m.ends == (importer, t)) = i.leadsTo r importer t := by
  unfold ofImport? Import.leadsTo
  cases i.internal with
  | false => simp [ends]
  | true => cases hr : r.resolve i.specifier importer <;> simp [ends]

theorem ofImport?_eq_internal {r : Resolver} {importer : String} {i : Import}
    (h : i.leadsTo r importer t = true) :
    ofImport? r importer i = some ⟨importer, t, true⟩ ↔ i.internal = true := by
  unfold ofImport?
  unfold Import.leadsTo at h
  cases hi : i.internal with
  | false => simp
  | true =>
    have hr : r.resolve i.specifier importer = some t := by simpa [hi] using h
    simp [hr]

/-- A profile is joined to a file if and only if it imports the file, and no package of
the name comes first. -/
theorem mem_distinctEnds_ofProfile {r : Resolver} :
    ⟨p.path, t, true⟩ ∈ distinctEnds (ofProfile r p) ↔ p.Imports r t ∧ ¬ p.Hides r t := by
  have hleads : (fun i => (ofImport? r p.path i).any fun m => m.ends == (p.path, t)) =
      Import.leadsTo r p.path t := funext (any_ends_eq r p.path)
  rw [mem_distinctEnds, ofProfile, List.find?_filterMap]
  change (p.imports.find? fun i => (ofImport? r p.path i).any fun m => m.ends == (p.path, t)).bind _
    = _ ↔ _
  rw [hleads]
  -- the first import that leads to the path decides: those after it have the same ends
  cases hfirst : p.imports.find? (Import.leadsTo r p.path t) with
  | none =>
    refine iff_of_false (by simp) ?_
    rintro ⟨⟨i, hi, hint, hr⟩, -⟩
    have := List.find?_eq_none.mp hfirst i hi
    simp [Import.leadsTo, hint, hr] at this
  | some i =>
    have hleadsTo := List.find?_some hfirst
    rw [Option.bind_some, ofImport?_eq_internal hleadsTo]
    constructor
    · intro hint
      refine ⟨⟨i, List.mem_of_find?_eq_some hfirst, hint, ?_⟩, ?_⟩
      · simpa [Import.leadsTo, hint] using hleadsTo
      · rintro ⟨j, hj, hext⟩
        cases hfirst.symm.trans hj
        rw [hint] at hext
        cases hext
    · rintro ⟨-, hno⟩
      cases hint : i.internal with
      | true => rfl
      | false => exact absurd ⟨i, hfirst, hint⟩ hno

variable {table : AliasTable} {extensions : List String}

theorem joins_all (hd : (ps.map (·.path)).Nodup) (hp : p ∈ ps) :
    Joins (all ps table extensions) p.path t ↔
      p.Imports (resolver ps table extensions) t ∧ ¬ p.Hides (resolver ps table extensions) t := by
  rw [Joins, all, distinctEnds_flatMap _ hd, List.mem_flatMap, ← mem_distinctEnds_ofProfile]
  constructor
  · rintro ⟨q, hq, hl⟩
    have hsource : p.path = q.path := by
      rw [mem_distinctEnds] at hl
      exact ofProfile_source (List.mem_of_find?_eq_some hl)
    rw [List.inj_on_of_nodup_map hd hp hq hsource] at hl ⊢
    exact hl
  · exact fun hl => ⟨p, hp, hl⟩

theorem resolve_mem {r : Resolver} {spec importer : String} (h : r.resolve spec importer = some t) :
    t ∈ r.corpus := by
  unfold Resolver.resolve at h
  split at h
  · cases h
  · exact List.contains_iff_mem.mp (List.find?_some h)

/-- Both ends of an internal link are files of the corpus. -/
theorem joins_within {s : String} (h : Joins (all ps table extensions) s t) :
    s ∈ ps.map (·.path) ∧ t ∈ ps.map (·.path) := by
  have hl : (⟨s, t, true⟩ : Link) ∈ ps.flatMap (ofProfile (resolver ps table extensions)) :=
    List.mem_of_find?_eq_some (mem_distinctEnds.mp h)
  obtain ⟨q, hq, hl⟩ := List.mem_flatMap.mp hl
  have hsource : s = q.path := ofProfile_source hl
  obtain ⟨i, -, hi⟩ := List.mem_filterMap.mp hl
  have htarget : t ∈ (resolver ps table extensions).corpus := by
    unfold ofImport? at hi
    split at hi
    · obtain ⟨target, hr, he⟩ := Option.map_eq_some_iff.mp hi
      cases he
      exact resolve_mem hr
    · cases hi
  exact ⟨List.mem_map.mpr ⟨q, hq, hsource.symm⟩, htarget⟩

end Link

end Retype

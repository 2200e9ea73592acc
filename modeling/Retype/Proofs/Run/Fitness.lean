import Retype.Proofs.Run.Layout

/-!
# What work on an item does to the files

Work on an item of an orderly batch changes its own outputs and drafts, makes folders on
the way to them where nothing was, and nothing else that matters. An output changes only
to what it is to be. So whatever was done before, an item meets the files that it would
have met at the beginning, and fails, if it fails, the same way.
-/

set_option autoImplicit false

namespace Retype

/-- An output is there, and nothing bars the way to it. -/
structure Workspace.Bears (w : Workspace) (x : String × String) : Prop where
  reachable : w.Open x.1
  written : w.entry? x.1 = some (.file x.2)

namespace Conditions

open Workspace

section

variable (c : Conditions) (b : Batch) (v : Workspace)

/-- Files as they may be met in the course of a batch that was begun in `v`. -/
structure Fit (w : Workspace) : Prop where
  ways : ∀ n, ∀ k ∈ c.ways b v n, w.entryAt? k = v.entryAt? k ∨
    v.entryAt? k = none ∧ w.entryAt? k = some .folder
  sources : ∀ n, ∀ k ∈ c.sourceWay b n, w.entryAt? k = v.entryAt? k
  outputs : ∀ n, ∀ x ∈ c.outputsOf b v n, w.entry? x.1 = v.entry? x.1 ∨
    x ∈ c.reached b v n ∧ w.Bears x
  drafts : ∀ n, ∀ x ∈ c.outputsOf b v n,
    w.entry? (draftOf x.1) = some .folder ↔ v.entry? (draftOf x.1) = some .folder

/-- What work on an item may do. -/
structure Touch (n : Nat) (w w' : Workspace) : Prop where
  frame : ∀ k, k ∉ c.spots b v n → w'.entryAt? k = w.entryAt? k ∨
    k ∈ c.ways b v n ∧ w.entryAt? k = none ∧ w'.entryAt? k = some .folder
  outputs : ∀ x ∈ c.outputsOf b v n, Workspace.entry? w' x.1 = w.entry? x.1 ∨
    x ∈ c.reached b v n ∧ w'.Bears x
  drafts : ∀ x ∈ c.outputsOf b v n,
    Workspace.entry? w' (draftOf x.1) = some .folder ↔ w.entry? (draftOf x.1) = some .folder

/-- Nothing happens to the places that matter. -/
def Still (w w' : Workspace) : Prop := ∀ k, c.Matters b v k → w'.entryAt? k = w.entryAt? k

end

variable {c : Conditions} {b : Batch} {v w w' : Workspace} {n m : Nat} {x y : String × String}

/-! ## What stays -/

theorem fit_self : c.Fit b v v :=
  ⟨fun _ _ _ => Or.inl rfl, fun _ _ _ => rfl, fun _ _ _ => Or.inl rfl, fun _ _ _ => Iff.rfl⟩

theorem Touch.refl (n : Nat) (w : Workspace) : c.Touch b v n w w :=
  ⟨fun _ _ => Or.inl rfl, fun _ _ => Or.inl rfl, fun _ _ => Iff.rfl⟩

theorem Touch.other (h : c.Touch b v n w w') (ho : c.Orderly b v) (hne : m ≠ n) {k : String}
    (hk : k ∈ c.spots b v m) : w'.entryAt? k = w.entryAt? k := by
  rcases h.frame k fun hn => ho.apart m n hne hk hn with h | ⟨hway, -⟩
  · exact h
  · exact absurd hway fun hw => ho.aside m n hk hw

theorem Touch.folder (h : c.Touch b v n w w') (ho : c.Orderly b v) {k : String}
    (hk : k ∈ c.ways b v m) (hf : w.entryAt? k = some .folder) : w'.entryAt? k = some .folder := by
  rcases h.frame k fun hn => ho.aside n m hn hk with h | ⟨-, hnone, -⟩
  · rw [h, hf]
  · rw [hnone] at hf
    cases hf

theorem Touch.open (h : c.Touch b v n w w') (ho : c.Orderly b v) (hx : x ∈ c.outputsOf b v m)
    (hw : w.Open x.1) : w'.Open x.1 :=
  fun dir hd => h.folder ho (mem_ways hx hd) (hw dir hd)

theorem Touch.bears (h : c.Touch b v n w w') (ho : c.Orderly b v) (hx : x ∈ c.outputsOf b v m)
    (hw : w.Bears x) : w'.Bears x := by
  by_cases hmn : m = n
  · subst hmn
    rcases h.outputs x hx with hsame | ⟨-, hb⟩
    · exact ⟨h.open ho hx hw.reachable, hsame.trans hw.written⟩
    · exact hb
  · exact ⟨h.open ho hx hw.reachable, (h.other ho hmn (mem_spots hx)).trans hw.written⟩

theorem Fit.touched (hw : c.Fit b v w) (ho : c.Orderly b v) (h : c.Touch b v n w w') :
    c.Fit b v w' := by
  constructor
  · intro m k hk
    rcases h.frame k fun hn => ho.aside n m hn hk with hsame | ⟨-, hnone, hf⟩
    · rw [hsame]
      exact hw.ways m k hk
    · rcases hw.ways m k hk with h₀ | ⟨-, h₀⟩
      · exact Or.inr ⟨h₀.symm.trans hnone, hf⟩
      · rw [hnone] at h₀
        cases h₀
  · intro m k hk
    rcases h.frame k fun hn => ho.safe m n hk hn with hsame | ⟨hway, hnone, -⟩
    · exact hsame.trans (hw.sources m k hk)
    · exact absurd hway (ho.settled m n k hk ((hw.sources m k hk).symm.trans hnone))
  · intro m x hx
    have hentry : Workspace.entry? w' x.1 = w.entry? x.1 ∨ x ∈ c.reached b v m ∧ w'.Bears x := by
      by_cases hmn : m = n
      · subst hmn
        exact h.outputs x hx
      · exact Or.inl (h.other ho hmn (mem_spots hx))
    rcases hentry with hsame | hb
    · rcases hw.outputs m x hx with h₀ | ⟨hr, hb⟩
      · exact Or.inl (hsame.trans h₀)
      · exact Or.inr ⟨hr, h.bears ho hx hb⟩
    · exact Or.inr hb
  · intro m x hx
    by_cases hmn : m = n
    · subst hmn
      exact (h.drafts x hx).trans (hw.drafts m x hx)
    · rw [entryAt?_normal w', h.other ho hmn (draft_mem_spots hx)]
      exact hw.drafts m x hx

theorem Still.bears (h : c.Still b v w w') (hx : x ∈ c.outputsOf b v n) (hw : w.Bears x) :
    w'.Bears x :=
  ⟨fun dir hd => (h _ ⟨n, Or.inr (Or.inl (mem_ways hx hd))⟩).trans (hw.reachable dir hd),
    (h _ ⟨n, Or.inl (mem_spots hx)⟩).trans hw.written⟩

theorem Fit.still (hw : c.Fit b v w) (h : c.Still b v w w') : c.Fit b v w' := by
  constructor
  · intro n k hk
    rw [h k ⟨n, Or.inr (Or.inl hk)⟩]
    exact hw.ways n k hk
  · intro n k hk
    rw [h k ⟨n, Or.inr (Or.inr hk)⟩]
    exact hw.sources n k hk
  · intro n x hx
    rw [entryAt?_normal w', h _ ⟨n, Or.inl (mem_spots hx)⟩]
    exact (hw.outputs n x hx).imp_right fun ⟨hr, hb⟩ => ⟨hr, h.bears hx hb⟩
  · intro n x hx
    rw [entryAt?_normal w', h _ ⟨n, Or.inl (draft_mem_spots hx)⟩]
    exact hw.drafts n x hx

/-! ## How writing fails, and what it does -/

theorem Fit.widens (hw : c.Fit b v w) (hx : x ∈ c.outputsOf b v n) : Widens v w x.1 :=
  fun _ hd => hw.ways n _ (mem_ways hx hd)

theorem Fit.makeError? (hw : c.Fit b v w) (ho : c.Orderly b v) (hx : x ∈ c.outputsOf b v n) :
    w.makeError? x.1 = v.makeError? x.1 :=
  makeError?_widens (ho.plain n x hx) (ho.short n x hx) (ho.firm n x hx) (hw.widens hx)

theorem Fit.draftError? (hw : c.Fit b v w) (hx : x ∈ c.outputsOf b v n) :
    w.draftError? x.1 = v.draftError? x.1 := by
  unfold Workspace.draftError?
  simp only [hw.drafts n x hx]

theorem placeError?_none (h : v.placeError? x.1 = none) :
    Path.flaw? x.1 = none ∧ v.entry? x.1 ≠ some .folder := by
  unfold Workspace.placeError? at h
  split at h
  · cases h
  · next hf =>
    split at h
    · cases h
    · next he => exact ⟨hf, he⟩

theorem draftError?_none (h : v.draftError? x.1 = none) :
    (Path.flaw? (draftOf x.1)).or
        (if Path.isLong (Path.tidy (draftOf x.1)) then some .tooLong else none) = none ∧
      v.entry? (draftOf x.1) ≠ some .folder := by
  unfold Workspace.draftError? at h
  split at h
  · cases h
  · next hf =>
    split at h
    · cases h
    · next he => exact ⟨hf, he⟩

theorem wholeError?_none : v.wholeError? x.1 = none ↔
    v.makeError? x.1 = none ∧ v.draftError? x.1 = none ∧ v.placeError? x.1 = none := by
  rw [wholeError?, Option.or_eq_none_iff, Option.or_eq_none_iff]

theorem Fit.placeError? (hw : c.Fit b v w) (hx : x ∈ c.outputsOf b v n) :
    w.placeError? x.1 = v.placeError? x.1 := by
  rcases hw.outputs n x hx with h | ⟨hr, hb⟩
  · unfold Workspace.placeError?
    simp only [h]
  · have hnone := (wholeError?_none.mp (reached_subset hr).2).2.2
    obtain ⟨hf, -⟩ := placeError?_none hnone
    rw [hnone]
    unfold Workspace.placeError?
    simp [hf, hb.written]

theorem Fit.current? (hw : c.Fit b v w) (ho : c.Orderly b v) (hx : x ∈ c.outputsOf b v n) :
    w.current? x.1 = v.current? x.1 ∨ (x ∈ c.reached b v n ∧ w.Bears x) ∧
      w.current? x.1 = .ok (some (String.ofList (unifyLines x.2.toList))) := by
  rcases hw.outputs n x hx with h | ⟨hr, hb⟩
  · exact Or.inl (current?_widens (ho.short n x hx) (ho.firm n x hx) (hw.widens hx) h)
  · refine Or.inr ⟨⟨hr, hb⟩, ?_⟩
    obtain ⟨hf, -⟩ := placeError?_none (wholeError?_none.mp (reached_subset hr).2).2.2
    rw [current?_open (ho.short n x hx) hf hb.reachable, hb.written]

theorem not_spot_ne {k : String} (hk : k ∉ c.spots b v n) (hx : x ∈ c.outputsOf b v n) :
    k ≠ Path.normal x.1 ∧ k ≠ Path.normal (draftOf x.1) :=
  ⟨fun h => hk (h ▸ mem_spots hx), fun h => hk (h ▸ draft_mem_spots hx)⟩

theorem touch_raised (ho : c.Orderly b v) (hx : x ∈ c.outputsOf b v n) (w : Workspace) :
    c.Touch b v n w (w.raised x.1) := by
  have hspot : ∀ k ∈ c.spots b v n, (w.raised x.1).entryAt? k = w.entryAt? k := fun k hk =>
    raised_other (ho.plain n x hx) fun dir hd he => ho.aside n n hk (he ▸ mem_ways hx hd)
  refine ⟨fun k hk => ?_, fun y hy => Or.inl (hspot _ (mem_spots hy)), fun y hy => ?_⟩
  · by_cases hway : ∃ dir ∈ foldersAbove x.1, k = Path.normal dir
    · obtain ⟨dir, hd, rfl⟩ := hway
      exact (raised_cases w x.1 (Path.normal dir)).imp_right fun hnew => ⟨mem_ways hx hd, hnew⟩
    · exact Or.inl (raised_other (ho.plain n x hx) fun dir hd he => hway ⟨dir, hd, he⟩)
  · rw [entryAt?_normal, hspot _ (draft_mem_spots hy), ← entryAt?_normal]

theorem touch_draft (ho : c.Orderly b v) (hx : x ∈ c.outputsOf b v n)
    (hd : w.entry? (draftOf x.1) ≠ some .folder) (text : String) :
    c.Touch b v n w (w.put (draftOf x.1) (.file text)) := by
  refine ⟨fun k hk => Or.inl (entryAt?_put_other (not_spot_ne hk hx).2), fun y hy => Or.inl ?_,
    fun y hy => ?_⟩
  · exact entryAt?_put_other (ho.draft_ne hx hy).symm
  · by_cases hxy : x = y
    · subst hxy
      rw [entryAt?_normal, entryAt?_put_self (normal_ne_top hd)]
      simp [hd]
    · have hne : Path.normal (draftOf y.1) ≠ Path.normal (draftOf x.1) := fun he =>
        hxy (ho.draft_inj hx hy he.symm)
      rw [entryAt?_normal, entryAt?_put_other hne, ← entryAt?_normal]

/-- Moving a draft to its place brings the output there, and changes nothing else. -/
theorem touch_placed (ho : c.Orderly b v) (hr : x ∈ c.reached b v n) (hopen : w.Open x.1)
    (hd : w.entry? (draftOf x.1) ≠ some .folder) (hf : w.entry? x.1 ≠ some .folder) :
    c.Touch b v n w ((w.erase (draftOf x.1)).put x.1 (.file x.2)) ∧
      ((w.erase (draftOf x.1)).put x.1 (.file x.2)).Bears x := by
  have hx := planned_subset (reached_subset hr).1
  have hother : ∀ k, k ≠ Path.normal x.1 → k ≠ Path.normal (draftOf x.1) →
      ((w.erase (draftOf x.1)).put x.1 (.file x.2)).entryAt? k = w.entryAt? k := fun k h h' => by
    rw [entryAt?_put_other h, entryAt?_erase_other h']
  have hbears : ((w.erase (draftOf x.1)).put x.1 (.file x.2)).Bears x := by
    refine ⟨fun dir hdir => ?_, entryAt?_put_self (normal_ne_top hf)⟩
    have hway := mem_ways hx hdir
    have hne := not_spot_ne (fun hs => ho.aside n n hs hway) hx
    exact (hother _ hne.1 hne.2).trans (hopen dir hdir)
  refine ⟨⟨fun k hk => ?_, fun y hy => ?_, fun y hy => ?_⟩, hbears⟩
  · obtain ⟨h, h'⟩ := not_spot_ne hk hx
    exact Or.inl (hother k h h')
  · by_cases hxy : x = y
    · subst hxy
      exact Or.inr ⟨hr, hbears⟩
    · exact Or.inl (hother _ (fun he => hxy (ho.output_inj hx hy he.symm)) (ho.draft_ne hx hy).symm)
  · by_cases hxy : x = y
    · subst hxy
      rw [entryAt?_normal, entryAt?_put_other (ho.draft_ne hx hx), entryAt?_erase_self hd]
      simp [hd]
    · rw [entryAt?_normal, hother _ (ho.draft_ne hy hx) fun he => hxy (ho.draft_inj hx hy he.symm),
        ← entryAt?_normal]

end Conditions

end Retype

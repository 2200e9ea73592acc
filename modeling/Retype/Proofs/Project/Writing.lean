import Retype.Proofs.Project.Files

/-!
# Writing a file whole

A file is written in three steps: its folder is made, a draft is written beside it,
and the draft is moved to its place. How a step fails is settled by what stood there
before anything was written, as long as nothing but folders came to stand above.
-/

set_option autoImplicit false

namespace Retype.Workspace

open Retype.Path

variable {w v w' : Workspace} {p : String}

/-! ## How the steps fail -/

def makeError? (w : Workspace) (p : String) : Option OsError := (w.makeFolder (parent p)).2

def draftError? (w : Workspace) (p : String) : Option OsError :=
  match (flaw? (draftOf p)).or (if isLong (tidy (draftOf p)) then some .tooLong else none) with
  | some cause => some { cause := cause, path := draftOf p }
  | none =>
    if w.entry? (draftOf p) = some .folder then some { cause := .isFolder, path := draftOf p } else none

def placeError? (w : Workspace) (p : String) : Option OsError :=
  match flaw? p with
  | some cause => some { cause := cause, path := draftOf p, goal := some p }
  | none =>
    if w.entry? p = some .folder then some { cause := .isFolder, path := draftOf p, goal := some p }
    else none

def wholeError? (w : Workspace) (p : String) : Option OsError :=
  (w.makeError? p).or ((w.draftError? p).or (w.placeError? p))

def raised (w : Workspace) (p : String) : Workspace := (w.makeFolder (parent p)).1

theorem makeFolder_eq (w : Workspace) (p : String) :
    w.makeFolder (parent p) = (w.raised p, w.makeError? p) := by
  rw [raised, makeError?]

theorem write_eq (hb : w.blocked? (draftOf p) =
      (flaw? (draftOf p)).or (if isLong (tidy (draftOf p)) then some .tooLong else none))
    (text : String) : w.write (draftOf p) text = match w.draftError? p with
      | some e => .error e
      | none => .ok (w.put (draftOf p) (.file text)) := by
  unfold write draftError?
  rw [hb]
  cases (flaw? (draftOf p)).or (if isLong (tidy (draftOf p)) then some .tooLong else none) with
  | some cause => rfl
  | none =>
    by_cases h : w.entry? (draftOf p) = some .folder
    · simp [h]
    · simp [h]

theorem replace_eq (hb : w.blocked? (draftOf p) = none) (hb' : w.blocked? p = flaw? p)
    {text : String} (he : w.entry? (draftOf p) = some (.file text)) :
    w.replace (draftOf p) p = match w.placeError? p with
      | some e => .error e
      | none => .ok ((w.erase (draftOf p)).put p (.file text)) := by
  have hread : w.read (draftOf p) = .ok text := by
    unfold read
    simp only [hb, he]
  unfold replace placeError?
  simp only [hread, hb']
  cases flaw? p with
  | some cause => rfl
  | none =>
    by_cases h : w.entry? p = some .folder
    · simp [h]
    · simp [h]

/-! ## The folders that are made -/

def fill (w : Workspace) (dirs : List String) : Workspace :=
  dirs.foldl (fun w dir => if (w.entry? dir).isSome then w else w.put dir .folder) w

theorem fill_cons (w : Workspace) (dir : String) (dirs : List String) : w.fill (dir :: dirs) =
    (if (w.entry? dir).isSome then w else w.put dir .folder).fill dirs := rfl

theorem fill_kept {k : String} (dirs : List String) (h : w.entryAt? k ≠ none) :
    (w.fill dirs).entryAt? k = w.entryAt? k := by
  induction dirs generalizing w with
  | nil => rfl
  | cons dir dirs ih =>
    rw [fill_cons]
    by_cases hd : (w.entry? dir).isSome = true
    · rw [if_pos hd, ih h]
    · have hne : k ≠ normal dir := by
        rintro rfl
        exact hd (Option.isSome_iff_ne_none.mpr h)
      have hput : (w.put dir .folder).entryAt? k = w.entryAt? k := entryAt?_put_other hne
      rw [if_neg hd, ih (by rwa [hput]), hput]

theorem fill_other {k : String} (dirs : List String) (h : ∀ dir ∈ dirs, k ≠ normal dir) :
    (w.fill dirs).entryAt? k = w.entryAt? k := by
  induction dirs generalizing w with
  | nil => rfl
  | cons dir dirs ih =>
    have hrest := fun d hd => h d (List.mem_cons_of_mem dir hd)
    rw [fill_cons]
    split
    · exact ih hrest
    · rw [ih hrest, entryAt?_put_other (h dir List.mem_cons_self)]

theorem fill_made {dirs : List String} {dir : String} (hd : dir ∈ dirs) (h : w.entry? dir = none) :
    Workspace.entry? (w.fill dirs) dir = some .folder := by
  induction dirs generalizing w with
  | nil => cases hd
  | cons d dirs ih =>
    rw [fill_cons]
    by_cases hsame : normal dir = normal d
    · have hnone : w.entry? d = none := by rw [entryAt?_normal, ← hsame, ← entryAt?_normal, h]
      have hput : (w.put d .folder).entryAt? (normal dir) = some .folder := by
        rw [hsame, entryAt?_put_self (normal_ne_top (w := w) (by simp [hnone]))]
      rw [hnone, if_neg (by simp), entryAt?_normal, fill_kept dirs (by simp [hput]), hput]
    · have hmem : dir ∈ dirs := (List.mem_cons.mp hd).resolve_left fun he => hsame (by rw [he])
      refine ih hmem ?_
      split
      · exact h
      · rw [entryAt?_normal, entryAt?_put_other hsame, ← entryAt?_normal, h]

theorem fill_cases (w : Workspace) (dirs : List String) (k : String) :
    (w.fill dirs).entryAt? k = w.entryAt? k ∨
      w.entryAt? k = none ∧ (w.fill dirs).entryAt? k = some .folder := by
  by_cases hk : w.entryAt? k = none
  · by_cases hmade : ∃ dir ∈ dirs, k = normal dir
    · obtain ⟨dir, hd, rfl⟩ := hmade
      exact Or.inr ⟨hk, fill_made hd hk⟩
    · exact Or.inl (fill_other dirs fun dir hd he => hmade ⟨dir, hd, he⟩)
  · exact Or.inl (fill_kept dirs hk)

/-- Folders are made one after the other, up to one that cannot be made. -/
theorem makeEach_fill (w : Workspace) (dirs : List String) :
    ∃ made, made <+: dirs ∧ (w.makeEach dirs).1 = w.fill made := by
  induction dirs generalizing w with
  | nil => exact ⟨[], List.prefix_rfl, rfl⟩
  | cons dir dirs ih =>
    rw [makeEach]
    split
    · exact ⟨[], List.nil_prefix, rfl⟩
    · split
      · next he =>
        obtain ⟨made, hsub, hfill⟩ := ih w
        exact ⟨dir :: made, (List.prefix_cons_inj dir).mpr hsub, by rw [hfill, fill_cons, he]; rfl⟩
      · exact ⟨[], List.nil_prefix, rfl⟩
      · next he =>
        obtain ⟨made, hsub, hfill⟩ := ih (w.put dir .folder)
        exact ⟨dir :: made, (List.prefix_cons_inj dir).mpr hsub, by rw [hfill, fill_cons, he]; rfl⟩

theorem makeFolder_fill (w : Workspace) (d : String) :
    ∃ made, made <+: foldersAbove d ++ [d] ∧ (w.makeFolder d).1 = w.fill made := by
  unfold makeFolder
  split
  · exact makeEach_fill w _
  · exact makeEach_fill w _
  · exact ⟨[], List.nil_prefix, rfl⟩

theorem raised_cases (w : Workspace) (p k : String) : (w.raised p).entryAt? k = w.entryAt? k ∨
    w.entryAt? k = none ∧ (w.raised p).entryAt? k = some .folder := by
  obtain ⟨made, -, hfill⟩ := makeFolder_fill w (parent p)
  rw [raised, hfill]
  exact fill_cases w made k

theorem raised_kept {k : String} (h : w.entryAt? k ≠ none) : (w.raised p).entryAt? k = w.entryAt? k :=
  (raised_cases w p k).resolve_right fun hnone => h hnone.1

theorem normal_top : normal "/" = "/" := by decide

theorem raised_other {k : String} (hp : Plain p) (h : ∀ dir ∈ foldersAbove p, k ≠ normal dir) :
    (w.raised p).entryAt? k = w.entryAt? k := by
  obtain ⟨made, hsub, hfill⟩ := makeFolder_fill w (parent p)
  rcases foldersAbove_parent hp with hl | ⟨hl, -⟩
  · rw [raised, hfill]
    exact fill_other _ fun dir hd => h dir (hl ▸ hsub.subset hd)
  · by_cases hk : k = "/"
    · refine raised_kept ?_
      rw [hk]
      simp [entryAt?]
    · rw [raised, hfill]
      refine fill_other _ fun dir hd => ?_
      have htop := hsub.subset hd
      rw [hl, List.mem_singleton] at htop
      rwa [htop, normal_top]

/-- Folders that could all be made are there. -/
theorem makeEach_folder {dirs : List String} (h : (w.makeEach dirs).2 = none) :
    ∀ dir ∈ dirs, Workspace.entry? (w.makeEach dirs).1 dir = some .folder := by
  induction dirs generalizing w with
  | nil => exact fun _ hd => nomatch hd
  | cons d dirs ih =>
    have hstays : ∀ v : Workspace, Workspace.entry? v d = some .folder →
        Workspace.entry? (v.makeEach dirs).1 d = some .folder := by
      intro v hv
      obtain ⟨made, -, hfill⟩ := makeEach_fill v dirs
      have hv' : v.entryAt? (normal d) ≠ none := by
        rw [← entryAt?_normal, hv]
        simp
      rw [hfill, entryAt?_normal, fill_kept made hv', ← entryAt?_normal, hv]
    rw [makeEach] at h ⊢
    split at h
    · cases h
    · next hshort =>
      rw [if_neg hshort]
      intro dir hd
      cases he : w.entry? d with
      | none =>
        simp only [he] at h ⊢
        rcases List.mem_cons.mp hd with rfl | hd
        · refine hstays _ ?_
          rw [entryAt?_normal, entryAt?_put_self (normal_ne_top (w := w) (by simp [he]))]
        · exact ih h dir hd
      | some e =>
        cases e with
        | file text =>
          simp only [he] at h
          cases h
        | folder =>
          simp only [he] at h ⊢
          rcases List.mem_cons.mp hd with rfl | hd
          · exact hstays w he
          · exact ih h dir hd

theorem makeFolder_folder {d : String} (h : (w.makeFolder d).2 = none) :
    ∀ dir ∈ foldersAbove d ++ [d], Workspace.entry? (w.makeFolder d).1 dir = some .folder := by
  unfold makeFolder at h ⊢
  split at h
  · exact makeEach_folder h
  · exact makeEach_folder h
  · cases h

theorem raised_open (hp : Plain p) (hm : w.makeError? p = none) : (w.raised p).Open p := by
  intro dir hd
  rcases foldersAbove_parent hp with hl | ⟨-, hl⟩
  · rw [← hl] at hd
    exact makeFolder_folder hm dir hd
  · rw [hl] at hd
    cases hd

theorem makeEach_append {dirs : List String} (rest : List String)
    (h : ∀ dir ∈ dirs, isLong dir = false ∧ w.entry? dir = some .folder) :
    w.makeEach (dirs ++ rest) = w.makeEach rest := by
  induction dirs with
  | nil => rfl
  | cons dir dirs ih =>
    obtain ⟨hshort, hfolder⟩ := h dir List.mem_cons_self
    rw [List.cons_append, makeEach, hshort, if_neg (by simp), hfolder]
    exact ih fun d hd => h d (List.mem_cons_of_mem dir hd)

/-- Where no file is in the way, folders can be made. -/
theorem makeEach_free {dirs : List String} (hs : ∀ dir ∈ dirs, isLong dir = false)
    (h : ∀ dir ∈ dirs, ∀ text, w.entry? dir ≠ some (.file text)) : (w.makeEach dirs).2 = none := by
  induction dirs generalizing w with
  | nil => rfl
  | cons d dirs ih =>
    have hrest : ∀ dir ∈ dirs, isLong dir = false := fun dir hd => hs dir (List.mem_cons_of_mem d hd)
    rw [makeEach, hs d List.mem_cons_self, if_neg (by simp)]
    cases he : w.entry? d with
    | none =>
      refine ih hrest fun dir hd text ht => ?_
      by_cases hsame : normal dir = normal d
      · rw [entryAt?_normal, hsame, entryAt?_put_self (normal_ne_top (w := w) (by simp [he]))] at ht
        cases ht
      · rw [entryAt?_normal, entryAt?_put_other hsame, ← entryAt?_normal] at ht
        exact h dir (List.mem_cons_of_mem d hd) text ht
    | some e =>
      cases e with
      | file text => exact absurd he (h d List.mem_cons_self text)
      | folder => exact ih hrest fun dir hd => h dir (List.mem_cons_of_mem d hd)

/-! ## What was there before decides -/

/-- Folders that came to stand do not change where a file stands first. -/
theorem stopped_iff {dirs rest : List String} (hp : foldersAbove p = dirs ++ rest)
    (hs : Path.Short p) (hfirm : Firm v p) (h : Widens v w p) :
    dirs.findSome? w.barred? = some .notFolder ↔ dirs.findSome? v.barred? = some .notFolder := by
  have hmem : ∀ dir ∈ dirs, dir ∈ foldersAbove p := fun dir hd => hp ▸ List.mem_append_left _ hd
  have hshort : ∀ dir ∈ dirs, isLong dir = false := fun dir hd =>
    hs dir (List.mem_append_left _ (hmem dir hd))
  rw [List.findSome?_eq_some_iff, List.findSome?_eq_some_iff]
  constructor
  · rintro ⟨pre, dir, post, hl, hfile, hpre⟩
    have hd : dir ∈ dirs := by simp [hl]
    obtain ⟨text, htext⟩ := (barred?_notFolder (hshort dir hd)).mp hfile
    have htext₀ := (h.file_iff (hmem dir hd)).mp htext
    refine ⟨pre, dir, post, hl, (barred?_notFolder (hshort dir hd)).mpr ⟨text, htext₀⟩, ?_⟩
    intro a ha
    have had : a ∈ dirs := by simp [hl, ha]
    rw [barred?_none (hshort a had)]
    rcases h a (hmem a had) with hsame | ⟨hnone, -⟩
    · rw [← hsame]
      exact (barred?_none (hshort a had)).mp (hpre a ha)
    · rw [Firm, hp, hl, List.append_assoc, List.append_assoc, List.pairwise_append] at hfirm
      exact absurd htext₀ (hfirm.2.2 a ha dir (by simp) hnone text)
  · rintro ⟨pre, dir, post, hl, hfile, hpre⟩
    have hd : dir ∈ dirs := by simp [hl]
    obtain ⟨text, htext⟩ := (barred?_notFolder (hshort dir hd)).mp hfile
    refine ⟨pre, dir, post, hl, ?_, ?_⟩
    · exact (barred?_notFolder (hshort dir hd)).mpr ⟨text, (h.file_iff (hmem dir hd)).mpr htext⟩
    · intro a ha
      have had : a ∈ dirs := by simp [hl, ha]
      rw [barred?_none (hshort a had)]
      exact h.folder (hmem a had) ((barred?_none (hshort a had)).mp (hpre a ha))

theorem stopped_of_file (hs : Path.Short p) (hfirm : Firm v p) {dir text : String}
    (hd : dir ∈ foldersAbove p) (ht : v.entry? dir = some (.file text)) :
    (foldersAbove p).findSome? v.barred? = some .notFolder := by
  have hshort : ∀ dir ∈ foldersAbove p, isLong dir = false := fun dir hd =>
    hs dir (List.mem_append_left _ hd)
  cases hb : (foldersAbove p).findSome? v.barred? with
  | none =>
    have := (barred?_open hs).mp hb dir hd
    rw [ht] at this
    cases this
  | some cause =>
    rcases barred?_cases hs hb with rfl | rfl
    · -- The first folder that is not there is missing, so no file stands beyond it.
      obtain ⟨pre, a, post, hl, ha, hpre⟩ := List.findSome?_eq_some_iff.mp hb
      have hmem : a ∈ foldersAbove p := by simp [hl]
      have hnone : v.entry? a = none := by
        rw [barred?_short (hshort a hmem)] at ha
        split at ha
        · cases ha
        · cases ha
        · assumption
      rw [hl, List.mem_append, List.mem_cons] at hd
      rcases hd with hd | rfl | hd
      · have := (barred?_none (hshort dir (by simp [hl, hd]))).mp (hpre dir hd)
        rw [ht] at this
        cases this
      · rw [hnone] at ht
        cases ht
      · rw [Firm, hl, List.append_assoc, List.pairwise_append, List.cons_append,
          List.pairwise_cons] at hfirm
        exact absurd ht (hfirm.2.1.1 dir (List.mem_append_left _ hd) hnone text)
    · rfl

/-- How making a folder fails: a file stands above, or in its place. -/
theorem makeFolder_error? {d : String} (hs : Path.Short d) (ht : tidy d = d) (hf : flaw? d = none)
    (hfirm : Firm w d) : (w.makeFolder d).2 =
      if (foldersAbove d).findSome? w.barred? = some .notFolder then
        some { cause := .notFolder, path := d }
      else if (foldersAbove d ++ [d]).findSome? w.barred? = some .notFolder then
        some { cause := .present, path := d }
      else none := by
  have hshort : ∀ dir ∈ foldersAbove d ++ [d], isLong dir = false := by rwa [Path.Short, ht] at hs
  rw [List.findSome?_append]
  unfold makeFolder
  rw [blocked?_eq hs hf]
  cases hb : (foldersAbove d).findSome? w.barred? with
  | some cause =>
    rcases barred?_cases hs hb with rfl | rfl
    · -- The first folder that is not there is missing, and no file stands beyond it.
      have hfree : ∀ dir ∈ foldersAbove d ++ [d], ∀ text, w.entry? dir ≠ some (.file text) := by
        intro dir hd text htext
        rcases List.mem_append.mp hd with hd | hd
        · rw [stopped_of_file hs hfirm hd htext] at hb
          cases hb
        · cases List.mem_singleton.mp hd
          obtain ⟨a, ha, hbarred⟩ := List.exists_of_findSome?_eq_some hb
          have hnone : w.entry? a = none := by
            rw [barred?_short (hs.folders a ha)] at hbarred
            split at hbarred
            · cases hbarred
            · cases hbarred
            · assumption
          exact (List.pairwise_append.mp hfirm).2.2 a ha d (by simp) hnone text htext
      simp [makeEach_free hshort hfree]
    · simp
  | none =>
    have hopen := (barred?_open hs).mp hb
    have hd : isLong d = false := hshort d (by simp)
    have hmade : w.makeEach (foldersAbove d ++ [d]) = w.makeEach [d] :=
      makeEach_append [d] fun dir hd => ⟨hs.folders dir hd, hopen dir hd⟩
    simp only [hmade, makeEach, hd, Bool.false_eq_true, if_false, List.findSome?_cons, List.findSome?_nil,
      barred?_short hd]
    cases w.entry? d with
    | none => simp
    | some e => cases e <;> simp

theorem tidy_parent (hp : Plain p) : tidy (parent p) = parent p := by
  rcases parent_plain hp with h | h
  · rw [h]
    decide
  · exact tidy_plain h

theorem parent_short (hp : Plain p) (hs : Path.Short p) : Path.Short (parent p) := by
  intro dir hd
  rw [tidy_parent hp] at hd
  rcases foldersAbove_parent hp with hl | ⟨hl, -⟩
  · rw [hl] at hd
    exact hs dir (List.mem_append_left _ hd)
  · rw [hl, List.mem_singleton] at hd
    rw [hd]
    decide

theorem flaw?_ne_missing (p : String) : flaw? p ≠ some .missing := by
  unfold flaw?
  split
  · simp
  · split
    · simp
    · split <;> simp

theorem makeFolder_flaw {d : String} {cause : OsCause} (h : flaw? d = some cause) :
    w.makeFolder d = (w, some { cause := cause, path := d }) := by
  unfold makeFolder
  rw [blocked?_flaw h]
  cases cause with
  | missing => exact absurd h (flaw?_ne_missing d)
  | present | notFolder | isFolder | tooLong | nul | half => rfl

theorem Firm.above (hp : Plain p) (h : Firm v p) : Firm v (parent p) := by
  rw [Firm]
  rcases foldersAbove_parent hp with hl | ⟨hl, -⟩
  · rw [hl]
    exact (List.pairwise_append.mp h).1
  · rw [hl]
    exact List.pairwise_singleton _ _

theorem Firm.widens (hp : Plain p) (hfirm : Firm v p) (h : Widens v w p) : Firm w (parent p) := by
  rw [Firm]
  rcases foldersAbove_parent hp with hl | ⟨hl, -⟩
  · rw [hl]
    refine (List.pairwise_append.mp hfirm).1.imp_of_mem fun {a b} ha hb hab hnone text ht => ?_
    have hnone₀ : v.entry? a = none := by
      rcases h a ha with hsame | ⟨hnone₀, -⟩
      · rw [← hsame, hnone]
      · exact hnone₀
    exact hab hnone₀ text ((h.file_iff hb).mp ht)
  · rw [hl]
    exact List.pairwise_singleton _ _

theorem makeError?_widens (hp : Plain p) (hs : Path.Short p) (hfirm : Firm v p)
    (h : Widens v w p) : w.makeError? p = v.makeError? p := by
  unfold makeError?
  cases hf : flaw? (parent p) with
  | some cause =>
    rw [makeFolder_flaw hf, makeFolder_flaw hf]
  | none =>
    have hw := makeFolder_error? (parent_short hp hs) (tidy_parent hp) hf (hfirm.widens hp h)
    have hv := makeFolder_error? (parent_short hp hs) (tidy_parent hp) hf (hfirm.above hp)
    rw [hw, hv]
    rcases foldersAbove_parent hp with hl | ⟨hl, -⟩
    · simp only [stopped_iff hl.symm hs hfirm h, hl,
        stopped_iff (List.append_nil _).symm hs hfirm h]
    · have htop : ∀ w : Workspace, w.barred? "/" = none := by
        intro w
        rw [barred?_none (by decide), entryAt?_normal, normal_top]
        rfl
      rcases List.append_eq_singleton_iff.mp hl with ⟨hnil, hpar⟩ | ⟨-, hpar⟩
      · rw [hnil, List.singleton_inj.mp hpar]
        simp [htop]
      · cases hpar

end Retype.Workspace

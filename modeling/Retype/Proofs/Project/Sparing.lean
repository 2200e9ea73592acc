import Retype.Proofs.Fault
import Retype.Proofs.Project.Writing
import Retype.Roadmap.File

/-!
# What file operations spare

A file operation touches the places that it is asked for. Anywhere else it makes folders
where nothing was, and nothing more; and what is a folder stays one. So a file that was
reached before is reached afterwards, and reads the same unless its place was touched.
-/

set_option autoImplicit false

namespace Retype.Workspace

open Retype.Path

/-- Folders stay, and away from the touched places folders may have come to stand where
nothing was. -/
structure Spares (touched : String → Prop) (w w' : Workspace) : Prop where
  folders : ∀ k, w.entryAt? k = some .folder → w'.entryAt? k = some .folder
  others : ∀ k, ¬ touched k →
    w'.entryAt? k = w.entryAt? k ∨ w.entryAt? k = none ∧ w'.entryAt? k = some .folder

variable {touched touched' : String → Prop} {w w₁ w' : Workspace} {p goal text : String}

namespace Spares

theorem refl (w : Workspace) : Spares touched w w := ⟨fun _ => id, fun _ _ => Or.inl rfl⟩

theorem mono (h : Spares touched w w') (hsub : ∀ k, touched k → touched' k) : Spares touched' w w' :=
  ⟨h.folders, fun k hk => h.others k fun ht => hk (hsub k ht)⟩

theorem trans (h : Spares touched w w₁) (h' : Spares touched w₁ w') : Spares touched w w' := by
  refine ⟨fun k hk => h'.folders k (h.folders k hk), fun k hk => ?_⟩
  rcases h.others k hk with hsame | ⟨hnone, hfolder⟩
  · rw [← hsame]
    exact h'.others k hk
  · exact Or.inr ⟨hnone, h'.folders k hfolder⟩

theorem file_iff (h : Spares touched w w') {k : String} (hk : ¬ touched k) :
    w'.entryAt? k = some (.file text) ↔ w.entryAt? k = some (.file text) := by
  rcases h.others k hk with hsame | ⟨hnone, hfolder⟩
  · rw [hsame]
  · rw [hnone, hfolder]
    simp

end Spares

/-! ## Paths that are reached -/

theorem barred?_eq_none {dir : String} :
    w.barred? dir = none ↔ isLong dir = false ∧ w.entry? dir = some .folder := by
  unfold barred?
  cases isLong dir with
  | true => simp
  | false =>
    cases w.entry? dir with
    | none => simp
    | some e => cases e <;> simp

theorem blocked?_eq_none : w.blocked? p = none ↔
    flaw? p = none ∧ (∀ dir ∈ foldersAbove p, w.barred? dir = none) ∧ isLong (tidy p) = false := by
  unfold blocked?
  cases flaw? p with
  | some cause => simp
  | none =>
    cases hb : (foldersAbove p).findSome? w.barred? with
    | some cause =>
      obtain ⟨dir, hd, hdir⟩ := List.exists_of_findSome?_eq_some hb
      have : ¬ ∀ dir ∈ foldersAbove p, w.barred? dir = none := fun h => by
        rw [h dir hd] at hdir
        cases hdir
      simp [this]
    | none =>
      have hdirs : ∀ dir ∈ foldersAbove p, w.barred? dir = none := List.findSome?_eq_none_iff.mp hb
      cases isLong (tidy p) <;> simp [and_iff_right hdirs]

theorem Spares.reached (h : Spares touched w w') (hb : w.blocked? p = none) : w'.blocked? p = none := by
  obtain ⟨hflaw, hdirs, hlong⟩ := blocked?_eq_none.mp hb
  refine blocked?_eq_none.mpr ⟨hflaw, fun dir hd => ?_, hlong⟩
  obtain ⟨hshort, hfolder⟩ := barred?_eq_none.mp (hdirs dir hd)
  exact barred?_eq_none.mpr ⟨hshort, h.folders _ hfolder⟩

theorem read_eq_ok : w.read p = .ok text ↔ w.blocked? p = none ∧ w.entry? p = some (.file text) := by
  unfold read
  cases w.blocked? p with
  | some cause => simp
  | none =>
    cases w.entry? p with
    | none => simp
    | some e => cases e <;> simp

theorem Spares.read (h : Spares touched w w') (hp : ¬ touched (normal p)) (hr : w.read p = .ok text) :
    w'.read p = .ok text := by
  obtain ⟨hb, he⟩ := read_eq_ok.mp hr
  exact read_eq_ok.mpr ⟨h.reached hb, (h.file_iff hp).mpr he⟩

/-! ## Texts as they are seen -/

/-- A text as it is seen when it is read back: its line ends are line feeds. -/
def asRead (text : String) : String := String.ofList (unifyLines text.toList)

theorem asRead_eq_self : asRead text = text ↔ '\r' ∉ text.toList := by
  rw [← unifyLines_eq_self, ← String.toList_inj, asRead, String.toList_ofList]

theorem asRead_asRead (text : String) : asRead (asRead text) = asRead text := by
  rw [asRead_eq_self, asRead, String.toList_ofList]
  exact unifyLines_clean text.toList

theorem current?_read (h : w.read p = .ok text) : w.current? p = .ok (some (asRead text)) := by
  obtain ⟨hb, he⟩ := read_eq_ok.mp h
  simp [current?, hasFile, look, readText, asRead, h, hb, he, Except.map, bind, Except.bind, pure, Except.pure]

/-- What is seen is what a file holds that can be read. -/
theorem current?_file (h : w.current? p = .ok (some text)) :
    ∃ raw, w.read p = .ok raw ∧ text = asRead raw := by
  unfold current? hasFile look at h
  cases hb : w.blocked? p with
  | some cause => cases cause <;> simp [hb, Except.map, bind, Except.bind, pure, Except.pure] at h
  | none =>
    cases he : w.entry? p with
    | none => simp [hb, he, Except.map, bind, Except.bind, pure, Except.pure] at h
    | some e =>
      cases e with
      | folder => simp [hb, he, Except.map, bind, Except.bind, pure, Except.pure] at h
      | file raw =>
        have hr : w.read p = .ok raw := read_eq_ok.mpr ⟨hb, he⟩
        simp [hb, he, readText, hr, Except.map, bind, Except.bind, pure, Except.pure] at h
        exact ⟨raw, hr, h.symm⟩

/-! ## The operations -/

theorem spares_put (h : w.entry? p ≠ some .folder) (e : Entry) : Spares (· = normal p) w (w.put p e) := by
  refine ⟨fun k hk => ?_, fun k hk => Or.inl (entryAt?_put_other hk)⟩
  rw [entryAt?_put_other, hk]
  rintro rfl
  exact h hk

theorem spares_erase (h : w.entry? p ≠ some .folder) : Spares (· = normal p) w (w.erase p) := by
  refine ⟨fun k hk => ?_, fun k hk => Or.inl (entryAt?_erase_other hk)⟩
  rw [entryAt?_erase_other, hk]
  rintro rfl
  exact h hk

theorem spares_fill (w : Workspace) (dirs : List String) : Spares touched w (w.fill dirs) := by
  refine ⟨fun k hk => ?_, fun k _ => fill_cases w dirs k⟩
  rw [fill_kept dirs (by simp [hk]), hk]

theorem makeFolder_spares {e : Option OsError} (h : w.makeFolder p = (w', e)) : Spares touched w w' := by
  obtain ⟨made, -, hfill⟩ := makeFolder_fill w p
  obtain rfl : w' = w.fill made := by rw [← hfill, h]
  exact spares_fill w made

theorem write_spares (h : w.write p text = .ok w') :
    Spares (· = normal p) w w' ∧ w'.read p = .ok text := by
  have hput := write_put h
  unfold write at h
  split at h
  · cases h
  · next hb =>
    split at h
    · cases h
    · next he =>
      have hfree : w.entry? p ≠ some .folder := by simpa using he
      have hspares := spares_put hfree (.file text)
      rw [← hput] at hspares
      refine ⟨hspares, read_eq_ok.mpr ⟨hspares.reached hb, ?_⟩⟩
      rw [entryAt?_normal, hput]
      exact entryAt?_put_self (normal_ne_top hfree)

/-- A file that is moved is found at its goal. -/
theorem replace_spares (h : w.replace p goal = .ok w') (hr : w.read p = .ok text) :
    Spares (fun k => k = normal p ∨ k = normal goal) w w' ∧ w'.read goal = .ok text := by
  obtain ⟨-, he⟩ := read_eq_ok.mp hr
  unfold replace at h
  rw [hr] at h
  simp only at h
  split at h
  · cases h
  · next hgoal =>
    split at h
    · cases h
    · next hfolder =>
      cases h
      have hfile : w.entry? p ≠ some .folder := by simp [he]
      have hfree : Workspace.entry? (w.erase p) goal ≠ some .folder := by
        rw [entryAt?_normal]
        by_cases hsame : normal goal = normal p
        · rw [hsame, entryAt?_erase_self hfile]
          simp
        · rw [entryAt?_erase_other hsame, ← entryAt?_normal]
          simpa using hfolder
      have herase : Spares (fun k => k = normal p ∨ k = normal goal) w (w.erase p) :=
        (spares_erase hfile).mono fun k => Or.inl
      have hboth := herase.trans ((spares_put hfree (.file text)).mono fun k => Or.inr)
      exact ⟨hboth, read_eq_ok.mpr ⟨hboth.reached hgoal, entryAt?_put_self (normal_ne_top hfree)⟩⟩

theorem remove_spares (h : w.remove p = .ok w') : Spares (· = normal p) w w' := by
  unfold remove at h
  split at h
  · next hr =>
    cases h
    obtain ⟨-, he⟩ := read_eq_ok.mp hr
    exact spares_erase (by simp [he])
  · split at h
    · cases h
      exact .refl w
    · cases h

/-! ## Operations one after the other -/

variable {r : Workspace × Option OsError} {go : Workspace → Workspace × Option OsError} {e : OsError}

theorem unlessFailed_none (h : unlessFailed r go = (w', none)) : ∃ w₁, r = (w₁, none) ∧ go w₁ = (w', none) := by
  obtain ⟨w₁, _ | e⟩ := r
  · exact ⟨w₁, rfl, h⟩
  · cases h

theorem unlessFailed_some (h : unlessFailed r go = (w', some e)) :
    r = (w', some e) ∨ ∃ w₁, r = (w₁, none) ∧ go w₁ = (w', some e) := by
  obtain ⟨w₁, _ | e₁⟩ := r
  · exact Or.inr ⟨w₁, rfl, h⟩
  · exact Or.inl h

theorem settled_none {r : Except OsError Workspace} (h : w.settled r = (w', none)) : r = .ok w' := by
  cases r <;> cases h
  rfl

theorem settled_some {r : Except OsError Workspace} (h : w.settled r = (w', some e)) : w' = w := by
  cases r <;> cases h
  rfl

theorem writeBelow_steps (h : w.writeBelow p text = (w', none)) : ∃ w₁,
    w.makeFolder (parent p) = (w₁, none) ∧ w₁.write p text = .ok w' := by
  obtain ⟨w₁, hm, h⟩ := unlessFailed_none h
  exact ⟨w₁, hm, settled_none h⟩

theorem writeBelow_spares {e : Option OsError} (h : w.writeBelow p text = (w', e)) :
    Spares (· = normal p) w w' := by
  cases e with
  | none =>
    obtain ⟨w₁, hmade, hwrite⟩ := writeBelow_steps h
    exact (makeFolder_spares hmade).trans (write_spares hwrite).1
  | some e =>
    rcases unlessFailed_some h with hmade | ⟨w₁, hmade, hwrite⟩
    · exact makeFolder_spares hmade
    · rw [settled_some hwrite]
      exact makeFolder_spares hmade

/-! ## Writing a file whole -/

theorem writeWhole_steps (h : w.writeWhole p text = (w', none)) : ∃ w₁ w₂,
    w.makeFolder (parent p) = (w₁, none) ∧ w₁.write (draftOf p) text = .ok w₂ ∧
      w₂.replace (draftOf p) p = .ok w' := by
  obtain ⟨w₁, hm, h⟩ := unlessFailed_none h
  obtain ⟨w₂, hd, h⟩ := unlessFailed_none h
  exact ⟨w₁, w₂, hm, settled_none hd, settled_none h⟩

theorem writeWhole_spares (h : w.writeWhole p text = (w', none)) :
    Spares (fun k => k = normal p ∨ k = normal (draftOf p)) w w' ∧ w'.read p = .ok text ∧
      w'.blocked? (draftOf p) = none := by
  obtain ⟨w₁, w₂, hm, hd, hr⟩ := writeWhole_steps h
  obtain ⟨hdraft, hread⟩ := write_spares hd
  obtain ⟨hmove, hplace⟩ := replace_spares hr hread
  refine ⟨?_, hplace, hmove.reached (read_eq_ok.mp hread).1⟩
  exact ((makeFolder_spares hm).trans (hdraft.mono fun k => Or.inr)).trans (hmove.mono fun k => Or.symm)

theorem writeWhole_folder (h : w.entry? p = some .folder) : (w.writeWhole p text).2 ≠ none := by
  intro hdone
  have hw : w.writeWhole p text = ((w.writeWhole p text).1, none) := by rw [← hdone]
  obtain ⟨hspares, hread, -⟩ := writeWhole_spares hw
  obtain ⟨-, hfile⟩ := read_eq_ok.mp hread
  have hfolder := hspares.folders _ h
  rw [entryAt?_normal, hfolder] at hfile
  cases hfile

theorem write_ok (hb : w.blocked? p = none) (he : w.entry? p ≠ some .folder) :
    w.write p text = .ok (w.put p (.file text)) := by
  simp [write, hb, he]

theorem replace_ok (hr : w.read p = .ok text) (hb : w.blocked? goal = none)
    (he : w.entry? goal ≠ some .folder) : w.replace p goal = .ok ((w.erase p).put goal (.file text)) := by
  simp [replace, hr, hb, he]

/-- A file can be written whole where neither its place nor that of its draft is out of reach
or a folder. -/
theorem writeWhole_done (hm : w.makeFolder (parent p) = (w₁, none))
    (hdraft : w₁.blocked? (draftOf p) = none) (hfree : w₁.entry? (draftOf p) ≠ some .folder)
    (hplace : w₁.blocked? p = none) (hfree' : w₁.entry? p ≠ some .folder) :
    ∃ w', w.writeWhole p text = (w', none) := by
  have hwrite : w₁.write (draftOf p) text = .ok (w₁.put (draftOf p) (.file text)) :=
    write_ok hdraft hfree
  obtain ⟨hspares, hread⟩ := write_spares hwrite
  have hstill : Workspace.entry? (w₁.put (draftOf p) (.file text)) p ≠ some .folder := by
    rw [entryAt?_normal]
    by_cases hsame : normal p = normal (draftOf p)
    · rw [hsame, entryAt?_put_self (normal_ne_top hfree)]
      simp
    · rwa [entryAt?_put_other hsame, ← entryAt?_normal]
  have hreplace := replace_ok hread (hspares.reached hplace) hstill
  rw [draftOf] at hwrite hreplace
  unfold writeWhole
  simp only [hm, unlessFailed, settled, hwrite, hreplace]
  exact ⟨_, rfl⟩

theorem writeWhole_spares_failed (h : w.writeWhole p text = (w', some e)) :
    Spares (· = normal (draftOf p)) w w' := by
  rcases unlessFailed_some h with hmade | ⟨w₁, hmade, h⟩
  · exact makeFolder_spares hmade
  · rcases unlessFailed_some h with hd | ⟨w₂, hd, hr⟩
    · rw [settled_some hd]
      exact makeFolder_spares hmade
    · rw [settled_some hr]
      exact (makeFolder_spares hmade).trans (write_spares (settled_none hd)).1

end Retype.Workspace

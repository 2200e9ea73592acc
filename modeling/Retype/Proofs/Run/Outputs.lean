import Mathlib.Data.List.Pairwise
import Retype.Proofs.Project.Companions
import Retype.Proofs.Project.Sparing

/-!
# Writing the outputs of an item

The outputs of an item lie apart, so writing one of them does nothing to another. Writing
them in turn touches their places and drafts alone: either all of them come to read as they
were written, or those do that come before the first that cannot be written.
-/

set_option autoImplicit false

namespace Retype

namespace Workspace

open Retype.Path

/-- The places that writing some files touches: their own, and those of their drafts. -/
def Touches (xs : List (String × String)) (k : String) : Prop :=
  ∃ x ∈ xs, k = normal x.1 ∨ k = normal (draftOf x.1)

/-- Neither of two files is the other, or the draft of the other. -/
structure Apart (x y : String × String) : Prop where
  places : normal x.1 ≠ normal y.1
  draft : normal x.1 ≠ normal (draftOf y.1)
  draft' : normal (draftOf x.1) ≠ normal y.1

variable {w w' : Workspace} {xs ys : List (String × String)} {x y : String × String} {e : OsError}

theorem Apart.symm (h : Apart x y) : Apart y x := ⟨h.places.symm, h.draft'.symm, h.draft.symm⟩

theorem apart_of_mem (h : xs.Pairwise Apart) (hx : x ∈ xs) (hy : y ∈ xs) (hne : x ≠ y) : Apart x y := by
  have : Std.Symm Apart := ⟨fun _ _ => Apart.symm⟩
  exact h.forall hx hy hne

theorem not_touches (h : ∀ y ∈ ys, Apart x y) : ¬ Touches ys (normal x.1) := by
  rintro ⟨y, hy, hk | hk⟩
  · exact (h y hy).places hk
  · exact (h y hy).draft hk

theorem Touches.mono (h : xs ⊆ ys) : ∀ k, Touches xs k → Touches ys k :=
  fun _ ⟨x, hx, hk⟩ => ⟨x, h hx, hk⟩

/-! ## In turn -/

/-- How writing files in turn fails: those before the first that cannot be written are written. -/
theorem writeEach_failed (h : w.writeEach xs = (w', some e)) : ∃ pre x post w₁,
    xs = pre ++ x :: post ∧ w.writeEach pre = (w₁, none) ∧ w₁.writeWhole x.1 x.2 = (w', some e) := by
  induction xs generalizing w with
  | nil => cases h
  | cons x xs ih =>
    rw [writeEach] at h
    cases hx : w.writeWhole x.1 x.2 with
    | mk w₁ failure =>
      rw [hx] at h
      cases failure with
      | some failure =>
        cases h
        exact ⟨[], x, xs, w, rfl, rfl, hx⟩
      | none =>
        obtain ⟨pre, y, post, w₂, rfl, hpre, hy⟩ := ih h
        refine ⟨x :: pre, y, post, w₂, rfl, ?_, hy⟩
        rw [writeEach, hx]
        exact hpre

theorem writeEach_spares (h : w.writeEach xs = (w', none)) : Spares (Touches xs) w w' := by
  induction xs generalizing w with
  | nil =>
    cases h
    exact .refl _
  | cons x xs ih =>
    rw [writeEach] at h
    cases hx : w.writeWhole x.1 x.2 with
    | mk w₁ failure =>
      rw [hx] at h
      cases failure with
      | some => cases h
      | none =>
        have hhead : Spares (Touches (x :: xs)) w w₁ :=
          (writeWhole_spares hx).1.mono fun k hk => ⟨x, List.mem_cons_self, hk⟩
        exact hhead.trans ((ih h).mono (Touches.mono (List.subset_cons_self x xs)))

/-- Files that lie apart read as they were written, once all are, and their drafts are in reach. -/
theorem writeEach_read (hapart : xs.Pairwise Apart) (h : w.writeEach xs = (w', none)) :
    ∀ x ∈ xs, w'.read x.1 = .ok x.2 ∧ w'.blocked? (draftOf x.1) = none := by
  induction xs generalizing w with
  | nil => exact fun x hx => nomatch hx
  | cons y xs ih =>
    rw [List.pairwise_cons] at hapart
    rw [writeEach] at h
    cases hy : w.writeWhole y.1 y.2 with
    | mk w₁ failure =>
      rw [hy] at h
      cases failure with
      | some => cases h
      | none =>
        intro x hx
        rcases List.mem_cons.mp hx with rfl | hx
        · obtain ⟨-, hread, hdraft⟩ := writeWhole_spares hy
          have hrest := writeEach_spares h
          exact ⟨hrest.read (not_touches hapart.1) hread, hrest.reached hdraft⟩
        · exact ih hapart.2 h x hx

theorem writeEach_failed_spares (h : w.writeEach xs = (w', some e)) : Spares (Touches xs) w w' := by
  obtain ⟨pre, x, post, w₁, rfl, hpre, hx⟩ := writeEach_failed h
  have hfirst := (writeEach_spares hpre).mono (Touches.mono (List.subset_append_left pre (x :: post)))
  refine hfirst.trans ((writeWhole_spares_failed hx).mono fun k hk => ⟨x, ?_, Or.inr hk⟩)
  exact List.mem_append_right pre List.mem_cons_self

theorem writeEach_touches {failure : Option OsError} (h : w.writeEach xs = (w', failure)) :
    Spares (Touches xs) w w' := by
  cases failure with
  | none => exact writeEach_spares h
  | some => exact writeEach_failed_spares h

/-! ## Those that are not there yet -/

variable {seen : List ((String × String) × Option String)}

theorem changed_sublist (h : w.standing xs = .ok seen) : (changed seen).Sublist xs := by
  rw [← standing_outputs h]
  exact List.filter_sublist.map _

theorem changed_or_current (h : w.standing xs = .ok seen) (hx : x ∈ xs) :
    x ∈ changed seen ∨ w.current? x.1 = .ok (some x.2) := by
  rw [← standing_outputs h] at hx
  obtain ⟨a, ha, rfl⟩ := List.mem_map.mp hx
  by_cases hsame : a.2 = some a.1.2
  · right
    rw [standing_current h ha, hsame]
  · exact Or.inl (List.mem_map.mpr ⟨a, List.mem_filter.mpr ⟨ha, by simpa using hsame⟩, rfl⟩)

/-- Once all files that were not there are written, each is seen as it was to be, but for
its line ends. -/
theorem changed_current (hapart : xs.Pairwise Apart) (hseen : w.standing xs = .ok seen)
    (h : w.writeEach (changed seen) = (w', none)) (hx : x ∈ xs) :
    w'.current? x.1 = .ok (some (asRead x.2)) := by
  have hsub := changed_sublist hseen
  by_cases hchanged : x ∈ changed seen
  · exact current?_read (writeEach_read (hapart.sublist hsub) h x hchanged).1
  · have hcurrent := (changed_or_current hseen hx).resolve_left hchanged
    obtain ⟨raw, hraw, htext⟩ := current?_file hcurrent
    have huntouched : ¬ Touches (changed seen) (normal x.1) := not_touches fun y hy =>
      apart_of_mem hapart hx (hsub.subset hy) fun he => hchanged (he ▸ hy)
    rw [current?_read ((writeEach_spares h).read huntouched hraw), htext, asRead_asRead]

end Workspace

namespace Conditions

open Workspace

variable {c : Conditions} {w : Workspace} {path : String} {t : Retyped}

/-- The outputs of an item lie apart. -/
theorem outputs_apart (h : c.prepare w path = .ok (.ready t)) :
    (c.config.outputs t).Pairwise Apart := by
  obtain ⟨-, -, hcompanion⟩ := prepared_target h
  obtain ⟨hplaces, hdraft, hdraft'⟩ := c.config.companion_apart t.target
  unfold Config.fileOf at hplaces hdraft hdraft'
  rw [Config.outputs]
  cases hk : t.companion with
  | none => exact List.pairwise_singleton _ _
  | some k =>
    have hpath := (hcompanion k hk).2
    rw [Option.map_some, Option.toList_some, List.pairwise_pair, hpath]
    refine ⟨?_, ?_, ?_⟩ <;> dsimp only
    · exact hplaces
    · exact hdraft
    · exact hdraft'

end Conditions

end Retype

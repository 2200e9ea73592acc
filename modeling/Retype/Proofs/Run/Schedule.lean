import Retype.Proofs.Project.Marks
import Retype.Proofs.Run.Passage

/-!
# Schedules

Workers take on a list in waves of shards. A schedule covers the list in order, a wave can be
taken on at once, and only the last wave and the last shard of all may be short. The waves of
a run are such a schedule, and there is no other: the sizes that a run is set to are at least
one wherever anything can be counted off by them.
-/

set_option autoImplicit false

namespace Retype

namespace Shards

variable {α : Type} {workers size : Int} {xs : List α} {ws : List (List (List α))}

/-- Waves of shards in which so many workers take on a list, each shard of at most so many items. -/
structure Schedule (workers size : Int) (xs : List α) (ws : List (List (List α))) : Prop where
  /-- All shards of all waves, in order, are the list. -/
  covers : ws.flatten.flatten = xs
  peopled : ∀ w ∈ ws, 1 ≤ w.length ∧ (w.length : Int) ≤ workers
  /-- A pool that is no larger than its wave is not empty, and works on all shards of the wave at once. -/
  pooled : ∀ w ∈ ws, 0 < min workers w.length ∧ min workers w.length = w.length
  loaded : ∀ w ∈ ws, ∀ s ∈ w, s ≠ [] ∧ (s.length : Int) ≤ size
  waves_full : ∀ w ∈ ws.dropLast, (w.length : Int) = workers
  shards_full : ∀ s ∈ ws.flatten.dropLast, (s.length : Int) = size

namespace Schedule

theorem of_cuts (hw : Cut workers ws.flatten ws) (hs : Cut size xs ws.flatten) :
    Schedule workers size xs ws where
  covers := hs.flatten
  peopled := fun w hmem => ⟨List.length_pos_iff.mpr (hw.nonempty w hmem), hw.bounded w hmem⟩
  pooled := by
    intro w hmem
    have hpos := List.length_pos_iff.mpr (hw.nonempty w hmem)
    have hle := hw.bounded w hmem
    omega
  loaded := fun w hmem s hs' =>
    have hflat := List.mem_flatten_of_mem hmem hs'
    ⟨hs.nonempty s hflat, hs.bounded s hflat⟩
  waves_full := hw.full
  shards_full := hs.full

theorem cut_waves (h : Schedule workers size xs ws) : Cut workers ws.flatten ws where
  flatten := rfl
  nonempty := fun w hw => List.length_pos_iff.mp (h.peopled w hw).1
  bounded := fun w hw => (h.peopled w hw).2
  full := h.waves_full

theorem cut_shards (h : Schedule workers size xs ws) : Cut size xs ws.flatten where
  flatten := h.covers
  nonempty := by
    intro s hs
    obtain ⟨w, hw, hs⟩ := List.mem_flatten.mp hs
    exact (h.loaded w hw s hs).1
  bounded := by
    intro s hs
    obtain ⟨w, hw, hs⟩ := List.mem_flatten.mp hs
    exact (h.loaded w hw s hs).2
  full := h.shards_full

theorem eq_waves (hworkers : 1 ≤ workers) (hsize : 1 ≤ size) (h : Schedule workers size xs ws) :
    ws = waves workers size xs := by
  rw [waves_eq_split hworkers hsize, ← h.cut_shards.eq_split]
  exact h.cut_waves.eq_split

theorem of_waves (hworkers : 1 ≤ workers) (hsize : 1 ≤ size) (xs : List α) :
    Schedule workers size xs (waves workers size xs) := by
  have hflatten : (waves workers size xs).flatten = split size xs := by
    rw [waves_eq_split hworkers hsize, split_flatten]
  apply of_cuts
  · rw [hflatten, waves_eq_split hworkers hsize]
    exact split_cut hworkers _
  · rw [hflatten]
    exact split_cut hsize xs

end Schedule

/-- Any list is covered once by its waves, which are the only schedule of it; and whatever the
size, no shard is empty. -/
theorem waves_scheduled (hworkers : 1 ≤ workers) (hsize : 1 ≤ size) (xs : List α) :
    Schedule workers size xs (waves workers size xs) ∧
      (∀ ws, Schedule workers size xs ws → ws = waves workers size xs) ∧
      ∀ (n : Int) (ys : List α), [] ∉ split n ys := by
  refine ⟨.of_waves hworkers hsize xs, ?_, nil_notMem_split⟩
  intro ws h
  exact h.eq_waves hworkers hsize

def gaps : List Int := [0, 2, 3, 5, 6, 8, 9]

theorem gaps_scheduled : (1 : Int) ≤ 2 ∧ (1 : Int) ≤ 3 ∧
    waves 2 3 gaps = [[[0, 2, 3], [5, 6, 8]], [[9]]] ∧
    Schedule 2 3 gaps [[[0, 2, 3], [5, 6, 8]], [[9]]] ∧
    (∀ ws, Schedule 2 3 gaps ws → ws = [[[0, 2, 3], [5, 6, 8]], [[9]]]) ∧
    [] ∉ split (-4) gaps := by
  have hworkers : (1 : Int) ≤ 2 := by decide
  have hsize : (1 : Int) ≤ 3 := by decide
  have hwaves : waves 2 3 gaps = [[[0, 2, 3], [5, 6, 8]], [[9]]] := by
    simp [waves, split, pieces, gaps]
  obtain ⟨hschedule, honly, hnil⟩ := waves_scheduled hworkers hsize gaps
  rw [hwaves] at hschedule honly
  exact ⟨hworkers, hsize, hwaves, hschedule, honly, hnil (-4) gaps⟩

/-! ## Sizes as they are set -/

/-- Where elements can be counted off by what counts as at least one, they are by one at least. -/
theorem one_le_atLeastOne {v w : Json} {n : Int} (h : atLeastOne v = .ok w) (hn : whole w = .ok n) :
    1 ≤ n := by
  obtain ⟨above, habove, h⟩ := ok_bind h
  cases above with
  | false =>
    cases h
    cases hn
    exact Int.le_refl 1
  | true =>
    cases h
    cases v with
    | int m =>
      cases hn
      rw [Json.holds_magnitudes .greater rfl rfl] at habove
      have hlt : 1 < n := by simpa [Sign.ofMagnitudes, Sign.picks, Magnitude.before] using habove
      omega
    | bool b =>
      -- truth is one, and not greater than one
      rw [Json.holds_magnitudes .greater rfl rfl] at habove
      cases b <;> cases habove
    | null | float | str | arr | obj => cases hn

end Shards

theorem Conditions.equip_schedule {c : Conditions} {ledger : Option String} {e : Equipment} {α : Type}
    {xs : List α} {ws : List (List (List α))} (he : c.equip ledger = .ok e)
    (hws : Shards.wavesBy e.workers e.shardSize xs = .ok ws) :
    ∃ workers size : Int, Shards.whole e.workers = .ok workers ∧
      Shards.whole e.shardSize = .ok size ∧ Shards.Schedule workers size xs ws := by
  obtain ⟨workers, size, hworkers, hsize, rfl⟩ := Shards.wavesBy_ok hws
  obtain ⟨hcount, hcount', -⟩ := equip_ok he
  exact ⟨workers, size, hworkers, hsize, .of_waves (Shards.one_le_atLeastOne hcount hworkers)
    (Shards.one_le_atLeastOne hcount' hsize) xs⟩

end Retype

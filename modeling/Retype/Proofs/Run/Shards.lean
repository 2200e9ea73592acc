import Retype.Proofs.Fault
import Retype.Run.Shards

/-!
# What shards hold

Cutting a list into shards and waves loses nothing and moves nothing: the
shards of the waves are the list again. No shard is empty and all but the last
are full. A wave holds a whole number of shards, so the shards of the waves are
those of the list itself, as many to a wave as there are workers.
-/

set_option autoImplicit false

namespace Retype.Shards

variable {α : Type}

/-! ## Pieces -/

theorem pieces_flatten (n : Nat) (xs : List α) : (pieces n xs).flatten = xs := by
  induction xs using pieces.induct n with
  | case1 => rw [pieces, List.flatten_nil]
  | case2 a rest ih => rw [pieces, List.flatten_cons, ih, List.cons_append, List.take_append_drop]

theorem nil_notMem_pieces (n : Nat) (xs : List α) : [] ∉ pieces n xs := by
  induction xs using pieces.induct n with
  | case1 => simp [pieces]
  | case2 a rest ih =>
    rw [pieces, List.mem_cons, not_or]
    exact ⟨(List.cons_ne_nil _ _).symm, ih⟩

theorem length_of_mem_pieces (n : Nat) (xs : List α) : ∀ p ∈ pieces n xs, p.length ≤ n + 1 := by
  induction xs using pieces.induct n with
  | case1 => simp [pieces]
  | case2 a rest ih =>
    intro p hp
    rw [pieces, List.mem_cons] at hp
    rcases hp with rfl | hp
    · rw [List.length_cons, List.length_take]
      omega
    · exact ih p hp

/-- A piece that others come after is full. -/
theorem length_of_mem_dropLast_pieces (n : Nat) (xs : List α) :
    ∀ p ∈ (pieces n xs).dropLast, p.length = n + 1 := by
  induction xs using pieces.induct n with
  | case1 => simp [pieces]
  | case2 a rest ih =>
    rw [pieces]
    by_cases hlast : pieces n (rest.drop n) = []
    · simp [hlast]
    · intro p hp
      rw [List.dropLast_cons_of_ne_nil hlast, List.mem_cons] at hp
      rcases hp with rfl | hp
      · have hrest : rest.drop n ≠ [] := by
          intro hnil
          apply hlast
          rw [hnil, pieces]
        have hlt := List.length_pos_iff.mpr hrest
        rw [List.length_drop] at hlt
        rw [List.length_cons, List.length_take]
        omega
      · exact ih p hp

theorem pieces_of_ne_nil (n : Nat) {xs : List α} (h : xs ≠ []) :
    pieces n xs = xs.take (n + 1) :: pieces n (xs.drop (n + 1)) := by
  cases xs with
  | nil => exact absurd rfl h
  | cons a rest => rw [pieces, List.take_succ_cons, List.drop_succ_cons]

theorem drop_pieces (n k : Nat) (xs : List α) :
    (pieces n xs).drop k = pieces n (xs.drop (k * (n + 1))) := by
  induction k generalizing xs with
  | zero => rw [Nat.zero_mul, List.drop_zero, List.drop_zero]
  | succ k ih =>
    by_cases h : xs = []
    · simp [h, pieces]
    · rw [pieces_of_ne_nil n h, List.drop_succ_cons, ih, List.drop_drop, Nat.succ_mul,
        Nat.add_comm (k * (n + 1))]

theorem take_pieces (n k : Nat) (xs : List α) :
    (pieces n xs).take k = pieces n (xs.take (k * (n + 1))) := by
  induction k generalizing xs with
  | zero => rw [Nat.zero_mul, List.take_zero, List.take_zero, pieces]
  | succ k ih =>
    by_cases h : xs = []
    · simp [h, pieces]
    · have hfirst : xs.take ((k + 1) * (n + 1)) ≠ [] := by
        simp [h]
      rw [pieces_of_ne_nil n h, List.take_succ_cons, ih, pieces_of_ne_nil n hfirst, List.take_take,
        List.drop_take, Nat.succ_mul, Nat.add_sub_cancel, Nat.min_eq_left (Nat.le_add_left _ _)]

/-- Pieces that hold a whole number of smaller ones: cut once more, they are the smaller pieces
of the list, that many at a time. -/
theorem map_pieces {m n k : Nat} (hm : m + 1 = (k + 1) * (n + 1)) (xs : List α) :
    (pieces m xs).map (pieces n) = pieces k (pieces n xs) := by
  induction xs using pieces.induct m with
  | case1 => simp [pieces]
  | case2 a rest ih =>
    have hxs : a :: rest ≠ [] := List.cons_ne_nil a rest
    have hpieces : pieces n (a :: rest) ≠ [] := by
      rw [pieces]
      exact List.cons_ne_nil _ _
    rw [pieces_of_ne_nil m hxs, List.map_cons, List.drop_succ_cons, ih,
      pieces_of_ne_nil k hpieces, take_pieces, drop_pieces, ← hm, List.drop_succ_cons]

/-! ## Shards and waves -/

theorem split_flatten (size : Int) (xs : List α) : (split size xs).flatten = xs :=
  pieces_flatten _ xs

theorem map_split_flatten (size : Int) (xss : List (List α)) :
    (xss.map (split size)).flatten.flatten = xss.flatten := by
  induction xss with
  | nil => rfl
  | cons xs xss ih =>
    rw [List.map_cons, List.flatten_cons, List.flatten_append, split_flatten, ih, List.flatten_cons]

@[simp] theorem waves_nil (workers size : Int) : waves workers size ([] : List α) = [] := by
  simp [waves, split, pieces]

theorem waves_flatten (workers size : Int) (xs : List α) :
    (waves workers size xs).flatten.flatten = xs := by
  rw [waves, map_split_flatten, split_flatten]

theorem nil_notMem_split (size : Int) (xs : List α) : [] ∉ split size xs :=
  nil_notMem_pieces _ xs

example : split (-3) [(1 : Int), 2] = [[1], [2]] := by cbv

variable {workers size : Int} {xs : List α}

theorem wavesBy_ok {v w : Json} {ws : List (List (List α))} (h : wavesBy v w xs = .ok ws) :
    ∃ workers size : Int, whole v = .ok workers ∧ whole w = .ok size ∧ ws = waves workers size xs := by
  obtain ⟨workers, hworkers, h⟩ := ok_bind h
  obtain ⟨size, hsize, h⟩ := ok_bind h
  cases h
  exact ⟨workers, size, hworkers, hsize, rfl⟩

theorem waves_eq_split (hworkers : 1 ≤ workers) (hsize : 1 ≤ size) (xs : List α) :
    waves workers size xs = split workers (split size xs) := by
  have hpos : 0 < workers * size := Int.mul_pos (by omega) (by omega)
  have hwhole : (workers * size).toNat - 1 + 1 = (workers.toNat - 1 + 1) * (size.toNat - 1 + 1) := by
    rw [Nat.sub_add_cancel (by omega), Nat.sub_add_cancel (by omega), Nat.sub_add_cancel (by omega),
      Int.toNat_mul (by omega) (by omega)]
  exact map_pieces hwhole xs

/-- A list cut in order into parts of at most so many elements. No part is empty, and all but the
last are full. -/
structure Cut (size : Int) (xs : List α) (parts : List (List α)) : Prop where
  flatten : parts.flatten = xs
  nonempty : ∀ p ∈ parts, p ≠ []
  bounded : ∀ p ∈ parts, (p.length : Int) ≤ size
  full : ∀ p ∈ parts.dropLast, (p.length : Int) = size

theorem split_cut (hsize : 1 ≤ size) (xs : List α) : Cut size xs (split size xs) where
  flatten := split_flatten size xs
  nonempty := fun _ hs hnil => nil_notMem_split size xs (hnil ▸ hs)
  bounded := by
    intro s hs
    have hle := length_of_mem_pieces (size.toNat - 1) xs s hs
    omega
  full := by
    intro s hs
    have hfull := length_of_mem_dropLast_pieces (size.toNat - 1) xs s hs
    omega

/-- There is one way to cut a list. -/
theorem Cut.eq_split {parts : List (List α)} (h : Cut size xs parts) : parts = split size xs := by
  induction parts generalizing xs with
  | nil => rw [← h.flatten, List.flatten_nil, split, pieces]
  | cons p parts ih =>
    have hne : p ≠ [] := h.nonempty p List.mem_cons_self
    have hpos := List.length_pos_iff.mpr hne
    by_cases hlast : parts = []
    · have hle := h.bounded p List.mem_cons_self
      have hlen : p.length ≤ size.toNat - 1 + 1 := by omega
      rw [← h.flatten, hlast, List.flatten_singleton, split, pieces_of_ne_nil _ hne,
        List.take_of_length_le hlen, List.drop_of_length_le hlen, pieces]
    · have hdrop : (p :: parts).dropLast = p :: parts.dropLast := List.dropLast_cons_of_ne_nil hlast
      have hfull := h.full p (hdrop ▸ List.mem_cons_self)
      have hlen : p.length = size.toNat - 1 + 1 := by omega
      have hcut : Cut size parts.flatten parts := {
        flatten := rfl
        nonempty := fun q hq => h.nonempty q (List.mem_cons_of_mem p hq)
        bounded := fun q hq => h.bounded q (List.mem_cons_of_mem p hq)
        full := fun q hq => h.full q (hdrop ▸ List.mem_cons_of_mem p hq) }
      have hxs : p ++ parts.flatten ≠ [] := List.append_ne_nil_of_left_ne_nil hne _
      rw [← h.flatten, List.flatten_cons, split, pieces_of_ne_nil _ hxs, List.take_left' hlen,
        List.drop_left' hlen]
      exact congrArg (p :: ·) (ih hcut)

end Retype.Shards

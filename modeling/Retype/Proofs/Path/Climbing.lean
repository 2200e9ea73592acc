import Retype.Path

/-!
# Climbing

A path is read segment by segment. A segment that names something is added, a
`..` takes the last one away, and anything else is passed over. What a climb
reaches does not depend on where it began, unless it climbs above that place; and
a normal path that does not escape never climbs above it.
-/

set_option autoImplicit false

namespace Retype.Path

/-! ## Segments -/

theorem segmentsOf_ne_nil (p : List Char) : segmentsOf p ≠ [] := by
  cases p with
  | nil => simp [segmentsOf]
  | cons c p =>
    rw [segmentsOf]
    split
    · simp
    · split <;> simp

theorem segmentsOf_slash (p : List Char) : segmentsOf ('/' :: p) = [] :: segmentsOf p := by
  rw [segmentsOf, if_pos rfl]

theorem segmentsOf_append_slash (p q : List Char) :
    segmentsOf (p ++ '/' :: q) = segmentsOf p ++ segmentsOf q := by
  induction p with
  | nil => rw [List.nil_append, segmentsOf_slash]; rfl
  | cons c p ih =>
    rw [List.cons_append, segmentsOf, segmentsOf, ih]
    split
    · rfl
    · obtain ⟨s, ss, hs⟩ := List.exists_cons_of_ne_nil (segmentsOf_ne_nil p)
      rw [hs]
      rfl

theorem segmentsOf_plain {s : List Char} (h : '/' ∉ s) : segmentsOf s = [s] := by
  induction s with
  | nil => rfl
  | cons c s ih =>
    have hc : c ≠ '/' := fun hc => h (hc ▸ List.mem_cons_self)
    rw [segmentsOf, if_neg hc, ih fun hs => h (List.mem_cons_of_mem c hs)]

theorem slash_notMem_segment {p s : List Char} (h : s ∈ segmentsOf p) : '/' ∉ s := by
  induction p generalizing s with
  | nil =>
    rw [segmentsOf, List.mem_singleton] at h
    simp [h]
  | cons c p ih =>
    rw [segmentsOf] at h
    split at h
    · rcases List.mem_cons.mp h with rfl | h
      · exact List.not_mem_nil
      · exact ih h
    · next hc =>
      obtain ⟨t, ts, ht⟩ := List.exists_cons_of_ne_nil (segmentsOf_ne_nil p)
      rw [ht] at h ih
      rcases List.mem_cons.mp h with rfl | h
      · intro hs
        rcases List.mem_cons.mp hs with hs | hs
        · exact hc hs.symm
        · exact ih List.mem_cons_self hs
      · exact ih (List.mem_cons_of_mem t h)

theorem segmentsOf_joinSegments {ss : List (List Char)} (hne : ss ≠ [])
    (h : ∀ s ∈ ss, '/' ∉ s) : segmentsOf (joinSegments ss) = ss := by
  induction ss with
  | nil => exact absurd rfl hne
  | cons s ss ih =>
    have hs := h s List.mem_cons_self
    cases ss with
    | nil => rw [joinSegments, segmentsOf_plain hs]
    | cons t ts =>
      rw [joinSegments, segmentsOf_append_slash, segmentsOf_plain hs,
        ih (List.cons_ne_nil t ts) fun r hr => h r (List.mem_cons_of_mem s hr)]
      · rfl
      · exact List.cons_ne_nil t ts

theorem joinSegments_cons {ss : List (List Char)} (hne : ss ≠ []) (s : List Char) :
    joinSegments (s :: ss) = s ++ '/' :: joinSegments ss := by
  rw [joinSegments]
  exact hne

theorem joinSegments_append {ss ts : List (List Char)} (hs : ss ≠ []) (ht : ts ≠ []) :
    joinSegments (ss ++ ts) = joinSegments ss ++ '/' :: joinSegments ts := by
  induction ss with
  | nil => exact absurd rfl hs
  | cons s ss ih =>
    by_cases hss : ss = []
    · rw [hss, List.singleton_append, joinSegments_cons ht]
      rfl
    · rw [List.cons_append, joinSegments_cons (by simp [hss]), ih hss, joinSegments_cons hss,
        List.append_assoc, List.cons_append]

theorem joinSegments_snoc {ss : List (List Char)} (hne : ss ≠ []) (s : List Char) :
    joinSegments (ss ++ [s]) = joinSegments ss ++ '/' :: s :=
  joinSegments_append hne (List.cons_ne_nil s [])

theorem joinSegments_segmentsOf (p : List Char) : joinSegments (segmentsOf p) = p := by
  induction p with
  | nil => rfl
  | cons c p ih =>
    rw [segmentsOf]
    split
    · next hc => rw [joinSegments_cons (segmentsOf_ne_nil p), ih, List.nil_append, hc]
    · obtain ⟨s, ss, hs⟩ := List.exists_cons_of_ne_nil (segmentsOf_ne_nil p)
      rw [hs] at ih ⊢
      cases ss with
      | nil => exact congrArg (c :: ·) ih
      | cons t ts =>
        rw [joinSegments_cons (List.cons_ne_nil t ts)] at ih ⊢
        rw [List.cons_append, ih]

/-! ## Steps of a climb -/

def dots : List Char := ['.', '.']

/-- A segment that names a file or a folder. -/
def Names (s : List Char) : Prop := s ≠ [] ∧ s ≠ ['.'] ∧ s ≠ dots

instance (s : List Char) : Decidable (Names s) := inferInstanceAs (Decidable (_ ∧ _))

variable {absolute : Bool} {done : List (List Char)} {s : List Char}

theorem climb_pass (h : s = [] ∨ s = ['.']) : climb absolute done s = done := by
  unfold climb
  rw [if_pos h]

theorem climb_names (h : Names s) : climb absolute done s = s :: done := by
  obtain ⟨h1, h2, h3⟩ := h
  have hpass : ¬ (s = [] ∨ s = ['.']) := by simp [h1, h2]
  unfold climb
  rw [if_neg hpass]
  exact if_pos h3

theorem climb_dots_cons {d : List Char} (h : d ≠ dots) : climb absolute (d :: done) dots = done := by
  rw [climb, if_neg (by decide), if_neg (by decide)]
  exact if_neg h

theorem segment_cases (s : List Char) : (s = [] ∨ s = ['.']) ∨ s = dots ∨ Names s := by
  by_cases h1 : s = []
  · exact Or.inl (Or.inl h1)
  by_cases h2 : s = ['.']
  · exact Or.inl (Or.inr h2)
  by_cases h3 : s = dots
  · exact Or.inr (Or.inl h3)
  · exact Or.inr (Or.inr ⟨h1, h2, h3⟩)

/-- Once a climb is above its beginning it stays there. -/
theorem dots_mem_climb (h : dots ∈ done) : dots ∈ climb absolute done s := by
  rcases segment_cases s with hs | rfl | hs
  · rwa [climb_pass hs]
  · cases done with
    | nil => cases h
    | cons d done =>
      by_cases hd : d = dots
      · subst hd
        rw [climb, if_neg (by decide), if_neg (by decide)]
        exact List.mem_cons_self
      · rw [climb_dots_cons hd]
        exact (List.mem_cons.mp h).resolve_left fun hdd => hd hdd.symm
  · rw [climb_names hs]
    exact List.mem_cons_of_mem s h

/-- What lies below a climb that stays above its beginning does not matter to it. -/
theorem climb_over {absolute : Bool} {done below : List (List Char)} {s : List Char}
    (hd : dots ∉ climb false done s) :
    climb absolute (done ++ below) s = climb false done s ++ below := by
  rcases segment_cases s with hs | rfl | hs
  · rw [climb_pass hs, climb_pass hs]
  · cases done with
    | nil => exact absurd List.mem_cons_self hd
    | cons d done =>
      by_cases hdd : d = dots
      · exact absurd (dots_mem_climb (hdd ▸ List.mem_cons_self)) hd
      · rw [List.cons_append, climb_dots_cons hdd, climb_dots_cons hdd]
  · rw [climb_names hs, climb_names hs, List.cons_append]

/-! ## Climbs -/

/-- The segments that are reached from a beginning, last first. -/
def climbFrom (absolute : Bool) (done ss : List (List Char)) : List (List Char) :=
  ss.foldl (climb absolute) done

@[simp] theorem climbFrom_nil (absolute : Bool) (done : List (List Char)) :
    climbFrom absolute done [] = done := rfl

@[simp] theorem climbFrom_cons (absolute : Bool) (done : List (List Char)) (s : List Char)
    (ss : List (List Char)) :
    climbFrom absolute done (s :: ss) = climbFrom absolute (climb absolute done s) ss := rfl

theorem climbFrom_append (absolute : Bool) (done ss ts : List (List Char)) :
    climbFrom absolute done (ss ++ ts) = climbFrom absolute (climbFrom absolute done ss) ts :=
  List.foldl_append

theorem climbAll_eq (absolute : Bool) (ss : List (List Char)) :
    climbAll absolute ss = (climbFrom absolute [] ss).reverse := rfl

theorem dots_mem_climbFrom {done : List (List Char)} (ss : List (List Char)) (h : dots ∈ done) :
    dots ∈ climbFrom absolute done ss := by
  induction ss generalizing done with
  | nil => exact h
  | cons s ss ih => exact ih (dots_mem_climb h)

theorem climbFrom_over {done below ss : List (List Char)}
    (hd : dots ∉ climbFrom false done ss) :
    climbFrom absolute (done ++ below) ss = climbFrom false done ss ++ below := by
  induction ss generalizing done with
  | nil => rfl
  | cons s ss ih =>
    have hs : dots ∉ climb false done s := fun hs => hd (dots_mem_climbFrom ss hs)
    rw [climbFrom_cons, climbFrom_cons, climb_over hs, ih hd]

theorem climbFrom_inside {below ss : List (List Char)} (hd : dots ∉ climbFrom false [] ss) :
    climbFrom absolute below ss = climbFrom false [] ss ++ below := by
  have h : climbFrom absolute ([] ++ below) ss = climbFrom false [] ss ++ below := climbFrom_over hd
  rwa [List.nil_append] at h

theorem climbFrom_names {ss : List (List Char)} (h : ∀ s ∈ ss, Names s) (done : List (List Char)) :
    climbFrom absolute done ss = ss.reverse ++ done := by
  induction ss generalizing done with
  | nil => rfl
  | cons s ss ih =>
    rw [climbFrom_cons, climb_names (h s List.mem_cons_self),
      ih fun t ht => h t (List.mem_cons_of_mem s ht)]
    simp

theorem climbFrom_dots {up : List (List Char)} (h : dots ∉ up) (done : List (List Char)) :
    climbFrom absolute (up ++ done) (up.map fun _ => dots) = done := by
  induction up with
  | nil => rfl
  | cons u up ih =>
    have hu : u ≠ dots := fun hu => h (hu ▸ List.mem_cons_self)
    rw [List.map_cons, climbFrom_cons, List.cons_append, climb_dots_cons hu]
    exact ih fun hm => h (List.mem_cons_of_mem u hm)

/-! ## What a climb reaches -/

/-- Segments that were reached: names above, and below them what climbed out. -/
def Reached (done : List (List Char)) : Prop :=
  ∃ names k, done = names ++ List.replicate k dots ∧ ∀ s ∈ names, Names s

theorem climb_reached (h : Reached done) : Reached (climb absolute done s) := by
  obtain ⟨names, k, rfl, hn⟩ := h
  rcases segment_cases s with hs | rfl | hs
  · rw [climb_pass hs]
    exact ⟨names, k, rfl, hn⟩
  · cases names with
    | cons d names =>
      rw [List.cons_append, climb_dots_cons (hn d List.mem_cons_self).2.2]
      exact ⟨names, k, rfl, fun t ht => hn t (List.mem_cons_of_mem d ht)⟩
    | nil =>
      cases k with
      | zero =>
        cases absolute
        · exact ⟨[], 1, rfl, hn⟩
        · exact ⟨[], 0, rfl, hn⟩
      | succ k => exact ⟨[], k + 2, rfl, hn⟩
  · rw [climb_names hs]
    refine ⟨s :: names, k, rfl, fun t ht => ?_⟩
    rcases List.mem_cons.mp ht with rfl | ht
    · exact hs
    · exact hn t ht

theorem climbFrom_reached {done : List (List Char)} (ss : List (List Char)) (h : Reached done) :
    Reached (climbFrom absolute done ss) := by
  induction ss generalizing done with
  | nil => exact h
  | cons s ss ih => exact ih (climb_reached h)

theorem nil_reached : Reached [] := ⟨[], 0, rfl, fun _ h => by cases h⟩

theorem Reached.names {done : List (List Char)} (h : Reached done) (hd : dots ∉ done) :
    ∀ s ∈ done, Names s := by
  obtain ⟨names, k, rfl, hn⟩ := h
  cases k with
  | zero => simpa using hn
  | succ k => exact absurd (by simp [List.replicate_succ]) hd

theorem mem_climb {t : List Char} (h : t ∈ climb absolute done s) : t ∈ done ∨ t = s := by
  rcases segment_cases s with hs | rfl | hs
  · rw [climb_pass hs] at h
    exact Or.inl h
  · cases done with
    | nil =>
      cases absolute
      · exact Or.inr (List.mem_singleton.mp h)
      · cases h
    | cons d done =>
      by_cases hd : d = dots
      · subst hd
        have : climb absolute (dots :: done) dots = dots :: dots :: done := rfl
        rw [this] at h
        rcases List.mem_cons.mp h with h | h
        · exact Or.inr h
        · exact Or.inl h
      · rw [climb_dots_cons hd] at h
        exact Or.inl (List.mem_cons_of_mem d h)
  · rw [climb_names hs] at h
    exact (List.mem_cons.mp h).symm

theorem mem_climbFrom {done ss : List (List Char)} {t : List Char}
    (h : t ∈ climbFrom absolute done ss) : t ∈ done ∨ t ∈ ss := by
  induction ss generalizing done with
  | nil => exact Or.inl h
  | cons s ss ih =>
    rcases ih h with h | h
    · rcases mem_climb h with h | h
      · exact Or.inl h
      · exact Or.inr (h ▸ List.mem_cons_self)
    · exact Or.inr (List.mem_cons_of_mem s h)

end Retype.Path

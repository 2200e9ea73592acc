import Mathlib.Data.List.Infix
import Retype.Text.Affix

/-!
# What follows a beginning

A text begins with another one exactly if it is that one and what follows it. A part of a
text that does not have the character at some place lies on one side of it.
-/

set_option autoImplicit false

namespace Retype.Affix

theorem afterOf_eq_some {lead s rest : List Char} : afterOf lead s = some rest ↔ s = lead ++ rest := by
  induction lead generalizing s with
  | nil =>
    rw [afterOf, List.nil_append]
    exact Option.some_inj
  | cons a lead ih =>
    cases s with
    | nil => simp [afterOf]
    | cons c s =>
      rw [afterOf, List.cons_append, List.cons.injEq]
      split
      · next hac => simp [hac, ih]
      · next hac => simp [Ne.symm hac]

theorem after?_eq_some {lead s rest : String} : after? lead s = some rest ↔ s = lead ++ rest := by
  rw [after?, Option.map_eq_some_iff, ← String.toList_inj, String.toList_append]
  constructor
  · rintro ⟨cs, hcs, rfl⟩
    rw [String.toList_ofList]
    exact afterOf_eq_some.mp hcs
  · exact fun h => ⟨rest.toList, afterOf_eq_some.mpr h, String.ofList_toList⟩

theorem begins_of_after? {lead s rest : String} (h : after? lead s = some rest) : begins lead s = true := by
  obtain ⟨cs, hcs, -⟩ := Option.map_eq_some_iff.mp h
  rw [begins, hcs]
  rfl

theorem occursIn_singleton {c : Char} {cs : List Char} : occursIn [c] cs = true ↔ c ∈ cs := by
  induction cs with
  | nil => simp [occursIn]
  | cons d cs ih =>
    rw [occursIn, Bool.or_eq_true, ih, List.mem_cons, afterOf]
    by_cases h : c = d
    · simp [h, afterOf]
    · simp [h]

theorem isSome_afterOf {lead s : List Char} : (afterOf lead s).isSome = true ↔ lead <+: s := by
  rw [Option.isSome_iff_exists]
  simp only [afterOf_eq_some, eq_comm (a := s)]
  rfl

theorem occursIn_iff {part s : List Char} : occursIn part s = true ↔ part <:+: s := by
  induction s with
  | nil => simp [occursIn]
  | cons c s ih => rw [occursIn, Bool.or_eq_true, isSome_afterOf, ih, List.infix_cons_iff]

theorem infix_cut {part xs ys : List Char} {c : Char} (hc : c ∉ part) :
    part <:+: xs ++ c :: ys ↔ part <:+: xs ∨ part <:+: ys := by
  constructor
  · rintro ⟨s, t, h⟩
    rcases List.append_eq_append_iff.mp h with ⟨as, hxs, -⟩ | ⟨bs, hpart, hys⟩
    · exact Or.inl ⟨s, as, hxs.symm⟩
    cases bs with
    | nil => exact Or.inl ⟨s, [], by simpa using hpart⟩
    | cons b bs =>
      obtain ⟨rfl, hrest⟩ := List.cons.inj hys
      rcases List.append_eq_append_iff.mp hpart with ⟨as, -, has⟩ | ⟨ds, -, hds⟩
      · exact absurd (has ▸ by simp) hc
      · cases ds with
        | nil =>
          rw [List.nil_append] at hds
          exact absurd (hds ▸ List.mem_cons_self) hc
        | cons d ds =>
          obtain ⟨-, rfl⟩ := List.cons.inj hds
          exact Or.inr ⟨ds, t, hrest.symm⟩
  · rintro (h | h)
    · exact h.trans (List.prefix_append _ _).isInfix
    · exact h.trans ((List.suffix_cons c ys).trans (List.suffix_append xs _)).isInfix

theorem occursIn_cut {part xs ys : List Char} {c : Char} (hc : c ∉ part) :
    occursIn part (xs ++ c :: ys) = (occursIn part xs || occursIn part ys) := by
  rw [Bool.eq_iff_iff, Bool.or_eq_true]
  simp only [occursIn_iff, infix_cut hc]

theorem occursIn_tail {part ys : List Char} {c : Char} (hne : part ≠ []) (hc : c ∉ part) :
    occursIn part (c :: ys) = occursIn part ys := by
  have hnil : occursIn part [] = false := by simpa [occursIn] using hne
  rw [← List.nil_append (c :: ys), occursIn_cut hc, hnil, Bool.false_or]

end Retype.Affix

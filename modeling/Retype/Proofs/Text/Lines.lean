import Mathlib.Data.List.DropRight
import Retype.Proofs.Text.Utf8
import Retype.Text.Blank
import Retype.Tree.Source

/-!
# Lines that begin with white space

The octets from the last line feed on are the line begun so far. White space is known by
its octets: they are the text of some blanks. Two stretches of white space make one, and
what is cut off one, or stands on its last line, is white space again.
-/

set_option autoImplicit false

namespace Retype

namespace Blank

/-- White space between statements: the blanks, and marks without width. -/
def isSpace (c : Char) : Bool := isBlank c || [0x200B, 0x2060, 0xFEFF].contains c.toNat

def Spaces (xs : List UInt8) : Prop := ∃ s : String, (∀ c ∈ s.toList, isSpace c = true) ∧ xs = Utf8.encode s

theorem spaces_iff {xs : List UInt8} : Spaces xs ↔
    (Utf8.decode xs).toList.all isSpace = true ∧ Utf8.encode (Utf8.decode xs) = xs := by
  rw [List.all_eq_true]
  constructor
  · rintro ⟨s, hs, rfl⟩
    rw [Utf8.decode_encode]
    exact ⟨hs, rfl⟩
  · exact fun ⟨hs, hxs⟩ => ⟨_, hs, hxs.symm⟩

instance (xs : List UInt8) : Decidable (Spaces xs) := decidable_of_iff _ spaces_iff.symm

variable {xs ys : List UInt8}

theorem Spaces.append (hx : Spaces xs) (hy : Spaces ys) : Spaces (xs ++ ys) := by
  obtain ⟨s, hs, rfl⟩ := hx
  obtain ⟨t, ht, rfl⟩ := hy
  refine ⟨s ++ t, ?_, (Utf8.encode_append s t).symm⟩
  intro c hc
  rw [String.toList_append, List.mem_append] at hc
  exact hc.elim (hs c) (ht c)

/-- Cut where a character begins, white space falls into white space. -/
theorem Spaces.cut (h : Spaces (xs ++ ys)) (hb : ∀ b ∈ ys.head?, b.IsUTF8FirstByte) :
    Spaces xs ∧ Spaces ys := by
  obtain ⟨s, hs, hxy⟩ := h
  have hbetween : Utf8.Between (Utf8.encode s) xs.length := by
    rw [← hxy, Utf8.Between, List.getElem?_append_right (Nat.le_refl _), Nat.sub_self,
      ← List.head?_eq_getElem?]
    exact hb
  obtain ⟨⟨f, hf⟩, ⟨b, hb⟩⟩ := (Utf8.encode_valid s).cut hbetween
  rw [← hxy, List.take_left] at hf
  rw [← hxy, List.drop_left] at hb
  have hsplit : s = f ++ b := by
    rw [← Utf8.decode_encode s, ← hxy, hf, hb, ← Utf8.encode_append, Utf8.decode_encode]
  subst hsplit
  exact ⟨⟨f, fun c hc => hs c (by simp [hc]), hf⟩, ⟨b, fun c hc => hs c (by simp [hc]), hb⟩⟩

theorem Spaces.front (h : Spaces (xs ++ ys)) (hy : Spaces ys) : Spaces xs := by
  refine (h.cut fun b hb => ?_).1
  obtain ⟨t, -, rfl⟩ := hy
  have hfirst := (Utf8.encode_valid t).between_zero
  rw [Utf8.Between, ← List.head?_eq_getElem?] at hfirst
  exact hfirst b hb

end Blank

/-! ## The last line of octets -/

def lastLine (xs : List UInt8) : List UInt8 := xs.rtakeWhile (· ≠ 10)

variable {xs ys : List UInt8}

theorem lastLine_append (h : 10 ∉ ys) : lastLine (xs ++ ys) = lastLine xs ++ ys := by
  induction ys using List.reverseRecOn with
  | nil => rw [List.append_nil, List.append_nil]
  | append_singleton ys y ih =>
    rw [List.mem_append, List.mem_singleton, not_or] at h
    rw [← List.append_assoc, ← List.append_assoc, ← ih h.1, lastLine,
      List.rtakeWhile_concat_pos _ _ _ (by simpa using Ne.symm h.2), lastLine]

theorem lastLine_append_feed (h : 10 ∈ ys) : lastLine (xs ++ ys) = lastLine ys := by
  induction ys using List.reverseRecOn with
  | nil => cases h
  | append_singleton ys y ih =>
    rw [← List.append_assoc, lastLine, lastLine, List.rtakeWhile_concat, List.rtakeWhile_concat]
    by_cases hy : y = 10
    · simp [hy]
    · have hmem : 10 ∈ ys := by simpa [Ne.symm hy] using h
      rw [if_pos (by simpa using hy), if_pos (by simpa using hy)]
      exact congrArg (· ++ [y]) (ih hmem)

theorem Blank.Spaces.tail (h : Spaces (10 :: xs)) : Spaces xs := by
  obtain ⟨hs, hxs⟩ := spaces_iff.mp h
  rw [Utf8.decode_cons xs (by decide)] at hs hxs
  rw [Utf8.encode_append, show Utf8.encode (String.ofList [Char.ofNat (10 : UInt8).toNat]) = [10] by decide,
    List.singleton_append] at hxs
  rw [String.toList_append, List.all_append, Bool.and_eq_true] at hs
  exact spaces_iff.mpr ⟨hs.2, (List.cons.inj hxs).2⟩

/-- The last line of white space is white space. -/
theorem Blank.Spaces.lastLine (h : Spaces xs) : Spaces (lastLine xs) := by
  by_cases hfeed : 10 ∈ xs
  · obtain ⟨back, front, hsplit, hback⟩ := List.eq_append_cons_of_mem (List.mem_reverse.mpr hfeed)
    have hxs : xs = front.reverse ++ 10 :: back.reverse := by
      rw [← List.reverse_reverse xs, hsplit, List.reverse_append, List.reverse_cons,
        List.append_assoc, List.singleton_append]
    have hlast : Retype.lastLine xs = back.reverse := by
      have hone : Retype.lastLine [10] = [] := by decide
      rw [hxs, lastLine_append_feed List.mem_cons_self, ← List.singleton_append,
        lastLine_append (by rwa [List.mem_reverse]), hone, List.nil_append]
    rw [hlast]
    rw [hxs] at h
    have hfirst : ∀ b ∈ (10 :: back.reverse).head?, b.IsUTF8FirstByte := by
      intro b hb
      cases hb
      decide
    exact (h.cut hfirst).2.tail
  · have hall : Retype.lastLine ([] ++ xs) = Retype.lastLine [] ++ xs := lastLine_append hfeed
    rw [List.nil_append, show Retype.lastLine [] = [] by rfl, List.nil_append] at hall
    rwa [hall]

end Retype

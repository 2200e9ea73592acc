import Retype.Text.Alphabet

/-!
# ASCII letters

Among the ASCII characters the tables know the letters and the ten digits, and no others.
-/

set_option autoImplicit false

namespace Retype.Alphabet

theorem beyond_ascii : (letterBlocks.toList.drop 3).all (fun b => 0x80 ≤ b.1) = true := by
  decide +kernel

theorem isLetterOrDigit_ascii {c : Char} (h : c.toNat < 0x80) :
    isLetterOrDigit c = (isAsciiLetter c || ('0' ≤ c && c ≤ '9')) := by
  have hrest : ((letterBlocks.toList.drop 3).any fun b => b.1 ≤ c.toNat && c.toNat ≤ b.2) = false := by
    rw [List.any_eq_false]
    intro b hb
    have hlow := of_decide_eq_true (List.all_eq_true.mp beyond_ascii b hb)
    simp only [Bool.and_eq_true, decide_eq_true_eq]
    omega
  have hsplit : letterBlocks.toList =
      [(0x30, 0x39), (0x41, 0x5A), (0x61, 0x7A)] ++ letterBlocks.toList.drop 3 := rfl
  rw [isLetterOrDigit, ← Array.any_toList, hsplit, List.any_append, hrest, Bool.or_false, Bool.eq_iff_iff]
  simp only [List.any_cons, List.any_nil, Bool.or_false, isAsciiLetter, Bool.or_eq_true, Bool.and_eq_true,
    decide_eq_true_eq, Char.le_def, UInt32.le_iff_toNat_le]
  change _ ↔ ((0x61 ≤ c.toNat ∧ c.toNat ≤ 0x7A) ∨ (0x41 ≤ c.toNat ∧ c.toNat ≤ 0x5A)) ∨
    (0x30 ≤ c.toNat ∧ c.toNat ≤ 0x39)
  omega

theorem isWord_ascii {c : Char} (h : c.toNat < 0x80) :
    isWord c = (c = '_' || (isAsciiLetter c || ('0' ≤ c && c ≤ '9'))) := by
  rw [isWord, isLetterOrDigit_ascii h]

theorem isWord_of_isAsciiLetter {c : Char} (h : isAsciiLetter c = true) : isWord c = true := by
  have hascii : c.toNat < 0x80 := by
    simp only [isAsciiLetter, Bool.or_eq_true, Bool.and_eq_true, decide_eq_true_eq, Char.le_def,
      UInt32.le_iff_toNat_le] at h
    change (0x61 ≤ c.toNat ∧ c.toNat ≤ 0x7A) ∨ (0x41 ≤ c.toNat ∧ c.toNat ≤ 0x5A) at h
    omega
  rw [isWord_ascii hascii, h, Bool.true_or, Bool.or_true]

theorem isLetterOrDigit_lt {c : Char} (h : isLetterOrDigit c = true) : c.toNat < 0x10D800 := by
  have hblocks : letterBlocks.toList.all (fun b => b.2 < 0x10D800) = true := by decide +kernel
  rw [isLetterOrDigit, ← Array.any_toList, List.any_eq_true] at h
  obtain ⟨b, hb, hc⟩ := h
  have hhigh := of_decide_eq_true (List.all_eq_true.mp hblocks b hb)
  have hle := of_decide_eq_true (Bool.and_eq_true_iff.mp hc).2
  omega

end Retype.Alphabet

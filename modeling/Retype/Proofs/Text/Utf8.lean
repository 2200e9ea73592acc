import Mathlib.Data.Char
import Retype.Text.Utf8

/-!
# Reading what was written

Reading the octets of a text gives the text back, whatever follows them, and an
octet below `80` always stands for itself: before it everything that is
unfinished is given up. So a text may be read in pieces, cut before such octets, and
what is cut between characters is made of texts.
-/

set_option autoImplicit false

namespace Retype.Utf8

/-! ## One character -/

theorem run_cons (pending : Option Unfinished) (b : UInt8) (bs : List UInt8) :
    run pending (b :: bs) = (step pending b.toNat).1 ++ run (step pending b.toNat).2 bs := rfl

theorem run_last {low high bits : Nat} {b : UInt8} (bs : List UInt8)
    (h : low ≤ b.toNat ∧ b.toNat ≤ high) :
    run (some ⟨1, low, high, bits⟩) (b :: bs) =
      Char.ofNat (bits * 64 + (b.toNat - 0x80)) :: run none bs := by
  rw [run_cons, step, if_pos h, if_pos (Nat.le_refl 1)]
  rfl

theorem run_more {due low high bits : Nat} {b : UInt8} (bs : List UInt8)
    (h : low ≤ b.toNat ∧ b.toNat ≤ high) :
    run (some ⟨due + 2, low, high, bits⟩) (b :: bs) =
      run (some ⟨due + 1, 0x80, 0xBF, bits * 64 + (b.toNat - 0x80)⟩) bs := by
  rw [run_cons, step, if_pos h, if_neg (by simp)]
  rfl

theorem run_opens {u : Unfinished} {b : UInt8} (bs : List UInt8) (h : lead b.toNat = .opens u) :
    run none (b :: bs) = run (some u) bs := by
  rw [run_cons, step, fresh, h]
  rfl

theorem toNat_ofNat {n : Nat} (h : n < 256) : (UInt8.ofNat n).toNat = n := by
  rw [UInt8.toNat_ofNat']
  omega

theorem char_range (c : Char) : c.val.toNat < 0xD800 ∨ (0xDFFF < c.val.toNat ∧ c.val.toNat < 0x110000) :=
  c.valid

theorem ofNat_val (c : Char) : Char.ofNat c.val.toNat = c := Char.ofNat_toNat c

theorem lead_two {v : Nat} (h1 : 0x80 ≤ v) (h2 : v ≤ 0x7FF) :
    lead (v / 64 % 0x20 + 0xC0) = .opens ⟨1, 0x80, 0xBF, v / 64⟩ := by
  have hb : v / 64 % 0x20 + 0xC0 - 0xC0 = v / 64 := by omega
  rw [lead, if_neg (by omega), if_neg (by omega), if_pos (by omega), hb]

/-- The lead octet of three leaves room for the octet that follows it. -/
theorem lead_three {v : Nat} (h1 : 0x800 ≤ v) (h2 : v ≤ 0xFFFF) (hv : v < 0xD800 ∨ 0xDFFF < v) :
    ∃ low high, lead (v / 4096 % 0x10 + 0xE0) = .opens ⟨2, low, high, v / 4096⟩ ∧
      low ≤ v / 64 % 0x40 + 0x80 ∧ v / 64 % 0x40 + 0x80 ≤ high := by
  have hb : v / 4096 % 0x10 + 0xE0 - 0xE0 = v / 4096 := by omega
  rw [lead, if_neg (by omega), if_neg (by omega), if_neg (by omega)]
  by_cases h0 : v / 4096 = 0
  · refine ⟨0xA0, 0xBF, ?_, by omega, by omega⟩
    rw [if_pos (by omega), h0]
  · rw [if_neg (by omega)]
    by_cases hd : v / 4096 = 13
    · refine ⟨0x80, 0x9F, ?_, by omega, by omega⟩
      rw [if_pos (by omega), hd]
    · refine ⟨0x80, 0xBF, ?_, by omega, by omega⟩
      rw [if_neg (by omega), if_pos (by omega), hb]

/-- The lead octet of four leaves room for the octet that follows it. -/
theorem lead_four {v : Nat} (h1 : 0x10000 ≤ v) (h2 : v < 0x110000) :
    ∃ low high, lead (v / 262144 % 0x08 + 0xF0) = .opens ⟨3, low, high, v / 262144⟩ ∧
      low ≤ v / 4096 % 0x40 + 0x80 ∧ v / 4096 % 0x40 + 0x80 ≤ high := by
  have hb : v / 262144 % 0x08 + 0xF0 - 0xF0 = v / 262144 := by omega
  rw [lead, if_neg (by omega), if_neg (by omega), if_neg (by omega), if_neg (by omega),
    if_neg (by omega), if_neg (by omega)]
  by_cases h0 : v / 262144 = 0
  · refine ⟨0x90, 0xBF, ?_, by omega, by omega⟩
    rw [if_pos (by omega), h0]
  · rw [if_neg (by omega)]
    by_cases h4 : v / 262144 = 4
    · refine ⟨0x80, 0x8F, ?_, by omega, by omega⟩
      rw [if_neg (by omega), if_pos (by omega), h4]
    · refine ⟨0x80, 0xBF, ?_, by omega, by omega⟩
      rw [if_pos (by omega), hb]

theorem run_char (c : Char) (bs : List UInt8) :
    run none (String.utf8EncodeChar c ++ bs) = c :: run none bs := by
  have hv := char_range c
  have hc := ofNat_val c
  generalize hvn : c.val.toNat = v at hv hc
  unfold String.utf8EncodeChar
  simp only [hvn]
  split
  · have hb : (UInt8.ofNat v).toNat = v := toNat_ofNat (by omega)
    rw [List.singleton_append, run_cons, step, fresh, hb, lead, if_pos (by omega), hc]
    rfl
  · have h0 : (UInt8.ofNat (v % 0x40 + 0x80)).toNat = v % 0x40 + 0x80 := toNat_ofNat (by omega)
    have h6 : (UInt8.ofNat (v / 64 % 0x40 + 0x80)).toNat = v / 64 % 0x40 + 0x80 :=
      toNat_ofNat (by omega)
    split
    · have hlead : lead (UInt8.ofNat (v / 64 % 0x20 + 0xC0)).toNat = .opens ⟨1, 0x80, 0xBF, v / 64⟩ := by
        rw [toNat_ofNat (by omega), lead_two (by omega) (by omega)]
      have hbits : v / 64 * 64 + (v % 0x40 + 0x80 - 0x80) = v := by omega
      rw [List.cons_append, List.singleton_append, run_opens _ hlead, run_last _ (by omega), h0,
        hbits, hc]
    · split
      · obtain ⟨low, high, hlead, hlow, hhigh⟩ := lead_three (v := v) (by omega) (by omega) (by omega)
        rw [← toNat_ofNat (n := v / 4096 % 0x10 + 0xE0) (by omega)] at hlead
        have hbits : (v / 4096 * 64 + (v / 64 % 0x40 + 0x80 - 0x80)) * 64 +
            (v % 0x40 + 0x80 - 0x80) = v := by omega
        rw [List.cons_append, List.cons_append, List.singleton_append, run_opens _ hlead,
          run_more _ (by omega), run_last _ (by omega), h0, h6, hbits, hc]
      · have h12 : (UInt8.ofNat (v / 4096 % 0x40 + 0x80)).toNat = v / 4096 % 0x40 + 0x80 :=
          toNat_ofNat (by omega)
        obtain ⟨low, high, hlead, hlow, hhigh⟩ := lead_four (v := v) (by omega) (by omega)
        rw [← toNat_ofNat (n := v / 262144 % 0x08 + 0xF0) (by omega)] at hlead
        have hbits : ((v / 262144 * 64 + (v / 4096 % 0x40 + 0x80 - 0x80)) * 64 +
            (v / 64 % 0x40 + 0x80 - 0x80)) * 64 + (v % 0x40 + 0x80 - 0x80) = v := by omega
        rw [List.cons_append, List.cons_append, List.cons_append, List.singleton_append,
          run_opens _ hlead, run_more _ (by omega), run_more _ (by omega), run_last _ (by omega),
          h0, h6, h12, hbits, hc]

/-! ## Texts -/

theorem encode_eq (s : String) : encode s = s.toList.flatMap String.utf8EncodeChar := by
  rw [encode, String.toUTF8_eq_toByteArray, ← String.utf8Encode_toList, List.utf8Encode,
    List.data_toByteArray]

@[simp] theorem encode_append (s t : String) : encode (s ++ t) = encode s ++ encode t := by
  simp [encode_eq]

theorem run_encode (s : String) (bs : List UInt8) :
    run none (encode s ++ bs) = s.toList ++ run none bs := by
  rw [encode_eq]
  induction s.toList with
  | nil => rfl
  | cons c cs ih => rw [List.flatMap_cons, List.append_assoc, run_char, ih, List.cons_append]

theorem decode_encode_append (s : String) (bs : List UInt8) :
    decode (encode s ++ bs) = s ++ decode bs := by
  rw [decode, run_encode, String.ofList_append, String.ofList_toList]
  rfl

/-- Reading what was written gives the text back. -/
@[simp] theorem decode_encode (s : String) : decode (encode s) = s := by
  have h := decode_encode_append s []
  rwa [List.append_nil, show decode [] = "" from rfl, String.append_empty] at h

/-! ## Cutting before a plain octet -/

/-- No octet below `80` goes on with what is unfinished. -/
def Sound (pending : Option Unfinished) : Prop := ∀ u ∈ pending, 0x80 ≤ u.low

def Lead.Sound : Lead → Prop
  | .opens u => 0x80 ≤ u.low
  | _ => True

theorem Lead.sound_ite {c : Prop} [Decidable c] {l l' : Lead} (h : l.Sound) (h' : l'.Sound) :
    (if c then l else l').Sound := by
  split
  · exact h
  · exact h'

theorem lead_sound (b : Nat) : (lead b).Sound := by
  unfold lead
  repeat' first
    | exact trivial
    | exact Nat.le_of_ble_eq_true rfl
    | apply Lead.sound_ite

theorem fresh_sound (b : Nat) : Sound (fresh b).2 := by
  intro u hu
  unfold fresh at hu
  split at hu
  · cases hu
  · next v hv =>
    cases hu
    have hlead := lead_sound b
    rwa [hv] at hlead
  · cases hu

theorem step_sound {pending : Option Unfinished} (b : Nat) (h : Sound pending) :
    Sound (step pending b).2 := by
  cases pending with
  | none => exact fresh_sound b
  | some u =>
    rw [step]
    split
    · dsimp only
      split
      · intro w hw
        cases hw
      · intro w hw
        cases hw
        exact Nat.le_refl _
    · exact fresh_sound b

theorem step_plain {pending : Option Unfinished} {b : Nat} (hb : b < 0x80) (h : Sound pending) :
    step pending b = ((if pending.isSome then [replacement] else []) ++ [Char.ofNat b], none) := by
  have hfresh : fresh b = ([Char.ofNat b], none) := by
    rw [fresh, lead, if_pos hb]
  cases pending with
  | none => exact hfresh
  | some u =>
    have hlow := h u rfl
    rw [step, if_neg (by omega), hfresh]
    rfl

theorem run_cut {pending : Option Unfinished} (h : Sound pending) (xs ys : List UInt8) {b : UInt8}
    (hb : b.toNat < 0x80) :
    run pending (xs ++ b :: ys) = run pending xs ++ Char.ofNat b.toNat :: run none ys := by
  induction xs generalizing pending with
  | nil =>
    rw [List.nil_append, run_cons, step_plain hb h, run]
    simp
  | cons x xs ih =>
    rw [List.cons_append, run_cons, run_cons, ih (step_sound x.toNat h), List.append_assoc]

theorem none_sound : Sound none := fun u hu => by cases hu

theorem decode_cons (ys : List UInt8) {b : UInt8} (hb : b.toNat < 0x80) :
    decode (b :: ys) = String.ofList [Char.ofNat b.toNat] ++ decode ys := by
  have h := run_cut none_sound [] ys hb
  rw [List.nil_append] at h
  rw [decode, h, decode, ← String.ofList_append]
  rfl

theorem decode_cut (xs ys : List UInt8) {b : UInt8} (hb : b.toNat < 0x80) :
    decode (xs ++ b :: ys) = decode xs ++ decode (b :: ys) := by
  rw [decode_cons ys hb, decode, run_cut none_sound xs ys hb, decode, decode,
    ← String.ofList_append, ← String.ofList_append]
  rfl

/-! ## Cutting between characters -/

def Valid (xs : List UInt8) : Prop := ∃ s, xs = encode s

/-- A place where no character is cut: a character begins there, or nothing comes after. -/
def Between (xs : List UInt8) (place : Nat) : Prop := ∀ b ∈ xs[place]?, b.IsUTF8FirstByte

instance (xs : List UInt8) (place : Nat) : Decidable (Between xs place) :=
  inferInstanceAs (Decidable (∀ b ∈ xs[place]?, b.IsUTF8FirstByte))

variable {xs ys : List UInt8} {a b : Nat}

theorem encode_valid (s : String) : Valid (encode s) := ⟨s, rfl⟩

theorem Valid.append (hx : Valid xs) (hy : Valid ys) : Valid (xs ++ ys) := by
  obtain ⟨s, rfl⟩ := hx
  obtain ⟨t, rfl⟩ := hy
  exact ⟨s ++ t, (encode_append s t).symm⟩

theorem Valid.encode_decode (h : Valid xs) : encode (decode xs) = xs := by
  obtain ⟨s, rfl⟩ := h
  rw [decode_encode]

theorem Valid.between_zero (h : Valid xs) : Between xs 0 := by
  obtain ⟨s, rfl⟩ := h
  rw [Between, encode_eq]
  cases s.toList with
  | nil => simp
  | cons c cs =>
    have hpos := String.length_utf8EncodeChar c ▸ c.utf8Size_pos
    rw [List.flatMap_cons, List.getElem?_append_left hpos, List.getElem?_eq_getElem hpos]
    intro b hb
    cases hb
    exact UInt8.isUTF8FirstByte_getElem_utf8EncodeChar.mpr rfl

theorem cut_chars (cs : List Char) {place : Nat}
    (h : Between (cs.flatMap String.utf8EncodeChar) place) :
    ∃ front back : List Char, (cs.flatMap String.utf8EncodeChar).take place = front.flatMap String.utf8EncodeChar ∧
      (cs.flatMap String.utf8EncodeChar).drop place = back.flatMap String.utf8EncodeChar := by
  induction cs generalizing place with
  | nil => exact ⟨[], [], by simp, by simp⟩
  | cons c cs ih =>
    rw [List.flatMap_cons] at h ⊢
    by_cases hin : place < (String.utf8EncodeChar c).length
    · have hfirst := h (String.utf8EncodeChar c)[place] (by
        rw [List.getElem?_append_left hin, List.getElem?_eq_getElem hin]
        rfl)
      have hzero : place = 0 := UInt8.isUTF8FirstByte_getElem_utf8EncodeChar.mp hfirst
      subst hzero
      exact ⟨[], c :: cs, by simp, by simp⟩
    · have hout : (String.utf8EncodeChar c).length ≤ place := by omega
      rw [Between, List.getElem?_append_right hout] at h
      obtain ⟨front, back, hfront, hback⟩ := ih h
      refine ⟨c :: front, back, ?_, ?_⟩
      · rw [List.take_append, List.take_of_length_le hout, hfront, List.flatMap_cons]
      · rw [List.drop_append, List.drop_of_length_le hout, List.nil_append, hback]

theorem Valid.cut (h : Valid xs) (hb : Between xs a) : Valid (xs.take a) ∧ Valid (xs.drop a) := by
  obtain ⟨s, rfl⟩ := h
  rw [encode_eq] at hb ⊢
  obtain ⟨front, back, hfront, hback⟩ := cut_chars s.toList hb
  exact ⟨⟨String.ofList front, by rw [hfront, encode_eq, String.toList_ofList]⟩,
    ⟨String.ofList back, by rw [hback, encode_eq, String.toList_ofList]⟩⟩

theorem Between.drop (h : Between xs b) (hab : a ≤ b) : Between (xs.drop a) (b - a) := by
  rwa [Between, List.getElem?_drop, Nat.add_sub_cancel' hab]

theorem Valid.slice (h : Valid xs) (ha : Between xs a) (hb : Between xs b) (hab : a ≤ b) :
    Valid ((xs.drop a).take (b - a)) :=
  ((h.cut ha).2.cut (hb.drop hab)).1

end Retype.Utf8

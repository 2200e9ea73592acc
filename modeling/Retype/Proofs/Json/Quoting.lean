import Mathlib.Data.List.Basic
import Mathlib.Tactic.IntervalCases
import Retype.Json.Printer
import Retype.Json.Reader

/-!
# Quoted texts read back

What stands between the quotes of a printed text is read as that text again. One
pair of characters is printed like a single character: a high half with a low half
behind it. A text that holds such a character as itself has no pair.
-/

set_option autoImplicit false

namespace Retype

namespace Half

def holds (part : Nat → Bool) (c : Char) : Bool := (unit? c).any part

/-- No high half has a low half behind it: what they stand for together is one character. -/
def Joined (s : String) : Prop :=
  s.toList.IsChain fun a b => (holds isHigh a && holds isLow b) = false

instance (s : String) : Decidable (Joined s) := inferInstanceAs (Decidable (List.IsChain _ _))

def pair? (a b : Char) : Option Char :=
  match unit? a, unit? b with
  | some high, some low => if isHigh high && isLow low then some (join high low) else none
  | _, _ => none

/-- The characters of a text as they are heard, each pair as one. -/
def heard : List Char → List Char
  | a :: b :: cs =>
    match pair? a b with
    | some c => c :: heard cs
    | none => a :: heard (b :: cs)
  | cs => cs

theorem pair?_eq_none {a b : Char} : pair? a b = none ↔ (holds isHigh a && holds isLow b) = false := by
  unfold pair? holds
  cases unit? a with
  | none => simp
  | some high =>
    cases unit? b with
    | none => simp
    | some low => simp

theorem pair?_eq_some {a b c : Char} (h : pair? a b = some c) :
    ∃ high low, unit? a = some high ∧ unit? b = some low ∧ isHigh high = true ∧ isLow low = true ∧
      join high low = c := by
  unfold pair? at h
  split at h
  · next high low ha hb =>
    split at h
    · next hboth =>
      obtain ⟨hhigh, hlow⟩ := Bool.and_eq_true_iff.mp hboth
      exact ⟨high, low, ha, hb, hhigh, hlow, Option.some.inj h⟩
    · cases h
  · cases h

theorem heard_of_chain {cs : List Char}
    (h : cs.IsChain fun a b => (holds isHigh a && holds isLow b) = false) : heard cs = cs := by
  induction cs using heard.induct with
  | case1 a b cs c hc ih =>
    rw [pair?_eq_none.mpr (List.isChain_cons_cons.mp h).1] at hc
    cases hc
  | case2 a b cs hnone ih => rw [heard, hnone, ih (List.isChain_cons_cons.mp h).2]
  | case3 cs hcs =>
    unfold heard
    split
    · exact absurd rfl (hcs _ _ _)
    · rfl

theorem heard_of_none {cs : List Char} (h : ∀ c ∈ cs, unit? c = none) : heard cs = cs := by
  apply heard_of_chain
  apply List.Pairwise.isChain
  rw [List.pairwise_iff_forall_sublist]
  intro a b hab
  rw [holds, h a (hab.subset List.mem_cons_self)]
  rfl

theorem unit?_eq_some {c : Char} {u : Nat} (h : unit? c = some u) :
    c.toNat = u + 0x100000 ∧ 0xD800 ≤ u ∧ u ≤ 0xDFFF := by
  unfold unit? at h
  split at h
  · next hc =>
    have hu := Option.some.inj h
    rw [Bool.and_eq_true, decide_eq_true_eq, decide_eq_true_eq] at hc
    omega
  · cases h

theorem ofUnit_unit? {c : Char} {u : Nat} (h : unit? c = some u) : ofUnit u = c := by
  obtain ⟨hc, hlow, hhigh⟩ := unit?_eq_some h
  have hhalf : (isHigh u || isLow u) = true := by
    simp only [isHigh, isLow, Bool.or_eq_true, Bool.and_eq_true, decide_eq_true_eq]
    omega
  rw [ofUnit, if_pos hhalf, ← hc, Char.ofNat_toNat]

end Half

namespace Json

open Half (isHigh isLow holds)

/-! ## Units -/

theorem hexValue_digitChar {d : Nat} (h : d < 16) : hexValue d.digitChar = some d := by
  interval_cases d <;> rfl

def padded (width n : Nat) : List Char :=
  List.replicate (width - (Nat.toDigits 16 n).length) '0' ++ Nat.toDigits 16 n

theorem padded_succ {width : Nat} (h : 0 < width) (n : Nat) :
    padded (width + 1) n = padded width (n / 16) ++ [(n % 16).digitChar] := by
  by_cases hn : n < 16
  · have hzero : Nat.toDigits 16 0 = ['0'] := rfl
    have hfront : List.replicate width '0' = List.replicate (width - 1) '0' ++ ['0'] := by
      rw [← List.replicate_succ', Nat.sub_add_cancel h]
    rw [padded, padded, Nat.toDigits_of_lt_base hn, Nat.div_eq_of_lt hn, Nat.mod_eq_of_lt hn, hzero,
      List.length_singleton, List.length_singleton, Nat.add_sub_cancel, hfront]
  · rw [padded, padded, Nat.toDigits_of_base_le (by decide) (Nat.le_of_not_lt hn), List.length_append,
      List.length_singleton, Nat.add_sub_add_right, List.append_assoc]

theorem hexDigits_eq {n : Nat} (h : n < 0x10000) :
    (hexDigits n).toList = [(n / 16 / 16 / 16).digitChar, (n / 16 / 16 % 16).digitChar,
      (n / 16 % 16).digitChar, (n % 16).digitChar] := by
  have hfirst : padded 1 (n / 16 / 16 / 16) = [(n / 16 / 16 / 16).digitChar] := by
    rw [padded, Nat.toDigits_of_lt_base (by omega)]
    rfl
  have hall : (hexDigits n).toList = padded 4 n := by
    rw [hexDigits, String.toList_ofList, padded]
  rw [hall, padded_succ (by decide), padded_succ (by decide), padded_succ (by decide), hfirst]
  rfl

/-- Four digits after a `u` are read as the unit that they were printed for. -/
theorem codeUnit_hexDigits {n : Nat} (h : n < 0x10000) {rest : List Char} (hrest : rest ≠ []) :
    codeUnit ('u' :: ((hexDigits n).toList ++ rest)) = .ok (n, rest) := by
  obtain ⟨e, rest, rfl⟩ := List.exists_cons_of_ne_nil hrest
  have hdigits : [(n / 16 / 16 / 16).digitChar, (n / 16 / 16 % 16).digitChar, (n / 16 % 16).digitChar,
      (n % 16).digitChar].mapM hexValue = some [n / 16 / 16 / 16, n / 16 / 16 % 16, n / 16 % 16, n % 16] := by
    simp [hexValue_digitChar (show n / 16 / 16 / 16 < 16 by omega),
      hexValue_digitChar (Nat.mod_lt _ (show 0 < 16 by decide))]
  rw [hexDigits_eq h]
  simp only [List.cons_append, List.nil_append, codeUnit, hdigits]
  simp only [List.foldl_cons, List.foldl_nil]
  congr 2
  omega

theorem toList_unitEscape (u : Nat) : (unitEscape u).toList = '\\' :: 'u' :: (hexDigits u).toList := by
  rw [unitEscape, String.toList_append]
  rfl

/-! ## Characters -/

/-- The ways in which a character is printed between quotes. -/
inductive Escaping (c : Char) : Prop
  | letter (e : Char) (he : e ≠ 'u') (h : escaped e = some c) (eq : escape c = String.ofList ['\\', e])
  | plain (hquote : c ≠ '"') (hslash : c ≠ '\\') (h : ¬ c.toNat < 0x20) (eq : escape c = c.toString)
  | unit (u : Nat) (hu : u < 0x10000) (h : Half.ofUnit u = c) (hhigh : isHigh u = holds isHigh c)
      (hlow : isLow u = holds isLow c) (eq : escape c = unitEscape u)
  | pair (high low : Nat) (hh : high < 0x10000) (hl : low < 0x10000) (hhigh : isHigh high = true)
      (hlow : isLow low = true) (h : Half.join high low = c) (eq : escape c = unitEscape high ++ unitEscape low)

theorem not_half {c : Char} (h : c.toNat < 0x10000) :
    isHigh c.toNat = false ∧ isLow c.toNat = false ∧ Half.unit? c = none := by
  have hrange : c.toNat < 0xD800 ∨ 0xDFFF < c.toNat := c.valid.imp id And.left
  simp only [isHigh, isLow, Half.unit?, Bool.and_eq_false_iff, decide_eq_false_iff_not]
  refine ⟨by omega, by omega, if_neg ?_⟩
  rw [Bool.and_eq_true, decide_eq_true_eq, decide_eq_true_eq]
  omega

def letters : List (Char × Char) :=
  [('"', '"'), ('\\', '\\'), ('\n', 'n'), ('\r', 'r'), ('\t', 't'), ('\x08', 'b'), ('\x0C', 'f')]

theorem escaping_letter : ∀ p ∈ letters, Escaping p.1 := by
  simp only [letters, List.forall_mem_cons]
  exact ⟨.letter '"' (by decide) rfl rfl, .letter '\\' (by decide) rfl rfl, .letter 'n' (by decide) rfl rfl,
    .letter 'r' (by decide) rfl rfl, .letter 't' (by decide) rfl rfl, .letter 'b' (by decide) rfl rfl,
    .letter 'f' (by decide) rfl rfl, nofun⟩

/-- How the other characters are printed. -/
theorem escape_unlettered {c : Char} (h : ∀ p ∈ letters, c ≠ p.1) :
    escape c = if 0x20 ≤ c.toNat ∧ c.toNat < 0x7F then c.toString
      else if c.toNat < 0x10000 then unitEscape c.toNat
      else (Half.unit? c).elim (unitEscape (0xD800 + (c.toNat - 0x10000) / 0x400) ++
        unitEscape (0xDC00 + (c.toNat - 0x10000) % 0x400)) unitEscape := by
  simp only [letters, List.forall_mem_cons] at h
  obtain ⟨h1, h2, h3, h4, h5, h6, h7, -⟩ := h
  rw [escape, if_neg h1, if_neg h2, if_neg h3, if_neg h4, if_neg h5, if_neg h6, if_neg h7]
  cases Half.unit? c with
  | none => rfl
  | some u => rfl

theorem unlettered_of_wide {c : Char} (h : ¬ c.toNat < 0x80) : ∀ p ∈ letters, c ≠ p.1 := by
  have hascii : letters.all (fun p => p.1.toNat < 0x80) = true := by decide
  rintro p hp rfl
  exact h (of_decide_eq_true (List.all_eq_true.mp hascii p hp))

theorem escape_wide {c : Char} (h : ¬ c.toNat < 0x10000) :
    escape c = (Half.unit? c).elim (unitEscape (0xD800 + (c.toNat - 0x10000) / 0x400) ++
      unitEscape (0xDC00 + (c.toNat - 0x10000) % 0x400)) unitEscape := by
  rw [escape_unlettered (unlettered_of_wide (by omega)), if_neg (by omega), if_neg h]

theorem escape_half {c : Char} {u : Nat} (h : Half.unit? c = some u) : escape c = unitEscape u ∧ u < 0x10000 := by
  have hbound := Half.unit?_eq_some h
  refine ⟨?_, by omega⟩
  rw [escape_wide (by omega), h]
  rfl

theorem escaping_wide {c : Char} (h : ¬ c.toNat < 0x10000) : Escaping c := by
  have hmax : c.toNat < 0x110000 := c.valid.elim (fun h => Nat.lt_trans h (by decide)) And.right
  cases hu : Half.unit? c with
  | some u =>
    obtain ⟨heq, hbound⟩ := escape_half hu
    apply Escaping.unit u hbound (Half.ofUnit_unit? hu)
    · rw [holds, hu]
      rfl
    · rw [holds, hu]
      rfl
    · exact heq
  | none =>
    have heq := escape_wide h
    rw [hu] at heq
    apply Escaping.pair (0xD800 + (c.toNat - 0x10000) / 0x400) (0xDC00 + (c.toNat - 0x10000) % 0x400)
    · omega
    · omega
    · simp only [isHigh, Bool.and_eq_true, decide_eq_true_eq]
      omega
    · simp only [isLow, Bool.and_eq_true, decide_eq_true_eq]
      omega
    · rw [Half.join]
      have hsum : 0x10000 + (0xD800 + (c.toNat - 0x10000) / 0x400 - 0xD800) * 0x400 +
          (0xDC00 + (c.toNat - 0x10000) % 0x400 - 0xDC00) = c.toNat := by omega
      rw [hsum, Char.ofNat_toNat]
    · exact heq

theorem escaping (c : Char) : Escaping c := by
  by_cases hletter : ∃ p ∈ letters, c = p.1
  · obtain ⟨p, hp, rfl⟩ := hletter
    exact escaping_letter p hp
  have hne : ∀ p ∈ letters, c ≠ p.1 := fun p hp hc => hletter ⟨p, hp, hc⟩
  have heq := escape_unlettered hne
  by_cases hplain : 0x20 ≤ c.toNat ∧ c.toNat < 0x7F
  · rw [if_pos hplain] at heq
    exact .plain (hne ('"', '"') (by decide)) (hne ('\\', '\\') (by decide)) (by omega) heq
  by_cases hwide : c.toNat < 0x10000
  · obtain ⟨hhigh, hlow, hnone⟩ := not_half hwide
    rw [if_neg hplain, if_pos hwide] at heq
    apply Escaping.unit c.toNat hwide
    · rw [Half.ofUnit, hhigh, hlow]
      exact Char.ofNat_toNat c
    · rw [hhigh, holds, hnone]
      rfl
    · rw [hlow, holds, hnone]
      rfl
    · exact heq
  · exact escaping_wide hwide

/-! ## Texts -/

section

variable {start done text : List Char} {c : Char}

theorem stringBody_letter {e : Char} (fuel : Nat) (he : e ≠ 'u') (h : escaped e = some c) :
    stringBody start (fuel + 1) done ('\\' :: e :: text) = stringBody start fuel (c :: done) text := by
  have hquote : ¬ '\\' = '"' := by decide
  have hcontrol : ¬ '\\'.toNat < 0x20 := by decide
  rw [stringBody, if_neg hquote, if_neg hcontrol, if_pos rfl, h]
  exact fun heq => absurd heq he

theorem stringBody_plain (fuel : Nat) (hquote : c ≠ '"') (hslash : c ≠ '\\') (h : ¬ c.toNat < 0x20) :
    stringBody start (fuel + 1) done (c :: text) = stringBody start fuel (c :: done) text := by
  rw [stringBody.eq_def]
  simp only [if_neg hquote, if_neg h, if_neg hslash]

theorem stringBody_coded {more : List Char} (fuel : Nat) (h : coded ('u' :: more) = .ok (c, text)) :
    stringBody start (fuel + 1) done ('\\' :: 'u' :: more) = stringBody start fuel (c :: done) text := by
  have hquote : ¬ '\\' = '"' := by decide
  have hcontrol : ¬ '\\'.toNat < 0x20 := by decide
  rw [stringBody, if_neg hquote, if_neg hcontrol, if_pos rfl]
  simp only [h]

end

/-- If a text goes on with a unit, it is not a low half. -/
def Unpaired (text : List Char) : Prop :=
  ∀ more, text = '\\' :: 'u' :: more → ∃ u rest, codeUnit ('u' :: more) = .ok (u, rest) ∧ isLow u = false

theorem coded_unit {u : Nat} {text : List Char} (hu : u < 0x10000) (hnext : isHigh u = true → Unpaired text)
    (htext : text ≠ []) : coded ('u' :: ((hexDigits u).toList ++ text)) = .ok (Half.ofUnit u, text) := by
  rw [coded, codeUnit_hexDigits hu htext]
  simp only
  split
  · next more hhigh =>
    obtain ⟨v, rest, hv, hlow⟩ := hnext hhigh more rfl
    rw [hv]
    simp only [hlow]
    rfl
  · rfl

theorem coded_pair {high low : Nat} {text : List Char} (hh : high < 0x10000) (hl : low < 0x10000)
    (hhigh : isHigh high = true) (hlow : isLow low = true) (htext : text ≠ []) :
    coded ('u' :: ((hexDigits high).toList ++ ('\\' :: 'u' :: ((hexDigits low).toList ++ text)))) =
      .ok (Half.join high low, text) := by
  rw [coded, codeUnit_hexDigits hh (List.cons_ne_nil _ _)]
  simp only [hhigh, codeUnit_hexDigits hl htext, hlow, if_true]

/-- One character is read at a time, however many units it was printed as. -/
theorem stringBody_escape {start done text : List Char} {c : Char} (fuel : Nat)
    (hnext : holds isHigh c = true → Unpaired text) (htext : text ≠ []) :
    stringBody start (fuel + 1) done ((escape c).toList ++ text) = stringBody start fuel (c :: done) text := by
  rcases escaping c with ⟨e, he, h, eq⟩ | ⟨hquote, hslash, h, eq⟩ | ⟨u, hu, h, hhigh, hlow, eq⟩ |
    ⟨high, low, hh, hl, hhigh, hlow, h, eq⟩
  · rw [eq, String.toList_ofList]
    exact stringBody_letter fuel he h
  · rw [eq, Char.toString, String.toList_singleton]
    exact stringBody_plain fuel hquote hslash h
  · rw [eq, toList_unitEscape, List.cons_append, List.cons_append]
    apply stringBody_coded fuel
    rw [coded_unit hu (fun hu => hnext (hhigh ▸ hu)) htext, h]
  · rw [eq, String.toList_append, toList_unitEscape, toList_unitEscape, List.append_assoc, List.cons_append,
      List.cons_append, List.cons_append, List.cons_append]
    apply stringBody_coded fuel
    rw [← h]
    exact coded_pair hh hl hhigh hlow htext

theorem unpaired_escape {c : Char} {text : List Char} (h : holds isLow c = false) (htext : text ≠ []) :
    Unpaired ((escape c).toList ++ text) := by
  intro more hmore
  rcases escaping c with ⟨e, he, -, eq⟩ | ⟨-, hslash, -, eq⟩ | ⟨u, hu, -, -, hlow, eq⟩ |
    ⟨high, low, hh, -, hhigh, -, -, eq⟩
  · rw [eq, String.toList_ofList] at hmore
    injection hmore with _ hmore
    injection hmore with hmore
    exact absurd hmore he
  · rw [eq, Char.toString, String.toList_singleton] at hmore
    injection hmore with hmore
    exact absurd hmore hslash
  · rw [eq, toList_unitEscape] at hmore
    injection hmore with _ hmore
    injection hmore with _ hmore
    refine ⟨u, text, ?_, hlow.trans h⟩
    rw [← hmore]
    exact codeUnit_hexDigits hu htext
  · rw [eq, String.toList_append, toList_unitEscape, List.append_assoc] at hmore
    injection hmore with _ hmore
    injection hmore with _ hmore
    refine ⟨high, (unitEscape low).toList ++ text, ?_, ?_⟩
    · rw [← hmore]
      exact codeUnit_hexDigits hh (List.append_ne_nil_of_right_ne_nil _ htext)
    · simp only [isHigh, isLow, Bool.and_eq_true, Bool.and_eq_false_iff, decide_eq_true_eq,
        decide_eq_false_iff_not] at *
      omega

def escapes (cs : List Char) : List Char := cs.flatMap fun c => (escape c).toList

theorem toList_quote (s : String) : (quote s).toList = '"' :: (escapes s.toList ++ ['"']) := by
  have hjoin : (String.join (s.toList.map escape)).toList = escapes s.toList := by
    rw [String.toList_join, List.flatMap_map, escapes]
  rw [quote, String.toList_append, String.toList_append, hjoin]
  rfl

/-- What was printed between quotes is read as it is heard. -/
theorem stringBody_heard {start : List Char} {fuel : Nat} {cs : List Char} (hfuel : cs.length < fuel)
    (done rest : List Char) : stringBody start fuel done (escapes cs ++ '"' :: rest) =
      .ok (String.ofList (done.reverse ++ Half.heard cs), rest) := by
  have hbehind : ∀ cs : List Char, escapes cs ++ '"' :: rest ≠ [] := fun cs =>
    List.append_ne_nil_of_right_ne_nil _ (List.cons_ne_nil _ _)
  induction cs using Half.heard.induct generalizing fuel done with
  | case1 a b cs c hc ih =>
    obtain ⟨high, low, ha, hb, hhigh, hlow, rfl⟩ := Half.pair?_eq_some hc
    obtain ⟨hah, hh⟩ := escape_half ha
    obtain ⟨hbl, hl⟩ := escape_half hb
    obtain ⟨fuel, rfl⟩ := Nat.exists_eq_succ_of_ne_zero (Nat.ne_zero_of_lt hfuel)
    have hlength : cs.length < fuel := by
      simp only [List.length_cons] at hfuel
      omega
    rw [Half.heard, hc]
    rw [escapes, List.flatMap_cons, List.flatMap_cons, hah, hbl, toList_unitEscape, toList_unitEscape,
      List.append_assoc, List.append_assoc, List.cons_append, List.cons_append, List.cons_append,
      List.cons_append, ← escapes, stringBody_coded fuel (coded_pair hh hl hhigh hlow (hbehind cs)), ih hlength,
      List.reverse_cons, List.append_assoc]
    rfl
  | case2 a b cs hnone ih =>
    obtain ⟨fuel, rfl⟩ := Nat.exists_eq_succ_of_ne_zero (Nat.ne_zero_of_lt hfuel)
    have hnext : holds isHigh a = true → Unpaired (escapes (b :: cs) ++ '"' :: rest) := by
      intro hhigh
      have hb : holds isLow b = false := by
        have hboth := Half.pair?_eq_none.mp hnone
        rwa [hhigh, Bool.true_and] at hboth
      rw [escapes, List.flatMap_cons, List.append_assoc]
      exact unpaired_escape hb (hbehind cs)
    rw [escapes, List.flatMap_cons, List.append_assoc, ← escapes, stringBody_escape fuel hnext (hbehind _),
      ih (Nat.lt_of_succ_lt_succ hfuel), Half.heard, hnone, List.reverse_cons, List.append_assoc]
    rfl
  | case3 cs hcs =>
    obtain ⟨fuel, rfl⟩ := Nat.exists_eq_succ_of_ne_zero (Nat.ne_zero_of_lt hfuel)
    match cs with
    | [] => simp [escapes, stringBody, Half.heard]
    | a :: b :: cs => exact absurd rfl (hcs a b cs)
    | [a] =>
      have hnext : Unpaired ('"' :: rest) := fun more hmore => nomatch hmore
      rw [escapes, List.flatMap_cons, List.append_assoc, List.flatMap_nil, List.nil_append,
        stringBody_escape fuel (fun _ => hnext) (List.cons_ne_nil _ _)]
      obtain ⟨fuel, rfl⟩ := Nat.exists_eq_succ_of_ne_zero (Nat.ne_zero_of_lt (Nat.lt_of_succ_lt_succ hfuel))
      simp [stringBody, Half.heard]

theorem stringBody_escapes {start : List Char} {fuel : Nat} {cs : List Char} (hfuel : cs.length < fuel)
    (h : cs.IsChain fun a b => (holds isHigh a && holds isLow b) = false) (done rest : List Char) :
    stringBody start fuel done (escapes cs ++ '"' :: rest) = .ok (String.ofList (done.reverse ++ cs), rest) := by
  rw [stringBody_heard hfuel, Half.heard_of_chain h]

theorem escape_ne_nil (c : Char) : (escape c).toList ≠ [] := by
  rcases escaping c with ⟨_, _, _, eq⟩ | ⟨_, _, _, eq⟩ | ⟨u, _, _, _, _, eq⟩ | ⟨high, low, _, _, _, _, _, eq⟩
  · rw [eq, String.toList_ofList]
    exact List.cons_ne_nil _ _
  · rw [eq, Char.toString, String.toList_singleton]
    exact List.cons_ne_nil _ _
  · rw [eq, toList_unitEscape]
    exact List.cons_ne_nil _ _
  · rw [eq, String.toList_append, toList_unitEscape]
    exact List.append_ne_nil_of_left_ne_nil (List.cons_ne_nil _ _) _

theorem length_le_escapes (cs : List Char) : cs.length ≤ (escapes cs).length := by
  induction cs with
  | nil => exact Nat.le_refl 0
  | cons c cs ih =>
    have hc : 0 < (escape c).toList.length := List.length_pos_iff.mpr (escape_ne_nil c)
    rw [escapes, List.flatMap_cons, ← escapes, List.length_append, List.length_cons]
    omega

/-- A text that was quoted is read as itself. -/
theorem read_quote (l : Limits) {s : String} (h : Half.Joined s) : read l (quote s) = .ok (.str s) := by
  have hbody : ∀ start fuel, s.toList.length < fuel →
      stringBody start fuel [] (escapes s.toList ++ ['"']) = .ok (s, []) := by
    intro start fuel hfuel
    rw [stringBody_escapes hfuel h, List.reverse_nil, List.nil_append, String.ofList_toList]
  have hvalue : ∀ fuel, s.toList.length < fuel →
      value l 0 (fuel + 1) ('"' :: (escapes s.toList ++ ['"'])) = .ok (.str s, []) := by
    intro fuel hfuel
    have hscalar : value l 0 (fuel + 1) ('"' :: (escapes s.toList ++ ['"'])) =
        (stringBody ('"' :: (escapes s.toList ++ ['"'])) fuel [] (escapes s.toList ++ ['"'])).map
          fun p => (str p.1, p.2) := rfl
    rw [hscalar, hbody _ _ hfuel]
    rfl
  have hlength := length_le_escapes s.toList
  rw [read, toList_quote, whole, if_neg (by simp), hvalue]
  · rfl
  · rw [List.length_cons, List.length_append]
    omega

end Json

end Retype

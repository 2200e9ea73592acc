import Retype.Proofs.Component.Merging
import Retype.Proofs.Component.TypeGrammar

/-!
# The tokens of printed types

A text whose last word is complete before whatever may follow has its own tokens, and
they are those of its pieces one after the other. Names, literals and quoted property
names are single words.
-/

set_option autoImplicit false

namespace Retype

namespace Token

/-- What ends a word: nothing more, a blank or a mark. -/
def EndsWord (cs : List Char) : Prop := ∀ c ∈ cs.head?, c = ' ' ∨ (mark? c).isSome = true

theorem lex_endsWord {word rest : List Char} (h : EndsWord rest) :
    lex .plain word rest = flush word ++ lex .plain [] rest := by
  cases rest with
  | nil => simp [lex, flush]
  | cons c rest =>
    rcases h c rfl with rfl | hmark
    · simp [lex, flush]
    · by_cases hc : c = ' '
      · subst hc
        simp [lex, flush]
      · obtain ⟨m, hm⟩ := Option.isSome_iff_exists.mp hmark
        simp [lex, hc, hm, flush]

/-- A piece of a word: it is read on to, whatever stands before and behind it. -/
def Moves (cs : List Char) : Prop :=
  ∀ word rest, lex .plain word (cs ++ rest) = lex .plain (word ++ cs) rest

namespace Moves

theorem nil : Moves [] := by
  intro word rest
  rw [List.append_nil, List.nil_append]

theorem append {as bs : List Char} (ha : Moves as) (hb : Moves bs) : Moves (as ++ bs) := by
  intro word rest
  rw [List.append_assoc, ha, hb, List.append_assoc]

/-- Neither a blank nor a mark nor a quote. -/
def isPart (c : Char) : Bool := c ≠ ' ' && (mark? c).isNone && !isQuote c

theorem single {c : Char} (h : isPart c = true) : Moves [c] := by
  intro word rest
  simp only [isPart, Bool.and_eq_true, decide_eq_true_eq, Option.isNone_iff_eq_none, Bool.not_eq_true'] at h
  obtain ⟨⟨hblank, hmark⟩, hquote⟩ := h
  rw [List.singleton_append, lex, if_neg hblank, hmark, hquote]
  rfl

theorem parts {cs : List Char} (h : cs.all isPart = true) : Moves cs := by
  induction cs with
  | nil => exact nil
  | cons c cs ih =>
    obtain ⟨hc, hcs⟩ := Bool.and_eq_true_iff.mp h
    exact (single hc).append (ih hcs)

/-- What may stand between quotes: each backslash takes the next character with it. -/
def Inner (q : Char) (cs : List Char) : Prop :=
  ∀ word rest, lex (.quoted q) word (cs ++ rest) = lex (.quoted q) (word ++ cs) rest

theorem inner_append {q : Char} {as bs : List Char} (ha : Inner q as) (hb : Inner q bs) : Inner q (as ++ bs) := by
  intro word rest
  rw [List.append_assoc, ha, hb, List.append_assoc]

theorem inner_single {q c : Char} (hq : c ≠ q) (hslash : c ≠ '\\') : Inner q [c] := by
  intro word rest
  rw [List.singleton_append, lex, if_neg hq, if_neg hslash]

theorem inner_escape {q : Char} (c : Char) (hq : q ≠ '\\') : Inner q ['\\', c] := by
  intro word rest
  rw [List.cons_append, lex, if_neg hq.symm, if_pos rfl, List.singleton_append, lex, List.append_assoc]
  rfl

theorem quoted {q : Char} {cs : List Char} (hq : isQuote q = true) (h : Inner q cs) : Moves (q :: (cs ++ [q])) := by
  have hplain : q ≠ ' ' ∧ mark? q = none := by
    simp only [isQuote, Bool.or_eq_true, decide_eq_true_eq] at hq
    rcases hq with rfl | rfl
    · exact ⟨by decide, rfl⟩
    · exact ⟨by decide, rfl⟩
  intro word rest
  rw [List.cons_append, lex, if_neg hplain.1, hplain.2]
  simp only [hq, if_true]
  rw [List.append_assoc, h, List.singleton_append, lex, if_pos rfl]
  simp

end Moves

/-- A text has these tokens, whatever follows its last word. -/
def Spells (s : String) (toks : List Token) : Prop :=
  ∀ rest, EndsWord rest → lex .plain [] (s.toList ++ rest) = toks ++ lex .plain [] rest

namespace Spells

variable {s t : String} {as bs : List Token}

theorem tokens_eq (h : Spells s as) : tokens s = as := by
  have hnil := h [] nofun
  rwa [List.append_nil, lex, flush, List.isEmpty_nil, if_pos rfl, List.append_nil] at hnil

theorem word (hne : s ≠ "") (h : Moves s.toList) : Spells s [.word s] := by
  have hword : flush s.toList = [.word s] := by
    have hcs : s.toList.isEmpty = false := by
      rw [List.isEmpty_eq_false_iff]
      exact fun hnil => hne (String.toList_eq_nil_iff.mp hnil)
    rw [flush, hcs, String.ofList_toList]
    rfl
  intro rest hrest
  rw [h, List.nil_append, lex_endsWord hrest, hword]

end Spells

/-- A text that ends with a mark or a blank has these tokens, whatever follows. -/
def Closes (s : String) (toks : List Token) : Prop :=
  ∀ rest, lex .plain [] (s.toList ++ rest) = toks ++ lex .plain [] rest

open Moves

variable {s t : String} {as bs : List Token}

theorem Closes.spells (h : Closes s as) : Spells s as := fun rest _ => h rest

theorem Closes.append (ha : Closes s as) (hb : Closes t bs) : Closes (s ++ t) (as ++ bs) := by
  intro rest
  rw [String.toList_append, List.append_assoc, ha, hb, List.append_assoc]

theorem Closes.append_spells (ha : Closes s as) (hb : Spells t bs) : Spells (s ++ t) (as ++ bs) := by
  intro rest hrest
  rw [String.toList_append, List.append_assoc, ha, hb rest hrest, List.append_assoc]

/-- A text whose beginning ends a word. -/
def Separates (s : String) : Prop := ∃ c cs, s.toList = c :: cs ∧ (c = ' ' ∨ (mark? c).isSome = true)

theorem Spells.append_closes (ha : Spells s as) (hb : Closes t bs) (hends : Separates t) :
    Closes (s ++ t) (as ++ bs) := by
  obtain ⟨c, cs, ht, hc⟩ := hends
  have hword : ∀ rest, EndsWord (t.toList ++ rest) := by
    intro rest d hd
    rw [ht, List.cons_append, List.head?_cons, Option.mem_some] at hd
    exact hd ▸ hc
  intro rest
  rw [String.toList_append, List.append_assoc, ha _ (hword rest), hb, List.append_assoc]

/-! ## Printed pieces -/

theorem Spells.between {sep : String} {ms : List Token} (ha : Spells s as) (hsep : Closes sep ms)
    (hends : Separates sep) (hb : Spells t bs) : Spells (s ++ sep ++ t) (as ++ ms ++ bs) :=
  (ha.append_closes hsep hends).append_spells hb

theorem Spells.array (ha : Spells s as) : Spells (s ++ "[]") (as ++ [Token.mark .openSquare, .mark .closeSquare]) := by
  have hmarks : Closes "[]" [.mark .openSquare, .mark .closeSquare] := fun _ => rfl
  exact (ha.append_closes hmarks ⟨'[', _, rfl, Or.inr rfl⟩).spells

theorem Spells.parens (ha : Spells s as) :
    Spells ("(" ++ s ++ ")") ([Token.mark .openRound] ++ as ++ [Token.mark .closeRound]) := by
  have hopen : Closes "(" [.mark .openRound] := fun _ => rfl
  have hclose : Closes ")" [.mark .closeRound] := fun _ => rfl
  exact ((hopen.append_spells ha).append_closes hclose ⟨')', _, rfl, Or.inr rfl⟩).spells

theorem Spells.record (ha : Spells s as) :
    Spells ("Record<string, " ++ s ++ ">")
      ([Token.word "Record", .mark .openAngle, .word "string", .mark .comma] ++ as ++ [Token.mark .closeAngle]) := by
  have hopen : Closes "Record<string, "
      [.word "Record", .mark .openAngle, .word "string", .mark .comma] := fun _ => rfl
  have hclose : Closes ">" [.mark .closeAngle] := fun _ => rfl
  exact ((hopen.append_spells ha).append_closes hclose ⟨'>', _, rfl, Or.inr rfl⟩).spells

def functionTokens : List Token :=
  [.mark .openRound, .word "...args", .mark .colon, .word "unknown", .mark .openSquare, .mark .closeSquare,
    .mark .closeRound, .mark .equals, .mark .closeAngle, .word "unknown"]

theorem spells_unknown : Spells TypeText.unknown [.word "unknown"] :=
  .word (by decide) (.parts (by decide))

theorem spells_function : Spells TypeText.function functionTokens := by
  have hopen : Closes "(...args: unknown[]) => " (functionTokens.take 9) := fun _ => rfl
  have htext : TypeText.function = "(...args: unknown[]) => " ++ TypeText.unknown := by decide
  have htokens : functionTokens = functionTokens.take 9 ++ [Token.word "unknown"] := rfl
  rw [htext, htokens]
  exact hopen.append_spells spells_unknown

/-! ## Names and literals -/

def separators : List Char :=
  [' ', '(', ')', '[', ']', '\x7b', '\x7d', '<', '>', '|', ':', ';', ',', '?', '=', '"', '\'']

theorem isPart_of_notMem {c : Char} (h : c ∉ separators) : isPart c = true := by
  have hmark : mark? c = none := by
    unfold mark?
    split <;> first | rfl | exact absurd (by decide) h
  have hother : c ≠ ' ' ∧ c ≠ '"' ∧ c ≠ '\'' := by
    refine ⟨?_, ?_, ?_⟩ <;> (rintro rfl; exact h (by decide))
  rw [isPart, hmark, isQuote]
  simp [hother]

theorem isPart_of_identifierPart {c : Char} (h : TypeText.isIdentifierPart c = true) : isPart c = true := by
  have hascii : separators.all (fun d => d.toNat < 0x80) = true := by decide
  have hnone : separators.any (fun d =>
      d = '_' || (Alphabet.isAsciiLetter d || ('0' ≤ d && d ≤ '9')) || d = '$') = false := by decide
  apply isPart_of_notMem
  intro hc
  have hlow : c.toNat < 0x80 := of_decide_eq_true (List.all_eq_true.mp hascii c hc)
  rw [TypeText.isIdentifierPart_ascii hlow] at h
  exact List.any_eq_false.mp hnone c hc h

theorem isPart_of_digit {c : Char} (h : Alphabet.isDigit c = true) : isPart c = true := by
  have hnone : separators.any Alphabet.isDigit = false := by decide +kernel
  apply isPart_of_notMem
  intro hc
  exact List.any_eq_false.mp hnone c hc h

theorem moves_plainName {name : String} (h : TypeText.isPlainName name = true) : Moves name.toList := by
  obtain ⟨c, rest, hname, hc, hrest⟩ := TypeText.plainName_cons h
  rw [hname]
  apply Moves.parts
  rw [List.all_eq_true]
  intro d hd
  rcases List.mem_cons.mp hd with rfl | hd
  · exact isPart_of_identifierPart (TypeText.isIdentifierPart_of_start hc)
  · rcases hrest d hd with hd | rfl
    · exact isPart_of_identifierPart hd
    · decide

theorem inner_digits {n : Nat} (h : n < 0x10000) : Inner '"' (Json.hexDigits n).toList := by
  have hdigit : ∀ d, d < 16 → Inner '"' [d.digitChar] := by
    intro d hd
    apply inner_single
    · interval_cases d <;> decide
    · interval_cases d <;> decide
  rw [Json.hexDigits_eq h]
  exact inner_append (hdigit _ (by omega)) (inner_append (hdigit _ (by omega))
    (inner_append (hdigit _ (by omega)) (hdigit _ (by omega))))

theorem inner_unitEscape {u : Nat} (h : u < 0x10000) : Inner '"' (Json.unitEscape u).toList := by
  rw [Json.toList_unitEscape]
  exact inner_append (inner_escape 'u' (by decide)) (inner_digits h)

theorem inner_escapes (cs : List Char) : Inner '"' (Json.escapes cs) := by
  induction cs with
  | nil =>
    intro word rest
    rw [Json.escapes, List.flatMap_nil, List.append_nil, List.nil_append]
  | cons c cs ih =>
    rw [Json.escapes, List.flatMap_cons]
    refine inner_append ?_ ih
    rcases Json.escaping c with ⟨e, -, -, eq⟩ | ⟨hquote, hslash, -, eq⟩ | ⟨u, hu, -, -, -, eq⟩ |
      ⟨high, low, hh, hl, -, -, -, eq⟩
    · rw [eq, String.toList_ofList]
      exact inner_escape e (by decide)
    · rw [eq, Char.toString, String.toList_singleton]
      exact inner_single hquote hslash
    · rw [eq]
      exact inner_unitEscape hu
    · rw [eq, String.toList_append]
      exact inner_append (inner_unitEscape hh) (inner_unitEscape hl)

theorem moves_quote (name : String) : Moves (Json.quote name).toList := by
  rw [Json.toList_quote]
  exact Moves.quoted rfl (inner_escapes name.toList)

theorem moves_propertyName (name : String) : Moves (TypeText.propertyName name).toList := by
  unfold TypeText.propertyName
  split
  · next h => exact moves_plainName h
  · exact moves_quote name

theorem moves_quotedLiteral {q : Char} {cs : List Char} (hq : isQuote q = true)
    (h : TypeText.isQuoted q cs = true) : Moves cs := by
  cases cs with
  | nil => cases h
  | cons c rest =>
    simp only [TypeText.isQuoted, Bool.and_eq_true, decide_eq_true_eq, List.all_eq_true] at h
    obtain ⟨⟨rfl, hlast⟩, hinner⟩ := h
    have hparts : Inner c rest.dropLast := by
      have general : ∀ ds : List Char, (∀ d ∈ ds, d ≠ c ∧ d ≠ '\\') → Inner c ds := by
        intro ds hds
        induction ds with
        | nil =>
          intro word more
          rw [List.append_nil, List.nil_append]
        | cons d ds ih =>
          obtain ⟨hdq, hds'⟩ := hds d List.mem_cons_self
          exact inner_append (inner_single hdq hds') (ih fun e he => hds e (List.mem_cons_of_mem d he))
      exact general _ hinner
    rw [← List.dropLast_append_getLast? c hlast]
    exact Moves.quoted hq hparts

theorem moves_magnitude {cs : List Char}
    (h : (match cs.dropWhile Alphabet.isDigit with
      | [] => true
      | '.' :: frac => !frac.isEmpty && frac.all Alphabet.isDigit
      | _ => false) = true) : Moves cs := by
  have hwhole : Moves (cs.takeWhile Alphabet.isDigit) :=
    Moves.parts (List.all_eq_true.mpr fun c hc => isPart_of_digit (List.all_eq_true.mp List.all_takeWhile c hc))
  rw [← List.takeWhile_append_dropWhile (p := Alphabet.isDigit) (l := cs)]
  apply hwhole.append
  split at h
  · next hnil =>
    rw [hnil]
    exact Moves.nil
  · next frac hfrac =>
    rw [hfrac]
    have hdigits := List.all_eq_true.mp (Bool.and_eq_true_iff.mp h).2
    exact Moves.append (Moves.single (by decide))
      (Moves.parts (List.all_eq_true.mpr fun c hc => isPart_of_digit (hdigits c hc)))
  · cases h

theorem moves_numeral {cs : List Char} (h : TypeText.isNumeral cs = true) : Moves cs := by
  have hunsigned : Moves (if cs.head? = some '-' then cs.drop 1 else cs) :=
    moves_magnitude (Bool.and_eq_true_iff.mp h).2
  by_cases hsign : cs.head? = some '-'
  · obtain ⟨rest, rfl⟩ := List.head?_eq_some_iff.mp hsign
    rw [if_pos hsign] at hunsigned
    exact Moves.append (Moves.single (by decide)) hunsigned
  · rwa [if_neg hsign] at hunsigned

theorem moves_literal {text : String} (h : TypeText.isLiteralType text = true) : Moves text.toList := by
  obtain ⟨cs, hliteral, hcs⟩ := TypeText.holdsToEnd_iff.mp h
  have hmoves : Moves cs := by
    simp only [Bool.or_eq_true] at hliteral
    rcases hliteral with ((h | h) | h) | h
    · exact moves_quotedLiteral rfl h
    · exact moves_quotedLiteral rfl h
    · exact moves_numeral h
    · obtain ⟨w, hw, hcs⟩ := List.any_eq_true.mp h
      have hwords : ∀ w ∈ ["true", "false", "null"], w.toList.all isPart = true := by decide
      rw [decide_eq_true_eq] at hcs
      exact hcs ▸ Moves.parts (hwords w hw)
  rcases hcs with hcs | hcs
  · rw [hcs]
    exact hmoves
  · rw [hcs]
    exact hmoves.append (Moves.single (by decide))

end Token

end Retype

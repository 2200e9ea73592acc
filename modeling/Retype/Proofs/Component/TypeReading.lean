import Retype.Proofs.Component.TypeGrammar

/-!
# Tokens that are read as types

A list of tokens is an operand if it is read as a type in front of whatever follows,
array marks included, and a type if it is read as one in front of what may stand
behind a type. Operands with bars between them, with brackets or braces around them,
are read as the types that they are made into.
-/

set_option autoImplicit false

namespace Retype.Ty

variable {as bs : List Token} {a b t : Ty}

/-! ## Operands and types -/

/-- What is no beginning of arguments. -/
def Open (rest : List Token) : Prop := rest.head? ≠ some (.mark .openAngle)

/-- What may stand behind a type: nothing, a closing mark or a separator. -/
def Behind (rest : List Token) : Prop :=
  rest = [] ∨ ∃ m more, rest = .mark m :: more ∧
    m ∈ [Mark.closeRound, .closeAngle, .closeCurly, .semicolon, .comma]

theorem Behind.mark {m : Mark} (more : List Token)
    (h : m ∈ [Mark.closeRound, .closeAngle, .closeCurly, .semicolon, .comma]) : Behind (.mark m :: more) :=
  Or.inr ⟨m, more, rfl, h⟩

theorem Behind.open {rest : List Token} (h : Behind rest) : Open rest := by
  rcases h with rfl | ⟨m, more, rfl, hm⟩
  · exact nofun
  · intro heq
    cases heq
    exact absurd hm (by decide)

theorem arrays_behind {rest : List Token} (h : Behind rest) : arrays t rest = some (t, rest) := by
  rcases h with rfl | ⟨m, more, rfl, hm⟩
  · rfl
  · cases m with
    | openSquare => exact absurd hm (by decide)
    | _ => rfl

/-- These tokens are read as an operand; array marks behind them belong to it. -/
def Operand (toks : List Token) (t : Ty) : Prop :=
  ∀ rest fuel, Open rest → 4 * (toks ++ rest).length + 2 ≤ fuel →
    operandAt fuel (toks ++ rest) = arrays t rest

/-- These tokens are read as a type. -/
def Reads (toks : List Token) (t : Ty) : Prop :=
  ∀ rest fuel, Behind rest → 4 * (toks ++ rest).length + 4 ≤ fuel →
    typeAt fuel (toks ++ rest) = some (t, rest)

/-- Operands with bars between them. -/
inductive Alternation : List Token → List Ty → Prop
  | one {as : List Token} {a : Ty} (h : Operand as a) : Alternation as [a]
  | more {as bs : List Token} {a : Ty} {ts : List Ty} (h : Operand as a) (rest : Alternation bs ts) :
      Alternation (as ++ [.mark .bar] ++ bs) (a :: ts)

theorem Alternation.append {ts us : List Ty} (ha : Alternation as ts) (hb : Alternation bs us) :
    Alternation (as ++ [Token.mark .bar] ++ bs) (ts ++ us) := by
  induction ha with
  | one h => exact .more h hb
  | @more as' bs' _ _ h _ ih =>
    have happend : as' ++ [Token.mark .bar] ++ bs' ++ [Token.mark .bar] ++ bs =
        as' ++ [Token.mark .bar] ++ (bs' ++ [Token.mark .bar] ++ bs) := by simp only [List.append_assoc]
    rw [happend]
    exact .more h ih

theorem operandsAt_behind {toks rest : List Token} {fuel : Nat} (h : operandAt fuel toks = some (t, rest))
    (hrest : Behind rest) : operandsAt (fuel + 1) toks = some ([t], rest) := by
  rw [operandsAt, h]
  rcases hrest with rfl | ⟨m, more, rfl, hm⟩
  · rfl
  · cases m with
    | bar => exact absurd hm (by decide)
    | _ => rfl

/-- Operands up to what stands behind a type are read one after the other. -/
theorem Alternation.reads {ts : List Ty} (h : Alternation as ts) {rest : List Token} {fuel : Nat}
    (hrest : Behind rest) (hfuel : 4 * (as ++ rest).length + 3 ≤ fuel) :
    operandsAt fuel (as ++ rest) = some (ts, rest) := by
  induction h generalizing fuel with
  | one h =>
    obtain ⟨fuel, rfl⟩ : ∃ n, fuel = n + 1 := ⟨fuel - 1, by omega⟩
    apply operandsAt_behind _ hrest
    rw [h rest fuel hrest.open (by omega), arrays_behind hrest]
  | @more as bs _ ts h _ ih =>
    obtain ⟨fuel, rfl⟩ : ∃ n, fuel = n + 1 := ⟨fuel - 1, by omega⟩
    have happend : as ++ [Token.mark .bar] ++ bs ++ rest = as ++ .mark .bar :: (bs ++ rest) := by simp
    rw [happend] at hfuel ⊢
    have hlength : (as ++ .mark .bar :: (bs ++ rest)).length = as.length + 1 + (bs ++ rest).length := by
      rw [List.length_append, List.length_cons]
      omega
    rw [operandsAt, h (.mark .bar :: (bs ++ rest)) fuel nofun (by omega)]
    simp only [arrays]
    rw [ih (by omega)]
    rfl

/-- What begins like a function type is no operand. -/
theorem operandAt_function (fuel : Nat) (p : String) (rest : List Token) :
    operandAt fuel (.mark .openRound :: .word p :: .mark .colon :: rest) = none := by
  have hword : ∀ fuel, typeAt fuel (.word p :: .mark .colon :: rest) = none ∨
      typeAt fuel (.word p :: .mark .colon :: rest) = some (unite [word p], .mark .colon :: rest) := by
    intro fuel
    match fuel with
    | 0 => exact Or.inl rfl
    | 1 => exact Or.inl rfl
    | 2 => exact Or.inl rfl
    | 3 => exact Or.inl rfl
    | fuel + 4 => exact Or.inr rfl
  match fuel with
  | 0 => rfl
  | 1 => rfl
  | fuel + 2 =>
    rw [operandAt, primaryAt]
    rcases hword fuel with h | h
    · rw [h]
      rfl
    · rw [h]
      rfl

/-- Operands with bars between them are a type, the union of what they are. -/
theorem Alternation.type {ts : List Ty} (h : Alternation as ts) : Reads as (unite ts) := by
  intro rest fuel hrest hfuel
  obtain ⟨fuel, rfl⟩ : ∃ n, fuel = n + 1 := ⟨fuel - 1, by omega⟩
  have hoperands : operandsAt fuel (as ++ rest) = some (ts, rest) := h.reads hrest (by omega)
  rw [typeAt, hoperands]
  · rfl
  · intro p more heq
    rw [heq] at hoperands
    cases fuel with
    | zero => cases hoperands
    | succ fuel =>
      rw [operandsAt, operandAt_function] at hoperands
      cases hoperands

/-! ## Operands -/

theorem operand_of_primary {toks : List Token}
    (h : ∀ rest fuel, Open rest → 4 * (toks ++ rest).length + 1 ≤ fuel →
      primaryAt fuel (toks ++ rest) = some (t, rest)) : Operand toks t := by
  intro rest fuel hrest hfuel
  obtain ⟨fuel, rfl⟩ : ∃ n, fuel = n + 1 := ⟨fuel - 1, by omega⟩
  rw [operandAt, h rest fuel hrest (by omega)]
  rfl

theorem operand_word (text : String) : Operand [.word text] (word text) := by
  apply operand_of_primary
  intro rest fuel hrest hfuel
  obtain ⟨fuel, rfl⟩ : ∃ n, fuel = n + 1 := ⟨fuel - 1, by omega⟩
  cases rest with
  | nil => rfl
  | cons e rest =>
    cases e with
    | word _ => rfl
    | mark m =>
      cases m with
      | openAngle => exact absurd rfl hrest
      | _ => rfl

theorem Operand.array (h : Operand as a) : Operand (as ++ [Token.mark .openSquare, .mark .closeSquare]) (array a) := by
  intro rest fuel _ hfuel
  have happend : as ++ [Token.mark .openSquare, .mark .closeSquare] ++ rest =
      as ++ .mark .openSquare :: .mark .closeSquare :: rest := by simp
  rw [happend] at hfuel ⊢
  rw [h (.mark .openSquare :: .mark .closeSquare :: rest) fuel nofun hfuel]
  rfl

theorem Reads.parens (h : Reads as a) : Operand ([Token.mark .openRound] ++ as ++ [Token.mark .closeRound]) a := by
  apply operand_of_primary
  intro rest fuel hrest hfuel
  have happend : [Token.mark .openRound] ++ as ++ [Token.mark .closeRound] ++ rest =
      .mark .openRound :: (as ++ .mark .closeRound :: rest) := by simp
  rw [happend, List.length_cons] at hfuel
  obtain ⟨fuel, rfl⟩ : ∃ n, fuel = n + 1 := ⟨fuel - 1, by omega⟩
  rw [happend, primaryAt, h _ fuel (Behind.mark rest (by decide)) (by omega)]

theorem Reads.generic (name : String) (ha : Reads as a) (hb : Reads bs b) :
    Operand ([Token.word name, .mark .openAngle] ++ as ++ [Token.mark .comma] ++ bs ++ [Token.mark .closeAngle])
      (of (.generic name) [a, b]) := by
  apply operand_of_primary
  intro rest fuel _ hfuel
  have happend : [Token.word name, .mark .openAngle] ++ as ++ [Token.mark .comma] ++ bs ++
      [Token.mark .closeAngle] ++ rest =
      .word name :: .mark .openAngle :: (as ++ .mark .comma :: (bs ++ .mark .closeAngle :: rest)) := by simp
  rw [happend] at hfuel ⊢
  simp only [List.length_cons] at hfuel
  have hsecond : (as ++ .mark .comma :: (bs ++ .mark .closeAngle :: rest)).length =
      as.length + 1 + (bs ++ .mark .closeAngle :: rest).length := by
    rw [List.length_append, List.length_cons]
    omega
  obtain ⟨fuel, rfl⟩ : ∃ n, fuel = n + 3 := ⟨fuel - 3, by omega⟩
  rw [primaryAt, argumentsAt, ha _ (fuel + 1) (Behind.mark _ (by decide)) (by omega)]
  simp only
  rw [argumentsAt, hb _ fuel (Behind.mark rest (by decide)) (by omega)]
  rfl

/-! ## Function types -/

theorem Reads.function (p : String) (ha : Reads as a) (hb : Reads bs b) :
    Reads ([Token.mark .openRound, .word p, .mark .colon] ++ as ++
      [Token.mark .closeRound, .mark .equals, .mark .closeAngle] ++ bs) (function p a b) := by
  intro rest fuel hrest hfuel
  have happend : [Token.mark .openRound, .word p, .mark .colon] ++ as ++
      [Token.mark .closeRound, .mark .equals, .mark .closeAngle] ++ bs ++ rest =
      .mark .openRound :: .word p :: .mark .colon ::
        (as ++ .mark .closeRound :: .mark .equals :: .mark .closeAngle :: (bs ++ rest)) := by simp
  rw [happend] at hfuel ⊢
  simp only [List.length_cons] at hfuel
  have hresult : (as ++ .mark .closeRound :: .mark .equals :: .mark .closeAngle :: (bs ++ rest)).length =
      as.length + 3 + (bs ++ rest).length := by
    simp only [List.length_append, List.length_cons]
    omega
  obtain ⟨fuel, rfl⟩ : ∃ n, fuel = n + 2 := ⟨fuel - 2, by omega⟩
  rw [typeAt, functionAt, ha _ fuel (Behind.mark _ (by decide)) (by omega)]
  simp only
  rw [hb rest fuel hrest (by omega)]
  rfl

/-! ## Members -/

def nameTokens (key : String) (isOptional : Bool) : List Token :=
  .word key :: ((if isOptional then [Token.mark .question] else []) ++ [Token.mark .colon])

inductive Members : List Token → List ((String × Bool) × Ty) → Prop
  | last {as : List Token} {a : Ty} (key : String) (isOptional : Bool) (h : Reads as a) :
      Members (nameTokens key isOptional ++ as) [((keyName key, isOptional), a)]
  | more {as bs : List Token} {a : Ty} {ms : List ((String × Bool) × Ty)} (key : String) (isOptional : Bool)
      (h : Reads as a) (rest : Members bs ms) :
      Members (nameTokens key isOptional ++ as ++ [.mark .semicolon] ++ bs) (((keyName key, isOptional), a) :: ms)

theorem membersAt_name (fuel : Nat) (key : String) (isOptional : Bool) (toks : List Token) :
    membersAt (fuel + 1) (nameTokens key isOptional ++ toks) = memberAt fuel (keyName key, isOptional) toks := by
  cases isOptional with
  | true => rfl
  | false => rfl

theorem length_nameTokens (key : String) (isOptional : Bool) : 2 ≤ (nameTokens key isOptional).length := by
  cases isOptional with
  | true => exact Nat.le_succ 2
  | false => exact Nat.le_refl 2

theorem Members.reads {ms : List ((String × Bool) × Ty)} (h : Members as ms) {rest : List Token} {fuel : Nat}
    (hfuel : 4 * (as ++ .mark .closeCurly :: rest).length ≤ fuel) :
    membersAt fuel (as ++ .mark .closeCurly :: rest) = some (ms, rest) := by
  induction h generalizing fuel with
  | @last as a key isOptional h =>
    have hname := length_nameTokens key isOptional
    rw [List.append_assoc, List.length_append] at hfuel
    obtain ⟨fuel, rfl⟩ : ∃ n, fuel = n + 2 := ⟨fuel - 2, by omega⟩
    rw [List.append_assoc, membersAt_name, memberAt, h _ fuel (Behind.mark rest (by decide)) (by omega)]
  | @more as bs a ms key isOptional h _ ih =>
    have hname := length_nameTokens key isOptional
    have happend : nameTokens key isOptional ++ as ++ [Token.mark .semicolon] ++ bs ++ .mark .closeCurly :: rest =
        nameTokens key isOptional ++ (as ++ .mark .semicolon :: (bs ++ .mark .closeCurly :: rest)) := by simp
    rw [happend] at hfuel ⊢
    have hlength : (as ++ .mark .semicolon :: (bs ++ .mark .closeCurly :: rest)).length =
        as.length + 1 + (bs ++ .mark .closeCurly :: rest).length := by
      rw [List.length_append, List.length_cons]
      omega
    rw [List.length_append] at hfuel
    obtain ⟨fuel, rfl⟩ : ∃ n, fuel = n + 2 := ⟨fuel - 2, by omega⟩
    rw [membersAt_name, memberAt, h _ fuel (Behind.mark _ (by decide)) (by omega)]
    simp only
    rw [ih (by omega)]
    rfl

theorem Members.operand {ms : List ((String × Bool) × Ty)} (h : Members as ms) :
    Operand ([Token.mark .openCurly] ++ as ++ [Token.mark .closeCurly]) (object ms) := by
  apply operand_of_primary
  intro rest fuel _ hfuel
  have happend : [Token.mark .openCurly] ++ as ++ [Token.mark .closeCurly] ++ rest =
      .mark .openCurly :: (as ++ .mark .closeCurly :: rest) := by simp
  rw [happend] at hfuel ⊢
  rw [List.length_cons] at hfuel
  obtain ⟨fuel, rfl⟩ : ∃ n, fuel = n + 1 := ⟨fuel - 1, by omega⟩
  rw [primaryAt, h.reads (by omega)]
  rfl

theorem read_of_reads {s : String} (h : Reads (tokens s) t) : read s = some t := by
  have hwhole := h [] (4 * (tokens s).length + 4) (Or.inl rfl) (Nat.le_of_eq (by rw [List.append_nil]))
  rw [List.append_nil] at hwhole
  rw [read, hwhole]

end Retype.Ty

import Retype.Proofs.Component.TypeReading
import Retype.Proofs.Component.TypeUnions
import Retype.Proofs.Component.TypeWords
import Retype.Proofs.Text.Affix

/-!
# What runtime types mean

A runtime type denotes a type by what it is made of. Its text is read as that type
exactly if no union in it has a function type among its alternatives: the printer puts
parentheses around the items of arrays only.
-/

set_option autoImplicit false

namespace Retype

/-! ## Denoted types -/

namespace Ty

def unknown : Ty := word "unknown"

def anyFunction : Ty := function "...args" (array unknown) unknown

def recordOf (value : Ty) : Ty := of (.generic "Record") [word "string", value]

end Ty

namespace LegacyType

open Ty

def heardName (name : String) : String := String.ofList (Half.heard name.toList)

def leafMeaning (kind : String) : Ty :=
  (Keyed.get? kind
    [("string", word "string"), ("number", word "number"), ("bool", word "boolean"), ("symbol", word "symbol"),
     ("func", anyFunction), ("array", array unknown), ("object", recordOf unknown),
     ("node", word "React.ReactNode"), ("element", word "React.ReactElement"),
     ("elementType", word "React.ElementType"), ("any", word "any")]).getD unknown

mutual

/-- The type that a runtime type denotes; what says nothing is unknown. -/
def meaning : LegacyType → Ty
  | named _ kind => leafMeaning kind
  | arrayOf _ item => array (meaningOf item)
  | objectOf _ value => recordOf (meaningOf value)
  | oneOf _ literals =>
    if !literals.isEmpty && literals.all TypeText.isLiteralType then unite (literals.map word) else unknown
  | oneOfType _ members => if members.isEmpty then unknown else unite (meanings members)
  | record _ _ fields => if fields.isEmpty then recordOf unknown else object (fieldMeanings fields)
  | instanceOf _ target => if target.isEmpty then unknown else word target

def meaningOf : Option LegacyType → Ty
  | none => unknown
  | some t => meaning t

def meanings : List LegacyType → List Ty
  | [] => []
  | t :: rest => meaning t :: meanings rest

def fieldMeanings : List (String × LegacyType) → List ((String × Bool) × Ty)
  | [] => []
  | (name, t) :: rest => ((heardName name, !t.required), meaning t) :: fieldMeanings rest

end

mutual

/-- Every class that is named is named by a word. -/
def isNominal : LegacyType → Bool
  | named _ _ => true
  | arrayOf _ item => isNominalOf item
  | objectOf _ value => isNominalOf value
  | oneOf _ _ => true
  | oneOfType _ members => areNominal members
  | record _ _ fields => fieldsNominal fields
  | instanceOf _ target => target.toList.all Token.Moves.isPart

def isNominalOf : Option LegacyType → Bool
  | none => true
  | some t => isNominal t

def areNominal : List LegacyType → Bool
  | [] => true
  | t :: rest => isNominal t && areNominal rest

def fieldsNominal : List (String × LegacyType) → Bool
  | [] => true
  | (_, t) :: rest => isNominal t && fieldsNominal rest

end

def text (t : LegacyType) : String := itemText (some t)

end LegacyType

/-! ## Printed types -/

open Token (Spells)

namespace Ty

/-- How the text of a clean type is read. -/
inductive Prints (s : String) (t : Ty) : Prop
  | operand (h : Operand (tokens s) t) (hsingle : t.form ≠ .union)
  | union (alts : List Ty) (h : Alternation (tokens s) alts) (hbar : '|' ∈ s.toList) (heq : unite alts = t)
      (hsingle : ∀ a ∈ alts, a.form ≠ .union)
  | function (hs : s = TypeText.function) (ht : t = anyFunction)

/-- Tokens that leave no closing parenthesis without what has to follow it. -/
def Groups (toks : List Token) : Prop := ∀ rest, isGrouped rest = true → isGrouped (toks ++ rest) = true

/-- A text that was printed for a type. -/
structure Printed (s : String) (t : Ty) : Prop where
  spelled : Spells s (tokens s)
  groups : Groups (tokens s)
  flat : t.Flat
  inhabited : t.alternatives ≠ []
  called : t.isFunction = true → t = anyFunction ∧ s = TypeText.function
  prints : t.isClean = true → Prints s t

theorem unite_single {t : Ty} (h : t.Flat) : unite [t] = t := by
  rw [unite, List.flatMap_singleton, Order.distinct_of_nodup h.nodup, h.choice]

theorem reads_function : Reads Token.functionTokens anyFunction := by
  have hunknown : Operand [.word "unknown"] unknown := operand_word "unknown"
  have hresult := (Alternation.one hunknown).type
  have hparameter := (Alternation.one hunknown.array).type
  rw [unite_single (flat_of_ne (t := unknown) nofun)] at hresult
  rw [unite_single (flat_of_ne (t := array unknown) nofun)] at hparameter
  exact hparameter.function "...args" hresult

theorem Prints.reads {s : String} {t : Ty} (h : Prints s t) (hflat : t.Flat) : Reads (tokens s) t := by
  cases h with
  | operand h _ =>
    have hone := (Alternation.one h).type
    rwa [unite_single hflat] at hone
  | union alts h _ heq => exact heq ▸ h.type
  | function hs ht =>
    rw [hs, ht, Token.spells_function.tokens_eq]
    exact reads_function

/-! ## Groups -/

section

variable {as bs : List Token}

theorem Groups.append (ha : Groups as) (hb : Groups bs) : Groups (as ++ bs) := by
  intro rest hrest
  rw [List.append_assoc]
  exact ha _ (hb rest hrest)

theorem Groups.nil : Groups [] := fun _ h => h

theorem Groups.parens (h : Groups as) :
    Groups ([Token.mark .openRound] ++ as ++ [Token.mark .closeRound] ++
      [Token.mark .openSquare, .mark .closeSquare]) := by
  intro rest hrest
  have happend : [Token.mark .openRound] ++ as ++ [Token.mark .closeRound] ++
      [Token.mark .openSquare, .mark .closeSquare] ++ rest =
      .mark .openRound :: (as ++ .mark .closeRound :: .mark .openSquare :: .mark .closeSquare :: rest) := by simp
  rw [happend]
  exact h _ hrest

theorem groups_function : Groups Token.functionTokens := fun _ hrest => hrest

end

/-! ## Printing -/

namespace Printed

variable {s : String} {t : Ty}

theorem reads (h : Printed s t) (hclean : t.isClean = true) : Reads (tokens s) t := (h.prints hclean).reads h.flat

theorem of_operand {toks : List Token} (hspells : Spells s toks) (hgroups : Groups toks) (hform : t.form ≠ .union)
    (hnone : t.isFunction = false) (h : t.isClean = true → Operand toks t) : Printed s t := by
  have htokens := hspells.tokens_eq
  refine ⟨htokens ▸ hspells, htokens ▸ hgroups, flat_of_ne hform, ?_, fun hf => absurd hf (by simp [hnone]),
    fun hclean => .operand (htokens ▸ h hclean) hform⟩
  rw [alternatives_of_ne hform]
  exact List.cons_ne_nil _ _

theorem word (hne : s ≠ "") (hmoves : Token.Moves s.toList) : Printed s (Ty.word s) :=
  of_operand (.word hne hmoves) (fun _ hrest => hrest) nofun rfl fun _ => operand_word s

theorem unknown : Printed TypeText.unknown Ty.unknown := word (by decide) (.parts (by decide))

theorem function : Printed TypeText.function anyFunction := by
  have htokens := Token.spells_function.tokens_eq
  exact ⟨htokens ▸ Token.spells_function, htokens ▸ groups_function, flat_of_ne nofun, List.cons_ne_nil _ _,
    fun _ => ⟨rfl, rfl⟩, fun _ => .function rfl rfl⟩

theorem clean_part {u : Ty} (h : t.isClean = true) (hu : u ∈ t.parts) : u.isClean = true := by
  obtain ⟨form, parts⟩ := t
  rw [isClean, Bool.and_eq_true] at h
  exact areClean_iff.mp h.2 u hu

/-- The item of an array is put in parentheses if it is a union or a function. -/
theorem array (h : Printed s t) : Printed (TypeText.group s ++ "[]") (Ty.array t) := by
  have hclean : (Ty.array t).isClean = true → t.isClean = true := fun hc => clean_part hc List.mem_cons_self
  have hmarks : Groups [.mark .openSquare, .mark .closeSquare] := fun _ hrest => hrest
  unfold TypeText.group
  split
  · exact of_operand h.spelled.parens.array h.groups.parens nofun rfl fun hc => (h.reads (hclean hc)).parens.array
  · next hplain =>
    refine of_operand h.spelled.array (h.groups.append hmarks) nofun rfl fun hc => ?_
    cases h.prints (hclean hc) with
    | operand h _ => exact h.array
    | union alts h hbar _ _ => exact absurd (by simp [Affix.occurs, Affix.occursIn_singleton.mpr hbar]) hplain
    | function hs ht => exact absurd (by rw [hs]; decide) hplain

theorem record (h : Printed s t) : Printed ("Record<string, " ++ s ++ ">") (recordOf t) := by
  have hkey := (Alternation.one (operand_word "string")).type
  rw [unite_single (flat_of_ne (t := Ty.word "string") nofun)] at hkey
  have hopen : Groups [.word "Record", .mark .openAngle, .word "string", .mark .comma] := fun _ hrest => hrest
  have hclose : Groups [.mark .closeAngle] := fun _ hrest => hrest
  refine of_operand h.spelled.record ((hopen.append h.groups).append hclose) nofun rfl fun hc => ?_
  exact hkey.generic "Record" (h.reads (clean_part hc (List.mem_cons_of_mem _ List.mem_cons_self)))

/-! ## Lists of texts -/

def separated (m : Mark) : List String → List Token
  | [] => []
  | [s] => tokens s
  | s :: rest => tokens s ++ [.mark m] ++ separated m rest

theorem spells_separated {sep : String} {m : Mark} {texts : List String} (hsep : Token.Closes sep [.mark m])
    (hends : Token.Separates sep) (hne : texts ≠ []) (h : ∀ s ∈ texts, Spells s (tokens s)) :
    Spells (String.intercalate sep texts) (separated m texts) := by
  induction texts with
  | nil => exact absurd rfl hne
  | cons s texts ih =>
    have hs := h s List.mem_cons_self
    cases texts with
    | nil =>
      rw [String.intercalate_singleton]
      exact hs
    | cons u texts =>
      rw [String.intercalate_cons_cons]
      exact hs.between hsep hends (ih (List.cons_ne_nil u texts) fun v hv => h v (List.mem_cons_of_mem s hv))

theorem groups_separated {m : Mark} {texts : List String} (hm : Groups [.mark m])
    (h : ∀ s ∈ texts, Groups (tokens s)) : Groups (separated m texts) := by
  induction texts with
  | nil => exact Groups.nil
  | cons s texts ih =>
    have hs := h s List.mem_cons_self
    cases texts with
    | nil => exact hs
    | cons u texts => exact (hs.append hm).append (ih fun v hv => h v (List.mem_cons_of_mem s hv))

theorem closes_bar : Token.Closes " | " [.mark .bar] := fun _ => rfl

theorem separates_bar : Token.Separates " | " := ⟨' ', _, rfl, Or.inl rfl⟩

/-! ## Unions -/

/-- The operands that a text is read as. -/
def operandsOf (s : String) : List Ty :=
  ((operandsAt (4 * (tokens s).length + 3) (tokens s)).map Prod.fst).getD []

theorem operandsOf_eq {alts : List Ty} (h : Alternation (tokens s) alts) : operandsOf s = alts := by
  have hreads : operandsAt (4 * (tokens s).length + 3) (tokens s ++ []) = some (alts, []) :=
    h.reads (Or.inl rfl) (by rw [List.append_nil])
  rw [List.append_nil] at hreads
  rw [operandsOf, hreads]
  rfl

theorem alternation_separated {texts : List String} (hne : texts ≠ [])
    (h : ∀ s ∈ texts, Alternation (tokens s) (operandsOf s)) :
    Alternation (separated .bar texts) (texts.flatMap operandsOf) := by
  induction texts with
  | nil => exact absurd rfl hne
  | cons s texts ih =>
    have hs := h s List.mem_cons_self
    cases texts with
    | nil =>
      rw [List.flatMap_singleton]
      exact hs
    | cons u texts =>
      exact hs.append (ih (List.cons_ne_nil u texts) fun v hv => h v (List.mem_cons_of_mem s hv))

/-- A text of no function type is read as operands, of which its type is the union. -/
theorem operands (h : Prints s t) (hflat : t.Flat) (hfunction : t.isFunction = false) :
    Alternation (tokens s) (operandsOf s) ∧ unite (operandsOf s) = t ∧
      t.alternatives = Order.distinct (operandsOf s) := by
  have of_alternation : ∀ alts : List Ty, Alternation (tokens s) alts → unite alts = t →
      (∀ a ∈ alts, a.form ≠ .union) → Alternation (tokens s) (operandsOf s) ∧ unite (operandsOf s) = t ∧
        t.alternatives = Order.distinct (operandsOf s) := by
    intro alts halts heq hsingle
    rw [operandsOf_eq halts]
    refine ⟨halts, heq, ?_⟩
    have hself := flatMap_alternatives hsingle
    rw [← heq, alternatives_unite fun a ha => flat_of_ne (hsingle a ha), hself]
  cases h with
  | operand h hsingle =>
    exact of_alternation [t] (.one h) (unite_single hflat) fun a ha => List.mem_singleton.mp ha ▸ hsingle
  | union alts h _ heq hsingle => exact of_alternation alts h heq hsingle
  | function hs ht =>
    rw [ht] at hfunction
    cases hfunction

section

variable {ι : Type} {ms : List ι} {text : ι → String} {type : ι → Ty}

theorem unite_operands (h : ∀ m ∈ ms, (type m).alternatives = Order.distinct (operandsOf (text m))) :
    unite (ms.map type) = choice (Order.distinct ((Order.distinct (ms.map text)).flatMap operandsOf)) := by
  have hall : ms.flatMap (fun m => (type m).alternatives) =
      ms.flatMap fun m => Order.distinct (operandsOf (text m)) := List.flatMap_congr h
  rw [unite, List.flatMap_map, hall, Order.distinct_flatMap_distinct, Order.distinct_distinct_flatMap,
    List.flatMap_map]

/-- In a clean union the types that are united are clean and no functions, unless it is one itself. -/
theorem clean_member (h : ∀ m ∈ ms, (type m).Flat) (hclean : (unite (ms.map type)).isClean = true)
    (hfunction : (unite (ms.map type)).isFunction = false) {m : ι} (hm : m ∈ ms) :
    (type m).isClean = true ∧ (type m).isFunction = false := by
  have hflats : ∀ t ∈ ms.map type, t.Flat := by
    intro t ht
    obtain ⟨n, hn, rfl⟩ := List.mem_map.mp ht
    exact h n hn
  obtain ⟨hparts, hfunctions⟩ := isClean_iff.mp hclean
  rw [hfunction, alternatives_unite hflats] at hfunctions
  rw [alternatives_unite hflats] at hparts
  have hmem : ∀ a ∈ (type m).alternatives, a ∈ Order.distinct ((ms.map type).flatMap alternatives) := fun a ha =>
    Order.mem_distinct.mpr (List.mem_flatMap.mpr ⟨type m, List.mem_map_of_mem hm, ha⟩)
  have hnone : ∀ a ∈ (type m).alternatives, a.isFunction = false := fun a ha =>
    hfunctions.resolve_left nofun a (hmem a ha)
  refine ⟨isClean_iff.mpr ⟨fun a ha => hparts a (hmem a ha), Or.inr hnone⟩, ?_⟩
  by_cases hunion : (type m).form = .union
  · rw [isFunction, hunion]
  · exact hnone (type m) (by rw [alternatives_of_ne hunion]; exact List.mem_singleton_self _)

theorem texts_ne_nil (text : ι → String) (hne : ms ≠ []) : Order.distinct (ms.map text) ≠ [] := by
  obtain ⟨m, hm⟩ := List.exists_mem_of_ne_nil ms hne
  exact List.ne_nil_of_mem (Order.mem_distinct.mpr (List.mem_map_of_mem (f := text) hm))

theorem forall_texts {P : String → Prop} (h : ∀ m ∈ ms, P (text m)) : ∀ s ∈ Order.distinct (ms.map text), P s := by
  intro s hs
  obtain ⟨m, hm, rfl⟩ := List.mem_map.mp (Order.mem_distinct.mp hs)
  exact h m hm

theorem union_const {s : String} (hne : ms ≠ []) (h : ∀ m ∈ ms, text m = s) : TypeText.union (ms.map text) = s := by
  rw [TypeText.union, Order.single_of_nodup (texts_ne_nil text hne) (Order.nodup_distinct _) (forall_texts h),
    String.intercalate_singleton]

theorem prints_union (hne : ms ≠ []) (h : ∀ m ∈ ms, Printed (text m) (type m))
    (hclean : (unite (ms.map type)).isClean = true) (hfunction : (unite (ms.map type)).isFunction = false) :
    Prints (TypeText.union (ms.map text)) (unite (ms.map type)) := by
  have hoperands : ∀ m ∈ ms, Prints (text m) (type m) ∧ Alternation (tokens (text m)) (operandsOf (text m)) ∧
      unite (operandsOf (text m)) = type m ∧ (type m).alternatives = Order.distinct (operandsOf (text m)) := by
    intro m hm
    obtain ⟨hmclean, hmfunction⟩ := clean_member (fun m hm => (h m hm).flat) hclean hfunction hm
    have hprints := (h m hm).prints hmclean
    exact ⟨hprints, operands hprints (h m hm).flat hmfunction⟩
  have heq := unite_operands fun m hm => (hoperands m hm).2.2.2
  have htexts : ∀ s ∈ Order.distinct (ms.map text), ∃ m ∈ ms, text m = s := forall_texts fun m hm => ⟨m, hm, rfl⟩
  have hspells : ∀ s ∈ Order.distinct (ms.map text), Spells s (tokens s) := forall_texts fun m hm => (h m hm).spelled
  have halternation : ∀ s ∈ Order.distinct (ms.map text), Alternation (tokens s) (operandsOf s) :=
    forall_texts fun m hm => (hoperands m hm).2.1
  have hsingle : ∀ a ∈ (Order.distinct (ms.map text)).flatMap operandsOf, a.form ≠ .union := by
    intro a ha
    obtain ⟨s, hs, ha⟩ := List.mem_flatMap.mp ha
    obtain ⟨m, hm, rfl⟩ := htexts s hs
    apply (h m hm).flat.single
    rw [(hoperands m hm).2.2.2]
    exact Order.mem_distinct.mpr ha
  have hne := texts_ne_nil text hne
  have htokens := (spells_separated closes_bar separates_bar hne hspells).tokens_eq
  have hunion := alternation_separated hne halternation
  have hunite := flatMap_alternatives hsingle
  rw [heq, TypeText.union]
  generalize Order.distinct (ms.map text) = texts at *
  cases texts with
  | nil => exact absurd rfl hne
  | cons s rest =>
    cases rest with
    | nil =>
      obtain ⟨m, hm, rfl⟩ := htexts s List.mem_cons_self
      rw [String.intercalate_singleton, List.flatMap_singleton, ← (hoperands m hm).2.2.2, (h m hm).flat.choice]
      exact (hoperands m hm).1
    | cons u rest =>
      refine .union _ (htokens ▸ hunion) ?_ (by rw [unite, hunite]) hsingle
      rw [String.intercalate_cons_cons]
      simp

/-- What is written with bars means the union of what is written between them. -/
theorem union (hne : ms ≠ []) (h : ∀ m ∈ ms, Printed (text m) (type m)) :
    Printed (TypeText.union (ms.map text)) (unite (ms.map type)) := by
  have hspells : ∀ s ∈ Order.distinct (ms.map text), Spells s (tokens s) := forall_texts fun m hm => (h m hm).spelled
  have hgroups : ∀ s ∈ Order.distinct (ms.map text), Groups (tokens s) := forall_texts fun m hm => (h m hm).groups
  have hflats : ∀ t ∈ ms.map type, t.Flat := by
    intro t ht
    obtain ⟨m, hm, rfl⟩ := List.mem_map.mp ht
    exact (h m hm).flat
  have hfunction : (unite (ms.map type)).isFunction = true →
      unite (ms.map type) = anyFunction ∧ ∀ m ∈ ms, text m = TypeText.function := by
    intro hf
    have hall : ∀ m ∈ ms, type m = unite (ms.map type) := fun m hm =>
      eq_of_unite_function hflats hf (List.mem_map_of_mem hm) (h m hm).inhabited
    obtain ⟨m, hm⟩ := List.exists_mem_of_ne_nil ms hne
    refine ⟨hall m hm ▸ ((h m hm).called (hall m hm ▸ hf)).1, fun n hn => ?_⟩
    exact ((h n hn).called (hall n hn ▸ hf)).2
  have hbarred := spells_separated closes_bar separates_bar (texts_ne_nil text hne) hspells
  have htokens : tokens (TypeText.union (ms.map text)) = separated .bar (Order.distinct (ms.map text)) :=
    hbarred.tokens_eq
  refine ⟨htokens ▸ hbarred, htokens ▸ groups_separated (fun _ h => h) hgroups, flat_unite hflats, ?_,
    fun hf => ⟨(hfunction hf).1, union_const hne (hfunction hf).2⟩, fun hclean => ?_⟩
  · obtain ⟨m, hm⟩ := List.exists_mem_of_ne_nil ms hne
    obtain ⟨a, ha⟩ := List.exists_mem_of_ne_nil _ (h m hm).inhabited
    rw [alternatives_unite hflats]
    exact List.ne_nil_of_mem (Order.mem_distinct.mpr (List.mem_flatMap.mpr ⟨type m, List.mem_map_of_mem hm, ha⟩))
  · cases hf : (unite (ms.map type)).isFunction with
    | false => exact prints_union hne h hclean hf
    | true =>
      obtain ⟨heq, hall⟩ := hfunction hf
      exact .function (union_const hne hall) heq

end

/-! ## Objects -/

open LegacyType (heardName meaning)

theorem unit?_of_lt {c : Char} (h : c.toNat < 0x10D800) : Half.unit? c = none := by
  rw [Half.unit?, if_neg]
  rw [Bool.and_eq_true, decide_eq_true_eq]
  omega

theorem heardName_plain {name : String} (h : TypeText.isPlainName name = true) : heardName name = name := by
  have hpart : ∀ c, TypeText.isIdentifierPart c = true ∨ c = '\n' → Half.unit? c = none := by
    intro c hc
    simp only [TypeText.isIdentifierPart, Alphabet.isWord, Bool.or_eq_true, decide_eq_true_eq] at hc
    rcases hc with ((rfl | hc) | rfl) | rfl
    · rfl
    · exact unit?_of_lt (Alphabet.isLetterOrDigit_lt hc)
    · rfl
    · rfl
  obtain ⟨c, rest, hname, hc, hrest⟩ := TypeText.plainName_cons h
  rw [heardName, Half.heard_of_none, String.ofList_toList]
  intro d hd
  rw [hname] at hd
  rcases List.mem_cons.mp hd with rfl | hd
  · exact hpart d (Or.inl (TypeText.isIdentifierPart_of_start hc))
  · exact hpart d (hrest d hd)

/-- A property name is read as it is heard. -/
theorem keyName_propertyName (name : String) : keyName (TypeText.propertyName name) = heardName name := by
  unfold TypeText.propertyName
  split
  · next h =>
    obtain ⟨c, rest, hname, hc, -⟩ := TypeText.plainName_cons h
    unfold keyName
    split
    · next heq =>
      rw [hname] at heq
      cases heq
      cases hc
    · exact (heardName_plain h).symm
  · unfold keyName
    have hlength := Json.length_le_escapes name.toList
    rw [Json.toList_quote]
    simp only
    rw [Json.stringBody_heard (by rw [List.length_append]; omega)]
    rfl

def fieldText (f : String × LegacyType) : String :=
  TypeText.propertyName f.1 ++ (if f.2.required then "" else "?") ++ ": " ++ f.2.text

def fieldMeaning (f : String × LegacyType) : (String × Bool) × Ty := ((heardName f.1, !f.2.required), meaning f.2)

theorem fieldTexts_eq (fields : List (String × LegacyType)) :
    LegacyType.fieldTexts fields = fields.map fieldText := by
  induction fields with
  | nil => rfl
  | cons f fields ih =>
    obtain ⟨name, t⟩ := f
    rw [LegacyType.fieldTexts, ih]
    rfl

theorem fieldMeanings_eq (fields : List (String × LegacyType)) :
    LegacyType.fieldMeanings fields = fields.map fieldMeaning := by
  induction fields with
  | nil => rfl
  | cons f fields ih =>
    obtain ⟨name, t⟩ := f
    rw [LegacyType.fieldMeanings, ih]
    rfl

theorem spells_name (name : String) (isOptional : Bool) :
    Token.Closes (TypeText.propertyName name ++ (if isOptional then "?" else "") ++ ": ")
      (nameTokens (TypeText.propertyName name) isOptional) := by
  have hne : TypeText.propertyName name ≠ "" := by
    unfold TypeText.propertyName
    split
    · rintro rfl
      contradiction
    · intro hempty
      have hquote := Json.toList_quote name
      rw [hempty] at hquote
      cases hquote
  have hword := Spells.word hne (Token.moves_propertyName name)
  cases isOptional with
  | true =>
    have hmark : Token.Closes "?: " [.mark .question, .mark .colon] := fun _ => rfl
    have happend : TypeText.propertyName name ++ (if true = true then "?" else "") ++ ": " =
        TypeText.propertyName name ++ "?: " := by rw [String.append_assoc]; rfl
    rw [happend]
    exact hword.append_closes hmark ⟨'?', _, rfl, Or.inr rfl⟩
  | false =>
    have hmark : Token.Closes ": " [.mark .colon] := fun _ => rfl
    have happend : TypeText.propertyName name ++ (if false = true then "?" else "") ++ ": " =
        TypeText.propertyName name ++ ": " := by rw [String.append_assoc]; rfl
    rw [happend]
    exact hword.append_closes hmark ⟨':', _, rfl, Or.inr rfl⟩

theorem spells_field {f : String × LegacyType} (h : Spells f.2.text (tokens f.2.text)) :
    Spells (fieldText f) (nameTokens (TypeText.propertyName f.1) (!f.2.required) ++ tokens f.2.text) := by
  have hfield := (spells_name f.1 (!f.2.required)).append_spells h
  unfold fieldText
  cases hr : f.2.required with
  | true =>
    rw [hr] at hfield
    exact hfield
  | false =>
    rw [hr] at hfield
    exact hfield

theorem members_fields {fields : List (String × LegacyType)} (hne : fields ≠ [])
    (h : ∀ f ∈ fields, Spells f.2.text (tokens f.2.text) ∧ Reads (tokens f.2.text) (meaning f.2)) :
    Members (separated .semicolon (fields.map fieldText)) (fields.map fieldMeaning) := by
  induction fields with
  | nil => exact absurd rfl hne
  | cons f fields ih =>
    obtain ⟨hspells, hreads⟩ := h f List.mem_cons_self
    have hname : fieldMeaning f = ((keyName (TypeText.propertyName f.1), !f.2.required), meaning f.2) := by
      rw [keyName_propertyName, fieldMeaning]
    cases fields with
    | nil =>
      rw [List.map_singleton, List.map_singleton, separated, (spells_field hspells).tokens_eq, hname]
      exact .last _ _ hreads
    | cons g fields =>
      rw [List.map_cons, List.map_cons, List.map_cons, separated, (spells_field hspells).tokens_eq, hname]
      · exact .more _ _ hreads (ih (List.cons_ne_nil g fields) fun e he => h e (List.mem_cons_of_mem f he))
      · exact nofun

theorem spelled_field {f : String × LegacyType} (h : Printed f.2.text (meaning f.2)) :
    Spells (fieldText f) (tokens (fieldText f)) ∧ Groups (tokens (fieldText f)) := by
  have hfield := spells_field h.spelled
  rw [hfield.tokens_eq]
  refine ⟨hfield, Groups.append ?_ h.groups⟩
  cases f.2.required with
  | true => exact fun _ hrest => hrest
  | false => exact fun _ hrest => hrest

/-- What is written between braces means the object with a member for each field. -/
theorem object {fields : List (String × LegacyType)} (hne : fields ≠ [])
    (h : ∀ f ∈ fields, Printed f.2.text (meaning f.2)) :
    Printed ("\x7b " ++ String.intercalate "; " (fields.map fieldText) ++ " \x7d")
      (Ty.object (fields.map fieldMeaning)) := by
  have hspells : ∀ s ∈ fields.map fieldText, Spells s (tokens s) :=
    List.forall_mem_map.mpr fun f hf => (spelled_field (h f hf)).1
  have hgroups : ∀ s ∈ fields.map fieldText, Groups (tokens s) :=
    List.forall_mem_map.mpr fun f hf => (spelled_field (h f hf)).2
  have hsep : Token.Closes "; " [.mark .semicolon] := fun _ => rfl
  have hopen : Token.Closes "\x7b " [.mark .openCurly] := fun _ => rfl
  have hclose : Token.Closes " \x7d" [.mark .closeCurly] := fun _ => rfl
  have hfields := spells_separated hsep ⟨';', _, rfl, Or.inr rfl⟩ (fun hnil => hne (List.map_eq_nil_iff.mp hnil))
    hspells
  have hwhole := ((hopen.append_spells hfields).append_closes hclose ⟨' ', _, rfl, Or.inl rfl⟩).spells
  have hcurly : Groups [.mark .openCurly] := fun _ hrest => hrest
  have hend : Groups [.mark .closeCurly] := fun _ hrest => hrest
  have hsemicolon : Groups [.mark .semicolon] := fun _ hrest => hrest
  have hgroup := (hcurly.append (groups_separated hsemicolon hgroups)).append hend
  refine of_operand hwhole hgroup nofun rfl fun hclean => (members_fields hne fun f hf => ?_).operand
  refine ⟨(h f hf).spelled, (h f hf).reads (clean_part hclean ?_)⟩
  exact List.mem_map.mpr ⟨fieldMeaning f, List.mem_map_of_mem hf, rfl⟩

end Printed

end Ty

/-! ## Runtime types -/

namespace LegacyType

open Ty

/-- The kinds that say everything by their names, with what is written for them and what they denote. -/
def leaves : List (String × String × Ty) :=
  [("string", "string", word "string"), ("number", "number", word "number"), ("bool", "boolean", word "boolean"),
   ("symbol", "symbol", word "symbol"), ("func", TypeText.function, anyFunction),
   ("array", TypeText.group TypeText.unknown ++ "[]", array unknown),
   ("object", "Record<string, " ++ TypeText.unknown ++ ">", recordOf unknown),
   ("node", "React.ReactNode", word "React.ReactNode"), ("element", "React.ReactElement", word "React.ReactElement"),
   ("elementType", "React.ElementType", word "React.ElementType"), ("any", "any", word "any")]

theorem printed_leaves : ∀ e ∈ leaves, Printed e.2.1 e.2.2 := by
  have hparts : ∀ w ∈ ["string", "number", "boolean", "symbol", "React.ReactNode", "React.ReactElement",
      "React.ElementType", "any"], w ≠ "" ∧ w.toList.all Token.Moves.isPart = true := by decide +kernel
  have hword : ∀ w ∈ ["string", "number", "boolean", "symbol", "React.ReactNode", "React.ReactElement",
      "React.ElementType", "any"], Printed w (word w) := fun w hw =>
    Printed.word (hparts w hw).1 (.parts (hparts w hw).2)
  simp only [List.forall_mem_cons, leaves] at hword ⊢
  obtain ⟨hstring, hnumber, hboolean, hsymbol, hnode, helement, helementType, hany, -⟩ := hword
  exact ⟨hstring, hnumber, hboolean, hsymbol, Printed.function, Printed.unknown.array, Printed.unknown.record,
    hnode, helement, helementType, hany, nofun⟩

theorem printed_leaf (kind : String) : Printed ((namedText? kind).getD TypeText.unknown) (leafMeaning kind) := by
  have htext : namedText? kind = (Keyed.get? kind leaves).map Prod.fst := by
    rw [← Keyed.get?_mapValues]
    rfl
  have hmeaning : leafMeaning kind = ((Keyed.get? kind leaves).map Prod.snd).getD unknown := by
    rw [← Keyed.get?_mapValues]
    rfl
  rw [htext, hmeaning]
  cases h : Keyed.get? kind leaves with
  | none => exact Printed.unknown
  | some e => exact printed_leaves (kind, e) (Keyed.get?_of_mem h)

theorem memberTexts_eq (members : List LegacyType) : memberTexts members = members.map text := by
  induction members with
  | nil => rfl
  | cons t members ih =>
    rw [memberTexts, ih]
    rfl

theorem meanings_eq (members : List LegacyType) : meanings members = members.map meaning := by
  induction members with
  | nil => rfl
  | cons t members ih =>
    rw [meanings, ih]
    rfl

theorem printed_oneOf (required : Bool) (literals : List String) :
    Printed (oneOf required literals).text (meaning (oneOf required literals)) := by
  rw [text, itemText, typeText?, meaning]
  split
  · next h =>
    obtain ⟨hne, hall⟩ := Bool.and_eq_true_iff.mp h
    have hliterals : ∀ l ∈ literals, Printed l (word l) := by
      intro l hl
      have hliteral := List.all_eq_true.mp hall l hl
      refine Printed.word ?_ (Token.moves_literal hliteral)
      rintro rfl
      exact absurd hliteral (by decide)
    have hunion : Printed (TypeText.union (literals.map id)) (unite (literals.map word)) :=
      Printed.union (by simpa using hne) hliterals
    rwa [List.map_id] at hunion
  · exact Printed.unknown

theorem printed_oneOfType (required : Bool) {members : List LegacyType}
    (h : ∀ t ∈ members, Printed t.text (meaning t)) :
    Printed (oneOfType required members).text (meaning (oneOfType required members)) := by
  rw [text, itemText, typeText?, meaning]
  split
  · exact Printed.unknown
  · next hne =>
    rw [memberTexts_eq, meanings_eq]
    exact Printed.union (by simpa using hne) h

theorem printed_record (required exact : Bool) {fields : List (String × LegacyType)}
    (h : ∀ f ∈ fields, Printed f.2.text (meaning f.2)) :
    Printed (record required exact fields).text (meaning (record required exact fields)) := by
  rw [text, itemText, typeText?, meaning]
  split
  · exact Printed.unknown.record
  · next hne =>
    rw [Printed.fieldTexts_eq, Printed.fieldMeanings_eq]
    exact Printed.object (by simpa using hne) h

theorem printed_instanceOf (required : Bool) {target : String} (h : target.toList.all Token.Moves.isPart = true) :
    Printed (instanceOf required target).text (meaning (instanceOf required target)) := by
  rw [text, itemText, typeText?, meaning, nonEmpty]
  split
  · exact Printed.unknown
  · next hne =>
    refine Printed.word ?_ (.parts h)
    rintro rfl
    exact hne rfl

mutual

theorem printed : ∀ t : LegacyType, t.isNominal = true → Printed t.text (meaning t)
  | named _ kind, _ => printed_leaf kind
  | arrayOf _ item, h => (printedOf item h).array
  | objectOf _ value, h => (printedOf value h).record
  | oneOf required literals, _ => printed_oneOf required literals
  | oneOfType required members, h => printed_oneOfType required (printedAll members h)
  | record required exact fields, h => printed_record required exact (printedFields fields h)
  | instanceOf required _, h => printed_instanceOf required h

theorem printedOf : ∀ item : Option LegacyType, isNominalOf item = true → Printed (itemText item) (meaningOf item)
  | none, _ => Printed.unknown
  | some t, h => printed t h

theorem printedAll : ∀ ts : List LegacyType, areNominal ts = true → ∀ t ∈ ts, Printed t.text (meaning t)
  | [], _, t, ht => nomatch ht
  | u :: ts, h, t, ht => by
    have hboth := Bool.and_eq_true_iff.mp h
    rcases List.mem_cons.mp ht with heq | ht
    · exact heq ▸ printed u hboth.1
    · exact printedAll ts hboth.2 t ht

theorem printedFields : ∀ fs : List (String × LegacyType), fieldsNominal fs = true →
    ∀ f ∈ fs, Printed f.2.text (meaning f.2)
  | [], _, f, hf => nomatch hf
  | (name, u) :: fs, h, f, hf => by
    have hboth := Bool.and_eq_true_iff.mp h
    rcases List.mem_cons.mp hf with heq | hf
    · exact heq ▸ printed u hboth.1
    · exact printedFields fs hboth.2 f hf

end

/-- The text of a runtime type is read as the type that it denotes exactly if no function type is among
the alternatives of a union there. -/
theorem read_text (t : LegacyType) (h : t.isNominal = true) :
    Ty.read t.text = some (meaning t) ↔ (meaning t).isClean = true := by
  have hprinted := printed t h
  constructor
  · refine clean_of_read ?_
    rw [← List.append_nil (tokens t.text)]
    exact hprinted.groups [] rfl
  · exact fun hclean => read_of_reads (hprinted.reads hclean)

def nested : LegacyType :=
  objectOf false (some (arrayOf false (some (oneOfType false [named false "string",
    arrayOf false (some (named false "func")),
    record false false [("a-b", named true "bool"), ("c", oneOf false ["'x | y'", "1"])]]))))

theorem read_text_nested : nested.isNominal = true ∧ Ty.read nested.text = some (meaning nested) :=
  ⟨by decide, (read_text nested (by decide)).mpr (by decide +kernel)⟩

def callbackOrText : LegacyType := oneOfType false [named false "func", named false "string"]

/-- The function type takes the rest of the union for its result. -/
theorem read_text_callback :
    meaning callbackOrText = unite [anyFunction, word "string"] ∧
      Ty.read callbackOrText.text =
        some (Ty.function "...args" (array unknown) (unite [unknown, word "string"])) ∧
      Ty.read callbackOrText.text ≠ some (meaning callbackOrText) := by
  decide +kernel

end LegacyType

end Retype

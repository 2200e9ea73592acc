import Retype.Text.Alphabet

/-!
# Identifiers

An identifier begins with a letter, a low line or a dollar sign, and goes on with these and
digits. Beyond ASCII a script says which characters count, and any character of a name may
be written as an escape: `\u` with four hexadecimal digits, or with some in braces.
-/

set_option autoImplicit false

namespace Retype

/-- The characters beyond ASCII that may begin a name, and those that may stand in one. -/
structure Script where
  start : Char → Bool
  part : Char → Bool

namespace Script

def ascii : Script := ⟨fun _ => false, fun _ => false⟩

/-- How far a name has been read: nothing of it, a part of it that is a name, or a part of
an escape. -/
inductive Place where
  | first
  | later
  | slash
  | mark
  | digits (due : Nat)
  | braces (seen : Bool)
  deriving DecidableEq, Repr

variable (x : Script)

def begins (c : Char) : Bool :=
  Alphabet.isAsciiLetter c || c = '_' || c = '$' || (126 < c.toNat && x.start c)

def continues (c : Char) : Bool :=
  Alphabet.isAsciiLetter c || ('0' ≤ c && c ≤ '9') || c = '_' || c = '$' || (126 < c.toNat && x.part c)

def isHexDigit (c : Char) : Bool :=
  ('0' ≤ c && c ≤ '9') || ('a' ≤ c && c ≤ 'f') || ('A' ≤ c && c ≤ 'F')

/-- Reads one character of a name. -/
def step (p : Place) (c : Char) : Option Place :=
  match p with
  | .first => if c = '\\' then some .slash else if x.begins c then some .later else none
  | .later => if c = '\\' then some .slash else if x.continues c then some .later else none
  | .slash => if c = 'u' then some .mark else none
  | .mark =>
    if c = '\x7b' then some (.braces false) else if isHexDigit c then some (.digits 2) else none
  | .digits 0 => if isHexDigit c then some .later else none
  | .digits (due + 1) => if isHexDigit c then some (.digits due) else none
  | .braces seen =>
    if c = '\x7d' then (if seen then some .later else none)
    else if isHexDigit c then some (.braces true) else none

def isIdentifier (s : String) : Bool := s.toList.foldlM x.step .first = some .later

/-! ## Names with an ending -/

def isPlain (c : Char) : Bool := Alphabet.isAsciiLetter c && !isHexDigit c && c ≠ 'u'

/-- Such a letter goes on with a name and with nothing else. -/
theorem step_plain {c : Char} (h : isPlain c = true) (p : Place) :
    x.step p c = if p = .first ∨ p = .later then some .later else none := by
  simp only [isPlain, Bool.and_eq_true, Bool.not_eq_true', decide_eq_true_eq] at h
  obtain ⟨⟨hletter, hhex⟩, hu⟩ := h
  have hslash : c ≠ '\\' := by
    rintro rfl
    exact absurd hletter (by decide)
  have hopen : c ≠ '\x7b' := by
    rintro rfl
    exact absurd hletter (by decide)
  have hclose : c ≠ '\x7d' := by
    rintro rfl
    exact absurd hletter (by decide)
  cases p with
  | first => simp [step, hslash, begins, hletter]
  | later => simp [step, hslash, continues, hletter]
  | slash => simp [step, hu]
  | mark => simp [step, hopen, hhex]
  | digits due => cases due <;> simp [step, hhex]
  | braces seen => simp [step, hclose, hhex]

theorem step_ne_first {p : Place} {c : Char} : x.step p c ≠ some .first := by
  unfold step
  repeat' split
  all_goals simp

theorem read_eq_first {p : Place} {cs : List Char} (h : cs.foldlM x.step p = some .first) : cs = [] := by
  induction cs generalizing p with
  | nil => rfl
  | cons c cs ih =>
    rw [List.foldlM_cons] at h
    obtain ⟨q, hq, hrest⟩ := Option.bind_eq_some_iff.mp h
    rw [ih hrest, List.foldlM_nil] at hrest
    cases hrest
    exact absurd hq x.step_ne_first

theorem read_plain {cs : List Char} (hne : cs ≠ []) (hplain : ∀ c ∈ cs, isPlain c = true) (p : Place) :
    cs.foldlM x.step p = some .later ↔ p = .first ∨ p = .later := by
  induction cs generalizing p with
  | nil => exact absurd rfl hne
  | cons c cs ih =>
    rw [List.foldlM_cons, x.step_plain (hplain c List.mem_cons_self)]
    by_cases hp : p = .first ∨ p = .later
    · rw [if_pos hp]
      refine iff_of_true ?_ hp
      by_cases hcs : cs = []
      · rw [hcs]
        rfl
      · exact (ih hcs (fun d hd => hplain d (List.mem_cons_of_mem c hd)) .later).mpr (Or.inr rfl)
    · rw [if_neg hp]
      exact iff_of_false (fun h => by cases h) hp

/-- With plain letters at its end a text is a name exactly if it is one without them, or
nothing. -/
theorem isIdentifier_append {s ending : String} (hne : ending.toList ≠ [])
    (hplain : ∀ c ∈ ending.toList, isPlain c = true) :
    x.isIdentifier (s ++ ending) = true ↔ s = "" ∨ x.isIdentifier s = true := by
  have hread : x.isIdentifier (s ++ ending) = true ↔
      ∃ p, s.toList.foldlM x.step .first = some p ∧ (p = .first ∨ p = .later) := by
    rw [isIdentifier, decide_eq_true_eq, String.toList_append, List.foldlM_append]
    simp only [Option.bind_eq_bind, Option.bind_eq_some_iff, x.read_plain hne hplain]
  rw [hread, isIdentifier, decide_eq_true_eq]
  constructor
  · rintro ⟨p, hp, rfl | rfl⟩
    · exact Or.inl (String.toList_inj.mp (x.read_eq_first hp))
    · exact Or.inr hp
  · rintro (rfl | hs)
    · exact ⟨.first, rfl, Or.inl rfl⟩
    · exact ⟨.later, hs, Or.inr rfl⟩

end Script

end Retype

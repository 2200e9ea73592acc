import Retype.Proofs.Component.TypeGrammar

/-!
# Unions

A union is the list of its alternatives. Where every closing parenthesis has an array
mark or an arrow behind it, whatever is read has no function type among the
alternatives of a union.
-/

set_option autoImplicit false

namespace Retype.Ty

open Retype.Order (distinct)

variable {t : Ty} {ts : List Ty}

/-! ## Alternatives -/

theorem alternatives_of_ne (h : t.form ≠ .union) : t.alternatives = [t] := by
  obtain ⟨form, parts⟩ := t
  cases form with
  | union => exact absurd rfl h
  | _ => rfl

theorem alternatives_choice (h : ∀ a ∈ ts, a.form ≠ .union) : (choice ts).alternatives = ts := by
  match ts with
  | [] => rfl
  | [t] => exact alternatives_of_ne (h t List.mem_cons_self)
  | _ :: _ :: _ => rfl

/-- A union of different types that are no unions themselves, and not of a single one. -/
structure Flat (t : Ty) : Prop where
  nodup : t.alternatives.Nodup
  single : ∀ a ∈ t.alternatives, a.form ≠ .union
  choice : choice t.alternatives = t

theorem flat_of_ne (h : t.form ≠ .union) : t.Flat := by
  have halternatives := alternatives_of_ne h
  refine ⟨?_, ?_, ?_⟩
  · rw [halternatives]
    exact List.nodup_singleton t
  · rw [halternatives]
    intro a ha
    rw [List.mem_singleton.mp ha]
    exact h
  · rw [halternatives]
    rfl

theorem flatMap_alternatives (h : ∀ a ∈ ts, a.form ≠ .union) : ts.flatMap alternatives = ts := by
  induction ts with
  | nil => rfl
  | cons t ts ih =>
    rw [List.flatMap_cons, alternatives_of_ne (h t List.mem_cons_self),
      ih fun a ha => h a (List.mem_cons_of_mem t ha), List.singleton_append]

theorem alternatives_unite (h : ∀ t ∈ ts, t.Flat) :
    (unite ts).alternatives = distinct (ts.flatMap alternatives) := by
  apply alternatives_choice
  intro a ha
  obtain ⟨t, ht, ha⟩ := List.mem_flatMap.mp (Order.mem_distinct.mp ha)
  exact (h t ht).single a ha

theorem flat_unite (h : ∀ t ∈ ts, t.Flat) : (unite ts).Flat := by
  have halternatives := alternatives_unite h
  refine ⟨?_, ?_, ?_⟩
  · rw [halternatives]
    exact Order.nodup_distinct _
  · rw [halternatives]
    intro a ha
    obtain ⟨t, ht, ha⟩ := List.mem_flatMap.mp (Order.mem_distinct.mp ha)
    exact (h t ht).single a ha
  · rw [halternatives]
    rfl

/-- What is united to a function type is that type. -/
theorem eq_of_unite_function (h : ∀ t ∈ ts, t.Flat) (hf : (unite ts).isFunction = true) (ht : t ∈ ts)
    (hne : t.alternatives ≠ []) : t = unite ts := by
  have hsingle : (unite ts).form ≠ .union := by
    intro hunion
    rw [isFunction, hunion] at hf
    cases hf
  have hone : ∀ a ∈ t.alternatives, a = unite ts := by
    intro a ha
    have hmem : a ∈ (unite ts).alternatives := by
      rw [alternatives_unite h]
      exact Order.mem_distinct.mpr (List.mem_flatMap.mpr ⟨t, ht, ha⟩)
    rw [alternatives_of_ne hsingle] at hmem
    exact List.mem_singleton.mp hmem
  rw [← (h t ht).choice, Order.single_of_nodup hne (h t ht).nodup hone]
  rfl

/-! ## Clean types -/

theorem areClean_iff : areClean ts = true ↔ ∀ t ∈ ts, t.isClean = true := by
  induction ts with
  | nil => simp [areClean]
  | cons t ts ih => rw [areClean, Bool.and_eq_true, ih, List.forall_mem_cons]

theorem clean_of_parts (h : t.form ≠ .union) (hparts : ∀ u ∈ t.parts, u.isClean = true) : t.isClean = true := by
  obtain ⟨form, parts⟩ := t
  have hform : (form != .union) = true := bne_iff_ne.mpr h
  rw [isClean, hform, Bool.true_or, Bool.true_and]
  exact areClean_iff.mpr hparts

theorem isClean_iff : t.isClean = true ↔ (∀ a ∈ t.alternatives, a.isClean = true) ∧
    (t.isFunction = true ∨ ∀ a ∈ t.alternatives, a.isFunction = false) := by
  by_cases h : t.form = .union
  · obtain ⟨form, parts⟩ := t
    cases h
    rw [isClean, Bool.and_eq_true, areClean_iff]
    simp [alternatives, isFunction, form, and_comm]
  · rw [alternatives_of_ne h]
    simp

theorem clean_unite (h : ∀ t ∈ ts, t.isClean = true ∧ t.isFunction = false) : (unite ts).isClean = true := by
  have hall : ∀ a ∈ distinct (ts.flatMap alternatives), a.isClean = true ∧ a.isFunction = false := by
    intro a ha
    obtain ⟨t, ht, ha⟩ := List.mem_flatMap.mp (Order.mem_distinct.mp ha)
    obtain ⟨hclean, hfunction⟩ := h t ht
    obtain ⟨hparts, hfunctions⟩ := isClean_iff.mp hclean
    rw [hfunction] at hfunctions
    exact ⟨hparts a ha, hfunctions.resolve_left nofun a ha⟩
  rw [unite]
  match hs : distinct (ts.flatMap alternatives) with
  | [] => rfl
  | [t] => exact (hall t (hs ▸ List.mem_cons_self)).1
  | a :: b :: rest =>
    rw [hs] at hall
    rw [choice, isClean, Bool.and_eq_true, areClean_iff, Bool.or_eq_true, List.all_eq_true]
    · exact ⟨Or.inr fun t ht => by rw [(hall t ht).2]; rfl, fun t ht => (hall t ht).1⟩
    · exact nofun

/-! ## Grouped tokens -/

def follows : List Token → Bool
  | .mark .openSquare :: _ => true
  | .mark .equals :: _ => true
  | _ => false

def isGrouped : List Token → Bool
  | [] => true
  | .mark .closeRound :: rest => follows rest && isGrouped rest
  | _ :: rest => isGrouped rest

def Arrow (rest : List Token) : Prop := rest.head? = some (.mark .equals)

/-- What reading gives where tokens are grouped. A function type can be an operand only
with an arrow behind it, where no type goes on. -/
structure Sound (fuel : Nat) : Prop where
  type : ∀ {toks t rest}, isGrouped toks = true → typeAt fuel toks = some (t, rest) →
    isGrouped rest = true ∧ (Arrow rest ∨ t.isClean = true)
  function : ∀ {p toks t rest}, isGrouped toks = true → functionAt fuel p toks = some (t, rest) →
    isGrouped rest = true ∧ (Arrow rest ∨ t.isClean = true)
  operands : ∀ {toks ts rest}, isGrouped toks = true → operandsAt fuel toks = some (ts, rest) →
    isGrouped rest = true ∧ (Arrow rest ∨ ∀ t ∈ ts, t.isClean = true ∧ t.isFunction = false)
  operand : ∀ {toks t rest}, isGrouped toks = true → operandAt fuel toks = some (t, rest) →
    isGrouped rest = true ∧ (Arrow rest ∨ t.isClean = true ∧ t.isFunction = false)
  primary : ∀ {toks t rest}, isGrouped toks = true → primaryAt fuel toks = some (t, rest) →
    isGrouped rest = true ∧ t.isClean = true ∧ (t.isFunction = true → follows rest = true)
  members : ∀ {toks ms rest}, isGrouped toks = true → membersAt fuel toks = some (ms, rest) →
    isGrouped rest = true ∧ ∀ m ∈ ms, m.2.isClean = true
  member : ∀ {k toks ms rest}, isGrouped toks = true → memberAt fuel k toks = some (ms, rest) →
    isGrouped rest = true ∧ ∀ m ∈ ms, m.2.isClean = true
  arguments : ∀ {toks ts rest}, isGrouped toks = true → argumentsAt fuel toks = some (ts, rest) →
    isGrouped rest = true ∧ ∀ t ∈ ts, t.isClean = true

theorem not_arrow {m : Mark} {rest : List Token} (h : m ≠ .equals) : ¬ Arrow (.mark m :: rest) := by
  intro harrow
  cases harrow
  exact h rfl

theorem isGrouped_tail {e : Token} {rest : List Token} (h : isGrouped (e :: rest) = true) : isGrouped rest = true := by
  unfold isGrouped at h
  split at h
  · cases ‹_ :: _ = []›
  · next heq =>
    cases heq
    exact (Bool.and_eq_true_iff.mp h).2
  · next heq =>
    cases heq
    exact h

theorem follows_of_closeRound {rest : List Token} (h : isGrouped (.mark .closeRound :: rest) = true) :
    follows rest = true :=
  (Bool.and_eq_true_iff.mp h).1

theorem clean_array (h : t.isClean = true) : (array t).isClean = true :=
  clean_of_parts nofun fun _ hu => List.mem_singleton.mp hu ▸ h

theorem sound_arrays {toks rest : List Token} {u : Ty} (hgroup : isGrouped toks = true) (hclean : t.isClean = true)
    (hfunction : t.isFunction = true → follows toks = true) (h : arrays t toks = some (u, rest)) :
    isGrouped rest = true ∧ (Arrow rest ∨ u.isClean = true ∧ u.isFunction = false) := by
  induction t, toks using arrays.induct with
  | case1 t rest' ih =>
    exact ih (isGrouped_tail (isGrouped_tail hgroup)) (clean_array hclean) nofun h
  | case2 t rest' hne =>
    rw [arrays] at h
    · cases h
    · exact hne
  | case3 t rest' hmarks hopen =>
    rw [arrays] at h
    · cases h
      refine ⟨hgroup, ?_⟩
      cases hf : u.isFunction with
      | false => exact Or.inr ⟨hclean, rfl⟩
      | true =>
        have hfollows := hfunction hf
        unfold follows at hfollows
        split at hfollows
        · exact absurd rfl (hopen _)
        · exact Or.inl rfl
        · cases hfollows
    · exact hmarks
    · exact hopen

namespace Sound

variable {fuel : Nat}

theorem zero : Sound 0 := by
  constructor <;> (intros; contradiction)

theorem type_succ (hs : Sound fuel) {toks rest : List Token} (hgroup : isGrouped toks = true)
    (h : typeAt (fuel + 1) toks = some (t, rest)) :
    isGrouped rest = true ∧ (Arrow rest ∨ t.isClean = true) := by
  rw [typeAt.eq_def] at h
  simp only at h
  split at h
  · exact hs.function (isGrouped_tail (isGrouped_tail (isGrouped_tail hgroup))) h
  · obtain ⟨⟨ts, rest⟩, hts, heq⟩ := Option.map_eq_some_iff.mp h
    cases heq
    exact (hs.operands hgroup hts).imp id fun hor => hor.imp id clean_unite

theorem function_succ (hs : Sound fuel) {p : String} {toks rest : List Token} (hgroup : isGrouped toks = true)
    (h : functionAt (fuel + 1) p toks = some (t, rest)) :
    isGrouped rest = true ∧ (Arrow rest ∨ t.isClean = true) := by
  rw [functionAt] at h
  split at h
  · next type more htype =>
    obtain ⟨hmore, hclean⟩ := hs.type hgroup htype
    have htype := hclean.resolve_left (not_arrow nofun)
    obtain ⟨⟨result, rest⟩, hresult, heq⟩ := Option.map_eq_some_iff.mp h
    cases heq
    obtain ⟨hrest, hclean⟩ := hs.type (isGrouped_tail (isGrouped_tail (isGrouped_tail hmore))) hresult
    refine ⟨hrest, hclean.imp id fun hresult => ?_⟩
    refine clean_of_parts nofun fun u hu => ?_
    rcases List.mem_cons.mp hu with rfl | hu
    · exact htype
    · exact List.mem_singleton.mp hu ▸ hresult
  · cases h

theorem operands_succ (hs : Sound fuel) {toks rest : List Token} (hgroup : isGrouped toks = true)
    (h : operandsAt (fuel + 1) toks = some (ts, rest)) :
    isGrouped rest = true ∧ (Arrow rest ∨ ∀ t ∈ ts, t.isClean = true ∧ t.isFunction = false) := by
  rw [operandsAt] at h
  split at h
  · next t more ht =>
    obtain ⟨hmore, hclean⟩ := hs.operand hgroup ht
    have ht := hclean.resolve_left (not_arrow nofun)
    obtain ⟨⟨ts, rest⟩, hts, heq⟩ := Option.map_eq_some_iff.mp h
    cases heq
    exact (hs.operands (isGrouped_tail hmore) hts).imp id fun hor =>
      hor.imp id fun hall => List.forall_mem_cons.mpr ⟨ht, hall⟩
  · next t more _ ht =>
    cases h
    exact (hs.operand hgroup ht).imp id fun hor => hor.imp id fun ht u hu => List.mem_singleton.mp hu ▸ ht
  · cases h

theorem operand_succ (hs : Sound fuel) {toks rest : List Token} (hgroup : isGrouped toks = true)
    (h : operandAt (fuel + 1) toks = some (t, rest)) :
    isGrouped rest = true ∧ (Arrow rest ∨ t.isClean = true ∧ t.isFunction = false) := by
  rw [operandAt] at h
  obtain ⟨⟨u, more⟩, hu, harrays⟩ := Option.bind_eq_some_iff.mp h
  obtain ⟨hmore, hclean, hfunction⟩ := hs.primary hgroup hu
  exact sound_arrays hmore hclean hfunction harrays

theorem primary_succ (hs : Sound fuel) {toks rest : List Token} (hgroup : isGrouped toks = true)
    (h : primaryAt (fuel + 1) toks = some (t, rest)) :
    isGrouped rest = true ∧ t.isClean = true ∧ (t.isFunction = true → follows rest = true) := by
  rw [primaryAt.eq_def] at h
  simp only at h
  split at h
  · split at h
    · next u more hu =>
      cases h
      obtain ⟨hmore, hclean⟩ := hs.type (isGrouped_tail hgroup) hu
      exact ⟨isGrouped_tail hmore, hclean.resolve_left (not_arrow nofun), fun _ => follows_of_closeRound hmore⟩
    · cases h
  · obtain ⟨⟨ms, rest⟩, hms, heq⟩ := Option.map_eq_some_iff.mp h
    cases heq
    obtain ⟨hrest, hclean⟩ := hs.members (isGrouped_tail hgroup) hms
    refine ⟨hrest, clean_of_parts nofun fun t ht => ?_, nofun⟩
    obtain ⟨m, hm, rfl⟩ := List.mem_map.mp ht
    exact hclean m hm
  · obtain ⟨⟨ts, rest⟩, hts, heq⟩ := Option.map_eq_some_iff.mp h
    cases heq
    obtain ⟨hrest, hclean⟩ := hs.arguments (isGrouped_tail (isGrouped_tail hgroup)) hts
    exact ⟨hrest, clean_of_parts nofun hclean, nofun⟩
  · cases h
    exact ⟨isGrouped_tail hgroup, rfl, nofun⟩
  · cases h

theorem members_succ (hs : Sound fuel) {toks rest : List Token} {ms : List ((String × Bool) × Ty)}
    (hgroup : isGrouped toks = true) (h : membersAt (fuel + 1) toks = some (ms, rest)) :
    isGrouped rest = true ∧ ∀ m ∈ ms, m.2.isClean = true := by
  rw [membersAt.eq_def] at h
  simp only at h
  split at h
  · cases h
    exact ⟨isGrouped_tail hgroup, nofun⟩
  · exact hs.member (isGrouped_tail (isGrouped_tail (isGrouped_tail hgroup))) h
  · exact hs.member (isGrouped_tail (isGrouped_tail hgroup)) h
  · cases h

theorem member_succ (hs : Sound fuel) {k : String × Bool} {toks rest : List Token}
    {ms : List ((String × Bool) × Ty)} (hgroup : isGrouped toks = true)
    (h : memberAt (fuel + 1) k toks = some (ms, rest)) : isGrouped rest = true ∧ ∀ m ∈ ms, m.2.isClean = true := by
  rw [memberAt] at h
  split at h
  · next t more ht =>
    obtain ⟨hmore, hclean⟩ := hs.type hgroup ht
    have ht := hclean.resolve_left (not_arrow nofun)
    obtain ⟨⟨ms, rest⟩, hms, heq⟩ := Option.map_eq_some_iff.mp h
    cases heq
    exact (hs.members (isGrouped_tail hmore) hms).imp id fun hall => List.forall_mem_cons.mpr ⟨ht, hall⟩
  · next t more ht =>
    cases h
    obtain ⟨hmore, hclean⟩ := hs.type hgroup ht
    exact ⟨isGrouped_tail hmore, fun m hm => List.mem_singleton.mp hm ▸ hclean.resolve_left (not_arrow nofun)⟩
  · cases h

theorem arguments_succ (hs : Sound fuel) {toks rest : List Token} (hgroup : isGrouped toks = true)
    (h : argumentsAt (fuel + 1) toks = some (ts, rest)) : isGrouped rest = true ∧ ∀ t ∈ ts, t.isClean = true := by
  rw [argumentsAt] at h
  split at h
  · next t more ht =>
    obtain ⟨hmore, hclean⟩ := hs.type hgroup ht
    have ht := hclean.resolve_left (not_arrow nofun)
    obtain ⟨⟨ts, rest⟩, hts, heq⟩ := Option.map_eq_some_iff.mp h
    cases heq
    exact (hs.arguments (isGrouped_tail hmore) hts).imp id fun hall => List.forall_mem_cons.mpr ⟨ht, hall⟩
  · next t more ht =>
    cases h
    obtain ⟨hmore, hclean⟩ := hs.type hgroup ht
    exact ⟨isGrouped_tail hmore, fun u hu => List.mem_singleton.mp hu ▸ hclean.resolve_left (not_arrow nofun)⟩
  · cases h

theorem all (fuel : Nat) : Sound fuel := by
  induction fuel with
  | zero => exact zero
  | succ fuel hs =>
    exact ⟨hs.type_succ, hs.function_succ, hs.operands_succ, hs.operand_succ, hs.primary_succ, hs.members_succ,
      hs.member_succ, hs.arguments_succ⟩

end Sound

theorem clean_of_read {s : String} (hgroup : isGrouped (tokens s) = true) (h : read s = some t) :
    t.isClean = true := by
  unfold read at h
  split at h
  · next u hu =>
    cases h
    exact ((Sound.all _).type hgroup hu).2.resolve_left nofun
  · cases h

end Retype.Ty

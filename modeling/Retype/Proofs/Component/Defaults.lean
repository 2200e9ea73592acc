import Retype.Proofs.Component.Merging

/-!
# Which defaults are recorded

A prop is given a default where the first parameter or the props object is taken
apart, or by a member of the selected object of defaults. Every pair of that object
and every default of the parameter is recorded. In a class body the first mention of
a name is all that counts: a default that comes behind a mention without one is lost.
-/

set_option autoImplicit false

namespace Retype.Property

open Keyed (get? keys putNews)

/-! ## Entries with a default -/

structure Regular (p : Property) : Prop where
  member : p.isWhole = false
  optional : p.defaultText.isSome = true → p.isOptional = true

theorem regular_seenAs {known : Option Property} {p : Property} (hknown : ∀ q ∈ known, q.Regular)
    (h : p.Regular) : (seenAs known p).Regular := by
  cases known with
  | none => exact h
  | some q =>
    have hq := hknown q rfl
    rw [seenAs]
    split
    · exact ⟨hq.member, fun _ => rfl⟩
    · exact hq

variable {src : Source}

theorem regular_assumedAs {known : Option Property} (d : String × Option Node)
    (hknown : ∀ q ∈ known, q.Regular) : (assumedAs src known d).Regular := by
  cases known with
  | none => exact ⟨rfl, fun _ => rfl⟩
  | some q =>
    have hq := hknown q rfl
    rw [assumedAs]
    split
    · exact ⟨hq.member, fun _ => rfl⟩
    · exact ⟨hq.member, fun _ => rfl⟩

variable {declared observed : List Property} {defaults : List (String × Option Node)}

theorem regular_table (hdeclared : ∀ p ∈ declared, p.Regular) (hseen : ∀ p ∈ seen observed, p.Regular) :
    ∀ e ∈ table src declared observed defaults, e.2.Regular := by
  have hstart : ∀ e ∈ Keyed.updates name (fun _ p => p) [] declared, e.2.Regular := by
    apply Keyed.forall_updates
    · exact fun _ he => absurd he List.not_mem_nil
    · exact fun _ p hp _ => hdeclared p hp
  apply Keyed.forall_updates
  · apply Keyed.forall_updates hstart
    exact fun _ p hp hknown => regular_seenAs hknown (hseen p hp)
  · exact fun _ d _ hknown => regular_assumedAs d hknown

/-- A list of props has one entry of a name, which is optional and has its default recorded. -/
def Recorded (props : List Property) (k : String) : Prop :=
  ∃ p, props.filter (fun p => !p.isWhole && p.name == k) = [p] ∧ p.isOptional = true ∧ p.defaultText.isSome = true

theorem isSome_default? (p : Property) : p.default?.isSome = p.defaultText.isSome := Option.isSome_map

/-- After merging, the props with a default are those used or declared with one. -/
theorem recorded_merge (hdeclared : ∀ p ∈ declared, p.Regular ∧ p.defaultText = none)
    (hseen : ∀ p ∈ seen observed, p.Regular) (k : String) :
    Recorded (merge src declared observed defaults) k ↔
      (lastDefault? observed k).isSome = true ∨ k ∈ keys defaults := by
  have hregular : ∀ e ∈ table src declared observed defaults, e.2.Regular :=
    regular_table (fun p hp => (hdeclared p hp).1) hseen
  have hfilter : (merge src declared observed defaults).filter (fun p => !p.isWhole && p.name == k) =
      (get? k (table src declared observed defaults)).toList := by
    have hwhole : (observed.filter isWhole).filter (fun p => !p.isWhole && p.name == k) = [] := by
      rw [List.filter_filter, List.filter_eq_nil_iff]
      intro p _
      cases p.isWhole <;> simp
    have hnodup : (keys (table src declared observed defaults)).Nodup :=
      keys_table src declared observed defaults ▸ Order.nodup_distinct _
    rw [merge_eq, List.filter_append, hwhole, List.nil_append, List.filter_map, ← Keyed.filter_key hnodup]
    congr 1
    apply List.filter_congr
    intro e he
    rw [Function.comp, (hregular e he).member, (mem_table he).2, Bool.not_false, Bool.true_and]
  have hbase : (declared.filter (·.name == k)).getLast?.bind default? = none := by
    apply Option.bind_eq_none_iff.mpr
    intro p hp
    rw [default?, (hdeclared p (List.mem_filter.mp (List.mem_of_getLast? hp)).1).2, Option.map_none]
  have hvalue := (made src declared observed defaults k).valued
  rw [← lastDefault?_or, hbase, Option.or_none] at hvalue
  have hsome : ((get? k (table src declared observed defaults)).bind default?).isSome = true ↔
      (lastDefault? observed k).isSome = true ∨ k ∈ keys defaults := by
    rw [hvalue, Option.isSome_or, Bool.or_eq_true, Option.isSome_map, ← Keyed.has_iff, Keyed.has]
  rw [← hsome, Recorded, hfilter]
  cases hget : get? k (table src declared observed defaults) with
  | none => simp
  | some p =>
    have hp := hregular _ (Keyed.get?_of_mem hget)
    rw [Option.bind_some, isSome_default?]
    constructor
    · rintro ⟨q, hq, -, hdefault⟩
      rw [List.cons.inj hq |>.1]
      exact hdefault
    · exact fun hdefault => ⟨p, rfl, hp.optional hdefault, hdefault⟩

/-! ## Patterns -/

variable (src) in
def EntryGives (entry : Node) (k : String) : Prop :=
  (entry.kind = "object_assignment_pattern" ∧ src.childText "left" entry = k) ∨
    (entry.kind = "pair_pattern" ∧ src.keyOf (entry.child? "key") = k ∧
      ∃ v, entry.child? "value" = some v ∧ v.kind = "assignment_pattern")

variable (src) in
def PatternGives (pattern : Node) (k : String) : Prop :=
  pattern.kind = "object_pattern" ∧ ∃ entry ∈ pattern.namedChildren, EntryGives src entry k

theorem ofPatternEntry_gives {entry : Node} {k : String} (h : EntryGives src entry k) :
    ∃ value, ofPatternEntry src entry = some (withDefault src k value) := by
  unfold ofPatternEntry
  rcases h with ⟨hkind, rfl⟩ | ⟨hkind, rfl, v, hv, hvalue⟩
  · exact ⟨_, by rw [hkind]; rfl⟩
  · refine ⟨v.child? "right", ?_⟩
    rw [hkind, hv]
    simp [hvalue]

/-- An entry of a pattern either gives a default or says nothing about one. -/
theorem ofPatternEntry_cases {entry : Node} {p : Property} (h : ofPatternEntry src entry = some p) :
    (EntryGives src entry p.name ∧ ∃ k value, p = withDefault src k value) ∨
      (p.isWhole = false ∧ p.defaultText = none) := by
  unfold ofPatternEntry at h
  split at h
  · cases h
    exact Or.inr ⟨rfl, rfl⟩
  split at h
  · next hkind =>
    cases h
    exact Or.inl ⟨Or.inl ⟨beq_iff_eq.mp hkind, rfl⟩, _, _, rfl⟩
  split at h
  · next hkind =>
    dsimp only at h
    split at h
    · next v hv =>
      split at h
      · next hvalue =>
        cases h
        exact Or.inl ⟨Or.inr ⟨beq_iff_eq.mp hkind, rfl, v, hv, beq_iff_eq.mp hvalue⟩, _, _, rfl⟩
      · cases h
        exact Or.inr ⟨rfl, rfl⟩
    · cases h
      exact Or.inr ⟨rfl, rfl⟩
  split at h
  · cases h
    exact Or.inr ⟨rfl, rfl⟩
  · cases h

theorem regular_ofPattern {pattern : Node} {p : Property} (h : p ∈ ofPattern src pattern) : p.Regular := by
  obtain ⟨entry, -, hp⟩ := List.mem_filterMap.mp h
  rcases ofPatternEntry_cases hp with ⟨-, k, value, rfl⟩ | ⟨hmember, hnone⟩
  · exact ⟨rfl, fun _ => rfl⟩
  · refine ⟨hmember, fun hsome => ?_⟩
    rw [hnone] at hsome
    cases hsome

theorem ofPattern_gives {pattern : Node} {k : String} :
    (∃ p ∈ ofPattern src pattern, p.name = k ∧ p.defaultText.isSome = true) ↔
      ∃ entry ∈ pattern.namedChildren, EntryGives src entry k := by
  constructor
  · rintro ⟨p, hp, rfl, hdefault⟩
    obtain ⟨entry, hentry, hp⟩ := List.mem_filterMap.mp hp
    rcases ofPatternEntry_cases hp with ⟨hgives, -⟩ | ⟨-, hnone⟩
    · exact ⟨entry, hentry, hgives⟩
    · rw [hnone] at hdefault
      cases hdefault
  · rintro ⟨entry, hentry, hgives⟩
    obtain ⟨value, hvalue⟩ := ofPatternEntry_gives hgives
    exact ⟨_, List.mem_filterMap.mpr ⟨entry, hentry, hvalue⟩, rfl, rfl⟩

/-- A name has a default among the used props if some use of it does. -/
theorem lastDefault?_isSome {k : String} :
    (lastDefault? observed k).isSome = true ↔
      ∃ p ∈ seen observed, p.name = k ∧ p.defaultText.isSome = true := by
  rw [lastDefault?, List.getLast?_isSome]
  constructor
  · intro hne
    obtain ⟨x, hx⟩ := List.exists_mem_of_ne_nil _ hne
    obtain ⟨p, hp, hpx⟩ := List.mem_filterMap.mp hx
    obtain ⟨hp, hk⟩ := List.mem_filter.mp hp
    refine ⟨p, hp, beq_iff_eq.mp hk, ?_⟩
    rw [← isSome_default?, hpx]
    rfl
  · rintro ⟨p, hp, rfl, hdefault⟩
    rw [← isSome_default?] at hdefault
    obtain ⟨x, hx⟩ := Option.isSome_iff_exists.mp hdefault
    exact List.ne_nil_of_mem (List.mem_filterMap.mpr
      ⟨p, List.mem_filter.mpr ⟨hp, beq_self_eq_true _⟩, hx⟩)

/-! ## Functions -/

def parameterPattern? (fn : Node) : Option Node := (firstParameter? fn).bind binding?

theorem regular_ofFunction {fn : Node} {p : Property} (h : p ∈ seen (ofFunction src fn)) : p.Regular := by
  obtain ⟨hp, hmember⟩ := List.mem_filter.mp h
  unfold ofFunction at hp
  split at hp
  · cases hp
  · split at hp
    · exact regular_ofPattern hp
    · split at hp
      · cases List.mem_singleton.mp hp
        cases hmember
      · cases hp

theorem ofFunction_gives {fn : Node} {k : String} :
    (lastDefault? (ofFunction src fn) k).isSome = true ↔
      ∃ pattern, parameterPattern? fn = some pattern ∧ PatternGives src pattern k := by
  rw [lastDefault?_isSome]
  constructor
  · rintro ⟨p, hp, hk, hdefault⟩
    obtain ⟨hp, hmember⟩ := List.mem_filter.mp hp
    unfold ofFunction at hp
    split at hp
    · cases hp
    · next pattern hpattern =>
      split at hp
      · next hkind =>
        exact ⟨pattern, hpattern, beq_iff_eq.mp hkind, ofPattern_gives.mp ⟨p, hp, hk, hdefault⟩⟩
      · split at hp
        · cases List.mem_singleton.mp hp
          cases hdefault
        · cases hp
  · rintro ⟨pattern, hpattern, hkind, hgives⟩
    obtain ⟨p, hp, hk, hdefault⟩ := ofPattern_gives.mpr hgives
    have hfunction : ofFunction src fn = ofPattern src pattern := by
      rw [parameterPattern?] at hpattern
      rw [ofFunction, hpattern]
      simp [hkind]
    refine ⟨p, List.mem_filter.mpr ⟨hfunction ▸ hp, ?_⟩, hk, hdefault⟩
    rw [(regular_ofPattern hp).member]
    rfl

/-! ## Classes -/

def mentions (src : Source) (cls : Node) : List Property := cls.walk.flatMap (ofClassNode src)

def firstMention? (src : Source) (cls : Node) (k : String) : Option Property :=
  (mentions src cls).find? (·.name == k)

/-- Only a declaration that takes the props object apart mentions a default. -/
theorem ofClassNode_cases {n : Node} {p : Property} (h : p ∈ ofClassNode src n) :
    (p.isWhole = false ∧ p.defaultText = none) ∨
      (n.kind = "variable_declarator" ∧ isPropsObject (src.textOf? (n.value? "value")) = true ∧
        ∃ pattern, n.child? "name" = some pattern ∧ pattern.kind = "object_pattern" ∧
          ∃ q ∈ ofPattern src pattern, p = { q with origin := .member }) := by
  unfold ofClassNode at h
  split at h
  · split at h
    · dsimp only at h
      split at h
      · cases h
      · cases List.mem_singleton.mp h
        exact Or.inl ⟨rfl, rfl⟩
    · cases h
  split at h
  · next hkind =>
    split at h
    · next pattern hpattern =>
      split at h
      · next hprops =>
        obtain ⟨hpk, hprops⟩ := Bool.and_eq_true_iff.mp hprops
        obtain ⟨q, hq, rfl⟩ := List.mem_map.mp h
        exact Or.inr ⟨beq_iff_eq.mp hkind, hprops, pattern, hpattern, beq_iff_eq.mp hpk, q, hq, rfl⟩
      · cases h
    · cases h
  · cases h

theorem regular_mention {cls : Node} {p : Property} (h : p ∈ mentions src cls) : p.Regular := by
  obtain ⟨n, -, hp⟩ := List.mem_flatMap.mp h
  rcases ofClassNode_cases hp with ⟨hmember, hnone⟩ | ⟨-, -, pattern, -, -, q, hq, rfl⟩
  · refine ⟨hmember, fun hsome => ?_⟩
    rw [hnone] at hsome
    cases hsome
  · exact ⟨rfl, (regular_ofPattern hq).optional⟩

theorem ofClass_eq (cls : Node) :
    ofClass src cls = (putNews name [] (mentions src cls)).map Prod.snd := rfl

theorem mem_putNews_mentions {cls : Node} {e : String × Property}
    (h : e ∈ putNews name [] (mentions src cls)) : firstMention? src cls e.1 = some e.2 := by
  have hnodup : (keys (putNews name [] (mentions src cls))).Nodup := Keyed.nodup_keys_putNews List.nodup_nil
  have hget := (Keyed.get?_eq_some_iff hnodup).mpr h
  rw [Keyed.get?_putNews] at hget
  exact hget

theorem firstMention?_mem {cls : Node} {k : String} {p : Property} (h : firstMention? src cls k = some p) :
    p ∈ mentions src cls ∧ p.name = k :=
  ⟨List.mem_of_find?_eq_some h, by simpa using List.find?_some h⟩

theorem regular_ofClass {cls : Node} {p : Property} (h : p ∈ ofClass src cls) : p.Regular := by
  obtain ⟨e, he, rfl⟩ := List.mem_map.mp (ofClass_eq cls ▸ h)
  exact regular_mention (firstMention?_mem (mem_putNews_mentions he)).1

theorem ofClass_gives {cls : Node} {k : String} :
    (lastDefault? (ofClass src cls) k).isSome = true ↔
      ∃ p, firstMention? src cls k = some p ∧ p.defaultText.isSome = true := by
  rw [lastDefault?_isSome]
  constructor
  · rintro ⟨p, hp, rfl, hdefault⟩
    obtain ⟨e, he, rfl⟩ := List.mem_map.mp (ofClass_eq cls ▸ (List.mem_filter.mp hp).1)
    have hfirst := mem_putNews_mentions he
    rw [(firstMention?_mem hfirst).2]
    exact ⟨e.2, hfirst, hdefault⟩
  · rintro ⟨p, hp, hdefault⟩
    have hget : get? k (putNews name [] (mentions src cls)) = some p := by
      rw [Keyed.get?_putNews]
      exact hp
    have hmem : p ∈ ofClass src cls := by
      rw [ofClass_eq]
      exact List.mem_map.mpr ⟨(k, p), Keyed.get?_of_mem hget, rfl⟩
    refine ⟨p, List.mem_filter.mpr ⟨hmem, ?_⟩, (firstMention?_mem hp).2, hdefault⟩
    rw [(regular_ofClass hmem).member]
    rfl

/-! ## Components -/

variable (src) in
/-- What stands for the props object in a class. -/
def IsProps (v : Node) : Prop :=
  isPropsObject (src.textOf v) = true ∨
    (v.kind = "member_expression" ∧ src.childText "object" v = "this" ∧ src.childText "property" v = "props")

def bindings : List (String × String × String) :=
  [("variable_declarator", "name", "value"), ("assignment_expression", "left", "right"),
    ("assignment_pattern", "left", "right")]

variable (src) in
/-- A node that takes the props object apart. -/
def Destructures (n pattern : Node) : Prop :=
  ∃ b ∈ bindings, n.kind = b.1 ∧ n.child? b.2.1 = some pattern ∧ ∃ v, n.value? b.2.2 = some v ∧ IsProps src v

variable (src) in
def MemberGives (m : Node) (k : String) : Prop :=
  (m.kind = "pair" ∧ src.keyOf (m.child? "key") = k) ∨
    (m.kind = "shorthand_property_identifier" ∧ src.textOf m = k) ∨
    (m.kind = "method_definition" ∧ src.keyOf (m.child? "name") = k)

def owner (c : Classification) : String := (c.declared.bind nonEmpty).getD c.name

def selectedDefaults? (src : Source) (root : Node) (c : Classification) : Option Node :=
  ownedObject? (owner c) (ownedObjects src "defaultProps" root)

variable (src) in
/-- The ways in which a component gives a prop a default value. -/
inductive Given (root : Node) (c : Classification) (k : String) : Prop
  | parameter (hit : Match) (pattern : Node) (kind : c.kind = .functionComponent) (found : c.found = some hit)
      (taken : parameterPattern? hit.node = some pattern) (gives : PatternGives src pattern k)
  | destructured (hit : Match) (n pattern : Node) (kind : c.kind = .classComponent)
      (found : c.found = some hit) (inside : n ∈ hit.node.walk) (taken : Destructures src n pattern)
      (gives : PatternGives src pattern k)
  | declared (obj m : Node) (selected : selectedDefaults? src root c = some obj) (member : m ∈ obj.namedChildren)
      (gives : MemberGives src m k)

variable (src) in
/-- The defaults that are noticed: those of pairs, of the parameter, and of first mentions. -/
def Noticed (root : Node) (c : Classification) (k : String) : Prop :=
  ∃ hit, c.found = some hit ∧
    (k ∈ keys (Property.defaults src root (owner c)) ∨
      (c.kind = .functionComponent ∧
        ∃ pattern, parameterPattern? hit.node = some pattern ∧ PatternGives src pattern k) ∨
      (c.kind = .classComponent ∧
        ∃ p, firstMention? src hit.node k = some p ∧ p.defaultText.isSome = true))

theorem declared_regular {root : Node} {owner : String} {p : Property}
    (h : p ∈ legacyProps src root owner ++ interfaceProps src root owner) : p.Regular ∧ p.defaultText = none := by
  have hplain : p.isWhole = false ∧ p.defaultText = none := by
    rcases List.mem_append.mp h with h | h
    · unfold legacyProps at h
      split at h
      · cases h
      · obtain ⟨pair, -, rfl⟩ := List.mem_map.mp h
        exact ⟨rfl, rfl⟩
    · unfold interfaceProps at h
      split at h
      · cases h
      · obtain ⟨m, -, rfl⟩ := List.mem_map.mp h
        exact ⟨rfl, rfl⟩
  refine ⟨⟨hplain.1, fun hsome => ?_⟩, hplain.2⟩
  rw [hplain.2] at hsome
  cases hsome

theorem mem_keys_defaults {root : Node} {c : Classification} {k : String} :
    k ∈ keys (Property.defaults src root (owner c)) ↔
      ∃ obj, selectedDefaults? src root c = some obj ∧
        ∃ m ∈ obj.namedChildren, m.kind = "pair" ∧ src.keyOf (m.child? "key") = k := by
  unfold Property.defaults selectedDefaults?
  cases ownedObject? (owner c) (ownedObjects src "defaultProps" root) with
  | none => simp
  | some obj =>
    simp only [Option.some.injEq, exists_eq_left']
    rw [Keyed.mem_keys_ofList]
    simp [keys, objectPairs, and_assoc]

theorem recorded_ofModule {root : Node} {c : Classification} {k : String}
    (hc : c.kind = .functionComponent ∨ c.kind = .classComponent) :
    Recorded (ofModule src root c) k ↔ Noticed src root c k := by
  unfold ofModule Noticed
  cases c.found with
  | none => simp [Recorded]
  | some hit =>
    simp only [if_pos hc, Option.some.injEq, exists_eq_left']
    rw [← owner]
    rcases hc with hc | hc
    · rw [if_pos hc, recorded_merge (fun p hp => declared_regular hp) (fun p hp => regular_ofFunction hp),
        ofFunction_gives, or_comm]
      simp [hc]
    · rw [if_neg (by simp [hc]), recorded_merge (fun p hp => declared_regular hp)
        (fun p hp => regular_ofClass (List.mem_filter.mp hp).1), ofClass_gives, or_comm]
      simp [hc]

/-- What is noticed is given. -/
theorem Noticed.given {root : Node} {c : Classification} {k : String} (h : Noticed src root c k) :
    Given src root c k := by
  obtain ⟨hit, hfound, hkey | ⟨hkind, pattern, htaken, hgives⟩ | ⟨hkind, p, hfirst, hdefault⟩⟩ := h
  · obtain ⟨obj, hobj, m, hm, hpair⟩ := mem_keys_defaults.mp hkey
    exact .declared obj m hobj hm (Or.inl hpair)
  · exact .parameter hit pattern hkind hfound htaken hgives
  · obtain ⟨hmem, rfl⟩ := firstMention?_mem hfirst
    obtain ⟨n, hn, hp⟩ := List.mem_flatMap.mp hmem
    rcases ofClassNode_cases hp with ⟨-, hnone⟩ | ⟨hnk, hprops, pattern, hname, hpk, q, hq, rfl⟩
    · rw [hnone] at hdefault
      cases hdefault
    · have hvalue : ∃ v, n.value? "value" = some v := by
        cases hv : n.value? "value" with
        | none =>
          rw [hv] at hprops
          cases hprops
        | some v => exact ⟨v, rfl⟩
      obtain ⟨v, hv⟩ := hvalue
      rw [hv] at hprops
      exact .destructured hit n pattern hkind hfound hn
        ⟨_, List.mem_cons_self, hnk, hname, v, hv, Or.inl hprops⟩
        ⟨hpk, ofPattern_gives.mp ⟨q, hq, rfl, hdefault⟩⟩

/-- A default is recorded exactly if it is noticed, and then it is given. -/
theorem recorded_noticed (src : Source) (root : Node) (c : Classification) (k : String)
    (hc : c.kind = .functionComponent ∨ c.kind = .classComponent) :
    (Recorded (ofModule src root c) k ↔ Noticed src root c k) ∧ (Noticed src root c k → Given src root c k) :=
  ⟨recorded_ofModule hc, Noticed.given⟩

/-- `{ a = 1 }` -/
def pattern (start : Nat) (field : String) : Node :=
  ⟨"object_pattern", true, start, start + 9, field,
    [⟨"\x7b", false, start, start + 1, "", []⟩,
     ⟨"object_assignment_pattern", true, start + 2, start + 7, "",
      [⟨"shorthand_property_identifier_pattern", true, start + 2, start + 3, "left", []⟩,
       ⟨"=", false, start + 4, start + 5, "", []⟩, ⟨"number", true, start + 6, start + 7, "right", []⟩]⟩,
     ⟨"\x7d", false, start + 8, start + 9, "", []⟩]⟩

/-- `function A({ a = 1 }) { return <b/>; }` -/
def takingApart : Node :=
  ⟨"function_declaration", true, 0, 38, "",
    [⟨"function", false, 0, 8, "", []⟩, ⟨"identifier", true, 9, 10, "name", []⟩,
     ⟨"formal_parameters", true, 10, 21, "parameters",
      [⟨"(", false, 10, 11, "", []⟩, pattern 11 "", ⟨")", false, 20, 21, "", []⟩]⟩,
     ⟨"statement_block", true, 22, 38, "body",
      [⟨"\x7b", false, 22, 23, "", []⟩,
       ⟨"return_statement", true, 24, 36, "",
        [⟨"return", false, 24, 30, "", []⟩,
         ⟨"jsx_self_closing_element", true, 31, 35, "",
          [⟨"<", false, 31, 32, "", []⟩, ⟨"identifier", true, 32, 33, "name", []⟩,
           ⟨"/>", false, 33, 35, "", []⟩]⟩,
         ⟨";", false, 35, 36, "", []⟩]⟩,
       ⟨"\x7d", false, 37, 38, "", []⟩]⟩]⟩

def program (stop : Nat) (stmt : Node) : Node := ⟨"program", true, 0, stop, "", [stmt]⟩

def found (kind : Kind) (n : Node) : Classification :=
  { kind := kind, name := "A", found := some ⟨some "A", n, ⟨n, []⟩⟩ }

def takingApartText : Source := .ofText "function A(\x7b a = 1 \x7d) \x7b return <b/>; \x7d"

theorem takingApart_recorded :
    Recorded (ofModule takingApartText (program 38 takingApart) (found .functionComponent takingApart)) "a" := by
  apply (recorded_noticed takingApartText (program 38 takingApart) (found .functionComponent takingApart) "a"
    (Or.inl rfl)).1.mpr
  refine ⟨_, rfl, Or.inr (Or.inl ⟨rfl, pattern 11 "", rfl, rfl, ?_⟩)⟩
  exact ⟨_, List.mem_cons_self, Or.inl ⟨rfl, by decide +kernel⟩⟩

/-- `this.props` -/
def thisProps (start : Nat) (field : String) : Node :=
  ⟨"member_expression", true, start, start + 10, field,
    [⟨"this", true, start, start + 4, "object", []⟩, ⟨".", false, start + 4, start + 5, "", []⟩,
     ⟨"property_identifier", true, start + 5, start + 10, "property", []⟩]⟩

/-- `{ a = 1 } = this.props` -/
def taken : Node :=
  ⟨"variable_declarator", true, 54, 76, "",
    [pattern 54 "name", ⟨"=", false, 64, 65, "", []⟩, thisProps 66 "value"]⟩

/-- `class A extends Component { f() { this.props.a; const { a = 1 } = this.props; } }` -/
def readingFirst : Node :=
  ⟨"class_declaration", true, 0, 81, "",
    [⟨"class", false, 0, 5, "", []⟩, ⟨"identifier", true, 6, 7, "name", []⟩,
     ⟨"class_heritage", true, 8, 25, "",
      [⟨"extends", false, 8, 15, "", []⟩, ⟨"identifier", true, 16, 25, "", []⟩]⟩,
     ⟨"class_body", true, 26, 81, "body",
      [⟨"\x7b", false, 26, 27, "", []⟩,
       ⟨"method_definition", true, 28, 79, "member",
        [⟨"property_identifier", true, 28, 29, "name", []⟩,
         ⟨"formal_parameters", true, 29, 31, "parameters",
          [⟨"(", false, 29, 30, "", []⟩, ⟨")", false, 30, 31, "", []⟩]⟩,
         ⟨"statement_block", true, 32, 79, "body",
          [⟨"\x7b", false, 32, 33, "", []⟩,
           ⟨"expression_statement", true, 34, 47, "",
            [⟨"member_expression", true, 34, 46, "",
              [thisProps 34 "object", ⟨".", false, 44, 45, "", []⟩,
               ⟨"property_identifier", true, 45, 46, "property", []⟩]⟩,
             ⟨";", false, 46, 47, "", []⟩]⟩,
           ⟨"lexical_declaration", true, 48, 77, "",
            [⟨"const", false, 48, 53, "kind", []⟩, taken, ⟨";", false, 76, 77, "", []⟩]⟩,
           ⟨"\x7d", false, 78, 79, "", []⟩]⟩]⟩,
       ⟨"\x7d", false, 80, 81, "", []⟩]⟩]⟩

def readingFirstText : Source :=
  .ofText "class A extends Component \x7b f() \x7b this.props.a; const \x7b a = 1 \x7d = this.props; \x7d \x7d"

/-- A default behind a mention without one is lost. -/
theorem readingFirst_lost :
    Given readingFirstText (program 81 readingFirst) (found .classComponent readingFirst) "a" ∧
      ¬ Recorded (ofModule readingFirstText (program 81 readingFirst) (found .classComponent readingFirst)) "a" := by
  have hfind : readingFirst.walk.find? (fun n => n.kind == "variable_declarator") = some taken := rfl
  have hprops : readingFirstText.textOf (thisProps 66 "value") = "this.props" := by decide +kernel
  have hname : readingFirstText.textOf ⟨"shorthand_property_identifier_pattern", true, 56, 57, "left", []⟩ = "a" := by
    decide +kernel
  have hnone : (ofModule readingFirstText (program 81 readingFirst) (found .classComponent readingFirst)).all
      (fun p => p.name == "a" && p.defaultText.isNone) = true := by decide +kernel
  constructor
  · refine .destructured _ taken (pattern 54 "name") rfl rfl ?_ ?_ ?_
    · exact List.mem_of_find?_eq_some hfind
    · exact ⟨_, List.mem_cons_self, rfl, rfl, thisProps 66 "value", rfl, Or.inl (by rw [hprops]; rfl)⟩
    · exact ⟨rfl, _, List.mem_cons_self, Or.inl ⟨rfl, hname⟩⟩
  · rintro ⟨p, hp, -, hdefault⟩
    have hmem : p ∈ ofModule readingFirstText (program 81 readingFirst) (found .classComponent readingFirst) :=
      (List.mem_filter.mp (hp ▸ List.mem_singleton_self p)).1
    have hp := (Bool.and_eq_true_iff.mp (List.all_eq_true.mp hnone p hmem)).2
    rw [Option.isNone_iff_eq_none.mp hp] at hdefault
    cases hdefault

end Retype.Property

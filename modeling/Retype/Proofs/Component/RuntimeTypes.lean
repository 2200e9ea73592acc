import Retype.Component.TypeText
import Retype.Proofs.Keyed
import Retype.Proofs.Tree.Nesting

/-!
# What is left out of runtime types

An expression that is no runtime type says nothing, and where it stands for an
alternative or for a field nothing is written for it. Nothing is lost by that only
where `unknown` stands there anyway, or where no other alternative is written.
-/

set_option autoImplicit false

namespace Retype.LegacyType

variable (src : Source)

/-! ## Parts of an expression -/

/-- What an expression says: without a runtime type, or with one that says nothing, it is unknown. -/
def said (n : Node) : String := itemText (ofExpression src n)

/-- Whether an expression is a runtime type: a member of something or a call, perhaps marked. -/
def isReadable (n : Node) : Bool :=
  (core? src n).any fun core => core.kind == "member_expression" || core.isCall

def checked? (kinds : List String) (n : Node) : Option Node :=
  ((core? src n).filter fun core => core.isCall && kinds.contains (checker src core)).bind fun core =>
    core.arguments.head?

def alternatives? (n : Node) : Option (List Node) :=
  (((checked? src ["oneOfType"] n).map Node.unwrap).filter fun list => list.kind == "array").map Node.parts

def pairs? (n : Node) : Option (List Node) :=
  (((checked? src ["shape", "exact"] n).map Node.unwrap).filter fun obj => obj.kind == "object").map fun obj =>
    obj.namedChildren.filter fun p => p.kind == "pair"

def key (pair : Node) : String := src.keyOf (pair.child? "key")

def field? (pair : Node) : Option LegacyType := (pair.child? "value").bind (ofExpression src)

/-- The expressions inside an expression that its type is made of, at any depth. -/
inductive Nested (n : Node) : Node → Prop
  | self : Nested n n
  | item {m a : Node} (h : Nested n m) (ha : checked? src ["arrayOf", "objectOf"] m = some a) : Nested n a
  | alternative {m e : Node} {es : List Node} (h : Nested n m) (hes : alternatives? src m = some es)
      (he : e ∈ es) : Nested n e
  | field {m p v : Node} {ps : List Node} (h : Nested n m) (hps : pairs? src m = some ps) (hp : p ∈ ps)
      (hv : p.child? "value" = some v) : Nested n v

/-! ## What is complete -/

def written (members : List LegacyType) : List String :=
  if members.isEmpty then [TypeText.unknown] else memberTexts members

/-- What has to be written for a key: what its last pair says. -/
def due (pairs : List Node) (k : String) : String :=
  itemText ((pairs.filter fun p => key src p == k).getLast?.bind (field? src))

/-- Every part of an expression is written where its type is: the item, every alternative of a choice,
and every key of a shape of which a field can be read. -/
structure Complete (n : Node) : Prop where
  items : ∀ a, checked? src ["arrayOf"] n = some a → said src n = TypeText.group (said src a) ++ "[]"
  values : ∀ a, checked? src ["objectOf"] n = some a → said src n = "Record<string, " ++ said src a ++ ">"
  alternatives : ∀ es, alternatives? src n = some es → ∃ required members,
    ofExpression src n = some (oneOfType required members) ∧ said src n = TypeText.union (written members) ∧
      ∀ e ∈ es, said src e ∈ written members
  fields : ∀ ps, pairs? src n = some ps → (∃ p ∈ ps, (field? src p).isSome = true) → ∃ required exact fields,
    ofExpression src n = some (record required exact fields) ∧
      said src n = "\x7b " ++ String.intercalate "; " (fieldTexts fields) ++ " \x7d" ∧
      ∀ p ∈ ps, ∃ t, Keyed.get? (key src p) fields = some t ∧ itemText (some t) = due src ps (key src p)

/-- All alternatives can be read, or none, or one of them is unknown anyway; and for each key
the last pair can be read, or the last that can be read is unknown anyway. -/
structure Covered (n : Node) : Prop where
  alternatives : ∀ es, alternatives? src n = some es →
    (∀ e ∈ es, isReadable src e = true) ∨ (∀ e ∈ es, isReadable src e = false) ∨
      ∃ e ∈ es, isReadable src e = true ∧ said src e = TypeText.unknown
  fields : ∀ ps, pairs? src n = some ps → (∃ p ∈ ps, (field? src p).isSome = true) → ∀ p ∈ ps,
    ((ps.filter fun q => key src q == key src p).getLast?.any fun q => (field? src q).isSome) = true ∨
      ∃ t, ((ps.filter fun q => key src q == key src p).filterMap (field? src)).getLast? = some t ∧
        itemText (some t) = TypeText.unknown

variable {src}

/-! ## What is read -/

theorem ofExpression_none {n : Node} (h : core? src n = none) : ofExpression src n = none := by
  rw [ofExpression]
  split
  · rfl
  · next h' =>
    rw [h] at h'
    cases h'

/-- What a call of a checker with an argument is read as. -/
def ofArgument (src : Source) (required : Bool) (kind : String) (arg : Node) : LegacyType :=
  if kind == "arrayOf" then arrayOf required (ofExpression src arg)
  else if kind == "objectOf" then objectOf required (ofExpression src arg)
  else if kind == "oneOfType" && arg.unwrap.kind == "array" then
    oneOfType required (arg.unwrap.namedChildren.filterMap (ofExpression src))
  else if kind == "oneOf" && arg.unwrap.kind == "array" then
    oneOf required (arg.unwrap.parts.map src.textOf)
  else if (kind == "shape" || kind == "exact") && arg.unwrap.kind == "object" then
    record required (kind == "exact") (Keyed.ofList (arg.unwrap.namedChildren.filterMap fun p =>
      if p.kind == "pair" then (field? src p).map fun t => (key src p, t) else none))
  else if kind == "instanceOf" then instanceOf required (src.textOf arg.unwrap)
  else ofKind required kind

theorem filterMap_attach_val {α β : Type} (f : α → Option β) (xs : List α) :
    (xs.attach.filterMap fun x => f x.1) = xs.filterMap f := by
  conv_rhs => rw [← xs.attach_map_subtype_val]
  rw [List.filterMap_map]
  rfl

theorem ofExpression_some {n core : Node} (h : core? src n = some core) :
    ofExpression src n =
      if core.kind == "member_expression" then some (ofKind (isMarked src n) (src.childText "property" core))
      else if core.isCall then
        match core.arguments with
        | [] => some (ofKind (isMarked src n) (checker src core))
        | arg :: _ => some (ofArgument src (isMarked src n) (checker src core) arg)
      else none := by
  rw [ofExpression]
  split
  · next h' =>
    rw [h] at h'
    cases h'
  · next core' h' =>
    rw [h] at h'
    cases h'
    refine if_congr Iff.rfl rfl (if_congr Iff.rfl ?_ rfl)
    split
    · next hargs => rw [hargs]
    · next arg rest hargs =>
      rw [hargs]
      simp only [ofArgument, apply_ite some]
      -- the readings differ only in the alternatives of a choice and the fields of a shape
      refine if_congr Iff.rfl rfl (if_congr Iff.rfl rfl (if_congr Iff.rfl ?_ (if_congr Iff.rfl rfl
        (if_congr Iff.rfl ?_ rfl))))
      · exact congrArg (fun members => some (oneOfType _ members)) (filterMap_attach_val _ _)
      · refine congrArg (fun fields => some (record _ _ (Keyed.ofList fields))) ?_
        refine Eq.trans (List.filterMap_congr fun x _ => ?_) (filterMap_attach_val _ _)
        refine if_congr Iff.rfl ?_ rfl
        rw [field?]
        split
        · next hv => rw [hv]; rfl
        · next v hv => rw [hv]; rfl

theorem core?_of_checked {kinds : List String} {n a : Node} (h : checked? src kinds n = some a) :
    ∃ core, core? src n = some core ∧ core.isCall = true ∧ kinds.contains (checker src core) = true ∧
      core.arguments.head? = some a := by
  obtain ⟨core, hcore, ha⟩ := Option.bind_eq_some_iff.mp h
  obtain ⟨hcore, hkind⟩ := Option.filter_eq_some_iff.mp hcore
  obtain ⟨hcall, hkind⟩ := Bool.and_eq_true_iff.mp hkind
  exact ⟨core, hcore, hcall, hkind, ha⟩

theorem ofExpression_checked {kinds : List String} {n a : Node} (h : checked? src kinds n = some a) :
    ∃ kind ∈ kinds, ofExpression src n = some (ofArgument src (isMarked src n) kind a) := by
  obtain ⟨core, hcore, hcall, hkind, ha⟩ := core?_of_checked h
  obtain ⟨rest, hargs⟩ := List.head?_eq_some_iff.mp ha
  have hmember : ¬ (core.kind == "member_expression") = true := by
    rw [eq_of_beq hcall]
    decide
  refine ⟨checker src core, List.contains_iff_mem.mp hkind, ?_⟩
  rw [ofExpression_some hcore, if_neg hmember, if_pos hcall, hargs]

/-- Something is read exactly if there is a runtime type. -/
theorem isSome_ofExpression (n : Node) : (ofExpression src n).isSome = isReadable src n := by
  rw [isReadable]
  cases h : core? src n with
  | none => rw [ofExpression_none h]; rfl
  | some core =>
    rw [ofExpression_some h, Option.any_some]
    by_cases hm : (core.kind == "member_expression") = true
    · rw [if_pos hm, hm]; rfl
    · rw [if_neg hm, Bool.eq_false_iff.mpr hm, Bool.false_or]
      by_cases hc : core.isCall = true
      · rw [if_pos hc, hc]
        split
        · rfl
        · rfl
      · rw [if_neg hc, Bool.eq_false_iff.mpr hc]; rfl

theorem ofExpression_unreadable {n : Node} (h : isReadable src n = false) : ofExpression src n = none := by
  rw [← Option.not_isSome_iff_eq_none, isSome_ofExpression, h]
  exact Bool.false_ne_true

theorem said_unreadable {n : Node} (h : isReadable src n = false) : said src n = TypeText.unknown := by
  rw [said, ofExpression_unreadable h, itemText]

theorem isReadable_comment {n : Node} (h : n.isComment = true) : isReadable src n = false := by
  have hk : n.kind = "comment" := eq_of_beq h
  have hu : n.unwrap = n := Node.unwrap_of_kind (by rw [hk]; decide)
  have hm : isMarked src n = false := by rw [isMarked, hu, hk]; rfl
  rw [isReadable, core?, hm, hu]
  simp [Node.isCall, hk]

/-! ## Choices -/

theorem ofExpression_alternatives {n : Node} {es : List Node} (h : alternatives? src n = some es) :
    ofExpression src n = some (oneOfType (isMarked src n) (es.filterMap (ofExpression src))) := by
  obtain ⟨list, hlist, rfl⟩ := Option.map_eq_some_iff.mp h
  obtain ⟨hlist, harray⟩ := Option.filter_eq_some_iff.mp hlist
  obtain ⟨a, ha, rfl⟩ := Option.map_eq_some_iff.mp hlist
  obtain ⟨kind, hkind, hread⟩ := ofExpression_checked ha
  cases List.mem_singleton.mp hkind
  have hparts : a.unwrap.namedChildren.filterMap (ofExpression src) = a.unwrap.parts.filterMap (ofExpression src) := by
    rw [Node.parts, List.filterMap_filter]
    refine List.filterMap_congr fun e _ => ?_
    by_cases he : e.isComment = true
    · rw [ofExpression_unreadable (isReadable_comment he), ite_self]
    · rw [if_pos (by simpa using he)]
  rw [hread, ofArgument, ← hparts]
  simp [harray]

theorem memberTexts_filterMap (es : List Node) :
    memberTexts (es.filterMap (ofExpression src)) = (es.filter (isReadable src)).map (said src) := by
  induction es with
  | nil => rfl
  | cons e es ih =>
    by_cases h : isReadable src e = true
    · obtain ⟨t, ht⟩ := Option.isSome_iff_exists.mp ((isSome_ofExpression e).trans h)
      rw [List.filterMap_cons_some ht, List.filter_cons_of_pos h, memberTexts, List.map_cons, ih, said, ht, itemText]
    · rw [List.filterMap_cons_none (ofExpression_unreadable (Bool.eq_false_iff.mpr h)),
        List.filter_cons_of_neg h, ih]

theorem itemText_oneOfType (required : Bool) (members : List LegacyType) :
    itemText (some (oneOfType required members)) = TypeText.union (written members) := by
  rw [itemText, typeText?, written]
  split
  · rfl
  · rfl

/-- The alternatives that are left out are unknown: they are written only if unknown is. -/
theorem said_mem_written_iff (es : List Node) :
    (∀ e ∈ es, said src e ∈ written (es.filterMap (ofExpression src))) ↔
      (∀ e ∈ es, isReadable src e = true) ∨ (∀ e ∈ es, isReadable src e = false) ∨
        ∃ e ∈ es, isReadable src e = true ∧ said src e = TypeText.unknown := by
  have hwritten : ∀ x, (∃ e ∈ es, isReadable src e = true) →
      (x ∈ written (es.filterMap (ofExpression src)) ↔ ∃ e ∈ es, isReadable src e = true ∧ said src e = x) := by
    rintro x ⟨d, hd, hr⟩
    obtain ⟨t, ht⟩ := Option.isSome_iff_exists.mp ((isSome_ofExpression d).trans hr)
    have hne : ¬ (es.filterMap (ofExpression src)).isEmpty = true :=
      fun hempty => List.not_mem_nil (List.isEmpty_iff.mp hempty ▸ List.mem_filterMap.mpr ⟨d, hd, ht⟩)
    rw [written, if_neg hne, memberTexts_filterMap]
    simp [and_assoc]
  by_cases hall : ∀ e ∈ es, isReadable src e = false
  · refine iff_of_true (fun e he => ?_) (Or.inr (Or.inl hall))
    have hnone : es.filterMap (ofExpression src) = [] :=
      List.filterMap_eq_nil_iff.mpr fun d hd => ofExpression_unreadable (hall d hd)
    rw [said_unreadable (hall e he), hnone]
    exact List.mem_singleton.mpr rfl
  · have hsome : ∃ e ∈ es, isReadable src e = true := by simpa using hall
    constructor
    · intro h
      by_cases hread : ∀ e ∈ es, isReadable src e = true
      · exact Or.inl hread
      · -- an alternative that cannot be read is unknown, and so is the one written for it
        obtain ⟨d, hd, hr⟩ : ∃ d ∈ es, isReadable src d = false := by simpa using hread
        obtain ⟨e, he, hre, hsaid⟩ := (hwritten _ hsome).mp (h d hd)
        exact Or.inr (Or.inr ⟨e, he, hre, hsaid.trans (said_unreadable hr)⟩)
    · rintro (hread | hread | ⟨d, hd, hr, hsaid⟩) e he
      · exact (hwritten _ hsome).mpr ⟨e, he, hread e he, rfl⟩
      · exact absurd hread hall
      · by_cases hre : isReadable src e = true
        · exact (hwritten _ hsome).mpr ⟨e, he, hre, rfl⟩
        · exact (hwritten _ hsome).mpr ⟨d, hd, hr, hsaid.trans (said_unreadable (Bool.eq_false_iff.mpr hre)).symm⟩

/-! ## Shapes -/

def readFields (src : Source) (ps : List Node) : List (String × LegacyType) :=
  Keyed.ofList (ps.filterMap fun p => (field? src p).map fun t => (key src p, t))

theorem ofExpression_pairs {n : Node} {ps : List Node} (h : pairs? src n = some ps) :
    ∃ exact, ofExpression src n = some (record (isMarked src n) exact (readFields src ps)) := by
  obtain ⟨obj, hobj, rfl⟩ := Option.map_eq_some_iff.mp h
  obtain ⟨hobj, hobject⟩ := Option.filter_eq_some_iff.mp hobj
  obtain ⟨a, ha, rfl⟩ := Option.map_eq_some_iff.mp hobj
  obtain ⟨kind, hkind, hread⟩ := ofExpression_checked ha
  refine ⟨kind == "exact", ?_⟩
  have hkinds : kind = "shape" ∨ kind = "exact" := by simpa using hkind
  rw [hread, ofArgument, readFields, List.filterMap_filter]
  rcases hkinds with rfl | rfl
  · simp [hobject]
  · simp [hobject]

theorem get?_readFields (ps : List Node) (k : String) :
    Keyed.get? k (readFields src ps) = ((ps.filter fun q => key src q == k).filterMap (field? src)).getLast? := by
  rw [readFields, Keyed.get?_ofList, ← List.getLast?_map]
  rw [List.filter_filterMap, List.map_filterMap, List.filterMap_filter]
  refine congrArg List.getLast? (List.filterMap_congr fun p _ => ?_)
  cases field? src p with
  | none => simp
  | some t => by_cases hk : (key src p == k) = true <;> simp [Option.filter, hk]

theorem readFields_ne_nil {ps : List Node} (h : ∃ p ∈ ps, (field? src p).isSome = true) : readFields src ps ≠ [] := by
  obtain ⟨p, hp, hf⟩ := h
  obtain ⟨t, ht⟩ := Option.isSome_iff_exists.mp hf
  intro hnil
  have hread : (key src p, t) ∈ ps.filterMap fun p => (field? src p).map fun t => (key src p, t) :=
    List.mem_filterMap.mpr ⟨p, hp, by rw [ht]; rfl⟩
  have hmem : key src p ∈ Keyed.keys (readFields src ps) :=
    Keyed.mem_keys_ofList.mpr (List.mem_map_of_mem (f := Prod.fst) hread)
  rw [hnil] at hmem
  exact List.not_mem_nil hmem

theorem itemText_record {fields : List (String × LegacyType)} (required exact : Bool) (h : fields ≠ []) :
    itemText (some (record required exact fields)) =
      "\x7b " ++ String.intercalate "; " (fieldTexts fields) ++ " \x7d" := by
  rw [itemText, typeText?, if_neg (by simpa using h), Option.getD_some]

/-- The last value that can be read stands for the last value, unless both are unknown. -/
theorem last_said_iff (qs : List Node) :
    (∃ t, (qs.filterMap (field? src)).getLast? = some t ∧
        itemText (some t) = itemText (qs.getLast?.bind (field? src))) ↔
      (qs.getLast?.any fun q => (field? src q).isSome) = true ∨
        ∃ t, (qs.filterMap (field? src)).getLast? = some t ∧ itemText (some t) = TypeText.unknown := by
  rcases List.eq_nil_or_concat qs with rfl | ⟨qs, q, rfl⟩
  · simp
  · rw [List.concat_eq_append, List.getLast?_concat, Option.any_some, Option.bind_some, List.filterMap_append]
    cases hf : field? src q with
    | none => simp [hf, itemText]
    | some t => simp [hf]

/-! ## What is complete -/

theorem said_items {n a : Node} (h : checked? src ["arrayOf"] n = some a) :
    said src n = TypeText.group (said src a) ++ "[]" := by
  obtain ⟨kind, hkind, hread⟩ := ofExpression_checked h
  cases List.mem_singleton.mp hkind
  rw [said, hread, said]
  rfl

theorem said_values {n a : Node} (h : checked? src ["objectOf"] n = some a) :
    said src n = "Record<string, " ++ said src a ++ ">" := by
  obtain ⟨kind, hkind, hread⟩ := ofExpression_checked h
  cases List.mem_singleton.mp hkind
  rw [said, hread, said]
  rfl

theorem complete_iff (n : Node) : Complete src n ↔ Covered src n := by
  constructor
  · intro h
    refine ⟨fun es hes => ?_, fun ps hps hsome p hp => ?_⟩
    · obtain ⟨required, members, hread, -, hmem⟩ := h.alternatives es hes
      rw [ofExpression_alternatives hes] at hread
      injection hread with hread
      injection hread with _ hmembers
      rw [← hmembers] at hmem
      exact (said_mem_written_iff es).mp hmem
    · obtain ⟨required, exact, fields, hread, -, hfields⟩ := h.fields ps hps hsome
      obtain ⟨exact', hread'⟩ := ofExpression_pairs hps
      rw [hread'] at hread
      injection hread with hread
      injection hread with _ _ heq
      obtain ⟨t, ht, hdue⟩ := hfields p hp
      rw [← heq, get?_readFields] at ht
      exact (last_said_iff _).mp ⟨t, ht, hdue⟩
  · intro h
    refine ⟨fun _ => said_items, fun _ => said_values, fun es hes => ?_, fun ps hps hsome => ?_⟩
    · refine ⟨_, _, ofExpression_alternatives hes, ?_, (said_mem_written_iff es).mpr (h.alternatives es hes)⟩
      rw [said, ofExpression_alternatives hes, itemText_oneOfType]
    · obtain ⟨exact, hread⟩ := ofExpression_pairs hps
      refine ⟨_, exact, _, hread, ?_, fun p hp => ?_⟩
      · rw [said, hread, itemText_record _ _ (readFields_ne_nil hsome)]
      · obtain ⟨t, ht, hdue⟩ := (last_said_iff _).mpr (h.fields ps hps hsome p hp)
        exact ⟨t, (get?_readFields ps _).trans ht, hdue⟩

/-- An expression says its whole type, at every depth, exactly if nothing is left out at any depth but what is
unknown there anyway. -/
theorem complete_nested (src : Source) (n : Node) :
    (∀ m, Nested src n m → Complete src m) ↔ ∀ m, Nested src n m → Covered src m :=
  forall₂_congr fun m _ => complete_iff m

def choiceText : Source := .ofText "T.oneOfType([T.string, validate])"

/-- `T.string` -/
def textChecker : Node :=
  ⟨"member_expression", true, 13, 21, "",
    [⟨"identifier", true, 13, 14, "object", []⟩, ⟨".", false, 14, 15, "", []⟩,
     ⟨"property_identifier", true, 15, 21, "property", []⟩]⟩

def validate : Node := ⟨"identifier", true, 23, 31, "", []⟩

/-- `T.oneOfType([T.string, validate])` -/
def choice : Node :=
  ⟨"call_expression", true, 0, 33, "",
    [⟨"member_expression", true, 0, 11, "function",
      [⟨"identifier", true, 0, 1, "object", []⟩, ⟨".", false, 1, 2, "", []⟩,
       ⟨"property_identifier", true, 2, 11, "property", []⟩]⟩,
     ⟨"arguments", true, 11, 33, "arguments",
      [⟨"(", false, 11, 12, "", []⟩,
       ⟨"array", true, 12, 32, "",
        [⟨"[", false, 12, 13, "", []⟩, textChecker, ⟨",", false, 21, 22, "", []⟩, validate,
         ⟨"]", false, 31, 32, "", []⟩]⟩,
       ⟨")", false, 32, 33, "", []⟩]⟩]⟩

/-- Of a text and something unknown only the text is written. -/
theorem choice_narrowed : said choiceText choice = "string" ∧ ¬ Complete choiceText choice := by
  have hes : alternatives? choiceText choice = some [textChecker, validate] := by
    have hcall : ((core? choiceText choice).filter fun core =>
        core.isCall && ["oneOfType"].contains (checker choiceText core)) = some choice :=
      Option.filter_eq_some_iff.mpr ⟨rfl, by decide +kernel⟩
    rw [alternatives?, checked?, hcall]
    rfl
  have htext : ofExpression choiceText textChecker = some (named false "string") := by
    have hmark : isMarked choiceText textChecker = false := by decide +kernel
    have hname : choiceText.childText "property" textChecker = "string" := by decide +kernel
    have hcore : core? choiceText textChecker = some textChecker := by rw [core?, hmark]; rfl
    rw [ofExpression_some hcore, hmark, hname]
    rfl
  have hunknown : isReadable choiceText validate = false := by decide +kernel
  have hsaid : said choiceText textChecker = "string" := by
    rw [said, htext]
    decide +kernel
  constructor
  · rw [said, ofExpression_alternatives hes, itemText_oneOfType, List.filterMap_cons_some htext,
      List.filterMap_cons_none (ofExpression_unreadable hunknown)]
    decide +kernel
  · rw [complete_iff]
    intro h
    rcases h.alternatives _ hes with hall | hnone | ⟨e, he, hread, hword⟩
    · exact absurd (hall validate (by simp)) (by rw [hunknown]; decide)
    · exact absurd (hnone textChecker (by simp)) (by decide +kernel)
    · rcases List.mem_pair.mp he with rfl | rfl
      · rw [hsaid] at hword
        exact absurd hword (by decide)
      · exact absurd hread (by rw [hunknown]; decide)

end Retype.LegacyType

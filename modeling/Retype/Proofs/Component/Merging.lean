import Retype.Component.Synthesis
import Retype.Proofs.Json.Quoting
import Retype.Proofs.Keyed
import Retype.Proofs.Text.Alphabet

/-!
# One entry for each name

Merging writes to one table, first what is declared, then what is seen in use, then
the declared defaults. What the table gives for a name is made by the entries of
that name alone: the first of them carries the type, the later ones the default.
-/

set_option autoImplicit false

namespace Retype

namespace Property

open Keyed (get? put updates keys)

/-! ## The table -/

def seenAs (known : Option Property) (p : Property) : Property :=
  match known with
  | none => p
  | some known =>
    if p.defaultText.isSome then
      { known with
        defaultText := p.defaultText
        defaultShape := p.defaultShape
        isOptional := true }
    else known

variable (src : Source)

def assumedAs (known : Option Property) (d : String × Option Node) : Property :=
  let fresh := withDefault src d.1 d.2
  match known with
  | none => { fresh with origin := .byDefault }
  | some known =>
    if known.defaultText.isSome then { known with isOptional := true }
    else
      { known with
        isOptional := true
        defaultText := fresh.defaultText
        defaultShape := fresh.defaultShape }

def seen (observed : List Property) : List Property := observed.filter fun p => !p.isWhole

def table (declared observed : List Property) (defaults : List (String × Option Node)) :
    List (String × Property) :=
  updates Prod.fst (assumedAs src)
    (updates name seenAs (updates name (fun _ p => p) [] declared) (seen observed)) defaults

theorem observe_eq (es : List (String × Property)) (p : Property) :
    observe es p = put p.name (seenAs (get? p.name es) p) es := by
  unfold observe seenAs
  cases h : get? p.name es with
  | none => rfl
  | some known =>
    by_cases hp : p.defaultText.isSome = true
    · simp only [if_pos hp]
    · simp only [if_neg hp]
      exact (Keyed.put_of_get? h).symm

theorem assume_eq (es : List (String × Property)) (d : String × Option Node) :
    assume src es d = put d.1 (assumedAs src (get? d.1 es) d) es := by
  unfold assume assumedAs
  cases h : get? d.1 es with
  | none => rfl
  | some known =>
    simp only
    split
    · rfl
    · rfl

theorem merge_eq (declared observed : List Property) (defaults : List (String × Option Node)) :
    merge src declared observed defaults =
      observed.filter isWhole ++ (table src declared observed defaults).map Prod.snd := by
  have hseen : observe = fun es p => put p.name (seenAs (get? p.name es) p) es :=
    funext fun es => funext (observe_eq es)
  have hassumed : assume src = fun es d => put d.1 (assumedAs src (get? d.1 es) d) es :=
    funext fun es => funext (assume_eq src es)
  rw [merge, hseen, hassumed, Keyed.ofList, List.foldl_map]
  rfl

/-- Each name stands once, in the order of first occurrence. -/
theorem keys_table (declared observed : List Property) (defaults : List (String × Option Node)) :
    keys (table src declared observed defaults) =
      Order.distinct (declared.map name ++ (seen observed).map name ++ defaults.map Prod.fst) := by
  have hempty : (keys ([] : List (String × Property))).Nodup := List.nodup_nil
  have hstart : keys (updates name (fun _ p => p) [] declared) = Order.distinct (declared.map name) :=
    Keyed.keys_updates hempty declared
  have hseen : keys (updates name seenAs (updates name (fun _ p => p) [] declared) (seen observed)) =
      Order.distinct (keys (updates name (fun _ p => p) [] declared) ++ (seen observed).map name) :=
    Keyed.keys_updates (hstart ▸ Order.nodup_distinct _) (seen observed)
  rw [table, Keyed.keys_updates (hseen ▸ Order.nodup_distinct _)]
  apply Order.distinct_append_congr
  rw [hseen, hstart, Order.distinct_of_nodup (Order.nodup_distinct _)]
  exact Order.distinct_append_congr (Order.distinct_of_nodup (Order.nodup_distinct _)) _

/-! ## What an entry is made of -/

/-- What is known about the type of a prop, and where that was found. -/
def typing (p : Property) : Option LegacyType × Option String × Origin := (p.legacy, p.declared, p.origin)

def default? (p : Property) : Option (String × Option LiteralShape) :=
  p.defaultText.map fun text => (text, p.defaultShape)

def given (value : Option Node) : String × Option LiteralShape :=
  (src.textOf? value, value.bind (LiteralShape.ofExpression src))

/-- The entry under a name has its type from one place and its default from another. -/
structure Made (k : String) (base : Option Property) (value : Option (String × Option LiteralShape))
    (entry : Option Property) : Prop where
  named : ∀ p ∈ entry, p.name = k
  typed : entry.map typing = base.map typing
  valued : entry.bind default? = value
  shaped : value = none → entry.bind defaultShape = base.bind defaultShape

namespace Made

variable {k : String} {base entry : Option Property} {value : Option (String × Option LiteralShape)}

theorem of_none (h : Made k base value none) : base = none ∧ value = none :=
  ⟨Option.map_eq_none_iff.mp h.typed.symm, h.valued.symm⟩

theorem replace {p q : Property} {x : String × Option LiteralShape} (h : Made k base value (some p))
    (hname : q.name = p.name) (htyped : q.typing = p.typing) (hvalue : q.default? = some x) :
    Made k base (some x) (some q) where
  named r hr := by
    rw [← Option.mem_some.mp hr, hname]
    exact h.named p rfl
  typed := by rw [← h.typed, Option.map_some, Option.map_some, htyped]
  valued := hvalue
  shaped := nofun

theorem or_base {p : Property} (h : Made k base value (some p)) (b : Option Property) :
    Made k (base.or b) value (some p) := by
  have hbase : base.or b = base := by
    cases base with
    | none => cases h.typed
    | some c => rfl
  rw [hbase]
  exact h

/-- Use changes the default only, unless it is the first mention. -/
theorem step_seen {x : Property} (h : Made k base value entry) (hx : x.name = k) :
    Made k (base.or (some x)) (x.default?.or value) (some (seenAs entry x)) := by
  cases entry with
  | none =>
    obtain ⟨rfl, rfl⟩ := h.of_none
    rw [Option.or_none]
    exact ⟨fun p hp => Option.mem_some.mp hp ▸ hx, rfl, rfl, fun _ => rfl⟩
  | some p =>
    apply or_base
    cases hd : x.defaultText with
    | none =>
      rw [default?, seenAs, hd]
      exact h
    | some text =>
      rw [default?, seenAs, hd]
      exact h.replace rfl rfl rfl

/-- A declared default counts where no other is known. -/
theorem step_assumed (src : Source) {d : String × Option Node} (h : Made k base value entry) (hd : d.1 = k) :
    Made k (base.or (some (assumedAs src none d))) (value.or (some (given src d.2)))
      (some (assumedAs src entry d)) := by
  cases entry with
  | none =>
    obtain ⟨rfl, rfl⟩ := h.of_none
    exact ⟨fun p hp => Option.mem_some.mp hp ▸ hd, rfl, rfl, nofun⟩
  | some p =>
    apply or_base
    rw [← h.valued, Option.bind_some]
    cases hp : p.defaultText with
    | none =>
      rw [default?, assumedAs, hp]
      exact h.replace rfl rfl rfl
    | some text =>
      have hvalue : p.default? = some (text, p.defaultShape) := by rw [default?, hp, Option.map_some]
      rw [hvalue, assumedAs, hp]
      exact h.replace rfl rfl (by simp [default?])

theorem seen {xs : List Property} (h : Made k base value entry) (hxs : ∀ x ∈ xs, x.name = k) :
    Made k (base.or xs.head?) ((xs.filterMap default?).getLast?.or value)
      (xs.foldl (fun entry x => some (seenAs entry x)) entry) := by
  induction xs using List.reverseRecOn with
  | nil =>
    rw [List.head?_nil, Option.or_none]
    exact h
  | append_singleton xs x ih =>
    have hstep := (ih fun y hy => hxs y (List.mem_append_left [x] hy)).step_seen
      (hxs x (List.mem_append_right xs List.mem_cons_self))
    rw [List.foldl_concat, List.head?_append, List.filterMap_append, List.getLast?_append, Option.or_assoc]
    rw [Option.or_assoc] at hstep
    have hlast : ([x].filterMap default?).getLast? = x.default? := by
      cases hx : x.default? with
      | none => simp [hx]
      | some v => simp [hx]
    rw [hlast]
    exact hstep

theorem assumed (src : Source) {ds : List (String × Option Node)} (h : Made k base value entry)
    (hds : ∀ d ∈ ds, d.1 = k) :
    Made k (base.or (ds.head?.map (assumedAs src none))) (value.or (ds.head?.map fun d => given src d.2))
      (ds.foldl (fun entry d => some (assumedAs src entry d)) entry) := by
  induction ds using List.reverseRecOn with
  | nil =>
    rw [List.head?_nil, Option.map_none, Option.map_none, Option.or_none, Option.or_none]
    exact h
  | append_singleton ds d ih =>
    have hstep := (ih fun y hy => hds y (List.mem_append_left [d] hy)).step_assumed src
      (hds d (List.mem_append_right ds List.mem_cons_self))
    rw [List.foldl_concat, List.head?_append, Option.map_or, Option.map_or, ← Option.or_assoc,
      ← Option.or_assoc]
    exact hstep

end Made

/-- What the type of a prop is taken from: its last declaration, or else its first use. -/
def base? (declared observed : List Property) (k : String) : Option Property :=
  (declared.filter (·.name == k)).getLast?.or ((seen observed).filter (·.name == k)).head?

def lastDefault? (observed : List Property) (k : String) : Option (String × Option LiteralShape) :=
  (((seen observed).filter (·.name == k)).filterMap default?).getLast?

/-- The first use adds nothing to the uses with a default. -/
theorem lastDefault?_or (declared observed : List Property) (k : String) :
    (lastDefault? observed k).or ((declared.filter (·.name == k)).getLast?.bind default?) =
      (lastDefault? observed k).or ((base? declared observed k).bind default?) := by
  unfold lastDefault? base?
  cases (declared.filter (·.name == k)).getLast? with
  | some p => rfl
  | none =>
    rw [Option.none_or]
    cases (seen observed).filter (·.name == k) with
    | nil => rfl
    | cons x xs =>
      rw [List.head?_cons, Option.bind_some, Option.bind_none, Option.or_none]
      cases hx : x.default? with
      | none => rw [Option.or_none]
      | some v =>
        rw [List.filterMap_cons_some hx, List.getLast?_cons, Option.some_or]

theorem made (declared observed : List Property) (defaults : List (String × Option Node)) (k : String) :
    Made k ((base? declared observed k).or ((defaults.filter (·.1 == k)).head?.map (assumedAs src none)))
      (((lastDefault? observed k).or ((base? declared observed k).bind default?)).or
        ((get? k defaults).map (given src)))
      (get? k (table src declared observed defaults)) := by
  have hstart : Made k (declared.filter (·.name == k)).getLast?
      ((declared.filter (·.name == k)).getLast?.bind default?) (declared.filter (·.name == k)).getLast? :=
    ⟨fun p hp => beq_iff_eq.mp (List.mem_filter.mp (List.mem_of_getLast? hp)).2, rfl, rfl, fun _ => rfl⟩
  have hname : ∀ x ∈ (seen observed).filter (·.name == k), x.name = k := fun x hx =>
    beq_iff_eq.mp (List.mem_filter.mp hx).2
  have hkey : ∀ d ∈ defaults.filter (·.1 == k), d.1 = k := fun d hd => beq_iff_eq.mp (List.mem_filter.mp hd).2
  have hall := (hstart.seen hname).assumed src hkey
  rw [← lastDefault?, lastDefault?_or] at hall
  rw [table, Keyed.get?_updates, Keyed.get?_updates, ← Keyed.ofList_eq_updates, Keyed.get?_ofList_map,
    Keyed.get?_eq_head?, Option.map_map]
  exact hall

variable {src}

theorem mem_table {declared observed : List Property} {defaults : List (String × Option Node)}
    {e : String × Property} (h : e ∈ table src declared observed defaults) :
    get? e.1 (table src declared observed defaults) = some e.2 ∧ e.2.name = e.1 := by
  have hnodup : (keys (table src declared observed defaults)).Nodup :=
    keys_table src declared observed defaults ▸ Order.nodup_distinct _
  have hget := (Keyed.get?_eq_some_iff hnodup).mpr h
  exact ⟨hget, (made src declared observed defaults e.1).named e.2 hget⟩

variable (src) in
theorem names_table (declared observed : List Property) (defaults : List (String × Option Node)) :
    ((table src declared observed defaults).map Prod.snd).map name =
      Order.distinct (declared.map name ++ (seen observed).map name ++ defaults.map Prod.fst) := by
  rw [← keys_table src, keys, List.map_map]
  exact List.map_congr_left fun e he => (mem_table he).2

/-- What an entry says about its type and its default value. -/
theorem entry_described {declared observed : List Property} {defaults : List (String × Option Node)}
    {p : Property} (h : p ∈ (table src declared observed defaults).map Prod.snd) :
    p.typing = ((base? declared observed p.name).map typing).getD (none, none, .byDefault) ∧
      p.default? = (lastDefault? observed p.name).or
        (((base? declared observed p.name).bind default?).or ((get? p.name defaults).map (given src))) ∧
      (p.defaultText = none → p.defaultShape = (base? declared observed p.name).bind defaultShape) := by
  obtain ⟨e, he, rfl⟩ := List.mem_map.mp h
  obtain ⟨hget, hname⟩ := mem_table he
  have hmade := made src declared observed defaults e.1
  rw [← hname] at hget hmade
  rw [hget] at hmade
  refine ⟨?_, ?_, ?_⟩
  · have htyped := hmade.typed
    cases hbase : base? declared observed e.2.name with
    | some b =>
      rw [hbase] at htyped
      exact Option.some.inj htyped
    | none =>
      rw [hbase, Option.none_or] at htyped
      cases hd : (defaults.filter (·.1 == e.2.name)).head? with
      | some d =>
        rw [hd] at htyped
        exact Option.some.inj htyped
      | none =>
        rw [hd] at htyped
        cases htyped
  · rw [← Option.or_assoc]
    exact hmade.valued
  · intro hnone
    have hvalue := hmade.valued
    rw [Option.bind_some, default?, hnone, Option.map_none] at hvalue
    have hd : (defaults.filter (·.1 == e.2.name)).head? = none := by
      have hget := Option.map_eq_none_iff.mp (Option.or_eq_none_iff.mp hvalue.symm).2
      rw [Keyed.get?_eq_head?] at hget
      exact Option.map_eq_none_iff.mp hget
    have hshape := hmade.shaped hvalue.symm
    rwa [hd, Option.map_none, Option.or_none] at hshape

end Property

namespace TypeText

theorem holdsToEnd_iff {p : List Char → Bool} {s : String} :
    holdsToEnd p s = true ↔ ∃ cs, p cs = true ∧ (s.toList = cs ∨ s.toList = cs ++ ['\n']) := by
  rw [holdsToEnd, Bool.or_eq_true, Bool.and_eq_true, decide_eq_true_eq]
  constructor
  · rintro (h | ⟨hlast, h⟩)
    · exact ⟨s.toList, h, Or.inl rfl⟩
    · exact ⟨s.toList.dropLast, h, Or.inr (List.dropLast_append_getLast? '\n' hlast).symm⟩
  · rintro ⟨cs, h, hs | hs⟩
    · exact Or.inl (hs ▸ h)
    · rw [hs, List.getLast?_concat, List.dropLast_concat]
      exact Or.inr ⟨rfl, h⟩

theorem isIdentifierPart_ascii {c : Char} (h : c.toNat < 0x80) :
    isIdentifierPart c = (c = '_' || (Alphabet.isAsciiLetter c || ('0' ≤ c && c ≤ '9')) || c = '$') := by
  rw [isIdentifierPart, Alphabet.isWord_ascii h]

theorem isIdentifierPart_of_start {c : Char} (h : isIdentifierStart c = true) : isIdentifierPart c = true := by
  simp only [isIdentifierStart, Bool.or_eq_true, decide_eq_true_eq] at h
  rw [isIdentifierPart, Bool.or_eq_true, decide_eq_true_eq]
  rcases h with (h | rfl) | h
  · exact Or.inl (Alphabet.isWord_of_isAsciiLetter h)
  · exact Or.inl rfl
  · exact Or.inr h

/-- The characters of a name without quotes. -/
theorem plainName_cons {name : String} (h : isPlainName name = true) :
    ∃ c rest, name.toList = c :: rest ∧ isIdentifierStart c = true ∧
      ∀ d ∈ rest, isIdentifierPart d = true ∨ d = '\n' := by
  obtain ⟨cs, hp, hs⟩ := holdsToEnd_iff.mp h
  cases cs with
  | nil => cases hp
  | cons c rest =>
    obtain ⟨hc, hrest⟩ := Bool.and_eq_true_iff.mp hp
    rw [List.all_eq_true] at hrest
    rcases hs with hs | hs
    · exact ⟨c, rest, hs, hc, fun d hd => Or.inl (hrest d hd)⟩
    · refine ⟨c, rest ++ ['\n'], hs, hc, fun d hd => ?_⟩
      exact (List.mem_append.mp hd).imp (hrest d) List.mem_singleton.mp

end TypeText

namespace Synthesis

open Property (isWhole)

/-! ## Lines -/

def endsName (c : Char) : Bool := c = '?' || c = ':'

/-- The property that a member line declares: an index signature declares none. -/
def declaredBy? (line : String) : Option String :=
  match line.toList with
  | '[' :: _ => none
  | '"' :: rest => (Json.stringBody line.toList (rest.length + 1) [] rest).toOption.map Prod.fst
  | cs => some (String.ofList (cs.takeWhile fun c => !endsName c))

theorem toList_memberLine (p : Property) : ∃ c rest,
    (memberLine p).toList = (TypeText.propertyName p.name).toList ++ c :: rest ∧ endsName c = true := by
  unfold memberLine
  split
  · refine ⟨'?', (": " ++ p.typeText ++ ";").toList, ?_, rfl⟩
    simp only [String.toList_append, List.append_assoc]
    rfl
  · refine ⟨':', (" " ++ p.typeText ++ ";").toList, ?_, rfl⟩
    simp only [String.toList_append, List.append_assoc]
    rfl

theorem endsName_plain {c : Char} (h : TypeText.isIdentifierPart c = true ∨ c = '\n') : endsName c = false := by
  rw [endsName, Bool.or_eq_false_iff, decide_eq_false_iff_not, decide_eq_false_iff_not]
  constructor
  · rintro rfl
    rw [TypeText.isIdentifierPart_ascii (by decide)] at h
    exact absurd h (by decide)
  · rintro rfl
    rw [TypeText.isIdentifierPart_ascii (by decide)] at h
    exact absurd h (by decide)

theorem declaredBy?_memberLine {p : Property} (h : Half.Joined p.name) :
    declaredBy? (memberLine p) = some p.name := by
  obtain ⟨e, rest, hline, he⟩ := toList_memberLine p
  unfold declaredBy?
  by_cases hplain : TypeText.isPlainName p.name = true
  · obtain ⟨c, cs, hname, hc, hcs⟩ := TypeText.plainName_cons hplain
    have hall : ∀ d ∈ p.name.toList, (!endsName d) = true := by
      intro d hd
      rw [hname] at hd
      rw [endsName_plain, Bool.not_false]
      rcases List.mem_cons.mp hd with rfl | hd
      · exact Or.inl (TypeText.isIdentifierPart_of_start hc)
      · exact hcs d hd
    rw [TypeText.propertyName, if_pos hplain] at hline
    have hstart : ∀ d tail, (memberLine p).toList = d :: tail → TypeText.isIdentifierStart d = true := by
      intro d tail hd
      rw [hline, hname] at hd
      exact (List.cons.inj hd).1 ▸ hc
    split
    · next hd => exact absurd (hstart _ _ hd) (by decide)
    · next hd => exact absurd (hstart _ _ hd) (by decide)
    · rw [hline, List.takeWhile_append_of_pos hall, List.takeWhile_cons_of_neg (by simp [he]), List.append_nil,
        String.ofList_toList]
  · rw [TypeText.propertyName, if_neg hplain, Json.toList_quote, List.cons_append, List.append_assoc] at hline
    rw [hline]
    simp only
    rw [List.singleton_append, Json.stringBody_escapes _ h]
    · simp [Except.toOption]
    · have hlength := Json.length_le_escapes p.name.toList
      rw [List.length_append]
      omega

theorem declaredBy?_memberLines {props : List Property} (h : ∀ p ∈ listed props, Half.Joined p.name) :
    (memberLines props).filterMap declaredBy? = (listed props).map (·.name) := by
  have hlines : ((listed props).map memberLine).filterMap declaredBy? = (listed props).map (·.name) := by
    rw [List.filterMap_map, ← List.filterMap_eq_map]
    exact List.filterMap_congr fun p hp => declaredBy?_memberLine (h p hp)
  have hindex : declaredBy? TypeText.indexSignature = none := rfl
  simp only [memberLines]
  split
  · rw [List.filterMap_append, hlines, List.filterMap_cons_none hindex, List.filterMap_nil, List.append_nil]
  · exact hlines

end Synthesis

namespace Property

/-- Merging keeps one entry for each name, in the order of first occurrence. Its type is that of the last
declaration or else of the first use; its default is that of the last use with one, or else what the entry
had, or else the declared one. The interface then has one line for each of these names. -/
theorem merge_entries (src : Source) (declared observed : List Property)
    (defaults : List (String × Option Node)) :
    ∃ entries, merge src declared observed defaults = observed.filter isWhole ++ entries ∧
      entries.map name =
        Order.distinct (declared.map name ++ (seen observed).map name ++ defaults.map Prod.fst) ∧
      (∀ p ∈ entries,
        p.typing = ((base? declared observed p.name).map typing).getD (none, none, .byDefault) ∧
        p.default? = (lastDefault? observed p.name).or
          (((base? declared observed p.name).bind default?).or ((Keyed.get? p.name defaults).map (given src))) ∧
        (p.defaultText = none → p.defaultShape = (base? declared observed p.name).bind defaultShape)) ∧
      ((∀ p ∈ entries, Half.Joined p.name) →
        (Synthesis.memberLines (merge src declared observed defaults)).filterMap Synthesis.declaredBy? =
            (Synthesis.listed entries).map name ∧
          ((Synthesis.memberLines (merge src declared observed defaults)).filterMap
            Synthesis.declaredBy?).Nodup) := by
  have hnames := names_table src declared observed defaults
  have hmerge := merge_eq src declared observed defaults
  refine ⟨(table src declared observed defaults).map Prod.snd, hmerge, hnames,
    fun p hp => entry_described hp, fun hjoined => ?_⟩
  have hwhole : Synthesis.listed (observed.filter isWhole) = [] := by
    rw [Synthesis.listed, List.filter_filter, List.filter_eq_nil_iff]
    intro p _
    cases p.isWhole <;> simp
  have hlisted : Synthesis.listed (merge src declared observed defaults) =
      Synthesis.listed ((table src declared observed defaults).map Prod.snd) := by
    rw [hmerge, Synthesis.listed, List.filter_append]
    exact (congrArg (· ++ _) hwhole).trans (List.nil_append _)
  have hlines : (Synthesis.memberLines (merge src declared observed defaults)).filterMap Synthesis.declaredBy? =
      (Synthesis.listed (merge src declared observed defaults)).map name :=
    Synthesis.declaredBy?_memberLines fun p hp => hjoined p (List.mem_filter.mp (hlisted ▸ hp)).1
  rw [hlisted] at hlines
  refine ⟨hlines, hlines ▸ ?_⟩
  have hnodup : (((table src declared observed defaults).map Prod.snd).map name).Nodup :=
    hnames ▸ Order.nodup_distinct _
  exact hnodup.sublist (List.filter_sublist.map name)

theorem merge_entries_lines :
    ((Synthesis.memberLines (merge ⟨#[]⟩ [{ name := "b", legacy := some (.named true "func"), origin := .legacy },
        { name := "a", declared := some "A", origin := .interface }]
      [{ name := "props", origin := .whole }, { name := "a", defaultText := some "1" }, { name := "b" }]
      [("c", none)])).filterMap Synthesis.declaredBy?).Nodup := by
  obtain ⟨entries, -, hnames, -, hlines⟩ := merge_entries ⟨#[]⟩
    [{ name := "b", legacy := some (.named true "func"), origin := .legacy },
      { name := "a", declared := some "A", origin := .interface }]
    [{ name := "props", origin := .whole }, { name := "a", defaultText := some "1" }, { name := "b" }]
    [("c", none)]
  have hthree : entries.map name = ["b", "a", "c"] := hnames.trans (by decide)
  refine (hlines fun p hp => ?_).2
  have hname : p.name ∈ ["b", "a", "c"] := hthree ▸ List.mem_map_of_mem hp
  have hjoined : ∀ k ∈ ["b", "a", "c"], Half.Joined k := by decide
  exact hjoined p.name hname

end Property

end Retype

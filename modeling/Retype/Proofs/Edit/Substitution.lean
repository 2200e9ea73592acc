import Mathlib.Algebra.BigOperators.Group.List.Basic
import Mathlib.Algebra.Ring.Int.Defs
import Mathlib.Algebra.Ring.Nat
import Retype.Proofs.Edit.Survival

/-!
# Edits as simultaneous substitution

What edits make of a source can be said place by place: the texts of insertions at the
place, the text of a replacement that begins there, and the octet there unless it is
replaced. Edits that are put in order and spliced in from the last to the first make the
same. They overlap exactly where the spans of some two of them do, and where none do they
are refused only for a text that has no octets.
-/

set_option autoImplicit false

namespace Retype.Edit

variable {source : List UInt8} {es l : List Edit} {e : Edit}

/-! ## The order of edits -/

def spans (first last : Int) (e : Edit) : Bool := e.start = first && e.stop = last

/-- Edits by start and then by stop; those of one span stand as they were made. -/
structure StableOrder (es l : List Edit) : Prop where
  perm : l.Perm es
  sorted : l.Pairwise fun a b => before a b = true
  stable : ∀ first last, l.filter (spans first last) = es.filter (spans first last)

theorem spans_iff {first last : Int} : spans first last e = true ↔ e.start = first ∧ e.stop = last := by
  simp [spans]

theorem ordered_filter (es : List Edit) (first last : Int) :
    (ordered es).filter (spans first last) = es.filter (spans first last) := by
  have hone : (es.filter (spans first last)).Pairwise fun a b => before a b = true := by
    refine List.pairwise_of_forall_mem_list fun a ha b hb => ?_
    obtain ⟨h1, h2⟩ := spans_iff.mp (List.mem_filter.mp ha).2
    obtain ⟨h3, h4⟩ := spans_iff.mp (List.mem_filter.mp hb).2
    rw [before_iff]
    omega
  have hsub : (es.filter (spans first last)).Sublist (ordered es) :=
    List.sublist_mergeSort (fun a b c => before_trans (a := a) (b := b) (c := c)) before_total hone List.filter_sublist
  have hsub := hsub.filter (spans first last)
  simp only [List.filter_filter, Bool.and_self] at hsub
  exact (hsub.eq_of_length ((ordered_perm es).filter _).length_eq.symm).symm

theorem ordered_stable (es : List Edit) : StableOrder es (ordered es) :=
  ⟨ordered_perm es, ordered_sorted es, ordered_filter es⟩

theorem mem_of_filter_spans {l m : List Edit} (h : l.filter (spans e.start e.stop) = m.filter (spans e.start e.stop))
    (he : e ∈ l) : e ∈ m := by
  have hspan : e ∈ l.filter (spans e.start e.stop) :=
    List.mem_filter.mpr ⟨he, spans_iff.mpr ⟨rfl, rfl⟩⟩
  rw [h] at hspan
  exact (List.mem_filter.mp hspan).1

theorem head_before {a b : Edit} {l : List Edit} (hl : (a :: l).Pairwise fun a b => before a b = true)
    (hb : b ∈ a :: l) : before a b = true := by
  rcases List.mem_cons.mp hb with rfl | hb
  · rw [before_iff]
    omega
  · exact List.rel_of_pairwise_cons hl hb

/-- Sorted edits are known from the edits of each span. -/
theorem sorted_unique {l m : List Edit} (hl : l.Pairwise fun a b => before a b = true)
    (hm : m.Pairwise fun a b => before a b = true)
    (h : ∀ first last, l.filter (spans first last) = m.filter (spans first last)) : l = m := by
  induction l generalizing m with
  | nil =>
    cases m with
    | nil => rfl
    | cons b m => cases mem_of_filter_spans (h _ _).symm (List.mem_cons_self (a := b))
  | cons a l ih =>
    cases m with
    | nil => cases mem_of_filter_spans (h _ _) (List.mem_cons_self (a := a))
    | cons b m =>
      -- either head is before all of the other list, so both are edits of one span
      have hab := head_before hl (mem_of_filter_spans (h _ _).symm List.mem_cons_self)
      have hba := head_before hm (mem_of_filter_spans (h _ _) List.mem_cons_self)
      rw [before_iff] at hab hba
      have ha : spans a.start a.stop a = true := spans_iff.mpr ⟨rfl, rfl⟩
      have hb : spans a.start a.stop b = true := spans_iff.mpr (by omega)
      have hhead := h a.start a.stop
      rw [List.filter_cons_of_pos ha, List.filter_cons_of_pos hb] at hhead
      obtain rfl := (List.cons.inj hhead).1
      refine congrArg (a :: ·) (ih hl.of_cons hm.of_cons fun first last => ?_)
      have hspan := h first last
      rw [List.filter_cons, List.filter_cons] at hspan
      split at hspan
      · exact (List.cons.inj hspan).2
      · exact hspan

theorem StableOrder.eq_ordered (h : StableOrder es l) : l = ordered es :=
  sorted_unique h.sorted (ordered_sorted es) fun first last =>
    (h.stable first last).trans (ordered_filter es first last).symm

theorem ordered_congr {fs : List Edit}
    (h : ∀ first last, fs.filter (spans first last) = es.filter (spans first last)) :
    ordered fs = ordered es :=
  sorted_unique (ordered_sorted fs) (ordered_sorted es) fun first last => by
    rw [ordered_filter, ordered_filter, h]

/-! ## Edits that overlap -/

theorem clash?_isSome_iff (hf : ∀ e ∈ es, e.start ≤ e.stop) :
    (clash? es).isSome = true ↔ ¬ Chained es := by
  rw [Option.isSome_iff_ne_none, not_iff_not]
  exact ⟨chained_of_clash? hf, clash?_chained⟩

theorem not_chained_iff : ¬ Chained es ↔
    ∃ (i j : Nat) (a b : Edit), i < j ∧ es[i]? = some a ∧ es[j]? = some b ∧ b.start < a.stop := by
  rw [Chained, List.pairwise_iff_getElem]
  constructor
  · intro h
    push Not at h
    obtain ⟨i, j, hi, hj, hij, h⟩ := h
    exact ⟨i, j, es[i], es[j], hij, List.getElem?_eq_getElem hi, List.getElem?_eq_getElem hj,
      by omega⟩
  · rintro ⟨i, j, a, b, hij, ha, hb, h⟩ hall
    obtain ⟨hi, rfl⟩ := List.getElem?_eq_some_iff.mp ha
    obtain ⟨hj, rfl⟩ := List.getElem?_eq_some_iff.mp hb
    have := hall i j hi hj hij
    omega

theorem applyAll_overlap_iff (hf : ∀ e ∈ es, Fits source.length e) :
    (∃ o, applyAll source es = .error (.overlap o)) ↔ ¬ Chained (ordered es) := by
  constructor
  · rintro ⟨o, ho⟩ hc
    rw [applyAll_chained source hc] at ho
    cases hl : lone? (ordered es) <;> rw [hl] at ho <;> cases ho
  · intro hc
    obtain ⟨⟨a, b⟩, hab⟩ := Option.isSome_iff_exists.mp
      ((clash?_isSome_iff fun e he => (hf e (mem_ordered.mp he)).forward).mpr hc)
    exact ⟨⟨a, b⟩, by rw [applyAll, hab]⟩

/-! ## Place by place -/

def takes (i : Nat) (e : Edit) : Bool := e.start ≤ i && (i : Int) < e.stop

def takesFrom (i : Nat) (e : Edit) : Bool := e.start = i && (i : Int) < e.stop

/-- What edits put before the octet at a place: the texts of insertions, in the order in
which they were made, and the text that replaces what begins there. -/
def textsAt (es : List Edit) (i : Nat) : List UInt8 :=
  (es.filter (spans i i) ++ es.filter (takesFrom i)).flatMap fun e => Utf8.encode e.text

def octetAt (source : List UInt8) (es : List Edit) (i : Nat) : List UInt8 :=
  if es.any (takes i) then [] else source[i]?.toList

/-- The source with the text of every edit in the place of its span. -/
def substituted (source : List UInt8) (es : List Edit) : List UInt8 :=
  (List.range (source.length + 1)).flatMap fun i => textsAt es i ++ octetAt source es i

/-- A part of what is substituted: that of the places from one up to another. -/
def stretch (source : List UInt8) (es : List Edit) (a b : Nat) : List UInt8 :=
  (List.range' a (b - a)).flatMap fun i => textsAt es i ++ octetAt source es i

theorem substituted_eq_stretch (source : List UInt8) (es : List Edit) :
    substituted source es = stretch source es 0 (source.length + 1) := by
  rw [substituted, stretch, List.range_eq_range', Nat.sub_zero]

theorem stretch_append {a b c : Nat} (hab : a ≤ b) (hbc : b ≤ c) :
    stretch source es a c = stretch source es a b ++ stretch source es b c := by
  have hlen : c - a = (b - a) + (c - b) := by omega
  rw [stretch, stretch, stretch, ← List.flatMap_append, hlen, ← List.range'_append_1,
    Nat.add_sub_cancel' hab]

theorem stretch_congr {a b : Nat} {fs : List Edit}
    (h : ∀ i, a ≤ i → i < b → textsAt es i ++ octetAt source es i =
      textsAt fs i ++ octetAt source fs i) :
    stretch source es a b = stretch source fs a b := by
  refine List.flatMap_congr fun i hi => h i ?_ ?_
  all_goals
    rw [List.mem_range'_1] at hi
    omega

theorem filter_spans_of_after {i : Nat} (h : ∀ e ∈ es, (i : Int) < e.start) :
    es.filter (spans i i) = [] := by
  refine List.filter_eq_nil_iff.mpr fun e he hs => ?_
  have := h e he
  have := (spans_iff.mp hs).1
  omega

theorem filter_takesFrom_of_after {i : Nat} (h : ∀ e ∈ es, (i : Int) < e.start) :
    es.filter (takesFrom i) = [] := by
  refine List.filter_eq_nil_iff.mpr fun e he ht => ?_
  have := h e he
  simp only [takesFrom, Bool.and_eq_true, decide_eq_true_eq] at ht
  omega

theorem textsAt_of_after {i : Nat} (h : ∀ e ∈ es, (i : Int) < e.start) : textsAt es i = [] := by
  rw [textsAt, filter_spans_of_after h, filter_takesFrom_of_after h]
  rfl

theorem octetAt_of_after {i : Nat} (h : ∀ e ∈ es, (i : Int) < e.start) :
    octetAt source es i = source[i]?.toList := by
  rw [octetAt, if_neg]
  rw [List.any_eq_true]
  rintro ⟨e, he, ht⟩
  have := h e he
  simp only [takes, Bool.and_eq_true, decide_eq_true_eq] at ht
  omega

/-- Octets that stand before all edits are copied. -/
theorem stretch_copy {a b : Nat} (h : ∀ e ∈ es, (b : Int) ≤ e.start) :
    stretch source es a b = (source.drop a).take (b - a) := by
  have hcopy : ∀ n a, (List.range' a n).flatMap (fun i => source[i]?.toList) =
      (source.drop a).take n := by
    intro n
    induction n with
    | zero => exact fun a => (List.take_zero).symm
    | succ n ih =>
      intro a
      rw [List.range'_succ, List.flatMap_cons, ih]
      rcases Nat.lt_or_ge a source.length with ha | ha
      · rw [List.getElem?_eq_getElem ha, List.drop_eq_getElem_cons ha, List.take_succ_cons]
        rfl
      · rw [List.getElem?_eq_none ha, List.drop_eq_nil_of_le ha,
          List.drop_eq_nil_of_le (Nat.le_succ_of_le ha), List.take_nil, List.take_nil]
        rfl
  rw [← hcopy, stretch]
  refine List.flatMap_congr fun i hi => ?_
  rw [List.mem_range'_1] at hi
  have hafter : ∀ e ∈ es, (i : Int) < e.start := fun e he => by
    have := h e he
    omega
  rw [textsAt_of_after hafter, octetAt_of_after hafter, List.nil_append]

theorem textsAt_cons (i : Nat) : textsAt (e :: es) i =
    if e.start = i ∧ e.stop = i then Utf8.encode e.text ++ textsAt es i
    else if e.start = i ∧ (i : Int) < e.stop then
      (es.filter (spans i i)).flatMap (fun e => Utf8.encode e.text) ++ Utf8.encode e.text ++
        (es.filter (takesFrom i)).flatMap fun e => Utf8.encode e.text
    else textsAt es i := by
  simp only [textsAt, List.filter_cons, spans, takesFrom, Bool.and_eq_true, decide_eq_true_eq]
  split
  · next h => simp [show ¬ (e.start = (i : Int) ∧ (i : Int) < e.stop) by omega]
  · split <;> simp

theorem octetAt_cons (i : Nat) : octetAt source (e :: es) i =
    if e.start ≤ i ∧ (i : Int) < e.stop then [] else octetAt source es i := by
  have htakes : takes i e = true ↔ e.start ≤ i ∧ (i : Int) < e.stop := by
    simp only [takes, Bool.and_eq_true, decide_eq_true_eq]
  by_cases h : e.start ≤ i ∧ (i : Int) < e.stop
  · have hany : (e :: es).any (takes i) = true := by
      rw [List.any_cons, htakes.mpr h, Bool.true_or]
    rw [octetAt, if_pos hany, if_pos h]
  · have hany : (e :: es).any (takes i) = es.any (takes i) := by
      rw [List.any_cons, Bool.eq_false_iff.mpr (mt htakes.mp h), Bool.false_or]
    simp only [octetAt, hany, if_neg h]

theorem stretch_succ {a b : Nat} (hab : a < b) : stretch source es a b =
    (textsAt es a ++ octetAt source es a) ++ stretch source es (a + 1) b := by
  rw [stretch_append (Nat.le_succ a) hab]
  simp [stretch]

theorem stretch_behind {a b : Nat} (h1 : e.start < a) (h2 : e.stop ≤ a) :
    stretch source (e :: es) a b = stretch source es a b := by
  refine stretch_congr fun i hi _ => ?_
  rw [textsAt_cons, octetAt_cons, if_neg (by omega), if_neg (by omega), if_neg (by omega)]

theorem stretch_insertion {a b : Nat} (h1 : e.start = a) (h2 : e.stop = a) (hab : a < b) :
    stretch source (e :: es) a b = Utf8.encode e.text ++ stretch source es a b := by
  have hrest : stretch source es a b = (textsAt es a ++ octetAt source es a) ++
      stretch source es (a + 1) b := stretch_succ hab
  rw [stretch_succ hab, stretch_behind (by omega) (by omega), textsAt_cons, octetAt_cons,
    if_pos (by omega), if_neg (by omega), hrest]
  simp only [List.append_assoc]

/-- The text of a replacement stands at its start, and nothing at the rest of its span. -/
theorem stretch_replacement {a b c : Nat} (h1 : e.start = a) (h2 : e.stop = c) (hac : a < c)
    (hcb : c ≤ b) (hes : ∀ d ∈ es, (c : Int) ≤ d.start) :
    stretch source (e :: es) a b = Utf8.encode e.text ++ stretch source es c b := by
  have hafter : ∀ d ∈ es, (a : Int) < d.start := fun d hd => by
    have := hes d hd
    omega
  have hfirst : textsAt (e :: es) a ++ octetAt source (e :: es) a = Utf8.encode e.text := by
    rw [textsAt_cons, octetAt_cons, if_neg (by omega), if_pos (by omega), if_pos (by omega),
      filter_spans_of_after hafter, filter_takesFrom_of_after hafter]
    simp
  have hinside : stretch source (e :: es) (a + 1) c = [] := by
    refine List.flatMap_eq_nil_iff.mpr fun i hi => ?_
    rw [List.mem_range'_1] at hi
    have hafter : ∀ d ∈ es, (i : Int) < d.start := fun d hd => by
      have := hes d hd
      omega
    rw [textsAt_cons, octetAt_cons, if_neg (by omega), if_neg (by omega), if_pos (by omega),
      textsAt_of_after hafter]
    rfl
  rw [stretch_succ (by omega), hfirst, stretch_append (b := c) (by omega) hcb, hinside,
    List.nil_append, stretch_behind (by omega) (by omega)]

/-- What a chain of edits makes of a source from a place on, place by place. -/
theorem splice_eq_stretch {here b : Nat} (hf : ∀ e ∈ es, Fits source.length e) (hc : Chained es)
    (hh : ∀ e ∈ es, (here : Int) ≤ e.start) (hl : here ≤ source.length) (hb : source.length < b) :
    splice source here es = stretch source es here b := by
  induction es generalizing here with
  | nil =>
    rw [splice, stretch_copy (by simp), List.take_of_length_le]
    rw [List.length_drop]
    omega
  | cons e es ih =>
    have hfe := hf e List.mem_cons_self
    have hhe := hh e List.mem_cons_self
    have hstart : ∀ d ∈ e :: es, ((e.start.toNat : Nat) : Int) ≤ d.start := by
      intro d hd
      have := hfe.first
      have := hfe.forward
      rcases List.mem_cons.mp hd with rfl | hd
      · omega
      · have := List.rel_of_pairwise_cons hc hd
        omega
    obtain ⟨hfirst, hforward, hlast⟩ := hfe
    have hrest : ∀ d ∈ es, ((e.stop.toNat : Nat) : Int) ≤ d.start := by
      intro d hd
      have := List.rel_of_pairwise_cons hc hd
      omega
    have hcons : stretch source (e :: es) e.start.toNat b =
        Utf8.encode e.text ++ stretch source es e.stop.toNat b := by
      rcases Int.lt_or_eq_of_le hforward with hlt | heq
      · exact stretch_replacement (by omega) (by omega) (by omega) (by omega) hrest
      · rw [← heq]
        exact stretch_insertion (by omega) (by omega) (by omega)
    rw [splice, ih (fun d hd => hf d (List.mem_cons_of_mem e hd)) hc.of_cons hrest (by omega),
      stretch_append (a := here) (b := e.start.toNat) (by omega) (by omega), stretch_copy hstart,
      hcons, List.append_assoc]

/-! ## From the order of edits to their list -/

theorem takesFrom_single {i : Nat} (hc : Chained es) : (es.filter (takesFrom i)).length ≤ 1 := by
  have hchain : Chained (es.filter (takesFrom i)) := hc.sublist List.filter_sublist
  cases hl : es.filter (takesFrom i) with
  | nil => exact Nat.zero_le 1
  | cons a as =>
    cases as with
    | nil => exact Nat.le_refl 1
    | cons b bs =>
      have ha : a ∈ es.filter (takesFrom i) := hl ▸ List.mem_cons_self
      have hb : b ∈ es.filter (takesFrom i) := hl ▸ List.mem_cons_of_mem a List.mem_cons_self
      have ha := (List.mem_filter.mp ha).2
      have hb := (List.mem_filter.mp hb).2
      rw [hl] at hchain
      have := List.rel_of_pairwise_cons hchain List.mem_cons_self
      simp only [takesFrom, Bool.and_eq_true, decide_eq_true_eq] at ha hb
      omega

theorem perm_eq_of_short {α : Type} {xs ys : List α} (h : xs.Perm ys) (hl : xs.length ≤ 1) : xs = ys := by
  match xs, hl with
  | [], _ => exact (List.nil_perm.mp h).symm
  | [x], _ => exact List.singleton_perm.mp h

theorem textsAt_ordered (hc : Chained (ordered es)) (i : Nat) : textsAt (ordered es) i = textsAt es i := by
  rw [textsAt, ordered_filter,
    perm_eq_of_short ((ordered_perm es).filter (takesFrom i)) (takesFrom_single hc), textsAt]

theorem octetAt_ordered (i : Nat) : octetAt source (ordered es) i = octetAt source es i := by
  rw [octetAt, octetAt, (ordered_perm es).any_eq]

theorem substituted_ordered (hc : Chained (ordered es)) :
    substituted source (ordered es) = substituted source es :=
  List.flatMap_congr fun i _ => by rw [textsAt_ordered hc, octetAt_ordered]

/-! ## Lengths -/

def removed (es : List Edit) : Int := (es.map fun e => e.stop - e.start).sum

def inserted (es : List Edit) : Nat := (es.map fun e => (Utf8.encode e.text).length).sum

theorem splice_length {here : Nat} (hf : ∀ e ∈ es, Fits source.length e) (hc : Chained es)
    (hh : ∀ e ∈ es, (here : Int) ≤ e.start) (hl : here ≤ source.length) :
    ((splice source here es).length : Int) = source.length - here - removed es + inserted es := by
  induction es generalizing here with
  | nil =>
    rw [splice, List.length_drop]
    simp only [removed, inserted, List.map_nil, List.sum_nil]
    omega
  | cons e es ih =>
    obtain ⟨h1, h2, h3⟩ := hf e List.mem_cons_self
    have hhe := hh e List.mem_cons_self
    have hrest : ∀ d ∈ es, ((e.stop.toNat : Nat) : Int) ≤ d.start := by
      intro d hd
      have := List.rel_of_pairwise_cons hc hd
      omega
    have ih := ih (fun d hd => hf d (List.mem_cons_of_mem e hd)) hc.of_cons hrest (by omega)
    simp only [removed, inserted, List.map_cons, List.sum_cons] at ih ⊢
    rw [splice, List.length_append, List.length_append, List.length_take, List.length_drop]
    omega

/-- Edits overlap exactly where, put in order, some two do. Otherwise every one of them is
substituted at once, unless a text has no octets: then they are refused for the last such text
in order. Any arrangement of them that keeps the order of those of one span makes the same. -/
theorem applyAll_substitutes (hf : ∀ e ∈ es, Fits source.length e) (hl : StableOrder es l) :
    ((∃ o, applyAll source es = .error (.overlap o)) ↔
        ∃ (i j : Nat) (a b : Edit), i < j ∧ l[i]? = some a ∧ l[j]? = some b ∧ b.start < a.stop) ∧
      ((¬ ∃ (i j : Nat) (a b : Edit), i < j ∧ l[i]? = some a ∧ l[j]? = some b ∧ b.start < a.stop) →
        ((∀ e ∈ es, Whole e) → applyAll source es = .ok (substituted source es) ∧
          ((substituted source es).length : Int) = source.length - removed es + inserted es) ∧
        ((¬ ∀ e ∈ es, Whole e) → ∃ run, lone? l = some run ∧ applyAll source es = .error (.half run))) ∧
      ∀ fs : List Edit, (∀ first last, fs.filter (spans first last) = es.filter (spans first last)) →
        applyAll source fs = applyAll source es := by
  obtain rfl := hl.eq_ordered
  have hfo : ∀ e ∈ ordered es, Fits source.length e := fun e he => hf e (mem_ordered.mp he)
  have hfirst : ∀ e ∈ ordered es, ((0 : Nat) : Int) ≤ e.start := fun e he => (hfo e he).first
  refine ⟨(applyAll_overlap_iff hf).trans not_chained_iff, fun hno => ?_, fun fs h => ?_⟩
  · have hc : Chained (ordered es) := not_not.mp fun hc => hno (not_chained_iff.mp hc)
    refine ⟨fun hw => ?_, fun hw => ?_⟩
    rotate_left
    · obtain ⟨run, hrun⟩ := Option.ne_none_iff_exists'.mp (mt lone?_ordered.mp hw)
      exact ⟨run, hrun, by rw [applyAll_chained source hc, hrun]⟩
    have hsplice : splice source 0 (ordered es) = substituted source es := by
      rw [splice_eq_stretch hfo hc hfirst (Nat.zero_le _) (Nat.lt_succ_self _),
        ← substituted_eq_stretch, substituted_ordered hc]
    have hremoved : removed (ordered es) = removed es := ((ordered_perm es).map _).sum_eq
    have hinserted : inserted (ordered es) = inserted es := ((ordered_perm es).map _).sum_eq
    have hlength := splice_length hfo hc hfirst (Nat.zero_le _)
    rw [hsplice, hremoved, hinserted, Int.natCast_zero, Int.sub_zero] at hlength
    exact ⟨(applyAll_splice hf hc hw).trans (congrArg Except.ok hsplice), hlength⟩
  · rw [applyAll, applyAll, ordered_congr h]

/-- Two insertions stand in the order in which they were made, before a replacement that was
made earlier. -/
theorem applyAll_insertions_first :
    let source : List UInt8 := [97, 98, 99, 100, 101, 102]
    let es := [⟨2, 4, "X"⟩, insertion 2 "1", insertion 2 "2"]
    let l := [insertion 2 "1", insertion 2 "2", ⟨2, 4, "X"⟩]
    (∀ e ∈ es, Fits source.length e) ∧ StableOrder es l ∧
      applyAll source es = .ok [97, 98, 49, 50, 88, 101, 102] ∧ applyAll source l = applyAll source es := by
  intro source es l
  have hf : ∀ e ∈ es, Fits source.length e := by decide
  have hstable : ∀ first last, l.filter (spans first last) = es.filter (spans first last) := by
    intro first last
    simp only [es, l, spans, insertion, List.filter_cons, List.filter_nil]
    by_cases hlast : (4 : Int) = last
    · simp [← hlast]
    · simp [hlast]
  have hl : StableOrder es l := ⟨by decide, by decide, hstable⟩
  have hno : ¬ ∃ (i j : Nat) (a b : Edit), i < j ∧ l[i]? = some a ∧ l[j]? = some b ∧ b.start < a.stop :=
    fun h => not_chained_iff.mpr h (by unfold Chained; decide)
  obtain ⟨-, hok, hsame⟩ := applyAll_substitutes hf hl
  refine ⟨hf, hl, ?_, hsame l hstable⟩
  rw [((hok hno).1 (by decide)).1]
  decide +kernel

end Retype.Edit

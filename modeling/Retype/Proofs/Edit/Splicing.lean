import Mathlib.Data.List.Pairwise
import Retype.Edit

/-!
# Splicing

Edits whose spans are pairwise apart never overlap. Put in order they form a chain, and
applying them, if their texts have octets, copies the source between them and puts
their texts in place of their spans. A place that lies strictly inside no span cuts
both the source and the result in two.
-/

set_option autoImplicit false

namespace Retype.Edit

/-! ## Texts without octets -/

/-- The text of an edit has octets. -/
def Whole (e : Edit) : Prop := Half.lone? e.text = none

instance : DecidablePred Whole := fun e => inferInstanceAs (Decidable (Half.lone? e.text = none))

def lone? (es : List Edit) : Option Half.Run := es.reverse.findSome? fun e => Half.lone? e.text

theorem lone?_cons (e : Edit) (es : List Edit) : lone? (e :: es) = (lone? es).or (Half.lone? e.text) := by
  rw [lone?, List.reverse_cons, List.findSome?_append, List.findSome?_singleton, lone?]

theorem lone?_eq_none {es : List Edit} : lone? es = none ↔ ∀ e ∈ es, Whole e := by
  simp [lone?, Whole]

theorem apply_eq (source : List UInt8) (e : Edit) : apply source e =
    match Half.lone? e.text with
    | some run => .error run
    | none => .ok (replace source e (Utf8.encode e.text)) := by
  rw [apply, Utf8.encode?]
  cases Half.lone? e.text <;> rfl

theorem applyEach_eq (source : List UInt8) (es : List Edit) : applyEach source es =
    match lone? es with
    | some run => .error run
    | none => .ok (es.foldr (fun e out => replace out e (Utf8.encode e.text)) source) := by
  induction es with
  | nil => rfl
  | cons e es ih =>
    rw [applyEach, ih, lone?_cons]
    cases lone? es with
    | some run => rfl
    | none => exact apply_eq _ e

/-! ## Edits that do not overlap -/

/-- One edit ends before the other begins. -/
def Apart (a b : Edit) : Prop := a.stop ≤ b.start ∨ b.stop ≤ a.start

instance (a b : Edit) : Decidable (Apart a b) := inferInstanceAs (Decidable (_ ∨ _))

theorem Apart.symm {a b : Edit} (h : Apart a b) : Apart b a := Or.symm h

instance : Std.Symm Apart := ⟨fun _ _ => Apart.symm⟩

/-- Every edit ends before any later one begins. -/
def Chained (es : List Edit) : Prop := es.Pairwise fun a b => a.stop ≤ b.start

theorem ordered_perm (es : List Edit) : (ordered es).Perm es := List.mergeSort_perm es before

@[simp] theorem mem_ordered {es : List Edit} {e : Edit} : e ∈ ordered es ↔ e ∈ es :=
  (ordered_perm es).mem_iff

theorem before_iff {a b : Edit} :
    before a b = true ↔ a.start < b.start ∨ (a.start = b.start ∧ a.stop ≤ b.stop) := by
  simp [before]

theorem before_trans {a b c : Edit} (hab : before a b = true) (hbc : before b c = true) :
    before a c = true := by
  rw [before_iff] at *
  omega

theorem before_total (a b : Edit) : (before a b || before b a) = true := by
  rw [Bool.or_eq_true, before_iff, before_iff]
  omega

theorem ordered_sorted (es : List Edit) : (ordered es).Pairwise fun a b => before a b = true :=
  List.pairwise_mergeSort (fun a b c => before_trans (a := a) (b := b) (c := c)) before_total es

theorem ordered_chained {es : List Edit} (hf : ∀ e ∈ es, e.start ≤ e.stop)
    (ha : es.Pairwise Apart) : Chained (ordered es) := by
  have hap : (ordered es).Pairwise Apart := (ordered_perm es).symm.pairwise ha Apart.symm
  refine (hap.and (ordered_sorted es)).imp_of_mem ?_
  intro a b ha hb ⟨hab, hs⟩
  have h1 := hf a (mem_ordered.mp ha)
  have h2 := hf b (mem_ordered.mp hb)
  rw [before_iff] at hs
  rcases hab with h | h
  · exact h
  · omega

theorem clash?_chained {es : List Edit} (h : Chained es) : clash? es = none := by
  induction es with
  | nil => rfl
  | cons a es ih =>
    cases es with
    | nil => rfl
    | cons b es =>
      have hab : a.stop ≤ b.start := List.rel_of_pairwise_cons h List.mem_cons_self
      rw [clash?, if_neg (by omega)]
      exact ih h.of_cons

theorem applyAll_chained (source : List UInt8) {es : List Edit} (hc : Chained (ordered es)) :
    applyAll source es =
      match lone? (ordered es) with
      | some run => .error (.half run)
      | none => .ok ((ordered es).foldr (fun e out => replace out e (Utf8.encode e.text)) source) := by
  rw [applyAll, clash?_chained hc, applyEach_eq]
  cases lone? (ordered es) <;> rfl

theorem lone?_ordered {es : List Edit} : lone? (ordered es) = none ↔ ∀ e ∈ es, Whole e := by
  simp [lone?_eq_none]

theorem applyAll_nil (source : List UInt8) : applyAll source [] = .ok source := by
  rw [applyAll_chained source (by simp [ordered, Chained]), show ordered [] = [] from List.mergeSort_nil]
  rfl

theorem applied_whole {source out : List UInt8} {es : List Edit} (h : applyAll source es = .ok out) :
    ∀ e ∈ es, Whole e := by
  rw [← lone?_ordered]
  unfold applyAll at h
  split at h
  · cases h
  · rw [applyEach_eq] at h
    cases hl : lone? (ordered es) with
    | none => rfl
    | some run =>
      rw [hl] at h
      cases h

/-! ## What applying makes -/

/-- The source from a place on, with the texts of a chain of edits in it. -/
def splice (source : List UInt8) : Nat → List Edit → List UInt8
  | here, [] => source.drop here
  | here, e :: es =>
    (source.drop here).take (e.start.toNat - here) ++ Utf8.encode e.text ++
      splice source e.stop.toNat es

structure Fits (size : Nat) (e : Edit) : Prop where
  first : 0 ≤ e.start
  forward : e.start ≤ e.stop
  last : e.stop ≤ size

instance (size : Nat) (e : Edit) : Decidable (Fits size e) :=
  decidable_of_iff (0 ≤ e.start ∧ e.start ≤ e.stop ∧ e.stop ≤ size)
    ⟨fun ⟨h1, h2, h3⟩ => ⟨h1, h2, h3⟩, fun ⟨h1, h2, h3⟩ => ⟨h1, h2, h3⟩⟩

theorem octetsBefore_of_nonneg {size : Nat} {place : Int} (h : 0 ≤ place) :
    octetsBefore size place = place.toNat := by
  rw [octetsBefore, if_neg (by omega)]

theorem take_take_drop (source : List UInt8) {a b : Nat} (h : a ≤ b) :
    source.take a ++ (source.drop a).take (b - a) = source.take b := by
  obtain ⟨k, rfl⟩ := Nat.exists_eq_add_of_le h
  rw [Nat.add_sub_cancel_left, List.take_add]

theorem replace_prefix {source rest octets : List UInt8} {e : Edit} (h : Fits source.length e) :
    replace (source.take e.stop.toNat ++ rest) e octets =
      source.take e.start.toNat ++ octets ++ rest := by
  obtain ⟨h1, h2, h3⟩ := h
  have hlen : (source.take e.stop.toNat).length = e.stop.toNat := by
    rw [List.length_take]
    omega
  rw [replace, octetsBefore_of_nonneg h1, octetsBefore_of_nonneg (by omega),
    List.take_append_of_le_length (by omega), List.take_take, Nat.min_eq_left (by omega),
    List.drop_left' hlen]

theorem foldr_replace {source : List UInt8} {es : List Edit} (here : Nat)
    (hf : ∀ e ∈ es, Fits source.length e) (hc : Chained es) (hh : ∀ e ∈ es, (here : Int) ≤ e.start)
    (hl : here ≤ source.length) :
    es.foldr (fun e out => replace out e (Utf8.encode e.text)) source =
      source.take here ++ splice source here es := by
  induction es generalizing here with
  | nil => rw [List.foldr_nil, splice, List.take_append_drop]
  | cons e es ih =>
    have he := hf e List.mem_cons_self
    have hhe := hh e List.mem_cons_self
    have hrest : ∀ d ∈ es, ((e.stop.toNat : Nat) : Int) ≤ d.start := by
      intro d hd
      have := List.rel_of_pairwise_cons hc hd
      have := he.first
      have := he.forward
      omega
    have hlast := he.last
    rw [List.foldr_cons, ih _ (fun d hd => hf d (List.mem_cons_of_mem e hd)) hc.of_cons hrest
      (by omega), replace_prefix he, splice, ← take_take_drop source (a := here) (by omega)]
    simp only [List.append_assoc]

theorem chained_splice {source : List UInt8} {es : List Edit} (hf : ∀ e ∈ es, Fits source.length e)
    (hc : Chained (ordered es)) :
    (ordered es).foldr (fun e out => replace out e (Utf8.encode e.text)) source =
      splice source 0 (ordered es) := by
  rw [foldr_replace 0 (fun e he => hf e (mem_ordered.mp he)) hc
    (fun e he => (hf e (mem_ordered.mp he)).first) (Nat.zero_le _)]
  rfl

theorem applyAll_splice {source : List UInt8} {es : List Edit} (hf : ∀ e ∈ es, Fits source.length e)
    (hc : Chained (ordered es)) (hw : ∀ e ∈ es, Whole e) :
    applyAll source es = .ok (splice source 0 (ordered es)) := by
  rw [applyAll_chained source hc, lone?_ordered.mpr hw, chained_splice hf hc]

/-! ## Around a place -/

/-- What the edits before a place make of the source before it. -/
def front (source : List UInt8) (es : List Edit) (place : Nat) : List UInt8 :=
  splice (source.take place) 0 ((ordered es).filter fun e => e.stop ≤ (place : Int))

/-- What the edits from a place on make of the source from it on. -/
def back (source : List UInt8) (es : List Edit) (place : Nat) : List UInt8 :=
  splice source place ((ordered es).filter fun e => (place : Int) ≤ e.start)

theorem splice_copy {source : List UInt8} {es : List Edit} {a b : Nat} (hab : a ≤ b)
    (h : ∀ e ∈ es, (b : Int) ≤ e.start) :
    splice source a es = (source.drop a).take (b - a) ++ splice source b es := by
  obtain ⟨k, rfl⟩ := Nat.exists_eq_add_of_le hab
  have hdrop : source.drop (a + k) = (source.drop a).drop k := by rw [List.drop_drop]
  cases es with
  | nil => rw [splice, splice, Nat.add_sub_cancel_left, hdrop, List.take_append_drop]
  | cons e es =>
    have he := h e List.mem_cons_self
    have hk : e.start.toNat - a = k + (e.start.toNat - (a + k)) := by omega
    rw [splice, splice, Nat.add_sub_cancel_left, hdrop, hk, List.take_add]
    simp only [List.append_assoc]

/-- A chain is spliced in two parts, cut at a place between them. -/
theorem splice_append {source : List UInt8} {es fs : List Edit} {here place : Nat}
    (hh : here ≤ place) (hc : Chained es) (hl : ∀ e ∈ es, (here : Int) ≤ e.start)
    (he : ∀ e ∈ es, e.start ≤ e.stop ∧ e.stop ≤ place) (hf : ∀ f ∈ fs, (place : Int) ≤ f.start) :
    splice source here (es ++ fs) = splice (source.take place) here es ++ splice source place fs := by
  induction es generalizing here with
  | nil => rw [List.nil_append, splice_copy hh hf, splice, List.drop_take]
  | cons e es ih =>
    have hle := hl e List.mem_cons_self
    have hee := he e List.mem_cons_self
    have hnext : ∀ d ∈ es, ((e.stop.toNat : Nat) : Int) ≤ d.start := by
      intro d hd
      have := List.rel_of_pairwise_cons hc hd
      omega
    have htake : min (e.start.toNat - here) (place - here) = e.start.toNat - here := by omega
    rw [List.cons_append, splice, splice, List.drop_take, List.take_take, htake,
      ih (by omega) hc.of_cons hnext fun d hd => he d (List.mem_cons_of_mem e hd)]
    simp only [List.append_assoc]

/-- A chain falls into the edits before a span and those after it, if none touches it. -/
theorem chained_split {es : List Edit} {a b : Nat} (hab : a < b) (hc : Chained es)
    (hf : ∀ e ∈ es, e.start ≤ e.stop) (h : ∀ e ∈ es, e.stop ≤ a ∨ (b : Int) ≤ e.start) :
    es = es.filter (fun e => e.stop ≤ (a : Int)) ++ es.filter fun e => (b : Int) ≤ e.start := by
  induction es with
  | nil => rfl
  | cons e es ih =>
    have hfe := hf e List.mem_cons_self
    have ih := ih hc.of_cons (fun d hd => hf d (List.mem_cons_of_mem e hd))
      fun d hd => h d (List.mem_cons_of_mem e hd)
    rcases h e List.mem_cons_self with he | he
    · rw [List.filter_cons_of_pos (by simpa using he), List.filter_cons_of_neg (by simp; omega),
        List.cons_append, ← ih]
    · have hafter : ∀ d ∈ es, (b : Int) ≤ d.start := by
        intro d hd
        have := List.rel_of_pairwise_cons hc hd
        omega
      have hnone : (es.filter fun d => decide (d.stop ≤ (a : Int))) = [] := by
        rw [List.filter_eq_nil_iff]
        intro d hd
        have h1 := hafter d hd
        have h2 := hf d (List.mem_cons_of_mem e hd)
        simp
        omega
      have hall : (es.filter fun d => decide ((b : Int) ≤ d.start)) = es :=
        List.filter_eq_self.mpr fun d hd => by simpa using hafter d hd
      rw [List.filter_cons_of_neg (by simp; omega), List.filter_cons_of_pos (by simpa using he),
        hnone, hall, List.nil_append]

/-- An edit of a chain stands between the edits before its span and those after it. -/
theorem chained_around {before after : List Edit} {r : Edit} {a b : Nat} (hab : a < b)
    (hc : Chained (before ++ r :: after)) (hf : ∀ e ∈ before ++ r :: after, e.start ≤ e.stop)
    (hra : r.start = a) (hrb : r.stop = b) :
    (before ++ r :: after).filter (fun e => e.stop ≤ (a : Int)) = before ∧
      (before ++ r :: after).filter (fun e => (b : Int) ≤ e.start) = after := by
  obtain ⟨-, hra', hba⟩ := List.pairwise_append.mp hc
  have hbefore : ∀ e ∈ before, e.stop ≤ (a : Int) := fun e he =>
    hra ▸ hba e he r List.mem_cons_self
  have hafter : ∀ e ∈ after, (b : Int) ≤ e.start := fun e he =>
    hrb ▸ List.rel_of_pairwise_cons hra' he
  have hforward : ∀ e ∈ before, e.start ≤ e.stop := fun e he =>
    hf e (List.mem_append_left _ he)
  have hforward' : ∀ e ∈ after, e.start ≤ e.stop := fun e he =>
    hf e (List.mem_append_right _ (List.mem_cons_of_mem r he))
  constructor
  · rw [List.filter_append, List.filter_eq_self.mpr fun e he => by simpa using hbefore e he,
      List.filter_eq_nil_iff.mpr, List.append_nil]
    intro e he
    rcases List.mem_cons.mp he with rfl | he
    · simp
      omega
    · have h1 := hafter e he
      have h2 := hforward' e he
      simp
      omega
  · rw [List.filter_append, List.filter_eq_nil_iff.mpr, List.nil_append,
      List.filter_cons_of_neg (by simp; omega),
      List.filter_eq_self.mpr fun e he => by simpa using hafter e he]
    intro e he
    have h1 := hbefore e he
    have h2 := hforward e he
    simp
    omega

section

variable {source : List UInt8} {es : List Edit} {a b : Nat}

/-- A span that no edit touches stands unchanged between what is made of the rest. -/
theorem applyAll_untouched (hf : ∀ e ∈ es, Fits source.length e) (ha : es.Pairwise Apart)
    (hw : ∀ e ∈ es, Whole e) (hab : a < b) (h : ∀ e ∈ es, e.stop ≤ a ∨ (b : Int) ≤ e.start) :
    applyAll source es =
      .ok (front source es a ++ (source.drop a).take (b - a) ++ back source es b) := by
  have hfo : ∀ e ∈ ordered es, Fits source.length e := fun e he => hf e (mem_ordered.mp he)
  have hc := ordered_chained (fun e he => (hf e he).forward) ha
  have hsplit := chained_split hab hc (fun e he => (hfo e he).forward)
    fun e he => h e (mem_ordered.mp he)
  have hback : ∀ e ∈ (ordered es).filter (fun e => decide ((b : Int) ≤ e.start)), (b : Int) ≤ e.start :=
    fun e he => by simpa using (List.mem_filter.mp he).2
  rw [applyAll_splice hf hc hw, hsplit, splice_append (Nat.zero_le a)
    (hc.sublist List.filter_sublist)
    (fun e he => (hfo e (List.mem_filter.mp he).1).first)
    (fun e he => ⟨(hfo e (List.mem_filter.mp he).1).forward, by simpa using (List.mem_filter.mp he).2⟩)
    (fun e he => by have := hback e he; omega), splice_copy (Nat.le_of_lt hab) hback, front, back,
    List.append_assoc]

/-- The text of an edit stands between what is made of the source around its span. -/
theorem applyAll_replaced (hf : ∀ e ∈ es, Fits source.length e) (ha : es.Pairwise Apart)
    (hw : ∀ e ∈ es, Whole e) (hab : a < b) {r : Edit} (hr : r ∈ es) (hra : r.start = a) (hrb : r.stop = b) :
    applyAll source es =
      .ok (front source es a ++ Utf8.encode r.text ++ back source es b) := by
  have hfo : ∀ e ∈ ordered es, Fits source.length e := fun e he => hf e (mem_ordered.mp he)
  have hc := ordered_chained (fun e he => (hf e he).forward) ha
  obtain ⟨before, after, hsplit⟩ := List.append_of_mem (mem_ordered.mpr hr)
  have hspliced := applyAll_splice hf hc hw
  rw [hsplit] at hfo hc
  obtain ⟨hfront, hback⟩ := chained_around hab hc (fun e he => (hfo e he).forward) hra hrb
  obtain ⟨hcb, hcr, hbr⟩ := List.pairwise_append.mp hc
  have hstop : ∀ e ∈ before, e.stop ≤ (a : Int) := fun e he =>
    hra ▸ hbr e he r List.mem_cons_self
  have hstart : ∀ e ∈ r :: after, (a : Int) ≤ e.start := by
    intro e he
    rcases List.mem_cons.mp he with rfl | he
    · omega
    · have := List.rel_of_pairwise_cons hcr he
      omega
  have hra' : r.start.toNat - a = 0 := by omega
  have hrb' : r.stop.toNat = b := by omega
  rw [hspliced, front, back, hsplit, hfront, hback, splice_append (Nat.zero_le a) hcb
    (fun e he => (hfo e (List.mem_append_left _ he)).first)
    (fun e he => ⟨(hfo e (List.mem_append_left _ he)).forward, hstop e he⟩) hstart, splice, hra', hrb',
    List.take_zero, List.nil_append, List.append_assoc]

end

end Retype.Edit

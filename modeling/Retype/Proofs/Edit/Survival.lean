import Retype.Proofs.Edit.Splicing
import Retype.Proofs.Text.Utf8

/-!
# What survives edits

Edits that are applied stand one after the other, so the source between them is copied.
If each edit's text holds what is kept of the edit's span, all that is kept of the source
survives in its order. If moreover every edit cuts between characters, a text stays a text.
-/

set_option autoImplicit false

namespace Retype.Edit

/-! ## Edits that were applied -/

theorem chained_of_clash? {es : List Edit} (hf : ∀ e ∈ es, e.start ≤ e.stop) (h : clash? es = none) :
    Chained es := by
  induction es with
  | nil => exact List.Pairwise.nil
  | cons a es ih =>
    cases es with
    | nil => exact List.pairwise_singleton _ _
    | cons b es =>
      rw [clash?] at h
      split at h
      · cases h
      · next hab =>
        have hrest : Chained (b :: es) := ih (fun e he => hf e (List.mem_cons_of_mem a he)) h
        refine List.pairwise_cons.mpr ⟨fun c hc => ?_, hrest⟩
        have hb := hf b (List.mem_cons_of_mem a List.mem_cons_self)
        rcases List.mem_cons.mp hc with rfl | hc
        · omega
        · have := List.rel_of_pairwise_cons hrest hc
          omega

theorem applied_splice {source out : List UInt8} {es : List Edit}
    (hf : ∀ e ∈ es, Fits source.length e) (h : applyAll source es = .ok out) :
    Chained (ordered es) ∧ out = splice source 0 (ordered es) := by
  have hc : Chained (ordered es) := by
    refine chained_of_clash? (fun e he => (hf e (mem_ordered.mp he)).forward) ?_
    cases hclash : clash? (ordered es) with
    | none => rfl
    | some ab => simp [applyAll, hclash] at h
  rw [applyAll_splice hf hc (applied_whole h)] at h
  exact ⟨hc, (Except.ok.inj h).symm⟩

theorem splice_holds {source : List UInt8} {here : Nat} {es : List Edit} {e : Edit} (he : e ∈ es) :
    Utf8.encode e.text <:+: splice source here es := by
  induction es generalizing here with
  | nil => cases he
  | cons d es ih =>
    rw [splice]
    rcases List.mem_cons.mp he with rfl | he
    · exact ⟨_, _, rfl⟩
    · exact (ih he).trans (List.suffix_append _ _).isInfix

theorem applied_holds {source out : List UInt8} {es : List Edit} {e : Edit}
    (hf : ∀ e ∈ es, Fits source.length e) (h : applyAll source es = .ok out) (he : e ∈ es) :
    Utf8.encode e.text <:+: out := by
  rw [(applied_splice hf h).2]
  exact splice_holds (mem_ordered.mpr he)

/-- Edits behind the front of a source leave it in front. -/
theorem foldr_front {front source : List UInt8} {es : List Edit}
    (hb : ∀ e ∈ es, (front.length : Int) ≤ e.start) (hs : front <+: source) :
    front <+: es.foldr (fun e out => replace out e (Utf8.encode e.text)) source := by
  induction es with
  | nil => exact hs
  | cons e es ih =>
    obtain ⟨rest, hrest⟩ := ih fun d hd => hb d (List.mem_cons_of_mem e hd)
    have he := hb e List.mem_cons_self
    rw [List.foldr_cons, ← hrest, replace, octetsBefore_of_nonneg (by omega), List.take_append,
      List.take_of_length_le (by omega), List.append_assoc, List.append_assoc]
    exact List.prefix_append _ _

theorem applyAll_front {front source out : List UInt8} {es : List Edit}
    (hb : ∀ e ∈ es, (front.length : Int) ≤ e.start) (hs : front <+: source)
    (h : applyAll source es = .ok out) : front <+: out := by
  have hwhole := lone?_ordered.mpr (applied_whole h)
  unfold applyAll at h
  split at h
  · cases h
  · rw [applyEach_eq, hwhole] at h
    cases h
    exact foldr_front (fun e he => hb e (mem_ordered.mp he)) hs

/-! ## What is kept -/

/-- The octets of a stretch of a source that are at kept places. -/
def kept (keep : Nat → Bool) (here : Nat) (xs : List UInt8) : List UInt8 :=
  ((xs.zipIdx here).filter fun x => keep x.2).map Prod.fst

variable {keep : Nat → Bool} {source : List UInt8} {es : List Edit}

theorem kept_append (here : Nat) (xs ys : List UInt8) :
    kept keep here (xs ++ ys) = kept keep here xs ++ kept keep (here + xs.length) ys := by
  rw [kept, List.zipIdx_append, List.filter_append, List.map_append, Nat.add_comm]
  rfl

theorem kept_sublist (keep : Nat → Bool) (here : Nat) (xs : List UInt8) :
    (kept keep here xs).Sublist xs := by
  have h : ((xs.zipIdx here).filter fun x => keep x.2).Sublist (xs.zipIdx here) := List.filter_sublist
  have h := h.map Prod.fst
  rwa [List.zipIdx_map_fst] at h

theorem kept_all (here : Nat) (xs : List UInt8) (h : ∀ i, keep i = true) : kept keep here xs = xs := by
  rw [kept, List.filter_eq_self.mpr fun x _ => h x.2, List.zipIdx_map_fst]

theorem kept_none {here : Nat} {xs : List UInt8}
    (h : ∀ i, here ≤ i → i < here + xs.length → keep i = false) : kept keep here xs = [] := by
  rw [kept, List.map_eq_nil_iff, List.filter_eq_nil_iff]
  rintro ⟨x, i⟩ hx
  obtain ⟨hle, hlt, -⟩ := List.mem_zipIdx hx
  simp [h i hle hlt]

def span (source : List UInt8) (e : Edit) : List UInt8 :=
  (source.drop e.start.toNat).take (e.stop.toNat - e.start.toNat)

/-- An edit whose text holds what is kept of its span. -/
def Spares (keep : Nat → Bool) (source : List UInt8) (e : Edit) : Prop :=
  (kept keep e.start.toNat (span source e)).Sublist (Utf8.encode e.text)

theorem span_insertion {e : Edit} (h : e.start = e.stop) : span source e = [] := by
  rw [span, h, Nat.sub_self, List.take_zero]

theorem spares_insertion {e : Edit} (h : e.start = e.stop) : Spares keep source e := by
  rw [Spares, span_insertion h]
  exact List.nil_sublist _

theorem take_drop_drop (source : List UInt8) {a b : Nat} (h : a ≤ b) :
    (source.drop a).take (b - a) ++ source.drop b = source.drop a := by
  obtain ⟨k, rfl⟩ := Nat.exists_eq_add_of_le h
  rw [Nat.add_sub_cancel_left, ← List.drop_drop, List.take_append_drop]

theorem drop_around {here : Nat} {e : Edit} (hh : here ≤ e.start.toNat)
    (hf : e.start.toNat ≤ e.stop.toNat) :
    source.drop here = (source.drop here).take (e.start.toNat - here) ++ span source e ++
      source.drop e.stop.toNat := by
  rw [List.append_assoc, span, take_drop_drop source hf, take_drop_drop source hh]

/-- All that is kept survives a chain of edits that spare it. -/
theorem kept_splice {here : Nat} (hf : ∀ e ∈ es, Fits source.length e) (hc : Chained es)
    (hh : ∀ e ∈ es, (here : Int) ≤ e.start) (hs : ∀ e ∈ es, Spares keep source e) :
    (kept keep here (source.drop here)).Sublist (splice source here es) := by
  induction es generalizing here with
  | nil => exact kept_sublist _ _ _
  | cons e es ih =>
    have hfe := hf e List.mem_cons_self
    have hhe := hh e List.mem_cons_self
    have hfirst := hfe.first
    have hforward := hfe.forward
    have hlast := hfe.last
    have hlen : here + ((source.drop here).take (e.start.toNat - here)).length = e.start.toNat := by
      rw [List.length_take, List.length_drop]
      omega
    have hspan : e.start.toNat + (span source e).length = e.stop.toNat := by
      rw [span, List.length_take, List.length_drop]
      omega
    have hrest : ∀ d ∈ es, ((e.stop.toNat : Nat) : Int) ≤ d.start := by
      intro d hd
      have := List.rel_of_pairwise_cons hc hd
      omega
    rw [drop_around (e := e) (by omega) (by omega), List.append_assoc, kept_append, kept_append, hlen,
      hspan, splice, List.append_assoc]
    refine (kept_sublist _ _ _).append ((hs e List.mem_cons_self).append ?_)
    exact ih (fun d hd => hf d (List.mem_cons_of_mem e hd)) hc.of_cons hrest
      fun d hd => hs d (List.mem_cons_of_mem e hd)

/-! ## Texts -/

/-- An edit that begins and stops between characters. -/
def CutsBetween (source : List UInt8) (e : Edit) : Prop :=
  Utf8.Between source e.start.toNat ∧ Utf8.Between source e.stop.toNat

theorem span_valid {e : Edit} (hv : Utf8.Valid source) (hb : CutsBetween source e)
    (hf : e.start.toNat ≤ e.stop.toNat) : Utf8.Valid (span source e) :=
  hv.slice hb.1 hb.2 hf

theorem splice_valid {here : Nat} (hv : Utf8.Valid source) (hb : Utf8.Between source here)
    (hf : ∀ e ∈ es, Fits source.length e) (hc : Chained es) (hh : ∀ e ∈ es, (here : Int) ≤ e.start)
    (hs : ∀ e ∈ es, CutsBetween source e) : Utf8.Valid (splice source here es) := by
  induction es generalizing here with
  | nil => exact (hv.cut hb).2
  | cons e es ih =>
    have hhe := hh e List.mem_cons_self
    have hfirst := (hf e List.mem_cons_self).first
    have hforward := (hf e List.mem_cons_self).forward
    obtain ⟨hstart, hstop⟩ := hs e List.mem_cons_self
    have hrest : ∀ d ∈ es, ((e.stop.toNat : Nat) : Int) ≤ d.start := by
      intro d hd
      have := List.rel_of_pairwise_cons hc hd
      omega
    refine ((hv.slice hb hstart (by omega)).append (Utf8.encode_valid e.text)).append ?_
    exact ih hstop (fun d hd => hf d (List.mem_cons_of_mem e hd)) hc.of_cons hrest
      fun d hd => hs d (List.mem_cons_of_mem e hd)

section

variable {out : List UInt8} (hf : ∀ e ∈ es, Fits source.length e)

include hf in
theorem applied_valid (hv : Utf8.Valid source) (hs : ∀ e ∈ es, CutsBetween source e)
    (h : applyAll source es = .ok out) : Utf8.Valid out := by
  obtain ⟨hc, rfl⟩ := applied_splice hf h
  have hfo : ∀ e ∈ ordered es, Fits source.length e := fun e he => hf e (mem_ordered.mp he)
  exact splice_valid hv hv.between_zero hfo hc (fun e he => (hfo e he).first)
    fun e he => hs e (mem_ordered.mp he)

include hf in
theorem applied_keeps (hs : ∀ e ∈ es, Spares keep source e) (h : applyAll source es = .ok out) :
    (kept keep 0 source).Sublist out := by
  obtain ⟨hc, rfl⟩ := applied_splice hf h
  have hfo : ∀ e ∈ ordered es, Fits source.length e := fun e he => hf e (mem_ordered.mp he)
  exact kept_splice hfo hc (fun e he => (hfo e he).first) fun e he => hs e (mem_ordered.mp he)

end

end Retype.Edit

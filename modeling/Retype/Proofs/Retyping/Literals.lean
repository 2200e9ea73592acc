import Retype.Proofs.Retyping.Places
import Retype.Proofs.Text.Utf8

/-!
# Literals among edits

A string literal stands in its quotes, and reads what is between them. If no edit
touches it the edited source reads the same there, and if an edit puts another
text in its quotes the edited source reads that text.
-/

set_option autoImplicit false

namespace Retype

/-! ## Quotes -/

namespace Source

variable {src : Source} {n : Node}

/-- The span of a string literal begins and ends with one and the same quote. -/
def Quoted (src : Source) (n : Node) : Prop :=
  2 ≤ (src.slice n.start n.stop).length ∧
    (src.slice n.start n.stop).head? = (src.slice n.start n.stop).getLast? ∧
    (src.slice n.start n.stop).head? ∈ [some 34, some 39]

instance (src : Source) (n : Node) : Decidable (Quoted src n) :=
  inferInstanceAs (Decidable (_ ∧ _))

def quoteText (q : UInt8) : String := String.ofList [Char.ofNat q.toNat]

theorem Quoted.parts (h : Quoted src n) :
    ∃ q inner, (q = 34 ∨ q = 39) ∧ src.slice n.start n.stop = q :: inner ++ [q] := by
  obtain ⟨hlen, hends, hq⟩ := h
  cases hl : src.slice n.start n.stop with
  | nil => simp [hl] at hlen
  | cons q rest =>
    rw [hl] at hlen hends hq
    have hne : rest ≠ [] := by
      rintro rfl
      simp at hlen
    have hlast : rest.getLast hne = q := by
      rw [List.head?_cons, List.getLast?_cons, List.getLast?_eq_some_getLast hne] at hends
      simpa using hends.symm
    refine ⟨q, rest.dropLast, by simpa using hq, ?_⟩
    rw [List.cons_append, ← hlast, List.dropLast_concat_getLast]

theorem slice_length (src : Source) (start stop : Nat) :
    (src.slice start stop).length ≤ stop - start := by
  rw [slice, Array.length_toList, Array.size_extract]
  omega

theorem Quoted.wide (h : Quoted src n) : n.start < n.stop := by
  have h1 := h.1
  have h2 := src.slice_length n.start n.stop
  omega

theorem slice_eq (src : Source) (start stop : Nat) :
    src.slice start stop = (src.octets.toList.drop start).take (stop - start) := by
  rw [slice, Array.toList_extract, List.extract_eq_take_drop]

theorem decode_quoted (xs mid ys : List UInt8) {q : UInt8} (hq : q = 34 ∨ q = 39) :
    Utf8.decode (xs ++ (q :: mid ++ [q]) ++ ys) =
      Utf8.decode xs ++ (quoteText q ++ Utf8.decode mid ++ quoteText q) ++ Utf8.decode ys := by
  have hplain : q.toNat < 0x80 := by rcases hq with rfl | rfl <;> decide
  have hlist : xs ++ (q :: mid ++ [q]) ++ ys = xs ++ q :: (mid ++ q :: ys) := by simp
  rw [hlist, Utf8.decode_cut xs _ hplain, Utf8.decode_cons _ hplain, Utf8.decode_cut mid ys hplain,
    Utf8.decode_cons ys hplain]
  simp only [quoteText, String.append_assoc]

theorem textOf_quoted {q : UInt8} {inner : List UInt8} (hq : q = 34 ∨ q = 39)
    (h : src.slice n.start n.stop = q :: inner ++ [q]) :
    src.textOf n = quoteText q ++ Utf8.decode inner ++ quoteText q := by
  have hd := decode_quoted [] inner [] hq
  rw [List.nil_append, List.append_nil] at hd
  rw [textOf, textAt, h, hd]
  have hnil : Utf8.decode [] = "" := by decide
  rw [hnil, String.empty_append, String.append_empty]

theorem quote_quoted {q : UInt8} {inner : List UInt8} (hq : q = 34 ∨ q = 39)
    (h : src.slice n.start n.stop = q :: inner ++ [q]) :
    String.ofList ((src.textOf n).toList.take 1) = quoteText q := by
  rw [textOf_quoted hq h]
  simp [quoteText]

theorem stringOf?_quoted {q : UInt8} {inner : List UInt8} {spec : String} (hq : q = 34 ∨ q = 39)
    (h : src.slice n.start n.stop = q :: inner ++ [q]) (hs : src.stringOf? n = some spec) :
    spec = Utf8.decode inner := by
  unfold stringOf? at hs
  split at hs
  · dsimp only at hs
    rw [textOf_quoted hq h] at hs
    simp [quoteText] at hs
    exact hs.symm
  · cases hs

theorem kind_of_stringOf? {spec : String} (hs : src.stringOf? n = some spec) : n.kind = "string" := by
  unfold stringOf? at hs
  split at hs
  · next hk => simpa using hk
  · cases hs

end Source

/-! ## Literals among edits -/

namespace Retyping

open Edit (Replaces InsertsAt Clears front back)

/-- Where a literal stood, the code reads a literal with this between its quotes: before
it stands what the edits before it made, and after it what the edits after it made. -/
def Reads (source : List UInt8) (es : List Edit) (n : Node) (code spec : String) : Prop :=
  ∃ q : UInt8, (q = 34 ∨ q = 39) ∧ code = Utf8.decode (front source es n.start) ++
    (Source.quoteText q ++ spec ++ Source.quoteText q) ++ Utf8.decode (back source es n.stop)

/-- What the code reads there is one specifier. -/
theorem Reads.unique {source : List UInt8} {es : List Edit} {n : Node} {code a b : String}
    (ha : Reads source es n code a) (hb : Reads source es n code b) : a = b := by
  obtain ⟨q, -, hqa⟩ := ha
  obtain ⟨r, -, hrb⟩ := hb
  rw [hqa] at hrb
  have hl := congrArg String.toList hrb
  simp only [String.toList_append, List.append_assoc, Source.quoteText, String.toList_ofList,
    List.append_cancel_left_eq, List.singleton_append] at hl
  obtain ⟨hquote, hrest⟩ := List.cons.inj hl
  rw [hquote] at hrest
  exact String.toList_inj.mp (List.append_cancel_right hrest)

variable {src : Source} {n : Node} {es : List Edit} {spec : String}

theorem reads_untouched {out : List UInt8} (hq : src.Quoted n) (hs : src.stringOf? n = some spec)
    (hf : ∀ e ∈ es, Edit.Fits src.octets.toList.length e) (ha : es.Pairwise Edit.Apart)
    (hc : ∀ e ∈ es, Clears n e) (hout : Edit.applyAll src.octets.toList es = .ok out) :
    Reads src.octets.toList es n (Utf8.decode out) spec := by
  obtain ⟨q, inner, hquote, hslice⟩ := hq.parts
  have hspec := Source.stringOf?_quoted hquote hslice hs
  have happly := Edit.applyAll_untouched hf ha (Edit.applied_whole hout) hq.wide hc
  rw [hout, ← Source.slice_eq, hslice] at happly
  refine ⟨q, hquote, ?_⟩
  rw [Except.ok.inj happly, Source.decode_quoted _ _ _ hquote, hspec]

theorem reads_replaced {fresh : String} {r : Edit} {out : List UInt8} (hq : src.Quoted n)
    (hf : ∀ e ∈ es, Edit.Fits src.octets.toList.length e) (ha : es.Pairwise Edit.Apart)
    (hout : Edit.applyAll src.octets.toList es = .ok out) (hr : r ∈ es) (hrn : Replaces n r)
    (ht : r.text = String.ofList ((src.textOf n).toList.take 1) ++ fresh ++
      String.ofList ((src.textOf n).toList.take 1)) :
    Reads src.octets.toList es n (Utf8.decode out) fresh := by
  obtain ⟨q, inner, hquote, hslice⟩ := hq.parts
  have htake := Source.quote_quoted hquote hslice
  have hencode : Utf8.encode (Source.quoteText q) = [q] := by
    rcases hquote with rfl | rfl <;> decide
  have happly := Edit.applyAll_replaced hf ha (Edit.applied_whole hout) hq.wide hr hrn.1 hrn.2
  rw [hout, ht, htake, Utf8.encode_append, Utf8.encode_append, hencode, List.singleton_append] at happly
  refine ⟨q, hquote, ?_⟩
  rw [Except.ok.inj happly, Source.decode_quoted _ _ _ hquote, Utf8.decode_encode]

end Retyping

end Retype

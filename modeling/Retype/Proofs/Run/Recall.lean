import Retype.Proofs.Run.Vault

/-!
# What a ledger recalls

After any history of saves and clears a ledger gives back the last checkpoint of a batch
that was saved since the batch was last cleared. But saving takes no rows away: under each
index it gives the outcome that was told last, also one that only earlier checkpoints tell.
So the checkpoint comes back as it was saved exactly if those before it told of no index
that it leaves out.
-/

set_option autoImplicit false

namespace Retype

/-! ## Checkpoints that fit -/

def Json.Textual (v : Json) : Prop := v = .null ∨ ∃ s, v = .str s

theorem Json.Textual.cell {v : Json} (h : v.Textual) : Column.cell v = v := by
  obtain rfl | ⟨s, rfl⟩ := h <;> rfl

def Ledger.InColumn (n : Int) : Prop := -0x80000000 ≤ n ∧ n < 0x80000000

instance (n : Int) : Decidable (Ledger.InColumn n) := inferInstanceAs (Decidable (_ ∧ _))

theorem Ledger.InColumn.number {n : Int} (h : InColumn n) : number? n = some n := by
  rw [number?, if_pos (by simpa [InColumn] using h)]

/-- An outcome as it is told: its texts are texts, and its numbers fit their columns. -/
structure Outcome.Fits (o : Outcome) : Prop where
  index : Ledger.InColumn o.index
  duration : Ledger.InColumn o.duration
  name : ∃ s, o.name = .str s
  reason : o.reason.Textual
  error : o.error.Textual
  stage : o.stage.Textual
  target : o.target.Textual

theorem Outcome.Fits.row {o : Outcome} (h : o.Fits) : Ledger.row? o = some o := by
  obtain ⟨s, hs⟩ := h.name
  have hname : Column.filledCell? o.name = some o.name := by
    rw [hs]
    rfl
  rw [Ledger.row?, h.index.number, hname, h.duration.number, h.reason.cell, h.error.cell, h.stage.cell,
    h.target.cell]
  rfl

theorem Outcome.rows_fit {os : List Outcome} (h : ∀ o ∈ os, o.Fits) : os.mapM Ledger.row? = some os := by
  induction os with
  | nil => rfl
  | cons o os ih =>
    rw [List.mapM_cons, (h o List.mem_cons_self).row, ih fun r hr => h r (List.mem_cons_of_mem o hr)]
    rfl

namespace Checkpoint

/-- A checkpoint as it is made: its outcomes fit, no two of them of one index, and so do its own
texts and numbers. -/
structure Fits (p : Checkpoint) : Prop where
  batch : Ledger.InColumn p.batch
  count : Ledger.InColumn p.count
  completed : Ledger.InColumn p.completed
  current : Ledger.InColumn p.current
  next : Ledger.InColumn p.next
  error : p.error.Textual
  timestamp : ∃ s, p.timestamp = .str s
  results : ∀ o ∈ p.results, o.Fits
  distinct : p.indices.Nodup

def head (p : Checkpoint) : LedgerHead :=
  ⟨p.count, p.completed, p.current, p.next, p.error, p.timestamp⟩

def arranged (p : Checkpoint) : List Outcome := p.results.mergeSort fun a b => a.index ≤ b.index

theorem Fits.head {p : Checkpoint} (h : p.Fits) : Ledger.head? p = some p.head := by
  obtain ⟨s, hs⟩ := h.timestamp
  have htime : Column.filledCell? p.timestamp = some p.timestamp := by
    rw [hs]
    rfl
  rw [Ledger.head?, h.count.number, h.completed.number, h.current.number, h.next.number, h.error.cell,
    htime]
  rfl

theorem Fits.saved {p : Checkpoint} (h : p.Fits) (l : Ledger) : l.save p = some { l with
    heads := Keyed.put p.batch p.head l.heads
    rows := (p.results.map fun o => ((p.batch, o.index), o)).foldl
      (fun t e => Keyed.put e.1 e.2 t) l.rows } := by
  rw [Ledger.save, h.batch.number, h.head, Outcome.rows_fit h.results, List.foldl_map]
  rfl

end Checkpoint

/-! ## Histories -/

namespace Ledger

inductive Entry where
  | save (p : Checkpoint)
  | clear (batch : Int)

def Entry.batch : Entry → Int
  | save p => p.batch
  | clear batch => batch

def enter (l : Ledger) : Entry → Option Ledger
  | .save p => l.save p
  | .clear batch => some (l.clear batch)

/-- A ledger after a history; none if something was saved in it that does not fit. -/
def enterAll (l : Ledger) (es : List Entry) : Option Ledger := es.foldlM enter l

def Entry.onto (b : Int) (ps : List Checkpoint) : Entry → List Checkpoint
  | save p => if p.batch = b then ps ++ [p] else ps
  | clear batch => if batch = b then [] else ps

/-- The checkpoints that were saved for a batch since it was last cleared, in turn. -/
def since (b : Int) (es : List Entry) : List Checkpoint := es.foldl (Entry.onto b) []

def told (ps : List Checkpoint) (i : Int) : Option Outcome :=
  ((ps.flatMap (·.results)).filter (·.index == i)).getLast?

variable {ps : List Checkpoint} {p : Checkpoint} {i b : Int} {o : Outcome} {es : List Entry} {l l' : Ledger}

theorem told_append (ps : List Checkpoint) (p : Checkpoint) (i : Int) :
    told (ps ++ [p]) i = (told [p] i).or (told ps i) := by
  rw [told, List.flatMap_append, List.filter_append, List.getLast?_append]
  rfl

theorem mem_of_told (h : told ps i = some o) : (∃ p ∈ ps, o ∈ p.results) ∧ o.index = i := by
  have := List.mem_of_getLast? h
  simpa using this

theorem told_eq_none : told ps i = none ↔ ∀ p ∈ ps, i ∉ p.indices := by
  rw [told, List.getLast?_eq_none_iff, List.filter_eq_nil_iff]
  simp only [List.mem_flatMap, beq_iff_eq, Checkpoint.indices, List.mem_map]
  constructor
  · rintro h p hp ⟨o, ho, hindex⟩
    exact h o ⟨p, hp, ho⟩ hindex
  · rintro h o ⟨p, hp, ho⟩ hindex
    exact h p hp ⟨o, ho, hindex⟩

theorem told_of_mem (h : p.indices.Nodup) (ho : o ∈ p.results) : told [p] o.index = some o := by
  cases hlast : told [p] o.index with
  | none => exact absurd (List.mem_map_of_mem ho) (told_eq_none.mp hlast p (List.mem_singleton_self p))
  | some o' =>
    obtain ⟨⟨q, hq, ho'⟩, hindex⟩ := mem_of_told hlast
    cases List.mem_singleton.mp hq
    rw [List.inj_on_of_nodup_map h ho' ho hindex]

/-! ## Looking back -/

/-- A ledger holds what a history tells: for each batch its last checkpoint, and under each
index the outcome that was told last. -/
structure Recalls (es : List Entry) (l : Ledger) : Prop where
  heads : ∀ b, Keyed.get? b l.heads = (since b es).getLast?.map (·.head)
  rows : ∀ b i, Keyed.get? (b, i) l.rows = told (since b es) i
  distinct : (Keyed.keys l.rows).Nodup

theorem since_append (b : Int) (es : List Entry) (e : Entry) :
    since b (es ++ [e]) = e.onto b (since b es) := List.foldl_concat _ _ _ _

theorem Recalls.save (h : Recalls es l) (hp : p.Fits) :
    ∃ l', l.save p = some l' ∧ Recalls (es ++ [.save p]) l' := by
  refine ⟨_, hp.saved l, fun b => ?_, fun b i => ?_, Keyed.nodup_keys_foldl _ h.distinct⟩
  · rw [since_append, Entry.onto]
    by_cases hb : p.batch = b
    · rw [if_pos hb, List.getLast?_concat, ← hb]
      exact Keyed.get?_put_self _
    · rw [if_neg hb, ← h.heads]
      exact Keyed.get?_put_other _ (Ne.symm hb)
  · have hrows : Keyed.get? (b, i) (Keyed.ofList (p.results.map fun o => ((p.batch, o.index), o))) =
        if p.batch = b then told [p] i else none := by
      rw [Keyed.get?_ofList_map fun o : Outcome => (p.batch, o.index)]
      by_cases hb : p.batch = b
      · rw [if_pos hb, told, List.flatMap_singleton, hb]
        congr 1
        refine List.filter_congr fun o _ => ?_
        simp
      · rw [if_neg hb, List.getLast?_eq_none_iff, List.filter_eq_nil_iff]
        intro o _ ho
        exact hb (Prod.mk.inj (eq_of_beq ho)).1
    rw [since_append, Entry.onto, Keyed.get?_foldl, hrows, h.rows]
    by_cases hb : p.batch = b
    · rw [if_pos hb, if_pos hb, told_append]
    · rw [if_neg hb, if_neg hb, Option.none_or]

theorem Recalls.clear (h : Recalls es l) (batch : Int) :
    Recalls (es ++ [.clear batch]) (l.clear batch) := by
  refine ⟨fun b => ?_, fun b i => ?_, ?_⟩
  · rw [since_append, Entry.onto, Ledger.clear, Keyed.get?_filter (· != batch), h.heads]
    by_cases hb : batch = b
    · rw [if_pos hb, if_neg (by simp [hb])]
      rfl
    · rw [if_neg hb, if_pos (by simpa using Ne.symm hb)]
  · rw [since_append, Entry.onto, Ledger.clear, Keyed.get?_filter (fun k : Int × Int => k.1 != batch),
      h.rows]
    by_cases hb : batch = b
    · rw [if_pos hb, if_neg (by simp [hb])]
      rfl
    · rw [if_neg hb, if_pos (by simpa using Ne.symm hb)]
  · exact h.distinct.sublist (List.filter_sublist.map _)

/-- Every history of checkpoints that fit can be gone through, and is recalled. -/
theorem enterAll_recalls (h : ∀ p, .save p ∈ es → p.Fits) :
    ∃ l, enterAll {} es = some l ∧ Recalls es l := by
  induction es using List.reverseRecOn with
  | nil => exact ⟨{}, rfl, fun _ => rfl, fun _ _ => rfl, List.nodup_nil⟩
  | append_singleton es e ih =>
    obtain ⟨l, hl, hrecalls⟩ := ih fun p hp => h p (List.mem_append_left _ hp)
    have hlast : ∃ l', l.enter e = some l' ∧ Recalls (es ++ [e]) l' := by
      cases e with
      | save p => exact hrecalls.save (h p (List.mem_append_right _ (List.mem_singleton_self _)))
      | clear batch => exact ⟨_, rfl, hrecalls.clear batch⟩
    obtain ⟨l', hl', hrecalls'⟩ := hlast
    refine ⟨l', ?_, hrecalls'⟩
    rw [enterAll, List.foldlM_append]
    show enterAll {} es >>= _ = _
    rw [hl]
    show l.enter e >>= some = _
    rw [hl']
    rfl

theorem since_saved (h : p ∈ since b es) : .save p ∈ es ∧ p.batch = b := by
  induction es using List.reverseRecOn with
  | nil => cases h
  | append_singleton es e ih =>
    rw [since_append] at h
    have hbefore : p ∈ since b es → .save p ∈ es ++ [e] ∧ p.batch = b := fun hp =>
      (ih hp).imp (List.mem_append_left _) id
    cases e with
    | save q =>
      rw [Entry.onto] at h
      split at h
      · next hq =>
        rcases List.mem_append.mp h with hp | hp
        · exact hbefore hp
        · cases List.mem_singleton.mp hp
          exact ⟨List.mem_append_right _ (List.mem_singleton_self _), hq⟩
      · exact hbefore h
    | clear batch =>
      rw [Entry.onto] at h
      split at h
      · cases h
      · exact hbefore h

theorem Recalls.mem_outcomes (h : Recalls es l) : o ∈ l.outcomes b ↔ told (since b es) o.index = some o := by
  rw [Ledger.mem_outcomes]
  constructor
  · rintro ⟨i, hi⟩
    rw [← Keyed.get?_eq_some_iff h.distinct, h.rows] at hi
    rw [(mem_of_told hi).2]
    exact hi
  · intro ho
    refine ⟨o.index, ?_⟩
    rwa [← Keyed.get?_eq_some_iff h.distinct, h.rows]

theorem Recalls.ascending (h : Recalls es l) (b : Int) : ((l.outcomes b).map (·.index)).Pairwise (· < ·) := by
  have hown : ∀ e ∈ l.rows, e.2.index = e.1.2 := by
    intro e he
    have hget := (Keyed.get?_eq_some_iff h.distinct).mpr he
    rw [h.rows] at hget
    exact (mem_of_told hget).2
  have hkeys : ((l.rows.filter fun e => e.1.1 == b).map (·.1.2)).Nodup := by
    have hnodup : ((l.rows.filter fun e => e.1.1 == b).map Prod.fst).Nodup :=
      h.distinct.sublist (List.filter_sublist.map _)
    have hsplit : (l.rows.filter fun e => e.1.1 == b).map (·.1.2) =
        ((l.rows.filter fun e => e.1.1 == b).map Prod.fst).map Prod.snd := by rw [List.map_map]; rfl
    rw [hsplit]
    refine List.Nodup.map_on ?_ hnodup
    intro x hx y hy hxy
    obtain ⟨e, he, rfl⟩ := List.mem_map.mp hx
    obtain ⟨f, hf, rfl⟩ := List.mem_map.mp hy
    have hb : e.1.1 = f.1.1 :=
      (eq_of_beq (List.mem_filter.mp he).2).trans (eq_of_beq (List.mem_filter.mp hf).2).symm
    exact Prod.ext hb hxy
  have houtcomes : (l.outcomes b).map (·.index) =
      ((l.rows.filter fun e => e.1.1 == b).mergeSort fun a b => a.1.2 ≤ b.1.2).map (·.1.2) := by
    rw [outcomes, List.map_map]
    exact List.map_congr_left fun e he => hown e (List.mem_filter.mp (List.mem_mergeSort.mp he)).1
  rw [houtcomes]
  exact Order.mergeSort_ascending hkeys

theorem Recalls.load (h : Recalls es l) (b : Int) : l.load b =
    (since b es).getLast?.map fun p => { p with results := l.outcomes b } := by
  rw [Ledger.load, h.heads, Option.map_map]
  refine Option.map_congr fun p hp => ?_
  obtain ⟨-, rfl⟩ := since_saved (List.mem_of_getLast? hp)
  rfl

/-- The last checkpoint of a batch comes back as it was saved exactly if those before it told
of no index that it leaves out. -/
theorem Recalls.whole_iff (h : Recalls es l) (hfit : ∀ p, .save p ∈ es → p.Fits)
    (hp : (since b es).getLast? = some p) :
    l.outcomes b = p.arranged ↔ ∀ q ∈ since b es, q.indices ⊆ p.indices := by
  obtain ⟨ps, hps⟩ := List.getLast?_eq_some_iff.mp hp
  have hdistinct := (hfit p (since_saved (List.mem_of_getLast? hp)).1).distinct
  have harranged : ∀ {o}, o ∈ p.arranged ↔ o ∈ p.results := List.mem_mergeSort
  constructor
  · intro hwhole q hq i hi
    cases htold : told (since b es) i with
    | none => exact absurd hi (told_eq_none.mp htold q hq)
    | some o =>
      obtain ⟨-, rfl⟩ := mem_of_told htold
      have ho := hwhole ▸ h.mem_outcomes.mpr htold
      exact List.mem_map_of_mem (harranged.mp ho)
  · intro hsub
    refine Order.ascending_unique (h.ascending b) (Order.mergeSort_ascending hdistinct) fun o => ?_
    rw [h.mem_outcomes, harranged, hps, told_append]
    constructor
    · intro ho
      cases hlast : told [p] o.index with
      | some o' =>
        rw [hlast, Option.some_or] at ho
        cases ho
        obtain ⟨⟨q, hq, ho⟩, -⟩ := mem_of_told hlast
        rwa [List.mem_singleton.mp hq] at ho
      | none =>
        -- an outcome that is left over from before is of an index that the last checkpoint has
        rw [hlast, Option.none_or] at ho
        obtain ⟨⟨q, hq, ho⟩, -⟩ := mem_of_told ho
        have hin := hsub q (hps ▸ List.mem_append_left _ hq) (List.mem_map_of_mem ho)
        exact absurd hin (told_eq_none.mp hlast p (List.mem_singleton_self p))
    · intro ho
      rw [told_of_mem hdistinct ho, Option.some_or]

/-- What is done for one batch does nothing to another. -/
theorem enter_other {e : Entry} (he : e.batch ≠ b) (h : l.enter e = some l') : l'.load b = l.load b := by
  cases e with
  | save p =>
    obtain ⟨head, rows, -, -, hheads, hrows⟩ := save_cases h
    have hne : b ≠ p.batch := Ne.symm he
    have hkept : (l'.rows.filter fun r => r.1.1 == b) = l.rows.filter fun r => r.1.1 == b := by
      rw [hrows]
      refine Keyed.filter_foldl (fun k : Int × Int => k.1 == b) _ _ fun a ha => ?_
      obtain ⟨o, -, rfl⟩ := List.mem_map.mp ha
      exact beq_eq_false_iff_ne.mpr he
    rw [Ledger.load, Ledger.load, outcomes, outcomes, hkept, hheads, Keyed.get?_put_other _ hne]
  | clear batch =>
    cases h
    have hne : b ≠ batch := Ne.symm he
    have hkept : ((l.rows.filter fun r => r.1.1 != batch).filter fun r => r.1.1 == b) =
        l.rows.filter fun r => r.1.1 == b := by
      rw [List.filter_filter]
      refine List.filter_congr fun r _ => ?_
      by_cases hr : r.1.1 = b
      · simp [hr, hne]
      · simp [hr]
    rw [Ledger.load, Ledger.load, outcomes, outcomes, Ledger.clear, hkept,
      Keyed.get?_filter (· != batch), if_pos (by simpa using hne)]

/-- Whatever was saved and cleared, loading gives the last checkpoint of a batch that was saved
since the batch was last cleared, and none if there is none. Its results ascend by index and
are the outcomes that were told last, so they are those of the checkpoint itself exactly if
the checkpoints before it told of no index that it leaves out. What is done for one batch
does nothing to another. -/
theorem load_recalls (es : List Entry) (hfit : ∀ p, .save p ∈ es → p.Fits) :
    ∃ l, enterAll {} es = some l ∧
      (∀ b, match (since b es).getLast? with
        | none => l.load b = none
        | some p => ∃ os, l.load b = some { p with results := os } ∧
            (os.map (·.index)).Pairwise (· < ·) ∧
            (∀ o, o ∈ os ↔ told (since b es) o.index = some o) ∧
            (os = p.arranged ↔ ∀ q ∈ since b es, q.indices ⊆ p.indices)) ∧
      ∀ b e l', e.batch ≠ b → l.enter e = some l' → l'.load b = l.load b := by
  obtain ⟨l, hl, hrecalls⟩ := enterAll_recalls hfit
  refine ⟨l, hl, fun b => ?_, fun b e l' => enter_other⟩
  have hload := hrecalls.load b
  cases hp : (since b es).getLast? with
  | none => rw [hload, hp]; rfl
  | some p =>
    refine ⟨l.outcomes b, ?_, hrecalls.ascending b, fun o => hrecalls.mem_outcomes,
      hrecalls.whole_iff hfit hp⟩
    rw [hload, hp]
    rfl

/-! ## A checkpoint that was saved after a longer one -/

def cardAt (n : Nat) : Outcome := { index := n, name := .str "Card", success := true }

/-- A checkpoint of the first components of a batch of two, which all succeeded. -/
def upTo (n : Nat) : Checkpoint where
  batch := 1
  count := 2
  completed := n
  current := (n : Int) - 1
  next := n
  results := (List.range n).map cardAt

theorem cardAt_fits {n : Nat} (hn : n ≤ 2) : (cardAt n).Fits where
  index := by
    show InColumn (n : Int)
    unfold InColumn
    omega
  duration := by
    show InColumn 0
    decide
  name := ⟨"Card", rfl⟩
  reason := Or.inl rfl
  error := Or.inl rfl
  stage := Or.inl rfl
  target := Or.inl rfl

theorem upTo_indices (n : Nat) : (upTo n).indices = (List.range n).map (Nat.cast : Nat → Int) := by
  rw [Checkpoint.indices, upTo, List.map_map]
  rfl

theorem upTo_fits {n : Nat} (hn : n ≤ 2) : (upTo n).Fits := by
  have hin : ∀ k : Int, -1 ≤ k → k ≤ 2 → InColumn k := fun k hlow hhigh => by
    unfold InColumn
    omega
  exact {
    batch := hin 1 (by omega) (by omega)
    count := hin 2 (by omega) (by omega)
    completed := hin n (by omega) (by omega)
    current := hin ((n : Int) - 1) (by omega) (by omega)
    next := hin n (by omega) (by omega)
    error := Or.inl rfl
    timestamp := ⟨"", rfl⟩
    results := fun o ho => by
      obtain ⟨k, hk, rfl⟩ := List.mem_map.mp ho
      exact cardAt_fits (by rw [List.mem_range] at hk; omega)
    distinct := by
      rw [upTo_indices]
      exact List.nodup_range.map fun _ _ => Int.ofNat.inj }

def growing : List Entry := [.save (upTo 1), .save (upTo 2), .clear 2]

def shrinking : List Entry := [.save (upTo 2), .save (upTo 1)]

theorem upTo_recalled : (∀ p, Entry.save p ∈ growing → p.Fits) ∧ ∃ l, enterAll {} growing = some l ∧
    l.load 1 = some { upTo 2 with results := (upTo 2).arranged } ∧ l.load 2 = none := by
  have hfit : ∀ p, Entry.save p ∈ growing → p.Fits := by
    intro p hp
    simp only [growing, List.mem_cons, Entry.save.injEq, List.not_mem_nil, reduceCtorEq, or_false] at hp
    obtain rfl | rfl := hp
    · exact upTo_fits (by decide)
    · exact upTo_fits (by decide)
  obtain ⟨l, hl, hload, -⟩ := load_recalls growing hfit
  have hlast : (since 1 growing).getLast? = some (upTo 2) := rfl
  have hone := hload 1
  rw [hlast] at hone
  obtain ⟨os, hos, -, -, hwhole⟩ := hone
  have hsince : ∀ q ∈ since 1 growing, q.indices ⊆ (upTo 2).indices := by
    show ∀ q ∈ [upTo 1, upTo 2], q.indices ⊆ (upTo 2).indices
    decide
  refine ⟨hfit, l, hl, ?_, hload 2⟩
  rw [hos, hwhole.mpr hsince]

/-- A checkpoint that tells less than one before it does not come back as it was saved. -/
theorem upTo_lingers : ∃ l q, enterAll {} shrinking = some l ∧
    (since 1 shrinking).getLast? = some (upTo 1) ∧ l.load 1 = some q ∧
    1 ∈ q.indices ∧ 1 ∉ (upTo 1).indices := by
  have hfit : ∀ p, Entry.save p ∈ shrinking → p.Fits := by
    intro p hp
    simp only [shrinking, List.mem_cons, Entry.save.injEq, List.not_mem_nil, or_false] at hp
    obtain rfl | rfl := hp
    · exact upTo_fits (by decide)
    · exact upTo_fits (by decide)
  obtain ⟨l, hl, hrecalls⟩ := enterAll_recalls hfit
  have hleft : cardAt 1 ∈ l.outcomes 1 := hrecalls.mem_outcomes.mpr rfl
  exact ⟨l, _, hl, rfl, hrecalls.load 1, List.mem_map_of_mem hleft, by decide⟩

end Ledger

end Retype

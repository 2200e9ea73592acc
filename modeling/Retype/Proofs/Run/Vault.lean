import Retype.Proofs.Fault
import Retype.Proofs.Keyed
import Retype.Proofs.Run.Progress
import Retype.Run.Archive

/-!
# Checkpoints that are kept

A ledger gives back the outcomes of every checkpoint that was saved in it, and a
document the indices of the checkpoint that it was made of.
-/

set_option autoImplicit false

namespace Retype

open Keyed (keys)

/-! ## Documents -/

namespace Outcome

/-- What is left of a value that is only written if it says something. -/
def told (v : Json) : Json := if v.truth then v else .null

/-- What is left of an outcome that was written and read again. -/
def retold (o : Outcome) : Outcome :=
  { o with
    reason := told o.reason
    error := told o.error
    stage := told o.stage
    target := told o.target }

theorem get?_telling (key key' : String) (v : Json) :
    Keyed.get? key (telling key' v) = if key' == key && v.truth then some v else none := by
  unfold telling
  cases v.truth <;> simp [Keyed.get?]

theorem getD_told (v : Json) : (if v.truth = true then some v else none).getD .null = told v := by
  unfold told
  split <;> rfl

theorem getD_bool (b : Bool) :
    ((if b = true then some (Json.bool b) else none).getD (.bool false)).truth = b := by
  cases b <;> rfl

theorem getD_arr (xs : List Json) :
    (if (Json.arr xs).truth = true then some (Json.arr xs) else none).getD (.arr []) =
      .arr xs := by
  cases xs <;> rfl

theorem truth_bool (b : Bool) : (Json.bool b).truth = b := rfl

theorem each_arr (xs : List Json) : (Json.arr xs).each = .ok xs := rfl

theorem ofJson_toJson (o : Outcome) : ofJson o.toJson = .ok o.retold := by
  simp [ofJson, toJson, Json.need, Json.getD, Keyed.get?_append, Keyed.get?, get?_telling, bind,
    Except.bind, Json.toInt, pure, Except.pure, getD_told, getD_bool, getD_arr, each_arr,
    truth_bool, retold]

theorem mapM_ofJson (os : List Outcome) :
    os.mapM (ofJson ∘ toJson) = .ok (os.map retold) :=
  mapM_total (fun o => ofJson_toJson o) os

end Outcome

/-- What is left of a checkpoint that was written and read again. -/
def Checkpoint.retold (c : Checkpoint) : Checkpoint :=
  { c with results := c.results.map Outcome.retold, error := Outcome.told c.error }

theorem Checkpoint.ofJson_toJson (c : Checkpoint) : ofJson c.toJson = .ok c.retold := by
  simp [ofJson, toJson, Json.need, Json.getD, Keyed.get?, Outcome.get?_telling, bind, Except.bind,
    Json.toInt, pure, Except.pure, Outcome.getD_told, Json.each, Outcome.mapM_ofJson, retold]

/-! ## Ledgers -/

namespace Ledger

theorem number?_eq_some {n m : Int} (h : number? n = some m) : m = n := by
  unfold number? at h
  split at h
  · cases h
    rfl
  · cases h

theorem row?_index {o r : Outcome} (h : row? o = some r) : r.index = o.index := by
  simp only [row?, bind, Option.bind_eq_some_iff] at h
  obtain ⟨i, hi, _, -, _, -, h⟩ := h
  cases h
  exact number?_eq_some hi

theorem rows_indices {os rs : List Outcome} (h : os.mapM row? = some rs) :
    rs.map (·.index) = os.map (·.index) := by
  induction os generalizing rs with
  | nil =>
    cases h
    rfl
  | cons o os ih =>
    simp only [List.mapM_cons, bind, Option.bind_eq_some_iff] at h
    obtain ⟨r, hr, rs, hrs, h⟩ := h
    cases h
    rw [List.map_cons, List.map_cons, row?_index hr, ih hrs]

/-- What saving a checkpoint does to a ledger. -/
theorem save_cases {l l' : Ledger} {c : Checkpoint} (h : l.save c = some l') :
    ∃ head rows, head? c = some head ∧ c.results.mapM row? = some rows ∧
      l'.heads = Keyed.put c.batch head l.heads ∧
      l'.rows = (rows.map fun o => ((c.batch, o.index), o)).foldl
        (fun t e => Keyed.put e.1 e.2 t) l.rows := by
  simp only [save, bind, Option.bind_eq_some_iff] at h
  obtain ⟨b, hb, head, hhead, rows, hrows, h⟩ := h
  cases h
  cases number?_eq_some hb
  refine ⟨head, rows, hhead, hrows, rfl, ?_⟩
  rw [List.foldl_map]

theorem mem_outcomes {l : Ledger} {batch : Int} {o : Outcome} :
    o ∈ l.outcomes batch ↔ ∃ i, ((batch, i), o) ∈ l.rows := by
  rw [outcomes, List.mem_map]
  simp only [List.mem_mergeSort, List.mem_filter, beq_iff_eq]
  constructor
  · rintro ⟨⟨⟨b, i⟩, o'⟩, ⟨h, rfl⟩, rfl⟩
    exact ⟨i, h⟩
  · rintro ⟨i, h⟩
    exact ⟨((batch, i), o), ⟨h, rfl⟩, rfl⟩

/-- What was saved can be loaded again. -/
theorem load_save {l l' : Ledger} {c : Checkpoint} (h : l.save c = some l') :
    ∃ c', l'.load c.batch = some c' ∧ ∀ i ∈ c.indices, i ∈ c'.indices := by
  obtain ⟨head, rows, -, hrows, hheads, htable⟩ := save_cases h
  refine ⟨⟨c.batch, head.count, head.completed, head.current, head.next, l'.outcomes c.batch,
    head.error, head.savedAt⟩, ?_, fun i hi => ?_⟩
  · rw [load, hheads, Keyed.get?_put_self]
    rfl
  · rw [Checkpoint.indices, ← rows_indices hrows] at hi
    obtain ⟨o, ho, rfl⟩ := List.mem_map.mp hi
    have hkey : (c.batch, o.index) ∈ keys (rows.map fun o => ((c.batch, o.index), o)) := by
      rw [keys, List.map_map]
      exact List.mem_map_of_mem ho
    obtain ⟨v, hv, hmem⟩ := Keyed.get?_foldl_mem _ l.rows hkey
    obtain ⟨r, -, hr⟩ := List.mem_map.mp hmem
    simp only [Prod.mk.injEq, true_and] at hr
    obtain ⟨hidx, rfl⟩ := hr
    rw [← htable] at hv
    refine List.mem_map.mpr ⟨r, mem_outcomes.mpr ⟨o.index, Keyed.get?_of_mem hv⟩, hidx⟩

end Ledger

/-! ## Vaults -/

/-- The progress to start from, given what was loaded. -/
def Progress.resumed (batch : Int) (count : Nat) : Option Checkpoint → Progress
  | none => { batch := batch, count := count }
  | some c => .ofCheckpoint c count

/-- The places for the checkpoints of a batch: a ledger, if there is one, and a document. -/
structure Vault where
  ledger : Option Ledger := none
  mirror : Option Json := none

namespace Vault

/-- The first half of saving; none if the ledger refuses. -/
def record (v : Vault) (c : Checkpoint) : Option Vault :=
  match v.ledger with
  | none => some v
  | some l => (l.save c).map fun l => { v with ledger := some l }

/-- The second half of saving. -/
def reflect (v : Vault) (c : Checkpoint) : Vault := { v with mirror := some c.toJson }

def loadMirror (v : Vault) : Except Fault (Option Checkpoint) :=
  match v.mirror with
  | none => .ok none
  | some doc => Archive.checkpointIn (.ok doc)

def load (v : Vault) (batch : Int) : Except Fault (Option Checkpoint) :=
  match v.ledger.bind (·.load batch) with
  | some c => .ok (some c)
  | none => v.loadMirror

def clearLedger (v : Vault) (batch : Int) : Vault :=
  { v with ledger := v.ledger.map (·.clear batch) }

def clearMirror (v : Vault) : Vault := { v with mirror := none }

/-- The indices that are found again when a batch is resumed. -/
def indices (v : Vault) (batch : Int) (count : Nat) : List Int :=
  match v.load batch with
  | .ok kept => (Progress.resumed batch count kept).done
  | .error _ => []

def Own (v : Vault) (batch : Int) : Prop := ∀ c, v.loadMirror = .ok (some c) → c.batch = batch

theorem Own.of_unmirrored {v : Vault} {batch : Int} (h : v.mirror = none) : v.Own batch := by
  intro c hc
  rw [loadMirror, h] at hc
  cases hc

theorem mem_indices {v : Vault} {batch : Int} {count : Nat} {c : Checkpoint} {i : Int}
    (h : v.load batch = .ok (some c)) (hi : i ∈ c.indices) (hw : 0 ≤ i ∧ i < count) :
    i ∈ v.indices batch count := by
  rw [indices, h]
  exact Progress.mem_done_ofCheckpoint.mpr ⟨hi, hw⟩

theorem load_own {v : Vault} {batch : Int} {c : Checkpoint} (hv : v.Own batch)
    (h : v.load batch = .ok (some c)) : c.batch = batch := by
  unfold load at h
  split at h
  · next c' hc' =>
    cases h
    obtain ⟨l, -, hl⟩ := Option.bind_eq_some_iff.mp hc'
    obtain ⟨head, -, rfl⟩ := Option.map_eq_some_iff.mp hl
    rfl
  · exact hv c h

theorem record_mirror {v v' : Vault} {c : Checkpoint} (h : v.record c = some v') :
    v'.mirror = v.mirror := by
  unfold record at h
  split at h
  · cases h
    rfl
  · obtain ⟨l, -, rfl⟩ := Option.map_eq_some_iff.mp h
    rfl

theorem record_own {v v' : Vault} {c : Checkpoint} {batch : Int} (h : v.record c = some v')
    (hv : v.Own batch) : v'.Own batch := by
  intro d hd
  rw [loadMirror, record_mirror h] at hd
  exact hv d hd

theorem record_none {v v' : Vault} {c : Checkpoint} (h : v.record c = some v')
    (hl : v.ledger = none) : v' = v := by
  rw [record, hl] at h
  cases h
  rfl

/-- What a ledger was given is found again. -/
theorem record_indices {v v' : Vault} {c : Checkpoint} {count : Nat} {i : Int}
    (h : v.record c = some v') (hl : v.ledger ≠ none) (hi : i ∈ c.indices)
    (hw : 0 ≤ i ∧ i < count) : i ∈ v'.indices c.batch count := by
  unfold record at h
  split at h
  · next hn => exact absurd hn hl
  · next l _ =>
    obtain ⟨l', hl', rfl⟩ := Option.map_eq_some_iff.mp h
    obtain ⟨c', hc', hsub⟩ := Ledger.load_save hl'
    refine mem_indices (c := c') ?_ (hsub i hi) hw
    rw [load, Option.bind_some, hc']

theorem reflect_loadMirror (v : Vault) (c : Checkpoint) :
    (v.reflect c).loadMirror = .ok (some c.retold) := by
  show Archive.checkpointIn (.ok c.toJson) = _
  rw [Archive.checkpointIn, show (Except.ok c.toJson >>= Checkpoint.ofJson) = _ from
    Checkpoint.ofJson_toJson c]

theorem reflect_own {v : Vault} {c : Checkpoint} : (v.reflect c).Own c.batch := by
  intro d hd
  rw [reflect_loadMirror] at hd
  cases hd
  rfl

/-- What stands in the document and was found before is found again. -/
theorem reflect_indices {v : Vault} {c : Checkpoint} {batch : Int} {count : Nat} {i : Int}
    (hi : i ∈ c.indices) (hv : v.ledger ≠ none → i ∈ v.indices batch count)
    (hw : 0 ≤ i ∧ i < count) : i ∈ (v.reflect c).indices batch count := by
  by_cases hl : v.ledger.bind (·.load batch) = none
  · refine mem_indices (c := c.retold) ?_ ?_ hw
    · rw [load, show (v.reflect c).ledger = v.ledger from rfl, hl]
      exact reflect_loadMirror v c
    · simpa [Checkpoint.indices, Checkpoint.retold, Outcome.retold] using hi
  · obtain ⟨d, hd⟩ := Option.ne_none_iff_exists'.mp hl
    have hload : (v.reflect c).load batch = v.load batch := by
      rw [load, load, show (v.reflect c).ledger = v.ledger from rfl, hd]
    rw [indices, hload]
    refine hv fun hn => ?_
    rw [hn] at hd
    cases hd

end Vault

end Retype

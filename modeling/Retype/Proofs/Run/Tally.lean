import Retype.Proofs.Run.Forms
import Retype.Proofs.Run.Inheritance
import Retype.Proofs.Run.Leaving

/-!
# What a ledger counts

A ledger counts its rows by success and skipping. A fresh run of a batch clears the rows of
the batch and then saves only outcomes of its own, until at its end it saves all of them. So
what it adds to the other rows are its results, and whatever is counted in the one is counted
in the other.
-/

set_option autoImplicit false

namespace Retype

open Keyed (keys)

/-- Assignments of different keys, among them all that are there, leave nothing but themselves. -/
theorem Keyed.assign_perm {κ ν : Type} [BEq κ] [LawfulBEq κ] {as es : List (κ × ν)} (ha : (keys as).Nodup)
    (he : (keys es).Nodup) (h : ∀ k ∈ keys es, k ∈ keys as) :
    (as.foldl (fun es e => put e.1 e.2 es) es).Perm as := by
  refine perm_of_get? (nodup_keys_foldl as he) ha fun k => ?_
  rw [get?_foldl, ofList_eq ha]
  cases hk : get? k as with
  | some => rfl
  | none =>
    have hnot : k ∉ keys as := fun hmem => by simpa [has, hk] using has_iff.mpr hmem
    have hes : ¬ has k es = true := fun hmem => hnot (h k (has_iff.mp hmem))
    simpa [has] using hes

namespace Ledger

/-! ## Rows -/

/-- A kind that rows are of if the outcomes are that they were made of. -/
def Kept (f : Outcome → Bool) : Prop := ∀ o r, row? o = some r → f r = f o

theorem kept_marks (f : Bool → Bool → Bool) : Kept fun o => f o.success o.skipped := by
  intro o r h
  simp only [row?, bind, Option.bind_eq_some_iff] at h
  obtain ⟨i, -, n, -, d, -, h⟩ := h
  cases h
  rfl

def tally (f : Outcome → Bool) (rows : List ((Int × Int) × Outcome)) : Nat := rows.countP fun r => f r.2

theorem succeeded_tally (l : Ledger) : l.succeeded = tally Outcome.succeeded l.rows :=
  List.countP_eq_length_filter.symm

theorem skipped_tally (l : Ledger) : l.skipped = tally (·.skipped) l.rows :=
  List.countP_eq_length_filter.symm

theorem unsuccessful_tally (l : Ledger) : l.unsuccessful = tally (fun o => !o.success) l.rows :=
  List.countP_eq_length_filter.symm

theorem rows_count {f : Outcome → Bool} (hf : Kept f) {os rs : List Outcome} (h : os.mapM row? = some rs) :
    rs.countP f = os.countP f := by
  induction os generalizing rs with
  | nil =>
    cases h
    rfl
  | cons o os ih =>
    simp only [List.mapM_cons, bind, Option.bind_eq_some_iff] at h
    obtain ⟨r, hr, rs, hrs, h⟩ := h
    cases h
    rw [List.countP_cons, List.countP_cons, ih hrs, hf o r hr]

def others (l : Ledger) (batch : Int) : List ((Int × Int) × Outcome) := l.rows.filter fun r => r.1.1 != batch

variable {l l' : Ledger} {p : Checkpoint} {batch : Int}

theorem save_others (h : l.save p = some l') : l'.others p.batch = l.others p.batch := by
  obtain ⟨head, rows, -, -, -, htable⟩ := save_cases h
  rw [others, htable]
  refine Keyed.filter_foldl (fun k : Int × Int => k.1 != p.batch) _ l.rows fun a ha => ?_
  obtain ⟨o, -, rfl⟩ := List.mem_map.mp ha
  exact bne_self_eq_false p.batch

theorem save_distinct (h : l.save p = some l') (hd : (keys l.rows).Nodup) : (keys l'.rows).Nodup := by
  obtain ⟨head, rows, -, -, -, htable⟩ := save_cases h
  rw [htable]
  exact Keyed.nodup_keys_foldl _ hd

theorem save_keys (h : l.save p = some l') {i : Int} (hi : (p.batch, i) ∈ keys l'.rows) :
    (p.batch, i) ∈ keys l.rows ∨ i ∈ p.indices := by
  obtain ⟨head, rows, -, hrows, -, htable⟩ := save_cases h
  rw [htable, Keyed.mem_keys_foldl] at hi
  refine hi.imp id fun hi => ?_
  rw [keys, List.map_map] at hi
  obtain ⟨o, ho, hkey⟩ := List.mem_map.mp hi
  rw [Checkpoint.indices, ← rows_indices hrows]
  exact List.mem_map.mpr ⟨o, ho, (Prod.mk.inj hkey).2⟩

/-- A checkpoint that has an outcome for every row of its batch leaves no others there. -/
theorem save_own (h : l.save p = some l') (hd : (keys l.rows).Nodup) (hp : p.indices.Nodup)
    (hall : ∀ i, (p.batch, i) ∈ keys l.rows → i ∈ p.indices) :
    ∃ rows, p.results.mapM row? = some rows ∧
      (l'.rows.filter fun r => !(r.1.1 != p.batch)).Perm (rows.map fun o => ((p.batch, o.index), o)) := by
  obtain ⟨head, rows, -, hrows, -, htable⟩ := save_cases h
  refine ⟨rows, hrows, ?_⟩
  have hkeys : keys (rows.map fun o => ((p.batch, o.index), o)) = p.indices.map (p.batch, ·) := by
    rw [Checkpoint.indices, ← rows_indices hrows, keys, List.map_map, List.map_map]
    rfl
  have hown : (rows.map fun o => ((p.batch, o.index), o)).filter (fun a => !(a.1.1 != p.batch)) =
      rows.map fun o => ((p.batch, o.index), o) := by
    rw [List.filter_eq_self]
    intro a ha
    obtain ⟨o, -, rfl⟩ := List.mem_map.mp ha
    simp
  have hassign := Keyed.filter_assign (fun k : Int × Int => !(k.1 != p.batch))
    (rows.map fun o => ((p.batch, o.index), o)) l.rows
  rw [htable, hassign, hown]
  -- every row of the batch is assigned anew, so it does not matter what was there before
  refine Keyed.assign_perm ?_ ((List.filter_sublist.map _).nodup hd) fun k hk => ?_
  · rw [hkeys]
    exact hp.map fun i j hij => (Prod.mk.inj hij).2
  · obtain ⟨r, hr, rfl⟩ := List.mem_map.mp hk
    obtain ⟨hr, hbatch⟩ := List.mem_filter.mp hr
    have hb : r.1.1 = p.batch := by simpa using hbatch
    rw [hkeys]
    refine List.mem_map.mpr ⟨r.1.2, hall _ ?_, Prod.ext hb.symm rfl⟩
    rw [← hb]
    exact List.mem_map_of_mem hr

theorem save_tally (h : l.save p = some l') (hd : (keys l.rows).Nodup) (hp : p.indices.Nodup)
    (hall : ∀ i, (p.batch, i) ∈ keys l.rows → i ∈ p.indices) {f : Outcome → Bool} (hf : Kept f) :
    tally f l'.rows = tally f (l.others p.batch) + p.results.countP f := by
  obtain ⟨rows, hrows, hown⟩ := save_own h hd hp hall
  rw [tally, List.countP_eq_countP_filter_add _ _ fun r => r.1.1 != p.batch]
  refine congrArg₂ (· + ·) (congrArg (tally f) (save_others h)) ?_
  rw [hown.countP_eq, List.countP_map, ← rows_count hf hrows]
  rfl

theorem clear_others (l : Ledger) (batch : Int) : (l.clear batch).others batch = l.others batch := by
  simp [others, clear, List.filter_filter]

theorem clear_distinct (hd : (keys l.rows).Nodup) : (keys (l.clear batch).rows).Nodup :=
  (List.filter_sublist.map _).nodup hd

theorem clear_keys {i : Int} : (batch, i) ∉ keys (l.clear batch).rows := by
  intro h
  obtain ⟨r, hr, hkey⟩ := List.mem_map.mp h
  have hbatch := (List.mem_filter.mp hr).2
  rw [hkey] at hbatch
  simp at hbatch

end Ledger

/-! ## Ledgers in their place -/

/-- A path that ends like that of a ledger. -/
def Path.Ledgered (p : String) : Prop := ".duckdb".toList <:+ p.toList

instance (p : String) : Decidable (Path.Ledgered p) := inferInstanceAs (Decidable (_ <:+ _))

theorem Path.Ledgered.last {p : String} (h : Ledgered p) : (normal p).toList.getLast? = some 'b' := by
  obtain ⟨front, hp⟩ := h
  have hlast : p.toList.getLast? = some 'b' := by
    rw [← hp, List.getLast?_append]
    rfl
  rw [keeps_normal.last ⟨'b', hlast, by decide, by decide⟩, hlast]

namespace Site

def shelf (s : Site) (path : String) : Ledger := (Keyed.get? path s.ledgers).getD {}

variable {s s' : Site} {path : String}

theorem ledger?_stands (h : s.files.isFile path = true) : s.ledger? path = some (s.shelf path) :=
  if_pos h

theorem shelf_congr (h : s'.ledgers = s.ledgers) : s'.shelf path = s.shelf path := by
  rw [shelf, shelf, h]

theorem setLedger_shelf (s : Site) (path : String) (l : Ledger) : (s.setLedger path l).shelf path = l := by
  rw [shelf, setLedger, Keyed.get?_put_self, Option.getD_some]

end Site

theorem Workspace.isFile_iff {w : Workspace} {p : String} :
    w.isFile p = true ↔ w.blocked? p = none ∧ w.FileAt (Path.normal p) := by
  unfold isFile FileAt
  rw [← entryAt?_normal]
  cases w.blocked? p with
  | some => simp
  | none =>
    cases w.entry? p with
    | none => simp
    | some e => cases e <;> simp

variable {c : Conditions} {e : Equipment} {b : Batch} {s s' : Site} {path : String}

/-- No run takes the file of a ledger away. -/
theorem Path.Ledgered.stands (hpath : Path.Ledgered path) {os : List Outcome} (h : Passage c e b s os s')
    (hs : s.files.isFile path = true) : s'.files.isFile path = true := by
  obtain ⟨hb, hfile⟩ := Workspace.isFile_iff.mp hs
  have hlast := hpath.last
  refine Workspace.isFile_iff.mpr ⟨(Conditions.passage_folders h).reached hb,
    Conditions.passage_leaves (fun p he => ?_) (fun hplace => ?_) h hfile⟩
  · rw [he, Path.draft_last] at hlast
    cases hlast
  · rcases Archive.place_last hplace with hn | hn <;>
    · rw [hlast] at hn
      cases hn

namespace Archive

variable {a : Archive} {p : Checkpoint}

theorem ledgerOf_shelf (ha : a.ledger = some path) (hs : s.files.isFile path = true) :
    a.ledgerOf s = some (path, s.shelf path) := by
  rw [ledgerOf, ha, Option.map_some, Site.ledger?_stands hs, Option.getD_some]

/-- Saving a checkpoint saves it in the ledger, or leaves the ledger alone and fails. -/
theorem save_shelf (ha : a.ledger = some path) (he : a.enabled = true) (hs : s.files.isFile path = true) :
    (s.shelf path).save p = some ((a.save s p).1.shelf path) ∨
      (a.save s p).1.shelf path = s.shelf path ∧ (a.save s p).2 ≠ none := by
  unfold save record
  rw [he, ledgerOf_shelf ha hs]
  cases hsave : (s.shelf path).save p with
  | none =>
    simp only [hsave]
    exact Or.inr ⟨rfl, nofun⟩
  | some l =>
    simp only [hsave, Bool.not_true, Bool.false_eq_true, if_false]
    cases (s.setLedger path l).files.writeWhole (a.fileOf p.batch) p.toJson.pretty
    exact Or.inl (congrArg some (Site.setLedger_shelf s path l).symm)

theorem clear_shelf (ha : a.ledger = some path) (he : a.enabled = true) (hs : s.files.isFile path = true)
    (batch : Int) : (a.clear s batch).1.shelf path = (s.shelf path).clear batch := by
  have hset := Site.setLedger_shelf s path ((s.shelf path).clear batch)
  unfold clear
  rw [he, ledgerOf_shelf ha hs]
  simp only [Bool.not_true, Bool.false_eq_true, if_false]
  split <;> exact hset

end Archive

end Retype

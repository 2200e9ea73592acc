import Retype.Proofs.Json.Demands
import Retype.Proofs.Project.Files
import Retype.Proofs.Run.Progress
import Retype.Run.Archive

/-!
# Damaged checkpoints

What is read of a checkpoint's document is decided by the first demand that it does not
meet. Where a key is missing or a text is no numeral, the document counts as no checkpoint;
where a value is of the wrong form, a number has no limits or the text goes too deep, reading
it breaks off. Whatever checkpoint is read, the progress that is taken up from it and what is
pending then are together the whole batch.
-/

set_option autoImplicit false

namespace Retype

open Json.Demand

def Outcome.demands : List Json.Demand :=
  [needed "index" integer, needed "name" anything, needed "success" anything, allowed "skipped" anything,
   allowed "reason" anything, allowed "error" anything, allowed "stage" anything,
   allowed "warnings" (each anything), allowed "duration_ms" integer, allowed "targetPath" anything,
   allowed "dryRun" anything]

theorem Outcome.failing_ofJson (v : Json) : failing Fault.kind (ofJson v) = all demands v := by
  unfold ofJson
  refine Json.failing_through (Json.failing_need "index" Json.failing_toInt v) fun _ index => ?_
  refine Json.failing_next (Json.failing_needed "name" v) fun name => ?_
  refine Json.failing_next (Json.failing_needed "success" v) fun success => ?_
  refine Json.failing_next (Json.failing_allowed "skipped" _ v) fun skipped => ?_
  refine Json.failing_next (Json.failing_allowed "reason" _ v) fun reason => ?_
  refine Json.failing_next (Json.failing_allowed "error" _ v) fun error => ?_
  refine Json.failing_next (Json.failing_allowed "stage" _ v) fun stage => ?_
  refine Json.failing_through (Json.failing_getD "warnings" Json.failing_items rfl v) fun _ warnings => ?_
  refine Json.failing_through (Json.failing_getD "duration_ms" Json.failing_toInt rfl v) fun _ duration => ?_
  refine Json.failing_next (Json.failing_allowed "targetPath" _ v) fun target => ?_
  exact Json.failing_next (Json.failing_allowed "dryRun" _ v) fun dryRun => rfl

namespace Checkpoint

def demands : List Json.Demand :=
  [needed "batchId" integer, allowed "componentCount" integer, allowed "completedCount" integer,
   allowed "currentIndex" integer, allowed "nextIndex" integer, allowed "results" (each (all Outcome.demands)),
   allowed "error" anything, allowed "timestamp" anything]

theorem failing_ofJson (v : Json) : failing Fault.kind (ofJson v) = all demands v := by
  unfold ofJson
  refine Json.failing_through (Json.failing_need "batchId" Json.failing_toInt v) fun _ batch => ?_
  refine Json.failing_through (Json.failing_getD "componentCount" Json.failing_toInt rfl v) fun _ count => ?_
  refine Json.failing_through (Json.failing_getD "completedCount" Json.failing_toInt rfl v) fun _ completed => ?_
  refine Json.failing_through (Json.failing_getD "currentIndex" Json.failing_toInt rfl v) fun _ current => ?_
  refine Json.failing_through (Json.failing_getD "nextIndex" Json.failing_toInt rfl v) fun _ next => ?_
  have hresults := Json.failing_getD "results" (w := .arr []) (Json.failing_each Outcome.failing_ofJson) rfl v
  simp only [← bind_assoc] at hresults ⊢
  refine Json.failing_next hresults fun results => ?_
  refine Json.failing_next (Json.failing_allowed "error" _ v) fun error => ?_
  exact Json.failing_next (Json.failing_allowed "timestamp" _ v) fun timestamp => rfl

def flaw? (l : Json.Limits) (text : String) : Option Fault.Kind :=
  match Json.read l text with
  | .error e => some e.fault.kind
  | .ok v => all demands v

theorem failing_document (l : Json.Limits) (text : String) :
    failing Fault.kind ((Json.read l text).mapError Json.ReadError.fault >>= ofJson) = flaw? l text := by
  unfold flaw?
  cases Json.read l text with
  | error e => rfl
  | ok v => exact failing_ofJson v

end Checkpoint

/-- Progress that is taken up from a checkpoint, whatever the checkpoint holds, and what is
pending then are all indices of the batch, each once. -/
theorem Progress.ofCheckpoint_parts (c : Checkpoint) (count : Int) :
    ((ofCheckpoint c count).done ++ (ofCheckpoint c count).pending).Perm
      ((List.range count.toNat).map Int.ofNat) :=
  (ofCheckpoint_sound c count).parts

namespace Archive

/-- The faults of a document that only make it count as no checkpoint. -/
def Passes (k : Fault.Kind) : Prop := k = .key ∨ k = .value

variable {a : Archive} {s : Site} {batch : Int} {text : String}

theorem load_document (hrow : ((a.ledgerOf s).bind fun (_, l) => l.load batch) = none)
    (hfile : s.files.readText (a.fileOf batch) = .ok text) :
    a.load s batch = (checkpointOf a.reading text).mapError .fault := by
  rw [load, hrow]
  unfold loadFile
  rw [Workspace.holds_of_readText hfile]
  simp only [bind, Except.bind, liftM, monadLift, MonadLift.monadLift, Except.mapError, if_true, hfile]

theorem load_told (hrow : ((a.ledgerOf s).bind fun (_, l) => l.load batch) = none)
    (hfile : s.files.readText (a.fileOf batch) = .ok text) :
    (Checkpoint.flaw? a.reading text = none ∧ ∃ c, a.load s batch = .ok (some c)) ∨
    (∃ k, Checkpoint.flaw? a.reading text = some k ∧ Passes k ∧ a.load s batch = .ok none) ∨
    ∃ k, Checkpoint.flaw? a.reading text = some k ∧ ¬ Passes k ∧ ∃ t, a.load s batch = .error t := by
  have hdocument := Checkpoint.failing_document a.reading text
  rw [load_document hrow hfile, checkpointOf, checkpointIn]
  cases hd : (Json.read a.reading text).mapError Json.ReadError.fault >>= Checkpoint.ofJson with
  | ok c =>
    rw [hd] at hdocument
    exact Or.inl ⟨hdocument.symm, c, rfl⟩
  | error f =>
    rw [hd] at hdocument
    cases hk : f.kind with
    | key | value =>
      have hflaw : Checkpoint.flaw? a.reading text = some f.kind := hdocument.symm
      rw [hk] at hflaw
      refine Or.inr (Or.inl ⟨_, hflaw, by simp [Passes], ?_⟩)
      simp only [hk, Except.mapError]
    | member | type | range | depth =>
      have hflaw : Checkpoint.flaw? a.reading text = some f.kind := hdocument.symm
      rw [hk] at hflaw
      refine Or.inr (Or.inr ⟨_, hflaw, by simp [Passes], .fault f, ?_⟩)
      simp only [hk, Except.mapError]

/-- Without a row in the ledger, a document is no checkpoint if its first flaw is a missing key or
a text that does not make the number it should, and reading it breaks off at every other flaw: a
value of the wrong form, a number without limits, a text that goes too deep. One without a flaw
gives a checkpoint, and the progress taken up from it and what is pending are together the batch. -/
theorem load_damaged (hrow : ((a.ledgerOf s).bind fun (_, l) => l.load batch) = none)
    (hfile : s.files.readText (a.fileOf batch) = .ok text) :
    ((∃ t, a.load s batch = .error t) ↔ ∃ k, Checkpoint.flaw? a.reading text = some k ∧ ¬ Passes k) ∧
    (a.load s batch = .ok none ↔ ∃ k, Checkpoint.flaw? a.reading text = some k ∧ Passes k) ∧
    ((∃ c, a.load s batch = .ok (some c)) ↔ Checkpoint.flaw? a.reading text = none) ∧
    ∀ c, a.load s batch = .ok (some c) → ∀ count : Int,
      ((Progress.ofCheckpoint c count).done ++ (Progress.ofCheckpoint c count).pending).Perm
        ((List.range count.toNat).map Int.ofNat) := by
  rw [← and_assoc, ← and_assoc]
  refine ⟨?_, fun c _ count => Progress.ofCheckpoint_parts c count⟩
  rcases load_told hrow hfile with ⟨hflaw, c, hc⟩ | ⟨k, hflaw, hk, hl⟩ | ⟨k, hflaw, hk, t, ht⟩
  · simp [hflaw, hc]
  · simp [hflaw, hk, hl]
  · simp [hflaw, hk, ht]

def unlisted : Archive := { folder := "/p" }

def holding (text : String) : Site where
  files := ⟨[("/p", .folder), ("/p/batch-1-checkpoint.json", .file text)]⟩

/-- A checkpoint that was edited: one of its outcomes lies outside every small batch. -/
def edited : String :=
  "\x7b\"batchId\": \"1\", \"results\": [\x7b\"index\": 1, \"name\": \"A\", \"success\": true\x7d, " ++
    "\x7b\"index\": 7, \"name\": \"B\", \"success\": 0\x7d]\x7d"

theorem edited_taken : ∃ c, unlisted.load (holding edited) 1 = .ok (some c) ∧
    ((Progress.ofCheckpoint c 3).done ++ (Progress.ofCheckpoint c 3).pending).Perm [0, 1, 2] := by
  have hrow : ((unlisted.ledgerOf (holding edited)).bind fun (_, l) => l.load 1) = none := rfl
  have hfile : (holding edited).files.readText (unlisted.fileOf 1) = .ok edited := by decide +kernel
  obtain ⟨-, -, hreads, hparts⟩ := load_damaged hrow hfile
  obtain ⟨c, hc⟩ := hreads.mpr (by decide +kernel)
  exact ⟨c, hc, hparts c hc 3⟩

/-- A document that is a list is not passed over: reading it breaks off. -/
theorem list_breaks : unlisted.load (holding "[]") 1 = .error (.fault (.noKeys .list)) := by
  have hfile : (holding "[]").files.readText (unlisted.fileOf 1) = .ok "[]" := by decide +kernel
  rw [load_document rfl hfile]
  rfl

end Archive

end Retype

import Retype.Proofs.Fault
import Retype.Proofs.Run.Job
import Retype.Proofs.Run.Shards
import Retype.Run.Runner

/-!
# What runs do to a site

All that runs of a batch do is a passage from one site to another: items are migrated one
after the other, in whatever order, and between them checkpoints are saved and cleared and
reports are written. What came of the items is told in the order in which they were
migrated; an item that was interrupted has no outcome.
-/

set_option autoImplicit false

namespace Retype

/-- A way from one site to another, with the outcomes of the items that were migrated on it. -/
inductive Passage (c : Conditions) (e : Equipment) (b : Batch) :
    Site → List Outcome → Site → Prop where
  | here {s : Site} : Passage c e b s [] s
  | item {s s₁ : Site} {os : List Outcome} {i : Int} {m : Member} {files : Workspace}
      {r : Except Mishap Outcome} (h : Passage c e b s os s₁)
      (hm : b.members[i.toNat]? = some m) (hi : c.migrate s₁.files i m = (files, r)) :
      Passage c e b s (os ++ r.toOption.toList) { s₁ with files := files }
  | save {s s₁ : Site} {os : List Outcome} (h : Passage c e b s os s₁) (p : Checkpoint) :
      Passage c e b s os (e.archive.save s₁ p).1
  | clear {s s₁ : Site} {os : List Outcome} (h : Passage c e b s os s₁) :
      Passage c e b s os (e.archive.clear s₁ b.id).1
  | report {s s₁ : Site} {os : List Outcome} (h : Passage c e b s os s₁) (told : Summary) :
      Passage c e b s os { s₁ with files := (e.archive.report s₁.files b told).1 }

variable {c : Conditions} {e : Equipment} {b : Batch} {s s₁ s' : Site} {os os' : List Outcome}

theorem Passage.trans (h : Passage c e b s os s₁) (h' : Passage c e b s₁ os' s') :
    Passage c e b s (os ++ os') s' := by
  induction h' with
  | here => rwa [List.append_nil]
  | item _ hm hi ih =>
    rw [← List.append_assoc]
    exact ih.item hm hi
  | save _ p ih => exact ih.save p
  | clear _ ih => exact ih.clear
  | report _ told ih => exact ih.report told

/-- An outcome that is told is that of an item of the batch under its own index. -/
theorem Passage.outcome (h : Passage c e b s os s') {o : Outcome} (ho : o ∈ os) :
    ∃ os₁ s₁ m w', Passage c e b s os₁ s₁ ∧ b.members[o.index.toNat]? = some m ∧
      c.migrate s₁.files o.index m = (w', .ok o) := by
  induction h with
  | here => cases ho
  | @item s₁ os i m files r h hm hi ih =>
    rcases List.mem_append.mp ho with ho | ho
    · exact ih ho
    · cases r with
      | error => cases ho
      | ok o' =>
        cases List.mem_singleton.mp ho
        rw [Conditions.migrate_index hm hi]
        exact ⟨os, s₁, m, files, h, hm, hi⟩
  | save _ _ ih => exact ih ho
  | clear _ ih => exact ih ho
  | report _ _ ih => exact ih ho

/-! ## Equipment -/

/-- What a run is equipped with, limits on memory aside. -/
theorem Conditions.equip_ok {ledger : Option String} (h : c.equip ledger = .ok e) :
    Shards.countOf c.options.workers (c.config.value "workers") = .ok e.workers ∧
      Shards.countOf c.options.shardSize (c.config.value "shard_size") = .ok e.shardSize ∧
      ∃ folder, c.config.placeOf "checkpoint_dir" = .ok folder ∧
        e.archive = ⟨folder, ledger, !c.options.dryRun, c.reading⟩ := by
  obtain ⟨workers, hworkers, h⟩ := ok_bind h
  obtain ⟨size, hsize, h⟩ := ok_bind h
  obtain ⟨folder, hfolder, h⟩ := ok_bind h
  split at h <;>
  · obtain ⟨limits, -, h⟩ := ok_bind h
    cases h
    exact ⟨hworkers, hsize, folder, hfolder, rfl⟩

/-! ## Items, shards and waves -/

namespace Work

section

variable {P : Work → Prop} (hitem : ∀ k i, P k → P (item c e b k i).1)
include hitem

theorem shard_keeps {k : Work} (is : List Int) (hk : P k) : P (shard c e b k is).1 := by
  induction is generalizing k with
  | nil => exact hk
  | cons i is ih =>
    have hk₁ := hitem k i hk
    rw [shard]
    cases h : item c e b k i with
    | mk k₁ stop =>
      rw [h] at hk₁
      cases stop with
      | some => exact hk₁
      | none => exact ih hk₁

theorem wave_keeps {k : Work} (shards : List (List Int)) (hk : P k) : P (wave c e b k shards).1 := by
  induction shards generalizing k with
  | nil => exact hk
  | cons is shards ih =>
    have hk₁ := shard_keeps hitem is hk
    rw [wave]
    cases h : shard c e b k is with
    | mk k₁ stop =>
      rw [h] at hk₁
      rcases stop with _ | m | a
      · exact ih hk₁
      · -- the shards after one that is interrupted go on
        have hk₂ := ih hk₁
        cases h : wave c e b k₁ shards with
        | mk k₂ stop =>
          rw [h] at hk₂
          simp only [h]
          rcases stop with _ | m' | a' <;> exact hk₂
      · exact hk₁

theorem waves_keep {k : Work} (ws : List (List (List Int))) (hk : P k) : P (waves c e b k ws).1 := by
  induction ws generalizing k with
  | nil => exact hk
  | cons w ws ih =>
    have hk₁ := wave_keeps hitem w hk
    rw [waves]
    cases h : wave c e b k w with
    | mk k₁ stop =>
      rw [h] at hk₁
      cases stop with
      | some => exact hk₁
      | none => exact ih hk₁

theorem all_keeps {k : Work} (hk : P k) : P (all c e b k).1 := by
  unfold all
  split
  · exact hk
  · exact waves_keep hitem _ hk

end

/-- The work goes on along a passage, and commits the outcomes that came on it. -/
structure Leads (c : Conditions) (e : Equipment) (b : Batch) (k : Work) (os : List Outcome)
    (k' : Work) : Prop where
  passage : Passage c e b k.site os k'.site
  commits : k'.progress = os.foldl Progress.commit k.progress

variable {k k₁ k' : Work} {stop : Option Stop} {is : List Int}

theorem Leads.refl (k : Work) : Leads c e b k [] k := ⟨.here, rfl⟩

theorem Leads.trans (h : Leads c e b k os k₁) (h' : Leads c e b k₁ os' k') :
    Leads c e b k (os ++ os') k' :=
  ⟨h.passage.trans h'.passage, by rw [h'.commits, h.commits, List.foldl_append]⟩

/-- Work that leads somewhere; unless it stops, it has an outcome for each of some items. -/
def Does (c : Conditions) (e : Equipment) (b : Batch) (k : Work) (is : List Int) (k' : Work)
    (stop : Option Stop) : Prop :=
  ∃ os, Leads c e b k os k' ∧
    (stop = none → (∀ i ∈ is, i.toNat < b.size) → os.map (·.index) = is)

theorem Does.nothing (k : Work) : Does c e b k [] k none := ⟨[], .refl k, fun _ _ => rfl⟩

theorem Leads.does (h : Leads c e b k os k') (is : List Int) {stop : Stop} :
    Does c e b k is k' (some stop) :=
  ⟨os, h, fun hs => nomatch hs⟩

theorem Does.trans (h : Does c e b k is k₁ none) {js : List Int} (h' : Does c e b k₁ js k' stop) :
    Does c e b k (is ++ js) k' stop := by
  obtain ⟨os, hlead, hall⟩ := h
  obtain ⟨os', hlead', hall'⟩ := h'
  refine ⟨os ++ os', hlead.trans hlead', fun hr hin => ?_⟩
  rw [List.map_append, hall rfl fun i hi => hin i (List.mem_append_left _ hi),
    hall' hr fun i hi => hin i (List.mem_append_right _ hi)]

theorem item_does {i : Int} (h : item c e b k i = (k', stop)) : Does c e b k [i] k' stop := by
  unfold item at h
  cases hf : c.memoryFault? e with
  | some f =>
    simp only [hf] at h
    cases h
    exact (Leads.refl k).does [i]
  | none =>
    cases hm : b.members[i.toNat]? with
    | none =>
      simp only [hf, hm] at h
      cases h
      refine ⟨[], .refl k, fun _ hin => ?_⟩
      exact absurd (hin i List.mem_cons_self) (Nat.not_lt.mpr (List.getElem?_eq_none_iff.mp hm))
    | some m =>
      cases hi : c.migrate k.site.files i m with
      | mk files r =>
        have hpassage := (Passage.here (c := c) (e := e) (b := b) (s := k.site)).item hm hi
        cases r with
        | error mishap =>
          simp only [hf, hm, hi] at h
          cases h
          exact Leads.does ⟨hpassage, rfl⟩ [i]
        | ok o =>
          simp only [hf, hm, hi] at h
          cases h
          refine ⟨[o], ⟨hpassage.save _, rfl⟩, fun _ _ => ?_⟩
          rw [List.map_singleton, Conditions.migrate_index hm hi]

theorem shard_does (h : shard c e b k is = (k', stop)) : Does c e b k is k' stop := by
  induction is generalizing k with
  | nil =>
    cases h
    exact .nothing _
  | cons i is ih =>
    rw [shard] at h
    cases hi : item c e b k i with
    | mk k₁ stopped =>
      rw [hi] at h
      cases stopped with
      | some =>
        cases h
        obtain ⟨os, hlead, -⟩ := item_does hi
        exact hlead.does _
      | none => exact (item_does hi).trans (ih h)

theorem wave_does {shards : List (List Int)} (h : wave c e b k shards = (k', stop)) :
    Does c e b k shards.flatten k' stop := by
  induction shards generalizing k k' stop with
  | nil =>
    cases h
    exact .nothing _
  | cons is shards ih =>
    rw [wave] at h
    cases hshard : shard c e b k is with
    | mk k₁ stopped =>
      rw [hshard] at h
      rcases stopped with _ | m | a
      · exact (shard_does hshard).trans (ih h)
      · -- a shard that is interrupted leaves the others alone
        obtain ⟨os, hlead, -⟩ := shard_does hshard
        cases hrest : wave c e b k₁ shards with
        | mk k₂ stopped =>
          simp only [hrest] at h
          obtain ⟨os', hlead', -⟩ := ih hrest
          rcases stopped with _ | m' | a' <;>
          · cases h
            exact (hlead.trans hlead').does _
      · cases h
        obtain ⟨os, hlead, -⟩ := shard_does hshard
        exact hlead.does _

theorem waves_does {ws : List (List (List Int))} (h : waves c e b k ws = (k', stop)) :
    Does c e b k ws.flatten.flatten k' stop := by
  induction ws generalizing k with
  | nil =>
    cases h
    exact .nothing _
  | cons w ws ih =>
    rw [waves] at h
    rw [List.flatten_cons, List.flatten_append]
    cases hwave : wave c e b k w with
    | mk k₁ stopped =>
      rw [hwave] at h
      cases stopped with
      | some =>
        cases h
        obtain ⟨os, hlead, -⟩ := wave_does hwave
        exact hlead.does _
      | none => exact (wave_does hwave).trans (ih h)

/-- All that is pending is done, in order, unless the work stops. -/
theorem all_does (h : all c e b k = (k', stop)) : Does c e b k k.progress.pending k' stop := by
  unfold all at h
  cases hws : Shards.wavesBy e.workers e.shardSize k.progress.pending with
  | error f =>
    rw [hws] at h
    cases h
    exact (Leads.refl k).does _
  | ok ws =>
    rw [hws] at h
    obtain ⟨workers, size, -, -, rfl⟩ := Shards.wavesBy_ok hws
    have hall := waves_does h
    rwa [Shards.waves_flatten] at hall

end Work

/-! ## Runs -/

namespace Runner

theorem conclude_passage (r : Runner) (k : Work) :
    Passage c e b k.site [] (conclude c e r b k).2.1 := by
  have hsave := (Passage.here (c := c) (e := e) (b := b) (s := k.site)).save
    (k.progress.checkpoint .null c.now)
  unfold conclude
  cases h : e.archive.save k.site (k.progress.checkpoint .null c.now) with
  | mk s₁ failure =>
    rw [h] at hsave
    cases failure with
    | some failure => exact hsave
    | none =>
      have hfiles : ∀ {files : Workspace} {told : Summary} {r : Except OsError Summary},
          e.archive.report s₁.files b told = (files, r) →
            Passage c e b k.site [] { s₁ with files := files } := fun {_ told _} hr => by
        have hreport := hsave.report told
        rwa [hr] at hreport
      simp only
      split
      · next hr => exact hfiles hr
      · next hr => exact hfiles hr

theorem runBatch_passage (r : Runner) (s : Site) (p : Progress) :
    ∃ os, Passage c e b s os (runBatch c e r s b p).2.1 := by
  unfold runBatch
  split
  · exact ⟨[], .here⟩
  · cases h : Work.all c e b ⟨s, p⟩ with
    | mk k stop =>
      obtain ⟨os, ⟨hpassage, -⟩, -⟩ := Work.all_does h
      cases stop with
      | none => exact ⟨_, hpassage.trans (conclude_passage _ k)⟩
      | some stop => exact ⟨os, hpassage.save _⟩

theorem start_passage (s : Site) : Passage c e b s [] (start c e s b).1 := by
  unfold start
  split
  · cases e.archive.load s b.id with
    | error t => exact .here
    | ok kept => cases kept <;> exact .here
  · have hclear := (Passage.here (c := c) (e := e) (b := b) (s := s)).clear
    cases h : e.archive.clear s b.id with
    | mk s₁ failure =>
      rw [h] at hclear
      cases failure <;> exact hclear

/-- Whatever comes of a run, all that it did to its site is a passage. -/
theorem run_passage {id : Int} (hb : find c s id = .ok b) (r : Runner) :
    ∃ os, Passage c e b s os (run c e r s id).2.1 := by
  unfold run
  split
  · exact ⟨[], .here⟩
  · rw [hb]
    have hstart := start_passage (c := c) (e := e) (b := b) s
    simp only
    cases h : start c e s b with
    | mk s₁ p =>
      rw [h] at hstart
      cases p with
      | error failure => exact ⟨[], hstart⟩
      | ok p =>
        obtain ⟨os, hrun⟩ := runBatch_passage (c := c) (e := e) (b := b) { r with phase := _ } s₁ p
        exact ⟨_, hstart.trans hrun⟩

end Runner

end Retype

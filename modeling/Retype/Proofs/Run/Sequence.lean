import Retype.Proofs.Run.Job
import Retype.Proofs.Run.Shards
import Retype.Run.Runner

/-!
# Working on one item after the other

A run that works on its items one after the other, commits each outcome at once and
saves a checkpoint after it is one of the courses that runs may take.
-/

set_option autoImplicit false

namespace Retype

namespace Course

section

variable {ω J : Type} {L : Labour ω J} {s t : Course ω J}

theorem Shift.runs (h : Shift L s t) : Runs L s t := .single (Or.inl h)

theorem Toil.runs (h : Toil L s t) : Runs L s t := Shift.runs (.toil h)

theorem Move.runs (h : Move s t) : Runs L s t := .single (Or.inr h)

/-- What a run is after it took an outcome, committed it and saved a checkpoint. -/
def filed (s : Course ω J) (o : Outcome) (os : List Outcome) : Course ω J :=
  { s with
    control := .waiting
    outbox := os
    progress := s.progress.commit o
    commits := s.commits ++ [o]
    vault := s.vault.reflect ((s.progress.commit o).checkpoint .null "")
    saved := (s.progress.commit o).checkpoint .null "" :: s.saved }

variable (L)

/-- Without a ledger an outcome that lies posted can be filed. -/
theorem filed_runs (hc : s.control = .waiting) {o : Outcome} {os : List Outcome}
    (ho : s.outbox = o :: os) (he : s.enabled = true) (hl : s.vault.ledger = none) :
    Runs L s (s.filed o os) := by
  have hrec : s.vault.record ((s.progress.commit o).checkpoint .null "") = some s.vault := by
    rw [Vault.record, hl]
  have hsome : s.vault.ledger.isSome = false := by rw [hl]; rfl
  have h₁ : Move s { s with control := .holding o, outbox := os } := .take hc ho
  have h₂ := Move.commit (s := { s with control := .holding o, outbox := os }) rfl
  have h₃ := @Move.record _ _ (committed { s with control := .holding o, outbox := os } o .drain)
    .drain .null "" s.vault rfl he hrec
  simp only [committed, hsome, Bool.false_eq_true, if_false] at h₂ h₃
  have h₄ := @Move.reflect _ _
    { s with
      control := .reflecting .drain ((s.progress.commit o).checkpoint .null "")
      outbox := os
      progress := s.progress.commit o
      commits := s.commits ++ [o] } .drain _ rfl
  exact ((h₁.runs.trans h₂.runs).trans h₃.runs).trans h₄.runs

/-- A wave whose shards are all finished can be left. -/
theorem left_runs (hc : s.control = .waiting) (ho : s.outbox = [])
    (hw : ∀ w ∈ s.workers, w.lot = .finished) :
    Runs L s { s with control := .between } := by
  have hscan : ∀ n ≤ s.workers.length,
      Runs L s { s with control := .scanning n } := by
    intro n
    induction n with
    | zero => exact fun _ => Move.runs (.idle hc ho)
    | succ n ih =>
      intro hn
      have hget : s.workers[n]? = some s.workers[n] := List.getElem?_eq_getElem hn
      refine (ih (by omega)).tail (Or.inr ?_)
      refine @Move.seen _ _ { s with control := .scanning n } n s.workers[n] rfl hget ?_
      rw [hw _ (List.getElem_mem hn)]
      simp
  refine (hscan _ (Nat.le_refl _)).tail (Or.inr ?_)
  refine @Move.close _ _ { s with control := .scanning s.workers.length } _ rfl (Nat.le_refl _) ho ?_
  intro w hmem
  rw [hw w hmem]
  simp

/-- Without a ledger a run can be interrupted while its shards are on their way. -/
theorem interrupted_runs (hc : s.control = .waiting) (ho : s.outbox = []) (he : s.enabled = true)
    (hl : s.vault.ledger = none) : Runs L s { s with
      control := .down
      stopped := true
      vault := s.vault.reflect (s.progress.checkpoint .null "")
      saved := s.progress.checkpoint .null "" :: s.saved } := by
  have hrec : s.vault.record (s.progress.checkpoint .null "") = some s.vault := by
    rw [Vault.record, hl]
  have hsome : s.vault.ledger.isSome = false := by rw [hl]; rfl
  have h₁ : Move s { s with control := .salvaging, stopped := true } := .interrupt (by rw [hc]; trivial)
  have h₂ := @Move.salvaged _ _ { s with control := .salvaging, stopped := true } rfl ho
  have h₃ := @Move.record _ _ { s with control := .recording .fault, stopped := true } .fault .null ""
    s.vault rfl he hrec
  simp only [hsome, Bool.false_eq_true, if_false] at h₃
  have h₄ := @Move.reflect _ _
    { s with
      control := .reflecting .fault (s.progress.checkpoint .null "")
      stopped := true } .fault _ rfl
  exact ((h₁.runs.trans h₂.runs).trans h₃.runs).trans h₄.runs

variable {L}

/-- Without a ledger a run that has nothing left to do can be completed. -/
theorem Runs.completed (h : Runs L s t) (hc : t.control = .between) (hw : t.waves = [])
    (he : t.enabled = true) (hl : t.vault.ledger = none) :
    ∃ u, Runs L s u ∧ u.control = .completed ∧ u.progress = t.progress ∧ u.world = t.world := by
  have hrec : t.vault.record (t.progress.checkpoint .null "") = some t.vault := by
    rw [Vault.record, hl]
  have h₁ : Move t { t with control := .recording .conclude } := .last hc hw
  have h₂ := @Move.record _ _ { t with control := .recording .conclude } .conclude .null ""
    t.vault rfl he hrec
  have h₃ := @Move.reflect _ _
    { t with
      control := .reflecting .conclude (t.progress.checkpoint .null "")
      saved := if t.vault.ledger.isSome then t.progress.checkpoint .null "" :: t.saved
        else t.saved } .conclude _ rfl
  exact ⟨_, ((h.trans h₁.runs).trans h₂.runs).trans h₃.runs, rfl, rfl, rfl⟩

end

end Course

namespace Conditions

open Course Job

variable {c : Conditions} {b : Batch} {held : String → Prop}

section

variable {s : Course Workspace Job} {l r : List (Worker Job)} {rest : List Int} {i : Int}

/-- A shard can work on its next item without a break, as far as it gets. -/
theorem begun_runs (hw : s.workers = l ++ ⟨i :: rest, none, .working⟩ :: r)
    {z : Workspace × Job} (hz : c.Through b (s.world, untouched i) z) :
    Runs (c.labour b held) s
      { s with world := z.1, workers := l ++ ⟨rest, some z.2, .working⟩ :: r } := by
  induction hz with
  | refl => exact Toil.runs (.begin (L := c.labour b held) hw)
  | @tail y z _ hstep ih =>
    refine ih.tail (Or.inl (.toil ?_))
    exact @Toil.work _ _ (c.labour b held)
      { s with world := y.1, workers := l ++ ⟨rest, some y.2, .working⟩ :: r } l r rest y.2 z.1 z.2
      rfl (Works.step hstep)

theorem worked_runs {m : Member} {w' : Workspace} {o : Outcome}
    (hw : s.workers = l ++ ⟨i :: rest, none, .working⟩ :: r) (hm : b.members[i.toNat]? = some m)
    (h : c.migrate s.world i m = (w', .ok o)) : Runs (c.labour b held) s
      { s with
        world := w'
        workers := l ++ ⟨rest, none, .working⟩ :: r
        outbox := s.outbox ++ [o]
        posted := s.posted ++ [o] } := by
  refine (begun_runs hw (migrate_through hm h)).tail (Or.inl (.toil ?_))
  exact @Toil.post _ _ (c.labour b held)
    { s with world := w', workers := l ++ ⟨rest, some (done o), .working⟩ :: r } l r rest _ o rfl rfl

end

/-! ## The run of a program that works alone -/

/-- A course stands where a run stands that works alone. -/
structure Follows (b : Batch) (s : Course Workspace Job) (k : Work) : Prop where
  own : k.progress.batch = b.id
  world : s.world = k.site.files
  progress : s.progress = k.progress
  control : s.control = .waiting
  outbox : s.outbox = []
  enabled : s.enabled = true
  ledger : s.vault.ledger = none

variable {e : Equipment} {P : Workspace → Prop}

/-- What items and checkpoints do to the files that a run meets. -/
structure Minds (c : Conditions) (b : Batch) (e : Equipment) (held : String → Prop)
    (P : Workspace → Prop) : Prop where
  migrates : ∀ {w w' i m o}, P w → b.members[i.toNat]? = some m →
    c.migrate w i m = (w', .ok o) → P w'
  saves : ∀ {s : Site} {p : Checkpoint}, p.batch = b.id → P s.files → P (e.archive.save s p).1.files ∧
    ∀ k, held k → (e.archive.save s p).1.files.entryAt? k = s.files.entryAt? k

theorem item_follows (hp : Minds c b e held P) {s : Course Workspace Job} {k k' : Work}
    (hs : Follows b s k) (hk : P k.site.files) {l r : List (Worker Job)} {rest : List Int} {i : Int}
    (hw : s.workers = l ++ ⟨i :: rest, none, .working⟩ :: r) (hi : i.toNat < b.size)
    (h : Work.item c e b k i = (k', none)) :
    ∃ t, Runs (c.labour b held) s t ∧ Follows b t k' ∧ P k'.site.files ∧
      t.workers = l ++ ⟨rest, none, .working⟩ :: r ∧ t.waves = s.waves ∧ t.stopped = s.stopped := by
  have hm : b.members[i.toNat]? = some b.members[i.toNat] := List.getElem?_eq_getElem hi
  unfold Work.item at h
  rw [hm] at h
  cases hf : c.memoryFault? e with
  | some f =>
    simp only [hf] at h
    cases h
  | none =>
    simp only [hf] at h
    cases hmig : c.migrate k.site.files i b.members[i.toNat] with
    | mk files res =>
      cases res with
      | error mishap =>
        simp only [hmig] at h
        cases h
      | ok o =>
        simp only [hmig, Work.commit] at h
        obtain ⟨rfl, -⟩ := Prod.mk.inj h
        have hfiles := hp.migrates hk hm hmig
        obtain ⟨hsaved, hsame⟩ := @Minds.saves _ _ _ _ _ hp { k.site with files := files }
          ((k.progress.commit o).checkpoint .null c.now) hs.own hfiles
        have h₁ : Runs (c.labour b held) s _ :=
          worked_runs hw hm (hs.world ▸ hmig)
        have h₂ := filed_runs (c.labour b held)
          (s := { s with
            world := files
            workers := l ++ ⟨rest, none, .working⟩ :: r
            outbox := s.outbox ++ [o]
            posted := s.posted ++ [o] }) hs.control
          (show s.outbox ++ [o] = o :: [] by rw [hs.outbox]; rfl) hs.enabled hs.ledger
        refine ⟨_, (h₁.trans h₂).tail (Or.inl (.drift hsame)), ?_, hsaved, rfl, rfl, rfl⟩
        exact ⟨hs.own, rfl, by rw [← hs.progress]; rfl, rfl, rfl, hs.enabled, hs.ledger⟩

theorem shard_follows (hp : Minds c b e held P) {is : List Int} (his : ∀ i ∈ is, i.toNat < b.size)
    {s : Course Workspace Job} {k k' : Work} (hs : Follows b s k) (hk : P k.site.files)
    {l r : List (Worker Job)} (hw : s.workers = l ++ ⟨is, none, .working⟩ :: r)
    (h : Work.shard c e b k is = (k', none)) :
    ∃ t, Runs (c.labour b held) s t ∧ Follows b t k' ∧ P k'.site.files ∧
      t.workers = l ++ ⟨[], none, .finished⟩ :: r ∧ t.waves = s.waves ∧ t.stopped = s.stopped := by
  induction is generalizing s k with
  | nil =>
    rw [Work.shard] at h
    obtain ⟨rfl, -⟩ := Prod.mk.inj h
    refine ⟨_, Toil.runs (.finish hw (Or.inl rfl)), ?_, hk, rfl, rfl, rfl⟩
    exact ⟨hs.own, hs.world, hs.progress, hs.control, hs.outbox, hs.enabled, hs.ledger⟩
  | cons i is ih =>
    rw [Work.shard] at h
    cases hi : Work.item c e b k i with
    | mk k₁ stop =>
      rw [hi] at h
      cases stop with
      | some => cases h
      | none =>
        obtain ⟨t₁, h₁, hf₁, hk₁, hw₁, hwaves₁, hstop₁⟩ := item_follows hp hs hk hw (his i List.mem_cons_self) hi
        obtain ⟨t, ht, hf, hk', hw', hwaves, hstop⟩ := ih
          (fun j hj => his j (List.mem_cons_of_mem i hj)) hf₁ hk₁ hw₁ h
        exact ⟨t, h₁.trans ht, hf, hk', hw', hwaves.trans hwaves₁, hstop.trans hstop₁⟩

theorem wave_follows (hp : Minds c b e held P) {shards : List (List Int)}
    (his : ∀ is ∈ shards, ∀ i ∈ is, i.toNat < b.size) {s : Course Workspace Job} {k k' : Work}
    (hs : Follows b s k) (hk : P k.site.files) {l : List (Worker Job)}
    (hw : s.workers = l ++ shards.map fun is => { rest := is })
    (hl : ∀ w ∈ l, w.lot = .finished) (h : Work.wave c e b k shards = (k', none)) :
    ∃ t, Runs (c.labour b held) s t ∧ Follows b t k' ∧ P k'.site.files ∧
      (∀ w ∈ t.workers, w.lot = .finished) ∧ t.waves = s.waves ∧ t.stopped = s.stopped := by
  induction shards generalizing s k l with
  | nil =>
    rw [Work.wave] at h
    obtain ⟨rfl, -⟩ := Prod.mk.inj h
    rw [List.map_nil, List.append_nil] at hw
    exact ⟨s, .refl, hs, hk, hw ▸ hl, rfl, rfl⟩
  | cons is shards ih =>
    rw [Work.wave] at h
    cases hshard : Work.shard c e b k is with
    | mk k₁ stop =>
      rw [hshard] at h
      rcases stop with _ | m | a
      · obtain ⟨t₁, h₁, hf₁, hk₁, hw₁, hwaves₁, hstop₁⟩ := shard_follows hp
          (his is List.mem_cons_self) hs hk hw hshard
        have hl' : ∀ w ∈ l ++ [⟨[], none, .finished⟩], w.lot = .finished := by
          intro w hmem
          rcases List.mem_append.mp hmem with hmem | hmem
          · exact hl w hmem
          · cases List.mem_singleton.mp hmem
            rfl
        obtain ⟨t, ht, hf, hk', hw', hwaves, hstop⟩ := ih
          (fun js hjs => his js (List.mem_cons_of_mem is hjs)) hf₁ hk₁ (by rw [hw₁]; simp) hl' h
        exact ⟨t, h₁.trans ht, hf, hk', hw', hwaves.trans hwaves₁, hstop.trans hstop₁⟩
      · cases hrest : Work.wave c e b k₁ shards with
        | mk k₂ stop =>
          simp only [hrest] at h
          rcases stop with _ | m | a <;> cases h
      · cases h

theorem waves_follow (hp : Minds c b e held P) {ws : List (List (List Int))}
    (his : ∀ w ∈ ws, ∀ is ∈ w, ∀ i ∈ is, i.toNat < b.size) {s : Course Workspace Job}
    {k k' : Work} (hs : Follows b { s with control := .waiting } k) (hc : s.control = .between)
    (hk : P k.site.files) (hw : s.waves = ws) (h : Work.waves c e b k ws = (k', none)) :
    ∃ t, Runs (c.labour b held) s t ∧ t.control = .between ∧ t.waves = [] ∧
      Follows b { t with control := .waiting } k' ∧ P k'.site.files := by
  induction ws generalizing s k with
  | nil =>
    rw [Work.waves] at h
    obtain ⟨rfl, -⟩ := Prod.mk.inj h
    exact ⟨s, .refl, hc, hw, hs, hk⟩
  | cons w ws ih =>
    rw [Work.waves] at h
    cases hwave : Work.wave c e b k w with
    | mk k₁ stop =>
      rw [hwave] at h
      cases stop with
      | some => cases h
      | none =>
        have h₀ : Runs (c.labour b held) s _ := Move.runs (.wave hc hw)
        obtain ⟨t₁, h₁, hf₁, hk₁, hfin₁, hwaves₁, -⟩ := wave_follows (l := []) hp (his w List.mem_cons_self)
          (s := { s with control := .waiting, waves := ws, workers := w.map fun is => { rest := is } })
          ⟨hs.own, hs.world, hs.progress, rfl, hs.outbox, hs.enabled, hs.ledger⟩ hk rfl (by simp) hwave
        have h₂ := left_runs (c.labour b held) hf₁.control hf₁.outbox hfin₁
        obtain ⟨t, ht, hc', hw', hf, hk'⟩ := ih (fun w' hw' => his w' (List.mem_cons_of_mem w hw'))
          (s := { t₁ with control := .between })
          ⟨hf₁.own, hf₁.world, hf₁.progress, rfl, hf₁.outbox, hf₁.enabled, hf₁.ledger⟩ rfl hk₁ hwaves₁ h
        exact ⟨t, ((h₀.trans h₁).trans h₂).trans ht, hc', hw', hf, hk'⟩

theorem mem_waves {ws : List (List (List Int))} {i : Int} :
    i ∈ ws.flatten.flatten ↔ ∃ w ∈ ws, ∃ is ∈ w, i ∈ is := by
  simp only [List.mem_flatten]
  constructor
  · rintro ⟨is, ⟨w, hw, his⟩, hi⟩
    exact ⟨w, hw, is, his, hi⟩
  · rintro ⟨w, hw, is, his, hi⟩
    exact ⟨is, ⟨w, hw, his⟩, hi⟩

/-- A run may go down when an item was migrated and its outcome is not committed yet. -/
theorem downed_reachable {s : Course Workspace Job} (hc : s.control = .down)
    (hkept : s.vault.load b.id = .ok none) {workers size i : Int} {is : List Int}
    {before after : List (List Int)} {ws : List (List (List Int))}
    (hw : Shards.waves workers size (Progress.resumed b.id b.size none).pending =
      (before ++ (i :: is) :: after) :: ws) {m : Member} {w' : Workspace} {o : Outcome}
    (hm : b.members[i.toNat]? = some m) (h : c.migrate s.world i m = (w', .ok o)) :
    ∃ t, ReachableApart (c.labour b held) b.id b.size s t ∧ t.control = .down ∧ t.world = w' ∧
      t.vault = s.vault := by
  have h₀ : ReachableApart (c.labour b held) b.id b.size s
      (s.started (.resumed b.id b.size none) true workers size []) :=
    .next .here (.start (.resume hc hkept (Or.inl rfl))) (apart_of_none rfl)
  have h₁ : Runs (c.labour b held) (s.started (.resumed b.id b.size none) true workers size []) _ :=
    Move.runs (.wave rfl hw)
  have h₂ := h₁.trans (worked_runs (l := before.map fun is => { rest := is })
    (r := after.map fun is => { rest := is }) (List.map_append ..) hm h)
  exact ⟨_, (h₀.runs rfl (h₂.trans (Move.runs .crash))).1, rfl, rfl, rfl⟩

/-- A run may be interrupted, and saved, while its only shard is on its way, which lives on. -/
theorem interrupted_reachable {s : Course Workspace Job} (hc : s.control = .down)
    (hkept : s.vault.load b.id = .ok none) (hl : s.vault.ledger = none)
    {workers size i : Int} {ws : List (List (List Int))}
    (hw : Shards.waves workers size (Progress.resumed b.id b.size none).pending = [[i]] :: ws)
    {z : Workspace × Job} (hz : c.Through b (s.world, untouched i) z) :
    ∃ t, Reachable (c.labour b held) b.id b.size s t ∧ t.control = .down ∧ t.world = z.1 ∧
      t.workers = [⟨[], some z.2, .working⟩] ∧ t.survivors = [] ∧
      t.vault = s.vault.reflect ((Progress.resumed b.id b.size none).checkpoint .null "") := by
  have h₀ : Reachable (c.labour b held) b.id b.size s
      (s.started (.resumed b.id b.size none) true workers size []) :=
    .next .here (.start (.resume hc hkept (Or.inl rfl)))
  have h₁ : Runs (c.labour b held) (s.started (.resumed b.id b.size none) true workers size []) _ :=
    Move.runs (.wave rfl hw)
  have h₂ := h₁.trans (begun_runs (l := []) rfl hz)
  exact ⟨_, h₀.runs (h₂.trans (interrupted_runs _ rfl rfl rfl hl)), rfl, rfl, rfl, rfl, rfl⟩

/-- Where nothing is kept of a batch, a run that works alone and goes through is one of the
courses that runs may take from there on. -/
theorem run_follows (hp : Minds c b e held P) {s : Course Workspace Job} (hc : s.control = .down)
    (hkept : s.vault.load b.id = .ok none) (hl : s.vault.ledger = none) (hv : P s.world)
    {ledgers : List (String × Ledger)} {k' : Work}
    (h : Work.all c e b ⟨⟨s.world, ledgers⟩, { batch := b.id, count := b.size }⟩ = (k', none)) :
    ∃ t, ReachableApart (c.labour b held) b.id b.size s t ∧
      t.control = .completed ∧ t.progress = k'.progress ∧ t.world = k'.site.files := by
  unfold Work.all at h
  cases hws : Shards.wavesBy e.workers e.shardSize (Progress.pending { batch := b.id, count := b.size }) with
  | error f =>
    rw [hws] at h
    cases h
  | ok ws =>
    rw [hws] at h
    obtain ⟨workers, size, -, -, rfl⟩ := Shards.wavesBy_ok hws
    have h₀ : ReachableApart (c.labour b held) b.id b.size s
        (s.started (.resumed b.id b.size none) true workers size []) :=
      .next .here (.start (.resume hc hkept (Or.inl rfl))) (apart_of_none rfl)
    have his : ∀ w ∈ Shards.waves workers size (Progress.resumed b.id b.size none).pending,
        ∀ is ∈ w, ∀ i ∈ is, i.toNat < b.size := by
      intro w hw is his i hi
      have hmem := mem_waves.mpr ⟨w, hw, is, his, hi⟩
      rw [Shards.waves_flatten] at hmem
      have hlt : i < (b.size : Int) := (Progress.mem_pending.mp hmem).1.2
      have hle := (Progress.mem_pending.mp hmem).1.1
      omega
    obtain ⟨t, ht, hc, hw, hf, -⟩ := waves_follow hp his
      (s := s.started (.resumed b.id b.size none) true workers size [])
      ⟨rfl, rfl, rfl, rfl, rfl, rfl, hl⟩ rfl hv rfl h
    obtain ⟨t', ht', hc', hprogress, hworld⟩ := ht.completed hc hw hf.enabled hf.ledger
    exact ⟨t', (h₀.runs rfl ht').1, hc', hprogress.trans hf.progress, hworld.trans hf.world⟩

/-! ## A run that saves nothing -/

/-- Items are migrated one after the other. -/
inductive Migrates (c : Conditions) (b : Batch) :
    Workspace → List Int → List Outcome → Workspace → Prop where
  | done {w : Workspace} : Migrates c b w [] [] w
  | next {w w₁ w' : Workspace} {i : Int} {is : List Int} {m : Member} {o : Outcome}
      {os : List Outcome} (hm : b.members[i.toNat]? = some m)
      (hi : c.migrate w i m = (w₁, .ok o)) (hrest : Migrates c b w₁ is os w') :
      Migrates c b w (i :: is) (o :: os) w'

variable {w w' : Workspace} {is js : List Int} {os : List Outcome}

theorem Migrates.indices (h : Migrates c b w is os w') : os.map (·.index) = is := by
  induction h with
  | done => rfl
  | next hm hi _ ih => rw [List.map_cons, migrate_index hm hi, ih]

theorem Migrates.split (h : Migrates c b w (is ++ js) os w') : ∃ w₁ os₁ os₂,
    os = os₁ ++ os₂ ∧ Migrates c b w is os₁ w₁ ∧ Migrates c b w₁ js os₂ w' := by
  induction is generalizing w os with
  | nil => exact ⟨w, [], os, rfl, .done, h⟩
  | cons i is ih =>
    cases h with
    | next hm hi hrest =>
      obtain ⟨w₁, os₁, os₂, rfl, h₁, h₂⟩ := ih hrest
      exact ⟨w₁, _ :: os₁, os₂, rfl, .next hm hi h₁, h₂⟩

def unsaved : Equipment := ⟨.int 1, .int 10, ⟨"/p/checkpoints", none, false, .standard⟩, none⟩

theorem minds_unsaved (c : Conditions) (b : Batch) (held : String → Prop) :
    Minds c b unsaved held fun _ => True :=
  ⟨fun _ _ _ => trivial, fun _ _ => ⟨trivial, fun _ _ => rfl⟩⟩

theorem Migrates.shard (h : Migrates c b w is os w') (p : Progress) :
    Work.shard c unsaved b ⟨⟨w, []⟩, p⟩ is = (⟨⟨w', []⟩, os.foldl Progress.commit p⟩, none) := by
  induction h generalizing p with
  | done => rfl
  | @next w w₁ w' i is m o os hm hi hrest ih =>
    have hitem : Work.item c unsaved b ⟨⟨w, []⟩, p⟩ i = (⟨⟨w₁, []⟩, p.commit o⟩, none) := by
      have hcalm : c.memoryFault? unsaved = none := rfl
      simp only [Work.item, hcalm, hm, hi]
      rfl
    rw [Work.shard, hitem, List.foldl_cons]
    exact ih (p.commit o)

theorem Migrates.wave {shards : List (List Int)} (h : Migrates c b w shards.flatten os w')
    (p : Progress) : Work.wave c unsaved b ⟨⟨w, []⟩, p⟩ shards =
      (⟨⟨w', []⟩, os.foldl Progress.commit p⟩, none) := by
  induction shards generalizing w os p with
  | nil =>
    cases h
    rfl
  | cons is shards ih =>
    obtain ⟨w₁, os₁, os₂, rfl, h₁, h₂⟩ := Migrates.split (List.flatten_cons ▸ h)
    rw [Work.wave, h₁.shard p, List.foldl_append]
    exact ih h₂ _

theorem Migrates.waves {ws : List (List (List Int))} (h : Migrates c b w ws.flatten.flatten os w')
    (p : Progress) : Work.waves c unsaved b ⟨⟨w, []⟩, p⟩ ws =
      (⟨⟨w', []⟩, os.foldl Progress.commit p⟩, none) := by
  induction ws generalizing w os p with
  | nil =>
    cases h
    rfl
  | cons shards ws ih =>
    rw [List.flatten_cons, List.flatten_append] at h
    obtain ⟨w₁, os₁, os₂, rfl, h₁, h₂⟩ := h.split
    rw [Work.waves, h₁.wave p, List.foldl_append]
    exact ih h₂ _

theorem Migrates.all (h : Migrates c b w ((List.range b.size).map Int.ofNat) os w') :
    Work.all c unsaved b ⟨⟨w, []⟩, { batch := b.id, count := b.size }⟩ =
      (⟨⟨w', []⟩, os.foldl Progress.commit { batch := b.id, count := b.size }⟩, none) := by
  have hpending : Progress.pending { batch := b.id, count := (b.size : Int) } =
      (List.range b.size).map Int.ofNat := by
    simp [Progress.pending, Keyed.has, Keyed.get?]
  rw [← Shards.waves_flatten 1 10 ((List.range b.size).map Int.ofNat)] at h
  rw [← h.waves { batch := b.id, count := b.size }, Work.all, hpending]
  rfl

theorem Migrates.ordered (h : Migrates c b w ((List.range b.size).map Int.ofNat) os w') :
    (os.foldl Progress.commit { batch := b.id, count := b.size }).ordered = os := by
  refine Progress.ordered_commits ?_
  rw [h.indices, List.pairwise_map]
  exact List.pairwise_lt_range.imp fun hlt => by simpa using hlt

theorem Migrates.follows {s : Course Workspace Job} (hc : s.control = .down)
    (hkept : s.vault.load b.id = .ok none) (hl : s.vault.ledger = none)
    (h : Migrates c b s.world ((List.range b.size).map Int.ofNat) os w') :
    ∃ t, ReachableApart (c.labour b held) b.id b.size s t ∧ t.control = .completed ∧
      t.progress.ordered = os ∧ t.world = w' := by
  obtain ⟨t, ht, hcontrol, hprogress, hworld⟩ := run_follows (minds_unsaved c b held) hc hkept hl
    trivial h.all
  exact ⟨t, ht, hcontrol, by rw [hprogress, h.ordered], hworld⟩

end Conditions

end Retype

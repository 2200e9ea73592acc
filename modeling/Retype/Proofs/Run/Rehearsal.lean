import Retype.Command.Execution
import Retype.Proofs.Run.Inheritance

/-!
# Rehearsals

A dry run goes through the stages of its items up to writing, and everything after that is
left out: it changes neither the files of its site nor its ledgers, whatever comes of it and
however its shards take turns, and a written target is never checked. One that completes
still tells an outcome for each item.
-/

set_option autoImplicit false

namespace Retype

/-! ## Without a check of targets -/

/-- Conditions that differ at most in the check of written targets: in what the checker says,
and in the mishaps before it. -/
structure Conditions.UpToCheck (c c' : Conditions) : Prop where
  config : c'.config = c.config
  options : c'.options = c.options
  parse : c'.parse = c.parse
  upset : ∀ stage path, stage ≠ .verify → c'.upset stage path = c.upset stage path
  now : c'.now = c.now
  octets : c'.octets = c.octets
  reading : c'.reading = c.reading

namespace Conditions.UpToCheck

variable {c c' : Conditions} {w : Workspace} {stage : Stage} {path : String}

theorem enter (h : c.UpToCheck c') (hs : stage ≠ .verify) : c'.enter stage path = c.enter stage path := by
  simp only [Conditions.enter, h.upset stage path hs]

theorem attempt {α : Type} (h : c.UpToCheck c') (hs : stage ≠ .verify) (work : Except Trouble α) :
    c'.attempt stage path work = c.attempt stage path work := by
  simp only [Conditions.attempt, h.enter hs]

theorem load (h : c.UpToCheck c') : c'.load w path = c.load w path := by
  simp only [Conditions.load, h.enter (show Stage.load ≠ .verify by decide), h.config, h.parse]

theorem prepare (h : c.UpToCheck c') : c'.prepare w path = c.prepare w path := by
  simp only [Conditions.prepare, Conditions.prepareUnit, occupied?, h.load, h.config, h.options,
    h.attempt (show Stage.analyze ≠ .verify by decide),
    h.attempt (show Stage.synthesize ≠ .verify by decide),
    h.attempt (show Stage.transform ≠ .verify by decide)]

theorem migrate (h : c.UpToCheck c') (hdry : c.options.dryRun = true) (i : Int) (m : Member) :
    c'.migrate w i m = c.migrate w i m := by
  simp only [Conditions.migrate, begun, finish, h.prepare, h.options, hdry, if_pos,
    h.enter (show Stage.write ≠ .verify by decide)]

end Conditions.UpToCheck

/-! ## Items -/

namespace Conditions

variable {c : Conditions} {b : Batch} {w w' : Workspace}

theorem migrate_dry (hdry : c.options.dryRun = true) {i : Int} {m : Member}
    {r : Except Mishap Outcome} (h : c.migrate w i m = (w', r)) : w' = w := by
  have hwrites : ∀ path t, ¬c.Reaches w m path t := by
    intro path t hr
    rw [hr.writes] at hdry
    cases hdry
  cases migrate_ends h with
  | early => rfl
  | unseen => rfl
  | yields => rfl
  | writes hr => exact absurd hr (hwrites _ _)

end Conditions

/-! ## Archives -/

namespace Archive

variable {a : Archive} (ha : a.enabled = false) (s : Site)
include ha

theorem save_disabled (p : Checkpoint) : a.save s p = (s, none) := by
  rw [save, ha]
  rfl

theorem clear_disabled (batch : Int) : a.clear s batch = (s, none) := by
  rw [clear, ha]
  rfl

theorem saveFault_disabled (p : Progress) (m : Mishap) (time : String) : a.saveFault s p m time = s := by
  rw [saveFault, save_disabled ha]

end Archive

theorem Archive.report_dry (a : Archive) (w : Workspace) (b : Batch) {told : Summary}
    (h : told.dryRun = true) : a.report w b told = (w, .ok told) := by
  rw [report, h, Bool.or_true, if_pos rfl]

theorem Conditions.equip_disabled {c : Conditions} {ledger : Option String} {e : Equipment}
    (hdry : c.options.dryRun = true) (h : c.equip ledger = .ok e) : e.archive.enabled = false := by
  obtain ⟨-, -, folder, -, harchive⟩ := equip_ok h
  rw [harchive]
  exact congrArg (!·) hdry

/-! ## Shards and waves -/

namespace Work

variable {c c' : Conditions} {e : Equipment} {b : Batch}

theorem commit_dry (he : e.archive.enabled = false) (k : Work) (o : Outcome) :
    commit c e k o = ({ k with progress := k.progress.commit o }, none) := by
  rw [commit, Archive.save_disabled he]

section

variable (hdry : c.options.dryRun = true) (he : e.archive.enabled = false)
include hdry he

theorem item_site (k : Work) (i : Int) : (item c e b k i).1.site = k.site := by
  unfold item
  split
  · rfl
  · rfl
  · next m _ _ =>
    cases h : c.migrate k.site.files i m with
    | mk files r =>
      cases Conditions.migrate_dry hdry h
      cases r with
      | error => rfl
      | ok o => simp only [commit_dry he]

theorem all_site (k : Work) : (all c e b k).1.site = k.site :=
  all_keeps (P := fun k' => k'.site = k.site) (fun k' i hk => (item_site hdry he k' i).trans hk) rfl

end

section

variable (h : c.UpToCheck c') (hdry : c.options.dryRun = true)
include h hdry

theorem item_unchecked (k : Work) (i : Int) : item c' e b k i = item c e b k i := by
  simp only [item, commit, Conditions.memoryFault?, h.octets, h.now, h.migrate hdry]

theorem shard_unchecked (k : Work) (is : List Int) : shard c' e b k is = shard c e b k is := by
  induction is generalizing k with
  | nil => rfl
  | cons i is ih => simp only [shard, item_unchecked h hdry, ih]

theorem wave_unchecked (k : Work) (shards : List (List Int)) :
    wave c' e b k shards = wave c e b k shards := by
  induction shards generalizing k with
  | nil => rfl
  | cons is shards ih => simp only [wave, shard_unchecked h hdry, ih]

theorem waves_unchecked (k : Work) (ws : List (List (List Int))) :
    waves c' e b k ws = waves c e b k ws := by
  induction ws generalizing k with
  | nil => rfl
  | cons w ws ih => simp only [waves, wave_unchecked h hdry, ih]

theorem all_unchecked (k : Work) : all c' e b k = all c e b k := by
  simp only [all, waves_unchecked h hdry]

end

end Work

/-! ## Runs -/

namespace Runner

open Progress

variable {c c' : Conditions} {e : Equipment} {b : Batch} {s s' : Site}

theorem start_site (he : e.archive.enabled = false) (s : Site) (b : Batch) : (start c e s b).1 = s := by
  unfold start
  split
  · split <;> rfl
  · rw [Archive.clear_disabled he]

section

variable (hdry : c.options.dryRun = true) (he : e.archive.enabled = false)
include hdry he

theorem conclude_dry (r : Runner) (k : Work) :
    conclude c e r b k = ({ r with phase := .completed }, k.site,
      .ok { batch := b.id, name := b.name, total := b.size, results := k.progress.ordered, dryRun := true }) := by
  simp only [conclude, Archive.save_disabled he, hdry, Archive.report_dry]

theorem runBatch_site (r : Runner) (s : Site) (p : Progress) : (runBatch c e r s b p).2.1 = s := by
  unfold runBatch
  split
  · rfl
  · have hall := Work.all_site (b := b) hdry he ⟨s, p⟩
    cases h : Work.all c e b ⟨s, p⟩ with
    | mk k stop =>
      rw [h] at hall
      cases stop with
      | none =>
        simp only [conclude_dry hdry he]
        exact hall
      | some stop =>
        simp only [Archive.saveFault_disabled he]
        exact hall

theorem run_site (r : Runner) (s : Site) (id : Int) : (run c e r s id).2.1 = s := by
  unfold run
  split
  · rfl
  · split
    · rfl
    · next b _ =>
      have hstart := start_site (c := c) he s b
      cases h : start c e s b with
      | mk s₁ p =>
        rw [h] at hstart
        cases hstart
        cases p with
        | error => rfl
        | ok p => exact runBatch_site hdry he _ _ _

end

theorem run_unchecked (h : c.UpToCheck c') (hdry : c.options.dryRun = true)
    (he : e.archive.enabled = false) (r : Runner) (s : Site) (id : Int) :
    run c' e r s id = run c e r s id := by
  simp only [run, find, start, runBatch, conclude, Archive.save_disabled he,
    Archive.saveFault_disabled he, Work.all_unchecked h hdry, h.config, h.options, h.reading]

end Runner

/-! ## Shards in turns -/

/-- A job that is not past what leads up to writing, or done. -/
def Job.Unwritten : Job → Prop
  | .untouched _ | .loaded _ _ _ | .done _ => True
  | .looking _ _ _ _ _ | .writing _ _ _ _ _ => False

namespace Conditions

variable {c : Conditions} {b : Batch} {w w' : Workspace} {j j' : Job}

theorem ended_unwritten {r : Except Mishap Outcome} (h : ended w r = some (w', j)) :
    w' = w ∧ j.Unwritten := by
  obtain ⟨o, -, rfl, rfl⟩ := ended_eq h
  exact ⟨rfl, trivial⟩

theorem takeUp_unwritten {i : Int} {m : Member} (h : c.takeUp w i m = some (w', j)) :
    w' = w ∧ j.Unwritten := by
  unfold takeUp at h
  split at h
  · exact ended_unwritten h
  · split at h
    · exact ended_unwritten h
    · cases h
      exact ⟨rfl, trivial⟩

theorem leadUp_unwritten (hdry : c.options.dryRun = true) {o : Outcome} {path : String} {u : SourceUnit}
    (h : c.leadUp w o path u = some (w', j)) : w' = w ∧ j.Unwritten := by
  unfold leadUp at h
  split at h
  · exact ended_unwritten h
  · cases h
    exact ⟨rfl, trivial⟩
  · split at h
    · exact ended_unwritten h
    · rw [if_pos hdry] at h
      cases h
      exact ⟨rfl, trivial⟩

/-- A step of a job in a dry run does nothing to the files, and none leads to writing. -/
theorem works_dry (hdry : c.options.dryRun = true) (hj : j.Unwritten) (h : c.Works b w j w' j') :
    w' = w ∧ j'.Unwritten := by
  cases h with
  | step h =>
    cases j with
    | untouched i =>
      obtain ⟨m, -, h⟩ := Option.bind_eq_some_iff.mp h
      exact takeUp_unwritten h
    | loaded => exact leadUp_unwritten hdry h
    | looking => exact hj.elim
    | writing => exact hj.elim
    | done => cases h
  | tear => exact hj.elim

end Conditions

namespace Course

variable {c : Conditions} {b : Batch} {held : String → Prop} {s t : Course Workspace Job}

/-- A moment of a dry run that began in some world with some vault: both are as they were,
and no shard is past what leads up to writing. -/
structure Rehearsing (held : String → Prop) (w : Workspace) (v : Vault) (s : Course Workspace Job) :
    Prop where
  disabled : s.enabled = false
  vault : s.vault = v
  even : ∀ e p, s.control ≠ .reflecting e p
  world : ∀ k, held k → s.world.entryAt? k = w.entryAt? k
  jobs : ∀ x ∈ s.workers ++ s.survivors, ∀ j, x.job = some j → j.Unwritten

variable {w : Workspace} {v : Vault}

theorem Acts.unwritten (hdry : c.options.dryRun = true) {x y : Worker Job} {w' : Workspace}
    (h : Acts (c.labour b held) w x w' y) (hx : ∀ j, x.job = some j → j.Unwritten) :
    w' = w ∧ ∀ j, y.job = some j → j.Unwritten := by
  rcases h.2 with ⟨rfl, hjob⟩ | ⟨j, j', hj, hj', hstep⟩
  · refine ⟨rfl, fun j hj => ?_⟩
    rcases hjob j hj with hj | ⟨i, -, rfl⟩
    · exact hx j hj
    · trivial
  · obtain ⟨hworld, hunwritten⟩ := Conditions.works_dry hdry (hx j hj) hstep
    exact ⟨hworld, fun k hk => Option.some.inj (hj'.symm.trans hk) ▸ hunwritten⟩

theorem forall_replaced {P : Worker Job → Prop} {l r : List (Worker Job)} {x y : Worker Job} (hy : P y)
    (h : ∀ z ∈ l ++ x :: r, P z) : ∀ z ∈ l ++ y :: r, P z := by
  simp only [List.forall_mem_append, List.forall_mem_cons] at h ⊢
  exact ⟨h.1, hy, h.2.2⟩

theorem Shift.rehearsing (hdry : c.options.dryRun = true) (h : Shift (c.labour b held) s t)
    (hs : Rehearsing held w v s) : Rehearsing held w v t := by
  obtain ⟨hworkers, hsurvivors⟩ := List.forall_mem_append.mp hs.jobs
  cases h with
  | toil h =>
    obtain ⟨l, r, x, y, hw, hw', hact⟩ := h.acts
    obtain ⟨outbox, posted, ht, -⟩ := h.frame
    obtain ⟨hworld, hy⟩ := hact.unwritten hdry (hworkers x (by simp [hw]))
    rw [hw] at hworkers
    rw [ht, hw', hworld]
    exact { hs with jobs := List.forall_mem_append.mpr ⟨forall_replaced hy hworkers, hsurvivors⟩ }
  | linger h =>
    obtain ⟨l, r, x, y, hw, hw', hact⟩ := h.acts
    have hw : s.survivors = l ++ x :: r := hw
    obtain ⟨hworld, hy⟩ := hact.unwritten hdry (hsurvivors x (by simp [hw]))
    rw [hw] at hsurvivors
    rw [hw', hworld]
    exact { hs with jobs := List.forall_mem_append.mpr ⟨hworkers, forall_replaced hy hsurvivors⟩ }
  | drift hd => exact { hs with world := fun k hk => (hd k hk).trans (hs.world k hk) }

theorem Move.rehearsing (h : Move s t) (hs : Rehearsing held w v s) : Rehearsing held w v t := by
  cases h with
  | wave =>
    refine { hs with even := fun e p he => (nomatch he), jobs := fun x hx j hj => ?_ }
    rcases List.mem_append.mp hx with hx | hx
    · obtain ⟨is, -, rfl⟩ := List.mem_map.mp hx
      cases hj
    · exact hs.jobs x (List.mem_append_right _ hx) j hj
  | @pass e =>
    refine { hs with even := fun e' p he => ?_ }
    cases e <;> cases he
  | record _ hen => exact absurd hen (by rw [hs.disabled]; decide)
  | reflect hc => exact absurd hc (hs.even _ _)
  | _ => exact { hs with even := fun e p he => (nomatch he) }

/-- However the shards of a dry run take turns, beside those of dry runs before it, and
wherever it is interrupted or breaks off, it leaves no trace. -/
theorem rehearsed (hdry : c.options.dryRun = true) {p : Progress} {workers size : Int}
    {survivors : List (Worker Job)} (hleft : ∀ x ∈ survivors, ∀ j, x.job = some j → j.Unwritten)
    (h : Relation.ReflTransGen (fun s t => Shift (c.labour b held) s t ∨ Move s t)
      (s.started p false workers size survivors) t) : Rehearsing held s.world s.vault t := by
  induction h with
  | refl => exact ⟨rfl, rfl, fun e p he => (nomatch he), fun k hk => rfl, hleft⟩
  | tail _ hstep ih =>
    rcases hstep with hshift | hmove
    · exact hshift.rehearsing hdry ih
    · exact hmove.rehearsing ih

end Course

/-! ## The command -/

namespace Act

variable {α β : Type}

/-- An act that leaves the site as it is, whatever comes of it. -/
def Idle (x : Act α) : Prop := ∀ s : Session, (x.run s).2.site = s.site

theorem Idle.pure (a : α) : Idle (Pure.pure a) := fun _ => rfl

theorem Idle.throw (e : CommandError) : Idle (MonadExcept.throw e : Act α) := fun _ => rfl

theorem run_bind (x : Act α) (f : α → Act β) (s : Session) :
    (x >>= f).run s = match x.run s with
      | (.ok a, s') => (f a).run s'
      | (.error e, s') => (.error e, s') := by
  show ExceptT.bindCont f (x.run s).1 (x.run s).2 = _
  rcases x.run s with ⟨_ | _, s'⟩ <;> rfl

theorem Idle.bind {x : Act α} {f : α → Act β} (hx : Idle x) (hf : ∀ a, Idle (f a)) : Idle (x >>= f) := by
  intro s
  have hsite := hx s
  rw [run_bind]
  cases h : x.run s with
  | mk r s' =>
    rw [h] at hsite
    cases r with
    | error => exact hsite
    | ok a => exact (hf a s').trans hsite

theorem Idle.say (line : String) : Idle (say line) := fun _ => rfl

theorem Idle.warn (line : String) : Idle (warn line) := fun _ => rfl

theorem Idle.files : Idle files := fun _ => rfl

theorem Idle.get : Idle (MonadState.get : Act Session) := fun _ => rfl

theorem Idle.lift {ε : Type} (f : ε → CommandError) (r : Except ε α) : Idle (lift f r) := by
  cases r with
  | ok a => exact .pure a
  | error e => exact .throw (f e)

theorem Idle.forIn {xs : List α} {f : α → PUnit → Act (ForInStep PUnit)} (h : ∀ a u, Idle (f a u)) :
    Idle (ForIn.forIn xs PUnit.unit f) := by
  induction xs with
  | nil => exact .pure _
  | cons x xs ih =>
    rw [List.forIn_cons]
    exact (h x _).bind fun r => match r with
      | .done _ => .pure _
      | .yield _ => ih

end Act

namespace Execution

open Act

variable (a : Surroundings)

theorem resolve_idle (path : String) : Idle (resolve a path) := by
  unfold resolve
  extract_lets p
  split
  · exact .pure _
  · exact .pure _
  · exact .throw _

theorem configAt_idle (config : Option String) (path : String) : Idle (configAt a config path) := by
  refine (resolve_idle a path).bind fun root => Idle.files.bind fun w => (Idle.lift _ _).bind fun there => ?_
  split
  · exact .lift _ _
  · exact .throw _

theorem printSummary_idle (told : Summary) : Idle (printSummary a told) := by
  refine (Idle.say _).bind fun _ => (Idle.say _).bind fun _ => (Idle.say _).bind fun _ =>
    (Idle.say _).bind fun _ => (Idle.say _).bind fun _ => ?_
  refine (Idle.forIn fun o _ => (Idle.warn _).bind fun _ => .pure _).bind fun _ => ?_
  split
  · exact .say _
  · exact .pure _

theorem resolve_unchecked (check : String → List String) (path : String) :
    resolve { a with check := check } path = resolve a path := by
  unfold resolve
  with_reducible rfl

theorem configAt_unchecked (check : String → List String) (config : Option String) (path : String) :
    configAt { a with check := check } config path = configAt a config path := by
  unfold configAt
  rw [resolve_unchecked]

theorem printSummary_unchecked (check : String → List String) :
    printSummary { a with check := check } = printSummary a := by
  unfold printSummary
  with_reducible rfl

def conditions (config : Config) (options : RunOptions) : Conditions :=
  ⟨config, options, a.parse, a.check, fun _ _ => none, a.now, some a.octets, a.reading⟩

theorem look_bind_congr {α β : Type} {x : Except Fault α} {f g : α → Act β}
    (h : ∀ r, x = .ok r → f r = g r) : look x >>= f = look x >>= g := by
  cases x with
  | error => rfl
  | ok r => exact h r rfl

variable {options : RunOptions} (hdry : options.dryRun = true) (config : Option String)
  (path : String) (id : Int)
include hdry

/-- A dry run only reads its site. -/
theorem run_dry_eq : run a config path id options =
    configAt a config path >>= fun config =>
    look ((conditions a config options).equip none) >>= fun e =>
    get >>= fun s =>
    Act.lift .run (Runner.run (conditions a config options) e {} s.site id).2.2 >>= printSummary a := by
  unfold run
  refine bind_congr fun config => ?_
  rw [if_pos hdry]
  refine look_bind_congr fun e he => funext fun s => ?_
  have hsite := Runner.run_site (c := conditions a config options) hdry
    (Conditions.equip_disabled hdry he) {} s.site id
  show (setSite (Runner.run (conditions a config options) e {} s.site id).2.1 >>= fun _ =>
    Act.lift .run (Runner.run (conditions a config options) e {} s.site id).2.2 >>= printSummary a) s = _
  rw [hsite]
  rfl

theorem run_idle : Idle (run a config path id options) := by
  rw [run_dry_eq a hdry]
  exact (configAt_idle a config path).bind fun config => (Idle.lift _ _).bind fun e =>
    Idle.get.bind fun s => (Idle.lift _ _).bind fun told => printSummary_idle a told

theorem run_checkless (check : String → List String) :
    run { a with check := check } config path id options = run a config path id options := by
  rw [run_dry_eq _ hdry, run_dry_eq _ hdry, configAt_unchecked, printSummary_unchecked]
  refine bind_congr fun config => ?_
  have hequip : (conditions { a with check := check } config options).equip none =
      (conditions a config options).equip none := rfl
  rw [hequip]
  refine look_bind_congr fun e he => bind_congr fun s => ?_
  have hsame : (conditions a config options).UpToCheck (conditions { a with check := check } config options) :=
    ⟨rfl, rfl, rfl, fun _ _ _ => rfl, rfl, rfl, rfl⟩
  rw [Runner.run_unchecked hsame hdry (Conditions.equip_disabled hdry he)]

end Execution

/-! ## Dry runs -/

namespace RunOptions

/-- Whatever the other options are, a dry run leaves its site as it is, however it ends, and
does not depend on the checker; if it completes it tells one outcome for each index of its
batch. So it is with the command, and also if shards take turns, beside those that dry runs
before it left, and the run is interrupted or breaks off at any step. -/
theorem dryRun_traceless {options : RunOptions} (hdry : options.dryRun = true) :
    (∀ (c : Conditions) (ledger : Option String) (e : Equipment) (r : Runner) (s : Site) (id : Int),
      c.options = options → c.equip ledger = .ok e →
        (Runner.run c e r s id).2.1 = s ∧
        (∀ c', c.UpToCheck c' → Runner.run c' e r s id = Runner.run c e r s id) ∧
        ∀ told, (Runner.run c e r s id).2.2 = .ok told → ∃ b, Runner.find c s id = .ok b ∧
          told.results.map (·.index) = (List.range b.size).map Int.ofNat) ∧
    (∀ (a : Surroundings) (config : Option String) (path : String) (id : Int) (session : Session),
      ((Execution.run a config path id options).run session).2.site = session.site ∧
      ∀ check, Execution.run { a with check := check } config path id options =
        Execution.run a config path id options) ∧
    ∀ (c : Conditions) (b : Batch) (held : String → Prop) (s t : Course Workspace Job) (p : Progress)
      (workers size : Int) (survivors : List (Worker Job)), c.options = options →
      (∀ x ∈ survivors, ∀ j, x.job = some j → j.Unwritten) →
      Relation.ReflTransGen (fun s t => Course.Shift (c.labour b held) s t ∨ Course.Move s t)
        (s.started p false workers size survivors) t →
      t.vault = s.vault ∧ (∀ k, held k → t.world.entryAt? k = s.world.entryAt? k) ∧
        ∀ x ∈ t.workers ++ t.survivors, ∀ j, x.job = some j → j.Unwritten := by
  refine ⟨?_, ?_, ?_⟩
  · rintro c ledger e r s id rfl he
    have hdisabled := Conditions.equip_disabled hdry he
    refine ⟨Runner.run_site hdry hdisabled r s id,
      fun c' h => Runner.run_unchecked h hdry hdisabled r s id, fun told htold => ?_⟩
    cases hrun : Runner.run c e r s id with
    | mk r' rest =>
      obtain ⟨s', result⟩ := rest
      rw [hrun] at htold
      cases htold
      exact Runner.run_indices hrun
  · exact fun a config path id session => ⟨Execution.run_idle a hdry config path id session,
      Execution.run_checkless a hdry config path id⟩
  · rintro c b held s t p workers size survivors rfl hleft h
    have hs := Course.rehearsed hdry hleft h
    exact ⟨hs.vault, hs.world, hs.jobs⟩

/-- A dry run that is told to replace what stands in its way, and to check its targets. -/
def rehearsing : Conditions :=
  { Conditions.calm with options := { dryRun := true, force := true, verify := some true } }

def rehearsal : Equipment := ⟨.int 1, .int 10, ⟨"/p/.migration-checkpoints", some "/p/l", false, .standard⟩, none⟩

def rehearsed : Site :=
  ⟨⟨[("/p", .folder), ("/p/a.jsx", .file "a;"),
    ("/p/migration-roadmap.json",
      .file "[\x7b\"id\":1,\"components\":[\x7b\"name\":\"a\",\"path\":\"a.jsx\"\x7d]\x7d]")]⟩, []⟩

theorem rehearsed_traceless : rehearsing.equip (some "/p/l") = .ok rehearsal ∧
    ∃ told, (Runner.run rehearsing rehearsal {} rehearsed 1).2 = (rehearsed, .ok told) ∧
      told.results.map (·.success) = [true] ∧
      ∃ b, Runner.find rehearsing rehearsed 1 = .ok b ∧
        told.results.map (·.index) = (List.range b.size).map Int.ofNat := by
  have he : rehearsing.equip (some "/p/l") = .ok rehearsal := by rfl
  have hrun : (Runner.run rehearsing rehearsal {} rehearsed 1).2.2.toOption.map
      (fun told => told.results.map (·.success)) = some [true] := by decide +kernel
  obtain ⟨told, htold, hsuccess⟩ := Option.map_eq_some_iff.mp hrun
  have hdry : rehearsing.options.dryRun = true := rfl
  obtain ⟨hsite, -, hindices⟩ := (dryRun_traceless hdry).1 rehearsing (some "/p/l") rehearsal {}
    rehearsed 1 rfl he
  exact ⟨he, told, Prod.ext hsite (ok_toOption htold), hsuccess, hindices told (ok_toOption htold)⟩

end RunOptions

end Retype

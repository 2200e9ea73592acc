import Mathlib.Logic.Relation
import Retype.Proofs.Run.Vault
import Retype.Run.Shards

/-!
# The course of runs

The runs of one batch, one after the other, step by step. Shards are worked on
at the same time and only post outcomes. One main line takes the outcomes, commits
them and saves a checkpoint after each. It may be interrupted at every step: then it
commits what lies posted, saves once more and goes down. It may also break off with
nothing saved. A run is taken up again from what is kept, or begun afresh.
-/

set_option autoImplicit false

namespace Retype

/-- How items are worked on, as far as a run can tell: a job belongs to an item and
may come to an outcome, which then is that item's. Nothing is said of the world that
jobs work in, nor of what happens to it from outside. -/
structure Labour (ω J : Type) where
  begun : Int → J
  Step : ω → J → ω → J → Prop
  outcome? : J → Option Outcome
  owner : J → Int
  Drift : ω → ω → Prop
  owner_begun : ∀ i, owner (begun i) = i
  owner_step : ∀ {w j w' j'}, Step w j w' j' → owner j' = owner j
  owner_outcome : ∀ {j o}, outcome? j = some o → o.index = owner j

/-! ## Runs -/

inductive Lot where
  | working
  | finished
  | failed
  deriving DecidableEq

/-- A shard: the items it has not begun, and the one it works on. -/
structure Worker (J : Type) where
  rest : List Int
  job : Option J := none
  lot : Lot := .working

/-- What the main line goes on with when a checkpoint is saved. -/
inductive Errand where
  | drain
  | salvage
  | fault
  | conclude

/-- Where the main line stands. -/
inductive Control where
  /-- No run is under way. -/
  | down
  /-- The ledger is cleared for a fresh run, the document is not. -/
  | clearing
  | between
  | waiting
  /-- Nothing lay posted, and so many shards were since seen to be over. -/
  | scanning (seen : Nat)
  | holding (o : Outcome)
  | salvaging
  | weighing (o : Outcome)
  | recording (e : Errand)
  | reflecting (e : Errand) (c : Checkpoint)
  | completed

def Errand.next : Errand → Control
  | drain => .waiting
  | salvage => .salvaging
  | fault => .down
  | conclude => .completed

namespace Control

/-- Inside a wave, before anything went wrong. -/
def InWave : Control → Prop
  | waiting | scanning _ | holding _ | recording .drain | reflecting .drain _ => True
  | _ => False

/-- Outside a wave, before anything went wrong. -/
def Idle : Control → Prop
  | between | recording .conclude | reflecting .conclude _ | completed => True
  | _ => False

theorem inWave_not_idle {c : Control} (h : c.InWave) : ¬ c.Idle := by
  cases c with
  | recording e => cases e <;> simp_all [InWave, Idle]
  | reflecting e => cases e <;> simp_all [InWave, Idle]
  | _ => simp_all [InWave, Idle]

/-- Where an interruption leads to saving once more and no further. -/
def Exposed : Control → Prop
  | between | salvaging | weighing _ | recording .salvage | reflecting .salvage _ => True
  | _ => False

/-- Nothing is half saved and nothing half cleared. -/
def Even : Control → Prop
  | clearing | reflecting _ _ => False
  | _ => True

/-- Nothing went wrong, and what is committed is saved. -/
def Filed : Control → Prop
  | between | waiting | scanning _ | holding _ | completed => True
  | _ => False

/-- A run has progress of its own. -/
def Up : Control → Prop
  | down | clearing => False
  | _ => True

theorem inWave_up {c : Control} (h : c.InWave) : c.Up := by
  cases c <;> trivial

theorem filed_up {c : Control} (h : c.Filed) : c.Up := by
  cases c <;> trivial

theorem exposed_up {c : Control} (h : c.Exposed) : c.Up := by
  cases c <;> trivial

def held : Control → List Outcome
  | holding o | weighing o => [o]
  | _ => []

theorem held_up {c : Control} {o : Outcome} (h : c.held = [o]) : c.Up := by
  cases c <;> trivial

end Control

/-- All there is to the runs of a batch at one moment. The survivors are shards of runs
before. The progress that the run began with, the checkpoints saved since the last clearing,
the newest first, and the outcomes that were posted and committed in this run are kept for
the record only. -/
structure Course (ω J : Type) where
  world : ω
  vault : Vault
  progress : Progress
  control : Control := .down
  enabled : Bool := true
  stopped : Bool := false
  waves : List (List (List Int)) := []
  workers : List (Worker J) := []
  survivors : List (Worker J) := []
  outbox : List Outcome := []
  origin : Progress := progress
  saved : List Checkpoint := []
  posted : List Outcome := []
  commits : List Outcome := []

namespace Course

variable {ω J : Type}

/-- The beginning of a run from some progress on, beside shards of runs before. -/
def started (s : Course ω J) (p : Progress) (enabled : Bool) (workers size : Int)
    (survivors : List (Worker J)) : Course ω J :=
  { s with
    progress := p
    origin := p
    control := .between
    enabled := enabled
    stopped := false
    waves := Shards.waves workers size p.pending
    workers := []
    survivors := survivors
    outbox := []
    posted := []
    commits := [] }

/-- The shards of runs before, as if they were those of the run. -/
def elders (s : Course ω J) (stopped : Bool) : Course ω J :=
  { s with
    stopped := stopped
    waves := []
    workers := s.survivors
    outbox := []
    posted := [] }

/-- The shards that go on when the next run begins: all, or none if the program is over. -/
def Outlives (s : Course ω J) (survivors : List (Worker J)) : Prop :=
  survivors = [] ∨ survivors = s.workers ++ s.survivors

/-- The indices with an outcome, which the run took over or committed. -/
def filled (s : Course ω J) : List Int := s.origin.done ++ s.commits.map (·.index)

def committed (s : Course ω J) (o : Outcome) (e : Errand) : Course ω J :=
  { s with progress := s.progress.commit o, commits := s.commits ++ [o], control := .recording e }

variable (L : Labour ω J) (batch : Int) (count : Nat)

def new (w : ω) (v : Vault) : Course ω J :=
  { world := w, vault := v, progress := .resumed batch count none }

/-- What the shards of the run do. -/
inductive Toil : Course ω J → Course ω J → Prop
  | begin {s l r i rest} : s.workers = l ++ ⟨i :: rest, none, .working⟩ :: r →
      Toil s { s with workers := l ++ ⟨rest, some (L.begun i), .working⟩ :: r }
  | work {s l r rest j w' j'} : s.workers = l ++ ⟨rest, some j, .working⟩ :: r →
      L.Step s.world j w' j' →
      Toil s { s with world := w', workers := l ++ ⟨rest, some j', .working⟩ :: r }
  | post {s l r rest j o} : s.workers = l ++ ⟨rest, some j, .working⟩ :: r →
      L.outcome? j = some o →
      Toil s { s with
        workers := l ++ ⟨rest, none, .working⟩ :: r
        outbox := s.outbox ++ [o]
        posted := s.posted ++ [o] }
  | fail {s l r rest j} : s.workers = l ++ ⟨rest, j, .working⟩ :: r →
      Toil s { s with workers := l ++ ⟨rest, j, .failed⟩ :: r }
  | finish {s l r rest} : s.workers = l ++ ⟨rest, none, .working⟩ :: r →
      (rest = [] ∨ s.stopped = true) →
      Toil s { s with workers := l ++ ⟨rest, none, .finished⟩ :: r }

/-- What shards do, and what happens to the world they work in. Shards of runs before,
told to stop or not, do what they would in their own run, and what they post is lost. -/
inductive Shift : Course ω J → Course ω J → Prop
  | toil {s t} : Toil L s t → Shift s t
  | linger {s u stopped} : Toil L (s.elders stopped) u →
      Shift s { s with world := u.world, survivors := u.workers }
  | drift {s w'} : L.Drift s.world w' → Shift s { s with world := w' }

/-- What the main line does while a run is under way, and what happens to it. -/
inductive Move : Course ω J → Course ω J → Prop
  -- waves
  | wave {s w ws} : s.control = .between → s.waves = w :: ws →
      Move s { s with control := .waiting, waves := ws, workers := w.map fun is => { rest := is } }
  | last {s} : s.control = .between → s.waves = [] →
      Move s { s with control := .recording .conclude }
  -- draining
  | take {s o os} : s.control = .waiting → s.outbox = o :: os →
      Move s { s with control := .holding o, outbox := os }
  | commit {s o} : s.control = .holding o → Move s (s.committed o .drain)
  | idle {s} : s.control = .waiting → s.outbox = [] → Move s { s with control := .scanning 0 }
  | seen {s n w} : s.control = .scanning n → s.workers[n]? = some w → w.lot ≠ .working →
      Move s { s with control := .scanning (n + 1) }
  | busy {s n w} : s.control = .scanning n → s.workers[n]? = some w → w.lot = .working →
      Move s { s with control := .waiting }
  | late {s n} : s.control = .scanning n → s.workers.length ≤ n → s.outbox ≠ [] →
      Move s { s with control := .waiting }
  | close {s n} : s.control = .scanning n → s.workers.length ≤ n → s.outbox = [] →
      (∀ w ∈ s.workers, w.lot ≠ .failed) → Move s { s with control := .between }
  | raise {s n w} : s.control = .scanning n → s.workers.length ≤ n → s.outbox = [] →
      w ∈ s.workers → w.lot = .failed → Move s { s with control := .salvaging, stopped := true }
  -- interruptions
  | interrupt {s} : s.control.InWave → Move s { s with control := .salvaging, stopped := true }
  | abort {s} : s.control.Exposed → Move s { s with control := .recording .fault }
  | crash {s} : Move s { s with control := .down }
  -- salvaging
  | pick {s o os} : s.control = .salvaging → s.outbox = o :: os →
      Move s { s with control := .weighing o, outbox := os }
  | keep {s o} : s.control = .weighing o → o.index ∉ s.progress.done → Move s (s.committed o .salvage)
  | drop {s o} : s.control = .weighing o → o.index ∈ s.progress.done →
      Move s { s with control := .salvaging }
  | salvaged {s} : s.control = .salvaging → s.outbox = [] →
      Move s { s with control := .recording .fault }
  -- saving
  | pass {s e} : s.control = .recording e → s.enabled = false → Move s { s with control := e.next }
  | record {s e error time v} : s.control = .recording e → s.enabled = true →
      s.vault.record (s.progress.checkpoint error time) = some v →
      Move s { s with
        vault := v
        control := .reflecting e (s.progress.checkpoint error time)
        saved := if s.vault.ledger.isSome then s.progress.checkpoint error time :: s.saved
          else s.saved }
  | reflect {s e c} : s.control = .reflecting e c →
      Move s { s with vault := s.vault.reflect c, control := e.next, saved := c :: s.saved }

/-- The beginning of a run, and the clearing before a fresh one. -/
inductive Start : Course ω J → Course ω J → Prop
  | resume {s kept enabled workers size survivors} : s.control = .down →
      s.vault.load batch = .ok kept → s.Outlives survivors →
      Start s (s.started (.resumed batch count kept) enabled workers size survivors)
  | clear {s} : s.control = .down →
      Start s { s with control := .clearing, vault := s.vault.clearLedger batch, saved := [] }
  | fresh {s workers size survivors} : s.control = .clearing → s.Outlives survivors →
      Start s ({ s with vault := s.vault.clearMirror }.started (.resumed batch count none) true
        workers size survivors)
  | dry {s workers size survivors} : s.control = .down → s.Outlives survivors →
      Start s (s.started (.resumed batch count none) false workers size survivors)

/-- What becomes of a course until its next run is begun. -/
def Runs : Course ω J → Course ω J → Prop := Relation.ReflTransGen fun s t => Shift L s t ∨ Move s t

inductive Step (s t : Course ω J) : Prop
  | shift (h : Shift L s t)
  | move (h : Move s t)
  | start (h : Start batch count s t)

inductive Reachable (s₀ : Course ω J) : Course ω J → Prop
  | here : Reachable s₀ s₀
  | next {s t} : Reachable s₀ s → Step L batch count s t → Reachable s₀ t

/-! ## No item twice at a time -/

/-- Two shards do not work on the same item. -/
def Elsewhere (x y : Worker J) : Prop :=
  ∀ j k, x.job = some j → y.job = some k → L.owner j ≠ L.owner k

/-- No shard of a run before works on an item that another shard works on. -/
structure Apart (s : Course ω J) : Prop where
  among : s.survivors.Pairwise (Elsewhere L)
  beside : ∀ x ∈ s.survivors, ∀ y ∈ s.workers, Elsewhere L x y

/-- What courses reach on which no two shards are ever at the same item. -/
inductive ReachableApart (s₀ : Course ω J) : Course ω J → Prop
  | here : ReachableApart s₀ s₀
  | next {s t} : ReachableApart s₀ s → Step L batch count s t → t.Apart L → ReachableApart s₀ t

variable {L batch count} {s₀ s t : Course ω J}

theorem ReachableApart.reachable (h : ReachableApart L batch count s₀ s) :
    Reachable L batch count s₀ s := by
  induction h with
  | here => exact .here
  | next _ hstep _ ih => exact ih.next hstep

theorem ReachableApart.trans {u : Course ω J} (h : ReachableApart L batch count s t)
    (h' : ReachableApart L batch count t u) : ReachableApart L batch count s u := by
  induction h' with
  | here => exact h
  | next _ hstep ha ih => exact ih.next hstep ha

theorem Reachable.runs (h : Reachable L batch count s₀ s) (hr : Runs L s t) :
    Reachable L batch count s₀ t := by
  induction hr with
  | refl => exact h
  | tail _ hstep ih => exact ih.next (hstep.elim .shift .move)

theorem apart_of_none (h : s.survivors = []) : s.Apart L where
  among := h ▸ .nil
  beside := fun x hx => by
    rw [h] at hx
    cases hx

theorem Shift.none_survives (h : Shift L s t) (hs : s.survivors = []) : t.survivors = [] := by
  cases h with
  | toil h => cases h <;> exact hs
  | linger h =>
    have hnone : ∀ {l r : List (Worker J)} {x : Worker J}, s.survivors ≠ l ++ x :: r := by simp [hs]
    cases h with
    | begin hw | work hw | post hw | fail hw | finish hw => exact absurd hw hnone
  | drift => exact hs

theorem Move.none_survives (h : Move s t) (hs : s.survivors = []) : t.survivors = [] := by
  cases h <;> exact hs

theorem ReachableApart.runs (h : ReachableApart L batch count s₀ s) (hs : s.survivors = [])
    (hr : Runs L s t) : ReachableApart L batch count s₀ t ∧ t.survivors = [] := by
  induction hr with
  | refl => exact ⟨h, hs⟩
  | tail _ hstep ih =>
    rcases hstep with hstep | hstep
    · have hnone := hstep.none_survives ih.2
      exact ⟨ih.1.next (.shift hstep) (apart_of_none hnone), hnone⟩
    · have hnone := hstep.none_survives ih.2
      exact ⟨ih.1.next (.move hstep) (apart_of_none hnone), hnone⟩

end Course

end Retype

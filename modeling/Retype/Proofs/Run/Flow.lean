import Mathlib.Data.List.Perm.Subperm
import Retype.Proofs.Run.Course
import Retype.Proofs.Run.Shards

/-!
# Outcomes on their way

Every item of a run is in one place: still to come, in a shard, or posted. Until
something goes wrong, what was posted is what was committed, what is held and what
waits, in this order; afterwards nothing but some of it is missing.
-/

set_option autoImplicit false

namespace Retype.Course

variable {ω J : Type} {L : Labour ω J} {batch : Int} {count : Nat} {s t : Course ω J}

/-! ## What one shard does -/

variable (L) in
/-- What a shard may do at a step, to itself and to the world. -/
def Acts (w : ω) (x : Worker J) (w' : ω) (y : Worker J) : Prop :=
  y.rest ⊆ x.rest ∧
    ((w' = w ∧ ∀ j, y.job = some j → x.job = some j ∨ ∃ i ∈ x.rest, j = L.begun i) ∨
      ∃ j j', x.job = some j ∧ y.job = some j' ∧ L.Step w j w' j')

theorem Toil.acts (h : Toil L s t) : ∃ l r x y, s.workers = l ++ x :: r ∧ t.workers = l ++ y :: r ∧
    Acts L s.world x t.world y := by
  cases h with
  | @begin l r i rest hw =>
    refine ⟨l, r, _, _, hw, rfl, List.subset_cons_self i rest, Or.inl ⟨rfl, fun j hj => Or.inr ?_⟩⟩
    exact ⟨i, List.mem_cons_self, (Option.some.inj hj).symm⟩
  | @work l r rest j w' j' hw hstep =>
    exact ⟨l, r, _, _, hw, rfl, List.Subset.refl rest, Or.inr ⟨j, j', rfl, rfl, hstep⟩⟩
  | @post l r rest j o hw | @finish l r rest hw =>
    exact ⟨l, r, _, _, hw, rfl, List.Subset.refl rest, Or.inl ⟨rfl, nofun⟩⟩
  | @fail l r rest j hw =>
    exact ⟨l, r, _, _, hw, rfl, List.Subset.refl rest, Or.inl ⟨rfl, fun _ => Or.inl⟩⟩

/-- A shard at work changes nothing but the world, itself and what is posted. -/
theorem Toil.frame (h : Toil L s t) : ∃ outbox posted, t = { s with
      world := t.world
      workers := t.workers
      outbox := outbox
      posted := posted } ∧
    ∀ o ∈ posted, o ∈ s.posted ∨ t.world = s.world ∧ ∃ x ∈ s.workers, ∃ j, x.job = some j ∧
      L.outcome? j = some o := by
  cases h with
  | @post l r rest j o hw ho =>
    refine ⟨_, _, rfl, fun o' ho' => ?_⟩
    rcases List.mem_append.mp ho' with ho' | ho'
    · exact Or.inl ho'
    · cases List.mem_singleton.mp ho'
      exact Or.inr ⟨rfl, ⟨rest, some j, .working⟩, by simp [hw], j, rfl, ho⟩
  | begin | work | fail | finish => exact ⟨_, _, rfl, fun _ => Or.inl⟩

/-! ## The items of a run -/

section

variable (L)

def indicesOf (w : Worker J) : List Int := (w.job.map L.owner).toList ++ w.rest

def ahead (s : Course ω J) : List Int := s.workers.flatMap (indicesOf L) ++ s.waves.flatten.flatten

def items (s : Course ω J) : List Int := s.posted.map (·.index) ++ s.ahead L

end

@[simp] theorem indicesOf_idle {rest : List Int} {lot : Lot} :
    indicesOf L ⟨rest, none, lot⟩ = rest := rfl

@[simp] theorem indicesOf_busy {rest : List Int} {j : J} {lot : Lot} :
    indicesOf L ⟨rest, some j, lot⟩ = L.owner j :: rest := rfl

theorem started_items (s : Course ω J) (p : Progress) (enabled : Bool) (workers size : Int)
    (survivors : List (Worker J)) :
    (s.started p enabled workers size survivors).items L = p.pending := by
  rw [items, ahead, started]
  simp only [List.map_nil, List.flatMap_nil, List.nil_append, Shards.waves_flatten]

theorem resumed_pending_within {kept : Option Checkpoint} {i : Int}
    (h : i ∈ (Progress.resumed batch count kept).pending) : 0 ≤ i ∧ i < count := by
  have := (Progress.mem_pending.mp h).1
  cases kept <;> exact this

theorem flatMap_begun (w : List (List Int)) :
    (w.map fun is => ({ rest := is } : Worker J)).flatMap (indicesOf L) = w.flatten := by
  induction w with
  | nil => rfl
  | cons is w ih => rw [List.map_cons, List.flatMap_cons, ih, indicesOf_idle, List.flatten_cons]

/-- Shards keep their items until they post them. -/
theorem Toil.items_perm (h : Toil L s t) : (t.items L).Perm (s.items L) := by
  cases h with
  | begin hw => simp [items, ahead, hw, L.owner_begun]
  | work hw hstep => simp [items, ahead, hw, L.owner_step hstep]
  | @post l r rest j o hw ho =>
    simp only [items, ahead, hw, List.flatMap_append, List.flatMap_cons, indicesOf_idle,
      indicesOf_busy, List.map_append, List.map_cons, List.map_nil, L.owner_outcome ho,
      List.append_assoc, List.cons_append, List.nil_append]
    refine List.Perm.append_left _ ?_
    simpa only [List.append_assoc] using List.perm_middle.symm
  | fail hw => simp [items, ahead, hw, indicesOf]
  | finish hw => simp [items, ahead, hw]

variable (L) in
def Fewer (s t : Course ω J) : Prop := (t.items L).Subperm (s.items L) ∧ t.origin = s.origin

theorem Move.fewer (h : Move s t) : Fewer L s t := by
  cases h with
  | wave _ hw =>
    refine ⟨?_, rfl⟩
    simp only [items, ahead, hw, flatMap_begun, List.flatten_cons, List.flatten_append]
    exact ((List.sublist_append_right _ _).append_left _).subperm
  | _ => exact ⟨.refl _, rfl⟩

/-! ## From posting to committing -/

structure Flow (L : Labour ω J) (count : Nat) (s : Course ω J) : Prop where
  distinct : (s.items L).Nodup
  within : ∀ i ∈ s.items L, 0 ≤ i ∧ i < count
  fresh : ∀ i ∈ s.items L, i ∉ s.origin.done
  passed : (s.commits ++ s.control.held ++ s.outbox).Sublist s.posted
  calm : s.control.InWave ∨ s.control.Idle →
    s.stopped = false ∧ s.commits ++ s.control.held ++ s.outbox = s.posted
  scanned : ∀ n, s.control = .scanning n → ∀ w ∈ s.workers.take n, w.lot ≠ .working
  settled : s.control.Idle → s.outbox = [] ∧ ∀ w ∈ s.workers, w.lot = .finished

theorem new_flow (w : ω) (v : Vault) : Flow L count (new batch count w v : Course ω J) := by
  constructor
  · exact List.nodup_nil
  · intro i hi
    cases hi
  · intro i hi
    cases hi
  · exact List.Sublist.refl _
  · rintro (h | h) <;> exact h.elim
  · intro n hn
    cases hn
  · exact False.elim

theorem take_replaced {l r : List (Worker J)} {w w' : Worker J} {n : Nat}
    (h : ∀ x ∈ (l ++ w :: r).take n, x.lot ≠ .working) (hw : w.lot = .working) :
    (l ++ w' :: r).take n = (l ++ w :: r).take n := by
  have hn : n ≤ l.length := by
    rcases Nat.lt_or_ge l.length n with hlt | hge
    · refine absurd hw (h w ?_)
      rw [List.take_append, List.mem_append, show n - l.length = n - l.length - 1 + 1 by omega]
      exact Or.inr List.mem_cons_self
    · exact hge
  rw [List.take_append_of_le_length hn, List.take_append_of_le_length hn]

theorem Flow.not_idle (hs : Flow L count s) {l r : List (Worker J)} {w : Worker J}
    (hw : s.workers = l ++ w :: r) (hlot : w.lot = .working) : ¬ s.control.Idle := by
  intro hi
  have := (hs.settled hi).2 w (by simp [hw])
  rw [hlot] at this
  cases this

theorem Flow.scanned_replaced (hs : Flow L count s) {l r : List (Worker J)} {w w' : Worker J}
    (hw : s.workers = l ++ w :: r) (hlot : w.lot = .working) (n : Nat)
    (hn : s.control = .scanning n) : ∀ x ∈ (l ++ w' :: r).take n, x.lot ≠ .working := by
  have := hs.scanned n hn
  rw [hw] at this
  rwa [take_replaced this hlot]

/-- A shard that gets on with an item leaves everything else alone. -/
theorem Flow.replaced (hs : Flow L count s) {l r : List (Worker J)} {w w' : Worker J} {o : ω}
    (hw : s.workers = l ++ w :: r) (hlot : w.lot = .working)
    (hp : (({ s with world := o, workers := l ++ w' :: r } : Course ω J).items L).Perm (s.items L)) :
    Flow L count { s with world := o, workers := l ++ w' :: r } := by
  constructor
  · exact hp.nodup_iff.mpr hs.distinct
  · intro i hi
    exact hs.within i (hp.mem_iff.mp hi)
  · intro i hi
    exact hs.fresh i (hp.mem_iff.mp hi)
  · exact hs.passed
  · exact hs.calm
  · exact hs.scanned_replaced hw hlot
  · intro hi
    exact absurd hi (hs.not_idle hw hlot)

theorem Toil.flow (h : Toil L s t) (hs : Flow L count s) : Flow L count t := by
  have hp := h.items_perm
  cases h with
  | begin hw => exact hs.replaced hw rfl hp
  | work hw hstep => exact hs.replaced hw rfl hp
  | @post l r rest j o hw ho =>
    constructor
    · exact hp.nodup_iff.mpr hs.distinct
    · intro i hi
      exact hs.within i (hp.mem_iff.mp hi)
    · intro i hi
      exact hs.fresh i (hp.mem_iff.mp hi)
    · rw [← List.append_assoc]
      exact hs.passed.append (List.Sublist.refl _)
    · intro hc
      obtain ⟨hstop, hall⟩ := hs.calm hc
      refine ⟨hstop, ?_⟩
      show s.commits ++ s.control.held ++ (s.outbox ++ [o]) = s.posted ++ [o]
      rw [← List.append_assoc, hall]
    · exact hs.scanned_replaced hw rfl
    · intro hi
      exact absurd hi (hs.not_idle hw rfl)
  | fail hw => exact hs.replaced hw rfl hp
  | finish hw => exact hs.replaced hw rfl hp

theorem Shift.flow (h : Shift L s t) (hs : Flow L count s) : Flow L count t := by
  cases h with
  | toil h => exact h.flow hs
  | linger | drift => exact { hs with }

/-! The main line, by where it goes: on inside its wave, out of it, or astray. -/

theorem Flow.fewer (hs : Flow L count s) (h : Fewer L s t) : (t.items L).Nodup ∧
    (∀ i ∈ t.items L, 0 ≤ i ∧ i < count) ∧ ∀ i ∈ t.items L, i ∉ t.origin.done := by
  obtain ⟨⟨l, hl, hsub⟩, horigin⟩ := h
  have hmem : ∀ i ∈ t.items L, i ∈ s.items L := fun i hi => hsub.subset (hl.mem_iff.mpr hi)
  exact ⟨hl.nodup_iff.mp (hs.distinct.sublist hsub), fun i hi => hs.within i (hmem i hi),
    fun i hi => horigin ▸ hs.fresh i (hmem i hi)⟩

theorem Flow.onward (hs : Flow L count s) (hitems : Fewer L s t)
    (hw : t.control.InWave) (hstop : t.stopped = false)
    (hall : t.commits ++ t.control.held ++ t.outbox = t.posted)
    (hscan : ∀ n, t.control = .scanning n → ∀ w ∈ t.workers.take n, w.lot ≠ .working) :
    Flow L count t := by
  obtain ⟨hdistinct, hwithin, hfresh⟩ := hs.fewer hitems
  refine ⟨hdistinct, hwithin, hfresh, hall ▸ List.Sublist.refl _, fun _ => ⟨hstop, hall⟩, hscan, ?_⟩
  intro hi
  exact absurd hi (Control.inWave_not_idle hw)

theorem Flow.out (hs : Flow L count s) (hitems : Fewer L s t)
    (hi : t.control.Idle) (hstop : t.stopped = false)
    (hall : t.commits ++ t.control.held ++ t.outbox = t.posted)
    (hrest : t.outbox = [] ∧ ∀ w ∈ t.workers, w.lot = .finished) : Flow L count t := by
  obtain ⟨hdistinct, hwithin, hfresh⟩ := hs.fewer hitems
  refine ⟨hdistinct, hwithin, hfresh, hall ▸ List.Sublist.refl _, fun _ => ⟨hstop, hall⟩, ?_, fun _ => hrest⟩
  intro n hn
  rw [hn] at hi
  exact hi.elim

theorem Flow.astray (hs : Flow L count s) (hitems : Fewer L s t)
    (hw : ¬ t.control.InWave) (hi : ¬ t.control.Idle)
    (hp : (t.commits ++ t.control.held ++ t.outbox).Sublist t.posted) : Flow L count t := by
  obtain ⟨hdistinct, hwithin, hfresh⟩ := hs.fewer hitems
  refine ⟨hdistinct, hwithin, hfresh, hp, ?_, ?_, fun h => absurd h hi⟩
  · rintro (h | h)
    · exact absurd h hw
    · exact absurd h hi
  · intro n hn
    rw [hn] at hw
    exact absurd trivial hw

/-- A checkpoint that is saved or passed over changes nothing of this. -/
theorem Flow.saved (hs : Flow L count s) {v : Vault} {c : Control} {cs : List Checkpoint}
    (hin : c.InWave → s.control.InWave) (hout : c.Idle → s.control.Idle)
    (hheld : s.control.held = []) (hheld' : c.held = []) (hscan : ∀ n, c ≠ .scanning n) :
    Flow L count { s with vault := v, control := c, saved := cs } := by
  obtain ⟨hdistinct, hwithin, hfresh⟩ := hs.fewer ⟨.refl _, rfl⟩
  refine ⟨hdistinct, hwithin, hfresh, ?_, ?_, fun n hn => absurd hn (hscan n), fun h => hs.settled (hout h)⟩
  · show (s.commits ++ c.held ++ s.outbox).Sublist s.posted
    rw [hheld', ← hheld]
    exact hs.passed
  · intro h
    show s.stopped = false ∧ s.commits ++ c.held ++ s.outbox = s.posted
    rw [hheld', ← hheld]
    exact hs.calm (h.imp hin hout)

theorem Flow.committed (hs : Flow L count s) {o : Outcome} {e : Errand}
    (hheld : s.control.held = [o]) (hin : (Control.recording e).InWave → s.control.InWave)
    (hout : ¬ (Control.recording e).Idle) : Flow L count (s.committed o e) := by
  obtain ⟨hdistinct, hwithin, hfresh⟩ := hs.fewer ⟨.refl _, rfl⟩
  refine ⟨hdistinct, hwithin, hfresh, ?_, ?_, fun n hn => (by cases hn), fun h => absurd h hout⟩
  · have := hs.passed
    rw [hheld] at this
    show (s.commits ++ [o] ++ [] ++ s.outbox).Sublist s.posted
    rwa [List.append_nil]
  · rintro (h | h)
    · have := hs.calm (Or.inl (hin h))
      rw [hheld] at this
      show s.stopped = false ∧ s.commits ++ [o] ++ [] ++ s.outbox = s.posted
      rwa [List.append_nil]
    · exact absurd h hout

theorem Move.flow (h : Move s t) (hs : Flow L count s) : Flow L count t := by
  have hitems := h.fewer (L := L)
  have hp := hs.passed
  cases h with
  | wave hc hw =>
    have hcalm := hs.calm (by simp [hc, Control.Idle])
    rw [hc] at hcalm
    exact hs.onward hitems trivial hcalm.1 hcalm.2 fun n hn => by cases hn
  | last hc hw =>
    have hcalm := hs.calm (by simp [hc, Control.Idle])
    have hrest := hs.settled (by simp [hc, Control.Idle])
    rw [hc] at hcalm
    exact hs.out hitems trivial hcalm.1 hcalm.2 hrest
  | take hc ho =>
    have hcalm := hs.calm (by simp [hc, Control.InWave])
    rw [hc, ho] at hcalm
    refine hs.onward hitems trivial hcalm.1 ?_ fun n hn => by cases hn
    simpa [Control.held] using hcalm.2
  | commit hc =>
    exact hs.committed (by rw [hc]; rfl) (fun _ => by rw [hc]; trivial) id
  | idle hc ho =>
    have hcalm := hs.calm (by simp [hc, Control.InWave])
    rw [hc] at hcalm
    refine hs.onward hitems trivial hcalm.1 hcalm.2 fun n hn => ?_
    cases hn
    simp
  | @seen n w hc hn hlot =>
    have hcalm := hs.calm (by simp [hc, Control.InWave])
    rw [hc] at hcalm
    refine hs.onward hitems trivial hcalm.1 hcalm.2 fun m hm => ?_
    cases hm
    show ∀ x ∈ s.workers.take (n + 1), x.lot ≠ .working
    intro x hx
    rw [List.take_add_one, hn, List.mem_append] at hx
    rcases hx with hx | hx
    · exact hs.scanned n hc x hx
    · cases List.mem_singleton.mp hx
      exact hlot
  | busy hc hn hlot =>
    have hcalm := hs.calm (by simp [hc, Control.InWave])
    rw [hc] at hcalm
    exact hs.onward hitems trivial hcalm.1 hcalm.2 fun n hn => by cases hn
  | late hc hn ho =>
    have hcalm := hs.calm (by simp [hc, Control.InWave])
    rw [hc] at hcalm
    exact hs.onward hitems trivial hcalm.1 hcalm.2 fun n hn => by cases hn
  | @close n hc hn ho hlot =>
    have hcalm := hs.calm (by simp [hc, Control.InWave])
    rw [hc] at hcalm
    refine hs.out hitems trivial hcalm.1 hcalm.2 ⟨ho, fun w hw => ?_⟩
    -- Every shard was seen to be over, and one that is over is so for good.
    have hover := hs.scanned n hc w (by rwa [List.take_of_length_le hn])
    have hfail := hlot w hw
    revert hover hfail
    cases w.lot <;> simp
  | raise hc hn ho hmem hlot =>
    rw [hc] at hp
    exact hs.astray hitems id id hp
  | interrupt hc =>
    refine hs.astray hitems id id (List.Sublist.trans ?_ hp)
    simp [Control.held]
  | abort hc =>
    refine hs.astray hitems id id (List.Sublist.trans ?_ hp)
    simp [Control.held]
  | crash =>
    refine hs.astray hitems id id (List.Sublist.trans ?_ hp)
    simp [Control.held]
  | pick hc ho =>
    rw [hc, ho] at hp
    refine hs.astray hitems id id ?_
    simpa [Control.held] using hp
  | keep hc hnew =>
    exact hs.committed (by rw [hc]; rfl) False.elim id
  | drop hc hold =>
    refine hs.astray hitems id id (List.Sublist.trans ?_ hp)
    simp [Control.held]
  | salvaged hc ho =>
    rw [hc] at hp
    exact hs.astray hitems id id hp
  | @pass e hc hen =>
    cases e <;> exact @Flow.saved _ _ _ _ _ hs s.vault _ s.saved
      (by simp [hc, Errand.next, Control.InWave])
      (by simp [hc, Errand.next, Control.Idle]) (by rw [hc]; rfl) rfl (fun n hn => by cases hn)
  | @record e error time v hc hen hv =>
    cases e <;> exact hs.saved (by simp [hc, Control.InWave]) (by simp [hc, Control.Idle])
      (by rw [hc]; rfl) rfl (fun n hn => by cases hn)
  | @reflect e c hc =>
    cases e <;> exact hs.saved (by simp [hc, Errand.next, Control.InWave])
      (by simp [hc, Errand.next, Control.Idle]) (by rw [hc]; rfl) rfl (fun n hn => by cases hn)

theorem started_flow (s : Course ω J) {p : Progress} {enabled : Bool} {workers size : Int}
    {survivors : List (Worker J)} (hp : ∀ i ∈ p.pending, 0 ≤ i ∧ i < count) :
    Flow L count (s.started p enabled workers size survivors) := by
  constructor
  · rw [started_items]
    exact p.pending_nodup
  · intro i hi
    rw [started_items] at hi
    exact hp i hi
  · intro i hi
    rw [started_items] at hi
    exact (Progress.mem_pending.mp hi).2
  · exact List.Sublist.refl _
  · intro _
    exact ⟨rfl, rfl⟩
  · intro n hn
    cases hn
  · intro _
    exact ⟨rfl, fun w hw => by cases hw⟩

theorem Start.flow (h : Start batch count s t) (hs : Flow L count s) : Flow L count t := by
  cases h with
  | resume => exact started_flow s fun i hi => resumed_pending_within hi
  | clear hc =>
    have hp := hs.passed
    rw [hc] at hp
    exact hs.astray ⟨.refl _, rfl⟩ id id hp
  | fresh => exact started_flow _ fun i hi => resumed_pending_within hi
  | dry => exact started_flow s fun i hi => resumed_pending_within hi

theorem Step.flow (h : Step L batch count s t) (hs : Flow L count s) : Flow L count t := by
  cases h with
  | shift h => exact h.flow hs
  | move h => exact h.flow hs
  | start h => exact h.flow hs

theorem Reachable.flow {s₀ : Course ω J} (h : Reachable L batch count s₀ s)
    (h₀ : Flow L count s₀) : Flow L count s := by
  induction h with
  | here => exact h₀
  | next _ hstep ih => exact hstep.flow ih

end Retype.Course

import Retype.Proofs.Run.Flow

/-!
# Nothing is left out

Until something goes wrong, every item of the batch has an outcome, is still to come,
or lies between its shard and the main line. A shard that ended by itself has nothing
left to do. So a completed run has an outcome for every item.
-/

set_option autoImplicit false

namespace Retype

/-- The last checkpoint of a run is being saved, or was. -/
def Control.Closing : Control → Prop
  | recording .conclude | reflecting .conclude _ | completed => True
  | _ => False

theorem Control.closing_idle {c : Control} (h : c.Closing) : c.Idle := by
  cases c with
  | recording e => cases e <;> exact h
  | reflecting e => cases e <;> exact h
  | completed => trivial
  | _ => exact h.elim

namespace Course

variable {ω J : Type} {L : Labour ω J} {batch : Int} {count : Nat} {s t : Course ω J}

section

variable (L)

/-- An item that has no outcome yet, or one that is not committed. -/
def Open (s : Course ω J) (i : Int) : Prop :=
  i ∈ s.ahead L ∨ i ∈ (s.control.held ++ s.outbox).map (·.index)

structure Covered (count : Nat) (s : Course ω J) : Prop where
  all : s.control.InWave ∨ s.control.Idle → ∀ i : Int, 0 ≤ i → i < count →
    i ∈ s.progress.done ∨ s.Open L i
  spent : s.stopped = false → ∀ w ∈ s.workers, w.lot = .finished → indicesOf L w = []
  closing : s.control.Closing → s.waves = []

end

theorem new_covered (w : ω) (v : Vault) : Covered L count (new batch count w v : Course ω J) where
  all := fun h => h.elim False.elim False.elim
  spent := fun _ _ hw => nomatch hw
  closing := False.elim

/-! ## Shards -/

/-- No item is lost by what a shard does. -/
theorem Toil.open_iff (h : Toil L s t) {i : Int} : t.Open L i ↔ s.Open L i := by
  cases h with
  | begin hw => simp [Open, ahead, hw, L.owner_begun]
  | work hw hstep => simp [Open, ahead, hw, L.owner_step hstep]
  | @post l r rest j o hw ho =>
    have howner := L.owner_outcome ho
    simp only [Open, ahead, hw, List.flatMap_append, List.flatMap_cons, indicesOf_idle,
      indicesOf_busy, List.map_append, List.map_cons, List.map_nil, List.mem_append, List.mem_cons,
      List.not_mem_nil, or_false, howner]
    tauto
  | fail hw => simp [Open, ahead, hw, indicesOf]
  | finish hw => simp [Open, ahead, hw]

theorem Covered.spent_replaced (hs : Covered L count s) {l r : List (Worker J)} {w w' : Worker J}
    (hw : s.workers = l ++ w :: r) (hlot : s.stopped = false → w'.lot = .finished →
      indicesOf L w' = []) (hstop : s.stopped = false) :
    ∀ x ∈ l ++ w' :: r, x.lot = .finished → indicesOf L x = [] := by
  intro x hx hf
  rcases List.mem_append.mp hx with hx | hx
  · exact hs.spent hstop x (by simp [hw, hx]) hf
  · rcases List.mem_cons.mp hx with rfl | hx
    · exact hlot hstop hf
    · exact hs.spent hstop x (by simp [hw, hx]) hf

theorem Toil.covered (h : Toil L s t) (hs : Covered L count s) : Covered L count t := by
  have hopen := fun i => h.open_iff (i := i)
  have hall : s.control.InWave ∨ s.control.Idle → ∀ i : Int, 0 ≤ i → i < count →
      i ∈ s.progress.done ∨ t.Open L i := by
    intro hc i h₀ hi
    rw [hopen]
    exact hs.all hc i h₀ hi
  cases h with
  | begin hw => exact ⟨hall, hs.spent_replaced hw nofun, hs.closing⟩
  | work hw => exact ⟨hall, hs.spent_replaced hw nofun, hs.closing⟩
  | post hw => exact ⟨hall, hs.spent_replaced hw nofun, hs.closing⟩
  | fail hw => exact ⟨hall, hs.spent_replaced hw nofun, hs.closing⟩
  | finish hw hrest =>
    refine ⟨hall, hs.spent_replaced hw fun hstop _ => ?_, hs.closing⟩
    rcases hrest with rfl | hstop'
    · rfl
    · rw [hstop] at hstop'
      cases hstop'

theorem Shift.covered (h : Shift L s t) (hs : Covered L count s) : Covered L count t := by
  cases h with
  | toil h => exact h.covered hs
  | linger | drift => exact ⟨hs.all, hs.spent, hs.closing⟩

/-! ## The main line -/

theorem Covered.onward (hs : Covered L count s)
    (hcalm : t.control.InWave ∨ t.control.Idle → s.control.InWave ∨ s.control.Idle)
    (hall : ∀ i, i ∈ s.progress.done ∨ s.Open L i → i ∈ t.progress.done ∨ t.Open L i)
    (hw : t.workers = s.workers) (hstop : t.stopped = false → s.stopped = false)
    (hclosing : t.control.Closing → t.waves = []) : Covered L count t := by
  refine ⟨fun hc i h₀ hi => hall i (hs.all (hcalm hc) i h₀ hi), fun h => ?_, hclosing⟩
  rw [hw]
  exact hs.spent (hstop h)

theorem Covered.astray (hs : Covered L count s) (hw : ¬ t.control.InWave) (hi : ¬ t.control.Idle)
    (hworkers : t.workers = s.workers) (hstop : t.stopped = false → s.stopped = false) :
    Covered L count t := by
  refine ⟨fun h => (h.elim hw hi).elim, fun h => ?_, fun h => absurd (Control.closing_idle h) hi⟩
  rw [hworkers]
  exact hs.spent (hstop h)

theorem Covered.saved (hs : Covered L count s) {v : Vault} {c : Control} {cs : List Checkpoint}
    (hin : c.InWave → s.control.InWave) (hout : c.Idle → s.control.Idle)
    (hheld : c.held = s.control.held) (hclosing : c.Closing → s.control.Closing) :
    Covered L count { s with vault := v, control := c, saved := cs } := by
  refine hs.onward (Or.imp hin hout) (fun i h => ?_) rfl id fun h => hs.closing (hclosing h)
  unfold Open
  rwa [hheld]

/-- Where nothing is left to do, everything is done. -/
theorem Covered.done_of_idle (hs : Covered L count s) (hf : Flow L count s) (hi : s.control.Idle)
    (hwaves : s.waves = []) {i : Int} (h₀ : 0 ≤ i) (hc : i < count) : i ∈ s.progress.done := by
  obtain ⟨hout, hfinished⟩ := hf.settled hi
  have hstop := (hf.calm (Or.inr hi)).1
  have hheld : s.control.held = [] := by
    cases hcon : s.control <;> rw [hcon] at hi <;> first | rfl | exact hi.elim
  refine (hs.all (Or.inr hi) i h₀ hc).resolve_right ?_
  rintro (h | h)
  · rw [ahead, hwaves, List.mem_append, List.mem_flatMap] at h
    rcases h with ⟨w, hw, h⟩ | h
    · rw [hs.spent hstop w hw (hfinished w hw)] at h
      cases h
    · cases h
  · rw [hheld, hout] at h
    cases h

theorem Move.covered (h : Move s t) (hf : Flow L count s) (hs : Covered L count s) :
    Covered L count t := by
  cases h with
  | @wave w ws hc hw =>
    have hidle : s.control.Idle := by rw [hc]; trivial
    have hspent : s.workers.flatMap (indicesOf L) = [] := by
      rw [List.flatMap_eq_nil_iff]
      intro x hx
      exact hs.spent (hf.calm (Or.inr hidle)).1 x hx ((hf.settled hidle).2 x hx)
    refine ⟨fun _ i h₀ hi => (hs.all (Or.inr hidle) i h₀ hi).imp_right ?_, ?_, False.elim⟩
    · rintro (h | h)
      · refine Or.inl ?_
        rw [ahead, hspent, hw] at h
        rw [ahead, flatMap_begun]
        simpa using h
      · exact Or.inr (by rwa [hc] at h)
    · intro _ x hx hlot
      obtain ⟨is, -, rfl⟩ := List.mem_map.mp hx
      cases hlot
  | last hc hw =>
    exact hs.onward (fun _ => Or.inr (by rw [hc]; trivial))
      (fun i h => by unfold Open at h; rwa [hc] at h) rfl id fun _ => hw
  | take hc ho =>
    refine hs.onward (fun _ => Or.inl (by rw [hc]; trivial)) (fun i h => ?_) rfl id False.elim
    unfold Open at h
    rwa [hc, ho] at h
  | @commit o hc =>
    refine hs.onward (fun _ => Or.inl (by rw [hc]; trivial)) (fun i h => ?_) rfl id False.elim
    rcases h with h | h | h
    · exact Or.inl (Progress.mem_done_commit.mpr (Or.inr h))
    · exact Or.inr (Or.inl h)
    · rw [hc, Control.held, List.singleton_append, List.map_cons, List.mem_cons] at h
      rcases h with rfl | h
      · exact Or.inl (Progress.mem_done_commit.mpr (Or.inl rfl))
      · exact Or.inr (Or.inr h)
  | idle hc | seen hc | busy hc | late hc =>
    exact hs.onward (fun _ => Or.inl (by rw [hc]; trivial))
      (fun i h => by unfold Open at h; rwa [hc] at h) rfl id False.elim
  | close hc =>
    exact hs.onward (fun _ => Or.inl (by rw [hc]; trivial))
      (fun i h => by unfold Open at h; rwa [hc] at h) rfl id False.elim
  | raise | interrupt => exact hs.astray id id rfl (by simp)
  | abort | crash | pick | keep | drop | salvaged => exact hs.astray id id rfl id
  | @pass e hc =>
    cases e <;> exact @Covered.saved _ _ _ _ _ hs s.vault _ s.saved
      (by simp [hc, Errand.next, Control.InWave]) (by simp [hc, Errand.next, Control.Idle])
      (by rw [hc]; rfl) (by simp [hc, Errand.next, Control.Closing])
  | @record e error time v hc =>
    cases e <;> exact hs.saved (by simp [hc, Control.InWave]) (by simp [hc, Control.Idle])
      (by rw [hc]; rfl) (by simp [hc, Control.Closing])
  | @reflect e c hc =>
    cases e <;> exact hs.saved (by simp [hc, Errand.next, Control.InWave])
      (by simp [hc, Errand.next, Control.Idle]) (by rw [hc]; rfl)
      (by simp [hc, Errand.next, Control.Closing])

/-! ## Runs -/

theorem started_covered (s : Course ω J) {p : Progress} {enabled : Bool} {workers size : Int}
    {survivors : List (Worker J)} (hp : p.count = count) :
    Covered L count (s.started p enabled workers size survivors) := by
  refine ⟨fun _ i h₀ hi => ?_, fun _ _ hw => (nomatch hw), False.elim⟩
  by_cases hd : i ∈ p.done
  · exact Or.inl hd
  · refine Or.inr (Or.inl ?_)
    have hitems := started_items (L := L) s p enabled workers size survivors
    rw [items] at hitems
    have hpending : i ∈ p.pending := Progress.mem_pending.mpr ⟨⟨h₀, by rwa [hp]⟩, hd⟩
    rwa [← hitems] at hpending

theorem Start.covered (h : Start batch count s t) (hs : Covered L count s) : Covered L count t := by
  have hcount : ∀ kept, (Progress.resumed batch count kept).count = count := by
    intro kept
    cases kept <;> rfl
  cases h with
  | resume => exact started_covered s (hcount _)
  | clear => exact hs.astray id id rfl id
  | fresh => exact started_covered _ (hcount none)
  | dry => exact started_covered s (hcount none)

theorem Step.covered (h : Step L batch count s t) (hf : Flow L count s) (hs : Covered L count s) :
    Covered L count t := by
  cases h with
  | shift h => exact h.covered hs
  | move h => exact h.covered hf hs
  | start h => exact h.covered hs

theorem Reachable.covered {s₀ : Course ω J} (h : Reachable L batch count s₀ s)
    (hf : Flow L count s₀) (hc : Covered L count s₀) : Covered L count s := by
  induction h with
  | here => exact hc
  | next hr hstep ih => exact hstep.covered (hr.flow hf) ih

theorem Reachable.completed_done {w : ω} {v : Vault}
    (h : Reachable L batch count (new batch count w v) s) (hc : s.control = .completed) {i : Int}
    (h₀ : 0 ≤ i) (hi : i < count) : i ∈ s.progress.done := by
  have hs := h.covered (new_flow w v) (new_covered w v)
  refine hs.done_of_idle (h.flow (new_flow w v)) (by rw [hc]; trivial) (hs.closing ?_) h₀ hi
  rw [hc]
  trivial

end Course

end Retype

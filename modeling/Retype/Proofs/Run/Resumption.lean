import Mathlib.Data.List.Sort
import Retype.Proofs.Run.Coverage
import Retype.Proofs.Run.Safety

/-!
# Resuming a run

Of some labours it can be told beforehand what comes of each item, whatever else is
worked on beside it and however often the work is begun again. Then every completed
run has these outcomes, no matter how its shards took turns, where it was interrupted
and how often it was resumed, if only no two shards were ever at the same item.
-/

set_option autoImplicit false

namespace Retype

/-! ## What is kept -/

namespace Vault

/-- All outcomes of a batch that are kept have a property. -/
structure Holds (v : Vault) (batch : Int) (P : Outcome → Prop) : Prop where
  rows : ∀ l, v.ledger = some l → ∀ r ∈ l.rows, r.1.1 = batch → P r.2
  mirror : ∀ c, v.loadMirror = .ok (some c) → ∀ o ∈ c.results, P o

variable {v v' : Vault} {batch : Int} {P Q : Outcome → Prop} {c : Checkpoint}

theorem Holds.imp (h : v.Holds batch P) (hpq : ∀ o, P o → Q o) : v.Holds batch Q :=
  ⟨fun l hl r hr hb => hpq _ (h.rows l hl r hr hb), fun c hc o ho => hpq _ (h.mirror c hc o ho)⟩

theorem Holds.load (h : v.Holds batch P) (hc : v.load batch = .ok (some c)) :
    ∀ o ∈ c.results, P o := by
  unfold Vault.load at hc
  split at hc
  · next c' hc' =>
    cases hc
    obtain ⟨l, hl, hload⟩ := Option.bind_eq_some_iff.mp hc'
    obtain ⟨head, -, rfl⟩ := Option.map_eq_some_iff.mp hload
    intro o ho
    obtain ⟨i, hi⟩ := Ledger.mem_outcomes.mp ho
    exact h.rows l hl _ hi rfl
  · exact h.mirror c hc

theorem mem_of_mapM {os rs : List Outcome} (h : os.mapM Ledger.row? = some rs) {r : Outcome}
    (hr : r ∈ rs) : ∃ o ∈ os, Ledger.row? o = some r := by
  induction os generalizing rs with
  | nil =>
    cases h
    cases hr
  | cons o os ih =>
    simp only [List.mapM_cons, bind, Option.bind_eq_some_iff] at h
    obtain ⟨r', hr', rs', hrs, h⟩ := h
    cases h
    rcases List.mem_cons.mp hr with rfl | hr
    · exact ⟨o, List.mem_cons_self, hr'⟩
    · obtain ⟨o', ho', heq⟩ := ih hrs hr
      exact ⟨o', List.mem_cons_of_mem o ho', heq⟩

theorem Holds.record (h : v.Holds batch P) (hv : v.record c = some v')
    (hrow : v.ledger ≠ none → ∀ o ∈ c.results, ∀ r, Ledger.row? o = some r → P r) :
    v'.Holds batch P := by
  refine ⟨fun l' hl' => ?_, fun d hd => ?_⟩
  · unfold Vault.record at hv
    split at hv
    · next hn =>
      cases hv
      rw [hn] at hl'
      cases hl'
    · next l hl =>
      obtain ⟨l₁, hsave, rfl⟩ := Option.map_eq_some_iff.mp hv
      cases hl'
      obtain ⟨head, rows, -, hrows, -, htable⟩ := Ledger.save_cases hsave
      intro r hr hb
      rw [htable] at hr
      rcases Keyed.mem_foldl hr with hr | hr
      · exact h.rows l hl r hr hb
      · obtain ⟨r', hr', rfl⟩ := List.mem_map.mp hr
        obtain ⟨o, ho, heq⟩ := mem_of_mapM hrows hr'
        exact hrow (by rw [hl]; simp) o ho r' heq
  · rw [loadMirror, record_mirror hv] at hd
    exact h.mirror d hd

theorem Holds.reflect (h : v.Holds batch P) (hold : ∀ o ∈ c.results, P o.retold) :
    (v.reflect c).Holds batch P := by
  refine ⟨h.rows, fun d hd o ho => ?_⟩
  rw [reflect_loadMirror] at hd
  cases hd
  obtain ⟨o', ho', rfl⟩ := List.mem_map.mp ho
  exact hold o' ho'

theorem Holds.clearLedger (h : v.Holds batch P) : (v.clearLedger batch).Holds batch P := by
  refine ⟨fun l' hl' r hr hb => ?_, h.mirror⟩
  obtain ⟨l, hl, rfl⟩ := Option.map_eq_some_iff.mp hl'
  exact h.rows l hl r (List.mem_filter.mp hr).1 hb

theorem Holds.clearMirror (h : v.Holds batch P) : v.clearMirror.Holds batch P :=
  ⟨h.rows, nofun⟩

theorem record_ledger (hv : v.record c = some v') : v'.ledger ≠ none → v.ledger ≠ none := by
  unfold Vault.record at hv
  split at hv
  · cases hv
    exact id
  · next l hl =>
    intro _
    rw [hl]
    simp

end Vault

/-! ## What is told beforehand -/

/-- What can be told beforehand of a labour on the items of a batch: the outcome of each
item, what worlds are met, what holds of a job on its way, and what an item leaves in the
world for good. -/
structure Forecast {ω J : Type} (L : Labour ω J) (count : Nat) where
  verdict : Int → Outcome
  Fit : ω → Prop
  Apt : ω → J → Prop
  Left : Int → ω → Prop
  apt_begun : ∀ {w} {i : Int}, Fit w → 0 ≤ i → i < count → Apt w (L.begun i)
  fit_step : ∀ {w j w' j'}, Fit w → Apt w j → L.Step w j w' j' → Fit w'
  apt_step : ∀ {w j w' j'}, Fit w → Apt w j → L.Step w j w' j' → Apt w' j'
  apt_other : ∀ {w j w' j' k}, Fit w → Apt w j → L.Step w j w' j' → L.owner k ≠ L.owner j →
    Apt w k → Apt w' k
  left_step : ∀ {w j w' j' i}, Fit w → Apt w j → L.Step w j w' j' → Left i w → Left i w'
  fit_drift : ∀ {w w'}, L.Drift w w' → Fit w → Fit w'
  apt_drift : ∀ {w w' j}, L.Drift w w' → Fit w → Apt w j → Apt w' j
  left_drift : ∀ {w w' i}, L.Drift w w' → Left i w → Left i w'
  judged : ∀ {w j o}, Apt w j → L.outcome? j = some o →
    o = verdict (L.owner j) ∧ Left (L.owner j) w

namespace Forecast

variable {ω J : Type} {L : Labour ω J} {count : Nat} (F : Forecast L count)

/-- The outcome that was told of an item, and what the item leaves is there. -/
structure Right (w : ω) (o : Outcome) : Prop where
  low : 0 ≤ o.index
  high : o.index < count
  told : o = F.verdict o.index
  left : F.Left o.index w

/-- What is kept of the outcomes is what they are. -/
structure Lasts (v : Vault) : Prop where
  retold : ∀ i : Int, 0 ≤ i → i < count → (F.verdict i).retold = F.verdict i
  row : v.ledger ≠ none → ∀ i : Int, 0 ≤ i → i < count →
    ∀ r, Ledger.row? (F.verdict i) = some r → r = F.verdict i

variable {F}

theorem Lasts.right_row {v : Vault} (h : F.Lasts v) (hl : v.ledger ≠ none) {w : ω} {o r : Outcome}
    (ho : F.Right w o) (hr : Ledger.row? o = some r) : F.Right w r := by
  have := h.row hl o.index ho.low ho.high r (by rw [← ho.told, hr])
  rw [this, ← ho.told]
  exact ho

theorem Lasts.right_retold {v : Vault} (h : F.Lasts v) {w : ω} {o : Outcome} (ho : F.Right w o) :
    F.Right w o.retold := by
  have := h.retold o.index ho.low ho.high
  rw [← ho.told] at this
  rw [this]
  exact ho

end Forecast

namespace Course

variable {ω J : Type} {L : Labour ω J} {batch : Int} {count : Nat} {s t : Course ω J}
  {F : Forecast L count}

/-- All went as it was told. -/
structure Foretold (F : Forecast L count) (batch : Int) (s : Course ω J) : Prop where
  fit : F.Fit s.world
  apt : ∀ x ∈ s.workers ++ s.survivors, ∀ j, x.job = some j → F.Apt s.world j
  within : ∀ x ∈ s.survivors, ∀ i ∈ x.rest, 0 ≤ i ∧ i < count
  posted : ∀ o ∈ s.posted, F.Right s.world o
  results : ∀ o ∈ s.progress.results.map (·.2), F.Right s.world o
  vault : s.vault.Holds batch (F.Right s.world)
  lasts : F.Lasts s.vault
  reflecting : ∀ e c, s.control = .reflecting e c → ∀ o ∈ c.results, F.Right s.world o

/-! ## Shards -/

/-- What is right stays right in a world where all that was left is still there. -/
theorem Foretold.moved (hs : Foretold F batch s) {w : ω} {workers survivors : List (Worker J)}
    {outbox posted : List Outcome} (hfit : F.Fit w)
    (hapt : ∀ x ∈ workers ++ survivors, ∀ j, x.job = some j → F.Apt w j)
    (hwithin : ∀ x ∈ survivors, ∀ i ∈ x.rest, 0 ≤ i ∧ i < count)
    (hleft : ∀ i, F.Left i s.world → F.Left i w)
    (hposted : ∀ o ∈ posted, o ∈ s.posted ∨ F.Right w o) :
    Foretold F batch { s with
      world := w
      workers := workers
      survivors := survivors
      outbox := outbox
      posted := posted } := by
  have hright : ∀ o, F.Right s.world o → F.Right w o := fun o ho =>
    ⟨ho.low, ho.high, ho.told, hleft _ ho.left⟩
  exact ⟨hfit, hapt, hwithin, fun o ho => (hposted o ho).elim (fun ho => hright o (hs.posted o ho)) id,
    fun o ho => hright o (hs.results o ho), hs.vault.imp hright, hs.lasts,
    fun e c hc o ho => hright o (hs.reflecting e c hc o ho)⟩

/-- What a shard does goes as it was told, if no other is at the same item. -/
theorem Foretold.acted (hs : Foretold F batch s) {x y : Worker J} {w : ω} {others : List (Worker J)}
    (hact : Acts L s.world x w y) (hx : x ∈ s.workers ++ s.survivors)
    (hin : ∀ i ∈ x.rest, 0 ≤ i ∧ i < count) (hothers : others ⊆ s.workers ++ s.survivors)
    (helse : ∀ z ∈ others, Elsewhere L z x) :
    F.Fit w ∧ (∀ z, z = y ∨ z ∈ others → ∀ k, z.job = some k → F.Apt w k) ∧
      ∀ i, F.Left i s.world → F.Left i w := by
  rcases hact.2 with ⟨rfl, hjob⟩ | ⟨j, j', hj, hj', hstep⟩
  · refine ⟨hs.fit, ?_, fun _ => id⟩
    rintro z (rfl | hz) k hk
    · rcases hjob k hk with hk | ⟨i, hi, rfl⟩
      · exact hs.apt x hx k hk
      · exact F.apt_begun hs.fit (hin i hi).1 (hin i hi).2
    · exact hs.apt z (hothers hz) k hk
  · have hapt := hs.apt x hx j hj
    refine ⟨F.fit_step hs.fit hapt hstep, ?_, fun _ => F.left_step hs.fit hapt hstep⟩
    rintro z (rfl | hz) k hk
    · cases hj'.symm.trans hk
      exact F.apt_step hs.fit hapt hstep
    · exact F.apt_other hs.fit hapt hstep (helse z hz k j hk hj) (hs.apt z (hothers hz) k hk)

theorem Elsewhere.symm {x y : Worker J} (h : Elsewhere L x y) : Elsewhere L y x :=
  fun j k hj hk => (h k j hk hj).symm

theorem Apart.elsewhere (ha : s.Apart L) {l r : List (Worker J)} {x z : Worker J}
    (hw : s.survivors = l ++ x :: r) (hz : z ∈ l ++ r) : Elsewhere L z x := by
  have hpairs := ha.among
  rw [hw, List.pairwise_append, List.pairwise_cons] at hpairs
  obtain ⟨-, ⟨hafter, -⟩, hbefore⟩ := hpairs
  rcases List.mem_append.mp hz with hz | hz
  · exact hbefore z hz x List.mem_cons_self
  · exact (hafter z hz).symm

theorem mem_indicesOf {x : Worker J} {j : J} (hj : x.job = some j) : L.owner j ∈ indicesOf L x := by
  rw [indicesOf, hj]
  exact List.mem_cons_self

/-- No two shards of a run work on the same item. -/
theorem Flow.elsewhere (hf : Flow L count s) {l r : List (Worker J)} {x z : Worker J}
    (hw : s.workers = l ++ x :: r) (hz : z ∈ l ++ r) : Elsewhere L z x := by
  have hd : (s.workers.flatMap (indicesOf L)).Nodup := by
    have := hf.distinct
    rw [items, ahead] at this
    exact (List.nodup_append.mp (List.nodup_append.mp this).2.1).1
  have hp : (s.workers.flatMap (indicesOf L)).Perm
      (indicesOf L x ++ (l ++ r).flatMap (indicesOf L)) := by
    rw [hw, ← List.flatMap_cons]
    exact List.perm_middle.flatMap_right _
  intro k j hk hj he
  refine (List.nodup_append.mp (hp.nodup_iff.mp hd)).2.2 (L.owner j) (mem_indicesOf hj) (L.owner k)
    (List.mem_flatMap.mpr ⟨z, hz, mem_indicesOf hk⟩) he.symm

theorem Flow.busy_within (hf : Flow L count s) {x : Worker J} (hx : x ∈ s.workers) {i : Int}
    (hi : i ∈ indicesOf L x) : 0 ≤ i ∧ i < count :=
  hf.within i (List.mem_append_right _ (List.mem_append_left _ (List.mem_flatMap.mpr ⟨x, hx, hi⟩)))

theorem Flow.rest_within (hf : Flow L count s) {x : Worker J} (hx : x ∈ s.workers) {i : Int}
    (hi : i ∈ x.rest) : 0 ≤ i ∧ i < count :=
  hf.busy_within hx (List.mem_append_right _ hi)

theorem Flow.owner_within (hf : Flow L count s) {x : Worker J} (hx : x ∈ s.workers) {j : J}
    (hj : x.job = some j) : 0 ≤ L.owner j ∧ L.owner j < count :=
  hf.busy_within hx (mem_indicesOf hj)

theorem Toil.foretold (h : Toil L s t) (hf : Flow L count s) (ha : s.Apart L)
    (hs : Foretold F batch s) : Foretold F batch t := by
  obtain ⟨l, r, x, y, hw, hw', hact⟩ := h.acts
  obtain ⟨outbox, posted, ht, hposted⟩ := h.frame
  have hx : x ∈ s.workers := by simp [hw]
  have hothers : l ++ r ++ s.survivors ⊆ s.workers ++ s.survivors := by
    intro z hz
    rw [hw]
    simp only [List.mem_append, List.mem_cons] at hz ⊢
    tauto
  have helse : ∀ z ∈ l ++ r ++ s.survivors, Elsewhere L z x := fun z hz =>
    (List.mem_append.mp hz).elim (hf.elsewhere hw) fun hz => ha.beside z hz x hx
  obtain ⟨hfit, hapt, hleft⟩ := hs.acted hact (List.mem_append_left _ hx)
    (fun i hi => hf.rest_within hx hi) hothers helse
  rw [ht]
  refine hs.moved hfit (fun z hz => hapt z ?_) hs.within hleft fun o ho => (hposted o ho).imp_right ?_
  · rw [hw'] at hz
    simp only [List.mem_append, List.mem_cons] at hz ⊢
    tauto
  · rintro ⟨hsame, x', hx', j, hj, ho⟩
    obtain ⟨hverdict, hthere⟩ := F.judged (hs.apt x' (List.mem_append_left _ hx') j hj) ho
    obtain ⟨h₀, hi⟩ := hf.owner_within hx' hj
    rw [← L.owner_outcome ho] at h₀ hi hverdict hthere
    exact hsame ▸ ⟨h₀, hi, hverdict, hthere⟩

theorem Shift.foretold (h : Shift L s t) (hf : Flow L count s) (ha : s.Apart L)
    (hs : Foretold F batch s) : Foretold F batch t := by
  cases h with
  | toil h => exact h.foretold hf ha hs
  | @linger u stopped h =>
    obtain ⟨l, r, x, y, hw, hw', hact⟩ := h.acts
    have hw : s.survivors = l ++ x :: r := hw
    have hx : x ∈ s.survivors := by simp [hw]
    have hothers : s.workers ++ (l ++ r) ⊆ s.workers ++ s.survivors := by
      intro z hz
      rw [hw]
      simp only [List.mem_append, List.mem_cons] at hz ⊢
      tauto
    have helse : ∀ z ∈ s.workers ++ (l ++ r), Elsewhere L z x := fun z hz =>
      (List.mem_append.mp hz).elim (fun hz => (ha.beside x hx z hz).symm) (ha.elsewhere hw)
    obtain ⟨hfit, hapt, hleft⟩ := hs.acted hact (List.mem_append_right _ hx) (hs.within x hx)
      hothers helse
    refine hs.moved hfit (fun z hz => hapt z ?_) (fun z hz i hi => ?_) hleft fun _ => Or.inl
    · rw [hw'] at hz
      simp only [List.mem_append, List.mem_cons] at hz ⊢
      tauto
    · rw [hw', List.mem_append, List.mem_cons] at hz
      rcases hz with hz | rfl | hz
      · exact hs.within z (by simp [hw, hz]) i hi
      · exact hs.within x hx i (hact.1 hi)
      · exact hs.within z (by simp [hw, hz]) i hi
  | drift hd =>
    exact hs.moved (F.fit_drift hd hs.fit) (fun z hz k hk => F.apt_drift hd hs.fit (hs.apt z hz k hk))
      hs.within (fun _ => F.left_drift hd) fun _ => Or.inl

/-! ## The main line -/

theorem Foretold.turned (hs : Foretold F batch s) (hworld : t.world = s.world)
    (hworkers : ∀ x ∈ t.workers, x ∈ s.workers ∨ x.job = none)
    (hsurvivors : t.survivors = s.survivors) (hposted : t.posted = s.posted)
    (hp : t.progress = s.progress) (hv : t.vault = s.vault) (he : t.control.Even) :
    Foretold F batch t := by
  constructor
  · exact hworld ▸ hs.fit
  · intro x hx j hj
    rw [hworld]
    rw [hsurvivors] at hx
    rcases List.mem_append.mp hx with hx | hx
    · rcases hworkers x hx with hx | hx
      · exact hs.apt x (List.mem_append_left _ hx) j hj
      · rw [hx] at hj
        cases hj
    · exact hs.apt x (List.mem_append_right _ hx) j hj
  · rw [hsurvivors]
    exact hs.within
  · rw [hworld, hposted]
    exact hs.posted
  · rw [hworld, hp]
    exact hs.results
  · rw [hworld, hv]
    exact hs.vault
  · exact hv ▸ hs.lasts
  · intro e c hc
    rw [hc] at he
    exact he.elim

theorem Foretold.committed (hs : Foretold F batch s) (hf : Flow L count s) {o : Outcome}
    {e : Errand} (ho : s.control.held = [o]) : Foretold F batch (s.committed o e) := by
  have hright : F.Right s.world o := by
    refine hs.posted o (hf.passed.subset ?_)
    simp [ho]
  refine ⟨hs.fit, hs.apt, hs.within, hs.posted, fun o' ho' => ?_, hs.vault, hs.lasts, nofun⟩
  obtain ⟨x, hx, rfl⟩ := List.mem_map.mp ho'
  rcases Keyed.mem_put hx with rfl | hx
  · exact hright
  · exact hs.results _ (List.mem_map_of_mem hx)

theorem Foretold.checkpoint (hs : Foretold F batch s) (error : Json) (time : String) :
    ∀ o ∈ (s.progress.checkpoint error time).results, F.Right s.world o :=
  fun o ho => hs.results o (s.progress.ordered_perm.mem_iff.mp ho)

theorem Foretold.recorded (hs : Foretold F batch s) {e : Errand} {error : Json} {time : String}
    {v : Vault} {cs : List Checkpoint}
    (hv : s.vault.record (s.progress.checkpoint error time) = some v) :
    Foretold F batch { s with
      vault := v
      control := .reflecting e (s.progress.checkpoint error time)
      saved := cs } := by
  have hc := hs.checkpoint error time
  refine ⟨hs.fit, hs.apt, hs.within, hs.posted, hs.results, hs.vault.record hv fun hl o ho r hr => ?_,
    ⟨hs.lasts.retold, fun hl => hs.lasts.row (Vault.record_ledger hv hl)⟩, fun e' c h => ?_⟩
  · exact hs.lasts.right_row hl (hc o ho) hr
  · cases h
    exact hc

theorem Foretold.reflected (hs : Foretold F batch s) {e : Errand} {c : Checkpoint}
    {cs : List Checkpoint} (hc : s.control = .reflecting e c) :
    Foretold F batch { s with vault := s.vault.reflect c, control := e.next, saved := cs } := by
  refine ⟨hs.fit, hs.apt, hs.within, hs.posted, hs.results, hs.vault.reflect fun o ho => ?_,
    ⟨hs.lasts.retold, hs.lasts.row⟩, fun e' c' h => ?_⟩
  · exact hs.lasts.right_retold (hs.reflecting e c hc o ho)
  · cases e <;> cases h

theorem Move.workers (h : Move s t) : t.world = s.world ∧ t.posted = s.posted ∧
    t.survivors = s.survivors ∧ ∀ x ∈ t.workers, x ∈ s.workers ∨ x.job = none := by
  cases h with
  | @wave w ws hc hw =>
    refine ⟨rfl, rfl, rfl, fun x hx => Or.inr ?_⟩
    obtain ⟨is, -, rfl⟩ := List.mem_map.mp hx
    rfl
  | _ => exact ⟨rfl, rfl, rfl, fun x hx => Or.inl hx⟩

theorem Move.foretold (h : Move s t) (hf : Flow L count s) (hs : Foretold F batch s) :
    Foretold F batch t := by
  obtain ⟨hworld, hposted, hsurvivors, hworkers⟩ := h.workers
  rcases h.cases with ⟨hp, hv, -, -, -, -, -, -, he⟩ | ⟨o, e, ho, rfl⟩ |
    ⟨e, error, time, v, hc, -, hv, rfl⟩ | ⟨e, c, hc, rfl⟩
  · exact hs.turned hworld hworkers hsurvivors hposted hp hv he
  · exact hs.committed hf ho
  · exact hs.recorded hv
  · exact hs.reflected hc

/-! ## Runs -/

theorem Foretold.started (hs : Foretold F batch s) (hf : Flow L count s) {kept : Option Checkpoint}
    {enabled : Bool} {workers size : Int} {survivors : List (Worker J)} (hout : s.Outlives survivors)
    (hk : ∀ c, kept = some c → ∀ o ∈ c.results, F.Right s.world o) :
    Foretold F batch (s.started (.resumed batch count kept) enabled workers size survivors) := by
  have hsurvivors : survivors ⊆ s.workers ++ s.survivors := by
    rcases hout with rfl | rfl
    · exact List.nil_subset _
    · exact List.Subset.refl _
  refine ⟨hs.fit, fun x hx => hs.apt x (hsurvivors hx), fun x hx i hi => ?_, nofun, fun o ho => ?_,
    hs.vault, hs.lasts, nofun⟩
  · rcases List.mem_append.mp (hsurvivors hx) with hx | hx
    · exact hf.rest_within hx hi
    · exact hs.within x hx i hi
  · obtain ⟨x, hx, rfl⟩ := List.mem_map.mp ho
    cases kept with
    | none => cases hx
    | some c =>
      obtain ⟨o', ho', rfl⟩ := List.mem_map.mp (Keyed.mem_of_ofList hx)
      exact hk c rfl o' (List.mem_filter.mp ho').1

theorem Start.foretold (h : Start batch count s t) (hf : Flow L count s) (hs : Foretold F batch s) :
    Foretold F batch t := by
  cases h with
  | resume hc hload hout =>
    refine hs.started hf hout fun c hk => ?_
    cases hk
    exact hs.vault.load hload
  | clear hc =>
    refine ⟨hs.fit, hs.apt, hs.within, hs.posted, hs.results, hs.vault.clearLedger,
      ⟨hs.lasts.retold, fun hl => hs.lasts.row fun hn => hl ?_⟩, nofun⟩
    show s.vault.ledger.map _ = none
    rw [hn]
    rfl
  | @fresh workers size survivors hc hout =>
    have hv : Foretold F batch { s with vault := s.vault.clearMirror } := by
      refine ⟨hs.fit, hs.apt, hs.within, hs.posted, hs.results, hs.vault.clearMirror,
        ⟨hs.lasts.retold, hs.lasts.row⟩, fun e c h => ?_⟩
      rw [hc] at h
      cases h
    exact hv.started { hf with } hout nofun
  | dry _ hout => exact hs.started hf hout nofun

theorem Step.foretold (h : Step L batch count s t) (hf : Flow L count s) (ha : s.Apart L)
    (hs : Foretold F batch s) : Foretold F batch t := by
  cases h with
  | shift h => exact h.foretold hf ha hs
  | move h => exact h.foretold hf hs
  | start h => exact h.foretold hf hs

theorem ReachableApart.apart {s₀ : Course ω J} (h : ReachableApart L batch count s₀ s)
    (h₀ : s₀.Apart L) : s.Apart L := by
  cases h with
  | here => exact h₀
  | next _ _ ha => exact ha

theorem ReachableApart.foretold {s₀ : Course ω J} (h : ReachableApart L batch count s₀ s)
    (hf : Flow L count s₀) (h₀ : s₀.Apart L) (hs : Foretold F batch s₀) : Foretold F batch s := by
  induction h with
  | here => exact hs
  | next hr hstep _ ih => exact hstep.foretold (hr.reachable.flow hf) (hr.apart h₀) ih

theorem new_foretold {w : ω} {v : Vault} (hw : F.Fit w) (hv : v.Holds batch fun _ => False)
    (hl : F.Lasts v) : Foretold F batch (new batch count w v : Course ω J) :=
  ⟨hw, nofun, nofun, nofun, nofun, hv.imp nofun, hl, nofun⟩

/-- A completed run has the outcomes that were told, and what the items leave is there. -/
theorem ReachableApart.completed_foretold {w : ω} {v : Vault} (hw : F.Fit w)
    (hv : v.Holds batch fun _ => False) (hl : F.Lasts v) (hown : v.Own batch)
    (ha : ReachableApart L batch count (new batch count w v) s) (hc : s.control = .completed) :
    s.progress.ordered = (List.range count).map (fun n : Nat => F.verdict n) ∧ F.Fit s.world ∧
      ∀ i : Int, 0 ≤ i → i < count → F.Left i s.world := by
  have h := ha.reachable
  have hf := ha.foretold (new_flow w v) (apart_of_none rfl) (new_foretold hw hv hl)
  have hk := (h.kept (new_flow w v) (new_kept hown)).sound
  have hwhole := (h.kept (new_flow w v) (new_kept hown)).whole
  have hright : ∀ o ∈ s.progress.ordered, F.Right s.world o := fun o ho =>
    hf.results o (s.progress.ordered_perm.mem_iff.mp ho)
  have hindices : s.progress.ordered.map (·.index) = (List.range count).map Int.ofNat :=
    Progress.ordered_whole hk hwhole fun i h₀ hi => h.completed_done hc h₀ hi
  refine ⟨?_, hf.fit, fun i h₀ hi => ?_⟩
  · have htold : s.progress.ordered = (s.progress.ordered.map (·.index)).map F.verdict := by
      rw [List.map_map]
      exact (List.map_id _).symm.trans (List.map_congr_left fun o ho => (hright o ho).told)
    rw [htold, hindices, List.map_map]
    rfl
  · have hmem := (Progress.ordered_indices hk).mem_iff.mpr (h.completed_done hc h₀ hi)
    obtain ⟨o, ho, rfl⟩ := List.mem_map.mp hmem
    exact (hright o ho).left

end Course

end Retype

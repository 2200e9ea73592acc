import Retype.Proofs.Run.Copying
import Retype.Proofs.Run.Lasting
import Retype.Proofs.Run.Sequence

/-!
# Crashing and resuming is running through

In an orderly batch each item comes to what migrating it at the beginning comes to. So
all completed runs of the batch have the same outcomes and leave the same outputs: those
that went through, and those that were interrupted at any step and resumed, any number
of times, beside the shards of the runs before, as long as no two are at the same item.
-/

set_option autoImplicit false

namespace Retype

/-- Nothing is kept of a batch. -/
structure Vault.Bare (k : Vault) (batch : Int) : Prop where
  rows : ∀ l, k.ledger = some l → ∀ r ∈ l.rows, r.1.1 ≠ batch
  mirror : ∀ d, k.loadMirror ≠ .ok (some d)

theorem Vault.bare_empty (batch : Int) : ({} : Vault).Bare batch where
  rows := by
    intro l hl
    cases hl
  mirror := by
    intro d hd
    cases hd

namespace Conditions

open Job Workspace

section

variable (c : Conditions) (b : Batch) (v : Workspace)

/-- What is said of the items of a batch can be kept as it is said. -/
structure Legible (k : Vault) : Prop where
  mishaps : ∀ stage path m, c.upset stage path = some m → m.kind ≠ ""
  targets : ∀ n path t, b.pathOf? n = some path → c.prepare v path = .ok (.ready t) → t.target ≠ ""
  names : k.ledger ≠ none → ∀ m ∈ b.members, ∃ s, m.name = .str s

/-- The checkpoints of a batch are kept apart from all places that matter. -/
structure Aside (a : Archive) : Prop where
  plain : Path.Plain (a.fileOf b.id)
  file : ¬ c.Matters b v (Path.normal (a.fileOf b.id))
  draft : ¬ c.Matters b v (Path.normal (draftOf (a.fileOf b.id)))
  folders : ∀ dir ∈ foldersAbove (a.fileOf b.id), c.Matters b v (Path.normal dir) →
    v.entry? dir ≠ none ∧ ∀ n, Path.normal dir ∉ c.spots b v n

/-- The outcome of an item that is migrated at the beginning. -/
def verdictOf (i : Int) : Outcome :=
  ((b.members[i.toNat]?).bind fun m => (c.migrate v i m).2.toOption).getD default

/-- An item comes to an outcome, and more than the item does not end. -/
def Settles (i : Int) : Prop := ∃ m, b.members[i.toNat]? = some m ∧ ∃ r, (c.migrate v i m).2 = .ok r

end

variable {c : Conditions} {b : Batch} {v w w' : Workspace} {n : Nat} {i : Int} {m : Member}
  {path : String} {t : Retyped} {x : String × String} {j j' : Job}

/-! ## Migrating an item at the beginning -/

theorem writeOutputs_concluded (ho : c.Orderly b v) (hready : c.Ready b v i m path t)
    {seen : List ((String × String) × Option String)}
    (hs : v.standing (c.outputsOf b v i.toNat) = .ok seen)
    (hr : refuses c.options.force seen = false) {e : Option OsError}
    (he : v.writeEach (changed seen) = (w', e)) :
    c.judged v i m = c.concluded (announced (c.begun i m) t) path t e := by
  have hplan : c.planned b v i.toNat = changed seen := by
    rw [planned_eq hs, hr]
    rfl
  have hstart : c.OnWay b v v
      (writing (announced (c.begun i m) t) path t .make (changed seen)) :=
    ⟨m, hready, rfl, ⟨seen, hs, hr⟩, hplan ▸ List.Sublist.refl _,
      fun x hx => Or.inl (hplan ▸ hx), by cases changed seen <;> trivial⟩
  have hend := (through_onWay ho (writing_through he) fit_self hstart).2
  cases e with
  | none =>
    obtain ⟨-, -, -, -, -, hall, -⟩ := hend
    exact (judged_checked hready hs hr fun y hy => (hall y hy).resolve_left (by simp)).1
  | some e =>
    obtain ⟨⟨m', hm', hj⟩, -⟩ := hend
    have hmem : m' = m := Option.some.inj (hm'.symm.trans hready.member)
    rw [hmem] at hj
    exact hj

/-- Migrating an item at the beginning comes to the verdict on it. -/
theorem migrate_judged (ho : c.Orderly b v) (hm : b.members[i.toNat]? = some m) :
    (c.migrate v i m).2 = c.judged v i m := by
  unfold migrate judged
  cases hp : m.path.step with
  | error f => rfl
  | ok path =>
    cases hprep : c.prepare v path with
    | error h => simp only [hprep]
    | ok p =>
      cases p with
      | skip reason target => simp only [hprep]
      | ready t =>
        simp only [hprep]
        unfold finish
        cases henter : c.enter .write path with
        | error h => rfl
        | ok =>
          have hready : c.Ready b v i m path t := ⟨hm, hp, hprep, henter⟩
          have hj := hready.judged
          simp only [ho.writes, Bool.false_eq_true, if_false]
          unfold writeOutputs
          unfold writtenOutcome at hj ⊢
          cases hs : v.standing (c.config.outputs t) with
          | error e => rfl
          | ok seen =>
            simp only [hs] at hj ⊢
            by_cases hr : refuses c.options.force seen = true
            · simp only [if_pos hr]
            · simp only [if_neg hr] at hj ⊢
              cases he : v.writeEach (changed seen) with
              | mk w₁ e =>
                rw [← hready.outputs] at hs
                rw [← hj, writeOutputs_concluded ho hready hs (by simpa using hr) he]
                cases e <;> rfl

/-! ## The forecast -/

/-- What can be told of the items of an orderly batch. -/
def forecast (ho : c.Orderly b v) : Forecast (c.labour b (c.Matters b v)) b.size where
  verdict := c.verdictOf b v
  Fit := c.Fit b v
  Apt w j := 0 ≤ j.owner ∧ c.OnWay b v w j
  Left i w := c.Left b v i.toNat w ∧ c.Settles b v i
  apt_begun := fun _ h₀ _ => ⟨h₀, trivial⟩
  fit_step := fun hw hj h => hw.touched ho (onWay_step ho hw hj.2 h).1
  apt_step := fun hw hj h => ⟨(Works.owner_eq h).symm ▸ hj.1, (onWay_step ho hw hj.2 h).2⟩
  apt_other := by
    intro w j w' j' k hw hj h hne hk
    refine ⟨hk.1, hk.2.touched ho (onWay_step ho hw hj.2 h).1 fun he => hne ?_⟩
    have h₀ := hj.1
    have h₁ := hk.1
    show k.owner = j.owner
    omega
  left_step := by
    intro w j w' j' i hw hj h hl
    refine ⟨fun x hx => ?_, hl.2⟩
    exact (onWay_step ho hw hj.2 h).1.bears ho (planned_subset (reached_subset hx).1) (hl.1 x hx)
  fit_drift := fun h hw => hw.still h
  apt_drift := fun h _ hj => ⟨hj.1, hj.2.still h⟩
  left_drift := by
    intro w w' i h hl
    exact ⟨fun x hx => Still.bears h (planned_subset (reached_subset hx).1) (hl.1 x hx), hl.2⟩
  judged := by
    intro w j o hj hout
    cases j with
    | done r =>
      cases hout
      obtain ⟨-, ⟨m, hm, hverdict⟩, hleft⟩ := hj
      rw [← migrate_judged ho hm] at hverdict
      refine ⟨?_, hleft, m, hm, o, hverdict⟩
      show o = c.verdictOf b v o.index
      rw [verdictOf, hm, Option.bind_some, hverdict]
      rfl
    | _ => cases hout

theorem verdictOf_spoken {k : Vault} (ho : c.Orderly b v) (hl : c.Legible b v k)
    (i : Int) : (c.verdictOf b v i).Spoken ∧
      (k.ledger ≠ none → (∃ s, (c.verdictOf b v i).name = .str s) ∨ c.verdictOf b v i = default) := by
  have hdefault : (default : Outcome).Spoken := ⟨Or.inl rfl, Or.inl rfl, Or.inl rfl, Or.inl rfl⟩
  unfold verdictOf
  cases hm : b.members[i.toNat]? with
  | none => exact ⟨hdefault, fun _ => Or.inr rfl⟩
  | some m =>
    rw [Option.bind_some]
    cases hr : (c.migrate v i m).2 with
    | error => exact ⟨hdefault, fun _ => Or.inr rfl⟩
    | ok r =>
      have htargets : ∀ path t, m.path.step = .ok path → c.prepare v path = .ok (.ready t) →
          t.target ≠ "" := fun path t hp =>
        hl.targets i.toNat path t (by rw [Batch.pathOf?, hm, Option.bind_some, hp]; rfl)
      obtain ⟨hspoken, hname⟩ := migrate_spoken hl.mishaps ho.skips htargets hr
      refine ⟨hspoken, fun hk => Or.inl ?_⟩
      show ∃ s, r.name = .str s
      rw [hname]
      exact hl.names hk m (List.mem_of_getElem? hm)

theorem forecast_lasts {k : Vault} (ho : c.Orderly b v) (hl : c.Legible b v k) :
    (forecast ho).Lasts k := by
  refine ⟨fun i _ _ => (verdictOf_spoken ho hl i).1.retold, fun hk i _ _ r hr => ?_⟩
  obtain ⟨hspoken, hname⟩ := verdictOf_spoken ho hl i
  rcases hname hk with ⟨s, hs⟩ | hd
  · exact hspoken.row hs hr
  · rw [show (forecast ho).verdict i = default from hd] at hr
    cases hr

/-! ## Completed runs -/

theorem outputs_settled (hw : c.Fit b v w) (hw' : c.Fit b v w') (hl : c.Left b v n w)
    (hl' : c.Left b v n w') (hx : x ∈ c.outputsOf b v n) : w.entry? x.1 = Workspace.entry? w' x.1 := by
  by_cases hr : x ∈ c.reached b v n
  · rw [(hl x hr).written, (hl' x hr).written]
  · have h := (hw.outputs n x hx).resolve_right fun h => hr h.1
    have h' := (hw'.outputs n x hx).resolve_right fun h => hr h.1
    rw [h, h']

theorem migrate_left (ho : c.Orderly b v) (hm : b.members[i.toNat]? = some m) {r : Outcome}
    (hr : (c.migrate v i m).2 = .ok r) :
    c.Fit b v (c.migrate v i m).1 ∧ c.Left b v i.toNat (c.migrate v i m).1 := by
  have h := migrate_through hm (show c.migrate v i m = ((c.migrate v i m).1, .ok r) from Prod.ext rfl hr)
  obtain ⟨hfit, -, hleft⟩ := through_onWay ho h fit_self trivial
  have hindex : r.index = i := through_owner h
  exact ⟨hfit, hindex ▸ hleft⟩

open Course in
/-- Every completed run of an orderly batch has the outcomes that migrating the items at
the beginning gives, and leaves the outputs that it leaves. -/
theorem completed_settled (ho : c.Orderly b v) {k : Vault} (hl : c.Legible b v k)
    (hk : k.Bare b.id) {s : Course Workspace Job}
    (h : ReachableApart (c.labour b (c.Matters b v)) b.id b.size (new b.id b.size v k) s)
    (hs : s.control = .completed) :
    s.progress.ordered = (List.range b.size).map (fun n : Nat => c.verdictOf b v n) ∧
      ∀ (n : Nat) m, b.members[n]? = some m →
        (c.migrate v n m).2 = .ok (c.verdictOf b v n) ∧ ∀ x ∈ c.outputsOf b v n,
          s.world.entry? x.1 = Workspace.entry? (c.migrate v n m).1 x.1 := by
  have hholds : k.Holds b.id fun _ => False :=
    ⟨fun l hl r hr he => hk.rows l hl r hr he, fun d hd => (hk.mirror d hd).elim⟩
  obtain ⟨hresults, hfit, hleft⟩ := h.completed_foretold (F := forecast ho) fit_self hholds
    (forecast_lasts ho hl) (fun d hd => (hk.mirror d hd).elim) hs
  refine ⟨hresults, fun n m hm => ?_⟩
  have hn : n < b.size := (List.getElem?_eq_some_iff.mp hm).1
  obtain ⟨hthere, m', hm', r, hr⟩ := hleft n (by omega) (by omega)
  have hmem : m' = m := Option.some.inj (hm'.symm.trans hm)
  rw [hmem] at hr
  have hverdict : c.verdictOf b v n = r := by
    rw [verdictOf, Int.toNat_natCast, hm, Option.bind_some, hr]
    rfl
  obtain ⟨hfit', hthere'⟩ := migrate_left ho (i := n) hm hr
  rw [hverdict]
  exact ⟨hr, fun x hx => outputs_settled hfit hfit' hthere hthere' hx⟩

/-! ## The run of a program that works alone -/

theorem writeWhole_other {p text k : String} (hp : Path.Plain p) (h : k ≠ Path.normal p)
    (h' : k ≠ Path.normal (draftOf p))
    (hf : w.entryAt? k ≠ none ∨ ∀ dir ∈ foldersAbove p, k ≠ Path.normal dir) :
    (w.writeWhole p text).1.entryAt? k = w.entryAt? k := by
  have hraised : (w.raised p).entryAt? k = w.entryAt? k := by
    rcases hf with hf | hf
    · exact raised_kept hf
    · exact raised_other hp hf
  unfold writeWhole
  rw [makeFolder_eq]
  cases w.makeError? p with
  | some e =>
    simp only [unlessFailed]
    exact hraised
  | none =>
    cases hw : (w.raised p).write (p ++ ".tmp") text with
    | error e =>
      simp only [unlessFailed, settled, hw]
      exact hraised
    | ok w₁ =>
      have h₁ : w₁.entryAt? k = w.entryAt? k := by
        rw [write_put hw, entryAt?_put_other (p := p ++ ".tmp") h', hraised]
      simp only [unlessFailed, settled, hw]
      cases hr : w₁.replace (p ++ ".tmp") p with
      | error e => exact h₁
      | ok w₂ =>
        obtain ⟨text', hput⟩ := replace_put hr
        rw [hput, entryAt?_put_other h, entryAt?_erase_other (p := p ++ ".tmp") h', h₁]

theorem Fit.still_saved {a : Archive} (ha : c.Aside b v a) {s : Site} (hs : c.Fit b v s.files)
    {p : Checkpoint} (hp : p.batch = b.id) : c.Still b v s.files (a.save s p).1.files := by
  intro k hk
  have hfile : k ≠ Path.normal (a.fileOf p.batch) := by
    rw [hp]
    exact fun he => ha.file (he ▸ hk)
  have hdraft : k ≠ Path.normal (draftOf (a.fileOf p.batch)) := by
    rw [hp]
    exact fun he => ha.draft (he ▸ hk)
  have hfolders : s.files.entryAt? k ≠ none ∨
      ∀ dir ∈ foldersAbove (a.fileOf p.batch), k ≠ Path.normal dir := by
    rw [hp]
    refine or_iff_not_imp_right.mpr fun hway => ?_
    obtain ⟨dir, hd, rfl⟩ : ∃ dir ∈ foldersAbove (a.fileOf b.id), k = Path.normal dir := by
      simpa using hway
    obtain ⟨hthere, hspot⟩ := ha.folders dir hd hk
    obtain ⟨n, hn | hn | hn⟩ := hk
    · exact absurd hn (hspot n)
    · rcases hs.ways n _ hn with h | ⟨-, h⟩
      · rw [h]
        exact hthere
      · simp [h]
    · rw [hs.sources n _ hn]
      exact hthere
  unfold Archive.save
  split
  · rfl
  · cases hr : a.record s p with
    | error e => rfl
    | ok s' =>
      have hsame : s'.files = s.files := by
        unfold Archive.record at hr
        split at hr
        · cases hr
          rfl
        · split at hr
          · cases hr
          · cases hr
            rfl
      simp only [hsame]
      exact writeWhole_other (hp ▸ ha.plain) hfile hdraft hfolders

theorem minds_orderly (ho : c.Orderly b v) {e : Equipment} (ha : c.Aside b v e.archive) :
    Minds c b e (c.Matters b v) (c.Fit b v) where
  migrates := fun hw hm h => (through_onWay ho (migrate_through hm h) hw trivial).1
  saves := fun hp hs => ⟨hs.still (hs.still_saved ha hp), hs.still_saved ha hp⟩

open Course in
/-- Crashing and resuming is running through. However the shards of an orderly batch took
turns, wherever they were interrupted, however often they were resumed, and whatever the
shards of the runs before still did, where no two were at the same item: a completed run
has the outcomes and leaves the outputs of every other completed run, of the program's run
that works alone and goes through, and of migrating the items at the beginning. -/
theorem resumed_as_through (ho : c.Orderly b v) {k : Vault} (hl : c.Legible b v k)
    (hk : k.Bare b.id) {s : Course Workspace Job}
    (h : ReachableApart (c.labour b (c.Matters b v)) b.id b.size (new b.id b.size v k) s)
    (hs : s.control = .completed) :
    (∀ t, ReachableApart (c.labour b (c.Matters b v)) b.id b.size (new b.id b.size v k) t →
      t.control = .completed → s.progress.ordered = t.progress.ordered ∧
        ∀ n, ∀ x ∈ c.outputsOf b v n, s.world.entry? x.1 = t.world.entry? x.1) ∧
    (∀ e ledgers k', c.Aside b v e.archive →
      Work.all c e b ⟨⟨v, ledgers⟩, { batch := b.id, count := b.size }⟩ = (k', none) →
      s.progress.ordered = k'.progress.ordered ∧
        ∀ n, ∀ x ∈ c.outputsOf b v n, s.world.entry? x.1 = k'.site.files.entry? x.1) ∧
    ∀ (n : Nat) m, b.members[n]? = some m → ∃ r, s.progress.ordered[n]? = some r ∧
      (c.migrate v n m).2 = .ok r ∧ ∀ x ∈ c.outputsOf b v n,
        s.world.entry? x.1 = Workspace.entry? (c.migrate v n m).1 x.1 := by
  obtain ⟨hresults, hitems⟩ := completed_settled ho hl hk h hs
  have halike : ∀ {k' : Vault} (t : Course Workspace Job), c.Legible b v k' → k'.Bare b.id →
      ReachableApart (c.labour b (c.Matters b v)) b.id b.size (new b.id b.size v k') t →
      t.control = .completed → s.progress.ordered = t.progress.ordered ∧
        ∀ n, ∀ x ∈ c.outputsOf b v n, s.world.entry? x.1 = t.world.entry? x.1 := by
    intro k' t hl' hk' h' ht
    obtain ⟨hresults', hitems'⟩ := completed_settled ho hl' hk' h' ht
    refine ⟨hresults.trans hresults'.symm, fun n x hx => ?_⟩
    cases hm : b.members[n]? with
    | none =>
      rw [outputsOf, intended?, Batch.pathOf?, hm] at hx
      cases hx
    | some m => exact ((hitems n m hm).2 x hx).trans ((hitems' n m hm).2 x hx).symm
  refine ⟨fun t h' ht => halike t hl hk h' ht, fun e ledgers k' ha hrun => ?_, fun n m hm => ?_⟩
  · obtain ⟨t, h', ht, hprogress, hworld⟩ := run_follows (minds_orderly ho ha)
      (s := new b.id b.size v {}) rfl rfl rfl fit_self hrun
    have := halike t ⟨hl.mishaps, hl.targets, fun hn => absurd rfl hn⟩ (Vault.bare_empty b.id)
      h' ht
    rwa [hprogress, hworld] at this
  · have hn : n < b.size := (List.getElem?_eq_some_iff.mp hm).1
    refine ⟨c.verdictOf b v n, ?_, hitems n m hm⟩
    rw [hresults, List.getElem?_map, List.getElem?_range hn]
    rfl

/-! ## Two items beside each other -/

open Course

theorem copies_a : Copies "a.jsx" "t/a.tsx" := by decide +kernel

theorem copies_b : Copies "b.jsx" "t/b.tsx" := by decide +kernel

def pair : Batch := batchOf ["a.jsx", "b.jsx"]

def pairFiles : Workspace :=
  ⟨[("/p", .folder), ("/p/a.jsx", .file "a;"), ("/p/b.jsx", .file "a;")]⟩

theorem pair_split : Shards.waves 2 1 [(0 : Int), 1] = ([[0]] ++ [1] :: []) :: [] := by
  simp [Shards.waves, Shards.split, Shards.pieces]

theorem pair_first : pairFiles.read (calm.config.place "a.jsx") = .ok "a;" := by decide

theorem pair_second : pairFiles.read (calm.config.place "b.jsx") = .ok "a;" := by decide

def pairOutputs : Nat → List (String × String)
  | 0 => [("/p/t/a.tsx", "a;")]
  | 1 => [("/p/t/b.tsx", "a;")]
  | _ => []

theorem pair_outputs (n : Nat) : calm.outputsOf pair pairFiles n = pairOutputs n := by
  match n with
  | 0 =>
    rw [copies_a.outputs (b := pair) rfl pair_first]
    decide
  | 1 =>
    rw [copies_b.outputs (b := pair) rfl pair_second]
    decide
  | n + 2 => exact outputsOf_beyond rfl

theorem pair_spots (n : Nat) : calm.spots pair pairFiles n = match n with
    | 0 => ["/p/t/a.tsx", "/p/t/a.tsx.tmp"]
    | 1 => ["/p/t/b.tsx", "/p/t/b.tsx.tmp"]
    | _ => [] := by
  rw [spots, pair_outputs]
  match n with
  | 0 | 1 => decide
  | n + 2 => rfl

theorem pair_ways (n : Nat) : calm.ways pair pairFiles n = match n with
    | 0 | 1 => ["/p", "/p/t"]
    | _ => [] := by
  rw [ways, pair_outputs]
  match n with
  | 0 | 1 => decide
  | n + 2 => rfl

theorem pair_sourceWay (n : Nat) : calm.sourceWay pair n = match n with
    | 0 => ["/p", "/p/a.jsx"]
    | 1 => ["/p", "/p/b.jsx"]
    | _ => [] := by
  match n with
  | 0 | 1 => decide
  | n + 2 => rfl

theorem pair_orderly : calm.Orderly pair pairFiles where
  writes := rfl
  skips := rfl
  clean := by
    intro _ n x hx
    rw [pair_outputs] at hx
    match n with
    | 0 | 1 =>
      cases List.mem_singleton.mp hx
      decide
    | n + 2 => cases hx
  plain := by
    intro n x hx
    rw [pair_outputs] at hx
    match n with
    | 0 =>
      cases List.mem_singleton.mp hx
      exact ⟨["p".toList, "t".toList, "a.tsx".toList], by decide, by unfold Path.Telling; decide,
        by decide⟩
    | 1 =>
      cases List.mem_singleton.mp hx
      exact ⟨["p".toList, "t".toList, "b.tsx".toList], by decide, by unfold Path.Telling; decide,
        by decide⟩
    | n + 2 => cases hx
  short := by
    intro n x hx
    rw [pair_outputs] at hx
    match n with
    | 0 | 1 =>
      cases List.mem_singleton.mp hx
      decide
    | n + 2 => cases hx
  sightly := by
    intro n path hp
    match n with
    | 0 =>
      cases hp
      exact copies_a.sightly
    | 1 =>
      cases hp
      exact copies_b.sightly
    | n + 2 => cases hp
  firm := by
    intro n x hx
    rw [pair_outputs] at hx
    have hfree : ∀ m, ∀ y ∈ pairOutputs m, ∀ dir ∈ foldersAbove y.1 ++ [y.1],
        pairFiles.entry? dir = none ∨ pairFiles.entry? dir = some .folder := by
      intro m
      match m with
      | 0 | 1 => decide
      | m + 2 => exact fun y hy => nomatch hy
    refine List.pairwise_of_forall_mem_list fun a _ b hb _ text => ?_
    rcases hfree n x hx b hb with h | h <;> simp [h]
  distinct := by
    intro n
    rw [pair_spots]
    match n with
    | 0 | 1 => decide
    | n + 2 => exact .nil
  apart := by
    intro n m hne
    rw [pair_spots, pair_spots]
    match n, m with
    | 0, 0 | 1, 1 => exact absurd rfl hne
    | 0, 1 | 1, 0 => simp
    | n + 2, _ => simp
    | _, m + 2 => simp
  aside := by
    intro n m
    rw [pair_spots, pair_ways]
    match n, m with
    | 0, 0 | 0, 1 | 1, 0 | 1, 1 => simp
    | n + 2, _ => simp
    | _, m + 2 => simp
  safe := by
    intro n m
    rw [pair_spots, pair_sourceWay]
    match n, m with
    | 0, 0 | 0, 1 | 1, 0 | 1, 1 => simp
    | n + 2, _ => simp
    | _, m + 2 => simp
  settled := by
    intro n m k hk hnone
    have hthere : ∀ k ∈ calm.sourceWay pair n, pairFiles.entryAt? k ≠ none := by
      rw [pair_sourceWay]
      match n with
      | 0 | 1 => decide
      | n + 2 => simp
    exact absurd hnone (hthere k hk)

theorem pair_prepared (n : Nat) (path : String) (h : pair.pathOf? n = some path) :
    ∃ goal, goal ≠ "" ∧ calm.prepare pairFiles path = .ok (.ready (copied goal)) := by
  match n with
  | 0 =>
    cases h
    exact ⟨"t/a.tsx", by decide, copies_a.prepared pair_first⟩
  | 1 =>
    cases h
    exact ⟨"t/b.tsx", by decide, copies_b.prepared pair_second⟩
  | n + 2 => cases h

theorem pair_legible : calm.Legible pair pairFiles {} where
  mishaps := by
    intro stage path m h
    cases h
  targets := by
    intro n path t hp ht
    obtain ⟨goal, hgoal, hready⟩ := pair_prepared n path hp
    rw [hready] at ht
    cases ht
    exact hgoal
  names := fun h => absurd rfl h

def pairHalf : Workspace :=
  ⟨pairFiles.entries ++ [("/p/t", .folder), ("/p/t/b.tsx", .file "a;")]⟩

def pairWhole : Workspace := ⟨pairHalf.entries ++ [("/p/t/a.tsx", .file "a;")]⟩

/-- A run goes down when the second of two items was written and not committed. Taken up
again, it comes to what migrating the items at the beginning comes to. -/
theorem pair_resumed : ∃ s t,
    ReachableApart (calm.labour pair (calm.Matters pair pairFiles)) pair.id pair.size
      (new pair.id pair.size pairFiles {}) s ∧
    s.control = .down ∧ s.world.entry? "/p/t/b.tsx" = some (.file "a;") ∧
    ReachableApart (calm.labour pair (calm.Matters pair pairFiles)) pair.id pair.size s t ∧
    t.control = .completed ∧ ∀ (n : Nat) m, pair.members[n]? = some m →
      ∃ r, t.progress.ordered[n]? = some r ∧ (calm.migrate pairFiles n m).2 = .ok r ∧
        ∀ x ∈ calm.outputsOf pair pairFiles n,
          t.world.entry? x.1 = Workspace.entry? (calm.migrate pairFiles n m).1 x.1 := by
  have hw : copyIn pairFiles "t/b.tsx" = (pairHalf, .ok true) := copyIn_eq (by decide +kernel)
  have hr₀ : pairHalf.read (calm.config.place "a.jsx") = .ok "a;" := by decide
  have hw₀ : copyIn pairHalf "t/a.tsx" = (pairWhole, .ok true) := copyIn_eq (by decide +kernel)
  have hr₁ : pairWhole.read (calm.config.place "b.jsx") = .ok "a;" := by decide
  have hw₁ : copyIn pairWhole "t/b.tsx" = (pairWhole, .ok true) := copyIn_eq (by decide +kernel)
  have hbefore := copies_b.written 1 pair_second hw
  have h₀ := copies_a.written 0 hr₀ hw₀
  have h₁ := copies_b.written 1 hr₁ hw₁
  obtain ⟨s, hs, hdown, hworld, hvault⟩ := downed_reachable (b := pair)
    (s := new pair.id pair.size pairFiles {}) rfl rfl pair_split rfl hbefore
  rw [← hworld] at h₀
  obtain ⟨t, ht, hcompleted, -, -⟩ := Migrates.follows (b := pair) hdown
    (by rw [hvault]; rfl) (by rw [hvault]; rfl) (.next rfl h₀ (.next rfl h₁ .done))
  exact ⟨s, t, hs, hdown, by rw [hworld]; decide, ht, hcompleted,
    (resumed_as_through pair_orderly pair_legible (Vault.bare_empty _) (hs.trans ht) hcompleted).2.2⟩

/-! ## Runs that come apart -/

/-- Some run of a batch goes through, and some is interrupted, resumed and completed with other
outcomes. -/
def Diverges (b : Batch) (v : Workspace) (Reach : Course Workspace Job → Course Workspace Job → Prop) :
    Prop :=
  ∃ k s t, Work.all calm unsaved b ⟨⟨v, []⟩, { batch := b.id, count := b.size }⟩ = (k, none) ∧
    Reach (new b.id b.size v {}) s ∧ s.control = .down ∧ Reach s t ∧ t.control = .completed ∧
    t.progress.ordered ≠ k.progress.ordered

/-! One item below another. -/

theorem copies_nested : Copies "a.tsx/b.jsx" "t/a.tsx/b.tsx" := by decide +kernel

def nested : Batch := batchOf ["a.jsx", "a.tsx/b.jsx"]

def nestedFiles : Workspace :=
  ⟨[("/p", .folder), ("/p/a.jsx", .file "a;"), ("/p/a.tsx", .folder),
    ("/p/a.tsx/b.jsx", .file "a;")]⟩

def nestedLabour : Labour Workspace Job := calm.labour nested (calm.Matters nested nestedFiles)

theorem nested_first : nestedFiles.read (calm.config.place "a.jsx") = .ok "a;" := by decide

theorem nested_second : nestedFiles.read (calm.config.place "a.tsx/b.jsx") = .ok "a;" := by
  decide

def nestedFlat : Workspace :=
  ⟨nestedFiles.entries ++ [("/p/t", .folder), ("/p/t/a.tsx", .file "a;")]⟩

def nestedDeep : Workspace :=
  ⟨nestedFiles.entries ++
    [("/p/t", .folder), ("/p/t/a.tsx", .folder), ("/p/t/a.tsx/b.tsx", .file "a;")]⟩

def nestedCrossed : Workspace := ⟨nestedDeep.entries ++ [("/p/t/a.tsx.tmp", .file "a;")]⟩

/-- A run that goes through: the second item finds a file where it needs a folder. -/
theorem nested_through : ∃ k, Work.all calm unsaved nested
      ⟨⟨nestedFiles, []⟩, { batch := nested.id, count := nested.size }⟩ = (k, none) ∧
    k.progress.ordered.map (·.success) = [true, false] := by
  have hw₀ : copyIn nestedFiles "t/a.tsx" = (nestedFlat, .ok true) :=
    copyIn_eq (by decide +kernel)
  have hr₁ : nestedFlat.read (calm.config.place "a.tsx/b.jsx") = .ok "a;" := by decide
  have hw₁ : copyIn nestedFlat "t/a.tsx/b.tsx" =
      (nestedFlat, .error ⟨.present, "/p/t/a.tsx", none⟩) := copyIn_eq (by decide +kernel)
  have h₀ := copies_a.written 0 nested_first hw₀
  have h₁ := copies_nested.refused 1 hr₁ hw₁
  have h := Migrates.next (b := nested) rfl h₀ (.next rfl h₁ .done)
  exact ⟨_, h.all, by rw [h.ordered]; rfl⟩

/-- A run goes down when the second item is written. Taken up again, it finds a folder
where the first item is to be. -/
theorem nested_crossed : ∃ s t, ReachableApart nestedLabour nested.id nested.size
      (new nested.id nested.size nestedFiles {}) s ∧ s.control = .down ∧
    ReachableApart nestedLabour nested.id nested.size s t ∧ t.control = .completed ∧
    t.progress.ordered.map (·.success) = [false, true] := by
  have hw : copyIn nestedFiles "t/a.tsx/b.tsx" = (nestedDeep, .ok true) :=
    copyIn_eq (by decide +kernel)
  have hr₀ : nestedDeep.read (calm.config.place "a.jsx") = .ok "a;" := by decide
  have hw₀ : copyIn nestedDeep "t/a.tsx" =
      (nestedCrossed, .error ⟨.isFolder, "/p/t/a.tsx.tmp", some "/p/t/a.tsx"⟩) :=
    copyIn_eq (by decide +kernel)
  have hr₁ : nestedCrossed.read (calm.config.place "a.tsx/b.jsx") = .ok "a;" := by
    decide
  have hw₁ : copyIn nestedCrossed "t/a.tsx/b.tsx" = (nestedCrossed, .ok true) :=
    copyIn_eq (by decide +kernel)
  have hbefore := copies_nested.written 1 nested_second hw
  have h₀ := copies_a.refused 0 hr₀ hw₀
  have h₁ := copies_nested.written 1 hr₁ hw₁
  obtain ⟨s, hs, hdown, hworld, hvault⟩ := downed_reachable (b := nested)
    (s := new nested.id nested.size nestedFiles {}) rfl rfl pair_split rfl hbefore
  rw [← hworld] at h₀
  obtain ⟨t, ht, hcontrol, hordered, -⟩ := Migrates.follows (b := nested) hdown
    (by rw [hvault]; rfl) (by rw [hvault]; rfl) (.next rfl h₀ (.next rfl h₁ .done))
  exact ⟨s, t, hs, hdown, ht, hcontrol, by rw [hordered]; rfl⟩

theorem nested_diverges :
    Diverges nested nestedFiles (ReachableApart nestedLabour nested.id nested.size) := by
  obtain ⟨k, hk, hsuccess⟩ := nested_through
  obtain ⟨s, t, hs, hdown, ht, hcompleted, hsuccess'⟩ := nested_crossed
  refine ⟨k, s, t, hk, hs, hdown, ht, hcompleted, fun he => ?_⟩
  rw [he, hsuccess] at hsuccess'
  cases hsuccess'

/-! Two shards at one item. -/

def pairMade : Workspace := ⟨pairFiles.entries ++ [("/p/t", .folder)]⟩

def pairDraft : Workspace := ⟨pairMade.entries ++ [("/p/t/a.tsx.tmp", .file "a;")]⟩

def pairPlaced : Workspace := ⟨pairMade.entries ++ [("/p/t/a.tsx", .file "a;")]⟩

def pairDone : Workspace := ⟨pairPlaced.entries ++ [("/p/t/b.tsx", .file "a;")]⟩

def pairLabour : Labour Workspace Job := calm.labour pair (calm.Matters pair pairFiles)

def pairPlacing : Job := copying 0 "a.jsx" "t/a.tsx" .place

def pairMissed : Outcome := (announced (calm.begun 0 (memberAt "a.jsx")) (copied "t/a.tsx")).failedAt .write
  (OsError.message ⟨.missing, "/p/t/a.tsx.tmp", some "/p/t/a.tsx"⟩)

theorem pair_waves : Shards.waves 1 1 [(0 : Int), 1] = [[[0]], [[1]]] := by
  simp [Shards.waves, Shards.split, Shards.pieces]

theorem pair_drafts : calm.Through pair (pairFiles, untouched 0) (pairDraft, pairPlacing) :=
  copies_a.drafts (b := pair) (i := 0) rfl (by decide) (by decide) (show _ = (pairMade, none) by rfl) (by rfl)

theorem pair_redrafts : calm.Through pair (pairDraft, untouched 0) (pairDraft, pairPlacing) :=
  copies_a.drafts (b := pair) (i := 0) rfl (by decide) (by decide) (show _ = (pairDraft, none) by rfl) (by rfl)

theorem pair_places : ∃ j, calm.advance pair pairDraft pairPlacing = some (pairPlaced, j) :=
  ⟨_, advance_place (by rfl)⟩

theorem pair_misses : calm.advance pair pairPlaced pairPlacing = some (pairPlaced, done pairMissed) :=
  advance_missed (by rfl)

theorem pair_pending : (Progress.resumed 1 2 (some
    (Progress.checkpoint { batch := 1, count := 2 } .null "").retold)).pending = [0, 1] := by
  simp [Progress.resumed, Progress.checkpoint, Progress.ordered, Checkpoint.retold, Progress.ofCheckpoint]
  rfl

/-- Resumed beside the shard that lives on, the run finds its draft moved by it. -/
theorem pair_rivalled {s : Course Workspace Job} (hdown : s.control = .down) (hworld : s.world = pairDraft)
    (hworkers : s.workers = [⟨[], some pairPlacing, .working⟩]) (hnone : s.survivors = [])
    (hledger : s.vault.ledger = none) {kept : Option Checkpoint} (hkept : s.vault.load pair.id = .ok kept)
    (hpending : (Progress.resumed pair.id pair.size kept).pending = [0, 1]) :
    ∃ t, Reachable pairLabour pair.id pair.size s t ∧ t.control = .completed ∧
      pairMissed ∈ t.progress.ordered := by
  have hwaves : Shards.waves 1 1 (Progress.resumed pair.id pair.size kept).pending = [[[0]], [[1]]] := by
    rw [hpending, pair_waves]
  have hout : s.Outlives [⟨[], some pairPlacing, .working⟩] := Or.inr (by rw [hworkers, hnone]; rfl)
  have h₀ : Reachable pairLabour pair.id pair.size s (s.started (.resumed pair.id pair.size kept) true 1 1
      [⟨[], some pairPlacing, .working⟩]) := .next .here (.start (.resume hdown hkept hout))
  have h : Runs pairLabour (s.started (.resumed pair.id pair.size kept) true 1 1
      [⟨[], some pairPlacing, .working⟩]) _ := Move.runs (.wave rfl hwaves)
  have h := h.trans (begun_runs (l := []) (z := (pairDraft, pairPlacing)) rfl (hworld ▸ pair_redrafts))
  obtain ⟨j, hplaces⟩ := pair_places
  have h := h.trans (Shift.runs (@Shift.linger _ _ _ _ _ true (.work (l := []) rfl (.step hplaces))))
  have h := h.trans (Toil.runs (.work (l := []) rfl (.step pair_misses)))
  have h := h.trans (Toil.runs (.post (l := []) (o := pairMissed) rfl rfl))
  have h := h.trans (filed_runs pairLabour rfl rfl rfl hledger)
  have h := h.trans (Toil.runs (.finish (l := []) rfl (Or.inl rfl)))
  have h := h.trans (left_runs pairLabour rfl rfl (by simp))
  -- the other item goes well
  have hread : pairPlaced.read (calm.config.place "b.jsx") = .ok "a;" := by decide
  have hcopy : copyIn pairPlaced "t/b.tsx" = (pairDone, .ok true) := copyIn_eq (by decide +kernel)
  have h := h.trans (Move.runs (.wave rfl rfl))
  have h := h.trans (worked_runs (l := []) rfl rfl (copies_b.written 1 hread hcopy))
  have h := h.trans (filed_runs pairLabour rfl rfl rfl hledger)
  have h := h.trans (Toil.runs (.finish (l := []) rfl (Or.inl rfl)))
  have h := h.trans (left_runs pairLabour rfl rfl (by simp))
  obtain ⟨t, h, hc, hp, -⟩ := Runs.completed h rfl rfl rfl hledger
  refine ⟨t, h₀.runs h, hc, t.progress.ordered_perm.mem_iff.mpr ?_⟩
  have hget : Keyed.get? 0 t.progress.results = some pairMissed := by
    rw [hp]
    exact (Keyed.get?_put_other _ (by decide)).trans (Keyed.get?_put_self _)
  exact List.mem_map_of_mem (f := (·.2)) (Keyed.get?_of_mem hget)

theorem pair_through : ∃ k, Work.all calm unsaved pair
      ⟨⟨pairFiles, []⟩, { batch := pair.id, count := pair.size }⟩ = (k, none) ∧
    k.progress.ordered.map (·.success) = [true, true] := by
  have hw₀ : copyIn pairFiles "t/a.tsx" = (pairPlaced, .ok true) := copyIn_eq (by decide +kernel)
  have hr₁ : pairPlaced.read (calm.config.place "b.jsx") = .ok "a;" := by decide
  have hw₁ : copyIn pairPlaced "t/b.tsx" = (pairDone, .ok true) := copyIn_eq (by decide +kernel)
  have h₀ := copies_a.written 0 pair_first hw₀
  have h₁ := copies_b.written 1 hr₁ hw₁
  have h := Migrates.next (b := pair) rfl h₀ (.next rfl h₁ .done)
  exact ⟨_, h.all, by rw [h.ordered]; rfl⟩

theorem pair_diverges : Diverges pair pairFiles (Reachable pairLabour pair.id pair.size) := by
  obtain ⟨k, hk, hsuccess⟩ := pair_through
  obtain ⟨s, hs, hdown, hworld, hworkers, hnone, hvault⟩ := @interrupted_reachable calm pair
    (calm.Matters pair pairFiles) (new pair.id pair.size pairFiles {}) rfl rfl rfl _ _ _ _ pair_waves _ pair_drafts
  have hkept : s.vault.load pair.id = .ok (some (Progress.checkpoint (.resumed 1 2 none) .null "").retold) := by
    rw [hvault]
    exact Vault.reflect_loadMirror {} _
  obtain ⟨t, ht, hcompleted, hmissed⟩ := pair_rivalled hdown hworld hworkers hnone (by rw [hvault]; rfl)
    hkept pair_pending
  refine ⟨k, s, t, hk, hs, hdown, ht, hcompleted, fun he => ?_⟩
  have hfailed : pairMissed.success ∈ k.progress.ordered.map (·.success) :=
    List.mem_map_of_mem (he ▸ hmissed)
  rw [hsuccess] at hfailed
  revert hfailed
  decide

/-- Crashing and resuming is not running through where an item is to be written below another,
though no two shards were ever at the same item; nor where a shard that outlived its run is at
the same item as one of the next, though the batch is orderly. -/
theorem resumed_differs :
    ((calm.options.dryRun = false ∧ calm.options.skipExisting = false ∧ calm.verifies = false) ∧
      calm.outputsOf nested nestedFiles 0 = [("/p/t/a.tsx", "a;")] ∧
      calm.outputsOf nested nestedFiles 1 = [("/p/t/a.tsx/b.tsx", "a;")] ∧
      Diverges nested nestedFiles (ReachableApart nestedLabour nested.id nested.size)) ∧
    calm.Orderly pair pairFiles ∧ calm.Legible pair pairFiles {} ∧ ({} : Vault).Bare pair.id ∧
      Diverges pair pairFiles (Reachable pairLabour pair.id pair.size) := by
  have hout₀ := copies_a.outputs (b := nested) (n := 0) rfl nested_first
  have hout₁ := copies_nested.outputs (b := nested) (n := 1) rfl nested_second
  have hplace₀ : calm.config.place "t/a.tsx" = "/p/t/a.tsx" := by decide
  have hplace₁ : calm.config.place "t/a.tsx/b.tsx" = "/p/t/a.tsx/b.tsx" := by decide
  exact ⟨⟨⟨rfl, rfl, by decide⟩, hplace₀ ▸ hout₀, hplace₁ ▸ hout₁, nested_diverges⟩, pair_orderly,
    pair_legible, Vault.bare_empty _, pair_diverges⟩

end Conditions

end Retype

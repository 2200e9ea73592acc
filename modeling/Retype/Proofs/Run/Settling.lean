import Retype.Proofs.Run.Resumption
import Retype.Proofs.Run.Verdict

/-!
# Items settle as foretold

Every step of a job keeps to what work on its item may do, and brings the item on its
way to the verdict. So migrating an item comes to the verdict, and so does every job,
whatever is worked on beside it.
-/

set_option autoImplicit false

namespace Retype.Conditions

open Job Workspace

variable {c : Conditions} {b : Batch} {v w w' : Workspace} {n : Nat} {i : Int} {m : Member}
  {path : String} {t : Retyped} {x : String × String} {j j' : Job}

/-! ## What other items leave alone -/

theorem OnWay.kept (h : c.OnWay b v w j) (hn : j.owner.toNat = n)
    (hbears : ∀ x ∈ c.outputsOf b v n, w.Bears x → w'.Bears x)
    (hopen : ∀ x ∈ c.outputsOf b v n, w.Open x.1 → w'.Open x.1)
    (hdraft : ∀ x ∈ c.outputsOf b v n, Workspace.entry? w' (draftOf x.1) = w.entry? (draftOf x.1)) :
    c.OnWay b v w' j := by
  subst hn
  cases j with
  | untouched => trivial
  | loaded => exact h
  | looking o path t seen rest =>
    obtain ⟨m, hready, ho, hrest, seen₀, hseen, hs⟩ := h
    refine ⟨m, hready, ho, hrest, seen₀, hseen.imp ?_, hs⟩
    rintro a a₀ ⟨h₁, h₂ | ⟨⟨hne, hreach, hb⟩, h₂⟩⟩
    · exact ⟨h₁, Or.inl h₂⟩
    · have hx := planned_subset (reached_subset hreach).1
      exact ⟨h₁, Or.inr ⟨⟨hne, hreach, hbears _ hx hb⟩, h₂⟩⟩
  | writing o path t pen rest =>
    obtain ⟨m, hready, ho, hplan, hsub, hall, hstage⟩ := h
    refine ⟨m, hready, ho, hplan, hsub, fun x hx => ?_, ?_⟩
    · exact (hall x hx).imp_right fun ⟨hp, hb⟩ => ⟨hp, hbears x (planned_subset hx) hb⟩
    · cases rest with
      | nil => cases pen <;> trivial
      | cons x rest =>
        have hx := planned_subset (hsub.subset (List.mem_cons_self))
        cases pen with
        | make => trivial
        | draft => exact ⟨hstage.1, hopen x hx hstage.2⟩
        | place =>
          obtain ⟨hm, hd, hop, he⟩ := hstage
          exact ⟨hm, hd, hopen x hx hop, (hdraft x hx).trans he⟩
  | done o =>
    exact ⟨h.1, fun x hx => hbears x (planned_subset (reached_subset hx).1) (h.2 x hx)⟩

theorem OnWay.touched (h : c.OnWay b v w j) (ho : c.Orderly b v) (ht : c.Touch b v n w w')
    (hne : j.owner.toNat ≠ n) : c.OnWay b v w' j :=
  h.kept rfl (fun _ hx => ht.bears ho hx) (fun _ hx => ht.open ho hx)
    fun _ hx => ht.other ho hne (draft_mem_spots hx)

theorem OnWay.still (h : c.OnWay b v w j) (hs : c.Still b v w w') : c.OnWay b v w' j :=
  h.kept rfl (fun _ hx => hs.bears hx)
    (fun _ hx hop dir hd => (hs _ ⟨_, Or.inr (Or.inl (mem_ways hx hd))⟩).trans (hop dir hd))
    fun _ hx => hs _ ⟨_, Or.inl (draft_mem_spots hx)⟩

/-! ## Steps before writing -/

theorem Fit.load (hw : c.Fit b v w) (hm : b.members[n]? = some m) (hp : m.path.step = .ok path) :
    c.load w path = c.load v path := by
  refine load_congr fun dir hd => hw.sources n (Path.normal dir) ?_
  rw [sourceWay, Batch.pathOf?, hm, Option.bind_some, hp]
  exact List.mem_map_of_mem hd

theorem Orderly.prepareUnit (ho : c.Orderly b v) {u : SourceUnit} (hm : b.members[n]? = some m)
    (hp : m.path.step = .ok path) (hu : c.load v path = .ok u) :
    c.prepareUnit w path u = c.prepareUnit v path u := by
  refine prepareUnit_congr ho.skips ?_
  rw [load_path hu]
  refine ho.sightly n path ?_
  rw [Batch.pathOf?, hm, Option.bind_some, hp]
  rfl

theorem prepare_loaded {u : SourceUnit} (hu : c.load v path = .ok u) :
    c.prepare v path = c.prepareUnit v path u := by
  show (c.load v path >>= c.prepareUnit v path) = _
  rw [hu]
  rfl

theorem onWay_takeUp (hw : c.Fit b v w) (hm : b.members[i.toNat]? = some m)
    (h : c.takeUp w i m = some (w', j')) : w' = w ∧ c.OnWay b v w j' := by
  unfold takeUp at h
  cases hp : m.path.step with
  | error f =>
    simp only [hp] at h
    obtain ⟨r, hr, rfl, rfl⟩ := ended_eq h
    refine ⟨rfl, onWay_done hm ?_ (halted_same (o := c.begun i m) hr).1 ?_⟩
    · rw [judged, hp]
      exact hr
    · exact left_of_unready hm fun path t hs => by rw [hp] at hs; cases hs
  | ok path =>
    simp only [hp] at h
    rw [hw.load hm hp] at h
    cases hu : c.load v path with
    | error e =>
      have hprep : c.prepare v path = .error e := by
        show (c.load v path >>= c.prepareUnit v path) = _
        rw [hu]
        rfl
      simp only [hu] at h
      obtain ⟨r, hr, rfl, rfl⟩ := ended_eq h
      refine ⟨rfl, onWay_done hm ?_ (halted_same (o := c.begun i m) hr).1 ?_⟩
      · unfold judged
        simp only [hp, hprep]
        exact hr
      · refine left_of_unready hm fun path' t hs hprep' => ?_
        cases hp.symm.trans hs
        rw [hprep] at hprep'
        cases hprep'
    | ok u =>
      simp only [hu] at h
      cases h
      exact ⟨rfl, m, hm, hp, hu, rfl⟩

theorem onWay_leadUp (ho : c.Orderly b v) {o : Outcome} {u : SourceUnit}
    (hj : c.OnWay b v w (loaded o path u)) (h : c.leadUp w o path u = some (w', j')) :
    w' = w ∧ c.OnWay b v w j' := by
  obtain ⟨m, hm, hp, hu, hbegun⟩ := hj
  generalize hi : o.index = i at hm hbegun
  subst hbegun
  have hprep := prepare_loaded hu
  unfold leadUp at h
  rw [ho.prepareUnit hm hp hu, ← hprep] at h
  cases hprepare : c.prepare v path with
  | error e =>
    simp only [hprepare] at h
    obtain ⟨r, hr, rfl, rfl⟩ := ended_eq h
    refine ⟨rfl, onWay_done hm ?_ (halted_same (o := c.begun i m) hr).1 ?_⟩
    · unfold judged
      simp only [hp, hprepare]
      exact hr
    · refine left_of_unready hm fun path' t hs hp' => ?_
      cases hp.symm.trans hs
      rw [hprepare] at hp'
      cases hp'
  | ok p =>
    cases p with
    | skip reason target =>
      simp only [hprepare] at h
      cases h
      refine ⟨rfl, onWay_done hm ?_ rfl ?_⟩
      · unfold judged
        simp only [hp, hprepare]
      · refine left_of_unready hm fun path' t hs hp' => ?_
        cases hp.symm.trans hs
        rw [hprepare] at hp'
        cases hp'
    | ready t =>
      simp only [hprepare] at h
      cases henter : c.enter .write path with
      | error e =>
        simp only [henter] at h
        obtain ⟨r, hr, rfl, rfl⟩ := ended_eq h
        refine ⟨rfl, onWay_done hm ?_ (halted_same (o := announced (c.begun i m) t) hr).1 ?_⟩
        · unfold judged
          simp only [hp, hprepare, henter]
          exact hr
        · refine left_of_unready hm fun path' t' hs _ he => ?_
          cases hp.symm.trans hs
          rw [henter] at he
          cases he
      | ok =>
        simp only [henter, ho.writes, Bool.false_eq_true, if_false] at h
        cases h
        have hready : c.Ready b v i m path t := ⟨hm, hp, hprepare, henter⟩
        refine ⟨rfl, m, hready, rfl, ?_, [], .nil, ?_⟩
        · rw [show c.outputsOf b v (announced (c.begun i m) t).index.toNat = _ from hready.outputs]
          exact fun _ => id
        · rw [show c.outputsOf b v (announced (c.begun i m) t).index.toNat = _ from hready.outputs]
          cases v.standing (c.config.outputs t) <;> rfl

/-- What comes to be written was not there at the beginning. -/
theorem planned_current (hx : x ∈ c.planned b v n) :
    ∃ text, v.current? x.1 = .ok text ∧ text ≠ some x.2 := by
  unfold planned at hx
  split at hx
  · next seen hs =>
    split at hx
    · cases hx
    · obtain ⟨a, ha, rfl⟩ := List.mem_map.mp hx
      obtain ⟨hmem, hne⟩ := List.mem_filter.mp ha
      exact ⟨a.2, standing_current hs hmem, by simpa using hne⟩
  · cases hx

theorem map_cons_append {ε α : Type} (r : Except ε (List α)) (a : α) (l : List α) :
    (r.map (a :: ·)).map (l ++ ·) = r.map (l ++ [a] ++ ·) := by
  cases r with
  | error e => rfl
  | ok l' => simp [Except.map]

theorem onWay_lookAt (ho : c.Orderly b v) (hw : c.Fit b v w) {o : Outcome}
    {seen : List ((String × String) × Option String)} {rest : List (String × String)}
    (hj : c.OnWay b v w (looking o path t seen rest))
    (h : c.lookAt w o path t seen rest = some (w', j')) : w' = w ∧ c.OnWay b v w j' := by
  obtain ⟨m, hready, hann, hsub, seen₀, hseen, hs⟩ := hj
  have hjudged := hready.judged
  rw [← hann] at hjudged
  cases rest with
  | nil =>
    have hs₀ : v.standing (c.outputsOf b v o.index.toNat) = .ok seen₀ := by
      rw [hs]
      show Except.ok (seen₀ ++ [].reverse) = _
      rw [List.reverse_nil, List.append_nil]
    unfold lookAt at h
    rw [saw_refuses ho hs₀ hseen] at h
    by_cases hr : refuses c.options.force seen₀ = true
    · rw [if_pos hr] at h
      cases h
      refine ⟨rfl, ⟨m, hready.member, ?_⟩, left_of_unplanned ?_⟩
      · show c.judged v o.index m = _
        rw [hjudged]
        unfold writtenOutcome
        rw [← hready.outputs]
        simp only [hs₀, hr, if_true]
      · show c.planned b v o.index.toNat = []
        rw [planned_eq hs₀, if_pos hr]
    · rw [if_neg hr] at h
      cases h
      obtain ⟨hchanged, hall⟩ := saw_changed hseen
      have hplan : c.planned b v o.index.toNat = changed seen₀ := by
        rw [planned_eq hs₀, if_neg hr]
      rw [← hplan] at hchanged hall
      exact ⟨rfl, m, hready, hann, ⟨seen₀, hs₀, Bool.not_eq_true _ ▸ hr⟩, hchanged, hall, trivial⟩
  | cons x rest =>
    have hx : x ∈ c.outputsOf b v o.index.toNat := hsub List.mem_cons_self
    have hrest : rest ⊆ c.outputsOf b v o.index.toNat := fun y hy => hsub (List.mem_cons_of_mem x hy)
    rw [standing_cons] at hs
    rcases hw.current? ho hx with hcur | ⟨⟨hreach, hb⟩, hcur⟩
    · cases hv : v.current? x.1 with
      | error e =>
        simp only [lookAt, hcur, hv] at h
        simp only [hv] at hs
        cases h
        refine ⟨rfl, ⟨m, hready.member, ?_⟩, left_of_unplanned ?_⟩
        · show c.judged v o.index m = _
          rw [hjudged]
          unfold writtenOutcome
          rw [← hready.outputs]
          simp only [hs, Except.map]
          rfl
        · show c.planned b v o.index.toNat = []
          unfold planned
          rw [hs]
          rfl
      | ok text =>
        simp only [lookAt, hcur, hv] at h
        simp only [hv] at hs
        cases h
        refine ⟨rfl, m, hready, hann, hrest, seen₀ ++ [(x, text)], ?_, ?_⟩
        · exact List.rel_append hseen (.cons ⟨rfl, Or.inl rfl⟩ .nil)
        · show v.standing (c.outputsOf b v o.index.toNat) = _
          rw [hs, map_cons_append]
    · obtain ⟨text, hv, hne⟩ := planned_current (reached_subset hreach).1
      simp only [lookAt, hcur] at h
      simp only [hv] at hs
      cases h
      refine ⟨rfl, m, hready, hann, hrest, seen₀ ++ [(x, text)], ?_, ?_⟩
      · exact List.rel_append hseen (.cons ⟨rfl, Or.inr ⟨⟨hne, hreach, hb⟩, rfl⟩⟩ .nil)
      · show v.standing (c.outputsOf b v o.index.toNat) = _
        rw [hs, map_cons_append]

/-! ## Steps of writing -/

theorem goOn_failed {o : Outcome} {e : OsError} (h : goOn o j (w, some e) = some (w', j')) :
    w' = w ∧ j' = done (o.failedAt .write e.message) := by
  rw [goOn, halted_failed] at h
  cases h
  exact ⟨rfl, rfl⟩

theorem goOn_done {o : Outcome} (h : goOn o j (w, none) = some (w', j')) : w' = w ∧ j' = j := by
  obtain ⟨rfl, rfl⟩ := Prod.mk.inj (Option.some.inj h)
  exact ⟨rfl, rfl⟩

theorem blocked?_draft (hp : Path.Plain x.1) (hs : Path.Short x.1) (hopen : w.Open x.1) :
    w.blocked? (draftOf x.1) = (Path.flaw? (draftOf x.1)).or
      (if Path.isLong (Path.tidy (draftOf x.1)) then some .tooLong else none) := by
  have hfolders := foldersAbove_draft hp
  refine blocked?_reached ?_ ?_
  · rw [hfolders]
    exact hs.folders
  · rwa [Workspace.Open, hfolders]

theorem wholeError?_of_make {e : OsError} (h : v.makeError? x.1 = some e) :
    v.wholeError? x.1 = some e := by
  rw [wholeError?, h, Option.some_or]

theorem wholeError?_of_draft {e : OsError} (hm : v.makeError? x.1 = none)
    (h : v.draftError? x.1 = some e) : v.wholeError? x.1 = some e := by
  rw [wholeError?, hm, h, Option.none_or, Option.some_or]

theorem wholeError?_of_place (hm : v.makeError? x.1 = none) (hd : v.draftError? x.1 = none) :
    v.wholeError? x.1 = v.placeError? x.1 := by
  rw [wholeError?, hm, hd, Option.none_or, Option.none_or]

/-- The draft of an output is written, whole or in part. -/
theorem write_touch (ho : c.Orderly b v) (hw : c.Fit b v w) (hx : x ∈ c.outputsOf b v n)
    (hopen : w.Open x.1) {text : String} (h : w.write (draftOf x.1) text = .ok w') :
    v.draftError? x.1 = none ∧ c.Touch b v n w w' ∧
      Workspace.entry? w' (draftOf x.1) = some (.file text) := by
  rw [write_eq (blocked?_draft (ho.plain n x hx) (ho.short n x hx) hopen)] at h
  cases hd : w.draftError? x.1 with
  | some e =>
    simp only [hd] at h
    cases h
  | none =>
    simp only [hd] at h
    cases h
    have hne := (draftError?_none hd).2
    refine ⟨(hw.draftError? hx).symm.trans hd, touch_draft ho hx hne text, ?_⟩
    exact entryAt?_put_self (normal_ne_top hne)

theorem handled_touched (ho : c.Orderly b v) (ht : c.Touch b v n w w')
    {rest : List (String × String)}
    (hall : ∀ y ∈ c.planned b v n, y ∈ rest ∨ Handled v w y) :
    ∀ y ∈ c.planned b v n, y ∈ rest ∨ Handled v w' y := fun y hy =>
  (hall y hy).imp_right fun ⟨hp, hb⟩ => ⟨hp, ht.bears ho (planned_subset hy) hb⟩

theorem onWay_putDown (ho : c.Orderly b v) (hw : c.Fit b v w) {o : Outcome} {pen : Pen}
    {rest : List (String × String)} (hj : c.OnWay b v w (writing o path t pen rest))
    (h : c.putDown w o path t pen rest = some (w', j')) :
    c.Touch b v o.index.toNat w w' ∧ c.OnWay b v w' j' := by
  obtain ⟨m, hready, hann, ⟨seen₀, hs, hr⟩, hsub, hall, hstage⟩ := hj
  cases rest with
  | nil =>
    have hend := judged_checked hready hs hr fun y hy => (hall y hy).resolve_left (by simp)
    rw [← hann] at hend
    simp only [putDown] at h
    obtain ⟨r, hcheck, rfl, rfl⟩ := ended_eq h
    exact ⟨.refl _ _, onWay_done hready.member (hend.1.trans hcheck) (c.checked_same hcheck).1 hend.2⟩
  | cons x rest =>
    obtain ⟨pre, post, hplan, hrest, hfront⟩ := sublist_front (ho.planned_nodup _) hsub
    have hpre : ∀ y ∈ pre, Handled v w y := fun y hy =>
      (hall y (by simp [hplan, hy])).resolve_left (hfront y hy)
    have hx : x ∈ c.outputsOf b v o.index.toNat := planned_subset (by simp [hplan])
    have hfail : ∀ e w₁, c.Touch b v o.index.toNat w w₁ → v.wholeError? x.1 = some e →
        c.OnWay b v w₁ (done (o.failedAt .write e.message)) := fun e w₁ ht he => by
      have hpre₁ : ∀ y ∈ pre, Handled v w₁ y := fun y hy =>
        (handled_touched ho ht hall y (by simp [hplan, hy])).resolve_left (hfront y hy)
      have hend := judged_failed hready hs hr hplan hpre₁ he
      rw [← hann] at hend
      exact onWay_done hready.member hend.1 rfl hend.2
    cases pen with
    | make =>
      have ht := touch_raised ho hx w
      simp only [putDown, makeFolder_eq, hw.makeError? ho hx] at h
      cases hm : v.makeError? x.1 with
      | some e =>
        rw [hm] at h
        obtain ⟨hw₁, hj₁⟩ := goOn_failed h
        rw [hw₁, hj₁]
        exact ⟨ht, hfail e _ ht (wholeError?_of_make hm)⟩
      | none =>
        rw [hm] at h
        obtain ⟨hw₁, hj₁⟩ := goOn_done h
        rw [hw₁, hj₁]
        exact ⟨ht, m, hready, hann, ⟨seen₀, hs, hr⟩, hsub, handled_touched ho ht hall, hm,
          raised_open (ho.plain _ x hx) ((hw.makeError? ho hx).trans hm)⟩
    | draft =>
      obtain ⟨hm, hopen⟩ := hstage
      simp only [putDown] at h
      cases hwrite : w.write (draftOf x.1) x.2 with
      | error e =>
        have hd : v.draftError? x.1 = some e := by
          rw [write_eq (blocked?_draft (ho.plain _ x hx) (ho.short _ x hx) hopen),
            hw.draftError? hx] at hwrite
          cases hd : v.draftError? x.1 with
          | none =>
            simp only [hd] at hwrite
            cases hwrite
          | some e' =>
            simp only [hd] at hwrite
            cases hwrite
            rfl
        rw [hwrite] at h
        obtain ⟨rfl, rfl⟩ := goOn_failed h
        exact ⟨.refl _ _, hfail e _ (.refl _ _) (wholeError?_of_draft hm hd)⟩
      | ok w₁ =>
        rw [hwrite] at h
        obtain ⟨hw₁, hj₁⟩ := goOn_done h
        rw [hw₁, hj₁]
        obtain ⟨hd, ht, he⟩ := write_touch ho hw hx hopen hwrite
        exact ⟨ht, m, hready, hann, ⟨seen₀, hs, hr⟩, hsub, handled_touched ho ht hall, hm, hd,
          ht.open ho hx hopen, he⟩
    | place =>
      obtain ⟨hm, hd, hopen, he⟩ := hstage
      have hplace := wholeError?_of_place hm hd
      have hdraft := (blocked?_draft (ho.plain _ x hx) (ho.short _ x hx) hopen).trans
        (draftError?_none hd).1
      simp only [putDown, replace_eq hdraft (blocked?_open (ho.short _ x hx) hopen) he,
        hw.placeError? hx] at h
      cases hp : v.placeError? x.1 with
      | some e =>
        simp only [hp] at h
        obtain ⟨rfl, rfl⟩ := goOn_failed h
        exact ⟨.refl _ _, hfail e _ (.refl _ _) (hplace.trans hp)⟩
      | none =>
        simp only [hp] at h
        obtain ⟨hw₁, hj₁⟩ := goOn_done h
        rw [hw₁, hj₁]
        have hreach := mem_reached hplan hpre (hplace.trans hp)
        have hentry := (placeError?_none ((hw.placeError? hx).trans hp)).2
        obtain ⟨ht, hb⟩ := touch_placed ho hreach hopen (by simp [he]) hentry
        refine ⟨ht, m, hready, hann, ⟨seen₀, hs, hr⟩, ?_, fun y hy => ?_, trivial⟩
        · exact (List.sublist_cons_self x rest).trans hsub
        · by_cases hxy : y = x
          · subst hxy
            exact Or.inr ⟨hplace.trans hp, hb⟩
          · refine (handled_touched ho ht hall y hy).imp_left fun hmem => ?_
            exact (List.mem_cons.mp hmem).resolve_left hxy

/-- A step of a job does to the files what work on its item may do, and brings the item
on its way. -/
theorem onWay_step (ho : c.Orderly b v) (hw : c.Fit b v w) (hj : c.OnWay b v w j)
    (h : c.Works b w j w' j') : c.Touch b v j.owner.toNat w w' ∧ c.OnWay b v w' j' := by
  cases h with
  | step h =>
    cases j with
    | untouched i =>
      obtain ⟨m, hm, h⟩ := Option.bind_eq_some_iff.mp h
      obtain ⟨rfl, hj'⟩ := onWay_takeUp hw hm h
      exact ⟨.refl _ _, hj'⟩
    | loaded o path u =>
      obtain ⟨rfl, hj'⟩ := onWay_leadUp ho hj h
      exact ⟨.refl _ _, hj'⟩
    | looking o path t seen rest =>
      obtain ⟨rfl, hj'⟩ := onWay_lookAt ho hw hj h
      exact ⟨.refl _ _, hj'⟩
    | writing o path t pen rest => exact onWay_putDown ho hw hj h
    | done o => cases h
  | tear h =>
    obtain ⟨m, hready, hann, hs, hsub, hall, hm, hopen⟩ := hj
    have hx := planned_subset (hsub.subset List.mem_cons_self)
    obtain ⟨-, ht, -⟩ := write_touch ho hw hx hopen h
    exact ⟨ht, m, hready, hann, hs, hsub, handled_touched ho ht hall, hm, ht.open ho hx hopen⟩

/-! ## The verdict is what migrating comes to -/

theorem through_onWay (ho : c.Orderly b v) {y : Workspace × Job} {z : Workspace × Job}
    (h : c.Through b y z) (hw : c.Fit b v y.1) (hj : c.OnWay b v y.1 y.2) :
    c.Fit b v z.1 ∧ c.OnWay b v z.1 z.2 := by
  induction h with
  | refl => exact ⟨hw, hj⟩
  | tail _ hstep ih =>
    obtain ⟨ht, hj'⟩ := onWay_step ho ih.1 ih.2 (.step hstep)
    exact ⟨ih.1.touched ho ht, hj'⟩

end Retype.Conditions

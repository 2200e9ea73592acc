import Retype.Proofs.Run.Fitness
import Retype.Proofs.Run.Job

/-!
# What comes of an item

The outcome of an item is settled by the files at the beginning. A job that meets files
as they may be met is on its way there at each of its steps: what it has seen is what was
there or what is to be, and what it leaves out of its plan is written already.
-/

set_option autoImplicit false

namespace Retype.Conditions

open Job Workspace

section

variable (c : Conditions) (b : Batch) (v : Workspace)

/-! ## Verdicts -/

/-- The outcome of an item after its outputs were written, as far as that went. -/
def concluded (o : Outcome) (path : String) (t : Retyped) :
    Option OsError → Except Mishap Outcome
  | some e => .ok (o.failedAt .write e.message)
  | none => c.checked path t.target o

/-- What comes of writing what was prepared for an item. -/
def writtenOutcome (o : Outcome) (path : String) (t : Retyped) : Except Mishap Outcome :=
  match v.standing (c.config.outputs t) with
  | .error e => .ok (o.failedAt .write e.message)
  | .ok seen =>
    if refuses c.options.force seen then .ok (yielded o t)
    else c.concluded o path t ((changed seen).findSome? fun x => v.wholeError? x.1)

/-- What comes of an item, told from the files at the beginning. -/
def judged (i : Int) (m : Member) : Except Mishap Outcome :=
  match m.path.step with
  | .error f => halted (c.begun i m) (.failed .load f.message)
  | .ok path => match c.prepare v path with
    | .error h => halted (c.begun i m) h
    | .ok (.skip reason target) => .ok (passed (c.begun i m) reason target)
    | .ok (.ready t) => match c.enter .write path with
      | .error h => halted (announced (c.begun i m) t) h
      | .ok () => c.writtenOutcome v (announced (c.begun i m) t) path t

/-- An item that gets as far as writing. -/
structure Ready (i : Int) (m : Member) (path : String) (t : Retyped) : Prop where
  member : b.members[i.toNat]? = some m
  step : m.path.step = .ok path
  prepared : c.prepare v path = .ok (.ready t)
  entered : c.enter .write path = .ok ()

/-- An output that was written and can be. -/
structure Handled (w : Workspace) (x : String × String) : Prop where
  possible : v.wholeError? x.1 = none
  there : w.Bears x

/-- All that an item comes to write is there. -/
def Left (n : Nat) (w : Workspace) : Prop := ∀ x ∈ c.reached b v n, w.Bears x

/-! ## Jobs on their way -/

/-- How an output is seen, against how it is seen at the beginning. -/
def Saw (n : Nat) (w : Workspace) (a a₀ : (String × String) × Option String) : Prop :=
  a.1 = a₀.1 ∧ (a.2 = a₀.2 ∨ (a₀.2 ≠ some a₀.1.2 ∧ a₀.1 ∈ c.reached b v n ∧ w.Bears a₀.1) ∧
    a.2 = some (String.ofList (unifyLines a₀.1.2.toList)))

/-- What is there of an output that is being written. -/
def Underway (w : Workspace) : Pen → List (String × String) → Prop
  | .draft, x :: _ => v.makeError? x.1 = none ∧ w.Open x.1
  | .place, x :: _ => v.makeError? x.1 = none ∧ v.draftError? x.1 = none ∧ w.Open x.1 ∧
      w.entry? (draftOf x.1) = some (.file x.2)
  | _, _ => True

/-- A job on the way to the verdict on its item. -/
def OnWay (w : Workspace) : Job → Prop
  | untouched _ => True
  | loaded o path u => ∃ m, b.members[o.index.toNat]? = some m ∧ m.path.step = .ok path ∧
      c.load v path = .ok u ∧ o = c.begun o.index m
  | looking o path t seen rest => ∃ m, c.Ready b v o.index m path t ∧
      o = announced (c.begun o.index m) t ∧ rest ⊆ c.outputsOf b v o.index.toNat ∧
      ∃ seen₀, List.Forall₂ (c.Saw b v o.index.toNat w) seen seen₀ ∧
        v.standing (c.outputsOf b v o.index.toNat) = (v.standing rest).map (seen₀ ++ ·)
  | writing o path t pen rest => ∃ m, c.Ready b v o.index m path t ∧
      o = announced (c.begun o.index m) t ∧
      (∃ seen₀, v.standing (c.outputsOf b v o.index.toNat) = .ok seen₀ ∧
        refuses c.options.force seen₀ = false) ∧
      rest.Sublist (c.planned b v o.index.toNat) ∧
      (∀ x ∈ c.planned b v o.index.toNat, x ∈ rest ∨ Handled v w x) ∧ Underway v w pen rest
  | done o => (∃ m, b.members[o.index.toNat]? = some m ∧ c.judged v o.index m = .ok o) ∧
      c.Left b v o.index.toNat w

end

variable {c : Conditions} {b : Batch} {v w w' : Workspace} {n : Nat} {i : Int} {m : Member}
  {path : String} {t : Retyped} {x : String × String}

theorem Ready.intended (h : c.Ready b v i m path t) : c.intended? b v i.toNat = some t := by
  rw [intended?, Batch.pathOf?, h.member, Option.bind_some, h.step]
  simp only [Except.toOption, Option.bind_some, h.prepared, h.entered]

theorem Ready.outputs (h : c.Ready b v i m path t) :
    c.outputsOf b v i.toNat = c.config.outputs t := by
  rw [outputsOf, h.intended]
  rfl

theorem Ready.judged (h : c.Ready b v i m path t) :
    c.judged v i m = c.writtenOutcome v (announced (c.begun i m) t) path t := by
  unfold Conditions.judged
  rw [h.step]
  simp only [h.prepared, h.entered]

/-! ## Items that are not written -/

theorem planned_nil (h : c.intended? b v n = none) : c.planned b v n = [] := by
  unfold planned outputsOf
  have hstanding : v.standing [] = .ok [] := rfl
  simp only [h, Option.map_none, Option.getD_none, hstanding]
  simp [changed]

theorem left_of_unplanned (h : c.planned b v n = []) : c.Left b v n w := by
  intro x hx
  have := (reached_subset hx).1
  rw [h] at this
  cases this

theorem left_of_unready (hm : b.members[n]? = some m)
    (h : ∀ path t, m.path.step = .ok path → c.prepare v path = .ok (.ready t) →
      c.enter .write path ≠ .ok ()) : c.Left b v n w := by
  refine left_of_unplanned (planned_nil ?_)
  rw [intended?, Batch.pathOf?, hm, Option.bind_some]
  cases hs : m.path.step with
  | error => rfl
  | ok path =>
    simp only [Except.toOption, Option.bind_some]
    split
    · next t hp he => exact absurd he (h path t hs hp)
    · rfl

theorem onWay_done {r : Outcome} (hm : b.members[i.toNat]? = some m)
    (hj : c.judged v i m = .ok r) (hr : r.index = i) (hl : c.Left b v i.toNat w) :
    c.OnWay b v w (done r) := by
  subst hr
  exact ⟨⟨m, hm, hj⟩, hl⟩

/-! ## What was seen -/

theorem changed_cons (a : (String × String) × Option String)
    (l : List ((String × String) × Option String)) :
    changed (a :: l) = if a.2 ≠ some a.1.2 then a.1 :: changed l else changed l := by
  unfold changed
  by_cases h : a.2 ≠ some a.1.2
  · rw [if_pos h, List.filter_cons_of_pos (by simpa using h), List.map_cons]
  · rw [if_neg h, List.filter_cons_of_neg (by simpa using h)]

theorem planned_eq {seen₀ : List ((String × String) × Option String)}
    (hs : v.standing (c.outputsOf b v n) = .ok seen₀) :
    c.planned b v n = if refuses c.options.force seen₀ then [] else changed seen₀ := by
  unfold planned
  rw [hs]

/-- Other outputs than at the beginning are there only if none is in the way. -/
theorem saw_refuses (ho : c.Orderly b v) {seen seen₀ : List ((String × String) × Option String)}
    (hs : v.standing (c.outputsOf b v n) = .ok seen₀)
    (h : List.Forall₂ (c.Saw b v n w) seen seen₀) :
    refuses c.options.force seen = refuses c.options.force seen₀ := by
  cases hforce : c.options.force with
  | true => rfl
  | false =>
    have hplan := planned_eq hs
    rw [hforce] at hplan
    by_cases hr : refuses false seen₀ = true
    · rw [if_pos hr] at hplan
      have hsame : seen = seen₀ := by
        refine List.forall₂_eq_eq_eq ▸ h.imp ?_
        rintro a a₀ ⟨h₁, h₂ | ⟨⟨-, hreach, -⟩, -⟩⟩
        · exact Prod.ext h₁ h₂
        · have := (reached_subset hreach).1
          rw [hplan] at this
          cases this
      rw [hsame]
    · rw [Bool.not_eq_true] at hr
      rw [hr]
      clear hs hplan
      induction h with
      | nil => rfl
      | @cons a a₀ l l₀ ha _ ih =>
        simp only [refuses, Bool.not_false, Bool.true_and, List.any_cons, Bool.or_eq_false_iff]
          at hr ih ⊢
        refine ⟨?_, ih hr.2⟩
        obtain ⟨h₁, h₂ | ⟨⟨-, hreach, -⟩, h₂⟩⟩ := ha
        · rw [h₁, h₂]
          exact hr.1
        · have hclean := ho.clean hforce n _ (planned_subset (reached_subset hreach).1)
          rw [h₁, h₂, unifyLines_self hclean, String.ofList_toList]
          simp

/-- What is left out of the plan is written already. -/
theorem saw_changed {seen seen₀ : List ((String × String) × Option String)}
    (h : List.Forall₂ (c.Saw b v n w) seen seen₀) :
    (changed seen).Sublist (changed seen₀) ∧
      ∀ x ∈ changed seen₀, x ∈ changed seen ∨ Handled v w x := by
  induction h with
  | nil => exact ⟨.slnil, fun x hx => (nomatch hx)⟩
  | @cons a a₀ l l₀ ha _ ih =>
    obtain ⟨hsub, hall⟩ := ih
    obtain ⟨h₁, h₂⟩ := ha
    rw [changed_cons, changed_cons, h₁]
    rcases h₂ with h₂ | ⟨⟨hne, hreach, hbears⟩, -⟩
    · rw [h₂]
      by_cases hc : a₀.2 ≠ some a₀.1.2
      · rw [if_pos hc, if_pos hc]
        refine ⟨hsub.cons_cons _, fun x hx => ?_⟩
        rcases List.mem_cons.mp hx with rfl | hx
        · exact Or.inl List.mem_cons_self
        · exact (hall x hx).imp_left (List.mem_cons_of_mem _)
      · rw [if_neg hc, if_neg hc]
        exact ⟨hsub, hall⟩
    · rw [if_pos hne]
      by_cases hc : a.2 ≠ some a₀.1.2
      · rw [if_pos hc]
        refine ⟨hsub.cons_cons _, fun x hx => ?_⟩
        rcases List.mem_cons.mp hx with rfl | hx
        · exact Or.inl List.mem_cons_self
        · exact (hall x hx).imp_left (List.mem_cons_of_mem _)
      · rw [if_neg hc]
        refine ⟨hsub.cons _, fun x hx => ?_⟩
        rcases List.mem_cons.mp hx with rfl | hx
        · exact Or.inr ⟨(reached_subset hreach).2, hbears⟩
        · exact hall x hx

/-! ## The plan -/

/-- What stands before the next output of a plan is not to be written any more. -/
theorem sublist_front {plan rest : List (String × String)} (hn : plan.Nodup)
    (h : (x :: rest).Sublist plan) :
    ∃ pre post, plan = pre ++ x :: post ∧ rest.Sublist post ∧ ∀ y ∈ pre, y ∉ x :: rest := by
  obtain ⟨r₁, r₂, rfl, hx, hrest⟩ := List.cons_sublist_iff.mp h
  obtain ⟨pre, mid, rfl⟩ := List.append_of_mem hx
  refine ⟨pre, mid ++ r₂, by simp, hrest.trans (List.sublist_append_right _ _), fun y hy hmem => ?_⟩
  rw [List.append_assoc, List.nodup_append] at hn
  refine hn.2.2 y hy y ?_ rfl
  rcases List.mem_cons.mp hmem with rfl | hmem
  · simp
  · simp [hrest.subset hmem]

section

variable {seen₀ : List ((String × String) × Option String)} {pre post : List (String × String)}

theorem writtenOutcome_eq (hready : c.Ready b v i m path t)
    (hs : v.standing (c.outputsOf b v i.toNat) = .ok seen₀)
    (hr : refuses c.options.force seen₀ = false) :
    c.judged v i m = c.concluded (announced (c.begun i m) t) path t
      ((c.planned b v i.toNat).findSome? fun x => v.wholeError? x.1) := by
  have hplan : c.planned b v i.toNat = changed seen₀ := by
    rw [planned_eq hs, hr]
    rfl
  rw [hready.judged, hplan]
  unfold writtenOutcome
  rw [← hready.outputs]
  simp only [hs, hr, Bool.false_eq_true, if_false]

/-- Where writing fails, the outcome is the failure, and what comes before is there. -/
theorem judged_failed (hready : c.Ready b v i m path t)
    (hs : v.standing (c.outputsOf b v i.toNat) = .ok seen₀)
    (hr : refuses c.options.force seen₀ = false) (hplan : c.planned b v i.toNat = pre ++ x :: post)
    (hpre : ∀ y ∈ pre, Handled v w y) {e : OsError} (he : v.wholeError? x.1 = some e) :
    c.judged v i m = .ok ((announced (c.begun i m) t).failedAt .write e.message) ∧
      c.Left b v i.toNat w := by
  constructor
  · have hfind : (c.planned b v i.toNat).findSome? (fun x => v.wholeError? x.1) = some e := by
      rw [hplan, List.findSome?_append,
        List.findSome?_eq_none_iff.mpr fun y hy => (hpre y hy).possible, Option.none_or,
        List.findSome?_cons, he]
    rw [writtenOutcome_eq hready hs hr, hfind, concluded]
  · intro y hy
    rw [reached, hplan, List.takeWhile_append_of_pos fun z hz => by simp [(hpre z hz).possible],
      List.takeWhile_cons_of_neg (by simp [he]), List.append_nil] at hy
    exact (hpre y hy).there

/-- Where all of the plan is written, the item is checked. -/
theorem judged_checked (hready : c.Ready b v i m path t)
    (hs : v.standing (c.outputsOf b v i.toNat) = .ok seen₀)
    (hr : refuses c.options.force seen₀ = false)
    (hall : ∀ y ∈ c.planned b v i.toNat, Handled v w y) :
    c.judged v i m = c.checked path t.target (announced (c.begun i m) t) ∧
      c.Left b v i.toNat w := by
  constructor
  · have hfind : (c.planned b v i.toNat).findSome? (fun x => v.wholeError? x.1) = none :=
      List.findSome?_eq_none_iff.mpr fun y hy => (hall y hy).possible
    rw [writtenOutcome_eq hready hs hr, hfind, concluded]
  · exact fun y hy => (hall y (reached_subset hy).1).there

theorem mem_reached (hplan : c.planned b v n = pre ++ x :: post)
    (hpre : ∀ y ∈ pre, Handled v w y) (he : v.wholeError? x.1 = none) : x ∈ c.reached b v n := by
  rw [reached, hplan, List.takeWhile_append_of_pos fun z hz => by simp [(hpre z hz).possible],
    List.takeWhile_cons_of_pos (by simp [he])]
  simp

end

end Retype.Conditions

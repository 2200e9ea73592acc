import Retype.Proofs.Fault
import Retype.Proofs.Run.Vault
import Retype.Run.Item

/-!
# Outcomes that last

A document keeps no value that says nothing, and a text column no value that is no text.
The outcome of an item says all it says in texts that are not empty, as long as its
target and the kinds of mishaps are no empty texts; so it is kept as it is, if its name
is a text where there is a ledger.
-/

set_option autoImplicit false

namespace Retype

/-! ## Messages -/

theorem append_ne_of_left {s t : String} (h : s ≠ "") : s ++ t ≠ "" := by
  intro he
  exact h (by simpa using (String.append_eq_empty_iff.mp he).1)

theorem append_ne_of_right {s t : String} (h : t ≠ "") : s ++ t ≠ "" := by
  intro he
  exact h (by simpa using (String.append_eq_empty_iff.mp he).2)

theorem Quoted.literal_ne (s : String) : literal s ≠ "" := by
  refine append_ne_of_left (append_ne_of_left fun h => ?_)
  have := congrArg String.length h
  simp at this

theorem Quoted.refusal_ne (run : Half.Run) : refusal run ≠ "" := append_ne_of_right (by decide)

theorem Fault.message_ne (f : Fault) : f.message ≠ "" := by
  cases f with
  | missingKey key => exact Quoted.literal_ne key
  | badText flaw spot => exact append_ne_of_left (append_ne_of_right (by decide))
  | noKeys form => cases form <;> decide
  | wrongCount wanted got =>
    show (if got < wanted then _ else _) ≠ ""
    split <;> repeat first | decide | apply append_ne_of_left
  | outside => exact append_ne_of_right (by decide)
  | notANumber | endless | tooLarge | tooDeep => decide
  | _ => repeat first | decide | apply append_ne_of_left

theorem OsCause.text_ne (c : OsCause) : c.text ≠ "" := by
  cases c with
  | half run => exact Quoted.refusal_ne run
  | _ => decide

theorem OsError.message_ne (e : OsError) : e.message ≠ "" := by
  unfold message
  split
  · exact e.cause.text_ne
  · split
    · exact append_ne_of_right (Quoted.literal_ne _)
    · exact append_ne_of_right (Quoted.literal_ne _)

theorem Trouble.message_ne (t : Trouble) : t.message ≠ "" := by
  cases t with
  | fault f => exact f.message_ne
  | os e => exact e.message_ne

theorem RetypeError.message_ne (e : RetypeError) : e.message ≠ "" := by
  cases e with
  | brokenSource path => exact append_ne_of_right (by decide)
  | refused r =>
    cases r with
    | overlap o =>
      unfold message Edit.Overlap.message
      repeat first | decide | apply append_ne_of_left
    | half run => exact Quoted.refusal_ne run

/-! ## Halts -/

/-- A failure says something. -/
def Halt.Speaks : Halt → Prop
  | .failed _ text => text ≠ ""
  | .interrupted _ => True

namespace Conditions

variable {c : Conditions}

theorem enter_speaks (hc : ∀ stage path m, c.upset stage path = some m → m.kind ≠ "")
    {stage : Stage} {path : String} {h : Halt} (he : c.enter stage path = .error h) : h.Speaks := by
  unfold enter at he
  split at he
  · cases he
  · next m hm =>
    cases he
    split
    · trivial
    · show m.shown ≠ ""
      unfold Mishap.shown
      split
      · exact hc stage path m hm
      · next hn => simpa using hn

theorem attempt_speaks (hc : ∀ stage path m, c.upset stage path = some m → m.kind ≠ "")
    {α : Type} {stage : Stage} {path : String} {work : Except Trouble α} {h : Halt}
    (he : c.attempt stage path work = .error h) : h.Speaks := by
  rcases error_bind he with he | ⟨_, -, he⟩
  · exact enter_speaks hc he
  · cases work with
    | error t =>
      cases he
      exact t.message_ne
    | ok => cases he

theorem between_speaks {α : Type} {work : Except Trouble α} {h : Halt}
    (he : between work = .error h) : h.Speaks := by
  cases work with
  | error t =>
    cases he
    trivial
  | ok => cases he

theorem load_speaks (hc : ∀ stage path m, c.upset stage path = some m → m.kind ≠ "")
    {w : Workspace} {path : String} {h : Halt} (he : c.load w path = .error h) : h.Speaks := by
  rcases error_bind he with he | ⟨_, -, he⟩
  · exact enter_speaks hc he
  · split at he
    · next e _ =>
      cases he
      exact append_ne_of_right e.message_ne
    · split at he
      · cases he
        exact RetypeError.message_ne _
      · cases he

theorem prepareUnit_speaks (hc : ∀ stage path m, c.upset stage path = some m → m.kind ≠ "")
    {w : Workspace} {path : String} {u : SourceUnit} {h : Halt}
    (he : c.prepareUnit w path u = .error h) : h.Speaks := by
  unfold prepareUnit at he
  split at he
  · cases he
  · rcases error_bind he with he | ⟨found, -, he⟩
    · unfold occupied? at he
      split at he
      · exact between_speaks he
      · cases he
    · split at he
      · cases he
      · rcases error_bind he with he | ⟨p, -, he⟩
        · exact attempt_speaks hc he
        rcases error_bind he with he | ⟨s, -, he⟩
        · exact attempt_speaks hc he
        rcases error_bind he with he | ⟨target, -, he⟩
        · exact between_speaks he
        rcases error_bind he with he | ⟨r, -, he⟩
        · exact attempt_speaks hc he
        cases r with
        | error e =>
          cases he
          exact e.message_ne
        | ok t => cases he

theorem prepare_speaks (hc : ∀ stage path m, c.upset stage path = some m → m.kind ≠ "")
    {w : Workspace} {path : String} {h : Halt} (he : c.prepare w path = .error h) : h.Speaks := by
  rcases error_bind he with he | ⟨u, -, he⟩
  · exact load_speaks hc he
  · exact prepareUnit_speaks hc he

/-- Nothing is prepared only for what is in the target language, unless existing targets count. -/
theorem prepare_skip (hs : c.options.skipExisting = false) {w : Workspace} {path reason : String}
    {target : Option String} (he : c.prepare w path = .ok (.skip reason target)) :
    reason ≠ "" ∧ target = none := by
  obtain ⟨u, -, he⟩ := ok_bind he
  unfold prepareUnit at he
  split at he
  · cases he
    exact ⟨by decide, rfl⟩
  · have hoccupied : c.occupied? w path = .ok none := by
      rw [occupied?, hs]
      rfl
    rw [hoccupied] at he
    obtain ⟨found, hf, he⟩ := ok_bind he
    cases hf
    obtain ⟨p, -, he⟩ := ok_bind he
    obtain ⟨s, -, he⟩ := ok_bind he
    obtain ⟨target, -, he⟩ := ok_bind he
    obtain ⟨r, -, he⟩ := ok_bind he
    cases r with
    | error => cases he
    | ok => cases he

end Conditions

/-! ## Outcomes -/

def Json.Says (v : Json) : Prop := v = .null ∨ ∃ s, s ≠ "" ∧ v = .str s

namespace Outcome

/-- An outcome that says all it says in texts. -/
structure Spoken (o : Outcome) : Prop where
  reason : o.reason.Says
  error : o.error.Says
  stage : o.stage.Says
  target : o.target.Says

theorem told_of_says {v : Json} (h : v.Says) : told v = v := by
  rcases h with rfl | ⟨s, hs, rfl⟩
  · rfl
  · have ht : (Json.str s).truth = true := by simpa [Json.truth] using hs
    rw [told, if_pos ht]

theorem cell_of_says {v : Json} (h : v.Says) : Column.cell v = v := by
  rcases h with rfl | ⟨s, -, rfl⟩ <;> rfl

theorem Spoken.retold {o : Outcome} (h : o.Spoken) : o.retold = o := by
  rw [Outcome.retold, told_of_says h.reason, told_of_says h.error, told_of_says h.stage,
    told_of_says h.target]

theorem Spoken.row {o r : Outcome} (h : o.Spoken) {name : String} (hn : o.name = .str name)
    (hr : Ledger.row? o = some r) : r = o := by
  simp only [Ledger.row?, bind, Option.bind_eq_some_iff] at hr
  obtain ⟨i, hi, n, hname, d, hd, hr⟩ := hr
  rw [hn] at hname
  cases hname
  cases hr
  rw [Ledger.number?_eq_some hi, Ledger.number?_eq_some hd, cell_of_says h.reason,
    cell_of_says h.error, cell_of_says h.stage, cell_of_says h.target]
  show { o with name := .str name } = o
  rw [← hn]

theorem says_text {s : String} (h : s ≠ "") : (Json.str s).Says := Or.inr ⟨s, h, rfl⟩

theorem stage_text_ne (s : Stage) : s.text ≠ "" := by cases s <;> decide

end Outcome

namespace Conditions

open Outcome

variable {c : Conditions}

theorem halted_spoken {o r : Outcome} (ho : o.Spoken) {h : Halt} (hs : h.Speaks)
    (hr : halted o h = .ok r) : r.Spoken ∧ r.name = o.name := by
  cases h with
  | failed stage text =>
    cases hr
    exact ⟨⟨ho.reason, says_text hs, says_text (stage_text_ne stage), ho.target⟩, rfl⟩
  | interrupted => cases hr

theorem begun_spoken (i : Int) (m : Member) : (c.begun i m).Spoken :=
  ⟨Or.inl rfl, Or.inl rfl, Or.inl rfl, Or.inl rfl⟩

theorem checked_spoken (hc : ∀ stage path m, c.upset stage path = some m → m.kind ≠ "")
    {o r : Outcome} (ho : o.Spoken) {path target : String} (hr : c.checked path target o = .ok r) :
    r.Spoken ∧ r.name = o.name := by
  unfold checked at hr
  split at hr
  · split at hr
    · next h he => exact halted_spoken ho (enter_speaks hc he) hr
    · cases hr
      exact ⟨⟨ho.reason, ho.error, ho.stage, ho.target⟩, rfl⟩
  · cases hr
    exact ⟨⟨ho.reason, ho.error, ho.stage, ho.target⟩, rfl⟩

theorem finish_spoken (hc : ∀ stage path m, c.upset stage path = some m → m.kind ≠ "")
    {w : Workspace} {path : String} {o r : Outcome} (ho : o.Spoken) {t : Retyped}
    (ht : t.target ≠ "") (hr : (c.finish w path o t).2 = .ok r) : r.Spoken ∧ r.name = o.name := by
  have ha : (announced o t).Spoken := ⟨ho.reason, ho.error, ho.stage, says_text ht⟩
  unfold finish at hr
  split at hr
  · next h he => exact halted_spoken (o := announced o t) ha (enter_speaks hc he) hr
  · split at hr
    · cases hr
      exact ⟨⟨ha.reason, ha.error, ha.stage, ha.target⟩, rfl⟩
    · split at hr
      · next e _ =>
        exact halted_spoken (o := announced o t) (h := .failed .write e.message) ha e.message_ne hr
      · cases hr
        refine ⟨⟨says_text ?_, ha.error, ha.stage, ha.target⟩, rfl⟩
        exact append_ne_of_right (by decide)
      · exact checked_spoken (o := announced o t) hc ha hr

/-- Whatever comes of an item is said in texts. -/
theorem migrate_spoken (hc : ∀ stage path m, c.upset stage path = some m → m.kind ≠ "")
    (hs : c.options.skipExisting = false) {w : Workspace} {i : Int} {m : Member}
    (ht : ∀ path t, m.path.step = .ok path → c.prepare w path = .ok (.ready t) → t.target ≠ "")
    {r : Outcome} (hr : (c.migrate w i m).2 = .ok r) : r.Spoken ∧ r.name = m.name := by
  have hb := c.begun_spoken i m
  unfold migrate at hr
  split at hr
  · next f _ => exact halted_spoken (h := .failed .load f.message) hb f.message_ne hr
  · next path hpath =>
    split at hr
    · next h he => exact halted_spoken hb (prepare_speaks hc he) hr
    · next reason target he =>
      obtain ⟨hreason, htarget⟩ := prepare_skip hs he
      cases hr
      exact ⟨⟨says_text hreason, hb.error, hb.stage, Or.inl (by rw [passed, htarget]; rfl)⟩, rfl⟩
    · next t he => exact finish_spoken hc hb (ht path t hpath he) hr

end Conditions

end Retype

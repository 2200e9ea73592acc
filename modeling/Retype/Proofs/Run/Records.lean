import Retype.Proofs.Run.Lasting
import Retype.Roadmap.Batch

/-!
# Records that are written and read again

Outcomes, checkpoints, members and batches are kept as values. What is read of a value is
written in one form: reading that form and writing it again changes nothing. A record is read
as it was written, apart from optional texts that say nothing; of a batch the totals are
written too, so that it can be written exactly if it has them.
-/

set_option autoImplicit false

namespace Retype

/-! ## Reading and writing -/

/-- A way to write records as values and to read them. A record may be read as another one
than was written, but as one that is written alike. -/
structure Format (R : Type) where
  read : Json → Except Fault R
  write : R → Except Fault Json
  reread : R → R
  read_write : ∀ r v, write r = .ok v → read v = .ok (reread r)
  write_reread : ∀ r, write (reread r) = write r

namespace Format

variable {R : Type} (f : Format R)

def rewritten (d : Json) : Except Fault Json := f.read d >>= f.write

theorem rewritten_settled {d n : Json} (h : f.rewritten d = .ok n) : f.rewritten n = .ok n := by
  obtain ⟨r, -, hr⟩ := ok_bind h
  rw [rewritten, f.read_write r n hr, bind_ok, f.write_reread, hr]

end Format

namespace Outcome

theorem telling_told (key : String) (v : Json) : telling key (told v) = telling key v := by
  cases hv : v.truth with
  | true => rw [told, if_pos hv]
  | false =>
    rw [told, hv, if_neg Bool.false_ne_true, telling, telling, hv]
    rfl

theorem toJson_retold (o : Outcome) : o.retold.toJson = o.toJson := by
  simp only [toJson, retold, telling_told]

def format : Format Outcome where
  read := ofJson
  write o := .ok o.toJson
  reread := retold
  read_write o v h := by
    cases h
    exact ofJson_toJson o
  write_reread o := congrArg Except.ok o.toJson_retold

end Outcome

namespace Checkpoint

theorem toJson_retold (c : Checkpoint) : c.retold.toJson = c.toJson := by
  have hresults : (Outcome.toJson ∘ Outcome.retold) = Outcome.toJson := funext Outcome.toJson_retold
  simp only [toJson, Checkpoint.retold, List.map_map, hresults, Outcome.telling_told]

def format : Format Checkpoint where
  read := ofJson
  write c := .ok c.toJson
  reread := retold
  read_write c v h := by
    cases h
    exact ofJson_toJson c
  write_reread c := congrArg Except.ok c.toJson_retold

/-- A checkpoint that says all it says in texts. -/
structure Spoken (c : Checkpoint) : Prop where
  results : ∀ o ∈ c.results, o.Spoken
  error : c.error.Says

theorem Spoken.retold {c : Checkpoint} (h : c.Spoken) : c.retold = c := by
  have hresults : c.results.map Outcome.retold = c.results :=
    (List.map_congr_left fun o ho => (h.results o ho).retold).trans (List.map_id _)
  simp only [Checkpoint.retold, hresults, Outcome.told_of_says h.error]

end Checkpoint

namespace Member

theorem ofJson_toJson (m : Member) : ofJson m.toJson = .ok m := by
  simp [ofJson, toJson, Json.need, Json.getD, Keyed.get?, bind, Except.bind, pure, Except.pure]

def format : Format Member where
  read := ofJson
  write m := .ok m.toJson
  reread m := m
  read_write m v h := by
    cases h
    exact ofJson_toJson m
  write_reread _ := rfl

theorem mapM_ofJson (ms : List Member) : ms.mapM (ofJson ∘ toJson) = .ok ms :=
  (mapM_total (fun m => ofJson_toJson m) ms).trans (congrArg Except.ok (List.map_id ms))

end Member

namespace Batch

/-- A batch whose totals are numbers. -/
def Totalled (b : Batch) : Prop := (∃ a, b.average = .ok a) ∧ ∃ x, b.effort = .ok x

def written (b : Batch) (average : Int) (effort : Float) : Json :=
  .obj [("id", .int b.id), ("name", b.name), ("description", b.description),
    ("componentCount", .nat b.size), ("averageComplexity", .int average),
    ("estimatedEffort", .float effort), ("components", .arr (b.members.map Member.toJson))]

theorem toJson_ok {b : Batch} {v : Json} : b.toJson = .ok v ↔
    ∃ a x, b.average = .ok a ∧ b.effort = .ok x ∧ v = b.written a x := by
  constructor
  · intro h
    obtain ⟨a, ha, h⟩ := ok_bind h
    obtain ⟨x, hx, h⟩ := ok_bind h
    cases h
    exact ⟨a, x, ha, hx, rfl⟩
  · rintro ⟨a, x, ha, hx, rfl⟩
    rw [toJson, ha, bind_ok, hx, bind_ok]
    rfl

theorem ofJson_written (b : Batch) (a : Int) (x : Float) : ofJson (b.written a x) = .ok b := by
  simp [ofJson, written, Json.need, Json.getD, Keyed.get?, bind, Except.bind, pure, Except.pure, Json.toInt,
    Json.each, Member.mapM_ofJson]

def format : Format Batch where
  read := ofJson
  write := toJson
  reread b := b
  read_write b v h := by
    obtain ⟨a, x, -, -, rfl⟩ := toJson_ok.mp h
    exact ofJson_written b a x
  write_reread _ := rfl

/-! ## Totals of numbers -/

def FiniteNumber : Json → Prop
  | .int _ => True
  | .float x => (Binary.of? x).isSome
  | _ => False

def Number (v : Json) : Prop := (∃ n, v = .int n) ∨ ∃ x, v = .float x

/-- The faults of a number that is not finite, or too large to be a float. -/
def Boundless (f : Fault) : Prop := f = .tooLarge ∨ f = .endless ∨ f = .notANumber

/-- Work that gives what `P` holds of, or fails for want of a finite number. -/
def Yields {α : Type} (P : α → Prop) : Except Fault α → Prop
  | .ok a => P a
  | .error f => Boundless f

theorem FiniteNumber.number {v : Json} (h : FiniteNumber v) : Number v := by
  cases v with
  | int n => exact Or.inl ⟨n, rfl⟩
  | float x => exact Or.inr ⟨x, rfl⟩
  | _ => cases h

section

variable {α β : Type} {P : α → Prop} {Q : β → Prop}

theorem Yields.bind {x : Except Fault α} (hx : Yields P x) {f : α → Except Fault β}
    (hf : ∀ a, P a → Yields Q (f a)) : Yields Q (x >>= f) := by
  cases x with
  | error e => exact hx
  | ok a => exact hf a hx

theorem yields_ite {a : α} (ha : P a) (p : Prop) [Decidable p] :
    Yields P (if p then .ok a else .error .tooLarge) := by
  split
  · exact ha
  · exact Or.inl rfl

end

theorem numberOr_yields {v : Json} (h : Number v) (e : Fault) :
    Yields (fun _ => True) (v.numberOr e) := by
  rcases h with ⟨n, rfl⟩ | ⟨x, rfl⟩
  · exact yields_ite trivial _
  · trivial

theorem add_yields {s v : Json} (hs : Number s) (hv : Number v) : Yields Number (add s v) := by
  have hfloat : ∀ e, Yields Number (do return .float ((← s.numberOr e) + (← v.numberOr e))) :=
    fun e => (numberOr_yields hs e).bind fun x _ => (numberOr_yields hv e).bind fun y _ =>
      Or.inr ⟨x + y, rfl⟩
  rcases hs with ⟨a, rfl⟩ | ⟨x, rfl⟩ <;> rcases hv with ⟨b, rfl⟩ | ⟨y, rfl⟩
  · exact Or.inl ⟨a + b, rfl⟩
  all_goals exact hfloat _

theorem sum_yields {vs : List Json} (hvs : ∀ v ∈ vs, Number v) {s : Json} (hs : Number s) :
    Yields Number (vs.foldlM add s) := by
  induction vs generalizing s with
  | nil => exact hs
  | cons v vs ih =>
    rw [List.foldlM_cons]
    have hadd := add_yields hs (hvs v List.mem_cons_self)
    exact hadd.bind fun r hr => ih (fun w hw => hvs w (List.mem_cons_of_mem v hw)) hr

theorem share_yields {v : Json} (h : Number v) (n : Nat) : Yields (fun _ => True) (share n v) := by
  rcases h with ⟨a, rfl⟩ | ⟨x, rfl⟩
  · exact yields_ite trivial _
  · trivial

theorem settle_yields (x : Float) : Yields (fun _ => True) (settle x) := by
  unfold settle
  split
  · trivial
  · split
    · exact Or.inr (Or.inr rfl)
    · exact Or.inr (Or.inl rfl)

/-- Of members with finite numbers the totals are numbers, or not finite. -/
theorem average_yields {b : Batch} (h : ∀ m ∈ b.members, FiniteNumber m.complexity) :
    Yields (fun _ => True) b.average := by
  unfold average
  split
  · trivial
  · have hvs : ∀ v ∈ b.members.map (·.complexity), Number v := by
      intro v hv
      obtain ⟨m, hm, rfl⟩ := List.mem_map.mp hv
      exact (h m hm).number
    have hsum := sum_yields hvs (Or.inl ⟨0, rfl⟩)
    exact hsum.bind fun r hr => (share_yields hr _).bind fun x _ => settle_yields x

theorem toJson_yields {b : Batch} (h : ∀ m ∈ b.members, FiniteNumber m.complexity) :
    Yields (fun _ => True) b.toJson := by
  have havg := average_yields h
  have heffort : Yields (fun _ => True) b.effort := havg.bind fun _ _ => yields_ite trivial _
  exact havg.bind fun _ _ => heffort.bind fun _ _ => trivial

theorem totalled_iff (b : Batch) : b.Totalled ↔ ∃ v, b.toJson = .ok v ∧ ofJson v = .ok b := by
  constructor
  · rintro ⟨⟨a, ha⟩, x, hx⟩
    exact ⟨_, toJson_ok.mpr ⟨a, x, ha, hx, rfl⟩, ofJson_written b a x⟩
  · rintro ⟨v, hv, -⟩
    obtain ⟨a, x, ha, hx, -⟩ := toJson_ok.mp hv
    exact ⟨⟨a, ha⟩, x, hx⟩

theorem boundless_of_not_totalled {b : Batch} (h : ∀ m ∈ b.members, FiniteNumber m.complexity)
    (hb : ¬ b.Totalled) : ∃ f, b.toJson = .error f ∧ Boundless f := by
  have hyields := toJson_yields h
  cases hv : b.toJson with
  | error f =>
    rw [hv] at hyields
    exact ⟨f, rfl, hyields⟩
  | ok v =>
    obtain ⟨a, x, ha, hx, -⟩ := toJson_ok.mp hv
    exact absurd ⟨⟨a, ha⟩, x, hx⟩ hb

end Batch

/-- What is read of a value and written is the form that is kept when it is read and written
again. A record is read as it was written: an outcome or a checkpoint if its optional texts
say something or are absent, a member always, and a batch if and only if it has totals. The
totals of finite numbers are wanting only where they are not finite themselves. -/
theorem records_read_as_written :
    (∀ d n, Outcome.format.rewritten d = .ok n → Outcome.format.rewritten n = .ok n) ∧
    (∀ d n, Checkpoint.format.rewritten d = .ok n → Checkpoint.format.rewritten n = .ok n) ∧
    (∀ d n, Batch.format.rewritten d = .ok n → Batch.format.rewritten n = .ok n) ∧
    (∀ d n, Member.format.rewritten d = .ok n → Member.format.rewritten n = .ok n) ∧
    (∀ o : Outcome, o.Spoken → Outcome.ofJson o.toJson = .ok o) ∧
    (∀ c : Checkpoint, c.Spoken → Checkpoint.ofJson c.toJson = .ok c) ∧
    (∀ m : Member, Member.ofJson m.toJson = .ok m) ∧
    (∀ b : Batch, b.Totalled ↔ ∃ v, b.toJson = .ok v ∧ Batch.ofJson v = .ok b) ∧
    (∀ b : Batch, (∀ m ∈ b.members, Batch.FiniteNumber m.complexity) → ¬ b.Totalled →
      ∃ f, b.toJson = .error f ∧ Batch.Boundless f) := by
  refine ⟨fun d n => Outcome.format.rewritten_settled, fun d n => Checkpoint.format.rewritten_settled,
    fun d n => Batch.format.rewritten_settled, fun d n => Member.format.rewritten_settled, ?outcome,
    ?checkpoint, Member.ofJson_toJson, Batch.totalled_iff, fun b => Batch.boundless_of_not_totalled⟩
  case outcome =>
    intro o ho
    rw [Outcome.ofJson_toJson, ho.retold]
  case checkpoint =>
    intro c hc
    rw [Checkpoint.ofJson_toJson, hc.retold]

def Member.weighing (complexity : Json) : Member :=
  { name := .str "a", path := .str "a", complexity := complexity, level := .str "low",
    category := .str "other", dependencies := .int 0, dependents := .int 0 }

def Batch.pair (complexity : Json) : Batch :=
  { id := 1, name := .str "b", description := .str "",
    members := [Member.weighing complexity, Member.weighing complexity] }

theorem sample_read_as_written :
    let o : Outcome := { index := 0, name := .str "a", success := true, skipped := true, reason := .str "done" }
    Outcome.ofJson o.toJson = .ok o ∧
      ∃ v, (Batch.pair (.int 3)).toJson = .ok v ∧ Batch.ofJson v = .ok (Batch.pair (.int 3)) := by
  obtain ⟨-, -, -, -, houtcome, -, -, hbatch, -⟩ := records_read_as_written
  have haverage : (Batch.pair (.int 3)).average = .ok 3 := by decide +kernel
  have heffort : (Batch.pair (.int 3)).effort = .ok 0.6 := by decide +kernel
  exact ⟨houtcome _ ⟨Outcome.says_text (by decide), Or.inl rfl, Or.inl rfl, Or.inl rfl⟩,
    (hbatch _).mp ⟨⟨3, haverage⟩, 0.6, heffort⟩⟩

/-- Two finite numbers that can be read may have no finite average to write. -/
theorem pair_not_written :
    (∃ d, Batch.ofJson d = .ok (Batch.pair (.float 1e308))) ∧
      (∀ m ∈ (Batch.pair (.float 1e308)).members, Batch.FiniteNumber m.complexity) ∧
      (Batch.pair (.float 1e308)).toJson = .error .endless := by
  have haverage : (Batch.pair (.float 1e308)).average = .error .endless := by decide +kernel
  have hfinite : Batch.FiniteNumber (.float 1e308) := by
    unfold Batch.FiniteNumber
    decide +kernel
  refine ⟨⟨_, Batch.ofJson_written _ 0 0.0⟩, ?finite, ?endless⟩
  case finite =>
    intro m hm
    simp only [Batch.pair, List.mem_cons, List.not_mem_nil, or_false, or_self] at hm
    exact hm ▸ hfinite
  case endless =>
    rw [Batch.toJson, haverage]
    rfl

end Retype

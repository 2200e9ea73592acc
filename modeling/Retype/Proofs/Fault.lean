import Retype.Fault

/-!
# Results of work that can fail

What came of several steps tells what came of each: where the whole gave a result, every
step gave one, and where it failed, the steps up to some step gave results and that one
failed.
-/

set_option autoImplicit false

namespace Retype

variable {ε ε' α β : Type} {x : Except ε α} {f : α → Except ε β}

theorem bind_ok (a : α) (f : α → Except ε β) : ((.ok a : Except ε α) >>= f) = f a := rfl

theorem error_bind {h : ε} (he : (x >>= f) = .error h) :
    x = .error h ∨ ∃ a, x = .ok a ∧ f a = .error h := by
  cases x with
  | error =>
    cases he
    exact Or.inl rfl
  | ok a => exact Or.inr ⟨a, rfl, he⟩

theorem ok_bind {r : β} (he : (x >>= f) = .ok r) : ∃ a, x = .ok a ∧ f a = .ok r := by
  cases x with
  | error => cases he
  | ok a => exact ⟨a, rfl, he⟩

theorem ok_mapError {g : ε → ε'} {a : α} (h : x.mapError g = .ok a) : x = .ok a := by
  cases x with
  | error => cases h
  | ok b =>
    cases h
    rfl

theorem ok_map {g : α → β} {r : β} (h : x.map g = .ok r) : ∃ a, x = .ok a ∧ g a = r := by
  cases x with
  | error => cases h
  | ok a => exact ⟨a, rfl, Except.ok.inj h⟩

theorem ok_toOption {a : α} (h : x.toOption = some a) : x = .ok a := by
  cases x with
  | error => cases h
  | ok b => exact congrArg Except.ok (Option.some.inj h)

theorem mapM_total {g : α → β} (h : ∀ a, f a = .ok (g a)) (xs : List α) : xs.mapM f = .ok (xs.map g) := by
  induction xs with
  | nil => rfl
  | cons x xs ih =>
    rw [List.mapM_cons, h, bind_ok, ih]
    rfl

/-- Every result of a list of steps is that of one of them. -/
theorem ok_mapM {xs : List α} {ys : List β} (h : xs.mapM f = .ok ys) {y : β} (hy : y ∈ ys) :
    ∃ x ∈ xs, f x = .ok y := by
  induction xs generalizing ys with
  | nil =>
    cases h
    cases hy
  | cons x xs ih =>
    rw [List.mapM_cons] at h
    obtain ⟨z, hz, h⟩ := ok_bind h
    obtain ⟨zs, hzs, h⟩ := ok_bind h
    cases h
    rcases List.mem_cons.mp hy with rfl | hy
    · exact ⟨x, List.mem_cons_self, hz⟩
    · obtain ⟨x', hx', hfx⟩ := ih hzs hy
      exact ⟨x', List.mem_cons_of_mem x hx', hfx⟩

/-- Every step of a list of steps has a result among theirs. -/
theorem mem_mapM {xs : List α} {ys : List β} (h : xs.mapM f = .ok ys) {a : α} (ha : a ∈ xs) :
    ∃ y ∈ ys, f a = .ok y := by
  induction xs generalizing ys with
  | nil => cases ha
  | cons x xs ih =>
    rw [List.mapM_cons] at h
    obtain ⟨z, hz, h⟩ := ok_bind h
    obtain ⟨zs, hzs, h⟩ := ok_bind h
    cases h
    rcases List.mem_cons.mp ha with rfl | ha
    · exact ⟨z, List.mem_cons_self, hz⟩
    · obtain ⟨y, hy, hfy⟩ := ih hzs ha
      exact ⟨y, List.mem_cons_of_mem z hy, hfy⟩

/-! ## What fails first -/

section Failing

variable {κ : Type} {g : ε → κ} {k : Option κ}

/-- What is made of the error of work that fails. -/
def failing (g : ε → κ) : Except ε α → Option κ
  | .ok _ => none
  | .error e => some (g e)

theorem failing_eq_some {k : κ} : failing g x = some k ↔ ∃ e, x = .error e ∧ g e = k := by
  cases x <;> simp [failing]

theorem failing_map (f : α → β) (x : Except ε α) : failing g (x.map f) = failing g x := by
  cases x <;> rfl

theorem failing_bind (hf : ∀ a, x = .ok a → failing g (f a) = k) : failing g (x >>= f) = (failing g x).or k := by
  cases x with
  | error => rfl
  | ok a => exact hf a rfl

theorem failing_mapM (f : α → Except ε β) (xs : List α) :
    failing g (xs.mapM f) = xs.findSome? fun a => failing g (f a) := by
  induction xs with
  | nil => rfl
  | cons a xs ih =>
    rw [List.mapM_cons, List.findSome?_cons, failing_bind (k := failing g (xs.mapM f)), ih]
    · cases failing g (f a) <;> rfl
    · intro b _
      rw [failing_bind (k := none) fun _ _ => rfl, Option.or_none]

theorem failing_foldlM {f : β → α → Except ε β} {h : α → Option κ} (hf : ∀ b a, failing g (f b a) = h a)
    (xs : List α) (b : β) : failing g (xs.foldlM f b) = xs.findSome? h := by
  induction xs generalizing b with
  | nil => rfl
  | cons a xs ih =>
    rw [List.foldlM_cons, List.findSome?_cons, failing_bind fun c _ => ih c, hf]
    cases h a <;> rfl

end Failing

end Retype

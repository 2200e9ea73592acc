import Mathlib.Data.List.Forall2
import Retype.Keyed
import Retype.Proofs.Tree.Nesting

/-!
# Trees that read alike

Two trees, each with its source, read alike if they have the same nodes with the same texts,
wherever these stand. Whatever is read off one of them is read off the other: the functions
of a tree preserve likeness, and those that give a text or a truth value give the same.
-/

set_option autoImplicit false

namespace Retype

/-! ## Lists of related elements -/

namespace Alike

open List (Forall₂)

variable {α β γ : Type} {R : α → β → Prop} {xs : List α} {ys : List β} {a : Option α} {b : Option β}

theorem map_eq {f : α → γ} {g : β → γ} (h : Forall₂ R xs ys) (hfg : ∀ x y, R x y → f x = g y) :
    xs.map f = ys.map g := by
  induction h with
  | nil => rfl
  | cons hr _ ih => rw [List.map_cons, List.map_cons, hfg _ _ hr, ih]

theorem filterMap_eq {f : α → Option γ} {g : β → Option γ} (h : Forall₂ R xs ys)
    (hfg : ∀ x y, R x y → f x = g y) : xs.filterMap f = ys.filterMap g := by
  induction h with
  | nil => rfl
  | cons hr _ ih => rw [List.filterMap_cons, List.filterMap_cons, hfg _ _ hr, ih]

theorem flatMap_eq {f : α → List γ} {g : β → List γ} (h : Forall₂ R xs ys)
    (hfg : ∀ x y, R x y → f x = g y) : xs.flatMap f = ys.flatMap g := by
  rw [List.flatMap_def, List.flatMap_def, map_eq h hfg]

theorem any_eq {p : α → Bool} {q : β → Bool} (h : Forall₂ R xs ys) (hpq : ∀ x y, R x y → p x = q y) :
    xs.any p = ys.any q := by
  induction h with
  | nil => rfl
  | cons hr _ ih => rw [List.any_cons, List.any_cons, hpq _ _ hr, ih]

theorem foldl_eq {f : γ → α → γ} {g : γ → β → γ} (h : Forall₂ R xs ys)
    (hfg : ∀ c x y, R x y → f c x = g c y) (c : γ) : xs.foldl f c = ys.foldl g c := by
  induction h generalizing c with
  | nil => rfl
  | cons hr _ ih => rw [List.foldl_cons, List.foldl_cons, hfg c _ _ hr, ih]

theorem filter {p : α → Bool} {q : β → Bool} (h : Forall₂ R xs ys) (hpq : ∀ x y, R x y → p x = q y) :
    Forall₂ R (xs.filter p) (ys.filter q) := by
  induction h with
  | nil => exact .nil
  | @cons x y _ _ hr _ ih =>
    rw [List.filter_cons, List.filter_cons, hpq x y hr]
    cases q y with
    | true => exact .cons hr ih
    | false => exact ih

theorem head? (h : Forall₂ R xs ys) : Option.Rel R xs.head? ys.head? := by
  cases h with
  | nil => exact .none
  | cons hr _ => exact .some hr

theorem find? {p : α → Bool} {q : β → Bool} (h : Forall₂ R xs ys) (hpq : ∀ x y, R x y → p x = q y) :
    Option.Rel R (xs.find? p) (ys.find? q) := by
  rw [← List.head?_filter, ← List.head?_filter]
  exact head? (filter h hpq)

theorem filterMap {γ δ : Type} {P : γ → δ → Prop} {f : α → Option γ} {g : β → Option δ}
    (h : Forall₂ R xs ys) (hfg : ∀ x y, R x y → Option.Rel P (f x) (g y)) :
    Forall₂ P (xs.filterMap f) (ys.filterMap g) := by
  induction h with
  | nil => exact .nil
  | @cons x y _ _ hr _ ih =>
    have hxy := hfg x y hr
    rw [List.filterMap_cons, List.filterMap_cons]
    generalize f x = a at hxy ⊢
    generalize g y = b at hxy ⊢
    cases hxy with
    | none => exact ih
    | some hp => exact .cons hp ih

theorem findSome? {γ δ : Type} {P : γ → δ → Prop} {f : α → Option γ} {g : β → Option δ}
    (h : Forall₂ R xs ys) (hfg : ∀ x y, R x y → Option.Rel P (f x) (g y)) :
    Option.Rel P (xs.findSome? f) (ys.findSome? g) := by
  rw [← List.head?_filterMap, ← List.head?_filterMap]
  exact head? (filterMap h hfg)

theorem findSome?_eq {f : α → Option γ} {g : β → Option γ} (h : Forall₂ R xs ys)
    (hfg : ∀ x y, R x y → f x = g y) : xs.findSome? f = ys.findSome? g := by
  rw [← List.head?_filterMap, ← List.head?_filterMap, filterMap_eq h hfg]

/-! ### At most one element -/

theorem bind_eq {f : α → Option γ} {g : β → Option γ} (h : Option.Rel R a b)
    (hfg : ∀ x y, R x y → f x = g y) : a.bind f = b.bind g := by
  cases h with
  | none => rfl
  | some hr => exact hfg _ _ hr

theorem optionAny_eq {p : α → Bool} {q : β → Bool} (h : Option.Rel R a b)
    (hpq : ∀ x y, R x y → p x = q y) : a.any p = b.any q := by
  cases h with
  | none => rfl
  | some hr => exact hpq _ _ hr

theorem map {γ δ : Type} {P : γ → δ → Prop} {f : α → γ} {g : β → δ} (h : Option.Rel R a b)
    (hfg : ∀ x y, R x y → P (f x) (g y)) : Option.Rel P (a.map f) (b.map g) := by
  cases h with
  | none => exact .none
  | some hr => exact .some (hfg _ _ hr)

theorem bind {γ δ : Type} {P : γ → δ → Prop} {f : α → Option γ} {g : β → Option δ}
    (h : Option.Rel R a b) (hfg : ∀ x y, R x y → Option.Rel P (f x) (g y)) :
    Option.Rel P (a.bind f) (b.bind g) := by
  cases h with
  | none => exact .none
  | some hr => exact hfg _ _ hr

theorem optionFilter {p : α → Bool} {q : β → Bool} (h : Option.Rel R a b)
    (hpq : ∀ x y, R x y → p x = q y) : Option.Rel R (a.filter p) (b.filter q) := by
  cases h with
  | none => exact .none
  | @some x y hr =>
    rw [Option.filter_some, Option.filter_some, hpq x y hr]
    cases q y with
    | true => exact .some hr
    | false => exact .none

theorem orElse {c : Option α} {d : Option β} (h : Option.Rel R a b) (h' : Option.Rel R c d) :
    Option.Rel R (a <|> c) (b <|> d) := by
  cases h with
  | none => exact h'
  | some hr => exact .some hr

theorem isSome_eq (h : Option.Rel R a b) : a.isSome = b.isSome := by
  cases h <;> rfl

/-! ### Tables -/

structure Entry {κ : Type} (R : α → β → Prop) (e : κ × α) (e' : κ × β) : Prop where
  name : e.1 = e'.1
  value : R e.2 e'.2

section

variable {κ : Type} [BEq κ] {es : List (κ × α)} {es' : List (κ × β)}

theorem get? (h : Forall₂ (Entry R) es es') (k : κ) : Option.Rel R (Keyed.get? k es) (Keyed.get? k es') := by
  induction h with
  | nil => exact .none
  | cons he _ ih =>
    rw [Keyed.get?, Keyed.get?, he.name]
    split
    · exact .some he.value
    · exact ih

theorem put (h : Forall₂ (Entry R) es es') (k : κ) {x : α} {y : β} (hr : R x y) :
    Forall₂ (Entry R) (Keyed.put k x es) (Keyed.put k y es') := by
  induction h with
  | nil => exact .cons ⟨rfl, hr⟩ .nil
  | cons hf hrest ih =>
    rw [Keyed.put, Keyed.put, hf.name]
    split
    · exact .cons ⟨rfl, hr⟩ hrest
    · exact .cons hf ih

theorem ofList (h : Forall₂ (Entry R) es es') : Forall₂ (Entry R) (Keyed.ofList es) (Keyed.ofList es') := by
  refine List.rel_foldl (P := Forall₂ (Entry R)) (R := Entry R) (fun fs fs' hfs e e' he => ?_) .nil h
  rw [he.name]
  exact put hfs e'.1 he.value

end

/-! ### Elements that give nothing -/

theorem filter_flatMap_eq (f : α → List γ) (p : α → Bool) (xs : List α) :
    (xs.filter p).flatMap f = xs.flatMap fun x => if p x then f x else [] := by
  induction xs with
  | nil => rfl
  | cons x xs ih =>
    rw [List.filter_cons, List.flatMap_cons]
    split
    · rw [List.flatMap_cons, ih]
    · exact ih

theorem find?_eq_flatMap (p : α → Bool) (xs : List α) :
    xs.find? p = (xs.flatMap fun x => if p x then [x] else []).head? := by
  rw [← filter_flatMap_eq, List.flatMap_singleton', List.head?_filter]

theorem flatMap_filter {f : α → List γ} {p : α → Bool} (h : ∀ x ∈ xs, p x = false → f x = []) :
    (xs.filter p).flatMap f = xs.flatMap f := by
  induction xs with
  | nil => rfl
  | cons x xs ih =>
    have ih := ih fun y hy => h y (List.mem_cons_of_mem x hy)
    rw [List.filter_cons, List.flatMap_cons]
    split
    · rw [List.flatMap_cons, ih]
    · next hx => rw [h x List.mem_cons_self (by simpa using hx), List.nil_append, ih]

theorem filterMap_filter {f : α → Option γ} {p : α → Bool} (h : ∀ x ∈ xs, p x = false → f x = none) :
    (xs.filter p).filterMap f = xs.filterMap f := by
  rw [List.filterMap_eq_flatMap_toList, List.filterMap_eq_flatMap_toList]
  exact flatMap_filter fun x hx hp => by rw [h x hx hp, Option.toList_none]

theorem foldl_filter {f : γ → α → γ} {p : α → Bool} (h : ∀ x ∈ xs, p x = false → ∀ c, f c x = c) (c : γ) :
    (xs.filter p).foldl f c = xs.foldl f c := by
  induction xs generalizing c with
  | nil => rfl
  | cons x xs ih =>
    have ih := ih fun y hy => h y (List.mem_cons_of_mem x hy)
    rw [List.filter_cons, List.foldl_cons]
    split
    · rw [List.foldl_cons, ih]
    · next hx => rw [h x List.mem_cons_self (by simpa using hx), ih]

end Alike

/-! ## Likeness -/

/-- Trees with the same nodes and the same texts. -/
inductive Node.Like (src src' : Source) : Node → Node → Prop
  | intro {n n' : Node} (hk : n.kind = n'.kind) (hn : n.named = n'.named) (hf : n.field = n'.field)
      (ht : src.textOf n = src'.textOf n') (hc : List.Forall₂ (Like src src') n.children n'.children) :
      Like src src' n n'

namespace Node

variable {src src' : Source} {n n' : Node}

namespace Like

theorem kind (h : Like src src' n n') : n.kind = n'.kind := by
  cases h
  assumption

theorem named (h : Like src src' n n') : n.named = n'.named := by
  cases h
  assumption

theorem field (h : Like src src' n n') : n.field = n'.field := by
  cases h
  assumption

theorem text (h : Like src src' n n') : src.textOf n = src'.textOf n' := by
  cases h
  assumption

theorem children (h : Like src src' n n') : List.Forall₂ (Like src src') n.children n'.children := by
  cases h
  assumption

/-- What holds of like trees if it holds of their like children, holds of all like trees. -/
theorem induction {P : Node → Node → Prop}
    (step : ∀ n n', Like src src' n n' →
      List.Forall₂ (fun c c' => Like src src' c c' ∧ P c c') n.children n'.children → P n n') :
    ∀ {n n' : Node}, Like src src' n n' → P n n' := by
  intro n
  -- on the first tree; each child of it is met with the one it is like
  induction n using children_induction with
  | step n ih =>
    intro n' h
    have heach : ∀ c ∈ n.children, ∀ c', Like src src' c c' → P c c' := fun c hc c' => ih c hc
    have hboth := (List.forall₂_and_left _ _).mpr ⟨heach, h.children⟩
    exact step n n' h (hboth.imp fun c c' hcc => ⟨hcc.2, hcc.1 c' hcc.2⟩)

theorem textOf_extended (hfront : src.octets.toList <+: src'.octets.toList)
    (h : n.stop ≤ src.octets.toList.length) : src.textOf n = src'.textOf n := by
  obtain ⟨more, hmore⟩ := hfront
  have hslice : src.slice n.start n.stop = src'.slice n.start n.stop := by
    rw [Source.slice, Source.slice, Array.toList_extract, Array.toList_extract, List.extract_eq_take_drop,
      List.extract_eq_take_drop, ← List.drop_take, ← List.drop_take, ← hmore, List.take_append_of_le_length h]
  rw [Source.textOf, Source.textAt, Source.textOf, Source.textAt, hslice]

theorem of_texts (h : ∀ d ∈ n.walk, src.textOf d = src'.textOf d) : Like src src' n n := by
  induction n using children_induction with
  | step n ih =>
    refine .intro rfl rfl rfl (h n (self_mem_walk n)) (List.forall₂_same.mpr fun c hc => ?_)
    exact ih c hc fun d hd => h d (mem_walk_of_child hc hd)

/-! ### What a node is -/

theorem isFunction (h : Like src src' n n') : n.isFunction = n'.isFunction := by
  rw [Node.isFunction, Node.isFunction, h.kind]

theorem isClass (h : Like src src' n n') : n.isClass = n'.isClass := by
  rw [Node.isClass, Node.isClass, h.kind]

theorem isCall (h : Like src src' n n') : n.isCall = n'.isCall := by
  rw [Node.isCall, Node.isCall, h.kind]

theorem isVariables (h : Like src src' n n') : n.isVariables = n'.isVariables := by
  rw [Node.isVariables, Node.isVariables, h.kind]

theorem isBlock (h : Like src src' n n') : n.isBlock = n'.isBlock := by
  rw [Node.isBlock, Node.isBlock, h.kind]

theorem isComment (h : Like src src' n n') : n.isComment = n'.isComment := by
  rw [Node.isComment, Node.isComment, h.kind]

/-! ### What a node gives access to -/

theorem namedChildren (h : Like src src' n n') :
    List.Forall₂ (Like src src') n.namedChildren n'.namedChildren :=
  Alike.filter h.children fun _ _ hc => hc.named

theorem parts (h : Like src src' n n') : List.Forall₂ (Like src src') n.parts n'.parts :=
  Alike.filter h.namedChildren fun _ _ hc => by rw [hc.isComment]

theorem child? (h : Like src src' n n') (field : String) :
    Option.Rel (Like src src') (n.child? field) (n'.child? field) :=
  Alike.find? h.children fun _ _ hc => by rw [hc.field]

theorem hasToken (h : Like src src' n n') (kind : String) : n.hasToken kind = n'.hasToken kind :=
  Alike.any_eq h.children fun _ _ hc => by rw [hc.kind]

theorem arguments (h : Like src src' n n') : List.Forall₂ (Like src src') n.arguments n'.arguments := by
  unfold Node.arguments
  have hlist := h.child? "arguments"
  generalize n.child? "arguments" = a at hlist ⊢
  generalize n'.child? "arguments" = b at hlist ⊢
  cases hlist with
  | none => exact .nil
  | some hr => exact hr.parts

end Like

theorem unwrapFirst_eq (cs : List Node) : unwrapFirst cs = (cs.find? (·.named)).map unwrap := by
  induction cs with
  | nil => rfl
  | cons c cs ih =>
    rw [unwrapFirst, List.find?_cons, ih]
    cases c.named <;> rfl

theorem unwrap_eq (n : Node) : n.unwrap =
    if n.kind == "parenthesized_expression" then ((n.children.find? (·.named)).map unwrap).getD n else n := by
  cases n
  rw [unwrap, unwrapFirst_eq]

namespace Like

theorem unwrap (h : Like src src' n n') : Like src src' n.unwrap n'.unwrap := by
  refine induction (P := fun n n' => Like src src' n.unwrap n'.unwrap) ?_ h
  intro n n' h hc
  rw [unwrap_eq, unwrap_eq n', h.kind]
  split
  · have hfirst := Alike.find? (p := (·.named)) (q := (·.named)) hc fun _ _ hcc => hcc.1.named
    generalize n.children.find? (·.named) = a at hfirst ⊢
    generalize n'.children.find? (·.named) = b at hfirst ⊢
    cases hfirst with
    | none => exact h
    | some hr => exact hr.2
  · exact h

theorem value? (h : Like src src' n n') (field : String) :
    Option.Rel (Like src src') (n.value? field) (n'.value? field) :=
  Alike.map (h.child? field) fun _ _ hc => hc.unwrap

theorem walk (h : Like src src' n n') : List.Forall₂ (Like src src') n.walk n'.walk := by
  refine induction (P := fun n n' => List.Forall₂ (Like src src') n.walk n'.walk) ?_ h
  intro n n' h hc
  rw [walk_eq, walk_eq n']
  exact .cons h (List.rel_flatMap hc fun _ _ hcc => hcc.2)

/-! ### Texts -/

theorem textOf? {a b : Option Node} (h : Option.Rel (Like src src') a b) :
    src.textOf? a = src'.textOf? b := by
  cases h with
  | none => rfl
  | some hr => exact hr.text

theorem childText (h : Like src src' n n') (field : String) :
    src.childText field n = src'.childText field n' :=
  textOf? (h.child? field)

theorem nameOf (h : Like src src' n n') : src.nameOf n = src'.nameOf n' := by
  rw [Source.nameOf, Source.nameOf, h.childText]

theorem stringOf? (h : Like src src' n n') : src.stringOf? n = src'.stringOf? n' := by
  rw [Source.stringOf?, Source.stringOf?, h.kind, h.text]

theorem keyOf {a b : Option Node} (h : Option.Rel (Like src src') a b) : src.keyOf a = src'.keyOf b := by
  cases h with
  | none => rfl
  | some hr => rw [Source.keyOf, Source.keyOf, hr.stringOf?, hr.text]

end Like

end Node

end Retype

import Mathlib.Data.List.Induction
import Mathlib.Data.List.Nodup
import Mathlib.Data.List.Perm.Basic
import Retype.Keyed
import Retype.Proofs.Order

/-!
# Tables

What a table gives after it was written to, and which keys it then has.
-/

set_option autoImplicit false

namespace Retype.Keyed

variable {κ ν : Type}

def keys (es : List (κ × ν)) : List κ := es.map Prod.fst

@[simp] theorem keys_nil : keys ([] : List (κ × ν)) = [] := rfl

@[simp] theorem keys_cons (e : κ × ν) (es : List (κ × ν)) : keys (e :: es) = e.1 :: keys es := rfl

section

variable [BEq κ]

theorem get?_append (k : κ) (as bs : List (κ × ν)) :
    get? k (as ++ bs) = (get? k as).or (get? k bs) := by
  induction as with
  | nil => rfl
  | cons a as ih =>
    rw [List.cons_append, get?, get?, ih]
    split
    · rfl
    · rfl

theorem get?_eq_head? (k : κ) (es : List (κ × ν)) : get? k es = (es.filter (·.1 == k)).head?.map Prod.snd := by
  induction es with
  | nil => rfl
  | cons e es ih =>
    rw [get?, List.filter_cons]
    split
    · rfl
    · exact ih

theorem get?_mapValues {μ : Type} (f : ν → μ) (k : κ) (es : List (κ × ν)) :
    get? k (es.map fun e => (e.1, f e.2)) = (get? k es).map f := by
  induction es with
  | nil => rfl
  | cons e es ih =>
    rw [List.map_cons, get?, get?, ih]
    split
    · rfl
    · rfl

/-- Writing what stands there changes nothing. -/
theorem put_of_get? {k : κ} {v : ν} {es : List (κ × ν)} (h : get? k es = some v) : put k v es = es := by
  induction es with
  | nil => cases h
  | cons e es ih =>
    rw [get?] at h
    rw [put]
    split at h
    · next hk =>
      cases h
      rw [if_pos hk]
    · next hk => rw [if_neg hk, ih h]

theorem ofList_append_singleton (as : List (κ × ν)) (a : κ × ν) :
    ofList (as ++ [a]) = put a.1 a.2 (ofList as) := by
  rw [ofList, List.foldl_append]
  rfl

/-- Writing under the key of each value what the value makes of what stood there. -/
def updates {α : Type} (key : α → κ) (f : Option ν → α → ν) (es : List (κ × ν)) (xs : List α) : List (κ × ν) :=
  xs.foldl (fun es x => put (key x) (f (get? (key x) es) x) es) es

theorem ofList_eq_updates (key : ν → κ) (xs : List ν) :
    ofList (xs.map fun x => (key x, x)) = updates key (fun _ x => x) [] xs := by
  rw [ofList, List.foldl_map, updates]

theorem updates_concat {α : Type} (key : α → κ) (f : Option ν → α → ν) (es : List (κ × ν)) (xs : List α) (x : α) :
    updates key f es (xs ++ [x]) =
      put (key x) (f (get? (key x) (updates key f es xs)) x) (updates key f es xs) :=
  List.foldl_concat ..

end

variable [BEq κ] [LawfulBEq κ]

theorem has_iff {k : κ} {es : List (κ × ν)} : has k es = true ↔ k ∈ keys es := by
  induction es with
  | nil => simp [has, get?]
  | cons e es ih =>
    unfold has at ih ⊢
    rw [get?, keys_cons, List.mem_cons]
    split
    · next h => simp [eq_of_beq h]
    · next h =>
      have hne : k ≠ e.1 := fun hk => h (beq_iff_eq.mpr hk.symm)
      simp [ih, hne]

theorem get?_of_mem {k : κ} {v : ν} {es : List (κ × ν)} (h : get? k es = some v) : (k, v) ∈ es := by
  induction es with
  | nil => cases h
  | cons e es ih =>
    rw [get?] at h
    split at h
    · next hk =>
      cases h
      rw [← eq_of_beq hk]
      exact List.mem_cons_self
    · exact List.mem_cons_of_mem e (ih h)

theorem put_of_mem {k : κ} {v : ν} {es : List (κ × ν)} (h : k ∈ keys es) :
    keys (put k v es) = keys es := by
  induction es with
  | nil => cases h
  | cons e es ih =>
    rw [put]
    split
    · rfl
    · next hk =>
      have hne : k ≠ e.1 := fun he => hk (beq_iff_eq.mpr he.symm)
      rw [keys_cons, keys_cons, ih ((List.mem_cons.mp h).resolve_left hne)]

theorem put_of_notMem {k : κ} {v : ν} {es : List (κ × ν)} (h : k ∉ keys es) :
    put k v es = es ++ [(k, v)] := by
  induction es with
  | nil => rfl
  | cons e es ih =>
    have hne : ¬ (e.1 == k) = true := fun he => h (eq_of_beq he ▸ List.mem_cons_self)
    rw [put, if_neg hne, ih fun hk => h (List.mem_cons_of_mem e.1 hk), List.cons_append]

theorem keys_put_of_notMem {k : κ} {v : ν} {es : List (κ × ν)} (h : k ∉ keys es) :
    keys (put k v es) = keys es ++ [k] := by
  rw [put_of_notMem h, keys, List.map_append]
  rfl

theorem mem_keys_put {j k : κ} {v : ν} {es : List (κ × ν)} :
    j ∈ keys (put k v es) ↔ j = k ∨ j ∈ keys es := by
  by_cases h : k ∈ keys es
  · rw [put_of_mem h]
    constructor
    · exact Or.inr
    · rintro (rfl | hj)
      · exact h
      · exact hj
  · rw [keys_put_of_notMem h, List.mem_append, List.mem_singleton]
    exact Or.comm

theorem nodup_keys_put {k : κ} {v : ν} {es : List (κ × ν)} (h : (keys es).Nodup) :
    (keys (put k v es)).Nodup := by
  by_cases hk : k ∈ keys es
  · rwa [put_of_mem hk]
  · rw [keys_put_of_notMem hk, List.nodup_append]
    refine ⟨h, by simp, fun a ha b hb => ?_⟩
    cases List.mem_singleton.mp hb
    rintro rfl
    exact hk ha

/-- An entry of a table that was written to is the new one or was there before. -/
theorem mem_put {k : κ} {v : ν} {es : List (κ × ν)} {e : κ × ν} (h : e ∈ put k v es) :
    e = (k, v) ∨ e ∈ es := by
  induction es with
  | nil => exact Or.inl (List.mem_singleton.mp h)
  | cons d es ih =>
    rw [put] at h
    split at h
    · next hk =>
      rcases List.mem_cons.mp h with rfl | h
      · exact Or.inl (by rw [eq_of_beq hk])
      · exact Or.inr (List.mem_cons_of_mem d h)
    · rcases List.mem_cons.mp h with rfl | h
      · exact Or.inr List.mem_cons_self
      · exact (ih h).imp id (List.mem_cons_of_mem d)

theorem get?_put_self {k : κ} {v : ν} (es : List (κ × ν)) : get? k (put k v es) = some v := by
  induction es with
  | nil => simp [put, get?]
  | cons e es ih =>
    rw [put]
    split
    · next h => rw [get?, if_pos h]
    · next h => rw [get?, if_neg h, ih]

theorem get?_put_other {j k : κ} {v : ν} (es : List (κ × ν)) (h : j ≠ k) :
    get? j (put k v es) = get? j es := by
  induction es with
  | nil =>
    have hkj : ¬ (k == j) = true := fun he => h (eq_of_beq he).symm
    simp [put, get?, hkj]
  | cons e es ih =>
    rw [put]
    split
    · next hk =>
      have hej : ¬ (e.1 == j) = true := fun he => h ((eq_of_beq he).symm.trans (eq_of_beq hk))
      rw [get?, get?, if_neg hej, if_neg hej]
    · rw [get?, get?, ih]

/-! ## Tables of assignments -/

theorem mem_keys_foldl {j : κ} (as es : List (κ × ν)) :
    j ∈ keys (as.foldl (fun es e => put e.1 e.2 es) es) ↔ j ∈ keys es ∨ j ∈ keys as := by
  induction as generalizing es with
  | nil => simp
  | cons a as ih =>
    rw [List.foldl_cons, ih, mem_keys_put, keys_cons, List.mem_cons]
    constructor
    · rintro ((h | h) | h)
      · exact Or.inr (Or.inl h)
      · exact Or.inl h
      · exact Or.inr (Or.inr h)
    · rintro (h | h | h)
      · exact Or.inl (Or.inr h)
      · exact Or.inl (Or.inl h)
      · exact Or.inr h

theorem mem_keys_ofList {j : κ} {as : List (κ × ν)} : j ∈ keys (ofList as) ↔ j ∈ keys as := by
  rw [ofList, mem_keys_foldl]
  simp

theorem get?_foldl_other {k : κ} (as es : List (κ × ν)) (h : k ∉ keys as) :
    get? k (as.foldl (fun es e => put e.1 e.2 es) es) = get? k es := by
  induction as generalizing es with
  | nil => rfl
  | cons a as ih =>
    rw [keys_cons, List.mem_cons, not_or] at h
    rw [List.foldl_cons, ih _ h.2, get?_put_other es h.1]

/-- A key that is assigned to gives one of its assignments. -/
theorem get?_foldl_mem {k : κ} (as es : List (κ × ν)) (h : k ∈ keys as) :
    ∃ v, get? k (as.foldl (fun es e => put e.1 e.2 es) es) = some v ∧ (k, v) ∈ as := by
  induction as generalizing es with
  | nil => cases h
  | cons a as ih =>
    rw [List.foldl_cons]
    by_cases hk : k ∈ keys as
    · obtain ⟨v, hv, hmem⟩ := ih (put a.1 a.2 es) hk
      exact ⟨v, hv, List.mem_cons_of_mem a hmem⟩
    · rcases List.mem_cons.mp h with rfl | hk'
      · refine ⟨a.2, ?_, List.mem_cons_self⟩
        rw [get?_foldl_other as _ hk, get?_put_self]
      · exact absurd hk' hk

theorem nodup_keys_foldl (as : List (κ × ν)) {es : List (κ × ν)} (h : (keys es).Nodup) :
    (keys (as.foldl (fun es e => put e.1 e.2 es) es)).Nodup := by
  induction as generalizing es with
  | nil => exact h
  | cons a as ih => exact ih (nodup_keys_put h)

theorem nodup_keys_ofList (as : List (κ × ν)) : (keys (ofList as)).Nodup :=
  nodup_keys_foldl as List.nodup_nil

theorem mem_foldl {as es : List (κ × ν)} {e : κ × ν}
    (h : e ∈ as.foldl (fun es e => put e.1 e.2 es) es) : e ∈ es ∨ e ∈ as := by
  induction as generalizing es with
  | nil => exact Or.inl h
  | cons a as ih =>
    rcases ih h with h | h
    · rcases mem_put h with rfl | h
      · exact Or.inr List.mem_cons_self
      · exact Or.inl h
    · exact Or.inr (List.mem_cons_of_mem a h)

theorem mem_of_ofList {as : List (κ × ν)} {e : κ × ν} (h : e ∈ ofList as) : e ∈ as :=
  (mem_foldl h).resolve_left List.not_mem_nil

/-- Assignments of different keys make a table of themselves. -/
theorem ofList_eq {as : List (κ × ν)} (h : (keys as).Nodup) : ofList as = as := by
  have general : ∀ (as es : List (κ × ν)), (keys (es ++ as)).Nodup →
      as.foldl (fun es e => put e.1 e.2 es) es = es ++ as := by
    intro as
    induction as with
    | nil => intro es _; simp
    | cons a as ih =>
      intro es hn
      have hnew : a.1 ∉ keys es := by
        intro ha
        rw [keys, List.map_append, List.nodup_append] at hn
        exact hn.2.2 a.1 ha a.1 List.mem_cons_self rfl
      rw [List.foldl_cons, put_of_notMem hnew, ih _ (by simpa using hn)]
      simp
  exact general as [] h

theorem get?_foldl (k : κ) (as es : List (κ × ν)) :
    get? k (as.foldl (fun es e => put e.1 e.2 es) es) = (get? k (ofList as)).or (get? k es) := by
  induction as using List.reverseRecOn with
  | nil => rfl
  | append_singleton as a ih =>
    rw [List.foldl_concat, ofList_append_singleton]
    by_cases h : k = a.1
    · subst h
      rw [get?_put_self, get?_put_self, Option.some_or]
    · rw [get?_put_other _ h, get?_put_other _ h, ih]

theorem get?_ofList_append (k : κ) (as bs : List (κ × ν)) :
    get? k (ofList (as ++ bs)) = (get? k (ofList bs)).or (get? k (ofList as)) := by
  rw [show ofList (as ++ bs) = bs.foldl (fun es e => put e.1 e.2 es) (ofList as) from List.foldl_append,
    get?_foldl]

/-- The last assignment of a key counts. -/
theorem get?_ofList (k : κ) (as : List (κ × ν)) :
    get? k (ofList as) = (as.filter (·.1 == k)).getLast?.map Prod.snd := by
  induction as using List.reverseRecOn with
  | nil => rfl
  | append_singleton as a ih =>
    rw [ofList_append_singleton, List.filter_append]
    by_cases h : a.1 = k
    · rw [List.filter_cons_of_pos (by simpa using h), List.filter_nil, List.getLast?_concat, ← h, get?_put_self]
      rfl
    · rw [List.filter_cons_of_neg (by simpa using h), List.filter_nil, List.append_nil,
        get?_put_other _ (Ne.symm h), ih]

/-- Of values under keys of their own, the last with a key is given. -/
theorem get?_ofList_map (key : ν → κ) (xs : List ν) (k : κ) :
    get? k (ofList (xs.map fun x => (key x, x))) = (xs.filter (key · == k)).getLast? := by
  induction xs using List.reverseRecOn with
  | nil => rfl
  | append_singleton xs x ih =>
    rw [List.map_append, List.map_singleton, ofList_append_singleton, List.filter_append]
    by_cases h : key x = k
    · rw [List.filter_cons_of_pos (by simpa using h), List.filter_nil, List.getLast?_concat, ← h,
        get?_put_self]
    · rw [List.filter_cons_of_neg (by simpa using h), List.filter_nil, List.append_nil,
        get?_put_other _ (Ne.symm h), ih]

/-- A table of which only some keys are kept. -/
theorem get?_filter (keep : κ → Bool) (k : κ) (es : List (κ × ν)) :
    get? k (es.filter fun e => keep e.1) = if keep k then get? k es else none := by
  induction es with
  | nil => simp [get?]
  | cons e es ih =>
    rw [List.filter_cons]
    by_cases he : keep e.1 = true
    · rw [if_pos he, get?, get?, ih]
      by_cases hk : (e.1 == k) = true
      · rw [if_pos hk, if_pos hk, if_pos (eq_of_beq hk ▸ he)]
      · rw [if_neg hk, if_neg hk]
    · rw [if_neg he, ih, get?]
      by_cases hk : (e.1 == k) = true
      · rw [if_neg (eq_of_beq hk ▸ he), if_neg (eq_of_beq hk ▸ he)]
      · rw [if_neg hk]

theorem get?_ofList_const (k : κ) (v : ν) (ks : List κ) [Decidable (k ∈ ks)] :
    get? k (ofList (ks.map (·, v))) = if k ∈ ks then some v else none := by
  have hkeys : keys (ks.map (·, v)) = ks := by
    rw [keys, List.map_map]
    exact List.map_id ks
  split
  · next h =>
    obtain ⟨v', hv', hmem⟩ := get?_foldl_mem (ks.map (·, v)) [] (hkeys.symm ▸ h)
    obtain ⟨j, -, hj⟩ := List.mem_map.mp hmem
    rw [ofList, hv', (Prod.mk.inj hj).2]
  · next h =>
    rw [ofList, get?_foldl_other _ _ (hkeys.symm ▸ h), get?]

theorem filter_put (keep : κ → Bool) (k : κ) (v : ν) (es : List (κ × ν)) :
    (put k v es).filter (fun e => keep e.1) =
      if keep k then put k v (es.filter fun e => keep e.1) else es.filter fun e => keep e.1 := by
  induction es with
  | nil => simp [put, List.filter_cons]
  | cons e es ih =>
    rw [put, List.filter_cons]
    by_cases he : (e.1 == k) = true
    · obtain rfl := eq_of_beq he
      rw [if_pos he, List.filter_cons]
      cases keep e.1 <;> simp [put]
    · rw [if_neg he, List.filter_cons, ih]
      cases hk : keep k <;> cases hek : keep e.1 <;> simp [put, he]

theorem filter_assign (keep : κ → Bool) (as es : List (κ × ν)) :
    (as.foldl (fun es e => put e.1 e.2 es) es).filter (fun e => keep e.1) =
      (as.filter fun a => keep a.1).foldl (fun es e => put e.1 e.2 es) (es.filter fun e => keep e.1) := by
  induction as generalizing es with
  | nil => rfl
  | cons a as ih =>
    rw [List.foldl_cons, ih, filter_put, List.filter_cons]
    split
    · rw [List.foldl_cons]
    · rfl

theorem filter_ofList (keep : κ → Bool) (as : List (κ × ν)) :
    (ofList as).filter (fun e => keep e.1) = ofList (as.filter fun a => keep a.1) :=
  filter_assign keep as []

theorem filter_foldl (keep : κ → Bool) (as es : List (κ × ν)) (h : ∀ a ∈ as, keep a.1 = false) :
    (as.foldl (fun es e => put e.1 e.2 es) es).filter (fun e => keep e.1) =
      es.filter fun e => keep e.1 := by
  have hnone : (as.filter fun a => keep a.1) = [] := List.filter_eq_nil_iff.mpr fun a ha => by simp [h a ha]
  rw [filter_assign, hnone, List.foldl_nil]

/-! ## Arrangements -/

theorem get?_eq_some_iff {k : κ} {v : ν} {es : List (κ × ν)} (h : (keys es).Nodup) :
    get? k es = some v ↔ (k, v) ∈ es := by
  refine ⟨get?_of_mem, fun hm => ?_⟩
  obtain ⟨v', hv'⟩ := Option.isSome_iff_exists.mp (has_iff.mpr (List.mem_map_of_mem (f := Prod.fst) hm))
  have heq : (k, v') = (k, v) := List.inj_on_of_nodup_map h (get?_of_mem hv') hm rfl
  rw [hv', (Prod.mk.inj heq).2]

theorem filter_key {es : List (κ × ν)} (h : (keys es).Nodup) (k : κ) :
    (es.filter (·.1 == k)).map Prod.snd = (get? k es).toList := by
  induction es with
  | nil => rfl
  | cons e es ih =>
    obtain ⟨he, hes⟩ := List.nodup_cons.mp h
    rw [get?, List.filter_cons]
    split
    · next hk =>
      have hnone : get? e.1 es = none := by
        rw [← Option.not_isSome_iff_eq_none]
        exact fun hsome => he (has_iff.mp hsome)
      rw [List.map_cons, ih hes, ← eq_of_beq hk, hnone]
      rfl
    · exact ih hes

theorem get?_congr {es fs : List (κ × ν)} (hp : es.Perm fs) (h : (keys es).Nodup) (k : κ) :
    get? k es = get? k fs := by
  have h' : (keys fs).Nodup := (hp.map Prod.fst).nodup_iff.mp h
  refine Option.ext fun v => ?_
  rw [get?_eq_some_iff h, get?_eq_some_iff h', hp.mem_iff]

theorem perm_of_get? {es fs : List (κ × ν)} (he : (keys es).Nodup) (hf : (keys fs).Nodup)
    (h : ∀ k, get? k es = get? k fs) : es.Perm fs := by
  rw [List.perm_ext_iff_of_nodup (List.Nodup.of_map _ he) (List.Nodup.of_map _ hf)]
  intro (k, v)
  rw [← get?_eq_some_iff he, ← get?_eq_some_iff hf, h]

theorem get?_map {k : κ} {f : κ → ν} {ks : List κ} :
    get? k (ks.map fun j => (j, f j)) = if k ∈ ks then some (f k) else none := by
  induction ks with
  | nil => simp [get?]
  | cons j ks ih =>
    rw [List.map_cons, get?]
    by_cases h : j = k
    · simp [h]
    · simp [h, Ne.symm h, ih]

/-! ## Entries that are worked on -/

section

variable {α : Type} {key : α → κ} {f : Option ν → α → ν}

theorem keys_updates {es : List (κ × ν)} (h : (keys es).Nodup) (xs : List α) :
    keys (updates key f es xs) = Order.distinct (keys es ++ xs.map key) := by
  induction xs using List.reverseRecOn with
  | nil => rw [List.map_nil, List.append_nil, Order.distinct_of_nodup h, updates, List.foldl_nil]
  | append_singleton xs x ih =>
    rw [updates_concat, List.map_append, List.map_singleton, ← List.append_assoc, Order.distinct_concat]
    by_cases hx : key x ∈ keys (updates key f es xs)
    · rw [put_of_mem hx, ih, if_pos (List.contains_iff_mem.mpr (Order.mem_distinct.mp (ih ▸ hx)))]
    · rw [keys_put_of_notMem hx, ih, if_neg]
      exact fun hc => hx (ih ▸ Order.mem_distinct.mpr (List.contains_iff_mem.mp hc))

/-- What holds of the values at first and is kept by each writing holds in the end. -/
theorem forall_updates {P : ν → Prop} {es : List (κ × ν)} {xs : List α} (hes : ∀ e ∈ es, P e.2)
    (hf : ∀ o, ∀ x ∈ xs, (∀ v ∈ o, P v) → P (f o x)) : ∀ e ∈ updates key f es xs, P e.2 := by
  induction xs using List.reverseRecOn with
  | nil => exact hes
  | append_singleton xs x ih =>
    have hxs := ih fun o y hy => hf o y (List.mem_append_left [x] hy)
    rw [updates_concat]
    intro e he
    rcases mem_put he with rfl | he
    · exact hf _ x (List.mem_append_right xs List.mem_cons_self) fun v hv => hxs _ (get?_of_mem hv)
    · exact hxs e he

/-- What a key gives is made by the values of that key alone, one after the other. -/
theorem get?_updates (k : κ) (es : List (κ × ν)) (xs : List α) :
    get? k (updates key f es xs) =
      (xs.filter (key · == k)).foldl (fun o x => some (f o x)) (get? k es) := by
  induction xs using List.reverseRecOn with
  | nil => rfl
  | append_singleton xs x ih =>
    rw [updates_concat, List.filter_append]
    by_cases h : key x = k
    · rw [List.filter_cons_of_pos (by simpa using h), List.filter_nil, List.foldl_concat, ← h,
        get?_put_self, h, ih]
    · rw [List.filter_cons_of_neg (by simpa using h), List.filter_nil, List.append_nil,
        get?_put_other _ (Ne.symm h), ih]

end

/-! ## Entries that are only added -/

section

variable {α : Type} {key : α → κ}

/-- Writing each value under its key, unless the key is there. -/
def putNews (key : α → κ) (es : List (κ × α)) (xs : List α) : List (κ × α) :=
  xs.foldl (fun es x => putNew (key x) x es) es

theorem mem_keys_putNew {j k : κ} {v : ν} {es : List (κ × ν)} :
    j ∈ keys (putNew k v es) ↔ j = k ∨ j ∈ keys es := by
  unfold putNew
  split
  · next h =>
    have hk := has_iff.mp h
    exact ⟨Or.inr, fun hj => hj.elim (fun he => he ▸ hk) id⟩
  · simp [keys, or_comm]

theorem mem_keys_putNews {k : κ} {es : List (κ × α)} {xs : List α} :
    k ∈ keys (putNews key es xs) ↔ k ∈ keys es ∨ ∃ x ∈ xs, key x = k := by
  induction xs generalizing es with
  | nil => simp [putNews]
  | cons x xs ih =>
    rw [putNews, List.foldl_cons, ← putNews, ih, mem_keys_putNew, List.exists_mem_cons_iff, or_assoc,
      or_left_comm, eq_comm]

theorem get?_putNew (k j : κ) (v : ν) (es : List (κ × ν)) :
    get? k (putNew j v es) = (get? k es).or (if j == k then some v else none) := by
  unfold putNew
  split
  · next h =>
    split
    · next hjk =>
      rw [← eq_of_beq hjk]
      rw [has] at h
      rw [Option.or_of_isSome h]
    · rw [Option.or_none]
  · rw [get?_append, get?]
    rfl

theorem get?_putNews (k : κ) (es : List (κ × α)) (xs : List α) :
    get? k (putNews key es xs) = (get? k es).or (xs.find? fun x => key x == k) := by
  induction xs generalizing es with
  | nil => exact (Option.or_none).symm
  | cons x xs ih =>
    rw [putNews, List.foldl_cons, ← putNews, ih, get?_putNew, Option.or_assoc, List.find?_cons]
    by_cases hx : (key x == k) = true
    · rw [if_pos hx, hx]
      rfl
    · rw [if_neg hx, Option.none_or, Bool.eq_false_iff.mpr hx]

theorem nodup_keys_putNews {es : List (κ × α)} {xs : List α} (h : (keys es).Nodup) :
    (keys (putNews key es xs)).Nodup := by
  induction xs generalizing es with
  | nil => exact h
  | cons x xs ih =>
    rw [putNews, List.foldl_cons, ← putNews]
    refine ih ?_
    unfold putNew
    split
    · exact h
    · next hx =>
      rw [← put_of_notMem fun hk => hx (has_iff.mpr hk)]
      exact nodup_keys_put h

/-- Values whose keys are new to the front of a table go to its back. -/
theorem putNews_append {es fs : List (κ × α)} {xs : List α} (h : ∀ x ∈ xs, key x ∉ keys es) :
    putNews key (es ++ fs) xs = es ++ putNews key fs xs := by
  induction xs generalizing fs with
  | nil => rfl
  | cons x xs ih =>
    have hx : ¬ has (key x) es = true := fun hx => h x List.mem_cons_self (has_iff.mp hx)
    have hhas : has (key x) (es ++ fs) = has (key x) fs := by
      rw [has, get?_append]
      simp only [has, Option.not_isSome_iff_eq_none] at hx
      rw [hx, Option.none_or, has]
    have hput : putNew (key x) x (es ++ fs) = es ++ putNew (key x) x fs := by
      unfold putNew
      rw [hhas]
      split
      · rfl
      · rw [List.append_assoc]
    rw [putNews, List.foldl_cons, hput]
    exact ih fun y hy => h y (List.mem_cons_of_mem x hy)

end

end Retype.Keyed

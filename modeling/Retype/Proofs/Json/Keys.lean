import Retype.Json.Reader
import Retype.Proofs.Fault
import Retype.Proofs.Keyed

/-!
# Keys of values that are read

A table that is read from a text has each of its keys once, and so have all tables inside it.
-/

set_option autoImplicit false

namespace Retype

namespace Json

/-- A value in which every table has each of its keys once. -/
inductive Distinct : Json → Prop where
  | null : Distinct .null
  | bool (b : Bool) : Distinct (.bool b)
  | int (n : Int) : Distinct (.int n)
  | float (x : Float) : Distinct (.float x)
  | str (s : String) : Distinct (.str s)
  | arr {items : List Json} (h : ∀ v ∈ items, Distinct v) : Distinct (.arr items)
  | obj {members : List (String × Json)} (hkeys : (Keyed.keys members).Nodup)
      (h : ∀ m ∈ members, Distinct m.2) : Distinct (.obj members)

variable {l : Limits} {depth fuel : Nat} {cs rest : List Char} {v : Json}

theorem magnitude_distinct {start : List Char} {negative : Bool}
    (h : magnitude l start negative cs = .ok (v, rest)) : v.Distinct := by
  simp only [magnitude] at h
  generalize (if cs.head? = some '0' then ['0'] else cs.takeWhile isDigit) = whole at h
  split at h
  · cases h
  · split at h
    · split at h
      · cases h
        exact .int _
      · cases h
    · cases h
      exact .float _

theorem scalar_distinct (h : scalar l fuel cs = .ok (v, rest)) : v.Distinct := by
  unfold scalar at h
  split at h
  · cases h
    exact .null
  · cases h
    exact .bool true
  · cases h
    exact .bool false
  · cases h
    exact .float _
  · cases h
    exact .float _
  · cases h
    exact .float _
  · obtain ⟨⟨s, _⟩, -, hs⟩ := ok_map h
    cases hs
    exact .str s
  · exact magnitude_distinct h
  · exact magnitude_distinct h

theorem Distinct.no_items : (Json.arr []).Distinct := .arr fun _ hv => nomatch hv

theorem Distinct.no_members : (Json.obj []).Distinct := .obj List.nodup_nil fun _ hm => nomatch hm

theorem Distinct.put {done : List (String × Json)} (h : (Json.obj done).Distinct)
    (key : String) (hv : v.Distinct) :
    (Json.obj (Keyed.put key v done)).Distinct := by
  cases h with
  | obj hkeys hmembers =>
    refine .obj (Keyed.nodup_keys_put hkeys) fun m hm => ?_
    rcases Keyed.mem_put hm with rfl | hm
    · exact hv
    · exact hmembers m hm

/-- With less fuel than is given, whatever is read is so. -/
theorem reading_distinct (l : Limits) (fuel : Nat) :
    (∀ depth cs v rest, value l depth fuel cs = .ok (v, rest) → v.Distinct) ∧
    (∀ depth done cs v rest, (∀ d ∈ done, d.Distinct) → items l depth fuel done cs = .ok (v, rest) →
      v.Distinct) ∧
    ∀ depth done cs v rest, (obj done).Distinct → members l depth fuel done cs = .ok (v, rest) →
      v.Distinct := by
  induction fuel with
  | zero =>
    refine ⟨?_, ?_, ?_⟩
    · intro depth cs v rest h
      cases h
    · intro depth done cs v rest _ h
      cases h
    · intro depth done cs v rest _ h
      cases h
  | succ fuel ih =>
    obtain ⟨hvalue, hitems, hmembers⟩ := ih
    refine ⟨?value, ?items, ?members⟩
    case value =>
      intro depth cs v rest h
      unfold value at h
      split at h
      · split at h
        · cases h
        · split at h
          · cases h
            exact .no_items
          · exact hitems _ _ _ _ _ (by simp) h
      · split at h
        · cases h
        · split at h
          · cases h
            exact .no_members
          · exact hmembers _ _ _ _ _ .no_members h
      · exact scalar_distinct h
    case items =>
      intro depth done cs v rest hdone h
      unfold items at h
      split at h
      · cases h
      · next w rest' hw =>
        have hall : ∀ d ∈ w :: done, d.Distinct :=
          List.forall_mem_cons.mpr ⟨hvalue _ _ _ _ hw, hdone⟩
        split at h
        · exact hitems _ _ _ _ _ hall h
        · cases h
          exact .arr fun d hd => hall d (List.mem_reverse.mp hd)
        · cases h
    case members =>
      intro depth done cs v rest hdone h
      unfold members at h
      split at h
      · split at h
        · cases h
        · next key rest' _ =>
          split at h
          · split at h
            · cases h
            · next w rest' hw =>
              have hput := Distinct.put hdone key (hvalue _ _ _ _ hw)
              split at h
              · exact hmembers _ _ _ _ _ hput h
              · cases h
                exact hput
              · cases h
          · cases h
      · cases h

/-- In a value that is read every table has each of its keys once. -/
theorem read_distinct {text : String} (h : read l text = .ok v) : v.Distinct := by
  have hwhole := ok_mapError h
  unfold whole at hwhole
  split at hwhole
  · cases hwhole
  · split at hwhole
    · cases hwhole
    · next w rest hw =>
      split at hwhole
      · cases hwhole
        exact (reading_distinct l _).1 _ _ _ _ hw
      · cases hwhole

end Json

end Retype

import Retype.Proofs.Json.Demands
import Retype.Proofs.Project.Files
import Retype.Proofs.Roadmap.Totals
import Retype.Roadmap.File

/-!
# Which roadmaps are accepted

A text is accepted as a roadmap if its value can be gone through and every item is a batch:
a table with an id that makes an integer, and with members that are tables with a name and a
path. Every other text is refused, but for two: one that goes too deep, and one whose first
item that is no batch has an infinite id. What is accepted need not have totals.
-/

set_option autoImplicit false

namespace Retype

open Json.Demand

def Member.demands : List Json.Demand :=
  [needed "name" anything, needed "path" anything, allowed "complexity" anything,
   allowed "complexityLevel" anything, allowed "category" anything, allowed "dependencyCount" anything,
   allowed "usedByCount" anything]

theorem Member.failing_ofJson (v : Json) : failing Fault.kind (ofJson v) = all demands v := by
  unfold ofJson
  refine Json.failing_next (Json.failing_needed "name" v) fun name => ?_
  refine Json.failing_next (Json.failing_needed "path" v) fun path => ?_
  refine Json.failing_next (Json.failing_allowed "complexity" _ v) fun complexity => ?_
  refine Json.failing_next (Json.failing_allowed "complexityLevel" _ v) fun level => ?_
  refine Json.failing_next (Json.failing_allowed "category" _ v) fun category => ?_
  refine Json.failing_next (Json.failing_allowed "dependencyCount" _ v) fun dependencies => ?_
  exact Json.failing_next (Json.failing_allowed "usedByCount" _ v) fun dependents => rfl

def Batch.demands : List Json.Demand :=
  [needed "id" integer, allowed "name" anything, allowed "description" anything,
   allowed "components" (each (all Member.demands))]

theorem Batch.failing_ofJson (v : Json) : failing Fault.kind (ofJson v) = all demands v := by
  unfold ofJson
  refine Json.failing_through (Json.failing_need "id" Json.failing_toInt v) fun written id => ?_
  refine Json.failing_next (Json.failing_allowed "name" _ v) fun name => ?_
  refine Json.failing_next (Json.failing_allowed "description" _ v) fun description => ?_
  have hmembers := Json.failing_getD "components" (w := .arr [])
    (Json.failing_each Member.failing_ofJson) rfl v
  simp only [← bind_assoc] at hmembers ⊢
  exact Json.failing_next hmembers fun members => rfl

def Batch.Endless (v : Json) : Prop :=
  ∃ members x, v = .obj members ∧ Keyed.get? "id" members = some (.float x) ∧ ¬ Binary.Finite x ∧
    x.isNaN = false

/-- The faults that a roadmap is refused for. -/
def Roadmap.Refused (k : Fault.Kind) : Prop := k = .key ∨ k = .type ∨ k = .value

open Roadmap (Refused)

variable {v : Json} {d : Json.Demand} {k : Fault.Kind}

theorem Member.demands_told (h : all demands v = some k) : k = .key ∨ k = .type := by
  cases v with
  | obj members =>
    obtain ⟨d, hd, hk⟩ := all_told h
    simp only [demands, List.mem_cons, List.not_mem_nil, or_false] at hd
    rcases hd with rfl | rfl | rfl | rfl | rfl | rfl | rfl
    · exact Or.inl ((needed_told hk).resolve_right fun ⟨m, _, hm⟩ => nomatch hm)
    · exact Or.inl ((needed_told hk).resolve_right fun ⟨m, _, hm⟩ => nomatch hm)
    all_goals
      obtain ⟨m, -, hm⟩ := allowed_told hk
      cases hm
  | _ =>
    cases h
    exact Or.inr rfl

theorem Batch.demands_told (h : all demands v = some k) : Refused k ∨ (k = .range ∧ Endless v) := by
  cases v with
  | obj members =>
    obtain ⟨d, hd, hk⟩ := all_told h
    simp only [demands, List.mem_cons, List.not_mem_nil, or_false] at hd
    rcases hd with rfl | rfl | rfl | rfl
    · rcases needed_told hk with rfl | ⟨m, hid, hm⟩
      · exact Or.inl (Or.inl rfl)
      · rcases integer_told hm with rfl | rfl | ⟨rfl, x, rfl, hx, hn⟩
        · exact Or.inl (Or.inr (Or.inl rfl))
        · exact Or.inl (Or.inr (Or.inr rfl))
        · exact Or.inr ⟨rfl, members, x, rfl, hid, by simp [Binary.Finite, hx], hn⟩
    · obtain ⟨m, -, hm⟩ := allowed_told hk
      cases hm
    · obtain ⟨m, -, hm⟩ := allowed_told hk
      cases hm
    · obtain ⟨m, -, hm⟩ := allowed_told hk
      rcases each_told hm with rfl | ⟨w, hw⟩
      · exact Or.inl (Or.inr (Or.inl rfl))
      · exact Or.inl ((Member.demands_told hw).imp_right Or.inl)
  | _ =>
    cases h
    exact Or.inl (Or.inr (Or.inl rfl))

theorem Batch.endless_told (h : Endless v) : all demands v = some .range := by
  obtain ⟨members, x, rfl, hid, hx, hn⟩ := h
  have hrange : integer (.float x) = some .range := by
    rw [integer, if_neg (show ¬ (Binary.of? x).isSome from hx), hn]
    rfl
  have hneeded : needed "id" integer (.obj members) = some .range := by
    simp only [needed, hid, hrange]
  rw [all, demands, List.findSome?_cons, hneeded]

namespace Roadmap

def flaw? (l : Json.Limits) (text : String) : Option Fault.Kind :=
  match Json.read l text with
  | .error e => some e.fault.kind
  | .ok v => each (all Batch.demands) v

theorem failing_batchesOf (l : Json.Limits) (text : String) :
    failing Fault.kind (batchesOf l text) = flaw? l text := by
  unfold batchesOf flaw?
  cases Json.read l text with
  | error e => rfl
  | ok v => exact Json.failing_each Batch.failing_ofJson v

/-- A text that neither is a roadmap nor is refused as one: it goes too deep, or the first of its
items that is no batch has an infinite id. -/
def Escapes (l : Json.Limits) (text : String) : Prop :=
  Json.read l text = .error .tooDeep ∨ ∃ pre b post, Json.read l text = .ok (.arr (pre ++ b :: post)) ∧
    (∀ v ∈ pre, all Batch.demands v = none) ∧ Batch.Endless b

variable {l : Json.Limits} {w : Workspace} {path text : String}

theorem escapes_of_value (hread : Json.read l text = .ok v) (h : each (all Batch.demands) v = some k)
    (hk : ¬ Refused k) : Escapes l text := by
  -- a text or a table is gone through by texts, and none of these is a batch
  have htexts : ∀ ts : List String, (ts.map Json.str).findSome? (all Batch.demands) ≠ some k := by
    intro ts hts
    obtain ⟨w, hw, hwk⟩ := List.exists_of_findSome?_eq_some hts
    obtain ⟨t, -, rfl⟩ := List.mem_map.mp hw
    cases hwk
    exact hk (Or.inr (Or.inl rfl))
  cases v with
  | arr items =>
    obtain ⟨pre, b, post, rfl, hb, hpre⟩ := List.findSome?_eq_some_iff.mp h
    have hendless := ((Batch.demands_told hb).resolve_left hk).2
    exact Or.inr ⟨pre, b, post, hread, hpre, hendless⟩
  | str s =>
    refine absurd ?_ (htexts (s.toList.map Char.toString))
    rw [List.map_map]
    exact h
  | obj members =>
    refine absurd ?_ (htexts (members.map Prod.fst))
    rw [List.map_map]
    exact h
  | null | bool | int | float =>
    cases h
    exact absurd (Or.inr (Or.inl rfl)) hk

theorem escapes_iff : (∃ k, flaw? l text = some k ∧ ¬ Refused k) ↔ Escapes l text := by
  constructor
  · rintro ⟨k, h, hk⟩
    unfold flaw? at h
    cases hread : Json.read l text with
    | error e =>
      rw [hread] at h
      cases h
      cases e with
      | malformed | longNumeral => exact absurd (Or.inr (Or.inr rfl)) hk
      | tooDeep => exact Or.inl hread
    | ok v =>
      rw [hread] at h
      exact escapes_of_value hread h hk
  · rintro (hread | ⟨pre, b, post, hread, hpre, hb⟩)
    · refine ⟨.depth, ?_, by simp [Refused]⟩
      rw [flaw?, hread]
      rfl
    · refine ⟨.range, ?_, by simp [Refused]⟩
      rw [flaw?, hread]
      exact List.findSome?_eq_some_iff.mpr ⟨pre, b, post, rfl, Batch.endless_told hb, hpre⟩

theorem load_text (hfile : w.readText path = .ok text) : load l w path = ofText l path text := by
  unfold load
  rw [Workspace.holds_of_readText hfile]
  simp only [bind, Except.bind, liftM, monadLift, MonadLift.monadLift, Except.mapError, if_true, hfile]

theorem refuse_upset {f : Fault} : (∃ t, refuse path f = .upset t) ↔ ¬ Refused f.kind := by
  unfold refuse Refused
  cases f.kind <;> simp

/-- A roadmap is refused or accepted unless its text goes too deep or the first item that is no
batch has an infinite id. Of an accepted batch the members can always be counted, but it has an
average exactly if its complexities add up to what can be shared out, and an effort and a
written form exactly if the average makes a finite effort. -/
theorem load_accepts (hfile : w.readText path = .ok text) :
    ((∃ t, load l w path = .error (.upset t)) ↔ Escapes l text) ∧
    ((∃ bs, load l w path = .ok bs) ↔ flaw? l text = none) ∧
    ∀ bs, load l w path = .ok bs → ∀ b ∈ bs,
      ((∃ n, b.average = .ok n) ↔ b.Averaged) ∧ ((∃ x, b.effort = .ok x) ↔ b.Estimated) ∧
      ((∃ v, b.toJson = .ok v) ↔ b.Estimated) := by
  refine ⟨?escapes, ?accepts, fun bs _ b _ => ⟨b.average_iff, b.effort_iff, b.written_iff⟩⟩
  case escapes =>
    rw [load_text hfile, ofText, ← escapes_iff, ← failing_batchesOf]
    cases hb : batchesOf l text with
    | ok bs => simp [failing, Except.mapError]
    | error f => simpa [failing, Except.mapError] using refuse_upset
  case accepts =>
    rw [load_text hfile, ofText, ← failing_batchesOf]
    cases hb : batchesOf l text with
    | ok bs => simp [failing, Except.mapError]
    | error f => simp [failing, Except.mapError]

def planned (text : String) : Workspace := ⟨[("/p", .folder), ("/p/roadmap.json", .file text)]⟩

/-- A roadmap of one batch with one member, whose complexity is given as it is written. -/
def single (complexity : String) : String :=
  "[\x7b\"id\": 1, \"components\": [\x7b\"name\": \"A\", \"path\": \"a.jsx\", \"complexity\": " ++ complexity ++
    "\x7d]\x7d]"

theorem single_usable : ∃ bs, load .standard (planned (single "3")) "/p/roadmap.json" = .ok bs ∧ bs.length = 1 ∧
    ∀ b ∈ bs, b.Averaged ∧ b.Estimated := by
  have hfile : (planned (single "3")).readText "/p/roadmap.json" = .ok (single "3") := by decide +kernel
  have htotals : (load .standard (planned (single "3")) "/p/roadmap.json").toOption.map
      (fun bs => bs.map fun b => (b.average, b.effort)) = some [(.ok 3, .ok 0.3)] := by decide +kernel
  obtain ⟨bs, hload, hbs⟩ := Option.map_eq_some_iff.mp htotals
  obtain ⟨b, rest, rfl, hb, hrest⟩ := List.map_eq_cons_iff.mp hbs
  obtain rfl := List.map_eq_nil_iff.mp hrest
  obtain ⟨-, -, haccessors⟩ := load_accepts hfile
  refine ⟨[b], ok_toOption hload, rfl, fun b' hb' => ?_⟩
  obtain rfl := List.mem_singleton.mp hb'
  obtain ⟨haverage, heffort, -⟩ := haccessors _ (ok_toOption hload) b' hb'
  exact ⟨haverage.mp ⟨3, congrArg Prod.fst hb⟩, heffort.mp ⟨0.3, congrArg Prod.snd hb⟩⟩

/-- An infinite id escapes, and a roadmap with a complexity that is a text is accepted although
its batch has no average. -/
theorem endless_escapes :
    load .standard (planned "[\x7b\"id\": Infinity\x7d]") "/p/roadmap.json" = .error (.upset (.fault .endless)) ∧
      ∃ b, load .standard (planned (single "\"x\"")) "/p/roadmap.json" = .ok [b] ∧
        b.average = .error (.noSum .int .text) := by
  have hendless : failing id (load .standard (planned "[\x7b\"id\": Infinity\x7d]") "/p/roadmap.json") =
      some (.upset (.fault .endless)) := by decide +kernel
  have htext : (load .standard (planned (single "\"x\"")) "/p/roadmap.json").toOption.map (fun bs => bs.map (·.average)) =
      some [.error (.noSum .int .text)] := by decide +kernel
  obtain ⟨f, hf, rfl⟩ := failing_eq_some.mp hendless
  obtain ⟨bs, hload, hbs⟩ := Option.map_eq_some_iff.mp htext
  obtain ⟨b, rest, rfl, hb, hrest⟩ := List.map_eq_cons_iff.mp hbs
  obtain rfl := List.map_eq_nil_iff.mp hrest
  exact ⟨hf, b, ok_toOption hload, hb⟩

end Roadmap

end Retype

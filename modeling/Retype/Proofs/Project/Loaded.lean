import Retype.Proofs.Project.Rulings

/-!
# Settings as they are loaded

Settings that are loaded hold for every known key the value that is given, or its default; every
indicator has the thresholds, the weight and the value that are given, or its own; and the cut
points are three values of which none is before the one in front of it. That says nothing of
their form, so a profile may have no score under them.
-/

set_option autoImplicit false

namespace Retype

section Fold

variable {κ ν σ ε X : Type} {f : σ → κ × ν → Except ε σ} {p : σ → X} {es : List (κ × ν)} {s s' : σ}

theorem foldlM_keeps (hf : ∀ s e s', f s e = .ok s' → p s' = p s) (h : es.foldlM f s = .ok s') :
    p s' = p s := by
  induction es generalizing s with
  | nil =>
    cases h
    rfl
  | cons e es ih =>
    rw [List.foldlM_cons] at h
    obtain ⟨s₁, hs₁, h⟩ := ok_bind h
    exact (ih h).trans (hf s e s₁ hs₁)

/-- Where only the entry with one key changes what is looked at, it is as that entry makes it. -/
theorem foldlM_at [BEq κ] [LawfulBEq κ] {k : κ} {R : X → ν → X → Prop}
    (hown : ∀ s v s', f s (k, v) = .ok s' → R (p s) v (p s'))
    (hother : ∀ s j v s', j ≠ k → f s (j, v) = .ok s' → p s' = p s)
    (hn : (Keyed.keys es).Nodup) (h : es.foldlM f s = .ok s') :
    match Keyed.get? k es with
    | none => p s' = p s
    | some v => R (p s) v (p s') := by
  induction es generalizing s with
  | nil =>
    cases h
    rfl
  | cons e es ih =>
    obtain ⟨key, v⟩ := e
    rw [List.foldlM_cons] at h
    obtain ⟨s₁, hs₁, h⟩ := ok_bind h
    obtain ⟨hnew, hn⟩ := List.nodup_cons.mp hn
    have hrest := ih hn h
    rw [Keyed.get?]
    by_cases hk : key = k
    · subst hk
      -- no later entry has this key, so what it makes stays
      have hnone : Keyed.get? key es = none := by
        rw [← Option.not_isSome_iff_eq_none]
        exact fun hs => hnew (Keyed.has_iff.mp hs)
      rw [hnone] at hrest
      simp only [beq_self_eq_true, if_true, hrest]
      exact hown s v s₁ hs₁
    · simp only [beq_iff_eq, hk, if_false]
      rwa [hother s key v s₁ hk hs₁] at hrest

end Fold

/-! ## Indicators -/

def TakesNumber (stands : Float) (x : Float) : Option Json → Prop
  | none => x = stands
  | some v => v.toFloat = .ok x

def TakesThresholds (stands ts : Option (Triple Json)) : Option Json → Prop
  | none => ts = stands
  | some .null => ts = none
  | some v => ∃ t, ts = some t ∧ v.parts? = some [t.first, t.second, t.third]

/-- A gauge that takes what is given for its indicator, and otherwise is as it stands. -/
structure Gauge.Takes (stands : Gauge Float Json) (spec : Option Json) (g : Gauge Float Json) : Prop where
  thresholds : TakesThresholds stands.thresholds g.thresholds (spec.bind (·.field? "thresholds"))
  weight : TakesNumber stands.weight g.weight (spec.bind (·.field? "weight"))
  value : TakesNumber stands.value g.value (spec.bind (·.field? "value"))

namespace Ruling

theorem ok_given {x y : Float} {v : Option Json} (h : given x v = .ok y) : TakesNumber x y v := by
  cases v with
  | none => exact (Except.ok.inj h).symm
  | some v => exact ok_mapError (ok_mapError h)

theorem ok_triple {e : ConfigError} {v : Json} {t : Triple Json}
    (h : WrittenScoring.tripleOf e v = .ok t) : v.parts? = some [t.first, t.second, t.third] := by
  rw [WrittenScoring.tripleOf_parts] at h
  cases hp : v.parts? with
  | none =>
    rw [hp] at h
    cases h
  | some items =>
    rw [hp] at h
    rcases items with _ | ⟨a, _ | ⟨b, _ | ⟨c, _ | ⟨d, rest⟩⟩⟩⟩
    · cases h
    · cases h
    · cases h
    · cases h
      rfl
    · cases h

theorem ok_givenThresholds {current ts : Option (Triple Json)} {name : String} {v : Option Json}
    (h : givenThresholds current name v = .ok ts) : TakesThresholds current ts v := by
  rcases v with _ | v
  · exact (Except.ok.inj h).symm
  · cases v with
    | null => exact (Except.ok.inj h).symm
    | bool | int | float => cases h
    | str | arr | obj =>
      obtain ⟨t, ht, rfl⟩ := ok_map h
      exact ⟨t, rfl, ok_triple ht⟩

theorem readGauge_takes {stands g : Gauge Float Json} {name : String} {spec : Json}
    (h : WrittenScoring.readGauge stands name spec = .ok g) : stands.Takes (some spec) g := by
  cases spec with
  | obj members =>
    rw [readGauge_eq] at h
    obtain ⟨thresholds, hthresholds, h⟩ := ok_bind h
    obtain ⟨weight, hweight, h⟩ := ok_bind h
    obtain ⟨value, hvalue, h⟩ := ok_bind h
    cases h
    exact ⟨ok_givenThresholds hthresholds, ok_given hweight, ok_given hvalue⟩
  | null | bool | int | float | str | arr => cases h

theorem ofText?_text (i : Indicator) : Indicator.ofText? i.text = some i := by cases i <;> decide

theorem text_of_ofText? {name : String} {i : Indicator} (h : Indicator.ofText? name = some i) : i.text = name := by
  simpa using List.find?_some h

theorem readIndicator_ok {s s' : WrittenScoring} {name : String} {spec : Json}
    (h : s.readIndicator (name, spec) = .ok s') :
    ∃ j g, j.text = name ∧ (s.gauge j).Takes (some spec) g ∧ s' = s.set j g := by
  unfold WrittenScoring.readIndicator at h
  cases hj : Indicator.ofText? name with
  | none =>
    rw [hj] at h
    cases h
  | some j =>
    rw [hj] at h
    obtain ⟨g, hg, rfl⟩ := ok_map h
    exact ⟨j, g, text_of_ofText? hj, readGauge_takes hg, rfl⟩

theorem text_injective {i j : Indicator} (h : i.text = j.text) : i = j :=
  Option.some.inj ((ofText?_text i).symm.trans ((congrArg _ h).trans (ofText?_text j)))

end Ruling

/-! ## Scorings -/

namespace WrittenScoring

def TakesCuts (stands t : Triple Json) : Option Json → Prop
  | none => t = stands
  | some v => v.parts? = some [t.first, t.second, t.third]

/-- A scoring that takes what is given of it, and otherwise is the standard one. -/
structure Takes (given : Option Json) (s : WrittenScoring) : Prop where
  gauges : ∀ i, (standardGauge i).Takes ((given.bind (·.field? "indicators")).bind (·.field? i.text)) (s.gauge i)
  cuts : TakesCuts standard.cuts s.cuts (given.bind (·.field? "tier_cut_points"))

theorem takes_nothing (g : Gauge Float Json) : g.Takes none g := ⟨rfl, rfl, rfl⟩

variable {s s' : WrittenScoring} {indicators : List (String × Json)}

theorem readIndicators_cuts (h : indicators.foldlM readIndicator s = .ok s') : s'.cuts = s.cuts := by
  refine foldlM_keeps (p := fun s => s.cuts) (fun s member s' hs => ?_) h
  obtain ⟨j, g, -, -, rfl⟩ := Ruling.readIndicator_ok hs
  rfl

/-- Of indicators that are read in turn each changes its own gauge. -/
theorem readIndicators_gauge (hn : (Keyed.keys indicators).Nodup) (h : indicators.foldlM readIndicator s = .ok s')
    (i : Indicator) : (s.gauge i).Takes (Keyed.get? i.text indicators) (s'.gauge i) := by
  have hat := foldlM_at (k := i.text) (p := fun s => s.gauge i) (R := fun g spec g' => g.Takes (some spec) g')
    ?own ?other hn h
  case own =>
    intro s spec s' hs
    obtain ⟨j, g, hj, hg, rfl⟩ := Ruling.readIndicator_ok hs
    obtain rfl := Ruling.text_injective hj
    simpa [set] using hg
  case other =>
    intro s name spec s' hname hs
    obtain ⟨j, g, rfl, -, rfl⟩ := Ruling.readIndicator_ok hs
    have hij : i ≠ j := fun he => hname (he ▸ rfl)
    simp [set, hij]
  cases hg : Keyed.get? i.text indicators with
  | none =>
    rw [hg] at hat
    exact hat ▸ takes_nothing _
  | some spec =>
    rw [hg] at hat
    exact hat

theorem ok_ascends {t : Triple Json} (h : ascends t = .ok true) : Ascends t := by
  unfold ascends at h
  obtain ⟨first, hfirst, h⟩ := ok_bind h
  obtain ⟨last, hlast, h⟩ := ok_bind h
  cases first with
  | false =>
    cases last with
    | false => exact ⟨hfirst, hlast⟩
    | true =>
      obtain ⟨_, -, h⟩ := ok_bind h
      cases h
  | true =>
    cases last with
    | false =>
      obtain ⟨_, -, h⟩ := ok_bind h
      cases h
    | true => cases h

theorem readCuts_takes {v : Json} {t : Triple Json} (h : readCuts v = .ok t) :
    v.parts? = some [t.first, t.second, t.third] ∧ Ascends t := by
  obtain ⟨t', ht, h⟩ := ok_bind h
  obtain ⟨up, hup, h⟩ := ok_bind h
  cases up with
  | false => cases h
  | true =>
    cases h
    exact ⟨Ruling.ok_triple ht, ok_ascends (ok_mapError (ok_mapError hup))⟩

theorem standard_ascends : Ascends standard.cuts := by
  constructor <;> decide +kernel

theorem givenIndicators_takes {v : Option Json} (hv : ∀ w, v = some w → w.Distinct)
    (h : Ruling.givenIndicators v = .ok s) : s.cuts = standard.cuts ∧
      ∀ i, (standardGauge i).Takes (v.bind (·.field? i.text)) (s.gauge i) := by
  cases v with
  | none =>
    cases h
    exact ⟨rfl, fun i => takes_nothing _⟩
  | some v =>
    cases v with
    | obj indicators =>
      cases hv _ rfl with
      | obj hkeys =>
        have hfold : indicators.foldlM readIndicator standard = .ok s := h
        exact ⟨readIndicators_cuts hfold, readIndicators_gauge hkeys hfold⟩
    | null | bool | int | float | str | arr => cases h

theorem givenCuts_takes {v : Option Json} (hs : Ascends s.cuts) (h : Ruling.givenCuts s v = .ok s') :
    s'.gauge = s.gauge ∧ TakesCuts s.cuts s'.cuts v ∧ Ascends s'.cuts := by
  cases v with
  | none =>
    cases h
    exact ⟨rfl, rfl, hs⟩
  | some v =>
    obtain ⟨t, ht, rfl⟩ := ok_map h
    exact ⟨rfl, readCuts_takes ht⟩

/-- A scoring that is read takes what is given, and its cut points ascend. -/
theorem read_takes {v : Json} (hv : v.Distinct) (h : read v = .ok s) : Takes (some v) s ∧ Ascends s.cuts := by
  cases hv with
  | @obj members _ hmembers =>
    rw [Ruling.read_eq] at h
    obtain ⟨s₁, hs₁, h⟩ := ok_bind h
    have hinner : ∀ w, Keyed.get? "indicators" members = some w → w.Distinct :=
      fun w hw => hmembers _ (Keyed.get?_of_mem hw)
    obtain ⟨hcuts, hgauges⟩ := givenIndicators_takes hinner hs₁
    obtain ⟨hsame, htaken, hascends⟩ := givenCuts_takes (hcuts ▸ standard_ascends) h
    exact ⟨⟨fun i => hsame ▸ hgauges i, hcuts ▸ htaken⟩, hascends⟩
  | null | bool | int | float | str | arr => cases h

end WrittenScoring

/-! ## Settings -/

namespace Config

/-- Settings that take the values that are given for known keys, and otherwise the defaults. -/
structure Takes (c : Config) (processors : Option Nat) (top : String) (members : List (String × Json)) :
    Prop where
  root : c.root = top
  values : ∀ key, isSetting key →
    c.value key = (Keyed.get? key members).getD ((standard processors top).value key)
  scoring : c.scoring.Takes (Keyed.get? "scoring" members)

variable {file : String} {c c' : Config}

theorem set_ok {key : String} {v : Json} (h : c.set file (key, v) = .ok c') :
    (key = "scoring" ∧ ∃ s, WrittenScoring.read v = .ok s ∧ c' = { c with scoring := s }) ∨
      key ≠ "scoring" ∧ c' = { c with values := Keyed.put key v c.values } := by
  simp only [set, beq_iff_eq] at h
  split at h
  · next hk =>
    obtain ⟨s, hs, rfl⟩ := ok_map h
    exact Or.inl ⟨hk, s, hs, rfl⟩
  · next hk =>
    refine Or.inr ⟨hk, ?_⟩
    split at h
    · cases h
    · split at h
      · cases h
      · exact (Except.ok.inj h).symm

theorem members_root {members : List (String × Json)} (h : members.foldlM (set file) c = .ok c') :
    c'.root = c.root := by
  refine foldlM_keeps (p := Config.root) (fun c member c' hc => ?_) h
  rcases set_ok hc with ⟨-, s, -, rfl⟩ | ⟨-, rfl⟩ <;> rfl

theorem members_value {members : List (String × Json)} (hn : (Keyed.keys members).Nodup)
    (h : members.foldlM (set file) c = .ok c') {key : String} (hk : key ≠ "scoring") :
    c'.value key = (Keyed.get? key members).getD (c.value key) := by
  have hat := foldlM_at (k := key) (p := fun c => c.value key) (R := fun _ v new => new = v) ?own ?other hn h
  case own =>
    intro c v c' hc
    rcases set_ok hc with ⟨hs, -⟩ | ⟨-, rfl⟩
    · exact absurd hs hk
    · simp [value, Keyed.get?_put_self]
  case other =>
    intro c name v c' hname hc
    rcases set_ok hc with ⟨-, s, -, rfl⟩ | ⟨-, rfl⟩
    · rfl
    · simp [value, Keyed.get?_put_other _ (Ne.symm hname)]
  cases hg : Keyed.get? key members <;> simpa [hg] using hat

theorem members_scoring {members : List (String × Json)} (hmembers : (Json.obj members).Distinct)
    (hc : c.scoring = .standard) (h : members.foldlM (set file) c = .ok c') :
    c'.scoring.Takes (Keyed.get? "scoring" members) ∧ WrittenScoring.Ascends c'.scoring.cuts := by
  obtain ⟨hn, hdeep⟩ : (Keyed.keys members).Nodup ∧ ∀ m ∈ members, m.2.Distinct := by
    cases hmembers with
    | obj hn hdeep => exact ⟨hn, hdeep⟩
  have hat := foldlM_at (k := "scoring") (p := Config.scoring)
    (R := fun _ v new => WrittenScoring.read v = .ok new) ?own ?other hn h
  case own =>
    intro c v c' hc
    rcases set_ok hc with ⟨-, s, hs, rfl⟩ | ⟨hs, -⟩
    · exact hs
    · exact absurd rfl hs
  case other =>
    intro c name v c' hname hc
    rcases set_ok hc with ⟨hs, -⟩ | ⟨-, rfl⟩
    · exact absurd hs hname
    · rfl
  cases hg : Keyed.get? "scoring" members with
  | none =>
    rw [hg] at hat
    rw [show c'.scoring = .standard from hat.trans hc]
    exact ⟨⟨fun i => WrittenScoring.takes_nothing _, rfl⟩, WrittenScoring.standard_ascends⟩
  | some v =>
    rw [hg] at hat
    exact WrittenScoring.read_takes (hdeep _ (Keyed.get?_of_mem hg)) hat

/-- A text that is taken holds a table, and the settings take its members. -/
theorem ofText_takes {l : Json.Limits} {processors : Option Nat} {root path text : String}
    (h : ofText l processors root path text = .ok c) :
    (∃ members, Json.read l text = .ok (.obj members) ∧ c.Takes processors root members) ∧
      WrittenScoring.Ascends c.scoring.cuts := by
  unfold ofText at h
  cases hread : Json.read l text with
  | error e =>
    rw [hread] at h
    cases e <;> cases h
  | ok v =>
    rw [hread] at h
    cases hd : Json.read_distinct hread with
    | @obj members hn hdeep =>
      obtain ⟨hscoring, hascends⟩ := members_scoring (.obj hn hdeep) rfl h
      refine ⟨⟨members, rfl, members_root h, fun key hk => ?_, hscoring⟩, hascends⟩
      refine members_value hn h fun he => ?_
      subst he
      cases hk
    | null | bool | int | float | str | arr => cases h

/-- The file that settings are read from: the one that is asked for, or else that of the project. -/
def sourceOf (root : String) (asked : Option String) : String :=
  match asked.bind nonEmpty with
  | some p => Path.tidy p
  | none => Path.join root fileName

variable {l : Json.Limits} {processors : Option Nat} {w : Workspace} {here root text : String} {asked : Option String}

theorem load_text (hfile : w.readText (Path.join here (sourceOf root asked)) = .ok text) :
    load l processors w here root asked = ofText l processors root (sourceOf root asked) text := by
  unfold load sourceOf
  unfold sourceOf at hfile
  generalize asked.bind nonEmpty = found at hfile ⊢
  cases found
  all_goals
    dsimp only at hfile ⊢
    rw [Workspace.holds_of_readText hfile]
    simp only [bind, Except.bind, liftM, monadLift, MonadLift.monadLift, Except.mapError, if_true, hfile]

/-- Settings are refused or upset as the first member that cannot be taken has it. Otherwise they
take what is given, and their cut points ascend: none is before the one in front of it, and all
of them that are defined numbers are in order. A profile has a score under them exactly if the
cut points are numbers and every threshold that one of its counts is held against is one. -/
theorem load_settles (hfile : w.readText (Path.join here (sourceOf root asked)) = .ok text) :
    ((∃ t, load l processors w here root asked = .error (.upset t)) ↔ Ruling.ofText l text = some .upset) ∧
    ((∃ e, load l processors w here root asked = .error (.refused e)) ↔ Ruling.ofText l text = some .refused) ∧
    ∀ c, load l processors w here root asked = .ok c →
      (∃ members, Json.read l text = .ok (.obj members) ∧ c.Takes processors root members) ∧
      WrittenScoring.Ascends c.scoring.cuts ∧
      (c.scoring.cuts.first.IsDefined → c.scoring.cuts.second.IsDefined → c.scoring.cuts.third.IsDefined →
        Json.holds .atMost c.scoring.cuts.first c.scoring.cuts.second = .ok true ∧
          Json.holds .atMost c.scoring.cuts.second c.scoring.cuts.third = .ok true) ∧
      ∀ p : Profile, (∃ x, p.score Scale.written c.scoring = .ok x) ↔
        c.scoring.cuts.first.IsNumber ∧ ∀ i t, (c.scoring.gauge i).thresholds = some t →
          t.Serves (Scale.written.within (p.count i)) := by
  have hruling := Ruling.failing_text l processors root (sourceOf root asked) text
  rw [load_text hfile]
  refine ⟨?upset, ?refused, fun c hc => ?taken⟩
  case upset =>
    rw [← hruling]
    cases ofText l processors root (sourceOf root asked) text with
    | ok c => simp [failing]
    | error e => cases e <;> simp [failing, Failure.ruling]
  case refused =>
    rw [← hruling]
    cases ofText l processors root (sourceOf root asked) text with
    | ok c => simp [failing]
    | error e => cases e <;> simp [failing, Failure.ruling]
  case taken =>
    obtain ⟨hmembers, hascends⟩ := ofText_takes hc
    refine ⟨hmembers, hascends, fun hfirst hsecond hthird => ?_, fun p => WrittenScoring.score_iff hascends _ _⟩
    exact ⟨Json.atMost_of_not_less hfirst hsecond hascends.first,
      Json.atMost_of_not_less hsecond hthird hascends.last⟩

def configured (text : String) : Workspace := ⟨[("/p", .folder), ("/p/tsmigrate.json", .file text)]⟩

def adjusted : String :=
  "\x7b\"interface_mode\": \"external\", \"scoring\": \x7b\"tier_cut_points\": [1, 2.5, 3], " ++
    "\"indicators\": \x7b\"state_count\": \x7b\"weight\": \"2\", \"thresholds\": null\x7d\x7d\x7d\x7d"

theorem adjusted_settles : ∃ c, load .standard (some 8) (configured adjusted) "/p" "/p" none = .ok c ∧
    WrittenScoring.Ascends c.scoring.cuts := by
  have hfile : (configured adjusted).readText (Path.join "/p" (sourceOf "/p" none)) = .ok adjusted := by
    decide +kernel
  obtain ⟨hupset, hrefused, htaken⟩ := load_settles hfile
  have hruling : Ruling.ofText .standard adjusted = none := by decide +kernel
  cases hload : load .standard (some 8) (configured adjusted) "/p" "/p" none with
  | error e =>
    rw [hload, hruling] at hupset hrefused
    cases e <;> simp at hupset hrefused
  | ok c => exact ⟨c, rfl, (htaken c hload).2.1⟩

def trouble? : ConfigFailure → Option Trouble
  | .upset t => some t
  | .refused _ => none

/-- A scoring that is a list is not refused: reading it breaks off. -/
theorem listed_scoring_upsets : load .standard (some 8) (configured "\x7b\"scoring\": []\x7d") "/p" "/p" none =
    .error (.upset (.fault (.noMember .list "get"))) := by
  have htrouble : failing trouble? (load .standard (some 8) (configured "\x7b\"scoring\": []\x7d") "/p" "/p" none) =
      some (some (.fault (.noMember .list "get"))) := by decide +kernel
  obtain ⟨e, he, ht⟩ := failing_eq_some.mp htrouble
  cases e with
  | refused => cases ht
  | upset t =>
    cases ht
    exact he

end Config

end Retype

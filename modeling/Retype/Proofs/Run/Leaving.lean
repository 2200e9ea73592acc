import Retype.Proofs.Run.Again
import Retype.Proofs.Run.Keeping

/-!
# Leaving the plan

Where an item writes its target is where planning looks for it. So a component that was
written leaves the plan: as long as a file stands at its target, every plan has it as
migrated and in none of its batches. Runs that come later do not take that file away,
whatever they are told; at most they write over it.
-/

set_option autoImplicit false

namespace Retype

open Retype.Path Workspace

/-! ## Files that stay -/

def Workspace.FileAt (w : Workspace) (k : String) : Prop := ∃ text, w.entryAt? k = some (.file text)

namespace Workspace

variable {w w' : Workspace} {p text k : String} {xs : List (String × String)} {e : Option OsError}

theorem hasFile_true : w.hasFile p = .ok true ↔ w.blocked? p = none ∧ w.FileAt (normal p) := by
  unfold hasFile look FileAt
  rw [← entryAt?_normal]
  cases w.blocked? p with
  | some cause => cases cause <;> simp [Except.map]
  | none =>
    cases w.entry? p with
    | none => simp [Except.map]
    | some e => cases e <;> simp [Except.map]

theorem writeWhole_stays (h : w.writeWhole p text = (w', e)) (hk : k ≠ normal (draftOf p))
    (hfile : w.FileAt k) : w'.FileAt k := by
  obtain ⟨before, hbefore⟩ := hfile
  cases e with
  | some e => exact ⟨before, ((writeWhole_spares_failed h).file_iff hk).mpr hbefore⟩
  | none =>
    obtain ⟨hspares, hread, -⟩ := writeWhole_spares h
    by_cases hplace : k = normal p
    · exact ⟨text, hplace ▸ (read_eq_ok.mp hread).2⟩
    · exact ⟨before, (hspares.file_iff fun ht => ht.elim hplace hk).mpr hbefore⟩

/-- Where a file stands one stays, unless it is the draft of another that is written. -/
theorem writeEach_stays (h : w.writeEach xs = (w', e)) (hk : ∀ x ∈ xs, k ≠ normal (draftOf x.1))
    (hfile : w.FileAt k) : w'.FileAt k := by
  induction xs generalizing w with
  | nil =>
    cases h
    exact hfile
  | cons x xs ih =>
    rw [writeEach] at h
    cases hx : w.writeWhole x.1 x.2 with
    | mk w₁ failure =>
      have hfile₁ := writeWhole_stays hx (hk x List.mem_cons_self) hfile
      rw [hx] at h
      cases failure with
      | some =>
        cases h
        exact hfile₁
      | none => exact ih h (fun y hy => hk y (List.mem_cons_of_mem x hy)) hfile₁

end Workspace

/-- One site comes after another by runs, of whatever batches under whatever conditions. -/
def Site.Later : Site → Site → Prop :=
  Relation.ReflTransGen fun s s' => ∃ c e b os, Passage c e b s os s'

namespace Conditions

variable {c : Conditions} {e : Equipment} {b : Batch} {w w' : Workspace} {i : Int} {m : Member}
  {r : Except Mishap Outcome} {s s' : Site} {os : List Outcome} {k : String}

theorem migrate_writes (h : c.migrate w i m = (w', r)) :
    w' = w ∨ ∃ xs failure, w.writeEach xs = (w', failure) := by
  cases migrate_ends h with
  | early | unseen | yields => exact Or.inl rfl
  | writes _ _ _ hw => exact Or.inr ⟨_, _, hw⟩

theorem passage_folders (h : Passage c e b s os s') : Spares (fun _ => True) s.files s'.files := by
  refine passage_walk (P := fun s₁ => Spares (fun _ => True) s.files s₁.files) h (.refl _) ?_ ?_
  · intro os s₁ i m files r _ _ hi hs
    rcases migrate_writes hi with rfl | ⟨xs, failure, hw⟩
    · exact hs
    · exact hs.trans ((writeEach_touches hw).mono fun _ _ => trivial)
  · exact fun _ hstep hs => hs.trans (hstep.mono fun _ _ => trivial)

theorem passage_leaves (hd : ∀ p, k ≠ normal (draftOf p)) (hk : ¬ e.archive.Place k)
    (h : Passage c e b s os s') (hfile : s.files.FileAt k) : s'.files.FileAt k := by
  refine passage_walk (P := fun s₁ => s₁.files.FileAt k) h hfile ?_ ?_
  · intro os s₁ i m files r _ _ hi hs
    rcases migrate_writes hi with rfl | ⟨xs, failure, hw⟩
    · exact hs
    · exact writeEach_stays hw (fun x _ => hd x.1) hs
  · rintro s₁ s₂ os _ hstep ⟨text, htext⟩
    exact ⟨text, (hstep.file_iff hk).mpr htext⟩

theorem passage_stays (hk : Scripted k) (h : Passage c e b s os s') (hfile : s.files.FileAt k) :
    s'.files.FileAt k :=
  passage_leaves (fun p he => draft_unscripted p (he ▸ hk))
    (fun hplace => Archive.place_unscripted hplace hk) h hfile

end Conditions

namespace Site

variable {s s' : Site} {k : String}

theorem Later.folders (h : s.Later s') : Spares (fun _ => True) s.files s'.files := by
  induction h with
  | refl => exact .refl _
  | tail _ hstep ih =>
    obtain ⟨c, e, b, os, hpassage⟩ := hstep
    exact ih.trans (Conditions.passage_folders hpassage)

theorem Later.stays (h : s.Later s') (hk : Scripted k) (hfile : s.files.FileAt k) : s'.files.FileAt k := by
  induction h with
  | refl => exact hfile
  | tail _ hstep ih =>
    obtain ⟨c, e, b, os, hpassage⟩ := hstep
    exact Conditions.passage_stays hk hpassage ih

end Site

/-! ## Targets that are found -/

namespace Config

variable {c : Config} {w w₁ : Workspace} {path t : String} {u : SourceUnit} {p : Profile}

/-- A target is found if one of the two that a source can have is there, and the one with
markup can be looked for. -/
theorem existingTarget?_there {a b : String} (ha : c.target path true = .ok a)
    (hb : c.target path false = .ok b) (h : w.hasFile (c.place a) = .ok true ∨
      (∃ found, w.hasFile (c.place a) = .ok found) ∧ w.hasFile (c.place b) = .ok true) :
    ∃ t, c.existingTarget? w path = .ok (some t) := by
  simp only [existingTarget?, firstTarget?, ha, hb, bind, Except.bind, liftM, monadLift,
    MonadLift.monadLift, Except.mapError]
  rcases h with hfile | ⟨⟨found, hfound⟩, hfile⟩
  · rw [hfile]
    exact ⟨a, rfl⟩
  · rw [hfound, hfile]
    cases found with
    | true => exact ⟨a, rfl⟩
    | false => exact ⟨b, rfl⟩

/-- Where a target could be looked for while it was there, it is found whenever it is there. -/
theorem existingTarget?_stands {hasMarkup : Bool} (ht : c.target path hasMarkup = .ok t)
    (hfile : w.hasFile (c.place t) = .ok true) (hlooked : ∃ found, c.existingTarget? w path = .ok found)
    (hfile₁ : w₁.hasFile (c.place t) = .ok true) : ∃ t', c.existingTarget? w₁ path = .ok (some t') := by
  rcases c.target_cases path with ⟨f, hf⟩ | htargets
  · rw [hf] at ht
    cases ht
  obtain ⟨a, ha⟩ := htargets true
  obtain ⟨b, hb⟩ := htargets false
  refine existingTarget?_there ha hb ?_
  cases hasMarkup with
  | true =>
    cases ha.symm.trans ht
    exact Or.inl hfile₁
  | false =>
    cases hb.symm.trans ht
    rcases target_twins ha hb with rfl | ⟨p, hp, hpa, hpb⟩
    · exact Or.inl hfile₁
    · -- the target without markup is there both times, so the way to the other one is the same
      have hdirs : ∀ {v : Workspace}, v.hasFile (c.place t) = .ok true →
          ∀ dir ∈ foldersAbove (c.place a), v.barred? dir = none := by
        intro v hv
        have hreached := (blocked?_eq_none.mp (hasFile_true.mp hv).1).2.1
        rwa [hpb, foldersAbove_append hp (by decide), ← foldersAbove_append (x := ".tsx") hp (by decide),
          ← hpa] at hreached
      rw [existingTarget?_told ha hb] at hlooked
      have hopen : w.blocked? (c.place a) ≠ some .tooLong :=
        hasFile_ok.mp (hlooked.elim (fun h => ⟨_, h⟩) fun h => ⟨_, h.1⟩)
      rw [← blocked?_firm (hdirs hfile) (hdirs hfile₁)] at hopen
      exact Or.inr ⟨hasFile_ok.mpr hopen, hfile₁⟩

theorem profile_migrated (h : c.profile w u = .ok p) (ht : c.existingTarget? w u.path = .ok (some t)) :
    p.migrated = true := by
  obtain ⟨table, -, h⟩ := ok_bind h
  obtain ⟨score, -, h⟩ := ok_bind h
  obtain ⟨x, hx, h⟩ := ok_bind h
  cases h
  show x = true
  by_cases hl : u.language ≠ .javascript
  · rw [isMigrated, if_pos hl] at hx
    exact (Except.ok.inj hx).symm
  · rw [isMigrated, if_neg hl, ht, bind_ok] at hx
    exact (Except.ok.inj hx).symm

theorem profileOf_migrated {parse : Parse} {l : Option Language}
    (h : c.profileOf w parse path l = .ok (some p)) (ht : c.existingTarget? w path = .ok (some t)) :
    p.migrated = true := by
  unfold profileOf at h
  split at h
  · next u hread =>
    obtain ⟨p', hp, hsome⟩ := ok_map h
    cases hsome
    obtain ⟨text, -, rfl⟩ := ok_map hread
    exact profile_migrated hp ht
  · split at h <;> cases h

theorem assignedPriority_migrated (h : p.migrated = true) : p.assignedPriority = .migrated := if_pos h

/-- A source whose target is found has the priority of what is migrated in every plan, and is
in none of its batches. -/
theorem plan_left {parse : Parse} {plan : Plan} (h : c.plan w parse = .ok plan)
    (ht : c.existingTarget? w path = .ok (some t)) :
    (∀ q ∈ plan.profiles, q.path = path → q.migrated = true ∧ q.priority = some .migrated) ∧
      ∀ b ∈ plan.batches, ∀ m ∈ b.members, m.path ≠ .str path := by
  obtain ⟨sources, found, g, threshold, -, hfound, hprofiles, hbatches⟩ := plan_made h
  have hmigrated : ∀ q ∈ plan.profiles, q.path = path → q.migrated = true ∧ q.priority = some .migrated := by
    intro q hq hpath
    rw [hprofiles] at hq
    obtain ⟨r, hr, rfl⟩ := List.mem_map.mp hq
    obtain ⟨entry, hentry, hsome⟩ := List.mem_filterMap.mp hr
    obtain rfl : entry = some r := hsome
    obtain ⟨⟨path', l⟩, -, hprofile⟩ := ok_mapM hfound hentry
    obtain rfl : path' = path := (profileOf_path hprofile).symm.trans hpath
    have hr' : r.migrated = true := profileOf_migrated hprofile ht
    exact ⟨hr', congrArg some (assignedPriority_migrated (p := g.place threshold r) hr')⟩
  refine ⟨hmigrated, fun b hb m hm hpath => ?_⟩
  rw [hbatches] at hb
  obtain ⟨q, hq, hq', hpending⟩ := Batch.plan_pending hb hm
  rw [hq'] at hpath
  exact hpending (hmigrated q hq (Json.str.inj hpath)).2

/-- A source that is discovered and can be read has a profile in the plan. -/
theorem plan_profiled {parse : Parse} {plan : Plan} (h : c.plan w parse = .ok plan)
    {sources : List (String × Language)} (hsources : c.discover w = .ok sources) {l : Language}
    (hl : (path, l) ∈ sources) {text : String} (hread : w.read (c.place path) = .ok text) :
    ∃ q ∈ plan.profiles, q.path = path := by
  obtain ⟨sources', found, g, threshold, hsources', hfound, hprofiles, -⟩ := plan_made h
  cases hsources.symm.trans hsources'
  obtain ⟨entry, hentry, hprofile⟩ := mem_mapM hfound hl
  obtain ⟨u, hu⟩ : ∃ u, c.readUnit w parse path (some l) = .ok u := by
    unfold readUnit
    rw [hread]
    exact ⟨_, rfl⟩
  obtain ⟨q, rfl⟩ : ∃ q, entry = some q := by
    unfold profileOf at hprofile
    split at hprofile
    · obtain ⟨q, -, hq⟩ := ok_map hprofile
      exact ⟨q, hq.symm⟩
    · next hunread => cases hu.symm.trans hunread
  refine ⟨(g.place threshold q).withPriority, ?_, show q.path = path from profileOf_path hprofile⟩
  rw [hprofiles]
  exact List.mem_map_of_mem (List.mem_filterMap.mpr ⟨_, hentry, rfl⟩)

end Config

/-! ## Components that were written -/

namespace Conditions

variable {c : Conditions} {w w₁ : Workspace} {i : Int} {m : Member} {o : Outcome}

/-- An item that succeeds and is not skipped has written its outputs, unless the run is dry. -/
theorem migrate_succeeded (hdry : c.options.dryRun = false) (h : c.migrate w i m = (w₁, .ok o))
    (ho : o.success = true) (hs : o.skipped = false) :
    ∃ path t seen, c.Reaches w m path t ∧ o.target = .str t.target ∧
      w.standing (c.config.outputs t) = .ok seen ∧ w.writeEach (changed seen) = (w₁, none) := by
  generalize hr : Except.ok o = r at h
  cases migrate_ends h with
  | early h =>
    cases h with
    | interrupted => cases hr
    | failed | barred =>
      cases hr
      cases ho
    | passed =>
      cases hr
      cases hs
    | rehearsed hd => rw [hdry] at hd; cases hd
  | unseen =>
    cases hr
    cases ho
  | yields =>
    cases hr
    cases hs
  | @writes path t seen _ failure hreach hseen _ hw =>
    cases failure with
    | some e =>
      cases hr
      cases ho
    | none =>
      refine ⟨path, t, seen, hreach, ?_, hseen, hw⟩
      rcases checked_ok hr.symm with ⟨warnings, rfl⟩ | ⟨text, rfl⟩ <;> rfl

/-- A component that was migrated leaves the plan. Its target is there; it stays in reach as
long as a file stands at its place, whatever runs come later; and that file is never taken
away by a run if the component is a source by its name. Whenever the target is there, every
plan marks the component as migrated and puts it in no batch. -/
theorem migrate_leaves (hdry : c.options.dryRun = false) (h : c.migrate w i m = (w₁, .ok o))
    (ho : o.success = true) (hs : o.skipped = false) : ∃ path target,
    m.path.step = .ok path ∧ o.target = .str target ∧
    (∀ s s' : Site, s.files = w₁ → s.Later s' →
      (s'.files.hasFile (c.config.place target) = .ok true ↔
        s'.files.FileAt (c.config.fileOf target)) ∧
      ((∃ l, Language.ofPath? path = some l) → s'.files.FileAt (c.config.fileOf target))) ∧
    ∀ w', w'.hasFile (c.config.place target) = .ok true →
      (∃ found, c.config.existingTarget? w' path = .ok (some found)) ∧
      ∀ parse plan, c.config.plan w' parse = .ok plan →
        (∀ q ∈ plan.profiles, q.path = path → q.migrated = true ∧ q.priority = some .migrated) ∧
        (∀ b ∈ plan.batches, ∀ m' ∈ b.members, m'.path ≠ .str path) ∧
        ∀ sources l text, c.config.discover w' = .ok sources → (path, l) ∈ sources →
          w'.read (c.config.place path) = .ok text → ∃ q ∈ plan.profiles, q.path = path := by
  obtain ⟨path, t, seen, hreach, htold, hseen, hw⟩ := migrate_succeeded hdry h ho hs
  obtain ⟨hcurrent, hway⟩ := written_outputs hreach hseen hw
  obtain ⟨raw, hraw, -⟩ := current?_file (hcurrent _ List.mem_cons_self)
  obtain ⟨hasMarkup, htarget, -⟩ := prepared_target hreach.prepared
  have hthere : w₁.hasFile (c.config.place t.target) = .ok true := hasFile_read hraw
  have hlooked : ∃ found, c.config.existingTarget? w₁ path = .ok found :=
    Config.existingTarget?_again (prepared_looked hreach.prepared) (writeEach_spares hw) htarget hraw hway
  refine ⟨path, t.target, hreach.step, htold, ?_, fun w' hfile => ?_⟩
  · rintro s s' rfl hlater
    have hreached := hlater.folders.reached (hasFile_true.mp hthere).1
    refine ⟨⟨fun hfile => (hasFile_true.mp hfile).2, fun hfile => hasFile_true.mpr ⟨hreached, hfile⟩⟩, ?_⟩
    rintro ⟨l, hl⟩
    have hmay : t.target ∈ c.config.mayWrite path hasMarkup := by
      rw [Config.mayWrite, htarget]
      exact List.mem_cons_self
    exact hlater.stays (Config.mayWrite_scripted hl hmay) (hasFile_true.mp hthere).2
  · obtain ⟨found, hfound⟩ := Config.existingTarget?_stands htarget hthere hlooked hfile
    refine ⟨⟨found, hfound⟩, fun parse plan hplan => ?_⟩
    obtain ⟨hmigrated, hbatches⟩ := Config.plan_left hplan hfound
    exact ⟨hmigrated, hbatches, fun sources l text hsources hl hread =>
      Config.plan_profiled hplan hsources hl hread⟩

/-! ## A component that was copied -/

def shelved : Workspace :=
  ⟨[("/p", .folder), ("/p/components", .folder), ("/p/components/a.jsx", .file "a;")]⟩

def moved : Workspace := ⟨shelved.entries ++ [("/p/t", .folder), ("/p/t/a.tsx", .file "a;")]⟩

theorem shelved_leaves : ∃ o plan,
    calm.migrate shelved 0 (memberAt "components/a.jsx") = (moved, .ok o) ∧ o.success = true ∧
    o.skipped = false ∧ calm.config.plan moved calm.parse = .ok plan ∧
    (∃ q ∈ plan.profiles, q.path = "components/a.jsx" ∧ q.priority = some .migrated) ∧
    ∀ b ∈ plan.batches, ∀ m ∈ b.members, m.path ≠ .str "components/a.jsx" := by
  have hcopies : Copies "components/a.jsx" "t/a.tsx" := by decide +kernel
  have hcopied : copyIn shelved "t/a.tsx" = (moved, .ok true) := copyIn_eq (by decide +kernel)
  have hmigrate := hcopies.written 0 (by decide +kernel) hcopied
  have hplanned : (calm.config.plan moved calm.parse).toOption.isSome = true := by decide +kernel
  obtain ⟨plan, hplan⟩ := Option.isSome_iff_exists.mp hplanned
  have hplan := ok_toOption hplan
  have hsources : calm.config.discover moved = .ok [("components/a.jsx", .javascript)] := by decide +kernel
  have hread : moved.read (calm.config.place "components/a.jsx") = .ok "a;" := by decide +kernel
  have hthere : moved.hasFile (calm.config.place "t/a.tsx") = .ok true := by decide +kernel
  obtain ⟨path, target, hpath, htarget, -, hleaves⟩ := migrate_leaves rfl hmigrate rfl rfl
  cases hpath
  cases htarget
  obtain ⟨hmigrated, hbatches, hprofiled⟩ := (hleaves moved hthere).2 calm.parse plan hplan
  obtain ⟨q, hq, hqpath⟩ := hprofiled _ _ _ hsources List.mem_cons_self hread
  exact ⟨_, plan, hmigrate, rfl, rfl, hplan, ⟨q, hq, hqpath, (hmigrated q hq hqpath).2⟩, hbatches⟩

end Conditions

end Retype

import Retype.Proofs.Run.Copying
import Retype.Proofs.Run.Ending
import Retype.Proofs.Run.Outputs

/-!
# Migrating an item again

What was written for an item is found where it is looked for when the item is migrated
again, and nothing is written a second time. It is read back as it was written but for its
line ends, so an output with a carriage return is taken for another file.
-/

set_option autoImplicit false

namespace Retype

namespace Workspace

open Retype.Path

variable {w w₁ : Workspace} {p q : String} {touched : String → Prop}

/-! ## Looking for a file -/

theorem hasFile_ok : (∃ found, w.hasFile p = .ok found) ↔ w.blocked? p ≠ some .tooLong := by
  unfold hasFile look
  cases w.blocked? p with
  | none => simp [Except.map]
  | some cause => cases cause <;> simp [Except.map]

theorem hasFile_read {text : String} (h : w.read p = .ok text) : w.hasFile p = .ok true := by
  obtain ⟨hb, he⟩ := read_eq_ok.mp h
  simp [hasFile, look, hb, he, Except.map]

theorem blocked?_firm (h : ∀ dir ∈ foldersAbove p, w.barred? dir = none)
    (h' : ∀ dir ∈ foldersAbove p, w₁.barred? dir = none) : w₁.blocked? p = w.blocked? p := by
  unfold blocked?
  rw [List.findSome?_eq_none_iff.mpr h, List.findSome?_eq_none_iff.mpr h']

theorem Spares.barred (hs : Spares touched w w₁) {dir : String} (h : w.barred? dir = none) :
    w₁.barred? dir = none := by
  obtain ⟨hshort, hfolder⟩ := barred?_eq_none.mp h
  exact barred?_eq_none.mpr ⟨hshort, hs.folders _ hfolder⟩

theorem flaw?_size (h : flaw? p = some .tooLong) : 4096 ≤ p.utf8ByteSize := by
  unfold flaw? at h
  split at h
  · cases h
  · split at h
    · cases h
    · split at h
      · assumption
      · cases h

theorem size_of_flaw? (h : flaw? p = none) : p.utf8ByteSize < 4096 := by
  unfold flaw? at h
  split at h
  · cases h
  · split at h
    · cases h
    · split at h
      · cases h
      · omega

/-- A path with a shorter end can be looked for where one with a longer end is reached. -/
theorem looked_shorter {x y : String} (hp : Worded (base p).toList) (hx : '/' ∉ x.toList)
    (hy : '/' ∉ y.toList) (hsize : x.utf8ByteSize ≤ y.utf8ByteSize) (h : w.blocked? (p ++ y) = none) :
    w.blocked? (p ++ x) ≠ some .tooLong := by
  obtain ⟨hflaw, hdirs, hlong⟩ := blocked?_eq_none.mp h
  rw [foldersAbove_append hp hy, ← foldersAbove_append hp hx] at hdirs
  have hshort : isLong (tidy (p ++ x)) = false := by
    obtain ⟨-, happend⟩ := keeps_tidy.append hp
    have hbase : ∀ z : String, '/' ∉ z.toList → base (tidy (p ++ z)) = base (tidy p) ++ z := by
      intro z hz
      apply String.toList_injective
      rw [happend z hz, base_append hz, String.toList_append]
    rw [isLong, hbase _ hy, String.utf8ByteSize_append] at hlong
    rw [isLong, hbase _ hx, String.utf8ByteSize_append]
    simp only [decide_eq_false_iff_not] at hlong ⊢
    omega
  unfold blocked?
  rw [List.findSome?_eq_none_iff.mpr hdirs, hshort]
  cases hf : flaw? (p ++ x) with
  | none => simp
  | some cause =>
    rintro ⟨⟩
    have hlow := flaw?_size hf
    have hhigh := size_of_flaw? hflaw
    rw [String.utf8ByteSize_append] at hlow hhigh
    omega

end Workspace

namespace Config

open Retype.Path Workspace

variable {c : Config} {w w₁ : Workspace} {path t : String} {touched : String → Prop}

/-- The targets with markup and without it are one, or differ in their extensions alone. -/
theorem target_twins {a b : String} (ha : c.target path true = .ok a) (hb : c.target path false = .ok b) :
    a = b ∨ ∃ p, Worded (base p).toList ∧ c.place a = p ++ ".tsx" ∧ c.place b = p ++ ".ts" := by
  obtain ⟨dirs, tail, dir, hdirs, htail, hdir, ha⟩ := target_tail ha
  obtain ⟨dirs', tail', dir', hdirs', htail', hdir', hb⟩ := target_tail hb
  cases hdirs.symm.trans hdirs'
  cases htail.symm.trans htail'
  cases hdir.symm.trans hdir'
  rw [ha, hb]
  by_cases hjs : Path.extension tail = ".js"
  · right
    have hstem : Worded (base (stem tail)).toList := by
      rcases cutExtension_cases (cut tail.toList).2 with hcut | ⟨s, e, hs, he, hparts, hcut⟩
      · simp only [Path.extension, splitExtension, hcut] at hjs
        exact absurd hjs (by decide)
      · have hslash : '/' ∉ s := by
          have := slash_notMem_cut tail.toList
          rw [hparts] at this
          exact fun hm => this (List.mem_append_left _ hm)
        simp only [stem, splitExtension, hcut]
        rw [base, String.toList_ofList, String.toList_ofList, cut_head (cut_ends tail.toList) hslash]
        exact hs
    obtain ⟨hbase, happend⟩ := (keeps_tidy.comp ((keeps_join c.root).comp (keeps_join dir))).append hstem
    have hplace : ∀ x : String, '/' ∉ x.toList →
        c.place (join dir (stem tail ++ x)) = c.place (join dir (stem tail)) ++ x := happend
    rw [hjs]
    refine ⟨c.place (join dir (stem tail)), ?_, hplace ".tsx" (by decide), hplace ".ts" (by decide)⟩
    rw [show base (c.place (join dir (stem tail))) = base (stem tail) from hbase]
    exact hstem
  · left
    have hext : Target.extension (Path.extension tail) true = Target.extension (Path.extension tail) false := by
      simp [Target.extension, hjs]
    rw [hext]

/-- Whether one of two targets is there can be told if the first is, or else of both. -/
theorem existingTarget?_told {a b : String} (ha : c.target path true = .ok a)
    (hb : c.target path false = .ok b) : (∃ found, c.existingTarget? w path = .ok found) ↔
      w.hasFile (c.place a) = .ok true ∨
        w.hasFile (c.place a) = .ok false ∧ ∃ found, w.hasFile (c.place b) = .ok found := by
  simp only [existingTarget?, firstTarget?, ha, hb, bind, Except.bind, liftM, monadLift,
    MonadLift.monadLift, Except.mapError]
  cases w.hasFile (c.place a) with
  | error e => simp
  | ok found =>
    cases found with
    | true => simp [pure, Except.pure]
    | false =>
      cases w.hasFile (c.place b) with
      | error e => simp
      | ok found => cases found <;> simp [pure, Except.pure]

/-- Where a target that was looked for has come to be, it can be looked for again. -/
theorem existingTarget?_again (hw : ∃ found, c.existingTarget? w path = .ok found)
    (hs : Spares touched w w₁) {hasMarkup : Bool} (ht : c.target path hasMarkup = .ok t) {text : String}
    (hread : w₁.read (c.place t) = .ok text)
    (hway : (∃ text, w.read (c.place t) = .ok text) ∨ w₁.blocked? (draftOf (c.place t)) = none) :
    ∃ found, c.existingTarget? w₁ path = .ok found := by
  have hthere := hasFile_read hread
  rcases c.target_cases path with ⟨f, hf⟩ | htargets
  · rw [hf] at ht
    cases ht
  obtain ⟨a, ha⟩ := htargets true
  obtain ⟨b, hb⟩ := htargets false
  rw [existingTarget?_told ha hb] at hw ⊢
  cases hasMarkup with
  | true =>
    cases ha.symm.trans ht
    exact Or.inl hthere
  | false =>
    cases hb.symm.trans ht
    rcases target_twins ha hb with rfl | ⟨p, hp, hpa, hpb⟩
    · exact Or.inl hthere
    -- the target without markup is there, so the other one is looked for in the same folders
    · have hlooked : w₁.blocked? (c.place a) ≠ some .tooLong := by
        rw [hpb] at hway
        rw [hpa]
        rcases hway with ⟨before, hbefore⟩ | hdraft
        · have hbefore := (blocked?_eq_none.mp (read_eq_ok.mp hbefore).1).2.1
          rw [foldersAbove_append hp (by decide), ← foldersAbove_append (x := ".tsx") hp (by decide)] at hbefore
          rw [blocked?_firm hbefore fun dir hd => hs.barred (hbefore dir hd), ← hpa, ← hasFile_ok]
          exact hw.elim (fun h => ⟨_, h⟩) fun h => ⟨_, h.1⟩
        · rw [draftOf, String.append_assoc] at hdraft
          exact looked_shorter hp (by decide) (by decide) (by decide) hdraft
      obtain ⟨found, hfound⟩ := hasFile_ok.mpr hlooked
      cases found with
      | true => exact Or.inl hfound
      | false => exact Or.inr ⟨hfound, true, hthere⟩

theorem profile_noted {u : SourceUnit} {p : Profile} (h : c.profile w u = .ok p) :
    (∃ x, c.isMigrated w u = .ok x) ∧
      ∀ y, c.isMigrated w₁ u = .ok y → c.profile w₁ u = .ok { p with migrated := y } := by
  obtain ⟨table, htable, h⟩ := ok_bind h
  obtain ⟨score, hscore, h⟩ := ok_bind h
  obtain ⟨x, hx, h⟩ := ok_bind h
  cases h
  refine ⟨⟨x, hx⟩, fun y hy => ?_⟩
  unfold profile
  rw [htable, bind_ok]
  dsimp only
  rw [hscore, bind_ok, hy, bind_ok]
  rfl

end Config

namespace Conditions

open Workspace

variable {c : Conditions} {w w₁ : Workspace} {i : Int} {m : Member} {o : Outcome} {path : String}
  {t : Retyped} {touched : String → Prop}

/-! ## The outputs once they are written -/

theorem standing_again {outputs : List (String × String)}
    (h : ∀ x ∈ outputs, w.current? x.1 = .ok (some (asRead x.2))) :
    w.standing outputs = .ok (outputs.map fun x => (x, some (asRead x.2))) := by
  induction outputs with
  | nil => rfl
  | cons x outputs ih =>
    rw [standing_cons, h x List.mem_cons_self, ih fun y hy => h y (List.mem_cons_of_mem x hy)]
    rfl

/-- Outputs that are there are not written again. They count as other files where they hold
carriage returns. -/
theorem writeOutputs_again {outputs : List (String × String)}
    (h : ∀ x ∈ outputs, w.current? x.1 = .ok (some (asRead x.2))) :
    ∃ there, w.writeOutputs false outputs = (w, .ok there) ∧
      (there = true ↔ ∀ x ∈ outputs, '\r' ∉ x.2.toList) := by
  rw [writeOutputs, standing_again h]
  by_cases hclean : ∀ x ∈ outputs, '\r' ∉ x.2.toList
  · have hread : ∀ x ∈ outputs, asRead x.2 = x.2 := fun x hx => asRead_eq_self.mpr (hclean x hx)
    have hkeep : refuses false (outputs.map fun x => (x, some (asRead x.2))) = false := by
      simpa [refuses] using hread
    have hnone : changed (outputs.map fun x => (x, some (asRead x.2))) = [] := by
      simpa [changed, List.filter_map, List.filter_eq_nil_iff] using hread
    refine ⟨true, ?_, by simpa using hclean⟩
    simp only [hkeep, hnone, writeEach, Bool.false_eq_true, if_false]
  · have hrefuse : refuses false (outputs.map fun x => (x, some (asRead x.2))) = true := by
      obtain ⟨x, hx, hreturn⟩ : ∃ x ∈ outputs, '\r' ∈ x.2.toList := by simpa using hclean
      have hother : asRead x.2 ≠ x.2 := fun he => asRead_eq_self.mp he hreturn
      simp only [refuses, Bool.not_false, Bool.true_and, List.any_map, List.any_eq_true]
      exact ⟨x, hx, by simpa using hother⟩
    refine ⟨false, ?_, by simpa using hclean⟩
    simp only [hrefuse, if_true]

/-! ## The same item again -/

theorem prepared_looked (h : c.prepare w path = .ok (.ready t)) :
    ∃ found, c.config.existingTarget? w path = .ok found := by
  obtain ⟨u, p, target, table, hload, hlanguage, hprofile, -⟩ := prepared_stages h
  obtain ⟨⟨x, hmigrated⟩, -⟩ := @Config.profile_noted _ w w u p hprofile
  rw [Config.isMigrated, if_neg (by simp [hlanguage])] at hmigrated
  obtain ⟨found, hfound, -⟩ := ok_bind hmigrated
  exact ⟨found, load_path hload ▸ hfound⟩

/-- What was prepared for an item is prepared for it again, where its source reads the same
and the outputs have come to be there. -/
theorem prepare_again (hskip : c.options.skipExisting = false)
    (h : c.prepare w path = .ok (.ready t)) (hs : Spares touched w w₁)
    (hsource : w₁.read (c.config.place path) = w.read (c.config.place path)) {text : String}
    (hread : w₁.read (c.config.place t.target) = .ok text)
    (hway : (∃ text, w.read (c.config.place t.target) = .ok text) ∨
      w₁.blocked? (draftOf (c.config.place t.target)) = none) :
    c.prepare w₁ path = .ok (.ready t) := by
  obtain ⟨u, p, target, table, hload, hlanguage, hprofile, -⟩ := prepared_stages h
  obtain ⟨hasMarkup, htarget, -⟩ := prepared_target h
  have hload' : c.load w₁ path = .ok u := by
    rw [← hload, load, load, Config.readUnit, Config.readUnit, hsource]
  obtain ⟨found, hagain⟩ :=
    Config.existingTarget?_again (prepared_looked h) hs htarget hread hway
  have hmigrated' : c.config.isMigrated w₁ u = .ok found.isSome := by
    rw [Config.isMigrated, if_neg (by simp [hlanguage]), load_path hload, hagain]
    rfl
  obtain ⟨-, hnoted⟩ := Config.profile_noted hprofile
  rw [prepare_loaded hload] at h
  rw [prepare_loaded hload', prepareUnit_noted hskip (hnoted _ hmigrated') hprofile, h]

theorem Reaches.migrate (h : c.Reaches w m path t) (i : Int) :
    c.migrate w i m = match w.writeOutputs c.options.force (c.config.outputs t) with
      | (w', .error e) => (w', halted (announced (c.begun i m) t) (.failed .write e.message))
      | (w', .ok false) => (w', .ok (yielded (announced (c.begun i m) t) t))
      | (w', .ok true) => (w', c.checked path t.target (announced (c.begun i m) t)) := by
  rcases hwrite : w.writeOutputs c.options.force (c.config.outputs t) with ⟨w', e | _ | _⟩ <;>
    simp [Conditions.migrate, h.step, h.prepared, finish, h.entered, h.writes, hwrite]

/-- What is seen of the outputs of an item once they are written, and what of its target. -/
theorem written_outputs (h : c.Reaches w m path t) {seen : List ((String × String) × Option String)}
    (hseen : w.standing (c.config.outputs t) = .ok seen) (hw : w.writeEach (changed seen) = (w₁, none)) :
    (∀ x ∈ c.config.outputs t,
        w₁.current? x.1 = .ok (some (asRead x.2))) ∧
      ((∃ text, w.read (c.config.place t.target) = .ok text) ∨
        w₁.blocked? (draftOf (c.config.place t.target)) = none) := by
  have hapart := outputs_apart h.prepared
  refine ⟨fun x hx => changed_current hapart hseen hw hx, ?_⟩
  have htarget : (c.config.place t.target, t.code) ∈ c.config.outputs t := List.mem_cons_self
  rcases changed_or_current hseen htarget with hchanged | hcurrent
  · exact Or.inr (writeEach_read (hapart.sublist (changed_sublist hseen)) hw _ hchanged).2
  · obtain ⟨raw, hraw, -⟩ := current?_file hcurrent
    exact Or.inl ⟨raw, hraw⟩

/-- An item that was written comes to writing again where its source reads the same, and no
file is written then: its outputs are all there, and the item comes to what it came to before
unless one of them holds a carriage return. -/
theorem migrate_again (hdry : c.options.dryRun = false) (hskip : c.options.skipExisting = false)
    (hforce : c.options.force = false) (h : c.migrate w i m = (w₁, .ok o)) (ho : o.success = true)
    (hs : o.skipped = false)
    (hsource : ∀ path, m.path.step = .ok path →
      w₁.read (c.config.place path) = w.read (c.config.place path)) :
    ∃ path t r, c.Reaches w m path t ∧ c.migrate w₁ i m = (w₁, .ok r) ∧ r.success = true ∧
      (∀ x ∈ c.config.outputs t, w₁.current? x.1 = .ok (some x.2) ↔ '\r' ∉ x.2.toList) ∧
      (r.skipped = false ↔ ∀ x ∈ c.config.outputs t, '\r' ∉ x.2.toList) ∧
      (r.skipped = false → r = o) := by
  generalize hr : Except.ok o = r at h
  cases migrate_ends h with
  | early h =>
    cases h with
    | interrupted => cases hr
    | failed | barred =>
      cases hr
      cases ho
    | passed =>
      cases hr
      cases hs
    | rehearsed hd => rw [hdry] at hd; cases hd
  | unseen =>
    cases hr
    cases ho
  | yields =>
    cases hr
    cases hs
  | @writes path t seen w₁ failure hreach hseen hrefuses hw =>
    cases failure with
    | some e =>
      cases hr
      cases ho
    | none =>
      obtain ⟨hcurrent, hway⟩ := written_outputs hreach hseen hw
      obtain ⟨raw, hraw, -⟩ := current?_file (hcurrent _ List.mem_cons_self)
      have hagain : c.Reaches w₁ m path t := by
        refine ⟨hreach.step, ?_, hreach.entered, hreach.writes⟩
        exact prepare_again hskip hreach.prepared (writeEach_spares hw) (hsource path hreach.step) hraw hway
      have hback : ∀ x ∈ c.config.outputs t,
          w₁.current? x.1 = .ok (some x.2) ↔ '\r' ∉ x.2.toList := by
        intro x hx
        rw [hcurrent x hx, Except.ok.injEq, Option.some_inj, asRead_eq_self]
      obtain ⟨there, hwrite, hthere⟩ := writeOutputs_again hcurrent
      have hmigrate := hagain.migrate i
      rw [hforce, hwrite] at hmigrate
      cases there with
      | true =>
        refine ⟨path, t, o, hreach, ?_, ho, hback, ⟨fun _ => hthere.mp rfl, fun _ => hs⟩, fun _ => rfl⟩
        rw [hmigrate]
        exact congrArg (Prod.mk w₁) hr.symm
      | false =>
        refine ⟨path, t, _, hreach, hmigrate, rfl, hback, ⟨fun hr => ?_, fun hclean => ?_⟩, fun hr => ?_⟩
        · cases hr
        · exact absurd (hthere.mpr hclean) (by decide)
        · cases hr

/-! ## A source that is only copied -/

def single (text : String) : Workspace := ⟨[("/p", .folder), ("/p/a.jsx", .file text)]⟩

def doubled (text : String) : Workspace :=
  ⟨(single text).entries ++ [("/p/t", .folder), ("/p/t/a.tsx", .file text)]⟩

theorem single_again : ∃ o, calm.migrate (single "a;") 0 (memberAt "a.jsx") = (doubled "a;", .ok o) ∧
    o.success = true ∧ o.skipped = false ∧ ∃ path t r, calm.Reaches (single "a;") (memberAt "a.jsx") path t ∧
      calm.migrate (doubled "a;") 0 (memberAt "a.jsx") = (doubled "a;", .ok r) ∧ r.success = true ∧
      (r.skipped = false ↔ ∀ x ∈ calm.config.outputs t, '\r' ∉ x.2.toList) ∧ (r.skipped = false → r = o) := by
  have hcopies : Copies "a.jsx" "t/a.tsx" := by decide +kernel
  have hread : (single "a;").read (calm.config.place "a.jsx") = .ok "a;" := by decide +kernel
  have hcopied : copyIn (single "a;") "t/a.tsx" = (doubled "a;", .ok true) :=
    copyIn_eq (by decide +kernel)
  have hfirst := hcopies.written 0 hread hcopied
  obtain ⟨path, t, r, hreach, hagain, hsuccess, -, hskipped, hsame⟩ := migrate_again rfl rfl rfl hfirst rfl rfl (by
    intro path hpath
    cases hpath
    decide +kernel)
  exact ⟨_, hfirst, rfl, rfl, path, t, r, hreach, hagain, hsuccess, hskipped, hsame⟩

theorem returned_reaches {w : Workspace} (hr : w.read "/p/a.jsx" = .ok "a;\r") :
    calm.Reaches w (memberAt "a.jsx") "a.jsx" ⟨"a;\r", "t/a.tsx", none, 0, []⟩ := by
  have hcopies : Copies "a.jsx" "t/a.tsx" := by decide +kernel
  refine ⟨rfl, ?_, rfl, rfl⟩
  exact prepare_retyped rfl rfl hcopies.language hr rfl rfl rfl WrittenScoring.standard_numeric
    hcopies.sightly hcopies.target (by decide +kernel)

/-- A target that was copied with a carriage return stands in the way when its source is
migrated again. -/
theorem returned_skipped : ∃ o r,
    calm.migrate (single "a;\r") 0 (memberAt "a.jsx") = (doubled "a;\r", .ok o) ∧ o.success = true ∧
    o.skipped = false ∧ calm.migrate (doubled "a;\r") 0 (memberAt "a.jsx") = (doubled "a;\r", .ok r) ∧
    r.skipped = true := by
  have hfirst := (returned_reaches (w := single "a;\r") (by decide +kernel)).migrate 0
  have hsecond := (returned_reaches (w := doubled "a;\r") (by decide +kernel)).migrate 0
  have hwritten : (single "a;\r").writeOutputs calm.options.force
      (calm.config.outputs ⟨"a;\r", "t/a.tsx", none, 0, []⟩) = (doubled "a;\r", .ok true) :=
    written_eq (by decide +kernel)
  have hrefused : (doubled "a;\r").writeOutputs calm.options.force
      (calm.config.outputs ⟨"a;\r", "t/a.tsx", none, 0, []⟩) = (doubled "a;\r", .ok false) :=
    written_eq (by decide +kernel)
  rw [hwritten] at hfirst
  rw [hrefused] at hsecond
  exact ⟨_, _, hfirst, rfl, rfl, hsecond, rfl⟩

end Conditions

end Retype

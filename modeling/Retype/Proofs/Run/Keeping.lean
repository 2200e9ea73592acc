import Retype.Corpus.Planning
import Retype.Proofs.Corpus.Dealing
import Retype.Proofs.Run.Copying
import Retype.Proofs.Run.Ending
import Retype.Proofs.Run.Outputs
import Retype.Proofs.Run.Passage

/-!
# What runs keep

Without force, nothing is written over a file that can be seen at the place of an output:
an item yields to it, or leaves it as it is. So over any run of a batch all files stay but
for the archive's own, the outputs that items write and their drafts, and a file at the
place of an output stays too. Only a file that cannot be seen is written over: one that a
path names by leaving a folder that is not there.
-/

set_option autoImplicit false

namespace Retype

open Retype.Path Workspace

/-! ## The places of an archive -/

namespace Archive

/-- The places of the files that an archive writes: the checkpoint of a batch, its draft, and
the report of failures. -/
def Place (a : Archive) (k : String) : Prop := ∃ batch,
  k = normal (a.fileOf batch) ∨ k = normal (draftOf (a.fileOf batch)) ∨ k = normal (a.failuresOf batch)

def CheckpointPlace (a : Archive) (k : String) : Prop := ∃ batch,
  k = normal (a.fileOf batch) ∨ k = normal (draftOf (a.fileOf batch))

variable {a : Archive} {s s' : Site} {k : String}

theorem CheckpointPlace.place (h : a.CheckpointPlace k) : a.Place k :=
  h.imp fun _ hk => hk.imp id Or.inl

theorem record_files {p : Checkpoint} (h : a.record s p = .ok s') : s'.files = s.files := by
  unfold record at h
  split at h
  · cases h
    rfl
  · split at h
    · cases h
    · cases h
      rfl

theorem save_spares (a : Archive) (s : Site) (p : Checkpoint) :
    Spares a.CheckpointPlace s.files (a.save s p).1.files := by
  unfold save
  split
  · exact .refl _
  · split
    · exact .refl _
    · next s₁ hrecord =>
      rw [← record_files hrecord]
      cases hw : s₁.files.writeWhole (a.fileOf p.batch) p.toJson.pretty with
      | mk files failure =>
        simp only
        cases failure with
        | none => exact (writeWhole_spares hw).1.mono fun k hk => ⟨p.batch, hk⟩
        | some => exact (writeWhole_spares_failed hw).mono fun k hk => ⟨p.batch, Or.inr hk⟩

theorem clear_spares (a : Archive) (s : Site) (batch : Int) :
    Spares a.CheckpointPlace s.files (a.clear s batch).1.files := by
  have hremoved : ∀ files, s.files.remove (a.fileOf batch) = .ok files → Spares a.CheckpointPlace s.files files :=
    fun files hr => (remove_spares hr).mono fun k hk => ⟨batch, Or.inl hk⟩
  unfold clear
  split
  · exact .refl _
  · cases hledger : a.ledgerOf s with
    | none =>
      simp only
      split
      · next hr => exact hremoved _ hr
      · exact .refl _
    | some l =>
      simp only [Site.setLedger]
      split
      · next hr => exact hremoved _ hr
      · exact .refl _

theorem report_spares (w : Workspace) (b : Batch) (told : Summary) :
    Spares (· = normal (a.failuresOf b.id)) w (a.report w b told).1 := by
  unfold report
  split
  · exact .refl _
  · simp only
    split <;> next hwrite => exact writeBelow_spares hwrite

/-- The files of an archive are documents and drafts. -/
theorem place_last (h : a.Place k) : k.toList.getLast? = some 'n' ∨ k.toList.getLast? = some 'p' := by
  have hjson : ∀ p : String, p.toList.getLast? = some 'n' →
      (normal (join a.folder p)).toList.getLast? = some 'n' := by
    intro p hp
    have hcloses : Closes p := ⟨'n', hp, by decide, by decide⟩
    rw [← hp]
    exact (keeps_normal.comp (keeps_join a.folder)).last hcloses
  have hends : ∀ p x : String, x.toList.getLast? = some 'n' → (p ++ x).toList.getLast? = some 'n' := by
    intro p x hx
    rw [String.toList_append, List.getLast?_append, hx]
    rfl
  obtain ⟨batch, rfl | rfl | rfl⟩ := h
  · exact Or.inl (hjson _ (hends _ _ (by decide)))
  · exact Or.inr (draft_last _)
  · exact Or.inl (hjson _ (hends _ _ (by decide)))

theorem place_unscripted (h : a.Place k) : ¬ Scripted k := by
  rintro ⟨c, hc, hlower⟩
  rcases place_last h with hlast | hlast <;>
  · rw [hlast] at hc
    cases hc
    exact absurd hlower (by decide)

end Archive

/-! ## Batches of a plan -/

/-- All components of a batch are sources that were discovered. -/
def Batch.Sourced (c : Config) (b : Batch) : Prop := ∀ m ∈ b.members, ∃ w sources path l,
  c.discover w = .ok sources ∧ (path, l) ∈ sources ∧ m.path = .str path

theorem Batch.plan_pending {ps : List Profile} {b : Batch} (hb : b ∈ Batch.plan ps) {m : Member}
    (hm : m ∈ b.members) : ∃ p ∈ ps, m.path = .str p.path ∧ p.priority ≠ some .migrated := by
  have hmem : m ∈ (Batch.plan ps).flatMap (·.members) := List.mem_flatMap.mpr ⟨b, hb, hm⟩
  rw [Batch.plan_members] at hmem
  obtain ⟨p, hp, rfl⟩ := List.mem_map.mp hmem
  obtain ⟨batch, hbatch, taken, hp⟩ := Batches.mem_deal hp
  have hpending := Batches.candidates_pending (Batches.Ranks.ofProfiles_within ps) hbatch taken hp
  obtain ⟨hp, hpriority⟩ := List.mem_filter.mp hpending
  exact ⟨p, hp, rfl, by simpa using hpriority⟩

theorem Config.profileOf_path {c : Config} {w : Workspace} {parse : Parse} {path : String}
    {l : Option Language} {p : Profile} (h : c.profileOf w parse path l = .ok (some p)) : p.path = path := by
  unfold profileOf at h
  split at h
  · next u hread =>
    obtain ⟨p', hp, hsome⟩ := ok_map h
    cases hsome
    obtain ⟨text, -, rfl⟩ := ok_map hread
    exact profile_path hp
  · split at h
    · cases h
    · cases h

/-- A plan is made of the profiles of all sources that are discovered and can be read. -/
theorem Config.plan_made {c : Config} {w : Workspace} {parse : Parse} {p : Plan}
    (h : c.plan w parse = .ok p) : ∃ (sources : List (String × Language)) (found : List (Option Profile))
      (g : Graph) (t : Threshold), c.discover w = .ok sources ∧
      sources.mapM (fun source => c.profileOf w parse source.1 (some source.2)) = .ok found ∧
      p.profiles = (found.filterMap id).map (fun q => (g.place t q).withPriority) ∧
      p.batches = Batch.plan p.profiles := by
  unfold plan at h
  split at h
  · cases h
  obtain ⟨dirs, -, h⟩ := ok_bind h
  obtain ⟨there, -, h⟩ := ok_bind h
  split at h
  · cases h
  obtain ⟨sources, hsources, h⟩ := ok_bind h
  obtain ⟨found, hfound, h⟩ := ok_bind h
  obtain ⟨plan, hplan, h⟩ := ok_bind h
  cases h
  have hplanned : c.planOf (found.filterMap id) = .ok plan :=
    ok_mapError (ok_mapError (ok_mapError hplan))
  obtain ⟨table, -, hplan⟩ := ok_bind hplanned
  obtain ⟨extensions, -, hplan⟩ := ok_bind hplan
  obtain ⟨listed, -, hplan⟩ := ok_bind hplan
  obtain ⟨threshold, -, hplan⟩ := ok_bind hplan
  cases hplan
  exact ⟨sources, found, _, threshold, ok_mapError hsources, ok_mapError (ok_mapError hfound), rfl, rfl⟩

/-- The batches of a plan are of sources that were discovered. -/
theorem Config.plan_sourced {c : Config} {w : Workspace} {parse : Parse} {p : Plan}
    (h : c.plan w parse = .ok p) {b : Batch} (hb : b ∈ p.batches) : b.Sourced c := by
  obtain ⟨sources, found, g, t, hsources, hfound, hprofiles, hbatches⟩ := plan_made h
  rw [hbatches, hprofiles] at hb
  intro m hm
  obtain ⟨q, hq, hpath, -⟩ := Batch.plan_pending hb hm
  obtain ⟨r, hr, rfl⟩ := List.mem_map.mp hq
  obtain ⟨entry, hentry, hsome⟩ := List.mem_filterMap.mp hr
  obtain rfl : entry = some r := hsome
  obtain ⟨⟨path, l⟩, hsource, hprofile⟩ := ok_mapM hfound hentry
  refine ⟨w, sources, path, l, hsources, hsource, ?_⟩
  rw [hpath]
  exact congrArg Json.str (show r.path = path from profileOf_path hprofile)

/-! ## One item -/

/-- A file stands at the place of a path that is out of reach: folders are missing on the way,
which the path leaves again. -/
def Workspace.Veiled (w : Workspace) (p : String) : Prop :=
  w.blocked? p ≠ none ∧ ∃ text, w.entry? p = some (.file text)

namespace Conditions

variable {c : Conditions} {e : Equipment} {b : Batch} {w w' : Workspace} {i : Int} {m : Member}
  {o : Outcome} {r : Except Mishap Outcome} {k : String} {s s₁ s' : Site} {os : List Outcome}
  {t : Retyped} {text : String}

/-- Where a file is seen to stand, something else is written only under force. -/
theorem changed_unseen {outputs : List (String × String)} {seen : List ((String × String) × Option String)}
    (hseen : w.standing outputs = .ok seen) (hr : refuses false seen = false) {x : String × String}
    (hx : x ∈ changed seen) (hfile : w.entry? x.1 = some (.file text)) : w.Veiled x.1 := by
  refine ⟨fun hreached => ?_, text, hfile⟩
  obtain ⟨⟨x, before⟩, ha, rfl⟩ := List.mem_map.mp hx
  obtain ⟨hmem, hother⟩ := List.mem_filter.mp ha
  have hcurrent := standing_current hseen hmem
  rw [current?_read (read_eq_ok.mpr ⟨hreached, hfile⟩)] at hcurrent
  obtain rfl := Except.ok.inj hcurrent
  simp only [refuses, Bool.not_false, Bool.true_and, List.any_eq_false] at hr
  have hsame : asRead text = x.2 := by simpa using hr _ hmem
  exact absurd (congrArg some hsame) (by simpa using hother)

/-- Without force an item touches nothing but its outputs and their drafts, and of its outputs
none where a file stands that it can see. -/
theorem migrate_keeps (hforce : c.options.force = false) (h : c.migrate w i m = (w', r)) :
    w' = w ∨ ∃ path t, c.Reaches w m path t ∧ Spares (Touches (c.config.outputs t)) w w' ∧
      ∀ x ∈ c.config.outputs t, ∀ text, w.entry? x.1 = some (.file text) →
        w'.entry? x.1 = some (.file text) ∨ w.Veiled x.1 := by
  cases migrate_ends h with
  | early | unseen | yields => exact Or.inl rfl
  | @writes path t seen w' failure hreach hseen hrefuses hw =>
    rw [hforce] at hrefuses
    have hapart := outputs_apart hreach.prepared
    have hsub := changed_sublist hseen
    have hspares := writeEach_touches hw
    refine Or.inr ⟨path, t, hreach, hspares.mono (Touches.mono hsub.subset), fun x hx text hfile => ?_⟩
    by_cases hchanged : x ∈ changed seen
    · exact Or.inr (changed_unseen hseen hrefuses hchanged hfile)
    · have huntouched : ¬ Touches (changed seen) (normal x.1) := not_touches fun y hy =>
        apart_of_mem hapart hx (hsub.subset hy) fun he => hchanged (he ▸ hy)
      exact Or.inl ((hspares.file_iff huntouched).mpr hfile)

/-- An item that is skipped, for whatever reason, leaves all files as they are. -/
theorem migrate_skipped (h : c.migrate w i m = (w', .ok o)) (ho : o.skipped = true) : w' = w := by
  generalize hr : Except.ok o = r at h
  cases migrate_ends h with
  | early | unseen | yields => rfl
  | @writes _ _ _ _ failure =>
    cases failure with
    | some =>
      cases hr
      cases ho
    | none =>
      rcases checked_ok hr.symm with ⟨warnings, rfl⟩ | ⟨text, rfl⟩ <;> cases ho

/-! ## Runs -/

/-- On the way from one site to another an item comes to writing, with the files that are
there then. -/
def Writes (c : Conditions) (e : Equipment) (b : Batch) (s s' : Site) (w : Workspace) (t : Retyped) : Prop :=
  ∃ (os os' : List Outcome) (s₁ : Site) (n : Nat) (m : Member) (path : String),
    Passage c e b s os s₁ ∧ Passage c e b s₁ os' s' ∧ b.members[n]? = some m ∧ s₁.files = w ∧
      c.Reaches w m path t

theorem Writes.on (h : c.Writes e b s s₁ w t) (h' : Passage c e b s₁ os s') : c.Writes e b s s' w t := by
  obtain ⟨os, os', s₂, n, m, path, hto, hfrom, hm, hfiles, hreach⟩ := h
  exact ⟨os, _, s₂, n, m, path, hto, hfrom.trans h', hm, hfiles, hreach⟩

/-- What holds of a site holds on the way that a run takes from there, if it outlasts items and
all that touches the archive alone. -/
theorem passage_walk {P : Site → Prop} (h : Passage c e b s os s') (hhere : P s)
    (hitem : ∀ {os : List Outcome} {s₁ : Site} {i : Int} {m : Member} {files : Workspace}
      {r : Except Mishap Outcome}, Passage c e b s os s₁ → b.members[i.toNat]? = some m →
      c.migrate s₁.files i m = (files, r) → P s₁ → P { s₁ with files := files })
    (hother : ∀ {s₁ s₂ : Site} {os : List Outcome}, Passage c e b s₁ os s₂ →
      Spares e.archive.Place s₁.files s₂.files → P s₁ → P s₂) : P s' := by
  induction h with
  | here => exact hhere
  | item h hm hi ih => exact hitem h hm hi ih
  | save h p ih =>
    have hsave := e.archive.save_spares
    exact hother (Passage.here.save p) ((hsave _ p).mono fun _ => Archive.CheckpointPlace.place) ih
  | clear h ih =>
    have hclear := e.archive.clear_spares
    exact hother Passage.here.clear ((hclear _ b.id).mono fun _ => Archive.CheckpointPlace.place) ih
  | report h told ih =>
    refine hother (Passage.here.report told) ((e.archive.report_spares _ b told).mono fun k hk => ?_) ih
    exact ⟨b.id, Or.inr (Or.inr hk)⟩

theorem Reaches.writes_on {i : Int} {path : String} (hreach : c.Reaches s₁.files m path t)
    (h : Passage c e b s os s₁) (hm : b.members[i.toNat]? = some m)
    (hi : c.migrate s₁.files i m = (w', r)) : c.Writes e b s { s₁ with files := w' } s₁.files t :=
  ⟨_, _, _, _, _, _, h, (Passage.here (e := e)).item hm hi, hm, rfl, hreach⟩

/-- Away from the archive, a file comes or goes only at the outputs of items and at their drafts. -/
theorem passage_touches (hforce : c.options.force = false) (hk : ¬ e.archive.Place k)
    (h : Passage c e b s os s') :
    (∀ text, s'.files.entryAt? k = some (.file text) ↔ s.files.entryAt? k = some (.file text)) ∨
      ∃ w t, c.Writes e b s s' w t ∧ Touches (c.config.outputs t) k := by
  refine passage_walk (P := fun s₁ =>
    (∀ text, s₁.files.entryAt? k = some (.file text) ↔ s.files.entryAt? k = some (.file text)) ∨
      ∃ w t, c.Writes e b s s₁ w t ∧ Touches (c.config.outputs t) k) h (Or.inl fun _ => Iff.rfl) ?_ ?_
  · rintro os s₁ i m files r h hm hi (hsame | ⟨w, t, hwrites, htouch⟩)
    · rcases migrate_keeps hforce hi with rfl | ⟨path, t, hreach, hspares, -⟩
      · exact Or.inl hsame
      · by_cases htouch : Touches (c.config.outputs t) k
        · exact Or.inr ⟨_, t, hreach.writes_on h hm hi, htouch⟩
        · exact Or.inl fun text => (hspares.file_iff htouch).trans (hsame text)
    · exact Or.inr ⟨w, t, hwrites.on ((Passage.here (e := e)).item hm hi), htouch⟩
  · rintro s₁ s₂ os hstep hspares (hsame | ⟨w, t, hwrites, htouch⟩)
    · exact Or.inl fun text => (hspares.file_iff hk).trans (hsame text)
    · exact Or.inr ⟨w, t, hwrites.on hstep, htouch⟩

/-- A file at a place that ends like a source stays what it is, unless an item writes to a
path that leads there without being in reach. -/
theorem passage_kept (hforce : c.options.force = false) (hk : Scripted k) (h : Passage c e b s os s')
    (hfile : s.files.entryAt? k = some (.file text)) :
    s'.files.entryAt? k = some (.file text) ∨ ∃ w t x, c.Writes e b s s' w t ∧
      x ∈ c.config.outputs t ∧ normal x.1 = k ∧ w.Veiled x.1 := by
  refine passage_walk (P := fun s₁ => s₁.files.entryAt? k = some (.file text) ∨ ∃ w t x,
    c.Writes e b s s₁ w t ∧ x ∈ c.config.outputs t ∧ normal x.1 = k ∧ w.Veiled x.1) h (Or.inl hfile) ?_ ?_
  · rintro os s₁ i m files r h hm hi (hfile | ⟨w, t, x, hwrites, hx⟩)
    · rcases migrate_keeps hforce hi with rfl | ⟨path, t, hreach, hspares, hoverwritten⟩
      · exact Or.inl hfile
      · by_cases htouch : Touches (c.config.outputs t) k
        · obtain ⟨x, hx, rfl | rfl⟩ := htouch
          · refine (hoverwritten x hx text hfile).imp id fun hveiled => ?_
            exact ⟨_, t, x, hreach.writes_on h hm hi, hx, rfl, hveiled⟩
          · exact absurd hk (draft_unscripted x.1)
        · exact Or.inl ((hspares.file_iff htouch).mpr hfile)
    · exact Or.inr ⟨w, t, x, hwrites.on ((Passage.here (e := e)).item hm hi), hx⟩
  · rintro s₁ s₂ os hstep hspares (hfile | ⟨w, t, x, hwrites, hx⟩)
    · have hplace : ¬ e.archive.Place k := fun hplace => Archive.place_unscripted hplace hk
      exact Or.inl ((hspares.file_iff hplace).mpr hfile)
    · exact Or.inr ⟨w, t, x, hwrites.on hstep, hx⟩

/-- Over any stretch of a run of a planned batch without force, a file at the place of an
output stays what it is, unless an item writes to a path that leads there without being in
reach; apart from the archive, files come and go only at the outputs of items and at their
drafts; and an item that yields leaves all files as they are. -/
theorem passage_keeps (hforce : c.options.force = false) (hb : b.Sourced c.config)
    (h : Passage c e b s os s') :
    (∀ m ∈ b.members, ∀ path hasMarkup, m.path = .str path → ∀ x ∈ c.config.mayWrite path hasMarkup,
      ∀ text, s.files.entryAt? (c.config.fileOf x) = some (.file text) →
        s'.files.entryAt? (c.config.fileOf x) = some (.file text) ∨
          ∃ w t y, c.Writes e b s s' w t ∧ y ∈ c.config.outputs t ∧ normal y.1 = c.config.fileOf x ∧
            w.Veiled y.1) ∧
      (∀ k, ¬ e.archive.Place k →
        (∀ text, s'.files.entryAt? k = some (.file text) ↔ s.files.entryAt? k = some (.file text)) ∨
          ∃ w t, c.Writes e b s s' w t ∧ Touches (c.config.outputs t) k) ∧
      ∀ (w w' : Workspace) (i : Int) (m : Member) (o : Outcome),
        c.migrate w i m = (w', .ok o) → o.skipped = true → w' = w := by
  refine ⟨fun m hm path hasMarkup hpath x hx text hfile => ?_, fun k hk => passage_touches hforce hk h,
    fun w w' i m o => migrate_skipped⟩
  obtain ⟨w, sources, path', l, hsources, hsource, hpath'⟩ := hb m hm
  cases hpath.symm.trans hpath'
  exact passage_kept hforce (Config.mayWrite_scripted (Config.discover_language hsources hsource) hx) h hfile

/-! ## A target that cannot be seen -/

def roundabout : Conditions :=
  { calm with config := ⟨"/p", Keyed.put "target_dir" (.str "n/../t") (Config.defaults (some 2)), .standard⟩ }

def overlooked : Workspace :=
  ⟨[("/p", .folder), ("/p/components", .folder), ("/p/components/a.jsx", .file "a;"),
    ("/p/t", .folder), ("/p/t/a.tsx", .file "b;")]⟩

def overwritten : Workspace :=
  ⟨[("/p", .folder), ("/p/components", .folder), ("/p/components/a.jsx", .file "a;"),
    ("/p/t", .folder), ("/p/t/a.tsx", .file "a;"), ("/p/n", .folder)]⟩

theorem overlooked_sourced : (batchOf ["components/a.jsx"]).Sourced roundabout.config := by
  have hdiscovered : roundabout.config.discover overlooked = .ok [("components/a.jsx", .javascript)] := by
    decide +kernel
  intro m hm
  obtain rfl : m = memberAt "components/a.jsx" := List.mem_singleton.mp hm
  exact ⟨overlooked, _, "components/a.jsx", .javascript, hdiscovered, List.mem_singleton_self _, rfl⟩

theorem overlooked_migrated : ∃ o, roundabout.migrate overlooked 0 (memberAt "components/a.jsx") =
    (overwritten, .ok o) ∧ o.success = true ∧ o.skipped = false := by
  have htarget : ∀ hasMarkup,
      roundabout.config.target "components/a.jsx" hasMarkup = .ok "n/../t/a.tsx" := by
    decide +kernel
  have hsight : roundabout.config.Sightly "components/a.jsx" := by
    intro hasMarkup target h
    rw [htarget hasMarkup] at h
    cases h
    decide +kernel
  have hread : overlooked.read (roundabout.config.place "components/a.jsx") = .ok "a;" := by decide +kernel
  have hprepared : roundabout.prepare overlooked "components/a.jsx" = .ok (.ready (copied "n/../t/a.tsx")) :=
    prepare_retyped rfl rfl (by decide +kernel) hread rfl rfl rfl WrittenScoring.standard_numeric hsight
      htarget (by decide +kernel)
  have hwritten : overlooked.writeOutputs roundabout.options.force
      (roundabout.config.outputs (copied "n/../t/a.tsx")) = (overwritten, .ok true) :=
    written_eq (by decide +kernel)
  exact ⟨_, migrate_written rfl rfl rfl rfl hprepared hwritten, rfl, rfl⟩

/-- A file at the place of a target is written over without force. -/
theorem overlooked_overwritten : roundabout.options.force = false ∧
    (batchOf ["components/a.jsx"]).Sourced roundabout.config ∧
    (∃ o, roundabout.migrate overlooked 0 (memberAt "components/a.jsx") = (overwritten, .ok o) ∧
      o.success = true ∧ o.skipped = false) ∧
    overlooked.read "/p/t/a.tsx" = .ok "b;" ∧ overwritten.read "/p/t/a.tsx" = .ok "a;" :=
  ⟨rfl, overlooked_sourced, overlooked_migrated, by decide +kernel, by decide +kernel⟩

def aside : Equipment := ⟨.int 1, .int 10, ⟨"/p/k", none, true, .standard⟩, none⟩

theorem overlooked_keeps : ∃ os, roundabout.options.force = false ∧
    (batchOf ["components/a.jsx"]).Sourced roundabout.config ∧
    Passage roundabout aside (batchOf ["components/a.jsx"]) ⟨overlooked, []⟩ os ⟨overwritten, []⟩ ∧
    (∃ w t y, roundabout.Writes aside (batchOf ["components/a.jsx"]) ⟨overlooked, []⟩ ⟨overwritten, []⟩ w t ∧
      y ∈ roundabout.config.outputs t ∧ normal y.1 = roundabout.config.fileOf "n/../t/a.tsx" ∧
      w.Veiled y.1) ∧
    ∀ k, ¬ aside.archive.Place k →
      (∀ text, overwritten.entryAt? k = some (.file text) ↔ overlooked.entryAt? k = some (.file text)) ∨
        ∃ w t, roundabout.Writes aside (batchOf ["components/a.jsx"]) ⟨overlooked, []⟩ ⟨overwritten, []⟩ w t ∧
          Touches (roundabout.config.outputs t) k := by
  obtain ⟨o, hmigrate, -⟩ := overlooked_migrated
  have hpassage := (Passage.here (e := aside) (s := ⟨overlooked, []⟩)).item
    (b := batchOf ["components/a.jsx"]) (i := 0) rfl hmigrate
  obtain ⟨hfiles, htouches, -⟩ := passage_keeps rfl overlooked_sourced hpassage
  have hbefore : overlooked.entryAt? (roundabout.config.fileOf "n/../t/a.tsx") = some (.file "b;") := by
    decide +kernel
  have hafter : overwritten.entryAt? (roundabout.config.fileOf "n/../t/a.tsx") ≠ some (.file "b;") := by
    decide +kernel
  have hmay : "n/../t/a.tsx" ∈ roundabout.config.mayWrite "components/a.jsx" false := by decide +kernel
  rcases hfiles _ List.mem_cons_self _ false rfl _ hmay _ hbefore with hkept | hveiled
  · exact absurd hkept hafter
  · exact ⟨_, rfl, overlooked_sourced, hpassage, hveiled, htouches⟩

end Conditions

end Retype

import Retype.Proofs.Retyping.Collision
import Retype.Proofs.Run.Copying
import Retype.Proofs.Run.Ending
import Retype.Proofs.Run.Outputs

/-!
# Items that fail

An item that fails before it is written leaves all files as they were. One that fails while
it is written keeps what it had written until then: nothing is taken back. So a target can
come to stand without its companion, and a draft can stay behind.
-/

set_option autoImplicit false

namespace Retype

namespace Workspace

open Retype.Path

/-- Some outputs were written, and of the others at most drafts. -/
structure Partly (outputs tried done : List (String × String)) (w w' : Workspace) : Prop where
  written : ∀ x ∈ done, w'.read x.1 = .ok x.2
  kept : ∀ x ∈ outputs, x ∉ done → ∀ text,
    w'.entry? x.1 = some (.file text) ↔ w.entry? x.1 = some (.file text)
  spares : Spares
    (fun k => (∃ x ∈ done, k = normal x.1) ∨ ∃ x ∈ tried, k = normal (draftOf x.1)) w w'

variable {w w' : Workspace} {outputs : List (String × String)} {x : String × String} {e : OsError}
  {seen : List ((String × String) × Option String)}

/-- An output that lies apart from those that are written stays as it is. -/
theorem kept_apart {tried done : List (String × String)} {touched : String → Prop}
    (hapart : outputs.Pairwise Apart) (htried : tried ⊆ outputs)
    (htouched : ∀ k, touched k → Touches done k ∨ ∃ y ∈ tried, k = normal (draftOf y.1))
    (hdone : done ⊆ tried) (h : Spares touched w w') (hx : x ∈ outputs) (hnot : x ∉ done) {text : String} :
    w'.entry? x.1 = some (.file text) ↔ w.entry? x.1 = some (.file text) := by
  rw [entryAt?_normal, entryAt?_normal]
  refine h.file_iff fun hk => ?_
  have hother : ∀ y ∈ tried, normal x.1 ≠ normal (draftOf y.1) := by
    intro y hy he
    by_cases hsame : x = y
    · exact normal_ne_draft x.1 (hsame ▸ he)
    · exact (apart_of_mem hapart hx (htried hy) hsame).draft he
  rcases htouched _ hk with ⟨y, hy, he | he⟩ | ⟨y, hy, he⟩
  · exact (apart_of_mem hapart hx (htried (hdone hy)) fun hsame => hnot (hsame ▸ hy)).places he
  · exact hother y (hdone hy) he
  · exact hother y hy he

theorem writeEach_all (hapart : outputs.Pairwise Apart) (hseen : w.standing outputs = .ok seen)
    (h : w.writeEach (changed seen) = (w', none)) : Partly outputs (changed seen) (changed seen) w w' := by
  have hsub := changed_sublist hseen
  have hspares := writeEach_spares h
  refine ⟨fun x hx => (writeEach_read (hapart.sublist hsub) h x hx).1, fun x hx hnot text => ?_,
    hspares.mono ?_⟩
  · exact kept_apart hapart hsub.subset (fun k => Or.inl) (List.Subset.refl _) hspares hx hnot
  · rintro k ⟨x, hx, hk | hk⟩
    · exact Or.inl ⟨x, hx, hk⟩
    · exact Or.inr ⟨x, hx, hk⟩

/-- Writing outputs in turn stops at the first that cannot be written. -/
theorem writeEach_stops (hapart : outputs.Pairwise Apart) (hseen : w.standing outputs = .ok seen)
    (h : w.writeEach (changed seen) = (w', some e)) : ∃ done x rest,
      changed seen = done ++ x :: rest ∧ Partly outputs (done ++ [x]) done w w' := by
  obtain ⟨done, x, rest, w₁, hsplit, hdone, hx⟩ := writeEach_failed h
  have hsub : (done ++ [x]).Sublist outputs := by
    refine List.Sublist.trans ?_ (changed_sublist hseen)
    rw [hsplit]
    simp
  have hwritten := writeEach_read (hapart.sublist ((List.sublist_append_left _ _).trans hsub)) hdone
  -- writing `x` in vain touches its draft alone
  have hfailed := writeWhole_spares_failed hx
  have hfirst := writeEach_spares hdone
  have hspares : Spares (fun k => Touches done k ∨ ∃ y ∈ done ++ [x], k = normal (draftOf y.1)) w w' :=
    (hfirst.mono fun k => Or.inl).trans (hfailed.mono fun k hk => Or.inr ⟨x, by simp, hk⟩)
  have hclear : ∀ y ∈ done, normal y.1 ≠ normal (draftOf x.1) := by
    intro y hy he
    by_cases hsame : y = x
    · exact normal_ne_draft x.1 (hsame ▸ he)
    · exact (apart_of_mem (hapart.sublist hsub) (List.mem_append_left _ hy) (by simp) hsame).draft he
  refine ⟨done, x, rest, hsplit, fun y hy => hfailed.read (hclear y hy) (hwritten y hy).1,
    fun y hy hnot text => ?_, hspares.mono ?_⟩
  · exact kept_apart hapart hsub.subset (fun k => id) (List.subset_append_left _ _) hspares hy hnot
  · rintro k (⟨y, hy, hk | hk⟩ | hk)
    · exact Or.inl ⟨y, hy, hk⟩
    · exact Or.inr ⟨y, List.mem_append_left _ hy, hk⟩
    · exact Or.inr hk

end Workspace

namespace Conditions

open Workspace

variable {c : Conditions} {w w' : Workspace} {i : Int} {m : Member} {o : Outcome}

/-- What an item that failed at a stage has made of the files. -/
def Leaves (c : Conditions) (w : Workspace) (m : Member) (w' : Workspace) : Stage → Prop
  | .load | .analyze | .synthesize | .transform => w' = w
  | .write => w' = w ∨ ∃ path t seen done x rest, c.Reaches w m path t ∧
      w.standing (c.config.outputs t) = .ok seen ∧ changed seen = done ++ x :: rest ∧
      Partly (c.config.outputs t) (done ++ [x]) done w w'
  | .verify => ∃ path t seen, c.Reaches w m path t ∧ w.standing (c.config.outputs t) = .ok seen ∧
      Partly (c.config.outputs t) (changed seen) (changed seen) w w'

theorem leaves_same {stage : Stage} (h : stage ≠ .verify) : c.Leaves w m w stage := by
  cases stage with
  | write => exact Or.inl rfl
  | verify => exact absurd rfl h
  | _ => rfl

/-- An item that fails leaves the files as they were, unless it fails while its outputs are
written, or afterwards. Then those that were written stay, in the order in which they are
written; the others are as they were, and besides there are no more than drafts and folders. -/
theorem migrate_failed (h : c.migrate w i m = (w', .ok o)) (hf : o.success = false) :
    ∃ stage : Stage, o.stage = .str stage.text ∧ c.Leaves w m w' stage := by
  generalize hr : Except.ok o = r at h
  cases migrate_ends h with
  | early h =>
    cases h with
    | interrupted => cases hr
    | failed hs =>
      cases hr
      exact ⟨_, rfl, leaves_same hs⟩
    | barred =>
      cases hr
      exact ⟨.write, rfl, Or.inl rfl⟩
    | passed =>
      cases hr
      cases hf
    | rehearsed =>
      cases hr
      cases hf
  | unseen =>
    cases hr
    exact ⟨.write, rfl, Or.inl rfl⟩
  | yields =>
    cases hr
    cases hf
  | @writes path t seen w' failure hreach hseen hrefuses hw =>
    have hapart := outputs_apart hreach.prepared
    cases failure with
    | some e =>
      cases hr
      obtain ⟨done, x, rest, hsplit, hpartly⟩ := writeEach_stops hapart hseen hw
      exact ⟨.write, rfl, Or.inr ⟨path, t, seen, done, x, rest, hreach, hseen, hsplit, hpartly⟩⟩
    | none =>
      rcases checked_ok hr.symm with ⟨warnings, rfl⟩ | ⟨text, rfl⟩
      · cases hf
      · exact ⟨.verify, rfl, path, t, seen, hreach, hseen, writeEach_all hapart hseen hw⟩

/-! ## A target without its companion -/

/-- Settings with interfaces beside the targets, where all sources are read as one component. -/
def parting : Conditions :=
  { calm with
    config := ⟨"/p", Keyed.put "interface_mode" (.str "external") calm.config.values, .standard⟩
    parse := fun _ _ => SourceUnit.bareArrow.tree }

def obstructed : Workspace :=
  ⟨[("/p", .folder), ("/p/components", .folder),
    ("/p/components/A.jsx", .file "import './a';\nconst A = p => <b/>;"),
    ("/p/t", .folder), ("/p/t/A.types.ts", .folder)]⟩

theorem retype_companion {u : SourceUnit} {table : AliasTable} {kind : Kind} {s : Synthesis}
    {target : String} {r : Retyped} {tree : Tree} (ht : u.tree = some tree)
    (h : u.retype table kind s target = .ok r) :
    r.companion = Retyping.companion? u.source tree.root s target := by
  unfold SourceUnit.retype at h
  simp only [ht] at h
  split at h
  · cases h
  · split at h
    · cases h
    · cases h
      rfl

/-- The component has a companion. -/
theorem parting_prepared : ∃ t, parting.prepare obstructed "components/A.jsx" = .ok (.ready t) ∧
    ∃ text, parting.config.outputs t = [("/p/t/A.tsx", t.code), ("/p/t/A.types.ts", text)] := by
  have hparsed : ∀ tree ∈ SourceUnit.bareArrow.tree, tree.hasError = false →
      Retyping.WellParsed tree.root := by
    intro tree ht _
    cases ht
    decide
  obtain ⟨-, hretyped⟩ := SourceUnit.retype_refused_iff_broken SourceUnit.bareArrow
    ⟨AliasTable.standard, ["p"]⟩ .external "t/A.tsx" hparsed
  obtain ⟨tree, htree, -, hwhole, -⟩ := hretyped rfl
  have hnormal : AliasTable.normalize ⟨AliasTable.standard, ["p"]⟩ "./a" SourceUnit.bareArrow.path
      "t/A.tsx" = "@components/a" := by
    simp only [AliasTable.normalize, AliasTable.aliasForms, AliasTable.expand, AliasTable.unalias,
      AliasTable.standard_byAlias, AliasTable.standard_byFolder]
    decide +kernel
  obtain ⟨-, t, -, ht, -⟩ := hwhole (by
    obtain rfl : SourceUnit.bareArrow.tree.getD default = tree := by rw [htree]; rfl
    rw [Retyping.edits, SourceUnit.bareArrow_specifierEdits, hnormal]
    decide +kernel)
  have htarget : ∀ hasMarkup, parting.config.target "components/A.jsx" hasMarkup = .ok "t/A.tsx" := by
    decide +kernel
  have hsight : parting.config.Sightly "components/A.jsx" := by
    intro hasMarkup target h
    rw [htarget hasMarkup] at h
    cases h
    decide +kernel
  have hread : obstructed.read (parting.config.place "components/A.jsx") =
      .ok "import './a';\nconst A = p => <b/>;" := by
    decide +kernel
  refine ⟨t, prepare_retyped rfl rfl (by decide +kernel) hread rfl rfl rfl WrittenScoring.standard_numeric
    hsight htarget ht, ?_⟩
  have hcompanion := retype_companion htree ht
  have htypes : (Retyping.companion? SourceUnit.bareArrow.source
      (SourceUnit.bareArrow.tree.getD default).root (Synthesis.ofProfile
        (SourceUnit.bareArrow.profile ⟨AliasTable.standard, ["p"]⟩) .external) "t/A.tsx").map (·.path) =
      some "t/A.types.ts" := by
    decide +kernel
  rw [htree, Option.getD_some, ← hcompanion] at htypes
  obtain ⟨types, hsome, hpath⟩ := Option.map_eq_some_iff.mp htypes
  have htargetPlace : parting.config.place "t/A.tsx" = "/p/t/A.tsx" := by decide
  have htypesPlace : parting.config.place "t/A.types.ts" = "/p/t/A.types.ts" := by decide
  refine ⟨types.text, ?_⟩
  rw [Config.outputs, (SourceUnit.retype_places ht).1, hsome, Option.map_some, hpath, htargetPlace, htypesPlace]
  rfl

/-- The target is written, and its companion cannot be. -/
theorem obstructed_migrated : ∃ w' o code, parting.migrate obstructed 0 (memberAt "components/A.jsx") =
    (w', .ok o) ∧ o.success = false ∧ w'.read "/p/t/A.tsx" = .ok code := by
  obtain ⟨t, hprepared, text, houtputs⟩ := parting_prepared
  have hseen : obstructed.standing (parting.config.outputs t) =
      .ok [(("/p/t/A.tsx", t.code), none), (("/p/t/A.types.ts", text), none)] := by
    have htarget : obstructed.current? "/p/t/A.tsx" = .ok none := by decide +kernel
    have htypes : obstructed.current? "/p/t/A.types.ts" = .ok none := by decide +kernel
    rw [houtputs, standing]
    simp [htarget, htypes, bind, Except.bind, pure, Except.pure]
  have hentries : (obstructed.makeFolder (Path.parent "/p/t/A.tsx")).1.entries = obstructed.entries := by
    decide +kernel
  have hmade : obstructed.makeFolder (Path.parent "/p/t/A.tsx") = (obstructed, none) :=
    Prod.ext (congrArg Workspace.mk hentries) (by decide +kernel)
  obtain ⟨w₁, hw₁⟩ : ∃ w₁, obstructed.writeWhole "/p/t/A.tsx" t.code = (w₁, none) :=
    writeWhole_done hmade (by decide +kernel) (by decide +kernel) (by decide +kernel)
      (by decide +kernel)
  obtain ⟨hspares, hread, -⟩ := writeWhole_spares hw₁
  have hfolder : w₁.entry? "/p/t/A.types.ts" = some .folder := hspares.folders _ (by decide +kernel)
  cases hw₂ : w₁.writeWhole "/p/t/A.types.ts" text with
  | mk w₂ failure =>
    cases failure with
    | none => exact absurd (by rw [hw₂]) (writeWhole_folder hfolder)
    | some e =>
      have hwrite : obstructed.writeOutputs parting.options.force (parting.config.outputs t) =
          (w₂, .error e) := by
        rw [writeOutputs, hseen]
        simp [refuses, changed, writeEach, unlessFailed, hw₁, hw₂]
      refine ⟨w₂, _, t.code, migrate_refused rfl rfl rfl hprepared hwrite, rfl, ?_⟩
      exact (writeWhole_spares_failed hw₂).read (by decide) hread

/-- A failed item leaves a target without its companion. -/
theorem obstructed_halved : ∃ w' o code, parting.migrate obstructed 0 (memberAt "components/A.jsx") =
    (w', .ok o) ∧ o.success = false ∧ obstructed.isThere "/p/t/A.tsx" = false ∧
      w'.read "/p/t/A.tsx" = .ok code := by
  obtain ⟨w', o, code, hmigrate, hfails, hread⟩ := obstructed_migrated
  exact ⟨w', o, code, hmigrate, hfails, by decide +kernel, hread⟩

theorem obstructed_leaves : ∃ w' o, parting.migrate obstructed 0 (memberAt "components/A.jsx") =
    (w', .ok o) ∧ o.success = false ∧ ∃ stage : Stage, o.stage = .str stage.text ∧
      parting.Leaves obstructed (memberAt "components/A.jsx") w' stage := by
  obtain ⟨w', o, -, hmigrate, hfails, -⟩ := obstructed_migrated
  exact ⟨w', o, hmigrate, hfails, migrate_failed hmigrate hfails⟩

end Conditions

end Retype

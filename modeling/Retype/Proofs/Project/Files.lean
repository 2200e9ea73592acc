import Retype.Proofs.Fault
import Retype.Proofs.Keyed
import Retype.Proofs.Project.Folders
import Retype.Run.Item

/-!
# What file operations read and change

What stands under normal paths says all there is to say about a workspace. A path is
reached if all folders above it are there; what an operation does, and how it fails,
then depends on what stands under the path itself, or on the path alone.
-/

set_option autoImplicit false

namespace Retype

/-- Neither the path nor a folder above it has too long a name. -/
def Path.Short (p : String) : Prop :=
  ∀ dir ∈ Workspace.foldersAbove p ++ [Path.tidy p], Path.isLong dir = false

instance (p : String) : Decidable (Path.Short p) :=
  inferInstanceAs (Decidable (∀ dir ∈ Workspace.foldersAbove p ++ [Path.tidy p],
    Path.isLong dir = false))

theorem Path.Short.folders {p : String} (hs : Path.Short p) :
    ∀ dir ∈ Workspace.foldersAbove p, Path.isLong dir = false :=
  fun dir hd => hs dir (List.mem_append_left _ hd)

namespace Workspace

open Retype.Path

def entryAt? (w : Workspace) (k : String) : Option Entry :=
  if k == "/" then some .folder else Keyed.get? k w.entries

theorem entryAt?_normal (w : Workspace) (p : String) : w.entry? p = w.entryAt? (Path.normal p) := rfl

variable {w w' : Workspace} {p : String} {k : String} {e : Entry}

theorem entryAt?_put_other (h : k ≠ Path.normal p) : (w.put p e).entryAt? k = w.entryAt? k := by
  unfold entryAt? put
  rw [Keyed.get?_put_other _ h]

theorem entryAt?_put_self (h : Path.normal p ≠ "/") : (w.put p e).entryAt? (Path.normal p) = some e := by
  have hne : ¬ (Path.normal p == "/") = true := by simpa using h
  unfold entryAt? put
  rw [if_neg hne, Keyed.get?_put_self]

theorem normal_ne_top (h : w.entry? p ≠ some .folder) : Path.normal p ≠ "/" := by
  intro htop
  rw [entryAt?_normal, htop] at h
  exact h rfl

theorem entryAt?_erase_self (h : w.entry? p ≠ some .folder) :
    (w.erase p).entryAt? (Path.normal p) = none := by
  rw [entryAt?, if_neg (by simpa using normal_ne_top h)]
  rw [erase, Keyed.get?_filter (· != Path.normal p), if_neg (by simp)]

theorem entryAt?_erase_other (h : k ≠ Path.normal p) : (w.erase p).entryAt? k = w.entryAt? k := by
  have hkept : (k != Path.normal p) = true := by simpa using h
  unfold entryAt? erase
  rw [Keyed.get?_filter (· != Path.normal p), hkept]
  rfl

theorem write_put {text : String} (h : w.write p text = .ok w') : w' = w.put p (.file text) := by
  unfold write at h
  split at h
  · cases h
  · split at h
    · cases h
    · exact (Except.ok.inj h).symm

theorem replace_put {goal : String} (h : w.replace p goal = .ok w') :
    ∃ text, w' = (w.erase p).put goal (.file text) := by
  unfold replace at h
  split at h
  · cases h
  · next text _ =>
    split at h
    · cases h
    · split at h
      · cases h
      · exact ⟨text, (Except.ok.inj h).symm⟩

/-! ## Reaching a path -/

/-- All folders above a path are there. -/
def Open (w : Workspace) (p : String) : Prop := ∀ dir ∈ foldersAbove p, w.entry? dir = some .folder

theorem findSome?_agree {α β : Type} {f g : α → Option β} {l : List α} (h : ∀ a ∈ l, f a = g a) :
    l.findSome? f = l.findSome? g := by
  induction l with
  | nil => rfl
  | cons a l ih =>
    rw [List.findSome?_cons, List.findSome?_cons, h a List.mem_cons_self,
      ih fun b hb => h b (List.mem_cons_of_mem a hb)]

theorem blocked?_congr (h : ∀ dir ∈ foldersAbove p, w.entry? dir = Workspace.entry? w' dir) :
    w.blocked? p = w'.blocked? p := by
  have hbarred : ∀ dir ∈ foldersAbove p, w.barred? dir = w'.barred? dir := by
    intro dir hdir
    rw [barred?, barred?, h dir hdir]
  unfold blocked?
  rw [findSome?_agree hbarred]

theorem barred?_short {dir : String} (h : isLong dir = false) :
    w.barred? dir = match w.entry? dir with
      | some .folder => none
      | some (.file _) => some .notFolder
      | none => some .missing := by
  rw [barred?, h]
  rfl

theorem barred?_none {dir : String} (h : isLong dir = false) :
    w.barred? dir = none ↔ w.entry? dir = some .folder := by
  rw [barred?_short h]
  split <;> simp_all

theorem barred?_notFolder {dir : String} (h : isLong dir = false) :
    w.barred? dir = some .notFolder ↔ ∃ text, w.entry? dir = some (.file text) := by
  rw [barred?_short h]
  split <;> simp_all

theorem blocked?_eq (hs : Path.Short p) (hf : flaw? p = none) :
    w.blocked? p = (foldersAbove p).findSome? w.barred? := by
  have hlong : isLong (tidy p) = false := hs _ (by simp)
  unfold blocked?
  simp only [hf, hlong, Bool.false_eq_true, if_false]
  cases (foldersAbove p).findSome? w.barred? <;> rfl

theorem barred?_open (hs : Path.Short p) :
    (foldersAbove p).findSome? w.barred? = none ↔ w.Open p := by
  rw [List.findSome?_eq_none_iff]
  constructor
  · intro h dir hd
    exact (barred?_none (hs dir (List.mem_append_left _ hd))).mp (h dir hd)
  · intro h dir hd
    exact (barred?_none (hs dir (List.mem_append_left _ hd))).mpr (h dir hd)

theorem barred?_cases (hs : Path.Short p) {cause : OsCause}
    (h : (foldersAbove p).findSome? w.barred? = some cause) :
    cause = .missing ∨ cause = .notFolder := by
  obtain ⟨dir, hd, hdir⟩ := List.exists_of_findSome?_eq_some h
  rw [barred?_short (hs dir (List.mem_append_left _ hd))] at hdir
  split at hdir
  · cases hdir
  · exact Or.inr (Option.some.inj hdir).symm
  · exact Or.inl (Option.some.inj hdir).symm

theorem blocked?_flaw {cause : OsCause} (h : flaw? p = some cause) : w.blocked? p = some cause := by
  unfold blocked?
  rw [h]

theorem blocked?_reached (hs : ∀ dir ∈ foldersAbove p, isLong dir = false) (h : w.Open p) :
    w.blocked? p = (flaw? p).or (if isLong (tidy p) then some .tooLong else none) := by
  cases hf : flaw? p with
  | some cause => rw [blocked?_flaw hf, Option.some_or]
  | none =>
    have hbarred : (foldersAbove p).findSome? w.barred? = none :=
      List.findSome?_eq_none_iff.mpr fun dir hd => (barred?_none (hs dir hd)).mpr (h dir hd)
    unfold blocked?
    simp only [hf, hbarred, Option.none_or]

theorem blocked?_open (hs : Path.Short p) (h : w.Open p) : w.blocked? p = flaw? p := by
  have hlong : isLong (tidy p) = false := hs _ (by simp)
  rw [blocked?_reached hs.folders h, hlong, if_neg (by simp), Option.or_none]

theorem blocked?_shut (hs : Path.Short p) (hf : flaw? p = none) (h : ¬ w.Open p) :
    w.blocked? p = some .missing ∨ w.blocked? p = some .notFolder := by
  rw [blocked?_eq hs hf]
  cases hb : (foldersAbove p).findSome? w.barred? with
  | none => exact absurd ((barred?_open hs).mp hb) h
  | some cause => exact (barred?_cases hs hb).imp (congrArg some) (congrArg some)

/-! ## Looking at a file -/

theorem unifyLines_self {cs : List Char} (h : '\r' ∉ cs) : unifyLines cs = cs := by
  induction cs with
  | nil => rfl
  | cons a cs ih =>
    have ha : a ≠ '\r' := fun he => h (he ▸ List.mem_cons_self)
    rw [unifyLines, ih fun hc => h (List.mem_cons_of_mem a hc)]
    · rintro rest rfl
      exact absurd rfl ha
    · rintro rfl
      exact absurd rfl ha

theorem unifyLines_clean (cs : List Char) : '\r' ∉ unifyLines cs := by
  induction cs using unifyLines.induct with
  | case1 => simp [unifyLines]
  | case2 rest ih => simpa [unifyLines] using ih
  | case3 rest hne ih =>
    rw [unifyLines]
    · simpa using ih
    · exact hne
  | case4 c rest hne hc ih =>
    rw [unifyLines]
    · exact fun hmem => (List.mem_cons.mp hmem).elim (fun he => hc he.symm) ih
    · exact hne
    · exact hc

theorem unifyLines_eq_self {cs : List Char} : unifyLines cs = cs ↔ '\r' ∉ cs :=
  ⟨fun h => h ▸ unifyLines_clean cs, unifyLines_self⟩

/-- A file that can be read is there. -/
theorem holds_of_readText {text : String} (h : w.readText p = .ok text) : w.holds p = .ok true := by
  obtain ⟨raw, hraw, -⟩ := ok_map h
  unfold read at hraw
  cases hb : w.blocked? p with
  | some cause =>
    rw [hb] at hraw
    cases hraw
  | none =>
    rw [hb] at hraw
    cases he : w.entry? p with
    | none =>
      rw [he] at hraw
      cases hraw
    | some entry => simp only [holds, look, hb, he, Except.map, Option.isSome_some]

theorem current?_flaw {cause : OsCause} (h : flaw? p = some cause) :
    w.current? p = w'.current? p := by
  unfold current? hasFile look
  simp only [blocked?_flaw h]
  cases cause <;> simp [Except.map, bind, Except.bind]

theorem current?_shut (hs : Path.Short p) (hf : flaw? p = none) (h : ¬ w.Open p) :
    w.current? p = .ok none := by
  unfold current? hasFile look
  rcases blocked?_shut hs hf h with h | h <;> simp [h, Except.map, bind, Except.bind, pure, Except.pure]

theorem current?_open (hs : Path.Short p) (hf : flaw? p = none) (h : w.Open p) :
    w.current? p = .ok (match w.entry? p with
      | some (.file text) => some (String.ofList (unifyLines text.toList))
      | _ => none) := by
  have hb : w.blocked? p = none := by rw [blocked?_open hs h, hf]
  unfold current? hasFile look readText read
  simp only [hb]
  cases w.entry? p with
  | none => simp [Except.map, bind, Except.bind, pure, Except.pure]
  | some e => cases e <;> simp [Except.map, bind, Except.bind, pure, Except.pure]

/-! ## Folders that come to stand -/

/-- Above a path nothing changed but that folders came to stand where nothing was. -/
def Widens (v w : Workspace) (p : String) : Prop :=
  ∀ dir ∈ foldersAbove p, w.entry? dir = v.entry? dir ∨
    v.entry? dir = none ∧ w.entry? dir = some .folder

/-- On the way to a path no file stands beyond a folder that is missing. -/
def Firm (w : Workspace) (p : String) : Prop :=
  (foldersAbove p ++ [p]).Pairwise fun a b => w.entry? a = none → ∀ text, w.entry? b ≠ some (.file text)

variable {v : Workspace}

theorem Widens.folder (h : Widens v w p) {dir : String} (hd : dir ∈ foldersAbove p)
    (hf : v.entry? dir = some .folder) : w.entry? dir = some .folder := by
  rcases h dir hd with h | ⟨h, -⟩
  · rw [h, hf]
  · rw [h] at hf
    cases hf

theorem Widens.file_iff (h : Widens v w p) {dir : String} (hd : dir ∈ foldersAbove p)
    {text : String} : w.entry? dir = some (.file text) ↔ v.entry? dir = some (.file text) := by
  rcases h dir hd with h | ⟨h₀, h⟩
  · rw [h]
  · rw [h, h₀]
    simp

theorem Widens.open (h : Widens v w p) (ho : v.Open p) : w.Open p :=
  fun _ hd => h.folder hd (ho _ hd)

/-- What stands in a file is seen or not seen as before, until the file changes. -/
theorem current?_widens (hs : Path.Short p) (hfirm : Firm v p) (h : Widens v w p)
    (he : w.entry? p = v.entry? p) : w.current? p = v.current? p := by
  cases hf : flaw? p with
  | some cause => exact current?_flaw hf
  | none =>
    by_cases ho₀ : v.Open p
    · rw [current?_open hs hf (h.open ho₀), current?_open hs hf ho₀, he]
    · rw [current?_shut hs hf ho₀]
      by_cases ho : w.Open p
      · -- A folder is missing at first, and beyond it there is no file.
        obtain ⟨dir, hd, hdir⟩ : ∃ dir ∈ foldersAbove p, v.entry? dir ≠ some .folder := by
          simpa [Open] using ho₀
        have hnone : v.entry? dir = none := by
          rcases h dir hd with h | ⟨h, -⟩
          · exact absurd (h ▸ ho dir hd) hdir
          · exact h
        have hfile : ∀ text, v.entry? p ≠ some (.file text) :=
          (List.pairwise_append.mp hfirm).2.2 dir hd p (by simp) hnone
        rw [current?_open hs hf ho, he]
        cases hp : v.entry? p with
        | none => rfl
        | some e =>
          cases e with
          | folder => rfl
          | file text => exact absurd hp (hfile text)
      · exact current?_shut hs hf ho

end Workspace

end Retype

import Retype.Proofs.Project.Deepest

/-!
# Where sources are retargeted

The target of a source is to stand in the target folder as the source stands in the deepest
source folder above it, and with an extension of the other language. The first holds for
folders that are written as the names they lead through, the second for extensions in small
letters.
-/

set_option autoImplicit false

namespace Retype

open Retype.Path

namespace Config

variable {c : Config} {w : Workspace} {dir path rest tail : String}

/-! ## Extensions -/

def Replaced (ext : String) : Prop := ext = ".js" ∨ ext = ".jsx"

instance (ext : String) : Decidable (Replaced ext) := inferInstanceAs (Decidable (_ ∨ _))

theorem ofExtension?_javascript {ext : String} : Language.ofExtension? ext = some .javascript ↔
    ext.toLower = ".js" ∨ ext.toLower = ".jsx" ∨ ext.toLower = ".mjs" := by
  unfold Language.ofExtension?
  constructor
  · intro h
    by_contra hnone
    rw [if_neg hnone] at h
    split at h
    · cases h
    · split at h <;> cases h
  · exact fun h => if_pos h

/-- The extension of a JavaScript source: a dot and what has neither a dot nor a slash of
either kind. -/
theorem extension_plain (h : Language.ofPath? path = some .javascript) :
    ∃ e, (Path.extension path).toList = '.' :: e ∧ '.' ∉ e ∧ '/' ∉ e ∧ '\\' ∉ e := by
  have hlower := ofExtension?_javascript.mp h
  have hback : '\\' ∉ (Path.extension path).toList := by
    intro hmem
    have hlow : '\\' ∈ (Path.extension path).toLower.toList := by
      have hmap : (Path.extension path).toLower.toList = (Path.extension path).toList.map Char.toLower :=
        String.toList_map
      rw [hmap]
      exact List.mem_map.mpr ⟨'\\', hmem, by decide⟩
    rcases hlower with hl | hl | hl <;> rw [hl] at hlow <;> revert hlow <;> decide
  have hext : (Path.extension path).toList = (cutExtension (cut path.toList).2).2 := by
    rw [Path.extension, splitExtension, String.toList_ofList]
  rcases cutExtension_cases (cut path.toList).2 with hcut | ⟨s, e, -, he, hb, hcut⟩
  · rw [hcut] at hext
    have hempty : Path.extension path = "" := String.toList_injective hext
    rw [hempty] at hlower
    exact absurd hlower (by decide +kernel)
  · rw [hcut] at hext
    rw [hext] at hback
    refine ⟨e, hext, he, fun hm => slash_notMem_cut path.toList ?_, fun hm => hback (List.mem_cons_of_mem _ hm)⟩
    rw [hb]
    exact List.mem_append_right _ (List.mem_cons_of_mem _ hm)

/-- What ends like a name with an extension has that extension, or none. -/
theorem extension_ends {a e : List Char} (htail : tail.toList = a ++ '.' :: e) (hdot : '.' ∉ e)
    (hslash : '/' ∉ e) : (Path.extension tail).toList = '.' :: e ∨ Path.extension tail = "" := by
  have hplain : '/' ∉ '.' :: e := fun hm => (List.mem_cons.mp hm).elim (by decide) hslash
  have hext : (Path.extension tail).toList = (cutExtension ((cut a).2 ++ '.' :: e)).2 := by
    rw [Path.extension, splitExtension, htail, cut_append_plain a hplain, String.toList_ofList]
  rcases cutExtension_cases ((cut a).2 ++ '.' :: e) with hcut | ⟨s, e', -, hdot', hb, hcut⟩
  · rw [hcut] at hext
    exact Or.inr (String.toList_injective hext)
  · -- the last dot is one and the same
    have hlast : ∀ (x : List Char) {f : List Char}, '.' ∉ f →
        ((x ++ '.' :: f).reverse.takeWhile (· ≠ '.')).reverse = f := by
      intro x f hf
      rw [List.reverse_append, List.reverse_cons, List.append_assoc, List.takeWhile_append_of_pos]
      · simp
      · intro d hd
        have hd' : d ≠ '.' := fun he => hf (he ▸ List.mem_reverse.mp hd)
        simpa using hd'
    rw [hcut] at hext
    rw [hext, ← hlast s hdot', ← hb, hlast _ hdot]
    exact Or.inl rfl

/-- What has no slash and ends a text ends what stands behind a slash of the text. -/
theorem plain_behind {a x t lead : List Char} (hlead : Head lead) (hslash : '/' ∉ x)
    (h : a ++ x = lead ++ t) : ∃ b, t = b ++ x := by
  rcases List.append_eq_append_iff.mp h with ⟨more, hmore, hend⟩ | ⟨b, -, ht⟩
  · by_cases hnone : more = []
    · exact ⟨[], by simp [hend, hnone]⟩
    have hslash' : '/' ∈ more := by
      rcases hlead with rfl | ⟨d, rfl⟩
      · exact absurd (List.append_eq_nil_iff.mp hmore.symm).2 hnone
      · have hlast := congrArg List.getLast? hmore
        rw [List.getLast?_concat, List.getLast?_append_of_ne_nil _ hnone] at hlast
        exact List.mem_of_getLast? hlast.symm
    exact absurd (hend ▸ List.mem_append_left t hslash') hslash
  · exact ⟨b, ht⟩

/-- What a target is made of has the extension of the path, or none. -/
theorem extension_tail (h : Language.ofPath? path = some .javascript) (ht : c.tailOf path = .ok tail) :
    Path.extension tail = Path.extension path ∨ Path.extension tail = "" := by
  obtain ⟨e, hext, hdot, hslash, hback⟩ := extension_plain h
  obtain ⟨dirs, -, htail⟩ := ok_bind ht
  obtain ⟨lead, hlead, hparts⟩ := tailBelow_suffix htail
  have hslashed : (Target.slashed path).toList =
      (stem path).toList.map (fun c => if c = '\\' then '/' else c) ++ '.' :: e := by
    have hkeep : ('.' :: e).map (fun c => if c = '\\' then '/' else c) = ('.' :: e).map id := by
      refine List.map_congr_left fun d hd => if_neg fun (hback' : d = '\\') => ?_
      rcases List.mem_cons.mp hd with rfl | hd
      · exact absurd hback' (by decide)
      · exact hback (hback' ▸ hd)
    rw [Target.slashed, Affix.exchange, String.toList_ofList, ← splitExtension_whole path,
      String.toList_append, List.map_append, hext, hkeep, List.map_id, splitExtension_whole]
  rw [hslashed] at hparts
  obtain ⟨a, ha⟩ := plain_behind hlead (fun hm => hslash ((List.mem_cons.mp hm).resolve_left (by decide))) hparts
  exact (extension_ends ha hdot hslash).imp_left fun hsame => String.toList_injective (hsame.trans hext.symm)

theorem target_tailOf (h : Language.ofPath? path = some .javascript) (ht : c.tailOf path = .ok tail)
    (hdir : (c.value "target_dir").path = .ok dir) (hasMarkup : Bool) : c.target path hasMarkup =
      .ok (join dir (stem tail) ++ Target.extension (Path.extension tail) hasMarkup) := by
  have hparts : c.targetParts path hasMarkup =
      .ok (join dir (stem tail), Target.extension (Path.extension tail) hasMarkup) := by
    obtain ⟨dirs, hdirs, htail⟩ := ok_bind ht
    rw [targetParts, hdirs, bind_ok, htail, bind_ok, hdir, bind_ok]
    rfl
  rw [target_eq h, hparts, Except.map]

theorem base_behind {lead : List Char} (hlead : Head lead) (h : path.toList = lead ++ tail.toList) :
    base path = base tail := by
  have hslash := slash_notMem_cut tail.toList
  have hcut : (cut path.toList).2 = (cut tail.toList).2 := by
    rw [h, ← cut_parts tail.toList, ← List.append_assoc, cut_head (hlead.append (cut_ends _)) hslash,
      cut_parts]
  rw [base, base, hcut]

theorem extension_base {p q : String} (h : base p = base q) : Path.extension p = Path.extension q := by
  have hcut := String.ofList_injective h
  simp only [Path.extension, splitExtension, hcut]

/-- The extension stays on the way to a file from a folder above it. -/
theorem Lies.extension (hpath : Language.ofPath? path = some .javascript) (h : c.Lies dir path rest) :
    Path.extension rest = Path.extension path ∧ Worded (base rest).toList := by
  have hworded := (scripted_path hpath).closes.worded
  have hfile : base (c.fileOf path) = base path := (c.keeps_fileOf.append hworded).1
  have hrest : base (c.fileOf path) = base rest := by
    have hhead : Head ((c.fileOf dir).toList ++ ['/']) := Or.inr ⟨_, rfl⟩
    refine base_behind hhead ?_
    rw [h, String.toList_append, String.toList_append]
    rfl
  have hbase : base rest = base path := hrest.symm.trans hfile
  exact ⟨extension_base hbase, hbase ▸ hworded⟩

theorem extension_replaced {ext : String} (hasMarkup : Bool) :
    (Replaced ext → Target.extension ext hasMarkup = ".tsx" ∨ Target.extension ext hasMarkup = ".ts") ∧
      (¬ Replaced ext → Target.extension ext hasMarkup = ext) := by
  unfold Replaced Target.extension
  constructor
  · rintro (rfl | rfl) <;> cases hasMarkup <;> decide
  · intro h
    obtain ⟨hjs, hjsx⟩ := not_or.mp h
    simp [hjs, hjsx]

theorem slash_notMem_extension (p : String) : '/' ∉ (Path.extension p).toList := by
  have hslash := slash_notMem_cut p.toList
  rw [Path.extension, splitExtension, String.toList_ofList]
  rcases cutExtension_cases (cut p.toList).2 with hcut | ⟨s, e, -, -, hb, hcut⟩
  · rw [hcut]
    exact List.not_mem_nil
  · rw [hcut]
    exact fun hm => hslash (hb ▸ List.mem_append_right s hm)

theorem join_parts {p : String} (dir : String) (h : Worded (base p).toList) :
    join dir (stem p) ++ Path.extension p = join dir p := by
  have hjoin := ((keeps_join dir).append (fits_target h true).1).2 _ (slash_notMem_extension p)
  rw [← hjoin, splitExtension_whole]

theorem fits_join {p ext : String} (dir : String) (hp : Worded (base p).toList) (h : Fits p ext) :
    Fits (join dir p) ext ∧ join dir (p ++ ext) = join dir p ++ ext := by
  obtain ⟨hbase, hjoin⟩ := (keeps_join dir).append hp
  exact ⟨h.congr hbase, hjoin ext h.1⟩

theorem fits_new {p ext : String} (hp : Worded (base p).toList) (h : ext = ".tsx" ∨ ext = ".ts") : Fits p ext := by
  rcases h with rfl | rfl
  · exact fits_dot (e := "tsx".toList) hp (by decide) (by decide)
  · exact fits_dot (e := "ts".toList) hp (by decide) (by decide)

/-- A source is retargeted as its place `rest` below a folder says: in the target folder, with
another extension. -/
def Retargets (c : Config) (dir path rest : String) : Prop :=
  ∀ hasMarkup, ∃ ext, (ext = ".tsx" ∨ ext = ".ts") ∧
    c.target path hasMarkup = .ok (join dir (stem rest ++ ext))

/-- An extension that is replaced by one of the other language is one of the replaced ones. -/
theorem replaced_new (hpath : Language.ofPath? path = some .javascript) (ht : c.tailOf path = .ok tail)
    {ext : String} (hnew : ext = ".tsx" ∨ ext = ".ts") {hasMarkup : Bool}
    (h : Target.extension (Path.extension tail) hasMarkup = ext) :
    Replaced (Path.extension path) ∧ Path.extension tail = Path.extension path := by
  have hne : ext ≠ "" := by
    rcases hnew with rfl | rfl <;> decide
  have hreplaced : Replaced (Path.extension tail) := by
    by_contra hkept
    rw [(extension_replaced hasMarkup).2 hkept] at h
    have hsame := (extension_tail hpath ht).resolve_right fun hnone => hne (h.symm.trans hnone)
    have hjs := ofExtension?_javascript.mp hpath
    rw [← hsame, h] at hjs
    rcases hnew with rfl | rfl <;> revert hjs <;> decide +kernel
  have hsame : Path.extension tail = Path.extension path := by
    refine (extension_tail hpath ht).resolve_right fun hnone => ?_
    rw [hnone] at hreplaced
    exact absurd hreplaced (by decide)
  exact ⟨hsame ▸ hreplaced, hsame⟩

/-- A source is retargeted as its place `rest` below a folder says exactly if its extension is
one that is replaced, and what its target is made of joins like `rest`. -/
theorem retargets_iff (hpath : Language.ofPath? path = some .javascript) (ht : c.tailOf path = .ok tail)
    (hdir : (c.value "target_dir").path = .ok dir) {deep : String} (hlies : c.Lies deep path rest) :
    c.Retargets dir path rest ↔ Replaced (Path.extension path) ∧ join dir tail = join dir rest := by
  obtain ⟨hext, hrest⟩ := hlies.extension hpath
  obtain ⟨dirs, -, hbelow⟩ := ok_bind ht
  have htail := (tail_scripted hpath hbelow).closes.worded
  have hstem := (fits_target hrest true).1
  constructor
  · intro h
    obtain ⟨ext, hnew, htarget⟩ := h true
    obtain ⟨hstem', hfits⟩ := fits_target htail true
    obtain ⟨hold, hjoin⟩ := fits_join dir hstem (fits_new hstem hnew)
    rw [target_tailOf hpath ht hdir, hjoin] at htarget
    obtain ⟨hstems, hnew'⟩ := ((fits_join dir hstem' hfits).1.append_inj hold).mp (Except.ok.inj htarget)
    obtain ⟨hreplaced, hsame⟩ := replaced_new hpath ht hnew hnew'
    refine ⟨hreplaced, ?_⟩
    rw [← join_parts dir htail, ← join_parts dir hrest, hstems, hsame, hext]
  · rintro ⟨hreplaced, hjoin⟩ hasMarkup
    have hbase : base tail = base rest := by
      rw [← ((keeps_join dir).append htail).1, hjoin, ((keeps_join dir).append hrest).1]
    have hsame : Path.extension tail = Path.extension path := (extension_base hbase).trans hext
    have hnew := (extension_replaced hasMarkup).1 hreplaced
    refine ⟨_, hnew, ?_⟩
    rw [← join_parts dir htail, ← join_parts dir hrest, hsame, hext] at hjoin
    rw [target_tailOf hpath ht hdir, (fits_join dir hstem (fits_new hstem hnew)).2, hsame,
      (String.append_left_inj _).mp hjoin]

/-- Whether a target still has the language of its source. -/
theorem target_language (hpath : Language.ofPath? path = some .javascript) (ht : c.tailOf path = .ok tail)
    (hdir : (c.value "target_dir").path = .ok dir) {hasMarkup : Bool} {t : String}
    (h : c.target path hasMarkup = .ok t) : Language.ofPath? t = some .javascript ↔
      ¬ Replaced (Path.extension path) ∧ Path.extension tail = Path.extension path := by
  obtain ⟨dirs, -, hbelow⟩ := ok_bind ht
  obtain ⟨hworded, hfits⟩ := fits_target (tail_scripted hpath hbelow).closes.worded hasMarkup
  have hext : Path.extension t = Target.extension (Path.extension tail) hasMarkup := by
    rw [target_tailOf hpath ht hdir] at h
    rw [← Except.ok.inj h, Path.extension, (fits_join dir hworded hfits).1.split]
  rw [Language.ofPath?, hext]
  have hnone : ∀ ext, ext = ".tsx" ∨ ext = ".ts" → Language.ofExtension? ext ≠ some .javascript := by
    rintro ext (rfl | rfl) <;> decide +kernel
  rcases extension_tail hpath ht with hsame | hempty
  · rw [hsame]
    by_cases hreplaced : Replaced (Path.extension path)
    · exact iff_of_false (hnone _ ((extension_replaced hasMarkup).1 hreplaced)) fun h => h.1 hreplaced
    · rw [(extension_replaced hasMarkup).2 hreplaced]
      exact iff_of_true hpath ⟨hreplaced, rfl⟩
  · rw [hempty, (extension_replaced hasMarkup).2 (by decide)]
    refine iff_of_false (by decide +kernel) fun h => ?_
    rw [Language.ofPath?, ← h.2] at hpath
    exact absurd hpath (by decide +kernel)

theorem extension_slashed (hslash : '\\' ∉ path.toList) (ht : c.tailOf path = .ok tail) :
    Path.extension tail = Path.extension path := by
  obtain ⟨dirs, -, hbelow⟩ := ok_bind ht
  obtain ⟨lead, hlead, hparts⟩ := tailBelow_suffix hbelow
  rw [slashed_self hslash] at hparts
  exact (extension_base (base_behind hlead hparts)).symm

/-- Every discovered source lies below a source folder, so below a deepest one, and its target
is made of some part of its path. It is retargeted as it lies below the deepest folder exactly
if its extension is one that is replaced and the part joins like the way from that folder. The
part is this way if the folders are spelled and the path has no backslash. A target that still
has the language of the source is one whose extension was not replaced. -/
theorem discovered_targets (hroot : Path.Seated c.root) (hw : w.Seated) {sources : List (String × Language)}
    (h : c.discover w = .ok sources) : ∃ dirs : List String,
      (c.value "source_dirs").each = .ok (dirs.map .str) ∧
      ∀ path, (path, .javascript) ∈ sources → ∀ dir, (c.value "target_dir").path = .ok dir →
        (∃ rest, c.Deepest dirs path rest) ∧ ∀ rest, c.Deepest dirs path rest →
          ∃ tail, c.tailOf path = .ok tail ∧
            (c.Retargets dir path rest ↔ Replaced (Path.extension path) ∧ join dir tail = join dir rest) ∧
            (∀ hasMarkup t, c.target path hasMarkup = .ok t → (Language.ofPath? t = some .javascript ↔
              ¬ Replaced (Path.extension path) ∧ Path.extension tail = Path.extension path)) ∧
            ('\\' ∉ path.toList → Path.extension tail = Path.extension path ∧
              ((∀ dir ∈ dirs, Spelled dir) → tail = rest)) := by
  obtain ⟨dirs, hdirs, hfound⟩ := discover_found hroot hw h
  refine ⟨dirs, hdirs, fun path hmem dir hdir => ?_⟩
  obtain ⟨folder, hfolder, below, hbelow⟩ := hfound path _ hmem
  have hpath := discover_language h hmem
  refine ⟨exists_deepest ⟨folder, hfolder, below, hbelow.lies⟩, fun rest hrest => ?_⟩
  obtain ⟨deep, -, hlies⟩ := hrest.lies
  have htail := @tailOf_texts c dirs path hdirs
  refine ⟨_, htail, retargets_iff hpath htail hdir hlies, fun _ _ => target_language hpath htail hdir,
    fun hslash => ⟨extension_slashed hslash htail, fun hs => ?_⟩⟩
  have hnames := hbelow.names_path hroot (hs folder hfolder)
  have hdeepest := tailOf_deepest hroot hdirs hs hnames hslash hrest
  exact Except.ok.inj (htail.symm.trans hdeepest)

def withFolders (dirs : List String) : Config :=
  { Config.standard (some 2) "/p" with values := Keyed.put "source_dirs" (.texts dirs) (Config.defaults (some 2)) }

/-- What is discovered with these settings if there are no ignore rules. The letters of the
extensions are made small but once. -/
theorem withFolders_discover {dirs : List String} (h : Discovery.rules (withFolders dirs) w = .ok []) :
    (withFolders dirs).discover w = Discovery.sources (withFolders dirs) w
      ⟨[], ["node_modules", ".git", ".next", "dist", "build", "out", "coverage", "vendor",
        "__tests__", "__mocks__", ".migration-checkpoints"], [".js", ".jsx", ".ts", ".tsx"],
        .texts [".test.", ".spec.", ".stories."]⟩ := by
  have hextensions : Discovery.extensions (withFolders dirs) = .ok [".js", ".jsx", ".ts", ".tsx"] := by
    have hvalue : (withFolders dirs).value "extensions" = .texts [".js", ".jsx", ".ts", ".tsx"] := rfl
    rw [Discovery.extensions, hvalue]
    decide +kernel
  have hfolders : Discovery.excludedFolders (withFolders dirs) =
      .ok ["node_modules", ".git", ".next", "dist", "build", "out", "coverage", "vendor",
        "__tests__", "__mocks__", ".migration-checkpoints"] := rfl
  rw [discover, Discovery.Filter.ofConfig, h, hfolders, hextensions]
  rfl

def oneButton : Workspace :=
  ⟨[("/p", .folder), ("/p/components", .folder), ("/p/components/ui", .folder),
    ("/p/components/ui/Button.jsx", .file "")]⟩

/-- A folder below another one, with a slash at the end, leads to the right target. -/
theorem oneButton_targets :
    Path.Seated "/p" ∧ oneButton.Seated ∧
      (withFolders ["components", "components/ui/"]).discover oneButton =
        .ok [("components/ui/Button.jsx", .javascript)] ∧
      (withFolders ["components", "components/ui/"]).Retargets "src/components"
        "components/ui/Button.jsx" "Button.jsx" := by
  have hroot : Path.Seated "/p" := by decide +kernel
  have hseated : oneButton.Seated := by decide +kernel
  have hw : (withFolders ["components", "components/ui/"]).discover oneButton =
      .ok [("components/ui/Button.jsx", .javascript)] := by
    rw [withFolders_discover (by decide +kernel)]
    decide +kernel
  refine ⟨hroot, hseated, hw, ?_⟩
  obtain ⟨dirs, hdirs, h⟩ := discovered_targets hroot hseated hw
  have hsame : dirs.map Json.str = ["components", "components/ui/"].map .str := (Except.ok.inj hdirs).symm
  obtain rfl := List.map_injective_iff.mpr (fun _ _ h => Json.str.inj h) hsame
  obtain ⟨-, h⟩ := h "components/ui/Button.jsx" List.mem_cons_self "src/components" rfl
  obtain ⟨tail, -, hretargets, -, hplain⟩ := h "Button.jsx" (by decide +kernel)
  have hspelled : ∀ dir ∈ ["components", "components/ui/"], Spelled dir := by
    intro dir hdir
    rcases List.mem_cons.mp hdir with rfl | hdir
    · exact Or.inr ⟨"components", by decide +kernel, Or.inl rfl⟩
    · rw [List.mem_singleton.mp hdir]
      exact Or.inr ⟨"components/ui", by decide +kernel, Or.inr rfl⟩
  rw [hretargets, (hplain (by decide)).2 hspelled]
  exact ⟨by decide +kernel, rfl⟩

def capitalButton : Workspace :=
  ⟨[("/p", .folder), ("/p/components", .folder), ("/p/components/Button.JSX", .file "")]⟩

/-- A dot before a folder's name loses the folder for the target, and an extension in capital
letters stays what it is. -/
theorem dotted_capital_astray :
    ((withFolders ["./components"]).discover oneButton = .ok [("components/ui/Button.jsx", .javascript)] ∧
      (withFolders ["./components"]).Deepest ["./components"] "components/ui/Button.jsx" "ui/Button.jsx" ∧
      (withFolders ["./components"]).target "components/ui/Button.jsx" true =
        .ok "src/components/components/ui/Button.tsx" ∧
      ¬ (withFolders ["./components"]).Retargets "src/components" "components/ui/Button.jsx" "ui/Button.jsx") ∧
    (withFolders ["components"]).discover capitalButton = .ok [("components/Button.JSX", .javascript)] ∧
      (withFolders ["components"]).target "components/Button.JSX" true = .ok "src/components/Button.JSX" ∧
      Language.ofPath? "src/components/Button.JSX" = some .javascript := by
  have hone : ∀ d path, (withFolders [d]).tailOf path =
      .ok ((Target.below? d (Target.slashed path)).getD (Target.slashed path)) := by
    intro d path
    rw [@tailOf_texts _ [d] path rfl, Order.byDescending, List.mergeSort_singleton, List.findSome?_singleton]
  have hdotted : (withFolders ["./components"]).target "components/ui/Button.jsx" true =
      .ok "src/components/components/ui/Button.tsx" := by
    rw [target_tailOf (by decide +kernel) (hone _ _) rfl]
    decide +kernel
  have hcapital : (withFolders ["components"]).target "components/Button.JSX" true =
      .ok "src/components/Button.JSX" := by
    rw [target_tailOf (by decide +kernel) (hone _ _) rfl]
    decide +kernel
  refine ⟨⟨?_, by decide +kernel, hdotted, fun h => ?_⟩, ?_, hcapital, by decide +kernel⟩
  · rw [withFolders_discover (by decide +kernel)]
    decide +kernel
  · obtain ⟨ext, hnew, hright⟩ := h true
    rw [hdotted] at hright
    rcases hnew with rfl | rfl <;> exact absurd hright (by decide +kernel)
  · rw [withFolders_discover (by decide +kernel)]
    decide +kernel

end Config

end Retype

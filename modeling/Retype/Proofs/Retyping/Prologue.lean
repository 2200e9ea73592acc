import Mathlib.Data.List.TakeWhile
import Retype.Proofs.Retyping.Additions

/-!
# The prologue of a module

A module may open with a hash-bang line and with directives: statements that are string
literals and nothing else. All other statements stand behind them, and so does every edit
but one: a line for a new import, where the module has no import yet, goes behind the first
directive only, or to the very beginning.
-/

set_option autoImplicit false

namespace Retype

namespace Retyping

open Edit (Replaces InsertsAt)

variable {src : Source} {root : Node}

def isDirective (n : Node) : Bool :=
  n.kind == "expression_statement" && n.namedChildren.head?.any fun c => c.kind == "string"

/-- What is passed over where a module opens. -/
def isAside (n : Node) : Bool := n.isComment || n.kind == "hash_bang_line"

def mainStatements (root : Node) : List Node := root.namedChildren.filter fun c => !isAside c

/-- The directives that open a module: the longest run of them from its first statement on. -/
def prologue (root : Node) : List Node := (mainStatements root).takeWhile isDirective

def hashBang? (root : Node) : Option Node := root.children.head?.filter fun c => c.kind == "hash_bang_line"

def opening (root : Node) : List Node := (hashBang? root).toList ++ prologue root

/-- What a parser promises of how a module opens: spans are nested, the module is no call,
neither is there a call or a class in a token, a comment, a hash-bang line or a directive,
and hash-bang lines and directives are not empty. -/
structure WellOpened (root : Node) : Prop where
  nested : Node.Nested root
  noCall : root.isCall = false
  plain : ∀ c ∈ root.children, (!c.named || isAside c || isDirective c) = true →
    ∀ d ∈ c.walk, d.isCall = false ∧ d.isClass = false
  filled : ∀ d ∈ opening root, d.start < d.stop

instance (root : Node) : Decidable (WellOpened root) :=
  decidable_of_iff (Node.Nested root ∧ root.isCall = false ∧
      (∀ c ∈ root.children, (!c.named || isAside c || isDirective c) = true →
        ∀ d ∈ c.walk, d.isCall = false ∧ d.isClass = false) ∧
      ∀ d ∈ opening root, d.start < d.stop)
    ⟨fun ⟨h1, h2, h3, h4⟩ => ⟨h1, h2, h3, h4⟩, fun ⟨h1, h2, h3, h4⟩ => ⟨h1, h2, h3, h4⟩⟩

/-! ## What stands behind the opening -/

def IsMain (n : Node) : Prop := n.named = true ∧ isAside n = false ∧ isDirective n = false

/-- A place behind the hash-bang line and the directives of a module. -/
def Behind (root : Node) (p : Int) : Prop := ∀ d ∈ opening root, (d.stop : Int) ≤ p

instance (root : Node) (p : Int) : Decidable (Behind root p) := inferInstanceAs (Decidable (∀ _ ∈ _, _))

theorem Behind.mono {p q : Int} (h : Behind root p) (hpq : p ≤ q) : Behind root q :=
  fun d hd => Int.le_trans (h d hd) hpq

theorem hashBang?_eq {h : Node} (hh : hashBang? root = some h) :
    h.kind = "hash_bang_line" ∧ ∃ rest, root.children = h :: rest := by
  obtain ⟨hhead, hk⟩ := Option.filter_eq_some_iff.mp hh
  obtain ⟨rest, hrest⟩ := List.head?_eq_some_iff.mp hhead
  exact ⟨by simpa using hk, rest, hrest⟩

theorem mem_mainStatements {c : Node} :
    c ∈ mainStatements root ↔ c ∈ root.children ∧ c.named = true ∧ isAside c = false := by
  simp only [mainStatements, Node.namedChildren, List.mem_filter, Bool.not_eq_true', and_assoc]

theorem mem_prologue {d : Node} (hd : d ∈ prologue root) :
    d ∈ mainStatements root ∧ isDirective d = true :=
  ⟨(List.takeWhile_sublist _).subset hd, List.mem_takeWhile_imp hd⟩

theorem mem_opening {d : Node} (hd : d ∈ opening root) : d ∈ root.children ∧ d.isComment = false := by
  rcases List.mem_append.mp hd with hd | hd
  · obtain ⟨hk, rest, hrest⟩ := hashBang?_eq (Option.mem_toList.mp hd)
    exact ⟨hrest ▸ List.mem_cons_self, by simp [Node.isComment, hk]⟩
  · obtain ⟨hmem, -, haside⟩ := mem_mainStatements.mp (mem_prologue hd).1
    exact ⟨hmem, (Bool.or_eq_false_iff.mp haside).1⟩

theorem hashBang_before {h c : Node} (hn : Node.Nested root) (hh : hashBang? root = some h)
    (hc : c ∈ root.children) (hk : c.kind ≠ "hash_bang_line") : Node.Before h c := by
  obtain ⟨hhk, rest, hrest⟩ := hashBang?_eq hh
  have hord := hn.laid.inOrder
  rw [hrest] at hord hc
  rcases List.mem_cons.mp hc with rfl | hc
  · exact absurd hhk hk
  · exact List.rel_of_pairwise_cons hord hc

theorem mainStatements_inOrder (h : Node.Nested root) : (mainStatements root).Pairwise Node.Before :=
  h.laid.inOrder.sublist (List.filter_sublist.trans List.filter_sublist)

theorem kind_of_isDirective {c : Node} (h : isDirective c = true) : c.kind = "expression_statement" := by
  simpa using (Bool.and_eq_true_iff.mp h).1

/-- A statement that is no directive stands behind the opening. -/
theorem IsMain.behind {c : Node} (h : IsMain c) (hn : Node.Nested root) (hc : c ∈ root.children) :
    Behind root c.start := by
  obtain ⟨hnamed, haside, hdirective⟩ := h
  have hbang : c.kind ≠ "hash_bang_line" := by simpa using (Bool.or_eq_false_iff.mp haside).2
  intro d hd
  refine Int.ofNat_le.mpr ?_
  rcases List.mem_append.mp hd with hd | hd
  · exact hashBang_before hn (Option.mem_toList.mp hd) hc hbang
  · have hmem : c ∈ mainStatements root := mem_mainStatements.mpr ⟨hc, hnamed, haside⟩
    have hord := mainStatements_inOrder hn
    rw [← List.takeWhile_append_dropWhile (p := isDirective) (l := mainStatements root)] at hmem hord
    rcases List.mem_append.mp hmem with hmem | hmem
    · exact absurd (List.mem_takeWhile_imp hmem) (by simp [hdirective])
    · exact (List.pairwise_append.mp hord).2.2 d hd c hmem

/-- A node with a call or a class in it is neither passed over nor a directive. -/
theorem WellOpened.isMain {c d : Node} (h : WellOpened root) (hc : c ∈ root.children)
    (hd : d ∈ c.walk) (hk : d.isCall = true ∨ d.isClass = true) : IsMain c := by
  by_contra hmain
  have hplain : (!c.named || isAside c || isDirective c) = true := by
    simp only [IsMain, not_and, Bool.not_eq_false] at hmain
    cases hn : c.named with
    | false => rfl
    | true =>
      cases ha : isAside c with
      | true => rfl
      | false => simp [hmain hn ha]
  obtain ⟨h1, h2⟩ := h.plain c hc hplain d hd
  rcases hk with hk | hk
  · exact Bool.false_ne_true (h1.symm.trans hk)
  · exact Bool.false_ne_true (h2.symm.trans hk)

theorem IsMain.within_behind {c d : Node} (h : IsMain c) (hn : Node.Nested root)
    (hc : c ∈ root.children) (hd : d ∈ c.walk) : Behind root d.start :=
  (h.behind hn hc).mono (Int.ofNat_le.mpr ((hn.child hc).within hd).1)

theorem IsMain.of_kind {c : Node} (hn : c.named = true) (h1 : c.kind ≠ "comment")
    (h2 : c.kind ≠ "hash_bang_line") (h3 : c.kind ≠ "expression_statement") : IsMain c := by
  refine ⟨hn, by simp [isAside, Node.isComment, h1, h2], ?_⟩
  cases hd : isDirective c with
  | false => rfl
  | true => exact absurd (kind_of_isDirective hd) h3

theorem importStatement_isMain {c : Node} (h : c ∈ importStatements root) :
    IsMain c ∧ c ∈ root.children := by
  obtain ⟨hnamed, hk⟩ := List.mem_filter.mp h
  have hkind : c.kind = "import_statement" := by simpa using hk
  refine ⟨.of_kind (List.mem_filter.mp hnamed).2 ?_ ?_ ?_, Node.mem_children_of_named hnamed⟩ <;>
    simp [hkind]

/-! ## The component and its statement -/

theorem declared_isMain {d : Declaration} (h : d ∈ Declaration.all src root) :
    IsMain d.statement.node := by
  obtain ⟨hds, hdo⟩ := Declaration.mem_all h
  have hnamed := (Statement.mem_collect hds).2.1
  rcases (Declaration.mem_ofStatement hdo).2 with ⟨hx, -⟩ | ⟨-, -, hk⟩
  · have hkind : d.statement.node.kind = "export_statement" := by simpa [Statement.isExport] using hx
    refine .of_kind hnamed ?_ ?_ ?_ <;> simp [hkind]
  · refine .of_kind hnamed ?_ ?_ ?_ <;> intro hkind <;>
      simp [Node.isFunction, Node.isClass, Node.isVariables, hkind] at hk

/-- What was found stands in a statement that is no directive. -/
theorem found_isMain {path : String} {hit : Match} (h : WellOpened root)
    (hf : (Classification.ofRoot src path root).found = some hit) : IsMain hit.statement.node := by
  obtain ⟨hs, hw⟩ := Classification.found_placed hf
  have hsc := Node.mem_children_of_statement hs
  obtain ⟨search, hmem, hsearch⟩ := Classification.found_by_search hf
  simp only [Search.all, List.mem_cons, Prod.mk.injEq, List.not_mem_nil, or_false] at hmem
  rcases hmem with ⟨-, rfl⟩ | ⟨-, rfl⟩ | ⟨-, rfl⟩ | ⟨-, rfl⟩ | ⟨-, rfl⟩
  · exact h.isMain hsc hw (Or.inr (Search.classComponent_placed hsearch).2)
  · obtain ⟨d, hd, -, hds, -⟩ := Search.functionComponent_declared hsearch
    exact hds ▸ declared_isMain hd
  · obtain ⟨d, hd, hm⟩ := List.exists_of_findSome?_eq_some hsearch
    obtain ⟨name, rfl⟩ := Search.higherOrderMatch_eq hm
    exact declared_isMain hd
  · obtain ⟨d, hd, name, rfl⟩ := Search.customHook_declared hsearch
    exact declared_isMain hd
  · exact h.isMain hsc hw (Or.inl (Search.contextProvider_placed hsearch).2)

/-- Comments that are attached to a statement stand behind all else that is above it. -/
theorem attachedStart_after {below d : Node} {above : List Node}
    (hord : (below :: above).Pairwise fun a b => Node.Before b a) (hd : d ∈ above)
    (hk : d.isComment = false) : d.stop ≤ attachedStart src below above := by
  induction above generalizing below with
  | nil => cases hd
  | cons prev above ih =>
    rw [attachedStart]
    split
    · next hprev =>
      have hne : d ≠ prev := by
        rintro rfl
        simp [hk] at hprev
      exact ih hord.of_cons (List.mem_of_ne_of_mem hne hd)
    · exact List.rel_of_pairwise_cons hord hd

/-- The place above a statement and its comments is behind the opening. -/
theorem attached_behind {st : Statement} (h : WellOpened root) (hs : st ∈ root.statements)
    (hm : IsMain st.node) : Behind root (attachedStart src st.node st.above : Nat) := by
  intro d hd
  obtain ⟨hdc, hk⟩ := mem_opening hd
  have hsc := Node.mem_children_of_statement hs
  have hbehind := Int.ofNat_le.mp (hm.behind h.nested hsc d hd)
  have hfilled := h.filled d hd
  obtain ⟨after, hchildren⟩ := Node.above_of_statement hs
  have hord := h.nested.laid.inOrder
  rw [hchildren] at hord hdc
  obtain ⟨habove, hafter, hcross⟩ := List.pairwise_append.mp hord
  have hmem : d ∈ st.above := by
    rcases List.mem_append.mp hdc with hdc | hdc
    · exact List.mem_reverse.mp hdc
    rcases List.mem_cons.mp hdc with rfl | hdc
    · omega
    -- a directive below the statement would be empty
    · have hlow : st.node.stop ≤ d.start := List.rel_of_pairwise_cons hafter hdc
      have := (h.nested.child hsc).laid.forward
      omega
  refine Int.ofNat_le.mpr (attachedStart_after ?_ hmem hk)
  refine List.pairwise_cons.mpr ⟨fun a ha => ?_, List.pairwise_reverse.mp habove⟩
  exact hcross a (List.mem_reverse.mpr ha) _ List.mem_cons_self

/-! ## The place of a new import -/

/-- Modules whose opening a new first import would not stand behind: there is a second
directive, or a hash-bang line and no directive. -/
def Crowded (root : Node) : Prop :=
  2 ≤ (prologue root).length ∨ ((hashBang? root).isSome ∧ prologue root = [])

instance (root : Node) : Decidable (Crowded root) := inferInstanceAs (Decidable (_ ∨ _))

theorem importSpot_last {last : Node} (h : (importStatements root).getLast? = some last) :
    (importSpot src root).place = last.stop := by
  simp only [importSpot, h]

/-- A first import goes behind the first directive, or else to the very beginning. -/
theorem importSpot_first (h : importStatements root = []) :
    (importSpot src root).place = ((prologue root).head?.map Node.stop).getD 0 := by
  have hstring : ∀ n : Node, (src.stringOf? n).isSome = (n.kind == "string") := by
    intro n
    unfold Source.stringOf?
    split <;> simp_all
  have hdirective : ∀ n : Node, isDirective n = (n.kind == "expression_statement" &&
      (n.namedChildren.head?.bind src.stringOf?).isSome) := by
    intro n
    unfold isDirective
    cases n.namedChildren.head? with
    | none => simp
    | some c => simp [hstring]
  have hfind : (root.namedChildren.find? fun c => !(c.isComment || c.kind == "hash_bang_line")) =
      (mainStatements root).head? := (List.head?_filter ..).symm
  simp only [importSpot, h, List.getLast?_nil, hfind, prologue]
  cases mainStatements root with
  | nil => rfl
  | cons first rest =>
    simp only [List.head?_cons, ← hdirective, List.takeWhile_cons]
    split <;> rfl

/-- Without directives the very beginning is behind the opening if there is no hash-bang line. -/
theorem origin_behind (h : WellOpened root) (hp : prologue root = []) :
    Behind root 0 ↔ hashBang? root = none := by
  constructor
  · intro hbehind
    refine Option.eq_none_iff_forall_ne_some.mpr fun b hb => ?_
    have hmem : b ∈ opening root := by simp [opening, hb]
    have := h.filled b hmem
    have := hbehind b hmem
    omega
  · intro hnone d hd
    simp [opening, hp, hnone] at hd

/-- The first directive is behind the opening if it is the only one. -/
theorem directive_behind (h : WellOpened root) {first : Node} {rest : List Node}
    (hp : prologue root = first :: rest) : Behind root (first.stop : Nat) ↔ rest = [] := by
  constructor
  · intro hbehind
    cases rest with
    | nil => rfl
    | cons second rest =>
      have hmem : second ∈ opening root := by simp [opening, hp]
      have hord := (mainStatements_inOrder h.nested).sublist (List.takeWhile_sublist isDirective)
      rw [← prologue, hp] at hord
      have hbefore : first.stop ≤ second.start := List.rel_of_pairwise_cons hord List.mem_cons_self
      have := h.filled second hmem
      have := hbehind second hmem
      omega
  · intro hrest d hd
    obtain ⟨hmain, hdirective⟩ := mem_prologue (hp ▸ List.mem_cons_self : first ∈ prologue root)
    have hchild := (mem_mainStatements.mp hmain).1
    refine Int.ofNat_le.mpr ?_
    rcases List.mem_append.mp hd with hd | hd
    · have hkind : first.kind ≠ "hash_bang_line" := by simp [kind_of_isDirective hdirective]
      have hbefore := hashBang_before h.nested (Option.mem_toList.mp hd) hchild hkind
      exact Nat.le_trans hbefore (h.nested.child hchild).laid.forward
    · rw [hp, hrest] at hd
      exact Nat.le_of_eq (congrArg Node.stop (List.mem_singleton.mp hd))

/-- The first directive, or else the very beginning, is behind the opening exactly of
modules that are not crowded. -/
theorem first_behind (h : WellOpened root) :
    Behind root (((prologue root).head?.map Node.stop).getD 0 : Nat) ↔ ¬ Crowded root := by
  cases hp : prologue root with
  | nil =>
    refine (origin_behind h hp).trans ?_
    simp [Crowded, hp]
  | cons first rest =>
    refine (directive_behind h hp).trans ?_
    cases rest <;> simp [Crowded, hp]

/-- A new import stands behind the opening, unless it is the first of a crowded module. -/
theorem importSpot_behind (h : WellOpened root) : Behind root ((importSpot src root).place : Nat) ↔
    ¬ (importStatements root = [] ∧ Crowded root) := by
  cases hlast : (importStatements root).getLast? with
  | some last =>
    have hmem := List.mem_of_getLast? hlast
    obtain ⟨hm, hc⟩ := importStatement_isMain hmem
    have hne : importStatements root ≠ [] := List.ne_nil_of_mem hmem
    refine iff_of_true ?_ (fun hx => hne hx.1)
    rw [importSpot_last hlast]
    exact (hm.behind h.nested hc).mono (Int.ofNat_le.mpr (h.nested.child hc).laid.forward)
  | none =>
    have hnil : importStatements root = [] := List.getLast?_eq_none_iff.mp hlast
    rw [importSpot_first hnil]
    simp only [hnil, true_and]
    exact first_behind h

/-! ## Edits behind the opening -/

/-- The interface brings a line to the place of new imports: an import of the interface or of
React, or the interface itself where no component was found. -/
def BringsLine (src : Source) (root : Node) (c : Classification) (s : Synthesis) : Prop :=
  (missingInterface? src root s).isSome ∧ (s.placement = .external ∨
    (s.needsReact = true ∧ (importedNames src root).contains "React" = false) ∨ c.found.isNone)

instance (src : Source) (root : Node) (c : Classification) (s : Synthesis) :
    Decidable (BringsLine src root c s) := inferInstanceAs (Decidable (_ ∧ _))

section

variable {path target : String} {c : Classification} {s : Synthesis} {e : Edit}

theorem interfaceEdits_line (target : String) (h : BringsLine src root c s) :
    ∃ e ∈ interfaceEdits src root c s target, e.start = (importSpot src root).place := by
  obtain ⟨hmissing, hreason⟩ := h
  obtain ⟨name, hname⟩ := Option.isSome_iff_exists.mp hmissing
  simp only [interfaceEdits, hname]
  cases hp : s.placement with
  | external => exact ⟨_, List.mem_singleton_self _, rfl⟩
  | inline =>
    rcases hreason with hr | ⟨hr, hno⟩ | hr
    · simp [hp] at hr
    · refine ⟨(importSpot src root).line reactImport, List.mem_append_left _ ?_, rfl⟩
      rw [hr, hno]
      exact List.mem_singleton_self _
    · refine ⟨_, List.mem_append_right _ (List.mem_singleton_self _), ?_⟩
      rw [interfacePlace, Option.isNone_iff_eq_none.mp hr]
      rfl

theorem interfaceEdits_start (he : e ∈ interfaceEdits src root c s target) :
    (BringsLine src root c s ∧ e.start = (importSpot src root).place) ∨
      ∃ hit, c.found = some hit ∧ e.start = attachedStart src hit.statement.node hit.statement.above := by
  unfold interfaceEdits at he
  split at he
  · cases he
  · next name hname =>
    have hmissing : (missingInterface? src root s).isSome := by rw [hname]; rfl
    split at he
    · next hp =>
      cases List.mem_singleton.mp he
      exact Or.inl ⟨⟨hmissing, Or.inl hp⟩, rfl⟩
    · rcases List.mem_append.mp he with he | he
      · split at he
        · next hreact =>
          cases List.mem_singleton.mp he
          have hreact := Bool.and_eq_true_iff.mp hreact
          exact Or.inl ⟨⟨hmissing, Or.inr (Or.inl ⟨hreact.1, by simpa using hreact.2⟩)⟩, rfl⟩
        · cases he
      · cases List.mem_singleton.mp he
        cases hf : c.found with
        | none =>
          refine Or.inl ⟨⟨hmissing, Or.inr (Or.inr (by rw [hf]; rfl))⟩, ?_⟩
          simp only [interfacePlace, hf, Edit.insertion]
        | some hit =>
          refine Or.inr ⟨hit, rfl, ?_⟩
          simp only [interfacePlace, hf, Edit.insertion]

theorem specifierEdits_behind {table : AliasTable} {importer : String} (h : WellOpened root)
    (he : e ∈ specifierEdits src table importer target root) : Behind root e.start := by
  obtain ⟨n, hn, hstart, -⟩ := specifierEdits_replace he
  obtain ⟨stmt, hstmt, hk, hsource⟩ := mem_specifierNodes.mp hn
  have hmain : IsMain stmt := by
    refine .of_kind (List.mem_filter.mp hstmt).2 ?_ ?_ ?_ <;> rcases hk with hk | hk <;> simp [hk]
  rw [hstart]
  exact hmain.within_behind h.nested (Node.mem_children_of_named hstmt)
    (Node.child_mem_walk (Node.mem_children_of_child? hsource))

theorem Inside.start {owner : Node} (h : Node.Nested owner) (he : Inside owner e) :
    (owner.start : Int) ≤ e.start := by
  rcases he with ⟨p, -, hp, hstart, -⟩ | ⟨p, hp, -, hstart, -⟩
  · have := h.within (Node.child_mem_walk (Node.mem_children_of_child? hp))
    omega
  · omega

theorem componentEdits_behind {kind : Kind} {name : Option String} (h : WellOpened root)
    (hc : c = Classification.ofRoot src path root) (he : e ∈ componentEdits src kind c name) :
    Behind root e.start := by
  unfold componentEdits at he
  split at he
  · cases he
  · next hit hf =>
    obtain ⟨hs, hw⟩ := Classification.found_placed (hc ▸ hf)
    have hsc := Node.mem_children_of_statement hs
    have hnest := (h.nested.child hsc).of_mem hw
    have hinside : Inside hit.node e := by
      split at he
      · next hk => exact signatureEdits_inside hnest (Bool.and_eq_true_iff.mp hk).2 he
      · split at he
        · split at he
          · exact baseEdit?_inside hnest (Option.mem_toList.mp he)
          · cases he
        · cases he
    exact ((found_isMain h (hc ▸ hf)).within_behind h.nested hsc hw).mono (hinside.start hnest)

theorem stateEdits_behind (h : WellOpened root) (he : e ∈ stateEdits src root) :
    Behind root e.start := by
  obtain ⟨call, hcall, hk, callee, hcallee, hstart, -⟩ := stateEdits_insert he
  rcases Node.mem_walk.mp hcall with rfl | ⟨c, hc, hcc⟩
  · exact absurd hk (by simp [h.noCall])
  · have hwalk := Node.walk_trans (Node.child_mem_walk hcallee) hcc
    have hforward := (h.nested.child hc).forward hwalk
    refine ((h.isMain hc hcc (Or.inl hk)).within_behind h.nested hc hwalk).mono ?_
    omega

/-- All edits of a module are behind its opening, but for the line of a first import in a
crowded module. -/
theorem edits_behind {table : AliasTable} {importer : String} {kind : Kind} (h : WellOpened root)
    (hc : c = Classification.ofRoot src path root) :
    (∀ e ∈ edits src table importer target root kind c s, Behind root e.start) ↔
      ¬ (BringsLine src root c s ∧ importStatements root = [] ∧ Crowded root) := by
  constructor
  · rintro hbehind ⟨hline, hcrowded⟩
    obtain ⟨e, he, hstart⟩ := interfaceEdits_line target hline
    have hmem : e ∈ edits src table importer target root kind c s := by simp [edits, he]
    exact (importSpot_behind h).mp (hstart ▸ hbehind e hmem) hcrowded
  · intro hno e he
    simp only [edits, List.mem_append] at he
    rcases he with ((he | he) | he) | he
    · exact specifierEdits_behind h he
    · rcases interfaceEdits_start he with ⟨hline, hstart⟩ | ⟨hit, hf, hstart⟩
      · rw [hstart]
        exact (importSpot_behind h).mpr fun hcrowded => hno ⟨hline, hcrowded⟩
      · rw [hstart]
        subst hc
        exact attached_behind h (Classification.found_placed hf).1 (found_isMain h hf)
    · exact componentEdits_behind h hc he
    · exact stateEdits_behind h he

end

end Retyping

namespace SourceUnit

open Retyping

/-- The edits of a unit are behind the opening of its module, whatever it is retyped with,
unless they bring a first import to a crowded module. If they are, the code begins with the
source up to the end of the hash-bang line and of each directive. -/
theorem retype_opening {u : SourceUnit} {t : Tree} (ht : u.tree = some t) (hw : WellOpened t.root)
    (table : AliasTable) (kind : Kind) (s : Synthesis) (target : String) :
    let c := Classification.ofRoot u.source u.path t.root
    let es := edits u.source table u.path target t.root kind c s
    ((∀ e ∈ es, Behind t.root e.start) ↔
      ¬ (BringsLine u.source t.root c s ∧ importStatements t.root = [] ∧ Crowded t.root)) ∧
    ((∀ e ∈ es, Behind t.root e.start) → ∀ r, u.retype table kind s target = .ok r →
      ∃ out, r.code = Utf8.decode out ∧
        ∀ d ∈ opening t.root, u.source.octets.toList.take d.stop <+: out) := by
  intro c es
  refine ⟨edits_behind hw rfl, fun hbehind r hr => ?_⟩
  obtain ⟨-, out, hout, hcode⟩ := retype_applied ht hr
  refine ⟨out, hcode, fun d hd => ?_⟩
  refine Edit.applyAll_front (fun e he => ?_) (List.take_prefix _ _) hout
  have := hbehind e he d hd
  have := List.length_take_le d.stop u.source.octets.toList
  omega

def directiveAt (start stop : Nat) : Node :=
  ⟨"expression_statement", true, start, stop, "",
    [⟨"string", true, start, stop - 1, "",
      [⟨"'", false, start, start + 1, "", []⟩, ⟨"string_fragment", true, start + 1, stop - 2, "", []⟩,
       ⟨"'", false, stop - 2, stop - 1, "", []⟩]⟩,
     ⟨";", false, stop - 1, stop, "", []⟩]⟩

/-- The statement `const A = p => <b/>;` from a place on. -/
def arrowAt (start : Nat) : Node :=
  ⟨"lexical_declaration", true, start, start + 20, "",
    [⟨"const", false, start, start + 5, "kind", []⟩,
     ⟨"variable_declarator", true, start + 6, start + 19, "",
      [⟨"identifier", true, start + 6, start + 7, "name", []⟩,
       ⟨"=", false, start + 8, start + 9, "", []⟩,
       ⟨"arrow_function", true, start + 10, start + 19, "value",
        [⟨"identifier", true, start + 10, start + 11, "parameter", []⟩,
         ⟨"=>", false, start + 12, start + 14, "", []⟩,
         ⟨"jsx_self_closing_element", true, start + 15, start + 19, "body",
          [⟨"<", false, start + 15, start + 16, "", []⟩,
           ⟨"identifier", true, start + 16, start + 17, "name", []⟩,
           ⟨"/>", false, start + 17, start + 19, "", []⟩]⟩]⟩]⟩,
     ⟨";", false, start + 19, start + 20, "", []⟩]⟩

def executable : SourceUnit where
  path := "components/A.jsx"
  language := .javascript
  source := .ofText "#!/usr/bin/env node\n'use client';\nconst A = p => <b/>;"
  tree := some ⟨⟨"program", true, 0, 54, "",
    [⟨"hash_bang_line", true, 0, 19, "", []⟩, directiveAt 20 33, arrowAt 34]⟩, false⟩

def strictClient : SourceUnit where
  path := "components/A.jsx"
  language := .javascript
  source := .ofText "'use strict';\n'use client';\nconst A = p => <b/>;"
  tree := some ⟨⟨"program", true, 0, 48, "", [directiveAt 0 13, directiveAt 14 27, arrowAt 28]⟩, false⟩

theorem executable_opening : ∃ t ∈ executable.tree,
    ∀ e ∈ edits executable.source ⟨AliasTable.standard, []⟩ executable.path "src/components/A.tsx" t.root
      .functionComponent (Classification.ofRoot executable.source executable.path t.root)
      (Synthesis.ofProfile (executable.profile ⟨AliasTable.standard, []⟩) .external),
      Behind t.root e.start := by
  obtain ⟨t, ht⟩ : ∃ t, executable.tree = some t := ⟨_, rfl⟩
  have hw : WellOpened t.root := by
    cases ht
    decide
  have hroomy : ¬ Crowded t.root := by
    cases ht
    decide
  exact ⟨t, ht, (retype_opening ht hw _ _ _ _).1.mpr fun ⟨_, _, hcrowded⟩ => hroomy hcrowded⟩

/-- The import of the interface goes between the two directives. -/
theorem strictClient_parted : ∃ t ∈ strictClient.tree, t.hasError = false ∧ WellOpened t.root ∧
    ∃ e ∈ edits strictClient.source ⟨AliasTable.standard, []⟩ strictClient.path "src/components/A.tsx" t.root
      (strictClient.profile ⟨AliasTable.standard, []⟩).kind
      (Classification.ofRoot strictClient.source strictClient.path t.root)
      (Synthesis.ofProfile (strictClient.profile ⟨AliasTable.standard, []⟩) .external),
      e.text = "\nimport type \x7b AProps \x7d from './A.types';" ∧
        ∃ d ∈ prologue t.root, e.start < d.stop := by
  refine ⟨_, rfl, rfl, by decide, ?_⟩
  decide +kernel

end SourceUnit

end Retype

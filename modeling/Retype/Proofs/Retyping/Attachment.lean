import Retype.Proofs.Component.Naming
import Retype.Proofs.Retyping.Prologue
import Retype.Proofs.Text.Lines

/-!
# Comments attached to a component

The interface goes above its component and the comments that stand directly above it. Where
the component begins its line, so does the interface, unless the topmost of these comments
begins on a line on which another statement ends.
-/

set_option autoImplicit false

namespace Retype

/-! ## Lines of a source -/

namespace Source

variable {src : Source} {a b : Nat}

def lineBefore (src : Source) (place : Nat) : List UInt8 := lastLine (src.slice 0 place)

/-- Only white space stands before a place on its line. -/
def BeginsLine (src : Source) (place : Nat) : Prop := Blank.Spaces (src.lineBefore place)

instance (src : Source) (place : Nat) : Decidable (src.BeginsLine place) :=
  inferInstanceAs (Decidable (Blank.Spaces _))

theorem slice_split (hab : a ≤ b) : src.slice 0 b = src.slice 0 a ++ src.slice a b := by
  rw [slice_eq, slice_eq, slice_eq, List.drop_zero, Nat.sub_zero, Nat.sub_zero,
    ← List.take_add, Nat.add_sub_cancel' hab]

theorem row_split (hab : a ≤ b) : src.row b = src.row a + (src.slice a b).count 10 := by
  rw [row, slice_split hab, List.count_append, row]

theorem row_mono (hab : a ≤ b) : src.row a ≤ src.row b := by
  rw [row_split hab]
  exact Nat.le_add_right _ _

theorem beginsLine_below (hab : a ≤ b) (hgap : Blank.Spaces (src.slice a b))
    (hrow : src.row a < src.row b) : src.BeginsLine b := by
  have hfeed : 10 ∈ src.slice a b := by
    rw [row_split hab] at hrow
    exact List.count_pos_iff.mp (by omega)
  rw [BeginsLine, lineBefore, slice_split hab, lastLine_append_feed hfeed]
  exact hgap.lastLine

theorem beginsLine_beside (hab : a ≤ b) (hgap : Blank.Spaces (src.slice a b))
    (hrow : src.row a = src.row b) : src.BeginsLine b ↔ src.BeginsLine a := by
  have hfeed : 10 ∉ src.slice a b := by
    rw [row_split hab] at hrow
    exact List.count_eq_zero.mp (by omega)
  rw [BeginsLine, BeginsLine, lineBefore, slice_split hab, lastLine_append hfeed]
  exact ⟨fun h => h.front hgap, fun h => h.append hgap⟩

end Source

namespace Retyping

variable {src : Source} {root : Node}

/-! ## The comments directly above a statement -/

def standsOn (src : Source) (below prev : Node) : Bool :=
  prev.isComment && src.row below.start ≤ src.row prev.stop + 1

/-- The comments that stand directly above a node, the nearest first. -/
def attached (src : Source) (below : Node) : List Node → List Node
  | [] => []
  | prev :: rest => if standsOn src below prev then prev :: attached src prev rest else []

/-- The topmost of these comments, or the node itself. -/
def topmost (src : Source) (below : Node) (above : List Node) : Node :=
  (attached src below above).getLast?.getD below

theorem attached_cons {below prev : Node} (rest : List Node) (h : standsOn src below prev = true) :
    attached src below (prev :: rest) = prev :: attached src prev rest := by
  rw [attached, if_pos h]

theorem attached_nil {below prev : Node} (rest : List Node) (h : standsOn src below prev = false) :
    attached src below (prev :: rest) = [] := by
  rw [attached, if_neg (by simp [h])]

theorem topmost_cons {below prev : Node} (rest : List Node) (h : standsOn src below prev = true) :
    topmost src below (prev :: rest) = topmost src prev rest := by
  rw [topmost, attached_cons rest h, List.getLast?_cons, Option.getD_some, topmost]

theorem attachedStart_eq (below : Node) (above : List Node) :
    attachedStart src below above = (topmost src below above).start := by
  induction above generalizing below with
  | nil => rfl
  | cons prev rest ih =>
    rw [attachedStart]
    cases h : standsOn src below prev with
    | true => rw [topmost_cons rest h, ← ih prev, if_pos (by simpa [standsOn] using h)]
    | false =>
      rw [topmost, attached_nil rest h, if_neg (by simpa [standsOn] using h)]
      rfl

/-- The comments attached to a node are the longest run of comments above it in which each
stands on the one below. -/
structure Run (src : Source) (below : Node) (run rest : List Node) : Prop where
  comments : ∀ d ∈ run, d.isComment = true
  standing : (below :: run).IsChain fun lower upper => standsOn src lower upper = true
  longest : ∀ q ∈ rest.head?, standsOn src (run.getLast?.getD below) q = false

theorem attached_run (below : Node) (above : List Node) :
    ∃ rest, above = attached src below above ++ rest ∧ Run src below (attached src below above) rest := by
  induction above generalizing below with
  | nil => exact ⟨[], rfl, by simp [attached], by simp [attached], by simp⟩
  | cons prev above ih =>
    cases h : standsOn src below prev with
    | true =>
      obtain ⟨rest, hsplit, hrun⟩ := ih prev
      rw [attached_cons above h]
      refine ⟨rest, by rw [List.cons_append, ← hsplit], ?_, ?_, ?_⟩
      · intro d hd
        rcases List.mem_cons.mp hd with rfl | hd
        · exact (Bool.and_eq_true_iff.mp h).1
        · exact hrun.comments d hd
      · exact List.isChain_cons_cons.mpr ⟨h, hrun.standing⟩
      · intro q hq
        rw [List.getLast?_cons, Option.getD_some]
        exact hrun.longest q hq
    | false =>
      rw [attached_nil above h]
      refine ⟨prev :: above, rfl, by simp, by simp, ?_⟩
      intro q hq
      cases hq
      exact h

/-! ## White space around statements -/

/-- White space stands before each node of a list, from a place on. -/
def Spaced (src : Source) (place : Nat) : List Node → Prop
  | [] => True
  | c :: cs => Blank.Spaces (src.slice place c.start) ∧ Spaced src c.stop cs

def Spaced.decide (src : Source) : (place : Nat) → (cs : List Node) → Decidable (Spaced src place cs)
  | _, [] => isTrue trivial
  | place, c :: cs =>
    have := Spaced.decide src c.stop cs
    inferInstanceAs (Decidable (Blank.Spaces (src.slice place c.start) ∧ Spaced src c.stop cs))

instance (src : Source) (place : Nat) (cs : List Node) : Decidable (Spaced src place cs) :=
  Spaced.decide src place cs

theorem Spaced.later {place : Nat} {xs ys : List Node} (h : Spaced src place (xs ++ ys)) :
    ∃ p, Spaced src p ys := by
  induction xs generalizing place with
  | nil => exact ⟨place, h⟩
  | cons x xs ih => exact ih h.2

theorem Spaced.gap {place : Nat} {c : Node} {above below : List Node}
    (h : Spaced src place (above.reverse ++ c :: below)) :
    Blank.Spaces (src.slice ((above.head?.map Node.stop).getD place) c.start) := by
  cases above with
  | nil => exact h.1
  | cons q above =>
    rw [List.reverse_cons, List.append_assoc, List.singleton_append] at h
    obtain ⟨p, -, hp⟩ := h.later
    exact hp.1

/-- What a parser promises of the space around statements: spans are nested, only white space
stands between the parts of a module and before the first, and a line is not blank where a
statement ends. -/
structure WellSpaced (src : Source) (root : Node) : Prop where
  nested : Node.Nested root
  spaced : Spaced src 0 root.children
  filled : ∀ c ∈ root.children, c.isComment = false → ¬ src.BeginsLine c.stop

instance (src : Source) (root : Node) : Decidable (WellSpaced src root) :=
  decidable_of_iff (Node.Nested root ∧ Spaced src 0 root.children ∧
      ∀ c ∈ root.children, c.isComment = false → ¬ src.BeginsLine c.stop)
    ⟨fun ⟨h1, h2, h3⟩ => ⟨h1, h2, h3⟩, fun ⟨h1, h2, h3⟩ => ⟨h1, h2, h3⟩⟩

/-! ## Where the attached comments begin -/

/-- No comment of a run begins on a line on which another statement ends. -/
def OwnLines (src : Source) (run above : List Node) : Prop :=
  ∀ d ∈ run, ∀ q ∈ above, q.isComment = false → src.row q.stop < src.row d.start

instance (src : Source) (run above : List Node) : Decidable (OwnLines src run above) :=
  inferInstanceAs (Decidable (∀ _ ∈ _, ∀ _ ∈ _, _ → _))

/-- Of a run only the topmost comment matters, and of all above it only what is next to it. -/
theorem ownLines_iff {init rest : List Node} {top q : Node}
    (hord : (init ++ top :: q :: rest).Pairwise fun a b => Node.Before b a)
    (hforward : ∀ n ∈ init ++ top :: q :: rest, n.start ≤ n.stop)
    (hrun : ∀ d ∈ init ++ [top], d.isComment = true)
    (hq : q.isComment = true → src.row q.stop < src.row top.start) :
    OwnLines src (init ++ [top]) (init ++ top :: q :: rest) ↔ src.row q.stop < src.row top.start := by
  obtain ⟨-, htail, hinit⟩ := List.pairwise_append.mp hord
  have htop : top ∈ init ++ top :: q :: rest := by simp
  have hqmem : q ∈ init ++ top :: q :: rest := by simp
  constructor
  · intro hown
    cases hk : q.isComment with
    | true => exact hq hk
    | false => exact hown top (by simp) q hqmem hk
  · intro hlt d hd p hp hk
    have hlow : src.row top.start ≤ src.row d.start := by
      refine Source.row_mono ?_
      rcases List.mem_append.mp hd with hd | hd
      · have hbefore : top.stop ≤ d.start := hinit d hd top List.mem_cons_self
        have := hforward top htop
        omega
      · rw [List.mem_singleton.mp hd]
    have hhigh : src.row p.stop ≤ src.row q.stop := by
      refine Source.row_mono ?_
      have hbelow : p ∉ init ++ [top] := fun hin => by simp [hrun p hin] at hk
      have hpq : p ∈ q :: rest := by
        rw [List.append_cons] at hp
        exact (List.mem_append.mp hp).resolve_left hbelow
      rcases List.mem_cons.mp hpq with rfl | hpr
      · exact Nat.le_refl _
      · have hbefore : p.stop ≤ q.start := List.rel_of_pairwise_cons htail.of_cons hpr
        have := hforward q hqmem
        omega
    omega

/-- A node that stands directly behind another, white space aside, begins its line exactly
if the other ends on an earlier line, provided a line is not blank where that one ends. -/
theorem beginsLine_behind {a b : Nat} (hab : a ≤ b) (hgap : Blank.Spaces (src.slice a b))
    (hfilled : src.row a = src.row b → ¬ src.BeginsLine a) :
    src.BeginsLine b ↔ src.row a < src.row b := by
  have hrow : src.row a ≤ src.row b := Source.row_mono hab
  rcases Nat.lt_or_eq_of_le hrow with hlt | heq
  · exact iff_of_true (Source.beginsLine_below hab hgap hlt) hlt
  · refine iff_of_false ?_ (by omega)
    rw [Source.beginsLine_beside hab hgap heq]
    exact hfilled heq

/-- Above a statement that begins its line the attached comments begin their line too,
exactly if each has its own. -/
theorem attachedStart_beginsLine {st : Statement} (h : WellSpaced src root)
    (hs : st ∈ root.statements) (hline : src.BeginsLine st.node.start) :
    src.BeginsLine (attachedStart src st.node st.above) ↔
      OwnLines src (attached src st.node st.above) st.above := by
  rw [attachedStart_eq, topmost]
  obtain ⟨rest, hsplit, hrun⟩ := @attached_run src st.node st.above
  generalize attached src st.node st.above = run at hsplit hrun ⊢
  rcases List.eq_nil_or_concat run with rfl | ⟨init, top, hconcat⟩
  · simpa [OwnLines] using hline
  rw [List.concat_eq_append] at hconcat
  subst hconcat
  have hlongest := hrun.longest
  rw [List.getLast?_concat, Option.getD_some] at hlongest ⊢
  rw [List.append_assoc, List.singleton_append] at hsplit
  obtain ⟨after, hchildren⟩ := Node.above_of_statement hs
  have hspaced := h.spaced
  have hord := h.nested.laid.inOrder
  rw [hchildren] at hspaced hord
  rw [hsplit, List.reverse_append, List.reverse_cons, List.append_assoc, List.append_assoc,
    List.singleton_append] at hspaced
  have hgap := hspaced.gap
  cases rest with
  | nil =>
    refine iff_of_true ?_ ?_
    · rw [Source.BeginsLine, Source.lineBefore]
      exact hgap.lastLine
    · intro d _ q hq hk
      rw [hsplit] at hq
      exact absurd (hrun.comments q hq) (by simp [hk])
  | cons q rest =>
    rw [hsplit] at hord ⊢
    have habove := List.pairwise_reverse.mp (List.pairwise_append.mp hord).1
    have hmem : ∀ n ∈ init ++ top :: q :: rest, n ∈ root.children :=
      fun n hn => Node.mem_children_of_above hs (hsplit ▸ hn)
    have hq : q ∈ root.children := hmem q (by simp)
    have hafter : q.stop ≤ top.start :=
      List.rel_of_pairwise_cons (List.pairwise_append.mp habove).2.1 List.mem_cons_self
    have hcomment : q.isComment = true → src.row q.stop < src.row top.start := by
      intro hk
      have hnot := hlongest q rfl
      simp [standsOn, hk] at hnot
      omega
    rw [ownLines_iff habove (fun n hn => (h.nested.child (hmem n hn)).laid.forward) hrun.comments hcomment]
    refine beginsLine_behind hafter hgap fun heq => h.filled q hq ?_
    cases hk : q.isComment with
    | true => exact absurd (hcomment hk) (by omega)
    | false => rfl

end Retyping

/-! ## The interface of a unit -/

namespace SourceUnit

open Retyping

/-- A missing interface is inserted above its component, at the top of the longest run of
comments directly above it. Where the component begins its line, so does the interface,
exactly if no comment of the run begins on a line on which another statement ends. A unit
that is to have an interface of its own has a component. -/
theorem interface_begins_line {u : SourceUnit} {t : Tree} (ht : u.tree = some t)
    (hte : t.hasError = false) (hw : WellSpaced u.source t.root) (table : AliasTable) (target : String)
    {s : Synthesis} (hs : s.placement = .inline) {name : String}
    (hname : missingInterface? u.source t.root s = some name) :
    let c := Classification.ofRoot u.source u.path t.root
    (s = Synthesis.ofProfile (u.profile table) .inline → c.found.isSome = true) ∧
    ∀ hit ∈ c.found,
      let st := hit.statement
      let place := attachedStart u.source st.node st.above
      let run := attached u.source st.node st.above
      Edit.insertion place (Synthesis.declaration name s.fields ++ "\n") ∈
          edits u.source table u.path target t.root c.kind c s ∧
        place = (run.getLast?.getD st.node).start ∧
        (∃ rest, st.above = run ++ rest ∧ Run u.source st.node run rest) ∧
        (u.source.BeginsLine st.node.start →
          (u.source.BeginsLine place ↔ OwnLines u.source run st.above)) := by
  intro c
  constructor
  · rintro rfl
    obtain ⟨-, hkind⟩ := interfaceName_eq ht hte (Option.filter_eq_some_iff.mp hname).1
    obtain ⟨hit, hfound⟩ : ∃ hit, c.found = some hit :=
      Classification.found_of_kind (by rcases hkind with hk | hk <;> simp [hk])
    rw [hfound]
    rfl
  · intro hit hfound
    have hst : hit.statement ∈ t.root.statements := (Classification.found_placed hfound).1
    refine ⟨?_, attachedStart_eq _ _, attached_run _ _, attachedStart_beginsLine hw hst⟩
    have hinterface : Edit.insertion (attachedStart u.source hit.statement.node hit.statement.above)
        (Synthesis.declaration name s.fields ++ "\n") ∈ interfaceEdits u.source t.root c s target := by
      have hplace : interfacePlace u.source t.root c =
          attachedStart u.source hit.statement.node hit.statement.above := by
        unfold interfacePlace
        rw [show c.found = some hit from hfound]
      unfold interfaceEdits
      rw [hname, hs, ← hplace]
      exact List.mem_append_right _ List.mem_cons_self
    rw [edits_eq]
    exact List.mem_append_right _ (List.mem_append_left _ hinterface)

def letAt (start : Nat) : Node :=
  ⟨"lexical_declaration", true, start, start + 6, "",
    [⟨"let", false, start, start + 3, "kind", []⟩,
     ⟨"variable_declarator", true, start + 4, start + 5, "",
      [⟨"identifier", true, start + 4, start + 5, "name", []⟩]⟩,
     ⟨";", false, start + 5, start + 6, "", []⟩]⟩

def introduced : SourceUnit where
  path := "components/A.jsx"
  language := .javascript
  source := .ofText "let x;\n// one\nconst A = p => <b/>;"
  tree := some ⟨⟨"program", true, 0, 34, "",
    [letAt 0, ⟨"comment", true, 7, 13, "", []⟩, arrowAt 14]⟩, false⟩

def trailed : SourceUnit where
  path := "components/A.jsx"
  language := .javascript
  source := .ofText "let x; // one\nconst A = p => <b/>;"
  tree := some ⟨⟨"program", true, 0, 34, "",
    [letAt 0, ⟨"comment", true, 7, 13, "", []⟩, arrowAt 14]⟩, false⟩

theorem introduced_begins_line : ∃ t ∈ introduced.tree, ∃ hit,
    (Classification.ofRoot introduced.source introduced.path t.root).found = some hit ∧
      introduced.source.BeginsLine
        (attachedStart introduced.source hit.statement.node hit.statement.above) := by
  obtain ⟨t, ht⟩ : ∃ t, introduced.tree = some t := ⟨_, rfl⟩
  have hte : t.hasError = false := by
    cases ht
    rfl
  have hw : WellSpaced introduced.source t.root := by
    cases ht
    decide +kernel
  have hmissing : missingInterface? introduced.source t.root
      (Synthesis.ofProfile (introduced.profile ⟨AliasTable.standard, []⟩) .inline) = some "AProps" := by
    cases ht
    decide +kernel
  obtain ⟨hsome, hbegins⟩ :=
    interface_begins_line ht hte hw ⟨AliasTable.standard, []⟩ "src/components/A.tsx" rfl hmissing
  obtain ⟨hit, hfound⟩ := Option.isSome_iff_exists.mp (hsome rfl)
  obtain ⟨-, -, -, hplace⟩ := hbegins hit hfound
  refine ⟨t, ht, hit, hfound, ?_⟩
  cases ht
  cases hfound
  exact (hplace (by decide +kernel)).mpr (by decide +kernel)

/-- The comment of the other statement is taken along, and the interface begins no line. -/
theorem trailed_begins_no_line : ∃ t ∈ trailed.tree, t.hasError = false ∧ WellSpaced trailed.source t.root ∧
    ∃ hit, (Classification.ofRoot trailed.source trailed.path t.root).found = some hit ∧
      trailed.source.BeginsLine hit.statement.node.start ∧
      ∃ e ∈ edits trailed.source ⟨AliasTable.standard, []⟩ trailed.path "src/components/A.tsx" t.root
        (trailed.profile ⟨AliasTable.standard, []⟩).kind
        (Classification.ofRoot trailed.source trailed.path t.root)
        (Synthesis.ofProfile (trailed.profile ⟨AliasTable.standard, []⟩) .inline),
        e.text = "interface AProps \x7b\n  [key: string]: unknown;\n\x7d\n\n" ∧ e.start = 7 ∧
          ¬ trailed.source.BeginsLine 7 := by
  refine ⟨_, rfl, rfl, by decide +kernel, _, rfl, ?_⟩
  decide +kernel

end SourceUnit

end Retype

import Mathlib.Data.List.Nodup
import Retype.Proofs.Corpus.Listing

/-!
# The drawing of the report, and the whole

The indented lines of a report draw one node for each profile, with an identifier of its own, and one
arrow for each time that a profile names another one as its dependency. With the tables this
is all that a report tells, and its text can be cut into these lines again.
-/

set_option autoImplicit false

namespace Retype.Report

variable {ps : List Profile} {cycles : List (List String)} {p q : Profile} {i j : Nat} {line : String}

/-! ## Reading the drawing -/

def nodeId (i : Nat) : String := "C" ++ toString i

/-- What an indented line begins with, up to the first character that no identifier has, and the rest. -/
def drawn? (line : String) : Option (String × String) :=
  (Affix.after? "  " line).map fun s =>
    (String.ofList (s.toList.takeWhile Char.isAlphanum), String.ofList (s.toList.dropWhile Char.isAlphanum))

def node? (line : String) : Option (String × String) :=
  (drawn? line).filter fun e => Affix.begins "[\"" e.2

def arrow? (line : String) : Option (String × String) :=
  (drawn? line).bind fun e => (Affix.after? " --> " e.2).map fun goal => (e.1, goal)

theorem nodeId_toList (i : Nat) : (nodeId i).toList = 'C' :: Nat.toDigits 10 i := by
  simp [nodeId]

theorem nodeId_injective : Function.Injective nodeId := by
  intro i j h
  have hdigits : Nat.toDigits 10 i = Nat.toDigits 10 j := by
    have h := congrArg String.toList h
    rw [nodeId_toList, nodeId_toList] at h
    exact (List.cons.inj h).2
  rw [← Nat.ofDigitChars_ten_toDigits (n := i), hdigits, Nat.ofDigitChars_ten_toDigits]

theorem drawn?_none (h : line.toList.head? ≠ some ' ') : drawn? line = none := by
  rw [drawn?, Option.map_eq_none_iff, ← Option.not_isSome_iff_eq_none]
  intro hsome
  obtain ⟨s, hs⟩ := Option.isSome_iff_exists.mp hsome
  rw [Affix.after?_eq_some.mp hs, String.toList_append] at h
  exact h rfl

theorem drawn?_nodeId (i : Nat) {s : String} (hs : ∀ c, s.toList.head? = some c → c.isAlphanum = false) :
    drawn? ("  " ++ nodeId i ++ s) = some (nodeId i, s) := by
  have hid : ∀ c ∈ (nodeId i).toList, c.isAlphanum = true := by
    rw [nodeId_toList]
    intro c hc
    rcases List.mem_cons.mp hc with rfl | hc
    · rfl
    · have hdigit := Nat.isDigit_of_mem_toDigits (by decide) (by decide) hc
      rw [Char.isAlphanum, hdigit, Bool.or_true]
  have hrest : s.toList.takeWhile Char.isAlphanum = [] ∧ s.toList.dropWhile Char.isAlphanum = s.toList := by
    cases hc : s.toList with
    | nil => exact ⟨rfl, rfl⟩
    | cons c cs =>
      have hc := hs c (by rw [hc]; rfl)
      exact ⟨List.takeWhile_cons_of_neg (by simp [hc]), List.dropWhile_cons_of_neg (by simp [hc])⟩
  rw [drawn?, String.append_assoc, Affix.after?_eq_some.mpr rfl, Option.map_some, String.toList_append,
    List.takeWhile_append_of_pos hid, List.dropWhile_append_of_pos hid, hrest.1, hrest.2, List.append_nil,
    String.ofList_toList, String.ofList_toList]

/-! ## The nodes and arrows of a report -/

theorem map_numbered {β : Type} (f : Profile → β) (ps : List Profile) :
    (ps.zipIdx.map fun e => f e.1) = ps.map f :=
  List.map_map.symm.trans (congrArg (List.map f) (List.zipIdx_map_fst 0 ps))

theorem nodes_eq (hd : (ps.map (·.path)).Nodup) : nodes ps = ps.zipIdx.map fun e => (e.1.path, nodeId e.2) := by
  have hkeys : Keyed.keys (ps.zipIdx.map fun e => (e.1.path, nodeId e.2)) = ps.map (·.path) := by
    rw [Keyed.keys, List.map_map]
    exact map_numbered (·.path) ps
  exact Keyed.ofList_eq (hkeys.symm ▸ hd)

theorem get?_nodes (hd : (ps.map (·.path)).Nodup) {path id : String} :
    Keyed.get? path (nodes ps) = some id ↔ ∃ i p, ps[i]? = some p ∧ p.path = path ∧ id = nodeId i := by
  have hkeys : (Keyed.keys (nodes ps)).Nodup := Keyed.nodup_keys_ofList _
  rw [Keyed.get?_eq_some_iff hkeys, nodes_eq hd, List.mem_map]
  constructor
  · rintro ⟨⟨p, i⟩, hmem, he⟩
    obtain ⟨rfl, rfl⟩ := Prod.mk.inj he
    exact ⟨i, p, List.mem_zipIdx_iff_getElem?.mp hmem, rfl, rfl⟩
  · rintro ⟨i, p, hp, rfl, rfl⟩
    exact ⟨(p, i), List.mem_zipIdx_iff_getElem?.mpr hp, rfl⟩

theorem nodeOf_nodes (hd : (ps.map (·.path)).Nodup) (hp : ps[i]? = some p) :
    nodeOf (nodes ps) p.path = nodeId i := by
  rw [nodeOf, (get?_nodes hd).mpr ⟨i, p, hp, rfl, rfl⟩, Option.getD_some]

theorem drawn?_nodeLine (hd : (ps.map (·.path)).Nodup) (hp : ps[i]? = some p) :
    drawn? (nodeLine (nodes ps) p) = some (nodeId i, "[\"" ++ label p ++ "\"]") := by
  have hline : nodeLine (nodes ps) p = "  " ++ nodeId i ++ ("[\"" ++ label p ++ "\"]") := by
    simp only [nodeLine, nodeOf_nodes hd hp, String.append_assoc]
  rw [hline]
  refine drawn?_nodeId i fun c hc => ?_
  rw [String.toList_append, String.toList_append] at hc
  cases hc
  rfl

theorem drawn?_arrow (i : Nat) (goal : String) :
    drawn? ("  " ++ nodeId i ++ " --> " ++ goal) = some (nodeId i, " --> " ++ goal) := by
  rw [String.append_assoc]
  refine drawn?_nodeId i fun c hc => ?_
  rw [String.toList_append] at hc
  cases hc
  rfl

theorem node?_nodeLine (hd : (ps.map (·.path)).Nodup) (hp : ps[i]? = some p) :
    node? (nodeLine (nodes ps) p) = some (nodeId i, "[\"" ++ label p ++ "\"]") := by
  have hbegins : Affix.begins "[\"" ("[\"" ++ label p ++ "\"]") = true :=
    Affix.begins_of_after? (Affix.after?_eq_some.mpr String.append_assoc)
  rw [node?, drawn?_nodeLine hd hp, Option.filter_some, hbegins]
  rfl

theorem arrow?_nodeLine (hd : (ps.map (·.path)).Nodup) (hp : ps[i]? = some p) :
    arrow? (nodeLine (nodes ps) p) = none := by
  have hafter : Affix.after? " --> " ("[\"" ++ label p ++ "\"]") = none := by
    rw [Affix.after?, String.toList_append, String.toList_append]
    rfl
  rw [arrow?, drawn?_nodeLine hd hp, Option.bind_some, hafter]
  rfl

theorem arrow?_arrow (i : Nat) (goal : String) :
    arrow? ("  " ++ nodeId i ++ " --> " ++ goal) = some (nodeId i, goal) := by
  rw [arrow?, drawn?_arrow, Option.bind_some, Affix.after?_eq_some.mpr rfl]
  rfl

theorem node?_arrow (i : Nat) (goal : String) : node? ("  " ++ nodeId i ++ " --> " ++ goal) = none := by
  have hbegins : Affix.begins "[\"" (" --> " ++ goal) = false := by
    rw [Affix.begins, String.toList_append]
    rfl
  rw [node?, drawn?_arrow, Option.filter_some, hbegins]
  rfl

theorem node?_none (h : drawn? line = none) : node? line = none := by rw [node?, h]; rfl

theorem arrow?_none (h : drawn? line = none) : arrow? line = none := by rw [arrow?, h]; rfl

/-- What is read off the report is read off the nodes and arrows, if it is read off drawn lines only. -/
theorem filterMap_lines {β : Type} {read : String → Option β} (h : ∀ line, drawn? line = none → read line = none)
    (ps : List Profile) (cycles : List (List String)) :
    (lines ps cycles).filterMap read = (ps.map (nodeLine (nodes ps))).filterMap read ++
      (ps.flatMap (arrowLines (nodes ps))).filterMap read := by
  have hnone : ∀ ls : List String, (∀ line ∈ ls, line.toList.head? ≠ some ' ') → ls.filterMap read = [] :=
    fun _ hls => List.filterMap_eq_nil_iff.mpr fun line hline => h line (drawn?_none (hls line hline))
  have hfront := hnone (front ps) fun line hline => (front_head hline).2
  have hchapters := hnone (Category.all.flatMap (chapter ps)) fun line hline =>
    have ⟨_, _, hline⟩ := List.mem_flatMap.mp hline
    chapter_head hline
  have hopening := hnone opening fun line hline => (frame_head (List.mem_append_left closing hline)).2
  have hclosing := hnone closing fun line hline => (frame_head (List.mem_append_right opening hline)).2
  have hcycles := hnone (cycleChapter (names ps) cycles) fun line hline => (cycleChapter_head hline).2
  rw [lines_eq, drawing_eq]
  simp only [List.filterMap_append, hfront, hchapters, hopening, hclosing, hcycles, List.nil_append, List.append_nil]

/-- The lines that draw nodes draw one for each profile, in order. -/
theorem nodes_read (hd : (ps.map (·.path)).Nodup) (cycles : List (List String)) :
    (lines ps cycles).filterMap node? = ps.zipIdx.map fun e => (nodeId e.2, "[\"" ++ label e.1 ++ "\"]") := by
  have harrows : (ps.flatMap (arrowLines (nodes ps))).filterMap node? = [] := by
    refine List.filterMap_eq_nil_iff.mpr fun line hline => ?_
    obtain ⟨p, hp, hline⟩ := List.mem_flatMap.mp hline
    obtain ⟨d, goal, -, -, rfl⟩ := mem_arrowLines hline
    obtain ⟨i, hi⟩ := List.mem_iff_getElem?.mp hp
    rw [nodeOf_nodes hd hi, node?_arrow]
  rw [filterMap_lines (fun _ => node?_none), harrows, List.append_nil, ← map_numbered, List.filterMap_map,
    ← List.filterMap_eq_map]
  exact List.filterMap_congr fun e he => node?_nodeLine hd (List.mem_zipIdx_iff_getElem?.mp he)

def arrowsFrom (ids : List (String × String)) (p : Profile) : List (String × String) :=
  p.dependencies.filterMap fun d => (Keyed.get? d ids).map fun goal => (nodeOf ids p.path, goal)

theorem arrows_read (hd : (ps.map (·.path)).Nodup) (cycles : List (List String)) :
    (lines ps cycles).filterMap arrow? = ps.flatMap (arrowsFrom (nodes ps)) := by
  have hnodes : (ps.map (nodeLine (nodes ps))).filterMap arrow? = [] := by
    refine List.filterMap_eq_nil_iff.mpr fun line hline => ?_
    obtain ⟨p, hp, rfl⟩ := List.mem_map.mp hline
    obtain ⟨i, hi⟩ := List.mem_iff_getElem?.mp hp
    exact arrow?_nodeLine hd hi
  rw [filterMap_lines (fun _ => arrow?_none), hnodes, List.nil_append, List.filterMap_flatMap]
  refine List.flatMap_congr fun p hp => ?_
  obtain ⟨i, hi⟩ := List.mem_iff_getElem?.mp hp
  rw [arrowLines, arrowsFrom, List.filterMap_filterMap, nodeOf_nodes hd hi]
  refine List.filterMap_congr fun d _ => ?_
  cases Keyed.get? d (nodes ps) with
  | none => rfl
  | some goal => exact arrow?_arrow i goal

theorem mem_arrowsFrom (hd : (ps.map (·.path)).Nodup) (hp : ps[i]? = some p) {e : String × String} :
    e ∈ arrowsFrom (nodes ps) p ↔ ∃ j q, ps[j]? = some q ∧ q.path ∈ p.dependencies ∧ e = (nodeId i, nodeId j) := by
  rw [arrowsFrom, nodeOf_nodes hd hp, List.mem_filterMap]
  constructor
  · rintro ⟨d, hmem, h⟩
    obtain ⟨goal, hgoal, rfl⟩ := Option.map_eq_some_iff.mp h
    obtain ⟨j, q, hq, rfl, rfl⟩ := (get?_nodes hd).mp hgoal
    exact ⟨j, q, hq, hmem, rfl⟩
  · rintro ⟨j, q, hq, hmem, rfl⟩
    exact ⟨q.path, hmem, by rw [(get?_nodes hd).mpr ⟨j, q, hq, rfl, rfl⟩, Option.map_some]⟩

theorem count_arrowsFrom (hd : (ps.map (·.path)).Nodup) (hp : ps[i]? = some p) (hq : ps[j]? = some q) :
    (arrowsFrom (nodes ps) p).count (nodeId i, nodeId j) = p.dependencies.count q.path := by
  have hgoal : ∀ d, (Keyed.get? d (nodes ps)) = some (nodeId j) ↔ d = q.path := by
    intro d
    rw [get?_nodes hd]
    constructor
    · rintro ⟨k, r, hr, rfl, hid⟩
      cases nodeId_injective hid
      rw [Option.some.inj (hr.symm.trans hq)]
    · rintro rfl
      exact ⟨j, q, hq, rfl, rfl⟩
  rw [arrowsFrom, nodeOf_nodes hd hp, List.count, List.countP_filterMap, List.count]
  refine List.countP_congr fun d _ => ?_
  rw [beq_iff_eq, ← hgoal d]
  cases Keyed.get? d (nodes ps) with
  | none => simp
  | some goal => simp

/-- If only one of some lists has an element, they have it together as often as that one does. -/
theorem count_flatMap_only {α β : Type} [BEq β] [LawfulBEq β] {f : α → List β} {xs : List α} {x : α} {b : β}
    (hxs : xs.Nodup) (hx : x ∈ xs) (h : ∀ y ∈ xs, b ∈ f y → y = x) : (xs.flatMap f).count b = (f x).count b := by
  obtain ⟨as, bs, rfl⟩ := List.append_of_mem hx
  have hsplit := List.nodup_append.mp hxs
  have hbs := (List.nodup_cons.mp hsplit.2.1).1
  have hbefore : (as.flatMap f).count b = 0 := by
    refine List.count_eq_zero_of_not_mem fun hmem => ?_
    obtain ⟨y, hy, hb⟩ := List.mem_flatMap.mp hmem
    exact hsplit.2.2 y hy x List.mem_cons_self (h y (List.mem_append_left _ hy) hb)
  have hafter : (bs.flatMap f).count b = 0 := by
    refine List.count_eq_zero_of_not_mem fun hmem => ?_
    obtain ⟨y, hy, hb⟩ := List.mem_flatMap.mp hmem
    exact hbs (h y (List.mem_append_right _ (List.mem_cons_of_mem x hy)) hb ▸ hy)
  rw [List.flatMap_append, List.flatMap_cons, List.count_append, List.count_append, hbefore, hafter, Nat.zero_add,
    Nat.add_zero]

theorem arrows_count (hd : (ps.map (·.path)).Nodup) (cycles : List (List String)) (hp : ps[i]? = some p)
    (hq : ps[j]? = some q) :
    ((lines ps cycles).filterMap arrow?).count (nodeId i, nodeId j) = p.dependencies.count q.path := by
  rw [arrows_read hd, ← count_arrowsFrom hd hp hq]
  refine count_flatMap_only hd.of_map (List.mem_of_getElem? hp) fun r hr hmem => ?_
  obtain ⟨k, hk⟩ := List.mem_iff_getElem?.mp hr
  obtain ⟨_, _, -, -, he⟩ := (mem_arrowsFrom hd hk).mp hmem
  cases nodeId_injective (Prod.mk.inj he).1
  exact Option.some.inj (hk.symm.trans hp)

theorem arrows_listed (hd : (ps.map (·.path)).Nodup) (cycles : List (List String)) {e : String × String}
    (he : e ∈ (lines ps cycles).filterMap arrow?) :
    ∃ i j p q, ps[i]? = some p ∧ ps[j]? = some q ∧ q.path ∈ p.dependencies ∧ e = (nodeId i, nodeId j) := by
  rw [arrows_read hd] at he
  obtain ⟨p, hp, he⟩ := List.mem_flatMap.mp he
  obtain ⟨i, hi⟩ := List.mem_iff_getElem?.mp hp
  obtain ⟨j, q, hq, hmem, rfl⟩ := (mem_arrowsFrom hd hi).mp he
  exact ⟨i, j, p, q, hi, hq, hmem, rfl⟩

/-! ## The text of a report -/

def OneLine (s : String) : Prop := '\n' ∉ s.toList

instance (s : String) : Decidable (OneLine s) := inferInstanceAs (Decidable ('\n' ∉ s.toList))

theorem OneLine.append {s t : String} (hs : OneLine s) (ht : OneLine t) : OneLine (s ++ t) := by
  rw [OneLine, String.toList_append, List.mem_append]
  exact not_or.mpr ⟨hs, ht⟩

theorem OneLine.joined {sep : String} {ss : List String} (hsep : OneLine sep) (hss : ∀ s ∈ ss, OneLine s) :
    OneLine (String.intercalate sep ss) := by
  induction ss with
  | nil => exact List.not_mem_nil
  | cons s ss ih =>
    have ih := ih fun t ht => hss t (List.mem_cons_of_mem s ht)
    have hs := hss s List.mem_cons_self
    cases ss with
    | nil => rwa [String.intercalate_singleton]
    | cons t ss =>
      rw [String.intercalate_cons_cons]
      exact (hs.append hsep).append ih

theorem OneLine.trim {s : String} (h : OneLine s) : OneLine (Blank.trim s) := by
  rw [OneLine, Blank.trim, String.toList_ofList]
  intro hmem
  have hmem := (List.dropWhile_sublist _).mem (List.mem_reverse.mp hmem)
  exact h ((List.dropWhile_sublist _).mem (List.mem_reverse.mp hmem))

theorem OneLine.exchange {s : String} {old new : Char} (h : OneLine s) (hnew : new ≠ '\n') :
    OneLine (Affix.exchange old new s) := by
  rw [OneLine, Affix.exchange, String.toList_ofList, List.mem_map]
  rintro ⟨c, hc, he⟩
  split at he
  · exact hnew he
  · exact h (he ▸ hc)

/-- No name and no path that the report writes has a line feed. -/
structure Flat (ps : List Profile) (cycles : List (List String)) : Prop where
  name : ∀ p ∈ ps, OneLine p.name
  path : ∀ p ∈ ps, ∀ d ∈ p.dependencies ++ p.dependents, OneLine d
  cycle : ∀ c ∈ cycles, ∀ d ∈ c, OneLine d

namespace Flat

theorem nameOf (h : Flat ps cycles) {d : String} (hd : OneLine d) : OneLine (nameOf (names ps) d) := by
  rw [Report.nameOf]
  cases hget : Keyed.get? d (names ps) with
  | none => exact hd
  | some n =>
    obtain ⟨p, hp, he⟩ := List.mem_map.mp (Keyed.mem_of_ofList (Keyed.get?_of_mem hget))
    obtain ⟨-, rfl⟩ := Prod.mk.inj he
    exact h.name p hp

theorem listed (h : Flat ps cycles) {ds : List String} (hds : ∀ d ∈ ds, OneLine d) :
    OneLine (listed (names ps) ds) := by
  rw [Report.listed]
  split
  · decide
  · exact OneLine.joined (by decide) (List.forall_mem_map.mpr fun d hd => h.nameOf (hds d hd))

theorem row (h : Flat ps cycles) (hp : p ∈ ps) : OneLine (row (names ps) p) := by
  have hpath := List.forall_mem_append.mp (h.path p hp)
  have hpriority : OneLine ((p.priority.map (·.text)).getD "-") := by
    rcases p.priority with - | (_ | _ | _ | _ | _) <;> decide
  exact ((((((((by decide : OneLine "| ").append (h.name p hp)).append (by decide)).append
    (h.listed hpath.1)).append (by decide)).append (h.listed hpath.2)).append (by decide)).append hpriority).append
    (by decide)

theorem chapter (h : Flat ps cycles) {c : Category} (hline : line ∈ chapter ps c) : OneLine line := by
  rcases mem_chapter hline with hline | ⟨p, hp, rfl⟩
  · have hfixed : ∀ line ∈ chapterLines c, OneLine line := by cases c <;> decide
    exact hfixed line hline
  · exact h.row hp

theorem label (h : Flat ps cycles) (hp : p ∈ ps) : OneLine (label p) := by
  have hmarker : OneLine ((p.priority.map (·.marker)).getD "") := by
    rcases p.priority with - | (_ | _ | _ | _ | _) <;> decide
  exact ((hmarker.append (by decide : OneLine " ")).append (h.name p hp)).trim.exchange (by decide)

theorem oneLine_number (n : Nat) : OneLine (toString n) :=
  fun hmem => absurd (isDigit_of_mem hmem) (by decide)

theorem oneLine_nodeId (i : Nat) : OneLine (nodeId i) :=
  (by decide : OneLine "C").append (oneLine_number i)

theorem drawing (h : Flat ps cycles) (hd : (ps.map (·.path)).Nodup) (hline : line ∈ drawing ps) : OneLine line := by
  rcases mem_drawing hline with hline | ⟨p, hp, rfl⟩ | ⟨p, hp, hline⟩
  · have hfixed : ∀ line ∈ opening ++ closing, OneLine line := by decide
    exact hfixed line hline
  · obtain ⟨i, hi⟩ := List.mem_iff_getElem?.mp hp
    rw [nodeLine, nodeOf_nodes hd hi]
    exact ((((by decide : OneLine "  ").append (oneLine_nodeId i)).append (by decide)).append (h.label hp)).append
      (by decide)
  · obtain ⟨i, hi⟩ := List.mem_iff_getElem?.mp hp
    obtain ⟨d, goal, -, hgoal, rfl⟩ := mem_arrowLines hline
    obtain ⟨j, _, -, -, rfl⟩ := (get?_nodes hd).mp hgoal
    rw [nodeOf_nodes hd hi]
    exact (((by decide : OneLine "  ").append (oneLine_nodeId i)).append (by decide)).append (oneLine_nodeId j)

theorem cycleChapter (h : Flat ps cycles) (hline : line ∈ cycleChapter (names ps) cycles) : OneLine line := by
  rcases mem_cycleChapter hline with hline | ⟨c, hc, rfl⟩
  · have hfixed : ∀ line ∈ ["## Import Cycles", ""], OneLine line := by decide
    exact hfixed line hline
  · have hnames : ∀ name ∈ c.map (Report.nameOf (names ps)), OneLine name :=
      List.forall_mem_map.mpr fun d hd => h.nameOf (h.cycle c hc d hd)
    exact (by decide : OneLine "- ").append (OneLine.joined (by decide) hnames)

theorem front (hline : line ∈ front ps) : OneLine line := by
  simp only [Report.front, List.mem_cons, List.not_mem_nil, or_false] at hline
  rcases hline with rfl | rfl | rfl | rfl
  · decide
  · decide
  · exact (oneLine_number ps.length).append (by decide)
  · decide

theorem lines (h : Flat ps cycles) (hd : (ps.map (·.path)).Nodup) (hline : line ∈ lines ps cycles) :
    OneLine line := by
  rw [lines_eq] at hline
  rcases List.mem_append.mp hline with hline | hline
  · exact front hline
  rcases List.mem_append.mp hline with hline | hline
  · obtain ⟨c, -, hline⟩ := List.mem_flatMap.mp hline
    exact h.chapter hline
  rcases List.mem_append.mp hline with hline | hline
  · exact h.drawing hd hline
  · exact h.cycleChapter hline

end Flat

theorem text_split (hd : (ps.map (·.path)).Nodup) (h : Flat ps cycles) :
    (text ps cycles).toList.splitOn '\n' = (lines ps cycles).map String.toList := by
  have hfeed : "\n".toList = ['\n'] := rfl
  rw [text, String.toList_intercalate, hfeed]
  refine List.splitOn_intercalate '\n' (List.forall_mem_map.mpr fun line hline => h.lines hd hline) ?_
  rw [lines_eq]
  exact List.cons_ne_nil _ _

/-! ## The whole report -/

/-- Lines that tell of each profile what there is to tell, and nothing else. -/
structure Tells (ls : List String) (ps : List Profile) : Prop where
  rows : (rowsUnder "" "" ls).Perm (ps.map (listing (names ps)))
  nodes : ls.filterMap node? = ps.zipIdx.map fun e => (nodeId e.2, "[\"" ++ label e.1 ++ "\"]")
  apart : ((ls.filterMap node?).map Prod.fst).Nodup
  arrows : ∀ {i j : Nat} {p q : Profile}, ps[i]? = some p → ps[j]? = some q →
    (ls.filterMap arrow?).count (nodeId i, nodeId j) = p.dependencies.count q.path
  listed : ∀ e ∈ ls.filterMap arrow?, ∃ i j p q, ps[i]? = some p ∧ ps[j]? = some q ∧
    q.path ∈ p.dependencies ∧ e = (nodeId i, nodeId j)

theorem nodes_apart (hd : (ps.map (·.path)).Nodup) (cycles : List (List String)) :
    (((lines ps cycles).filterMap node?).map Prod.fst).Nodup := by
  have hids : (ps.zipIdx.map fun e => nodeId e.2) = (List.range' 0 ps.length).map nodeId := by
    rw [← List.zipIdx_map_snd, List.map_map]
    rfl
  rw [nodes_read hd, List.map_map]
  exact hids ▸ (List.nodup_range' ).map nodeId_injective

/-- A report on files of different paths is complete: each has one row under its category and tier and one
node of its own, and each time that one names another there is one arrow between their nodes. The lines
are those that the report is put together from. They are those of its text, unless a line feed in a name
or a path makes more of them. -/
theorem tells_all (hd : (ps.map (·.path)).Nodup) (cycles : List (List String)) :
    Tells (lines ps cycles) ps ∧
      (Flat ps cycles → (text ps cycles).toList.splitOn '\n' = (lines ps cycles).map String.toList) :=
  ⟨⟨rows_perm ps cycles, nodes_read hd cycles, nodes_apart hd cycles, arrows_count hd cycles,
    fun _ => arrows_listed hd cycles⟩, text_split hd⟩

/-- Two buttons of one name, and a page that names one of them twice, and a file that is not listed. -/
def namesakes : List Profile :=
  [{ path := "a/Button.jsx", name := "Button", kind := .functionComponent, category := .ui, dependencies := ["b/Button.jsx"],
     dependents := ["Home.jsx"], priority := some .highest },
   { path := "Home.jsx", name := "Home", kind := .functionComponent, category := .page,
     dependencies := ["a/Button.jsx", "lost.jsx", "a/Button.jsx"] },
   { path := "b/Button.jsx", name := "Button", kind := .functionComponent, category := .ui, dependents := ["a/Button.jsx"] }]

theorem namesakes_told : (namesakes.map (·.path)).Nodup ∧ Tells (lines namesakes []) namesakes ∧
    ((text namesakes []).toList.splitOn '\n' = (lines namesakes []).map String.toList) := by
  have hd : (namesakes.map (·.path)).Nodup := by decide
  obtain ⟨htells, htext⟩ := tells_all hd []
  exact ⟨hd, htells, htext ⟨by decide, by decide, by decide⟩⟩

example : namesakes.flatMap (arrowsFrom (nodes namesakes)) = [("C0", "C2"), ("C1", "C0"), ("C1", "C0")] := by
  decide

end Retype.Report

import Retype.Proofs.Component.Spared
import Retype.Proofs.Keyed
import Retype.Proofs.Retyping.Binding

/-!
# Whose props a component has

A component that owns no object about its props gets the only one there is. So what is
assigned to another component matters in one way only: it may be that one object, or take
its place from being the only one. Where neither happens, the props are the component's own.
-/

set_option autoImplicit false

namespace Retype

namespace Property

open List (Forall₂)

/-! ## The object of an owner -/

def others (owner : String) (objects : List (String × Node)) : List (String × Node) :=
  objects.filter fun e => e.1 != owner

def only? : List (String × Node) → Option Node
  | [e] => some e.2
  | _ => none

/-- The only object among what one owner has and what the others have. -/
def lent? : Option Node → List (String × Node) → Option Node
  | own, [] => own
  | none, [e] => some e.2
  | _, _ => none

variable {owner other : String} {objects objects' : List (String × Node)}

theorem ownedObject?_eq (owner : String) (objects : List (String × Node)) :
    ownedObject? owner objects = (Keyed.get? owner objects).or (only? objects) := by
  unfold ownedObject?
  cases Keyed.get? owner objects with
  | some n => rfl
  | none => rcases objects with - | ⟨e, - | ⟨f, rest⟩⟩ <;> rfl

theorem others_of_missing (h : Keyed.get? other objects = none) : others other objects = objects := by
  refine List.filter_eq_self.mpr fun e he => ?_
  have hkey : other ∉ Keyed.keys objects := by
    rw [← Keyed.has_iff, Keyed.has, h]
    decide
  exact bne_iff_ne.mpr fun heq => hkey (heq ▸ List.mem_map_of_mem he)

theorem length_of_present {n : Node} (hn : (Keyed.keys objects).Nodup)
    (h : Keyed.get? other objects = some n) : objects.length = 1 + (others other objects).length := by
  have hone := congrArg List.length (Keyed.filter_key hn other)
  rw [h, List.length_map] at hone
  rw [List.length_eq_length_filter_add (fun e : String × Node => e.1 == other), hone]
  rfl

theorem only?_eq (hn : (Keyed.keys objects).Nodup) (other : String) :
    only? objects = lent? (Keyed.get? other objects) (others other objects) := by
  cases h : Keyed.get? other objects with
  | none =>
    rw [others_of_missing h]
    rcases objects with - | ⟨e, - | ⟨f, rest⟩⟩ <;> rfl
  | some n =>
    have hlength := length_of_present hn h
    rcases hrest : others other objects with - | ⟨f, rest⟩
    · rw [hrest] at hlength
      obtain ⟨e, rfl⟩ := List.length_eq_one_iff.mp hlength
      obtain rfl := List.mem_singleton.mp (Keyed.get?_of_mem h)
      rfl
    · rw [hrest] at hlength
      rcases objects with - | ⟨e, - | ⟨e', es⟩⟩
      · cases h
      · simp at hlength
      · cases rest <;> rfl

theorem ownedObject?_eq_lent? (hn : (Keyed.keys objects).Nodup) (hne : owner ≠ other) :
    ownedObject? owner objects = (Keyed.get? owner (others other objects)).or
      (lent? (Keyed.get? other objects) (others other objects)) := by
  have hown : Keyed.get? owner (others other objects) = Keyed.get? owner objects := by
    rw [others, Keyed.get?_filter fun k => k != other, if_pos (bne_iff_ne.mpr hne)]
  rw [ownedObject?_eq, only?_eq hn other, hown]

/-! ## Two tables -/

variable {src src' : Source}

/-- What keeps the object of one owner from depending on what another has: an object of its
own, two further owners, one further owner beside whom the other has an object in both tables
or in neither, or no further owner and objects of the other that read alike. -/
inductive Unlent (src src' : Source) (owner other : String) (objects objects' : List (String × Node)) : Prop
  | own (h : owner ∈ Keyed.keys (others other objects))
  | several (h : 2 ≤ (others other objects).length)
  | single (h : (others other objects).length = 1)
      (hb : other ∈ Keyed.keys objects ↔ other ∈ Keyed.keys objects')
  | alone (h : others other objects = [])
      (hb : Option.Rel (Node.Like src src') (Keyed.get? other objects) (Keyed.get? other objects'))

theorem mem_keys_iff : other ∈ Keyed.keys objects ↔ (Keyed.get? other objects).isSome = true :=
  Keyed.has_iff.symm

theorem Unlent.of_empty (h : others other objects = []) (hb : other ∉ Keyed.keys objects)
    (hb' : other ∉ Keyed.keys objects') : Unlent src src' owner other objects objects' := by
  rw [mem_keys_iff, Option.not_isSome_iff_eq_none] at hb hb'
  refine .alone h ?_
  rw [hb, hb']
  exact .none

theorem lent?_several {own : Option Node} (h : 2 ≤ objects.length) : lent? own objects = none := by
  rcases objects with - | ⟨e, - | ⟨f, rest⟩⟩
  · cases h
  · exact absurd h (by simp)
  · cases own <;> rfl

theorem lent?_single (own : Option Node) (e : String × Node) :
    lent? own [e] = if own.isSome then none else some e.2 := by
  cases own <;> rfl

/-- What is lent to an owner without an object reads alike exactly if one of the last three
conditions holds. -/
theorem like_lent_iff (hr : Forall₂ (Alike.Entry (Node.Like src src')) (others other objects) (others other objects'))
    (hmissing : Keyed.get? owner (others other objects) = none) :
    Option.Rel (Node.Like src src') (lent? (Keyed.get? other objects) (others other objects))
        (lent? (Keyed.get? other objects') (others other objects')) ↔
      Unlent src src' owner other objects objects' := by
  constructor
  · intro h
    -- by the number of further owners, which is the same in both tables
    rcases hos : others other objects with - | ⟨e, - | ⟨f, rest⟩⟩
    · rw [hos] at hr h
      rw [List.forall₂_nil_left_iff.mp hr] at h
      exact .alone hos h
    · rw [hos] at hr h
      obtain ⟨e', es', -, hes, hos'⟩ := List.forall₂_cons_left_iff.mp hr
      have hsome := Alike.isSome_eq h
      rw [hos', List.forall₂_nil_left_iff.mp hes, lent?_single, lent?_single] at hsome
      refine .single (by rw [hos]; rfl) ?_
      rw [mem_keys_iff, mem_keys_iff]
      revert hsome
      cases Keyed.get? other objects <;> cases Keyed.get? other objects' <;> simp
    · exact .several (by rw [hos]; simp)
  · intro h
    cases h with
    | own h =>
      rw [mem_keys_iff, hmissing] at h
      cases h
    | several h =>
      rw [lent?_several h, lent?_several (hr.length_eq ▸ h)]
      exact .none
    | single h hb =>
      obtain ⟨e, hos⟩ := List.length_eq_one_iff.mp h
      rw [hos] at hr ⊢
      obtain ⟨e', es', he, hes, hos'⟩ := List.forall₂_cons_left_iff.mp hr
      rw [mem_keys_iff, mem_keys_iff] at hb
      rw [hos', List.forall₂_nil_left_iff.mp hes, lent?_single, lent?_single, Bool.eq_iff_iff.mpr hb]
      split
      · exact .none
      · exact .some he.value
    | alone h hb =>
      rw [h] at hr ⊢
      rw [List.forall₂_nil_left_iff.mp hr]
      exact hb

/-- In two tables that agree but for what `other` has, an owner has objects that read alike
exactly if none of them is lent for what `other` has. -/
theorem like_ownedObject?_iff (hn : (Keyed.keys objects).Nodup) (hn' : (Keyed.keys objects').Nodup)
    (hne : owner ≠ other)
    (hr : Forall₂ (Alike.Entry (Node.Like src src')) (others other objects) (others other objects')) :
    Option.Rel (Node.Like src src') (ownedObject? owner objects) (ownedObject? owner objects') ↔
      Unlent src src' owner other objects objects' := by
  have hown := Alike.get? hr owner
  rw [ownedObject?_eq_lent? hn hne, ownedObject?_eq_lent? hn' hne]
  cases hx : Keyed.get? owner (others other objects) <;>
    cases hx' : Keyed.get? owner (others other objects') <;> rw [hx, hx'] at hown <;> cases hown
  · rw [Option.none_or, Option.none_or]
    exact like_lent_iff hr hx
  · next hlike =>
    rw [Option.some_or, Option.some_or]
    exact iff_of_true (.some hlike) (.own (mem_keys_iff.mpr (by rw [hx]; rfl)))

/-! ## The tables of two modules -/

variable {root root' : Node}

def assignments (src : Source) (key : String) (root : Node) : List (String × Node) :=
  root.namedChildren.filterMap (assignedObject? src key) ++
    root.walk.flatMap fun n => if n.isClass then staticObjects src key n else []

theorem ownedObjects_eq (key : String) (root : Node) :
    ownedObjects src key root = Keyed.ofList (assignments src key root) := by
  rw [ownedObjects, assignments, Alike.filter_flatMap_eq]

def members? (n : Node) : Option Node :=
  if n.kind == "interface_declaration" then n.child? "body"
  else (n.child? "value").filter fun v => v.kind == "object_type"

theorem interfaceBody?_eq (wanted : String) (root : Node) :
    interfaceBody? src wanted root = (root.walk.find? (isTypeOf src wanted)).bind members? := by
  unfold interfaceBody?
  split
  next h => exact (congrArg (·.bind members?) h).symm
  next n h => exact (congrArg (·.bind members?) h).symm

theorem like_members? {n n' : Node} (h : Node.Like src src' n n') :
    Option.Rel (Node.Like src src') (members? n) (members? n') := by
  rw [members?, members?, h.kind]
  split
  · exact h.child? "body"
  · exact Alike.optionFilter (h.child? "value") fun _ _ hv => by rw [hv.kind]

namespace Spared

theorem assigned_eq (src : Source) (key other : String) (root : Node) :
    (root.namedChildren.filterMap (assignedObject? src key)).filter (fun e => e.1 != other) =
      ((root.children.filter fun s => !gives src other s).filter (·.named)).filterMap fun s =>
        (assignedObject? src key s).filter fun e => e.1 != other := by
  rw [List.filter_filterMap, List.filter_comm]
  refine (Alike.filterMap_filter fun s _ hg => ?_).symm
  rw [Option.filter_eq_none_iff]
  intro e he
  rw [owner_of_gives (by simpa using hg) he]
  simp

theorem like_assignments (h : Spared src src' owner other root root') {key : String} (hkey : key ∈ ownedKeys) :
    Forall₂ (Alike.Entry (Node.Like src src')) (others other (assignments src key root))
      (others other (assignments src' key root')) := by
  rw [others, others, assignments, assignments, List.filter_append, List.filter_append,
    assigned_eq, assigned_eq]
  refine List.rel_append ?_ ?_
  · exact Alike.filterMap (Alike.filter h.rest fun _ _ hs => hs.named) fun s s' hs =>
      Alike.optionFilter (like_assignedObject? key hs) fun _ _ he => by rw [he.name]
  · refine Alike.filter (h.walk_flatMap ?_ ?_ ?_ ?_ ?_) fun _ _ he => by rw [he.name]
    · intro n n' hn
      rw [hn.isClass]
      split
      · exact like_staticObjects key hn
      · exact .nil
    · rw [if_neg (by simp [Node.isClass, h.top])]
    · rw [if_neg (by simp [Node.isClass, h.top'])]
    · intro n hn
      split
      · exact hn.noObject ‹_› key hkey
      · rfl
    · intro n hn
      split
      · exact hn.noObject ‹_› key hkey
      · rfl

theorem others_ownedObjects (h : Spared src src' owner other root root') {key : String}
    (hkey : key ∈ ownedKeys) :
    Forall₂ (Alike.Entry (Node.Like src src')) (others other (ownedObjects src key root))
      (others other (ownedObjects src' key root')) := by
  rw [ownedObjects_eq, ownedObjects_eq, others, others, Keyed.filter_ofList fun k => k != other,
    Keyed.filter_ofList fun k => k != other]
  exact Alike.ofList (h.like_assignments hkey)

/-- An owner has objects that read alike in both modules exactly if none is lent for what is
assigned to the other. -/
theorem like_owned_iff (h : Spared src src' owner other root root') (hne : owner ≠ other) {key : String}
    (hkey : key ∈ ownedKeys) :
    Option.Rel (Node.Like src src') (ownedObject? owner (ownedObjects src key root))
        (ownedObject? owner (ownedObjects src' key root')) ↔
      Unlent src src' owner other (ownedObjects src key root) (ownedObjects src' key root') :=
  like_ownedObject?_iff (Keyed.nodup_keys_ofList _) (Keyed.nodup_keys_ofList _) hne
    (h.others_ownedObjects hkey)

/-! ## Props -/

theorem interfaceBody (h : Spared src src' owner other root root') :
    Option.Rel (Node.Like src src') (interfaceBody? src (owner ++ "Props") root)
      (interfaceBody? src' (owner ++ "Props") root') := by
  have htype : Option.Rel (Node.Like src src') (root.walk.find? (isTypeOf src (owner ++ "Props")))
      (root'.walk.find? (isTypeOf src' (owner ++ "Props"))) := by
    rw [Alike.find?_eq_flatMap, Alike.find?_eq_flatMap]
    refine Alike.head? (h.walk_flatMap ?_ ?_ ?_ ?_ ?_)
    · intro n n' hn
      rw [isTypeOf, isTypeOf, hn.kind, hn.childText]
      split
      · exact .cons hn .nil
      · exact .nil
    · rw [if_neg (by simp [isTypeOf, h.top])]
    · rw [if_neg (by simp [isTypeOf, h.top'])]
    · exact fun n hn => by rw [hn.noInterface, if_neg (by decide)]
    · exact fun n hn => by rw [hn.noInterface, if_neg (by decide)]
  rw [interfaceBody?_eq, interfaceBody?_eq]
  exact Alike.bind htype fun _ _ => like_members?

theorem interfaceProps (h : Spared src src' owner other root root') :
    Property.interfaceProps src root owner = Property.interfaceProps src' root' owner := by
  have hbody := h.interfaceBody
  unfold Property.interfaceProps
  generalize interfaceBody? src (owner ++ "Props") root = a at hbody ⊢
  generalize interfaceBody? src' (owner ++ "Props") root' = b at hbody ⊢
  cases hbody with
  | none => rfl
  | some hr =>
    refine Alike.map_eq (Alike.filter hr.namedChildren fun _ _ hm => by rw [hm.kind]) fun m m' hm => ?_
    rw [Node.Like.keyOf (hm.child? "name"), hm.hasToken, like_declaredText (hm.child? "type")]

end Spared

theorem legacyProps_eq (h : Option.Rel (Node.Like src src') (ownedObject? owner (ownedObjects src "propTypes" root))
      (ownedObject? owner (ownedObjects src' "propTypes" root'))) :
    legacyProps src root owner = legacyProps src' root' owner := by
  unfold legacyProps
  generalize ownedObject? owner (ownedObjects src "propTypes" root) = a at h ⊢
  generalize ownedObject? owner (ownedObjects src' "propTypes" root') = b at h ⊢
  cases h with
  | none => rfl
  | some hr => exact Alike.map_eq (like_objectPairs hr) fun _ _ => like_ofLegacyPair

theorem like_defaults (h : Option.Rel (Node.Like src src')
      (ownedObject? owner (ownedObjects src "defaultProps" root))
      (ownedObject? owner (ownedObjects src' "defaultProps" root'))) :
    Forall₂ (Alike.Entry (Option.Rel (Node.Like src src'))) (defaults src root owner)
      (defaults src' root' owner) := by
  unfold defaults
  generalize ownedObject? owner (ownedObjects src "defaultProps" root) = a at h ⊢
  generalize ownedObject? owner (ownedObjects src' "defaultProps" root') = b at h ⊢
  cases h with
  | none => exact .nil
  | some hr =>
    refine Alike.ofList ?_
    rw [List.forall₂_map_left_iff, List.forall₂_map_right_iff]
    exact (like_objectPairs hr).imp fun p p' hp => ⟨Node.Like.keyOf (hp.child? "key"), hp.child? "value"⟩

/-- The props of a component, by its declared name. -/
theorem ofModule_eq {path : String} {hit : Match}
    (hk : (Classification.ofRoot src path root).kind = .functionComponent ∨
      (Classification.ofRoot src path root).kind = .classComponent)
    (hfound : (Classification.ofRoot src path root).found = some hit) (hname : hit.name = some owner)
    (hne : owner.isEmpty = false) :
    ofModule src root (Classification.ofRoot src path root) =
      merge src (legacyProps src root owner ++ Property.interfaceProps src root owner)
        (if (Classification.ofRoot src path root).kind = .functionComponent then ofFunction src hit.node
          else ofClass src hit.node) (defaults src root owner) := by
  have howner : ((Classification.ofRoot src path root).declared.bind nonEmpty).getD
      (Classification.ofRoot src path root).name = owner := by
    rw [Classification.declared, hfound, Option.bind_some, hname, Option.bind_some, nonEmpty, hne]
    rfl
  simp only [ofModule, hfound, if_pos hk, howner]

/-- A component whose objects read alike in both modules has the same props. -/
theorem ofModule_spared {path path' : String} (h : Spared src src' owner other root root')
    (hk : (Classification.ofRoot src path root).kind = .functionComponent ∨
      (Classification.ofRoot src path root).kind = .classComponent)
    (hd : (Classification.ofRoot src path root).declared = some owner) (hne : owner.isEmpty = false)
    (hobjects : ∀ key ∈ ownedKeys, Option.Rel (Node.Like src src')
      (ownedObject? owner (ownedObjects src key root)) (ownedObject? owner (ownedObjects src' key root'))) :
    ofModule src' root' (Classification.ofRoot src' path' root') =
      ofModule src root (Classification.ofRoot src path root) := by
  obtain ⟨hkind, hit, hit', hfound, hfound', hlike⟩ := Classification.found_spared h path' hk
  have hname : hit.name = some owner := by
    rw [Classification.declared, hfound] at hd
    exact hd
  have hdeclared : legacyProps src root owner ++ Property.interfaceProps src root owner =
      legacyProps src' root' owner ++ Property.interfaceProps src' root' owner :=
    congrArg₂ _ (legacyProps_eq (hobjects "propTypes" (by decide))) h.interfaceProps
  rw [ofModule_eq hk hfound hname hne, ofModule_eq (hkind ▸ hk) hfound' (hlike.name ▸ hname) hne, hkind,
    hdeclared, like_merge _ _ (like_defaults (hobjects "defaultProps" (by decide))),
    like_ofFunction hlike.node, like_ofClass hlike.node]

theorem ofModule_of_other {path : String} (hk : ¬ ((Classification.ofRoot src path root).kind = .functionComponent ∨
      (Classification.ofRoot src path root).kind = .classComponent)) :
    ofModule src root (Classification.ofRoot src path root) = [] := by
  unfold ofModule
  split
  · rfl
  · rw [if_neg hk]

end Property

namespace SourceUnit

open Property Classification

variable {u v : SourceUnit} {t t' : Tree} {owner other : String}

theorem profile_props (hu : u.tree = some t) (table : AliasTable) :
    (u.profile table).props = (ofModule u.source t.root (ofUnit u)).map Property.withType := by
  simp only [profile, inventoryProfile, root?, hu, Option.map_some, Inventory.ofRoot]

theorem interfaceText_congr {p q : Profile} (hk : p.kind = q.kind) (hname : p.name = q.name)
    (hprops : p.props = q.props) (placement : Placement) :
    (Synthesis.ofProfile p placement).interfaceText = (Synthesis.ofProfile q placement).interfaceText := by
  have hsame : Synthesis.hasInterface p = Synthesis.hasInterface q := by
    rw [Synthesis.hasInterface, Synthesis.hasInterface, hk, hprops]
  simp only [Synthesis.ofProfile, Synthesis.interfaceText, hsame, hname, hprops]

theorem interfaceText_of_other {p : Profile} (hk : ¬ (p.kind = .functionComponent ∨ p.kind = .classComponent))
    (placement : Placement) : (Synthesis.ofProfile p placement).interfaceText = none := by
  have hnone : Synthesis.hasInterface p = false := by
    simpa [Synthesis.hasInterface] using fun h => absurd h hk
  simp only [Synthesis.ofProfile, Synthesis.interfaceText, hnone]
  rfl

/-- Two modules differ in what is assigned to one owner, and one of them declares what it is
classified as under another name. If that is a component, the other module is found to be the
same component. The component has objects that read alike exactly if none is lent, and then it
has the same props and the same interface. -/
theorem props_unlent (hu : u.tree = some t) (hv : v.tree = some t') (ht : t.hasError = false)
    (ht' : t'.hasError = false) (hne : owner ≠ other)
    (hs : Spared u.source v.source owner other t.root t'.root)
    (hd : (ofUnit u).declared = some owner) (hnamed : owner.isEmpty = false) (table : AliasTable)
    (placement : Placement) :
    ((ofUnit u).kind = .functionComponent ∨ (ofUnit u).kind = .classComponent →
      (ofUnit v).kind = (ofUnit u).kind ∧ (ofUnit v).declared = some owner ∧
        (ofUnit v).name = (ofUnit u).name) ∧
    (∀ key ∈ ownedKeys,
      (Option.Rel (Node.Like u.source v.source) (ownedObject? owner (ownedObjects u.source key t.root))
          (ownedObject? owner (ownedObjects v.source key t'.root)) ↔
        Unlent u.source v.source owner other (ownedObjects u.source key t.root)
          (ownedObjects v.source key t'.root))) ∧
    ((∀ key ∈ ownedKeys, Unlent u.source v.source owner other (ownedObjects u.source key t.root)
        (ownedObjects v.source key t'.root)) →
      ofModule v.source t'.root (ofUnit v) = ofModule u.source t.root (ofUnit u) ∧
      (Synthesis.ofProfile (v.profile table) placement).interfaceText =
        (Synthesis.ofProfile (u.profile table) placement).interfaceText) := by
  have hclass : ofUnit u = ofRoot u.source u.path t.root := classification_of_tree hu ht
  have hclass' : ofUnit v = ofRoot v.source v.path t'.root := classification_of_tree hv ht'
  have hiff := fun key (hkey : key ∈ ownedKeys) => hs.like_owned_iff hne hkey
  have hsame : (ofUnit u).kind = .functionComponent ∨ (ofUnit u).kind = .classComponent →
      (ofUnit v).kind = (ofUnit u).kind ∧ (ofUnit v).declared = some owner ∧
        (ofUnit v).name = (ofUnit u).name := by
    intro hk
    rw [hclass] at hk hd ⊢
    rw [hclass']
    exact ⟨(found_spared hs v.path hk).1, name_spared hs v.path hk hd⟩
  refine ⟨hsame, hiff, fun hall => ?_⟩
  by_cases hk : (ofUnit u).kind = .functionComponent ∨ (ofUnit u).kind = .classComponent
  · obtain ⟨hkind, -, hname⟩ := hsame hk
    have hprops : ofModule v.source t'.root (ofUnit v) = ofModule u.source t.root (ofUnit u) := by
      rw [hclass] at hk hd ⊢
      rw [hclass']
      exact ofModule_spared hs hk hd hnamed fun key hkey => (hiff key hkey).mpr (hall key hkey)
    refine ⟨hprops, interfaceText_congr hkind hname ?_ placement⟩
    rw [profile_props hv, profile_props hu, hprops]
  · have hk' : ¬ ((ofUnit v).kind = .functionComponent ∨ (ofUnit v).kind = .classComponent) := by
      rw [hclass] at hk
      rw [hclass', component_spared hs]
      exact hk
    refine ⟨?_, (interfaceText_of_other hk' placement).trans (interfaceText_of_other hk placement).symm⟩
    rw [hclass] at hk ⊢
    rw [hclass'] at hk' ⊢
    rw [ofModule_of_other hk, ofModule_of_other hk']

/-- A module with two components, `const A = p => <b/>;` and `const B = p => <b/>;`, and what
stands below them. -/
def twoComponents (below : String) (statements : List Node) : SourceUnit where
  path := "components/A.jsx"
  language := .javascript
  source := .ofText ("const A = p => <b/>;\nconst B = p => <b/>;\n" ++ below)
  tree := some ⟨⟨"program", true, 0, 42 + below.utf8ByteSize, "", [arrowAt 0, arrowAt 21] ++ statements⟩, false⟩

def ofItsOwn : SourceUnit := twoComponents "A.propTypes = \x7b c: PropTypes.node \x7d;" [nodeTypesAt 42]

def ofBoth : SourceUnit :=
  twoComponents "A.propTypes = \x7b c: PropTypes.node \x7d;\nB.propTypes = \x7b c: PropTypes.node \x7d;"
    [nodeTypesAt 42, nodeTypesAt 79]

theorem ofItsOwn_keeps : ∃ t ∈ ofItsOwn.tree, ∃ t' ∈ ofBoth.tree,
    ofModule ofBoth.source t'.root (ofUnit ofBoth) = ofModule ofItsOwn.source t.root (ofUnit ofItsOwn) ∧
      (Synthesis.ofProfile (ofBoth.profile ⟨AliasTable.standard, []⟩) .inline).interfaceText =
        (Synthesis.ofProfile (ofItsOwn.profile ⟨AliasTable.standard, []⟩) .inline).interfaceText := by
  obtain ⟨t, ht⟩ : ∃ t, ofItsOwn.tree = some t := ⟨_, rfl⟩
  obtain ⟨t', ht'⟩ : ∃ t', ofBoth.tree = some t' := ⟨_, rfl⟩
  have hte : t.hasError = false := by
    cases ht
    rfl
  have hte' : t'.hasError = false := by
    cases ht'
    rfl
  have hs : Spared ofItsOwn.source ofBoth.source "A" "B" t.root t'.root := by
    cases ht
    cases ht'
    exact .of_appended [nodeTypesAt 79] rfl rfl rfl (by decide +kernel) (by decide +kernel)
      (by decide +kernel) (by decide +kernel)
  refine ⟨t, ht, t', ht', (props_unlent ht ht' hte hte' (by decide) hs (by decide +kernel) (by decide) _ _).2.2 ?_⟩
  cases ht
  cases ht'
  intro key hkey
  rcases List.mem_pair.mp hkey with rfl | rfl
  · exact .own (by decide +kernel)
  · exact .of_empty (by decide +kernel) (by decide +kernel) (by decide +kernel)

def ofNeither : SourceUnit := twoComponents "" []

def ofTheOther : SourceUnit := twoComponents "B.propTypes = \x7b c: PropTypes.node \x7d;" [nodeTypesAt 42]

/-- The only prop types there are become those of the first component, which has none. -/
theorem ofTheOther_lent : ∃ t ∈ ofNeither.tree, ∃ t' ∈ ofTheOther.tree,
    t.hasError = false ∧ t'.hasError = false ∧
    Spared ofNeither.source ofTheOther.source "A" "B" t.root t'.root ∧
    (Declaration.all ofNeither.source t.root).map (·.name) = [some "A", some "B"] ∧
    (ofUnit ofNeither).kind = .functionComponent ∧ (ofUnit ofNeither).declared = some "A" ∧
    (ofUnit ofTheOther).kind = .functionComponent ∧ (ofUnit ofTheOther).declared = some "A" ∧
    (ofModule ofNeither.source t.root (ofUnit ofNeither)).map (·.name) = ["p"] ∧
    (ofModule ofTheOther.source t'.root (ofUnit ofTheOther)).map (·.name) = ["p", "c"] ∧
    (Synthesis.ofProfile (ofNeither.profile ⟨AliasTable.standard, []⟩) .inline).interfaceText =
      some "interface AProps \x7b\n  [key: string]: unknown;\n\x7d\n" ∧
    (Synthesis.ofProfile (ofTheOther.profile ⟨AliasTable.standard, []⟩) .inline).interfaceText =
      some "interface AProps \x7b\n  c?: React.ReactNode;\n\x7d\n" := by
  have hs : ∀ t ∈ ofNeither.tree, ∀ t' ∈ ofTheOther.tree,
      Spared ofNeither.source ofTheOther.source "A" "B" t.root t'.root := by
    intro t ht t' ht'
    cases ht
    cases ht'
    exact .of_appended [nodeTypesAt 42] rfl rfl rfl (by decide +kernel) (by decide +kernel)
      (by decide +kernel) (by decide +kernel)
  refine ⟨_, rfl, _, rfl, rfl, rfl, hs _ rfl _ rfl, ?_⟩
  decide +kernel

end SourceUnit

end Retype

/-!
# Syntax trees

A node of a parsed module: its kind, whether it is named or a bare token, its
span of octets, the field it fills in its parent, and its children in order.
Walks go through a tree in document order, parents before children.
-/

set_option autoImplicit false

namespace Retype

structure Node where
  kind : String
  named : Bool
  start : Nat
  stop : Nat
  field : String
  children : List Node
  deriving Repr, Inhabited

namespace Node

def namedChildren (n : Node) : List Node := n.children.filter (·.named)

def child? (field : String) (n : Node) : Option Node :=
  n.children.find? fun c => c.field == field

def hasToken (kind : String) (n : Node) : Bool := n.children.any fun c => c.kind == kind

mutual

def walk : Node → List Node
  | ⟨kind, named, start, stop, field, children⟩ =>
    ⟨kind, named, start, stop, field, children⟩ :: walkAll children

def walkAll : List Node → List Node
  | [] => []
  | c :: rest => walk c ++ walkAll rest

end

/-- A node met on a walk, with its ancestors from the nearest upwards. -/
structure Visit where
  node : Node
  ancestors : List Node
  deriving Inhabited

mutual

def visits (above : List Node) : Node → List Visit
  | ⟨kind, named, start, stop, field, children⟩ =>
    ⟨⟨kind, named, start, stop, field, children⟩, above⟩ ::
      visitsAll (⟨kind, named, start, stop, field, children⟩ :: above) children

def visitsAll (above : List Node) : List Node → List Visit
  | [] => []
  | c :: rest => visits above c ++ visitsAll above rest

end

def Visit.parent? (v : Visit) : Option Node := v.ancestors.head?

mutual

def unwrap : Node → Node
  | ⟨kind, named, start, stop, field, children⟩ =>
    if kind == "parenthesized_expression" then
      (unwrapFirst children).getD ⟨kind, named, start, stop, field, children⟩
    else ⟨kind, named, start, stop, field, children⟩

def unwrapFirst : List Node → Option Node
  | [] => none
  | c :: rest => if c.named then some (unwrap c) else unwrapFirst rest

end

def value? (field : String) (n : Node) : Option Node := (n.child? field).map unwrap

/-! Whatever a node gives access to is smaller than the node. -/

theorem sizeOf_mem_children {n c : Node} (h : c ∈ n.children) : sizeOf c < sizeOf n := by
  cases n
  have := List.sizeOf_lt_of_mem h
  simp at this ⊢
  omega

theorem sizeOf_mem_named {n c : Node} (h : c ∈ n.namedChildren) : sizeOf c < sizeOf n :=
  sizeOf_mem_children (List.mem_filter.1 h).1

theorem sizeOf_child? {n c : Node} {field : String} (h : n.child? field = some c) :
    sizeOf c < sizeOf n :=
  sizeOf_mem_children (List.mem_of_find?_eq_some h)

mutual

theorem sizeOf_unwrap : ∀ n : Node, sizeOf n.unwrap ≤ sizeOf n
  | ⟨kind, named, start, stop, field, children⟩ => by
    rw [unwrap]
    split
    · cases h : unwrapFirst children with
      | none => simp
      | some c =>
        have := sizeOf_unwrapFirst children c h
        simp
        omega
    · exact Nat.le_refl _

theorem sizeOf_unwrapFirst : ∀ (cs : List Node) (c : Node),
    unwrapFirst cs = some c → sizeOf c < sizeOf cs
  | [], c, h => by simp [unwrapFirst] at h
  | d :: rest, c, h => by
    rw [unwrapFirst] at h
    split at h
    · have := sizeOf_unwrap d
      cases h
      simp
      omega
    · have := sizeOf_unwrapFirst rest c h
      simp
      omega

end

end Node

/-- A module's tree, and whether the parser met an error anywhere in it. -/
structure Tree where
  root : Node
  hasError : Bool
  deriving Inhabited

end Retype

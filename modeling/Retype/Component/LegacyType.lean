import Retype.Keyed
import Retype.Module.Vocabulary

/-!
# Runtime prop types

The value of a prop declaration that is checked at run time, such as
`PropTypes.arrayOf(PropTypes.string).isRequired`, and how it is read off an
expression. What cannot be read is no type: an element of a list or a member of
a shape that is no type is left out.
-/

set_option autoImplicit false

namespace Retype

inductive LegacyType where
  | named (required : Bool) (kind : String)
  | arrayOf (required : Bool) (item : Option LegacyType)
  | objectOf (required : Bool) (value : Option LegacyType)
  | oneOf (required : Bool) (literals : List String)
  | oneOfType (required : Bool) (members : List LegacyType)
  | record (required : Bool) (exact : Bool) (fields : List (String × LegacyType))
  | instanceOf (required : Bool) (target : String)
  deriving Repr, Inhabited

namespace LegacyType

def required : LegacyType → Bool
  | named r _ => r
  | arrayOf r _ => r
  | objectOf r _ => r
  | oneOf r _ => r
  | oneOfType r _ => r
  | record r _ _ => r
  | instanceOf r _ => r

def kind : LegacyType → String
  | named _ k => k
  | arrayOf _ _ => "arrayOf"
  | objectOf _ _ => "objectOf"
  | oneOf _ _ => "oneOf"
  | oneOfType _ _ => "oneOfType"
  | record _ exact _ => if exact then "exact" else "shape"
  | instanceOf _ _ => "instanceOf"

/-- The type of a kind that nothing further is said about. -/
def ofKind (required : Bool) (kind : String) : LegacyType :=
  if kind == "arrayOf" then arrayOf required none
  else if kind == "objectOf" then objectOf required none
  else if kind == "oneOf" then oneOf required []
  else if kind == "oneOfType" then oneOfType required []
  else if kind == "shape" then record required false []
  else if kind == "exact" then record required true []
  else if kind == "instanceOf" then instanceOf required ""
  else named required kind

def isMarked (src : Source) (n : Node) : Bool :=
  n.unwrap.kind == "member_expression" && src.childText "property" n.unwrap == "isRequired"

def core? (src : Source) (n : Node) : Option Node :=
  if isMarked src n then n.unwrap.value? "object" else some n.unwrap

theorem sizeOf_core? {src : Source} {n c : Node} (h : core? src n = some c) :
    sizeOf c ≤ sizeOf n := by
  have hn := Node.sizeOf_unwrap n
  unfold core? at h
  split at h
  · unfold Node.value? at h
    obtain ⟨d, hd, rfl⟩ := Option.map_eq_some_iff.1 h
    have h1 := Node.sizeOf_child? hd
    have h2 := Node.sizeOf_unwrap d
    omega
  · cases h
    exact hn

def checker (src : Source) (call : Node) : String :=
  match call.child? "function" with
  | none => ""
  | some fn => if fn.kind == "member_expression" then src.childText "property" fn else src.textOf fn

def ofExpression (src : Source) (n : Node) : Option LegacyType :=
  match _hc : core? src n with
  | none => none
  | some core =>
    let required := isMarked src n
    if core.kind == "member_expression" then some (ofKind required (src.childText "property" core))
    else if core.isCall then
      let kind := checker src core
      match _ha : core.arguments with
      | [] => some (ofKind required kind)
      | arg :: _ =>
        if kind == "arrayOf" then some (arrayOf required (ofExpression src arg))
        else if kind == "objectOf" then some (objectOf required (ofExpression src arg))
        else if kind == "oneOfType" && arg.unwrap.kind == "array" then
          some (oneOfType required
            (arg.unwrap.namedChildren.attach.filterMap fun ⟨e, _⟩ => ofExpression src e))
        else if kind == "oneOf" && arg.unwrap.kind == "array" then
          some (oneOf required (arg.unwrap.parts.map src.textOf))
        else if (kind == "shape" || kind == "exact") && arg.unwrap.kind == "object" then
          some (record required (kind == "exact") (Keyed.ofList
            (arg.unwrap.namedChildren.attach.filterMap fun ⟨p, _⟩ =>
              if p.kind == "pair" then
                match _hv : p.child? "value" with
                | none => none
                | some v => (ofExpression src v).map fun t => (src.keyOf (p.child? "key"), t)
              else none)))
        else if kind == "instanceOf" then some (instanceOf required (src.textOf arg.unwrap))
        else some (ofKind required kind)
    else none
termination_by sizeOf n
decreasing_by
  all_goals
    have h1 := sizeOf_core? _hc
    have h2 : sizeOf arg < sizeOf core :=
      Node.sizeOf_mem_arguments (by rw [_ha]; exact List.mem_cons_self)
    have h3 := Node.sizeOf_unwrap arg
  · omega
  · omega
  · next h =>
    have h4 := Node.sizeOf_mem_named h
    omega
  · next h _ =>
    have h4 := Node.sizeOf_mem_named h
    have h5 := Node.sizeOf_child? _hv
    omega

end LegacyType

end Retype

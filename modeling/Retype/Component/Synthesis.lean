import Retype.Component.TypeText

/-!
# Interfaces from profiles

What is written about a component's props and state: the interface with its
member lines, the types of the state slots, and a note for every slot whose type
is `unknown`, so that nothing is guessed silently.
-/

set_option autoImplicit false

namespace Retype

inductive Placement where
  | inline
  | external
  deriving DecidableEq, Repr, Inhabited

def Placement.text : Placement → String
  | inline => "inline"
  | external => "external"

structure Synthesis where
  component : String
  interfaceName : Option String
  fields : List String
  stateTypes : List (String × String)
  placement : Placement
  unknowns : List String
  deriving DecidableEq, Repr

namespace Synthesis

def memberLine (p : Property) : String :=
  TypeText.propertyName p.name ++ (if p.isOptional then "?" else "") ++ ": " ++ p.typeText ++ ";"

def listed (props : List Property) : List Property := props.filter fun p => !(p.isRest || p.isWhole)

/-- The lines of the interface. A rest entry, or a whole props object of which no
member is known, opens the interface to any other member. -/
def memberLines (props : List Property) : List String :=
  let lines := (listed props).map memberLine
  let isOpen := props.any (·.isRest) || (lines.isEmpty && props.any (·.isWhole))
  if isOpen then lines ++ [TypeText.indexSignature] else lines

def hasInterface (p : Profile) : Bool :=
  (p.kind = .functionComponent || p.kind = .classComponent) && !p.props.isEmpty

def propNote (component : String) (fields : List String) (p : Property) : Option String :=
  if p.isWhole then
    if fields = [TypeText.indexSignature] then
      some (component ++ ": props object '" ++ p.name ++ "' has no declared members")
    else none
  else if !p.isRest && p.typeText == TypeText.unknown then
    some (component ++ ": prop '" ++ p.name ++ "' has unknown type")
  else none

def stateNote (component : String) (s : StateSlot) : Option String :=
  if s.argument == TypeText.unknown then
    some (component ++ ": state '" ++ s.name ++ "' has unknown type")
  else none

def ofProfile (p : Profile) (placement : Placement) : Synthesis :=
  let fields := if hasInterface p then memberLines p.props else []
  let slots := p.state.filter fun s => s.hook = .useState
  { component := p.name
    interfaceName := if hasInterface p then some (p.name ++ "Props") else none
    fields := fields
    stateTypes := Keyed.ofList (slots.map fun s => (s.name, s.argument))
    placement := placement
    unknowns := (if hasInterface p then p.props.filterMap (propNote p.name fields) else []) ++
      slots.filterMap (stateNote p.name) }

def declaration (name : String) (fields : List String) : String :=
  "interface " ++ name ++ " \x7b\n" ++ String.join (fields.map fun f => "  " ++ f ++ "\n") ++ "\x7d\n"

def interfaceText (s : Synthesis) : Option String :=
  s.interfaceName.map fun name => declaration name s.fields

def needsReact (s : Synthesis) : Bool := s.fields.any (Affix.occurs "React.")

def companionText (s : Synthesis) : Option String :=
  s.interfaceText.map fun text =>
    (if s.needsReact then "import type React from 'react';\n\n" else "") ++ "export " ++ text

end Synthesis

end Retype

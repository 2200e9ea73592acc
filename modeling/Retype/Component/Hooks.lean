import Retype.Component.Imports

/-!
# State, effects and hooks

The hook calls of a module, sorted into state, effects, callbacks, refs,
contexts and custom hooks in document order, and the state and life-cycle
methods of a class component.
-/

set_option autoImplicit false

namespace Retype

inductive StateSource where
  | useState
  | useReducer
  | classField
  deriving DecidableEq, Repr, Inhabited

def StateSource.text : StateSource → String
  | useState => "useState"
  | useReducer => "useReducer"
  | classField => "class"

structure StateSlot where
  name : String
  setter : Option String := none
  inferred : Option String := none
  defaultText : Option String := none
  defaultShape : Option LiteralShape := none
  hook : StateSource := .useState
  deriving DecidableEq, Repr, Inhabited

/-- When an effect runs. -/
inductive Trigger where
  | everyRender
  | mount
  | deps
  | dynamic
  | update
  | unmount
  deriving DecidableEq, Repr, Inhabited

def Trigger.text : Trigger → String
  | everyRender => "every-render"
  | mount => "mount"
  | deps => "deps"
  | dynamic => "dynamic"
  | update => "update"
  | unmount => "unmount"

structure Effect where
  hook : String
  trigger : Trigger
  dependencies : Option (List String) := none
  hasCleanup : Bool := false
  deriving DecidableEq, Repr, Inhabited

structure RefSlot where
  name : String
  initial : Option String := none
  deriving DecidableEq, Repr, Inhabited

structure ContextUse where
  context : String
  bound : String
  deriving DecidableEq, Repr, Inhabited

structure Callback where
  hook : String
  name : String
  dependencies : Option (List String) := none
  deriving DecidableEq, Repr, Inhabited

structure CustomHook where
  name : String
  source : String
  count : Nat := 1
  deriving DecidableEq, Repr, Inhabited

/-- The entries that hook calls give. -/
structure Hooks where
  state : List StateSlot := []
  effects : List Effect := []
  refs : List RefSlot := []
  contexts : List ContextUse := []
  callbacks : List Callback := []
  custom : List (String × CustomHook) := []
  deriving Repr, Inhabited

namespace Hooks

variable (src : Source)

def isCarrier (n : Node) : Bool :=
  ["parenthesized_expression", "await_expression", "as_expression"].contains n.kind

/-- The nearest ancestor that does not merely carry the value on, and the
outermost node that it carries. -/
def carried (child : Node) : List Node → Option (Node × Node)
  | [] => none
  | p :: rest => if isCarrier p then carried p rest else some (child, p)

/-- The pattern that a call's value is bound to. -/
def binding? (v : Node.Visit) : Option Node :=
  match carried v.node v.ancestors with
  | none => none
  | some (child, parent) =>
    if parent.kind == "variable_declarator" then
      match parent.child? "value" with
      | none => none
      | some value =>
        if value.start = child.start ∧ value.stop = child.stop then parent.child? "name" else none
    else none

/-- Elements of an array pattern by place, the last one read so far given; holes are none. -/
def elementsFrom (current : Option Node) : List Node → List (Option Node)
  | [] => []
  | c :: rest =>
    if c.kind == "[" then elementsFrom current rest
    else if c.kind == "," || c.kind == "]" then current :: elementsFrom none rest
    else if c.named && !c.isComment then elementsFrom (some c) rest
    else elementsFrom current rest

def elements (pattern : Node) : List (Option Node) := elementsFrom none pattern.children

/-- The initial value of a state: a function without parameters counts as its result. -/
def initialValue (n : Node) : Node :=
  let n := n.unwrap
  if n.kind == "arrow_function" then
    match n.child? "body" with
    | some body => if body.isBlock then n else body.unwrap
    | none => n
  else n

def dependencies (arg : Option Node) : Trigger × Option (List String) :=
  match arg.map Node.unwrap with
  | none => (.everyRender, none)
  | some list =>
    if list.kind == "array" then
      let deps := list.parts.map src.textOf
      (if deps.isEmpty then .mount else .deps, some deps)
    else (.dynamic, none)

/-- Whether an effect's function returns something to run later. -/
def hasCleanup (arg : Option Node) : Bool :=
  match arg.map Node.unwrap with
  | none => false
  | some fn =>
    fn.isFunction && match fn.child? "body" with
      | none => false
      | some body =>
        if body.isBlock then
          body.namedChildren.any fun s => s.kind == "return_statement" && !s.parts.isEmpty
        else body.unwrap.isFunction

def stateSlot (hook : StateSource) (binding : Option Node) (args : List Node) : StateSlot :=
  let initial := (if hook = .useReducer then args[1]? else args[0]?).map initialValue
  let (name, setter) : String × Option String := match binding with
    | none => ("state", none)
    | some b =>
      if b.kind == "array_pattern" then
        let es := elements b
        (((es[0]?.join).map src.textOf).getD "state", (es[1]?.join).map src.textOf)
      else (src.textOf b, none)
  { name := name
    setter := setter
    defaultText := initial.map src.textOf
    defaultShape := initial.bind (LiteralShape.ofExpression src)
    hook := hook }

/-- Where a name was imported from: the last import that binds it. -/
def originOf (imports : List Import) (name : String) : String :=
  ((imports.reverse.find? fun i => i.names.contains name).map (·.specifier)).getD "local"

def isEffectHook (name : String) : Bool :=
  ["useEffect", "useLayoutEffect", "useInsertionEffect"].contains name

/-- Files one hook call under its kind. -/
def file (imports : List Import) (h : Hooks) (name : String) (v : Node.Visit) : Hooks :=
  let args := v.node.arguments
  let binding := binding? v
  let bound := src.textOf? binding
  if name == "useState" then { h with state := h.state ++ [stateSlot src .useState binding args] }
  else if name == "useReducer" then
    { h with state := h.state ++ [stateSlot src .useReducer binding args] }
  else if isEffectHook name then
    let (trigger, deps) := dependencies src args[1]?
    { h with effects := h.effects ++ [⟨name, trigger, deps, hasCleanup args[0]?⟩] }
  else if name == "useCallback" || name == "useMemo" then
    { h with callbacks := h.callbacks ++
        [⟨name, (nonEmpty bound).getD "anonymous", (dependencies src args[1]?).2⟩] }
  else if name == "useRef" then
    { h with refs := h.refs ++ [⟨(nonEmpty bound).getD "anonymous", args[0]?.map src.textOf⟩] }
  else if name == "useContext" then
    { h with contexts := h.contexts ++ [⟨src.textOf? args[0]?, bound⟩] }
  else match Keyed.get? name h.custom with
    | some known => { h with custom := Keyed.put name { known with count := known.count + 1 } h.custom }
    | none => { h with custom := Keyed.put name ⟨name, originOf imports name, 1⟩ h.custom }

def calls (root : Node) : List (String × Node.Visit) :=
  (root.visits []).filterMap fun v =>
    if v.node.isCall then (src.hook? v.node).map fun name => (name, v) else none

def ofRoot (imports : List Import) (root : Node) : Hooks :=
  (calls src root).foldl (fun h (name, v) => file src imports h name v) {}

end Hooks

/-- The state object and the life-cycle effects of a class. -/
structure ClassMembers where
  stateObject : Option Node := none
  effects : List Effect := []
  deriving Inhabited

namespace ClassMembers

variable (src : Source)

def trigger? (method : String) : Option Trigger :=
  if method == "componentDidMount" then some .mount
  else if method == "componentDidUpdate" then some .update
  else if method == "componentWillUnmount" then some .unmount
  else none

def assignedState? (method : Node) : Option Node :=
  method.walk.findSome? fun n =>
    if n.kind == "assignment_expression" && src.childText "left" n == "this.state" then
      (n.value? "right").filter fun v => v.kind == "object"
    else none

def add (c : ClassMembers) (m : Node) : ClassMembers :=
  if m.isField then
    match m.value? "value" with
    | some v =>
      if src.textOf? (Property.fieldKey m) == "state" && !Property.isStatic m && v.kind == "object" then
        { c with stateObject := some v }
      else c
    | none => c
  else if m.kind == "method_definition" then
    let method := src.childText "name" m
    match trigger? method with
    | some t => { c with effects := c.effects ++ [⟨method, t, none, t = .unmount⟩] }
    | none =>
      if method == "constructor" && c.stateObject.isNone then
        { c with stateObject := assignedState? src m }
      else c
  else c

def ofClass (cls : Node) : ClassMembers :=
  match cls.child? "body" with
  | none => {}
  | some body => body.namedChildren.foldl (add src) {}

def slot? (entry : Node) : Option StateSlot :=
  if entry.kind == "pair" then
    let value := entry.child? "value"
    some
      { name := src.keyOf (entry.child? "key")
        setter := some "setState"
        defaultText := some (src.textOf? value)
        defaultShape := value.bind (LiteralShape.ofExpression src)
        hook := .classField }
  else if entry.kind == "shorthand_property_identifier" then
    some { name := src.textOf entry, setter := some "setState", hook := .classField }
  else none

def state (c : ClassMembers) : List StateSlot :=
  match c.stateObject with
  | none => []
  | some obj => obj.namedChildren.filterMap (slot? src)

end ClassMembers

end Retype

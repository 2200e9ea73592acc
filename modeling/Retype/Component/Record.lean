import Retype.Component.Profile
import Retype.Json.Value

/-!
# Profiles as records

The JSON form of a profile as inventories hold it. Of a runtime type only the
parts that say something are written.
-/

set_option autoImplicit false

namespace Retype

namespace LegacyType

def extras (args : List Json) (literals : List String) (fields : List (String × Json))
    (ref : String) : List (String × Json) :=
  (if args.isEmpty then [] else [("args", .arr args)]) ++
  (if literals.isEmpty then [] else [("literals", .texts literals)]) ++
  (if fields.isEmpty then [] else [("fields", .obj fields)]) ++
  (if ref.isEmpty then [] else [("ref", .str ref)])

def headed (t : LegacyType) (more : List (String × Json)) : Json :=
  .obj ([("kind", .str t.kind), ("required", .bool t.required)] ++ more)

mutual

def toJson : LegacyType → Json
  | named r kind => headed (named r kind) []
  | arrayOf r item => headed (arrayOf r none) (extras (itemJson item) [] [] "")
  | objectOf r value => headed (objectOf r none) (extras (itemJson value) [] [] "")
  | oneOf r literals => headed (oneOf r literals) (extras [] literals [] "")
  | oneOfType r members => headed (oneOfType r []) (extras (memberJsons members) [] [] "")
  | record r exact fields => headed (record r exact []) (extras [] [] (fieldJsons fields) "")
  | instanceOf r target => headed (instanceOf r target) (extras [] [] [] target)

def itemJson : Option LegacyType → List Json
  | none => []
  | some t => [toJson t]

def memberJsons : List LegacyType → List Json
  | [] => []
  | t :: rest => toJson t :: memberJsons rest

def fieldJsons : List (String × LegacyType) → List (String × Json)
  | [] => []
  | (name, t) :: rest => (name, toJson t) :: fieldJsons rest

end

end LegacyType

def Json.ofText? : Option String → Json := Json.ofOption .str

def Property.toJson (p : Property) : Json :=
  .obj ([("name", .str p.name), ("optional", .bool p.isOptional),
    ("type", .ofText? p.inferred), ("origin", .str p.origin.text)] ++
    (p.defaultText.map fun v => ("defaultValue", .str v)).toList ++
    (p.legacy.map fun t => ("legacyType", t.toJson)).toList)

def StateSlot.toJson (s : StateSlot) : Json :=
  .obj [("name", .str s.name), ("setter", .ofText? s.setter), ("type", .ofText? s.inferred),
    ("defaultValue", .ofText? s.defaultText), ("hook", .str s.hook.text)]

def Effect.toJson (e : Effect) : Json :=
  .obj [("hook", .str e.hook), ("trigger", .str e.trigger.text),
    ("dependencies", .ofOption .texts e.dependencies), ("hasCleanup", .bool e.hasCleanup)]

def RefSlot.toJson (r : RefSlot) : Json :=
  .obj [("name", .str r.name), ("initialValue", .ofText? r.initial)]

def ContextUse.toJson (c : ContextUse) : Json :=
  .obj [("context", .str c.context), ("variable", .str c.bound)]

def Callback.toJson (c : Callback) : Json :=
  .obj [("hook", .str c.hook), ("name", .str c.name),
    ("dependencies", .ofOption .texts c.dependencies)]

def CustomHook.toJson (h : CustomHook) : Json :=
  .obj [("name", .str h.name), ("source", .str h.source), ("count", .nat h.count)]

def Import.toJson (i : Import) : Json :=
  .obj [("specifier", .str i.specifier), ("names", .texts i.names), ("internal", .bool i.internal)]

def Usage.weight (u : Usage) : Float := Float.ofNat u.halves / 2

def Usage.toJson (u : Usage) : Json :=
  .obj [("directUsage", .nat u.direct), ("weightedScore", .float u.weight),
    ("isCritical", .bool u.isCritical)]

namespace Profile

def factors (p : Profile) : List (String × Json) :=
  match p.complexity with
  | none => []
  | some s => s.contributions.map fun c => (c.1.text, .float c.2)

def toJson (p : Profile) : Json :=
  .obj
    [("name", .str p.name),
     ("path", .str p.path),
     ("kind", .str p.kind.text),
     ("language", .str p.language.name),
     ("exported", .bool p.exported),
     ("exportType", .str p.exportType.text),
     ("boundary", .ofText? p.boundary),
     ("category", .str p.category.text),
     ("props", .arr (p.props.map Property.toJson)),
     ("state", .arr (p.state.map StateSlot.toJson)),
     ("effects", .arr (p.effects.map Effect.toJson)),
     ("refs", .arr (p.refs.map RefSlot.toJson)),
     ("contexts", .arr (p.contexts.map ContextUse.toJson)),
     ("callbacks", .arr (p.callbacks.map Callback.toJson)),
     ("customHooks", .arr (p.hooks.map CustomHook.toJson)),
     ("imports", .arr (p.imports.map Import.toJson)),
     ("patterns", .texts (Order.sortTexts (p.patterns.map Pattern.text))),
     ("complexity", match p.complexity with | none => .int 0 | some s => .float s.raw),
     ("complexityLevel", .str p.tier.text),
     ("complexityFactors", .obj p.factors),
     ("internalDependencies", .texts p.dependencies),
     ("externalDependencies", .texts p.externalDependencies),
     ("dependedOnBy", .texts p.dependents),
     ("usageScore", .ofOption Usage.toJson p.usage),
     ("migrationPriority", .ofOption (fun q => .str q.text) p.priority),
     ("migrated", .bool p.migrated),
     ("parseError", .bool p.parseError),
     ("fileSize", .nat p.fileSize)]

end Profile

end Retype

import Retype.AliasTable
import Retype.Component.Property

/-!
# Imports of a module

What a module imports at its top: by import statements, by exports from other
modules and by calls of `require`. Each import has its specifier and the names
it binds.
-/

set_option autoImplicit false

namespace Retype

structure Import where
  specifier : String
  names : List String
  internal : Bool
  deriving DecidableEq, Repr, Inhabited

namespace Import

variable (src : Source)

def boundName (spec : Node) : String :=
  src.textOf? (spec.child? "alias" <|> spec.child? "name")

/-- The names that one part of an import clause binds. -/
def clauseNames (part : Node) : List String :=
  if part.kind == "identifier" then [src.textOf part]
  else if part.kind == "namespace_import" then
    (part.namedChildren.filter fun i => i.kind == "identifier").map src.textOf
  else if part.kind == "named_imports" then
    (part.namedChildren.filter fun s => s.kind == "import_specifier").map (boundName src)
  else []

def importedNames (stmt : Node) : List String :=
  (stmt.namedChildren.filter fun c => c.kind == "import_clause").flatMap fun clause =>
    clause.namedChildren.flatMap (clauseNames src)

/-- The names passed on by an export from another module; a star stands for all. -/
def exportedNames (stmt : Node) : List String :=
  let names := (Exports.specifiers stmt).map (boundName src)
  if names.isEmpty then ["*"] else names

/-- The module that a declarator requires, with the names it binds. -/
def required? (d : Node) : Option (String × List String) :=
  if d.kind == "variable_declarator" then
    match d.value? "value" with
    | none => none
    | some call =>
      if call.isCall && src.childText "function" call == "require" then
        match call.arguments with
        | [a] => (src.stringOf? a).map fun spec =>
          match d.child? "name" with
          | some pattern =>
            if pattern.kind == "object_pattern" then
              (spec, ((Property.ofPattern src pattern).filter fun p => !p.isRest).map (·.name))
            else (spec, [src.textOf pattern])
          | none => (spec, [""])
        | _ => none
      else none
  else none

/-- Specifiers of one statement with the names they bind. -/
def ofStatement (stmt : Node) : List (String × List String) :=
  let source := (stmt.child? "source").bind src.stringOf?
  if stmt.kind == "import_statement" then
    (source.map fun spec => (spec, importedNames src stmt)).toList
  else if stmt.kind == "export_statement" && (stmt.child? "source").isSome then
    (source.map fun spec => (spec, exportedNames src stmt)).toList
  else if stmt.isVariables then stmt.namedChildren.filterMap (required? src)
  else []

/-- All imports of a module in order; an empty specifier imports nothing. -/
def all (table : AliasTable) (root : Node) : List Import :=
  ((root.namedChildren.flatMap (ofStatement src)).filter fun (spec, _) => !spec.isEmpty).map
    fun (spec, names) => ⟨spec, names, table.isInternal spec⟩

end Import

end Retype

import Retype.AliasTable

/-!
# Resolving imports against a corpus

A specifier that leaves its extension out is probed: the path itself, the path
with each extension, and the index file of the folder with each extension. The
first candidate that the corpus holds is what the import means.
-/

set_option autoImplicit false

namespace Retype

structure Resolver where
  corpus : List String
  table : AliasTable
  extensions : List String

namespace Resolver

def candidates (path : String) (extensions : List String) : List String :=
  path :: extensions.map (path ++ ·) ++ extensions.map (path ++ "/index" ++ ·)

def resolve (r : Resolver) (spec importer : String) : Option String :=
  match r.table.expand spec importer with
  | none => none
  | some path => (candidates path r.extensions).find? r.corpus.contains

end Resolver

end Retype

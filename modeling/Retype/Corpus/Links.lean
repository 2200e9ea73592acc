import Retype.Component.Profile
import Retype.Resolver

/-!
# Links between files

Every import of every profile as a link: an internal one leads to the corpus
file it resolves to, or is dropped if there is none, and any other one leads to
the package it names. Of several links between the same two ends the first
counts.
-/

set_option autoImplicit false

namespace Retype

structure Link where
  source : String
  target : String
  internal : Bool
  deriving DecidableEq, Repr, Inhabited

namespace Link

def ofImport? (r : Resolver) (path : String) (i : Import) : Option Link :=
  if i.internal then (r.resolve i.specifier path).map fun target => ⟨path, target, true⟩
  else some ⟨path, i.specifier, false⟩

def ofProfile (r : Resolver) (p : Profile) : List Link := p.imports.filterMap (ofImport? r p.path)

def distinctEnds (links : List Link) : List Link :=
  (links.foldl (fun table l => Keyed.putNew (l.source, l.target) l table) []).map (·.2)

def resolver (profiles : List Profile) (table : AliasTable) (extensions : List String) : Resolver :=
  ⟨profiles.map (·.path), table, extensions⟩

def all (profiles : List Profile) (table : AliasTable) (extensions : List String) : List Link :=
  distinctEnds (profiles.flatMap (ofProfile (resolver profiles table extensions)))

end Link

end Retype

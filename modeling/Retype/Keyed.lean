/-!
# Entries under keys, in order of first appearance

A list of pairs read as a table: writing a key that is present changes its
value in place, and a new key comes last.
-/

set_option autoImplicit false

namespace Retype.Keyed

variable {κ ν : Type} [BEq κ]

def get? (k : κ) : List (κ × ν) → Option ν
  | [] => none
  | e :: rest => if e.1 == k then some e.2 else get? k rest

def has (k : κ) (entries : List (κ × ν)) : Bool := (get? k entries).isSome

def put (k : κ) (v : ν) : List (κ × ν) → List (κ × ν)
  | [] => [(k, v)]
  | e :: rest => if e.1 == k then (e.1, v) :: rest else e :: put k v rest

def putNew (k : κ) (v : ν) (entries : List (κ × ν)) : List (κ × ν) :=
  if has k entries then entries else entries ++ [(k, v)]

def ofList (assignments : List (κ × ν)) : List (κ × ν) :=
  assignments.foldl (fun entries e => put e.1 e.2 entries) []

end Retype.Keyed

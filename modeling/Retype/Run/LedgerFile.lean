import Retype.Run.Ledger

/-!
# Ledgers in written form

A ledger as a JSON value: its notes, and the checkpoint of each batch that has
one. Reading saves the checkpoints again one after the other.
-/

set_option autoImplicit false

namespace Retype.Ledger

def toJson (l : Ledger) : Json :=
  .obj [("notes", .obj l.notes),
    ("checkpoints", .arr ((l.batches.filterMap l.load).map Checkpoint.toJson))]

def ofJson (v : Json) : Ledger :=
  let notes := match v.field? "notes" with
    | some (.obj notes) => notes
    | _ => []
  let checkpoints := match v.field? "checkpoints" with
    | some (.arr items) => items.filterMap fun c => (Checkpoint.ofJson c).toOption
    | _ => []
  checkpoints.foldl (fun l c => (l.save c).getD l) { notes := notes }

end Retype.Ledger

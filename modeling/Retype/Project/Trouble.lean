import Retype.Fault
import Retype.Project.Workspace

/-!
# Trouble

What goes wrong beneath the program's own rules: a value that cannot serve its
use, or a file operation that is refused. Work that has rules of its own fails
either by a refusal of these rules or by trouble.
-/

set_option autoImplicit false

namespace Retype

inductive Trouble where
  | fault (f : Fault)
  | os (e : OsError)
  deriving DecidableEq, Repr, Inhabited

namespace Trouble

def kind : Trouble → String
  | fault f => f.kind.name
  | os e => e.cause.kind

def message : Trouble → String
  | fault f => f.message
  | os e => e.message

end Trouble

/-- Why work fails that can be refused for a reason of the kind `ε`. -/
inductive Failure (ε : Type) where
  | refused (e : ε)
  | upset (t : Trouble)
  deriving DecidableEq, Repr, Inhabited

instance : MonadLift (Except Fault) (Except Trouble) := ⟨Except.mapError .fault⟩

instance : MonadLift (Except OsError) (Except Trouble) := ⟨Except.mapError .os⟩

instance {ε : Type} : MonadLift (Except Trouble) (Except (Failure ε)) := ⟨Except.mapError .upset⟩

end Retype

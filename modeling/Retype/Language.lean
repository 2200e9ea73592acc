import Retype.Path

/-!
# Languages of source files

A file's language follows from its extension, whatever the case of its letters.
-/

set_option autoImplicit false

namespace Retype

inductive Language where
  | javascript
  | typescript
  | tsx
  | other (name : String)
  deriving DecidableEq, Repr, Inhabited

namespace Language

def name : Language → String
  | javascript => "javascript"
  | typescript => "typescript"
  | tsx => "tsx"
  | other name => name

def ofName (name : String) : Language :=
  if name = "javascript" then javascript
  else if name = "typescript" then typescript
  else if name = "tsx" then tsx
  else other name

def ofExtension? (ext : String) : Option Language :=
  let ext := ext.toLower
  if ext = ".js" ∨ ext = ".jsx" ∨ ext = ".mjs" then some javascript
  else if ext = ".ts" then some typescript
  else if ext = ".tsx" then some tsx
  else none

def ofPath? (path : String) : Option Language := ofExtension? (Path.extension path)

end Language

end Retype

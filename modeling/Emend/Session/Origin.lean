import Emend.Manifest

/-!
# Origins

An origin says where a source comes from: a path, or the name of a class that is
looked up in a manifest every time. A text that holds a dot or a slash is a path,
since no class name does.
-/

set_option autoImplicit false

namespace Emend

inductive Origin where
  | file (path : String)
  | symbol (name : String)
  deriving DecidableEq, Repr, Inhabited

namespace Origin

def ofText (text : String) : Origin :=
  if text.toList.any fun c => c == '.' || c == '/' then .file text else .symbol (Text.trim text)

def shown : Origin → String
  | file path => path
  | symbol name => name

def isSymbol : Origin → Bool
  | file _ => false
  | symbol _ => true

def locate? (manifest : Manifest) : Origin → Option String
  | file path => some path
  | symbol name => manifest.get? name

end Origin

end Emend

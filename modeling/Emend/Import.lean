import Emend.Name

/-!
# Imports

An import makes a fully qualified name available under a local alias. Classes,
functions and constants are imported apart from each other.
-/

set_option autoImplicit false

namespace Emend

inductive ImportKind where
  | type
  | function
  | constant
  deriving DecidableEq, Repr, Inhabited

namespace ImportKind

/-- The word after `use`, if any. -/
def keyword? : ImportKind → Option String
  | type => none
  | function => some "function"
  | constant => some "const"

/-- Classes are listed first, then functions, then constants. -/
def rank : ImportKind → Nat
  | type => 0
  | function => 1
  | constant => 2

end ImportKind

/-- A name made available under an alias. -/
structure Import where
  /-- The imported name, fully qualified. -/
  name : String
  localName : String
  kind : ImportKind
  deriving DecidableEq, Repr, Inhabited

namespace Import

/-- Import a type under an alias of its own. -/
def aliased (name localName : String) : Import :=
  ⟨Name.normalize name, Text.trim localName, .type⟩

/-- Import a type under its last segment. -/
def ofName (name : String) : Import :=
  let name := Name.normalize name
  aliased name (Name.short name)

/-- Whether the alias is not the last segment of the name. -/
def isAliased (i : Import) : Bool := Name.short i.name != i.localName

end Import

end Emend

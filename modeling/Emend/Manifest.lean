import Emend.Table
import Emend.Text.Blank

/-!
# Class manifests

A manifest says in which file each class is defined. Names are stored without
surrounding blanks and without leading separators, and are compared exactly. A
class lies inside a namespace when its name continues the name of the namespace
after a separator.
-/

set_option autoImplicit false

namespace Emend

structure Manifest where
  /-- The paths under the stored names. -/
  paths : Table String

namespace Manifest

def empty : Manifest := ⟨{}⟩

instance : Inhabited Manifest := ⟨empty⟩

/-- The stored form of a class name. -/
def key (name : String) : String := Text.dropStart '\\' (Text.trim name)

def get? (manifest : Manifest) (name : String) : Option String := manifest.paths.get? (key name)

def contains (manifest : Manifest) (name : String) : Bool := (manifest.get? name).isSome

/-- Give a class a path, in place of any other. -/
def insert (manifest : Manifest) (name path : String) : Manifest :=
  ⟨manifest.paths.insert (key name) path⟩

/-- Give a class a path, unless it has one. -/
def insertNew (manifest : Manifest) (name path : String) : Manifest :=
  if manifest.contains name then manifest else manifest.insert name path

/-- The manifest with these classes; of two with one name the later counts. -/
def ofList (entries : List (String × String)) : Manifest :=
  entries.foldl (fun manifest (name, path) => manifest.insert name path) empty

def size (manifest : Manifest) : Nat := manifest.paths.size

def isEmpty (manifest : Manifest) : Bool := manifest.paths.isEmpty

/-- Whether a stored name lies inside a namespace; everything lies inside the
nameless one. -/
def isInside (space name : String) : Bool :=
  space.isEmpty || (Text.strip? (space ++ "\\") name).isSome

/-- The classes inside a namespace with their paths, in the order of their
names. -/
def inNamespace (manifest : Manifest) (space : String) : List (String × String) :=
  (manifest.paths.entries.filter fun (name, _) => isInside (key space) name).mergeSort
    fun a b => a.1 ≤ b.1

end Manifest

end Emend

import Emend.Files.Path
import Emend.Manifest

/-!
# Class maps

A class map is a generated file whose entries read

    'Name\\Of\\Class' => $baseDir . '/path.php',

with any blanks around the arrow and the dot. The directory `$vendorDir` is the
one that holds the directory of the file, and `$baseDir` holds `$vendorDir`.
Entries are searched for in the whole text, so anything else in it is skipped.
-/

set_option autoImplicit false

namespace Emend

/-- The directory that the path of an entry starts from. -/
inductive MapBase where
  | vendor
  | base
  deriving DecidableEq, Repr, Inhabited

structure MapEntry where
  /-- The class name as written between the quotes. -/
  name : String
  base : MapBase
  /-- The path as written between the quotes. -/
  path : String
  deriving DecidableEq, Repr, Inhabited

namespace MapEntry

/-- The text up to the closing quote, in which a backslash takes the next
character with it, and what follows the quote. No line ends after a
backslash. -/
def quotedName (read : List Char) : List Char → Option (List Char × List Char)
  | '\'' :: rest => some (read.reverse, rest)
  | '\\' :: '\n' :: _ => none
  | '\\' :: c :: rest => quotedName (c :: '\\' :: read) rest
  | '\\' :: [] => none
  | c :: rest => quotedName (c :: read) rest
  | [] => none

/-- The rest after blanks and the given text. -/
def token? (expected : String) (cs : List Char) : Option (List Char) :=
  Text.stripPrefix? expected.toList (cs.dropWhile Text.isBlank)

/-- The directory that a text starts with the name of. -/
def base? (cs : List Char) : Option (MapBase × List Char) :=
  match token? "$vendorDir" cs with
  | some rest => some (.vendor, rest)
  | none => (token? "$baseDir" cs).map fun rest => (.base, rest)

def afterQuote? (cs : List Char) : Option (MapEntry × List Char) := do
  let (name, rest) ← quotedName [] cs
  if name.isEmpty then none
  let (start, rest) ← base? (← token? "=>" rest)
  let rest ← token? "'" (← token? "." rest)
  let (path, rest) ← Text.splitFirst? '\'' rest
  return (⟨.ofList name, start, .ofList path⟩, rest)

/-- The entries of a text from left to right; after an entry the search goes on
behind it. The first argument bounds the number of steps. -/
def findFrom : Nat → List Char → List MapEntry
  | 0, _ => []
  | _, [] => []
  | fuel + 1, c :: cs =>
    if c = '\'' then
      match afterQuote? cs with
      | some (entry, rest) => entry :: findFrom fuel rest
      | none => findFrom fuel cs
    else findFrom fuel cs

def findAll (text : String) : List MapEntry := findFrom text.toList.length text.toList

/-- A text with every pair of backslashes replaced by one. -/
def unescape : List Char → List Char
  | '\\' :: '\\' :: rest => '\\' :: unescape rest
  | c :: rest => c :: unescape rest
  | [] => []

end MapEntry

/-- The manifest of the class map in the file at `path`. -/
def Manifest.ofClassMap (path text : String) : Manifest :=
  let vendor := ((Path.parent? path).bind Path.parent?).getD ""
  let base := (Path.parent? vendor).getD ""
  .ofList ((MapEntry.findAll text).map fun entry =>
    let start := match entry.base with
      | .vendor => vendor
      | .base => base
    (.ofList (MapEntry.unescape entry.name.toList),
      Path.join start (Text.dropStart Path.separator entry.path)))

end Emend

import Emend.Files.Tree
import Emend.Json
import Emend.Manifest.ClassMap

/-!
# Manifests of projects

A project directory declares its classes in two files. The class map lists them
one by one. The project description maps beginnings of class names to
directories, in a section for use and one for development: every source file
below such a directory defines the class that its path spells.

The description is read by shape. A section and the description itself may also
be arrays, whose items are the fields in order; a field that is left out is
empty, one that stands twice or has another shape is an error, and others are
passed over.
-/

set_option autoImplicit false

namespace Emend

/-- Why a manifest cannot be built. -/
inductive ManifestError where
  /-- A file cannot be read. -/
  | unreadable (path : String) (fault : IoFault)
  | malformed (path : String)
  /-- The project has neither description nor class map. -/
  | noProject (root : String)
  deriving DecidableEq, Repr, Inhabited

def ManifestError.message : ManifestError → String
  | unreadable path fault => "io error reading " ++ path ++ ": " ++ fault.message
  | malformed path => "invalid composer.json at " ++ path
  | noProject root => "no composer.json or classmap under " ++ root

/-- What a section maps beginnings of names to: directories, in order. -/
abbrev Autoload := Table (List String)

namespace Autoload

def directories? : Json → Option (List String)
  | .text (some directory) => some [directory]
  | .array items => items.mapM fun
    | .text (some directory) => some directory
    | _ => none
  | _ => none

def rules? : Json → Option Autoload
  | .object members => members.foldlM (fun rules (start, directories) => do
      return rules.insert (← start) (← directories? directories)) {}
  | _ => none

/-- The members of an object under the given names, each of which stands at most
once; the others are passed over. -/
def fields? (names : List String) (members : List (Option String × Json)) :
    Option (Table Json) :=
  members.foldlM (fun fields (key, value) => do
    let key ← key
    if !names.contains key then return fields
    else if fields.contains key then none
    else return fields.insert key value) {}

/-- The fields of a value that is an object, or an array with one field after the
other. -/
def shape? (names : List String) : Json → Option (Table Json)
  | .object members => fields? names members
  | .array items =>
    if items.length ≤ names.length then some (.ofList (names.zip items)) else none
  | _ => none

def ofJson? (section_ : Json) : Option Autoload := do
  let fields ← shape? ["psr-4"] section_
  match fields.get? "psr-4" with
  | some rules => rules? rules
  | none => some {}

/-- The rules of a description: those for use, then those for development. -/
def ofDescription? (description : Json) : Option (List (String × List String)) := do
  let fields ← shape? ["autoload", "autoload-dev"] description
  let section_ (name : String) : Option Autoload :=
    match fields.get? name with
    | some value => ofJson? value
    | none => some {}
  return (← section_ "autoload").entries ++ (← section_ "autoload-dev").entries

end Autoload

namespace Manifest

def classMapPath : String := "vendor/composer/autoload_classmap.php"

def descriptionPath : String := "composer.json"

/-- The paths of the source files below a directory, or of the one file that
`base` is, each with the steps from there, of which the last has lost its
extension. -/
def sourcesBelow (tree : FileTree) (base : String) : List (List String × String) :=
  match tree.follow base, tree.find base with
  | .ok place, .ok .directory =>
    (tree.filesBelow place).filterMap fun steps =>
      let (stem, extension) := Path.stemAndExtension (steps.getLastD "")
      if extension == some "php" then
        some (Path.steps ("/".intercalate (steps.dropLast ++ [stem])),
          steps.foldl Path.join base)
      else none
  | _, .ok (.file _) =>
    let (_, extension) := Path.stemAndExtension ((Path.steps base).getLastD "")
    if extension == some "php" then [([], base)] else []
  | _, _ => []

/-- The classes that a rule finds: the beginning of their names followed by the
steps to their files. -/
def scan (tree : FileTree) (start base : String) : List (String × String) :=
  let start := Text.dropEnd '\\' (Text.dropStart '\\' start)
  (sourcesBelow tree base).map fun (steps, path) =>
    let name := "\\".intercalate steps
    (if start.isEmpty then name else start ++ "\\" ++ name, path)

def readClassMap (tree : FileTree) (path : String) : Except ManifestError Manifest :=
  match tree.read path with
  | .ok text => .ok (ofClassMap path text)
  | .error fault => .error (.unreadable path fault)

/-- The classes that the rules of a project find, in order. -/
def readRules (tree : FileTree) (root : String) : Except ManifestError (List (String × String)) :=
  let path := Path.join root descriptionPath
  if !tree.isFile path then .error (.noProject root)
  else
    match tree.read path with
    | .error fault => .error (.unreadable path fault)
    | .ok text =>
      match (Json.parse? text).bind Autoload.ofDescription? with
      | none => .error (.malformed path)
      | some rules => .ok (rules.flatMap fun (start, directories) =>
          directories.flatMap fun directory => scan tree start (Path.join root directory))

/-- The manifest of the rules of a project; of two files for one class the later
counts. -/
def ofRules (tree : FileTree) (root : String) : Except ManifestError Manifest := do
  return .ofList (← readRules tree root)

/-- The manifest of a project: its class map, then what its rules find besides. -/
def ofProject (tree : FileTree) (root : String) : Except ManifestError Manifest := do
  let mapPath := Path.join root classMapPath
  let hasMap := tree.isFile mapPath
  let hasDescription := tree.isFile (Path.join root descriptionPath)
  if !hasMap && !hasDescription then throw (.noProject root)
  let mapped ← if hasMap then readClassMap tree mapPath else pure empty
  if !hasDescription then return mapped
  return (← readRules tree root).foldl
    (fun manifest (name, path) => manifest.insertNew name path) mapped

end Manifest

end Emend

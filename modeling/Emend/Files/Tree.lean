import Emend.Files.Path
import Emend.Table

/-!
# Trees of text files

A `FileTree` holds files and directories under the steps that lead to them from
the root, and knows the directory that relative paths start in. Looking a path up
follows it step by step: every step but the last must lead to a directory, and a
path that ends in a separator must end at one. A step has at most 255 bytes and a
path at most 4095.

The tree has no links, and everything in it may be read and written; only running
a file as a program needs a permission, which no file has.
-/

set_option autoImplicit false

namespace Emend

/-- Why a file operation fails. -/
inductive IoFault where
  | notFound
  | alreadyExists
  | permissionDenied
  | notDirectory
  | isDirectory
  | nameTooLong
  deriving DecidableEq, Repr, Inhabited

def IoFault.message : IoFault → String
  | notFound => "No such file or directory (os error 2)"
  | permissionDenied => "Permission denied (os error 13)"
  | alreadyExists => "File exists (os error 17)"
  | notDirectory => "Not a directory (os error 20)"
  | isDirectory => "Is a directory (os error 21)"
  | nameTooLong => "File name too long (os error 36)"

/-- What stands at a place of the tree. -/
inductive FileNode where
  | directory
  | file (contents : String)
  deriving DecidableEq, Repr, Inhabited

/-- A place in a tree: the steps to it from the root. -/
abbrev Place := List String

/-- The key under which the node at a place is stored. -/
def Place.key (place : Place) : String := "/".intercalate place

/-- Files and directories, each under the place where it stands. -/
structure FileTree where
  /-- The directory that relative paths start in. -/
  home : Place
  /-- The nodes under the keys of their places. -/
  nodes : Table FileNode

namespace FileTree

/-- The node at a place; the root is always there. -/
def nodeAt? (tree : FileTree) (place : Place) : Option FileNode :=
  if place.isEmpty then some .directory else tree.nodes.get? (Place.key place)

def put (tree : FileTree) (place : Place) (node : FileNode) : FileTree :=
  { tree with nodes := tree.nodes.insert (Place.key place) node }

def without (tree : FileTree) (place : Place) : FileTree :=
  { tree with
    nodes := .ofList (tree.nodes.entries.filter fun (key, _) => key != Place.key place) }

/-- The tree with a starting directory and nothing in it. -/
def empty (home : Place) : FileTree :=
  (List.range home.length).foldl (fun tree n => tree.put (home.take (n + 1)) .directory) ⟨home, {}⟩

instance : Inhabited FileTree := ⟨empty []⟩

/-- One step from a place, which must be a directory. A step up from the root
stays there. -/
def step (tree : FileTree) (place : Place) (name : String) : Except IoFault Place :=
  match tree.nodeAt? place with
  | none => .error .notFound
  | some (.file _) => .error .notDirectory
  | some .directory =>
    if name == "." then .ok place
    else if name == ".." then .ok place.dropLast
    else if name.utf8ByteSize > 255 then .error .nameTooLong
    else .ok (place ++ [name])

def origin (tree : FileTree) (path : String) : Place :=
  if Path.isAbsolute path then [] else tree.home

def follow (tree : FileTree) (path : String) : Except IoFault Place :=
  if path.isEmpty then .error .notFound
  else if path.utf8ByteSize > 4095 then .error .nameTooLong
  else (Path.steps path).foldlM tree.step (tree.origin path)

def find (tree : FileTree) (path : String) : Except IoFault FileNode := do
  let place ← tree.follow path
  match tree.nodeAt? place with
  | none => .error .notFound
  | some (.file contents) =>
    if Path.wantsDirectory path then .error .notDirectory else .ok (.file contents)
  | some .directory => .ok .directory

def read (tree : FileTree) (path : String) : Except IoFault String := do
  match ← tree.find path with
  | .file contents => .ok contents
  | .directory => .error .isDirectory

def isFile (tree : FileTree) (path : String) : Bool :=
  match tree.find path with
  | .ok (.file _) => true
  | _ => false

def isDirectory (tree : FileTree) (path : String) : Bool :=
  match tree.find path with
  | .ok .directory => true
  | _ => false

/-- Write a file: a file that is there is replaced, a new one needs its
directory. -/
def write (tree : FileTree) (path contents : String) : Except IoFault FileTree := do
  let place ← tree.follow path
  match tree.nodeAt? place with
  | some .directory => .error .isDirectory
  | _ =>
    if Path.wantsDirectory path then
      .error (if (tree.nodeAt? place).isSome then .notDirectory else .isDirectory)
    else .ok (tree.put place (.file contents))

/-- Make a new file, for which the place must be free. -/
def create (tree : FileTree) (path contents : String) : Except IoFault FileTree := do
  let place ← tree.follow path
  if (tree.nodeAt? place).isSome then .error .alreadyExists
  else if Path.wantsDirectory path then .error .isDirectory
  else .ok (tree.put place (.file contents))

/-- Make a new file at the first path from number `n` on that is free; gives its
path too. -/
def createFrom (tree : FileTree) (path : Nat → String) (contents : String) (n : Nat) :
    Nat → Except IoFault (FileTree × String)
  | 0 => .error .alreadyExists
  | tries + 1 =>
    match tree.create (path n) contents with
    | .ok made => .ok (made, path n)
    | .error .alreadyExists => createFrom tree path contents (n + 1) tries
    | .error fault => .error fault

/-- Go one step further and make a directory there, unless there is one. -/
def enter (here : FileTree × Place) (name : String) : Except IoFault (FileTree × Place) := do
  let (tree, place) := here
  let next ← tree.step place name
  match tree.nodeAt? next with
  | some .directory => .ok (tree, next)
  | some (.file _) => .error .alreadyExists
  | none => .ok (tree.put next .directory, next)

/-- The fault of making a directory when a file stands in the way: at the last
step it exists already, before that it is no directory. -/
def enterAll (here : FileTree × Place) : List String → Except IoFault (FileTree × Place)
  | [] => .ok here
  | name :: names =>
    match enter here name with
    | .error .alreadyExists => .error (if names.isEmpty then .alreadyExists else .notDirectory)
    | .error fault => .error fault
    | .ok next => enterAll next names

/-- Make a directory and those on the way to it; the empty path needs none. -/
def makeDirectories (tree : FileTree) (path : String) : Except IoFault FileTree :=
  if path.isEmpty then .ok tree
  else (enterAll (tree, tree.origin path) (Path.steps path)).map Prod.fst

def remove (tree : FileTree) (path : String) : Except IoFault FileTree := do
  let place ← tree.follow path
  match ← tree.find path with
  | .directory => .error .isDirectory
  | .file _ => .ok (tree.without place)

/-- Remove what a path leads to, with everything below it. -/
def removeAll (tree : FileTree) (path : String) : Except IoFault FileTree := do
  let place ← tree.follow path
  let _ ← tree.find path
  let isGone (key : String) : Bool :=
    key == Place.key place || (Text.strip? (Place.key place ++ "/") key).isSome
  .ok { tree with nodes := .ofList (tree.nodes.entries.filter fun (key, _) => !isGone key) }

/-- Make one directory, for which the place must be free. -/
def makeDirectory (tree : FileTree) (path : String) : Except IoFault FileTree := do
  let place ← tree.follow path
  if (tree.nodeAt? place).isSome then .error .alreadyExists
  else .ok (tree.put place .directory)

/-- Write a file and make the directories on the way to it. -/
def place (tree : FileTree) (path contents : String) : Except IoFault FileTree := do
  let tree ← tree.makeDirectories ((Path.parent? path).getD "")
  tree.write path contents

/-- The tree with these directories and files; what cannot be made is left out. -/
def ofEntries (home : Place) (directories : List String) (files : List (String × String)) :
    FileTree :=
  let withDirectories := directories.foldl
    (fun tree path => (tree.makeDirectories path).toOption.getD tree) (empty home)
  files.foldl (fun tree (path, contents) => (tree.place path contents).toOption.getD tree)
    withDirectories

def stepsBelow? : Place → Place → Option (List String)
  | [], step :: steps => some (step :: steps)
  | a :: as, b :: bs => if a = b then stepsBelow? as bs else none
  | _, [] => none

def below (tree : FileTree) (place : Place) : List (List String × FileNode) :=
  tree.nodes.entries.filterMap fun (key, node) =>
    (stepsBelow? place (Text.split Path.separator key)).map fun steps => (steps, node)

def filesBelow (tree : FileTree) (place : Place) : List (List String) :=
  let files := (tree.below place).filter fun (_, node) =>
    match node with
    | .file _ => true
    | .directory => false
  (files.map Prod.fst).mergeSort fun a b => Place.key a ≤ Place.key b

/-- The names in the directory that a path leads to, in order; `none` if it leads
to none. -/
def list? (tree : FileTree) (path : String) : Option (List String) :=
  match tree.follow path, tree.find path with
  | .ok place, .ok .directory =>
    let names := (tree.below place).filterMap fun (steps, _) =>
      match steps with
      | [name] => some name
      | _ => none
    some (names.mergeSort (· ≤ ·))
  | _, _ => none

/-- The path from the root to the place that a path leads to. -/
def absolute (tree : FileTree) (path : String) : Except IoFault String := do
  return "/" ++ Place.key (← tree.follow path)

def enterDirectory (tree : FileTree) (path : String) : Except IoFault FileTree := do
  match ← tree.find path with
  | .directory => return { tree with home := ← tree.follow path }
  | .file _ => .error .notDirectory

end FileTree

end Emend

import Emend.CommandLine

/-!
# The program

Reads the text files below the current directory into a tree, runs the command that
the arguments mean, writes back the files that it changed, and prints.
-/

set_option autoImplicit false

namespace Emend.Main

def currentPlace : IO Place := do
  return Path.steps (← IO.currentDir).toString

/-- Add what is below a directory to a tree. Files that are no text are left out. -/
partial def load (tree : FileTree) (place : Place) : IO FileTree := do
  let here ← IO.currentDir
  let path := "/" ++ Place.key place
  let mut tree := tree
  for entry in ← (here / path).readDir do
    let inner := place ++ [entry.fileName]
    if ← entry.path.isDir then
      tree ← load (tree.put inner .directory) inner
    else
      try tree := tree.put inner (.file (← IO.FS.readFile entry.path))
      catch _ => pure ()
  return tree

/-- Write the files of a tree that differ from those of the tree before. -/
def store (before after : FileTree) : IO Unit := do
  for (key, node) in after.nodes.entries do
    if before.nodes.get? key != some node then
      match node with
      | .directory => IO.FS.createDirAll ("/" ++ key)
      | .file contents => IO.FS.writeFile ("/" ++ key) contents

end Emend.Main

/-- Run the command line. -/
def main (arguments : List String) : IO UInt32 := do
  let place ← Emend.Main.currentPlace
  let before ← Emend.Main.load (Emend.FileTree.empty place) place
  let result := Emend.CommandLine.run before arguments
  Emend.Main.store before result.tree
  IO.print result.output
  IO.eprint result.errors
  return result.status.toUInt32

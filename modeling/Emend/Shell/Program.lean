import Emend.Checker
import Emend.Shell.Run

/-!
# Programs as checkers

A checker is usually a program that is given the file as its last argument. The
programs that can be run are the tools, the shell, which runs a script from its
arguments or from a file, and programs that run others. A program runs in a
directory of its own choice, and what it prints is read as text.
-/

set_option autoImplicit false

namespace Emend

structure Program where
  name : String
  arguments : List String
  limit : Nat
  workingDirectory : Option String
  deriving DecidableEq, Repr, Inhabited

namespace Program

open Shell

/-- How many steps a shell may take before it is stopped. -/
def steps : Nat := 300000

/-- Start a program and let it end. -/
def start (tree : FileTree) (limit : Nat) (name : String) (arguments : List String) :
    Except IoFault Machine :=
  match execute steps name arguments (Machine.start tree limit name) with
  | some m => .ok m
  | none => .error (if (tree.find name).toBool && Text.contains "/" name
      then .permissionDenied else .notFound)

/-- The program as a checker. A program that may take no time at all never ends in
time. -/
def toChecker (program : Program) : Checker := fun tree path =>
  let started := do
    let inside ← match program.workingDirectory with
      | some directory => tree.enterDirectory directory
      | none => .ok tree
    start inside program.limit program.name (program.arguments ++ [path])
  match started with
  | .error fault => (tree, .error (.notStarted program.name fault))
  | .ok m =>
    let after := { m.tree with home := tree.home }
    let output := Text.ofBytes ((m.buffers.headD []).reverse.flatten)
    if program.limit == 0 then (after, .error (.timedOut program.name program.limit))
    else
      match m.halt with
      | some .outOfTime => (after, .error (.timedOut program.name program.limit))
      | some (.killed _) => (after, .ok (.ofExit none output))
      | some (.exited status) => (after, .ok (.ofExit (some status) output))
      | _ => (after, .ok (.ofExit (some m.status) output))

end Program

end Emend

import Emend.Files.Tree

/-!
# Checkers

A checker looks at one file and reports. It sees the files around it and may
change them. `CheckError` says why there is no report; what is wrong with the file
is part of the report. What a program prints can always be read here, so no error
says that it cannot.
-/

set_option autoImplicit false

namespace Emend

/-- What a checker says about a file. -/
structure CheckReport where
  success : Bool
  /-- The number that the checker ended with; none if it was stopped. -/
  exitCode : Option Int
  output : String
  deriving DecidableEq, Repr, Inhabited

namespace CheckReport

/-- The report of a file that passed without a word. -/
def passed : CheckReport := ⟨true, some 0, ""⟩

/-- The report of a checker that ended with a number, which is zero for a file that
passed. -/
def ofExit (exitCode : Option Int) (output : String) : CheckReport :=
  ⟨exitCode == some 0, exitCode, output⟩

end CheckReport

/-- A span of time in the largest unit of which there is at least one, with the
fewest digits. -/
def milliseconds (n : Nat) : String :=
  if n == 0 then "0ns"
  else if n < 1000 then toString n ++ "ms"
  else
    let digits := (toString (1000 + n % 1000)).toList.drop 1
    let fraction := String.ofList (Text.dropEndWhile (· == '0') digits)
    toString (n / 1000) ++ (if fraction.isEmpty then "" else "." ++ fraction) ++ "s"

inductive CheckError where
  /-- The program cannot be started. -/
  | notStarted (program : String) (fault : IoFault)
  | timedOut (program : String) (limit : Nat)
  deriving DecidableEq, Repr, Inhabited

namespace CheckError

def message : CheckError → String
  | notStarted program fault =>
    "failed to spawn checker '" ++ program ++ "': " ++ fault.message
  | timedOut program limit => "checker '" ++ program ++ "' timed out after " ++ milliseconds limit

def causes : CheckError → List String
  | notStarted _ fault => [fault.message]
  | timedOut _ _ => []

end CheckError

/-- A checker of files: given the files and the path of one, the files afterwards
and the report. -/
abbrev Checker := FileTree → String → FileTree × Except CheckError CheckReport

end Emend

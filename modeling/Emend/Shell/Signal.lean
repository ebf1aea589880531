import Emend.Text.Blank

/-!
# Signals

The signals that end programs, by name and number, and what a shell says of a program
that one of them has ended.
-/

set_option autoImplicit false

namespace Emend.Shell.Signal

/-- The names of the signals, by number; the first one stands for the end of the
shell. -/
def names : List String :=
  ["EXIT", "HUP", "INT", "QUIT", "ILL", "TRAP", "ABRT", "BUS", "FPE", "KILL", "USR1", "SEGV",
    "USR2", "PIPE", "ALRM", "TERM", "STKFLT", "CHLD", "CONT", "STOP", "TSTP", "TTIN", "TTOU",
    "URG", "XCPU", "XFSZ", "VTALRM", "PROF", "WINCH", "IO", "PWR", "SYS"]

def number? (text : String) : Option Nat :=
  match text.toNat? with
  | some n => if n < names.length then some n else none
  | none => names.idxOf? (.ofList (text.toList.map Char.toUpper))

def name (number : Nat) : String := names.getD number ""

/-- The signal that ends a program when no other one is named. -/
def usual : Nat := 15

/-- The signal that nothing can stand against. -/
def kill : Nat := 9

/-- What a signal does to a program that does nothing about it. -/
inductive Effect where
  | none
  | ends
  /-- The program waits, and nobody wakes it. -/
  | stops
  deriving DecidableEq, Repr, Inhabited

def effect (number : Nat) : Effect :=
  if ["EXIT", "CHLD", "CONT", "URG", "WINCH"].contains (name number) then .none
  else if ["STOP", "TSTP", "TTIN", "TTOU"].contains (name number) then .stops
  else .ends

/-- What a shell says of a program that a signal has ended. -/
def obituary (number : Nat) : Option String :=
  match name number with
  | "HUP" => some "Hangup"
  | "INT" => none
  | "PIPE" => none
  | "QUIT" => some "Quit"
  | "ILL" => some "Illegal instruction"
  | "TRAP" => some "Trace/breakpoint trap"
  | "ABRT" => some "Aborted"
  | "BUS" => some "Bus error"
  | "FPE" => some "Floating point exception"
  | "KILL" => some "Killed"
  | "USR1" => some "User defined signal 1"
  | "SEGV" => some "Segmentation fault"
  | "USR2" => some "User defined signal 2"
  | "ALRM" => some "Alarm clock"
  | _ => some "Terminated"

end Emend.Shell.Signal

import Emend.Error
import Emend.Text.Letter

/-!
# Validation

Text is validated by giving a copy of it to a checker. A bootstrap directive is
put into the copy, behind the opening statements and ahead of the first
declaration, so line numbers that the checker reports below it are one too high.
Text that passes is not changed.
-/

set_option autoImplicit false

namespace Emend

structure Validator where
  bootstrap : Option String
  tempRoot : String
  /-- What the output of a checker starts with if there is a fatal error. -/
  fatalMarkers : List String
  deriving DecidableEq, Repr, Inhabited

structure Instrumented where
  text : String
  bootstrapLine : Option Nat
  deriving DecidableEq, Repr, Inhabited

namespace Instrumented

/-- What the first line of a declaration or of its doc comment starts with. -/
def declarationStarts : List String :=
  ["/**", "#[", "abstract ", "final ", "readonly ", "class ", "interface ", "trait ", "enum ",
    "function "]

def startsDeclaration (line : String) : Bool :=
  declarationStarts.any fun start => (Text.strip? start line).isSome

/-- Whether a line starts with a statement of this keyword. -/
def opens (keyword line : String) : Bool :=
  match (Text.strip? keyword line).bind (·.toList.head?) with
  | some next => Text.isBlank next || next == '(' || next == '{' || next == ';'
  | none => false

/-- How many lines stand before the directive: those up to the first `namespace`
statement ahead of all declarations, else up to the first `declare` statement,
else one. -/
def splitIndex (lines : List String) : Nat :=
  let header := lines.takeWhile (!startsDeclaration ·)
  let after (keyword : String) : Option Nat := (header.findIdx? (opens keyword)).map (· + 1)
  (after "namespace" <|> after "declare").getD 1

def ofText (bootstrap : Option String) (text : String) : Instrumented :=
  match bootstrap with
  | none => ⟨text, none⟩
  | some directive =>
    let lines := Text.lines text
    let at_ := splitIndex lines
    let all := lines.take at_ ++ [directive] ++ lines.drop at_
    ⟨"\n".intercalate all ++ "\n", some (at_ + 1)⟩

def ownLine (copy : Instrumented) (line : Nat) : Nat :=
  match copy.bootstrapLine with
  | some inserted => if inserted < line then line - 1 else line
  | none => line

end Instrumented

namespace Validator

/-- The number of a run of digits, if they are `0` to `9` and it fits into 64
bits. -/
def lineNumber? (digits : List Char) : Option Nat :=
  let n := digits.foldl (fun n c => n * 10 + (c.toNat - '0'.toNat)) 0
  if digits.all Char.isDigit && n < 0x10000000000000000 then some n else none

/-- The run of digits after the first `on line` that digits of any script
follow. -/
def reportedDigits? : List Char → Option (List Char)
  | [] => none
  | c :: cs =>
    match Text.stripPrefix? "on line ".toList (c :: cs) with
    | some rest =>
      match rest.takeWhile Text.isDecimalDigit with
      | [] => reportedDigits? cs
      | digits => some digits
    | none => reportedDigits? cs

def reportedLine? (output : String) : Option Nat :=
  (reportedDigits? output.toList).bind lineNumber?

/-- The error that a report on a copy at `path` means; none if the text
passed. -/
def verdict (validator : Validator) (copy : Instrumented) (path : String) (report : CheckReport) :
    Option Error :=
  if report.success then none
  else
    let output := Text.trimStart report.output
    if validator.fatalMarkers.any fun marker => (Text.strip? marker output).isSome then
      some (.fatal (Text.trim ((Text.lines output).headD "")) (Text.trim report.output) path
        ((reportedLine? output).map copy.ownLine))
    else some (.refused report.exitCode report.output)

/-- What a checker said of a copy at `path`: nothing is wrong, or the error that it
means. -/
def judgement (validator : Validator) (copy : Instrumented) (path : String) :
    Except CheckError CheckReport → Except Error Unit
  | .error cause => .error (.check cause)
  | .ok report =>
    match validator.verdict copy path report with
    | some error => .error error
    | none => .ok ()

def copyName (n : Nat) : String :=
  let digits := (toString n).toList
  "scribe-" ++ .ofList (List.replicate (6 - digits.length) '0' ++ digits) ++ ".php"

def copyTries : Nat := 65536

/-- Write a copy to a new file in the directory for copies, which is made if need
be; gives its path. -/
def putCopy (validator : Validator) (tree : FileTree) (contents : String) :
    FileTree × Except IoFault String :=
  match tree.makeDirectories validator.tempRoot with
  | .error fault => (tree, .error fault)
  | .ok tree =>
    let made := do
      let root ← tree.absolute (if validator.tempRoot.isEmpty then "." else validator.tempRoot)
      tree.createFrom (fun n => Path.join root (copyName n)) contents 0 copyTries
    match made with
    | .error fault => (tree, .error fault)
    | .ok (tree, path) => (tree, .ok path)

/-- Validate a text, and give it back if it passes. The copy is removed again whatever
the checker says. -/
def validate (validator : Validator) (checker : Checker) (tree : FileTree) (text : String) :
    FileTree × Except Error String :=
  let copy := Instrumented.ofText validator.bootstrap text
  match validator.putCopy tree copy.text with
  | (tree, .error fault) => (tree, .error (.io validator.tempRoot fault))
  | (tree, .ok path) =>
    let (tree, report) := checker tree path
    ((tree.remove path).toOption.getD tree,
      (validator.judgement copy path report).map fun _ => text)

end Validator

/-- The directory for copies when none is set. -/
def defaultTempRoot : String := "/tmp/scribe"

def Settings.toValidator (settings : Settings) : Validator :=
  ⟨settings.bootstrap?, settings.validator.tempRoot.getD defaultTempRoot,
    settings.validator.fatalMarkers⟩

end Emend

import Emend.Files.Tree
import Emend.Text.Utf8

/-!
# Tools

A tool is a program as a function of its arguments, its input and the files: it
gives what it prints, its status, the files afterwards and the time it takes. Here
is what the tools share: inputs, complaints and options.
-/

set_option autoImplicit false

namespace Emend.Shell

structure Call where
  arguments : List String
  input : List UInt8
  fromFile : Bool
  tree : FileTree

structure Outcome where
  /-- What it prints, piece by piece, each with its channel. -/
  pieces : List (Nat × List UInt8)
  /-- Its status; zero is success. -/
  status : Nat
  tree : FileTree
  time : Nat
  left : List UInt8

namespace Outcome

/-- A tool that only has a status. -/
def ofStatus (call : Call) (status : Nat) : Outcome := ⟨[], status, call.tree, 0, call.input⟩

def print (outcome : Outcome) (bytes : List UInt8) : Outcome :=
  { outcome with pieces := outcome.pieces ++ [(1, bytes)] }

def complain (outcome : Outcome) (status : Nat) (complaint : String) : Outcome :=
  { outcome with
    pieces := outcome.pieces ++ [(2, Text.bytes (complaint ++ "\n"))]
    status := status }

def output (outcome : Outcome) : List UInt8 :=
  outcome.pieces.flatMap fun (channel, bytes) => if channel == 1 then bytes else []

def silent (outcome : Outcome) : Outcome :=
  { outcome with pieces := outcome.pieces.filter fun (channel, _) => channel == 1 }

def ofBytes (call : Call) (bytes : List UInt8) : Outcome := (ofStatus call 0).print bytes

def printed (call : Call) (text : String) : Outcome := ofBytes call (Text.bytes text)

def failed (call : Call) (status : Nat) (complaint : String) : Outcome :=
  (ofStatus call status).complain status complaint

end Outcome

namespace Tool

def faultText : IoFault → String
  | .notFound => "No such file or directory"
  | .alreadyExists => "File exists"
  | .permissionDenied => "Permission denied"
  | .notDirectory => "Not a directory"
  | .isDirectory => "Is a directory"
  | .nameTooLong => "File name too long"

/-- A number with an optional sign. -/
def integer? (text : String) : Option Int :=
  let (negative, cs) := match text.toList with
    | '-' :: cs => (true, cs)
    | '+' :: cs => (false, cs)
    | cs => (false, cs)
  if cs.isEmpty || !cs.all Char.isDigit then none
  else
    let n : Int := (cs.foldl (fun n c => n * 10 + (c.toNat - '0'.toNat)) 0 : Nat)
    some (if negative then -n else n)

/-! ## Input -/

def nullFile : String := "/dev/null"

/-- The text of a file; the input can also be named. -/
def readFile (call : Call) (file : String) : Except IoFault String :=
  if file == "-" || file == "/dev/stdin" then .ok (Text.ofBytes call.input)
  else if file == nullFile then .ok ""
  else call.tree.read file

/-- The inputs of a tool: its files under their names, or its input without one; `-`
means the input. -/
def inputs (call : Call) (files : List String) : List (String × Except IoFault String) :=
  if files.isEmpty then [("", .ok (Text.ofBytes call.input))]
  else files.map fun file => (file, readFile call file)

/-- A complaint about a file as most tools word it. -/
def usualComplaint (tool name : String) (fault : IoFault) : String :=
  tool ++ ": " ++ name ++ ": " ++ faultText fault

/-- A complaint about a file as some tools word it. -/
def openComplaint (tool name : String) (fault : IoFault) : String :=
  if fault == .isDirectory then tool ++ ": error reading '" ++ name ++ "': " ++ faultText fault
  else tool ++ ": cannot open '" ++ name ++ "' for reading: " ++ faultText fault

/-- The outcome of a tool that has done nothing yet with these files; without files,
or for `-`, it reads all of its input. -/
def reading (call : Call) (files : List String) : Outcome :=
  { Outcome.ofStatus call 0 with
    left := if files.isEmpty || files.contains "-" then [] else call.input }

/-- Do something with each input; inputs that cannot be read are complained
about. -/
def overInputs (call : Call) (complaint : String → IoFault → String) (failure : Nat)
    (files : List String) (f : String → String → List UInt8) : Outcome :=
  (inputs call files).foldl (fun outcome (name, content) =>
    match content with
    | .ok text => outcome.print (f name text)
    | .error fault => outcome.complain failure (complaint name fault)) (reading call files)

/-- The lines of a text, as they stand between line feeds. -/
def rawLines (text : String) : List String :=
  let pieces := Text.split '\n' text
  if pieces.getLast? == some "" then pieces.dropLast else pieces

/-- Lines of which each ends in a line feed. -/
def unlines (lines : List String) : String := String.join (lines.map (· ++ "\n"))

def overLines (call : Call) (tool : String) (files : List String)
    (f : List String → List String) : Outcome :=
  overInputs call (usualComplaint tool) 1 files fun _ text =>
    Text.bytes (unlines (f (rawLines text)))

/-! ## Options -/

def isOption (argument : String) : Bool :=
  (Text.strip? "-" argument).isSome && argument != "-"

/-- The arguments that are options of one dash, and the others; two dashes end the
options. -/
def options (arguments : List String) : List String × List String :=
  let given := arguments.takeWhile fun a => isOption a && a != "--"
  let rest := arguments.drop given.length
  (given, if rest.head? == some "--" then rest.drop 1 else rest)

def letters (options : List String) : List Char := options.flatMap (·.toList.drop 1)

/-- Read options of which some have a value, which may stand in the next argument:
the letters without a value, the values of the others, and the arguments that are no
options. Options may stand anywhere. The first argument bounds the steps. -/
def optionsWith (valued : List Char) :
    Nat → List String → List Char × List (Char × String) × List String
  | 0, arguments => ([], [], arguments)
  | _, [] => ([], [], [])
  | fuel + 1, argument :: rest =>
    if argument == "--" then ([], [], rest)
    else if !isOption argument then
      let (flags, values, others) := optionsWith valued fuel rest
      (flags, values, argument :: others)
    else
      let cs := argument.toList.drop 1
      let own := cs.takeWhile fun c => !valued.contains c
      match cs.drop own.length with
      | [] =>
        let (flags, values, others) := optionsWith valued fuel rest
        (own ++ flags, values, others)
      | [c] =>
        let (flags, values, others) := optionsWith valued fuel (rest.drop 1)
        (own ++ flags, (c, rest.headD "") :: values, others)
      | c :: value =>
        let (flags, values, others) := optionsWith valued fuel rest
        (own ++ flags, (c, .ofList value) :: values, others)

end Tool

end Emend.Shell

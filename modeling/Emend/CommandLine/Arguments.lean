import Emend.Table
import Emend.Text.Blank

/-!
# Arguments of the command line

An argument is an option with a long and perhaps a short name, a switch, or a
positional value. Options may stand anywhere; those of all commands also in front
of the command. A value follows its option in the next argument or after an equals
sign, after a short name also directly. Two dashes alone end the options.

`Arguments.read` sorts arguments into the values of a scheme, or says why it
cannot: a usage error, or a request for help or for the version.
-/

set_option autoImplicit false

namespace Emend

inductive OptionKind where
  | value
  /-- At most once, with a path, which is not empty. -/
  | path
  | values
  | switch
  /-- Any number of times, without a value. -/
  | counter
  deriving DecidableEq, Repr, Inhabited

structure OptionSpec where
  name : String
  letter : Option Char
  kind : OptionKind
  deriving DecidableEq, Repr, Inhabited

/-- Which arguments a command takes. -/
structure Scheme where
  options : List OptionSpec
  /-- How many positional values it takes at most; none for any number. -/
  most : Option Nat
  hasVersion : Bool
  deriving DecidableEq, Repr, Inhabited

/-- Why arguments are not read to their end. -/
inductive ArgumentStop where
  | usage
  | help
  | version
  deriving DecidableEq, Repr, Inhabited

structure Arguments where
  /-- The values of the options that are given; a switch has empty ones. -/
  given : Table (List String)
  positional : List String

namespace Arguments

def empty : Arguments := ⟨{}, []⟩

instance : Inhabited Arguments := ⟨empty⟩

def all (arguments : Arguments) (name : String) : List String :=
  (arguments.given.get? name).getD []

def one? (arguments : Arguments) (name : String) : Option String := (arguments.all name).getLast?

def has (arguments : Arguments) (name : String) : Bool := arguments.given.contains name

def takesValue : OptionKind → Bool
  | .value | .path | .values => true
  | .switch | .counter => false

def add (arguments : Arguments) (option : OptionSpec) (value : String) :
    Except ArgumentStop Arguments :=
  let repeated := arguments.has option.name
  match option.kind with
  | .values | .counter =>
    .ok { arguments with
      given := arguments.given.insert option.name (arguments.all option.name ++ [value]) }
  | .value | .switch =>
    if repeated then .error .usage
    else .ok { arguments with given := arguments.given.insert option.name [value] }
  | .path =>
    if repeated || value.isEmpty then .error .usage
    else .ok { arguments with given := arguments.given.insert option.name [value] }

def isValue (argument : String) : Bool :=
  argument == "-" || (Text.strip? "-" argument).isNone

def request? (scheme : Scheme) (name : String) : Option ArgumentStop :=
  match name with
  | "help" | "h" => some .help
  | "version" | "V" => if scheme.hasVersion then some .version else none
  | _ => none

/-- Read an option by its long name; gives the arguments that are left. -/
def readLong (scheme : Scheme) (arguments : Arguments) (body : String) (rest : List String) :
    Except ArgumentStop (Arguments × List String) :=
  let (name, attached) := match Text.cut? '=' body with
    | some (name, value) => (name, some value)
    | none => (body, none)
  match scheme.options.find? fun option => option.name == name with
  | none => .error (if attached.isSome then .usage else (request? scheme name).getD .usage)
  | some option =>
    match takesValue option.kind, attached, rest with
    | true, some value, _ => do return (← arguments.add option value, rest)
    | true, none, value :: rest =>
      if isValue value then do return (← arguments.add option value, rest) else .error .usage
    | true, none, [] => .error .usage
    | false, some _, _ => .error .usage
    | false, none, _ => do return (← arguments.add option "", rest)

/-- Read letters after one dash: switches, of which the last may be an option whose
value follows. -/
def readLetters (scheme : Scheme) (arguments : Arguments) (rest : List String) :
    List Char → Except ArgumentStop (Arguments × List String)
  | [] => .ok (arguments, rest)
  | c :: cs =>
    match scheme.options.find? fun option => option.letter == some c with
    | none => .error ((request? scheme (.ofList [c])).getD .usage)
    | some option =>
      if takesValue option.kind then
        match cs, rest with
        | '=' :: value, _ => do return (← arguments.add option (.ofList value), rest)
        | [], value :: rest =>
          if isValue value then do return (← arguments.add option value, rest) else .error .usage
        | [], [] => .error .usage
        | value, _ => do return (← arguments.add option (.ofList value), rest)
      else
        match arguments.add option "" with
        | .ok arguments => readLetters scheme arguments rest cs
        | .error stop => .error stop

def addPositional (scheme : Scheme) (arguments : Arguments) (value : String) :
    Except ArgumentStop Arguments :=
  if scheme.most.all (arguments.positional.length < ·) then
    .ok { arguments with positional := arguments.positional ++ [value] }
  else .error .usage

/-- Read arguments one after the other. The scheme of a command that has commands of
its own takes no positional values; there reading stops at the first, which is given
back with the arguments after it. The first argument bounds the number of steps. -/
def readFrom (scheme : Scheme) : Nat → Arguments → List String →
    Except ArgumentStop (Arguments × List String)
  | 0, arguments, rest => .ok (arguments, rest)
  | _, arguments, [] => .ok (arguments, [])
  | fuel + 1, arguments, argument :: rest =>
    if argument == "--" then do
      return (← rest.foldlM (addPositional scheme) arguments, [])
    else
      match Text.strip? "--" argument, Text.strip? "-" argument with
      | some body, _ => do
        let (arguments, rest) ← readLong scheme arguments body rest
        readFrom scheme fuel arguments rest
      | none, some letters =>
        if letters.isEmpty then positional fuel arguments argument rest
        else do
          let (arguments, rest) ← readLetters scheme arguments rest letters.toList
          readFrom scheme fuel arguments rest
      | none, none => positional fuel arguments argument rest
where
  positional (fuel : Nat) (arguments : Arguments) (value : String) (rest : List String) :
      Except ArgumentStop (Arguments × List String) :=
    if scheme.most == some 0 then .ok (arguments, value :: rest)
    else do readFrom scheme fuel (← addPositional scheme arguments value) rest

/-- Read arguments by a scheme; what is left starts with the first positional value
of a scheme that takes none. -/
def read (scheme : Scheme) (arguments : List String) :
    Except ArgumentStop (Arguments × List String) :=
  readFrom scheme arguments.length empty arguments

end Arguments

end Emend

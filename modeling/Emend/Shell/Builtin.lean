import Emend.Shell.Machine
import Emend.Shell.Reader
import Emend.Shell.Signal
import Emend.Shell.Toolbox

/-!
# Commands of the shell itself

The commands that look at the shell or change it, and do not run other commands.
-/

set_option autoImplicit false

namespace Emend.Shell

namespace Builtin

/-- The commands whose assignments stay, whose faults stop the shell, and which no
function can replace. -/
def special : List String :=
  [".", ":", "break", "continue", "eval", "exec", "exit", "export", "readonly", "return", "set",
    "shift", "times", "trap", "unset"]

def regular : List String :=
  ["[", "alias", "bg", "cd", "command", "echo", "false", "fg", "getopts", "hash", "jobs", "kill",
    "local", "printf", "pwd", "read", "test", "true", "type", "ulimit", "umask", "unalias", "wait"]

def keywords : List String := closingKeywords ++ openingKeywords ++ ["in"]

end Builtin

namespace Machine

/-- Run a tool that is part of the shell: its complaints name the place in the
script. -/
def applyOwn (m : Machine) (tool : Call → Outcome) (arguments : List String) : Machine :=
  let outcome := tool (m.toolCall arguments)
  m.after { outcome with
    pieces := outcome.pieces.map fun (channel, bytes) =>
      (channel, if channel == 2 then Text.bytes m.place ++ bytes else bytes) }

/-! ## Leaving -/

/-- The status that an argument gives, which is that of the last command without one;
`none` if it is no number. -/
def statusOf? (m : Machine) (arguments : List String) : Option Nat :=
  match arguments.head? with
  | none => some (m.ending.getD m.status)
  | some number =>
    if number.isEmpty || !number.toList.all Char.isDigit then none
    else number.toNat?.map (· % 256)

/-- Leave the shell, or only a function. -/
def leave (m : Machine) (name : String) (halt : Nat → Halt) (arguments : List String) : Machine :=
  match m.statusOf? arguments with
  | some status => { m with halt := some (halt status), status := status }
  | none => (m.reportUse name ("Illegal number: " ++ arguments.headD "") 2).stop

/-- Leave loops, or go on with their next turn. -/
def leaveLoops (m : Machine) (name : String) (again : Bool) (arguments : List String) : Machine :=
  match (arguments.headD "1").toNat? with
  | none | some 0 => (m.reportUse name ("Illegal number: " ++ arguments.headD "") 2).stop
  | some count =>
    if m.loops == 0 then m.withStatus 0
    else { m with halt := some (.leaving count again), status := 0 }

/-! ## Parameters -/

/-- Go through arguments that are names, with values or without. A name that is none
stops the shell. -/
def overNames (m : Machine) (builtin : String) (f : Machine → String → Option String → Machine)
    (arguments : List String) : Machine :=
  arguments.foldl (fun m argument =>
    if m.halt.isSome then m
    else
      let (name, value) := match Text.cut? '=' argument with
        | some (name, value) => (name, some value)
        | none => (argument, none)
      if isName name.toList then f m name value
      else (m.reportUse builtin (name ++ ": bad variable name") 2).stop) (m.withStatus 0)

def assignIfGiven (m : Machine) (name : String) (value : Option String) : Machine :=
  match value with
  | some value => m.assign name value
  | none => m

/-- Let programs know parameters. -/
def exportNames (m : Machine) (arguments : List String) : Machine :=
  m.overNames "export" (fun m name value =>
    { m.assignIfGiven name value with exported := name :: m.exported }) arguments

/-- Keep parameters from changing. -/
def fix (m : Machine) (arguments : List String) : Machine :=
  m.overNames "readonly" (fun m name value =>
    { m.assignIfGiven name value with constants := name :: m.constants }) arguments

/-- Make parameters local to the function that is being run. -/
def localize (m : Machine) (arguments : List String) : Machine :=
  match m.hidden with
  | [] => (m.reportUse "local" "not in a function" 2).stop
  | _ =>
    m.overNames "local" (fun m name value =>
      let m := match m.hidden with
        | inner :: outer =>
          { m with hidden := ((name, m.parameters.get? name) :: inner) :: outer }
        | [] => m
      m.assignIfGiven name value) arguments

def forget (m : Machine) (arguments : List String) : Machine :=
  let (flags, names) := Tool.options arguments
  if flags.contains "-f" then
    { m with functions := m.functions.filter fun (name, _) => !names.contains name, status := 0 }
  else
    m.overNames "unset" (fun m name _ =>
      if m.constants.contains name then
        (m.reportUse "unset" (name ++ ": is read only") 2).stop
      else m.unset name) names

def shift (m : Machine) (arguments : List String) : Machine :=
  match (arguments.headD "1").toNat? with
  | none => (m.reportUse "shift" ("Illegal number: " ++ arguments.headD "") 2).stop
  | some n =>
    if n ≤ m.arguments.length then { m with arguments := m.arguments.drop n, status := 0 }
    else (m.reportUse "shift" "can't shift that many" 2).stop

/-- Set switches and arguments, from an argument list of the shell or of `set`; gives
what is left. A switch that does not exist ends the reading. -/
def readSwitches (switches : Switches) : List String → Except String (Switches × List String)
  | [] => .ok (switches, [])
  | argument :: rest =>
    match argument.toList with
    | ['-', '-'] => .ok (switches, argument :: rest)
    | ['-', 'o'] =>
      match rest with
      | name :: rest =>
        match (Switches.longNames.lookup name).bind (switches.set? · true) with
        | some switches => readSwitches switches rest
        | none => .error ("-o " ++ name)
      | [] => .ok (switches, [])
    | ['+', 'o'] =>
      match rest with
      | name :: rest =>
        match (Switches.longNames.lookup name).bind (switches.set? · false) with
        | some switches => readSwitches switches rest
        | none => .error ("-o " ++ name)
      | [] => .ok (switches, [])
    | sign :: letter :: letters =>
      if sign != '-' && sign != '+' then .ok (switches, argument :: rest)
      else
        let after := (letter :: letters).foldlM (fun (switches : Switches) letter =>
          match switches.set? letter (sign == '-') with
          | some switches => Except.ok switches
          | none => .error ("-" ++ String.ofList [letter])) switches
        match after with
        | .ok switches => readSwitches switches rest
        | .error letter => .error letter
    | _ => .ok (switches, argument :: rest)

def set (m : Machine) (arguments : List String) : Machine :=
  match readSwitches m.switches arguments with
  | .error switch => (m.reportUse "set" ("Illegal option " ++ switch) 2).stop
  | .ok (switches, rest) =>
    let m := { m with switches := switches, status := 0 }
    match rest with
    | [] => m
    | "--" :: rest => { m with arguments := rest }
    | rest => { m with arguments := rest }

/-! ## Input -/

/-- The bytes of a line of input, each with a mark for those that a backslash
protects, whether the line has an end, and the input after it. With `raw`, a backslash
is a byte like others. -/
def lineOf (raw : Bool) : List UInt8 → List (UInt8 × Bool) × Bool × List UInt8
  | [] => ([], false, [])
  | [b] => if b == 10 then ([], true, []) else ([(b, false)], false, [])
  | b :: next :: rest =>
    if b == 10 then ([], true, next :: rest)
    else if b == 92 && !raw then
      let (line, ended, rest) := lineOf raw rest
      (if next == 10 then line else (next, true) :: line, ended, rest)
    else
      let (line, ended, rest) := lineOf raw (next :: rest)
      ((b, false) :: line, ended, rest)

/-- The values that names get from a line: each a word, the last one all that is
left. -/
def valuesOf (separators : List UInt8) :
    List String → List (UInt8 × Bool) → List (String × String)
  | [], _ => []
  | name :: names, line =>
    let separates (b : UInt8 × Bool) : Bool := !b.2 && separators.contains b.1
    let isBlank (b : UInt8 × Bool) : Bool := separates b && (b.1 == 32 || b.1 == 9 || b.1 == 10)
    let line := line.dropWhile isBlank
    let text (bytes : List (UInt8 × Bool)) : String := Text.ofBytes (bytes.map Prod.fst)
    if names.isEmpty then [(name, text (Text.dropEndWhile isBlank line))]
    else
      let word := line.takeWhile fun b => !separates b
      let rest := (line.drop word.length).dropWhile isBlank
      let rest := match rest with
        | b :: after => if separates b then after.dropWhile isBlank else rest
        | [] => []
      (name, text word) :: valuesOf separators names rest

def readLine (m : Machine) (arguments : List String) : Machine :=
  let (flags, names) := Tool.options arguments
  let (line, ended, rest) := lineOf ((Tool.letters flags).contains 'r') m.input
  if names.isEmpty then m.reportUse "read" "arg count" 2
  else
    let values := valuesOf (Text.bytes (.ofList m.separators)) names line
    let m := values.foldl (fun m (name, value) => m.assign name value) { m with input := rest }
    if m.halt.isSome then m else m.withStatus (if ended then 0 else 1)

/-! ## Places and names -/

def changeDirectory (m : Machine) (arguments : List String) : Machine :=
  let (_, paths) := Tool.options arguments
  let isBack := arguments.head? == some "-"
  let target := if isBack then m.parameter "OLDPWD" else paths.headD (m.parameter "HOME")
  let before := "/" ++ Place.key m.tree.home
  match m.tree.enterDirectory (if target.isEmpty then "." else target) with
  | .ok tree =>
    let m := { m with tree := tree, status := 0 }
    let m := { m with parameters := m.parameters.insert "OLDPWD" before }
    if isBack then m.print ("/" ++ Place.key tree.home ++ "\n") else m
  | .error _ => m.reportUse "cd" ("can't cd to " ++ target) 2

def programDirectory : String := "/usr/bin/"

def runners : List String :=
  ["sh", "dash", "bash", "env", "xargs", "timeout", "nice", "nohup", "printenv", "which"]

def isProgram (name : String) : Bool := (Tool.named? name).isSome || runners.contains name

/-- What a name means, in words and as it would be called. -/
def meaning? (m : Machine) (name : String) : Option (String × String) :=
  if Builtin.keywords.contains name then some (" is a shell keyword", name)
  else if Builtin.special.contains name then some (" is a special shell builtin", name)
  else if (m.functions.lookup name).isSome then some (" is a shell function", name)
  else if Builtin.regular.contains name then some (" is a shell builtin", name)
  else if isProgram name then some (" is " ++ programDirectory ++ name, programDirectory ++ name)
  else none

def describe (m : Machine) (names : List String) : Machine :=
  names.foldl (fun m name =>
    match m.meaning? name with
    | some (words, _) => m.print (name ++ words ++ "\n")
    | none => (m.print (name ++ ": not found\n")).withStatus 127) (m.withStatus 0)

/-- Print how a name would be called. -/
def locate (m : Machine) (name : String) : Machine :=
  match m.meaning? name with
  | some (_, call) => (m.print (call ++ "\n")).withStatus 0
  | none => m.withStatus 127

/-! ## Signals -/

/-- A text in quotes that the shell reads back. -/
def quotedText (text : String) : String := "'" ++ Text.replaceChar '\'' "'\"'\"'" text ++ "'"

/-- Say or set what happens on signals. -/
def trap (m : Machine) (arguments : List String) : Machine :=
  match if arguments.head? == some "--" then arguments.drop 1 else arguments with
  | [] =>
    let isEarlier (a b : String × String) : Bool :=
      decide ((Signal.number? a.1).getD 0 ≤ (Signal.number? b.1).getD 0)
    ((m.traps.mergeSort isEarlier).foldl (fun m (name, action) =>
      m.print ("trap -- " ++ quotedText action ++ " " ++ name ++ "\n")) m).withStatus 0
  | action :: signals =>
    let (action, signals) :=
      if signals.isEmpty || action.toNat?.isSome then ("-", action :: signals)
      else (action, signals)
    signals.foldl (fun m signal =>
      match Signal.number? signal with
      | none => m.complain ("trap: " ++ signal ++ ": bad trap") 1
      | some number =>
        let name := Signal.name number
        let others := m.traps.filter fun (other, _) => other != name
        { m with traps := if action == "-" then others else (name, action) :: others })
      (m.withStatus 0)

/-! ## All of them -/

/-- Run one of the commands that are part of the shell; `none` if there is no such
command. -/
def builtin? (m : Machine) (name : String) (arguments : List String) : Option Machine :=
  match name with
  | ":" => some (m.withStatus 0)
  | "true" => some (m.withStatus 0)
  | "false" => some (m.withStatus 1)
  | "exit" => some (m.leave name .exited arguments)
  | "return" => some (m.leave name (fun _ => .returning) arguments)
  | "break" => some (m.leaveLoops name false arguments)
  | "continue" => some (m.leaveLoops name true arguments)
  | "echo" => some (m.applyOwn Tool.echo arguments)
  | "printf" => some (m.applyOwn Tool.printf arguments)
  | "test" => some (m.applyOwn (Tool.conditional "test") arguments)
  | "[" => some (m.applyOwn (Tool.bracket "missing ]") arguments)
  | "cd" => some (m.changeDirectory arguments)
  | "pwd" => some ((m.print ("/" ++ Place.key m.tree.home ++ "\n")).withStatus 0)
  | "shift" => some (m.shift arguments)
  | "read" => some (m.readLine arguments)
  | "set" => some (m.set arguments)
  | "export" => some (m.exportNames (arguments.filter (· != "-p")))
  | "readonly" => some (m.fix (arguments.filter (· != "-p")))
  | "local" => some (m.localize arguments)
  | "unset" => some (m.forget arguments)
  | "trap" => some (m.trap arguments)
  | "type" => some (m.describe arguments)
  | "umask" => some ((if arguments.isEmpty then m.print "0022\n" else m).withStatus 0)
  | "hash" => some (m.withStatus 0)
  | "jobs" => some (m.withStatus 0)
  | "times" => some (m.withStatus 0)
  | "ulimit" => some (m.withStatus 0)
  | "alias" => some (m.withStatus 0)
  | "unalias" => some (m.withStatus 0)
  | _ => none

end Machine

end Emend.Shell

import Emend.Shell.Command
import Emend.Shell.Tool

/-!
# The state of a shell

A command runs in a `Machine`: the files, the parameters, what has been printed so
far, and the clock. What is printed on a channel goes where the channel is routed
to, at first all to one place, so that output and complaints keep their order.
-/

set_option autoImplicit false

namespace Emend.Shell

/-- Why a shell stops before the end of its script. -/
inductive Halt where
  | exited (status : Nat)
  | killed (signal : Nat)
  | outOfTime
  /-- It only leaves some loops; with `again`, the last of them goes on with its next
  turn. -/
  | leaving (loops : Nat) (again : Bool)
  /-- It only leaves a function or a file. -/
  | returning
  deriving DecidableEq, Repr, Inhabited

inductive Target where
  | buffer (level : Nat)
  | nowhere
  | file (path : String)
  deriving DecidableEq, Repr, Inhabited

/-- How a shell behaves, by the letters of its switches. -/
structure Switches where
  /-- `e`: it stops when a command fails. -/
  stopOnFailure : Bool
  /-- `f`: it matches no file names. -/
  noWildcards : Bool
  /-- `n`: it only reads its script. -/
  noRun : Bool
  /-- `x`: it prints the commands that it runs. -/
  trace : Bool
  /-- `u`: it stops at a parameter without a value. -/
  needValues : Bool
  /-- `a`: it exports what is assigned. -/
  exportAll : Bool
  deriving DecidableEq, Repr, Inhabited

namespace Switches

def off : Switches := ⟨false, false, false, false, false, false⟩

/-- Set a switch by its letter; `none` if there is no such switch. Some letters have no
effect on a script. -/
def set? (switches : Switches) (letter : Char) (on : Bool) : Option Switches :=
  match letter with
  | 'e' => some { switches with stopOnFailure := on }
  | 'f' => some { switches with noWildcards := on }
  | 'n' => some { switches with noRun := on }
  | 'x' => some { switches with trace := on }
  | 'u' => some { switches with needValues := on }
  | 'a' => some { switches with exportAll := on }
  | c => if "ImisvVECbm".toList.contains c then some switches else none

def longNames : List (String × Char) :=
  [("errexit", 'e'), ("noglob", 'f'), ("noexec", 'n'), ("xtrace", 'x'), ("nounset", 'u'),
    ("allexport", 'a'), ("ignoreeof", 'I'), ("monitor", 'm'), ("verbose", 'v'), ("vi", 'V'),
    ("emacs", 'E'), ("noclobber", 'C'), ("notify", 'b')]

def letters (switches : Switches) : String :=
  .ofList ([('u', switches.needValues), ('a', switches.exportAll), ('x', switches.trace),
    ('n', switches.noRun), ('f', switches.noWildcards), ('e', switches.stopOnFailure)].filterMap
      fun (letter, on) => if on then some letter else none)

end Switches

/-- A command that runs aside. Nothing shows it before it is waited for, so it is run
then. -/
structure Job where
  number : Nat
  command : Command
  parameters : Table String
  arguments : List String
  started : Nat
  killed : Option Nat

structure Machine where
  tree : FileTree
  parameters : Table String
  exported : List String
  /-- The parameters that cannot change. -/
  constants : List String
  /-- What local parameters were before, for each function that it is in, the innermost
  first. -/
  hidden : List (List (String × Option String))
  functions : List (String × Command)
  name : String
  /-- What of the script is being run, if it was read apart. -/
  part : Option String
  /-- The line of the command that is being run. -/
  line : Nat
  arguments : List String
  /-- The number of the shell among the running programs. -/
  number : Nat
  status : Nat
  ending : Option Nat
  loops : Nat
  /-- Whether a failure is looked at by what comes around it. -/
  tested : Bool
  switches : Switches
  traps : List (String × String)
  jobs : List Job
  /-- How many commands have run aside. -/
  started : Nat
  input : List UInt8
  fromFile : Bool
  routes : List (Nat × Target)
  /-- What has been printed, the innermost buffer first, each with its last piece
  first. -/
  buffers : List (List (List UInt8))
  clock : Nat
  limit : Nat
  halt : Option Halt

namespace Machine

def programPath : String := "/usr/local/sbin:/usr/local/bin:/usr/sbin:/usr/bin:/sbin:/bin"

def start (tree : FileTree) (limit : Nat) (name : String) : Machine :=
  { tree := tree, parameters := .ofList [("PATH", programPath)], exported := ["PATH"]
    constants := [], hidden := [], functions := [], name := name, part := none, line := 0
    arguments := [], number := 4711, status := 0, ending := none, loops := 0, tested := false
    switches := .off, traps := [], jobs := [], started := 0, input := [], fromFile := false
    routes := [(1, .buffer 0), (2, .buffer 0)], buffers := [[]], clock := 0
    limit := limit, halt := none }

/-! ## Printing -/

def updateBuffer (level : Nat) (f : List (List UInt8) → List (List UInt8))
    (buffers : List (List (List UInt8))) : List (List (List UInt8)) :=
  buffers.modify (buffers.length - 1 - level) f

def route (m : Machine) (channel : Nat) : Target := (m.routes.lookup channel).getD .nowhere

/-- Let a channel go somewhere. -/
def withRoute (m : Machine) (channel : Nat) (target : Target) : Machine :=
  { m with routes := (channel, target) :: m.routes.filter fun (other, _) => other != channel }

def send (m : Machine) (channel : Nat) (bytes : List UInt8) : Machine :=
  if bytes.isEmpty then m
  else
    match m.route channel with
    | .nowhere => m
    | .buffer level => { m with buffers := updateBuffer level (bytes :: ·) m.buffers }
    | .file path =>
      let before := (m.tree.read path).toOption.getD ""
      { m with tree := (m.tree.write path (before ++ Text.ofBytes bytes)).toOption.getD m.tree }

def print (m : Machine) (text : String) : Machine := m.send 1 (Text.bytes text)

/-- End the last command with a status. -/
def withStatus (m : Machine) (status : Nat) : Machine := { m with status := status }

/-- Complain and end the last command with a status. -/
def complain (m : Machine) (complaint : String) (status : Nat) : Machine :=
  (m.send 2 (Text.bytes (complaint ++ "\n"))).withStatus status

def place (m : Machine) : String := m.name ++ ": " ++ toString m.line ++ ": "

/-- Complain about the script and end the last command with a status. -/
def report (m : Machine) (complaint : String) (status : Nat) : Machine :=
  m.complain (m.place ++ (m.part.map (· ++ ": ")).getD "" ++ complaint) status

/-- Complain about how one of the commands of the shell is used. -/
def reportUse (m : Machine) (name complaint : String) (status : Nat) : Machine :=
  m.complain (m.place ++ name ++ ": " ++ complaint) status

/-- Leave the shell with the status of the last command. -/
def stop (m : Machine) : Machine := { m with halt := some (.exited m.status) }

/-- Let time pass; the shell stops when there is none left. -/
def pass (m : Machine) (time : Nat) : Machine :=
  let clock := m.clock + time
  if m.limit ≤ clock then { m with clock := clock, halt := some .outOfTime }
  else { m with clock := clock }

/-! ## Parameters -/

/-- The characters that separate words. -/
def separators (m : Machine) : List Char :=
  ((m.parameters.get? "IFS").getD " \t\n").toList

def joinedArguments (m : Machine) : String :=
  (String.ofList (m.separators.take 1)).intercalate m.arguments

def parameter? (m : Machine) (name : String) : Option String :=
  match name with
  | "0" => some m.name
  | "#" => some (toString m.arguments.length)
  | "?" => some (toString m.status)
  | "$" => some (toString m.number)
  | "!" => if m.started == 0 then none else some (toString (m.number + m.started))
  | "-" => some m.switches.letters
  | "@" => if m.arguments.isEmpty then none else some (" ".intercalate m.arguments)
  | "*" => if m.arguments.isEmpty then none else some m.joinedArguments
  | _ =>
    match name.toNat? with
    | some n => m.arguments[n - 1]?
    | none => m.parameters.get? name

/-- The value of a parameter, which is empty if it has none. -/
def parameter (m : Machine) (name : String) : String := (m.parameter? name).getD ""

/-- Give a parameter a value, unless it cannot change: then the shell stops. -/
def assign (m : Machine) (name value : String) : Machine :=
  if m.constants.contains name then (m.report (name ++ ": is read only") 2).stop
  else
    { m with
      parameters := m.parameters.insert name value
      exported := if m.switches.exportAll then name :: m.exported else m.exported }

/-- Take the value of a parameter away. -/
def unset (m : Machine) (name : String) : Machine :=
  { m with
    parameters := .ofList (m.parameters.entries.filter fun (key, _) => key != name)
    exported := m.exported.filter (· != name) }

/-- Give a parameter back what it had before. -/
def restore (m : Machine) (before : String × Option String) : Machine :=
  match before with
  | (name, some value) => { m with parameters := m.parameters.insert name value }
  | (name, none) => m.unset name

def environment (m : Machine) : Table String :=
  .ofList (m.parameters.entries.filter fun (name, _) => m.exported.contains name)

def findsPrograms (m : Machine) : Bool :=
  match m.parameters.get? "PATH" with
  | none => true
  | some path => (Text.split ':' path).any fun place => place == "/bin" || place == "/usr/bin"

/-! ## Inner shells -/

/-- Run a shell of its own: what it prints and does to files stays, its parameters
do not, and leaving it only sets the status. -/
def nest (m : Machine) (run : Machine → Machine) : Machine :=
  let inner := run { m with traps := m.traps.filter (·.2.isEmpty), jobs := [] }
  let (status, halt) := match inner.halt with
    | some (.exited status) => (status, none)
    | some (.killed signal) => (inner.status, some (.killed signal))
    | some .outOfTime => (inner.status, some .outOfTime)
    | _ => (inner.status, none)
  { m with
    tree := { inner.tree with home := m.tree.home }
    buffers := inner.buffers, clock := inner.clock
    status := status, halt := halt, input := inner.input }

/-- Run with output into a new buffer; gives what was printed. -/
def capture (m : Machine) (run : Machine → Machine) : Machine × List UInt8 :=
  let inner := run ({ m with buffers := [] :: m.buffers }.withRoute 1 (.buffer m.buffers.length))
  ({ inner with routes := m.routes, buffers := inner.buffers.tail },
    (inner.buffers.headD []).reverse.flatten)

def testing (m : Machine) (run : Machine → Machine) : Machine :=
  { run { m with tested := true } with tested := m.tested }

/-- Stop after a failure that nothing looks at, if the shell is to do so. -/
def checked (m : Machine) : Machine :=
  if m.switches.stopOnFailure && !m.tested && m.status != 0 && m.halt.isNone then m.stop else m

def afterTurn (m : Machine) : Machine × Bool :=
  match m.halt with
  | none => (m, true)
  | some (.leaving 0 again) => ({ m with halt := none }, again)
  | some (.leaving 1 again) => ({ m with halt := none }, again)
  | some (.leaving (n + 1) again) =>
    (if m.loops ≤ 1 then { m with halt := none } else { m with halt := some (.leaving n again) },
      false)
  | some _ => (m, false)

def toolCall (m : Machine) (arguments : List String) : Call :=
  ⟨arguments, m.input, m.fromFile, m.tree⟩

/-- The shell after a tool that has done this. -/
def after (m : Machine) (outcome : Outcome) : Machine :=
  let m := { m with tree := outcome.tree, input := outcome.left }
  let m := outcome.pieces.foldl (fun m (channel, bytes) => m.send channel bytes) m
  (m.withStatus outcome.status).pass outcome.time

end Machine

end Emend.Shell

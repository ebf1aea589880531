import Emend.Shell.Arithmetic
import Emend.Shell.Builtin
import Emend.Shell.Expansion

/-!
# Running shell commands

Words are expanded, channels are redirected and commands are run in a `Machine`.
Running is bounded by the clock and by a number of steps, which is the first argument
of the functions that call each other here; a command that uses up either is stopped as
out of time.
-/

set_option autoImplicit false

namespace Emend.Shell

namespace Machine

/-- The shell when its steps are used up. -/
def exhausted (m : Machine) : Machine := { m with halt := some .outOfTime }

/-- Complain that a parameter has no value, and stop. -/
def lackValue (m : Machine) (name : String) : Machine :=
  (m.report (name ++ ": parameter not set") 2).stop

/-- The value of a parameter where one is needed, if the shell needs values. -/
def valueOf (m : Machine) (name : String) : Machine × String :=
  match m.parameter? name with
  | some value => (m, value)
  | none =>
    if m.switches.needValues && name != "@" && name != "*" then (m.lackValue name, "") else (m, "")

def openTarget (m : Machine) (access : Access) (path : String) :
    Except IoFault (FileTree × Target) :=
  if path == Tool.nullFile then .ok (m.tree, .nowhere)
  else if path == "/dev/stdout" then .ok (m.tree, m.route 1)
  else if path == "/dev/stderr" then .ok (m.tree, m.route 2)
  else if access == .append && m.tree.isFile path then .ok (m.tree, .file path)
  else (m.tree.write path "").map fun tree => (tree, .file path)

/-- Complain about a file that cannot be written to. -/
def cannotCreate (m : Machine) (path : String) (fault : IoFault) : Machine :=
  let reason := if fault == .notFound then "Directory nonexistent" else Tool.faultText fault
  m.report ("cannot create " ++ path ++ ": " ++ reason) 2

def traced (m : Machine) (words : List String) : Machine :=
  if m.switches.trace then m.send 2 (Text.bytes ("+ " ++ " ".intercalate words ++ "\n")) else m

/-- Complain that there is no such program; a file is no program. -/
def noProgram (m : Machine) (name : String) : Machine :=
  if name.isEmpty then m.report ": Permission denied" 127
  else if Text.contains "/" name && (m.tree.find name).toBool then
    m.report (name ++ ": Permission denied") 126
  else m.report (name ++ ": not found") 127

/-- The shell after a program, which says so if a signal has ended it. -/
def afterProgram (m : Machine) : Machine :=
  match m.halt with
  | some (.killed signal) =>
    let m := { m with halt := none }
    match Signal.obituary signal with
    | some words => m.complain words (128 + signal)
    | none => m.withStatus (128 + signal)
  | _ => m

/-- Leave what a machine has changed apart from its channels. -/
def backFrom (m after : Machine) (readsInput : Bool) : Machine :=
  { after with
    routes := m.routes
    input := if readsInput then m.input else after.input
    fromFile := m.fromFile }

/-- Give back the parameters that were assigned for one command only. -/
def restoreAll (m : Machine) (before : List (String × Option String)) (exported : List String) :
    Machine :=
  { before.foldl restore m with exported := exported }

/-- Leave a function, which ends what only it does. -/
def leaveFunction (m inner : Machine) : Machine :=
  let inner := (inner.hidden.headD []).foldl restore inner
  { inner with
    hidden := m.hidden, arguments := m.arguments, loops := m.loops
    halt := if inner.halt == some .returning then none else inner.halt }

end Machine

/-- The name of a program without the directories where programs are kept. -/
def shortName (name : String) : String :=
  ((["/bin/", "/usr/bin/"].findSome? fun directory => Text.strip? directory name)).getD name

/-- Whether a redirection gives a command other input. -/
def readsInput : Redirect → Bool
  | .file channel _ _ => channel == 0
  | .here channel _ => channel == 0
  | .copy channel _ => channel == 0
  | .close channel => channel == 0

/-- What `env` is asked for: whether to start with nothing, what to leave out, what to
add, and the command. -/
def environmentChange : List String → Bool × List String × List (String × String) × List String
  | "-i" :: rest =>
    let (_, without, added, command) := environmentChange rest
    (true, without, added, command)
  | "-" :: rest =>
    let (_, without, added, command) := environmentChange rest
    (true, without, added, command)
  | "-u" :: name :: rest =>
    let (bare, without, added, command) := environmentChange rest
    (bare, name :: without, added, command)
  | "--" :: rest => (false, [], [], rest)
  | word :: rest =>
    match Text.cut? '=' word with
    | some (name, value) =>
      let (bare, without, added, command) := environmentChange rest
      (bare, without, (name, value) :: added, command)
    | none => (false, [], [], word :: rest)
  | [] => (false, [], [], [])

mutual

def expandFrom : Nat → Machine → Expansion → Word → Machine × Expansion
  | 0, m, e, _ => (m.exhausted, e)
  | _, m, e, [] => (m, e)
  | fuel + 1, m, e, .mk piece quoted :: rest =>
    let put (result : Machine × String) : Machine × Expansion :=
      (result.1, if quoted then e.add true result.2 else e.addSplit result.1.separators result.2)
    let isGiven (name : String) (orEmpty : Bool) : Bool :=
      match m.parameter? name with
      | some value => !(orEmpty && value.isEmpty)
      | none => false
    let (m, e) := match piece with
      | .text value => (m, e.add quoted value)
      | .parameter name =>
        if name == "@" && quoted then (m, e.addWords m.arguments)
        else if (name == "@" || name == "*") && !quoted then
          (m, e.addSplitWords m.separators m.arguments)
        else put (m.valueOf name)
      | .instead name ifGiven orEmpty word =>
        if isGiven name orEmpty == ifGiven then
          if quoted then put (expandText fuel m word) else expandFrom fuel m e word
        else if ifGiven then put (m, "")
        else if name == "@" && quoted then (m, e.addWords m.arguments)
        else put (m, m.parameter name)
      | .assigned name orEmpty word =>
        if isGiven name orEmpty then put (m, m.parameter name)
        else
          let (m, value) := expandText fuel m word
          put (m.assign name value, value)
      | .required name orEmpty word =>
        if isGiven name orEmpty then put (m, m.parameter name)
        else
          let (m, complaint) := expandText fuel m word
          let usual := if orEmpty then "parameter not set or null" else "parameter not set"
          let complaint := name ++ ": " ++ (if word.isEmpty then usual else complaint)
          ((m.report complaint 2).stop, e)
      | .trimmed name atEnd longest pattern =>
        let (m, value) := m.valueOf name
        let (m, pattern) := expandPattern fuel m pattern
        put (m, trimmed (.all pattern) atEnd longest value)
      | .length name =>
        let (m, value) := m.valueOf name
        put (m, toString value.utf8ByteSize)
      | .arithmetic expression =>
        let (m, text) := expandText fuel m expression
        match Arithmetic.evaluate m.parameters text with
        | .ok (n, parameters) => put ({ m with parameters := parameters }, toString n)
        | .error fault => ((m.report (fault.message text) 2).stop, e)
      | .output command =>
        let (m, bytes) := m.capture fun m => m.nest fun m =>
          finish fuel (run fuel command { m with tested := false })
        put (m, Text.dropEnd '\n' (Text.ofBytes (bytes.filter (· != 0))))
      | .senseless => ((m.report "Bad substitution" 2).stop, e)
    if m.halt.isSome then (m, e) else expandFrom fuel m e rest

def expandText : Nat → Machine → Word → Machine × String
  | 0, m, _ => (m.exhausted, "")
  | fuel + 1, m, word =>
    let whole := word.map fun
      | .mk piece _ => Fragment.mk piece true
    let (m, e) := expandFrom fuel m .empty whole
    (m, " ".intercalate (e.drafts.map Draft.text))

def expandPattern : Nat → Machine → Word → Machine × List Pattern
  | 0, m, _ => (m.exhausted, [])
  | _, m, [] => (m, [])
  | fuel + 1, m, .mk piece quoted :: rest =>
    let (m, text) := expandText fuel m [.mk piece quoted]
    let (m, others) := expandPattern fuel m rest
    (m, (if quoted then .plain text.toList else .ofWildcards text.toList) :: others)

def expandAll : Nat → Machine → List Word → Machine × List String
  | 0, m, _ => (m.exhausted, [])
  | _, m, [] => (m, [])
  | fuel + 1, m, word :: words =>
    let (m, e) := expandFrom fuel m .empty word
    if m.halt.isSome then (m, [])
    else
      let here := e.drafts.flatMap (Draft.words m.tree m.switches.noWildcards)
      let (m, others) := expandAll fuel m words
      (m, here ++ others)

/-- Set parameters one after the other; gives what they were before, the last one
first, and how the assignments are traced. -/
def assignAll : Nat → Machine → List (String × Word) →
    Machine × List (String × Option String) × List String
  | 0, m, _ => (m.exhausted, [], [])
  | _, m, [] => (m, [], [])
  | fuel + 1, m, (name, word) :: rest =>
    let (m, value) := expandText fuel m word
    let before := m.parameters.get? name
    let m := if m.halt.isSome then m else m.assign name value
    if m.halt.isSome then (m, [], [])
    else
      let (m, others, traces) := assignAll fuel m rest
      (m, others ++ [(name, before)], (name ++ "=" ++ value) :: traces)

/-- Redirect channels one after the other; `false` after a complaint. -/
def redirectAll : Nat → Machine → List Redirect → Machine × Bool
  | 0, m, _ => (m.exhausted, false)
  | _, m, [] => (m, true)
  | fuel + 1, m, redirect :: rest =>
    match redirect with
    | .close channel =>
      let m := if channel == 0 then { m with input := [] } else m.withRoute channel .nowhere
      redirectAll fuel m rest
    | .copy channel source =>
      if channel == 0 || source == 0 then redirectAll fuel m rest
      else
        match m.routes.lookup source with
        | some target => redirectAll fuel (m.withRoute channel target) rest
        | none => (m.report (toString source ++ ": Bad file descriptor") 2, false)
    | .here channel word =>
      let (m, text) := expandText fuel m word
      if m.halt.isSome then (m, false)
      else
        let m := if channel == 0 then { m with input := Text.bytes text, fromFile := false } else m
        redirectAll fuel m rest
    | .file channel access word =>
      let (m, path) := expandText fuel m word
      if m.halt.isSome then (m, false)
      else if access == .read then
        match if path == Tool.nullFile then .ok "" else m.tree.read path with
        | .ok text =>
          let m := if channel == 0 then { m with input := Text.bytes text, fromFile := true } else m
          redirectAll fuel m rest
        | .error .isDirectory => redirectAll fuel { m with input := [] } rest
        | .error _ => (m.report ("cannot open " ++ path ++ ": No such file") 2, false)
      else
        match m.openTarget access path with
        | .error fault => (m.cannotCreate path fault, false)
        | .ok (tree, target) =>
          redirectAll fuel ({ m with tree := tree }.withRoute channel target) rest

def run : Nat → Command → Machine → Machine
  | 0, _, m => m.exhausted
  | fuel + 1, command, m =>
    if m.halt.isSome || m.switches.noRun then m
    else
      match command with
      | .nothing => m
      | .both first second => run fuel second (run fuel first m)
      | .guarded onSuccess first second =>
        let m := m.testing (run fuel first)
        if m.halt.isNone && (m.status == 0) == onSuccess then run fuel second m else m
      | .negated inner =>
        let m := m.testing (run fuel inner)
        if m.halt.isSome then m else m.withStatus (if m.status == 0 then 1 else 0)
      | .piped first second =>
        let (written, bytes) := m.capture fun m => m.nest fun m => finish fuel (run fuel first m)
        -- A writer that never ends is stopped when its reader has enough.
        let isEndless := written.halt == some .outOfTime
        let before := if isEndless then { written with halt := none, clock := m.clock } else written
        if before.halt.isSome then before
        else
          let read := { before with input := bytes, fromFile := false }.nest fun m =>
            finish fuel (run fuel second m)
          let after := { read with input := before.input, fromFile := before.fromFile }
          if isEndless && read.input.isEmpty then { after with halt := some .outOfTime }
          else after.checked
      | .choice condition first second =>
        let m := m.testing (run fuel condition)
        if m.halt.isSome then m
        else if m.status == 0 then run fuel first m
        else
          match second with
          | .nothing => m.withStatus 0
          | _ => run fuel second m
      | .cases subject branches =>
        let (m, value) := expandText fuel m subject
        if m.halt.isSome then m else runBranch fuel value branches (m.withStatus 0)
      | .loop whileTrue condition body =>
        let after := repeat_ fuel whileTrue condition body 0 { m with loops := m.loops + 1 }
        { after with loops := m.loops }
      | .each name words body =>
        let (m, values) := match words with
          | some words => expandAll fuel m words
          | none => (m, m.arguments)
        if m.halt.isSome then m
        else
          let after := forEach fuel name body values { m with loops := m.loops + 1, status := 0 }
          { after with loops := m.loops }
      | .nested inner => (m.nest fun m => finish fuel (run fuel inner m)).checked
      | .aside inner =>
        let number := m.number + m.started + 1
        let job : Job := ⟨number, inner, m.parameters, m.arguments, m.clock, none⟩
        { m with jobs := m.jobs ++ [job], started := m.started + 1, status := 0 }
      | .function name body =>
        { m with functions := (name, body) :: m.functions, status := 0 }
      | .redirected line inner redirects =>
        let (redirected, ok) := redirectAll fuel { m with line := line } redirects
        let after := if ok then run fuel inner redirected else redirected
        m.backFrom after (redirects.any readsInput)
      | .simple line assignments words redirects =>
        (runSimple fuel assignments words redirects { m with line := line }).checked

def runSimple : Nat → List (String × Word) → List Word → List Redirect → Machine → Machine
  | 0, _, _, _, m => m.exhausted
  | fuel + 1, assignments, words, redirects, m =>
    let (m, values) := expandAll fuel m words
    if m.halt.isSome then m
    else
      let readsInput := redirects.any readsInput
      match values with
      | [] =>
        let outer := if words.isEmpty then m.withStatus 0 else m
        let (assigned, _, traces) := assignAll fuel outer assignments
        let assigned := if traces.isEmpty then assigned else assigned.traced traces
        if assigned.halt.isSome then assigned
        else m.backFrom (redirectAll fuel assigned redirects).1 readsInput
      | name :: arguments =>
        let exported := m.exported
        let (m, before, traces) := assignAll fuel m assignments
        let m := m.traced (traces ++ values)
        let m := { m with exported := before.map Prod.fst ++ m.exported }
        let isSpecial := Builtin.special.contains name
        if m.halt.isSome then m
        else
          let (redirected, ok) := redirectAll fuel m redirects
          if redirected.halt.isSome then m.backFrom redirected readsInput
          else if !ok then
            let failed := m.backFrom redirected readsInput
            if isSpecial then failed.stop else failed.restoreAll before exported
          else if name == "exec" && arguments.isEmpty then redirected.withStatus 0
          else
            let after := m.backFrom (start fuel name arguments redirected) readsInput
            if isSpecial then after else after.restoreAll before (if assignments.isEmpty
              then after.exported else exported)

/-- Start a function, a command of the shell or a program. -/
def start : Nat → String → List String → Machine → Machine
  | 0, _, _, m => m.exhausted
  | fuel + 1, name, arguments, m =>
    match if Builtin.special.contains name then none else m.functions.lookup name with
    | some body =>
      m.leaveFunction (run fuel body { m with arguments := arguments, hidden := [] :: m.hidden })
    | none => startOwn fuel name arguments m

/-- Start a command of the shell or a program. -/
def startOwn : Nat → String → List String → Machine → Machine
  | 0, _, _, m => m.exhausted
  | fuel + 1, name, arguments, m =>
    match name, arguments with
    | "eval", arguments =>
      let after := script fuel (" ".intercalate arguments)
        { m with part := some "eval", status := 0 }
      { after with part := m.part, line := m.line }
    | ".", file :: _ =>
      match m.tree.read file with
      | .ok text =>
        let after := script fuel text { m with part := some file, status := 0 }
        { after with
          part := m.part, line := m.line
          halt := if after.halt == some .returning then none else after.halt }
      | .error _ => (m.reportUse "." ("cannot open " ++ file ++ ": No such file") 2).stop
    | "exec", name :: arguments =>
      match execute fuel name arguments m with
      | some m => if m.halt.isSome then m else m.stop
      | none => ({ m with part := some "exec" }.noProgram name).stop
    | "command", "-v" :: name :: _ => m.locate name
    | "command", "-V" :: name :: _ => m.describe [name]
    | "command", "-p" :: name :: arguments => startOwn fuel name arguments m
    | "command", "--" :: name :: arguments => startOwn fuel name arguments m
    | "command", name :: arguments => startOwn fuel name arguments m
    | "command", [] => m.withStatus 0
    | "kill", "-l" :: number :: _ =>
      let n := number.toNat?.getD 0
      (m.print (Signal.name (if n > 128 then n - 128 else n) ++ "\n")).withStatus 0
    | "kill", arguments => kill fuel arguments m
    | "wait", arguments => wait fuel arguments m
    | name, arguments =>
      match m.builtin? name arguments with
      | some m => m
      | none =>
        match execute fuel name arguments m with
        | some m => m.afterProgram
        | none => m.noProgram name

/-- Run a program; `none` if there is no such program. -/
def execute : Nat → String → List String → Machine → Option Machine
  | 0, _, _, m => some m.exhausted
  | fuel + 1, name, arguments, m =>
    match if Text.contains "/" name || m.findsPrograms then shortName name else "" with
    | "sh" => some (innerShell fuel name arguments m)
    | "dash" => some (innerShell fuel name arguments m)
    | "bash" => some (innerShell fuel name arguments m)
    | "nice" => some (executeNamed fuel "nice" arguments m)
    | "nohup" => some (executeNamed fuel "nohup" arguments m)
    | "env" =>
      let (bare, without, added, command) := environmentChange arguments
      let kept := if bare then [] else
        m.environment.entries.filter fun (name, _) => !without.contains name
      let environment : Table String := .ofList (kept ++ added)
      match command with
      | [] =>
        some ((m.print (Tool.unlines (environment.entries.map fun (name, value) =>
          name ++ "=" ++ value))).withStatus 0)
      | _ =>
        some (m.nest fun m => executeNamed fuel "env" command
          { m with parameters := environment, exported := environment.keys })
    | "printenv" =>
      match arguments with
      | [] => some ((m.print (Tool.unlines (m.environment.entries.map fun (name, value) =>
          name ++ "=" ++ value))).withStatus 0)
      | names =>
        some (names.foldl (fun m name =>
          match m.environment.get? name with
          | some value => m.print (value ++ "\n")
          | none => m.withStatus 1) (m.withStatus 0))
    | "which" =>
      some (arguments.foldl (fun m name =>
        if Machine.isProgram name then m.print (Machine.programDirectory ++ name ++ "\n")
        else m.withStatus 1) (m.withStatus 0))
    | "timeout" =>
      let (_, words) := match arguments with
        | "-s" :: signal :: rest => ([signal], rest)
        | "-k" :: time :: rest => ([time], rest)
        | arguments => Tool.options arguments
      match words with
      | time :: command =>
        match Tool.pause? time with
        | none => some (m.complain ("timeout: invalid time interval '" ++ time ++ "'" ++
            Tool.seeHelp "timeout") 125)
        | some time =>
          let bound := if time == 0 then m.limit else min m.limit (m.clock + time)
          let after := executeNamed fuel "timeout" command { m with limit := bound }
          let isStopped := after.halt == some .outOfTime && bound < m.limit
          some (if isStopped then
              { after with halt := none, clock := bound, status := 124, limit := m.limit }
            else { after with limit := m.limit })
      | [] => some (m.complain ("timeout: missing operand" ++ Tool.seeHelp "timeout") 125)
    | "xargs" =>
      let (flags, values, command) := match arguments with
        | "-n" :: count :: rest => (([] : List Char), [('n', count)], rest)
        | "-I" :: mark :: rest => ([], [('I', mark)], rest)
        | "-r" :: rest => (['r'], [], rest)
        | rest => ([], [], rest)
      let command := if command.isEmpty then ["echo"] else command
      let text := Text.ofBytes m.input
      let m := { m with input := [], status := 0 }
      match values.lookup 'I' with
      | some mark =>
        let lines := (Tool.rawLines text).filter fun line => !(Text.trim line).isEmpty
        let calls := lines.map fun line =>
          command.map fun word => (Text.trimStart line).intercalate (word.splitOn mark)
        some (executeEach fuel calls m)
      | none =>
        let words := Text.words text
        let size := ((values.lookup 'n').bind String.toNat?).getD (words.length + 1)
        let count := if words.isEmpty then (if flags.contains 'r' then 0 else 1)
          else (words.length + size - 1) / size
        let calls := (List.range count).map fun n => command ++ (words.drop (n * size)).take size
        some (executeEach fuel calls m)
    | short =>
      match Tool.named? short with
      | some tool => some (m.after (tool (m.toolCall arguments)))
      | none => none

/-- Run a program for another one, which complains if there is none. -/
def executeNamed : Nat → String → List String → Machine → Machine
  | 0, _, _, m => m.exhausted
  | fuel + 1, runner, words, m =>
    match words with
    | [] => m.complain (runner ++ ": missing operand" ++ Tool.seeHelp runner) 125
    | name :: arguments =>
      match execute fuel name arguments m with
      | some m => m
      | none =>
        let isFile := Text.contains "/" name && (m.tree.find name).toBool
        let reason := if isFile then "Permission denied" else "No such file or directory"
        let shown := if runner == "timeout" then "failed to run command '" ++ name ++ "'"
          else if runner == "xargs" then name else "'" ++ name ++ "'"
        m.complain (runner ++ ": " ++ shown ++ ": " ++ reason) (if isFile then 126 else 127)

/-- Run programs one after the other; the status tells whether one has failed. -/
def executeEach : Nat → List (List String) → Machine → Machine
  | 0, _, m => m.exhausted
  | _, [], m => m
  | fuel + 1, call :: calls, m =>
    let after := executeNamed fuel "xargs" call m
    if after.halt.isSome then after
    else if after.status == 126 || after.status == 127 then after
    else executeEach fuel calls (after.withStatus (if after.status == 0 then m.status else 123))

def innerShell : Nat → String → List String → Machine → Machine
  | 0, _, _, m => m.exhausted
  | fuel + 1, name, arguments, m =>
    m.nest fun m => finish fuel (shell fuel name arguments
      { m with
        parameters := m.environment, constants := [], hidden := [], functions := []
        number := m.number + m.started + 1, started := 0, loops := 0, tested := false
        switches := .off, part := none })

/-- Run the shell with arguments: the script after `-c`, or the one in a file, or the
one in the input. -/
def shell : Nat → String → List String → Machine → Machine
  | 0, _, _, m => m.exhausted
  | fuel + 1, name, arguments, m =>
    let m := { m with name := name, line := 0, status := 0 }
    let isFlag (argument : String) : Bool :=
      Tool.isOption argument && (Text.strip? "--" argument).isNone
    let given := arguments.takeWhile isFlag
    let inArgument := (Tool.letters given).contains 'c'
    let flags := given.map fun argument => .ofList (argument.toList.filter (· != 'c'))
    match Machine.readSwitches m.switches ((flags.filter (· != "-")) ++ arguments.drop given.length)
      with
    | .error switch => (m.complain (name ++ ": 0: Illegal option " ++ switch) 2).stop
    | .ok (switches, rest) =>
      let m := { m with switches := switches }
      match if rest.head? == some "--" then rest.drop 1 else rest with
      | [] =>
        if inArgument then (m.complain (name ++ ": 0: -c requires an argument") 2).stop
        else script fuel (Text.ofBytes m.input) { m with input := [], arguments := [] }
      | first :: rest =>
        if (Tool.letters given).contains 's' then
          script fuel (Text.ofBytes m.input) { m with input := [], arguments := first :: rest }
        else if inArgument then
          script fuel first { m with name := rest.headD name, arguments := rest.drop 1 }
        else
          match m.tree.read first with
          | .ok text => script fuel text { m with name := first, arguments := rest }
          | .error _ =>
            (m.complain (name ++ ": 0: cannot open " ++ first ++ ": No such file") 2).stop

/-- Run a script in this shell. -/
def script : Nat → String → Machine → Machine
  | 0, _, m => m.exhausted
  | fuel + 1, text, m => scriptFrom fuel (.ofText text.toList) text.toList m

/-- Run what is left of a script, line by line. -/
def scriptFrom : Nat → Script → List Char → Machine → Machine
  | 0, _, _, m => m.exhausted
  | fuel + 1, whole, cs, m =>
    match nextLine? whole cs with
    | .error fault =>
      let m := { m with line := whole.lineOf fault.linesLeft }
      (m.report ("Syntax error: " ++ fault.cause.message) 2).stop
    | .ok none => m
    | .ok (some (command, rest)) =>
      let m := run fuel command m
      if m.halt.isSome then m else scriptFrom fuel whole rest m

/-- End a shell: what it does at its end is done, and its status is that with which it
was left. -/
def finish : Nat → Machine → Machine
  | 0, m => m.exhausted
  | fuel + 1, m =>
    let status := match m.halt with
      | some (.exited status) => status
      | _ => m.status
    match m.halt with
    | some (.killed _) => m
    | some .outOfTime => m
    | _ =>
      match m.traps.lookup "EXIT" with
      | none => { m with halt := some (.exited status), status := status }
      | some action =>
        let after := script fuel action
          { m with
            halt := none, status := status, ending := some status, loops := 0
            traps := m.traps.filter fun (name, _) => name != "EXIT" }
        match after.halt with
        | none => { after with halt := some (.exited status), status := status }
        | some .returning => { after with halt := some (.exited status), status := status }
        | some (.leaving _ _) => { after with halt := some (.exited status), status := status }
        | some _ => after

/-- Send a signal to programs. -/
def kill : Nat → List String → Machine → Machine
  | 0, _, m => m.exhausted
  | fuel + 1, arguments, m =>
    let (signal, targets) := match arguments with
      | "-s" :: name :: targets => (Signal.number? name, targets)
      | "--" :: targets => (some Signal.usual, targets)
      | first :: targets =>
        match Text.strip? "-" first with
        | some name => (Signal.number? name, if targets.head? == some "--" then targets.drop 1
            else targets)
        | none => (some Signal.usual, arguments)
      | [] => (some Signal.usual, [])
    match signal, targets with
    | none, _ =>
      let name := if arguments.head? == some "-s" then (arguments.drop 1).headD ""
        else arguments.headD ""
      m.reportUse "kill" ("Illegal option " ++ name) 2
    | some _, [] =>
      m.reportUse "kill" ("Usage: kill [-s sigspec | -signum | -sigspec] [pid | job]... or\n" ++
        "kill -l [exitstatus]") 2
    | some signal, target :: _ =>
      if target == toString m.number then
        match if signal == Signal.kill then none else m.traps.lookup (Signal.name signal) with
        | some action =>
          let after := script fuel action (m.withStatus 0)
          if after.halt.isSome then after else after.withStatus 0
        | none =>
          match Signal.effect signal with
          | .none => m.withStatus 0
          | .stops => m.exhausted
          | .ends => { m with halt := some (.killed signal), status := 0 }
      else if m.jobs.any fun job => toString job.number == target then
        { m with
          status := 0
          jobs := m.jobs.map fun job =>
            if toString job.number == target && Signal.effect signal == .ends
            then { job with killed := some signal } else job }
      else m.reportUse "kill" "No such process\n" 1

/-- Wait for commands that run aside. -/
def wait : Nat → List String → Machine → Machine
  | 0, _, m => m.exhausted
  | fuel + 1, targets, m =>
    match m.jobs with
    | [] =>
      m.withStatus (if targets.isEmpty then 0 else 127)
    | job :: jobs =>
      if targets.isEmpty || targets.contains (toString job.number) then
        let after := runJob fuel job { m with jobs := jobs }
        if after.halt.isSome then after
        else
          let left := targets.filter (· != toString job.number)
          if !targets.isEmpty && left.isEmpty then after
          else wait fuel left after
      else
        let after := wait fuel targets { m with jobs := jobs }
        { after with jobs := job :: after.jobs }

/-- Run a command aside from its start to its end. -/
def runJob : Nat → Job → Machine → Machine
  | 0, _, m => m.exhausted
  | fuel + 1, job, m =>
    match job.killed with
    | some signal => { m with halt := some (.killed signal) }.afterProgram
    | none =>
      let after := { m with clock := job.started }.nest fun inner =>
        finish fuel (run fuel job.command
          { inner with
            parameters := job.parameters, arguments := job.arguments, input := []
            tested := false })
      { after with clock := max m.clock after.clock }

/-- Run the first branch with a pattern that matches. -/
def runBranch : Nat → String → List (List Word × Command) → Machine → Machine
  | 0, _, _, m => m.exhausted
  | _, _, [], m => m
  | fuel + 1, value, (patterns, body) :: rest, m =>
    let (m, found) := matchAny fuel value patterns m
    if m.halt.isSome then m
    else if found then run fuel body m
    else runBranch fuel value rest m

def matchAny : Nat → String → List Word → Machine → Machine × Bool
  | 0, _, _, m => (m.exhausted, false)
  | _, _, [], m => (m, false)
  | fuel + 1, value, pattern :: rest, m =>
    let (m, positions) := expandPattern fuel m pattern
    if (Pattern.all positions).matchesAll value.toList then (m, true)
    else matchAny fuel value rest m

/-- Run a loop; its status is that of the last body. -/
def repeat_ : Nat → Bool → Command → Command → Nat → Machine → Machine
  | 0, _, _, _, _, m => m.exhausted
  | fuel + 1, whileTrue, condition, body, status, m =>
    let m := m.testing (run fuel condition)
    if m.halt.isSome then m.afterTurn.1
    else if (m.status == 0) == whileTrue then
      let (m, again) := (run fuel body m).afterTurn
      if again then repeat_ fuel whileTrue condition body m.status m else m
    else m.withStatus status

/-- Run a command once for each value of a parameter. -/
def forEach : Nat → String → Command → List String → Machine → Machine
  | 0, _, _, _, m => m.exhausted
  | _, _, _, [], m => m
  | fuel + 1, name, body, value :: values, m =>
    let (m, again) := (run fuel body (m.assign name value)).afterTurn
    if again then forEach fuel name body values m else m

end

end Emend.Shell

import Emend.Shell.Condition
import Emend.Shell.Filter
import Emend.Shell.LineEditor

/-!
# The toolbox

The tools that wait, compare, compute and change files, and all tools under their
names.
-/

set_option autoImplicit false

namespace Emend.Shell.Tool

/-- What a tool adds to a complaint about its arguments. -/
def seeHelp (tool : String) : String := "\nTry '" ++ tool ++ " --help' for more information."

def missingOperand (call : Call) (tool : String) : Outcome :=
  .failed call 1 (tool ++ ": missing operand" ++ seeHelp tool)

/-! ## Time -/

/-- How many milliseconds a time is: a number of seconds, or of what the letter after
it stands for. -/
def pause? (text : String) : Option Nat :=
  let (digits, unit) := match text.toList.reverse with
    | 's' :: rest => (rest.reverse, 1)
    | 'm' :: rest => (rest.reverse, 60)
    | 'h' :: rest => (rest.reverse, 3600)
    | 'd' :: rest => (rest.reverse, 86400)
    | _ => (text.toList, 1)
  let whole := digits.takeWhile Char.isDigit
  let fraction := match digits.drop whole.length with
    | '.' :: fraction => some fraction
    | [] => some []
    | _ => none
  match fraction with
  | none => none
  | some fraction =>
    if (whole.isEmpty && fraction.isEmpty) || !fraction.all Char.isDigit then none
    else
      let parts := (fraction ++ ['0', '0', '0']).take 3
      (String.ofList (whole ++ parts)).toNat?.map (· * unit)

def sleep (call : Call) : Outcome :=
  if call.arguments.isEmpty then missingOperand call "sleep"
  else
    match call.arguments.find? fun time => (pause? time).isNone with
    | some time =>
      .failed call 1 ("sleep: invalid time interval '" ++ time ++ "'" ++ seeHelp "sleep")
    | none =>
      { Outcome.ofStatus call 0 with
        time := total (fun time => (pause? time).getD 0) call.arguments }

/-- Print a line without end: more of it than any reader takes, and for a long
time. -/
def yes (call : Call) : Outcome :=
  let line := if call.arguments.isEmpty then "y" else " ".intercalate call.arguments
  { Outcome.printed call (unlines (List.replicate 10000 line)) with time := 1000000000 }

/-! ## Computation -/

/-- The truth of a comparison of numbers, or of texts if one is no number. -/
def compared (operator first second : String) : Option Bool :=
  let order := match integer? first, integer? second with
    | some a, some b => compare a b
    | _, _ => compare first second
  match operator with
  | "=" => some (order == .eq)
  | "==" => some (order == .eq)
  | "!=" => some (order != .eq)
  | "<" => some (order == .lt)
  | "<=" => some (order != .gt)
  | ">" => some (order == .gt)
  | ">=" => some (order != .lt)
  | _ => none

/-- What a text has of a pattern: the first group, or how many characters match. -/
def matched (text source : String) : String :=
  let grouped := Text.contains "\\(" source
  match (Pattern.parse false source.toList).here? false [] text.toList with
  | some found =>
    if grouped then .ofList ((found.groups.lookup 1).getD []) else toString found.text.length
  | none => if grouped then "" else "0"

/-- The value of an operator between two texts; a complaint if it has none. -/
def expressionValue (operator first second : String) : Except String String :=
  match compared operator first second with
  | some answer => .ok (if answer then "1" else "0")
  | none =>
    if operator == ":" then .ok (matched first second)
    else
      match integer? first, integer? second with
      | some a, some b =>
        if operator == "+" then .ok (toString (a + b))
        else if operator == "-" then .ok (toString (a - b))
        else if operator == "*" then .ok (toString (a * b))
        else if b == 0 then .error "division by zero"
        else if operator == "/" then .ok (toString (a.tdiv b))
        else .ok (toString (a.tmod b))
      | _, _ => .error "non-integer argument"

/-- The operators of expressions from the weakest to the strongest. -/
def expressionLevels : List (List String) :=
  [["|"], ["&"], ["=", "==", "!=", "<", "<=", ">", ">="], ["+", "-"], ["*", "/", "%"], [":"]]

def isNothing (value : String) : Bool := value.isEmpty || integer? value == some 0

mutual

/-- An operand of an expression, and the words that are left. The first argument
bounds the steps. -/
def expressionOperand : Nat → List String → Except String (String × List String)
  | 0, _ => .error "syntax error"
  | fuel + 1, words =>
    match words with
    | "length" :: text :: rest => .ok (toString text.length, rest)
    | "substr" :: text :: start :: count :: rest =>
      let start := ((integer? start).getD 0).toNat
      let count := ((integer? count).getD 0).toNat
      .ok (if start == 0 then "" else .ofList ((text.toList.drop (start - 1)).take count), rest)
    | "index" :: text :: chars :: rest =>
      let place := text.toList.findIdx? fun c => chars.toList.contains c
      .ok (toString ((place.map (· + 1)).getD 0), rest)
    | "match" :: text :: source :: rest => .ok (matched text source, rest)
    | "(" :: rest => do
      let (value, rest) ← expressionFromLevel fuel expressionLevels rest
      match rest with
      | ")" :: rest => return (value, rest)
      | _ => .error "syntax error: expecting ')'"
    | word :: rest => .ok (word, rest)
    | [] => .error "syntax error: missing argument"

/-- Operands joined by the operators of these levels. -/
def expressionFromLevel :
    Nat → List (List String) → List String → Except String (String × List String)
  | 0, _, _ => .error "syntax error"
  | fuel + 1, [], words => expressionOperand fuel words
  | fuel + 1, level :: stronger, words => do
    let (first, rest) ← expressionFromLevel fuel stronger words
    expressionRest fuel level stronger first rest

/-- The operands of a level after the first. -/
def expressionRest : Nat → List String → List (List String) → String → List String →
    Except String (String × List String)
  | 0, _, _, _, _ => .error "syntax error"
  | fuel + 1, level, stronger, first, words =>
    match words with
    | operator :: rest =>
      if !level.contains operator then .ok (first, words)
      else do
        let (second, rest) ← expressionFromLevel fuel stronger rest
        let value ←
          if operator == "|" then .ok (if isNothing first then second else first)
          else if operator == "&" then
            .ok (if isNothing first || isNothing second then "0" else first)
          else expressionValue operator first second
        expressionRest fuel level stronger value rest
    | [] => .ok (first, [])

end

/-- Print the value of an expression; it fails if that is nothing. -/
def expr (call : Call) : Outcome :=
  let words := call.arguments
  if words.isEmpty then missingOperand call "expr"
  else
    match expressionFromLevel (16 * (words.length + 2)) expressionLevels words with
    | .error complaint => .failed call 2 ("expr: " ++ complaint)
    | .ok (value, []) =>
      { Outcome.printed call (value ++ "\n") with status := if isNothing value then 1 else 0 }
    | .ok (_, word :: _) =>
      .failed call 2 ("expr: syntax error: unexpected argument '" ++ word ++ "'")

/-- Print the numbers between two bounds. -/
def sequence (call : Call) : Outcome :=
  let isFlag (argument : String) : Bool := isOption argument && (integer? argument).isNone
  let (flags, values) := match call.arguments.takeWhile isFlag with
    | ["-s"] => ([], [('s', (call.arguments.drop 1).headD "")])
    | given =>
      let (flags, values, _) := optionsWith ['s'] (given.length + 1) given
      (flags, values)
  let skipped := match call.arguments with
    | "-s" :: _ :: _ => 2
    | arguments => (arguments.takeWhile isFlag).length
  let words := call.arguments.drop skipped
  let print (low step high : Int) : Outcome :=
    let count := if step == 0 then 0 else ((high - low).fdiv step + 1).toNat
    let numbers := (List.range count).map fun n => toString (low + Int.ofNat n * step)
    let width := if flags.contains 'w' then numbers.foldl (fun n text => max n text.length) 0 else 0
    let shown := numbers.map fun text =>
      String.ofList (List.replicate (width - text.length) '0') ++ text
    let separator := (values.lookup 's').getD "\n"
    .printed call (if shown.isEmpty then "" else separator.intercalate shown ++ "\n")
  match words.mapM integer? with
  | some [high] => print 1 1 high
  | some [low, high] => print low 1 high
  | some [low, step, high] => print low step high
  | _ =>
    match words.find? fun word => (integer? word).isNone with
    | some word =>
      .failed call 1 ("seq: invalid floating point argument: '" ++ word ++ "'" ++ seeHelp "seq")
    | none => missingOperand call "seq"

/-! ## Names of files -/

/-- The last step of a path without an ending. -/
def basename (call : Call) : Outcome :=
  match call.arguments with
  | path :: ending =>
    let name := (Path.steps path).getLastD (if Path.isAbsolute path then "/" else path)
    let short := (Text.stripEnd? (ending.headD "") name).getD name
    .printed call ((if short.isEmpty then name else short) ++ "\n")
  | [] => missingOperand call "basename"

/-- A path without its last step. -/
def dirname (call : Call) : Outcome :=
  match call.arguments with
  | path :: _ =>
    let parent := (Path.parent? path).getD path
    .printed call ((if parent.isEmpty then "." else parent) ++ "\n")
  | [] => missingOperand call "dirname"

def realpath (call : Call) : Outcome :=
  (options call.arguments).2.foldl (fun outcome path =>
    match call.tree.absolute path with
    | .ok whole => outcome.print (Text.bytes (whole ++ "\n"))
    | .error fault => outcome.complain 1 (usualComplaint "realpath" path fault))
    (Outcome.ofStatus call 0)

/-! ## Changes to files -/

/-- Where a file that goes to a target ends up: in it, if it is a directory. -/
def destination (tree : FileTree) (source target : String) : String :=
  if tree.isDirectory target then Path.join target ((Path.steps source).getLastD "") else target

/-- Whether two paths lead to one place. -/
def isSame (tree : FileTree) (first second : String) : Bool :=
  match tree.follow first, tree.follow second with
  | .ok a, .ok b => a == b
  | _, _ => false

/-- Copy files, with everything below them if asked to. -/
def copy (call : Call) : Outcome :=
  let (flags, words) := options call.arguments
  let deep := (letters flags).any fun c => c == 'r' || c == 'R' || c == 'a'
  match words.reverse with
  | target :: last :: others =>
    (last :: others).reverse.foldl (fun outcome source =>
      let target := destination outcome.tree source target
      match outcome.tree.find source with
      | .error fault =>
        outcome.complain 1 ("cp: cannot stat '" ++ source ++ "': " ++ faultText fault)
      | .ok .directory =>
        if !deep then
          outcome.complain 1 ("cp: -r not specified; omitting directory '" ++ source ++ "'")
        else
          let below := match outcome.tree.follow source with
            | .ok place => outcome.tree.below place
            | .error _ => []
          let start := (outcome.tree.makeDirectories target).toOption.getD outcome.tree
          let made := below.foldl (fun tree (steps, node) =>
            let path := Path.join target (Place.key steps)
            match node with
            | .directory => (tree.makeDirectories path).toOption.getD tree
            | .file contents => (tree.place path contents).toOption.getD tree) start
          { outcome with tree := made }
      | .ok (.file contents) =>
        if isSame outcome.tree source target then
          outcome.complain 1 ("cp: '" ++ source ++ "' and '" ++ target ++ "' are the same file")
        else
          match outcome.tree.write target contents with
          | .ok tree => { outcome with tree := tree }
          | .error fault =>
            outcome.complain 1
              ("cp: cannot create regular file '" ++ target ++ "': " ++ faultText fault))
      (Outcome.ofStatus call 0)
  | [only] =>
    .failed call 1 ("cp: missing destination file operand after '" ++ only ++ "'" ++ seeHelp "cp")
  | [] => .failed call 1 ("cp: missing file operand" ++ seeHelp "cp")

def move (call : Call) : Outcome :=
  let words := (options call.arguments).2
  match words.reverse with
  | target :: last :: others =>
    (last :: others).reverse.foldl (fun outcome source =>
      match outcome.tree.find source with
      | .error fault =>
        outcome.complain 1 ("mv: cannot stat '" ++ source ++ "': " ++ faultText fault)
      | .ok _ =>
        if isSame outcome.tree source (destination outcome.tree source target) then
          outcome.complain 1 ("mv: '" ++ source ++ "' and '" ++ target ++ "' are the same file")
        else
          let copied := copy { call with arguments := ["-r", source, target], tree := outcome.tree }
          if copied.status == 0 then
            { outcome with tree := (copied.tree.removeAll source).toOption.getD copied.tree }
          else
            outcome.complain 1 ("mv: cannot move '" ++ source ++ "' to '" ++ target ++
              "': No such file or directory"))
      (Outcome.ofStatus call 0)
  | [only] =>
    .failed call 1 ("mv: missing destination file operand after '" ++ only ++ "'" ++ seeHelp "mv")
  | [] => .failed call 1 ("mv: missing file operand" ++ seeHelp "mv")

/-- Remove files, with everything below them if asked to. -/
def remove (call : Call) : Outcome :=
  let (opts, files) := options call.arguments
  let has (c : Char) : Bool := (letters opts).contains c
  let deep := has 'r' || has 'R'
  if files.isEmpty && !has 'f' then missingOperand call "rm"
  else
    files.foldl (fun outcome file =>
      match if deep then outcome.tree.removeAll file else outcome.tree.remove file with
      | .ok tree => { outcome with tree := tree }
      | .error fault =>
        if has 'f' && fault == .notFound then outcome
        else
          outcome.complain 1 ("rm: cannot remove '" ++ file ++ "': " ++ faultText fault))
      (Outcome.ofStatus call 0)

def removeDirectory (call : Call) : Outcome :=
  (options call.arguments).2.foldl (fun outcome path =>
    let problem := match outcome.tree.find path, outcome.tree.follow path with
      | .ok .directory, .ok place =>
        if (outcome.tree.below place).isEmpty then none else some "Directory not empty"
      | .ok _, _ => some "Not a directory"
      | .error fault, _ => some (faultText fault)
    match problem with
    | none => { outcome with tree := (outcome.tree.removeAll path).toOption.getD outcome.tree }
    | some problem => outcome.complain 1 ("rmdir: failed to remove '" ++ path ++ "': " ++ problem))
    (Outcome.ofStatus call 0)

def touch (call : Call) : Outcome :=
  (options call.arguments).2.foldl (fun outcome file =>
    if (outcome.tree.find file).toBool then outcome
    else
      match outcome.tree.write file "" with
      | .ok tree => { outcome with tree := tree }
      | .error fault =>
        outcome.complain 1 ("touch: cannot touch '" ++ file ++ "': " ++ faultText fault))
    (Outcome.ofStatus call 0)

/-- Make directories, and those on the way to them if asked to. -/
def makeDirectory (call : Call) : Outcome :=
  let (flags, paths) := options call.arguments
  if paths.isEmpty then missingOperand call "mkdir"
  else
    paths.foldl (fun outcome path =>
      match if (letters flags).contains 'p' then outcome.tree.makeDirectories path
        else outcome.tree.makeDirectory path with
      | .ok tree => { outcome with tree := tree }
      | .error fault =>
        outcome.complain 1 ("mkdir: cannot create directory '" ++ path ++ "': " ++ faultText fault))
      (Outcome.ofStatus call 0)

/-! ## Looking at files -/

/-- Print the names in directories; files come first, and several directories come
with their names. -/
def list (call : Call) : Outcome :=
  let (flags, paths) := options call.arguments
  let has (c : Char) : Bool := (letters flags).contains c
  let paths := (if paths.isEmpty then ["."] else paths).mergeSort (· ≤ ·)
  let isShown (name : String) : Bool := has 'a' || has 'A' || (Text.strip? "." name).isNone
  let missing := paths.filter fun path => !(call.tree.find path).toBool
  let files := paths.filter fun path =>
    call.tree.isFile path || (has 'd' && (call.tree.find path).toBool)
  let directories := if has 'd' then [] else paths.filter fun path => call.tree.isDirectory path
  let start := missing.foldl (fun (outcome : Outcome) path =>
    outcome.complain 2 ("ls: cannot access '" ++ path ++ "': No such file or directory"))
    (Outcome.ofStatus call 0)
  let start := start.print (Text.bytes (unlines files))
  let several := paths.length > 1
  directories.zipIdx.foldl (fun outcome (path, n) =>
    let names := ((call.tree.list? path).getD []).filter isShown
    let names := if has 'a' then "." :: ".." :: names else names
    let names := if has 'r' then names.reverse else names
    let header := if several then
      (if n > 0 || !files.isEmpty then "\n" else "") ++ path ++ ":\n" else ""
    outcome.print (Text.bytes (header ++ unlines names))) start

/-- Print the paths below some that have a name and are of a kind. -/
def find (call : Call) : Outcome :=
  let starts := call.arguments.takeWhile fun a => !isOption a && a != "!" && a != "("
  let tests := call.arguments.drop starts.length
  let value (name : String) : Option String :=
    (tests.drop ((tests.idxOf? name).getD tests.length + 1)).head?
  let depth := (value "-maxdepth").bind String.toNat?
  let isChosen (name : String) (node : FileNode) : Bool :=
    (match value "-name" with
      | some pattern => (Pattern.ofWildcards pattern.toList).matchesAll name.toList
      | none => true) &&
    (match value "-type", node with
      | some "f", .file _ => true
      | some "d", .directory => true
      | some _, _ => false
      | none, _ => true)
  (if starts.isEmpty then ["."] else starts).foldl (fun outcome start =>
    match call.tree.find start, call.tree.follow start with
    | .ok node, .ok place =>
      let below := (call.tree.below place).filter fun (steps, _) =>
        match depth with
        | some most => steps.length ≤ most
        | none => true
      let sorted := below.mergeSort fun (a, _) (b, _) => Place.key a ≤ Place.key b
      let own := if isChosen ((Path.steps start).getLastD start) node then [start] else []
      let others := sorted.filterMap fun (steps, node) =>
        if isChosen (steps.getLastD "") node then some (Path.join start (Place.key steps)) else none
      outcome.print (Text.bytes (unlines (own ++ others)))
    | .error fault, _ =>
      outcome.complain 1 ("find: '" ++ start ++ "': " ++ faultText fault)
    | _, _ => outcome) (Outcome.ofStatus call 0)

/-- Compare two files byte by byte; it fails if they differ. -/
def compareFiles (call : Call) : Outcome :=
  let (flags, files) := options call.arguments
  let silent := (letters flags).contains 's'
  match files.map fun file => (file, readFile call file) with
  | [(firstName, .ok first), (secondName, .ok second)] =>
    let a := Text.bytes first
    let b := Text.bytes second
    let same := ((a.zip b).takeWhile fun (x, y) => x == y).length
    if a == b then .ofStatus call 0
    else if silent then .ofStatus call 1
    else if same == a.length || same == b.length then
      let shorter := if same == a.length then firstName else secondName
      let lines := (a.take same).count 10
      let place := if (a.take same).getLast? == some 10 || same == 0 then
        toString lines else "in line " ++ toString (lines + 1)
      .failed call 1 ("cmp: EOF on " ++ shorter ++ " after byte " ++ toString same ++ ", " ++
        (if same > 0 && (a.take same).getLast? == some 10 then "line " ++ place else place))
    else
      { Outcome.printed call (firstName ++ " " ++ secondName ++ " differ: char " ++
          toString (same + 1) ++ ", line " ++ toString ((a.take same).count 10 + 1) ++ "\n") with
        status := 1 }
  | results =>
    match results.findSome? fun (name, content) =>
        match content with
        | .error fault => some (name, fault)
        | .ok _ => none with
    | some (name, fault) => .failed call 2 (usualComplaint "cmp" name fault)
    | none => missingOperand call "cmp"

/-- The tool of this name. -/
def named? : String → Option (Call → Outcome)
  | "true" => some (Outcome.ofStatus · 0)
  | "false" => some (Outcome.ofStatus · 1)
  | "echo" => some plainEcho
  | "printf" => some printf
  | "cat" => some cat
  | "tee" => some tee
  | "head" => some head
  | "tail" => some tail
  | "wc" => some wc
  | "sort" => some sort
  | "grep" => some (grep false false)
  | "egrep" => some (grep true false)
  | "fgrep" => some (grep false true)
  | "uniq" => some uniq
  | "tac" => some tac
  | "rev" => some rev
  | "nl" => some nl
  | "paste" => some paste
  | "cut" => some cut
  | "tr" => some tr
  | "sed" => some sed
  | "sleep" => some sleep
  | "yes" => some yes
  | "expr" => some expr
  | "seq" => some sequence
  | "test" => some (conditional "test")
  | "[" => some (bracket "missing ']'")
  | "basename" => some basename
  | "dirname" => some dirname
  | "realpath" => some realpath
  | "cp" => some copy
  | "mv" => some move
  | "rm" => some remove
  | "rmdir" => some removeDirectory
  | "touch" => some touch
  | "mkdir" => some makeDirectory
  | "ls" => some list
  | "find" => some find
  | "cmp" => some compareFiles
  | "chmod" => some (Outcome.ofStatus · 0)
  | "sync" => some (Outcome.ofStatus · 0)
  | "pwd" => some fun call => .printed call ("/" ++ Place.key call.tree.home ++ "\n")
  | _ => none

end Emend.Shell.Tool

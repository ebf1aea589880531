import Emend.Shell.Pattern
import Emend.Shell.Tool

/-!
# Editing lines by a script

The tool `sed` reads its input line by line and applies the commands of a script to
each line that they are for: putting texts for matches, printing, deleting, adding
lines. What is left of the line is printed in the end, unless the tool is quiet.
-/

set_option autoImplicit false

namespace Emend.Shell.LineEditor

inductive Address where
  | number (n : Nat)
  | last
  | containing (pattern : Pattern)
  deriving Repr, Inhabited

inductive Action where
  /-- Put a text for a match: the one with this number, or with `all` that one and all
  after it; then print the line if asked to. -/
  | substitute (pattern : Pattern) (anyCase : Bool) (replacement : List Char) (number : Nat)
      (all print : Bool)
  | transliterate (old new : List Char)
  | print
  | printNumber
  | delete
  | quit
  /-- Print a text before the line, after it, or in place of it. -/
  | insert (text : List Char)
  | append (text : List Char)
  | change (text : List Char)
  deriving Repr, Inhabited

/-- A command: the line, or the first and the last line, that it is for; with
`negated` it is for the others. -/
structure Rule where
  first : Option Address
  last : Option Address
  negated : Bool
  action : Action
  deriving Repr, Inhabited

/-! ## Reading -/

/-- The text up to a character that is not escaped, and the rest; an escaped one
loses its backslash. -/
def upTo (stop : Char) : List Char → Option (List Char × List Char)
  | [] => none
  | '\\' :: c :: rest =>
    (upTo stop rest).map fun (text, rest) =>
      (if c == stop then c :: text else '\\' :: c :: text, rest)
  | c :: rest =>
    if c == stop then some ([], rest)
    else (upTo stop rest).map fun (text, rest) => (c :: text, rest)

def address? (extended : Bool) (cs : List Char) : Option Address × List Char :=
  match cs with
  | '$' :: rest => (some .last, rest)
  | '/' :: rest =>
    match upTo '/' rest with
    | some (source, rest) => (some (.containing (.parse extended source)), rest)
    | none => (none, cs)
  | cs =>
    let digits := cs.takeWhile Char.isDigit
    (((String.ofList digits).toNat?).map .number, cs.drop digits.length)

/-- The rest after blanks. -/
def skip (cs : List Char) : List Char := cs.dropWhile fun c => c == ' ' || c == '\t'

/-- The text of a command that takes one, up to the end of its line. -/
def lineText (cs : List Char) : List Char × List Char :=
  let cs := match skip cs with
    | '\\' :: '\n' :: rest => rest
    | '\\' :: rest => skip rest
    | rest => rest
  (cs.takeWhile (· != '\n'), cs.dropWhile (· != '\n'))

def action? (extended : Bool) : List Char → Option (Action × List Char)
  | 'p' :: rest => some (.print, rest)
  | '=' :: rest => some (.printNumber, rest)
  | 'd' :: rest => some (.delete, rest)
  | 'q' :: rest => some (.quit, rest)
  | 'i' :: rest => let (text, rest) := lineText rest; some (.insert text, rest)
  | 'a' :: rest => let (text, rest) := lineText rest; some (.append text, rest)
  | 'c' :: rest => let (text, rest) := lineText rest; some (.change text, rest)
  | 'y' :: mark :: rest => do
    let (old, rest) ← upTo mark rest
    let (new, rest) ← upTo mark rest
    if old.length == new.length then some (.transliterate old new, rest) else none
  | 's' :: mark :: rest => do
    let (source, rest) ← upTo mark rest
    let (replacement, rest) ← upTo mark rest
    let flags := rest.takeWhile fun c => c.isDigit || "gpiI".toList.contains c
    let number := (String.ofList (flags.filter Char.isDigit)).toNat?
    let anyCase := flags.contains 'i' || flags.contains 'I'
    some (.substitute (.parse extended source) anyCase replacement (number.getD 1)
      (flags.contains 'g') (flags.contains 'p'), rest.drop flags.length)
  | _ => none

/-- The rules of a script; `none` if it is no script. The first argument bounds their
number. -/
def rules? (extended : Bool) : Nat → List Char → Option (List Rule)
  | 0, _ => none
  | fuel + 1, cs =>
    match cs.dropWhile fun c => Text.isBlank c || c == ';' with
    | [] => some []
    | start => do
      let (first, rest) := address? extended start
      let (last, rest) := match first, skip rest with
        | some _, ',' :: rest => address? extended (skip rest)
        | _, rest => (none, rest)
      let rest := skip rest
      let (negated, rest) := match rest with
        | '!' :: rest => (true, skip rest)
        | rest => (false, rest)
      let (action, rest) ← action? extended rest
      match skip rest with
      | [] => some [⟨first, last, negated, action⟩]
      | c :: rest =>
        if c == ';' || c == '\n' then
          (rules? extended fuel rest).map (⟨first, last, negated, action⟩ :: ·)
        else none

/-! ## Editing -/

/-- A replacement with the match in place of `&` and groups in place of their
numbers. -/
def filled (found : Pattern.Found) : List Char → List Char
  | [] => []
  | '\\' :: 'n' :: rest => '\n' :: filled found rest
  | '\\' :: 't' :: rest => '\t' :: filled found rest
  | '\\' :: c :: rest =>
    (if c.isDigit then
      if c == '0' then found.text else (found.groups.lookup (c.toNat - '0'.toNat)).getD []
    else [c]) ++ filled found rest
  | '&' :: rest => found.text ++ filled found rest
  | c :: rest => c :: filled found rest

/-- A line with matches replaced from the place `from_` on, and whether any was. The
first argument bounds their number; `skipped` is how many stay. -/
def replaced (pattern : Pattern) (anyCase : Bool) (replacement : List Char) (all : Bool) :
    Nat → Nat → Nat → List Char → List Char × Bool
  | 0, _, from_, line => (line.drop from_, false)
  | fuel + 1, skipped, from_, line =>
    match pattern.first? anyCase from_ line with
    | none => (line.drop from_, false)
    | some found =>
      let before := found.before.drop from_
      let after := found.before.length + found.text.length
      let (here, isDone) := match skipped with
        | 0 => (filled found replacement, true)
        | _ + 1 => (found.text, false)
      if isDone && !all then (before ++ here ++ found.after, true)
      else if found.text.isEmpty then
        match found.after with
        | [] => (before ++ here, isDone)
        | c :: _ =>
          let (others, more) := replaced pattern anyCase replacement all fuel (skipped - 1)
            (after + 1) line
          (before ++ here ++ c :: others, isDone || more)
      else
        let (others, more) := replaced pattern anyCase replacement all fuel (skipped - 1) after line
        (before ++ here ++ others, isDone || more)

/-- A line while it is being edited. -/
structure Line where
  text : Option (List Char)
  printed : List (List Char)
  /-- What is printed after the line, the last line first. -/
  later : List (List Char)
  ended : Bool

def Address.names (address : Address) (n : Nat) (isLast : Bool) (line : List Char) : Bool :=
  match address with
  | number m => n == m
  | last => isLast
  | containing pattern => (pattern.first? false 0 line).isSome

def Rule.chooses (rule : Rule) (isOpen : Bool) (n : Nat) (isLast : Bool) (line : List Char) :
    Bool × Bool :=
  let (chosen, isOpen) := match rule.first, rule.last with
    | none, _ => (true, false)
    | some first, none => (first.names n isLast line, false)
    | some first, some final =>
      if isOpen then
        let ended := match final with
          | .number m => decide (m ≤ n)
          | _ => final.names n isLast line
        (match final with
          | .number m => decide (n ≤ m) || first.names n isLast line
          | _ => true, !ended)
      else if first.names n isLast line then
        (true, match final with
          | .number m => decide (n < m)
          | _ => true)
      else (false, false)
  (chosen != rule.negated, isOpen)

def Line.apply (line : Line) (n : Nat) (action : Action) : Line :=
  match line.text with
  | none => line
  | some text =>
    match action with
    | .print => { line with printed := text :: line.printed }
    | .printNumber => { line with printed := (toString n).toList :: line.printed }
    | .delete => { line with text := none }
    | .quit => { line with ended := true }
    | .insert added => { line with printed := added :: line.printed }
    | .append added => { line with later := added :: line.later }
    | .change other => { line with text := none, printed := other :: line.printed }
    | .transliterate old new =>
      { line with text := some (text.map fun c =>
        match old.idxOf? c with
        | some i => new.getD i c
        | none => c) }
    | .substitute pattern anyCase replacement number all print =>
      let (after, isDone) := replaced pattern anyCase replacement all (text.length + 2)
        (number - 1) 0 text
      { line with
        text := some after
        printed := if isDone && print then after :: line.printed else line.printed }

def applyRules (n : Nat) (isLast : Bool) : List (Rule × Bool) → Line → Line × List (Rule × Bool)
  | [], line => (line, [])
  | (rule, isOpen) :: rules, line =>
    match line.text, line.ended with
    | some text, false =>
      let (chosen, isOpen) := rule.chooses isOpen n isLast text
      let line := if chosen then line.apply n rule.action else line
      let (line, others) := applyRules n isLast rules line
      (line, (rule, isOpen) :: others)
    | _, _ => (line, (rule, isOpen) :: rules)

/-- The lines that a script prints. A line that is printed because of the last line of
the input, and stands last, is marked. -/
def edit (quiet : Bool) (count : Nat) : List (Rule × Bool) → List (String × Nat) →
    List (List Char × Bool)
  | _, [] => []
  | rules, (text, i) :: rest =>
    let isLast := i + 1 == count
    let (line, rules) := applyRules (i + 1) isLast rules ⟨some text.toList, [], [], false⟩
    let own := if quiet then [] else line.text.toList
    let here := (line.printed.reverse ++ own).map fun text => (text, isLast)
    here ++ (line.later.reverse.map fun text => (text, false)) ++
      if line.ended then [] else edit quiet count rules rest

end Emend.Shell.LineEditor

namespace Emend.Shell.Tool

/-- Edit lines by a script. -/
def sed (call : Call) : Outcome :=
  let (flags, values, rest) := optionsWith ['e'] (call.arguments.length + 1) call.arguments
  let scripts := (values.filter fun (c, _) => c == 'e').map Prod.snd
  let extended := flags.contains 'E' || flags.contains 'r'
  match if scripts.isEmpty then rest.head?.map fun script => (script, rest.drop 1)
    else some ("\n".intercalate scripts, rest) with
  | none =>
    .failed call 1
      "Usage: sed [OPTION]... \x7bscript-only-if-no-other-script\x7d [input-file]..."
  | some (script, files) =>
    match LineEditor.rules? extended (script.length + 1) script.toList with
    | none => .failed call 1 "sed: -e expression #1, char 1: unknown command"
    | some rules =>
      let complaint (name : String) (fault : IoFault) : String :=
        if fault == .isDirectory then "sed: couldn't edit " ++ name ++ ": not a regular file"
        else "sed: can't read " ++ name ++ ": " ++ faultText fault
      let text := String.join ((inputs call files).map fun (_, content) =>
        content.toOption.getD "")
      let lines := rawLines text
      let isClosed := text.isEmpty || text.toList.getLast? == some '\n'
      let edited := LineEditor.edit (flags.contains 'n') lines.length
        (rules.map fun rule => (rule, false)) lines.zipIdx
      let printed := edited.flatMap fun (text, _) => text ++ ['\n']
      let isOpen := !isClosed && (edited.getLast?.any fun (_, marked) => marked)
      let outcome := overInputs call complaint 2 files fun _ _ => []
      outcome.print (Text.bytes (.ofList (if isOpen then printed.dropLast else printed)))

end Emend.Shell.Tool

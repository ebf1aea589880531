import Emend.Shell.Command
import Emend.Text.Blank

/-!
# Reading shell scripts

A reader takes the remaining text and gives what it read with the rest, or the fault
for which the text is no script. Every reader that calls itself has a bound on its
steps as its first argument; the length of the script is enough.

A script is read line by line: what stands in the lines before a fault is run.
-/

set_option autoImplicit false

namespace Emend.Shell

/-! ## Faults -/

/-- Why a text is no script. -/
inductive SyntaxCause where
  /-- Something stands where it cannot stand, or where something else should. -/
  | unexpected (found : String) (wanted : Option String)
  | unterminated
  | missingBrace
  | openOutput
  | badFunctionName
  | badLoopName
  | badChannel
  deriving DecidableEq, Repr, Inhabited

/-- A cause, and how many line ends of the text are left where it shows. -/
structure SyntaxFault where
  cause : SyntaxCause
  /-- How many line ends are left. -/
  linesLeft : Nat
  deriving DecidableEq, Repr, Inhabited

def SyntaxCause.message : SyntaxCause → String
  | unexpected found none => found ++ " unexpected"
  | unexpected found (some wanted) => found ++ " unexpected (expecting \"" ++ wanted ++ "\")"
  | unterminated => "Unterminated quoted string"
  | missingBrace => "Missing '\x7d'"
  | openOutput => "EOF in backquote substitution"
  | badFunctionName => "Bad function name"
  | badLoopName => "Bad for loop variable"
  | badChannel => "Bad fd number"

abbrev Reader (α : Type) := List Char → Except SyntaxFault (α × List Char)

/-- A fault that shows where this text is left. -/
def fault {α : Type} (cause : SyntaxCause) (cs : List Char) : Except SyntaxFault α :=
  .error ⟨cause, cs.count '\n'⟩

/-! ## Characters -/

/-- The character that starts and ends old-style command output. -/
def backquote : Char := '\x60'

/-- Characters that end a word without quotes. -/
def endsWord (c : Char) : Bool := " \t\n;&|<>()".toList.contains c

/-- Characters that start something other than plain text in a word. -/
def quotes (c : Char) : Bool := c == '\'' || c == '"' || c == '\\' || c == '$' || c == backquote

def isNameChar (c : Char) : Bool := c.isAlphanum || c == '_'

def startsName (c : Char) : Bool := c.isAlpha || c == '_'

def isName (text : List Char) : Bool :=
  match text with
  | c :: cs => startsName c && cs.all isNameChar
  | [] => false

/-- Parameters with one-character names. -/
def isSpecial (c : Char) : Bool := c.isDigit || "@*#?$!-".toList.contains c

/-- The rest after blanks, escaped line ends and a comment. -/
def skipBlanks : List Char → List Char
  | ' ' :: rest => skipBlanks rest
  | '\t' :: rest => skipBlanks rest
  | '\\' :: '\n' :: rest => skipBlanks rest
  | '#' :: rest => rest.dropWhile (· != '\n')
  | cs => cs

/-- The rest after blanks, comments and line ends. -/
def skipLines : Nat → List Char → List Char
  | 0, cs => cs
  | fuel + 1, cs =>
    match skipBlanks cs with
    | '\n' :: rest => skipLines fuel rest
    | rest => rest

/-! ## Keywords and operators -/

/-- The rest after a keyword that ends there. -/
def keyword? (word : String) (cs : List Char) : Option (List Char) :=
  match Text.stripPrefix? word.toList cs with
  | some [] => some []
  | some (c :: rest) => if endsWord c then some (c :: rest) else none
  | none => none

def closingKeywords : List String :=
  ["then", "fi", "do", "done", "else", "elif", "esac", "\x7d"]

def openingKeywords : List String := ["if", "while", "until", "for", "case", "\x7b", "!"]

/-- Whether the text starts with a word that ends a list of commands. -/
def endsList (cs : List Char) : Bool :=
  match cs with
  | [] => true
  | ')' :: _ => true
  | ';' :: ';' :: _ => true
  | _ => closingKeywords.any fun word => (keyword? word cs).isSome

/-- What a text starts with, as complaints call it. -/
def found (cs : List Char) : String :=
  let operators := [";;", ";", "&&", "&", "||", "|", "(", ")"]
  match cs with
  | [] => "end of file"
  | '\n' :: _ => "newline"
  | '<' :: _ => "redirection"
  | '>' :: _ => "redirection"
  | _ =>
    match operators.find? fun operator => (Text.stripPrefix? operator.toList cs).isSome with
    | some operator => "\"" ++ operator ++ "\""
    | none =>
      match (closingKeywords ++ openingKeywords).find? fun word => (keyword? word cs).isSome with
      | some word => "\"" ++ word ++ "\""
      | none => "word"

/-- The fault that the text goes on with the wrong thing. -/
def unexpected {α : Type} (cs : List Char) (wanted : Option String) : Except SyntaxFault α :=
  fault (.unexpected (found cs) wanted) cs

/-- The rest after a keyword that must stand there. -/
def expect (word : String) (cs : List Char) : Except SyntaxFault (List Char) :=
  match keyword? word cs with
  | some rest => .ok rest
  | none => unexpected cs (some word)

/-- The rest after a closing parenthesis that must stand there. -/
def closeParenthesis (cs : List Char) : Except SyntaxFault (List Char) :=
  match cs with
  | ')' :: rest => .ok rest
  | _ => unexpected cs (some ")")

/-! ## Leaves -/

/-- The text up to the parentheses that end an expression; `depth` counts the open
ones. -/
def expressionFrom (depth : Nat) (read : List Char) : List Char → Option (List Char × List Char)
  | [] => none
  | '(' :: rest => expressionFrom (depth + 1) ('(' :: read) rest
  | ')' :: rest =>
    match depth, rest with
    | 0, ')' :: after => some (read.reverse, after)
    | 0, _ => none
    | depth + 1, rest => expressionFrom depth (')' :: read) rest
  | c :: rest => expressionFrom depth (c :: read) rest

/-- The text up to the closing backquote, in which backslashes protect themselves,
the dollar sign and the backquote, and with `inQuotes` the quote. -/
def backquoted (inQuotes : Bool) : List Char → Option (List Char × List Char)
  | [] => none
  | '\\' :: c :: rest =>
    (backquoted inQuotes rest).map fun (text, after) =>
      (if c == '$' || c == '\\' || c == backquote || (inQuotes && c == '"') then c :: text
        else '\\' :: c :: text, after)
  | c :: rest =>
    if c == backquote then some ([], rest)
    else (backquoted inQuotes rest).map fun (text, after) => (c :: text, after)

/-- The start of a redirection: the channel if it is given, the arrow, and the
rest. -/
def arrow? (cs : List Char) : Option (Option Nat × String × List Char) :=
  let digits := cs.takeWhile Char.isDigit
  let rest := cs.drop digits.length
  let arrows := ["<<-", "<<", "<&", "<>", "<", ">>", ">&", ">|", ">"]
  (arrows.findSome? fun arrow =>
    (Text.stripPrefix? arrow.toList rest).map fun rest => (arrow, rest)).map fun (arrow, rest) =>
      ((String.ofList digits).toNat?, arrow, rest)

def restOfLine (cs : List Char) : List Char × List Char :=
  (cs.takeWhile (· != '\n'), cs.dropWhile (· != '\n'))

/-- The lines of a text in the script up to the line that ends it, and the rest after
that line. With `tabs`, tabs at the beginnings of lines do not count. -/
def hereLines (ending : List Char) (tabs : Bool) : Nat → List Char → List Char × List Char
  | 0, cs => ([], cs)
  | fuel + 1, cs =>
    let cs := if tabs then cs.dropWhile (· == '\t') else cs
    let (line, after) := restOfLine cs
    if line == ending then ([], after.drop 1)
    else
      match after with
      | [] => (line, [])
      | _ :: after =>
        let (others, rest) := hereLines ending tabs fuel after
        (line ++ '\n' :: others, rest)

/-- The word that ends a text in the script, whether it is quoted, and the rest. -/
def hereWord (quoted : Bool) : List Char → List Char × Bool × List Char
  | [] => ([], quoted, [])
  | '\'' :: rest =>
    let inner := rest.takeWhile (· != '\'')
    (inner, true, rest.drop (inner.length + 1))
  | '"' :: rest =>
    let inner := rest.takeWhile (· != '"')
    (inner, true, rest.drop (inner.length + 1))
  | '\\' :: c :: rest =>
    let (word, _, rest) := hereWord true rest
    (c :: word, true, rest)
  | c :: rest =>
    if endsWord c then ([], quoted, c :: rest)
    else
      let (word, quoted, rest) := hereWord quoted rest
      (c :: word, quoted, rest)

/-- What can be done with the value of a parameter in braces. -/
inductive Form where
  | instead (ifGiven orEmpty : Bool)
  | assigned (orEmpty : Bool)
  | required (orEmpty : Bool)
  | trimmed (atEnd longest : Bool)
  deriving DecidableEq, Repr, Inhabited

/-- The form that a sign in braces means, and the rest. -/
def form? : List Char → Option (Form × List Char)
  | ':' :: '-' :: rest => some (.instead false true, rest)
  | '-' :: rest => some (.instead false false, rest)
  | ':' :: '+' :: rest => some (.instead true true, rest)
  | '+' :: rest => some (.instead true false, rest)
  | ':' :: '=' :: rest => some (.assigned true, rest)
  | '=' :: rest => some (.assigned false, rest)
  | ':' :: '?' :: rest => some (.required true, rest)
  | '?' :: rest => some (.required false, rest)
  | '%' :: '%' :: rest => some (.trimmed true true, rest)
  | '%' :: rest => some (.trimmed true false, rest)
  | '#' :: '#' :: rest => some (.trimmed false true, rest)
  | '#' :: rest => some (.trimmed false false, rest)
  | _ => none

def braceName (cs : List Char) : List Char :=
  match cs with
  | c :: _ =>
    if c.isDigit then cs.takeWhile Char.isDigit
    else if isSpecial c then [c]
    else if startsName c then cs.takeWhile isNameChar
    else []
  | [] => []

def assignment? (word : Word) : Option (String × Word) :=
  match word with
  | .mk (.text start) false :: rest =>
    match Text.cut? '=' start with
    | some (name, value) =>
      if isName name.toList then
        some (name, if value.isEmpty then rest else .mk (.text value) false :: rest)
      else none
    | none => none
  | _ => none

inductive QuoteEnd where
  | quote
  | brace
  | text
  deriving DecidableEq, Repr, Inhabited

/-! ## Words and commands -/

/-- A script that is being read, of which only the number of line ends matters: with
what is left it gives the number of the line. -/
structure Script where
  lineEnds : Nat
  deriving DecidableEq, Repr, Inhabited

namespace Script

def ofText (cs : List Char) : Script := ⟨cs.count '\n'⟩

/-- The number of the line after which so many line ends are left. -/
def lineOf (script : Script) (linesLeft : Nat) : Nat := script.lineEnds + 1 - linesLeft

/-- The number of the line where this text is left. -/
def lineAt (script : Script) (rest : List Char) : Nat := script.lineOf (rest.count '\n')

end Script

mutual

/-- A word, or nothing at the end of a command. With `inBraces` it ends at a closing
brace and nowhere else. -/
def word (script : Script) (inBraces : Bool) : Nat → Reader Word
  | 0, cs => fault .unterminated cs
  | fuel + 1, cs =>
    match cs with
    | [] => if inBraces then fault .missingBrace [] else .ok ([], [])
    | '\'' :: rest =>
      match Text.splitFirst? '\'' rest with
      | none => fault .unterminated []
      | some (text, rest) => do
        let (others, rest) ← word script inBraces fuel rest
        return (.mk (.text (.ofList text)) true :: others, rest)
    | '"' :: rest => do
      let (start, rest) ← quoted script .quote fuel rest
      let (others, rest) ← word script inBraces fuel rest
      return ((if start.isEmpty then [.mk (.text "") true] else start) ++ others, rest)
    | '\\' :: '\n' :: rest => word script inBraces fuel rest
    | '\\' :: c :: rest => do
      let (others, rest) ← word script inBraces fuel rest
      return (.mk (.text (.ofList [c])) true :: others, rest)
    | c :: rest =>
      if c == '$' || c == backquote then do
        let (piece, rest) ← dollar script false fuel cs
        let (others, rest) ← word script inBraces fuel rest
        return (.mk piece false :: others, rest)
      else if if inBraces then c == '}' else endsWord c then .ok ([], cs)
      else
        let isPlain (c : Char) : Bool :=
          !(if inBraces then c == '}' else endsWord c) && !quotes c
        let plain := c :: rest.takeWhile isPlain
        do
          let (others, rest) ← word script inBraces fuel (rest.dropWhile isPlain)
          return (.mk (.text (.ofList plain)) false :: others, rest)

def quoted (script : Script) (ending : QuoteEnd) : Nat → Reader Word
  | 0, cs => fault .unterminated cs
  | fuel + 1, cs =>
    match cs with
    | [] =>
      match ending with
      | .quote => fault .unterminated []
      | .brace => fault .missingBrace []
      | .text => .ok ([], [])
    | '\\' :: '\n' :: rest => quoted script ending fuel rest
    | '\\' :: c :: rest => do
      let (others, rest) ← quoted script ending fuel rest
      let protects := c == '$' || c == '\\' || c == backquote ||
        (c == '"' && ending != .text) || (c == '}' && ending == .brace)
      let text := if protects then [c] else ['\\', c]
      return (.mk (.text (.ofList text)) true :: others, rest)
    | c :: rest =>
      if c == '"' && ending == .quote then .ok ([], rest)
      else if c == '}' && ending == .brace then .ok ([], cs)
      else if c == '"' && ending == .brace then do
        let (inner, rest) ← quoted script .quote fuel rest
        let (others, rest) ← quoted script ending fuel rest
        return (inner ++ others, rest)
      else if c == '$' || c == backquote then do
        let (piece, rest) ← dollar script true fuel cs
        let (others, rest) ← quoted script ending fuel rest
        return (.mk piece true :: others, rest)
      else
        let isPlain (c : Char) : Bool :=
          c != '\\' && c != '$' && c != backquote &&
            !(c == '"' && ending != .text) && !(c == '}' && ending == .brace)
        let plain := c :: rest.takeWhile isPlain
        do
          let (others, rest) ← quoted script ending fuel (rest.dropWhile isPlain)
          return (.mk (.text (.ofList plain)) true :: others, rest)

/-- A parameter, an expression or the output of a command. A dollar sign before
anything else is text. -/
def dollar (script : Script) (inQuotes : Bool) : Nat → Reader Piece
  | 0, cs => fault .unterminated cs
  | fuel + 1, cs =>
    match cs with
    | '$' :: '(' :: rest =>
      let expression := match rest with
        | '(' :: inner => expressionFrom 0 [] inner
        | _ => none
      match expression with
      | some (inner, rest) => do
        let (expression, _) ← quoted script .text fuel inner
        return (.arithmetic expression, rest)
      | none => do
        let (command, rest) ← list script false fuel rest
        return (.output command, ← closeParenthesis rest)
    | '$' :: '{' :: rest => braces script inQuotes fuel rest
    | '$' :: c :: rest =>
      if isSpecial c then .ok (.parameter (.ofList [c]), rest)
      else if startsName c then
        .ok (.parameter (.ofList (c :: rest.takeWhile isNameChar)), rest.dropWhile isNameChar)
      else .ok (.text "$", c :: rest)
    | ['$'] => .ok (.text "$", [])
    | _ :: rest =>
      match backquoted inQuotes rest with
      | none => fault .openOutput []
      | some (inner, rest) => do
        let (command, left) ← list (.ofText inner) false fuel inner
        if left.isEmpty then return (.output command, rest)
        else unexpected left none
    | [] => fault .unterminated []

/-- What stands in braces after a dollar sign. -/
def braces (script : Script) (inQuotes : Bool) : Nat → Reader Piece
  | 0, cs => fault .unterminated cs
  | fuel + 1, cs =>
    let measured := match cs with
      | '#' :: rest =>
        let name := braceName rest
        match name, rest.drop name.length with
        | _ :: _, '}' :: rest => some (name, rest)
        | _, _ => none
      | _ => none
    match measured with
    | some (name, rest) => .ok (.length (.ofList name), rest)
    | none =>
      let name := braceName cs
      match cs.drop name.length, name with
      | '}' :: rest, _ :: _ => .ok (.parameter (.ofList name), rest)
      | rest, _ =>
        match form? rest, name with
        | some (form, rest), _ :: _ =>
          let name := String.ofList name
          let isPattern := match form with
            | .trimmed _ _ => true
            | _ => false
          do
            let (inner, rest) ← if inQuotes && !isPattern then quoted script .brace fuel rest
              else word script true fuel rest
            let piece : Piece := match form with
              | .instead ifGiven orEmpty => .instead name ifGiven orEmpty inner
              | .assigned orEmpty => .assigned name orEmpty inner
              | .required orEmpty => .required name orEmpty inner
              | .trimmed atEnd longest => .trimmed name atEnd longest inner
            return (piece, rest.drop 1)
        | _, _ => do
          let (_, rest) ← word script true fuel rest
          return (.senseless, rest.drop 1)

/-- Commands up to the end of the list, which with `oneLine` is also the end of the
line. -/
def list (script : Script) (oneLine : Bool) : Nat → Reader Command
  | 0, cs => fault .unterminated cs
  | fuel + 1, cs =>
    let start := if oneLine then skipBlanks cs else skipLines cs.length cs
    if endsList start then .ok (.nothing, start)
    else if oneLine && start.head? == some '\n' then .ok (.nothing, start)
    else do
      let (first, rest) ← chain script fuel start
      match skipBlanks rest with
      | ';' :: ';' :: rest => .ok (first, ';' :: ';' :: rest)
      | ';' :: rest => do
        let (others, rest) ← list script oneLine fuel rest
        return (.both first others, rest)
      | '&' :: rest => do
        let (others, rest) ← list script oneLine fuel rest
        return (.both (.aside first) others, rest)
      | '\n' :: rest =>
        if oneLine then .ok (first, '\n' :: rest)
        else do
          let (others, rest) ← list script oneLine fuel rest
          return (.both first others, rest)
      | rest => if endsList rest then .ok (first, rest) else unexpected rest none

/-- Commands of which there must be at least one, unless the script ends there. -/
def body (script : Script) : Nat → Reader Command
  | 0, cs => fault .unterminated cs
  | fuel + 1, cs => do
    let start := skipLines cs.length cs
    if endsList start && !start.isEmpty then unexpected start none
    else list script false fuel start

/-- Pipelines joined by `&&` and `||`. -/
def chain (script : Script) : Nat → Reader Command
  | 0, cs => fault .unterminated cs
  | fuel + 1, cs => do
    let (first, rest) ← pipeline script fuel cs
    chainFrom script fuel first rest

/-- The pipelines after the first. -/
def chainFrom (script : Script) : Nat → Command → Reader Command
  | 0, _, cs => fault .unterminated cs
  | fuel + 1, first, cs =>
    match skipBlanks cs with
    | '&' :: '&' :: rest => do
      let (second, rest) ← pipeline script fuel (skipLines rest.length rest)
      chainFrom script fuel (.guarded true first second) rest
    | '|' :: '|' :: rest => do
      let (second, rest) ← pipeline script fuel (skipLines rest.length rest)
      chainFrom script fuel (.guarded false first second) rest
    | rest => .ok (first, rest)

/-- Commands joined by `|`, which may be negated as a whole. -/
def pipeline (script : Script) : Nat → Reader Command
  | 0, cs => fault .unterminated cs
  | fuel + 1, cs =>
    match keyword? "!" cs with
    | some rest => do
      let (command, rest) ← pipeline script fuel (skipBlanks rest)
      return (.negated command, rest)
    | none => do
      let (first, rest) ← command script fuel cs
      match skipBlanks rest with
      | '|' :: '|' :: _ => .ok (first, rest)
      | '|' :: rest => do
        let (second, rest) ← pipeline script fuel (skipLines rest.length rest)
        return (.piped first second, rest)
      | rest => .ok (first, rest)

def command (script : Script) : Nat → Reader Command
  | 0, cs => fault .unterminated cs
  | fuel + 1, cs =>
    match openingKeywords.findSome? fun word => (keyword? word cs).map fun rest => (word, rest) with
    | some ("if", rest) => do
      let (command, rest) ← branch script fuel rest
      redirects script cs fuel command rest
    | some ("while", rest) => do
      let (condition, rest) ← body script fuel rest
      let (body, rest) ← loopBody script fuel rest
      redirects script cs fuel (.loop true condition body) rest
    | some ("until", rest) => do
      let (condition, rest) ← body script fuel rest
      let (body, rest) ← loopBody script fuel rest
      redirects script cs fuel (.loop false condition body) rest
    | some ("for", rest) => do
      let rest := skipBlanks rest
      let name := rest.takeWhile fun c => !endsWord c
      if !isName name then fault .badLoopName rest
      else
        let rest := skipLines rest.length (rest.drop name.length)
        let (words, rest) ← match keyword? "in" rest with
          | some rest => do
            let (words, rest) ← words script fuel rest
            match skipBlanks rest with
            | ';' :: rest => pure (some words, rest)
            | '\n' :: rest => pure (some words, rest)
            | rest => unexpected rest none
          | none =>
            match rest with
            | ';' :: rest => pure (none, rest)
            | rest => pure (none, rest)
        let (body, rest) ← loopBody script fuel (skipLines rest.length rest)
        redirects script cs fuel (.each (.ofList name) words body) rest
    | some ("case", rest) => do
      let (subject, rest) ← word script false fuel (skipBlanks rest)
      if subject.isEmpty then unexpected (skipBlanks rest) none
      else
        let rest ← expect "in" (skipLines rest.length rest)
        let (branches, rest) ← branches script fuel rest
        redirects script cs fuel (.cases subject branches) rest
    | some ("\x7b", rest) => do
      let (command, rest) ← body script fuel rest
      redirects script cs fuel command (← expect "\x7d" rest)
    | some (_, _) => unexpected cs none
    | none =>
      match cs with
      | '(' :: rest => do
        let (command, rest) ← body script fuel rest
        redirects script cs fuel (.nested command) (← closeParenthesis rest)
      | _ =>
        let name := cs.takeWhile fun c => !endsWord c && !quotes c
        let isAssignment := (assignment? [.mk (.text (.ofList name)) false]).isSome
        match if isAssignment then [] else name, skipBlanks (cs.drop name.length) with
        | _ :: _, '(' :: rest =>
          match skipBlanks rest with
          | ')' :: rest =>
            if isName name then do
              let (body, rest) ← command script fuel (skipLines rest.length rest)
              return (.function (.ofList name) body, rest)
            else fault .badFunctionName rest
          | rest => unexpected rest (some ")")
        | _, _ => simple script cs fuel [] [] [] cs

/-- What follows `if` or `elif`. -/
def branch (script : Script) : Nat → Reader Command
  | 0, cs => fault .unterminated cs
  | fuel + 1, cs => do
    let (condition, rest) ← body script fuel cs
    let rest ← expect "then" rest
    let (first, rest) ← body script fuel rest
    match keyword? "elif" rest, keyword? "else" rest with
    | some rest, _ => do
      let (second, rest) ← branch script fuel rest
      return (.choice condition first second, rest)
    | none, some rest => do
      let (second, rest) ← body script fuel rest
      return (.choice condition first second, ← expect "fi" rest)
    | none, none => do
      return (.choice condition first .nothing, ← expect "fi" rest)

def branches (script : Script) : Nat → Reader (List (List Word × Command))
  | 0, cs => fault .unterminated cs
  | fuel + 1, cs =>
    let start := skipLines cs.length cs
    match keyword? "esac" start with
    | some rest => .ok ([], rest)
    | none => do
      let (patterns, rest) ← patterns script fuel (match start with
        | '(' :: rest => rest
        | rest => rest)
      let (body, rest) ← list script false fuel rest
      match rest with
      | ';' :: ';' :: rest => do
        let (others, rest) ← branches script fuel rest
        return ((patterns, body) :: others, rest)
      | rest => do
        match keyword? "esac" rest with
        | some rest => return ([(patterns, body)], rest)
        | none => unexpected rest (some ";;")

def patterns (script : Script) : Nat → Reader (List Word)
  | 0, cs => fault .unterminated cs
  | fuel + 1, cs => do
    let (pattern, rest) ← word script false fuel (skipBlanks cs)
    if pattern.isEmpty then unexpected rest (if rest.isEmpty then some ")" else none)
    else
      match skipBlanks rest with
      | '|' :: rest => do
        let (others, rest) ← patterns script fuel rest
        return (pattern :: others, rest)
      | rest => return ([pattern], ← closeParenthesis rest)

def loopBody (script : Script) : Nat → Reader Command
  | 0, cs => fault .unterminated cs
  | fuel + 1, cs => do
    let (command, rest) ← body script fuel (← expect "do" cs)
    return (command, ← expect "done" rest)

def words (script : Script) : Nat → Reader (List Word)
  | 0, cs => fault .unterminated cs
  | fuel + 1, cs => do
    let (first, rest) ← word script false fuel (skipBlanks cs)
    if first.isEmpty then return ([], rest)
    else
      let (others, rest) ← words script fuel rest
      return (first :: others, rest)

/-- A redirection, if the text starts with one. -/
def redirect (script : Script) : Nat → Reader (Option Redirect)
  | 0, cs => fault .unterminated cs
  | fuel + 1, cs =>
    match arrow? cs with
    | none => .ok (none, cs)
    | some (channel, arrow, rest) =>
      let rest := skipBlanks rest
      if arrow == "<<" || arrow == "<<-" then
        let (ending, isQuoted, rest) := hereWord false rest
        if ending.isEmpty && !isQuoted then unexpected rest none
        else
          let (line, after) := restOfLine rest
          let (text, after) := hereLines ending (arrow == "<<-") (after.length + 1) (after.drop 1)
          let rest := if after.isEmpty then line else line ++ '\n' :: after
          do
            let (inner, _) ← if isQuoted then .ok ([.mk (.text (.ofList text)) true], [])
              else quoted script .text fuel text
            return (some (.here (channel.getD 0) inner), rest)
      else if arrow == "<&" || arrow == ">&" then
        let own := channel.getD (if arrow == "<&" then 0 else 1)
        let source := rest.takeWhile fun c => !endsWord c
        let rest := rest.drop source.length
        match source, (String.ofList source).toNat? with
        | _, some n => .ok (some (.copy own n), rest)
        | ['-'], none => .ok (some (.close own), rest)
        | _, none => fault .badChannel rest
      else do
        let (path, rest) ← word script false fuel rest
        let reads := arrow == "<"
        let access : Access :=
          if reads then .read else if arrow == ">" || arrow == ">|" then .write else .append
        if path.isEmpty then unexpected rest none
        else return (some (.file (channel.getD (if reads then 0 else 1)) access path), rest)

/-- The redirections after a command of several parts that starts at `start`. -/
def redirects (script : Script) (start : List Char) : Nat → Command → Reader Command
  | 0, _, cs => fault .unterminated cs
  | fuel + 1, command, cs => do
    let (given, rest) ← redirectsFrom script fuel cs
    if given.isEmpty then return (command, rest)
    else return (.redirected (script.lineAt start) command given, rest)

/-- All redirections that the text starts with. -/
def redirectsFrom (script : Script) : Nat → Reader (List Redirect)
  | 0, cs => fault .unterminated cs
  | fuel + 1, cs => do
    match ← redirect script fuel (skipBlanks cs) with
    | (none, rest) => return ([], rest)
    | (some redirect, rest) =>
      let (others, rest) ← redirectsFrom script fuel rest
      return (redirect :: others, rest)

/-- A simple command that starts at `start`; the lists hold what is read of it, in
reverse. -/
def simple (script : Script) (start : List Char) :
    Nat → List (String × Word) → List Word → List Redirect → Reader Command
  | 0, _, _, _, cs => fault .unterminated cs
  | fuel + 1, assignments, words, given, cs => do
    let cs := skipBlanks cs
    match ← redirect script fuel cs with
    | (some redirect, rest) => simple script start fuel assignments words (redirect :: given) rest
    | (none, _) =>
      let (next, rest) ← word script false fuel cs
      if next.isEmpty then
        if assignments.isEmpty && words.isEmpty && given.isEmpty then unexpected cs none
        else
          let line := script.lineAt start
          return (.simple line assignments.reverse words.reverse given.reverse, rest)
      else
        match if words.isEmpty then assignment? next else none with
        | some assignment => simple script start fuel (assignment :: assignments) words given rest
        | none => simple script start fuel assignments (next :: words) given rest

end

/-- The commands of the next line of a script, with the lines that they go on in;
`none` at the end of the script. -/
def nextLine? (script : Script) (cs : List Char) :
    Except SyntaxFault (Option (Command × List Char)) := do
  let start := skipLines cs.length cs
  if start.isEmpty then return none
  else
    let (command, rest) ← list script true (16 * (start.length + 4)) start
    match rest with
    | [] => return some (command, [])
    | '\n' :: rest => return some (command, rest)
    | rest => unexpected rest none

end Emend.Shell

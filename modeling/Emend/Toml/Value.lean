import Emend.Json

/-!
# TOML values

The values of TOML 1.0 and the readers for keys, texts, numbers, moments, arrays
and inline tables. A reader takes the remaining text and gives what it read with
the rest, or nothing.

Floats and moments carry no value: nothing in the library is set to one. They
are still checked, since a text with a malformed one is no document.
-/

set_option autoImplicit false

namespace Emend

/-- How a table came to be, which decides what may still be added to it. -/
inductive TableForm where
  | header
  | implied
  | dotted
  /-- Between braces; nothing can be added. -/
  | inline_
  deriving DecidableEq, Repr, Inhabited

inductive Toml where
  | text (value : String)
  | integer (value : Int)
  | float
  | boolean (value : Bool)
  | moment
  | array (items : List Toml)
  | table (form : TableForm) (members : List (String × Toml))
  /-- Tables with one header each, under one name. -/
  | tables (elements : List (List (String × Toml)))
  deriving Inhabited

namespace Toml

abbrev Members := List (String × Toml)

def get? (members : Members) (key : String) : Option Toml :=
  (members.find? fun (k, _) => k == key).map Prod.snd

/-! ## Characters and blanks -/

abbrev Reader (α : Type) := List Char → Option (α × List Char)

/-- Blanks inside a line. -/
def isSpace (c : Char) : Bool := c == ' ' || c == '\t'

/-- The text without blanks at its beginning. -/
def skip (cs : List Char) : List Char := cs.dropWhile isSpace

/-- Characters that may stand in a line: no controls but the tab. -/
def isPrintable (c : Char) : Bool := c == '\t' || (0x20 ≤ c.toNat && c.toNat != 0x7F)

/-- The rest after the end of a line. -/
def newline? : List Char → Option (List Char)
  | '\n' :: rest => some rest
  | '\r' :: '\n' :: rest => some rest
  | _ => none

def skipComment : List Char → List Char
  | '#' :: rest => rest.dropWhile isPrintable
  | cs => cs

/-- The rest after blanks, comments and ends of lines; a comment must be followed
by the end of its line. The first argument bounds the number of steps. -/
def skipLines : Nat → List Char → Option (List Char)
  | 0, cs => some cs
  | fuel + 1, cs =>
    let cs := skip cs
    match cs with
    | '#' :: _ => (newline? (skipComment cs)).bind (skipLines fuel)
    | _ =>
      match newline? cs with
      | some rest => skipLines fuel rest
      | none => some cs

/-! ## Texts -/

def shortEscape? : Char → Option Char
  | 'b' => some '\x08'
  | 't' => some '\t'
  | 'n' => some '\n'
  | 'f' => some '\x0c'
  | 'r' => some '\r'
  | '"' => some '"'
  | '\\' => some '\\'
  | _ => none

/-- The character with the code that `count` hexadecimal digits spell. -/
def hexChar? (count : Nat) (cs : List Char) : Option (Char × List Char) := do
  let digits := cs.take count
  if digits.length != count then none
  let code ← digits.foldlM (fun code c => do return code * 16 + (← Json.hexDigit? c)) 0
  if h : code.isValidChar then return (Char.ofNatAux code h, cs.drop count) else none

/-- The character of the escape after its backslash. -/
def escape? : Reader Char
  | 'u' :: rest => hexChar? 4 rest
  | 'U' :: rest => hexChar? 8 rest
  | c :: rest => (shortEscape? c).map (·, rest)
  | [] => none

/-- The text up to the closing quote, with escapes; `read` holds what stands
before, in reverse. The first argument bounds the number of steps. -/
def basicFrom : Nat → List Char → Reader String
  | _, read, '"' :: rest => some (.ofList read.reverse, rest)
  | fuel + 1, read, '\\' :: rest => do
    let (c, rest) ← escape? rest
    basicFrom fuel (c :: read) rest
  | fuel + 1, read, c :: rest => if isPrintable c then basicFrom fuel (c :: read) rest else none
  | _, _, _ => none

/-- The text up to the closing apostrophe, as it is. -/
def literal? (cs : List Char) : Option (String × List Char) := do
  let (content, rest) ← Text.splitFirst? '\'' cs
  if content.all isPrintable then some (.ofList content, rest) else none

/-- The text without the end of a line at its beginning. -/
def dropNewline (cs : List Char) : List Char := (newline? cs).getD cs

/-- How many times `quote` stands at the beginning. -/
def countQuotes (quote : Char) (cs : List Char) : Nat := (cs.takeWhile (· == quote)).length

/-- The rest after the blanks and line ends that a backslash at the end of a line
takes with it; `none` if the backslash stands elsewhere. -/
def lineContinuation? (cs : List Char) : Option (List Char) :=
  (newline? (skip cs)).map fun rest =>
    let rec drop : List Char → List Char
      | ' ' :: rest => drop rest
      | '\t' :: rest => drop rest
      | '\n' :: rest => drop rest
      | '\r' :: '\n' :: rest => drop rest
      | rest => rest
    drop rest

/-- The text over several lines up to three closing quotes; up to two more quotes
before them belong to it. Ends of lines are line feeds. With `escapes`, a
backslash starts an escape. The first argument bounds the number of steps. -/
def linesFrom (quote : Char) (escapes : Bool) : Nat → List Char → Reader String
  | 0, _, _ => none
  | _, _, [] => none
  | fuel + 1, read, c :: rest =>
    if c == quote then
      let count := countQuotes quote (c :: rest)
      if count < 3 then linesFrom quote escapes fuel (c :: read) rest
      else
        let extra := min (count - 3) 2
        some (.ofList (read.reverse ++ List.replicate extra quote), rest.drop (extra + 2))
    else if c == '\\' && escapes then
      match lineContinuation? rest with
      | some rest => linesFrom quote escapes fuel read rest
      | none =>
        match escape? rest with
        | some (escaped, rest) => linesFrom quote escapes fuel (escaped :: read) rest
        | none => none
    else
      match newline? (c :: rest) with
      | some rest => linesFrom quote escapes fuel ('\n' :: read) rest
      | none => if isPrintable c then linesFrom quote escapes fuel (c :: read) rest else none

def text? : Reader String
  | '"' :: '"' :: '"' :: rest => linesFrom '"' true (rest.length + 1) [] (dropNewline rest)
  | '"' :: rest => basicFrom rest.length [] rest
  | '\'' :: '\'' :: '\'' :: rest => linesFrom '\'' false (rest.length + 1) [] (dropNewline rest)
  | '\'' :: rest => literal? rest
  | _ => none

/-! ## Keys -/

/-- Characters of a key without quotes. -/
def isBare (c : Char) : Bool := c.isAlphanum || c == '_' || c == '-'

def simpleKey? : Reader String
  | '"' :: rest => basicFrom rest.length [] rest
  | '\'' :: rest => literal? rest
  | cs =>
    match cs.takeWhile isBare with
    | [] => none
    | key => some (.ofList key, cs.dropWhile isBare)

/-- The steps of a key between dots. The first argument bounds their number. -/
def keySteps? : Nat → Reader (List String)
  | 0, _ => none
  | fuel + 1, cs => do
    let (step, rest) ← simpleKey? (skip cs)
    match skip rest with
    | '.' :: rest =>
      let (steps, rest) ← keySteps? fuel rest
      return (step :: steps, rest)
    | rest => return ([step], rest)

/-- How deep values and keys may nest. -/
def depthLimit : Nat := 80

/-- A key: its steps, of which there are not too many. -/
def key? (cs : List Char) : Option (List String × List Char) := keySteps? (depthLimit - 1) cs

/-! ## Numbers -/

/-- Digits with single underscores between them, and the rest. An underscore that
no digit follows is an error, not the end. `more` says that a digit stands
before. -/
def digitsFrom (isDigit : Char → Bool) (more : Bool) : Reader (List Char)
  | '_' :: c :: rest =>
    if more && isDigit c then
      (digitsFrom isDigit true rest).map fun (digits, rest) => (c :: digits, rest)
    else none
  | ['_'] => none
  | c :: rest =>
    if isDigit c then
      (digitsFrom isDigit true rest).map fun (digits, rest) => (c :: digits, rest)
    else if more then some ([], c :: rest) else none
  | [] => if more then some ([], []) else none

/-- One or more digits with single underscores between them. -/
def digits? (isDigit : Char → Bool) : Reader (List Char) := digitsFrom isDigit false

def ofDigits (base : Nat) (digits : List Char) : Nat :=
  digits.foldl (fun n c => n * base + (Json.hexDigit? c).getD 0) 0

def sign : List Char → Bool × List Char
  | '-' :: rest => (true, rest)
  | '+' :: rest => (false, rest)
  | cs => (false, cs)

/-- A whole number in decimal: no zero before other digits. -/
def decimal? (cs : List Char) : Option ((Bool × List Char) × List Char) := do
  let (negative, cs) := sign cs
  match cs with
  | '0' :: rest => return ((negative, ['0']), rest)
  | _ =>
    let (digits, rest) ← digits? Char.isDigit cs
    return ((negative, digits), rest)

/-- Whether a number fits into 64 bits with sign. -/
def fits (n : Int) : Bool := -0x8000000000000000 ≤ n && n < 0x8000000000000000

def based? (base : Nat) (isDigit : Char → Bool) (cs : List Char) : Option (Toml × List Char) := do
  let (digits, rest) ← digits? isDigit cs
  let n : Int := ofDigits base digits
  if fits n then some (.integer n, rest) else none

def integer? : Reader Toml
  | '0' :: 'x' :: rest => based? 16 (fun c => (Json.hexDigit? c).isSome) rest
  | '0' :: 'o' :: rest => based? 8 (fun c => '0' ≤ c && c ≤ '7') rest
  | '0' :: 'b' :: rest => based? 2 (fun c => c == '0' || c == '1') rest
  | cs => do
    let ((negative, digits), rest) ← decimal? cs
    let n : Int := ofDigits 10 digits
    let n := if negative then -n else n
    if fits n then some (.integer n, rest) else none

/-- An exponent: its mark, its sign and its digits. -/
def exponent? : Reader Int
  | c :: rest =>
    if c == 'e' || c == 'E' then do
      let (negative, rest) := sign rest
      let (digits, rest) ← digits? Char.isDigit rest
      let n : Int := ofDigits 10 digits
      return (if negative then -n else n, rest)
    else none
  | [] => none

/-- The least number that no double-precision float is near enough to. -/
def floatBound : Nat := Nat.pow 2 1024 - Nat.pow 2 970

/-- Whether `digits` times ten to the power `exponent` is too large for a
double-precision float. -/
def overflows (digits : List Char) (exponent : Int) : Bool :=
  let digits := digits.dropWhile (· == '0')
  let size : Int := digits.length + exponent
  if digits.isEmpty || size < 300 then false
  else if size > 400 then true
  else if 0 ≤ exponent then floatBound ≤ ofDigits 10 digits * Nat.pow 10 exponent.toNat
  else floatBound * Nat.pow 10 (-exponent).toNat ≤ ofDigits 10 digits

/-- A float with a fraction or an exponent. One that is too large is refused,
unless it is negative. -/
def fraction? (cs : List Char) : Option (Toml × List Char) := do
  let ((negative, whole), cs) ← decimal? cs
  let (digits, places, cs, hasFraction) ← match cs with
    | '.' :: rest => do
      let (fraction, rest) ← digits? Char.isDigit rest
      some (whole ++ fraction, fraction.length, rest, true)
    | _ => some (whole, 0, cs, false)
  let startsExponent := match cs with
    | c :: _ => c == 'e' || c == 'E'
    | [] => false
  let (exponent, cs) ← if startsExponent then exponent? cs
    else if hasFraction then some (0, cs) else none
  if !negative && overflows digits (exponent - places) then none else some (.float, cs)

def float? (cs : List Char) : Option (Toml × List Char) :=
  match (sign cs).2 with
  | 'i' :: 'n' :: 'f' :: rest => some (.float, rest)
  | 'n' :: 'a' :: 'n' :: rest => some (.float, rest)
  | _ => fraction? cs

/-! ## Moments -/

/-- A number of exactly `count` digits between two bounds. -/
def bounded? (count low high : Nat) (cs : List Char) : Option (Nat × List Char) :=
  let digits := cs.take count
  let n := ofDigits 10 digits
  if digits.length == count && digits.all Char.isDigit && low ≤ n && n ≤ high then
    some (n, cs.drop count)
  else none

def char? (expected : Char) : List Char → Option (List Char)
  | c :: rest => if c == expected then some rest else none
  | [] => none

def daysIn (year month : Nat) : Nat :=
  match month with
  | 2 => if (year % 4 == 0 && year % 100 != 0) || year % 400 == 0 then 29 else 28
  | 4 | 6 | 9 | 11 => 30
  | _ => 31

def date? (cs : List Char) : Option (List Char) := do
  let (year, cs) ← bounded? 4 0 9999 cs
  let (month, cs) ← bounded? 2 1 12 (← char? '-' cs)
  let (_, cs) ← bounded? 2 1 (daysIn year month) (← char? '-' cs)
  return cs

/-- The rest after a time of day. -/
def time? (cs : List Char) : Option (List Char) := do
  let (_, cs) ← bounded? 2 0 23 cs
  let (_, cs) ← bounded? 2 0 59 (← char? ':' cs)
  let (_, cs) ← bounded? 2 0 60 (← char? ':' cs)
  match cs with
  | '.' :: rest =>
    if (rest.takeWhile Char.isDigit).isEmpty then none else some (rest.dropWhile Char.isDigit)
  | _ => some cs

/-- The rest after an offset from universal time, if there is one. -/
def skipOffset (cs : List Char) : Option (List Char) :=
  match cs with
  | 'Z' :: rest => some rest
  | 'z' :: rest => some rest
  | '+' :: rest => offset rest
  | '-' :: rest => offset rest
  | _ => some cs
where
  offset (cs : List Char) : Option (List Char) := do
    let (_, cs) ← bounded? 2 0 23 cs
    let (_, cs) ← bounded? 2 0 59 (← char? ':' cs)
    return cs

/-- A date, a time, or both with or without an offset. -/
def moment? (cs : List Char) : Option (Toml × List Char) :=
  match date? cs with
  | none => (time? cs).map (.moment, ·)
  | some rest =>
    match rest with
    | c :: after =>
      if c == 'T' || c == 't' || c == ' ' then
        match time? after with
        | some after => (skipOffset after).map (.moment, ·)
        | none => some (.moment, rest)
      else some (.moment, rest)
    | [] => some (.moment, rest)

/-! ## Tables under keys -/

/-- Replace the value under a key that is there, or append it. -/
def put (key : String) (value : Toml) : Members → Members
  | [] => [(key, value)]
  | (k, v) :: rest => if k == key then (k, value) :: rest else (k, v) :: put key value rest

/-- Change the table that the steps lead to, from a table of the given form. Steps
that are missing become tables: dotted ones for a dotted key, implied ones for a
header. A dotted key does not enter tables with a header of their own; of tables
under one name the last is meant. -/
def updateAt {α : Type} (dotted : Bool) (change : TableForm → Members → Option (Members × α)) :
    List String → TableForm → Members → Option (Members × α)
  | [], form, members => change form members
  | step :: steps, _, members =>
    match get? members step with
    | none => do
      let form := if dotted then .dotted else .implied
      let (inner, result) ← updateAt dotted change steps form []
      return (put step (.table form inner) members, result)
    | some (.table form inner) => do
      if form == .inline_ || (dotted && form == .header) then none
      let (inner, result) ← updateAt dotted change steps form inner
      return (put step (.table form inner) members, result)
    | some (.tables elements) => do
      let (inner, result) ← updateAt dotted change steps .header (elements.getLastD [])
      return (put step (.tables (elements.dropLast ++ [inner])) members, result)
    | some _ => none

/-- Add a value under a key to a table. A key of one step does not add to a dotted
table, and a longer one only to dotted tables; no key is given twice. -/
def addKey (members : Members) (key : List String) (value : Toml) : Option Members :=
  let add (form : TableForm) (members : Members) : Option (Members × Unit) :=
    let last := key.getLastD ""
    if (form == .dotted) == (key.length ≤ 1) then none
    else if (get? members last).isSome then none
    else some (members ++ [(last, value)], ())
  (updateAt true add key.dropLast .header members).map Prod.fst

/-! ## Values -/

mutual

/-- A value. The first argument bounds the steps, the second is the depth that is
left. -/
def value? : Nat → Nat → List Char → Option (Toml × List Char)
  | 0, _, _ => none
  | fuel + 1, depth, cs =>
    match cs with
    | '[' :: rest =>
      match depth with
      | 0 => none
      | depth + 1 => (items? fuel depth rest).map fun (items, rest) => (.array items, rest)
    | '{' :: rest =>
      match depth with
      | 0 => none
      | depth + 1 =>
        match skip rest with
        | '}' :: rest => some (.table .inline_ [], rest)
        | rest => (pairs? fuel depth [] rest).map fun (members, rest) =>
          (.table .inline_ members, rest)
    | 't' :: 'r' :: 'u' :: 'e' :: rest => some (.boolean true, rest)
    | 'f' :: 'a' :: 'l' :: 's' :: 'e' :: rest => some (.boolean false, rest)
    | _ =>
      match text? cs with
      | some (content, rest) => some (.text content, rest)
      | none => moment? cs <|> float? cs <|> integer? cs

/-- The items of an array up to its end; the last may be followed by a comma. -/
def items? : Nat → Nat → List Char → Option (List Toml × List Char)
  | 0, _, _ => none
  | fuel + 1, depth, cs => do
    match ← skipLines cs.length cs with
    | ']' :: rest => some ([], rest)
    | cs =>
      let (item, rest) ← value? fuel depth cs
      match ← skipLines rest.length rest with
      | ',' :: rest =>
        let (items, rest) ← items? fuel depth rest
        some (item :: items, rest)
      | ']' :: rest => some ([item], rest)
      | _ => none

/-- The pairs of an inline table up to its end. -/
def pairs? : Nat → Nat → Members → List Char → Option (Members × List Char)
  | 0, _, _, _ => none
  | fuel + 1, depth, members, cs => do
    let (key, rest) ← key? cs
    let rest ← char? '=' rest
    let (value, rest) ← value? fuel depth (skip rest)
    let members ← addKey members key value
    match skip rest with
    | ',' :: rest => pairs? fuel depth members rest
    | '}' :: rest => return (members, rest)
    | _ => none

end

end Toml

end Emend

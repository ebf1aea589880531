import Emend.Table
import Emend.Text.Blank

/-!
# JSON

Values, the reader and the indented writer. The reader takes one value with
blanks around it and nothing else. An escape for half of a surrogate pair is
well-formed, but a text with one has no value, so texts and keys are optional.
Members of an object keep their order, and keys may repeat.

The writer puts every item on a line of its own and indents by two spaces; the
empty array is `[]` and the empty object has nothing between its braces.
-/

set_option autoImplicit false

namespace Emend

/-- A JSON value. A number is kept as it is written. -/
inductive Json where
  | null
  | bool (value : Bool)
  | number (written : String)
  | text (value : Option String)
  | array (items : List Json)
  | object (members : List (Option String × Json))
  deriving Inhabited

namespace Json

/-! ## Reading -/

/-- The blanks between tokens. -/
def isSpace (c : Char) : Bool := c == ' ' || c == '\t' || c == '\n' || c == '\r'

/-- The text without blanks at its beginning. -/
def skip (cs : List Char) : List Char := cs.dropWhile isSpace

def hexDigit? (c : Char) : Option Nat :=
  if c.isDigit then some (c.toNat - '0'.toNat)
  else if 'a' ≤ c && c ≤ 'f' then some (c.toNat - 'a'.toNat + 10)
  else if 'A' ≤ c && c ≤ 'F' then some (c.toNat - 'A'.toNat + 10)
  else none

/-- A number of four hexadecimal digits and the rest. -/
def unit? : List Char → Option (Nat × List Char)
  | a :: b :: c :: d :: rest => do
    let a ← hexDigit? a
    let b ← hexDigit? b
    let c ← hexDigit? c
    let d ← hexDigit? d
    return (((a * 16 + b) * 16 + c) * 16 + d, rest)
  | _ => none

/-- Whether a unit is the first half of a surrogate pair. -/
def isHigh (unit : Nat) : Bool := 0xD800 ≤ unit && unit ≤ 0xDBFF

/-- Whether a unit is the second half of a surrogate pair. -/
def isLow (unit : Nat) : Bool := 0xDC00 ≤ unit && unit ≤ 0xDFFF

def shortEscape? : Char → Option Char
  | '"' => some '"'
  | '\\' => some '\\'
  | '/' => some '/'
  | 'b' => some '\x08'
  | 'f' => some '\x0c'
  | 'n' => some '\n'
  | 'r' => some '\r'
  | 't' => some '\t'
  | _ => none

/-- The character after the `u` of an escape, and the rest. The character is
`none` for half of a surrogate pair. -/
def longEscape? (cs : List Char) : Option (Option Char × List Char) := do
  let (unit, rest) ← unit? cs
  if isLow unit then return (none, rest)
  if !isHigh unit then return (some (Char.ofNat unit), rest)
  match rest with
  | '\\' :: 'u' :: after =>
    let (second, after) ← unit? after
    if isLow second then
      return (some (Char.ofNat (0x10000 + (unit - 0xD800) * 0x400 + (second - 0xDC00))), after)
    else return (none, rest)
  | _ => return (none, rest)

/-- The text up to the closing quote and the rest; `read` holds the characters
before, in reverse, and is `none` once the text has no value. The first argument
bounds the number of steps. -/
def textFrom : Nat → Option (List Char) → List Char → Option (Option String × List Char)
  | _, read, '"' :: rest => some (read.map fun cs => .ofList cs.reverse, rest)
  | fuel + 1, read, '\\' :: 'u' :: rest => do
    let (char, rest) ← longEscape? rest
    textFrom fuel (do return (← char) :: (← read)) rest
  | fuel + 1, read, '\\' :: c :: rest => do
    textFrom fuel (read.map ((← shortEscape? c) :: ·)) rest
  | fuel + 1, read, c :: rest =>
    if c.toNat < 0x20 || c == '\\' then none else textFrom fuel (read.map (c :: ·)) rest
  | _, _, _ => none

/-- The text after its opening quote, and the rest. -/
def text? (cs : List Char) : Option (Option String × List Char) := textFrom cs.length (some []) cs

def digits? (cs : List Char) : Option (List Char × List Char) :=
  match cs.takeWhile Char.isDigit with
  | [] => none
  | digits => some (digits, cs.dropWhile Char.isDigit)

def number? (cs : List Char) : Option (Json × List Char) := do
  let (sign, cs) := match cs with
    | '-' :: rest => (['-'], rest)
    | _ => ([], cs)
  let (whole, cs) ← match cs with
    | '0' :: d :: rest => if d.isDigit then none else some (['0'], d :: rest)
    | _ => digits? cs
  let (fraction, cs) ← match cs with
    | '.' :: rest => (digits? rest).map fun (ds, rest) => ('.' :: ds, rest)
    | _ => some ([], cs)
  let (exponent, cs) ← match cs with
    | e :: rest =>
      if e == 'e' || e == 'E' then
        let (mark, rest) := match rest with
          | '+' :: rest => ([e, '+'], rest)
          | '-' :: rest => ([e, '-'], rest)
          | _ => ([e], rest)
        (digits? rest).map fun (ds, rest) => (mark ++ ds, rest)
      else some ([], cs)
    | [] => some ([], cs)
  return (.number (.ofList (sign ++ whole ++ fraction ++ exponent)), cs)

mutual

/-- A value and the rest. The first argument bounds the depth and length. -/
def value? : Nat → List Char → Option (Json × List Char)
  | 0, _ => none
  | fuel + 1, cs =>
    match skip cs with
    | 'n' :: 'u' :: 'l' :: 'l' :: rest => some (.null, rest)
    | 't' :: 'r' :: 'u' :: 'e' :: rest => some (.bool true, rest)
    | 'f' :: 'a' :: 'l' :: 's' :: 'e' :: rest => some (.bool false, rest)
    | '"' :: rest => (text? rest).map fun (content, rest) => (.text content, rest)
    | '[' :: rest =>
      match skip rest with
      | ']' :: rest => some (.array [], rest)
      | rest => (items? fuel rest).map fun (items, rest) => (.array items, rest)
    | '{' :: rest =>
      match skip rest with
      | '}' :: rest => some (.object [], rest)
      | rest => (members? fuel rest).map fun (members, rest) => (.object members, rest)
    | rest => number? rest

/-- The items of an array up to its end, and the rest. -/
def items? : Nat → List Char → Option (List Json × List Char)
  | 0, _ => none
  | fuel + 1, cs => do
    let (item, rest) ← value? fuel cs
    match skip rest with
    | ',' :: rest =>
      let (items, rest) ← items? fuel rest
      return (item :: items, rest)
    | ']' :: rest => return ([item], rest)
    | _ => none

/-- The members of an object up to its end, and the rest. -/
def members? : Nat → List Char → Option (List (Option String × Json) × List Char)
  | 0, _ => none
  | fuel + 1, cs =>
    match skip cs with
    | '"' :: rest => do
      let (key, rest) ← text? rest
      match skip rest with
      | ':' :: rest =>
        let (value, rest) ← value? fuel rest
        match skip rest with
        | ',' :: rest =>
          let (members, rest) ← members? fuel rest
          return ((key, value) :: members, rest)
        | '}' :: rest => return ([(key, value)], rest)
        | _ => none
      | _ => none
    | _ => none

end

def parse? (source : String) : Option Json := do
  let (value, rest) ← value? (source.length + 1) source.toList
  if (skip rest).isEmpty then some value else none

/-! ## Writing -/

def hexDigit (n : Nat) : Char := (Nat.toDigits 16 n).headD '0'

/-- The characters that stand for a character of a text. -/
def escape (c : Char) : List Char :=
  match c with
  | '"' => ['\\', '"']
  | '\\' => ['\\', '\\']
  | '\n' => ['\\', 'n']
  | '\r' => ['\\', 'r']
  | '\t' => ['\\', 't']
  | '\x08' => ['\\', 'b']
  | '\x0c' => ['\\', 'f']
  | _ =>
    if c.toNat < 0x20 then
      ['\\', 'u', '0', '0', hexDigit (c.toNat / 16), hexDigit (c.toNat % 16)]
    else [c]

/-- A text between quotes. -/
def quote (s : String) : String := "\"" ++ .ofList (s.toList.flatMap escape) ++ "\""

/-- Lines between an opening and a closing mark; each line but the last ends in a
comma. -/
def block (opening closing margin : String) (lines : List String) : String :=
  if lines.isEmpty then opening ++ closing
  else
    let inner := margin ++ "  "
    opening ++ "\n" ++ ",\n".intercalate (lines.map (inner ++ ·)) ++ "\n" ++ margin ++ closing

mutual

/-- The written value, after a margin that every further line starts with. -/
def writeAt (margin : String) : Json → String
  | null => "null"
  | bool value => if value then "true" else "false"
  | number written => written
  | text value => quote (value.getD "")
  | array items => block "[" "]" margin (writeItems (margin ++ "  ") items)
  | object members => block "\x7b" "\x7d" margin (writeMembers (margin ++ "  ") members)

def writeItems (margin : String) : List Json → List String
  | [] => []
  | item :: items => writeAt margin item :: writeItems margin items

def writeMembers (margin : String) : List (Option String × Json) → List String
  | [] => []
  | (key, value) :: members =>
    (quote (key.getD "") ++ ": " ++ writeAt margin value) :: writeMembers margin members

end

def write (value : Json) : String := writeAt "" value

end Json

end Emend

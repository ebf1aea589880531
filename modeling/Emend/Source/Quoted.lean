import Emend.Source.Lexeme

/-!
# The text inside literals that embed code

Double-quoted texts, shell commands and heredocs alternate between plain text
and embedded code. The functions here find how far the plain text goes. It ends
where a variable, an expression in braces or an escape sequence begins, and at
the end of the literal; in a heredoc it ends with each line.

A heredoc ends at a line that begins, after blanks, with its tag, but a tag is
taken for text when something other than a semicolon, a comma, a parenthesis or
the end of the line comes after it.
-/

set_option autoImplicit false

namespace Emend

/-- The literals that embed code. -/
inductive Quote where
  | double
  | shell
  | heredoc
  deriving DecidableEq, Repr, Inhabited

namespace Quote

/-- Whether the text begins with a character that may stand in a tag. -/
def tagCharNext (cs : List Char) : Bool := (cs.head?.map Lexeme.isTagChar).getD false

def escapeSize : List Char → Nat
  | '\\' :: 'x' :: cs =>
    let digits := ((cs.take 2).takeWhile Lexeme.isHexDigit).length
    if digits == 0 then 0 else 2 + digits
  | '\\' :: 'u' :: '{' :: cs =>
    let digits := (cs.takeWhile Lexeme.isHexDigit).length
    match digits, cs.drop digits with
    | 0, _ => 0
    | _, '}' :: _ => 4 + digits
    | _, _ => 0
  | '\\' :: c :: cs =>
    if Lexeme.isOctalDigit c then 2 + ((cs.take 2).takeWhile Lexeme.isOctalDigit).length
    else if ['n', 'r', 't', 'v', 'e', 'f', '\\', '$', '"', '\x60'].contains c then 2 else 0
  | _ => 0

/-- Whether text ends before a backslash, by what comes after the backslash. -/
def endsAtBackslash (quote : Quote) : List Char → Bool
  | [] => false
  | 'x' :: cs => (cs.head?.map Lexeme.isHexDigit).getD false
  | c :: _ =>
    if c == '\x60' then quote == .shell
    else if c == '\\' then quote != .heredoc
    else ['n', 'r', 't', 'v', 'e', 'f', '$', '"', 'u'].contains c || Lexeme.isOctalDigit c

/-- Whether plain text ends before a character, by what comes after it.
`afterVariable` says that a variable stands directly before, of which a subscript
or a member may be part. -/
def endsBefore (quote : Quote) (afterVariable : Bool) (c : Char) (cs : List Char) : Bool :=
  match c with
  | '"' => quote == .double
  | '\x60' => quote == .shell
  | '\n' | '\r' => quote == .heredoc
  | '\\' => endsAtBackslash quote cs
  | '$' => tagCharNext cs || cs.head? == some '{'
  | '{' => cs.head? == some '$'
  | '[' => afterVariable
  | '-' =>
    match cs with
    | '>' :: rest => afterVariable && tagCharNext rest
    | _ => false
  | '?' =>
    match cs with
    | '-' :: '>' :: rest => afterVariable && tagCharNext rest
    | _ => false
  | _ => false

/-- Where plain text ends, if it ends and is not empty; `size` characters are
already known to be plain. A backslash takes a brace, an `x` or a backslash after
it along. -/
def textFrom (quote : Quote) (afterVariable : Bool) (size : Nat) : List Char → Option Nat
  | [] => none
  | c :: cs =>
    if endsBefore quote afterVariable c cs then if size == 0 then none else some size
    else
      match cs with
      | [] => none
      | d :: rest =>
        if c == '\\' && (d == '{' || d == 'x' || d == '\\') then
          textFrom quote false (size + 2) rest
        else textFrom quote false (size + 1) (d :: rest)

/-! ## Lines of heredocs -/

/-- How many characters the text and the tag have in common at their beginning. -/
def commonSize : List Char → List Char → Nat
  | c :: cs, d :: ds => if c == d then 1 + commonSize cs ds else 0
  | _, _ => 0

def isLineBlank (c : Char) : Bool := Lexeme.isAsciiBlank c && !Lexeme.isLineEnd c

/-- Characters that may follow the closing tag of a heredoc. -/
def closesTag (c : Char) : Bool := c == ';' || c == ',' || c == ')'

/-- What a line holds after its blanks: how much of it may be the tag, with the
blanks that follow, and whether that is the end of the heredoc. -/
def tagAt (tag cs : List Char) : Nat × Bool :=
  let common := commonSize tag cs
  let rest := cs.drop common
  let follows (p : Char → Bool) (cs : List Char) : Bool := (cs.head?.map p).getD false
  if common == tag.length && follows (fun c => Lexeme.isAsciiBlank c || closesTag c) rest then
    let gap := (rest.takeWhile isLineBlank).length
    (common + gap, follows (fun c => closesTag c || Lexeme.isLineEnd c) (rest.drop gap))
  else (common, false)

def textSize (quote : Quote) (afterVariable : Bool) (tag cs : List Char) : Option Nat :=
  match quote with
  | .heredoc =>
    let gap := (cs.takeWhile isLineBlank).length
    let (size, ends) := tagAt tag (cs.drop gap)
    if ends then none else textFrom quote afterVariable (gap + size) (cs.drop (gap + size))
  | _ => textFrom quote afterVariable 0 cs

/-- The size of a line of a nowdoc with the blanks and line ends before it, if the
nowdoc goes on with it. -/
def nowdocSize (tag cs : List Char) : Option Nat :=
  let gap := (cs.takeWhile Lexeme.isAsciiBlank).length
  let (size, ends) := tagAt tag (cs.drop gap)
  if ends then none
  else
    let line := ((cs.drop (gap + size)).takeWhile (!Lexeme.isLineEnd ·)).length
    let whole := gap + size + line
    if whole == 0 || (cs.drop whole).isEmpty then none else some whole

/-- The closing tag of a heredoc: the blanks before it and its size. -/
def closingTag? (tag cs : List Char) : Option (Nat × Nat) :=
  let gap := (cs.takeWhile Lexeme.isAsciiBlank).length
  if (cs.drop gap).takeWhile Lexeme.isTagChar == tag then some (gap, tag.length) else none

end Quote

end Emend

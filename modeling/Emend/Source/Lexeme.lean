import Emend.Text.Blank
import Emend.Source.Span

/-!
# Lexemes of PHP source text

What names, numbers, comments, tags and symbols look like. Each function takes a
text and says how many of its first characters belong to the lexeme, zero when
the text does not begin with one. Which of the lexemes at a place is meant, the
grammar decides: see `Emend.Source.Tree`.
-/

set_option autoImplicit false

namespace Emend

/-- A place in a text, both numbers from one. -/
structure Position where
  line : Nat
  column : Nat
  deriving DecidableEq, Repr, Inhabited

namespace Position

def after (position : Position) (c : Char) : Position :=
  if c == '\n' then ⟨position.line + 1, 1⟩ else ⟨position.line, position.column + 1⟩

end Position

namespace Lexeme

/-! ## Character classes -/

def isAsciiBlank (c : Char) : Bool := (9 ≤ c.toNat && c.toNat ≤ 13) || c.toNat == 0x20

def isLineEnd (c : Char) : Bool := c == '\n' || c == '\r'

/-- Characters that separate tokens and mean nothing: ASCII blanks, and four
invisible characters. -/
def isGap (c : Char) : Bool :=
  let n := c.toNat
  isAsciiBlank c || n == 0xA0 || n == 0x200B || n == 0x2060 || n == 0xFEFF

/-- Characters that begin a name: letters, the underscore, and everything between
U+0080 and U+FFFF that is no gap. -/
def isNameStart (c : Char) : Bool :=
  c.isAlpha || c == '_' || (0x80 ≤ c.toNat && c.toNat ≤ 0xFFFF && !isGap c)

def isNameChar (c : Char) : Bool := isNameStart c || c.isDigit

/-- Characters that can follow a dollar sign or stand in the tag of a heredoc as
far as literals are concerned; not all of them make a name. -/
def isTagChar (c : Char) : Bool := c.isAlphanum || c == '_' || 0x80 ≤ c.toNat

def isDigit (c : Char) : Bool := c.isDigit

def isOctalDigit (c : Char) : Bool := '0' ≤ c && c ≤ '7'

def isBinaryDigit (c : Char) : Bool := c == '0' || c == '1'

def isHexDigit (c : Char) : Bool := c.isDigit || ('a' ≤ c.toLower && c.toLower ≤ 'f')

/-! ## Names and numbers -/

def nameSize : List Char → Nat
  | [] => 0
  | c :: cs => if isNameStart c then 1 + (cs.takeWhile isNameChar).length else 0

/-- The size of a run of digits, perhaps none, in which an underscore may stand
before each digit that follows another one. -/
def digitsSize (isDigit : Char → Bool) : List Char → Nat
  | [] => 0
  | '_' :: c :: cs => if isDigit c then 2 + digitsSize isDigit cs else 0
  | c :: cs => if isDigit c then 1 + digitsSize isDigit cs else 0

def someDigitsSize (isDigit : Char → Bool) : List Char → Nat
  | [] => 0
  | c :: cs => if isDigit c then 1 + digitsSize isDigit cs else 0

/-- The size of an integer: decimal without a leading zero, or octal after a zero
and perhaps an `o`, hexadecimal after `0x`, binary after `0b`. -/
def integerSize : List Char → Nat
  | '0' :: cs =>
    let base (size : Nat) : Nat := if size == 0 then 1 else 2 + size
    match cs with
    | x :: rest =>
      if x.toLower == 'x' then base (someDigitsSize isHexDigit rest)
      else if x.toLower == 'b' then base (someDigitsSize isBinaryDigit rest)
      else if x.toLower == 'o' then 2 + digitsSize isOctalDigit rest
      else 1 + digitsSize isOctalDigit cs
    | [] => 1
  | cs => someDigitsSize isDigit cs

def exponentSize : List Char → Nat
  | e :: cs =>
    if e.toLower == 'e' then
      let sign := match cs with
        | c :: _ => if c == '+' || c == '-' then 1 else 0
        | [] => 0
      let digits := someDigitsSize isDigit (cs.drop sign)
      if digits == 0 then 0 else 1 + sign + digits
    else 0
  | [] => 0

/-- The size of a decimal number: digits, a point and digits, an exponent. The
digits may be missing on both sides, and the point or the exponent may be
missing, not both; so a point alone is a number, and so is `E1`. -/
def floatSize (cs : List Char) : Nat :=
  let whole := digitsSize isDigit cs
  match cs.drop whole with
  | '.' :: rest =>
    let fraction := digitsSize isDigit rest
    whole + 1 + fraction + exponentSize (rest.drop fraction)
  | rest =>
    let exponent := exponentSize rest
    if exponent == 0 then 0 else whole + exponent

/-! ## Quoted texts, comments and tags -/

def singleQuotedRest? : List Char → Option Nat
  | [] => none
  | '\'' :: _ => some 1
  | '\\' :: _ :: cs => (singleQuotedRest? cs).map (· + 2)
  | _ :: cs => (singleQuotedRest? cs).map (· + 1)

/-- The size of a single-quoted text, with the letter that may stand before the
quote. -/
def singleQuotedSize : List Char → Nat
  | '\'' :: cs => ((singleQuotedRest? cs).map (· + 1)).getD 0
  | b :: '\'' :: cs => if b.toLower == 'b' then ((singleQuotedRest? cs).map (· + 2)).getD 0 else 0
  | _ => 0

/-- The size of the rest of a line comment. A question mark before the line end
belongs to the comment together with the line end; one before a greater-than
sign ends it; any other one takes the next character with it. -/
def lineCommentRest : List Char → Nat
  | [] => 0
  | '\n' :: _ => 0
  | '\r' :: _ => 0
  | ['?'] => 0
  | '?' :: '>' :: _ => 0
  | '?' :: '\n' :: _ => 2
  | '?' :: '\r' :: '\n' :: _ => 3
  | '?' :: '\r' :: _ => 0
  | '?' :: _ :: cs => lineCommentRest cs + 2
  | _ :: cs => lineCommentRest cs + 1

def blockCommentRest? : List Char → Option Nat
  | [] => none
  | '*' :: '/' :: _ => some 2
  | _ :: cs => (blockCommentRest? cs).map (· + 1)

/-- The size of a comment. A number sign before a bracket, a question mark or a
line end is a comment of one character. -/
def commentSize : List Char → Nat
  | '/' :: '/' :: cs => 2 + lineCommentRest cs
  | '/' :: '*' :: cs => ((blockCommentRest? cs).map (· + 2)).getD 0
  | '#' :: cs =>
    match cs with
    | c :: rest => if c == '?' || c == '[' || isLineEnd c then 1 else 2 + lineCommentRest rest
    | [] => 1
  | _ => 0

def tagSize : List Char → Nat
  | '<' :: '?' :: a :: b :: c :: _ =>
    if a.toLower == 'p' && b.toLower == 'h' && c.toLower == 'p' then 5
    else if a == '=' then 3 else 2
  | '<' :: '?' :: '=' :: _ => 3
  | '<' :: '?' :: _ => 2
  | _ => 0

/-- The size of the text before the next opening tag. -/
def markupSize : List Char → Nat
  | [] => 0
  | c :: cs => if tagSize (c :: cs) == 0 then 1 + markupSize cs else 0

/-- What comes after ASCII blanks and `//` comments, each of which goes to the
end of its line; nothing when a slash comes that begins no such comment.
`inComment` says that the text begins inside a comment. -/
def afterLineCommentsFrom (inComment : Bool) : List Char → Option (List Char)
  | [] => some []
  | c :: cs =>
    if inComment then afterLineCommentsFrom (c != '\n') cs
    else if isAsciiBlank c then afterLineCommentsFrom false cs
    else if c == '/' then
      match cs with
      | '/' :: rest => afterLineCommentsFrom true rest
      | _ => none
    else some (c :: cs)

/-- What comes after ASCII blanks and `//` comments. -/
def afterLineComments (cs : List Char) : Option (List Char) := afterLineCommentsFrom false cs

/-- The size of a closing tag with the markup after it and the next opening tag.
When only blanks and `//` comments follow it to the end of the text, the tag
stands alone. -/
def interpolationSize : List Char → Nat
  | '?' :: '>' :: cs =>
    if (afterLineComments cs).any List.isEmpty then 2
    else
      let size := markupSize cs
      2 + size + tagSize (cs.drop size)
  | _ => 0

/-! ## Symbols -/

/-- Operators and punctuation marks, longer ones first. -/
def symbols : List String :=
  ["<=>", "**=", "...", "<<=", ">>=", "===", "!==", "??=", "?->", "<<<", "||", "&&", "==", "!=",
    "<>", "<=", ">=", "<<", ">>", "++", "--", "+=", "-=", "*=", "/=", ".=", "%=", "&=", "|=", "^=",
    "->", "=>", "::", "??", "**", "#[", "\\u", "b\"", "B\"", "+", "-", "*", "/", "%", "=", "<", ">",
    "!", ".", ",", ";", ":", "?", "(", ")", "[", "]", "\x7b", "\x7d", "&", "|", "^", "~", "@", "$",
    "\\", "\"", "'", "\x60"]

/-- The operators and punctuation marks at the beginning of a text, longer ones
first. -/
def symbolsAt (cs : List Char) : List String := symbols.filter (·.toList.isPrefixOf cs)

end Lexeme

end Emend

import Emend.Text.Blank
import Emend.Source.Span

/-!
# Indentation of blocks and values

Member code is stored without the indentation of the place where it stands.
`dedentBlock` and `dedentContinuation` remove that indentation when a text is
read, `indentLines` and `continueLines` add it when a text is written. All four
leave alone what a literal owns, which the marks of the lines say.
-/

set_option autoImplicit false

namespace Emend.Layout

structure Line where
  /-- The characters without the line feed. -/
  chars : List Char
  mark : LineMark
  deriving DecidableEq, Repr

namespace Line

/-- The line without blanks at its end, unless a literal owns its line feed. -/
def withoutTrailing (line : Line) : Line :=
  if line.mark.closesInside then line
  else { line with chars := Text.dropEndWhile Text.isBlank line.chars }

/-- Whether the line is empty and no literal owns its beginning. -/
def isVoid (line : Line) : Bool := line.chars.isEmpty && !line.mark.opensInside

/-- How many spaces the line begins with. -/
def indent (line : Line) : Nat := (line.chars.takeWhile (· == ' ')).length

/-- The line without up to `width` leading spaces, unless a literal owns them. -/
def dedent (width : Nat) (line : Line) : List Char :=
  if line.mark.opensInside then line.chars else line.chars.drop (min line.indent width)

end Line

/-- The lines of a text with the mark of each; a line beyond the marks is
plain. -/
def markedLines (text : List Char) (marks : List LineMark) : List Line :=
  let rec pair : List (List Char) → List LineMark → List Line
    | [], _ => []
    | chars :: rest, [] => (Line.mk chars .plain).withoutTrailing :: pair rest []
    | chars :: rest, mark :: marks => (Line.mk chars mark).withoutTrailing :: pair rest marks
  pair (Text.splitChars '\n' text) marks

/-- The smallest indentation of the lines that hold something and may be
moved. -/
def commonIndent (lines : List Line) : Nat :=
  let indents := (lines.filter fun line => !line.chars.isEmpty && !line.mark.opensInside).map
    Line.indent
  indents.min?.getD 0

/-- Lines put together with line feeds. -/
def joinLines (lines : List (List Char)) : List Char := ['\n'].intercalate lines

/-- The lines without their common indentation. -/
def joinDedented (lines : List Line) : List Char :=
  joinLines (lines.map (Line.dedent (commonIndent lines)))

/-- The text without void lines at its two ends and without the common
indentation. -/
def dedentBlock (text : String) (marks : List LineMark) : String :=
  let lines := markedLines text.toList marks
  .ofList (joinDedented (Text.dropEndWhile Line.isVoid (lines.dropWhile Line.isVoid)))

/-- The first line as it is and the others without their common indentation. -/
def dedentContinuation (text : String) (marks : List LineMark) : String :=
  match markedLines text.toList marks with
  | [] => ""
  | [first] => .ofList first.chars
  | first :: rest => .ofList (first.chars ++ '\n' :: joinDedented rest)

/-- Put `pad` before every line that holds something, unless a literal owns its
beginning. -/
def indentLines (text : String) (pad : String) (marks : List LineMark) : String :=
  .ofList (joinLines ((markedLines text.toList marks).map fun line =>
    if line.mark.opensInside || line.chars.isEmpty then line.chars else pad.toList ++ line.chars))

/-- Keep the first line and put `pad` before the others; a line of blanks alone
becomes empty. -/
def continueLines (value : String) (pad : String) (marks : List LineMark) : String :=
  let first := (Text.splitChars '\n' value.toList).headD []
  let rest := (markedLines value.toList marks).drop 1
  .ofList (joinLines (first :: rest.map fun line =>
    if line.mark.opensInside then line.chars
    else if line.chars.all Text.isBlank then [] else pad.toList ++ line.chars))

end Emend.Layout

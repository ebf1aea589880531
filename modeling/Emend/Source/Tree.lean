import Emend.Sort
import Emend.Source.Recognizer

/-!
# Syntax trees

`SyntaxTree.read` reads a source text. It cuts the text into tokens while the
recognizer reads them: of the lexemes at a place the longest one counts that
the recognizer expects, so a word is a keyword exactly where the grammar has it, and
the plain text of a literal is found where the grammar is inside that literal.

Blanks, comments and stretches of markup may stand between any two tokens; the
latter two are *trivia* of the tree. A closing tag also ends a statement where a
semicolon could end it.
-/

set_option autoImplicit false

namespace Emend

inductive Item where
  | trivia (trivia : Trivia)
  | node (label : Label) (extent : Extent) (items : List Item)
  deriving Repr, Inhabited

namespace Scan

/-! ## From events to items -/

structure Builder where
  /-- The items after the present place in its node. -/
  items : List Item
  /-- The nodes around it, innermost first. -/
  around : List (Nat × List Item)

mutual

/-- Go back over an event. -/
def build (builder : Builder) : Event → Builder
  | .closed stop => ⟨[], (stop, builder.items) :: builder.around⟩
  | .opened label start line =>
    match builder.around with
    | (stop, items) :: around =>
      ⟨.node label ⟨⟨start, stop⟩, line⟩ builder.items :: items, around⟩
    | [] => builder
  | .trivia trivia => { builder with items := .trivia trivia :: builder.items }
  | .inner events => buildAll builder events

/-- Go back over events, latest first. -/
def buildAll (builder : Builder) : List Event → Builder
  | [] => builder
  | event :: events => buildAll (build builder event) events

end

/-! ## Tokens -/

/-- What comes next in a text. -/
inductive Step where
  | token (t : Terminal) (gap size : Nat)
  /-- A comment or markup after some blanks. -/
  | trivia (kind : TriviaKind) (gap size : Nat)
  deriving Repr, Inhabited

/-- The tokens at the beginning of a text that no blank begins, longer ones first;
`tight` says that no blank stands before. -/
def candidates (tight : Bool) (cs : List Char) : List (Terminal × Nat) :=
  let sized (t : Terminal) (size : Nat) : List (Terminal × Nat) :=
    if size == 0 then [] else [(t, size)]
  let close (t : Terminal) (size : Nat) : List (Terminal × Nat) :=
    if tight then sized t size else []
  let symbols := (Lexeme.symbolsAt cs).flatMap fun s =>
    close (.tight s) s.length ++ sized (.symbol s) s.length
  let word := Lexeme.nameSize cs
  let text := String.ofList (cs.take word)
  let found := symbols ++ sized .quoted (Lexeme.singleQuotedSize cs) ++
    close .escape (Quote.escapeSize cs) ++ sized .float (Lexeme.floatSize cs) ++
    sized .integer (Lexeme.integerSize cs) ++
    close .tightWord (cs.takeWhile fun c => 'a' ≤ c && c ≤ 'z').length ++
    sized (.spelled text) word ++ sized (.word (Text.lower text)) word ++ sized .name word
  sortBy (fun a b => b.2 ≤ a.2) found

def stepAt (recognizer : Recognizer) (gap : Nat) (cs : List Char) : List Step :=
  let comment := Lexeme.commentSize cs
  let markup := Lexeme.interpolationSize cs
  let hasAttribute := ['#', '['].isPrefixOf cs && recognizer.expects (.symbol "#[")
  if comment != 0 && !hasAttribute then [.trivia .comment gap comment]
  else if markup != 0 then [.trivia .interpolation gap markup]
  else
    match (candidates (gap == 0) cs).find? fun (t, _) => recognizer.expects t with
    | some (t, size) => [.token t gap size]
    | none => []

/-- The steps at the end of a line in a heredoc: it can be the last line when the
closing tag comes next. -/
def lineSteps (recognizer : Recognizer) (tag : List Char) (gap : Nat) (cs : List Char) :
    List Step :=
  let size := if ['\r', '\n'].isPrefixOf cs then 2 else 1
  let last := recognizer.expects .lastLineEnd && (Quote.closingTag? tag (cs.drop size)).isSome
  (if last then [.token .lastLineEnd gap size] else []) ++
    (if recognizer.expects .lineEnd then [.token .lineEnd gap size] else [])

/-- The steps at a place outside plain text, after `gap` blanks. -/
def codeSteps (recognizer : Recognizer) (tag : List Char) (gap : Nat) : List Char → List Step
  | [] => if recognizer.expects .endOfText then [.token .endOfText gap 0] else []
  | c :: cs =>
    if Lexeme.isLineEnd c && (recognizer.expects .lineEnd || recognizer.expects .lastLineEnd) then
      lineSteps recognizer tag gap (c :: cs)
    else if Lexeme.isGap c then codeSteps recognizer tag (gap + 1) cs
    else stepAt recognizer gap (c :: cs)

/-- The places of plain text, those after a variable first. -/
def textPlaces : List (Quote × Bool) :=
  [(.double, true), (.double, false), (.shell, true), (.shell, false), (.heredoc, true),
    (.heredoc, false)]

/-- The steps at a place; `tag` is that of the open heredoc. Heredocs cannot be
nested. -/
def steps (recognizer : Recognizer) (tag cs : List Char) : List Step :=
  let sized (t : Terminal) : Option Nat → List Step
    | some size => [.token t 0 size]
    | none => codeSteps recognizer tag 0 cs
  match textPlaces.find? fun (quote, after) => recognizer.expects (.text quote after) with
  | some (quote, after) => sized (.text quote after) (Quote.textSize quote after tag cs)
  | none =>
    if recognizer.expects .nowdocLine then sized .nowdocLine (Quote.nowdocSize tag cs)
    else if recognizer.expects .closingTag then
      match Quote.closingTag? tag cs with
      | some (gap, size) => [.token .closingTag gap size]
      | none => codeSteps recognizer tag 0 cs
    else if recognizer.expects .openingTag then
      match Lexeme.afterLineComments cs with
      | some rest =>
        let size := (rest.takeWhile Lexeme.isTagChar).length
        if size == 0 then codeSteps recognizer tag 0 cs
        else if tag.isEmpty then [.token .openingTag (cs.length - rest.length) size]
        else []
      | none => codeSteps recognizer tag 0 cs
    else if recognizer.expects .impliedSemicolon &&
        ((Lexeme.afterLineComments cs).map (['?', '>'].isPrefixOf ·)).getD false then
      [.token .impliedSemicolon 0 0]
    else codeSteps recognizer tag 0 cs

/-! ## Reading -/

structure Cursor where
  rest : List Char
  /-- How many characters come before. -/
  offset : Nat
  position : Position

namespace Cursor

/-- Go over a number of characters. -/
def advance (cursor : Cursor) : Nat → Cursor
  | 0 => cursor
  | n + 1 =>
    match cursor.rest with
    | [] => cursor
    | c :: rest => advance ⟨rest, cursor.offset + 1, cursor.position.after c⟩ n

end Cursor

/-- Where reading could not go on, and what was recorded before. -/
structure Failure where
  cursor : Cursor
  events : List Event

structure Progress where
  recognizer : Recognizer
  /-- The tag of the open heredoc; empty outside of heredocs. -/
  tag : List Char
  cursor : Cursor
  /-- The trivia since the last token, latest first. -/
  trivia : List Trivia

namespace Progress

/-- The progress of a rule at a place where nothing has been read yet. -/
def ofRule (rule : Rule) (cursor : Cursor) : Progress := ⟨.ofRule rule, [], cursor, []⟩

/-- That reading cannot go on. -/
def failure (progress : Progress) : Failure := ⟨progress.cursor, progress.recognizer.recorded⟩

def take (progress : Progress) (step : Step) : Progress :=
  match progress, step with
  | ⟨recognizer, tag, cursor, trivia⟩, .trivia kind gap size =>
    let start := cursor.advance gap
    let stop := start.advance size
    ⟨recognizer, tag, stop, ⟨kind, ⟨start.offset, stop.offset⟩, start.position.line⟩ :: trivia⟩
  | ⟨recognizer, tag, cursor, trivia⟩, .token t gap size =>
    let start := cursor.advance gap
    let stop := start.advance size
    let tag := match t with
      | .openingTag => start.rest.take size
      | .closingTag => []
      | _ => tag
    let extent : Extent := ⟨⟨start.offset, stop.offset⟩, start.position.line⟩
    ⟨recognizer.read t extent trivia, tag, stop, []⟩

end Progress

/-- Read the text to its end. Where a line can end a heredoc or go on with it, the
first reading that succeeds counts. -/
def readOn (progress : Progress) : Nat → Except Failure (List Event)
  | 0 => .error progress.failure
  | fuel + 1 =>
    match progress.recognizer.complete? with
    | some events => .ok events
    | none =>
      match steps progress.recognizer progress.tag progress.cursor.rest with
      | [] => .error progress.failure
      | [step] => readOn (progress.take step) fuel
      | step :: others =>
        others.foldl
          (fun result other => match result with
            | .ok events => .ok events
            | .error _ => readOn (progress.take other) fuel)
          (readOn (progress.take step) fuel)

/-- Read the text from a place on as a rule says. No two steps without a character
follow each other, which bounds the number of steps. -/
def readFrom (rule : Rule) (cursor : Cursor) : Except Failure (List Event) :=
  readOn (.ofRule rule cursor) (2 * cursor.rest.length + 3)

/-- The items that events, latest first, record. Nodes that have not ended are
left out, but not what they hold. -/
def itemsOf (events : List Event) : List Item := (buildAll ⟨[], []⟩ events).items

/-- Read a text from a place on as any sequence of tokens; where not even that is
possible, a character is passed over. -/
def looseItems (cursor : Cursor) : Nat → List Item
  | 0 => []
  | fuel + 1 =>
    match readFrom Grammar.loose cursor with
    | .ok events => itemsOf events
    | .error failure =>
      itemsOf failure.events ++
        (if failure.cursor.rest.isEmpty then [] else looseItems (failure.cursor.advance 1) fuel)

end Scan

structure SyntaxTree where
  /-- The line of text before the first tag, if there is some. -/
  markupLine : Option Nat
  /-- The statements of the file and the trivia between them. -/
  items : List Item
  deriving Repr, Inhabited

namespace SyntaxTree

open Scan

/-- A source text up to its first tag: the line of text before the tag, and the
place after the tag. A byte order mark and ASCII blanks before the tag mean
nothing. -/
def preamble (text : List Char) : Option Nat × Cursor :=
  let start : Cursor := ⟨text, 0, ⟨1, 1⟩⟩
  let start := if text.head? == some '\uFEFF' then start.advance 1 else start
  let start := start.advance (start.rest.takeWhile Lexeme.isAsciiBlank).length
  let size := Lexeme.markupSize start.rest
  let tag := start.advance size
  (if size == 0 then none else some start.position.line, tag.advance (Lexeme.tagSize tag.rest))

/-- Read a source text, or say where it does not go on as the grammar asks. -/
def read (text : List Char) : Except Failure SyntaxTree :=
  let (markupLine, code) := preamble text
  (readFrom Grammar.file code).map fun events => ⟨markupLine, itemsOf events⟩

mutual

def literalsOf : Item → List Span
  | .trivia _ => []
  | .node label extent items => if label == .literal then [extent.span] else literalsIn items

def literalsIn : List Item → List Span
  | [] => []
  | item :: items => literalsOf item ++ literalsIn items

end

/-- The spans of the string literals, heredocs, nowdocs and shell commands. -/
def literals (tree : SyntaxTree) : List Span := literalsIn tree.items

end SyntaxTree

/-- The spans of the literals of a source text. Where the text leaves the grammar,
the rest is taken for any sequence of tokens. -/
def literalSpans (text : List Char) : List Span :=
  match SyntaxTree.read text with
  | .ok tree => tree.literals
  | .error failure =>
    SyntaxTree.literalsIn (Scan.itemsOf failure.events) ++
      SyntaxTree.literalsIn (Scan.looseItems failure.cursor (text.length + 1))

end Emend

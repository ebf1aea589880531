import Emend.Shell.Machine
import Emend.Shell.Pattern

/-!
# Words of a command

What a word of the script becomes when the command is run: text that is not quoted is
split where separators stand, and a word with wildcards becomes the paths that match
it, if there are any.
-/

set_option autoImplicit false

namespace Emend.Shell

/-- A word in the making: its characters, each with a mark for those that stand for
themselves, the last one first. -/
abbrev Draft := List (Char × Bool)

/-- The parts of a word while it is being expanded: finished words, and the one
that is still open. -/
structure Expansion where
  /-- The words that are finished, the last one first. -/
  finished : List Draft
  current : Option Draft

namespace Expansion

def empty : Expansion := ⟨[], none⟩

/-- Add text to the open word; with `literal` it stands for itself. -/
def add (e : Expansion) (literal : Bool) (text : String) : Expansion :=
  { e with current := some ((text.toList.map fun c => (c, literal)).reverse ++ e.current.getD []) }

/-- End the open word. -/
def close (e : Expansion) : Expansion :=
  match e.current with
  | some word => ⟨word :: e.finished, none⟩
  | none => e

/-- Add text that is split at separators. Blanks among them only separate words; every
other separator ends a word, with the blanks around it. `soft` says that the last word
was ended by blanks. -/
def addSplitFrom (separators : List Char) (e : Expansion) (soft : Bool) : List Char → Expansion
  | [] => e
  | c :: rest =>
    if !separators.contains c then
      addSplitFrom separators (e.add false (.ofList [c])) false rest
    else if c == ' ' || c == '\t' || c == '\n' then
      addSplitFrom separators e.close (soft || e.current.isSome) rest
    else if e.current.isSome then addSplitFrom separators e.close false rest
    else if soft then addSplitFrom separators e false rest
    else addSplitFrom separators { e with finished := [] :: e.finished } false rest

def addSplit (e : Expansion) (separators : List Char) (text : String) : Expansion :=
  addSplitFrom separators e false text.toList

/-- Add words of which the first and the last join what stands around them. -/
def addWords (e : Expansion) (words : List String) : Expansion :=
  words.zipIdx.foldl (fun e (word, i) => (if i == 0 then e else e.close).add true word) e

def addSplitWords (e : Expansion) (separators : List Char) (words : List String) : Expansion :=
  words.zipIdx.foldl (fun e (word, i) =>
    (if i == 0 then e else e.close).addSplit separators word) e

def drafts (e : Expansion) : List Draft := e.close.finished.reverse.map List.reverse

end Expansion

namespace Draft

def text (draft : Draft) : String := .ofList (draft.map Prod.fst)

def hasWildcards (draft : Draft) : Bool :=
  draft.any fun (c, literal) => !literal && (c == '*' || c == '?' || c == '[')

def pattern (draft : Draft) : Pattern :=
  .ofWildcards (draft.flatMap fun (c, literal) => if literal then ['\\', c] else [c])

/-- The steps of a draft: what stands between slashes. -/
def steps : Draft → List Draft
  | [] => [[]]
  | (c, literal) :: rest =>
    match steps rest with
    | [] => [[(c, literal)]]
    | step :: others =>
      if c == '/' then [] :: step :: others else ((c, literal) :: step) :: others

/-- The paths that match steps from a directory, whose path is `base`. -/
def pathsFrom (tree : FileTree) (base : String) : List Draft → List String
  | [] => []
  | step :: rest =>
    let names := if hasWildcards step then
        let hidden := step.head?.any fun (c, _) => c == '.'
        let all := (tree.list? (if base.isEmpty then "." else base)).getD []
        (if hidden then "." :: ".." :: all else all).filter fun name =>
          (hidden || name.toList.head? != some '.') && (pattern step).matchesAll name.toList
      else [text step]
    names.flatMap fun name =>
      match rest with
      | [] =>
        if name.isEmpty || (tree.find (base ++ name)).toBool then [base ++ name] else []
      | _ :: _ => pathsFrom tree (base ++ name ++ "/") rest

/-- The words that a draft becomes: paths, or its text. -/
def words (tree : FileTree) (noWildcards : Bool) (draft : Draft) : List String :=
  if noWildcards || !hasWildcards draft then [text draft]
  else
    match pathsFrom tree "" (steps draft) with
    | [] => [text draft]
    | paths => paths

end Draft

def trimmed (pattern : Pattern) (atEnd longest : Bool) (text : String) : String :=
  let cs := text.toList
  let lengths := List.range (cs.length + 1)
  let lengths := if longest then lengths.reverse else lengths
  match lengths.find? fun n =>
      pattern.matchesAll (if atEnd then cs.drop (cs.length - n) else cs.take n) with
  | none => text
  | some n => .ofList (if atEnd then cs.take (cs.length - n) else cs.drop n)

end Emend.Shell

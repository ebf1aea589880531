/-!
# Blank characters, trimming, words and lines

Every text rule of the library is a function on the list of characters of a
text; the operations on `String` are those functions between `toList` and
`ofList`. A *blank* is a character with the Unicode property `White_Space`.
Case is folded for the letters `A` to `Z` alone.
-/

set_option autoImplicit false

namespace Emend.Text

/-- The Unicode property `White_Space`: the control characters tab to carriage
return, the space, U+0085, U+00A0 and the typographic spaces and separators. -/
def isBlank (c : Char) : Bool :=
  let n := c.toNat
  (9 ≤ n && n ≤ 13) || n == 0x20 || n == 0x85 || n == 0xA0 || n == 0x1680 ||
    (0x2000 ≤ n && n ≤ 0x200A) || n == 0x2028 || n == 0x2029 || n == 0x202F ||
    n == 0x205F || n == 0x3000

/-! ## On lists of characters -/

/-- The list without its longest tail of members that satisfy `p`. -/
def dropEndWhile {α : Type} (p : α → Bool) (cs : List α) : List α :=
  (cs.reverse.dropWhile p).reverse

/-- The text without the blanks at its two ends. -/
def trimChars (cs : List Char) : List Char :=
  dropEndWhile isBlank (cs.dropWhile isBlank)

/-- The rest of `cs` after the given beginning. -/
def stripPrefix? : List Char → List Char → Option (List Char)
  | [], cs => some cs
  | _ :: _, [] => none
  | p :: ps, c :: cs => if p = c then stripPrefix? ps cs else none

/-- The beginning of `cs` before the given ending. -/
def stripSuffix? (ending cs : List Char) : Option (List Char) :=
  (stripPrefix? ending.reverse cs.reverse).map List.reverse

/-- Cut at every occurrence of `sep`; a text without one is a single piece. -/
def splitChars (sep : Char) : List Char → List (List Char)
  | [] => [[]]
  | c :: cs =>
    if c = sep then [] :: splitChars sep cs
    else
      match splitChars sep cs with
      | [] => [[c]]
      | piece :: pieces => (c :: piece) :: pieces

/-- What stands before and after the first occurrence of `sep`. -/
def splitFirst? (sep : Char) : List Char → Option (List Char × List Char)
  | [] => none
  | c :: cs =>
    if c = sep then some ([], cs)
    else (splitFirst? sep cs).map fun (before, after) => (c :: before, after)

/-- What stands before and after the last occurrence of `sep`. -/
def splitLast? (sep : Char) (cs : List Char) : Option (List Char × List Char) :=
  (splitFirst? sep cs.reverse).map fun (after, before) => (before.reverse, after.reverse)

/-- Collect the maximal runs of characters that do not satisfy `isSep`; `word`
is the run read so far. -/
def wordsFrom (isSep : Char → Bool) (word : List Char) : List Char → List (List Char)
  | [] => if word.isEmpty then [] else [word]
  | c :: cs =>
    if isSep c then
      if word.isEmpty then wordsFrom isSep [] cs else word :: wordsFrom isSep [] cs
    else wordsFrom isSep (word ++ [c]) cs

/-- Whether `part` stands somewhere in the text. -/
def containsChars (part : List Char) : List Char → Bool
  | [] => part.isEmpty
  | c :: cs => part.isPrefixOf (c :: cs) || containsChars part cs

/-! ## On strings -/

/-- The text without the blanks at its two ends. -/
def trim (s : String) : String := .ofList (trimChars s.toList)

/-- The text without the blanks at its beginning. -/
def trimStart (s : String) : String := .ofList (s.toList.dropWhile isBlank)

/-- The text without the blanks at its end. -/
def trimEnd (s : String) : String := .ofList (dropEndWhile isBlank s.toList)

/-- The text without the characters at its beginning that are `c`. -/
def dropStart (c : Char) (s : String) : String := .ofList (s.toList.dropWhile (· == c))

/-- The text without the characters at its end that are `c`. -/
def dropEnd (c : Char) (s : String) : String := .ofList (dropEndWhile (· == c) s.toList)

def strip? (beginning s : String) : Option String :=
  (stripPrefix? beginning.toList s.toList).map String.ofList

def stripEnd? (ending s : String) : Option String :=
  (stripSuffix? ending.toList s.toList).map String.ofList

/-- The pieces of the text between occurrences of `sep`. -/
def split (sep : Char) (s : String) : List String := (splitChars sep s.toList).map String.ofList

/-- What stands before and after the first `sep`. -/
def cut? (sep : Char) (s : String) : Option (String × String) :=
  (splitFirst? sep s.toList).map fun (a, b) => (.ofList a, .ofList b)

/-- What stands before and after the last `sep`. -/
def cutLast? (sep : Char) (s : String) : Option (String × String) :=
  (splitLast? sep s.toList).map fun (a, b) => (.ofList a, .ofList b)

/-- The maximal runs of characters that are not blank. -/
def words (s : String) : List String := (wordsFrom isBlank [] s.toList).map String.ofList

/-- Whether `part` stands somewhere in `s`. -/
def contains (part s : String) : Bool := containsChars part.toList s.toList

/-- The text with every `c` replaced by `by_`. -/
def replaceChar (c : Char) (by_ : String) (s : String) : String :=
  .ofList (s.toList.flatMap fun d => if d = c then by_.toList else [d])

/-- The lines of a text: pieces between line feeds, each without the one
carriage return before the line feed, and no empty piece at the very end. -/
def lines (s : String) : List String :=
  let pieces := splitChars '\n' s.toList
  let closed := pieces.dropLast.map fun piece => (stripSuffix? ['\r'] piece).getD piece
  let last := pieces.getLastD []
  (if last.isEmpty then closed else closed ++ [last]).map String.ofList

/-- The text with its letters `A` to `Z` in lower case. -/
def lower (s : String) : String := .ofList (s.toList.map Char.toLower)

/-- Equality up to the case of the letters `A` to `Z`. -/
def sameIgnoringCase (s t : String) : Bool := lower s == lower t

end Emend.Text

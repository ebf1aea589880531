import Emend.Shell.Format
import Emend.Shell.Pattern
import Emend.Total

/-!
# Filters

The tools that read text and print some of it: whole inputs, first and last lines,
counts, lines in order, lines that match, fields of lines, and texts with characters
replaced.
-/

set_option autoImplicit false

namespace Emend.Shell.Tool

/-! ## Whole inputs -/

/-- Pieces of a text that each end after a line feed, but for the last one. -/
def wholeLines (text : String) : List (List Char) :=
  let pieces := (Text.split '\n' text).map String.toList
  let ended := pieces.dropLast.map (· ++ ['\n'])
  match pieces.getLast? with
  | none => ended
  | some [] => ended
  | some last => ended ++ [last]

/-- Print the inputs, with numbered lines if asked to. -/
def cat (call : Call) : Outcome :=
  let (flags, files) := options call.arguments
  if (letters flags).contains 'n' then
    let whole := String.join ((inputs call files).map fun (_, content) => content.toOption.getD "")
    let numbered := (wholeLines whole).zipIdx.map fun (line, n) =>
      (Field.ofWidth 6).text (toString (n + 1)) ++ "\t" ++ .ofList line
    (reading call files).print (Text.bytes (String.join numbered))
  else overInputs call (usualComplaint "cat") 1 files fun _ text => Text.bytes text

/-- Print the input and write it to files. -/
def tee (call : Call) : Outcome :=
  let (flags, files) := options call.arguments
  let text := Text.ofBytes call.input
  let start := { Outcome.ofBytes call call.input with left := [] }
  files.foldl (fun outcome file =>
    let before := if (letters flags).contains 'a' then (outcome.tree.read file).toOption.getD ""
      else ""
    match if file == nullFile then .ok outcome.tree
      else outcome.tree.write file (before ++ text) with
    | .ok tree => { outcome with tree := tree }
    | .error fault => outcome.complain 1 (usualComplaint "tee" file fault)) start

/-! ## Parts of a text -/

structure Amount where
  count : String
  inBytes : Bool
  named : Bool
  files : List String

/-- The amount that arguments ask for; a dash may stand right before a number. -/
def amount (arguments : List String) : Amount :=
  let arguments := match arguments with
    | first :: rest =>
      match (Text.strip? "-" first).bind String.toNat? with
      | some n => ("-n" ++ toString n) :: rest
      | none => arguments
    | [] => []
  let (flags, values, files) := optionsWith ['n', 'c'] (arguments.length + 1) arguments
  let (unit, count) := values.getLast?.getD ('n', "10")
  ⟨count, unit == 'c', (files.length > 1 || flags.contains 'v') && !flags.contains 'q', files⟩

/-- Take a part of the bytes, or of the lines, of each input. -/
def overParts (call : Call) (tool : String) (amount : Amount)
    (part : {α : Type} → List α → List α) : Outcome :=
  (inputs call amount.files).foldl (fun outcome (name, content) =>
    match content with
    | .error fault => outcome.complain 1 (openComplaint tool name fault)
    | .ok text =>
      let header := if !amount.named then ""
        else (if outcome.output.isEmpty then "" else "\n") ++ "==> " ++ name ++ " <==\n"
      outcome.print (Text.bytes header ++ if amount.inBytes then part (Text.bytes text)
        else Text.bytes (.ofList (part (wholeLines text)).flatten)))
    (reading call amount.files)

/-- Print the first lines or bytes, or all but the last ones. -/
def head (call : Call) : Outcome :=
  let amount := amount call.arguments
  match integer? amount.count with
  | none =>
    .failed call 1 ("head: invalid number of " ++ (if amount.inBytes then "bytes" else "lines") ++
      ": '" ++ amount.count ++ "'")
  | some n =>
    let outcome := overParts call "head" amount fun xs =>
      if n < 0 then xs.take (xs.length - n.natAbs) else xs.take n.toNat
    if amount.files.isEmpty then { outcome with left := call.input.drop outcome.output.length }
    else outcome

/-- Print the last lines or bytes, or those from a number on. -/
def tail (call : Call) : Outcome :=
  let amount := amount call.arguments
  match integer? amount.count with
  | none =>
    .failed call 1 ("tail: invalid number of " ++ (if amount.inBytes then "bytes" else "lines") ++
      ": '" ++ amount.count ++ "'")
  | some n =>
    let fromStart := (Text.strip? "+" amount.count).isSome
    overParts call "tail" amount fun xs =>
      if fromStart then xs.drop (n.natAbs - 1) else xs.drop (xs.length - n.natAbs)

/-- Count lines, words and bytes. -/
def wc (call : Call) : Outcome :=
  let (opts, files) := options call.arguments
  let which := if opts.isEmpty then ['l', 'w', 'c'] else letters opts
  let counts (text : String) : List Nat :=
    (if which.contains 'l' then [text.toList.count '\n'] else []) ++
    (if which.contains 'w' then [(Text.words text).length] else []) ++
    (if which.contains 'm' then [text.length] else []) ++
    (if which.contains 'c' then [(Text.bytes text).length] else [])
  let texts := (inputs call files).map fun (_, content) => content.toOption.getD ""
  let size := total (fun text => (Text.bytes text).length) texts
  let width :=
    if files.length ≤ 1 && (counts "").length == 1 then 1
    else if (files.isEmpty && !call.fromFile) || files.contains "-" then 7
    else (toString size).length
  let row (name : String) (numbers : List Nat) : List UInt8 :=
    let columns := numbers.map fun n => (Field.ofWidth width).text (toString n)
    Text.bytes (" ".intercalate (columns ++ if name.isEmpty then [] else [name]) ++ "\n")
  let outcome := overInputs call (usualComplaint "wc") 1 files fun name text =>
    row name (counts text)
  if files.length > 1 then
    let sums := texts.foldl (fun sums text => List.zipWith (· + ·) sums (counts text)) (counts "")
    outcome.print (row "total" sums)
  else outcome

/-! ## Lines -/

def leadingNumber (line : String) : Int :=
  match line.toList.dropWhile Text.isBlank with
  | '-' :: cs => -((String.ofList (cs.takeWhile Char.isDigit)).toNat?.getD 0 : Int)
  | cs => ((String.ofList (cs.takeWhile Char.isDigit)).toNat?.getD 0 : Int)

/-- Runs of equal lines, each with its length. -/
def runs (key : String → String) : List String → List (String × Nat)
  | [] => []
  | line :: rest =>
    match runs key rest with
    | (next, count) :: others =>
      if key next == key line then (line, count + 1) :: others
      else (line, 1) :: (next, count) :: others
    | [] => [(line, 1)]

def sortKey (delimiter : Option Char) (fields : Option (Nat × Option Nat)) (line : String) :
    String :=
  match fields with
  | none => line
  | some (first, last) =>
    let parts := match delimiter with
      | some d => Text.split d line
      | none => Text.words line
    let chosen := (match last with
      | some last => parts.take last
      | none => parts).drop (first - 1)
    (String.ofList [delimiter.getD ' ']).intercalate chosen

/-- Print the lines in order. -/
def sort (call : Call) : Outcome :=
  let (flags, values, files) := optionsWith ['k', 't', 'o'] (call.arguments.length + 1)
    call.arguments
  let delimiter := (values.lookup 't').bind fun text => text.toList.head?
  let isKeyDigit (c : Char) : Bool := c.isDigit || c == ','
  let key := values.lookup 'k'
  let flags := flags ++ (key.getD "").toList.filter fun c => !isKeyDigit c
  let fields := key.bind fun key =>
    match (Text.split ',' (.ofList (key.toList.filter isKeyDigit))).map String.toNat? with
    | [some first] => some (first, none)
    | [some first, last] => some (first, last)
    | _ => none
  let keyOf (line : String) : String :=
    let key := sortKey delimiter fields line
    if flags.contains 'f' then .ofList (key.toList.map Char.toUpper) else key
  let outcome := overInputs call
    (fun name fault => "sort: cannot read: " ++ name ++ ": " ++ faultText fault) 2 files
    fun _ _ => []
  if outcome.status != 0 then outcome
  else
    let lines := (inputs call files).flatMap fun (_, content) =>
      rawLines (content.toOption.getD "")
    let isLess (a b : String) : Bool :=
      if flags.contains 'n' && leadingNumber (keyOf a) != leadingNumber (keyOf b)
      then decide (leadingNumber (keyOf a) < leadingNumber (keyOf b))
      else if keyOf a != keyOf b && !flags.contains 'n' then decide (keyOf a < keyOf b)
      else !flags.contains 's' && !flags.contains 'u' && decide (a < b)
    let same (a b : String) : Bool := !isLess a b && !isLess b a
    let sorted := lines.mergeSort fun a b =>
      if flags.contains 'r' then !isLess a b else !isLess b a
    let kept := if flags.contains 'u' then sorted.foldr (fun line others =>
        match others with
        | next :: rest => if same line next then line :: rest else line :: others
        | [] => [line]) []
      else sorted
    outcome.print (Text.bytes (unlines kept))

/-- Print each line that differs from the one before, with counts or only some of them
if asked to. -/
def uniq (call : Call) : Outcome :=
  let (opts, files) := options call.arguments
  let which := letters opts
  let key (line : String) : String := if which.contains 'i' then Text.lower line else line
  overLines call "uniq" (files.take 1) fun lines =>
    let kept := (runs key lines).filter fun (_, count) =>
      (!which.contains 'd' || count > 1) && (!which.contains 'u' || count == 1)
    kept.map fun (line, count) =>
      if which.contains 'c' then (Field.ofWidth 7).text (toString count) ++ " " ++ line else line

/-- Print the lines from the last to the first. -/
def tac (call : Call) : Outcome :=
  overInputs call (fun name fault => "tac: failed to open '" ++ name ++ "' for reading: " ++
    faultText fault) 1 call.arguments fun _ text =>
      Text.bytes (.ofList (wholeLines text).reverse.flatten)

/-- Print each line backwards. -/
def rev (call : Call) : Outcome :=
  overLines call "rev" call.arguments fun lines =>
    lines.map fun line => .ofList line.toList.reverse

/-- Print the lines with numbers; empty ones have none unless asked for. -/
def nl (call : Call) : Outcome :=
  let (_, values, files) := optionsWith ['b', 'w', 's'] (call.arguments.length + 1) call.arguments
  let every := values.lookup 'b' == some "a"
  let width := ((values.lookup 'w').bind String.toNat?).getD 6
  let separator := (values.lookup 's').getD "\t"
  overLines call "nl" files fun lines =>
    (lines.foldl (fun (done, n) line =>
      if line.isEmpty && !every then
        (.ofList (List.replicate (width + separator.length) ' ') :: done, n)
      else
        (((Field.ofWidth width).text (toString n) ++ separator ++ line) :: done, n + 1))
      (([] : List String), 1)).1.reverse

/-- Print the lines side by side: the first lines of all inputs, then the second ones,
or all lines of each input. -/
def paste (call : Call) : Outcome :=
  let (flags, values, files) := optionsWith ['d'] (call.arguments.length + 1) call.arguments
  let delimiter := String.ofList [((values.lookup 'd').getD "\t").toList.headD '\t']
  let columns := (inputs call files).map fun (_, content) => rawLines (content.toOption.getD "")
  let outcome := overInputs call (usualComplaint "paste") 1 files fun _ _ => []
  if flags.contains 's' then
    outcome.print (Text.bytes (unlines (columns.map fun lines => delimiter.intercalate lines)))
  else
    let count := columns.foldl (fun n lines => max n lines.length) 0
    outcome.print (Text.bytes (unlines ((List.range count).map fun n =>
      delimiter.intercalate (columns.map fun lines => lines.getD n ""))))

/-- The matches in a line from the place `from_` on. The first argument bounds their
number. -/
def matchesIn (anyCase : Bool) (patterns : List Pattern) :
    Nat → Nat → List Char → List String
  | 0, _, _ => []
  | fuel + 1, from_, line =>
    let found := patterns.filterMap fun pattern => pattern.first? anyCase from_ line
    let best := found.foldl (fun best next =>
      match best with
      | none => some next
      | some other =>
        if next.before.length < other.before.length ||
            (next.before.length == other.before.length && other.text.length < next.text.length)
        then some next else best) (none : Option Pattern.Found)
    match best with
    | none => []
    | some found =>
      let after := found.before.length + found.text.length
      if found.text.isEmpty then matchesIn anyCase patterns fuel (after + 1) line
      else .ofList found.text :: matchesIn anyCase patterns fuel after line

/-- Print the lines that match, or whether there are any. -/
def grep (extended fixed : Bool) (call : Call) : Outcome :=
  let (flags, values, rest) := optionsWith ['e', 'm', 'A', 'B', 'C'] (call.arguments.length + 1)
    call.arguments
  let has (c : Char) : Bool := flags.contains c
  let given := (values.filter fun (c, _) => c == 'e').map Prod.snd
  match if given.isEmpty then rest.head?.map fun source => ([source], rest.drop 1)
    else some (given, rest) with
  | none =>
    .failed call 2 ("Usage: grep [OPTION]... PATTERNS [FILE]...\n" ++
      "Try 'grep --help' for more information.")
  | some (sources, files) =>
    let anyCase := has 'i'
    let around (pattern : Pattern) : Pattern :=
      if has 'x' then .all [.lineStart, pattern, .lineEnd]
      else if has 'w' then .all [.wordStart, pattern, .wordEnd]
      else pattern
    let patterns := (sources.flatMap (Text.split '\n')).map fun source =>
      around (if fixed || has 'F' then Pattern.plain source.toList
        else Pattern.parse (extended || has 'E') source.toList)
    let most := ((values.lookup 'm').bind String.toNat?)
    let named := (files.length > 1 || has 'H') && !has 'h'
    let selected (text : String) : List (String × Nat) :=
      let lines := (rawLines text).zipIdx.filter fun (line, _) =>
        (patterns.any fun pattern => pattern.isIn anyCase line) != has 'v'
      match most with
      | some n => lines.take n
      | none => lines
    let found := (inputs call files).any fun (_, content) =>
      content.toOption.any fun text => !(selected text).isEmpty
    let shown (line : String) : List String :=
      if has 'o' then matchesIn anyCase patterns (line.length + 1) 0 line.toList else [line]
    let outcome := overInputs call (usualComplaint "grep") 2 files fun name text =>
      let name := if name.isEmpty || name == "-" then "(standard input)" else name
      let start := if named then name ++ ":" else ""
      Text.bytes (
        if has 'q' then ""
        else if has 'l' then if (selected text).isEmpty then "" else name ++ "\n"
        else if has 'L' then if (selected text).isEmpty then name ++ "\n" else ""
        else if has 'c' then start ++ toString (selected text).length ++ "\n"
        else unlines ((selected text).flatMap fun (line, n) => (shown line).map fun part =>
          start ++ (if has 'n' then toString (n + 1) ++ ":" else "") ++ part))
    let outcome := if has 's' then outcome.silent else outcome
    if has 'q' && found then { outcome with status := 0 }
    else if outcome.status == 0 && !found then { outcome with status := 1 }
    else outcome

/-! ## Fields -/

def inFields (list : String) (n : Nat) : Bool :=
  (Text.split ',' list).any fun part =>
    match Text.cut? '-' part with
    | some (low, high) => (low.toNat?.getD 1) ≤ n && n ≤ (high.toNat?.getD n)
    | none => part.toNat? == some n

/-- Print some characters or fields of each line; with fields, a line without the
delimiter stays whole unless asked to leave it out. -/
def cut (call : Call) : Outcome :=
  let (flags, values, files) := optionsWith ['d', 'f', 'c', 'b'] (call.arguments.length + 1)
    call.arguments
  let delimiter := ((values.lookup 'd').bind fun d => d.toList.head?).getD '\t'
  let select {α : Type} (numbers : String) (parts : List α) : List α :=
    (parts.zipIdx.filter fun (_, n) => inFields numbers (n + 1)).map Prod.fst
  match (values.lookup 'c').or (values.lookup 'b'), values.lookup 'f' with
  | some numbers, _ =>
    overLines call "cut" files fun lines => lines.map fun line =>
      Text.ofBytes (select numbers (Text.bytes line))
  | none, some numbers =>
    overLines call "cut" files fun lines => lines.filterMap fun line =>
      let parts := Text.split delimiter line
      if parts.length ≤ 1 then if flags.contains 's' then none else some line
      else some ((String.ofList [delimiter]).intercalate (select numbers parts))
  | none, none =>
    .failed call 1 ("cut: you must specify a list of bytes, characters, or fields\n" ++
      "Try 'cut --help' for more information.")

/-! ## Characters -/

def charsBetween (low high : Char) : List Char :=
  (List.range (high.toNat + 1 - low.toNat)).map fun n => Char.ofNat (low.toNat + n)

/-- The characters that a set of `tr` spells: ranges, classes and escapes. The first
argument bounds their number. -/
def spelledChars : Nat → List Char → List Char
  | 0, _ => []
  | _, [] => []
  | fuel + 1, '\\' :: c :: rest =>
    match letterEscape? c, octal 3 (c :: rest) with
    | some char, _ => char :: spelledChars fuel rest
    | none, some (n, rest) => Char.ofNat n :: spelledChars fuel rest
    | none, none => c :: spelledChars fuel rest
  | fuel + 1, '[' :: ':' :: rest =>
    let name := String.ofList (rest.takeWhile (· != ':'))
    let chars := (CharSet.classBounds name).flatMap fun (low, high) => charsBetween low high
    chars ++ spelledChars fuel (rest.drop (name.length + 2))
  | fuel + 1, c :: '-' :: d :: rest => charsBetween c d ++ spelledChars fuel rest
  | fuel + 1, c :: rest => c :: spelledChars fuel rest

/-- A text in which runs of one of these characters are one character. -/
def squeezed (isIn : Char → Bool) : List Char → List Char
  | [] => []
  | c :: rest =>
    match squeezed isIn rest with
    | d :: others => if c == d && isIn c then d :: others else c :: d :: others
    | [] => [c]

/-- Replace, delete or squeeze characters. -/
def tr (call : Call) : Outcome :=
  let (opts, sets) := options call.arguments
  let has (c : Char) : Bool := (letters opts).contains c
  let chars (set : String) : List Char := spelledChars (set.length + 1) set.toList
  let old := chars (sets.headD "")
  let new := chars ((sets.drop 1).headD "")
  let isOld (c : Char) : Bool := old.contains c != (has 'c' || has 'C')
  let change (c : Char) : Char :=
    if has 'c' || has 'C' then if isOld c then new.getLast?.getD c else c
    else
      match old.idxOf? c with
      | some n => (new[n]?.or new.getLast?).getD c
      | none => c
  let help := "\nTry 'tr --help' for more information."
  let replaces := !has 'd' && !has 's'
  if sets.isEmpty then .failed call 1 ("tr: missing operand" ++ help)
  else if sets.length == 1 && replaces then
    .failed call 1 ("tr: missing operand after '" ++ sets.headD "" ++
      "'\nTwo strings must be given when translating." ++ help)
  else if sets.length > 2 then
    .failed call 1 ("tr: extra operand '" ++ sets.getD 2 "" ++ "'" ++ help)
  else
    overInputs call (usualComplaint "tr") 1 [] fun _ text =>
      let cs := text.toList
      let changed := if has 'd' then cs.filter (!isOld ·)
        else if sets.length > 1 then cs.map change else cs
      let squeeze (c : Char) : Bool := if sets.length > 1 then new.contains c else isOld c
      Text.bytes (.ofList (if has 's' then squeezed squeeze changed else changed))

end Emend.Shell.Tool

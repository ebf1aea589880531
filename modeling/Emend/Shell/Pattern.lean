import Emend.Text.Blank

/-!
# Patterns

Regular expressions over lines, and the wildcards that the shell knows. A pattern is
matched by following every way to match its beginning; of the ways that end at one
place only the first counts, which is the one in which every repetition takes as much
as it can. A match in a line is the first one, and of those that start there the
longest.
-/

set_option autoImplicit false

namespace Emend.Shell

/-! ## Sets of characters -/

inductive CharSet where
  | exactly (c : Char)
  | any
  /-- Ranges; with `negated`, everything outside of them. -/
  | ranges (negated : Bool) (bounds : List (Char × Char))
  deriving DecidableEq, Repr, Inhabited

namespace CharSet

/-- Whether a character is in the set; with `anyCase`, in either case. -/
def accepts (anyCase : Bool) (set : CharSet) (c : Char) : Bool :=
  let cases := if anyCase then [c, c.toLower, c.toUpper] else [c]
  match set with
  | exactly d => cases.contains d
  | any => true
  | ranges negated bounds =>
    negated != bounds.any fun (low, high) => cases.any fun c => low ≤ c && c ≤ high

def classBounds : String → List (Char × Char)
  | "alpha" => [('A', 'Z'), ('a', 'z')]
  | "digit" => [('0', '9')]
  | "alnum" => [('A', 'Z'), ('a', 'z'), ('0', '9')]
  | "upper" => [('A', 'Z')]
  | "lower" => [('a', 'z')]
  | "space" => [('\t', '\r'), (' ', ' ')]
  | "blank" => [('\t', '\t'), (' ', ' ')]
  | "punct" => [('!', '/'), (':', '@'), ('[', '\x60'), ('\x7b', '~')]
  | "xdigit" => [('0', '9'), ('A', 'F'), ('a', 'f')]
  | "print" => [(' ', '~')]
  | "graph" => [('!', '~')]
  | "cntrl" => [('\x00', '\x1f'), ('\x7f', '\x7f')]
  | _ => []

/-- The ranges of the letters, digits and the underscore. -/
def wordBounds : List (Char × Char) := [('A', 'Z'), ('a', 'z'), ('0', '9'), ('_', '_')]

/-- The ranges up to the closing bracket, and the rest; `none` if the bracket is not
closed. A bracket right at the start stands for itself. The first argument bounds the
steps. -/
def boundsFrom? : Nat → Bool → List Char → Option (List (Char × Char) × List Char)
  | 0, _, _ => none
  | _, _, [] => none
  | fuel + 1, atStart, ']' :: rest =>
    if atStart then (boundsFrom? fuel false rest).map fun (bounds, rest) =>
      ((']', ']') :: bounds, rest)
    else some ([], rest)
  | fuel + 1, _, '[' :: ':' :: rest =>
    let name := rest.takeWhile (· != ':')
    match rest.drop name.length with
    | ':' :: ']' :: after =>
      (boundsFrom? fuel false after).map fun (bounds, rest) =>
        (classBounds (.ofList name) ++ bounds, rest)
    | _ => (boundsFrom? fuel false (':' :: rest)).map fun (bounds, rest) =>
      (('[', '[') :: bounds, rest)
  | fuel + 1, _, c :: '-' :: d :: rest =>
    if d == ']' then some ([(c, c), ('-', '-')], rest)
    else (boundsFrom? fuel false rest).map fun (bounds, rest) => ((c, d) :: bounds, rest)
  | fuel + 1, _, c :: rest =>
    (boundsFrom? fuel false rest).map fun (bounds, rest) => ((c, c) :: bounds, rest)

/-- The set that stands after an opening bracket, and the rest; `negation` is the
character that negates it. -/
def bracketed? (negation : Char) (cs : List Char) : Option (CharSet × List Char) :=
  let negated := cs.head? == some negation
  (boundsFrom? (cs.length + 1) true (if negated then cs.drop 1 else cs)).map fun (bounds, rest) =>
    (.ranges negated bounds, rest)

end CharSet

/-! ## Matching -/

inductive Pattern where
  /-- Matches without taking anything. -/
  | empty
  | one (set : CharSet)
  | lineStart
  | lineEnd
  | wordStart
  | wordEnd
  | sequence (first second : Pattern)
  | either (first second : Pattern)
  /-- So many times, at most `most` times. -/
  | repeated (inner : Pattern) (least : Nat) (most : Option Nat)
  | group (number : Nat) (inner : Pattern)
  | again (number : Nat)
  deriving DecidableEq, Repr, Inhabited

structure MatchState where
  /-- The last character before the match goes on. -/
  before : Option Char
  rest : List Char
  /-- What the groups have matched, the latest first. -/
  groups : List (Nat × List Char)
  deriving DecidableEq, Repr, Inhabited

namespace MatchState

/-- The state after some characters more. -/
def advance (state : MatchState) (count : Nat) : MatchState :=
  { state with
    before := (state.rest.take count).getLast?.or state.before
    rest := state.rest.drop count }

/-- Of the states with equally much left only the first. -/
def distinct : List MatchState → List MatchState
  | [] => []
  | state :: states =>
    state :: (distinct states).filter fun other => other.rest.length != state.rest.length

/-- Whether a word could stand on the two sides of the place. -/
def sides (state : MatchState) : Bool × Bool :=
  let inWord (c : Char) : Bool := CharSet.accepts false (.ranges false CharSet.wordBounds) c
  (state.before.any inWord, state.rest.head?.any inWord)

end MatchState

namespace Pattern

/-- Take steps, at least `least` and at most `most`, as many as possible first. The
first argument bounds how many steps take something. -/
def steps (step : MatchState → List MatchState) :
    Nat → Nat → Option Nat → MatchState → List MatchState
  | 0, least, _, state => if least == 0 then [state] else []
  | fuel + 1, least, most, state =>
    let further := if most == some 0 then []
      else (step state).filter fun next => least > 0 || next.rest.length < state.rest.length
    let after := further.flatMap (steps step fuel (least - 1) (most.map (· - 1)))
    MatchState.distinct (after ++ if least == 0 then [state] else [])

/-- The states after a match from here, the greediest first. -/
def ends (anyCase : Bool) : Pattern → MatchState → List MatchState
  | empty, state => [state]
  | one set, state =>
    match state.rest with
    | c :: _ => if set.accepts anyCase c then [state.advance 1] else []
    | [] => []
  | lineStart, state => if state.before.isNone then [state] else []
  | lineEnd, state => if state.rest.isEmpty then [state] else []
  | wordStart, state => if state.sides == (false, true) then [state] else []
  | wordEnd, state => if state.sides == (true, false) then [state] else []
  | sequence first second, state =>
    MatchState.distinct ((ends anyCase first state).flatMap (ends anyCase second))
  | either first second, state =>
    MatchState.distinct (ends anyCase first state ++ ends anyCase second state)
  | repeated (one set) least most, state =>
    let count := (state.rest.takeWhile (set.accepts anyCase)).length
    let longest := match most with
      | some most => min most count
      | none => count
    ((List.range (longest + 1)).drop least).reverse.map state.advance
  | repeated inner least most, state =>
    steps (ends anyCase inner) (state.rest.length + least + 1) least most state
  | group number inner, state =>
    (ends anyCase inner state).map fun next =>
      { next with
        groups := (number, state.rest.take (state.rest.length - next.rest.length)) :: next.groups }
  | again number, state =>
    let text := (state.groups.lookup number).getD []
    if text.isPrefixOf state.rest then [state.advance text.length] else []

def matchesAll (pattern : Pattern) (cs : List Char) : Bool :=
  (ends false pattern ⟨none, cs, []⟩).any fun state => state.rest.isEmpty

structure Found where
  before : List Char
  text : List Char
  after : List Char
  groups : List (Nat × List Char)

/-- The longest match that starts here; `before` is what stands before it. -/
def here? (pattern : Pattern) (anyCase : Bool) (before : List Char) (rest : List Char) :
    Option Found :=
  let states := ends anyCase pattern ⟨before.getLast?, rest, []⟩
  let longest := states.foldl (fun best state =>
    match best with
    | none => some state
    | some other =>
      if state.rest.length < other.rest.length then some state else best)
    (none : Option MatchState)
  longest.map fun state =>
    ⟨before, rest.take (rest.length - state.rest.length), state.rest, state.groups⟩

/-- The first match in a line from the place `from_` on. -/
def first? (pattern : Pattern) (anyCase : Bool) (from_ : Nat) (line : List Char) : Option Found :=
  ((List.range (line.length + 1)).drop from_).findSome? fun n =>
    pattern.here? anyCase (line.take n) (line.drop n)

def isIn (pattern : Pattern) (anyCase : Bool) (line : String) : Bool :=
  (pattern.first? anyCase 0 line.toList).isSome

def all : List Pattern → Pattern
  | [] => empty
  | [pattern] => pattern
  | pattern :: patterns => sequence pattern (all patterns)

/-- A text without special characters. -/
def plain (text : List Char) : Pattern := all (text.map fun c => one (.exactly c))

/-! ## Reading -/

inductive Sign where
  | openGroup
  | closeGroup
  | bar
  /-- How often what stands before it comes. -/
  | times (least : Nat) (most : Option Nat)
  | start
  | ending
  | atom (pattern : Pattern)
  deriving Repr, Inhabited

/-- The bounds in braces, and the rest after what closes them. -/
def interval? (closing : List Char) (cs : List Char) : Option (Sign × List Char) :=
  let low := cs.takeWhile Char.isDigit
  let rest := cs.drop low.length
  let least := (String.ofList low).toNat?
  match rest with
  | ',' :: rest =>
    let high := rest.takeWhile Char.isDigit
    (Text.stripPrefix? closing (rest.drop high.length)).map fun rest =>
      (.times (least.getD 0) (String.ofList high).toNat?, rest)
  | rest =>
    match least, Text.stripPrefix? closing rest with
    | some n, some rest => some (.times n (some n), rest)
    | _, _ => none

/-- What a backslash before a character means, apart from that character. -/
def escape? : Char → Option Pattern
  | 'w' => some (one (.ranges false CharSet.wordBounds))
  | 'W' => some (one (.ranges true CharSet.wordBounds))
  | 's' => some (one (.ranges false (CharSet.classBounds "space")))
  | 'S' => some (one (.ranges true (CharSet.classBounds "space")))
  | '<' => some wordStart
  | '>' => some wordEnd
  | 'b' => some (either wordStart wordEnd)
  | 'n' => some (one (.exactly '\n'))
  | 't' => some (one (.exactly '\t'))
  | c => if c.isDigit && c != '0' then some (again (c.toNat - '0'.toNat)) else none

/-- The next sign of a spelling. An extended one has its signs without backslashes;
`isFirst` says that nothing stands before it in its group. -/
def sign? (extended isFirst : Bool) : List Char → Option (Sign × List Char)
  | [] => none
  | '\\' :: c :: rest =>
    let special := if extended then none else
      match c with
      | '(' => some (Sign.openGroup, rest)
      | ')' => some (.closeGroup, rest)
      | '|' => some (.bar, rest)
      | '+' => some (.times 1 none, rest)
      | '?' => some (.times 0 (some 1), rest)
      | '{' => interval? ['\\', '}'] rest
      | _ => none
    some (special.getD (.atom ((escape? c).getD (one (.exactly c))), rest))
  | '*' :: rest => some (if isFirst then .atom (one (.exactly '*')) else .times 0 none, rest)
  | '.' :: rest => some (.atom (one .any), rest)
  | '[' :: rest =>
    match CharSet.bracketed? '^' rest with
    | some (set, rest) => some (.atom (one set), rest)
    | none => some (.atom (one (.exactly '[')), rest)
  | '^' :: rest => some (if extended || isFirst then .start else .atom (one (.exactly '^')), rest)
  | '$' :: rest =>
    let next := rest.take 2
    let atEnd := extended || rest.isEmpty || next == ['\\', ')'] || next == ['\\', '|']
    some (if atEnd then .ending else .atom (one (.exactly '$')), rest)
  | c :: rest =>
    let special := if !extended then none else
      match c with
      | '(' => some (Sign.openGroup, rest)
      | ')' => some (.closeGroup, rest)
      | '|' => some (.bar, rest)
      | '+' => some (.times 1 none, rest)
      | '?' => some (.times 0 (some 1), rest)
      | '{' => interval? ['}'] rest
      | _ => none
    some (special.getD (.atom (one (.exactly c)), rest))

/-- The signs of a spelling. The first argument bounds their number. -/
def signs (extended : Bool) : Nat → Bool → List Char → List Sign
  | 0, _, _ => []
  | fuel + 1, isFirst, cs =>
    match sign? extended isFirst cs with
    | none => []
    | some (sign, rest) =>
      let startsGroup := match sign with
        | .openGroup => true
        | .bar => true
        | .start => true
        | _ => false
      sign :: signs extended fuel startsGroup rest

/-- The pattern of signs up to the end of a group, with what is left and the number
of the next group: `done` are the branches that are complete, `read` the parts of this
one, the last part first. The first argument bounds the steps. -/
def ofSigns : Nat → Nat → List Pattern → List Pattern → List Sign → Pattern × List Sign × Nat
  | 0, number, _, _, signs => (empty, signs, number)
  | fuel + 1, number, done, read, signs =>
    let close : Pattern := (done.reverse ++ [all read.reverse]).foldr (fun branch others =>
      match others with
      | none => some branch
      | some others => some (either branch others)) none |>.getD empty
    match signs with
    | [] => (close, [], number)
    | .closeGroup :: rest => (close, rest, number)
    | .bar :: rest => ofSigns fuel number (all read.reverse :: done) [] rest
    | .openGroup :: rest =>
      let (inner, rest, next) := ofSigns fuel (number + 1) [] [] rest
      ofSigns fuel next done (group number inner :: read) rest
    | .times least most :: rest =>
      match read with
      | last :: before => ofSigns fuel number done (repeated last least most :: before) rest
      | [] => ofSigns fuel number done read rest
    | .start :: rest => ofSigns fuel number done (lineStart :: read) rest
    | .ending :: rest => ofSigns fuel number done (lineEnd :: read) rest
    | .atom pattern :: rest => ofSigns fuel number done (pattern :: read) rest

def parse (extended : Bool) (source : List Char) : Pattern :=
  let signs := signs extended (source.length + 1) true source
  (ofSigns (signs.length + 1) 1 [] [] signs).1

/-- The pattern of wildcards, where the star is any text and the question mark any
character. The first argument bounds their number. -/
def wildcards : Nat → List Char → List Pattern
  | 0, _ => []
  | _, [] => []
  | fuel + 1, '*' :: rest => repeated (one .any) 0 none :: wildcards fuel rest
  | fuel + 1, '?' :: rest => one .any :: wildcards fuel rest
  | fuel + 1, '\\' :: c :: rest => one (.exactly c) :: wildcards fuel rest
  | fuel + 1, '[' :: rest =>
    match CharSet.bracketed? '!' rest with
    | some (set, rest) => one set :: wildcards fuel rest
    | none => one (.exactly '[') :: wildcards fuel rest
  | fuel + 1, c :: rest => one (.exactly c) :: wildcards fuel rest

def ofWildcards (text : List Char) : Pattern := all (wildcards (text.length + 1) text)

end Pattern

end Emend.Shell

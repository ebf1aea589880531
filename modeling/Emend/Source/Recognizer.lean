import Emend.Source.Grammar

/-!
# The recognizer

A recognizer reads terminals from left to right and keeps all ways in which what it
has read can be the beginning of a file. One way is a `Thread`: the goals left in
the category it is in, and the frame that says where to go on when the category
is complete. Threads that are in the same category since the same place share
their frame, so a part of the text is read once however many ways lead to it.

What a thread recognises is recorded as events, from which the syntax tree is
built.
-/

set_option autoImplicit false

namespace Emend

/-- What stands between two tokens, blanks apart. -/
inductive TriviaKind where
  | comment
  /-- A closing tag with the markup and the opening tag after it. -/
  | interpolation
  deriving DecidableEq, Repr, Inhabited

/-- A comment or a stretch of markup. -/
structure Trivia where
  kind : TriviaKind
  span : Span
  line : Nat
  deriving DecidableEq, Repr, Inhabited

/-- Where something stands, and the line on which it begins. -/
structure Extent where
  span : Span
  line : Nat
  deriving DecidableEq, Repr, Inhabited

/-- What is recorded while a text is recognised. -/
inductive Event where
  /-- A node begins with the token at this place. -/
  | opened (label : Label) (start line : Nat)
  /-- The node that began last ends here. -/
  | closed (stop : Nat)
  | trivia (trivia : Trivia)
  /-- What was recorded inside a category, latest first. -/
  | inner (events : List Event)
  deriving Repr, Inhabited

inductive Goal where
  | rule (rule : Rule)
  /-- End the node that began last. -/
  | close
  deriving DecidableEq, Repr, Inhabited

structure Thread where
  goals : List Goal
  events : List Event
  /-- Where to go on after it, as the place of a list of threads. -/
  frame : Nat
  deriving Repr, Inhabited

/-- A rule that may begin with the next token, and what comes after it. -/
structure Opening where
  rule : Rule
  goals : List Goal
  events : List Event
  frame : Nat
  /-- Rules that were passed over and must not be able to begin instead. -/
  refused : List Rule
  deriving Repr, Inhabited

structure Start where
  call : Option Category
  /-- The nodes that begin, outermost first. -/
  labels : List Label
  goals : List Goal
  deriving Repr, Inhabited

namespace Rule

def begins (t : Terminal) : Rule → Bool
  | empty => false
  | terminal u => u == t
  | category c => Grammar.mayBegin c t
  | sequence first second => first.begins t || (first.skippable && second.begins t)
  | choice left right => left.begins t || right.begins t
  | optional rule => rule.begins t
  | eager rule => rule.begins t
  | many rule => rule.begins t
  | node _ rule => rule.begins t

/-- The ways in which the rule begins with a terminal, inside nodes with these
labels and with these goals after it. -/
def starts (t : Terminal) : Rule → List Label → List Goal → List Start
  | empty, _, _ => []
  | terminal u, labels, goals => if u == t then [⟨none, labels, goals⟩] else []
  | category c, labels, goals => if Grammar.mayBegin c t then [⟨some c, labels, goals⟩] else []
  | sequence first second, labels, goals =>
    first.starts t labels (.rule second :: goals) ++
      (if first.skippable then second.starts t labels goals else [])
  | choice left right, labels, goals => left.starts t labels goals ++ right.starts t labels goals
  | optional rule, labels, goals => rule.starts t labels goals
  | eager rule, labels, goals => rule.starts t labels goals
  | many rule, labels, goals => rule.starts t labels (.rule (many rule) :: goals)
  | node label rule, labels, goals => rule.starts t (labels ++ [label]) (.close :: goals)

/-- The rules that must not be able to begin when the rule is passed over. -/
def refusals : Rule → List Rule
  | sequence first second => first.refusals ++ second.refusals
  | eager rule => [rule]
  | _ => []

end Rule

namespace Thread

/-- The thread that goes on after a category in which `events` were recorded. -/
def resume (thread : Thread) (events : List Event) : Thread :=
  if events.isEmpty then thread else { thread with events := .inner events :: thread.events }

/-- The rules among goals that may begin with the next token, when the last token
ended at `stop`, and if all goals can be passed over, what is refused and recorded
after them. -/
def openingsHere (stop frame : Nat) (refused : List Rule) (events : List Event) :
    List Goal → List Opening × Option (List Rule × List Event)
  | [] => ([], some (refused, events))
  | .close :: goals => openingsHere stop frame refused (.closed stop :: events) goals
  | .rule rule :: goals =>
    let opening : Opening := ⟨rule, goals, events, frame, refused⟩
    if rule.skippable then
      let (others, passed) := openingsHere stop frame (rule.refusals ++ refused) events goals
      (opening :: others, passed)
    else ([opening], none)

/-- The rules of the thread that may begin with the next token. A frame stands
after the frames of the threads in it, so at most as many frames are left as the
number of the first one says. -/
def openings (frames : Array (List Thread)) (stop : Nat) :
    Nat → List Rule → List Goal → List Event → Nat → List Opening
  | 0, refused, goals, events, frame => (openingsHere stop frame refused events goals).1
  | depth + 1, refused, goals, events, frame =>
    let (here, passed) := openingsHere stop frame refused events goals
    match passed with
    | none => here
    | some (refused, events) =>
      here ++ ((frames[frame]?).getD []).flatMap fun thread =>
        let thread := thread.resume events
        if thread.frame < frame then
          openings frames stop depth refused thread.goals thread.events thread.frame
        else []

end Thread

/-- All ways in which the text so far can be the beginning of a file. -/
structure Recognizer where
  /-- The threads to go on with after a category, for each category entered. -/
  frames : Array (List Thread)
  threads : List Thread
  /-- The rules that may begin with the next token. -/
  openings : List Opening
  deriving Inhabited

namespace Recognizer

/-- A category to be entered, and the thread that goes on after it. -/
structure Call where
  category : Category
  back : Thread
  deriving Inhabited

def accepts (t : Terminal) (opening : Opening) : Bool :=
  opening.rule.begins t && !opening.refused.any (·.begins t)

def expects (recognizer : Recognizer) (t : Terminal) : Bool := recognizer.openings.any (accepts t)

/-- The events of nodes that begin at a place, after earlier events. -/
def open_ (labels : List Label) (extent : Extent) (events : List Event) : List Event :=
  labels.foldl (fun events label => .opened label extent.span.start extent.line :: events) events

/-- The threads that read the terminal themselves. -/
def direct (extent : Extent) (events : List Event) (frame : Nat) (starts : List Start) :
    List Thread :=
  (starts.filter (·.call.isNone)).map fun start =>
    ⟨start.goals, open_ start.labels extent events, frame⟩

/-- The categories that read the terminal for a thread. -/
def calls (extent : Extent) (events : List Event) (frame : Nat) (starts : List Start) :
    List Call :=
  starts.filterMap fun start =>
    start.call.map fun c => ⟨c, start.goals, open_ start.labels extent events, frame⟩

/-- The threads to go on with after a category that was entered for a thread. A
thread with nothing left and nothing recorded gives way to those it would go on
with. -/
def returns (frames : Array (List Thread)) (back : Thread) : List Thread :=
  if back.goals.isEmpty && back.events.isEmpty then (frames[back.frame]?).getD [] else [back]

/-- Enter categories, each of them once, until the terminal is read everywhere. -/
def enter (t : Terminal) (extent : Extent) :
    Nat → List Call → Array (List Thread) → List Thread → Array (List Thread) × List Thread
  | 0, _, frames, threads => (frames, threads)
  | _, [], frames, threads => (frames, threads)
  | fuel + 1, first :: rest, frames, threads =>
    let earlier (c : Category) (call : Call) : Category :=
      if call.category.ctorIdx < c.ctorIdx then call.category else c
    let c := rest.foldl earlier first.category
    let (mine, others) := (first :: rest).partition (·.category == c)
    let starts := (Grammar.rule c).starts t [] []
    let frame := frames.size
    let back := mine.flatMap fun call => returns frames call.back
    enter t extent fuel (others ++ calls extent [] frame starts) (frames.push back)
      (threads ++ direct extent [] frame starts)

/-- The threads without those that only repeat an earlier one. -/
def distinct (threads : List Thread) : List Thread :=
  threads.foldr (fun thread rest =>
    thread :: rest.filter fun other =>
      !(other.frame == thread.frame && other.goals == thread.goals)) []

/-- The recognizer with these threads, after a token that ended at `stop`. -/
def settle (frames : Array (List Thread)) (threads : List Thread) (stop : Nat) : Recognizer :=
  let threads := match threads with
    | [] => []
    | [thread] => [thread]
    | _ => distinct threads
  ⟨frames, threads, threads.flatMap fun thread =>
    Thread.openings frames stop thread.frame [] thread.goals thread.events thread.frame⟩

/-- The recognizer of a rule, which has read nothing yet. -/
def ofRule (rule : Rule) : Recognizer := settle #[[]] [⟨[.rule rule], [], 0⟩] 0

/-- The recognizer after a token at a place, with the trivia before it, latest
first. -/
def read (recognizer : Recognizer) (t : Terminal) (extent : Extent) (trivia : List Trivia) :
    Recognizer :=
  let openings := recognizer.openings.filter (accepts t)
  let before (opening : Opening) : List Event := trivia.map .trivia ++ opening.events
  let begun (opening : Opening) : List Start := opening.rule.starts t [] opening.goals
  let here := openings.flatMap fun opening =>
    direct extent (before opening) opening.frame (begun opening)
  let entered := openings.flatMap fun opening =>
    calls extent (before opening) opening.frame (begun opening)
  let (frames, threads) :=
    enter t extent (2 * Grammar.categories.length) entered recognizer.frames here
  settle frames threads extent.span.stop

/-- The events of a thread that has read a whole file. -/
def complete? (recognizer : Recognizer) : Option (List Event) :=
  (recognizer.threads.find? fun thread => thread.goals.isEmpty && thread.frame == 0).map (·.events)

def eventsBefore (frames : Array (List Thread)) (frame : Nat) : List Event :=
  match (frames[frame]?).getD [] with
  | [] => []
  | thread :: _ =>
    thread.events ++ (if thread.frame < frame then eventsBefore frames thread.frame else [])
  termination_by frame

/-- What has been recorded so far by one of the ways. -/
def recorded (recognizer : Recognizer) : List Event :=
  match recognizer.threads with
  | [] => []
  | thread :: _ => thread.events ++ eventsBefore recognizer.frames thread.frame

end Recognizer

end Emend

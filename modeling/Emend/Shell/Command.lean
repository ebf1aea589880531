/-!
# Shell commands

Checkers are often small shell scripts. This is the language that they are written
in: simple commands with assignments and redirections, pipelines, lists, conditions,
cases, loops and functions, and words with quotes, parameters, arithmetic and command
output in them.

Channels are numbered: `0` is the input of a command, `1` is where its output goes
and `2` is where its complaints go.
-/

set_option autoImplicit false

namespace Emend.Shell

/-- What a command wants of a file that one of its channels leads to. -/
inductive Access where
  | read
  | write
  | append
  deriving DecidableEq, Repr, Inhabited

mutual

inductive Piece where
  | text (value : String)
  | parameter (name : String)
  /-- A word in place of the value of a parameter: if it has a value, or if it has
  none. With `orEmpty` an empty value counts as none. -/
  | instead (name : String) (ifGiven orEmpty : Bool) (word : List Fragment)
  | assigned (name : String) (orEmpty : Bool) (word : List Fragment)
  | required (name : String) (orEmpty : Bool) (word : List Fragment)
  | trimmed (name : String) (atEnd longest : Bool) (pattern : List Fragment)
  | length (name : String)
  | arithmetic (expression : List Fragment)
  | output (command : Command)
  | senseless

/-- A piece and whether it is quoted; what is not quoted is split into words and may
be a pattern of file names. -/
inductive Fragment where
  | mk (piece : Piece) (quoted : Bool)

/-- Where a channel goes or comes from. -/
inductive Redirect where
  | file (channel : Nat) (access : Access) (path : List Fragment)
  | here (channel : Nat) (text : List Fragment)
  | copy (channel source : Nat)
  | close (channel : Nat)

inductive Command where
  /-- Does nothing and keeps the status. -/
  | nothing
  | simple (line : Nat) (assignments : List (String × List Fragment)) (words : List (List Fragment))
      (redirects : List Redirect)
  | both (first second : Command)
  /-- The second only if the first succeeds, or only if it fails. -/
  | guarded (onSuccess : Bool) (first second : Command)
  | negated (command : Command)
  | piped (first second : Command)
  | choice (condition first second : Command)
  /-- The first branch with a pattern that matches the word. -/
  | cases (subject : List Fragment) (branches : List (List (List Fragment) × Command))
  /-- Again as long as the condition succeeds, or as long as it fails. -/
  | loop (whileTrue : Bool) (condition body : Command)
  /-- Once for each word; for each argument if no words are given. -/
  | each (name : String) (words : Option (List (List Fragment))) (body : Command)
  | nested (command : Command)
  /-- In a shell of its own, while this one goes on. -/
  | aside (command : Command)
  | redirected (line : Nat) (command : Command) (redirects : List Redirect)
  | function (name : String) (body : Command)

end

/-- A word: pieces without blanks between them. -/
abbrev Word := List Fragment

instance : Inhabited Command := ⟨.nothing⟩

end Emend.Shell

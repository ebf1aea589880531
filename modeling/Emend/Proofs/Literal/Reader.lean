import Emend.Literal
import Emend.Proofs.Text
import Mathlib.Data.List.Basic

/-!
# Reading literals

What the text of a literal denotes: null, a truth value, a number, a text, or an array with its
entries in order. A text is read in two passes. The *scanner* takes one character after the
other and gives tokens; the *machine* takes one token after the other and keeps the arrays that
are open on a stack. Both are one step and its repetition, so what they do to a text cut in two
is what they do to the parts (`scan_append`, `State.run_append`), and what lies deep in the stack
does not matter (`State.run_under`).

An array is a list without keys or a map with a key for every element; one that mixes the two is
not read. Nor are numbers other than in decimal form.
-/

set_option autoImplicit false

namespace Emend.Literal

/-! ## Values -/

inductive Key where
  | int (n : Int)
  | text (value : String)
  deriving DecidableEq, Repr

/-- What a literal denotes. A number outside of 64 bits is kept as it is written. -/
inductive Value where
  | null
  | bool (value : Bool)
  | number (value : Int)
  | text (value : String)
  | array (entries : List (Key × Value))
  deriving Repr

/-- The number that digits are, with or without a sign. -/
def decimal : List Char → Int
  | '-' :: digits => -Nat.ofDigitChars 10 digits 0
  | digits => Nat.ofDigitChars 10 digits 0

def number? (written : String) : Option Int :=
  let n := decimal written.toList
  if toString n = written then some n else none

/-- Whether a number is an integer of 64 bits. -/
def fits (n : Int) : Bool := -0x8000000000000000 ≤ n && n < 0x8000000000000000

/-- A text as a key: the decimal form of an integer is that integer. -/
def Key.ofText (s : String) : Key :=
  match number? s with
  | some n => if fits n then .int n else .text s
  | none => .text s

def Value.key? : Value → Option Key
  | .null => some (.text "")
  | .bool b => some (.int (if b then 1 else 0))
  | .number n => if fits n then some (.int n) else none
  | .text s => some (.ofText s)
  | .array _ => none

def place (key : Key) (value : Value) : List (Key × Value) → List (Key × Value)
  | [] => [(key, value)]
  | (k, v) :: entries =>
    if k = key then (key, value) :: entries else (k, v) :: place key value entries

/-- The array of values with the keys `0`, `1`, and so on. -/
def Value.ofList (values : List Value) : Value :=
  .array (values.zipIdx.map fun (value, index) => (.int index, value))

/-- The array of values with their keys; a later value takes the place of an earlier one. -/
def Value.ofEntries (entries : List (Key × Value)) : Value :=
  .array (entries.foldl (fun placed entry => place entry.1 entry.2 placed) [])

def keyed? (element : Option Key × Value) : Option (Key × Value) := element.1.map (·, element.2)

/-- The array of elements as they are written, with keys or without. -/
def assemble? (elements : List (Option Key × Value)) : Option Value :=
  if elements.all (·.1.isNone) then some (.ofList (elements.map (·.2)))
  else if elements.all (·.1.isSome) then
    some (.ofEntries (elements.filterMap keyed?))
  else none

/-! ## Tokens -/

inductive Token where
  | text (value : String)
  | word (written : String)
  | opening
  | closing
  | comma
  | arrow
  deriving DecidableEq, Repr

inductive Mode where
  | between
  | word (read : List Char)
  | text (read : List Char)
  | escaped (read : List Char)
  | equals
  deriving DecidableEq, Repr

/-- The blanks between tokens. -/
def isSpace (c : Char) : Bool := c == ' ' || c == '\t' || c == '\n' || c == '\r'

/-- The characters of words and numbers. -/
def isWordChar (c : Char) : Bool := c.isAlphanum || c == '-' || c == '_'

/-- The scanner after a character that stands between tokens. -/
def Mode.opened (c : Char) : Option (Mode × List Token) :=
  if isSpace c then some (.between, [])
  else if isWordChar c then some (.word [c], [])
  else match c with
    | '\'' => some (.text [], [])
    | '[' => some (.between, [.opening])
    | ']' => some (.between, [.closing])
    | ',' => some (.between, [.comma])
    | '=' => some (.equals, [])
    | _ => none

/-- The scanner after one more character, and the tokens that end with it. In a text a
backslash stands for itself unless it is before a quote or a backslash. -/
def Mode.step : Mode → Char → Option (Mode × List Token)
  | .between, c => opened c
  | .word read, c =>
    if isWordChar c then some (.word (read ++ [c]), [])
    else (opened c).map fun (mode, tokens) => (mode, .word (.ofList read) :: tokens)
  | .text read, c =>
    if c = '\\' then some (.escaped read, [])
    else if c = '\'' then some (.between, [.text (.ofList read)])
    else some (.text (read ++ [c]), [])
  | .escaped read, c =>
    if c = '\\' ∨ c = '\'' then some (.text (read ++ [c]), [])
    else some (.text (read ++ ['\\', c]), [])
  | .equals, c => if c = '>' then some (.between, [.arrow]) else none

/-- The scanner after a text, and the tokens that end in it. -/
def scan : Mode → List Char → Option (Mode × List Token)
  | mode, [] => some (mode, [])
  | mode, c :: cs => do
    let (mode, tokens) ← mode.step c
    let (mode, others) ← scan mode cs
    return (mode, tokens ++ others)

def Mode.finish? : Mode → Option (List Token)
  | .between => some []
  | .word read => some [.word (.ofList read)]
  | .text _ | .escaped _ | .equals => none

def tokens? (text : String) : Option (List Token) := do
  let (mode, tokens) ← scan .between text.toList
  let last ← mode.finish?
  return tokens ++ last

/-! ## The machine -/

/-- The value of a word: a number in decimal form or a keyword in any case. -/
def Value.ofWord? (written : String) : Option Value :=
  match number? written with
  | some n => some (.number n)
  | none =>
    match Text.lower written with
    | "null" => some .null
    | "true" => some (.bool true)
    | "false" => some (.bool false)
    | _ => none

/-- An open array: its elements so far, and the key that waits for its value. -/
structure Frame where
  elements : List (Option Key × Value)
  key : Option Key

/-- The open array with one more value. -/
def Frame.push (frame : Frame) (value : Value) : Frame :=
  ⟨frame.elements ++ [(frame.key, value)], none⟩

/-- What the machine is about: it waits for a value, or it holds one. -/
inductive State where
  | waiting (stack : List Frame)
  | holding (value : Value) (stack : List Frame)

/-- The machine after one more token. A comma may stand before the closing bracket. -/
def State.step : State → Token → Option State
  | .waiting stack, .text value => some (.holding (.text value) stack)
  | .waiting stack, .word written => (Value.ofWord? written).map (.holding · stack)
  | .waiting stack, .opening => some (.waiting (⟨[], none⟩ :: stack))
  | .waiting (⟨elements, none⟩ :: stack), .closing => (assemble? elements).map (.holding · stack)
  | .holding value (frame :: stack), .comma => some (.waiting (frame.push value :: stack))
  | .holding value (frame :: stack), .closing =>
    (assemble? (frame.push value).elements).map (.holding · stack)
  | .holding value (⟨elements, none⟩ :: stack), .arrow =>
    value.key?.map fun key => .waiting (⟨elements, some key⟩ :: stack)
  | _, _ => none

def State.run : State → List Token → Option State
  | state, [] => some state
  | state, token :: tokens => (state.step token).bind (State.run · tokens)

/-- The value that a machine with nothing open holds. -/
def State.result? : State → Option Value
  | .holding value [] => some value
  | _ => none

def read? (text : String) : Option Value := do
  let tokens ← tokens? text
  let state ← State.run (.waiting []) tokens
  state.result?

/-! ## Both passes over a text in two parts -/

theorem scan_append (mode : Mode) (a b : List Char) :
    scan mode (a ++ b) = (scan mode a).bind fun (mode, tokens) =>
      (scan mode b).map fun (mode, others) => (mode, tokens ++ others) := by
  induction a generalizing mode with
  | nil => cases scanned : scan mode b <;> simp [scan, scanned]
  | cons c a ih =>
      cases stepped : mode.step c with
      | none => simp [scan, stepped]
      | some next =>
          obtain ⟨mode, tokens⟩ := next
          cases first : scan mode a with
          | none => simp [scan, stepped, ih, first]
          | some next =>
              obtain ⟨mode, others⟩ := next
              cases second : scan mode b <;> simp [scan, stepped, ih, first, second]

theorem scan_trans {mode next last : Mode} {a b : List Char} {tokens others : List Token}
    (first : scan mode a = some (next, tokens)) (second : scan next b = some (last, others)) :
    scan mode (a ++ b) = some (last, tokens ++ others) := by
  simp [scan_append, first, second]

namespace State

theorem run_append (state : State) (a b : List Token) :
    state.run (a ++ b) = (state.run a).bind (·.run b) := by
  induction a generalizing state with
  | nil => rfl
  | cons token a ih =>
      cases stepped : state.step token with
      | none => simp [run, stepped]
      | some next => simpa [run, stepped] using ih next

theorem run_trans {state next last : State} {a b : List Token} (first : state.run a = some next)
    (second : next.run b = some last) : state.run (a ++ b) = some last := by
  rw [run_append, first, Option.bind_some, second]

/-- The machine with further arrays open around all that it has. -/
def under (below : List Frame) : State → State
  | .waiting stack => .waiting (stack ++ below)
  | .holding value stack => .holding value (stack ++ below)

theorem step_under {state after : State} {token : Token} (below : List Frame)
    (stepped : state.step token = some after) :
    (state.under below).step token = some (after.under below) := by
  unfold step at stepped
  split at stepped
  case h_1 | h_3 | h_5 =>
    cases stepped
    rfl
  case h_8 => cases stepped
  all_goals
    obtain ⟨result, found, rfl⟩ := Option.map_eq_some_iff.1 stepped
    simp [under, step, found]

theorem run_under {state after : State} {tokens : List Token} (below : List Frame)
    (ran : state.run tokens = some after) :
    (state.under below).run tokens = some (after.under below) := by
  induction tokens generalizing state with
  | nil =>
      cases ran
      rfl
  | cons token tokens ih =>
      obtain ⟨next, stepped, ran⟩ := Option.bind_eq_some_iff.1 ran
      rw [run, step_under below stepped]
      exact ih ran

end State

/-! ## Numbers -/

theorem toList_toString_negSucc (n : Nat) :
    (toString (Int.negSucc n)).toList = '-' :: (n + 1).repr.toList := by
  have written : toString (Int.negSucc n) = "-" ++ (n + 1).repr := rfl
  rw [written, String.toList_append]
  rfl

theorem wordChars_toString (n : Int) : ∀ c ∈ (toString n).toList, isWordChar c = true := by
  have digits (n : Nat) : ∀ c ∈ n.repr.toList, isWordChar c = true := by
    intro c inside
    rw [Nat.repr_eq_ofList_toDigits, String.toList_ofList] at inside
    have digit := Nat.isDigit_of_mem_toDigits (by decide) (by decide) inside
    simp [isWordChar, Char.isAlphanum, digit]
  cases n with
  | ofNat n => exact digits n
  | negSucc n =>
      rw [toList_toString_negSucc]
      intro c inside
      rcases List.mem_cons.1 inside with rfl | digit
      · decide
      · exact digits _ c digit

theorem decimal_toString (n : Int) : decimal (toString n).toList = n := by
  have back (n : Nat) : Nat.ofDigitChars 10 n.repr.toList 0 = n := by
    rw [Nat.repr_eq_ofList_toDigits, String.toList_ofList, Nat.ofDigitChars_ten_toDigits]
  cases n with
  | ofNat n =>
      have unsigned : ∀ digits, n.repr.toList ≠ '-' :: digits := by
        intro digits written
        have digit : '-' ∈ Nat.toDigits 10 n := by
          rw [← String.toList_ofList (l := Nat.toDigits 10 n), ← Nat.repr_eq_ofList_toDigits, written]
          exact List.mem_cons_self
        have := Nat.isDigit_of_mem_toDigits (by decide) (by decide) digit
        contradiction
      have written : (toString (Int.ofNat n)).toList = n.repr.toList := rfl
      rw [written, decimal, back]
      · rfl
      · exact unsigned
  | negSucc n =>
      rw [toList_toString_negSucc, decimal, back]
      rfl

theorem number?_eq_some_iff {s : String} {n : Int} : number? s = some n ↔ toString n = s := by
  constructor
  · intro read
    obtain ⟨written, same⟩ := Option.ite_none_right_eq_some.1 read
    rwa [Option.some.inj same] at written
  · rintro rfl
    rw [number?, decimal_toString, if_pos rfl]

end Emend.Literal

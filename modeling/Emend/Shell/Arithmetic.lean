import Emend.Shell.Reader
import Emend.Table

/-!
# Shell arithmetic

Expressions over whole numbers with the usual operators and precedences, with
assignments to parameters. A parameter without a value counts as zero. Numbers have 64
bits and wrap around; comparisons give one or zero. Of `&&`, `||` and the choice only
the parts that matter are evaluated.
-/

set_option autoImplicit false

namespace Emend.Shell.Arithmetic

/-- Why an expression has no value. -/
inductive Fault where
  | noOperand
  /-- Something stands after the end. -/
  | notEnded
  | notClosed
  | divisionByZero
  | noNumber (value : String)
  deriving DecidableEq, Repr, Inhabited

def Fault.message (expression : String) : Fault → String
  | noOperand => "arithmetic expression: expecting primary: \"" ++ expression ++ "\""
  | notEnded => "arithmetic expression: expecting EOF: \"" ++ expression ++ "\""
  | notClosed => "arithmetic expression: expecting ')': \"" ++ expression ++ "\""
  | divisionByZero => "arithmetic expression: division by zero: \"" ++ expression ++ "\""
  | noNumber value => "Illegal number: " ++ value

/-- A number between `-2^63` and `2^63 - 1` that agrees with this one modulo
`2^64`. -/
def wrap (n : Int) : Int := Int.bmod n (Nat.pow 2 64)

/-! ## Numbers -/

/-- The value of a digit, letters being digits above nine. -/
def digit? (c : Char) : Option Nat :=
  if c.isDigit then some (c.toNat - '0'.toNat)
  else if c.isAlpha then some (c.toLower.toNat - 'a'.toNat + 10)
  else none

def ofDigits? (base : Nat) (digits : List Char) : Option Nat :=
  digits.foldlM (fun n c => do
    let d ← digit? c
    if d < base then some (n * base + d) else none) 0

/-- The number that a text spells: a leading zero means base eight, a leading `0x`
base sixteen. -/
def constant? : List Char → Option Nat
  | [] => none
  | '0' :: 'x' :: digits => if digits.isEmpty then none else ofDigits? 16 digits
  | '0' :: 'X' :: digits => if digits.isEmpty then none else ofDigits? 16 digits
  | '0' :: digits => ofDigits? 8 digits
  | digits => ofDigits? 10 digits

/-- The number that the value of a parameter spells; an empty one is zero. -/
def ofValue? (value : String) : Option Int :=
  match Text.trimChars value.toList with
  | [] => some 0
  | '-' :: digits => (constant? digits).map fun n => -(n : Int)
  | '+' :: digits => (constant? digits).map fun n => (n : Int)
  | digits => (constant? digits).map fun n => (n : Int)

/-! ## Expressions -/

/-- The operators between two operands that are always evaluated. -/
inductive Binary where
  | bitOr
  | bitXor
  | bitAnd
  | equal
  | differ
  | less
  | lessOrEqual
  | greater
  | greaterOrEqual
  | shiftLeft
  | shiftRight
  | add
  | subtract
  | multiply
  | divide
  | remainder
  deriving DecidableEq, Repr, Inhabited

/-- The operators before an operand. -/
inductive Unary where
  | plus
  | minus
  | not
  | complement
  deriving DecidableEq, Repr, Inhabited

inductive Expression where
  | number (n : Int)
  | parameter (name : String)
  | unary (operator : Unary) (operand : Expression)
  | binary (operator : Binary) (first second : Expression)
  | logical (both : Bool) (first second : Expression)
  | choice (condition first second : Expression)
  /-- The parameter gets the value, joined to its old one if there is an operator. -/
  | assign (name : String) (operator : Option Binary) (value : Expression)
  deriving Repr, Inhabited

/-- One for what holds and zero for what does not. -/
def truth (b : Bool) : Int := if b then 1 else 0

def bits (n : Int) : BitVec 64 := BitVec.ofInt 64 n

def Binary.apply (operator : Binary) (a b : Int) : Except Fault Int :=
  match operator with
  | bitOr => .ok (bits a ||| bits b).toInt
  | bitXor => .ok (bits a ^^^ bits b).toInt
  | bitAnd => .ok (bits a &&& bits b).toInt
  | equal => .ok (truth (a == b))
  | differ => .ok (truth (a != b))
  | less => .ok (truth (decide (a < b)))
  | lessOrEqual => .ok (truth (decide (a ≤ b)))
  | greater => .ok (truth (decide (b < a)))
  | greaterOrEqual => .ok (truth (decide (b ≤ a)))
  | shiftLeft => .ok (bits a <<< (b % 64).toNat).toInt
  | shiftRight => .ok ((bits a).sshiftRight (b % 64).toNat).toInt
  | add => .ok (wrap (a + b))
  | subtract => .ok (wrap (a - b))
  | multiply => .ok (wrap (a * b))
  | divide => if b == 0 then .error .divisionByZero else .ok (wrap (a.tdiv b))
  | remainder => if b == 0 then .error .divisionByZero else .ok (wrap (a.tmod b))

def Unary.apply (operator : Unary) (a : Int) : Int :=
  match operator with
  | plus => a
  | minus => wrap (-a)
  | not => truth (a == 0)
  | complement => wrap (-a - 1)

/-- The value of an expression, and the parameters after its assignments. -/
def Expression.evaluate (values : Table String) : Expression → Except Fault (Int × Table String)
  | number n => .ok (n, values)
  | parameter name =>
    let value := (values.get? name).getD ""
    match ofValue? value with
    | some n => .ok (wrap n, values)
    | none => .error (.noNumber value)
  | unary operator operand => do
    let (a, values) ← operand.evaluate values
    return (operator.apply a, values)
  | binary operator first second => do
    let (a, values) ← first.evaluate values
    let (b, values) ← second.evaluate values
    return (← operator.apply a b, values)
  | logical both first second => do
    let (a, values) ← first.evaluate values
    if (a != 0) == both then
      let (b, values) ← second.evaluate values
      return (truth (b != 0), values)
    else return (truth (a != 0), values)
  | choice condition first second => do
    let (c, values) ← condition.evaluate values
    if c != 0 then first.evaluate values else second.evaluate values
  | assign name operator value => do
    let (b, values) ← value.evaluate values
    let result ← match operator with
      | none => .ok b
      | some operator =>
        let old := (values.get? name).getD ""
        match ofValue? old with
        | some a => operator.apply a b
        | none => .error (.noNumber old)
    return (result, values.insert name (toString result))

/-! ## Reading -/

/-- A word or a sign of an expression. -/
inductive Symbol where
  | number (n : Nat)
  | name (name : String)
  | sign (spelling : String)
  deriving DecidableEq, Repr, Inhabited

/-- The signs of more than one character, longer ones first. -/
def longSigns : List String :=
  ["<<=", ">>=", "<<", ">>", "<=", ">=", "==", "!=", "&&", "||", "+=", "-=", "*=", "/=", "%=",
    "&=", "|=", "^="]

/-- The symbols of an expression. The first argument bounds their number. -/
def symbols : Nat → List Char → List Symbol
  | 0, _ => []
  | fuel + 1, cs =>
    match cs.dropWhile Text.isBlank with
    | [] => []
    | c :: rest =>
      let all := c :: rest
      if startsName c then
        let word := all.takeWhile isNameChar
        .name (.ofList word) :: symbols fuel (all.drop word.length)
      else if c.isDigit then
        let word := all.takeWhile isNameChar
        let lengths := (List.range (word.length + 1)).reverse
        match lengths.findSome? fun n => (constant? (word.take n)).map fun v => (v, n) with
        | some (value, n) => .number value :: symbols fuel (all.drop n)
        | none => .sign (.ofList word) :: symbols fuel (all.drop word.length)
      else
        match longSigns.find? fun sign => (Text.stripPrefix? sign.toList all).isSome with
        | some sign => .sign sign :: symbols fuel (all.drop sign.length)
        | none => .sign (.ofList [c]) :: symbols fuel rest

/-- The binary operators from the weakest to the strongest. -/
def levels : List (List (String × Binary)) :=
  [[("|", .bitOr)], [("^", .bitXor)], [("&", .bitAnd)], [("==", .equal), ("!=", .differ)],
    [("<=", .lessOrEqual), (">=", .greaterOrEqual), ("<", .less), (">", .greater)],
    [("<<", .shiftLeft), (">>", .shiftRight)], [("+", .add), ("-", .subtract)],
    [("*", .multiply), ("/", .divide), ("%", .remainder)]]

def assignments : List (String × Option Binary) :=
  [("=", none), ("|=", some .bitOr), ("^=", some .bitXor), ("&=", some .bitAnd),
    ("<<=", some .shiftLeft), (">>=", some .shiftRight), ("+=", some .add),
    ("-=", some .subtract), ("*=", some .multiply), ("/=", some .divide),
    ("%=", some .remainder)]

def unaries : List (String × Unary) :=
  [("+", .plus), ("-", .minus), ("!", .not), ("~", .complement)]

/-- What a reader of symbols gives: an expression and the symbols that are left. -/
abbrev Reading := Except Fault (Expression × List Symbol)

mutual

/-- An assignment or a choice. The first argument bounds the steps. -/
def whole : Nat → List Symbol → Reading
  | 0, _ => .error .noOperand
  | fuel + 1, symbols =>
    match symbols with
    | .name name :: .sign sign :: rest =>
      match assignments.lookup sign with
      | some operator => do
        let (value, rest) ← whole fuel rest
        return (.assign name operator value, rest)
      | none => choiceOf fuel symbols
    | _ => choiceOf fuel symbols

def choiceOf : Nat → List Symbol → Reading
  | 0, _ => .error .noOperand
  | fuel + 1, symbols => do
    let (condition, rest) ← logicalOf fuel false symbols
    match rest with
    | .sign "?" :: rest => do
      let (first, rest) ← whole fuel rest
      match rest with
      | .sign ":" :: rest => do
        let (second, rest) ← choiceOf fuel rest
        return (.choice condition first second, rest)
      | _ => .error .noOperand
    | rest => return (condition, rest)

/-- Operands joined by `&&`, or those joined by `||`. -/
def logicalOf : Nat → Bool → List Symbol → Reading
  | 0, _, _ => .error .noOperand
  | fuel + 1, both, symbols => do
    let (first, rest) ← if both then operators fuel levels symbols else logicalOf fuel true symbols
    match rest with
    | .sign sign :: after =>
      if sign == (if both then "&&" else "||") then do
        let (second, rest) ← logicalOf fuel both after
        return (.logical both first second, rest)
      else return (first, rest)
    | rest => return (first, rest)

/-- Operands joined by the operators of these levels. -/
def operators : Nat → List (List (String × Binary)) → List Symbol → Reading
  | 0, _, _ => .error .noOperand
  | fuel + 1, [], symbols => operand fuel symbols
  | fuel + 1, level :: stronger, symbols => do
    let (first, rest) ← operators fuel stronger symbols
    operatorsFrom fuel level stronger first rest

/-- The operands of a level after the first. -/
def operatorsFrom : Nat → List (String × Binary) → List (List (String × Binary)) → Expression →
    List Symbol → Reading
  | 0, _, _, _, _ => .error .noOperand
  | fuel + 1, level, stronger, first, symbols =>
    match symbols with
    | .sign sign :: rest =>
      match level.lookup sign with
      | some operator => do
        let (second, rest) ← operators fuel stronger rest
        operatorsFrom fuel level stronger (.binary operator first second) rest
      | none => .ok (first, symbols)
    | _ => .ok (first, symbols)

/-- A number, a parameter, a sign before an operand, or an expression in
parentheses. -/
def operand : Nat → List Symbol → Reading
  | 0, _ => .error .noOperand
  | fuel + 1, symbols =>
    match symbols with
    | .number n :: rest => .ok (.number (wrap n), rest)
    | .name name :: rest => .ok (.parameter name, rest)
    | .sign "(" :: rest => do
      let (inner, rest) ← whole fuel rest
      match rest with
      | .sign ")" :: rest => return (inner, rest)
      | _ => .error .notClosed
    | .sign sign :: rest =>
      match unaries.lookup sign with
      | some operator => do
        let (inner, rest) ← operand fuel rest
        return (.unary operator inner, rest)
      | none => .error .noOperand
    | [] => .error .noOperand

end

def parse (text : String) : Except Fault Expression := do
  let all := symbols (text.length + 1) text.toList
  let (expression, rest) ← whole (16 * (all.length + 2)) all
  if rest.isEmpty then return expression else .error .notEnded

/-- The value of the expression that a text spells, and the parameters after its
assignments. -/
def evaluate (values : Table String) (text : String) : Except Fault (Int × Table String) := do
  (← parse text).evaluate values

end Emend.Shell.Arithmetic

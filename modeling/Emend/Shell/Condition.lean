import Emend.Shell.Tool

/-!
# Conditions

The conditions of `test`: comparisons of texts and numbers and questions about files,
joined by `-a` and `-o`, of which the first binds tighter, negated by `!` and grouped
by parentheses. A word that looks like an operator is an operand where an operator
would make no sense. What the parts of a condition are is settled from left to
right, and all of them are looked at.
-/

set_option autoImplicit false

namespace Emend.Shell.Condition

/-- Why arguments are no condition. -/
inductive Fault where
  | missingOperand (operator : String)
  | noNumber (text : String)
  | notClosed
  /-- Something stands after the end. -/
  | notEnded (word : String)
  deriving DecidableEq, Repr, Inhabited

def Fault.message : Fault → String
  | missingOperand operator => operator ++ ": argument expected"
  | noNumber text => "Illegal number: " ++ text
  | notClosed => "closing paren expected"
  | notEnded word => word ++ ": unexpected operator"

/-- The operators before one operand. -/
def unaries : List String :=
  ["-n", "-z", "-e", "-f", "-d", "-r", "-w", "-x", "-s", "-L", "-h", "-p", "-S", "-b", "-c", "-t",
    "-u", "-g", "-k", "-O", "-G"]

/-- The operators between two operands. -/
def binaries : List String :=
  ["=", "!=", "<", ">", "-eq", "-ne", "-lt", "-le", "-gt", "-ge", "-nt", "-ot", "-ef"]

def unary (tree : FileTree) (operator operand : String) : Bool :=
  match operator with
  | "-n" => !operand.isEmpty
  | "-z" => operand.isEmpty
  | "-f" => tree.isFile operand
  | "-d" => tree.isDirectory operand
  | "-x" => tree.isDirectory operand
  | "-s" => tree.isDirectory operand || (tree.read operand).toOption.any (!·.isEmpty)
  | _ =>
    if ["-e", "-r", "-w", "-O", "-G"].contains operator then
      operand == Tool.nullFile || (tree.find operand).toBool
    else operator == "-c" && operand == Tool.nullFile

/-- A number for a comparison; blanks around it do not count. -/
def number (text : String) : Except Fault Int :=
  match Tool.integer? (Text.trim text) with
  | some n => .ok n
  | none => .error (.noNumber text)

/-- The answer of an operator between two operands. -/
def binary (tree : FileTree) (operator first second : String) : Except Fault Bool := do
  match operator with
  | "=" => return first == second
  | "!=" => return first != second
  | "<" => return decide (first < second)
  | ">" => return decide (second < first)
  | "-nt" => return (tree.find first).toBool && !(tree.find second).toBool
  | "-ot" => return !(tree.find first).toBool && (tree.find second).toBool
  | "-ef" =>
    return (tree.find first).toBool && (tree.follow first).toOption == (tree.follow second).toOption
  | _ =>
    let a ← number first
    let b ← number second
    return match operator with
      | "-eq" => a == b
      | "-ne" => a != b
      | "-lt" => decide (a < b)
      | "-le" => decide (a ≤ b)
      | "-gt" => decide (b < a)
      | _ => decide (b ≤ a)

/-- Whether the first of these words is an operator before an operand, and not an
operand itself. -/
def startsUnary : List String → Bool
  | operator :: operand :: rest =>
    unaries.contains operator && (rest.isEmpty || !binaries.contains operand)
  | _ => false

mutual

/-- Conditions joined by `-o`, and the words that are left. The first argument bounds
the steps. -/
def anyOf (tree : FileTree) : Nat → List String → Except Fault (Bool × List String)
  | 0, words => .ok (false, words)
  | fuel + 1, words => do
    let (first, rest) ← allOf tree fuel words
    match rest with
    | "-o" :: rest => do
      let (others, rest) ← anyOf tree fuel rest
      return (first || others, rest)
    | rest => return (first, rest)

/-- Conditions joined by `-a`. -/
def allOf (tree : FileTree) : Nat → List String → Except Fault (Bool × List String)
  | 0, words => .ok (false, words)
  | fuel + 1, words => do
    let (first, rest) ← one tree fuel words
    match rest with
    | "-a" :: rest => do
      let (others, rest) ← allOf tree fuel rest
      return (first && others, rest)
    | rest => return (first, rest)

def one (tree : FileTree) : Nat → List String → Except Fault (Bool × List String)
  | 0, words => .ok (false, words)
  | fuel + 1, words => do
    match words with
    | [] => return (false, [])
    | "!" :: rest =>
      if rest.isEmpty then return (true, [])
      else
        let (inner, rest) ← one tree fuel rest
        return (!inner, rest)
    | [word] => return (!word.isEmpty, [])
    | first :: next :: rest =>
      if first == "(" then
        let (inner, rest) ← anyOf tree fuel (next :: rest)
        match rest with
        | ")" :: rest => return (inner, rest)
        | _ => .error .notClosed
      else if startsUnary words then return (unary tree first next, rest)
      else if binaries.contains next then
        match rest with
        | second :: rest => return (← binary tree next first second, rest)
        | [] => .error (.missingOperand next)
      else return (!first.isEmpty, next :: rest)

end

def holds (tree : FileTree) (arguments : List String) : Except Fault Bool := do
  match arguments with
  | [first, operator, second] =>
    if binaries.contains operator then binary tree operator first second else whole
  | _ => whole
where
  whole : Except Fault Bool := do
    let (answer, rest) ← anyOf tree (4 * (arguments.length + 1)) arguments
    match rest with
    | [] => return answer
    | _ => .error (.notEnded (arguments.getD (arguments.length - rest.length - 1) ""))

end Emend.Shell.Condition

namespace Emend.Shell.Tool

/-- Succeed if the arguments are a condition that holds. -/
def conditional (name : String) (call : Call) : Outcome :=
  match Condition.holds call.tree call.arguments with
  | .ok true => .ofStatus call 0
  | .ok false => .ofStatus call 1
  | .error fault => .failed call 2 (name ++ ": " ++ fault.message)

/-- A condition whose last argument is a closing bracket, and the complaint if it is
not. -/
def bracket (complaint : String) (call : Call) : Outcome :=
  if call.arguments.getLast? == some "]" then
    conditional "[" { call with arguments := call.arguments.dropLast }
  else .failed call 2 ("[: " ++ complaint)

end Emend.Shell.Tool

import Emend.Shell.Arithmetic
import Emend.Shell.Tool

/-!
# Formats

What `echo` and `printf` print: texts with escapes, and formats whose conversions
take the arguments one after the other. A format is printed again as long as
arguments are left; where none is left, a conversion takes the empty text or zero.
-/

set_option autoImplicit false

namespace Emend.Shell.Tool

/-! ## Escapes -/

/-- Up to `count` octal digits as a number, and the rest. -/
def octal (count : Nat) (cs : List Char) : Option (Nat × List Char) :=
  let digits := (cs.take count).takeWhile fun c => '0' ≤ c && c ≤ '7'
  if digits.isEmpty then none
  else some (digits.foldl (fun n c => n * 8 + (c.toNat - '0'.toNat)) 0, cs.drop digits.length)

def letterEscape? : Char → Option Char
  | 'a' => some '\x07'
  | 'b' => some '\x08'
  | 'e' => some '\x1b'
  | 'f' => some '\x0c'
  | 'n' => some '\n'
  | 'r' => some '\r'
  | 't' => some '\t'
  | 'v' => some '\x0b'
  | '\\' => some '\\'
  | _ => none

def charBytes (c : Char) : List UInt8 := Text.bytes (.ofList [c])

/-- The bytes of a text with escapes, and whether `\c` ended the output. Octal escapes
start with a zero that does not count. The first argument bounds the number of
steps. -/
def escapedFrom : Nat → List Char → List UInt8 × Bool
  | 0, _ => ([], false)
  | _, [] => ([], false)
  | _, '\\' :: 'c' :: _ => ([], true)
  | fuel + 1, '\\' :: c :: rest =>
    let (bytes, rest) := match letterEscape? c, if c == '0' then octal 3 rest else none with
      | some char, _ => (charBytes char, rest)
      | none, some (n, rest) => ([n.toUInt8], rest)
      | none, none =>
        if c == '0' then ([0], rest) else (charBytes '\\' ++ charBytes c, rest)
    let (others, ended) := escapedFrom fuel rest
    (bytes ++ others, ended)
  | fuel + 1, c :: rest =>
    let (others, ended) := escapedFrom fuel rest
    (charBytes c ++ others, ended)

def escaped (text : String) : List UInt8 × Bool :=
  escapedFrom (text.length + 1) text.toList

/-! ## Fields -/

/-- How a conversion of a format fills its field. -/
structure Field where
  flags : List Char
  width : Nat
  /-- How much of a text is printed at most, or how many digits of a number at
  least. -/
  precision : Option Nat
  deriving DecidableEq, Repr, Inhabited

namespace Field

def ofWidth (width : Nat) : Field := ⟨[], width, none⟩

def fill (field : Field) (shown : List Char) : String :=
  let filling := List.replicate (field.width - shown.length) ' '
  .ofList (if field.flags.contains '-' then shown ++ filling else filling ++ shown)

def text (field : Field) (value : String) : String :=
  field.fill (match field.precision with
    | some n => value.toList.take n
    | none => value.toList)

def number (field : Field) (sign digits : List Char) : String :=
  let digits := match field.precision with
    | some n => List.replicate (n - digits.length) '0' ++ digits
    | none => digits
  let zeros := field.flags.contains '0' && !field.flags.contains '-' && field.precision.isNone
  if zeros then
    .ofList (sign ++ List.replicate (field.width - digits.length - sign.length) '0' ++ digits)
  else field.fill (sign ++ digits)

end Field

def formatNumber (cs : List Char) (arguments : List String) :
    Option Int × List Char × List String :=
  match cs with
  | '*' :: rest => (integer? (arguments.headD "0"), rest, arguments.drop 1)
  | cs =>
    let digits := cs.takeWhile Char.isDigit
    (integer? (.ofList digits), cs.drop digits.length, arguments)

/-- The field that a format describes after the percent sign, the rest, and the
arguments that are left. -/
def fieldOf (cs : List Char) (arguments : List String) : Field × List Char × List String :=
  let flags := cs.takeWhile fun c => "-+ 0#".toList.contains c
  let (width, cs, arguments) := formatNumber (cs.drop flags.length) arguments
  let (precision, cs, arguments) := match cs with
    | '.' :: cs =>
      let (n, cs, arguments) := formatNumber cs arguments
      (some (n.getD 0).toNat, cs, arguments)
    | cs => (none, cs, arguments)
  let width := width.getD 0
  (⟨if width < 0 then '-' :: flags else flags, width.natAbs, precision⟩, cs, arguments)

/-- The number that an argument spells, and the complaint if it spells none, or more
than that. -/
def numberOf (argument : String) : Int × Option String :=
  match argument.toList.dropWhile Text.isBlank with
  | [] => (0, if argument.isEmpty then none else some "expected numeric value")
  | '\'' :: c :: _ => (c.toNat, none)
  | '"' :: c :: _ => (c.toNat, none)
  | cs =>
    let (negative, cs) := match cs with
      | '-' :: cs => (true, cs)
      | '+' :: cs => (false, cs)
      | cs => (false, cs)
    let lengths := (List.range (cs.length + 1)).reverse
    match lengths.findSome? fun n => (Arithmetic.constant? (cs.take n)).map fun v => (v, n) with
    | none => (0, some "expected numeric value")
    | some (value, length) =>
      (if negative then -(value : Int) else value,
        if length == cs.length then none else some "not completely converted")

/-- The digits of a number to a base, in lower case. -/
def digitsOf (base : Nat) (n : Int) : List Char :=
  Nat.toDigits base (if n < 0 then (n % Int.ofNat (Nat.pow 2 64)).toNat else n.toNat)

/-! ## Fractions -/

/-- The number that a decimal with a fraction and an exponent spells, as a binary
number that is nearest to it: whether it is negative, a whole number, and the power of
two that it is multiplied by. -/
def binaryOf (text : String) : Bool × Nat × Int :=
  let (negative, cs) := match text.toList.dropWhile Text.isBlank with
    | '-' :: cs => (true, cs)
    | '+' :: cs => (false, cs)
    | cs => (false, cs)
  let whole := cs.takeWhile Char.isDigit
  let (fraction, cs) := match cs.drop whole.length with
    | '.' :: rest =>
      let digits := rest.takeWhile Char.isDigit
      (digits, rest.drop digits.length)
    | rest => ([], rest)
  let exponent : Int := match cs with
    | 'e' :: rest => (integer? (.ofList rest)).getD 0
    | 'E' :: rest => (integer? (.ofList rest)).getD 0
    | _ => 0
  let scale := exponent - fraction.length
  let digits := (String.ofList (whole ++ fraction)).toNat?.getD 0
  let bits := (Float.ofScientific digits (scale < 0) scale.natAbs).toBits.toNat
  let biased := bits / Nat.pow 2 52 % Nat.pow 2 11
  let mantissa := bits % Nat.pow 2 52
  if biased == 0 then (negative, mantissa, -1074)
  else (negative, mantissa + Nat.pow 2 52, Int.ofNat biased - 1075)

/-- A quotient, rounded to the nearest whole number; a half goes to the even one. -/
def roundedQuotient (numerator denominator : Nat) : Nat :=
  let floor := numerator / denominator
  let twice := 2 * (numerator % denominator)
  if twice < denominator || (twice == denominator && floor % 2 == 0) then floor else floor + 1

/-- A number times a power of ten, rounded to a whole number. -/
def scaled (mantissa : Nat) (power places : Int) : Nat :=
  roundedQuotient (mantissa * Nat.pow 2 power.toNat * Nat.pow 10 places.toNat)
    (Nat.pow 2 (-power).toNat * Nat.pow 10 (-places).toNat)

/-- Digits with a point before the last `places` of them. -/
def withPoint (digits : List Char) (places : Nat) : List Char :=
  let digits := List.replicate (places + 1 - digits.length) '0' ++ digits
  let whole := digits.take (digits.length - places)
  if places == 0 then whole else whole ++ '.' :: digits.drop whole.length

/-- The power of ten of a number's first digit when it is written with so many digits
after it. -/
def decimalExponent (mantissa : Nat) (power : Int) (places : Nat) : Int :=
  if mantissa == 0 then 0
  else
    let candidates := (List.range 700).map fun n => Int.ofNat n - 350
    (candidates.find? fun e =>
      decide (scaled mantissa power (places - e) < Nat.pow 10 (places + 1))).getD 0

def scientific (mantissa : Nat) (power : Int) (places : Nat) : List Char :=
  let exponent := decimalExponent mantissa power places
  let digits := Nat.toDigits 10 (scaled mantissa power (places - exponent))
  let shown := Nat.toDigits 10 exponent.natAbs
  let padding := List.replicate (2 - shown.length) '0'
  withPoint digits places ++ ['e', if exponent < 0 then '-' else '+'] ++ padding ++ shown

def withoutZeros (digits : List Char) : List Char :=
  if digits.contains '.' then Text.dropEndWhile (· == '.') (Text.dropEndWhile (· == '0') digits)
  else digits

def fractionDigits (conversion : Char) (precision : Option Nat) (mantissa : Nat) (power : Int) :
    List Char :=
  let places := precision.getD 6
  match conversion with
  | 'f' => withPoint (Nat.toDigits 10 (scaled mantissa power places)) places
  | 'e' => scientific mantissa power places
  | _ =>
    let digits := max places 1
    let exponent := decimalExponent mantissa power (digits - 1)
    if -4 ≤ exponent && exponent < digits then
      let places := ((digits : Int) - 1 - exponent).toNat
      withoutZeros (withPoint (Nat.toDigits 10 (scaled mantissa power places)) places)
    else
      let shown := scientific mantissa power (digits - 1)
      let front := shown.takeWhile (· != 'e')
      withoutZeros front ++ shown.drop front.length

/-! ## Conversions -/

/-- What a conversion prints of an argument, and its complaint about it; `none` if
there is no such conversion. The output ends there with the last result. -/
def convert? (field : Field) (conversion : Char) (argument : String) :
    Option (List UInt8 × Option String × Bool) :=
  let (n, complaint) := numberOf argument
  let sign := if n < 0 then ['-'] else if field.flags.contains '+' then ['+']
    else if field.flags.contains ' ' then [' '] else []
  let shown (sign digits : List Char) : Option (List UInt8 × Option String × Bool) :=
    some (Text.bytes (field.number sign digits), complaint, false)
  let hash (mark : String) : List Char :=
    if field.flags.contains '#' && n != 0 then mark.toList else []
  match conversion with
  | 's' => some (Text.bytes (field.text argument), none, false)
  | 'b' =>
    let (bytes, ended) := escaped argument
    some (bytes, none, ended)
  | 'c' => some (Text.bytes (field.fill (argument.toList.take 1)), none, false)
  | 'd' => shown sign (Nat.toDigits 10 n.natAbs)
  | 'i' => shown sign (Nat.toDigits 10 n.natAbs)
  | 'u' => shown [] (digitsOf 10 n)
  | 'o' => shown (hash "0") (digitsOf 8 n)
  | 'x' => shown (hash "0x") (digitsOf 16 n)
  | 'X' => shown (hash "0X") ((digitsOf 16 n).map Char.toUpper)
  | c =>
    if c == 'f' || c == 'e' || c == 'g' then
      let (negative, mantissa, power) := binaryOf argument
      let sign := if negative then ['-'] else if field.flags.contains '+' then ['+']
        else if field.flags.contains ' ' then [' '] else []
      let digits := fractionDigits c field.precision mantissa power
      some (Text.bytes ({ field with precision := none }.number sign digits), none, false)
    else none

structure Printed where
  bytes : List UInt8
  complaints : List String
  left : List String
  ended : Bool
  unknown : Option String

def formatOnce : Nat → List Char → List String → Printed
  | 0, _, arguments => ⟨[], [], arguments, false, none⟩
  | _, [], arguments => ⟨[], [], arguments, false, none⟩
  | fuel + 1, '%' :: '%' :: rest, arguments =>
    let others := formatOnce fuel rest arguments
    { others with bytes := charBytes '%' ++ others.bytes }
  | fuel + 1, '%' :: rest, arguments =>
    let (field, after, arguments) := fieldOf rest arguments
    let argument := arguments.headD ""
    match after.head?.bind (convert? field · argument) with
    | some (bytes, complaint, ended) =>
      let others := if ended then ⟨[], [], [], true, none⟩
        else formatOnce fuel (after.drop 1) (arguments.drop 1)
      { others with
        bytes := bytes ++ others.bytes
        complaints := complaint.toList.map (argument ++ ": " ++ ·) ++ others.complaints }
    | none =>
      ⟨[], [], arguments, true,
        some (.ofList ('%' :: rest.take (rest.length - after.length + 1)))⟩
  | fuel + 1, '\\' :: c :: rest, arguments =>
    if c == 'c' then ⟨[], [], [], true, none⟩
    else
      let (bytes, rest) := match letterEscape? c, octal 3 (c :: rest) with
        | some char, _ => (charBytes char, rest)
        | none, some (n, rest) => ([n.toUInt8], rest)
        | none, none => (charBytes '\\' ++ charBytes c, rest)
      let others := formatOnce fuel rest arguments
      { others with bytes := bytes ++ others.bytes }
  | fuel + 1, c :: rest, arguments =>
    let others := formatOnce fuel rest arguments
    { others with bytes := charBytes c ++ others.bytes }

/-- Print a format until no argument is left. The first argument bounds how
often. -/
def format : Nat → List Char → List String → Printed
  | 0, _, _ => ⟨[], [], [], false, none⟩
  | fuel + 1, pattern, arguments =>
    let first := formatOnce (pattern.length + 1) pattern arguments
    if first.ended || first.left.isEmpty || first.left.length == arguments.length then first
    else
      let others := format fuel pattern first.left
      { others with
        bytes := first.bytes ++ others.bytes
        complaints := first.complaints ++ others.complaints }

/-! ## The tools -/

/-- Print words as a line, with escapes if asked to; the line may be left open. -/
def printWords (call : Call) (isOpen withEscapes : Bool) (words : List String) : Outcome :=
  let text := " ".intercalate words
  let (bytes, ended) := if withEscapes then escaped text else (Text.bytes text, false)
  .ofBytes call (bytes ++ (if isOpen || ended then [] else [10]))

/-- Print the arguments with escapes; `-n` leaves the line open. -/
def echo (call : Call) : Outcome :=
  match call.arguments with
  | "-n" :: words => printWords call true true words
  | words => printWords call false true words

/-- Print the arguments; of the options `n` leaves the line open, `e` asks for escapes
and `E` for none. -/
def plainEcho (call : Call) : Outcome :=
  let isFlag (argument : String) : Bool :=
    isOption argument && argument.toList.tail.all fun c => c == 'n' || c == 'e' || c == 'E'
  let flags := call.arguments.takeWhile isFlag
  let withEscapes := ((letters flags).filter fun c => c != 'n').getLast? == some 'e'
  printWords call ((letters flags).contains 'n') withEscapes (call.arguments.drop flags.length)

/-- Print the arguments by a format. -/
def printf (call : Call) : Outcome :=
  match (options call.arguments).2 with
  | [] => .failed call 2 "printf: usage: printf format [arg ...]"
  | pattern :: arguments =>
    let printed := format (arguments.length + 1) pattern.toList arguments
    let outcome := printed.complaints.foldl (fun (outcome : Outcome) complaint =>
      outcome.complain 1 ("printf: " ++ complaint)) (Outcome.ofStatus call 0)
    let outcome := outcome.print printed.bytes
    match printed.unknown with
    | none => outcome
    | some conversion => outcome.complain 2 ("printf: " ++ conversion ++ ": invalid directive")

end Emend.Shell.Tool

import Emend.Source.Lexeme
import Mathlib.Data.List.Basic

/-!
# What ends a lexeme

A *break* is a character that no lexeme has but at its beginning: a gap, a parenthesis, a comma
or a slash. So how far a name, a number or a symbol goes is decided before the first break
(`tokenSize_append`), whatever comes after it.
-/

set_option autoImplicit false

namespace Emend.Lexeme

/-! ## What ends a token -/

/-- Characters that no token has but at its beginning. -/
def breaks : List Char :=
  ['\t', '\n', '\x0b', '\x0c', '\r', ' ', '\u00a0', '\u200b', '\u2060', '\ufeff', '(', ')', ',', '/']

def isBreak (c : Char) : Bool := breaks.contains c

/-- Whether a text is empty or begins with a break. -/
def Ended (cs : List Char) : Prop := ∀ c ∈ cs.head?, isBreak c = true

theorem isBreak_of_isGap {c : Char} (gap : isGap c = true) : isBreak c = true := by
  have known : c.toNat ∈ breaks.map Char.toNat := by
    simp only [isGap, isAsciiBlank, Bool.or_eq_true, Bool.and_eq_true, decide_eq_true_eq,
      beq_iff_eq] at gap
    have codes : c.toNat = 9 ∨ c.toNat = 10 ∨ c.toNat = 11 ∨ c.toNat = 12 ∨ c.toNat = 13 ∨
        c.toNat = 0x20 ∨ c.toNat = 0xA0 ∨ c.toNat = 0x200B ∨ c.toNat = 0x2060 ∨ c.toNat = 0xFEFF := by
      omega
    rcases codes with h | h | h | h | h | h | h | h | h | h <;> rw [h] <;> decide
  obtain ⟨d, listed, same⟩ := List.mem_map.1 known
  rw [isBreak, List.contains_iff_mem, ← Char.toNat_inj.1 same]
  exact listed

/-- The size of the longest symbol at the beginning of a text. -/
def symbolSize (cs : List Char) : Nat := ((symbolsAt cs).head?.map String.length).getD 0

/-- The size of the longest lexeme at the beginning of a text; a character that begins none
counts for itself. -/
def tokenSize (cs : List Char) : Nat :=
  max (max 1 (symbolSize cs)) (max (max (floatSize cs) (integerSize cs)) (nameSize cs))

/-- A size that is none in the empty text, and that a break ends. -/
structure Local (size : List Char → Nat) : Prop where
  nil : size [] = 0
  le : ∀ cs, size cs ≤ cs.length
  append : ∀ a r, (∀ c ∈ a, isBreak c = false) → Ended r → size (a ++ r) = size a

theorem Local.of_break {size : List Char → Nat} (here : Local size) {c : Char} {cs : List Char}
    (separates : isBreak c = true) : size (c :: cs) = 0 := by
  rw [← here.nil]
  exact here.append [] (c :: cs) (by simp) (by simpa [Ended] using separates)

theorem Local.cons {size : List Char → Nat} (here : Local size) (c : Char) {a r : List Char}
    (plain : ∀ c ∈ a, isBreak c = false) (ended : Ended r) :
    size (c :: a ++ r) = size (c :: a) := by
  cases separates : isBreak c with
  | true => rw [List.cons_append, here.of_break separates, here.of_break separates]
  | false => exact here.append _ r (by simpa [separates] using plain) ended

theorem Local.max {f g : List Char → Nat} (first : Local f) (second : Local g) :
    Local fun cs => Max.max (f cs) (g cs) where
  nil := by simp [first.nil, second.nil]
  le cs := Nat.max_le.2 ⟨first.le cs, second.le cs⟩
  append a r plain ended := by rw [first.append a r plain ended, second.append a r plain ended]

/-! ### Names -/

theorem takeWhile_append_of_ended {p : Char → Bool} (stops : ∀ c, isBreak c = true → p c = false)
    (a : List Char) {r : List Char} (ended : Ended r) : (a ++ r).takeWhile p = a.takeWhile p := by
  induction a with
  | nil =>
      cases r with
      | nil => rfl
      | cons c r => simp [stops c (ended c rfl)]
  | cons c a ih => simp only [List.cons_append, List.takeWhile_cons, ih]

theorem not_of_isBreak {p : Char → Bool} (avoids : breaks.all fun c => !p c) (c : Char)
    (separates : isBreak c = true) : p c = false := by
  rw [isBreak, List.contains_iff_mem] at separates
  simpa using List.all_eq_true.1 avoids c separates

theorem local_nameSize : Local nameSize where
  nil := rfl
  le cs := by
    cases cs with
    | nil => exact Nat.le_refl 0
    | cons c cs =>
        have := (List.takeWhile_sublist isNameChar (l := cs)).length_le
        rw [nameSize]
        split
        · simp
          omega
        · simp
  append a r plain ended := by
    cases a with
    | nil =>
        cases r with
        | nil => rfl
        | cons c r =>
            have noStart := not_of_isBreak (p := isNameStart) (by decide) c (ended c rfl)
            simp [nameSize, noStart]
    | cons c a =>
        have stops := not_of_isBreak (p := isNameChar) (by decide)
        rw [List.cons_append, nameSize, nameSize, takeWhile_append_of_ended stops a ended]

/-! ### Numbers -/

section

variable {p : Char → Bool}

theorem digitsSize_cons {c : Char} (other : c ≠ '_') (cs : List Char) :
    digitsSize p (c :: cs) = if p c then 1 + digitsSize p cs else 0 := by
  rw [digitsSize]
  exact fun _ _ same => absurd same other

theorem local_digitsSize (stops : ∀ c, isBreak c = true → p c = false) (under : p '_' = false) :
    Local (digitsSize p) where
  nil := rfl
  le cs := by
    fun_induction digitsSize p cs <;> simp_all <;> omega
  append a r plain ended := by
    have begins : digitsSize p r = 0 := by
      cases r with
      | nil => rfl
      | cons c r =>
          have separates := ended c rfl
          have other : c ≠ '_' := by
            rintro rfl
            contradiction
          rw [digitsSize_cons other, if_neg (by simp [stops c separates])]
    fun_induction digitsSize p a with
    | case1 => simpa using begins
    | case2 c cs digit ih =>
        rw [List.cons_append, List.cons_append, digitsSize, if_pos digit,
          ih fun d inside => plain d (by simp [inside])]
    | case3 c cs noDigit => rw [List.cons_append, List.cons_append, digitsSize, if_neg noDigit]
    | case4 c cs noPair digit ih =>
        have other : c ≠ '_' := by
          rintro rfl
          simp [under] at digit
        rw [List.cons_append, digitsSize_cons other, if_pos digit,
          ih fun d inside => plain d (by simp [inside])]
    | case5 c cs noPair noDigit =>
        by_cases underscore : c = '_'
        · subst underscore
          cases cs with
          | cons d cs => exact absurd rfl (noPair d cs rfl)
          | nil =>
              cases r with
              | nil => simp [digitsSize, under]
              | cons c r => simp [digitsSize, stops c (ended c rfl)]
        · rw [List.cons_append, digitsSize_cons underscore, if_neg noDigit]

theorem local_someDigitsSize (stops : ∀ c, isBreak c = true → p c = false) (under : p '_' = false) :
    Local (someDigitsSize p) where
  nil := rfl
  le cs := by
    cases cs with
    | nil => exact Nat.le_refl 0
    | cons c cs =>
        have := (local_digitsSize stops under).le cs
        rw [someDigitsSize, List.length_cons]
        split <;> omega
  append a r plain ended := by
    cases a with
    | nil =>
        cases r with
        | nil => rfl
        | cons c r => simp [someDigitsSize, stops c (ended c rfl)]
    | cons c a =>
        have rest := (local_digitsSize stops under).append a r (fun d inside => plain d (by simp [inside])) ended
        rw [List.cons_append, someDigitsSize, someDigitsSize, rest]

end

theorem local_decimal : Local (digitsSize isDigit) :=
  local_digitsSize (not_of_isBreak (by decide)) (by decide)

theorem local_someDecimal : Local (someDigitsSize isDigit) :=
  local_someDigitsSize (not_of_isBreak (by decide)) (by decide)

theorem local_hexadecimal : Local (someDigitsSize isHexDigit) :=
  local_someDigitsSize (not_of_isBreak (by decide)) (by decide)

theorem local_binary : Local (someDigitsSize isBinaryDigit) :=
  local_someDigitsSize (not_of_isBreak (by decide)) (by decide)

theorem local_octal : Local (digitsSize isOctalDigit) :=
  local_digitsSize (not_of_isBreak (by decide)) (by decide)

theorem local_integerSize : Local integerSize where
  nil := rfl
  le cs := by
    unfold integerSize
    split
    · rename_i cs
      cases cs with
      | nil => simp
      | cons x rest =>
          have := local_hexadecimal.le rest
          have := local_binary.le rest
          have := local_octal.le rest
          have := local_octal.le (x :: rest)
          simp only [List.length_cons, beq_iff_eq] at *
          repeat' split
          all_goals omega
    · exact local_someDecimal.le cs
  append a r plain ended := by
    cases a with
    | nil =>
        cases r with
        | nil => rfl
        | cons c r =>
            have other : c ≠ '0' := by
              rintro rfl
              exact absurd (ended '0' rfl) (by decide)
            rw [List.nil_append, integerSize, local_someDecimal.of_break (ended c rfl)]
            · rfl
            · exact fun _ same => other (List.cons.inj same).1
    | cons c a =>
        have plain' : ∀ c ∈ a, isBreak c = false := fun d inside => plain d (by simp [inside])
        by_cases zero : c = '0'
        · subst zero
          cases a with
          | nil =>
              cases r with
              | nil => rfl
              | cons b r =>
                  have letters := fun p avoids => not_of_isBreak (p := p) avoids b (ended b rfl)
                  have noX := letters (fun c => c.toLower == 'x') (by decide)
                  have noB := letters (fun c => c.toLower == 'b') (by decide)
                  have noO := letters (fun c => c.toLower == 'o') (by decide)
                  simp [integerSize, noX, noB, noO, local_octal.of_break (ended b rfl)]
          | cons x a =>
              have plain'' : ∀ c ∈ a, isBreak c = false := fun d inside => plain' d (by simp [inside])
              have octal := local_octal.append (x :: a) r plain' ended
              simp only [List.cons_append] at octal
              simp only [List.cons_append, integerSize, local_hexadecimal.append a r plain'' ended,
                local_binary.append a r plain'' ended, local_octal.append a r plain'' ended, octal]
        · have whole := local_someDecimal.append (c :: a) r plain ended
          rw [List.cons_append] at whole ⊢
          rw [integerSize, integerSize, whole]
          · exact fun _ same => zero (List.cons.inj same).1
          · exact fun _ same => zero (List.cons.inj same).1

def signSize : List Char → Nat
  | c :: _ => if c == '+' || c == '-' then 1 else 0
  | [] => 0

theorem local_signSize : Local signSize where
  nil := rfl
  le cs := by
    unfold signSize
    repeat' split
    all_goals simp
  append a r plain ended := by
    cases a with
    | cons c a => rfl
    | nil =>
        cases r with
        | nil => rfl
        | cons c r =>
            have unsigned := not_of_isBreak (p := fun c => c == '+' || c == '-') (by decide) c (ended c rfl)
            simp only [List.nil_append, signSize, unsigned]
            rfl

theorem exponentSize_cons (e : Char) (cs : List Char) :
    exponentSize (e :: cs) =
      if e.toLower == 'e' then
        if someDigitsSize isDigit (cs.drop (signSize cs)) == 0 then 0
        else 1 + signSize cs + someDigitsSize isDigit (cs.drop (signSize cs))
      else 0 := rfl

theorem Local.drop {size : List Char → Nat} (here : Local size) {a r : List Char}
    (plain : ∀ c ∈ a, isBreak c = false) (ended : Ended r) :
    (a ++ r).drop (size (a ++ r)) = a.drop (size a) ++ r := by
  rw [here.append a r plain ended, List.drop_append_of_le_length (here.le a)]

theorem plain_drop {a : List Char} (plain : ∀ c ∈ a, isBreak c = false) (n : Nat) :
    ∀ c ∈ a.drop n, isBreak c = false := fun c inside => plain c (List.mem_of_mem_drop inside)

theorem local_exponentSize : Local exponentSize where
  nil := rfl
  le cs := by
    cases cs with
    | nil => exact Nat.le_refl 0
    | cons e cs =>
        have sign := local_signSize.le cs
        have digits := local_someDecimal.le (cs.drop (signSize cs))
        rw [List.length_drop] at digits
        rw [exponentSize_cons, List.length_cons]
        repeat' split
        all_goals omega
  append a r plain ended := by
    cases a with
    | nil =>
        cases r with
        | nil => rfl
        | cons c r =>
            have other := not_of_isBreak (p := fun c => c.toLower == 'e') (by decide) c (ended c rfl)
            rw [List.nil_append, exponentSize_cons, other]
            rfl
    | cons e a =>
        have plain' : ∀ c ∈ a, isBreak c = false := fun d inside => plain d (by simp [inside])
        rw [List.cons_append, exponentSize_cons, exponentSize_cons, local_signSize.drop plain' ended,
          local_signSize.append a r plain' ended,
          local_someDecimal.append _ r (plain_drop plain' _) ended]

/-- The size of a decimal number from the digits before its point on. -/
def pointSize (whole : Nat) : List Char → Nat
  | '.' :: rest =>
    whole + 1 + digitsSize isDigit rest + exponentSize (rest.drop (digitsSize isDigit rest))
  | rest => if exponentSize rest == 0 then 0 else whole + exponentSize rest

theorem pointSize_of_ne {rest : List Char} (other : rest.head? ≠ some '.') (whole : Nat) :
    pointSize whole rest = if exponentSize rest == 0 then 0 else whole + exponentSize rest := by
  rw [pointSize]
  rintro rest rfl
  exact other rfl

theorem pointSize_append {a r : List Char} (plain : ∀ c ∈ a, isBreak c = false) (ended : Ended r)
    (whole : Nat) : pointSize whole (a ++ r) = pointSize whole a := by
  by_cases point : a.head? = some '.'
  · obtain ⟨rest, rfl⟩ : ∃ rest, a = '.' :: rest := by
      cases a with
      | nil => simp at point
      | cons c rest => exact ⟨rest, by simpa using point⟩
    have plain' : ∀ c ∈ rest, isBreak c = false := fun d inside => plain d (by simp [inside])
    rw [List.cons_append, pointSize, pointSize, local_decimal.drop plain' ended,
      local_decimal.append rest r plain' ended,
      local_exponentSize.append _ r (plain_drop plain' _) ended]
  · have other : (a ++ r).head? ≠ some '.' := by
      cases a with
      | cons c a => exact point
      | nil =>
          intro begins
          exact absurd (ended '.' begins) (by decide)
    rw [pointSize_of_ne other, pointSize_of_ne point, local_exponentSize.append a r plain ended]

theorem local_floatSize : Local floatSize where
  nil := rfl
  le cs := by
    have whole := local_decimal.le cs
    unfold floatSize
    dsimp only
    split
    · rename_i rest found
      have fraction := local_decimal.le rest
      have exponent := local_exponentSize.le (rest.drop (digitsSize isDigit rest))
      have size := congrArg List.length found
      rw [List.length_drop, List.length_cons] at size
      rw [List.length_drop] at exponent
      omega
    · have exponent := local_exponentSize.le (cs.drop (digitsSize isDigit cs))
      rw [List.length_drop] at exponent
      split <;> omega
  append a r plain ended := by
    have cut : ∀ cs, floatSize cs = pointSize (digitsSize isDigit cs) (cs.drop (digitsSize isDigit cs)) :=
      fun _ => rfl
    rw [cut, cut, local_decimal.drop plain ended, local_decimal.append a r plain ended,
      pointSize_append (plain_drop plain _) ended]

/-! ### Symbols -/

/-- No symbol has a break but at its beginning. -/
theorem isPrefixOf_symbol {s : String} (listed : s ∈ symbols) (c : Char) {a r : List Char}
    (ended : Ended r) : s.toList.isPrefixOf (c :: a ++ r) = s.toList.isPrefixOf (c :: a) := by
  have inner : (symbols.all fun s => s.toList.tail.all (!isBreak ·)) = true := by decide
  rw [Bool.eq_iff_iff, List.isPrefixOf_iff_prefix, List.isPrefixOf_iff_prefix]
  refine ⟨fun begins => ?_, fun begins => begins.trans (List.prefix_append ..)⟩
  by_cases short : s.toList.length ≤ (c :: a).length
  · exact List.prefix_of_prefix_length_le begins (List.prefix_append ..) short
  · -- A longer one would have the break that `r` begins with.
    obtain ⟨x, parts⟩ := List.prefix_of_prefix_length_le (List.prefix_append ..) begins (by omega)
    rw [← parts, List.prefix_append_right_inj] at begins
    obtain ⟨y, rfl⟩ := begins
    cases x with
    | nil => simp [← parts] at short
    | cons d x =>
        have separates : isBreak d = true := ended d rfl
        have plain := List.all_eq_true.1 (List.all_eq_true.1 inner s listed) d (by simp [← parts])
        rw [separates] at plain
        cases plain

theorem symbolSize_append (c : Char) {a r : List Char} (ended : Ended r) :
    symbolSize (c :: a ++ r) = symbolSize (c :: a) := by
  have same : symbolsAt (c :: a ++ r) = symbolsAt (c :: a) :=
    List.filter_congr fun s listed => isPrefixOf_symbol listed c ended
  rw [symbolSize, same, symbolSize]

theorem symbolSize_le (c : Char) (cs : List Char) : symbolSize (c :: cs) ≤ (c :: cs).length := by
  cases found : (symbolsAt (c :: cs)).head? with
  | none => simp [symbolSize, found]
  | some s =>
      have begins : s.toList <+: c :: cs := by
        have listed : s ∈ symbolsAt (c :: cs) := List.mem_of_head? found
        simpa using (List.mem_filter.1 listed).2
      rw [symbolSize, found, Option.map_some, Option.getD_some, ← String.length_toList]
      exact begins.length_le

/-- A token does not go on over a break. -/
theorem tokenSize_append (c : Char) {a r : List Char} (plain : ∀ d ∈ a, isBreak d = false)
    (ended : Ended r) : tokenSize (c :: a ++ r) = tokenSize (c :: a) := by
  have number := (local_floatSize.max local_integerSize).cons c plain ended
  rw [tokenSize, tokenSize, symbolSize_append c ended, number, local_nameSize.cons c plain ended]

theorem tokenSize_le (c : Char) (cs : List Char) : tokenSize (c :: cs) ≤ (c :: cs).length := by
  have symbol := symbolSize_le c cs
  have number := (local_floatSize.max local_integerSize).le (c :: cs)
  have name := local_nameSize.le (c :: cs)
  simp only [tokenSize, List.length_cons] at *
  omega

end Emend.Lexeme

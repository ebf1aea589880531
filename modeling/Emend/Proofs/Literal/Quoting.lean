import Emend.Proofs.Literal.Reader
import Emend.Source.Lexeme

/-!
# Quoted texts

A text is written between single quotes, with a backslash before every backslash and every quote
in it. The rule by which it is read takes a backslash before one of these two away and leaves any
other backslash where it is. So a text has several spellings: `'\n'` and `'\\n'` are both a
backslash and an `n`. Of them `string` writes the one in which no backslash stands for itself.

What is written is read back whatever stands behind it (`unquote?_string`), because one step of the
rule takes exactly what is written for one character (`closing?_spelled`). The other two places that
go through a quoted text follow the same rule: the lexer ends it at the same quote
(`exists_singleQuotedRest?`), and the scanner of literals makes a token of the text that is read
(`scan_of_closing?`).
-/

set_option autoImplicit false

namespace Emend.Literal

/-! ## The rule -/

def isEscaped (c : Char) : Bool := c == '\\' || c == '\''

/-- What is read behind an opening quote: the text before the closing quote, and what stands behind
that one. A backslash before a character that it does not escape is a part of the text. -/
def closing? : List Char → Option (List Char × List Char)
  | [] => none
  | '\'' :: rest => some ([], rest)
  | '\\' :: c :: cs => (closing? cs).map fun (text, rest) =>
    (if isEscaped c then c :: text else '\\' :: c :: text, rest)
  | c :: cs => (closing? cs).map fun (text, rest) => (c :: text, rest)

/-- The text that is quoted at the beginning, and what stands behind its closing quote. -/
def unquote? (written : String) : Option (String × String) :=
  match written.toList with
  | '\'' :: cs => (closing? cs).map fun (text, rest) => (.ofList text, .ofList rest)
  | _ => none

/-- What is written for a character between quotes. -/
def spelled (c : Char) : List Char := if isEscaped c then ['\\', c] else [c]

theorem isEscaped_eq_false_iff {c : Char} : isEscaped c = false ↔ c ≠ '\\' ∧ c ≠ '\'' := by
  simp [isEscaped]

theorem closing?_cons {c : Char} (plain : isEscaped c = false) (cs : List Char) :
    closing? (c :: cs) = (closing? cs).map fun (text, rest) => (c :: text, rest) := by
  obtain ⟨noBackslash, noQuote⟩ := isEscaped_eq_false_iff.1 plain
  rw [closing?]
  · intro quote
    exact noQuote quote
  · intro _ _ backslash
    exact absurd backslash noBackslash

/-- One step of the rule: it takes what is written for a character. -/
theorem closing?_spelled (c : Char) (cs : List Char) :
    closing? (spelled c ++ cs) = (closing? cs).map fun (text, rest) => (c :: text, rest) := by
  cases escaped : isEscaped c with
  | true => simp [spelled, closing?, escaped]
  | false => simp [spelled, closing?_cons, escaped]

theorem closing?_flatMap_spelled (text rest : List Char) :
    closing? (text.flatMap spelled ++ '\'' :: rest) = some (text, rest) := by
  induction text with
  | nil => rfl
  | cons c text ih =>
      rw [List.flatMap_cons, List.append_assoc, closing?_spelled, ih, Option.map_some]

/-! ## What is written -/

theorem toList_string (s : String) :
    (string s).toList = '\'' :: (s.toList.flatMap spelled ++ ['\'']) := by
  have each (c : Char) :
      (if c = '\\' then ['\\', '\\'] else if c = '\'' then ['\\', '\''] else [c]) = spelled c := by
    grind [spelled, isEscaped]
  rw [string, String.toList_ofList]
  simp only [each, List.cons_append]

theorem toList_string_append (s rest : String) :
    (string s ++ rest).toList = '\'' :: (s.toList.flatMap spelled ++ '\'' :: rest.toList) := by
  rw [String.toList_append, toList_string, List.cons_append, List.append_assoc]
  rfl

/-- A text can be spelled in two passes, the backslashes first: the second pass changes quotes only,
and the first one writes none. -/
theorem string_eq_replaceChar (s : String) :
    string s = "'" ++ Text.replaceChar '\'' "\\'" (Text.replaceChar '\\' "\\\\" s) ++ "'" := by
  have each (c : Char) :
      (if c = '\\' then "\\\\".toList else [c]).flatMap
        (fun d => if d = '\'' then "\\'".toList else [d]) = spelled c := by
    by_cases backslash : c = '\\'
    · subst backslash
      rfl
    · rw [if_neg backslash, List.flatMap_singleton]
      grind [spelled, isEscaped]
  apply String.toList_inj.1
  rw [toList_string]
  simp only [Text.replaceChar, String.toList_append, String.toList_ofList, List.flatMap_assoc, each]
  rfl

/-- The passes do not commute: the backslash of a quote would be escaped itself. -/
example : Text.replaceChar '\\' "\\\\" (Text.replaceChar '\'' "\\'" "'") = "\\\\'" := by decide

theorem unquote?_string (s rest : String) : unquote? (string s ++ rest) = some (s, rest) := by
  rw [unquote?, toList_string_append]
  simp only [closing?_flatMap_spelled, Option.map_some, String.ofList_toList]

/-- Two spellings of one text, of which the second is written. -/
example : unquote? "'\\n'" = some ("\\n", "") ∧ unquote? "'\\\\n'" = some ("\\n", "") := by decide

/-! ## The lexer and the scanner -/

/-- A text that is read ends where the lexeme ends. -/
theorem exists_singleQuotedRest? {cs text rest : List Char}
    (read : closing? cs = some (text, rest)) :
    ∃ size, Lexeme.singleQuotedRest? cs = some size ∧ cs.length = size + rest.length := by
  -- The lexer skips whatever follows a backslash; the rule takes the same two characters.
  fun_induction closing? cs generalizing text with
  | case1 => cases read
  | case2 behind =>
      cases read
      exact ⟨1, rfl, Nat.add_comm _ _⟩
  | case3 c cs ih =>
      obtain ⟨⟨inner, behind⟩, found, same⟩ := Option.map_eq_some_iff.1 read
      cases same
      obtain ⟨size, lexed, length⟩ := ih found
      refine ⟨size + 2, by rw [Lexeme.singleQuotedRest?, lexed, Option.map_some], ?_⟩
      simp only [List.length_cons]
      omega
  | case4 c cs noQuote noPair ih =>
      obtain ⟨⟨inner, behind⟩, found, same⟩ := Option.map_eq_some_iff.1 read
      cases same
      obtain ⟨size, lexed, length⟩ := ih found
      refine ⟨size + 1, ?_, ?_⟩
      · rw [Lexeme.singleQuotedRest?, lexed, Option.map_some]
        · exact noQuote
        · exact noPair
      · simp only [List.length_cons]
        omega

/-- The lexer takes what is written for a text, and nothing of what stands behind it. -/
theorem singleQuotedSize_string (s rest : String) :
    Lexeme.singleQuotedSize (string s ++ rest).toList = (string s).length := by
  have read := closing?_flatMap_spelled s.toList rest.toList
  obtain ⟨size, lexed, length⟩ := exists_singleQuotedRest? read
  have written : (string s).length = size + 1 := by
    rw [← String.length_toList, toList_string]
    simp only [List.length_append, List.length_cons, List.length_nil] at length ⊢
    omega
  rw [toList_string_append, Lexeme.singleQuotedSize, lexed, written]
  rfl

theorem scan_cons_of_step {mode next : Mode} {c : Char} (stepped : mode.step c = some (next, []))
    (cs : List Char) : scan mode (c :: cs) = scan next cs := by
  cases scanned : scan next cs <;> simp [scan, stepped, scanned]

/-- The scanner makes a token of a text that is read, and goes on behind its closing quote. -/
theorem scan_of_closing? {cs text rest : List Char} (found : closing? cs = some (text, rest))
    (read : List Char) :
    scan (.text read) cs = (scan .between rest).map fun (mode, tokens) =>
      (mode, .text (.ofList (read ++ text)) :: tokens) := by
  fun_induction closing? cs generalizing text read with
  | case1 => cases found
  | case2 behind =>
      cases found
      cases scanned : scan .between rest <;> simp [scan, Mode.step, scanned]
  | case3 c cs ih =>
      obtain ⟨⟨inner, behind⟩, found, same⟩ := Option.map_eq_some_iff.1 found
      cases same
      have first : (Mode.text read).step '\\' = some (.escaped read, []) := rfl
      rw [scan_cons_of_step first]
      cases escaped : isEscaped c with
      | true =>
          have second : (Mode.escaped read).step c = some (.text (read ++ [c]), []) := by
            rw [Mode.step, if_pos (by simpa [isEscaped] using escaped)]
          rw [scan_cons_of_step second, ih found, List.append_assoc]
          rfl
      | false =>
          have second : (Mode.escaped read).step c = some (.text (read ++ ['\\', c]), []) := by
            rw [Mode.step, if_neg (by simpa [isEscaped] using escaped)]
          rw [scan_cons_of_step second, ih found, List.append_assoc]
          rfl
  | case4 c cs noQuote noPair ih =>
      obtain ⟨⟨inner, behind⟩, found, same⟩ := Option.map_eq_some_iff.1 found
      cases same
      -- A backslash at the very end escapes nothing, but then there is no closing quote.
      have noBackslash : c ≠ '\\' := by
        intro backslash
        cases cs with
        | nil => cases found
        | cons d ds => exact noPair d ds backslash rfl
      have stepped : (Mode.text read).step c = some (.text (read ++ [c]), []) := by
        rw [Mode.step, if_neg noBackslash, if_neg noQuote]
      rw [scan_cons_of_step stepped, ih found, List.append_assoc]
      rfl

theorem scan_string (s rest : String) :
    scan .between (string s ++ rest).toList = (scan .between rest.toList).map fun (mode, tokens) =>
      (mode, .text s :: tokens) := by
  have opened : Mode.between.step '\'' = some (.text [], []) := rfl
  have read := closing?_flatMap_spelled s.toList rest.toList
  rw [toList_string_append, scan_cons_of_step opened, scan_of_closing? read, List.nil_append,
    String.ofList_toList]

/-! ## Texts in a row -/

/-- What is written for a text shows where it ends. -/
theorem string_append_inj {s t rest further : String} :
    string s ++ rest = string t ++ further ↔ s = t ∧ rest = further := by
  constructor
  · intro same
    have read := unquote?_string s rest
    rw [same, unquote?_string] at read
    cases read
    exact ⟨rfl, rfl⟩
  · rintro ⟨rfl, rfl⟩
    rfl

/-- A text is spelled by escaping its backslashes and then its quotes. Whatever stands behind it,
reading yields the text and ends with the last character that is written for it, where the lexer
ends too. Hence texts that are written alike are the same, also with something behind them, which
then is the same. -/
theorem string_self_delimiting (s rest : String) :
    string s = "'" ++ Text.replaceChar '\'' "\\'" (Text.replaceChar '\\' "\\\\" s) ++ "'" ∧
    unquote? (string s ++ rest) = some (s, rest) ∧
    Lexeme.singleQuotedSize (string s ++ rest).toList = (string s).length ∧
    (∀ t further, string s ++ rest = string t ++ further ↔ s = t ∧ rest = further) ∧
    ∀ t, string s = string t ↔ s = t := by
  refine ⟨string_eq_replaceChar s, unquote?_string s rest, singleQuotedSize_string s rest,
    fun t further => string_append_inj, ?_⟩
  intro t
  have alone : string s ++ "" = string t ++ "" ↔ s = t ∧ "" = "" := string_append_inj
  simpa only [String.append_empty, and_true] using alone

end Emend.Literal

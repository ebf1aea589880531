import Emend.Proofs.Text.Lines
import Emend.Proofs.Validator

/-!
# The lines that a checker speaks of

The copy of a text has the lines of the text, with those of the directive between them
(`split_ofText`). A checker counts the lines of the copy, and an error has to speak of the lines of
the text. One line is taken off below the place where the directive was put, so the count is right
exactly up to there, and below it if the directive is one line (`ownLine_copied_iff`). The place is
noted as a number of lines, which is too high for a text that has none.
-/

set_option autoImplicit false

namespace Emend

namespace Instrumented

/-- Where line `k` of a text stands in its copy: below the directive all lines of the directive
stand before it. Lines are counted from one. -/
def copiedTo (directive text : String) (k : Nat) : Nat :=
  if k ≤ splitIndex (Text.lines text) then k else k + (Text.split '\n' directive).length

/-- **The lines of a copy** are those of the text, and between them those of the directive. -/
theorem split_ofText (directive text : String) :
    Text.split '\n' (ofText (some directive) text).text =
      (Text.lines text).take (splitIndex (Text.lines text)) ++ Text.split '\n' directive ++
        (Text.lines text).drop (splitIndex (Text.lines text)) ++ [""] := by
  have kept : ∀ part : List String, part ⊆ Text.lines text →
      part.flatMap (Text.split '\n') = part := by
    intro part subset
    rw [List.flatMap_congr fun line inside =>
      Text.split_of_not_mem (Text.lineFeed_not_mem_lines (subset inside))]
    simp
  simp only [ofText]
  rw [Text.split_closed (by simp), List.flatMap_append, List.flatMap_append,
    kept _ (List.take_subset ..), kept _ (List.drop_subset ..)]
  simp

/-- A line of the text stands in the copy where it is expected. -/
theorem getElem?_copiedTo {directive text : String} {k : Nat} (first : 1 ≤ k)
    (last : k ≤ (Text.lines text).length) :
    (Text.split '\n' (ofText (some directive) text).text)[copiedTo directive text k - 1]? =
      (Text.lines text)[k - 1]? := by
  rw [split_ofText, copiedTo]
  generalize splitIndex (Text.lines text) = index
  generalize Text.split '\n' directive = between
  have above : ((Text.lines text).take index).length = min index (Text.lines text).length :=
    List.length_take
  split
  · rw [List.append_assoc, List.append_assoc, List.getElem?_append_left (by omega),
      List.getElem?_take_of_lt (by omega)]
  · have below : ((Text.lines text).drop index).length = (Text.lines text).length - index :=
      List.length_drop
    rw [List.getElem?_append_left (by simp only [List.length_append]; omega),
      List.getElem?_append_right (by simp only [List.length_append]; omega), List.getElem?_drop]
    congr 1
    simp only [List.length_append]
    omega

/-- **The line that is reported** for a line of the text is its own exactly if it stands above the
directive, or the directive is one line. -/
theorem ownLine_copied_iff (directive text : String) {k : Nat} (first : 1 ≤ k) :
    (ofText (some directive) text).ownLine (copiedTo directive text k) = k ↔
      k ≤ splitIndex (Text.lines text) ∨ '\n' ∉ directive.toList := by
  have lines := List.length_pos_iff.2 (Text.split_ne_nil directive)
  have single := @Text.length_split_eq_one_iff directive
  show (if splitIndex (Text.lines text) + 1 < copiedTo directive text k then _ else _) = k ↔ _
  rw [← single, copiedTo]
  by_cases above : k ≤ splitIndex (Text.lines text)
  · rw [if_pos above, if_neg (by omega)]
    simp [above]
  · rw [if_neg above, if_pos (by omega)]
    omega

/-- How many lines there are up to the first statement of this keyword ahead of all declarations. -/
def through? (keyword : String) (lines : List String) : Option Nat :=
  ((lines.takeWhile (!startsDeclaration ·)).findIdx? (opens keyword)).map (· + 1)

theorem splitIndex_eq (lines : List String) :
    splitIndex lines = (through? "namespace" lines <|> through? "declare" lines).getD 1 := rfl

theorem through?_le {keyword : String} {lines : List String} {count : Nat}
    (found : through? keyword lines = some count) : 1 ≤ count ∧ count ≤ lines.length := by
  obtain ⟨index, there, rfl⟩ := Option.map_eq_some_iff.1 found
  obtain ⟨inside, -⟩ := List.findIdx?_eq_some_iff_getElem.1 there
  have shorter := (List.takeWhile_sublist (l := lines) (!startsDeclaration ·)).length_le
  omega

/-- There are that many lines to stand before the directive, unless there is no line at all. -/
theorem splitIndex_le_iff {lines : List String} : splitIndex lines ≤ lines.length ↔ lines ≠ [] := by
  have within : splitIndex lines = 1 ∨ 1 ≤ splitIndex lines ∧ splitIndex lines ≤ lines.length := by
    rw [splitIndex_eq]
    cases found : through? "namespace" lines with
    | some count => exact Or.inr (through?_le found)
    | none =>
        cases found : through? "declare" lines with
        | some count => exact Or.inr (through?_le found)
        | none => exact Or.inl rfl
  rw [← List.length_pos_iff]
  omega

end Instrumented

namespace Validator

open Instrumented

theorem line_of_verdict {validator : Validator} {copy : Instrumented} {report : CheckReport}
    {path message output location : String} {line : Option Nat}
    (means : validator.verdict copy path report = some (.fatal message output location line)) :
    line = (reportedLine? (Text.trimStart report.output)).map copy.ownLine := by
  simp only [verdict] at means
  split at means
  · cases means
  · split at means
    · simp only [Option.some.injEq, Error.fatal.injEq] at means
      exact means.2.2.2.symm
    · cases means

/-- What a fatal error says of the line is what the checker said, counted in the text. -/
theorem line_of_validate {validator : Validator} {checker : Checker} {judge : Judge}
    {tree after : FileTree} {text message output path : String} {line : Option Nat}
    {report : CheckReport} (judges : checker.Judges judge (validator.copyOf text).text)
    (reports : judge (validator.copyOf text).text = .ok report)
    (ended : validator.validate checker tree text =
      (after, .error (.fatal message output path line))) :
    line = (reportedLine? (Text.trimStart report.output)).map (validator.copyOf text).ownLine := by
  obtain ⟨there, -, -, ⟨-, validated⟩ | ⟨error, refuses, validated⟩⟩ := validate_spec tree judges
  · rw [validated] at ended
    cases ended
  · rw [validated] at ended
    cases ended
    unfold Refuses at refuses
    split at refuses
    · cases refuses
    · rw [reports] at refuses
      simp only [judgement] at refuses
      split at refuses
      · rename_i error means
        cases refuses
        exact line_of_verdict means
      · cases refuses

/-- **Reported lines.** The copy of a text has the lines of the text with those of the directive
between them. The note of where the directive begins is right exactly for a text that is not empty.
A checker that speaks of a line of the copy which is line `k` of the text makes an error that speaks
of line `k` exactly if that line stands above the directive, or the directive is one line. -/
theorem reported_line_iff {validator : Validator} {directive : String}
    (bootstrap : validator.bootstrap = some directive) (text : String) :
    Text.split '\n' (validator.copyOf text).text =
        (Text.lines text).take (splitIndex (Text.lines text)) ++ Text.split '\n' directive ++
          (Text.lines text).drop (splitIndex (Text.lines text)) ++ [""] ∧
      ((validator.copyOf text).bootstrapLine =
          some (((Text.lines text).take (splitIndex (Text.lines text))).length + 1) ↔ text ≠ "") ∧
      ∀ (checker : Checker) (judge : Judge) (tree after : FileTree) (report : CheckReport)
        (message output path : String) (line : Option Nat) (n k : Nat),
        checker.Judges judge (validator.copyOf text).text →
        judge (validator.copyOf text).text = .ok report →
        validator.validate checker tree text = (after, .error (.fatal message output path line)) →
        reportedLine? (Text.trimStart report.output) = some n →
        1 ≤ k → k ≤ (Text.lines text).length → n = copiedTo directive text k →
        (Text.split '\n' (validator.copyOf text).text)[n - 1]? = (Text.lines text)[k - 1]? ∧
          (line = some k ↔ k ≤ splitIndex (Text.lines text) ∨ '\n' ∉ directive.toList) := by
  have copy : validator.copyOf text = ofText (some directive) text := by rw [copyOf, bootstrap]
  rw [copy]
  refine ⟨split_ofText directive text, ?_, ?_⟩
  · have noted : (ofText (some directive) text).bootstrapLine =
        some (splitIndex (Text.lines text) + 1) := rfl
    rw [noted, List.length_take, Ne, ← Text.lines_eq_nil_iff, ← Ne, ← splitIndex_le_iff]
    simp only [Option.some.injEq]
    omega
  · intro checker judge tree after report message output path line n k judges reports ended speaks
      first last copied
    rw [← copy] at judges reports
    have reported := line_of_validate judges reports ended
    rw [speaks, copied, copy] at reported
    rw [copied, reported]
    refine ⟨getElem?_copiedTo first last, ?_⟩
    rw [← ownLine_copied_iff directive text first, Option.map_some, Option.some.injEq]

namespace Example

def twoCalls : Validator := ⟨some "a();\nb();", "/tmp/scribe", ["PHP Parse error:"]⟩

/-- A class that is opened in the second line, and not closed. -/
def openClass : String := "<?php\nclass A \x7b\n"

/-- What a checker says of it, in the fourth line of the copy. -/
def unclosed : CheckReport := .ofExit (some 255) "PHP Parse error:  syntax error on line 4"

/-- The second line of the text is the fourth of the copy, and the error does not speak of the
second. -/
theorem reported_line_below_two :
    (Text.lines openClass).length = 2 ∧ copiedTo "a();\nb();" openClass 2 = 4 ∧
      reportedLine? (Text.trimStart unclosed.output) = some 4 ∧
      ∃ after message output path line,
        twoCalls.validate (fun tree _ => (tree, .ok unclosed)) (.empty []) openClass =
          (after, .error (.fatal message output path line)) ∧ line ≠ some 2 := by
  have two : (Text.lines openClass).length = 2 := by decide +kernel
  have fourth : copiedTo "a();\nb();" openClass 2 = 4 := by decide +kernel
  have speaks : reportedLine? (Text.trimStart unclosed.output) = some 4 := by decide +kernel
  obtain ⟨after, message, output, path, line, ended⟩ : ∃ after message output path line,
      twoCalls.validate (fun tree _ => (tree, .ok unclosed)) (.empty []) openClass =
        (after, .error (.fatal message output path line)) := ⟨_, _, _, _, _, rfl⟩
  refine ⟨two, fourth, speaks, after, message, output, path, line, ended, fun own => ?_⟩
  have lines := (reported_line_iff rfl openClass).2.2 _ (fun _ => .ok unclosed) (.empty []) after
    unclosed message output path line 4 2 (fun _ _ _ => rfl) rfl ended speaks (by omega)
    (by omega) fourth.symm
  exact absurd (lines.2.1 own) (by decide +kernel)

end Example

end Validator

end Emend

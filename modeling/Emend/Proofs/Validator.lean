import Emend.Proofs.Files.Tree
import Emend.Validator

/-!
# What validation asks and what it leaves

A checker counts as a judge of contents when it says the same of every file that holds
them and leaves all files alone (`Checker.Judges`). Such a checker is asked about the
copy of a text and about nothing else. Whatever it says, no file has come, gone or
changed afterwards, and what passes is the text itself, not the copy (`validate_spec`).
-/

set_option autoImplicit false

namespace Emend

/-- What is said of contents: a report, or why there is none. -/
abbrev Judge := String → Except CheckError CheckReport

/-- Of any file with these contents the checker says what the judge says, and it
changes no file. -/
def Checker.Judges (checker : Checker) (judge : Judge) (contents : String) : Prop :=
  ∀ (tree : FileTree) (path : String), tree.read path = .ok contents →
    checker tree path = (tree, judge contents)

namespace Validator

open FileTree (Extends SameFiles)

variable {validator : Validator} {checker : Checker} {judge : Judge} {tree after : FileTree}
  {text contents path : String}

def copyOf (validator : Validator) (text : String) : Instrumented :=
  .ofText validator.bootstrap text

/-- Whether a judge lets the copy of a text pass. -/
def accepts (validator : Validator) (judge : Judge) (text : String) : Bool :=
  match judge (validator.copyOf text).text with
  | .ok report => report.success
  | .error _ => false

/-- With the files as they are, this is the error that keeps a text back: its copy
cannot be put down, or the judge does not let it pass. -/
def Refuses (validator : Validator) (judge : Judge) (tree : FileTree) (text : String)
    (error : Error) : Prop :=
  match (validator.putCopy tree (validator.copyOf text).text).2 with
  | .error fault => error = .io validator.tempRoot fault
  | .ok path =>
    validator.judgement (validator.copyOf text) path (judge (validator.copyOf text).text) =
      .error error

theorem verdict_eq_none_iff (copy : Instrumented) (report : CheckReport) :
    validator.verdict copy path report = none ↔ report.success = true := by
  unfold verdict
  cases passed : report.success with
  | true => simp
  | false =>
      simp only [Bool.false_eq_true, if_false, iff_false]
      split <;> simp

/-- The two outcomes of a judgement. -/
theorem judgement_cases (text path : String) :
    (validator.judgement (validator.copyOf text) path
          (judge (validator.copyOf text).text) = .ok () ∧
        validator.accepts judge text = true) ∨
      ∃ error, validator.judgement (validator.copyOf text) path
        (judge (validator.copyOf text).text) = .error error := by
  unfold judgement accepts
  cases said : judge (validator.copyOf text).text with
  | error cause => exact Or.inr ⟨_, rfl⟩
  | ok report =>
      cases verdict : validator.verdict (validator.copyOf text) path report with
      | some error => exact Or.inr ⟨error, by simp [verdict]⟩
      | none =>
          refine Or.inl ⟨by simp [verdict], ?_⟩
          exact (verdict_eq_none_iff _ report).1 verdict

/-- Putting a copy down makes directories, and then one new file if it succeeds. -/
theorem putCopy_cases (validator : Validator) (tree : FileTree) (contents : String) :
    ∃ made, Extends tree made ∧ SameFiles tree made ∧
      ((∃ fault, validator.putCopy tree contents = (made, .error fault)) ∨
        ∃ after path, made.create path contents = .ok after ∧
          validator.putCopy tree contents = (after, .ok path)) := by
  unfold putCopy
  cases directories : tree.makeDirectories validator.tempRoot with
  | error fault => exact ⟨tree, .refl tree, .refl tree, Or.inl ⟨fault, rfl⟩⟩
  | ok made =>
      obtain ⟨extension, files⟩ := FileTree.makeDirectories_spec directories
      refine ⟨made, extension, files, ?_⟩
      cases rooted : made.absolute
          (if validator.tempRoot.isEmpty then "." else validator.tempRoot) with
      | error fault => exact Or.inl ⟨fault, by simp only [rooted, bind, Except.bind]⟩
      | ok root =>
          cases created : made.createFrom (fun n => Path.join root (copyName n)) contents 0
              copyTries with
          | error fault => exact Or.inl ⟨fault, by simp only [rooted, created, bind, Except.bind]⟩
          | ok result =>
              obtain ⟨after, path⟩ := result
              exact Or.inr ⟨after, path, FileTree.create_of_createFrom created,
                by simp only [rooted, created, bind, Except.bind]⟩

/-- **Validation** leaves every file as it was, and either gives back the text, whose
copy passed, or ends with the error that keeps it back. -/
theorem validate_spec (tree : FileTree)
    (judges : checker.Judges judge (validator.copyOf text).text) :
    ∃ after, Extends tree after ∧ SameFiles tree after ∧
      ((validator.accepts judge text = true ∧
          validator.validate checker tree text = (after, .ok text)) ∨
        ∃ error, validator.Refuses judge tree text error ∧
          validator.validate checker tree text = (after, .error error)) := by
  obtain ⟨made, extension, files, ⟨fault, put⟩ | ⟨copied, path, created, put⟩⟩ :=
    putCopy_cases validator tree (validator.copyOf text).text
  · refine ⟨made, extension, files, Or.inr ⟨.io validator.tempRoot fault, ?_, ?_⟩⟩
    · rw [Refuses, put]
    · rw [copyOf] at put
      rw [validate, put]
  · obtain ⟨held, after, removed, extendsAfter, filesAfter⟩ := FileTree.create_remove created
    refine ⟨after, extension.trans extendsAfter, files.trans filesAfter, ?_⟩
    have asked : checker copied path = (copied, judge (validator.copyOf text).text) :=
      judges copied path held
    have validated : validator.validate checker tree text =
        (after, (validator.judgement (validator.copyOf text) path
          (judge (validator.copyOf text).text)).map fun _ => text) := by
      rw [copyOf] at put asked
      rw [validate, put]
      simp only [asked, removed, Except.toOption, Option.getD_some, copyOf]
    rw [validated]
    obtain ⟨passed, accepted⟩ | ⟨error, refused⟩ := judgement_cases text path
    · exact Or.inl ⟨accepted, by rw [passed]; rfl⟩
    · refine Or.inr ⟨error, ?_, by rw [refused]; rfl⟩
      rw [Refuses, put]
      exact refused

end Validator

end Emend

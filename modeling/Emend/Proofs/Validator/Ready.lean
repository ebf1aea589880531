import Emend.Proofs.Files.Rerun
import Emend.Proofs.Validator

/-!
# Validating again

The first text that is validated finds the directory for copies or makes it; from then on the
tree is ready, and validating gives back the tree that it was given, whatever is said of the copy
(`validate_of_ready`). In a ready tree of the same shape a copy finds the same place, so a checker
that judges by the contents lets a text pass again that passed once (`validate_again`).
-/

set_option autoImplicit false

namespace Emend

open FileTree (Extends SameShape)

variable {checker : Checker} {judge : Judge} {tree after later : FileTree}
  {text contents path : String}

/-- The checker changes no file when it is asked about one with these contents. -/
def Checker.Spares (checker : Checker) (contents : String) : Prop :=
  ∀ (tree : FileTree) (path : String), tree.read path = .ok contents →
    (checker tree path).1 = tree

theorem Checker.Judges.spares (judges : checker.Judges judge contents) :
    checker.Spares contents := by
  intro tree path held
  rw [judges tree path held]

namespace Validator

variable {validator : Validator}

def Ready (validator : Validator) (tree : FileTree) : Prop :=
  tree.makeDirectories validator.tempRoot = .ok tree

/-- It is there once it was made, and stays as long as no directory is lost. -/
theorem ready_of_makeDirectories (made : tree.makeDirectories validator.tempRoot = .ok after)
    (extension : Extends after later) : validator.Ready later :=
  FileTree.makeDirectories_again made extension

/-- Validating goes on from the tree with the directory for copies. -/
theorem validate_of_makeDirectories
    (made : tree.makeDirectories validator.tempRoot = .ok after) (text : String) :
    validator.validate checker tree text = validator.validate checker after text := by
  have again : after.makeDirectories validator.tempRoot = .ok after :=
    ready_of_makeDirectories made (.refl after)
  have same : validator.putCopy tree = validator.putCopy after := by
    funext contents
    simp only [putCopy, made, again]
  simp only [validate, same]

/-- The directory that copies are put into, as a path from the root. -/
def copyRoot (validator : Validator) (tree : FileTree) : Except IoFault String :=
  tree.absolute (if validator.tempRoot.isEmpty then "." else validator.tempRoot)

theorem putCopy_eq_ok_iff (ready : validator.Ready tree) :
    validator.putCopy tree contents = (after, .ok path) ↔
      ∃ root, validator.copyRoot tree = .ok root ∧
        tree.createFrom (fun n => Path.join root (copyName n)) contents 0 copyTries =
          .ok (after, path) := by
  have made : tree.makeDirectories validator.tempRoot = .ok tree := ready
  unfold putCopy copyRoot
  simp only [made]
  cases tree.absolute (if validator.tempRoot.isEmpty then "." else validator.tempRoot) with
  | error fault => simp [bind, Except.bind]
  | ok root =>
      simp only [bind, Except.bind, Except.ok.injEq, exists_eq_left']
      cases tree.createFrom (fun n => Path.join root (copyName n)) contents 0 copyTries with
      | error fault => simp
      | ok result => simp [Prod.ext_iff]

theorem putCopy_error (ready : validator.Ready tree) {fault : IoFault}
    (put : validator.putCopy tree contents = (after, .error fault)) : after = tree := by
  have made : tree.makeDirectories validator.tempRoot = .ok tree := ready
  simp only [putCopy, made] at put
  split at put
  · cases put
    rfl
  · cases put

/-- A copy is read as it was put down, and the tree without it is the one before. -/
theorem read_and_remove_putCopy (ready : validator.Ready tree)
    (put : validator.putCopy tree contents = (after, .ok path)) :
    after.read path = .ok contents ∧ after.remove path = .ok tree := by
  obtain ⟨root, _, created⟩ := (putCopy_eq_ok_iff ready).1 put
  have new := FileTree.create_of_createFrom created
  exact ⟨(FileTree.create_remove new).1, FileTree.remove_create new⟩

/-- A copy finds the same place in a tree of the same shape. -/
theorem putCopy_of_sameShape (ready : validator.Ready tree) (same : SameShape tree later)
    (put : validator.putCopy tree contents = (after, .ok path)) :
    ∃ copied, validator.putCopy later contents = (copied, .ok path) := by
  obtain ⟨root, rooted, created⟩ := (putCopy_eq_ok_iff ready).1 put
  obtain ⟨copied, again⟩ := same.createFrom created
  have rootedLater : validator.copyRoot later = .ok root := by
    rw [copyRoot, same.absolute_eq, ← copyRoot, rooted]
  refine ⟨copied, (putCopy_eq_ok_iff ?_).2 ⟨root, rootedLater, again⟩⟩
  exact ready_of_makeDirectories ready same.extends

theorem validate_of_putCopy_error {fault : IoFault}
    (put : validator.putCopy tree (validator.copyOf text).text = (after, .error fault)) :
    validator.validate checker tree text = (after, .error (.io validator.tempRoot fault)) := by
  rw [copyOf] at put
  rw [validate, put]

theorem validate_of_putCopy
    (put : validator.putCopy tree (validator.copyOf text).text = (after, .ok path)) :
    validator.validate checker tree text =
      (((checker after path).1.remove path).toOption.getD (checker after path).1,
        (validator.judgement (validator.copyOf text) path (checker after path).2).map
          fun _ => text) := by
  rw [copyOf] at put
  rw [validate, put]
  rfl

/-- **Validation** in a tree with the directory for copies gives that tree back, whatever is
said of the copy. -/
theorem validate_of_ready (ready : validator.Ready tree)
    (spares : checker.Spares (validator.copyOf text).text) :
    ∃ outcome, validator.validate checker tree text = (tree, outcome) ∧
      ∀ given, outcome = .ok given → given = text := by
  cases put : validator.putCopy tree (validator.copyOf text).text with
  | mk copied result =>
      cases result with
      | error fault =>
          obtain rfl := putCopy_error ready put
          exact ⟨_, validate_of_putCopy_error put, by simp⟩
      | ok path =>
          obtain ⟨held, removed⟩ := read_and_remove_putCopy ready put
          rw [validate_of_putCopy put, spares copied path held, removed]
          refine ⟨_, rfl, ?_⟩
          cases validator.judgement (validator.copyOf text) path (checker copied path).2 with
          | error error => simp [Except.map]
          | ok done => simp [Except.map]

theorem judgement_of_accepts (accepted : validator.accepts judge text = true) (path : String) :
    validator.judgement (validator.copyOf text) path (judge (validator.copyOf text).text) =
      .ok () := by
  unfold accepts at accepted
  cases said : judge (validator.copyOf text).text with
  | error cause => simp [said] at accepted
  | ok report =>
      rw [said] at accepted
      simp only [judgement, (verdict_eq_none_iff _ report).2 accepted]

/-- Where a text passed it passes again, if the checker judges by the contents. -/
theorem validate_again (ready : validator.Ready tree) (same : SameShape tree later)
    (judges : checker.Judges judge (validator.copyOf text).text)
    (passed : validator.validate checker tree text = (after, .ok text)) :
    validator.validate checker later text = (later, .ok text) := by
  have accepted : validator.accepts judge text = true := by
    obtain ⟨_, _, _, ⟨accepted, _⟩ | ⟨error, _, refused⟩⟩ := validate_spec tree judges
    · exact accepted
    · rw [refused] at passed
      cases passed
  cases put : validator.putCopy tree (validator.copyOf text).text with
  | mk copied result =>
      cases result with
      | error fault =>
          rw [validate_of_putCopy_error put] at passed
          cases passed
      | ok path =>
          obtain ⟨again, putAgain⟩ := putCopy_of_sameShape ready same put
          have readyLater : validator.Ready later := ready_of_makeDirectories ready same.extends
          obtain ⟨held, removed⟩ := read_and_remove_putCopy readyLater putAgain
          rw [validate_of_putCopy putAgain, judges again path held, judgement_of_accepts accepted,
            removed]
          rfl

/-- A text that passes had a directory for its copy. -/
theorem makeDirectories_of_validate {given : String}
    (passed : validator.validate checker tree text = (after, .ok given)) :
    ∃ made, tree.makeDirectories validator.tempRoot = .ok made := by
  cases directories : tree.makeDirectories validator.tempRoot with
  | ok made => exact ⟨made, rfl⟩
  | error fault =>
      have put : validator.putCopy tree (validator.copyOf text).text = (tree, .error fault) := by
        simp only [putCopy, directories]
      rw [validate_of_putCopy_error put] at passed
      cases passed

end Validator

end Emend

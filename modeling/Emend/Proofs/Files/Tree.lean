import Emend.Files.Tree
import Emend.Proofs.Table

/-!
# What file operations leave alone

A tree is looked at place by place: `fileAt?` is the contents of the file at a place.
Paths are followed through directories only, so an operation that keeps the
directories (`Extends`) keeps where every path leads (`Extends.follow`). Writing to a
file changes that file and nothing else, and no other file comes or goes
(`write_of_read`, `sameShape_put`); a new file is read as it was written, and removing
it again gives back every node (`create_remove`).
-/

set_option autoImplicit false

namespace Emend

namespace FileTree

variable {tree before after : FileTree} {path contents : String} {place : Place}

def fileAt? (tree : FileTree) (place : Place) : Option String :=
  match tree.nodeAt? place with
  | some (.file contents) => some contents
  | _ => none

def SameFiles (before after : FileTree) : Prop :=
  ∀ place, after.fileAt? place = before.fileAt? place

/-- Every directory is still there, and relative paths start where they did. -/
structure Extends (before after : FileTree) : Prop where
  home : after.home = before.home
  directories : ∀ place, before.nodeAt? place = some .directory →
    after.nodeAt? place = some .directory

/-- Files and directories stand where they stood, whatever the files hold. -/
structure SameShape (before after : FileTree) : Prop where
  home : after.home = before.home
  directory : ∀ place,
    after.nodeAt? place = some .directory ↔ before.nodeAt? place = some .directory
  file : ∀ place, (after.fileAt? place).isSome = (before.fileAt? place).isSome

theorem SameFiles.refl (tree : FileTree) : SameFiles tree tree := fun _ => rfl

theorem SameFiles.trans {middle : FileTree} (first : SameFiles before middle)
    (second : SameFiles middle after) : SameFiles before after :=
  fun place => (second place).trans (first place)

theorem Extends.refl (tree : FileTree) : Extends tree tree := ⟨rfl, fun _ there => there⟩

theorem Extends.trans {middle : FileTree} (first : Extends before middle)
    (second : Extends middle after) : Extends before after :=
  ⟨second.home.trans first.home, fun place there =>
    second.directories place (first.directories place there)⟩

theorem SameShape.refl (tree : FileTree) : SameShape tree tree :=
  ⟨rfl, fun _ => Iff.rfl, fun _ => rfl⟩

theorem SameShape.trans {middle : FileTree} (first : SameShape before middle)
    (second : SameShape middle after) : SameShape before after :=
  ⟨second.home.trans first.home,
    fun place => (second.directory place).trans (first.directory place),
    fun place => (second.file place).trans (first.file place)⟩

theorem SameShape.symm (same : SameShape before after) : SameShape after before :=
  ⟨same.home.symm, fun place => (same.directory place).symm, fun place => (same.file place).symm⟩

theorem SameShape.extends (same : SameShape before after) : Extends before after :=
  ⟨same.home, fun place => (same.directory place).2⟩

theorem fileAt?_eq_some_iff :
    tree.fileAt? place = some contents ↔ tree.nodeAt? place = some (.file contents) := by
  unfold fileAt?
  split
  · rename_i found node
    simp [node]
  · rename_i noFile
    simp only [reduceCtorEq, false_iff]
    exact noFile contents

/-! ## Nodes -/

theorem nodeAt?_nil (tree : FileTree) : tree.nodeAt? [] = some .directory := rfl

theorem nodeAt?_of_ne_nil (nonempty : place ≠ []) :
    tree.nodeAt? place = tree.nodes.get? (Place.key place) := by
  rw [nodeAt?, if_neg]
  simpa using nonempty

/-- What stands at a place depends on its key, the root apart. -/
theorem nodeAt?_eq_of_key_eq {other : Place} (nonempty : place ≠ []) (nonempty' : other ≠ [])
    (same : Place.key place = Place.key other) : tree.nodeAt? place = tree.nodeAt? other := by
  rw [nodeAt?_of_ne_nil nonempty, nodeAt?_of_ne_nil nonempty', same]

theorem nodeAt?_put (node : FileNode) {other : Place} (nonempty : other ≠ []) :
    (tree.put place node).nodeAt? other =
      if Place.key other = Place.key place then some node else tree.nodeAt? other := by
  rw [nodeAt?_of_ne_nil nonempty, nodeAt?_of_ne_nil nonempty, put, Table.get?_insert]

/-- A file is written, and every other place holds what it held. -/
theorem fileAt?_put (tree : FileTree) (place other : Place) (contents : String) :
    (tree.put place (.file contents)).fileAt? other = some contents ∧
        Place.key other = Place.key place ∨
      (tree.put place (.file contents)).fileAt? other = tree.fileAt? other := by
  by_cases root : other = []
  · subst root
    exact Or.inr rfl
  · by_cases same : Place.key other = Place.key place
    · refine Or.inl ⟨?_, same⟩
      rw [fileAt?_eq_some_iff, nodeAt?_put _ root, if_pos same]
    · refine Or.inr ?_
      rw [fileAt?, nodeAt?_put _ root, if_neg same, ← fileAt?]

theorem nodeAt?_without {other : Place} (nonempty : other ≠ []) :
    (tree.without place).nodeAt? other =
      if Place.key other = Place.key place then none else tree.nodeAt? other := by
  rw [nodeAt?_of_ne_nil nonempty, nodeAt?_of_ne_nil nonempty]
  exact Table.get?_ofList_filter tree.nodes (Place.key place) (Place.key other)

section

variable (taken : tree.nodeAt? place ≠ some .directory)

include taken

theorem ne_nil_of_not_directory : place ≠ [] := by
  rintro rfl
  exact taken rfl

/-- Something new at a place that is no directory hides no directory. -/
theorem extends_put (node : FileNode) : Extends tree (tree.put place node) := by
  refine ⟨rfl, fun other there => ?_⟩
  by_cases root : other = []
  · rw [root, nodeAt?_nil]
  · rw [nodeAt?_put node root, if_neg]
    · exact there
    · intro same
      exact taken (nodeAt?_eq_of_key_eq (ne_nil_of_not_directory taken) root same.symm ▸ there)

theorem nodeAt?_put_self (node : FileNode) : (tree.put place node).nodeAt? place = some node := by
  rw [nodeAt?_put node (ne_nil_of_not_directory taken), if_pos rfl]

end

theorem sameFiles_put_directory (free : tree.nodeAt? place = none) :
    SameFiles tree (tree.put place .directory) := by
  intro other
  by_cases root : other = []
  · subst root
    rfl
  · have taken : tree.nodeAt? place ≠ some .directory := by simp [free]
    by_cases same : Place.key other = Place.key place
    · rw [fileAt?, fileAt?, nodeAt?_put _ root, if_pos same,
        nodeAt?_eq_of_key_eq root (ne_nil_of_not_directory taken) same, free]
    · rw [fileAt?, nodeAt?_put _ root, if_neg same, ← fileAt?]

theorem sameShape_put (held : tree.nodeAt? place = some (.file contents)) (text : String) :
    SameShape tree (tree.put place (.file text)) := by
  have taken : tree.nodeAt? place ≠ some .directory := by simp [held]
  have nodes : ∀ other, other ≠ [] → Place.key other = Place.key place →
      (tree.put place (.file text)).nodeAt? other = some (.file text) ∧
        tree.nodeAt? other = some (.file contents) := by
    intro other root same
    refine ⟨?_, ?_⟩
    · rw [nodeAt?_put _ root, if_pos same]
    · rw [nodeAt?_eq_of_key_eq root (ne_nil_of_not_directory taken) same, held]
  refine ⟨rfl, fun other => ?_, fun other => ?_⟩
  · by_cases root : other = []
    · rw [root, nodeAt?_nil, nodeAt?_nil]
    · by_cases same : Place.key other = Place.key place
      · rw [(nodes other root same).1, (nodes other root same).2]
        simp
      · rw [nodeAt?_put _ root, if_neg same]
  · by_cases root : other = []
    · subst root
      rfl
    · by_cases same : Place.key other = Place.key place
      · rw [fileAt?, fileAt?, (nodes other root same).1, (nodes other root same).2]
        rfl
      · rw [fileAt?, nodeAt?_put _ root, if_neg same, ← fileAt?]

/-! ## Paths -/

theorem Extends.step (extension : Extends before after) {name : String} {next : Place}
    (stepped : before.step place name = .ok next) : after.step place name = .ok next := by
  unfold FileTree.step at stepped ⊢
  split at stepped
  · cases stepped
  · cases stepped
  · rename_i directory
    rw [extension.directories place directory]
    exact stepped

theorem Extends.steps (extension : Extends before after) {names : List String} {start : Place}
    (followed : names.foldlM before.step start = .ok place) :
    names.foldlM after.step start = .ok place := by
  induction names generalizing start with
  | nil => exact followed
  | cons name names ih =>
      rw [List.foldlM_cons] at followed ⊢
      cases stepped : before.step start name with
      | error fault =>
          rw [stepped] at followed
          cases followed
      | ok next =>
          rw [stepped] at followed
          rw [extension.step stepped]
          exact ih followed

/-- **Where a path leads stays**, as long as no directory is lost. -/
theorem Extends.follow (extension : Extends before after)
    (led : before.follow path = .ok place) : after.follow path = .ok place := by
  unfold FileTree.follow at led ⊢
  split at led
  · cases led
  · rename_i named
    rw [if_neg named]
    split at led
    · cases led
    · rename_i short
      rw [if_neg short]
      have origin : after.origin path = before.origin path := by
        simp only [FileTree.origin, extension.home]
      rw [origin]
      exact extension.steps led

theorem SameShape.follow_iff (same : SameShape before after) :
    after.follow path = .ok place ↔ before.follow path = .ok place :=
  ⟨same.symm.extends.follow, same.extends.follow⟩

/-! ## Files -/

theorem find_eq_file_iff :
    tree.find path = .ok (.file contents) ↔
      ∃ place, tree.follow path = .ok place ∧ tree.nodeAt? place = some (.file contents) ∧
        Path.wantsDirectory path = false := by
  unfold find
  cases led : tree.follow path with
  | error fault => simp [bind, Except.bind]
  | ok place =>
      simp only [bind, Except.bind, Except.ok.injEq, exists_eq_left']
      cases node : tree.nodeAt? place with
      | none => simp
      | some found =>
          cases found with
          | directory => simp
          | file held =>
              cases wants : Path.wantsDirectory path with
              | false => simp
              | true => simp

theorem read_eq_ok_iff :
    tree.read path = .ok contents ↔
      ∃ place, tree.follow path = .ok place ∧ tree.nodeAt? place = some (.file contents) ∧
        Path.wantsDirectory path = false := by
  rw [← find_eq_file_iff]
  unfold read
  cases found : tree.find path with
  | error fault => simp [bind, Except.bind]
  | ok node =>
      cases node with
      | directory => simp [bind, Except.bind]
      | file held => simp [bind, Except.bind]

theorem isFile_iff : tree.isFile path = true ↔ ∃ contents, tree.read path = .ok contents := by
  simp only [read_eq_ok_iff, ← find_eq_file_iff]
  unfold isFile
  split
  · rename_i held found
    simp [found]
  · rename_i noFile
    simp only [Bool.false_eq_true, false_iff, not_exists]
    exact noFile

theorem SameShape.isFile_eq (same : SameShape before after) :
    after.isFile path = before.isFile path := by
  rw [Bool.eq_iff_iff, isFile_iff, isFile_iff]
  simp only [read_eq_ok_iff, ← fileAt?_eq_some_iff, same.follow_iff]
  have files : ∀ place, (∃ contents, after.fileAt? place = some contents) ↔
      ∃ contents, before.fileAt? place = some contents := by
    intro place
    rw [← Option.isSome_iff_exists, ← Option.isSome_iff_exists, same.file place]
  constructor
  · rintro ⟨contents, place, led, node, plain⟩
    obtain ⟨held, there⟩ := (files place).1 ⟨contents, node⟩
    exact ⟨held, place, led, there, plain⟩
  · rintro ⟨contents, place, led, node, plain⟩
    obtain ⟨held, there⟩ := (files place).2 ⟨contents, node⟩
    exact ⟨held, place, led, there, plain⟩

/-- What is at a path can be replaced. -/
theorem write_of_read (found : tree.read path = .ok contents) (text : String) :
    ∃ place, tree.follow path = .ok place ∧ tree.nodeAt? place = some (.file contents) ∧
      tree.write path text = .ok (tree.put place (.file text)) := by
  obtain ⟨place, led, node, plain⟩ := read_eq_ok_iff.1 found
  refine ⟨place, led, node, ?_⟩
  rw [write, led]
  simp [bind, Except.bind, node, plain]

theorem create_eq_ok_iff :
    tree.create path contents = .ok after ↔
      ∃ place, tree.follow path = .ok place ∧ tree.nodeAt? place = none ∧
        Path.wantsDirectory path = false ∧ after = tree.put place (.file contents) := by
  unfold create
  cases led : tree.follow path with
  | error fault => simp [bind, Except.bind]
  | ok place =>
      simp only [bind, Except.bind, Except.ok.injEq, exists_eq_left']
      cases node : tree.nodeAt? place with
      | some found => simp
      | none =>
          cases wants : Path.wantsDirectory path with
          | false => simp [eq_comm]
          | true => simp

/-- Of the paths that are tried the one that was free is given. -/
theorem create_of_createFrom {paths : Nat → String} {n tries : Nat} {made : FileTree}
    (created : tree.createFrom paths contents n tries = .ok (made, path)) :
    tree.create path contents = .ok made := by
  induction tries generalizing n with
  | zero => cases created
  | succ tries ih =>
      rw [createFrom] at created
      split at created
      · rename_i one
        cases created
        exact one
      · exact ih created
      · cases created

/-- **A new file** is read as it was written, and nothing is left of it when it is
removed. -/
theorem create_remove (created : tree.create path contents = .ok after) :
    after.read path = .ok contents ∧
      ∃ removed, after.remove path = .ok removed ∧ Extends tree removed ∧
        SameFiles tree removed := by
  obtain ⟨place, led, free, plain, rfl⟩ := create_eq_ok_iff.1 created
  have taken : tree.nodeAt? place ≠ some .directory := by simp [free]
  have led' := (extends_put taken (.file contents)).follow led
  have node := nodeAt?_put_self taken (.file contents)
  have found : (tree.put place (.file contents)).find path = .ok (.file contents) :=
    find_eq_file_iff.2 ⟨place, led', node, plain⟩
  have nodes : ∀ other,
      ((tree.put place (.file contents)).without place).nodeAt? other = tree.nodeAt? other := by
    intro other
    by_cases root : other = []
    · rw [root, nodeAt?_nil, nodeAt?_nil]
    · rw [nodeAt?_without root, nodeAt?_put _ root]
      split
      · rename_i same
        rw [nodeAt?_eq_of_key_eq root (ne_nil_of_not_directory taken) same, free]
      · rfl
  refine ⟨read_eq_ok_iff.2 ⟨place, led', node, plain⟩,
    (tree.put place (.file contents)).without place, ?_, ⟨rfl, ?_⟩, ?_⟩
  · rw [remove, led', found]
    rfl
  · exact fun other there => (nodes other).trans there
  · intro other
    rw [fileAt?, nodes other, ← fileAt?]

/-! ## Directories -/

theorem enter_spec {name : String} {next : FileTree × Place}
    (entered : enter (tree, place) name = .ok next) :
    Extends tree next.1 ∧ SameFiles tree next.1 := by
  unfold enter at entered
  cases stepped : tree.step place name with
  | error fault =>
      simp only [stepped, bind, Except.bind] at entered
      cases entered
  | ok there =>
      simp only [stepped, bind, Except.bind] at entered
      split at entered
      · cases entered
        exact ⟨.refl tree, .refl tree⟩
      · cases entered
      · rename_i free
        cases entered
        exact ⟨extends_put (by simp [free]) _, sameFiles_put_directory free⟩

theorem enterAll_spec {names : List String} {last : FileTree × Place}
    (entered : enterAll (tree, place) names = .ok last) :
    Extends tree last.1 ∧ SameFiles tree last.1 := by
  induction names generalizing tree place with
  | nil =>
      cases entered
      exact ⟨.refl tree, .refl tree⟩
  | cons name names ih =>
      rw [enterAll] at entered
      split at entered
      · cases entered
      · cases entered
      · rename_i next one
        obtain ⟨first, firstSame⟩ := enter_spec one
        obtain ⟨others, othersSame⟩ := ih entered
        exact ⟨first.trans others, firstSame.trans othersSame⟩

/-- Making directories makes no file and changes none. -/
theorem makeDirectories_spec (made : tree.makeDirectories path = .ok after) :
    Extends tree after ∧ SameFiles tree after := by
  unfold makeDirectories at made
  split at made
  · cases made
    exact ⟨.refl tree, .refl tree⟩
  · cases entered : enterAll (tree, tree.origin path) (Path.steps path) with
    | error fault =>
        rw [entered] at made
        cases made
    | ok last =>
        rw [entered] at made
        cases made
        exact enterAll_spec entered

end FileTree

end Emend

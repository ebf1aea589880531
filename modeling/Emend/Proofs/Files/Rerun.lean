import Emend.Proofs.Files.Tree

/-!
# Doing the same again

In a tree of the same shape a path leads to the same place, or fails for the same reason
(`SameShape.follow_eq`), so a new file finds the same free path there (`SameShape.createFrom`).
Directories that were made once need not be made again (`makeDirectories_again`), and a new file
that is removed leaves the very tree that it was made in (`remove_create`).
-/

set_option autoImplicit false

namespace Emend

namespace FileTree

variable {tree before after later : FileTree} {path contents : String} {place : Place}

/-! ## Trees of one shape -/

/-- The same kind of node stands at a place. -/
theorem SameShape.node_cases (same : SameShape before after) (place : Place) :
    (before.nodeAt? place = none ∧ after.nodeAt? place = none) ∨
      (before.nodeAt? place = some .directory ∧ after.nodeAt? place = some .directory) ∨
        ∃ held held', before.nodeAt? place = some (.file held) ∧
          after.nodeAt? place = some (.file held') := by
  have directory := same.directory place
  have file := same.file place
  unfold fileAt? at file
  cases first : before.nodeAt? place with
  | none =>
      cases second : after.nodeAt? place with
      | none => exact Or.inl ⟨rfl, rfl⟩
      | some node => cases node <;> simp_all
  | some node =>
      cases node with
      | directory => exact Or.inr (Or.inl ⟨rfl, directory.2 first⟩)
      | file held =>
          cases second : after.nodeAt? place with
          | none => simp_all
          | some node => cases node <;> simp_all

theorem SameShape.step_eq (same : SameShape before after) : after.step = before.step := by
  funext place name
  unfold FileTree.step
  obtain ⟨first, second⟩ | ⟨first, second⟩ | ⟨_, _, first, second⟩ := same.node_cases place
  · rw [first, second]
  · rw [first, second]
  · rw [first, second]

/-- A path leads to the same place, or fails for the same reason. -/
theorem SameShape.follow_eq (same : SameShape before after) (path : String) :
    after.follow path = before.follow path := by
  unfold FileTree.follow FileTree.origin
  rw [same.step_eq, same.home]

theorem SameShape.absolute_eq (same : SameShape before after) (path : String) :
    after.absolute path = before.absolute path := by
  rw [absolute, absolute, same.follow_eq]

/-- A path is as free as before. -/
theorem SameShape.create (same : SameShape before after) (path contents : String) :
    (after.create path contents).map (fun _ => ()) =
      (before.create path contents).map fun _ => () := by
  unfold FileTree.create
  rw [same.follow_eq]
  cases before.follow path with
  | error fault => rfl
  | ok place =>
      have node : (after.nodeAt? place).isSome = (before.nodeAt? place).isSome := by
        obtain ⟨first, second⟩ | ⟨first, second⟩ | ⟨_, _, first, second⟩ := same.node_cases place
        · rw [first, second]
        · rw [first, second]
        · rw [first, second]; rfl
      simp only [bind, Except.bind, node]
      split
      · rfl
      · split
        · rfl
        · rfl

/-- Of the paths that are tried the same one is free. -/
theorem SameShape.createFrom (same : SameShape before after) {paths : Nat → String}
    {n tries : Nat} {made : FileTree}
    (created : before.createFrom paths contents n tries = .ok (made, path)) :
    ∃ made', after.createFrom paths contents n tries = .ok (made', path) := by
  induction tries generalizing n with
  | zero => cases created
  | succ tries ih =>
      have once := same.create (paths n) contents
      rw [FileTree.createFrom] at created ⊢
      cases first : before.create (paths n) contents with
      | ok tree =>
          rw [first] at created once
          cases created
          cases second : after.create (paths n) contents with
          | ok tree' => exact ⟨tree', rfl⟩
          | error fault =>
              rw [second] at once
              cases once
      | error fault =>
          rw [first] at created once
          cases second : after.create (paths n) contents with
          | ok tree' =>
              rw [second] at once
              cases once
          | error fault' =>
              rw [second] at once
              cases once
              cases fault with
              | alreadyExists => exact ih created
              | _ => cases created

/-! ## Directories -/

theorem enter_directory {name : String} {next : FileTree × Place}
    (entered : enter (tree, place) name = .ok next) :
    tree.step place name = .ok next.2 ∧ next.1.nodeAt? next.2 = some .directory := by
  unfold enter at entered
  cases stepped : tree.step place name with
  | error fault =>
      simp only [stepped, bind, Except.bind] at entered
      cases entered
  | ok there =>
      simp only [stepped, bind, Except.bind] at entered
      split at entered
      · rename_i directory
        cases entered
        exact ⟨rfl, directory⟩
      · cases entered
      · rename_i free
        cases entered
        exact ⟨rfl, nodeAt?_put_self (by simp [free]) _⟩

/-- Where the directories on the way are there, none is made. -/
theorem enterAll_again {names : List String} {last : FileTree × Place}
    (entered : enterAll (tree, place) names = .ok last) (extension : Extends last.1 later) :
    enterAll (later, place) names = .ok (later, last.2) := by
  induction names generalizing tree place with
  | nil =>
      cases entered
      rfl
  | cons name names ih =>
      rw [enterAll] at entered
      split at entered
      · cases entered
      · cases entered
      · rename_i next one
        obtain ⟨stepped, directory⟩ := enter_directory one
        have kept : Extends next.1 later := (enterAll_spec entered).1.trans extension
        have once : enter (later, place) name = .ok (later, next.2) := by
          unfold enter
          simp only [((enter_spec one).1.trans kept).step stepped, bind, Except.bind,
            kept.directories _ directory]
        rw [enterAll, once]
        exact ih entered

/-- **Directories** that were made need not be made again. -/
theorem makeDirectories_again (made : tree.makeDirectories path = .ok after)
    (extension : Extends after later) : later.makeDirectories path = .ok later := by
  have home : later.home = tree.home :=
    extension.home.trans (makeDirectories_spec made).1.home
  unfold makeDirectories at made ⊢
  split at made
  · rename_i empty
    rw [if_pos empty]
  · rename_i nonempty
    rw [if_neg nonempty]
    cases entered : enterAll (tree, tree.origin path) (Path.steps path) with
    | error fault =>
        rw [entered] at made
        cases made
    | ok last =>
        rw [entered] at made
        cases made
        have origin : later.origin path = tree.origin path := by
          simp only [FileTree.origin, home]
        rw [origin, enterAll_again entered extension]
        rfl

/-! ## New files -/

/-- What was put where nothing stood can be taken away. -/
theorem without_put (absent : tree.nodes.get? (Place.key place) = none) (node : FileNode) :
    (tree.put place node).without place = tree := by
  obtain ⟨home, nodes⟩ := tree
  have free : Place.key place ∉ nodes.keys := by
    intro present
    obtain ⟨found, entry⟩ := Table.mem_keys.1 present
    exact absurd (Table.get?_eq_some_iff.2 entry) (by simp [absent])
  have own : ∀ entry ∈ nodes.entries, (entry.1 != Place.key place) = true := by
    intro entry mem
    have key : entry.1 ∈ nodes.keys := List.mem_map_of_mem mem
    rw [bne_iff_ne]
    intro same
    exact free (same ▸ key)
  have left : ((nodes.insert (Place.key place) node).entries.filter fun entry =>
      entry.1 != Place.key place) = nodes.entries := by
    rw [Table.entries_insert, upsert_of_not_mem free, List.filter_append,
      List.filter_eq_self.2 own]
    simp
  have same : Table.ofList ((nodes.insert (Place.key place) node).entries.filter fun entry =>
      entry.1 != Place.key place) = nodes := by
    rw [left]
    exact Table.ext (Table.entries_ofList nodes.nodup)
  exact congrArg (FileTree.mk home) same

/-- **A new file** that is removed leaves the tree that it was made in. -/
theorem remove_create (created : tree.create path contents = .ok after) :
    after.remove path = .ok tree := by
  obtain ⟨place, led, free, plain, rfl⟩ := create_eq_ok_iff.1 created
  have taken : tree.nodeAt? place ≠ some .directory := by simp [free]
  have led' := (extends_put taken (.file contents)).follow led
  have found : (tree.put place (.file contents)).find path = .ok (.file contents) :=
    find_eq_file_iff.2 ⟨place, led', nodeAt?_put_self taken _, plain⟩
  rw [nodeAt?_of_ne_nil (ne_nil_of_not_directory taken)] at free
  rw [remove, led', found]
  simp only [bind, Except.bind, without_put free]

end FileTree

end Emend

import Emend.Manifest.Project
import Emend.Proofs.Files.Tree

/-!
# Which file of a class a project manifest names

The rules of a project can find several files for one class, in one directory after
the other. Both loaders go through these files in the same order. `ofRules` writes
every one of them, so the last file of a class counts (`get?_ofList`); `ofProject`
starts from the class map and passes over every class that is known by then, so the
class map counts, and after it the first file (`get?_foldl_insertNew`).
`ofProject_over_ofRules` states both, and that the two agree on every class outside the
class map that is found at one path only.
-/

set_option autoImplicit false

namespace Emend.Manifest

variable {tree : FileTree} {root : String}

/-! ## Looking a class up -/

theorem get?_empty (name : String) : empty.get? name = none := rfl

theorem get?_insert (manifest : Manifest) (name path other : String) :
    (manifest.insert name path).get? other =
      if key other = key name then some path else manifest.get? other :=
  Table.get?_insert manifest.paths (key name) (key other) path

theorem get?_insertNew (manifest : Manifest) (name path other : String) :
    (manifest.insertNew name path).get? other =
      (manifest.get? other).or (if key other = key name then some path else none) := by
  unfold insertNew
  by_cases same : key other = key name
  · have together : manifest.get? other = manifest.get? name := by
      rw [get?, get?, same]
    rw [if_pos same, together]
    cases known : manifest.get? name with
    | some held => simp [contains, known, together]
    | none => simp [contains, known, get?_insert, same]
  · rw [if_neg same, Option.or_none]
    split
    · rfl
    · rw [get?_insert, if_neg same]

/-- The paths that were found for a class, in the order in which they were found. -/
def candidates (found : List (String × String)) (name : String) : List String :=
  (found.filter fun entry => key name = key entry.1).map Prod.snd

theorem candidates_cons (name path : String) (found : List (String × String)) (other : String) :
    candidates ((name, path) :: found) other =
      if key other = key name then path :: candidates found other else candidates found other := by
  by_cases same : key other = key name <;> simp [candidates, same]

/-- What is known stays, and the first path of an unknown class is taken. -/
theorem get?_foldl_insertNew (manifest : Manifest) (found : List (String × String))
    (name : String) :
    (found.foldl (fun manifest (name, path) => manifest.insertNew name path) manifest).get? name =
      (manifest.get? name).or (candidates found name).head? := by
  induction found generalizing manifest with
  | nil => simp [candidates]
  | cons entry found ih =>
      rw [List.foldl_cons, ih, get?_insertNew, candidates_cons, Option.or_assoc]
      by_cases same : key name = key entry.1
      · rw [if_pos same, if_pos same, List.head?_cons, Option.some_or]
      · rw [if_neg same, if_neg same, Option.none_or]

/-- The last path of a class is taken, in place of what was known. -/
theorem get?_foldl_insert (manifest : Manifest) (found : List (String × String)) (name : String) :
    (found.foldl (fun manifest (name, path) => manifest.insert name path) manifest).get? name =
      (candidates found name).getLast?.or (manifest.get? name) := by
  induction found generalizing manifest with
  | nil => simp [candidates]
  | cons entry found ih =>
      rw [List.foldl_cons, ih, get?_insert, candidates_cons]
      by_cases same : key name = key entry.1
      · rw [if_pos same, if_pos same, List.getLast?_cons]
        cases (candidates found name).getLast? <;> simp
      · rw [if_neg same, if_neg same]

theorem get?_ofList (found : List (String × String)) (name : String) :
    (ofList found).get? name = (candidates found name).getLast? := by
  rw [ofList, get?_foldl_insert, get?_empty, Option.or_none]

/-! ## The two loaders -/

/-- The class map of a project, without classes if the project has none. -/
def classMap (tree : FileTree) (root : String) : Manifest :=
  (readClassMap tree (Path.join root classMapPath)).toOption.getD empty

theorem readClassMap_eq (mapped : tree.isFile (Path.join root classMapPath) = true) :
    readClassMap tree (Path.join root classMapPath) = .ok (classMap tree root) := by
  obtain ⟨listing, held⟩ := FileTree.isFile_iff.1 mapped
  simp [classMap, readClassMap, held, Except.toOption]

theorem classMap_eq_empty (unmapped : tree.isFile (Path.join root classMapPath) = false) :
    classMap tree root = empty := by
  cases held : tree.read (Path.join root classMapPath) with
  | ok listing =>
      rw [FileTree.isFile_iff.2 ⟨listing, held⟩] at unmapped
      cases unmapped
  | error fault => simp [classMap, readClassMap, held, Except.toOption]

/-- The files that rules find, with the classes that they are for: rule after rule,
directory after directory. -/
def filesFound (tree : FileTree) (root : String) (rules : List (String × List String)) :
    List (String × String) :=
  rules.flatMap fun (start, directories) =>
    directories.flatMap fun directory => scan tree start (Path.join root directory)

section Described

variable {text : String} {rules : List (String × List String)}
  (read : tree.read (Path.join root descriptionPath) = .ok text)
  (described : (Json.parse? text).bind Autoload.ofDescription? = some rules)

include read described

theorem readRules_eq : readRules tree root = .ok (filesFound tree root rules) := by
  have there : tree.isFile (Path.join root descriptionPath) = true :=
    FileTree.isFile_iff.2 ⟨text, read⟩
  unfold readRules
  simp only [there, Bool.not_true, Bool.false_eq_true, if_false, read, described]
  rfl

theorem ofRules_eq : ofRules tree root = .ok (ofList (filesFound tree root rules)) := by
  rw [ofRules, readRules_eq read described]
  rfl

/-- A class map that is a file can be read, so a project with a description has a
manifest. -/
theorem ofProject_eq :
    ofProject tree root = .ok ((filesFound tree root rules).foldl
      (fun manifest (name, path) => manifest.insertNew name path) (classMap tree root)) := by
  have there : tree.isFile (Path.join root descriptionPath) = true :=
    FileTree.isFile_iff.2 ⟨text, read⟩
  have rulesRead := readRules_eq read described
  unfold ofProject
  cases mapped : tree.isFile (Path.join root classMapPath) with
  | true =>
      simp [there, mapped, readClassMap_eq mapped, rulesRead, bind, Except.bind, pure, Except.pure]
  | false =>
      simp [there, mapped, classMap_eq_empty mapped, rulesRead, bind, Except.bind, pure, Except.pure]

/-- **The class map, then the first file; the rules alone, the last file.** For a project
with a description both loaders give a manifest. The manifest of the rules names the last
file that they find for a class. The manifest of the project names what the class map
names, and else the first file; so it knows the classes that the class map or the rules
know, and it is the class map over the manifest of the rules for every class that the
rules find at one path only. -/
theorem ofProject_over_ofRules :
    ∃ project scanned, ofProject tree root = .ok project ∧ ofRules tree root = .ok scanned ∧
      ∀ name,
        project.get? name = ((classMap tree root).get? name).or
          (candidates (filesFound tree root rules) name).head? ∧
        scanned.get? name = (candidates (filesFound tree root rules) name).getLast? ∧
        project.contains name = ((classMap tree root).contains name || scanned.contains name) ∧
        ((candidates (filesFound tree root rules) name).Pairwise (· = ·) →
          project.get? name = ((classMap tree root).get? name).or (scanned.get? name)) := by
  refine ⟨_, _, ofProject_eq read described, ofRules_eq read described, fun name => ?_⟩
  simp only [contains, get?_foldl_insertNew, get?_ofList]
  generalize candidates (filesFound tree root rules) name = paths
  refine ⟨trivial, trivial, ?_, fun one => ?_⟩
  · cases paths with
    | nil => simp
    | cons path later => simp [List.getLast?_cons]
  · congr 1
    cases paths with
    | nil => rfl
    | cons path later =>
        have same : ∀ other ∈ later, path = other := (List.pairwise_cons.1 one).1
        rw [List.head?_cons, List.getLast?_cons]
        cases last : later.getLast? with
        | none => rfl
        | some other => simp [same other (List.mem_of_getLast? last)]

end Described

namespace Example

/-- The rules of a project: three directories for one beginning of names. -/
def description : String :=
  "\x7b\"autoload\":\x7b\"psr-4\":\x7b\"A\\\\\":[\"a\",\"b\",\"c\"]\x7d\x7d\x7d"

theorem description_rules :
    (Json.parse? description).bind Autoload.ofDescription? = some [("A\\", ["a", "b", "c"])] := by
  decide +kernel

/-- A project in which two directories hold a file for the class `X`, and the third holds
one for the class `Y`. -/
def threeDirectories (others : List (String × String)) : FileTree :=
  .ofEntries [] [] ([("p/composer.json", description), ("p/a/X.php", ""), ("p/b/X.php", ""),
    ("p/c/Y.php", "")] ++ others)

/-- A class map for the class `X`. -/
def mapForX : String × String :=
  ("p/vendor/composer/autoload_classmap.php", "'A\\\\X' => $baseDir . '/x.php'")

/-- With a class map for `X` it is found where the class map says, and `Y` where the rules
find it. -/
theorem ofProject_over_ofRules_mapped :
    ∃ project scanned,
      ofProject (threeDirectories [mapForX]) "p" = .ok project ∧
      ofRules (threeDirectories [mapForX]) "p" = .ok scanned ∧
      project.get? "A\\X" = some "p/x.php" ∧
      project.get? "A\\Y" =
        ((classMap (threeDirectories [mapForX]) "p").get? "A\\Y").or (scanned.get? "A\\Y") := by
  have read : (threeDirectories [mapForX]).read (Path.join "p" descriptionPath) =
      .ok description := by decide +kernel
  obtain ⟨project, scanned, made, ruled, reads⟩ := ofProject_over_ofRules read description_rules
  have mapped : (classMap (threeDirectories [mapForX]) "p").get? "A\\X" = some "p/x.php" := by
    decide +kernel
  refine ⟨project, scanned, made, ruled, ?_, (reads "A\\Y").2.2.2 (by decide +kernel)⟩
  rw [(reads "A\\X").1, mapped, Option.some_or]

/-- Without a class map the two loaders give different files for `X`. -/
theorem ofProject_ne_ofRules :
    ∃ project scanned,
      ofProject (threeDirectories []) "p" = .ok project ∧
      ofRules (threeDirectories []) "p" = .ok scanned ∧
      (threeDirectories []).isFile (Path.join "p" classMapPath) = false ∧
      project.get? "A\\X" = some "p/a/X.php" ∧ scanned.get? "A\\X" = some "p/b/X.php" := by
  have read : (threeDirectories []).read (Path.join "p" descriptionPath) = .ok description := by
    decide +kernel
  have unmapped : (threeDirectories []).isFile (Path.join "p" classMapPath) = false := by
    decide +kernel
  have found : candidates (filesFound (threeDirectories []) "p" [("A\\", ["a", "b", "c"])])
      "A\\X" = ["p/a/X.php", "p/b/X.php"] := by decide +kernel
  refine ⟨_, _, ofProject_eq read description_rules, ofRules_eq read description_rules, unmapped,
    ?_, ?_⟩
  · rw [get?_foldl_insertNew, classMap_eq_empty unmapped, found]
    rfl
  · rw [get?_ofList, found]
    rfl

end Example

end Emend.Manifest

import Emend.Proofs.Manifest.Project
import Emend.Proofs.Text

/-!
# Class maps are read back

A generated class map has one line for each class, in which the name of the class stands
between quotes with every backslash written twice. The reader does not know lines: it
searches the whole text for entries, from left to right. It finds every one of them and
nothing else, because

* between two entries, before the first and behind the last there is no quote
  (`findFrom_gap`), so that the search comes to the opening quote of the next name;
* in an escaped name every backslash takes another one with it, so that the name ends at
  the first quote (`quotedName_escape`), and the entry at the last (`afterQuote?_body`);
* a backslash for each pair gives the name back (`unescape_escape`).

`readClassMap_layout` states this for any number of classes. That a line feed may stand
in a name, and a backslash in a path, comes out of the proof.
-/

set_option autoImplicit false

namespace Emend

/-- A class and its file, as a class map lists them. -/
structure MappedClass where
  name : String
  base : MapBase
  path : String
  deriving DecidableEq

def MapBase.word : MapBase → String
  | vendor => "$vendorDir"
  | base => "$baseDir"

/-- The directory, for the class map at `path`: the one that holds the directory of the
class map, or the one that holds that. -/
def MapBase.directory (path : String) : MapBase → String
  | vendor => ((Path.parent? path).bind Path.parent?).getD ""
  | base => (Path.parent? (((Path.parent? path).bind Path.parent?).getD "")).getD ""

namespace MapEntry

/-- A text with every backslash written twice. -/
def escape (cs : List Char) : List Char :=
  cs.flatMap fun c => if c = '\\' then ['\\', '\\'] else [c]

end MapEntry

namespace MappedClass

def line (c : MappedClass) : String :=
  "    '" ++ .ofList (MapEntry.escape c.name.toList) ++ "' => " ++ c.base.word ++ " . '/" ++ c.path ++
    "',\n"

/-- A class map: a line for each class, with some text before and behind them. -/
def layout (opening : String) (classes : List MappedClass) (closing : String) : String :=
  opening ++ String.join (classes.map line) ++ closing

def located (mapPath : String) (c : MappedClass) : String × String :=
  (c.name, Path.join (c.base.directory mapPath) c.path)

/-- What can be listed: a name that holds something and no quote, and a relative path
without quotes. -/
@[mk_iff]
structure Listable (c : MappedClass) : Prop where
  named : c.name ≠ ""
  plainName : '\'' ∉ c.name.toList
  relative : Path.isAbsolute c.path = false
  plainPath : '\'' ∉ c.path.toList

instance (c : MappedClass) : Decidable c.Listable := decidable_of_iff' _ c.listable_iff

/-- What stands behind the opening quote of the name, up to the last quote. -/
def body (c : MappedClass) : List Char :=
  MapEntry.escape c.name.toList ++ '\'' :: ' ' :: ("=>".toList ++ ' ' :: (c.base.word.toList ++
    ' ' :: (".".toList ++ ' ' :: ("'".toList ++ ('/' :: c.path.toList ++ ['\''])))))

def written (c : MappedClass) : MapEntry :=
  ⟨.ofList (MapEntry.escape c.name.toList), c.base, "/" ++ c.path⟩

end MappedClass

namespace MapEntry

/-! ## Names between quotes -/

theorem escape_cons (c : Char) (cs : List Char) :
    escape (c :: cs) = (if c = '\\' then ['\\', '\\'] else [c]) ++ escape cs := by
  rw [escape, List.flatMap_cons, ← escape]

theorem escape_eq_nil_iff {cs : List Char} : escape cs = [] ↔ cs = [] := by
  cases cs with
  | nil => simp [escape]
  | cons c cs =>
      rw [escape_cons]
      split <;> simp

/-- **Of every pair of backslashes one is left.** -/
theorem unescape_escape (cs : List Char) : unescape (escape cs) = cs := by
  induction cs with
  | nil => rfl
  | cons c cs ih =>
      rw [escape_cons]
      by_cases backslash : c = '\\'
      · subst backslash
        show '\\' :: unescape (escape cs) = _
        rw [ih]
      · rw [if_neg backslash, List.singleton_append, unescape, ih]
        rintro rest rfl
        exact absurd rfl backslash

/-- Any other character stands for itself. -/
theorem quotedName_cons {c : Char} (noQuote : c ≠ '\'') (noBackslash : c ≠ '\\')
    (read rest : List Char) : quotedName read (c :: rest) = quotedName (c :: read) rest := by
  rw [quotedName]
  · exact noQuote
  · exact fun _ e _ => noBackslash e
  · exact fun _ _ e _ => noBackslash e
  · exact fun e _ => noBackslash e

/-- An escaped name ends at the first quote. -/
theorem quotedName_escape {name : List Char} (plain : '\'' ∉ name) (read rest : List Char) :
    quotedName read (escape name ++ '\'' :: rest) = some (read.reverse ++ escape name, rest) := by
  induction name generalizing read with
  | nil => simp [escape, quotedName]
  | cons c name ih =>
      have inside : '\'' ∉ name := fun listed => plain (List.mem_cons_of_mem c listed)
      have other : c ≠ '\'' := fun e => plain (e ▸ List.mem_cons_self)
      rw [escape_cons]
      by_cases backslash : c = '\\'
      · subst backslash
        show quotedName ('\\' :: '\\' :: read) (escape name ++ '\'' :: rest) = _
        rw [ih inside]
        simp
      · rw [if_neg backslash, List.singleton_append, List.cons_append,
          quotedName_cons other backslash, ih inside]
        simp

/-! ## One entry -/

/-- A word is found behind one blank. -/
theorem token?_space (expected : String) {c : Char} {cs : List Char}
    (spelled : expected.toList = c :: cs) (solid : Text.isBlank c = false) (rest : List Char) :
    token? expected (' ' :: (expected.toList ++ rest)) = some rest := by
  have stop : ¬ Text.isBlank c = true := by simp [solid]
  have skipped : (' ' :: (expected.toList ++ rest)).dropWhile Text.isBlank =
      expected.toList ++ rest := by
    rw [List.dropWhile_cons_of_pos (by decide), spelled, List.cons_append,
      List.dropWhile_cons_of_neg stop]
  rw [token?, skipped, Text.stripPrefix?_eq_some_iff]

theorem base?_word (start : MapBase) (rest : List Char) :
    base? (' ' :: (start.word.toList ++ rest)) = some (start, rest) := by
  cases start with
  | vendor =>
      have found : token? "$vendorDir" (' ' :: (MapBase.vendor.word.toList ++ rest)) = some rest :=
        token?_space "$vendorDir" rfl (by decide) rest
      rw [base?, found]
  | base =>
      have other : token? "$vendorDir" (' ' :: (MapBase.base.word.toList ++ rest)) = none := rfl
      have found : token? "$baseDir" (' ' :: (MapBase.base.word.toList ++ rest)) = some rest :=
        token?_space "$baseDir" rfl (by decide) rest
      rw [base?, other, found]
      rfl

/-- **Behind its opening quote an entry is read as it is written.** -/
theorem afterQuote?_body {c : MappedClass} (listable : c.Listable) (rest : List Char) :
    afterQuote? (c.body ++ rest) = some (c.written, rest) := by
  have named : (escape c.name.toList).isEmpty = false := by
    rw [Bool.eq_false_iff, ne_eq, List.isEmpty_iff, escape_eq_nil_iff, String.toList_eq_nil_iff]
    exact listable.named
  have pathRead : Text.splitFirst? '\'' ('/' :: c.path.toList ++ '\'' :: rest) =
      some ('/' :: c.path.toList, rest) := by
    rw [Text.splitFirst?_eq_some_iff]
    exact ⟨rfl, by simpa using listable.plainPath⟩
  unfold afterQuote? MappedClass.body
  simp only [List.append_assoc, List.cons_append, List.nil_append]
  rw [quotedName_escape listable.plainName]
  simp only [List.reverse_nil, List.nil_append, Option.bind_eq_bind, Option.bind_some, named]
  rw [token?_space "=>" rfl (by decide)]
  simp only [Option.bind_some, base?_word]
  rw [token?_space "." rfl (by decide)]
  simp only [Option.bind_some]
  rw [token?_space "'" rfl (by decide)]
  simp only [Option.bind_some]
  rw [← List.cons_append, pathRead]
  show some (_, rest) = some (c.written, rest)
  rw [MappedClass.written, String.ofList_cons, String.ofList_toList]
  rfl

/-! ## The whole text -/

/-- What holds no quote is passed over. -/
theorem findFrom_gap {gap : List Char} (plain : '\'' ∉ gap) {fuel : Nat}
    (enough : gap.length ≤ fuel) (rest : List Char) :
    findFrom fuel (gap ++ rest) = findFrom (fuel - gap.length) rest := by
  induction gap generalizing fuel with
  | nil => rfl
  | cons c gap ih =>
      obtain ⟨fuel, rfl⟩ : ∃ less, fuel = less + 1 := ⟨fuel - 1, by simp at enough; omega⟩
      have other : c ≠ '\'' := fun e => plain (e ▸ List.mem_cons_self)
      have inside : '\'' ∉ gap := fun listed => plain (List.mem_cons_of_mem c listed)
      rw [List.cons_append, findFrom, if_neg other, ih inside (by simpa using enough),
        List.length_cons, Nat.add_sub_add_right]

theorem findFrom_of_not_mem {cs : List Char} (plain : '\'' ∉ cs) {fuel : Nat}
    (enough : cs.length ≤ fuel) : findFrom fuel cs = [] := by
  have passed := findFrom_gap plain enough []
  rw [List.append_nil] at passed
  rw [passed]
  cases fuel - cs.length <;> rfl

/-- One entry behind a text without quotes: the search goes on behind it. -/
theorem findFrom_entry {gap : List Char} (plain : '\'' ∉ gap) {c : MappedClass}
    (listable : c.Listable) {fuel : Nat} (enough : gap.length < fuel) (rest : List Char) :
    findFrom fuel (gap ++ '\'' :: (c.body ++ rest)) =
      c.written :: findFrom (fuel - gap.length - 1) rest := by
  rw [findFrom_gap plain (Nat.le_of_lt enough)]
  obtain ⟨left, more⟩ : ∃ left, fuel - gap.length = left + 1 := ⟨fuel - gap.length - 1, by omega⟩
  rw [more, findFrom, if_pos rfl, afterQuote?_body listable, Nat.add_sub_cancel]

/-- **Every entry is found, and nothing else**: lines one after the other, with no quote
before them and behind them. -/
theorem findFrom_lines {classes : List MappedClass} (listable : ∀ c ∈ classes, c.Listable)
    {gap closing : List Char} (before : '\'' ∉ gap) (behind : '\'' ∉ closing) {fuel : Nat}
    (enough : (gap ++ (classes.flatMap fun c => c.line.toList) ++ closing).length ≤ fuel) :
    findFrom fuel (gap ++ (classes.flatMap fun c => c.line.toList) ++ closing) =
      classes.map MappedClass.written := by
  -- the text before an entry is whatever stands behind the entry before it
  induction classes generalizing gap fuel with
  | nil =>
      refine findFrom_of_not_mem ?_ enough
      simp [before, behind]
  | cons c classes ih =>
      obtain ⟨first, others⟩ := List.forall_mem_cons.1 listable
      have line : c.line.toList = "    ".toList ++ '\'' :: (c.body ++ ",\n".toList) := by
        simp [MappedClass.line, MappedClass.body]
      have text : gap ++ ((c :: classes).flatMap fun c => c.line.toList) ++ closing =
          (gap ++ "    ".toList) ++ '\'' :: (c.body ++
            (",\n".toList ++ (classes.flatMap fun c => c.line.toList) ++ closing)) := by
        rw [List.flatMap_cons, line]
        simp only [List.append_assoc, List.cons_append]
      rw [text] at enough ⊢
      have indented : '\'' ∉ gap ++ "    ".toList := by
        rw [List.mem_append, not_or]
        exact ⟨before, by decide⟩
      simp only [List.length_append, List.length_cons] at enough
      rw [findFrom_entry indented first (by simp only [List.length_append]; omega),
        ih others (by decide), List.map_cons]
      simp only [List.length_append]
      omega

end MapEntry

namespace MappedClass

theorem findAll_layout {opening closing : String} {classes : List MappedClass}
    (before : '\'' ∉ opening.toList) (behind : '\'' ∉ closing.toList)
    (listable : ∀ c ∈ classes, c.Listable) :
    MapEntry.findAll (layout opening classes closing) = classes.map written := by
  have text : (layout opening classes closing).toList =
      opening.toList ++ (classes.flatMap fun c => c.line.toList) ++ closing.toList := by
    rw [layout, String.toList_append, String.toList_append, String.toList_join, List.flatMap_map]
  rw [MapEntry.findAll, text]
  exact MapEntry.findFrom_lines listable before behind (Nat.le_refl _)

end MappedClass

namespace Manifest

/-- The separator before a relative path is the one that is dropped. -/
theorem dropStart_relative {path : String} (relative : Path.isAbsolute path = false) :
    Text.dropStart Path.separator ("/" ++ path) = path := by
  have first : ("/" ++ path).toList = Path.separator :: path.toList := by
    rw [String.toList_append]
    rfl
  rw [Text.dropStart, first, List.dropWhile_cons_of_pos (by decide)]
  cases spelled : path.toList with
  | nil => rw [List.dropWhile_nil, ← spelled, String.ofList_toList]
  | cons c cs =>
      rw [Path.isAbsolute, spelled] at relative
      have other : (c == Path.separator) = false := by simpa using relative
      rw [List.dropWhile_cons, other, ← spelled]
      exact String.ofList_toList

/-- **A class map is read back.** From a file with one line for each class, where no quote
stands before the lines and behind them, exactly the manifest of these classes is read:
every name with its file in the directory that its line names, and of two lines for one
class the later counts. -/
theorem readClassMap_layout {tree : FileTree} {mapPath opening closing : String}
    {classes : List MappedClass}
    (read : tree.read mapPath = .ok (MappedClass.layout opening classes closing))
    (before : '\'' ∉ opening.toList) (behind : '\'' ∉ closing.toList)
    (listable : ∀ c ∈ classes, c.Listable) :
    readClassMap tree mapPath = .ok (ofList (classes.map (MappedClass.located mapPath))) ∧
      ∀ name, (ofList (classes.map (MappedClass.located mapPath))).get? name =
        (candidates (classes.map (MappedClass.located mapPath)) name).getLast? := by
  refine ⟨?_, get?_ofList _⟩
  rw [readClassMap, read]
  show Except.ok (ofClassMap mapPath _) = _
  rw [ofClassMap, MappedClass.findAll_layout before behind listable, List.map_map]
  refine congrArg (fun entries => Except.ok (ofList entries)) ?_
  refine List.map_congr_left fun c listed => ?_
  have name : String.ofList (MapEntry.unescape c.written.name.toList) = c.name := by
    rw [MappedClass.written, String.toList_ofList, MapEntry.unescape_escape, String.ofList_toList]
  have path : Text.dropStart Path.separator c.written.path = c.path :=
    dropStart_relative (listable c listed).relative
  rw [Function.comp_apply]
  dsimp only
  rw [name, path, MappedClass.located]
  cases start : c.base <;> simp [MappedClass.written, start, MapBase.directory]

namespace Example

/-- The text that a package manager writes before the lines. -/
def opening : String :=
  "<?php\n\n// autoload_classmap.php @generated by Composer\n\n" ++
    "$vendorDir = dirname(__DIR__);\n$baseDir = dirname($vendorDir);\n\nreturn array(\n"

/-- A class in either directory, and the first one again in another spelling. -/
def mapped : List MappedClass :=
  [⟨"App\\Models\\User", .base, "app/Models/User.php"⟩,
    ⟨"Composer\\InstalledVersions", .vendor, "composer/InstalledVersions.php"⟩,
    ⟨"\\App\\Models\\User", .base, "src/User.php"⟩]

/-- The project in which this class map stands. -/
def mappedProject : FileTree :=
  .ofEntries [] [] [("p/vendor/composer/autoload_classmap.php",
    MappedClass.layout opening mapped ");\n")]

/-- The classes are found in the directories that the lines name, the repeated one where
its later line says. -/
theorem readClassMap_layout_mapped :
    (∀ c ∈ mapped, c.Listable) ∧
      ∃ manifest, readClassMap mappedProject "p/vendor/composer/autoload_classmap.php" =
          .ok manifest ∧
        manifest.get? "App\\Models\\User" = some "p/src/User.php" ∧
        manifest.get? "Composer\\InstalledVersions" =
          some "p/vendor/composer/InstalledVersions.php" := by
  have listable : ∀ c ∈ mapped, c.Listable := by decide +kernel
  have read : mappedProject.read "p/vendor/composer/autoload_classmap.php" =
      .ok (MappedClass.layout opening mapped ");\n") := by decide +kernel
  obtain ⟨made, last⟩ := readClassMap_layout read (by decide +kernel) (by decide +kernel) listable
  refine ⟨listable, _, made, ?_, ?_⟩
  all_goals
    rw [last]
    decide +kernel

end Example

end Manifest

end Emend

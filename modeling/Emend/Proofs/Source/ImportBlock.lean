import Emend.Proofs.Source.Assembly
import Emend.Proofs.Source.Sections
import Emend.Proofs.Text.Words

/-!
# Imports are read as they are printed

An import is printed as `use`, the word for its kind, its name, its alias if that is not the last
segment of the name, and a semicolon. Reading takes away the ends (`statementBody_importLine`) and
the word for the kind (`splitKind_importText`), and takes the rest word by word
(`read?_clauseText`), so a line is read as the import that it was printed for
(`imports_importLine`).

The lines of a namespace are in order of kind and name (`pairwise_listedImports`). Imports of one
kind are put into one table in the order of their lines, so they are listed in that order again, and
sorting leaves it alone, also where names are the same (`listedImports_again`).
-/

set_option autoImplicit false

namespace Emend

open Declaration (splitKind)

/-- A well-formed name without the marks that end a clause of an import or open a group. -/
structure Name.IsBare (name : String) : Prop where
  wellFormed : Name.WellFormed name
  marks : ∀ c ∈ name.toList, c ∉ [',', ';', '{']

instance (name : String) : Decidable (Name.IsBare name) :=
  decidable_of_iff
    (Name.WellFormed name ∧ (name.toList.all fun c => !([',', ';', '{'].contains c)) = true)
    ⟨fun ⟨wellFormed, marks⟩ => ⟨wellFormed, by simpa using marks⟩,
      fun bare => ⟨bare.wellFormed, by simpa using bare.marks⟩⟩

/-- Nothing in an import is taken for something else when it is written down: name and alias are
bare, and the name is no word for a kind. -/
structure Import.Writable (i : Import) : Prop where
  name : Name.IsBare i.name
  localName : Name.IsBare i.localName
  kindWord : Text.lower i.name ∉ ["function", "const"]

instance (i : Import) : Decidable i.Writable :=
  decidable_of_iff
    (Name.IsBare i.name ∧ Name.IsBare i.localName ∧ Text.lower i.name ∉ ["function", "const"])
    ⟨fun ⟨name, localName, kindWord⟩ => ⟨name, localName, kindWord⟩,
      fun i => ⟨i.name, i.localName, i.kindWord⟩⟩

/-- A character that an import can begin or end with. -/
abbrev Import.IsEdge (c : Char) : Prop := Text.isBlank c = false ∧ c ≠ ';'

namespace Name.IsBare

variable {name : String}

theorem isWord (bare : IsBare name) : Text.IsWord name :=
  ⟨bare.wellFormed.ne_empty, bare.wellFormed.no_blank⟩

theorem enclosed (bare : IsBare name) : Text.Enclosed Import.IsEdge name := by
  refine Text.enclosed_of_forall bare.isWord.ne_empty fun c inside => ?_
  exact ⟨bare.isWord.no_blank c inside, fun same => bare.marks c inside (by simp [same])⟩

end Name.IsBare

namespace Declaration

theorem splitKind_of_word {word : String} (plain : Text.IsWord word) (kind : ImportKind) :
    splitKind word kind = (kind, word) := by
  have empty : word.toList.dropWhile (!Text.isBlank ·) = [] := by
    rw [← List.append_nil word.toList, List.dropWhile_append_of_pos plain.not_isBlank,
      List.dropWhile_nil]
  rw [splitKind, empty]

theorem splitKind_append {word : String} (plain : Text.IsWord word) (rest : String)
    (kind : ImportKind) :
    splitKind (word ++ " " ++ rest) kind =
      if Text.sameIgnoringCase word "function" then (.function, Text.trim rest)
      else if Text.sameIgnoringCase word "const" then (.constant, Text.trim rest)
      else (kind, word ++ " " ++ rest) := by
  have text : (word ++ " " ++ rest).toList = word.toList ++ ' ' :: rest.toList := by simp
  have space : (!Text.isBlank ' ') = false := by decide
  have first : (word.toList ++ ' ' :: rest.toList).takeWhile (!Text.isBlank ·) = word.toList := by
    rw [List.takeWhile_append_of_pos plain.not_isBlank,
      List.takeWhile_cons_of_neg (by simp [space]), List.append_nil]
  have later : (word.toList ++ ' ' :: rest.toList).dropWhile (!Text.isBlank ·) =
      ' ' :: rest.toList := by
    rw [List.dropWhile_append_of_pos plain.not_isBlank,
      List.dropWhile_cons_of_neg (by simp [space])]
  rw [splitKind, text, first, later, String.ofList_toList]
  simp only [String.ofList_toList]

/-- What is left of a statement without `use`, the semicolon and the blanks around them. -/
def statementBody (text : String) : String :=
  let text := Text.trim text
  Text.trim (Text.dropEnd ';' (Text.trim ((Text.strip? "use" text).getD text)))

/-- A statement without a group has the clauses between its commas. -/
theorem importClauses_of_no_group {text clauses : String} {kind : ImportKind}
    (split : splitKind (statementBody text) .type = (kind, clauses))
    (group : Text.cut? '{' clauses = none) :
    importClauses text = (Text.split ',' clauses).map fun clause => ⟨kind, none, clause⟩ := by
  rw [statementBody] at split
  delta importClauses
  dsimp only
  rw [split]
  dsimp only
  rw [group]

end Declaration

namespace Printer

variable {i : Import}

/-! ## One line -/

/-- What an import line says of the import itself: the name, and the alias if there is one. -/
def clauseText (i : Import) : String :=
  if i.isAliased then i.name ++ " as " ++ i.localName else i.name

/-- What stands between `use` and the semicolon. -/
def importText (i : Import) : String :=
  (i.kind.keyword?.map (· ++ " ")).getD "" ++ clauseText i

theorem importLine_eq (i : Import) : importLine i = "use" ++ (" " ++ (importText i ++ ";")) := by
  apply String.toList_inj.1
  rw [importLine, importText, clauseText]
  split
  · simp
  · simp

section Writable

variable (writable : i.Writable)

include writable

theorem enclosed_clauseText : Text.Enclosed Import.IsEdge (clauseText i) := by
  rw [clauseText]
  split
  · exact writable.name.enclosed.append writable.localName.enclosed " as "
  · exact writable.name.enclosed

theorem enclosed_importText : Text.Enclosed Import.IsEdge (importText i) := by
  have clause := enclosed_clauseText writable
  rw [importText]
  cases i.kind with
  | type => simpa [ImportKind.keyword?] using clause
  | function =>
      have word : Text.Enclosed Import.IsEdge "function" := by decide
      exact word.append clause " "
  | constant =>
      have word : Text.Enclosed Import.IsEdge "const" := by decide
      exact word.append clause " "

theorem not_mem_clauseText {c : Char} (mark : c ∈ [',', '{']) : c ∉ (clauseText i).toList := by
  obtain ⟨ends, between⟩ : c ∈ [',', ';', '{'] ∧ c ∉ " as ".toList := by
    rcases List.mem_pair.1 mark with rfl | rfl
    · decide
    · decide
  have name : c ∉ i.name.toList := fun inside => writable.name.marks c inside ends
  have localName : c ∉ i.localName.toList := fun inside => writable.localName.marks c inside ends
  rw [clauseText]
  split
  · simp only [String.toList_append, List.mem_append, not_or]
    exact ⟨⟨name, between⟩, localName⟩
  · exact name

/-- The clause in words: the name, and `as` with the alias. -/
theorem words_clauseText :
    Text.words (clauseText i) = if i.isAliased then [i.name, "as", i.localName] else [i.name] := by
  have name := writable.name.isWord
  rw [clauseText]
  split
  · have text : i.name ++ " as " ++ i.localName =
        i.name ++ " " ++ ("as" ++ " " ++ i.localName) := by
      apply String.toList_inj.1
      simp
    rw [text, Text.words_append name, Text.words_append (by decide),
      Text.words_of_word writable.localName.isWord]
  · exact Text.words_of_word name

/-- The word for the kind is taken for nothing else, and a name is not taken for it. -/
theorem splitKind_importText : splitKind (importText i) .type = (i.kind, clauseText i) := by
  have clause := (enclosed_clauseText writable).imp fun _ => And.left
  rw [importText]
  cases kind : i.kind with
  | function =>
      show splitKind ("function" ++ " " ++ clauseText i) .type = _
      rw [Declaration.splitKind_append (by decide), if_pos (by decide), clause.trim_eq]
  | constant =>
      show splitKind ("const" ++ " " ++ clauseText i) .type = _
      rw [Declaration.splitKind_append (by decide), if_neg (by decide), if_pos (by decide),
        clause.trim_eq]
  | type =>
      show splitKind ("" ++ clauseText i) .type = _
      rw [String.empty_append, clauseText]
      have name := writable.name.isWord
      split
      · have text : i.name ++ " as " ++ i.localName = i.name ++ " " ++ ("as " ++ i.localName) := by
          apply String.toList_inj.1
          simp
        have other : ∀ word ∈ ["function", "const"], Text.sameIgnoringCase i.name word ≠ true := by
          intro word listed same
          have lower : ∀ word ∈ ["function", "const"], Text.lower word = word := by decide
          rw [Text.sameIgnoringCase_iff, lower word listed] at same
          exact writable.kindWord (same ▸ listed)
        rw [text, Declaration.splitKind_append name, if_neg (other "function" (by simp)),
          if_neg (other "const" (by simp))]
      · exact Declaration.splitKind_of_word name .type

theorem read?_clauseText :
    Declaration.ImportClause.read? ⟨i.kind, none, clauseText i⟩ = some i := by
  have word : Text.sameIgnoringCase "as" "as" = true := by decide
  have name := writable.name.wellFormed.normalize_eq
  have localName := writable.localName.wellFormed.trim_eq
  rw [Declaration.ImportClause.read?, words_clauseText writable]
  cases aliased : i.isAliased with
  | true => simp only [if_true, word, Import.aliased, name, localName]
  | false =>
      have short : Name.short i.name = i.localName := by simpa [Import.isAliased] using aliased
      simp only [Bool.false_eq_true, if_false, Import.aliased, name, short, localName]

theorem statementBody_importLine : Declaration.statementBody (importLine i) = importText i := by
  have inner := enclosed_importText writable
  have plain : Text.Enclosed (Text.isBlank · = false) (importText i) := inner.imp fun _ => And.left
  have use : Text.Enclosed (Text.isBlank · = false) "use" := by decide
  have semicolon : Text.Enclosed (Text.isBlank · = false) ";" := by decide
  have closed : Text.Enclosed (Text.isBlank · = false) (importText i ++ ";") := by
    simpa using plain.append semicolon ""
  have whole : Text.Enclosed (Text.isBlank · = false) (importLine i) := by
    have between := use.append semicolon (" " ++ importText i)
    rwa [String.append_assoc, String.append_assoc, ← importLine_eq] at between
  have stripped : Text.strip? "use" (importLine i) = some (" " ++ (importText i ++ ";")) :=
    Text.strip?_eq_some_iff.2 (importLine_eq i)
  have dropped : Text.dropEnd ';' (importText i ++ ";") = importText i :=
    (inner.imp fun _ => And.right).dropEnd_eq
  rw [Declaration.statementBody, whole.trim_eq, stripped, Option.getD_some, closed.trim_space,
    dropped, plain.trim_eq]

/-- **An import line** is read as the import that it was printed for. -/
theorem imports_importLine : Declaration.imports (importLine i) = [i] := by
  have split : splitKind (Declaration.statementBody (importLine i)) .type =
      (i.kind, clauseText i) := by
    rw [statementBody_importLine writable, splitKind_importText writable]
  have group : Text.cut? '{' (clauseText i) = none :=
    Text.cut?_eq_none_iff.2 (not_mem_clauseText writable (by simp))
  have single : Text.split ',' (clauseText i) = [clauseText i] := by
    rw [Text.split, Text.splitChars_of_not_mem (not_mem_clauseText writable (by simp)),
      List.map_singleton, String.ofList_toList]
  rw [Declaration.imports, Declaration.importClauses_of_no_group split group, single,
    List.map_singleton, List.filterMap_cons, read?_clauseText writable]
  rfl

end Writable

/-! ## The order of the lines -/

theorem rank_inj {a b : ImportKind} : a.rank = b.rank ↔ a = b := by
  cases a <;> cases b <;> decide

theorem importsInOrder_iff {a b : Import} :
    importsInOrder a b = true ↔ a.kind.rank < b.kind.rank ∨
      a.kind = b.kind ∧ Text.lower a.name ≤ Text.lower b.name := by
  rw [importsInOrder]
  by_cases same : a.kind = b.kind
  · simp [same]
  · have apart : a.kind.rank ≠ b.kind.rank := fun ranks => same (rank_inj.1 ranks)
    simp only [beq_iff_eq, same, if_false, decide_eq_true_eq, false_and, or_false]
    omega

theorem importsInOrder_total (a b : Import) :
    importsInOrder a b = true ∨ importsInOrder b a = true := by
  rw [importsInOrder_iff, importsInOrder_iff]
  rcases Nat.lt_trichotomy a.kind.rank b.kind.rank with less | same | more
  · exact Or.inl (Or.inl less)
  · rcases String.le_total (Text.lower a.name) (Text.lower b.name) with le | le
    · exact Or.inl (Or.inr ⟨rank_inj.1 same, le⟩)
    · exact Or.inr (Or.inr ⟨(rank_inj.1 same).symm, le⟩)
  · exact Or.inr (Or.inl more)

theorem importsInOrder_trans (a b c : Import) (first : importsInOrder a b = true)
    (second : importsInOrder b c = true) : importsInOrder a c = true := by
  rw [importsInOrder_iff] at first second ⊢
  rcases first with less | ⟨same, le⟩
  · rcases second with less' | ⟨same', -⟩
    · exact Or.inl (less.trans less')
    · exact Or.inl (same' ▸ less)
  · rcases second with less' | ⟨same', le'⟩
    · exact Or.inl (same ▸ less')
    · exact Or.inr ⟨same.trans same', String.le_trans le le'⟩

/-- Imports in order are those of types, then those of functions, then those of constants. -/
theorem filter_kinds_of_pairwise {imports : List Import}
    (sorted : imports.Pairwise (importsInOrder · · = true)) :
    imports.filter (·.kind == .type) ++ imports.filter (·.kind == .function) ++
      imports.filter (·.kind == .constant) = imports := by
  induction imports with
  | nil => rfl
  | cons i imports ih =>
      obtain ⟨first, rest⟩ := List.pairwise_cons.1 sorted
      have earlier : ∀ kind : ImportKind, kind.rank < i.kind.rank →
          imports.filter (·.kind == kind) = [] := by
        intro kind less
        rw [List.filter_eq_nil_iff]
        intro other later same
        have kinds : other.kind = kind := beq_iff_eq.1 same
        rcases importsInOrder_iff.1 (first other later) with more | ⟨equal, -⟩
        · rw [kinds] at more
          omega
        · rw [equal, kinds] at less
          omega
      have sortedRest := ih rest
      cases kind : i.kind with
      | type => simpa [kind] using sortedRest
      | function =>
          have types := earlier .type (by rw [kind]; decide)
          rw [types] at sortedRest
          simpa [kind, types] using sortedRest
      | constant =>
          have types := earlier .type (by rw [kind]; decide)
          have functions := earlier .function (by rw [kind]; decide)
          rw [types, functions] at sortedRest
          simpa [kind, types, functions] using sortedRest

/-- What is listed is in order. -/
theorem pairwise_listedImports (ns : Namespace) :
    (listedImports ns).Pairwise (importsInOrder · · = true) :=
  pairwise_sortBy importsInOrder_total importsInOrder_trans ns.allImports

/-! ## The block -/

def importLines (printer : Printer) (ns : Namespace) : List String :=
  (printer.namespaceBlocks { ns with types := ∅ }).flatMap fun block => Text.lines (block ++ "\n")

def ofImportLines (name : String) (lines : List String) : Namespace :=
  (lines.flatMap Declaration.imports).foldl Namespace.insertImport (.ofName name)

section Block

variable {ns : Namespace}

theorem importLines_eq (printer : Printer) (writable : ∀ i ∈ ns.allImports, i.Writable) :
    printer.importLines ns = (listedImports ns).map importLine := by
  have same : listedImports { ns with types := ∅ } = listedImports ns := rfl
  have empty : ({ ns with types := ∅ } : Namespace).types.values = [] := rfl
  rw [importLines, namespaceBlocks_eq, same, empty, List.map_nil, List.append_nil]
  cases listed : listedImports ns with
  | nil => rfl
  | cons first others =>
      rw [if_neg (by simp), List.flatMap_singleton, ← listed]
      refine lines_imports (by simp [listed]) fun i inside => ?_
      have own := writable i (mem_listedImports.1 inside)
      exact ⟨own.name.wellFormed, own.localName.wellFormed⟩

/-- Each line is read as the import that it was printed for. -/
theorem map_imports_importLine {imports : List Import} (writable : ∀ i ∈ imports, i.Writable) :
    (imports.map importLine).map Declaration.imports = imports.map ([·]) := by
  rw [List.map_map]
  refine List.map_congr_left fun i inside => ?_
  rw [Function.comp_apply, imports_importLine (writable i inside)]

theorem importsOf_ofImportLines (name : String) {imports : List Import}
    (writable : ∀ i ∈ imports, i.Writable) (kind : ImportKind) :
    (ofImportLines name (imports.map importLine)).importsOf kind =
      .keyed Import.localName (imports.filter (·.kind == kind)) := by
  have read : (imports.map importLine).flatMap Declaration.imports = imports := by
    rw [List.flatMap_def, map_imports_importLine writable, ← List.flatMap_def,
      List.flatMap_singleton']
  rw [ofImportLines, read, Declaration.foldl_insertImport, Table.keyed_eq]
  cases kind with
  | type => rfl
  | function => rfl
  | constant => rfl

section Keyed

variable (keyed : ∀ kind, (ns.importsOf kind).KeyedBy Import.localName)
  (kinds : ∀ kind, ∀ i ∈ (ns.importsOf kind).values, i.kind = kind)

include kinds

theorem filter_allImports (kind : ImportKind) :
    ns.allImports.filter (·.kind == kind) = (ns.importsOf kind).values := by
  have own : ∀ other, ((ns.importsOf other).values.filter (·.kind == kind)) =
      if other = kind then (ns.importsOf other).values else [] := by
    intro other
    split
    · rename_i same
      exact List.filter_eq_self.2 fun i inside => by simp [kinds other i inside, same]
    · rename_i apart
      exact List.filter_eq_nil_iff.2 fun i inside => by simp [kinds other i inside, apart]
  have all : ns.allImports = (ns.importsOf .type).values ++ (ns.importsOf .function).values ++
      (ns.importsOf .constant).values := rfl
  rw [all, List.filter_append, List.filter_append, own, own, own]
  cases kind <;> simp

theorem perm_filter_listedImports (kind : ImportKind) :
    ((listedImports ns).filter (·.kind == kind)).Perm (ns.importsOf kind).values := by
  rw [← filter_allImports kinds kind]
  exact (perm_sortBy importsInOrder ns.allImports).filter _

include keyed

theorem values_listed (kind : ImportKind) :
    (Table.keyed Import.localName ((listedImports ns).filter (·.kind == kind))).values =
      (listedImports ns).filter (·.kind == kind) := by
  apply Table.values_keyed
  rw [((perm_filter_listedImports kinds kind).map Import.localName).nodup_iff,
    ← (keyed kind).keys_eq]
  exact (ns.importsOf kind).nodup

/-- The table of a kind has the same entries again. -/
theorem keyed_listed_beq (kind : ImportKind) :
    (Table.keyed Import.localName ((listedImports ns).filter (·.kind == kind)) ==
      ns.importsOf kind) = true := by
  apply Table.beq_of_get?_eq
  intro key
  ext i
  rw [(Table.keyedBy_keyed _ _).get?_eq_some_iff, (keyed kind).get?_eq_some_iff,
    values_listed keyed kinds, (perm_filter_listedImports kinds kind).mem_iff]

/-- What is listed is listed the same way again. -/
theorem listedImports_again {again : Namespace} (same : ∀ kind, again.importsOf kind =
      .keyed Import.localName ((listedImports ns).filter (·.kind == kind))) :
    listedImports again = listedImports ns := by
  have all : again.allImports = listedImports ns := by
    rw [← filter_kinds_of_pairwise (pairwise_listedImports ns)]
    show (again.importsOf .type).values ++ (again.importsOf .function).values ++
      (again.importsOf .constant).values = _
    rw [same, same, same, values_listed keyed kinds, values_listed keyed kinds,
      values_listed keyed kinds]
  rw [listedImports, all]
  exact sortBy_eq_self (pairwise_listedImports ns)

end Keyed

/-- **Imports are read as they are printed.** Each line of the block is read as one import. Put
into an empty namespace one by one they make the same tables of types, functions and constants,
which are printed as the same lines in the same order. -/
theorem import_block_round_trip (printer : Printer) {ns : Namespace}
    (keyed : ∀ kind, (ns.importsOf kind).KeyedBy Import.localName)
    (kinds : ∀ kind, ∀ i ∈ (ns.importsOf kind).values, i.kind = kind)
    (writable : ∀ i ∈ ns.allImports, i.Writable) :
    (printer.importLines ns).map Declaration.imports = (listedImports ns).map ([·]) ∧
      (∀ kind, ((ofImportLines ns.name (printer.importLines ns)).importsOf kind ==
        ns.importsOf kind) = true) ∧
      printer.importLines (ofImportLines ns.name (printer.importLines ns)) =
        printer.importLines ns := by
  have listed : ∀ i ∈ listedImports ns, i.Writable := fun i inside =>
    writable i (mem_listedImports.1 inside)
  have tables := importsOf_ofImportLines ns.name listed
  have again := listedImports_again keyed kinds tables
  rw [importLines_eq printer writable]
  refine ⟨map_imports_importLine listed, fun kind => ?_, ?_⟩
  · rw [tables]
    exact keyed_listed_beq keyed kinds kind
  · rw [importLines_eq, again]
    intro i inside
    rw [← mem_listedImports, again] at inside
    exact listed i inside

end Block

namespace Example

/-- A namespace that imports one class under two names and again in another spelling, a function
under the name of the class, and a constant. -/
def severalAliases : Namespace where
  name := "App"
  imports := .ofList [("C", ⟨"A\\B", "C", .type⟩), ("D", ⟨"a\\b", "D", .type⟩),
    ("B", ⟨"A\\B", "B", .type⟩)]
  functionImports := .ofList [("B", ⟨"A\\b", "B", .function⟩)]
  constantImports := .ofList [("X", ⟨"Lib\\X", "X", .constant⟩)]
  types := ∅

/-- The three imports of the class keep their order, also where the names are the same. -/
theorem import_block_round_trip_aliases :
    (∀ kind, (severalAliases.importsOf kind).KeyedBy Import.localName) ∧
      (∀ kind, ∀ i ∈ (severalAliases.importsOf kind).values, i.kind = kind) ∧
      (∀ i ∈ severalAliases.allImports, i.Writable) ∧
      importLines {} severalAliases =
        ["use A\\B as C;", "use a\\b as D;", "use A\\B;", "use function A\\b as B;",
          "use const Lib\\X;"] ∧
      importLines {} (ofImportLines "App" (importLines {} severalAliases)) =
        importLines {} severalAliases := by
  have keyed : ∀ kind, (severalAliases.importsOf kind).KeyedBy Import.localName := by
    intro kind
    cases kind <;> decide +kernel
  have kinds : ∀ kind, ∀ i ∈ (severalAliases.importsOf kind).values, i.kind = kind := by
    intro kind
    cases kind <;> decide +kernel
  have writable : ∀ i ∈ severalAliases.allImports, i.Writable := by decide +kernel
  refine ⟨keyed, kinds, writable, by decide +kernel, ?_⟩
  exact (import_block_round_trip {} keyed kinds writable).2.2

end Example

end Printer

end Emend

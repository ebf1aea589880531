import Emend.Proofs.Source.Sections
import Emend.Proofs.Validator.ReportedLine

/-!
# Where the directive stands in the copy of a printed unit

The place for the directive is found by the text of lines alone, up to the first line that starts a
declaration. In a printed unit that line belongs to the first type or to its doc comment, and the
lines before it are known: the tag, the strict types directive, the line that opens a namespace, and
imports. So the directive stands behind the first line that opens a namespace, else behind the
strict types directive, else behind the tag, and all types follow (`bootstrap_follows_opening`),
whatever their bodies and comments hold.

A global namespace under another key is printed without a line of its own although others have one.
Its types then stand before that line, and the directive before them (`bootstrap_before_header`).
-/

set_option autoImplicit false

namespace Emend

namespace Instrumented

/-! ## Lines that decide nothing -/

structure Quiet (line : String) : Prop where
  declaration : startsDeclaration line = false
  opens_namespace : opens "namespace" line = false
  opens_declare : opens "declare" line = false

instance (line : String) : Decidable (Quiet line) :=
  decidable_of_iff (startsDeclaration line = false ∧ opens "namespace" line = false ∧
      opens "declare" line = false)
    ⟨fun ⟨a, b, c⟩ => ⟨a, b, c⟩, fun ⟨a, b, c⟩ => ⟨a, b, c⟩⟩

theorem quiet_importLine (i : Import) : Quiet (Printer.importLine i) := by
  obtain ⟨rest, own⟩ := Printer.exists_importLine i
  rw [own]
  constructor
  · simp [startsDeclaration, declarationStarts, Text.strip?, Text.stripPrefix?]
  · simp [opens, Text.strip?, Text.stripPrefix?]
  · simp [opens, Text.strip?, Text.stripPrefix?]

/-- A text begins with a declaration: its first line starts one. -/
theorem startsDeclaration_first {start : String} (listed : start ∈ declarationStarts)
    (rest : String) :
    ∃ first others, Text.lines (start ++ rest ++ "\n") = first :: others ∧
      startsDeclaration first = true := by
  have plain : '\n' ∉ start.toList ∧ start.toList.getLast? ≠ some '\r' := by
    have all : ∀ start ∈ declarationStarts,
        '\n' ∉ start.toList ∧ start.toList.getLast? ≠ some '\r' := by decide
    exact all start listed
  obtain ⟨more, others, lines⟩ := Text.exists_lines_cons plain.1 plain.2 rest
  refine ⟨start ++ more, others, lines, List.any_eq_true.2 ⟨start, listed, ?_⟩⟩
  rw [Text.strip?_eq_some_iff.2 rfl, Option.isSome_some]

/-- Whether all lines of a section are quiet, or the first one starts a declaration. -/
def Plain (text : String) : Prop :=
  (∀ line ∈ Text.lines (text ++ "\n"), Quiet line) ∨
    ∃ first others, Text.lines (text ++ "\n") = first :: others ∧ startsDeclaration first = true

theorem Quiet.passes {line : String} (quiet : Quiet line) :
    (!startsDeclaration line) = true := by
  rw [quiet.declaration, Bool.not_false]

/-- Ahead of the first declaration there are quiet lines only. -/
theorem quiet_ahead {texts : List String} (plain : ∀ text ∈ texts, Plain text) :
    ∀ line ∈ (Text.spacedLines texts).takeWhile (!startsDeclaration ·), Quiet line := by
  have void : Quiet "" := by decide +kernel
  induction texts with
  | nil => simp [Text.spacedLines]
  | cons text texts ih =>
      have lines : Text.spacedLines (text :: texts) =
          "" :: (Text.lines (text ++ "\n") ++ Text.spacedLines texts) := rfl
      rw [lines, List.takeWhile_cons_of_pos (p := (!startsDeclaration ·)) void.passes]
      rcases plain text List.mem_cons_self with quiet | ⟨first, others, cut, starts⟩
      · rw [List.takeWhile_append_of_pos fun line inside => (quiet line inside).passes]
        intro line listed
        rcases List.mem_cons.1 listed with rfl | later
        · exact void
        · rcases List.mem_append.1 later with here | there
          · exact quiet line here
          · exact ih (fun other inside => plain other (List.mem_cons_of_mem _ inside)) line there
      · rw [cut, List.cons_append, List.takeWhile_cons_of_neg (by simp [starts])]
        intro line listed
        rw [List.mem_singleton.1 listed]
        exact void

/-! ## The place for the directive -/

theorem through?_eq_none {keyword : String} {lines : List String}
    (absent : ∀ line ∈ lines.takeWhile (!startsDeclaration ·), opens keyword line = false) :
    through? keyword lines = none := by
  rw [through?, List.findIdx?_eq_none_iff.2 absent, Option.map_none]

/-- The first statement of a keyword is found behind lines that are none. -/
theorem through?_append_cons {keyword line : String} {front : List String}
    (before : ∀ other ∈ front, startsDeclaration other = false ∧ opens keyword other = false)
    (own : startsDeclaration line = false ∧ opens keyword line = true) (rest : List String) :
    through? keyword (front ++ line :: rest) = some (front.length + 1) := by
  rw [through?, List.takeWhile_append_of_pos fun other inside => by simp [(before other inside).1],
    List.takeWhile_cons_of_pos (by simp [own.1]), List.findIdx?_append,
    List.findIdx?_eq_none_iff.2 fun other inside => (before other inside).2,
    List.findIdx?_cons, own.2]
  simp

end Instrumented

/-! ## Printed units -/

/-- The names that stand in the opening of a printed unit are well formed, and the words before a
type are those that may stand there. -/
structure SourceUnit.WellNamed (unit : SourceUnit) : Prop where
  namespaces : ∀ ns ∈ unit.namespaces.values, ns.isGlobal = true ∨ Name.WellFormed ns.name
  imports : ∀ ns ∈ unit.namespaces.values, ∀ i ∈ ns.allImports,
    Name.WellFormed i.name ∧ Name.WellFormed i.localName
  modifiers : ∀ ns ∈ unit.namespaces.values, ∀ decl ∈ ns.types.values, ∀ modifier ∈ decl.modifiers,
    modifier ∈ ["abstract", "final", "readonly"]

def SourceUnit.GlobalUnderEmpty (unit : SourceUnit) : Prop :=
  ∀ entry ∈ unit.namespaces.entries, entry.2.isGlobal = true → entry.1 = ""

instance (unit : SourceUnit) : Decidable unit.GlobalUnderEmpty :=
  inferInstanceAs
    (Decidable (∀ entry ∈ unit.namespaces.entries, entry.2.isGlobal = true → entry.1 = ""))

namespace Printer

open Instrumented

/-- The lines of a printed unit up to the strict types directive; without it, the tag. -/
def lead (unit : SourceUnit) : List String :=
  if unit.strictTypes then ["<?php", "", "declare(strict_types=1);"] else ["<?php"]

/-- The lines of a printed unit up to the first one that opens a namespace, if there is one. -/
def opening (unit : SourceUnit) : List String :=
  match unit.namespaces.values.findSome? (headerLine? (isBraced unit)) with
  | some header => lead unit ++ ["", header]
  | none => lead unit

theorem lines_print_lead (printer : Printer) (unit : SourceUnit) :
    Text.lines (printer.print unit) = lead unit ++ Text.spacedLines
      (unit.namespaces.values.flatMap (printer.sections (isBraced unit))) := by
  have same : "<?php" :: Text.spacedLines (directives unit) = lead unit := by
    rw [directives, lead]
    cases unit.strictTypes with
    | true => decide +kernel
    | false => rfl
  rw [lines_print, Text.spacedLines_append, ← List.cons_append, same]

theorem opens_lead (unit : SourceUnit) :
    ∀ line ∈ lead unit, startsDeclaration line = false ∧ opens "namespace" line = false := by
  rw [lead]
  cases unit.strictTypes with
  | true => decide +kernel
  | false => decide +kernel

/-- Without a line that opens a namespace, the directive stands behind the lead. -/
theorem splitIndex_lead (unit : SourceUnit) {rest : List String}
    (quiet : ∀ line ∈ rest.takeWhile (!startsDeclaration ·), Quiet line) :
    splitIndex (lead unit ++ rest) = (lead unit).length := by
  have ahead : (lead unit ++ rest).takeWhile (!startsDeclaration ·) =
      lead unit ++ rest.takeWhile (!startsDeclaration ·) :=
    List.takeWhile_append_of_pos fun line inside => by rw [(opens_lead unit line inside).1]; rfl
  have headless : through? "namespace" (lead unit ++ rest) = none := by
    apply through?_eq_none
    rw [ahead]
    intro line inside
    rcases List.mem_append.1 inside with first | later
    · exact (opens_lead unit line first).2
    · exact (quiet line later).opens_namespace
  rw [splitIndex_eq, headless, Option.orElse_eq_orElse, Option.orElse_none]
  rw [lead] at ahead ⊢
  cases strict : unit.strictTypes with
  | true =>
      have found : through? "declare" (["<?php", ""] ++ "declare(strict_types=1);" :: rest) =
          some 3 :=
        through?_append_cons (by decide +kernel) (by decide +kernel) rest
      exact congrArg (Option.getD · 1) found
  | false =>
      simp only [strict, Bool.false_eq_true, if_false] at ahead ⊢
      rw [through?_eq_none, Option.getD_none, List.length_singleton]
      rw [ahead]
      intro line inside
      rcases List.mem_append.1 inside with tag | later
      · rw [List.mem_singleton.1 tag]
        decide +kernel
      · exact (quiet line later).opens_declare

/-- The directive stands behind the first line that opens a namespace. -/
theorem splitIndex_header (unit : SourceUnit) {header : String}
    (own : startsDeclaration header = false ∧ opens "namespace" header = true)
    (rest : List String) :
    splitIndex (lead unit ++ ["", header] ++ rest) = (lead unit ++ ["", header]).length := by
  have before : ∀ line ∈ lead unit ++ [""],
      startsDeclaration line = false ∧ opens "namespace" line = false := by
    intro line inside
    rcases List.mem_append.1 inside with first | empty
    · exact opens_lead unit line first
    · rw [List.mem_singleton.1 empty]
      decide +kernel
  have found := through?_append_cons before own rest
  simp only [List.append_assoc, List.cons_append, List.nil_append] at found ⊢
  rw [splitIndex_eq, found]
  simp

/-- A line that opens a namespace: the word, a name of one line, and a mark that is no blank. -/
theorem exists_headerLine {braced : Bool} {ns : Namespace} {header : String}
    (named : ns.isGlobal = true ∨ Name.WellFormed ns.name)
    (own : headerLine? braced ns = some header) :
    ∃ middle mark, header = "namespace " ++ middle ++ mark ∧ '\n' ∉ middle.toList ∧
      (mark = "\x7b" ∨ mark = ";") := by
  have plain : ns.isGlobal = false → '\n' ∉ ns.name.toList := by
    intro other inside
    have wf := named.resolve_left (by simp [other])
    exact absurd (wf.no_blank _ inside) (by decide)
  rw [headerLine?] at own
  cases braced with
  | true =>
      cases global : ns.isGlobal with
      | true =>
          refine ⟨"", "\x7b", ?_, by simp, Or.inl rfl⟩
          simpa [global, eq_comm] using own
      | false =>
          have brace : " \x7b" = " " ++ "\x7b" := rfl
          refine ⟨ns.name ++ " ", "\x7b", ?_, by simp [plain global], Or.inl rfl⟩
          simpa [global, eq_comm, brace, String.append_assoc] using own
  | false =>
      cases global : ns.isGlobal with
      | true => simp [global] at own
      | false =>
          refine ⟨ns.name, ";", ?_, plain global, Or.inr rfl⟩
          simpa [global, eq_comm] using own

theorem headerLine?_spec {braced : Bool} {ns : Namespace} {header : String}
    (named : ns.isGlobal = true ∨ Name.WellFormed ns.name)
    (own : headerLine? braced ns = some header) :
    (startsDeclaration header = false ∧ opens "namespace" header = true) ∧
      Text.lines (header ++ "\n") = [header] := by
  obtain ⟨middle, mark, rfl, single, ends⟩ := exists_headerLine named own
  refine ⟨⟨?_, ?_⟩, ?_⟩
  · simp [startsDeclaration, declarationStarts, Text.strip?, Text.stripPrefix?]
  · simp [opens, Text.strip?, Text.stripPrefix?]
    decide
  · have alone : Text.lines ("namespace " ++ middle ++ mark ++ "\n" ++ "") =
        ("namespace " ++ middle ++ mark) :: Text.lines "" := by
      apply Text.lines_cons
      · rcases ends with rfl | rfl
        · simp [single]
        · simp [single]
      · rw [String.toList_append]
        rcases ends with rfl | rfl
        · rw [List.getLast?_append_of_ne_nil _ (by simp)]
          simp
        · rw [List.getLast?_append_of_ne_nil _ (by simp)]
          simp
    rw [String.append_empty] at alone
    exact alone

/-- Either every namespace has a line that opens it, or none has. -/
theorem headerLine?_all_or_none {unit : SourceUnit} (global : unit.GlobalUnderEmpty) :
    (∀ ns ∈ unit.namespaces.values, headerLine? (isBraced unit) ns = none) ∨
      ∀ ns ∈ unit.namespaces.values, (headerLine? (isBraced unit) ns).isSome = true := by
  cases braced : isBraced unit with
  | true => exact Or.inr fun ns _ => rfl
  | false =>
      by_cases hasGlobal : ∃ ns ∈ unit.namespaces.values, ns.isGlobal = true
      · -- Then it stands under the empty name, so without braces there is no other namespace.
        obtain ⟨ns, held, isGlobal⟩ := hasGlobal
        obtain ⟨entry, listed, rfl⟩ := List.mem_map.1 held
        have there : unit.namespaces.contains "" = true :=
          List.any_eq_true.2 ⟨entry, listed, by simp [global entry listed isGlobal]⟩
        have alone : unit.namespaces.entries.length ≤ 1 := by
          simpa [isBraced, there, Table.size] using braced
        obtain ⟨only, entries⟩ := List.length_eq_one_iff.1
          (Nat.le_antisymm alone (List.length_pos_of_mem listed))
        rw [entries, List.mem_singleton] at listed
        subst listed
        left
        intro other inside
        rw [Table.values, entries] at inside
        rw [List.mem_singleton.1 inside]
        simp [headerLine?, isGlobal]
      · right
        intro ns held
        have named : ns.isGlobal = false := by
          rw [← Bool.not_eq_true]
          exact fun isGlobal => hasGlobal ⟨ns, held, isGlobal⟩
        simp [headerLine?, named]

theorem exists_start_header (scope : Scope) {decl : TypeDecl}
    (modifiers : ∀ modifier ∈ decl.modifiers, modifier ∈ ["abstract", "final", "readonly"]) :
    ∃ start ∈ declarationStarts, ∃ rest, header scope decl = start ++ rest := by
  have first : ∀ (word : String) (others : List String), others ≠ [] →
      ∃ rest, " ".intercalate (word :: others) = word ++ " " ++ rest :=
    fun word others nonempty => ⟨_, String.intercalate_cons_of_ne_nil nonempty⟩
  rw [header]
  cases listed : decl.modifiers with
  | nil => exact ⟨decl.kind.keyword ++ " ", by cases decl.kind <;> decide, first _ _ (by simp)⟩
  | cons modifier others =>
      have all : ∀ word ∈ ["abstract", "final", "readonly"], word ++ " " ∈ declarationStarts := by
        decide
      have own : modifier ∈ ["abstract", "final", "readonly"] :=
        modifiers modifier (listed ▸ List.mem_cons_self)
      exact ⟨modifier ++ " ", all modifier own, first _ _ (by simp)⟩

/-- A type begins with a word that declares something, or with a doc comment. -/
theorem exists_start_type (printer : Printer) (scope : Scope) {decl : TypeDecl}
    (modifiers : ∀ modifier ∈ decl.modifiers, modifier ∈ ["abstract", "final", "readonly"]) :
    ∃ start ∈ declarationStarts, ∃ rest, printer.type scope decl = start ++ rest := by
  obtain ⟨more, parts⟩ : ∃ more,
      printer.type scope decl = docBlock decl.doc "" ++ header scope decl ++ more :=
    ⟨_, by rw [type, String.append_assoc, String.append_assoc]⟩
  rw [parts]
  cases doc : decl.doc with
  | nil =>
      obtain ⟨start, listed, rest, begins⟩ := exists_start_header scope modifiers
      have noDoc : docBlock [] "" = "" := rfl
      exact ⟨start, listed, rest ++ more,
        by rw [noDoc, String.empty_append, begins, String.append_assoc]⟩
  | cons line lines =>
      obtain ⟨rest, begins⟩ : ∃ rest, docBlock (line :: lines) "" = "/**" ++ rest := by
        have cut : "" ++ "/**\n" = "/**" ++ "\n" := rfl
        rw [docBlock, cut, String.append_assoc, String.append_assoc, String.append_assoc]
        exact ⟨_, rfl⟩
      exact ⟨"/**", by decide, rest ++ header scope decl ++ more,
        by simp only [begins, String.append_assoc]⟩

/-- Without lines that open namespaces, the sections are imports and types. -/
theorem plain_sections {printer : Printer} {unit : SourceUnit} (named : unit.WellNamed)
    {ns : Namespace} (held : ns ∈ unit.namespaces.values)
    (headless : headerLine? (isBraced unit) ns = none) :
    ∀ text ∈ printer.sections (isBraced unit) ns, Plain text := by
  have braces : isBraced unit = false := by
    cases braced : isBraced unit with
    | true =>
        rw [braced] at headless
        cases headless
    | false => rfl
  intro text listed
  rw [sections, headless, braces, namespaceBlocks_eq] at listed
  simp only [Option.toList_none, List.nil_append, Bool.false_eq_true, if_false, List.append_nil,
    List.mem_append] at listed
  rcases listed with block | typeText
  · split at block
    · cases block
    · rename_i nonempty
      rw [List.mem_singleton.1 block]
      left
      rw [lines_imports (by simpa using nonempty)]
      · intro line inside
        obtain ⟨i, -, rfl⟩ := List.mem_map.1 inside
        exact quiet_importLine i
      · intro i inside
        exact named.imports ns held i (mem_listedImports.1 inside)
  · obtain ⟨decl, declared, rfl⟩ := List.mem_map.1 typeText
    obtain ⟨start, listed, rest, begins⟩ :=
      exists_start_type printer ns.scope (named.modifiers ns held decl declared)
    right
    rw [begins]
    exact startsDeclaration_first listed rest

/-- The lines of a section stand together among the lines of all. -/
theorem isInfix_spacedLines {text : String} {texts : List String} (listed : text ∈ texts) :
    Text.lines (text ++ "\n") <:+: Text.spacedLines texts := by
  obtain ⟨before, after, rfl⟩ := List.append_of_mem listed
  refine ⟨Text.spacedLines before ++ [""], Text.spacedLines after, ?_⟩
  rw [Text.spacedLines_append]
  simp [Text.spacedLines]

theorem type_mem_sections (printer : Printer) (braced : Bool) {ns : Namespace} {decl : TypeDecl}
    (declared : decl ∈ ns.types.values) :
    printer.type ns.scope decl ∈ printer.namespaceBlocks ns ∧
      printer.type ns.scope decl ∈ printer.sections braced ns := by
  have block : printer.type ns.scope decl ∈ printer.namespaceBlocks ns := by
    rw [namespaceBlocks_eq]
    exact List.mem_append_right _ (List.mem_map_of_mem declared)
  refine ⟨block, ?_⟩
  rw [sections]
  exact List.mem_append_left _ (List.mem_append_right _ block)

/-- The lines of a printed unit fall into those before the directive and those behind it, and all
types are behind it. -/
structure Divides (printer : Printer) (unit : SourceUnit) (above below : List String) : Prop where
  lines : Text.lines (printer.print unit) = above ++ below
  index : splitIndex (above ++ below) = above.length
  types : ∀ ns ∈ unit.namespaces.values, ∀ decl ∈ ns.types.values,
    Text.lines (printer.type ns.scope decl) <:+: below

theorem divides_lead (printer : Printer) {unit : SourceUnit} (named : unit.WellNamed)
    (headless : ∀ ns ∈ unit.namespaces.values, headerLine? (isBraced unit) ns = none) :
    ∃ below, Divides printer unit (lead unit) below := by
  refine ⟨_, lines_print_lead printer unit, ?_, ?_⟩
  · apply splitIndex_lead
    apply quiet_ahead
    intro text listed
    obtain ⟨ns, held, inside⟩ := List.mem_flatMap.1 listed
    exact plain_sections named held (headless ns held) text inside
  · intro ns held decl declared
    rw [← lines_type]
    apply isInfix_spacedLines
    exact List.mem_flatMap.2 ⟨ns, held, (type_mem_sections printer _ declared).2⟩

theorem divides_header (printer : Printer) {unit : SourceUnit} (named : unit.WellNamed)
    {first : Namespace} {others : List Namespace}
    (values : unit.namespaces.values = first :: others) {header : String}
    (own : headerLine? (isBraced unit) first = some header) :
    ∃ below, Divides printer unit (lead unit ++ ["", header]) below := by
  obtain ⟨isHeader, line⟩ := headerLine?_spec (named.namespaces first (by simp [values])) own
  have alone : Text.spacedLines [header] = ["", header] := by
    rw [Text.spacedLines, List.flatMap_singleton, line]
  have lines : Text.lines (printer.print unit) = lead unit ++ ["", header] ++
      Text.spacedLines (printer.namespaceBlocks first ++ (if isBraced unit then ["\x7d"] else []) ++
        others.flatMap (printer.sections (isBraced unit))) := by
    rw [lines_print_lead, values, List.flatMap_cons, sections, own, Option.toList_some,
      List.append_assoc, List.append_assoc, Text.spacedLines_append, alone, List.append_assoc,
      List.append_assoc]
  refine ⟨_, lines, splitIndex_header unit isHeader _, ?_⟩
  intro ns held decl declared
  obtain ⟨block, inside⟩ := type_mem_sections printer (isBraced unit) declared
  rw [← lines_type]
  apply isInfix_spacedLines
  rw [values] at held
  rcases List.mem_cons.1 held with rfl | later
  · exact List.mem_append_left _ (List.mem_append_left _ block)
  · exact List.mem_append_right _ (List.mem_flatMap.2 ⟨ns, later, inside⟩)

/-- The directive goes behind the opening of a printed unit. -/
theorem divides_opening (printer : Printer) {unit : SourceUnit} (named : unit.WellNamed)
    (global : unit.GlobalUnderEmpty) : ∃ below, Divides printer unit (opening unit) below := by
  rw [opening]
  rcases headerLine?_all_or_none global with headless | all
  · rw [List.findSome?_eq_none_iff.2 headless]
    exact divides_lead printer named headless
  · cases values : unit.namespaces.values with
    | nil => exact divides_lead printer named (by simp [values])
    | cons first others =>
        obtain ⟨header, own⟩ := Option.isSome_iff_exists.1 (all first (by simp [values]))
        rw [List.findSome?_cons, own]
        exact divides_header printer named values own

/-- **The directive in the copy of a printed unit** is one line more. It stands behind the first
line that opens a namespace, else behind the strict types directive, else behind the tag; all other
lines are those of the printed unit, and the lines of every type follow, its doc comment
included. -/
theorem bootstrap_follows_opening (printer : Printer) {unit : SourceUnit} (named : unit.WellNamed)
    (global : unit.GlobalUnderEmpty) {directive : String} (single : '\n' ∉ directive.toList) :
    ∃ below, Text.lines (printer.print unit) = opening unit ++ below ∧
      Text.split '\n' (ofText (some directive) (printer.print unit)).text =
        opening unit ++ directive :: below ++ [""] ∧
      (ofText (some directive) (printer.print unit)).bootstrapLine =
        some ((opening unit).length + 1) ∧
      ∀ ns ∈ unit.namespaces.values, ∀ decl ∈ ns.types.values,
        Text.lines (printer.type ns.scope decl) <:+: below := by
  obtain ⟨below, lines, index, types⟩ := divides_opening printer named global
  refine ⟨below, lines, ?_, ?_, types⟩
  · rw [split_ofText, lines, index, List.take_left, List.drop_left, Text.split_of_not_mem single]
    simp
  · rw [← index, ← lines]
    rfl

namespace Example

def globalAndNamed : SourceUnit where
  strictTypes := true
  namespaces := .ofList
    [("", { Namespace.ofName "" with
        types := .ofList [("A", { TypeDecl.ofName .class "A" with
          modifiers := ["final"], doc := ["namespace Fake;"] })] }),
      ("Lib", { Namespace.ofName "Lib" with
        imports := .ofList [("X", .ofName "Vendor\\X")] })]

theorem wellNamed_globalAndNamed :
    globalAndNamed.WellNamed ∧ globalAndNamed.GlobalUnderEmpty := by
  refine ⟨⟨?_, ?_, ?_⟩, ?_⟩ <;> decide +kernel

/-- Behind the directive and the line that opens the global namespace comes the class. -/
theorem bootstrap_follows_opening_braced :
    globalAndNamed.WellNamed ∧ globalAndNamed.GlobalUnderEmpty ∧ '\n' ∉ "boot();".toList ∧
      opening globalAndNamed = ["<?php", "", "declare(strict_types=1);", "", "namespace \x7b"] ∧
      ∃ below, Text.split '\n' (ofText (some "boot();") (print {} globalAndNamed)).text =
        opening globalAndNamed ++ "boot();" :: below ++ [""] := by
  have single : '\n' ∉ "boot();".toList := by decide
  obtain ⟨named, global⟩ := wellNamed_globalAndNamed
  obtain ⟨below, -, copy, -⟩ := bootstrap_follows_opening {} named global single
  exact ⟨named, global, single, by decide +kernel, below, copy⟩

/-- A unit whose global namespace stands under another name. -/
def strayGlobal : SourceUnit where
  strictTypes := false
  namespaces := .ofList
    [("x", { Namespace.ofName "" with types := .ofList [("A", .ofName .class "A")] }),
      ("B", .ofName "B")]

/-- The class stands before the line that opens the other namespace, and the directive before the
class: it does not follow that line. -/
theorem bootstrap_before_header :
    strayGlobal.WellNamed ∧ '\n' ∉ "boot();".toList ∧
      "namespace B;" ∈ Text.lines (print {} strayGlobal) ∧
      Text.split '\n' (ofText (some "boot();") (print {} strayGlobal)).text =
        ["<?php", "boot();", "", "class A", "\x7b", "\x7d", "", "namespace B;", ""] ∧
      ¬ ["namespace B;", "boot();"] <:+:
        Text.split '\n' (ofText (some "boot();") (print {} strayGlobal)).text := by
  have copy : Text.split '\n' (ofText (some "boot();") (print {} strayGlobal)).text =
      ["<?php", "boot();", "", "class A", "\x7b", "\x7d", "", "namespace B;", ""] := by
    decide +kernel
  refine ⟨⟨?_, ?_, ?_⟩, by decide, by decide +kernel, copy, ?_⟩
  · decide +kernel
  · decide +kernel
  · decide +kernel
  · rw [copy]
    decide

end Example

end Printer

end Emend

import Emend.Proofs.Name
import Emend.Proofs.Sort
import Emend.Proofs.Text.Lines
import Emend.Source.Printer

/-!
# The lines of a printed unit

A unit is printed as sections with an empty line between any two: the tag, the strict types
directive, and for each namespace the line that opens it, the imports, the types, and the brace that
closes it. So its lines are the lines of its sections, one section after the other, each after an
empty line (`lines_print`). Braces make no difference here: a namespace in braces is one block, but
inside of it the sections stand apart in the same way.

Imports have a line each (`lines_imports`); a type ends with a line of its own (`lines_type`).
-/

set_option autoImplicit false

namespace Emend

namespace Text

/-- The lines of texts, each after an empty line. -/
def spacedLines (texts : List String) : List String :=
  texts.flatMap fun text => "" :: lines (text ++ "\n")

theorem spacedLines_append (texts others : List String) :
    spacedLines (texts ++ others) = spacedLines texts ++ spacedLines others :=
  List.flatMap_append

theorem spacedLines_intercalate {texts : List String} (nonempty : texts ≠ []) :
    "" :: lines ("\n\n".intercalate texts ++ "\n") = spacedLines texts := by
  induction texts with
  | nil => exact absurd rfl nonempty
  | cons text texts ih =>
      cases texts with
      | nil => simp [spacedLines]
      | cons next texts =>
          have apart : "\n\n".intercalate (text :: next :: texts) ++ "\n" =
              text ++ "\n" ++ ("" ++ "\n" ++ ("\n\n".intercalate (next :: texts) ++ "\n")) := by
            rw [String.intercalate_cons_cons]
            apply String.toList_inj.1
            simp
          rw [apart, lines_append, lines_cons (by simp) (by simp), ih (by simp)]
          rfl

/-- Texts of one line each are the lines of what they are joined to. -/
theorem lines_intercalate {texts : List String} (nonempty : texts ≠ [])
    (single : ∀ text ∈ texts, '\n' ∉ text.toList ∧ text.toList.getLast? ≠ some '\r') :
    lines ("\n".intercalate texts ++ "\n") = texts := by
  induction texts with
  | nil => exact absurd rfl nonempty
  | cons text texts ih =>
      have here := single text List.mem_cons_self
      cases texts with
      | nil =>
          have alone := lines_cons here.1 here.2 ""
          rw [String.append_empty] at alone
          rw [String.intercalate_singleton, alone]
          rfl
      | cons next texts =>
          rw [String.intercalate_cons_cons, String.append_assoc, lines_cons here.1 here.2,
            ih (by simp) fun other inside => single other (List.mem_cons_of_mem _ inside)]

end Text

namespace Printer

def headerLine? (braced : Bool) (ns : Namespace) : Option String :=
  if braced then some (if ns.isGlobal then "namespace \x7b" else "namespace " ++ ns.name ++ " \x7b")
  else if ns.isGlobal then none else some ("namespace " ++ ns.name ++ ";")

def sections (printer : Printer) (braced : Bool) (ns : Namespace) : List String :=
  (headerLine? braced ns).toList ++ printer.namespaceBlocks ns ++ if braced then ["\x7d"] else []

/-- The sections of a unit before its namespaces, the tag apart. -/
def directives (unit : SourceUnit) : List String :=
  if unit.strictTypes then ["declare(strict_types=1);"] else []

/-- A namespace in braces is one block, and its sections stand apart like those of the others. -/
theorem spacedLines_namespace (printer : Printer) (unit : SourceUnit) (ns : Namespace) :
    Text.spacedLines (if isBraced unit then
        ["\n\n".intercalate
          ([if ns.isGlobal then "namespace \x7b" else "namespace " ++ ns.name ++ " \x7b"] ++
            printer.namespaceBlocks ns ++ ["\x7d"])]
      else (if ns.isGlobal then [] else ["namespace " ++ ns.name ++ ";"]) ++
        printer.namespaceBlocks ns) =
      Text.spacedLines (printer.sections (isBraced unit) ns) := by
  rw [sections, headerLine?]
  cases isBraced unit with
  | true =>
      simp only [if_true, Option.toList_some]
      rw [← Text.spacedLines_intercalate (List.append_ne_nil_of_right_ne_nil _ (by simp))]
      simp only [Text.spacedLines, List.flatMap_singleton]
  | false =>
      simp only [Bool.false_eq_true, if_false, List.append_nil]
      cases ns.isGlobal with
      | true => rfl
      | false => rfl

/-- **The lines of a printed unit** are those of its sections. -/
theorem lines_print (printer : Printer) (unit : SourceUnit) :
    Text.lines (printer.print unit) = "<?php" :: Text.spacedLines (directives unit ++
      unit.namespaces.values.flatMap (printer.sections (isBraced unit))) := by
  have all : "" :: Text.lines (printer.print unit) = Text.spacedLines (printer.blocks unit) :=
    Text.spacedLines_intercalate (by simp [blocks])
  have tag : Text.spacedLines ["<?php"] = ["", "<?php"] := by decide +kernel
  rw [blocks, List.append_assoc, Text.spacedLines_append, tag, List.cons_append,
    List.singleton_append, List.cons.injEq] at all
  rw [all.2, Text.spacedLines_append, Text.spacedLines_append, directives]
  congr 2
  unfold Text.spacedLines
  rw [List.flatMap_assoc, List.flatMap_assoc]
  exact List.flatMap_congr fun ns _ => spacedLines_namespace printer unit ns

/-! ## Imports -/

def listedImports (ns : Namespace) : List Import := sortBy importsInOrder ns.allImports

theorem mem_listedImports {ns : Namespace} {i : Import} :
    i ∈ listedImports ns ↔ i ∈ ns.allImports :=
  mem_sortBy

theorem namespaceBlocks_eq (printer : Printer) (ns : Namespace) :
    printer.namespaceBlocks ns =
      (if (listedImports ns).isEmpty then []
        else ["\n".intercalate ((listedImports ns).map importLine)]) ++
        ns.types.values.map (printer.type ns.scope) := rfl

theorem exists_importLine (i : Import) : ∃ rest, importLine i = "use " ++ rest ++ ";" := by
  rw [importLine]
  split
  · exact ⟨(i.kind.keyword?.map (· ++ " ")).getD "" ++ i.name ++ " as " ++ i.localName,
      by simp only [String.append_assoc]⟩
  · exact ⟨(i.kind.keyword?.map (· ++ " ")).getD "" ++ i.name, by simp only [String.append_assoc]⟩

theorem lineFeed_not_mem_importLine {i : Import} (name : Name.WellFormed i.name)
    (localName : Name.WellFormed i.localName) : '\n' ∉ (importLine i).toList := by
  have plain : ∀ {s : String}, Name.WellFormed s → '\n' ∉ s.toList := by
    intro s wf inside
    exact absurd (wf.no_blank _ inside) (by decide)
  have keyword : '\n' ∉ ((i.kind.keyword?.map (· ++ " ")).getD "").toList := by
    cases i.kind <;> decide
  rw [importLine]
  split
  · simp [plain name, plain localName, keyword]
  · simp [plain name, keyword]

/-- The block of imports has one line for each. -/
theorem lines_imports {imports : List Import} (nonempty : imports ≠ [])
    (wf : ∀ i ∈ imports, Name.WellFormed i.name ∧ Name.WellFormed i.localName) :
    Text.lines ("\n".intercalate (imports.map importLine) ++ "\n") = imports.map importLine := by
  apply Text.lines_intercalate (by simpa using nonempty)
  intro line listed
  obtain ⟨i, inside, rfl⟩ := List.mem_map.1 listed
  refine ⟨lineFeed_not_mem_importLine (wf i inside).1 (wf i inside).2, ?_⟩
  obtain ⟨rest, own⟩ := exists_importLine i
  rw [own, String.toList_append, List.getLast?_append_of_ne_nil _ (by simp)]
  simp

/-! ## Types -/

/-- A type ends with a brace on a line of its own. -/
theorem exists_brace_type (printer : Printer) (scope : Scope) (decl : TypeDecl) :
    ∃ front, printer.type scope decl = front ++ "\n" ++ "\x7d" := by
  simp only [type]
  split
  · exact ⟨docBlock decl.doc "" ++ header scope decl ++ "\n\x7b", String.toList_inj.1 (by simp)⟩
  · exact ⟨docBlock decl.doc "" ++ header scope decl ++ "\n\x7b\n" ++
      "\n\n".intercalate (printer.members scope decl), String.toList_inj.1 (by simp)⟩

theorem lines_type (printer : Printer) (scope : Scope) (decl : TypeDecl) :
    Text.lines (printer.type scope decl ++ "\n") = Text.lines (printer.type scope decl) := by
  obtain ⟨front, ends⟩ := exists_brace_type printer scope decl
  rw [ends, String.append_assoc, Text.lines_append front, Text.lines_append front]
  rfl

end Printer

end Emend

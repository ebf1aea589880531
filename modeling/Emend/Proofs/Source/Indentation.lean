import Emend.Proofs.Layout.Reindent
import Emend.Proofs.Source.TraitUse

/-!
# What is read is printed so that it is read again

A body, a value and the rules of a trait use are read without their indentation and printed with
the indentation of the printer. Reading what was printed gives them back
(`read_body`, `read_value`, `read_traitUse`), whatever the width of the printer, provided that the
literals are known to both sides: the file that is read the second time has the literals of the
first one, moved along with the text, and the printer finds them in the code that it prints
(`Printer.FindsLiterals`).
-/

set_option autoImplicit false

namespace Emend

open Layout (IsLiteral ink owned inkMarks)

namespace Text

theorem exists_trimChars (cs : List Char) :
    ∃ trail, cs = cs.takeWhile isBlank ++ trimChars cs ++ trail ∧
      ink (cs.takeWhile isBlank) = [] ∧ ink trail = [] := by
  obtain ⟨trail, cut, blank⟩ := exists_eq_dropEndWhile_append isBlank (cs.dropWhile isBlank)
  refine ⟨trail, ?_, ?_, Layout.ink_eq_nil_iff.2 blank⟩
  · rw [List.append_assoc, trimChars, ← cut, List.takeWhile_append_dropWhile]
  · exact Layout.ink_eq_nil_iff.2 fun c inside => List.all_eq_true.1 List.all_takeWhile c inside

theorem ink_trimChars (cs : List Char) : ink (trimChars cs) = ink cs := by
  obtain ⟨trail, cut, before, after⟩ := exists_trimChars cs
  rw [congrArg ink cut, Layout.ink_append, Layout.ink_append, before, after, List.nil_append,
    List.append_nil]

theorem trimChars_of_blank {cs : List Char} (blank : ink cs = []) : trimChars cs = [] := by
  have empty : cs.dropWhile isBlank = [] := by simpa using Layout.ink_eq_nil_iff.1 blank
  rw [trimChars, empty]
  rfl

/-- Blanks around a text that begins and ends with ink are trimmed. -/
theorem trimChars_append {lead cs trail : List Char} (before : ink lead = [])
    (after : ink trail = []) (ends : Layout.InkEnds cs) : trimChars (lead ++ cs ++ trail) = cs := by
  obtain ⟨first, last⟩ := ends
  have start : (lead ++ cs ++ trail).dropWhile isBlank = cs ++ trail := by
    rw [List.append_assoc, List.dropWhile_append_of_pos (Layout.ink_eq_nil_iff.1 before)]
    cases cs with
    | nil => simp at first
    | cons c cs =>
        have dark : isBlank c = false := by simpa [Layout.isInk] using first
        exact List.dropWhile_cons_of_neg (by simp [dark])
  rcases List.eq_nil_or_concat cs with rfl | ⟨front, d, rfl⟩
  · simp at last
  · have dark : isBlank d = false := by simpa [Layout.isInk] using last
    have gone : dropEndWhile isBlank trail = [] :=
      List.rdropWhile_eq_nil_iff.2 (Layout.ink_eq_nil_iff.1 after)
    rw [trimChars, start, List.concat_eq_append, List.append_assoc, List.singleton_append,
      dropEndWhile_append_cons dark, gone]

end Text

namespace Layout

theorem dedentBlock_nil (text : String) :
    dedentBlock text [] =
      dedentBlock text (inkMarks (fun _ => false) 0 (Text.splitChars '\n' text.toList)) := by
  rw [dedentBlock, dedentBlock, markedLines_nil, markedLines_inkMarks]

theorem indentLines_nil (text pad : String) :
    indentLines text pad [] =
      indentLines text pad (inkMarks (fun _ => false) 0 (Text.splitChars '\n' text.toList)) := by
  rw [indentLines, indentLines, markedLines_nil, markedLines_inkMarks]

end Layout

namespace Printer

/-- The printer takes these spans of some code for its literals, as far as its lines are
concerned. -/
def FindsLiterals (before code after : String) (spans : List Span) : Prop :=
  fragmentMarks before code after = marksFrom spans 0 (Text.splitChars '\n' code.toList)

def pad (width : Nat) : String := .ofList (List.replicate width ' ')

theorem ink_pad (width : Nat) : ink (pad width).toList = [] := by
  simp [pad, ink, Layout.isInk, Text.isBlank]

theorem lineFeed_not_mem_pad (width : Nat) : '\n' ∉ (pad width).toList := by
  simp [pad]

theorem pad_append_pad (width : Nat) :
    pad width ++ pad width = .ofList (List.replicate (width + width) ' ') := by
  rw [pad, ← String.ofList_append, List.replicate_append_replicate]

/-- What stands between the braces of a printed block. -/
def between (inner : String) (pad : String) : String :=
  "\n" ++ (if inner.isEmpty then "" else inner ++ "\n") ++ pad

theorem ink_between (inner : String) (width : Nat) :
    ink (between inner (pad width)).toList = ink inner.toList := by
  unfold between
  split
  · rename_i empty
    simp [String.isEmpty_iff.1 empty, Layout.ink_cons_of_blank, ink_pad]
  · simp [Layout.ink_cons_of_blank, ink_pad]

/-- A body without line feeds at its ends stands between the braces as it is padded. -/
theorem body_eq_between {text : String} (first : text.toList.head? ≠ some '\n')
    (last : text.toList.getLast? ≠ some '\n') (pad : String) :
    body text pad = "\n" ++ pad ++ "\x7b" ++
      between (Layout.indentLines text (pad ++ pad) (fragmentMarks "<?php\n" text "\n")) pad ++
        "\x7d" := by
  have start : Text.dropStart '\n' text = text := by
    rw [Text.dropStart, List.dropWhile_eq_self_iff.2, String.ofList_toList]
    intro nonempty feed
    exact first (by simpa [List.head?_eq_getElem?, nonempty] using feed)
  have stop : Text.dropEnd '\n' text = text := by
    rw [Text.dropEnd, Text.dropEndWhile_eq_rdropWhile, List.rdropWhile_eq_self_iff.2,
      String.ofList_toList]
    intro nonempty feed
    rw [beq_iff_eq] at feed
    exact last ((List.getLast?_eq_getLast_of_ne_nil nonempty).trans (congrArg some feed))
  simp only [body, between, start, stop, String.append_assoc]
  rfl

end Printer

namespace Declaration

namespace File

/-! ## Bodies -/

/-- A block in braces stands in the file, and `inner` is what stands between the braces. -/
structure Block (file : File) (block : Span) (inner : String) : Prop where
  within : block.stop ≤ file.text.size
  text : file.slice block = "\x7b" ++ inner ++ "\x7d"

theorem Block.slice_inner {file : File} {block : Span} {inner : String}
    (stands : file.Block block inner) : file.slice ⟨block.start + 1, block.stop - 1⟩ = inner := by
  obtain ⟨within, text⟩ := stands
  have chars : (file.text.toList.drop block.start).take (block.stop - block.start) =
      '\x7b' :: (inner.toList ++ ['\x7d']) := by
    have all := congrArg String.toList text
    simpa [slice, Span.slice] using all
  have length : block.stop - block.start = inner.toList.length + 2 := by
    have all := congrArg List.length chars
    rw [List.length_take, List.length_drop, Array.length_toList, List.length_cons,
      List.length_append, List.length_singleton] at all
    omega
  have rest : (file.text.toList.drop (block.start + 1)).take (block.stop - block.start - 1) =
      inner.toList ++ ['\x7d'] := by
    have tail := congrArg (List.drop 1) chars
    rwa [List.drop_take, List.drop_drop, List.drop_one, List.tail_cons] at tail
  have front := congrArg (List.take inner.toList.length) rest
  rw [List.take_take, List.take_left' rfl, Nat.min_eq_left (by omega)] at front
  have count : block.stop - 1 - (block.start + 1) = inner.toList.length := by omega
  rw [slice, Span.slice, Array.toList_extract, List.extract_eq_take_drop, count, front,
    String.ofList_toList]

section

variable {file : File} {block : Span} {inner : String} (stands : file.Block block inner)
  (literals : ∀ span ∈ file.literals, IsLiteral (block.start + 1) inner.toList span)

include stands literals

theorem body_eq :
    file.body block = Layout.dedentBlock inner
      (inkMarks (owned (block.start + 1) inner.toList file.literals) 0
        (Text.splitChars '\n' inner.toList)) := by
  rw [body, stands.slice_inner, marks, Layout.marksFrom_eq_inkMarks literals]

/-- **A body is read as it was printed.** -/
theorem read_body {width : Nat}
    (found : Printer.FindsLiterals "<?php\n" (file.body block) "\n" (file.literals.map
      (Span.relocate (block.start + 1) inner.toList 0 (file.body block).toList)))
    {inner' : String}
    (printed : Printer.body (file.body block) (Printer.pad width) =
      "\n" ++ Printer.pad width ++ "\x7b" ++ inner' ++ "\x7d")
    {file' : File} {block' : Span} (stands' : file'.Block block' inner')
    (moved : file'.literals = file.literals.map
      (Span.relocate (block.start + 1) inner.toList (block'.start + 1) inner'.toList)) :
    file'.body block' = file.body block := by
  have free := Layout.owned_length_ink literals
  have read := body_eq stands literals
  have ends := Layout.dedentBlock_ends Layout.owned_zero free
  have same := (Layout.moves_dedentBlock _ inner free).ink_eq
  rw [← read] at ends same
  have marks' := found.trans (Layout.marksFrom_relocate same literals)
  rw [Printer.body_eq_between ends.1 ends.2, marks'] at printed
  obtain rfl : Printer.between (Layout.indentLines (file.body block)
      (Printer.pad width ++ Printer.pad width)
      (inkMarks (owned (block.start + 1) inner.toList file.literals) 0
        (Text.splitChars '\n' (file.body block).toList))) (Printer.pad width) = inner' := by
    simpa using printed
  have spaces : ink (Printer.pad width ++ Printer.pad width).toList = [] := by
    simp [Printer.ink_pad]
  have same' := (Layout.moves_indentLines (owned (block.start + 1) inner.toList file.literals)
    (file.body block) spaces).ink_eq.trans same
  rw [← Printer.ink_between _ width] at same'
  have again := Layout.dedentBlock_indentLines Layout.owned_zero free (width + width)
    (Printer.ink_pad width) (Printer.lineFeed_not_mem_pad width)
  rw [← read, ← Printer.pad_append_pad] at again
  rw [body, stands'.slice_inner, marks, moved, Layout.marksFrom_relocate same' literals]
  exact again

end

/-! ## Values -/

section

variable {file : File} {text : String} {offset : Nat}
  (literals : ∀ span ∈ file.literals, IsLiteral offset text.toList span)

include literals

theorem value_eq :
    file.value text offset = Layout.dedentContinuation (Text.trim text)
      (inkMarks (owned offset text.toList file.literals) 0
        (Text.splitChars '\n' (Text.trim text).toList)) := by
  obtain ⟨trail, cut, before, after⟩ := Text.exists_trimChars text.toList
  rw [cut] at literals
  have inside := fun span listed => (literals span listed).of_blanks before after
  have same := Layout.owned_of_blanks before after literals
  rw [← cut] at same
  rw [value, marks, Text.trim, String.toList_ofList, Layout.marksFrom_eq_inkMarks inside, same]

/-- **A value is read as it was printed.** -/
theorem read_value {width : Nat}
    (found : Printer.FindsLiterals "<?php\n$_ = " (file.value text offset) ";\n"
      (file.literals.map (Span.relocate offset text.toList 0 (file.value text offset).toList)))
    {lead trail : String} (before : ink lead.toList = []) (after : ink trail.toList = [])
    {written : String}
    (printed : written =
      lead ++ Printer.value (file.value text offset) (Printer.pad width) ++ trail)
    {file' : File} {offset' : Nat}
    (moved : file'.literals =
      file.literals.map (Span.relocate offset text.toList offset' written.toList)) :
    file'.value written offset' = file.value text offset := by
  have read := value_eq literals
  have same : ink (file.value text offset).toList = ink text.toList := by
    rw [read, (Layout.moves_dedentContinuation _ (Text.trim text)).ink_eq, Text.trim,
      String.toList_ofList, Text.ink_trimChars]
  have marks' := found.trans (Layout.marksFrom_relocate same literals)
  have same' : ink written.toList = ink text.toList := by
    rw [printed, Printer.value, marks', String.toList_append, String.toList_append,
      Layout.ink_append, Layout.ink_append, before, after, List.nil_append, List.append_nil,
      (Layout.moves_continueLines _ (file.value text offset) (Printer.ink_pad width)).ink_eq, same]
  have literals' : ∀ span ∈ file'.literals, IsLiteral offset' written.toList span := by
    intro span listed
    rw [moved] at listed
    obtain ⟨first, there, rfl⟩ := List.mem_map.1 listed
    exact Layout.isLiteral_relocate same' (literals first there)
  rw [value_eq literals', moved, Layout.owned_relocate same' literals, read]
  by_cases blank : ink text.toList = []
  · rw [Text.trim, Text.trim, Text.trimChars_of_blank blank,
      Text.trimChars_of_blank (same'.trans blank)]
  · have ends : Layout.InkEnds (Text.trim text).toList := by
      rw [Text.trim, String.toList_ofList]
      exact Layout.inkEnds_trimChars blank
    have ends' := Layout.inkEnds_continueLines (owned offset text.toList file.literals) ends width
    have again := Layout.dedentContinuation_continueLines
      (owned offset text.toList file.literals) (Text.trim text) width
    rw [← read, ← Printer.pad] at again ends'
    have trimmed : Text.trim written =
        Printer.value (file.value text offset) (Printer.pad width) := by
      rw [printed, Text.trim, String.toList_append, String.toList_append, Printer.value, marks',
        Text.trimChars_append before after ends', String.ofList_toList]
    rw [trimmed, Printer.value, marks', ← read]
    exact again

end

end File

/-! ## Rules of a trait use -/

/-- The rules of a trait use are read as a block in which nothing is owned. -/
theorem exists_rules {text : String} {use : TraitUse} (read : use ∈ traitUses text) {rules : String}
    (has : use.adaptations = some rules) :
    ∃ inner : String, rules = Layout.dedentBlock inner [] := by
  have plain : ∀ names : List String,
      ∀ use ∈ names.map (fun name => TraitUse.mk name none), use.adaptations = none := by
    intro names use listed
    obtain ⟨name, -, rfl⟩ := List.mem_map.1 listed
    rfl
  unfold traitUses at read
  extract_lets trimmed rest at read
  clear_value trimmed rest
  cases cut : Text.cut? '\x7b' rest with
  | none =>
      simp only [cut] at read
      rw [plain _ use read] at has
      cases has
  | some parts =>
      simp only [cut] at read
      have each := plain (((Text.split ',' parts.1).map Text.trim).filter (!·.isEmpty))
      generalize List.map (fun name => TraitUse.mk name none)
        (((Text.split ',' parts.1).map Text.trim).filter (!·.isEmpty)) = uses at read each
      -- The last of the names has the rules, if there is any name.
      cases last : uses.getLast? with
      | none =>
          simp only [last] at read
          rw [each use read] at has
          cases has
      | some use' =>
          simp only [last] at read
          rcases List.mem_append.1 read with front | back
          · rw [each use (List.dropLast_subset _ front)] at has
            cases has
          · rw [List.mem_singleton.1 back] at has
            exact ⟨_, (Option.some.inj has).symm⟩

theorem stripBraces_braces (inner : String) :
    stripBraces ("\x7b" ++ (inner ++ "\x7d")) = inner := by
  have chars : ("\x7b" ++ (inner ++ "\x7d")).toList = '\x7b' :: inner.toList ++ ['\x7d'] := by simp
  have trimmed : Text.trim ("\x7b" ++ (inner ++ "\x7d")) = "\x7b" ++ (inner ++ "\x7d") := by
    rw [Text.trim, chars, Text.trimChars_of_ends (by decide) (by decide), ← chars,
      String.ofList_toList]
  have opening : Text.strip? "\x7b" ("\x7b" ++ (inner ++ "\x7d")) = some (inner ++ "\x7d") :=
    Text.strip?_eq_some_iff.2 rfl
  have closing : Text.stripEnd? "\x7d" (inner ++ "\x7d") = some inner := by
    simp [Text.stripEnd?, Text.stripSuffix?, Text.stripPrefix?]
  rw [stripBraces, trimmed, opening, Option.bind_some, closing, Option.getD_some]

theorem IsTraitName.inkEnds {name : String} (named : IsTraitName name) :
    Layout.InkEnds name.toList := by
  have nonempty : name.toList ≠ [] := fun empty => named.1 (String.toList_eq_nil_iff.1 empty)
  have dark : ∀ c ∈ name.toList, Layout.isInk c = true := by
    intro c inside
    simp [Layout.isInk, (named.2 c inside).1]
  constructor
  · rw [List.head?_eq_some_head nonempty]
    exact dark _ (List.head_mem nonempty)
  · rw [List.getLast?_eq_getLast_of_ne_nil nonempty]
    exact dark _ (List.getLast_mem nonempty)

/-- A trait use with a block is read as its name with what stands in the block. -/
theorem traitUses_block {lead name : String} (blank : ink lead.toList = []) (named : IsTraitName name)
    (inner : String) :
    traitUses (lead ++ "use " ++ name ++ " \x7b" ++ inner ++ "\x7d") =
      [⟨name, some (Layout.dedentBlock inner [])⟩] := by
  have cut : Text.trim (lead ++ "use " ++ name ++ " \x7b" ++ inner ++ "\x7d") =
      "use" ++ (" " ++ name ++ " " ++ String.singleton '\x7b' ++ (inner ++ "\x7d")) := by
    have ends : Layout.InkEnds
        ("use" ++ (" " ++ name ++ " " ++ String.singleton '\x7b' ++ (inner ++ "\x7d"))).toList := by
      constructor
      · simp [Layout.isInk, Text.isBlank]
      · have chars : ("use" ++ (" " ++ name ++ " " ++ String.singleton '\x7b' ++
            (inner ++ "\x7d"))).toList =
              ("use" ++ (" " ++ name ++ " \x7b" ++ inner)).toList ++ ['\x7d'] := by simp
        rw [chars, List.getLast?_concat]
        decide
    have trimmed := Text.trimChars_append blank Layout.ink_nil ends
    rw [Text.trim, ← String.toList_inj, String.toList_ofList, ← trimmed]
    simp
  have braceless : '\x7b' ∉ (" " ++ name ++ " ").toList := by
    simpa using fun inside => (named.2 _ inside).2 (by simp)
  have single : (Text.split ',' (" " ++ name ++ " ")).map Text.trim = [name] := by
    have plain : ',' ∉ (" " ++ name ++ " ").toList := by
      simpa using fun inside => (named.2 _ inside).2 (by simp)
    have trimmed := @Text.trimChars_append [' '] _ [' '] (by decide) (by decide) named.inkEnds
    rw [Text.split, Text.splitChars_of_not_mem plain, List.map_singleton, List.map_singleton,
      String.ofList_toList, Text.trim, String.toList_append, String.toList_append]
    exact congrArg (fun cs => [String.ofList cs]) trimmed |>.trans (by rw [String.ofList_toList])
  have nonempty : name.isEmpty = false := by simpa using named.1
  have stripped : Text.strip? "use"
      ("use" ++ (" " ++ name ++ " " ++ String.singleton '\x7b' ++ (inner ++ "\x7d"))) =
        some (" " ++ name ++ " " ++ String.singleton '\x7b' ++ (inner ++ "\x7d")) :=
    Text.strip?_eq_some_iff.2 rfl
  have parts : Text.cut? '\x7b' (" " ++ name ++ " " ++ String.singleton '\x7b' ++
      (inner ++ "\x7d")) = some (" " ++ name ++ " ", inner ++ "\x7d") :=
    Text.cut?_eq_some_iff.2 ⟨rfl, braceless⟩
  unfold traitUses
  simp only [cut, stripped, Option.getD_some, parts]
  simp [single, nonempty, stripBraces_braces]

/-- **The rules of a trait use are read as they were printed.** -/
theorem read_traitUse {text : String} {use : TraitUse} (read : use ∈ traitUses text) {rules : String}
    (has : use.adaptations = some rules) {scope : Scope} {name : String}
    (named : IsTraitName (scope.shorten name)) (width : Nat) :
    traitUses (Printer.traitUse scope ⟨name, some rules⟩ (Printer.pad width)) =
      [⟨scope.shorten name, some rules⟩] := by
  obtain ⟨inner, rfl⟩ := exists_rules read has
  have again : Layout.dedentBlock (Printer.between (Layout.indentLines (Layout.dedentBlock inner [])
      (Printer.pad width ++ Printer.pad width) []) (Printer.pad width)) [] =
        Layout.dedentBlock inner [] := by
    simp only [Layout.dedentBlock_nil, Layout.indentLines_nil, Printer.pad_append_pad]
    exact @Layout.dedentBlock_indentLines (fun _ => false) rfl inner rfl (width + width) _
      (Printer.ink_pad width) (Printer.lineFeed_not_mem_pad width)
  have printed : Printer.traitUse scope ⟨name, some (Layout.dedentBlock inner [])⟩ (Printer.pad width) =
      Printer.pad width ++ "use " ++ scope.shorten name ++ " \x7b" ++
        Printer.between (Layout.indentLines (Layout.dedentBlock inner [])
          (Printer.pad width ++ Printer.pad width) []) (Printer.pad width) ++ "\x7d" := by
    simp only [Printer.traitUse, Printer.between, String.append_assoc]
    rfl
  rw [printed, traitUses_block (Printer.ink_pad width) named, again]

/-- **Reading undoes printing.** A body, a value and the rules of a trait use are printed with the
indentation of the printer, and reading what was printed, with the literals moved along, gives
them back. -/
theorem read_undoes_print (width : Nat) :
    (∀ {file file' : File} {block block' : Span} {inner inner' : String},
      file.Block block inner →
      (∀ span ∈ file.literals, IsLiteral (block.start + 1) inner.toList span) →
      Printer.FindsLiterals "<?php\n" (file.body block) "\n" (file.literals.map
        (Span.relocate (block.start + 1) inner.toList 0 (file.body block).toList)) →
      Printer.body (file.body block) (Printer.pad width) =
        "\n" ++ Printer.pad width ++ "\x7b" ++ inner' ++ "\x7d" →
      file'.Block block' inner' →
      file'.literals = file.literals.map
        (Span.relocate (block.start + 1) inner.toList (block'.start + 1) inner'.toList) →
      file'.body block' = file.body block) ∧
    (∀ {file file' : File} {text lead trail written : String} {offset offset' : Nat},
      (∀ span ∈ file.literals, IsLiteral offset text.toList span) →
      Printer.FindsLiterals "<?php\n$_ = " (file.value text offset) ";\n"
        (file.literals.map (Span.relocate offset text.toList 0 (file.value text offset).toList)) →
      ink lead.toList = [] → ink trail.toList = [] →
      written = lead ++ Printer.value (file.value text offset) (Printer.pad width) ++ trail →
      file'.literals =
        file.literals.map (Span.relocate offset text.toList offset' written.toList) →
      file'.value written offset' = file.value text offset) ∧
    (∀ {text rules name : String} {use : TraitUse} {scope : Scope},
      use ∈ traitUses text → use.adaptations = some rules → IsTraitName (scope.shorten name) →
      traitUses (Printer.traitUse scope ⟨name, some rules⟩ (Printer.pad width)) =
        [⟨scope.shorten name, some rules⟩]) := by
  refine ⟨?_, ?_, ?_⟩
  · intro file file' block block' inner inner' stands literals found printed stands' moved
    exact File.read_body stands literals found printed stands' moved
  · intro file file' text lead trail written offset offset' literals found before after printed moved
    exact File.read_value literals found before after printed moved
  · intro text rules name use scope read has named
    exact read_traitUse read has named width

namespace Example

/-- What stands between the braces of a body with a literal of two lines. -/
def inner : String := "\n    $a = 'x  \n y';\n      f();\n  "

def file : File := ⟨("\x7b" ++ inner ++ "\x7d").toList.toArray, [⟨11, 19⟩]⟩

/-- What is printed between the braces with an indentation of one space. -/
def printed : String := "\n  $a = 'x  \n y';\n    f();\n "

def file' : File := ⟨("\x7b" ++ printed ++ "\x7d").toList.toArray, [⟨9, 17⟩]⟩

/-- The second line of the literal stays, the other lines move. -/
theorem read_undoes_print_quoted :
    (file.body ⟨0, 35⟩ = "$a = 'x  \n y';\n  f();" ∧
      Printer.body (file.body ⟨0, 35⟩) " " = "\n \x7b" ++ printed ++ "\x7d" ∧
      file'.body ⟨0, 30⟩ = file.body ⟨0, 35⟩) ∧
    ((File.mk #[] [⟨7, 15⟩]).value " ['x  \n y',\n      1\n    ]" 5 = "['x  \n y',\n  1\n]" ∧
      (File.mk #[] [⟨2, 10⟩]).value " ['x  \n y',\n   1\n ]" 0 =
        (File.mk #[] [⟨7, 15⟩]).value " ['x  \n y',\n      1\n    ]" 5) ∧
    traitUses " use B \x7b\n  a as b;\n\n    c as d;\n \x7d" =
      [⟨"B", some "a as b;\n\n  c as d;"⟩] := by
  obtain ⟨bodies, values, rules⟩ := read_undoes_print 1
  have body : file.body ⟨0, 35⟩ = "$a = 'x  \n y';\n  f();" := by decide +kernel
  have bodyMarks : Printer.fragmentMarks "<?php\n" "$a = 'x  \n y';\n  f();" "\n" =
      [⟨false, true⟩, ⟨true, false⟩, ⟨false, false⟩] := by decide +kernel
  have written : Printer.body (file.body ⟨0, 35⟩) " " = "\n \x7b" ++ printed ++ "\x7d" := by
    rw [body, Printer.body_eq_between (by decide) (by decide), bodyMarks]
    decide +kernel
  have value : (File.mk #[] [⟨7, 15⟩]).value " ['x  \n y',\n      1\n    ]" 5 =
      "['x  \n y',\n  1\n]" := by decide +kernel
  have valueMarks : Printer.fragmentMarks "<?php\n$_ = " "['x  \n y',\n  1\n]" ";\n" =
      [⟨false, true⟩, ⟨true, false⟩, ⟨false, false⟩, ⟨false, false⟩] := by decide +kernel
  refine ⟨⟨body, written, ?_⟩, ⟨value, ?_⟩, ?_⟩
  · have stands : file.Block ⟨0, 35⟩ inner := ⟨by decide +kernel, by decide +kernel⟩
    have stands' : file'.Block ⟨0, 30⟩ printed := ⟨by decide +kernel, by decide +kernel⟩
    refine bodies stands (by decide +kernel) ?_ written stands' (by decide +kernel)
    rw [body, Printer.FindsLiterals, bodyMarks]
    decide +kernel
  · have blank : ink " ".toList = [] := by decide
    have empty : ink "".toList = [] := by decide
    refine values (by decide +kernel) ?_ blank empty ?_ (by decide +kernel)
    · rw [value, Printer.FindsLiterals, valueMarks]
      decide +kernel
    · rw [value, Printer.value, valueMarks]
      decide +kernel
  · have read : ⟨"B", some "a as b;\n\n  c as d;"⟩ ∈
        traitUses "use A, B \x7b\n  a as b;\n\n    c as d; \x7d" := by decide +kernel
    have short : (Scope.mk "" .empty).shorten "B" = "B" := by decide +kernel
    have named : IsTraitName "B" := by
      refine ⟨by decide, fun c inside => ?_⟩
      obtain rfl := List.mem_singleton.1 inside
      decide
    have again := rules read rfl (short.symm ▸ named)
    have text : Printer.traitUse (Scope.mk "" .empty) ⟨"B", some "a as b;\n\n  c as d;"⟩
        (Printer.pad 1) = " use B \x7b\n  a as b;\n\n    c as d;\n \x7d" := by decide +kernel
    rwa [text, short] at again

end Example

end Declaration

end Emend

import Emend.Proofs.Layout.Carried
import Emend.Proofs.Source.Indentation

/-!
# Literals in the code of members

The literals that lie within a body, a value or a parameter list decide alone how that is read,
provided that all other literals of the file lie apart from it. What is read is then printed so
that it carries them along (`body_carries`, `value_carries`, `parameters_carries`).

All else is moved. The lines of a body are printed with the indentation of the printer in the
place of their common indentation (`printed_body`); so a line that begins outside of the literals
is printed as it was written exactly when these two are the same (`Line.reindented_eq_iff`). Text
between a closing and an opening tag is no literal: it is moved as code is.
-/

set_option autoImplicit false

namespace Emend

open Layout (Line IsLiteral Carries Apart Moves Laid charsAt within ink owned inkMarks)

namespace Layout

/-! ## Lines with another indentation -/

/-- The line with `width` spaces in the place of its first `common` ones, if it may be moved. -/
def Line.reindented (common width : Nat) (line : Line) : List Char :=
  (line.dedented common).padded (List.replicate width ' ')

theorem Line.reindented_of_not_movable {line : Line} (stays : line.isMovable = false)
    (common width : Nat) : line.reindented common width = line.chars := by
  rw [reindented, dedented_of_not_movable stays]
  exact congrArg Line.chars (indented_of_not_movable stays _)

/-- **A line stays as it is exactly when it is moved by nothing.** -/
theorem Line.Neat.reindented_eq_iff {line : Line} (neat : line.Neat)
    (movable : line.isMovable = true) {common : Nat} (deep : common ≤ line.indent) (width : Nat) :
    line.reindented common width = line.chars ↔ common = width := by
  obtain ⟨nonempty, free⟩ := isMovable_iff.1 movable
  have moved : line.reindented common width =
      List.replicate width ' ' ++ line.chars.drop common := by
    have filled := (isMovable_iff.1 ((neat.isMovable_dedented common).trans movable)).1
    have drops : (line.dedented common).chars = line.chars.drop common := by
      simp [Line.dedented, Line.dedent, free, Nat.min_eq_right deep]
    have free' : (line.dedented common).mark.opensInside = false := free
    rw [reindented, padded, free', List.isEmpty_eq_false_iff.2 filled, Bool.or_self, drops]
    rfl
  have bound : common ≤ line.chars.length :=
    Nat.le_trans deep (List.takeWhile_prefix _).length_le
  have spaces : line.chars.take common = List.replicate common ' ' := by
    refine List.eq_replicate_iff.2 ⟨List.length_take_of_le bound, fun c inside => ?_⟩
    have begins : line.chars.take common <+: line.chars.takeWhile (· == ' ') :=
      List.prefix_of_prefix_length_le (List.take_prefix ..) (List.takeWhile_prefix _)
        (by rw [List.length_take_of_le bound]; exact deep)
    have space := List.all_eq_true.1 List.all_takeWhile c (begins.subset inside)
    simpa using space
  rw [moved]
  constructor
  · intro same
    have lengths := congrArg List.length same
    rw [List.length_append, List.length_replicate, List.length_drop] at lengths
    omega
  · rintro rfl
    rw [← spaces, List.take_append_drop]

/-- Lines that were read are padded one by one, also if there are none. -/
theorem Laid.indentLines_joinLines {own : Nat → Bool} (start : own 0 = false) {lines : List Line}
    (laid : Laid own 0 lines) {text : String}
    (holds : text.toList = joinLines (lines.map Line.chars)) (pad : String) :
    Layout.indentLines text pad (inkMarks own 0 (Text.splitChars '\n' text.toList)) =
      .ofList (joinLines (lines.map (Line.padded pad.toList))) := by
  by_cases empty : lines = []
  · subst empty
    simp only [Layout.indentLines, markedLines_inkMarks, holds]
    simp [joinLines, Text.splitChars, inkLines, inkLine, Line.withoutTrailing, Text.dropEndWhile,
      start]
  · rw [laid.indentLines empty holds, List.map_map]
    rfl

end Layout

theorem Text.isInfix_append (lead text trail : String) :
    text.toList <:+: (lead ++ text ++ trail).toList :=
  ⟨lead.toList, trail.toList, by simp⟩

theorem Printer.isInfix_between (inner pad : String) :
    inner.toList <:+: (between inner pad).toList := by
  unfold between
  split
  · rename_i empty
    simp [String.isEmpty_iff.1 empty]
  · exact ⟨['\n'], '\n' :: pad.toList, by simp⟩

namespace Declaration

namespace File

/-! ## Places in a file -/

def chars (file : File) (span : Span) : List Char := charsAt 0 file.text.toList span

/-- The text stands at `offset` in the file. -/
def Stands (file : File) (text : String) (offset : Nat) : Prop :=
  ∃ before after, file.text.toList = before ++ text.toList ++ after ∧ before.length = offset

/-- The literals of the file that lie within the text at `offset`. -/
def literalsIn (file : File) (text : String) (offset : Nat) : List Span :=
  within offset text.toList file.literals

/-- Whether a place of this rank in the text at `offset` lies inside of a literal. -/
def owns (file : File) (text : String) (offset : Nat) : Nat → Bool :=
  owned offset text.toList (file.literalsIn text offset)

/-- What stands between the first and the last character of a span. -/
def inside (file : File) (span : Span) : String := file.slice ⟨span.start + 1, span.stop - 1⟩

variable {file : File}

theorem literals_literalsIn (file : File) (text : String) (offset : Nat) :
    ∀ span ∈ file.literalsIn text offset, IsLiteral offset text.toList span :=
  fun _ => Layout.isLiteral_of_mem_within

@[simp] theorem owns_zero (file : File) (text : String) (offset : Nat) :
    file.owns text offset 0 = false :=
  Layout.owned_zero

/-- Nothing behind the last of the ink is owned. -/
theorem owns_length_ink (file : File) (text : String) (offset : Nat) :
    file.owns text offset (ink text.toList).length = false :=
  Layout.owned_length_ink (file.literals_literalsIn text offset)

theorem stands_slice {span : Span} (order : span.start ≤ span.stop)
    (bound : span.stop ≤ file.text.size) : file.Stands (file.slice span) span.start := by
  refine ⟨file.text.toList.take span.start, file.text.toList.drop span.stop, ?_, ?_⟩
  · have rest : (file.text.toList.drop span.start).drop (span.stop - span.start) =
        file.text.toList.drop span.stop := by
      rw [List.drop_drop]
      congr 1
      omega
    rw [slice, Span.slice, String.toList_ofList, Array.toList_extract, List.extract_eq_take_drop,
      List.append_assoc, ← rest, List.take_append_drop, List.take_append_drop]
  · rw [List.length_take, Array.length_toList]
    omega

namespace Stands

variable {text lead trail : String} {offset : Nat}

theorem part (stands : file.Stands (lead ++ text ++ trail) offset) :
    file.Stands text (offset + lead.toList.length) := by
  obtain ⟨before, after, cut, length⟩ := stands
  refine ⟨before ++ lead.toList, trail.toList ++ after, ?_, ?_⟩
  · simp [cut]
  · rw [List.length_append, length]

theorem chars_eq (stands : file.Stands text offset) {span : Span}
    (literal : IsLiteral offset text.toList span) :
    file.chars span = charsAt offset text.toList span := by
  obtain ⟨before, after, cut, rfl⟩ := stands
  have moved := @Layout.charsAt_append 0 text.toList before after span (by rwa [Nat.zero_add])
  rwa [Nat.zero_add, ← cut] at moved

end Stands

theorem stands_of_slice {span : Span} {lead text trail : String}
    (bound : span.stop ≤ file.text.size) (cut : file.slice span = lead ++ text ++ trail)
    (nonempty : lead ≠ "") : file.Stands text (span.start + lead.toList.length) := by
  have order : span.start ≤ span.stop := by
    by_contra late
    have length := congrArg (fun s => s.toList.length) cut
    simp only [slice, Span.slice, String.toList_ofList, Array.length_toList, Array.size_extract,
      String.toList_append, List.length_append] at length
    have more := List.length_pos_iff.2 fun empty => nonempty (String.toList_eq_nil_iff.1 empty)
    omega
  have whole := stands_slice order bound
  rw [cut] at whole
  exact whole.part

/-! ## Bodies -/

/-- A block in which the literals of the file are found, by the reader and by the printer. -/
structure LegibleBody (file : File) (block : Span) : Prop where
  stands : file.Block block (file.inside block)
  apart : Apart (block.start + 1) (file.inside block).toList file.literals
  found : Printer.FindsLiterals "<?php\n" (file.body block) "\n"
    ((file.literalsIn (file.inside block) (block.start + 1)).map
      (Span.relocate (block.start + 1) (file.inside block).toList 0 (file.body block).toList))

/-- The lines of a body as they are read, without void lines at its ends. -/
def bodyLines (file : File) (block : Span) : List Line :=
  Text.dropEndWhile Line.isVoid ((Layout.markedLines (file.inside block).toList
    (file.marks (file.inside block) (block.start + 1))).dropWhile Line.isVoid)

theorem Block.stands {block : Span} {inner : String} (stands : file.Block block inner) :
    file.Stands inner (block.start + 1) :=
  stands_of_slice stands.within stands.text (by decide)

theorem body_eq_joinLines (file : File) (block : Span) :
    (file.body block).toList = Layout.joinLines (((file.bodyLines block).map
      (Line.dedented (Layout.commonIndent (file.bodyLines block)))).map Line.chars) := by
  rw [body, Layout.dedentBlock, String.toList_ofList, List.map_map]
  rfl

namespace LegibleBody

variable {block : Span} (legible : file.LegibleBody block)

include legible

theorem marks_eq :
    file.marks (file.inside block) (block.start + 1) =
      inkMarks (file.owns (file.inside block) (block.start + 1)) 0
        (Text.splitChars '\n' (file.inside block).toList) := by
  have whole : (file.inside block).toList = [] ++ (file.inside block).toList ++ [] := by simp
  have same := Layout.marksFrom_within legible.apart whole
  rw [marks, owns, ← Layout.marksFrom_eq_inkMarks (file.literals_literalsIn _ _)]
  exact same.symm

theorem moves_body :
    Moves (file.owns (file.inside block) (block.start + 1)) 0 (file.inside block).toList
      (file.body block).toList := by
  have moves := Layout.moves_dedentBlock _ (file.inside block)
    (file.owns_length_ink (file.inside block) (block.start + 1))
  rw [← legible.marks_eq] at moves
  exact moves

theorem fragmentMarks_eq :
    Printer.fragmentMarks "<?php\n" (file.body block) "\n" =
      inkMarks (file.owns (file.inside block) (block.start + 1)) 0
        (Text.splitChars '\n' (file.body block).toList) :=
  legible.found.trans
    (Layout.marksFrom_relocate legible.moves_body.ink_eq (file.literals_literalsIn _ _))

theorem laid_bodyLines :
    Laid (file.owns (file.inside block) (block.start + 1)) 0 (file.bodyLines block) := by
  rw [bodyLines, legible.marks_eq, Layout.markedLines_inkMarks]
  exact (Layout.laid_inkLines ..).dropWhile_isVoid.dropEndWhile_isVoid

theorem body_eq_between (width : Nat) :
    Printer.body (file.body block) (Printer.pad width) =
      "\n" ++ Printer.pad width ++ "\x7b" ++
        Printer.between (Layout.indentLines (file.body block)
          (Printer.pad width ++ Printer.pad width)
          (inkMarks (file.owns (file.inside block) (block.start + 1)) 0
            (Text.splitChars '\n' (file.body block).toList))) (Printer.pad width) ++ "\x7d" := by
  have ends := Layout.dedentBlock_ends (file.owns_zero (file.inside block) (block.start + 1))
    (file.owns_length_ink (file.inside block) (block.start + 1))
  rw [← legible.marks_eq] at ends
  change (file.body block).toList.head? ≠ _ ∧ (file.body block).toList.getLast? ≠ _ at ends
  rw [Printer.body_eq_between ends.1 ends.2, legible.fragmentMarks_eq]

/-- **How a body is printed**: its lines have another indentation. -/
theorem printed_body (width : Nat) :
    Printer.body (file.body block) (Printer.pad width) =
      "\n" ++ Printer.pad width ++ "\x7b" ++
        Printer.between (.ofList (Layout.joinLines ((file.bodyLines block).map
          (Line.reindented (Layout.commonIndent (file.bodyLines block)) (width + width)))))
          (Printer.pad width) ++ "\x7d" := by
  have laid := legible.laid_bodyLines.dedented (Layout.commonIndent (file.bodyLines block))
  have lines := laid.indentLines_joinLines (file.owns_zero _ _) (file.body_eq_joinLines block)
    (Printer.pad width ++ Printer.pad width)
  rw [legible.body_eq_between, lines, List.map_map, Printer.pad_append_pad, String.toList_ofList]
  rfl

/-- **A body is printed with its literals.** -/
theorem body_carries (width : Nat) :
    Carries file.chars (file.literalsIn (file.inside block) (block.start + 1))
      (Printer.body (file.body block) (Printer.pad width)).toList := by
  have literals := file.literals_literalsIn (file.inside block) (block.start + 1)
  have blank : ink (Printer.pad width ++ Printer.pad width).toList = [] := by
    simp [Printer.ink_pad]
  have written := Layout.moves_indentLines (file.owns (file.inside block) (block.start + 1))
    (file.body block) blank
  have carried := (legible.moves_body.trans written).carries literals
  rw [legible.body_eq_between]
  refine (carried.of_isInfix ?_).congr fun span listed =>
    legible.stands.stands.chars_eq (literals span listed)
  exact (Printer.isInfix_between _ _).trans (Text.isInfix_append ..)

end LegibleBody

/-! ## Values -/

structure LegibleValue (file : File) (text : String) (offset : Nat) : Prop where
  apart : Apart offset text.toList file.literals
  found : Printer.FindsLiterals "<?php\n$_ = " (file.value text offset) ";\n"
    ((file.literalsIn text offset).map
      (Span.relocate offset text.toList 0 (file.value text offset).toList))

/-- **A value is printed with its literals.** -/
theorem LegibleValue.value_carries {text : String} {offset : Nat}
    (legible : file.LegibleValue text offset) (stands : file.Stands text offset) (width : Nat) :
    Carries file.chars (file.literalsIn text offset)
      (Printer.value (file.value text offset) (Printer.pad width)).toList := by
  have literals := file.literals_literalsIn text offset
  obtain ⟨trail, cut, before, after⟩ := Text.exists_trimChars text.toList
  -- With the literals within the text alone the value is read in the same way.
  have read : file.value text offset =
      ({ file with literals := file.literalsIn text offset } : File).value text offset := by
    have same := Layout.marksFrom_within legible.apart cut
    rw [value, value, marks, marks, Text.trim, String.toList_ofList]
    exact congrArg _ same.symm
  have read' := read.trans (value_eq literals)
  have moves := Layout.moves_dedentContinuation (file.owns text offset) (Text.trim text)
  rw [owns, ← read'] at moves
  have same : ink (file.value text offset).toList = ink text.toList := by
    rw [moves.ink_eq, Text.trim, String.toList_ofList, Text.ink_trimChars]
  have marks' := legible.found.trans (Layout.marksFrom_relocate same literals)
  have written := Layout.moves_continueLines (file.owns text offset) (file.value text offset)
    (Printer.ink_pad width)
  rw [owns, ← marks'] at written
  -- The blanks around the value own nothing, so it is moved as its literals demand.
  rw [cut] at literals
  have inside := fun span listed => (literals span listed).of_blanks before after
  have trimmed := Layout.owned_of_blanks before after literals
  rw [← cut] at trimmed
  have moved := moves.trans written
  rw [Text.trim, String.toList_ofList, ← trimmed] at moved
  refine (moved.carries inside).congr fun span listed => ?_
  rw [← Layout.charsAt_append (inside span listed), ← cut]
  rw [← cut] at literals
  exact stands.chars_eq (literals span listed)

end File

/-! ## Parameters -/

section

variable {offset : Nat} {text : List Char} {spans : List Span}

/-- Collapsing gaps is a move: a gap is passed, and a space put for it, where no literal owns
the blanks. -/
theorem moves_collapseFrom (literals : ∀ span ∈ spans, IsLiteral offset text span) :
    ∃ written, collapseFrom spans offset false [] text = written.reverse ∧
      Moves (owned offset text spans) 0 text written := by
  -- What is left of the text after the part `before`; where a gap was passed nothing is owned.
  have rest : ∀ (after before : List Char) (gap : Bool) (out : List Char), text = before ++ after →
      (gap = true → owned offset text spans (ink before).length = false) →
      ∃ written, collapseFrom spans (offset + before.length) gap out after =
          written.reverse ++ out ∧
        Moves (owned offset text spans) (ink before).length after written := by
    intro after
    induction after with
    | nil => exact fun before gap out _ _ => ⟨[], rfl, .done _⟩
    | cons c after ih =>
        intro before gap out cut free
        have cut' : text = (before ++ [c]) ++ after := by simp [cut]
        have length : offset + before.length + 1 = offset + (before ++ [c]).length := by
          rw [List.length_append, List.length_singleton, Nat.add_assoc]
        have rank : (ink (before ++ [c])).length = (ink before).length + (ink [c]).length := by
          rw [Layout.ink_append, List.length_append]
        rw [collapseFrom, length]
        split
        · rename_i passed
          obtain ⟨blank, apart⟩ : Text.isBlank c = true ∧
              inAnySpan spans (offset + before.length) = false := by simpa using passed
          have white : Layout.isInk c = false := Layout.isInk_eq_false_iff.2 blank
          have here : owned offset text spans (ink before).length = false := by
            rw [← apart, Layout.inAnySpan_of_blank literals (by simp [cut, white]), cut,
              Layout.rank_length]
          rw [Layout.ink_cons_of_blank white, Layout.ink_nil, List.length_nil, Nat.add_zero] at rank
          obtain ⟨written, parts, moves⟩ := ih (before ++ [c]) true out cut' fun _ => by
            rwa [rank]
          rw [rank] at moves
          exact ⟨written, parts, .drop white here moves⟩
        · split
          · rename_i spaced
            have passed : gap = true := by
              simp only [Bool.and_eq_true] at spaced
              exact spaced.1.1.1
            obtain ⟨written, parts, moves⟩ := ih (before ++ [c]) false (c :: ' ' :: out) cut' nofun
            rw [rank] at moves
            refine ⟨' ' :: c :: written, by rw [parts]; simp, ?_⟩
            exact .put (by decide) (free passed) (.keep c moves)
          · obtain ⟨written, parts, moves⟩ := ih (before ++ [c]) false (c :: out) cut' nofun
            rw [rank] at moves
            exact ⟨c :: written, by rw [parts]; simp, .keep c moves⟩
  obtain ⟨written, parts, moves⟩ := rest text [] false [] rfl nofun
  exact ⟨written, by simpa using parts, moves⟩

/-- The literals within the text decide alone what is collapsed. -/
theorem collapseFrom_within (apart : Apart offset text spans) :
    collapseFrom (within offset text spans) offset false [] text =
      collapseFrom spans offset false [] text := by
  have rest : ∀ (after before : List Char) (gap : Bool) (out : List Char), text = before ++ after →
      collapseFrom (within offset text spans) (offset + before.length) gap out after =
        collapseFrom spans (offset + before.length) gap out after := by
    intro after
    induction after with
    | nil => exact fun _ _ _ _ => rfl
    | cons c after ih =>
        intro before gap out cut
        have bound : before.length ≤ text.length := by simp [cut]
        have same := Layout.inAnySpan_within apart bound
        have next := ih (before ++ [c])
        simp only [List.length_append, List.length_singleton, ← Nat.add_assoc] at next
        simp only [collapseFrom, same, next _ _ (by simp [cut])]
  exact rest text [] false [] rfl

end

namespace File

variable {file : File}

structure LegibleParameters (file : File) (list : Span) : Prop where
  bound : list.stop ≤ file.text.size
  text : file.slice list = "(" ++ file.inside list ++ ")"
  apart : Apart (list.start + 1) (file.inside list).toList file.literals
  ends : ∀ span ∈ file.literalsIn (file.inside list) (list.start + 1),
    (file.chars span).getLast? ≠ some ','

/-- **Parameters are read with their literals.** -/
theorem LegibleParameters.parameters_carries {list : Span}
    (legible : file.LegibleParameters list) :
    Carries file.chars (file.literalsIn (file.inside list) (list.start + 1))
      (parameters (file.slice list) list.start file.literals).toList := by
  have literals := file.literals_literalsIn (file.inside list) (list.start + 1)
  have stands : file.Stands (file.inside list) (list.start + 1) :=
    stands_of_slice legible.bound legible.text (by decide)
  have stripped : (Text.strip? "(" (file.slice list)).bind (Text.stripEnd? ")") =
      some (file.inside list) := by
    have opening : Text.strip? "(" (file.slice list) = some (file.inside list ++ ")") :=
      Text.strip?_eq_some_iff.2 (by rw [legible.text, String.append_assoc])
    rw [opening, Option.bind_some]
    simp [Text.stripEnd?, Text.stripSuffix?, Text.stripPrefix?]
  obtain ⟨written, collapsed, moves⟩ := moves_collapseFrom literals
  rw [literalsIn, collapseFrom_within legible.apart] at collapsed
  have text : (parameters (file.slice list) list.start file.literals).toList =
      Text.dropEndWhile Text.isBlank (Text.dropEndWhile (· == ',') written) := by
    simp only [parameters, stripped, collapsed, List.reverse_reverse, Text.trimEnd, Text.dropEnd,
      String.toList_ofList]
  have carried : Carries file.chars _ written := (moves.carries literals).congr fun span listed =>
    stands.chars_eq (literals span listed)
  rw [text]
  have lasts : ∀ span ∈ file.literalsIn (file.inside list) (list.start + 1),
      ∃ init last, file.chars span = init ++ [last] ∧ Layout.isInk last = true := by
    intro span listed
    rw [stands.chars_eq (literals span listed)]
    exact (literals span listed).exists_last
  refine (carried.dropEndWhile fun span listed => ?_).dropEndWhile fun span listed => ?_
  · obtain ⟨init, last, chars, -⟩ := lasts span listed
    have other := legible.ends span listed
    rw [chars, List.getLast?_concat] at other
    exact ⟨init, last, chars, by simpa using other⟩
  · obtain ⟨init, last, chars, dark⟩ := lasts span listed
    exact ⟨init, last, chars, by simpa [Layout.isInk] using dark⟩

end File

end Declaration

end Emend

import Emend.Proofs.Layout.Moves
import Mathlib.Data.List.DropRight

/-!
# Lines as they are read, and their common indentation

Lines that have been read are `Laid`: none has blanks at its end that could be cut off again, and
one that holds nothing but blanks is empty or begins inside of a literal (`Line.Neat`). Such lines
are found again, with their marks, when the text is read that they make up (`Laid.read`), also
after they were dedented or padded.

On laid lines padding adds its width to the common indentation (`commonIndent_indented`), which is
nothing after dedenting (`commonIndent_dedented`). So dedenting takes away what padding has put
there (`joinDedented_indented`).
-/

set_option autoImplicit false

namespace Emend

namespace Text

theorem dropEndWhile_eq_rdropWhile {α : Type} (p : α → Bool) (cs : List α) :
    dropEndWhile p cs = cs.rdropWhile p := rfl

end Text

namespace Layout

/-! ## Lines as they are read -/

namespace Line

/-- Blanks at the end are owned by a literal, and a line of blanks alone begins inside of one. -/
structure Neat (line : Line) : Prop where
  trimmed : line.withoutTrailing = line
  inked : line.mark.opensInside = false → ink line.chars = [] → line.chars = []

/-- What stands before the end of a line is no matter for the blanks there. -/
theorem withoutTrailing_append {lead rest : List Char} (nonempty : rest ≠ []) {mark : LineMark} :
    (Line.mk (lead ++ rest) mark).withoutTrailing = ⟨lead ++ rest, mark⟩ ↔
      (Line.mk rest mark).withoutTrailing = ⟨rest, mark⟩ := by
  obtain ⟨init, last, rfl⟩ := (List.eq_nil_or_concat rest).resolve_left nonempty
  rw [List.concat_eq_append, ← List.append_assoc]
  unfold Line.withoutTrailing
  cases mark.closesInside with
  | true => simp
  | false => simp [Text.dropEndWhile_eq_rdropWhile]

/-- The line without up to `width` leading spaces. -/
def dedented (width : Nat) (line : Line) : Line := { line with chars := line.dedent width }

/-- The line with `pad` before it. -/
def indented (pad : List Char) (line : Line) : Line := { line with chars := line.padded pad }

theorem ink_dedent (width : Nat) (line : Line) : ink (line.dedent width) = ink line.chars := by
  unfold Line.dedent
  split
  · rfl
  · have cut := List.take_append_drop (min line.indent width) line.chars
    rw [← congrArg ink cut, ink_append, ink_take_indent, List.nil_append]

theorem ink_padded {pad : List Char} (blank : ink pad = []) (line : Line) :
    ink (line.padded pad) = ink line.chars := by
  unfold Line.padded
  split
  · rfl
  · rw [ink_append, blank, List.nil_append]

namespace Neat

variable {line : Line} (neat : line.Neat)

include neat

theorem dedented (width : Nat) : (line.dedented width).Neat := by
  cases opens : line.mark.opensInside with
  | true =>
      have same : line.dedented width = line := by simp [Line.dedented, Line.dedent, opens]
      rwa [same]
  | false =>
      by_cases empty : line.chars = []
      · have same : line.dedented width = line := by
          obtain ⟨chars, mark⟩ := line
          obtain rfl : chars = [] := empty
          simp [Line.dedented, Line.dedent]
        rwa [same]
      · have dark : ink line.chars ≠ [] := fun noInk => empty (neat.inked opens noInk)
        have kept : ink (line.dedent width) ≠ [] := by rwa [ink_dedent]
        have nonempty : line.dedent width ≠ [] := fun noInk => kept (by rw [noInk]; rfl)
        refine ⟨?_, fun _ noInk => absurd noInk kept⟩
        have cut : line.chars = line.chars.take (min line.indent width) ++ line.dedent width := by
          simp [Line.dedent, opens]
        have trimmed := neat.trimmed
        rw [← (show Line.mk line.chars line.mark = line from rfl), cut,
          withoutTrailing_append nonempty] at trimmed
        exact trimmed

theorem indented {pad : List Char} (blank : ink pad = []) : (line.indented pad).Neat := by
  by_cases stays : (line.mark.opensInside || line.chars.isEmpty) = true
  · have same : line.indented pad = line := by simp [Line.indented, Line.padded, stays]
    rwa [same]
  · have moved : line.indented pad = ⟨pad ++ line.chars, line.mark⟩ := by
      simp [Line.indented, Line.padded, stays]
    obtain ⟨opens, nonempty⟩ : line.mark.opensInside = false ∧ line.chars ≠ [] := by
      simpa using stays
    rw [moved]
    refine ⟨(withoutTrailing_append nonempty).2 neat.trimmed, fun _ empty => ?_⟩
    rw [ink_append, blank, List.nil_append] at empty
    exact absurd (neat.inked opens empty) nonempty

end Neat

@[simp] theorem withoutTrailing_withoutTrailing (line : Line) :
    line.withoutTrailing.withoutTrailing = line.withoutTrailing := by
  unfold Line.withoutTrailing
  cases closes : line.mark.closesInside with
  | true => simp [closes]
  | false => simp [closes, Text.dropEndWhile_eq_rdropWhile, List.rdropWhile_idempotent]

end Line

theorem inkLine_neat (own : Nat → Bool) (n : Nat) (line : List Char) :
    (inkLine own n line).Neat where
  trimmed := Line.withoutTrailing_withoutTrailing _
  inked := by
    intro free empty
    have free : own n = false := by simpa using free
    rw [ink_inkLine] at empty
    rw [inkLine, empty, List.length_nil, Nat.add_zero, free, Line.withoutTrailing]
    exact List.rdropWhile_eq_nil_iff.2 (ink_eq_nil_iff.1 empty)

/-- Lines that are marked by the ranks at their ends, as they are when the text is read that they
make up; `n` is the rank at which they begin. -/
structure Laid (own : Nat → Bool) (n : Nat) (lines : List Line) : Prop where
  settled : inkLines own n (lines.map Line.chars) = lines
  plain : ∀ line ∈ lines, '\n' ∉ line.chars

section

variable {own : Nat → Bool} {n : Nat} {lines : List Line}

theorem inkLine_inkLine (own : Nat → Bool) (n : Nat) (line : List Char) :
    inkLine own n (inkLine own n line).chars = inkLine own n line := by
  rw [inkLine.eq_1 own n (inkLine own n line).chars, ink_inkLine, ← mark_inkLine]
  exact (inkLine_neat own n line).trimmed

theorem length_inkLines (own : Nat → Bool) (n : Nat) (lines : List (List Char)) :
    (inkLines own n lines).length = lines.length := by
  induction lines generalizing n with
  | nil => rfl
  | cons line lines ih => rw [inkLines, List.length_cons, List.length_cons, ih]

theorem inkLines_append (own : Nat → Bool) (n : Nat) (lines others : List (List Char)) :
    inkLines own n (lines ++ others) =
      inkLines own n lines ++ inkLines own (n + (ink lines.flatten).length) others := by
  induction lines generalizing n with
  | nil => rfl
  | cons line lines ih =>
      simp only [List.cons_append, inkLines, ih, List.flatten_cons, ink_append, List.length_append,
        Nat.add_assoc]

/-- The lines of a text are laid. -/
theorem laid_inkLines (own : Nat → Bool) (n : Nat) (text : List Char) :
    Laid own n (inkLines own n (Text.splitChars '\n' text)) := by
  have plain : ∀ line ∈ Text.splitChars '\n' text, '\n' ∉ line :=
    fun line listed => Text.not_mem_of_mem_splitChars listed
  generalize Text.splitChars '\n' text = lines at plain
  induction lines generalizing n with
  | nil => exact ⟨rfl, by simp [inkLines]⟩
  | cons line lines ih =>
      have rest := ih (n + (ink line).length) fun other listed =>
        plain other (List.mem_cons_of_mem _ listed)
      refine ⟨?_, ?_⟩
      · rw [inkLines, List.map_cons, inkLines, inkLine_inkLine, ink_inkLine, rest.settled]
      · intro other listed
        rw [inkLines] at listed
        rcases List.mem_cons.1 listed with rfl | later
        · obtain ⟨trail, cut, -⟩ :=
            (Line.mk line ⟨own n, own (n + (ink line).length)⟩).exists_withoutTrailing
          change line = (inkLine own n line).chars ++ trail at cut
          intro inside
          refine plain line (List.mem_cons_self ..) ?_
          rw [cut]
          exact List.mem_append_left _ inside
        · exact rest.plain other later

namespace Laid

theorem neat (laid : Laid own n lines) {line : Line} (listed : line ∈ lines) : line.Neat := by
  have each : ∀ (chars : List (List Char)) (n : Nat), ∀ line ∈ inkLines own n chars, line.Neat := by
    intro chars
    induction chars with
    | nil => exact fun _ _ listed => absurd listed (by simp [inkLines])
    | cons first chars ih =>
        intro n line listed
        rw [inkLines] at listed
        rcases List.mem_cons.1 listed with rfl | later
        · exact inkLine_neat own n first
        · exact ih _ line later
  rw [← laid.settled] at listed
  exact each _ n line listed

/-- The lines of the text that laid lines make up are these lines. -/
theorem read (laid : Laid own n lines) (nonempty : lines ≠ []) :
    inkLines own n (Text.splitChars '\n' (joinLines (lines.map Line.chars))) = lines := by
  rw [splitChars_joinLines (by simpa using nonempty), laid.settled]
  intro chars listed
  obtain ⟨line, inside, rfl⟩ := List.mem_map.1 listed
  exact laid.plain line inside

theorem tail {line : Line} (laid : Laid own n (line :: lines)) :
    inkLine own n line.chars = line ∧ Laid own (n + (ink line.chars).length) lines := by
  have settled := laid.settled
  rw [List.map_cons, inkLines, List.cons.injEq] at settled
  exact ⟨settled.1, settled.2, fun other listed => laid.plain other (List.mem_cons_of_mem _ listed)⟩

/-- Lines that change in blanks alone stay laid. -/
theorem map (laid : Laid own n lines) {move : Line → Line} (mark : ∀ line, (move line).mark = line.mark)
    (same : ∀ line, ink (move line).chars = ink line.chars)
    (trimmed : ∀ line, line.Neat → (move line).withoutTrailing = move line)
    (plain : ∀ line, '\n' ∉ line.chars → '\n' ∉ (move line).chars) :
    Laid own n (lines.map move) := by
  induction lines generalizing n with
  | nil => exact ⟨rfl, by simp⟩
  | cons line lines ih =>
      obtain ⟨first, rest⟩ := laid.tail
      have rest' := ih rest
      have marks := congrArg Line.mark first
      rw [mark_inkLine] at marks
      have here : inkLine own n (move line).chars = move line := by
        rw [inkLine, same, marks, ← mark line]
        exact trimmed line (laid.neat (List.mem_cons_self ..))
      refine ⟨?_, ?_⟩
      · rw [List.map_cons, List.map_cons, inkLines, here, same, rest'.settled]
      · intro other listed
        rcases List.mem_cons.1 listed with rfl | later
        · exact plain line (laid.plain line (List.mem_cons_self ..))
        · exact rest'.plain other later

theorem dedented (laid : Laid own n lines) (width : Nat) :
    Laid own n (lines.map (Line.dedented width)) := by
  refine laid.map (fun _ => rfl) (Line.ink_dedent width) (fun line neat => (neat.dedented width).trimmed)
    fun line plain inside => plain ?_
  simp only [Line.dedented, Line.dedent] at inside
  split at inside
  · exact inside
  · exact List.mem_of_mem_drop inside

theorem indented (laid : Laid own n lines) {pad : List Char} (blank : ink pad = [])
    (short : '\n' ∉ pad) : Laid own n (lines.map (Line.indented pad)) := by
  refine laid.map (fun _ => rfl) (Line.ink_padded blank) (fun line neat => (neat.indented blank).trimmed)
    fun line plain inside => ?_
  simp only [Line.indented, Line.padded] at inside
  split at inside
  · exact plain inside
  · exact (List.mem_append.1 inside).elim short plain

theorem dropWhile_isVoid (laid : Laid own n lines) : Laid own n (lines.dropWhile Line.isVoid) := by
  induction lines generalizing n with
  | nil => exact laid
  | cons line lines ih =>
      by_cases void : line.isVoid = true
      · have empty : line.chars = [] := by
          simp only [Line.isVoid, Bool.and_eq_true, List.isEmpty_iff] at void
          exact void.1
        have rest := laid.tail.2
        rw [empty, ink_nil, List.length_nil, Nat.add_zero] at rest
        rw [List.dropWhile_cons_of_pos void]
        exact ih rest
      · rwa [List.dropWhile_cons_of_neg void]

theorem of_append {others : List Line} (laid : Laid own n (lines ++ others)) : Laid own n lines := by
  refine ⟨?_, fun line listed => laid.plain line (List.mem_append_left _ listed)⟩
  have settled := laid.settled
  rw [List.map_append, inkLines_append] at settled
  exact List.append_inj_left settled (by rw [length_inkLines, List.length_map])

theorem dropEndWhile_isVoid (laid : Laid own n lines) :
    Laid own n (Text.dropEndWhile Line.isVoid lines) := by
  obtain ⟨voids, cut, -⟩ := Text.exists_eq_dropEndWhile_append Line.isVoid lines
  rw [cut] at laid
  exact laid.of_append

end Laid

end

/-! ## The common indentation -/

/-- Whether the line holds something and may be moved. -/
def Line.isMovable (line : Line) : Bool := !line.chars.isEmpty && !line.mark.opensInside

theorem commonIndent_eq_of_least {lines : List Line} {line : Line} (listed : line ∈ lines)
    (movable : line.isMovable = true)
    (least : ∀ other ∈ lines, other.isMovable = true → line.indent ≤ other.indent) :
    commonIndent lines = line.indent := by
  have least? : ((lines.filter Line.isMovable).map Line.indent).min? = some line.indent := by
    rw [List.min?_eq_some_iff]
    refine ⟨List.mem_map_of_mem (List.mem_filter.2 ⟨listed, movable⟩), ?_⟩
    intro width inside
    obtain ⟨other, kept, rfl⟩ := List.mem_map.1 inside
    exact least other (List.mem_filter.1 kept).1 (List.mem_filter.1 kept).2
  exact congrArg (Option.getD · 0) least?

theorem commonIndent_of_none {lines : List Line}
    (unmovable : ∀ line ∈ lines, line.isMovable = false) : commonIndent lines = 0 := by
  have empty : lines.filter Line.isMovable = [] := by
    rw [List.filter_eq_nil_iff]
    intro line listed
    simp [unmovable line listed]
  have least? : ((lines.filter Line.isMovable).map Line.indent).min? = none := by
    rw [empty, List.map_nil, List.min?_nil]
  exact congrArg (Option.getD · 0) least?

/-- One of the movable lines has the common indentation, and none has less. -/
theorem exists_commonIndent {lines : List Line} (moves : ∃ line ∈ lines, line.isMovable = true) :
    ∃ line ∈ lines, line.isMovable = true ∧ line.indent = commonIndent lines ∧
      ∀ other ∈ lines, other.isMovable = true → line.indent ≤ other.indent := by
  cases least? : ((lines.filter Line.isMovable).map Line.indent).min? with
  | none =>
      obtain ⟨line, listed, movable⟩ := moves
      rw [List.min?_eq_none_iff, List.map_eq_nil_iff, List.filter_eq_nil_iff] at least?
      exact absurd movable (least? line listed)
  | some width =>
      obtain ⟨inside, least⟩ := List.min?_eq_some_iff.1 least?
      obtain ⟨line, kept, rfl⟩ := List.mem_map.1 inside
      obtain ⟨listed, movable⟩ := List.mem_filter.1 kept
      refine ⟨line, listed, movable, ?_, fun other there moves => ?_⟩
      · exact (congrArg (Option.getD · 0) least?).symm
      · exact least _ (List.mem_map_of_mem (List.mem_filter.2 ⟨there, moves⟩))

namespace Line

variable {line : Line}

theorem isMovable_iff : line.isMovable = true ↔ line.chars ≠ [] ∧ line.mark.opensInside = false := by
  simp [isMovable]

theorem Neat.isMovable_dedented (neat : line.Neat) (width : Nat) :
    (line.dedented width).isMovable = line.isMovable := by
  rw [Bool.eq_iff_iff, isMovable_iff, isMovable_iff]
  refine and_congr_left fun free => not_congr ?_
  constructor
  · intro empty
    refine neat.inked free ?_
    rw [← ink_dedent width, show line.dedent width = [] from empty, ink_nil]
  · intro empty
    change line.dedent width = []
    simp [dedent, empty]

theorem isMovable_indented (pad : List Char) : (line.indented pad).isMovable = line.isMovable := by
  rw [Bool.eq_iff_iff, isMovable_iff, isMovable_iff]
  refine and_congr_left fun free => not_congr ?_
  change line.mark.opensInside = false at free
  by_cases empty : line.chars = []
  · simp [indented, padded, free, empty]
  · simp [indented, padded, free, empty]

theorem dedented_of_not_movable (stays : line.isMovable = false) (width : Nat) :
    line.dedented width = line := by
  obtain ⟨chars, mark⟩ := line
  have kept : chars = [] ∨ mark.opensInside = true := by
    rw [isMovable, Bool.and_eq_false_iff] at stays
    simpa using stays
  rcases kept with rfl | opens
  · simp [dedented, dedent]
  · simp [dedented, dedent, opens]

theorem indented_of_not_movable (stays : line.isMovable = false) (pad : List Char) :
    line.indented pad = line := by
  obtain ⟨chars, mark⟩ := line
  have kept : chars = [] ∨ mark.opensInside = true := by
    rw [isMovable, Bool.and_eq_false_iff] at stays
    simpa using stays
  rcases kept with rfl | opens
  · simp [indented, padded]
  · simp [indented, padded, opens]

theorem indent_dedented (movable : line.isMovable = true) (width : Nat) :
    (line.dedented width).indent = line.indent - width := by
  have free := (isMovable_iff.1 movable).2
  have spaces : line.chars.takeWhile (· == ' ') = List.replicate line.indent ' ' := by
    refine List.eq_replicate_iff.2 ⟨rfl, fun c inside => ?_⟩
    have space := List.all_eq_true.1 List.all_takeWhile c inside
    simpa using space
  have moved : (line.dedented width).chars =
      List.replicate (line.indent - width) ' ' ++ line.chars.dropWhile (· == ' ') := by
    have cut := List.takeWhile_append_dropWhile (p := (· == ' ')) (l := line.chars)
    rw [spaces] at cut
    have dropped : (line.dedented width).chars = line.chars.drop (min line.indent width) := by
      simp [dedented, dedent, free]
    have left : line.indent - min line.indent width = line.indent - width := by omega
    have bound : min line.indent width ≤ (List.replicate line.indent ' ').length := by
      rw [List.length_replicate]
      exact Nat.min_le_left ..
    rw [dropped, ← congrArg (List.drop (min line.indent width)) cut,
      List.drop_append_of_le_length bound, List.drop_replicate, left]
  have empty : (line.chars.dropWhile (· == ' ')).takeWhile (· == ' ') = [] := by
    cases rest : line.chars.dropWhile (· == ' ') with
    | nil => rfl
    | cons c cs =>
        have head := List.head?_dropWhile_not (· == ' ') line.chars
        rw [rest] at head
        exact List.takeWhile_cons_of_neg (by simpa using head)
  rw [indent, moved, List.takeWhile_append_of_pos (by simp), empty, List.append_nil,
    List.length_replicate]

theorem indent_indented (movable : line.isMovable = true) (width : Nat) :
    (line.indented (List.replicate width ' ')).indent = width + line.indent := by
  obtain ⟨nonempty, free⟩ := isMovable_iff.1 movable
  have moved : (line.indented (List.replicate width ' ')).chars =
      List.replicate width ' ' ++ line.chars := by
    simp [indented, padded, free, nonempty]
  rw [indent, moved, List.takeWhile_append_of_pos (by simp), List.length_append,
    List.length_replicate, indent]

/-- Dedenting takes away what padding has put there. -/
theorem dedent_indented (movable : line.isMovable = true) (width : Nat) :
    (line.indented (List.replicate width ' ')).dedent width = line.chars := by
  obtain ⟨nonempty, free⟩ := isMovable_iff.1 movable
  have wide : width ≤ (line.indented (List.replicate width ' ')).indent := by
    rw [indent_indented movable]
    omega
  have opens : (line.indented (List.replicate width ' ')).mark.opensInside = false := free
  rw [dedent, opens, Nat.min_eq_right wide]
  simp [indented, padded, free, nonempty]

end Line

section

variable {lines : List Line}

/-- Nothing is left of the common indentation once it is taken away. -/
theorem commonIndent_dedented (neat : ∀ line ∈ lines, line.Neat) :
    commonIndent (lines.map (Line.dedented (commonIndent lines))) = 0 := by
  by_cases moves : ∃ line ∈ lines, line.isMovable = true
  · obtain ⟨line, listed, movable, here, -⟩ := exists_commonIndent moves
    have moved : (line.dedented (commonIndent lines)).isMovable = true := by
      rw [(neat line listed).isMovable_dedented, movable]
    have flush : (line.dedented (commonIndent lines)).indent = 0 := by
      rw [Line.indent_dedented movable, here, Nat.sub_self]
    rw [commonIndent_eq_of_least (List.mem_map_of_mem listed) moved, flush]
    intro other _ _
    rw [flush]
    exact Nat.zero_le _
  · refine commonIndent_of_none fun other inside => ?_
    obtain ⟨line, listed, rfl⟩ := List.mem_map.1 inside
    rw [(neat line listed).isMovable_dedented]
    exact Bool.eq_false_iff.2 fun movable => moves ⟨line, listed, movable⟩

/-- Padding adds its width to the common indentation. -/
theorem commonIndent_indented (moves : ∃ line ∈ lines, line.isMovable = true) (width : Nat) :
    commonIndent (lines.map (Line.indented (List.replicate width ' '))) =
      width + commonIndent lines := by
  obtain ⟨line, listed, movable, here, least⟩ := exists_commonIndent moves
  rw [commonIndent_eq_of_least (List.mem_map_of_mem listed)
    ((Line.isMovable_indented _).trans movable), Line.indent_indented movable, here]
  intro other inside moves'
  obtain ⟨before, there, rfl⟩ := List.mem_map.1 inside
  have movable' : before.isMovable = true := (Line.isMovable_indented _).symm.trans moves'
  rw [Line.indent_indented movable, Line.indent_indented movable']
  exact Nat.add_le_add_left (least before there movable') width

/-- **Dedenting undoes padding** of lines that were dedented before. -/
theorem joinDedented_indented (neat : ∀ line ∈ lines, line.Neat) (width : Nat) :
    joinDedented ((lines.map (Line.dedented (commonIndent lines))).map
      (Line.indented (List.replicate width ' '))) = joinDedented lines := by
  have flush := commonIndent_dedented neat
  have left : (lines.map (Line.dedented (commonIndent lines))).map Line.chars =
      lines.map (Line.dedent (commonIndent lines)) := by
    rw [List.map_map]
    rfl
  rw [joinDedented, joinDedented, ← left]
  generalize lines.map (Line.dedented (commonIndent lines)) = moved at flush
  congr 1
  by_cases moves : ∃ line ∈ moved, line.isMovable = true
  · rw [commonIndent_indented moves, flush, Nat.add_zero, List.map_map]
    refine List.map_congr_left fun line listed => ?_
    cases movable : line.isMovable with
    | true => exact Line.dedent_indented movable width
    | false =>
        rw [Function.comp_apply, Line.indented_of_not_movable movable]
        exact congrArg Line.chars (Line.dedented_of_not_movable movable width)
  · have stays : ∀ line ∈ moved, line.isMovable = false := fun line listed =>
      Bool.eq_false_iff.2 fun movable => moves ⟨line, listed, movable⟩
    have same : moved.map (Line.indented (List.replicate width ' ')) = moved := by
      refine (List.map_congr_left fun line listed => ?_).trans (List.map_id _)
      exact Line.indented_of_not_movable (stays line listed) _
    rw [same, flush]
    refine List.map_congr_left fun line listed => ?_
    exact congrArg Line.chars (Line.dedented_of_not_movable (stays line listed) 0)

end

end Layout

end Emend

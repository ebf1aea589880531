import Emend.Proofs.Layout.Laid

/-!
# Removing indentation undoes adding it

What is read has been moved to the left, and it is moved to the right again when it is printed. A
block is read without its void lines, and a value without the blanks at its ends; neither makes a
difference to what was printed before, so reading gives back what was printed
(`dedentBlock_indentLines`, `dedentContinuation_continueLines`).

The printer puts a block on lines of its own and a value between other words. That they are cut out
there as they are needs to know how they end: a block with no line feed (`dedentBlock_ends`), a
value with ink (`inkEnds_continueLines`).
-/

set_option autoImplicit false

namespace Emend

namespace Layout

/-! ## Blocks -/

theorem Line.isVoid_eq (line : Line) :
    line.isVoid = (!line.isMovable && !line.mark.opensInside) := by
  unfold Line.isVoid Line.isMovable
  cases line.chars.isEmpty <;> cases line.mark.opensInside <;> rfl

structure Framed (lines : List Line) : Prop where
  first : ∀ line ∈ lines.head?, line.isVoid = false
  last : ∀ line ∈ lines.getLast?, line.isVoid = false

namespace Framed

theorem trimmed (lines : List Line) :
    Framed (Text.dropEndWhile Line.isVoid (lines.dropWhile Line.isVoid)) := by
  constructor
  · intro line first
    obtain ⟨voids, cut, -⟩ := Text.exists_eq_dropEndWhile_append Line.isVoid
      (lines.dropWhile Line.isVoid)
    have head := List.head?_dropWhile_not Line.isVoid lines
    rw [cut, List.head?_append, first, Option.some_or] at head
    exact head
  · intro line last
    obtain ⟨nonempty, rfl⟩ := List.mem_getLast?_eq_getLast last
    exact Bool.eq_false_iff.2 (List.rdropWhile_last_not Line.isVoid _ nonempty)

theorem map {lines : List Line} (framed : Framed lines) {move : Line → Line}
    (same : ∀ line ∈ lines, (move line).isVoid = line.isVoid) : Framed (lines.map move) := by
  constructor
  · intro line first
    rw [List.head?_map] at first
    obtain ⟨before, there, rfl⟩ := Option.map_eq_some_iff.1 first
    rw [same before (List.mem_of_head? there), framed.first before there]
  · intro line last
    rw [List.getLast?_map] at last
    obtain ⟨before, there, rfl⟩ := Option.map_eq_some_iff.1 last
    rw [same before (List.mem_of_getLast? there), framed.last before there]

/-- Void lines around the others are left out. -/
theorem trim_between {lines : List Line} (framed : Framed lines) {above below : Line}
    (first : above.isVoid = true) (last : below.isVoid = true) :
    Text.dropEndWhile Line.isVoid ((above :: lines ++ [below]).dropWhile Line.isVoid) = lines := by
  rw [List.cons_append, List.dropWhile_cons_of_pos first]
  cases lines with
  | nil => simp [last, Text.dropEndWhile]
  | cons line lines =>
      have starts := framed.first line rfl
      rw [List.cons_append, List.dropWhile_cons_of_neg (by simp [starts]), ← List.cons_append,
        Text.dropEndWhile_eq_rdropWhile, List.rdropWhile_concat_pos _ _ _ last,
        List.rdropWhile_eq_self_iff]
      intro nonempty
      have ends := framed.last _ (List.getLast?_eq_getLast_of_ne_nil nonempty)
      simp [ends]

end Framed

theorem Laid.framed_dedented {own : Nat → Bool} {n : Nat} {lines : List Line}
    (laid : Laid own n lines) (framed : Framed lines) (width : Nat) :
    Framed (lines.map (Line.dedented width)) := by
  refine framed.map fun line listed => ?_
  rw [Line.isVoid_eq, Line.isVoid_eq, (laid.neat listed).isMovable_dedented]
  rfl

theorem Framed.indented {lines : List Line} (framed : Framed lines) (pad : List Char) :
    Framed (lines.map (Line.indented pad)) := by
  refine framed.map fun line _ => ?_
  rw [Line.isVoid_eq, Line.isVoid_eq, Line.isMovable_indented]
  rfl

theorem ink_joinLines (lines : List (List Char)) : ink (joinLines lines) = ink lines.flatten := by
  induction lines with
  | nil => rfl
  | cons line lines ih =>
      cases lines with
      | nil => simp
      | cons other others =>
          rw [joinLines_cons_cons, ink_append, ink_cons_of_blank isInk_lineFeed, ih, ← ink_append,
            ← List.flatten_cons]

theorem joinLines_cons_ne_nil {line : List Char} (nonempty : line ≠ []) (lines : List (List Char)) :
    joinLines (line :: lines) ≠ [] := by
  cases lines with
  | nil => simpa using nonempty
  | cons other others => simp [joinLines_cons_cons]

theorem joinLines_between {lines : List (List Char)} (nonempty : lines ≠ []) {edge : List Char} :
    joinLines ([] :: lines ++ [edge]) = '\n' :: (joinLines lines ++ '\n' :: edge) := by
  obtain ⟨line, others, rfl⟩ := List.exists_cons_of_ne_nil nonempty
  rw [List.cons_append, List.cons_append, joinLines_cons_cons, ← List.cons_append,
    joinLines_append (by simp) (by simp), joinLines_singleton, List.nil_append]

theorem ink_flatten_map {lines : List Line} {move : Line → Line}
    (same : ∀ line ∈ lines, ink (move line).chars = ink line.chars) :
    ink ((lines.map move).map Line.chars).flatten = ink (lines.map Line.chars).flatten := by
  induction lines with
  | nil => rfl
  | cons line lines ih =>
      have rest := ih fun other listed => same other (List.mem_cons_of_mem _ listed)
      simp only [List.map_cons, List.flatten_cons, ink_append, rest,
        same line (List.mem_cons_self ..)]

section

variable {own : Nat → Bool} {lines : List Line}

theorem dedentBlock_inkMarks (own : Nat → Bool) (text : String) :
    dedentBlock text (inkMarks own 0 (Text.splitChars '\n' text.toList)) =
      .ofList (joinDedented (Text.dropEndWhile Line.isVoid
        ((inkLines own 0 (Text.splitChars '\n' text.toList)).dropWhile Line.isVoid))) := by
  rw [dedentBlock, markedLines_inkMarks]

theorem Laid.indentLines (laid : Laid own 0 lines) (nonempty : lines ≠ []) {text : String}
    (holds : text.toList = joinLines (lines.map Line.chars)) (pad : String) :
    indentLines text pad (inkMarks own 0 (Text.splitChars '\n' text.toList)) =
      .ofList (joinLines ((lines.map (Line.indented pad.toList)).map Line.chars)) := by
  rw [Layout.indentLines, markedLines_inkMarks, holds, laid.read nonempty, List.map_map]
  rfl

/-- What stands between an empty line and a line of blanks is read as a block. -/
theorem Laid.dedentBlock (laid : Laid own 0 lines) (framed : Framed lines) (start : own 0 = false)
    (stop : own (ink (lines.map Line.chars).flatten).length = false) {edge : List Char}
    (blank : ink edge = []) (short : '\n' ∉ edge) {text : String}
    (holds : text.toList = joinLines ([] :: lines.map Line.chars ++ [edge])) :
    dedentBlock text (inkMarks own 0 (Text.splitChars '\n' text.toList)) =
      .ofList (joinDedented lines) := by
  have void : ∀ {n : Nat} {line : List Char}, own n = false → ink line = [] →
      (inkLine own n line).isVoid = true := by
    intro n line free noInk
    have opens : (inkLine own n line).mark.opensInside = false := by simpa using free
    have empty := (inkLine_neat own n line).inked opens (by rwa [ink_inkLine])
    rw [Line.isVoid, opens, empty]
    rfl
  have cut : Text.splitChars '\n' text.toList = [] :: lines.map Line.chars ++ [edge] := by
    rw [holds]
    refine splitChars_joinLines (by simp) fun line listed => ?_
    rw [List.mem_append, List.mem_cons, List.mem_singleton] at listed
    rcases listed with (rfl | inside) | rfl
    · simp
    · obtain ⟨line, there, rfl⟩ := List.mem_map.1 inside
      exact laid.plain line there
    · exact short
  have marked : inkLines own 0 ([] :: lines.map Line.chars ++ [edge]) =
      inkLine own 0 [] :: lines ++
        [inkLine own (ink (lines.map Line.chars).flatten).length edge] := by
    rw [List.cons_append, inkLines, ink_nil, List.length_nil, inkLines_append, laid.settled,
      Nat.zero_add]
    rfl
  rw [dedentBlock_inkMarks, cut, marked,
    framed.trim_between (void start rfl) (void stop blank)]

end

theorem head?_joinLines {line : List Char} (nonempty : line ≠ []) (lines : List (List Char)) :
    (joinLines (line :: lines)).head? = line.head? := by
  cases lines with
  | nil => simp
  | cons other others =>
      rw [joinLines_cons_cons, List.head?_append]
      cases line with
      | nil => exact absurd rfl nonempty
      | cons c cs => rfl

theorem getLast?_joinLines {line : List Char} (nonempty : line ≠ []) (lines : List (List Char)) :
    (joinLines (lines ++ [line])).getLast? = line.getLast? := by
  cases lines with
  | nil => simp
  | cons other others =>
      rw [joinLines_append (by simp) (by simp), joinLines_singleton, List.getLast?_append,
        List.getLast?_cons, List.getLast?_eq_getLast_of_ne_nil nonempty]
      simp

section

variable {own : Nat → Bool} (start : own 0 = false) {text : String}
  (stop : own (ink text.toList).length = false)

include start stop

/-- The lines of a text that was read as a block. -/
theorem exists_blockLines : ∃ lines, Laid own 0 lines ∧ Framed lines ∧
    (dedentBlock text (inkMarks own 0 (Text.splitChars '\n' text.toList))).toList =
      joinLines (lines.map Line.chars) ∧
    (∀ line ∈ lines.head?, line.isMovable = true) ∧
    own (ink (lines.map Line.chars).flatten).length = false ∧
    ∀ width, joinDedented (lines.map (Line.indented (List.replicate width ' '))) =
      joinLines (lines.map Line.chars) := by
  have same := (moves_dedentBlock own text stop).ink_eq
  have laid := (laid_inkLines own 0 text.toList).dropWhile_isVoid.dropEndWhile_isVoid
  have framed := Framed.trimmed (inkLines own 0 (Text.splitChars '\n' text.toList))
  rw [dedentBlock_inkMarks, String.toList_ofList] at same ⊢
  generalize Text.dropEndWhile Line.isVoid
    ((inkLines own 0 (Text.splitChars '\n' text.toList)).dropWhile Line.isVoid) = lines
    at laid framed same
  have holds : joinDedented lines =
      joinLines ((lines.map (Line.dedented (commonIndent lines))).map Line.chars) := by
    rw [joinDedented, List.map_map]
    rfl
  have moved := laid.dedented (commonIndent lines)
  have framed' := laid.framed_dedented framed (commonIndent lines)
  refine ⟨_, moved, framed', holds, fun line first => ?_, ?_, fun width => ?_⟩
  · obtain ⟨rest, cut⟩ := List.head?_eq_some_iff.1 first
    rw [cut] at moved
    have marks := congrArg Line.mark moved.tail.1
    rw [mark_inkLine, start] at marks
    have void := framed'.first line first
    rw [Line.isVoid_eq, ← marks] at void
    simpa using void
  · rw [← ink_joinLines, ← holds, same]
    exact stop
  · rw [joinDedented_indented (fun line listed => laid.neat listed), holds]

/-- A block begins and ends with no line feed. -/
theorem dedentBlock_ends :
    let body := (dedentBlock text (inkMarks own 0 (Text.splitChars '\n' text.toList))).toList
    body.head? ≠ some '\n' ∧ body.getLast? ≠ some '\n' := by
  intro body
  obtain ⟨lines, laid, framed, holds, movable, stop', -⟩ := exists_blockLines start stop
  change body = _ at holds
  rw [holds]
  constructor
  · cases lines with
    | nil => simp [joinLines]
    | cons first rest =>
        rw [List.map_cons, head?_joinLines (Line.isMovable_iff.1 (movable first rfl)).1]
        exact fun feed => laid.plain first (List.mem_cons_self ..) (List.mem_of_head? feed)
  · rcases List.eq_nil_or_concat lines with rfl | ⟨front, last, rfl⟩
    · simp [joinLines]
    · rw [List.concat_eq_append] at laid framed stop' ⊢
      have nonempty : last.chars ≠ [] := by
        intro empty
        have settled := laid.settled
        rw [List.map_append, List.map_singleton, inkLines_append, laid.of_append.settled, empty]
          at settled
        have here := List.append_cancel_left settled
        have marks := congrArg Line.mark (List.cons.inj here).1
        rw [List.map_append, List.map_singleton, List.flatten_append, empty] at stop'
        rw [mark_inkLine, Nat.zero_add] at marks
        have void := framed.last last (by simp)
        rw [Line.isVoid, empty, ← marks] at void
        simp at stop' void
        rw [stop'] at void
        cases void
      rw [List.map_append, List.map_singleton, getLast?_joinLines nonempty]
      exact fun feed => laid.plain last (by simp) (List.mem_of_getLast? feed)

/-- **A block is read as it was printed.** A text that was read as a block is padded, put on lines
of its own and read again. -/
theorem dedentBlock_indentLines (width : Nat) {edge : String} (blank : ink edge.toList = [])
    (short : '\n' ∉ edge.toList) :
    let body := dedentBlock text (inkMarks own 0 (Text.splitChars '\n' text.toList))
    let inner := indentLines body (.ofList (List.replicate width ' '))
      (inkMarks own 0 (Text.splitChars '\n' body.toList))
    let block := "\n" ++ (if inner.isEmpty then "" else inner ++ "\n") ++ edge
    dedentBlock block (inkMarks own 0 (Text.splitChars '\n' block.toList)) = body := by
  intro body inner block
  obtain ⟨lines, laid, framed, holds, movable, stop', again⟩ := exists_blockLines start stop
  change body.toList = _ at holds
  have spaces : ink (List.replicate width ' ') = [] := by simp [ink, isInk, Text.isBlank]
  have printed := laid.indented spaces (by simp)
  have same : ink ((lines.map (Line.indented (List.replicate width ' '))).map Line.chars).flatten =
      ink (lines.map Line.chars).flatten :=
    ink_flatten_map fun line _ => Line.ink_padded spaces line
  rw [← same] at stop'
  have between : block.toList =
      joinLines ([] :: (lines.map (Line.indented (List.replicate width ' '))).map Line.chars ++
        [edge.toList]) := by
    cases lines with
    | nil =>
        have empty : inner = "" := by
          simp only [inner, indentLines, markedLines_inkMarks, holds]
          simp [joinLines, Text.splitChars, inkLines, inkLine, Line.withoutTrailing,
            Text.dropEndWhile, start]
        simp [block, empty, joinLines]
    | cons first rest =>
        have innerChars := congrArg String.toList
          (laid.indentLines (by simp) holds (.ofList (List.replicate width ' ')))
        rw [String.toList_ofList, String.toList_ofList] at innerChars
        change inner.toList = _ at innerChars
        have nonempty : inner ≠ "" := by
          have moves := (Line.isMovable_indented (List.replicate width ' ')).trans
            (movable first rfl)
          have more := joinLines_cons_ne_nil (Line.isMovable_iff.1 moves).1
            ((rest.map (Line.indented (List.replicate width ' '))).map Line.chars)
          rw [← List.map_cons, ← List.map_cons, ← innerChars] at more
          exact fun noLines => more (String.toList_eq_nil_iff.2 noLines)
        rw [joinLines_between (by simp), ← innerChars]
        simp [block, nonempty]
  rw [printed.dedentBlock (framed.indented _) start stop' blank short between, again, ← holds,
    String.ofList_toList]

end

/-! ## Values -/

theorem Line.Neat.continued {line : Line} (neat : line.Neat) (pad : List Char) :
    line.continued pad = line.padded pad := by
  unfold Line.continued Line.padded
  cases opens : line.mark.opensInside with
  | true => simp
  | false =>
      by_cases empty : line.chars = []
      · simp [empty]
      · have dark : line.chars.all Text.isBlank = false := by
          refine Bool.eq_false_iff.2 fun blank => empty (neat.inked opens ?_)
          exact ink_eq_nil_iff.2 (List.all_eq_true.1 blank)
        simp [empty, dark]

section

variable {own : Nat → Bool} {first : Line} {rest : List Line}

theorem Laid.cons {n : Nat} (laid : Laid own n (first :: rest)) {others : List Line}
    (more : Laid own (n + (ink first.chars).length) others) : Laid own n (first :: others) := by
  refine ⟨?_, fun line listed => ?_⟩
  · rw [List.map_cons, inkLines, laid.tail.1, more.settled]
  · rcases List.mem_cons.1 listed with rfl | later
    · exact laid.plain line (List.mem_cons_self ..)
    · exact more.plain line later

theorem dedentContinuation_eq {text : String}
    (lines : inkLines own 0 (Text.splitChars '\n' text.toList) = first :: rest) :
    dedentContinuation text (inkMarks own 0 (Text.splitChars '\n' text.toList)) =
      .ofList (joinLines (first.chars :: rest.map (Line.dedent (commonIndent rest)))) := by
  rw [dedentContinuation, markedLines_inkMarks, lines]
  cases rest with
  | nil => simp
  | cons other others => rw [List.map_cons, joinLines_cons_cons]; rfl

theorem Laid.continueLines (laid : Laid own 0 (first :: rest)) {text : String}
    (holds : text.toList = joinLines ((first :: rest).map Line.chars)) (pad : String) :
    continueLines text pad (inkMarks own 0 (Text.splitChars '\n' text.toList)) =
      .ofList (joinLines ((first :: rest.map (Line.indented pad.toList)).map Line.chars)) := by
  have head : (Text.splitChars '\n' text.toList).headD [] = first.chars := by
    rw [holds, splitChars_joinLines (by simp)]
    · rfl
    · intro chars listed
      obtain ⟨line, inside, rfl⟩ := List.mem_map.1 listed
      exact laid.plain line inside
  have same : rest.map (Line.continued pad.toList) =
      (rest.map (Line.indented pad.toList)).map Line.chars := by
    rw [List.map_map]
    exact List.map_congr_left fun line listed =>
      (laid.neat (List.mem_cons_of_mem _ listed)).continued pad.toList
  rw [Layout.continueLines, markedLines_inkMarks, head, holds, laid.read (by simp), List.map_cons,
    ← same]
  rfl

end

/-- The lines of a text that was read as a value. -/
theorem exists_valueLines (own : Nat → Bool) (text : String) : ∃ first rest,
    inkLines own 0 (Text.splitChars '\n' text.toList) = first :: rest ∧
    ∀ width, let value := dedentContinuation text (inkMarks own 0 (Text.splitChars '\n' text.toList))
      let printed := continueLines value (.ofList (List.replicate width ' '))
        (inkMarks own 0 (Text.splitChars '\n' value.toList))
      let lines := first :: (rest.map (Line.dedented (commonIndent rest))).map
        (Line.indented (List.replicate width ' '))
      Laid own 0 lines ∧ printed.toList = joinLines (lines.map Line.chars) := by
  have laid := laid_inkLines own 0 text.toList
  cases lines : inkLines own 0 (Text.splitChars '\n' text.toList) with
  | nil =>
      have empty := congrArg List.length lines
      rw [length_inkLines, List.length_nil, List.length_eq_zero_iff] at empty
      exact absurd empty (Text.splitChars_ne_nil '\n' text.toList)
  | cons first rest =>
      rw [lines] at laid
      refine ⟨first, rest, rfl, ?_⟩
      intro width value printed lines'
      have read : value = _ := dedentContinuation_eq lines
      have holds : value.toList =
          joinLines ((first :: rest.map (Line.dedented (commonIndent rest))).map Line.chars) := by
        rw [read, String.toList_ofList, List.map_cons, List.map_map]
        rfl
      have moved := laid.tail.2.dedented (commonIndent rest)
      have spaces : ink (List.replicate width ' ') = [] := by simp [ink, isInk, Text.isBlank]
      have written := (laid.cons moved).continueLines holds (.ofList (List.replicate width ' '))
      rw [String.toList_ofList] at written
      exact ⟨laid.cons (moved.indented spaces (by simp)),
        (congrArg String.toList written).trans String.toList_ofList⟩

/-- **A value is read as it was printed.** A text that was read as a value is padded from its
second line on and read again. -/
theorem dedentContinuation_continueLines (own : Nat → Bool) (text : String) (width : Nat) :
    let value := dedentContinuation text (inkMarks own 0 (Text.splitChars '\n' text.toList))
    let printed := continueLines value (.ofList (List.replicate width ' '))
      (inkMarks own 0 (Text.splitChars '\n' value.toList))
    dedentContinuation printed (inkMarks own 0 (Text.splitChars '\n' printed.toList)) = value := by
  intro value printed
  obtain ⟨first, rest, lines, written⟩ := exists_valueLines own text
  obtain ⟨laid, holds⟩ := written width
  have laid' := laid_inkLines own 0 text.toList
  rw [lines] at laid'
  have again := joinDedented_indented
    (fun line listed => laid'.neat (List.mem_cons_of_mem first listed)) width
  have lines' := laid.read (by simp)
  rw [← holds] at lines'
  have read : value = _ := dedentContinuation_eq lines
  rw [dedentContinuation_eq lines', read]
  cases rest with
  | nil => rfl
  | cons other others =>
      rw [joinDedented, joinDedented] at again
      simp only [List.map_cons, joinLines_cons_cons] at again ⊢
      rw [again]

/-! ## The ends of values -/

def InkEnds (cs : List Char) : Prop :=
  (cs.head?).any isInk = true ∧ (cs.getLast?).any isInk = true

/-- What ends with ink does so without blanks that stand before. -/
theorem getLast?_of_append {lead rest : List Char} (blank : ink lead = [])
    (dark : ((lead ++ rest).getLast?).any isInk = true) : (rest.getLast?).any isInk = true := by
  obtain ⟨c, last, inked⟩ : ∃ c, (lead ++ rest).getLast? = some c ∧ isInk c = true := by
    simpa [Option.any_eq_true] using dark
  rw [List.getLast?_append] at last
  cases ends : rest.getLast? with
  | none =>
      rw [ends, Option.none_or] at last
      have white := ink_eq_nil_iff.1 blank c (List.mem_of_getLast? last)
      rw [isInk, white] at inked
      cases inked
  | some d =>
      rw [ends, Option.some_or] at last
      obtain rfl := Option.some.inj last
      exact inked

theorem inkEnds_trimChars {cs : List Char} (nonempty : ink cs ≠ []) : InkEnds (Text.trimChars cs) := by
  have cut := List.takeWhile_append_dropWhile (p := Text.isBlank) (l := cs)
  cases rest : cs.dropWhile Text.isBlank with
  | nil =>
      rw [rest, List.append_nil] at cut
      refine absurd (ink_eq_nil_iff.2 fun c inside => ?_) nonempty
      rw [← cut] at inside
      exact List.all_eq_true.1 List.all_takeWhile c inside
  | cons c others =>
      have head := List.head?_dropWhile_not Text.isBlank cs
      rw [rest] at head
      have begins : Text.isBlank c = false := head
      have kept := Text.dropEndWhile_append_cons begins [] others
      have trimmed : Text.trimChars cs = c :: Text.dropEndWhile Text.isBlank others := by
        rw [Text.trimChars, rest]
        exact kept
      refine ⟨by simp [trimmed, isInk, begins], ?_⟩
      have more : Text.trimChars cs ≠ [] := by simp [trimmed]
      rw [List.getLast?_eq_getLast_of_ne_nil more]
      have stays := List.rdropWhile_last_not Text.isBlank (cs.dropWhile Text.isBlank) more
      change ¬ Text.isBlank ((Text.trimChars cs).getLast more) = true at stays
      simpa [isInk] using stays

section

variable {line : Line} (dark : (line.chars.getLast?).any isInk = true)

include dark

theorem Line.ends_dedented (width : Nat) :
    ((line.dedented width).chars.getLast?).any isInk = true := by
  have cut := List.take_append_drop (min line.indent width) line.chars
  rw [← cut] at dark
  have rest := getLast?_of_append (ink_take_indent line width) dark
  rw [cut] at dark
  cases opens : line.mark.opensInside with
  | true => simpa [Line.dedented, Line.dedent, opens] using dark
  | false => simpa [Line.dedented, Line.dedent, opens] using rest

theorem Line.ends_indented (pad : List Char) :
    ((line.indented pad).chars.getLast?).any isInk = true := by
  simp only [Line.indented, Line.padded]
  split
  · exact dark
  · rw [List.getLast?_append]
    cases last : line.chars.getLast? with
    | none => simp [last] at dark
    | some c => simpa [last] using dark

end

theorem inkLine_of_ends {own : Nat → Bool} {n : Nat} {line : List Char}
    (dark : (line.getLast?).any isInk = true) : (inkLine own n line).chars = line := by
  obtain ⟨trail, cut, blank, -⟩ :=
    (Line.mk line ⟨own n, own (n + (ink line).length)⟩).exists_withoutTrailing
  change line = (inkLine own n line).chars ++ trail at cut
  rcases List.eq_nil_or_concat trail with rfl | ⟨front, last, rfl⟩
  · rw [List.append_nil] at cut
    exact cut.symm
  · have white := blank last (by simp)
    rw [cut] at dark
    simp [isInk, white] at dark

theorem head?_inkLine {own : Nat → Bool} {n : Nat} {line : List Char}
    (dark : (line.head?).any isInk = true) :
    ((inkLine own n line).chars.head?).any isInk = true := by
  obtain ⟨trail, cut, blank, -⟩ :=
    (Line.mk line ⟨own n, own (n + (ink line).length)⟩).exists_withoutTrailing
  change line = (inkLine own n line).chars ++ trail at cut
  cases chars : (inkLine own n line).chars with
  | nil =>
      rw [chars, List.nil_append] at cut
      subst cut
      cases line with
      | nil => simp at dark
      | cons c cs =>
          have white := blank c (List.mem_cons_self ..)
          simp [isInk, white] at dark
  | cons c cs =>
      rw [chars] at cut
      subst cut
      exact dark

theorem head?_joinLines_any (line : List Char) (lines : List (List Char)) :
    ((joinLines (line :: lines)).head?).any isInk = (line.head?).any isInk := by
  by_cases nonempty : line = []
  · subst nonempty
    cases lines with
    | nil => rfl
    | cons other others => simp [joinLines_cons_cons]
  · rw [head?_joinLines nonempty]

theorem getLast?_joinLines_any (lines : List (List Char)) (line : List Char) :
    ((joinLines (lines ++ [line])).getLast?).any isInk = (line.getLast?).any isInk := by
  by_cases nonempty : line = []
  · subst nonempty
    cases lines with
    | nil => rfl
    | cons other others =>
        rw [joinLines_append (by simp) (by simp)]
        simp
  · rw [getLast?_joinLines nonempty]

/-- A printed value begins and ends with ink if what was read does. -/
theorem inkEnds_continueLines (own : Nat → Bool) {text : String} (ends : InkEnds text.toList)
    (width : Nat) :
    let value := dedentContinuation text (inkMarks own 0 (Text.splitChars '\n' text.toList))
    InkEnds (continueLines value (.ofList (List.replicate width ' '))
      (inkMarks own 0 (Text.splitChars '\n' value.toList))).toList := by
  intro value
  obtain ⟨first, rest, lines, written⟩ := exists_valueLines own text
  have holds := (written width).2
  change (continueLines value _ _).toList = _ at holds
  rw [holds, List.map_cons]
  have joined := joinLines_splitChars text.toList
  cases cut : Text.splitChars '\n' text.toList with
  | nil => exact absurd cut (Text.splitChars_ne_nil '\n' text.toList)
  | cons line others =>
      rw [cut, inkLines, List.cons.injEq] at lines
      obtain ⟨rfl, rfl⟩ := lines
      rw [cut] at joined
      rw [← joined] at ends
      obtain ⟨begins, finishes⟩ := ends
      rw [head?_joinLines_any] at begins
      refine ⟨(head?_joinLines_any _ _).trans (head?_inkLine begins), ?_⟩
      rcases List.eq_nil_or_concat others with rfl | ⟨front, last, rfl⟩
      · rw [joinLines_singleton] at finishes
        simpa [inkLines, inkLine_of_ends finishes] using finishes
      · rw [List.concat_eq_append, ← List.cons_append, getLast?_joinLines_any] at finishes
        rw [List.concat_eq_append, inkLines_append, inkLines, inkLines, List.map_append,
          List.map_append, List.map_append, List.map_singleton, List.map_singleton,
          List.map_singleton, ← List.cons_append, getLast?_joinLines_any]
        refine Line.ends_indented (Line.ends_dedented ?_ _) _
        rwa [inkLine_of_ends finishes]

end Layout

end Emend

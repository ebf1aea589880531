import Emend.Proofs.Layout.Ink

/-!
# Moving lines changes blanks outside of literals

`Moves own n text out` says how `out` comes from `text`: character by character, some blanks are
left out and some are put in, each at a rank that is not owned; all else is kept. All that reads
or writes indented text is such a move (`moves_dedentBlock`, `moves_dedentContinuation`,
`moves_indentLines`, `moves_continueLines`, `moves_expandTabsFrom`).

A literal owns every rank inside of it, so a move keeps it as it is, at the place where its first
character went.
-/

set_option autoImplicit false

namespace Emend

namespace Layout

/-! ## Moves -/

/-- Blanks are left out and put in at ranks that are not owned; `n` is the rank at which the
text begins. -/
inductive Moves (own : Nat → Bool) : Nat → List Char → List Char → Prop where
  | done (n : Nat) : Moves own n [] []
  | keep {n : Nat} {cs ds : List Char} (c : Char) (rest : Moves own (n + (ink [c]).length) cs ds) :
      Moves own n (c :: cs) (c :: ds)
  | drop {n : Nat} {c : Char} {cs ds : List Char} (blank : isInk c = false) (free : own n = false)
      (rest : Moves own n cs ds) : Moves own n (c :: cs) ds
  | put {n : Nat} {c : Char} {cs ds : List Char} (blank : isInk c = false) (free : own n = false)
      (rest : Moves own n cs ds) : Moves own n cs (c :: ds)

namespace Moves

variable {own : Nat → Bool} {n : Nat} {cs ds es : List Char}

theorem refl (own : Nat → Bool) (n : Nat) (cs : List Char) : Moves own n cs cs := by
  induction cs generalizing n with
  | nil => exact .done n
  | cons c cs ih => exact .keep c (ih _)

/-- A move keeps the ink. -/
theorem ink_eq (moves : Moves own n cs ds) : ink ds = ink cs := by
  induction moves with
  | done n => rfl
  | keep c rest ih => rw [← List.singleton_append, ink_append, ih, ← ink_append, List.singleton_append]
  | drop blank free rest ih => rw [ih, ink_cons_of_blank blank]
  | put blank free rest ih => rw [ink_cons_of_blank blank, ih]

theorem append {cs' ds' : List Char} (first : Moves own n cs ds)
    (second : Moves own (n + (ink cs).length) cs' ds') : Moves own n (cs ++ cs') (ds ++ ds') := by
  induction first with
  | done n => exact second
  | keep c rest ih =>
      refine .keep c (ih ?_)
      rwa [← List.singleton_append, ink_append, List.length_append, ← Nat.add_assoc] at second
  | drop blank free rest ih =>
      rw [ink_cons_of_blank blank] at second
      exact .drop blank free (ih second)
  | put blank free rest ih => exact .put blank free (ih second)

/-- Blanks at a free rank are replaced by any blanks. -/
theorem of_blanks (free : own n = false) (before : ink cs = []) (after : ink ds = []) :
    Moves own n cs ds := by
  have blank : ∀ {es : List Char}, ink es = [] → ∀ e ∈ es, isInk e = false := by
    intro es empty e inside
    exact isInk_eq_false_iff.2 (ink_eq_nil_iff.1 empty e inside)
  induction cs with
  | nil =>
      induction ds with
      | nil => exact .done n
      | cons d ds ih =>
          have here := blank after d (List.mem_cons_self ..)
          rw [ink_cons_of_blank here] at after
          exact .put here free (ih after)
  | cons c cs ih =>
      have here := blank before c (List.mem_cons_self ..)
      rw [ink_cons_of_blank here] at before
      exact .drop here free (ih before)

theorem drop_blanks (free : own n = false) {blanks : List Char} (empty : ink blanks = [])
    (rest : Moves own n cs ds) : Moves own n (blanks ++ cs) ds := by
  have gone : Moves own n blanks [] := of_blanks free empty rfl
  have start : n + (ink blanks).length = n := by rw [empty, List.length_nil, Nat.add_zero]
  exact gone.append (start.symm ▸ rest)

/-- What becomes of the first character, and what is put before it. -/
theorem cons_inv {c : Char} (moves : Moves own n (c :: cs) ds) :
    ∃ puts rest, ds = puts ++ rest ∧ ink puts = [] ∧ (puts = [] ∨ own n = false) ∧
      ((∃ rest', rest = c :: rest' ∧ Moves own (n + (ink [c]).length) cs rest') ∨
        (isInk c = false ∧ own n = false ∧ Moves own n cs rest)) := by
  generalize start : c :: cs = text at moves
  induction moves with
  | done n => cases start
  | keep d rest ih =>
      cases start
      exact ⟨[], _, rfl, rfl, Or.inl rfl, Or.inl ⟨_, rfl, rest⟩⟩
  | drop blank free rest ih =>
      cases start
      exact ⟨[], _, rfl, rfl, Or.inl rfl, Or.inr ⟨blank, free, rest⟩⟩
  | @put n d _ _ blank free _ ih =>
      obtain ⟨puts, rest, rfl, blanks, -, kept⟩ := ih start
      exact ⟨d :: puts, rest, rfl, by rw [ink_cons_of_blank blank, blanks], Or.inr free, kept⟩

theorem puts (free : cs = [] ∨ own n = false) (blank : ink cs = []) : Moves own n [] cs := by
  rcases free with rfl | free
  · exact .done n
  · exact of_blanks free rfl blank

/-- One move after another. -/
theorem trans (first : Moves own n cs ds) (second : Moves own n ds es) : Moves own n cs es := by
  induction first generalizing es with
  | done n => exact second
  | @keep n as bs c rest ih =>
      obtain ⟨front, back, rfl, blank, free, kept | ⟨white, outside, gone⟩⟩ := second.cons_inv
      · obtain ⟨back', rfl, later⟩ := kept
        exact (puts free blank).append (.keep c (ih later))
      · have empty : (ink [c]).length = 0 := by rw [ink_cons_of_blank white]; rfl
        rw [empty, Nat.add_zero] at ih
        exact (puts free blank).append (.drop white outside (ih gone))
  | drop blank free rest ih => exact .drop blank free (ih second)
  | @put n c as bs white outside rest ih =>
      obtain ⟨front, back, rfl, blank, free, kept | ⟨-, -, gone⟩⟩ := second.cons_inv
      · obtain ⟨back', rfl, later⟩ := kept
        have empty : (ink [c]).length = 0 := by rw [ink_cons_of_blank white]; rfl
        rw [empty, Nat.add_zero] at later
        exact (puts free blank).append (.put white outside (ih later))
      · exact (puts free blank).append (ih gone)

/-- A character that is ink is kept, and cuts the move in two. -/
theorem split_ink {c : Char} (dark : isInk c = true) {before after out : List Char}
    (moves : Moves own n (before ++ c :: after) out) :
    ∃ before' after', out = before' ++ c :: after' ∧ Moves own n before before' ∧
      Moves own (n + (ink before).length + 1) after after' := by
  induction before generalizing n out with
  | nil =>
      obtain ⟨front, back, rfl, blank, free, kept | ⟨white, -, -⟩⟩ := moves.cons_inv
      · obtain ⟨after', rfl, later⟩ := kept
        rw [ink_cons_of_ink dark] at later
        exact ⟨front, after', rfl, puts free blank, later⟩
      · rw [dark] at white
        cases white
  | cons b before ih =>
      obtain ⟨front, back, rfl, blank, free, kept | ⟨white, outside, gone⟩⟩ := moves.cons_inv
      · obtain ⟨back', rfl, later⟩ := kept
        obtain ⟨before', after', rfl, left, right⟩ := ih later
        refine ⟨front ++ b :: before', after', by simp, (puts free blank).append (.keep b left), ?_⟩
        rw [← List.singleton_append, ink_append, List.length_append]
        simpa only [Nat.add_assoc] using right
      · obtain ⟨before', after', rfl, left, right⟩ := ih gone
        refine ⟨front ++ before', after', by simp,
          (puts free blank).append (.drop white outside left), ?_⟩
        rwa [ink_cons_of_blank white]

/-- What stands at owned ranks is kept as it is. -/
theorem split_owned {kept after out : List Char}
    (owns : ∀ front back, kept = front ++ back → back ≠ [] → own (n + (ink front).length) = true)
    (moves : Moves own n (kept ++ after) out) :
    ∃ after', out = kept ++ after' ∧ Moves own (n + (ink kept).length) after after' := by
  induction kept generalizing n out with
  | nil => exact ⟨out, rfl, moves⟩
  | cons c kept ih =>
      have here : own n = true := owns [] (c :: kept) rfl (by simp)
      obtain ⟨front, back, rfl, -, free, ⟨back', rfl, later⟩ | ⟨-, outside, -⟩⟩ := moves.cons_inv
      · have empty : front = [] := free.resolve_right (by simp [here])
        obtain ⟨after', rfl, right⟩ := ih (fun front back cut nonempty => by
          have owns' := owns (c :: front) back (by rw [cut]; rfl) nonempty
          rwa [← List.singleton_append, ink_append, List.length_append, ← Nat.add_assoc] at owns')
          later
        refine ⟨after', by simp [empty], ?_⟩
        rwa [← List.singleton_append, ink_append, List.length_append, ← Nat.add_assoc]
      · rw [here] at outside
        cases outside

end Moves

/-! ## Lines -/

variable {own : Nat → Bool} {n : Nat}

/-- Blanks before a line are replaced unless they are owned, and blanks at its end are
left out. -/
theorem moves_line {line : List Char} (lead lead' : List Char) {rest : List Char}
    (cut : (inkLine own n line).chars = lead ++ rest) (before : ink lead = [])
    (after : ink lead' = []) (free : own n = false ∨ lead' = lead) :
    Moves own n line (lead' ++ rest) := by
  obtain ⟨trail, parts, blank, closes⟩ :=
    (Line.mk line ⟨own n, own (n + (ink line).length)⟩).exists_withoutTrailing
  change line = (inkLine own n line).chars ++ trail at parts
  have empty : ink trail = [] := ink_eq_nil_iff.2 blank
  have front : Moves own n lead lead' := by
    rcases free with free | rfl
    · exact .of_blanks free before after
    · exact .refl ..
  have back : Moves own (n + (ink line).length) trail [] := by
    cases ends : own (n + (ink line).length) with
    | true =>
        rw [closes ends]
        exact .done _
    | false => exact .of_blanks ends empty rfl
  rw [parts, ink_append, empty, List.append_nil, cut, ink_append, List.length_append,
    ← Nat.add_assoc] at back
  have whole := front.append ((Moves.refl own (n + (ink lead).length) rest).append back)
  rw [parts, cut]
  simpa using whole

theorem moves_map_inkLines {write : Line → List Char}
    (each : ∀ n line, Moves own n line (write (inkLine own n line))) {lines : List (List Char)}
    (nonempty : lines ≠ []) :
    Moves own n (joinLines lines) (joinLines ((inkLines own n lines).map write)) := by
  induction lines generalizing n with
  | nil => exact absurd rfl nonempty
  | cons line lines ih =>
      cases lines with
      | nil => simpa [inkLines] using each n line
      | cons other others =>
          have rest := ih (n := n + (ink line).length) (by simp)
          rw [joinLines_cons_cons, inkLines, inkLines, List.map_cons, List.map_cons,
            joinLines_cons_cons]
          refine (each n line).append (.keep '\n' ?_)
          simpa [inkLines, ink_cons_of_blank] using rest

theorem ink_take_indent (line : Line) (width : Nat) :
    ink (line.chars.take (min line.indent width)) = [] := by
  rw [ink_eq_nil_iff]
  intro c inside
  have short : min line.indent width ≤ (line.chars.takeWhile (· == ' ')).length :=
    Nat.min_le_left ..
  have spaces : c ∈ line.chars.takeWhile (· == ' ') := by
    have begins : line.chars.take (min line.indent width) <+: line.chars.takeWhile (· == ' ') :=
      List.prefix_of_prefix_length_le (List.take_prefix ..) (List.takeWhile_prefix _)
        (by rw [List.length_take]; omega)
    exact begins.subset inside
  have space := List.all_eq_true.1 List.all_takeWhile c spaces
  rw [beq_iff_eq] at space
  subst space
  decide

theorem moves_dedent (own : Nat → Bool) (width n : Nat) (line : List Char) :
    Moves own n line ((inkLine own n line).dedent width) := by
  unfold Line.dedent
  rw [mark_inkLine]
  cases inside : own n with
  | true => exact moves_line [] [] rfl rfl rfl (Or.inr rfl)
  | false =>
      have cut := List.take_append_drop (min (inkLine own n line).indent width)
        (inkLine own n line).chars
      exact moves_line _ [] cut.symm (ink_take_indent ..) rfl (Or.inl inside)

/-- The blank lines before the others are left out. -/
theorem moves_dropWhile_isVoid {write : Line → List Char}
    (each : ∀ n line, Moves own n line (write (inkLine own n line))) {lines : List (List Char)}
    (nonempty : lines ≠ []) :
    Moves own n (joinLines lines)
      (joinLines (((inkLines own n lines).dropWhile Line.isVoid).map write)) := by
  induction lines generalizing n with
  | nil => exact absurd rfl nonempty
  | cons line lines ih =>
      by_cases void : (inkLine own n line).isVoid = true
      · obtain ⟨empty, free⟩ : (inkLine own n line).chars = [] ∧ own n = false := by
          simpa [Line.isVoid] using void
        have blank : ink line = [] := by
          have kept := ink_inkLine own n line
          rw [empty] at kept
          exact kept.symm
        rw [inkLines, List.dropWhile_cons_of_pos void, blank, List.length_nil, Nat.add_zero]
        cases lines with
        | nil => simpa [inkLines, joinLines] using Moves.of_blanks free blank (ink_nil)
        | cons other others =>
            rw [joinLines_cons_cons]
            exact .drop_blanks free blank (.drop isInk_lineFeed free (ih (by simp)))
      · rw [inkLines, List.dropWhile_cons_of_neg void, ← inkLines]
        exact moves_map_inkLines each (by simp)

/-- The blank lines after the others are left out: what follows the last of the ink is never
owned. -/
theorem moves_dropEndWhile_isVoid {write : Line → List Char}
    (empty : ∀ line : Line, line.isVoid = true → write line = []) {text : List Char}
    {lines : List Line} (moves : Moves own 0 text (joinLines (lines.map write)))
    (free : own (ink text).length = false) :
    Moves own 0 text (joinLines ((Text.dropEndWhile Line.isVoid lines).map write)) := by
  obtain ⟨voids, parts, void⟩ := Text.exists_eq_dropEndWhile_append Line.isVoid lines
  generalize Text.dropEndWhile Line.isVoid lines = kept at parts ⊢
  subst parts
  have blank : ∃ tail, joinLines ((kept ++ voids).map write) = joinLines (kept.map write) ++ tail ∧
      ink tail = [] := by
    have feeds : ∀ voids : List Line, (∀ line ∈ voids, line.isVoid = true) →
        ink (joinLines (voids.map write)) = [] := by
      intro voids void
      induction voids with
      | nil => rfl
      | cons line voids ih =>
          have rest := ih fun other listed => void other (List.mem_cons_of_mem _ listed)
          have here := empty line (void line (List.mem_cons_self ..))
          cases voids with
          | nil => simp [here]
          | cons other others =>
              rw [List.map_cons, List.map_cons, joinLines_cons_cons, here, ← List.map_cons,
                List.nil_append, ink_cons_of_blank isInk_lineFeed, rest]
    rcases List.eq_nil_or_concat kept with rfl | ⟨front, last, rfl⟩
    · exact ⟨_, rfl, feeds voids void⟩
    · cases voids with
      | nil => exact ⟨[], by simp, rfl⟩
      | cons line voids =>
          refine ⟨'\n' :: joinLines ((line :: voids).map write), ?_, ?_⟩
          · rw [List.map_append, joinLines_append (by simp) (by simp)]
          · rw [ink_cons_of_blank isInk_lineFeed]
            exact feeds _ void
  obtain ⟨tail, cut, noInk⟩ := blank
  rw [cut] at moves
  refine moves.trans ?_
  have same := moves.ink_eq
  rw [ink_append, noInk, List.append_nil] at same
  have gone : Moves own (0 + (ink (joinLines (kept.map write))).length) tail [] := by
    rw [same, Nat.zero_add]
    exact .of_blanks free noInk rfl
  simpa using (Moves.refl own 0 (joinLines (kept.map write))).append gone

/-! ## What reads and writes indented text -/

section

variable (own) (text : String)

theorem moves_dedentBlock (free : own (ink text.toList).length = false) :
    Moves own 0 text.toList
      (dedentBlock text (inkMarks own 0 (Text.splitChars '\n' text.toList))).toList := by
  have leading : ∀ width, Moves own 0 text.toList (joinLines
      (((inkLines own 0 (Text.splitChars '\n' text.toList)).dropWhile Line.isVoid).map
        (Line.dedent width))) := by
    intro width
    have moves := moves_dropWhile_isVoid (n := 0) (moves_dedent own width)
      (Text.splitChars_ne_nil '\n' text.toList)
    rwa [joinLines_splitChars] at moves
  simp only [dedentBlock, markedLines_inkMarks, joinDedented, String.toList_ofList]
  refine moves_dropEndWhile_isVoid (fun line void => ?_) (leading _) free
  have empty : line.chars = [] := by
    simp only [Line.isVoid, Bool.and_eq_true, List.isEmpty_iff] at void
    exact void.1
  simp [Line.dedent, empty]

/-- The first line of a text and what becomes of the others. -/
theorem moves_first {line line' : List Char} {write : Line → List Char}
    (first : Moves own 0 line line')
    (each : ∀ n line, Moves own n line (write (inkLine own n line))) (lines : List (List Char)) :
    Moves own 0 (joinLines (line :: lines))
      (joinLines (line' :: (inkLines own (ink line).length lines).map write)) := by
  cases lines with
  | nil => simpa [inkLines] using first
  | cons other others =>
      have rest := moves_map_inkLines (n := (ink line).length) each
        (List.cons_ne_nil other others)
      rw [inkLines, List.map_cons] at rest
      rw [joinLines_cons_cons, inkLines, List.map_cons, joinLines_cons_cons]
      refine first.append (.keep '\n' ?_)
      simpa [ink_cons_of_blank] using rest

theorem moves_dedentContinuation :
    Moves own 0 text.toList
      (dedentContinuation text (inkMarks own 0 (Text.splitChars '\n' text.toList))).toList := by
  have moves : ∀ width, ∀ line lines, Text.splitChars '\n' text.toList = line :: lines →
      Moves own 0 text.toList (joinLines ((inkLine own 0 line).chars ::
        (inkLines own (ink line).length lines).map (Line.dedent width))) := by
    intro width line lines cut
    rw [← joinLines_splitChars text.toList, cut]
    exact moves_first own (moves_line [] [] rfl rfl rfl (Or.inr rfl)) (moves_dedent own width) lines
  rw [dedentContinuation, markedLines_inkMarks]
  cases cut : Text.splitChars '\n' text.toList with
  | nil => exact absurd cut (Text.splitChars_ne_nil '\n' text.toList)
  | cons line lines =>
      have moved := fun width => moves width line lines cut
      simp only [inkLines, Nat.zero_add]
      cases lines with
      | nil => simpa [inkLines] using moved 0
      | cons other others =>
          simp only [inkLines, List.map_cons, joinLines_cons_cons] at moved
          simpa [inkLines, joinDedented] using moved _

theorem moves_padded {pad : List Char} (blank : ink pad = []) (n : Nat) (line : List Char) :
    Moves own n line ((inkLine own n line).padded pad) := by
  unfold Line.padded
  split
  · exact moves_line [] [] rfl rfl rfl (Or.inr rfl)
  · rename_i outside
    rw [Bool.or_eq_true, not_or, mark_inkLine] at outside
    exact moves_line [] pad rfl rfl blank (Or.inl (by simpa using outside.1))

theorem moves_indentLines {pad : String} (blank : ink pad.toList = []) :
    Moves own 0 text.toList
      (indentLines text pad (inkMarks own 0 (Text.splitChars '\n' text.toList))).toList := by
  have moves := moves_map_inkLines (n := 0) (moves_padded own blank)
    (Text.splitChars_ne_nil '\n' text.toList)
  rw [joinLines_splitChars] at moves
  rw [indentLines, markedLines_inkMarks, String.toList_ofList]
  exact moves

theorem moves_continued {pad : List Char} (blank : ink pad = []) (n : Nat) (line : List Char) :
    Moves own n line ((inkLine own n line).continued pad) := by
  unfold Line.continued
  split
  · exact moves_line [] [] rfl rfl rfl (Or.inr rfl)
  · rename_i outside
    have free : own n = false := by simpa using outside
    split
    · rename_i white
      have empty : ink (inkLine own n line).chars = [] :=
        ink_eq_nil_iff.2 (List.all_eq_true.1 white)
      exact moves_line (inkLine own n line).chars [] (by simp) empty rfl (Or.inl free)
    · exact moves_line [] pad rfl rfl blank (Or.inl free)

theorem moves_continueLines {pad : String} (blank : ink pad.toList = []) :
    Moves own 0 text.toList
      (continueLines text pad (inkMarks own 0 (Text.splitChars '\n' text.toList))).toList := by
  rw [continueLines, markedLines_inkMarks, String.toList_ofList]
  cases cut : Text.splitChars '\n' text.toList with
  | nil => exact absurd cut (Text.splitChars_ne_nil '\n' text.toList)
  | cons line lines =>
      have moves := moves_first own (Moves.refl own 0 line) (moves_continued own blank) lines
      rw [← cut, joinLines_splitChars] at moves
      simp only [inkLines, List.headD_cons, List.drop_one, List.tail_cons, Nat.zero_add]
      exact moves

end

theorem moves_expandTabsFrom {offset : Nat} {text : List Char} {spans : List Span}
    (literals : ∀ span ∈ spans, IsLiteral offset text span) :
    Moves (owned offset text spans) 0 text (expandTabsFrom spans offset text) := by
  -- What is left of the text after the part `before`.
  have rest : ∀ (after before : List Char), text = before ++ after →
      Moves (owned offset text spans) (ink before).length after
        (expandTabsFrom spans (offset + before.length) after) := by
    intro after
    induction after with
    | nil => exact fun _ _ => .done _
    | cons c after ih =>
        intro before cut
        have next := ih (before ++ [c]) (by simp [cut])
        rw [ink_append, List.length_append, List.length_append, List.length_singleton,
          ← Nat.add_assoc] at next
        rw [expandTabsFrom]
        split
        · rename_i tab
          obtain ⟨rfl, outside⟩ : c = '\t' ∧ inAnySpan spans (offset + before.length) = false := by
            simpa using tab
          have free : owned offset text spans (ink before).length = false := by
            rw [inAnySpan_of_blank literals (by simp [cut, isInk, Text.isBlank]), cut,
              rank_length] at outside
            rwa [cut]
          have four : Moves (owned offset text spans) (ink before).length ['\t']
              [' ', ' ', ' ', ' '] := .of_blanks free (by decide) (by decide)
          exact four.append next
        · exact .keep c next
  simpa using rest text [] rfl

end Layout

end Emend

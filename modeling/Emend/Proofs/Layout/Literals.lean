import Emend.Proofs.Layout.Moves

/-!
# Literals keep their text

`KeepsLiterals` compares a text and its literals with another text: every literal is there, with
the same characters and in the same order, and what stands outside of the literals has the same
ink, so it differs in blanks alone.

A literal owns every rank inside of it, so a move cannot change it (`Moves.keepsLiterals`), and
every function that reads or writes indented text is a move (`moving_keeps_literals`).
-/

set_option autoImplicit false

namespace Emend

namespace Layout

/-! ## The text of literals and the text outside -/

/-- The characters of a span in a text that begins at `offset`. -/
def charsAt (offset : Nat) (text : List Char) (span : Span) : List Char :=
  (text.drop (span.start - offset)).take (span.stop - span.start)

/-- What of a text that begins at `offset` lies in none of the spans. -/
def outside (spans : List Span) : Nat → List Char → List Char
  | _, [] => []
  | offset, c :: cs =>
    if inAnySpan spans offset then outside spans (offset + 1) cs
    else c :: outside spans (offset + 1) cs

/-- The literals of the text at `offset` are in `out` too, which begins at 0: each goes where its
first and last characters went. -/
structure KeepsLiterals (offset : Nat) (text : List Char) (spans : List Span)
    (out : List Char) : Prop where
  chars : ∀ span ∈ spans, charsAt 0 out (span.relocate offset text 0 out) = charsAt offset text span
  /-- A literal that ends before another begins does so still. -/
  order : ∀ a ∈ spans, ∀ b ∈ spans, a.stop ≤ b.start →
    (a.relocate offset text 0 out).stop ≤ (b.relocate offset text 0 out).start
  /-- The text outside of the literals differs in blanks alone. -/
  outside : ink (outside (spans.map (Span.relocate offset text 0 out)) 0 out) =
    ink (outside spans offset text)
  /-- The whole text differs in blanks alone. -/
  ink : ink out = ink text

/-- Whether the ink of this rank belongs to a literal. -/
def held (offset : Nat) (text : List Char) (spans : List Span) (n : Nat) : Bool :=
  spans.any fun span => rank text (span.start - offset) ≤ n &&
    n ≤ rank text (span.stop - 1 - offset)

/-- The part of some ink that is not held; `n` is the rank of the first. -/
def inkOutside (hold : Nat → Bool) : Nat → List Char → List Char
  | _, [] => []
  | n, c :: cs => if hold n then inkOutside hold (n + 1) cs else c :: inkOutside hold (n + 1) cs

variable {offset offset' : Nat} {text text' out : List Char} {spans : List Span}

section

variable (literals : ∀ span ∈ spans, IsLiteral offset text span)

include literals

/-- A character that is ink lies in a literal exactly when its rank is held. -/
theorem inAnySpan_of_ink {place : Nat} (dark : (text[place]?).any isInk = true) :
    inAnySpan spans (offset + place) = held offset text spans (rank text place) := by
  rw [held, inAnySpan, Bool.eq_iff_iff, List.any_eq_true, List.any_eq_true]
  refine exists_congr fun span => and_congr_right fun listed => ?_
  have literal := literals span listed
  have start := literal.start_le
  have stop := literal.start_lt
  simp only [Span.contains, Bool.and_eq_true, decide_eq_true_eq]
  constructor
  · rintro ⟨after, before⟩
    exact ⟨rank_mono text (by omega), rank_mono text (by omega)⟩
  · rintro ⟨after, before⟩
    have begun : ¬ place < span.start - offset := by
      intro early
      have := rank_lt dark early
      omega
    have notPast : ¬ span.stop - 1 - offset < place := by
      intro late
      have := rank_lt literal.last late
      omega
    omega

theorem ink_outside :
    ink (outside spans offset text) = inkOutside (held offset text spans) 0 (ink text) := by
  -- What is left of the text after the part `before`.
  have rest : ∀ (after before : List Char), text = before ++ after →
      ink (outside spans (offset + before.length) after) =
        inkOutside (held offset text spans) (ink before).length (ink after) := by
    intro after
    induction after with
    | nil => exact fun _ _ => rfl
    | cons c after ih =>
        intro before cut
        have next := ih (before ++ [c]) (by simp [cut])
        rw [List.length_append, List.length_singleton, ← Nat.add_assoc, ink_append] at next
        rw [outside]
        cases dark : isInk c with
        | true =>
            have here : inAnySpan spans (offset + before.length) =
                held offset text spans (ink before).length := by
              rw [inAnySpan_of_ink literals (by simp [cut, dark]), cut, rank_length]
            rw [ink_cons_of_ink dark, ink_nil, List.length_append, List.length_singleton] at next
            rw [here, ink_cons_of_ink dark, inkOutside]
            split
            · exact next
            · rw [ink_cons_of_ink dark, next]
        | false =>
            rw [ink_cons_of_blank dark, ink_nil, List.append_nil] at next
            rw [ink_cons_of_blank dark]
            split
            · exact next
            · rw [ink_cons_of_blank dark, next]
  simpa using rest text [] rfl

theorem held_relocate (same : ink text' = ink text) :
    held offset' text' (spans.map (Span.relocate offset text offset' text')) =
      held offset text spans := by
  funext n
  rw [held, held, List.any_map, Bool.eq_iff_iff, List.any_eq_true, List.any_eq_true]
  refine exists_congr fun span => and_congr_right fun listed => ?_
  obtain ⟨first, last⟩ := rank_relocate same offset' (literals span listed)
  rw [Function.comp_apply, first, last]

end

/-- A literal cuts its text in three. -/
theorem IsLiteral.exists_cut {span : Span} (literal : IsLiteral offset text span) :
    ∃ before after, text = before ++ charsAt offset text span ++ after ∧
      before.length = span.start - offset ∧
      (charsAt offset text span).length = span.stop - span.start := by
  have start := literal.start_le
  have stop := literal.start_lt
  have bound := literal.stop_le
  refine ⟨text.take (span.start - offset), text.drop (span.stop - offset), ?_, ?_, ?_⟩
  · have rest : (text.drop (span.start - offset)).drop (span.stop - span.start) =
        text.drop (span.stop - offset) := by
      rw [List.drop_drop]
      congr 1
      omega
    rw [charsAt, List.append_assoc, ← rest, List.take_append_drop, List.take_append_drop]
  · rw [List.length_take]
    omega
  · rw [charsAt, List.length_take, List.length_drop]
    omega

/-- A literal that stands in another text as a whole, after the same ink, is relocated there. -/
theorem IsLiteral.relocate_eq {span : Span} (literal : IsLiteral offset text span) (offset' : Nat)
    {before after before' chars : List Char} (after' : List Char) (cut : text = before ++ chars ++ after)
    (first : before.length = span.start - offset) (length : chars.length = span.stop - span.start)
    (same : ink before' = ink before) :
    span.relocate offset text offset' (before' ++ chars ++ after') =
      ⟨offset' + before'.length, offset' + (before'.length + chars.length)⟩ := by
  have start := literal.start_le
  have stop := literal.start_lt
  have firstInk := literal.first
  have lastInk := literal.last
  have nonempty : chars ≠ [] := by
    rintro rfl
    simp only [List.length_nil] at length
    omega
  have starts : inkPlace (before' ++ chars ++ after') (rank text (span.start - offset)) =
      before'.length := by
    obtain ⟨c, tail, rfl⟩ := List.exists_cons_of_ne_nil nonempty
    rw [List.append_assoc, List.cons_append] at cut ⊢
    rw [cut, ← first] at firstInk
    have dark : isInk c = true := by simpa using firstInk
    rw [← first, cut, rank_length, ← same, inkPlace_append dark]
  have stops : inkPlace (before' ++ chars ++ after') (rank text (span.stop - 1 - offset)) + 1 =
      before'.length + chars.length := by
    obtain ⟨init, last, rfl⟩ := (List.eq_nil_or_concat chars).resolve_left nonempty
    have place : span.stop - 1 - offset = (before ++ init).length := by
      simp only [List.concat_eq_append, List.length_append, List.length_singleton] at length ⊢
      omega
    rw [List.concat_eq_append, ← List.append_assoc, List.append_assoc, List.singleton_append]
      at cut ⊢
    rw [cut, place] at lastInk
    have dark : isInk last = true := by simpa using lastInk
    have sameInk : ink (before' ++ init) = ink (before ++ init) := by
      rw [ink_append, ink_append, same]
    rw [place, cut, rank_length, ← sameInk, inkPlace_append dark]
    simp [Nat.add_assoc]
  rw [Span.relocate, starts, Nat.add_assoc, stops]

/-- A move takes a literal as a whole. -/
theorem Moves.exists_literal (literals : ∀ span ∈ spans, IsLiteral offset text span)
    (moves : Moves (owned offset text spans) 0 text out) {span : Span} (listed : span ∈ spans) :
    ∃ before after, out = before ++ charsAt offset text span ++ after ∧
      span.relocate offset text 0 out =
        ⟨before.length, before.length + (charsAt offset text span).length⟩ := by
  have literal := literals span listed
  have start := literal.start_le
  have stop := literal.start_lt
  obtain ⟨before, after, cut, first, length⟩ := literal.exists_cut
  have firstInk := literal.first
  generalize charsAt offset text span = chars at cut length ⊢
  cases chars with
  | nil =>
      simp only [List.length_nil] at length
      omega
  | cons c tail =>
      have dark : isInk c = true := by
        rw [cut, ← first] at firstInk
        simpa using firstInk
      -- After its first character every rank of the literal is owned.
      have owns : ∀ front back, tail = front ++ back → back ≠ [] →
          owned offset text spans (0 + (ink before).length + 1 + (ink front).length) = true := by
        intro front back parts nonempty
        have place : rank text (before ++ c :: front).length =
            0 + (ink before).length + 1 + (ink front).length := by
          have whole : text = (before ++ c :: front) ++ (back ++ after) := by simp [cut, parts]
          rw [whole, rank_length, ink_append, ink_cons_of_ink dark, List.length_append,
            List.length_cons]
          omega
        rw [← place, ← any_containsAfterStart literals, List.any_eq_true]
        refine ⟨span, listed, ?_⟩
        have more := List.length_pos_iff.2 nonempty
        simp only [parts, List.length_cons, List.length_append] at length
        simp only [Span.containsAfterStart, List.length_append, List.length_cons, Bool.and_eq_true,
          decide_eq_true_eq]
        omega
      have moved := moves
      generalize owned offset text spans = own at owns moved
      rw [cut, List.append_assoc, List.cons_append] at moved
      obtain ⟨before', rest, rfl, left, right⟩ := moved.split_ink dark
      obtain ⟨after', rfl, -⟩ := right.split_owned owns
      refine ⟨before', after', by simp, ?_⟩
      have there := literal.relocate_eq 0 after' cut first length left.ink_eq
      simpa using there

/-- **A move keeps literals.** -/
theorem Moves.keepsLiterals (literals : ∀ span ∈ spans, IsLiteral offset text span)
    (moves : Moves (owned offset text spans) 0 text out) : KeepsLiterals offset text spans out where
  chars := by
    intro span listed
    obtain ⟨before, after, rfl, there⟩ := moves.exists_literal literals listed
    rw [there, charsAt]
    simp
  order := by
    intro a first b second apart
    have last := rank_lt_length_ink (literals b second).first
    have begun := (literals a first).start_lt
    have inside := (literals a first).start_le
    have lt : rank text (a.stop - 1 - offset) < rank text (b.start - offset) :=
      rank_lt (literals a first).last (by omega)
    rw [← moves.ink_eq] at last
    simpa [Span.relocate] using Nat.succ_le_of_lt (inkPlace_lt lt last)
  outside := by
    have moved : ∀ span ∈ spans.map (Span.relocate offset text 0 out), IsLiteral 0 out span := by
      intro span listed
      obtain ⟨before, there, rfl⟩ := List.mem_map.1 listed
      exact isLiteral_relocate moves.ink_eq (literals before there)
    rw [ink_outside moved, ink_outside literals, held_relocate literals moves.ink_eq, moves.ink_eq]
  ink := moves.ink_eq

/-- **Moving lines touches blanks outside of literals only.** For lines marked by the literals of
their text, which begin and end with ink, whatever removes or adds indentation, and whatever
expands tabs, keeps the literals and changes blanks alone. -/
theorem moving_keeps_literals {text : String}
    (literals : ∀ span ∈ spans, IsLiteral offset text.toList span) :
    let marks := marksFrom spans offset (Text.splitChars '\n' text.toList)
    KeepsLiterals offset text.toList spans (dedentBlock text marks).toList ∧
      KeepsLiterals offset text.toList spans (dedentContinuation text marks).toList ∧
      (∀ pad : String, ink pad.toList = [] →
        KeepsLiterals offset text.toList spans (indentLines text pad marks).toList ∧
          KeepsLiterals offset text.toList spans (continueLines text pad marks).toList) ∧
      KeepsLiterals offset text.toList spans (expandTabsFrom spans offset text.toList) := by
  intro marks
  have byRank : marks = inkMarks (owned offset text.toList spans) 0
      (Text.splitChars '\n' text.toList) := marksFrom_eq_inkMarks literals
  rw [byRank]
  refine ⟨?_, ?_, fun pad blank => ⟨?_, ?_⟩, ?_⟩
  · exact (moves_dedentBlock _ text (owned_length_ink literals)).keepsLiterals literals
  · exact (moves_dedentContinuation _ text).keepsLiterals literals
  · exact (moves_indentLines _ text blank).keepsLiterals literals
  · exact (moves_continueLines _ text blank).keepsLiterals literals
  · exact (moves_expandTabsFrom literals).keepsLiterals literals

namespace Example

/-- A statement with a literal of two lines: blanks stand before its line feed, a tab after
it. -/
def statement : String := "\n    f('a  \n\tb');\t\n      g();"

/-- The literal of the statement when that begins at offset 20. -/
def literal : Span := ⟨27, 35⟩

/-- The two lines are moved to the left and padded again, and the tab outside is expanded. -/
theorem moving_keeps_literals_statement :
    (∀ span ∈ [literal], IsLiteral 20 statement.toList span) ∧
      KeepsLiterals 20 statement.toList [literal] "f('a  \n\tb');\n  g();".toList ∧
      KeepsLiterals 20 statement.toList [literal]
        "\n        f('a  \n\tb');\n          g();".toList ∧
      KeepsLiterals 20 statement.toList [literal]
        "\n    f('a  \n\tb');    \n      g();".toList := by
  have literals : ∀ span ∈ [literal], IsLiteral 20 statement.toList span := by decide
  obtain ⟨dedented, -, padded, expanded⟩ := moving_keeps_literals literals
  refine ⟨literals, ?_, ?_, ?_⟩
  · have text : dedentBlock statement (marksFrom [literal] 20
        (Text.splitChars '\n' statement.toList)) = "f('a  \n\tb');\n  g();" := by decide +kernel
    rwa [text] at dedented
  · have text : indentLines statement "    " (marksFrom [literal] 20
        (Text.splitChars '\n' statement.toList)) =
          "\n        f('a  \n\tb');\n          g();" := by decide +kernel
    have four := (padded "    " (by decide)).1
    rwa [text] at four
  · have text : expandTabsFrom [literal] 20 statement.toList =
        "\n    f('a  \n\tb');    \n      g();".toList := by decide +kernel
    rwa [text] at expanded

end Example

end Layout

end Emend

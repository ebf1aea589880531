import Emend.Layout
import Emend.Proofs.Text
import Mathlib.Data.List.Basic
import Mathlib.Tactic.ByContra
import Mathlib.Tactic.MkIffOfInductiveProp

/-!
# Literals in terms of ink

The *ink* of a text is what is left of it without blanks. Moving lines changes blanks
alone, so it keeps the ink, and a place in the text is known again by its *rank*: how much
ink stands before it.

A literal begins and ends with ink. So whether a line opens or ends inside of a literal
depends on the rank of that place and on nothing else: it is `owned` when some literal begins
before it and ends after it (`marksFrom_eq_inkMarks`). And a literal goes where its first and its
last character go: `Span.relocate` gives the span with the same ranks in another text of the
same ink, and the lines of that text are marked by the same owned ranks
(`marksFrom_relocate`).
-/

set_option autoImplicit false

namespace Emend

namespace Text

theorem intercalate_splitChars (sep : Char) (cs : List Char) :
    [sep].intercalate (splitChars sep cs) = cs := by
  induction cs with
  | nil => simp [splitChars]
  | cons c cs ih =>
      rw [splitChars]
      cases pieces : splitChars sep cs with
      | nil => exact absurd pieces (splitChars_ne_nil sep cs)
      | cons piece others =>
          rw [pieces] at ih
          by_cases here : c = sep
          · rw [if_pos here, List.intercalate_cons_cons, ih, here]
            rfl
          · rw [if_neg here, ← ih]
            cases others with
            | nil => simp
            | cons other others => simp [List.intercalate_cons_cons]

theorem not_mem_of_mem_splitChars {sep : Char} {cs piece : List Char}
    (found : piece ∈ splitChars sep cs) : sep ∉ piece := by
  induction cs generalizing piece with
  | nil =>
      rw [splitChars, List.mem_singleton] at found
      simp [found]
  | cons c cs ih =>
      rw [splitChars] at found
      split at found
      · rcases List.mem_cons.1 found with rfl | later
        · simp
        · exact ih later
      · rename_i other
        split at found
        · rename_i pieces
          exact absurd pieces (splitChars_ne_nil sep cs)
        · rename_i first rest pieces
          rcases List.mem_cons.1 found with rfl | later
          · rw [List.mem_cons, not_or]
            exact ⟨Ne.symm other, ih (pieces ▸ List.mem_cons_self)⟩
          · exact ih (pieces ▸ List.mem_cons_of_mem _ later)

theorem splitChars_intercalate {sep : Char} {pieces : List (List Char)} (nonempty : pieces ≠ [])
    (plain : ∀ piece ∈ pieces, sep ∉ piece) :
    splitChars sep ([sep].intercalate pieces) = pieces := by
  induction pieces with
  | nil => exact absurd rfl nonempty
  | cons piece pieces ih =>
      have here : splitChars sep piece = [piece] :=
        splitChars_of_not_mem (plain piece (List.mem_cons_self ..))
      cases pieces with
      | nil => simpa using here
      | cons other others =>
          have rest := ih (by simp) fun p inside => plain p (List.mem_cons_of_mem _ inside)
          rw [List.intercalate_cons_cons, List.append_assoc, List.singleton_append,
            splitChars_append, here, rest]
          rfl

end Text

namespace Layout

/-! ## Ink and ranks -/

def isInk (c : Char) : Bool := !Text.isBlank c

/-- The text without its blanks. -/
def ink (cs : List Char) : List Char := cs.filter isInk

@[simp] theorem ink_nil : ink [] = [] := rfl

@[simp] theorem ink_append (a b : List Char) : ink (a ++ b) = ink a ++ ink b :=
  List.filter_append ..

theorem ink_cons_of_ink {c : Char} (here : isInk c = true) (cs : List Char) :
    ink (c :: cs) = c :: ink cs :=
  List.filter_cons_of_pos here

theorem ink_cons_of_blank {c : Char} (here : isInk c = false) (cs : List Char) :
    ink (c :: cs) = ink cs :=
  List.filter_cons_of_neg (by simp [here])

theorem isInk_eq_false_iff {c : Char} : isInk c = false ↔ Text.isBlank c = true := by
  simp [isInk]

theorem ink_eq_nil_iff {cs : List Char} : ink cs = [] ↔ ∀ c ∈ cs, Text.isBlank c = true := by
  simp [ink, List.filter_eq_nil_iff, isInk]

/-- The line feed is a blank. -/
@[simp] theorem isInk_lineFeed : isInk '\n' = false := by decide

/-- How much ink stands before a place of the text. -/
def rank (text : List Char) (place : Nat) : Nat := (ink (text.take place)).length

theorem rank_append (a b : List Char) (place : Nat) :
    rank (a ++ b) (a.length + place) = (ink a).length + rank b place := by
  simp [rank, List.take_append, List.take_of_length_le]

@[simp] theorem rank_length (a b : List Char) : rank (a ++ b) a.length = (ink a).length := by
  simp [rank]

theorem rank_mono (text : List Char) {i j : Nat} (le : i ≤ j) : rank text i ≤ rank text j := by
  have sub : List.Sublist (text.take i) (text.take j) :=
    (List.take_prefix_take_left le).sublist
  exact (sub.filter _).length_le

theorem rank_lt {text : List Char} {i j : Nat} (here : (text[i]?).any isInk = true) (lt : i < j) :
    rank text i < rank text j := by
  obtain ⟨c, found, dark⟩ : ∃ c, text[i]? = some c ∧ isInk c = true := by
    simpa [Option.any_eq_true] using here
  have step : rank text (i + 1) = rank text i + 1 := by
    rw [rank, rank, List.take_add_one, found, Option.toList_some, ink_append,
      ink_cons_of_ink dark, List.length_append]
    rfl
  have rest := rank_mono text (Nat.succ_le_of_lt lt)
  rw [Nat.succ_eq_add_one, step] at rest
  omega

theorem rank_lt_length_ink {text : List Char} {i : Nat} (here : (text[i]?).any isInk = true) :
    rank text i < (ink text).length := by
  have bound : i < text.length := by
    by_contra beyond
    rw [List.getElem?_eq_none (Nat.le_of_not_lt beyond)] at here
    cases here
  have less := rank_lt here bound
  rwa [rank.eq_1 text text.length, List.take_length] at less

/-- Where the character stands that has so much ink before it. -/
def inkPlace : List Char → Nat → Nat
  | [], _ => 0
  | c :: cs, n =>
    if isInk c then
      match n with
      | 0 => 0
      | n + 1 => inkPlace cs n + 1
    else inkPlace cs n + 1

theorem inkPlace_append {c : Char} (here : isInk c = true) (before after : List Char) :
    inkPlace (before ++ c :: after) (ink before).length = before.length := by
  induction before with
  | nil => simp [inkPlace, here]
  | cons b before ih =>
      by_cases dark : isInk b = true
      · simp [ink_cons_of_ink dark, inkPlace, dark, ih]
      · have blank : isInk b = false := by simpa using dark
        simp [ink_cons_of_blank blank, inkPlace, blank, ih]

/-- A rank below the amount of ink is that of one character, the text is cut there. -/
theorem exists_ink_at {text : List Char} {n : Nat} (bound : n < (ink text).length) :
    ∃ before c after, text = before ++ c :: after ∧ isInk c = true ∧ (ink before).length = n := by
  induction text generalizing n with
  | nil => simp at bound
  | cons b text ih =>
      by_cases dark : isInk b = true
      · rw [ink_cons_of_ink dark, List.length_cons] at bound
        cases n with
        | zero => exact ⟨[], b, text, rfl, dark, rfl⟩
        | succ n =>
            obtain ⟨before, c, after, rfl, here, count⟩ := ih (Nat.lt_of_succ_lt_succ bound)
            refine ⟨b :: before, c, after, rfl, here, ?_⟩
            rw [ink_cons_of_ink dark, List.length_cons, count]
      · have blank : isInk b = false := by simpa using dark
        rw [ink_cons_of_blank blank] at bound
        obtain ⟨before, c, after, rfl, here, count⟩ := ih bound
        exact ⟨b :: before, c, after, rfl, here, by rw [ink_cons_of_blank blank, count]⟩

theorem inkPlace_spec {text : List Char} {n : Nat} (bound : n < (ink text).length) :
    inkPlace text n < text.length ∧ (text[inkPlace text n]?).any isInk = true ∧
      rank text (inkPlace text n) = n := by
  obtain ⟨before, c, after, rfl, here, rfl⟩ := exists_ink_at bound
  rw [inkPlace_append here]
  exact ⟨by simp, by simp [here], rank_length ..⟩

theorem inkPlace_lt {text : List Char} {m n : Nat} (lt : m < n) (bound : n < (ink text).length) :
    inkPlace text m < inkPlace text n := by
  obtain ⟨-, -, first⟩ := inkPlace_spec (Nat.lt_trans lt bound)
  obtain ⟨-, -, second⟩ := inkPlace_spec bound
  by_contra late
  have := rank_mono text (Nat.le_of_not_lt late)
  omega

/-! ## Literals -/

/-- A span lies in a text that begins at `offset`, and it begins and ends with ink. -/
@[mk_iff]
structure IsLiteral (offset : Nat) (text : List Char) (span : Span) : Prop where
  start_le : offset ≤ span.start
  start_lt : span.start < span.stop
  stop_le : span.stop ≤ offset + text.length
  first : (text[span.start - offset]?).any isInk = true
  last : (text[span.stop - 1 - offset]?).any isInk = true

instance (offset : Nat) (text : List Char) (span : Span) : Decidable (IsLiteral offset text span) :=
  decidable_of_iff' _ (isLiteral_iff ..)

/-- Whether a place of this rank lies inside of a literal. -/
def owned (offset : Nat) (text : List Char) (spans : List Span) (n : Nat) : Bool :=
  spans.any fun span => rank text (span.start - offset) < n &&
    n ≤ rank text (span.stop - 1 - offset)

variable {offset : Nat} {text : List Char} {spans : List Span}

@[simp] theorem owned_zero : owned offset text spans 0 = false := by
  simp [owned]

section

variable (literals : ∀ span ∈ spans, IsLiteral offset text span)

include literals

/-- A place lies inside of a literal, not at its start, exactly when its rank is owned. -/
theorem any_containsAfterStart (place : Nat) :
    (spans.any (·.containsAfterStart (offset + place))) =
      owned offset text spans (rank text place) := by
  rw [owned, Bool.eq_iff_iff, List.any_eq_true, List.any_eq_true]
  refine exists_congr fun span => and_congr_right fun listed => ?_
  have literal := literals span listed
  have start := literal.start_le
  have stop := literal.start_lt
  simp only [Span.containsAfterStart, Bool.and_eq_true, decide_eq_true_eq]
  constructor
  · rintro ⟨after, before⟩
    exact ⟨rank_lt literal.first (by omega), rank_mono text (by omega)⟩
  · rintro ⟨after, before⟩
    have begun : span.start - offset < place := by
      by_contra late
      have := rank_mono text (Nat.le_of_not_lt late)
      omega
    have notPast : ¬ span.stop - 1 - offset < place := by
      intro early
      have := rank_lt literal.last early
      omega
    omega

/-- What is no ink does not begin a literal. -/
theorem inAnySpan_of_blank {place : Nat} (blank : (text[place]?).any isInk = false) :
    inAnySpan spans (offset + place) = owned offset text spans (rank text place) := by
  rw [← any_containsAfterStart literals, inAnySpan, Bool.eq_iff_iff, List.any_eq_true,
    List.any_eq_true]
  refine exists_congr fun span => and_congr_right fun listed => ?_
  have literal := literals span listed
  have start := literal.start_le
  have ne : span.start - offset ≠ place := by
    rintro rfl
    rw [literal.first] at blank
    cases blank
  simp only [Span.contains, Span.containsAfterStart, Bool.and_eq_true, decide_eq_true_eq]
  omega

theorem owned_length_ink : owned offset text spans (ink text).length = false := by
  rw [owned, List.any_eq_false]
  intro span listed
  have last := rank_lt_length_ink (literals span listed).last
  simp only [Bool.and_eq_true, decide_eq_true_eq, not_and]
  omega

end

/-! ## Blanks around a text -/

section

variable {lead trail : List Char} (before : ink lead = []) (after : ink trail = [])

include before after

theorem exists_place_of_ink {place : Nat}
    (here : ((lead ++ text ++ trail)[place]?).any isInk = true) :
    ∃ inner, place = lead.length + inner ∧ inner < text.length ∧
      (text[inner]?).any isInk = true := by
  have white : ∀ {cs : List Char} {i : Nat}, ink cs = [] → (cs[i]?).any isInk = false := by
    intro cs i empty
    cases found : cs[i]? with
    | none => rfl
    | some c =>
        have blank := ink_eq_nil_iff.1 empty c (List.mem_of_getElem? found)
        simp [isInk, blank]
  rw [List.append_assoc] at here
  rcases Nat.lt_or_ge place lead.length with early | late
  · rw [List.getElem?_append_left early, white before] at here
    cases here
  · rw [List.getElem?_append_right late] at here
    rcases Nat.lt_or_ge (place - lead.length) text.length with inside | beyond
    · rw [List.getElem?_append_left inside] at here
      exact ⟨place - lead.length, by omega, inside, here⟩
    · rw [List.getElem?_append_right beyond, white after] at here
      cases here

/-- A literal stands in the text without the blanks around it. -/
theorem IsLiteral.of_blanks {span : Span}
    (literal : IsLiteral offset (lead ++ text ++ trail) span) :
    IsLiteral (offset + lead.length) text span := by
  have start := literal.start_le
  have stop := literal.start_lt
  obtain ⟨first, begins, -, firstInk⟩ := exists_place_of_ink before after literal.first
  obtain ⟨last, ends, bound, lastInk⟩ := exists_place_of_ink before after literal.last
  have begins' : span.start - (offset + lead.length) = first := by omega
  have ends' : span.stop - 1 - (offset + lead.length) = last := by omega
  constructor
  · omega
  · exact stop
  · omega
  · rwa [begins']
  · rwa [ends']

/-- The blanks around a text own nothing. -/
theorem owned_of_blanks
    (literals : ∀ span ∈ spans, IsLiteral offset (lead ++ text ++ trail) span) :
    owned (offset + lead.length) text spans = owned offset (lead ++ text ++ trail) spans := by
  have same : ∀ inner, inner < text.length →
      rank (lead ++ text ++ trail) (lead.length + inner) = rank text inner := by
    intro inner bound
    rw [List.append_assoc, rank_append, before, List.length_nil, Nat.zero_add, rank, rank,
      List.take_append_of_le_length (Nat.le_of_lt bound)]
  funext n
  rw [owned, owned, Bool.eq_iff_iff, List.any_eq_true, List.any_eq_true]
  refine exists_congr fun span => and_congr_right fun listed => ?_
  have literal := literals span listed
  have start := literal.start_le
  have stop := literal.start_lt
  obtain ⟨first, begins, within, -⟩ := exists_place_of_ink before after literal.first
  obtain ⟨last, ends, bound, -⟩ := exists_place_of_ink before after literal.last
  have begins' : span.start - (offset + lead.length) = first := by omega
  have ends' : span.stop - 1 - (offset + lead.length) = last := by omega
  rw [begins, ends, begins', ends', same first within, same last bound]

end

/-! ## The marks of lines -/

/-- The marks of lines by the ranks of their ends; `n` is the rank at which they begin. -/
def inkMarks (own : Nat → Bool) : Nat → List (List Char) → List LineMark
  | _, [] => []
  | n, line :: lines =>
    ⟨own n, own (n + (ink line).length)⟩ :: inkMarks own (n + (ink line).length) lines

theorem joinLines_cons_cons (line other : List Char) (lines : List (List Char)) :
    joinLines (line :: other :: lines) = line ++ '\n' :: joinLines (other :: lines) := by
  simp [joinLines, List.intercalate_cons_cons]

@[simp] theorem joinLines_singleton (line : List Char) : joinLines [line] = line := by
  simp [joinLines]

theorem joinLines_append {lines others : List (List Char)} (nonempty : lines ≠ [])
    (more : others ≠ []) :
    joinLines (lines ++ others) = joinLines lines ++ '\n' :: joinLines others := by
  induction lines with
  | nil => exact absurd rfl nonempty
  | cons line lines ih =>
      cases lines with
      | nil =>
          cases others with
          | nil => exact absurd rfl more
          | cons other others => simp [joinLines_cons_cons]
      | cons next lines =>
          rw [List.cons_append, List.cons_append, joinLines_cons_cons, joinLines_cons_cons,
            ← List.cons_append, ih (by simp), List.append_assoc, List.cons_append]

@[simp] theorem joinLines_splitChars (cs : List Char) :
    joinLines (Text.splitChars '\n' cs) = cs :=
  Text.intercalate_splitChars ..

theorem splitChars_joinLines {lines : List (List Char)} (nonempty : lines ≠ [])
    (plain : ∀ line ∈ lines, '\n' ∉ line) : Text.splitChars '\n' (joinLines lines) = lines :=
  Text.splitChars_intercalate nonempty plain

/-- **Marks depend on ranks.** The lines of a text are marked by the ranks that its
literals own. -/
theorem marksFrom_eq_inkMarks (literals : ∀ span ∈ spans, IsLiteral offset text span) :
    marksFrom spans offset (Text.splitChars '\n' text) =
      inkMarks (owned offset text spans) 0 (Text.splitChars '\n' text) := by
  -- The lines that are left, after the part `before` of the text.
  have rest : ∀ (lines : List (List Char)) (before : List Char),
      text = before ++ joinLines lines → lines ≠ [] →
        marksFrom spans (offset + before.length) lines =
          inkMarks (owned offset text spans) (ink before).length lines := by
    intro lines
    induction lines with
    | nil => exact fun _ _ empty => absurd rfl empty
    | cons line lines ih =>
        intro before cut _
        have opens : (spans.any (·.containsAfterStart (offset + before.length))) =
            owned offset text spans (ink before).length := by
          rw [any_containsAfterStart literals, cut, rank_length]
        have closes : inAnySpan spans (offset + before.length + line.length) =
            owned offset text spans ((ink before).length + (ink line).length) := by
          rw [Nat.add_assoc, inAnySpan_of_blank literals]
          · have lineRank : rank text (before.length + line.length) =
                (ink before).length + (ink line).length := by
              rw [cut, rank_append]
              cases lines with
              | nil => simp [rank]
              | cons other others => rw [joinLines_cons_cons, rank_length]
            rw [lineRank]
          · cases lines with
            | nil => simp [cut]
            | cons other others => simp [cut, joinLines_cons_cons]
        rw [marksFrom, inkMarks, opens, closes]
        congr 1
        cases lines with
        | nil => rfl
        | cons other others =>
            have next := ih (before ++ line ++ ['\n']) (by simp [cut, joinLines_cons_cons])
              (by simp)
            simp only [List.length_append, List.length_singleton, ink_append,
              ink_cons_of_blank isInk_lineFeed, ink_nil, List.length_nil, Nat.add_zero] at next
            simpa only [Nat.add_assoc] using next
  simpa using rest (Text.splitChars '\n' text) [] (by simp) (Text.splitChars_ne_nil '\n' text)

/-- The line that begins at this rank, without blanks at its end. -/
def inkLine (own : Nat → Bool) (n : Nat) (line : List Char) : Line :=
  (Line.mk line ⟨own n, own (n + (ink line).length)⟩).withoutTrailing

/-- The marked lines of a text by ranks. -/
def inkLines (own : Nat → Bool) : Nat → List (List Char) → List Line
  | _, [] => []
  | n, line :: lines => inkLine own n line :: inkLines own (n + (ink line).length) lines

theorem markedLines_inkMarks (own : Nat → Bool) (text : List Char) :
    markedLines text (inkMarks own 0 (Text.splitChars '\n' text)) =
      inkLines own 0 (Text.splitChars '\n' text) := by
  have pair : ∀ (lines : List (List Char)) (n : Nat),
      markedLines.pair lines (inkMarks own n lines) = inkLines own n lines := by
    intro lines
    induction lines with
    | nil => exact fun _ => rfl
    | cons line lines ih =>
        intro n
        rw [inkMarks, markedLines.pair, inkLines, ih, inkLine]
  exact pair ..

/-- Lines without marks are those of a text in which nothing is owned. -/
theorem markedLines_nil (text : List Char) :
    markedLines text [] = inkLines (fun _ => false) 0 (Text.splitChars '\n' text) := by
  have pair : ∀ (lines : List (List Char)) (n : Nat),
      markedLines.pair lines [] = inkLines (fun _ => false) n lines := by
    intro lines
    induction lines with
    | nil => exact fun _ => rfl
    | cons line lines ih =>
        intro n
        rw [markedLines.pair, inkLines, ih]
        rfl
  exact pair ..

/-- The line as `indentLines` writes it. -/
def Line.padded (pad : List Char) (line : Line) : List Char :=
  if line.mark.opensInside || line.chars.isEmpty then line.chars else pad ++ line.chars

/-- The line as `continueLines` writes it, the first one apart. -/
def Line.continued (pad : List Char) (line : Line) : List Char :=
  if line.mark.opensInside then line.chars
  else if line.chars.all Text.isBlank then [] else pad ++ line.chars

/-- What is cut off at the end of a line is blank, and nothing is where a literal owns the
line feed. -/
theorem Line.exists_withoutTrailing (line : Line) :
    ∃ trail, line.chars = line.withoutTrailing.chars ++ trail ∧
      (∀ c ∈ trail, Text.isBlank c = true) ∧ (line.mark.closesInside = true → trail = []) := by
  unfold Line.withoutTrailing
  split
  · exact ⟨[], by simp⟩
  · rename_i unclosed
    obtain ⟨trail, cut, blank⟩ := Text.exists_eq_dropEndWhile_append Text.isBlank line.chars
    exact ⟨trail, cut, blank, fun closes => absurd closes unclosed⟩

@[simp] theorem Line.mark_withoutTrailing (line : Line) : line.withoutTrailing.mark = line.mark := by
  unfold Line.withoutTrailing
  split <;> rfl

@[simp] theorem Line.ink_withoutTrailing (line : Line) :
    ink line.withoutTrailing.chars = ink line.chars := by
  obtain ⟨trail, cut, blank, -⟩ := line.exists_withoutTrailing
  rw [cut, ink_append, ink_eq_nil_iff.2 blank, List.append_nil]

@[simp] theorem mark_inkLine (own : Nat → Bool) (n : Nat) (line : List Char) :
    (inkLine own n line).mark = ⟨own n, own (n + (ink line).length)⟩ :=
  Line.mark_withoutTrailing _

@[simp] theorem ink_inkLine (own : Nat → Bool) (n : Nat) (line : List Char) :
    ink (inkLine own n line).chars = ink line :=
  Line.ink_withoutTrailing _

/-! ## Moving literals -/

end Layout

/-- Where the literal of a text stands in another text with the same ink: from where its first
character went to where its last one went. -/
def Span.relocate (offset : Nat) (text : List Char) (offset' : Nat) (text' : List Char)
    (span : Span) : Span :=
  ⟨offset' + Layout.inkPlace text' (Layout.rank text (span.start - offset)),
    offset' + Layout.inkPlace text' (Layout.rank text (span.stop - 1 - offset)) + 1⟩

namespace Layout

variable {offset offset' : Nat} {text text' : List Char} {spans : List Span}

section

variable (same : ink text' = ink text)

include same

theorem isLiteral_relocate {span : Span} (literal : IsLiteral offset text span) :
    IsLiteral offset' text' (span.relocate offset text offset' text') := by
  have first := rank_lt_length_ink literal.first
  have last := rank_lt_length_ink literal.last
  have start := literal.start_le
  have stop := literal.start_lt
  have order : rank text (span.start - offset) ≤ rank text (span.stop - 1 - offset) :=
    rank_mono text (by omega)
  rw [← same] at first last
  obtain ⟨-, firstInk, -⟩ := inkPlace_spec first
  obtain ⟨bound, lastInk, -⟩ := inkPlace_spec last
  have places : inkPlace text' (rank text (span.start - offset)) ≤
      inkPlace text' (rank text (span.stop - 1 - offset)) := by
    rcases Nat.lt_or_eq_of_le order with lt | eq
    · exact Nat.le_of_lt (inkPlace_lt lt last)
    · exact Nat.le_of_eq (congrArg _ eq)
  constructor <;> simp only [Span.relocate]
  · omega
  · omega
  · omega
  · simpa [Nat.add_sub_cancel_left] using firstInk
  · simpa [Nat.add_sub_cancel_left] using lastInk

/-- The two ends of a literal keep their ranks. -/
theorem rank_relocate (offset' : Nat) {span : Span} (literal : IsLiteral offset text span) :
    rank text' ((span.relocate offset text offset' text').start - offset') =
        rank text (span.start - offset) ∧
      rank text' ((span.relocate offset text offset' text').stop - 1 - offset') =
        rank text (span.stop - 1 - offset) := by
  have first := rank_lt_length_ink literal.first
  have last := rank_lt_length_ink literal.last
  rw [← same] at first last
  simp [Span.relocate, (inkPlace_spec first).2.2, (inkPlace_spec last).2.2]

theorem owned_relocate (literals : ∀ span ∈ spans, IsLiteral offset text span) :
    owned offset' text' (spans.map (Span.relocate offset text offset' text')) =
      owned offset text spans := by
  funext n
  rw [owned, owned, List.any_map, Bool.eq_iff_iff, List.any_eq_true, List.any_eq_true]
  refine exists_congr fun span => and_congr_right fun listed => ?_
  obtain ⟨first, last⟩ := rank_relocate same offset' (literals span listed)
  rw [Function.comp_apply, first, last]

/-- The lines of the other text are marked by the same ranks. -/
theorem marksFrom_relocate (literals : ∀ span ∈ spans, IsLiteral offset text span) :
    marksFrom (spans.map (Span.relocate offset text offset' text')) offset'
        (Text.splitChars '\n' text') =
      inkMarks (owned offset text spans) 0 (Text.splitChars '\n' text') := by
  have moved : ∀ span ∈ spans.map (Span.relocate offset text offset' text'),
      IsLiteral offset' text' span := by
    intro span listed
    obtain ⟨before, there, rfl⟩ := List.mem_map.1 listed
    exact isLiteral_relocate same (literals before there)
  rw [marksFrom_eq_inkMarks moved, owned_relocate same literals]

end

end Layout

end Emend

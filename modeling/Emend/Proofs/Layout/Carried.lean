import Emend.Proofs.Layout.Laid
import Emend.Proofs.Layout.Literals

/-!
# Texts that carry literals along

A text `Carries` literals when the characters of each stand somewhere in it, in the order of the
literals. What a move makes of a text does (`Moves.carries`), and so does all that contains it
(`Carries.of_isInfix`), one such text behind another (`Carries.both`), and what is left when
something else is cut off at the end (`Carries.dropEndWhile`).

The literals of a file are known for the whole file. In a part of it those matter that lie within
this part, provided that all others lie apart from it (`Apart`): they decide alone how its lines
are marked (`marksFrom_within`).
-/

set_option autoImplicit false

namespace Emend

namespace Layout

/-! ## Carrying literals -/

/-- The characters of the spans stand in `out`, each at its place, in the order of the spans. -/
def Carries (chars : Span → List Char) (spans : List Span) (out : List Char) : Prop :=
  ∃ place : Span → Nat,
    (∀ span ∈ spans, ∃ before after,
      out = before ++ chars span ++ after ∧ before.length = place span) ∧
    ∀ a ∈ spans, ∀ b ∈ spans, a.stop ≤ b.start → place a + (chars a).length ≤ place b

variable {chars chars' : Span → List Char} {spans others : List Span} {out out' : List Char}

namespace Carries

theorem congr (same : ∀ span ∈ spans, chars' span = chars span) (carries : Carries chars spans out) :
    Carries chars' spans out := by
  obtain ⟨place, stands, order⟩ := carries
  refine ⟨place, fun span listed => ?_, fun a first b second apart => ?_⟩
  · rw [same span listed]
    exact stands span listed
  · rw [same a first]
    exact order a first b second apart

theorem of_isInfix (carries : Carries chars spans out) (inside : out <:+: out') :
    Carries chars spans out' := by
  obtain ⟨place, stands, order⟩ := carries
  obtain ⟨lead, trail, rfl⟩ := inside
  refine ⟨fun span => lead.length + place span, fun span listed => ?_,
    fun a first b second apart => ?_⟩
  · obtain ⟨before, after, rfl, length⟩ := stands span listed
    refine ⟨lead ++ before, after ++ trail, by simp, ?_⟩
    rw [List.length_append, length]
  · show lead.length + place a + (chars a).length ≤ lead.length + place b
    have := order a first b second apart
    omega

/-- One text behind another carries the literals of both. -/
theorem both (first : Carries chars spans out) (second : Carries chars others out')
    (before : ∀ a ∈ spans, ∀ b ∈ others, a.start < a.stop ∧ a.stop ≤ b.start ∧ b.start < b.stop) :
    Carries chars (spans ++ others) (out ++ out') := by
  classical
  obtain ⟨place, stands, order⟩ := first
  obtain ⟨place', stands', order'⟩ := second
  have fresh : ∀ b ∈ others, b ∉ spans := by
    intro b there here
    have := before b here b there
    omega
  -- The places in the second text are counted from the start of the first one.
  refine ⟨fun span => if span ∈ spans then place span else out.length + place' span,
    fun span listed => ?_, fun a first b second apart => ?_⟩
  · by_cases here : span ∈ spans
    · obtain ⟨lead, trail, cut, length⟩ := stands span here
      refine ⟨lead, trail ++ out', ?_, ?_⟩
      · simp [cut]
      · exact length.trans (if_pos here).symm
    · obtain ⟨lead, trail, cut, length⟩ :=
        stands' span ((List.mem_append.1 listed).resolve_left here)
      refine ⟨out ++ lead, trail, ?_, ?_⟩
      · simp [cut]
      · rw [List.length_append, length]
        exact (if_neg here).symm
  · show (if a ∈ spans then place a else _) + _ ≤ if b ∈ spans then place b else _
    rcases List.mem_append.1 first with here | there <;>
      rcases List.mem_append.1 second with here' | there'
    · rw [if_pos here, if_pos here']
      exact order a here b here' apart
    · obtain ⟨lead, trail, cut, length⟩ := stands a here
      have whole := congrArg List.length cut
      rw [List.length_append, List.length_append] at whole
      rw [if_pos here, if_neg (fresh b there')]
      omega
    · have := before b here' a there
      omega
    · have := order' a there b there' apart
      rw [if_neg (fresh a there), if_neg (fresh b there')]
      omega

/-- What is cut off at the end is no part of a literal that ends with something else. -/
theorem dropEndWhile {p : Char → Bool} (carries : Carries chars spans out)
    (ends : ∀ span ∈ spans, ∃ init last, chars span = init ++ [last] ∧ p last = false) :
    Carries chars spans (Text.dropEndWhile p out) := by
  obtain ⟨place, stands, order⟩ := carries
  refine ⟨place, fun span listed => ?_, order⟩
  obtain ⟨before, after, rfl, length⟩ := stands span listed
  obtain ⟨init, last, split, stays⟩ := ends span listed
  refine ⟨before, Text.dropEndWhile p after, ?_, length⟩
  have cut := Text.dropEndWhile_append_cons stays (before ++ init) after
  simpa [split] using cut

end Carries

section

variable {offset : Nat} {text : List Char}

theorem Moves.carries (literals : ∀ span ∈ spans, IsLiteral offset text span)
    (moves : Moves (owned offset text spans) 0 text out) :
    Carries (charsAt offset text) spans out := by
  refine ⟨fun span => (span.relocate offset text 0 out).start, fun span listed => ?_,
    fun a first b second apart => ?_⟩
  · obtain ⟨before, after, cut, there⟩ := moves.exists_literal literals listed
    exact ⟨before, after, cut, congrArg Span.start there.symm⟩
  · have order := (moves.keepsLiterals literals).order a first b second apart
    obtain ⟨before, after, cut, there⟩ := moves.exists_literal literals first
    show (a.relocate offset text 0 out).start + _ ≤ _
    rw [there] at order ⊢
    exact order

/-- The characters of a literal are the same in a part of the text. -/
theorem charsAt_append {lead trail : List Char} {span : Span}
    (literal : IsLiteral (offset + lead.length) text span) :
    charsAt offset (lead ++ text ++ trail) span = charsAt (offset + lead.length) text span := by
  have start := literal.start_le
  have stop := literal.stop_le
  have order := literal.start_lt
  have place : span.start - offset = lead.length + (span.start - (offset + lead.length)) := by omega
  rw [charsAt, charsAt, place, List.append_assoc, List.drop_append, List.drop_of_length_le (by omega),
    List.nil_append, Nat.add_sub_cancel_left, List.drop_append_of_le_length (by omega),
    List.take_append_of_le_length]
  rw [List.length_drop]
  omega

/-- The last character of a literal. -/
theorem IsLiteral.exists_last {span : Span} (literal : IsLiteral offset text span) :
    ∃ init last, charsAt offset text span = init ++ [last] ∧ isInk last = true := by
  obtain ⟨before, after, cut, first, length⟩ := literal.exists_cut
  have start := literal.start_le
  have order := literal.start_lt
  have last := literal.last
  generalize charsAt offset text span = chars at cut length
  rcases List.eq_nil_or_concat chars with rfl | ⟨init, c, rfl⟩
  · simp only [List.length_nil] at length
    omega
  · rw [List.concat_eq_append] at cut length ⊢
    have place : span.stop - 1 - offset = (before ++ init).length := by
      simp only [List.length_append, List.length_singleton] at length ⊢
      omega
    rw [cut, place, ← List.append_assoc, List.append_assoc, List.singleton_append] at last
    exact ⟨init, c, rfl, by simpa using last⟩

/-! ## The literals within a part of a file -/

/-- The spans that are literals of the text at `offset`. -/
def within (offset : Nat) (text : List Char) (spans : List Span) : List Span :=
  spans.filter fun span => IsLiteral offset text span

/-- Every span is a literal of the text at `offset`, or ends before it or begins behind it. -/
def Apart (offset : Nat) (text : List Char) (spans : List Span) : Prop :=
  ∀ span ∈ spans,
    IsLiteral offset text span ∨ span.stop ≤ offset ∨ offset + text.length < span.start

instance (offset : Nat) (text : List Char) (spans : List Span) :
    Decidable (Apart offset text spans) :=
  inferInstanceAs (Decidable (∀ span ∈ spans, _))

theorem isLiteral_of_mem_within {span : Span} (listed : span ∈ within offset text spans) :
    IsLiteral offset text span := by
  simpa using (List.mem_filter.1 listed).2

/-- What lies apart from a text is not met in it. -/
theorem any_within (apart : Apart offset text spans) {holds : Span → Bool} {place : Nat}
    (bound : place ≤ text.length)
    (meets : ∀ span, holds span = true → span.start ≤ offset + place ∧ offset + place < span.stop) :
    (within offset text spans).any holds = spans.any holds := by
  rw [within, List.any_filter, Bool.eq_iff_iff, List.any_eq_true, List.any_eq_true]
  refine exists_congr fun span => and_congr_right fun listed => ?_
  rw [Bool.and_eq_true, decide_eq_true_eq]
  refine and_iff_right_of_imp fun met => ?_
  obtain ⟨begun, unended⟩ := meets span met
  rcases apart span listed with literal | before | after
  · exact literal
  · omega
  · omega

theorem inAnySpan_within (apart : Apart offset text spans) {place : Nat}
    (bound : place ≤ text.length) :
    inAnySpan (within offset text spans) (offset + place) = inAnySpan spans (offset + place) := by
  refine any_within apart bound fun span met => ?_
  simpa [Span.contains] using met

/-- The lines of a part of the text are marked by the literals within the text. -/
theorem marksFrom_within (apart : Apart offset text spans) {lead part trail : List Char}
    (parts : text = lead ++ part ++ trail) :
    marksFrom (within offset text spans) (offset + lead.length) (Text.splitChars '\n' part) =
      marksFrom spans (offset + lead.length) (Text.splitChars '\n' part) := by
  -- The lines that are left, after the part `before` of the text.
  have rest : ∀ (lines : List (List Char)) (before : List Char),
      text = before ++ joinLines lines ++ trail → lines ≠ [] →
        marksFrom (within offset text spans) (offset + before.length) lines =
          marksFrom spans (offset + before.length) lines := by
    intro lines
    induction lines with
    | nil => exact fun _ _ empty => absurd rfl empty
    | cons line lines ih =>
        intro before cut _
        have bound : before.length + line.length ≤ text.length := by
          cases lines with
          | nil => simp [cut]
          | cons other others => simp [cut, joinLines_cons_cons]
        have opens : ((within offset text spans).any
            (·.containsAfterStart (offset + before.length))) =
              spans.any (·.containsAfterStart (offset + before.length)) := by
          have early : before.length ≤ text.length := by omega
          refine any_within apart early fun span met => ?_
          simp only [Span.containsAfterStart, Bool.and_eq_true, decide_eq_true_eq] at met
          exact ⟨Nat.le_of_lt met.1, met.2⟩
        have closes := inAnySpan_within apart bound
        rw [← Nat.add_assoc] at closes
        rw [marksFrom, marksFrom, opens, closes]
        congr 1
        cases lines with
        | nil => rfl
        | cons other others =>
            have next := ih (before ++ line ++ ['\n']) (by simp [cut, joinLines_cons_cons])
              (by simp)
            simpa [Nat.add_assoc] using next
  exact rest (Text.splitChars '\n' part) lead (by simpa using parts)
    (Text.splitChars_ne_nil '\n' part)

end

end Layout

end Emend

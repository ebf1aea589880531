import Emend.Proofs.Grammar.Recognition
import Emend.Proofs.Sort
import Emend.Proofs.Source.Lexeme
import Mathlib.Data.List.TakeWhile

/-!
# Where tokens stand

The tokens of a text that is read stand in it one after the other (`Scan.Laid`): each of them is
spelled by the characters where it stands, and nothing but gaps stands before a token without
trivia, opening tags of heredocs apart. Together with the soundness of the recognizer this says
what a syntax tree is: the items of a derivation of tokens that are laid in the text
(`SyntaxTree.read_derives`).
-/

set_option autoImplicit false

namespace Emend

namespace Scan

/-! ## Spelling -/

/-- The characters from one place to another. -/
def between (text : List Char) (start stop : Nat) : List Char :=
  (text.drop start).take (stop - start)

/-- The terminal is spelled by the first characters of the text, as far as names and symbols go. A
word does not end before another character of a name. -/
def Spelled (cs : List Char) (size : Nat) : Terminal → Prop
  | .word text => 0 < size ∧ size = Lexeme.nameSize cs ∧ Text.lower (.ofList (cs.take size)) = text
  | .spelled text => 0 < size ∧ size = Lexeme.nameSize cs ∧ .ofList (cs.take size) = text
  | .name => 0 < size ∧ size = Lexeme.nameSize cs
  | .symbol text | .tight text => text.toList <+: cs ∧ size = text.toList.length
  | .impliedSemicolon => size = 0
  | _ => True

theorem Spelled.le {cs : List Char} {size : Nat} {t : Terminal} (spelled : Spelled cs size t)
    (coded : t matches .word _ | .spelled _ | .name | .symbol _ | .tight _ | .impliedSemicolon) :
    size ≤ cs.length := by
  cases t with
  | word _ | spelled _ =>
      rw [spelled.2.1]
      exact Lexeme.local_nameSize.le cs
  | name =>
      rw [spelled.2]
      exact Lexeme.local_nameSize.le cs
  | symbol _ | tight _ =>
      rw [spelled.2]
      exact spelled.1.length_le
  | impliedSemicolon =>
      rw [show size = 0 from spelled]
      exact Nat.zero_le _
  | _ => cases coded

theorem Spelled.min {cs : List Char} {size : Nat} {t : Terminal} (spelled : Spelled cs size t) :
    Spelled cs (min size cs.length) t := by
  by_cases coded : t matches .word _ | .spelled _ | .name | .symbol _ | .tight _ | .impliedSemicolon
  · rwa [Nat.min_eq_left (spelled.le coded)]
  · cases t <;> first | exact trivial | exact absurd rfl coded

/-- The lexemes at a place are spelled there. -/
theorem spelled_of_mem_candidates {tight : Bool} {cs : List Char} {t : Terminal} {size : Nat}
    (listed : (t, size) ∈ candidates tight cs) : Spelled cs size t := by
  have sized {t u : Terminal} {m n : Nat}
      (found : (t, m) ∈ if n == 0 then [] else [(u, n)]) : t = u ∧ m = n ∧ 0 < n := by
    split at found
    · cases found
    · rename_i positive
      cases List.mem_singleton.1 found
      exact ⟨rfl, rfl, Nat.pos_of_ne_zero (by simpa using positive)⟩
  have close {t u : Terminal} {m n : Nat}
      (found : (t, m) ∈ if tight then (if n == 0 then [] else [(u, n)]) else []) :
      t = u ∧ m = n ∧ 0 < n := by
    split at found
    · exact sized found
    · cases found
  rw [candidates, mem_sortBy] at listed
  simp only [List.mem_append, List.mem_flatMap] at listed
  rcases listed with (((((((⟨s, symbol, here⟩ | here) | here) | here) | here) | here) | here) |
    here) | here
  · have prefix' : s.toList <+: cs := by
      simpa [Lexeme.symbolsAt] using (List.mem_filter.1 symbol).2
    rcases here with here | here
    · obtain ⟨rfl, rfl, -⟩ := close here
      exact ⟨prefix', String.length_toList.symm⟩
    · obtain ⟨rfl, rfl, -⟩ := sized here
      exact ⟨prefix', String.length_toList.symm⟩
  · obtain ⟨rfl, -, -⟩ := sized here
    exact trivial
  · obtain ⟨rfl, -, -⟩ := close here
    exact trivial
  · obtain ⟨rfl, -, -⟩ := sized here
    exact trivial
  · obtain ⟨rfl, -, -⟩ := sized here
    exact trivial
  · obtain ⟨rfl, -, -⟩ := close here
    exact trivial
  · obtain ⟨rfl, rfl, positive⟩ := sized here
    exact ⟨positive, rfl, rfl⟩
  · obtain ⟨rfl, rfl, positive⟩ := sized here
    exact ⟨positive, rfl, rfl⟩
  · obtain ⟨rfl, rfl, positive⟩ := sized here
    exact ⟨positive, rfl⟩

/-! ## Steps -/

/-- A token at a place is spelled behind the gaps before it; comments before the tag of a heredoc
count as gaps. -/
def Step.Fits (cs : List Char) : Step → Prop
  | .token t gap size =>
    (t ≠ .openingTag → ∀ c ∈ cs.take gap, Lexeme.isGap c = true) ∧ Spelled (cs.drop gap) size t
  | .trivia _ _ _ => True

theorem isGap_of_isAsciiBlank {c : Char} (blank : Lexeme.isAsciiBlank c = true) :
    Lexeme.isGap c = true := by
  simp [Lexeme.isGap, blank]

section

variable {recognizer : Recognizer} {tag cs gaps : List Char} {step : Step}
  (blank : ∀ c ∈ gaps, Lexeme.isGap c = true)

include blank

theorem fits_of_spelled {t : Terminal} {size : Nat} (spelled : Spelled cs size t) :
    Step.Fits (gaps ++ cs) (.token t gaps.length size) := by
  refine ⟨fun _ => ?_, ?_⟩
  · rwa [List.take_left]
  · rwa [List.drop_left]

theorem stepAt_fits (listed : step ∈ stepAt recognizer gaps.length cs) :
    step.Fits (gaps ++ cs) := by
  unfold stepAt at listed
  simp only at listed
  split at listed
  · obtain rfl := List.mem_singleton.1 listed
    exact trivial
  · split at listed
    · obtain rfl := List.mem_singleton.1 listed
      exact trivial
    · split at listed
      · rename_i found
        obtain rfl := List.mem_singleton.1 listed
        exact fits_of_spelled blank (spelled_of_mem_candidates (List.mem_of_find?_eq_some found))
      · cases listed

theorem lineSteps_fits (listed : step ∈ lineSteps recognizer tag gaps.length cs) :
    step.Fits (gaps ++ cs) := by
  unfold lineSteps at listed
  extract_lets size last at listed
  rcases List.mem_append.1 listed with last | inner
  · split at last
    · obtain rfl := List.mem_singleton.1 last
      exact fits_of_spelled blank trivial
    · cases last
  · split at inner
    · obtain rfl := List.mem_singleton.1 inner
      exact fits_of_spelled blank trivial
    · cases inner

theorem codeSteps_fits (listed : step ∈ codeSteps recognizer tag gaps.length cs) :
    step.Fits (gaps ++ cs) := by
  induction cs generalizing gaps with
  | nil =>
      rw [codeSteps] at listed
      split at listed
      · obtain rfl := List.mem_singleton.1 listed
        exact fits_of_spelled blank trivial
      · cases listed
  | cons c cs ih =>
      rw [codeSteps] at listed
      split at listed
      · exact lineSteps_fits blank listed
      · split at listed
        · rename_i gap
          have more : ∀ d ∈ gaps ++ [c], Lexeme.isGap d = true := by
            intro d inside
            rcases List.mem_append.1 inside with before | last
            · exact blank d before
            · rw [List.mem_singleton.1 last, gap]
          have longer : (gaps ++ [c]).length = gaps.length + 1 := List.length_append
          rw [List.append_cons]
          exact ih more (longer ▸ listed)
        · exact stepAt_fits blank listed

end

/-- **What comes next** in a text fits it. -/
theorem steps_fits {recognizer : Recognizer} {tag cs : List Char} {step : Step}
    (listed : step ∈ steps recognizer tag cs) : step.Fits cs := by
  have noGap : ∀ c ∈ ([] : List Char), Lexeme.isGap c = true :=
    fun _ inside => absurd inside List.not_mem_nil
  have code (listed : step ∈ codeSteps recognizer tag 0 cs) : step.Fits cs :=
    codeSteps_fits noGap listed
  have sized {t : Terminal} {size : Nat} (listed : step ∈ [Step.token t 0 size])
      (free : Spelled cs size t) : step.Fits cs := by
    obtain rfl := List.mem_singleton.1 listed
    exact ⟨fun _ _ inside => absurd inside List.not_mem_nil, free⟩
  unfold steps at listed
  simp only at listed
  split at listed
  · split at listed
    · exact sized listed trivial
    · exact code listed
  · split at listed
    · split at listed
      · exact sized listed trivial
      · exact code listed
    · split at listed
      · split at listed
        · rename_i gap size found
          obtain rfl := List.mem_singleton.1 listed
          refine ⟨fun _ c inside => ?_, trivial⟩
          rw [Quote.closingTag?] at found
          split at found
          · cases found
            rw [← List.prefix_iff_eq_take.1 (List.takeWhile_prefix _)] at inside
            exact isGap_of_isAsciiBlank (List.mem_takeWhile_imp inside)
          · cases found
        · exact code listed
      · split at listed
        · split at listed
          · split at listed
            · exact code listed
            · split at listed
              · obtain rfl := List.mem_singleton.1 listed
                exact ⟨fun other => absurd rfl other, trivial⟩
              · cases listed
          · exact code listed
        · split at listed
          · obtain rfl := List.mem_singleton.1 listed
            exact ⟨fun _ _ inside => absurd inside List.not_mem_nil, rfl⟩
          · exact code listed

/-! ## Places -/

/-- The cursor stands in the text. -/
structure Cursor.In (text : List Char) (cursor : Cursor) : Prop where
  rest : cursor.rest = text.drop cursor.offset
  bound : cursor.offset ≤ text.length

theorem Cursor.In.advance {text : List Char} {cursor : Cursor} (inside : cursor.In text) (n : Nat) :
    (cursor.advance n).In text ∧ (cursor.advance n).rest = cursor.rest.drop n ∧
      (cursor.advance n).offset = cursor.offset + min n cursor.rest.length := by
  induction n generalizing cursor with
  | zero => exact ⟨inside, rfl, by simp [Cursor.advance]⟩
  | succ n ih =>
      cases rest : cursor.rest with
      | nil => exact ⟨by rwa [Cursor.advance, rest], by simp [Cursor.advance, rest]⟩
      | cons c cs =>
          have whole := inside.rest.symm.trans rest
          have bound : cursor.offset < text.length := by
            have length := congrArg List.length whole
            rw [List.length_drop, List.length_cons] at length
            omega
          have next : Cursor.In text ⟨cs, cursor.offset + 1, cursor.position.after c⟩ := by
            refine ⟨?_, bound⟩
            rw [← List.drop_drop, whole]
            rfl
          obtain ⟨there, left, offset⟩ := ih next
          rw [Cursor.advance, rest]
          refine ⟨there, left, offset.trans ?_⟩
          simp only [List.length_cons]
          omega

/-! ## Tokens in a text -/

/-- The tokens stand in the text one after the other behind a place, and only gaps stand before
those without trivia. -/
def Laid (text : List Char) : Nat → List Token → Prop
  | _, [] => True
  | place, token :: tokens =>
    place ≤ token.extent.span.start ∧ token.extent.span.start ≤ token.extent.span.stop ∧
      token.extent.span.stop ≤ text.length ∧
      (token.trivia = [] → token.terminal ≠ .openingTag →
        ∀ c ∈ between text place token.extent.span.start, Lexeme.isGap c = true) ∧
      Spelled (text.drop token.extent.span.start)
        (token.extent.span.stop - token.extent.span.start) token.terminal ∧
      Laid text token.extent.span.stop tokens

theorem laid_append {text : List Char} {place : Nat} {tokens others : List Token} :
    Laid text place (tokens ++ others) ↔
      Laid text place tokens ∧ Laid text (stopAfter place tokens) others := by
  induction tokens generalizing place with
  | nil => simp [Laid]
  | cons token tokens ih => simp only [List.cons_append, Laid, stopAfter_cons, ih, and_assoc]

/-- Without the trivia before its first token, a list of tokens begins where this token does. -/
theorem Laid.bare {text : List Char} {place : Nat} {token : Token} {tokens : List Token}
    (laid : Laid text place (token :: tokens)) :
    Laid text token.extent.span.start (token.bare :: tokens) := by
  obtain ⟨-, order, bound, -, spelled, rest⟩ := laid
  refine ⟨Nat.le_refl _, order, bound, fun _ _ c inside => ?_, spelled, rest⟩
  simp [between] at inside

/-! ## Reading -/

/-- What has been read is right, and the trivia behind the last token go up to the cursor. -/
structure Progress.Right (root : Rule) (text : List Char) (place : Nat) (progress : Progress)
    (tokens : List Token) : Prop where
  sound : ∃ stop, progress.recognizer.Sound root tokens stop
  laid : Laid text place tokens
  inside : progress.cursor.In text
  order : stopAfter place tokens ≤ progress.cursor.offset
  fresh : progress.trivia = [] → progress.cursor.offset = stopAfter place tokens

/-- **One step** of reading. -/
theorem Progress.Right.take {root : Rule} {text : List Char} {place : Nat} {progress : Progress}
    {tokens : List Token} (right : progress.Right root text place tokens) {step : Step}
    (fits : step.Fits progress.cursor.rest) :
    ∃ more, (progress.take step).Right root text place (tokens ++ more) := by
  obtain ⟨recognizer, tag, cursor, trivia⟩ := progress
  obtain ⟨⟨stop, sound⟩, laid, inside, order, fresh⟩ := right
  simp only at sound inside order fresh fits
  cases step with
  | trivia kind gap size =>
      obtain ⟨start, -, begins⟩ := inside.advance gap
      obtain ⟨last, -, ends⟩ := start.advance size
      refine ⟨[], ?_⟩
      rw [List.append_nil]
      refine ⟨⟨stop, sound⟩, laid, last, ?_, fun untouched => nomatch untouched⟩
      show _ ≤ ((cursor.advance gap).advance size).offset
      omega
  | token t gap size =>
      obtain ⟨start, behind, begins⟩ := inside.advance gap
      obtain ⟨last, -, ends⟩ := start.advance size
      let token : Token := ⟨t, ⟨⟨(cursor.advance gap).offset,
        ((cursor.advance gap).advance size).offset⟩, (cursor.advance gap).position.line⟩, trivia⟩
      have laid' : Laid text (stopAfter place tokens) [token] := by
        refine ⟨?_, ?_, last.bound, fun untouched other c here => ?_, ?_, trivial⟩
        · show _ ≤ (cursor.advance gap).offset
          omega
        · show (cursor.advance gap).offset ≤ ((cursor.advance gap).advance size).offset
          omega
        · have gaps : between text (stopAfter place tokens) (cursor.advance gap).offset =
              cursor.rest.take gap := by
            rw [between, ← fresh untouched, ← inside.rest, begins, Nat.add_sub_cancel_left,
              ← List.take_eq_take_min]
          rw [gaps] at here
          exact fits.1 other c here
        · have spelled := fits.2.min
          rw [← behind] at spelled
          have size' : ((cursor.advance gap).advance size).offset - (cursor.advance gap).offset =
              min size (cursor.advance gap).rest.length := by omega
          show Spelled (text.drop (cursor.advance gap).offset)
            (((cursor.advance gap).advance size).offset - (cursor.advance gap).offset) t
          rwa [← start.rest, size']
      refine ⟨[token], ⟨_, sound.read token⟩, laid_append.2 ⟨laid, laid'⟩, last, ?_, fun _ => ?_⟩
      · rw [stopAfter_append]
        exact Nat.le_refl _
      · rw [stopAfter_append]
        rfl

/-- A fold that keeps the first result ends with its start or with one of the others. -/
theorem foldl_ok {ε α β : Type} {choose : Except ε α → β → Except ε α} {f : β → Except ε α}
    {value : α} (chooses : ∀ first other, choose first other = .ok value →
      first = .ok value ∨ f other = .ok value)
    {others : List β} {start : Except ε α} (done : others.foldl choose start = .ok value) :
    start = .ok value ∨ ∃ other ∈ others, f other = .ok value := by
  induction others generalizing start with
  | nil => exact .inl done
  | cons other others ih =>
      rcases ih done with first | ⟨later, listed, found⟩
      · rcases chooses start other first with before | here
        · exact .inl before
        · exact .inr ⟨other, List.mem_cons_self, here⟩
      · exact .inr ⟨later, List.mem_cons_of_mem _ listed, found⟩

/-- **All steps** of reading. -/
theorem Progress.Right.readOn {root : Rule} {text : List Char} {place fuel : Nat}
    {progress : Progress} {tokens : List Token} (right : progress.Right root text place tokens)
    {events : List Event} (done : readOn progress fuel = .ok events) :
    ∃ all, Laid text place all ∧ root.Derives all (itemsOf events) := by
  induction fuel generalizing progress tokens with
  | zero => cases done
  | succ fuel ih =>
      have next {step : Step} (listed : step ∈ steps progress.recognizer progress.tag progress.cursor.rest)
          (read : Scan.readOn (progress.take step) fuel = .ok events) :
          ∃ all, Laid text place all ∧ root.Derives all (itemsOf events) := by
        obtain ⟨more, right'⟩ := right.take (steps_fits listed)
        exact ih right' read
      rw [Scan.readOn] at done
      split at done
      · rename_i complete
        cases done
        obtain ⟨stop, sound⟩ := right.sound
        exact ⟨tokens, right.laid, sound.derives complete⟩
      · split at done
        · cases done
        · rename_i step listed
          exact next (listed ▸ List.mem_cons_self) done
        · rename_i step others _ listed
          have chosen := foldl_ok (f := fun other => Scan.readOn (progress.take other) fuel)
            (fun first other chosen => by
              cases first with
              | ok _ => exact .inl chosen
              | error _ => exact .inr chosen) done
          rcases chosen with first | ⟨other, there, read⟩
          · exact next (listed ▸ List.mem_cons_self) first
          · exact next (listed ▸ List.mem_cons_of_mem _ there) read

theorem readFrom_derives {root : Rule} {text : List Char} {cursor : Cursor}
    (inside : cursor.In text) {events : List Event} (done : readFrom root cursor = .ok events) :
    ∃ tokens, Laid text cursor.offset tokens ∧ root.Derives tokens (itemsOf events) := by
  have right : (Progress.ofRule root cursor).Right root text cursor.offset [] :=
    ⟨⟨0, Recognizer.sound_ofRule root⟩, trivial, inside, Nat.le_refl _, fun _ => rfl⟩
  exact right.readOn done

end Scan

namespace SyntaxTree

open Scan

theorem preamble_in (text : List Char) : (preamble text).2.In text := by
  have start : Cursor.In text ⟨text, 0, ⟨1, 1⟩⟩ := ⟨rfl, Nat.zero_le _⟩
  have marked : (if text.head? == some '\uFEFF' then Cursor.advance ⟨text, 0, ⟨1, 1⟩⟩ 1
      else ⟨text, 0, ⟨1, 1⟩⟩).In text := by
    split
    · exact (start.advance 1).1
    · exact start
  exact (((marked.advance _).1.advance _).1.advance _).1

/-- **A syntax tree is a derivation.** The items of a text that is read are those of a derivation
of the grammar, the tokens of which stand in the text behind its first tag. -/
theorem read_derives {text : List Char} {tree : SyntaxTree} (done : SyntaxTree.read text = .ok tree) :
    ∃ tokens, Laid text (preamble text).2.offset tokens ∧
      Grammar.file.Derives tokens tree.items := by
  unfold SyntaxTree.read at done
  cases found : readFrom Grammar.file (preamble text).2 with
  | error failure =>
      simp only [found] at done
      cases done
  | ok events =>
      simp only [found] at done
      cases done
      exact readFrom_derives (preamble_in text) found

end SyntaxTree

end Emend

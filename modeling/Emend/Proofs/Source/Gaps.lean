import Emend.Proofs.Source.Token
import Mathlib.Data.List.Chain
import Mathlib.Data.List.DropRight

/-!
# Gaps between tokens

`Glyph.collapse` writes one space for each run of blanks, and none at the beginning, behind an
opening parenthesis and before a closing one. `Glyph.trimmed` drops the commas at the end, and then
the blanks before them.

Collapsing keeps the tokens of a plain text (`Glyph.Lexes.collapse`). No two tokens are joined,
since a gap is left out only beside a parenthesis, which is a token whatever stands next to it; and
a comment stays one, since no blank between a star and a slash is left out. With one comma at its
end, the text that is left has the tokens of the text less this comma
(`Glyph.lexes_trimmed_collapse`), and collapsing and trimming it once more changes nothing
(`Glyph.trimmed_collapse_trimmed_collapse`).
-/

set_option autoImplicit false

namespace Emend

open Lexeme

namespace Glyph

/-! ## Collapsing blanks -/

def isBlank : Glyph → Bool
  | char c => Text.isBlank c
  | literal _ => false

/-- The glyphs with single spaces for their gaps; `fresh` says that nothing or an opening
parenthesis stands before, and `gap` that blanks were passed. -/
def collapse (fresh gap : Bool) : List Glyph → List Glyph
  | [] => []
  | g :: gs =>
    if g.isBlank then collapse fresh true gs
    else if gap && !fresh && g != char ')' then char ' ' :: g :: collapse (g == char '(') false gs
    else g :: collapse (g == char '(') false gs

theorem collapse_blank {g : Glyph} (blank : g.isBlank = true) (fresh gap : Bool) (gs : List Glyph) :
    collapse fresh gap (g :: gs) = collapse fresh true gs := by
  rw [collapse, if_pos blank]

def spaceBefore (fresh gap : Bool) (g : Glyph) : List Glyph :=
  if gap && !fresh && g != char ')' then [char ' '] else []

theorem spaceBefore_cases (fresh gap : Bool) (g : Glyph) :
    spaceBefore fresh gap g = [] ∨ spaceBefore fresh gap g = [char ' '] := by
  rw [spaceBefore]
  split
  · exact .inr rfl
  · exact .inl rfl

/-- A glyph that is no blank stays, perhaps with a space before it. -/
theorem collapse_dark {g : Glyph} (dark : g.isBlank = false) (fresh gap : Bool) (gs : List Glyph) :
    collapse fresh gap (g :: gs) =
      spaceBefore fresh gap g ++ g :: collapse (g == char '(') false gs := by
  rw [collapse, if_neg (by simp [dark]), spaceBefore]
  split <;> rfl

theorem collapse_solid {g : Glyph} (dark : g.isBlank = false) (fresh : Bool) (gs : List Glyph) :
    collapse fresh false (g :: gs) = g :: collapse (g == char '(') false gs :=
  collapse_dark dark fresh false gs

/-- After a gap behind something comes a space or a closing parenthesis. -/
theorem head?_collapse_gap (gs : List Glyph) {c : Char}
    (head : (run (collapse false true gs)).head? = some c) : c = ' ' ∨ c = ')' := by
  induction gs with
  | nil => cases head
  | cons g gs ih =>
      cases blank : g.isBlank with
      | true => exact ih (by rwa [collapse_blank blank] at head)
      | false =>
          rw [collapse_dark blank, spaceBefore] at head
          split at head
          · cases head
            exact .inl rfl
          · rename_i close
            obtain rfl : g = char ')' := by simpa using close
            cases head
            exact .inr rfl

theorem head?_run_collapse {gs : List Glyph}
    (slash : (run (collapse false false gs)).head? = some '/') : (run gs).head? = some '/' := by
  cases gs with
  | nil => exact slash
  | cons g gs =>
      cases blank : g.isBlank with
      | true =>
          rw [collapse_blank blank] at slash
          rcases head?_collapse_gap gs slash with is | is <;> cases is
      | false =>
          rw [collapse_solid blank] at slash
          cases g <;> exact slash

theorem word_run_collapse {gs : List Glyph} (solid : ∀ c ∈ word (run gs), Text.isBlank c = false) :
    word (run (collapse false false gs)) = word (run gs) := by
  induction gs with
  | nil => rfl
  | cons g gs ih =>
      cases g with
      | literal text => rfl
      | char c =>
          cases separates : isBreak c with
          | true =>
              have ended : word (run (char c :: gs)) = [] := by simp [run, word, separates]
              rw [ended]
              cases blank : (char c).isBlank with
              | true =>
                  rw [collapse_blank blank]
                  refine word_eq_nil fun d head => ?_
                  rcases head?_collapse_gap gs head with rfl | rfl <;> decide
              | false =>
                  rw [collapse_solid blank]
                  simp [run, word, separates]
          | false =>
              have whole : word (run (char c :: gs)) = c :: word (run gs) := by
                simp [run, word, separates]
              rw [whole] at solid ⊢
              have other : (char c == char '(') = false := by
                rw [beq_eq_false_iff_ne]
                rintro ⟨⟩
                cases separates
              have dark : (char c).isBlank = false := solid c List.mem_cons_self
              have rest := ih fun d inside => solid d (List.mem_cons_of_mem _ inside)
              rw [collapse_solid dark, other, ← rest]
              simp [run, word, separates]

/-- Collapsing a comment leaves a comment: no blank is taken from between a star and a slash. -/
theorem exists_collapse_closes {body : List Char} (closes : Closes body) (fresh gap : Bool)
    (gs : List Glyph) : ∃ body', Closes body' ∧
      collapse fresh gap (body.map char ++ gs) = body'.map char ++ collapse false false gs := by
  induction closes generalizing fresh gap with
  | done =>
      have whole : collapse fresh gap (['*', '/'].map char ++ gs) =
          spaceBefore fresh gap (char '*') ++ char '*' :: char '/' :: collapse false false gs :=
        collapse_dark rfl fresh gap (char '/' :: gs)
      rcases spaceBefore_cases fresh gap (char '*') with unspaced | space
      · exact ⟨['*', '/'], .done, by rw [whole, unspaced]; rfl⟩
      · exact ⟨[' ', '*', '/'], .more (by simp) .done, by rw [whole, space]; rfl⟩
  | @more c cs other rest ih =>
      cases blank : (char c).isBlank with
      | true =>
          obtain ⟨body', closes, parts⟩ := ih fresh true
          exact ⟨body', closes, by rw [List.map_cons, List.cons_append, collapse_blank blank, parts]⟩
      | false =>
          obtain ⟨body', closes, parts⟩ := ih (char c == char '(') false
          have other' : ¬ (c = '*' ∧ body'.head? = some '/') := by
            rintro ⟨rfl, head⟩
            have slash : (run (collapse false false (cs.map char ++ gs))).head? = some '/' := by
              have parts' : collapse false false (cs.map char ++ gs) = _ := parts
              rw [parts', run_append_chars, List.head?_append, head]
              rfl
            have before := head?_run_collapse slash
            obtain ⟨d, first⟩ := rest.exists_head
            rw [run_append_chars, List.head?_append, first, Option.some_or, ← first] at before
            exact other ⟨rfl, before⟩
          have whole : collapse fresh gap ((c :: cs).map char ++ gs) =
              spaceBefore fresh gap (char c) ++ ((c :: body').map char ++ collapse false false gs) := by
            rw [List.map_cons, List.cons_append, collapse_dark blank, parts, List.map_cons,
              List.cons_append]
          rcases spaceBefore_cases fresh gap (char c) with unspaced | space
          · exact ⟨c :: body', .more other' closes, by rw [whole, unspaced]; rfl⟩
          · exact ⟨' ' :: c :: body', .more (by simp) (.more other' closes), by rw [whole, space]; rfl⟩

theorem Lexes.spaceBefore {gs : List Glyph} {ts : List Piece} (lexes : Lexes gs ts)
    (fresh gap : Bool) (g : Glyph) : Lexes (spaceBefore fresh gap g ++ gs) ts := by
  rcases spaceBefore_cases fresh gap g with unspaced | space
  · rwa [unspaced]
  · rw [space]
    exact .gap (by decide) lexes

/-- A token is written as it is. -/
theorem exists_collapse_token {c : Char} {cs : List Char} (solid : ∀ d ∈ c :: cs, Text.isBlank d = false)
    (plain : ∀ d ∈ cs, isBreak d = false) (fresh gap : Bool) (gs : List Glyph) :
    ∃ fresh', (c ≠ '(' → fresh' = false) ∧ collapse fresh gap ((c :: cs).map char ++ gs) =
      spaceBefore fresh gap (char c) ++ ((c :: cs).map char ++ collapse fresh' false gs) := by
  have dark : (char c).isBlank = false := solid c List.mem_cons_self
  have others : ∀ d ∈ cs, (char d).isBlank = false := fun d inside =>
    solid d (List.mem_cons_of_mem _ inside)
  clear solid
  -- Behind the first character no gap is passed, and no parenthesis comes.
  have rest : ∀ fresh, ∃ fresh', (fresh = false → fresh' = false) ∧
      collapse fresh false (cs.map char ++ gs) = cs.map char ++ collapse fresh' false gs := by
    induction cs with
    | nil => exact fun fresh => ⟨fresh, id, rfl⟩
    | cons d cs ih =>
        intro fresh
        have other : (char d == char '(') = false := by
          rw [beq_eq_false_iff_ne]
          rintro ⟨⟩
          exact absurd (plain '(' List.mem_cons_self) (by decide)
        obtain ⟨fresh', stays, parts⟩ := ih (fun e inside => plain e (List.mem_cons_of_mem _ inside))
          (fun e inside => others e (List.mem_cons_of_mem _ inside)) false
        refine ⟨fresh', fun _ => stays rfl, ?_⟩
        rw [List.map_cons, List.cons_append, collapse_solid (others d List.mem_cons_self), other, parts,
          List.cons_append]
  obtain ⟨fresh', stays, parts⟩ := rest (char c == char '(')
  refine ⟨fresh', fun other => stays (by simpa using other), ?_⟩
  rw [List.map_cons, List.cons_append, collapse_dark dark, parts, List.cons_append]

/-- **Collapsing keeps the tokens.** -/
theorem Lexes.collapse {gs : List Glyph} {ts : List Piece} (lexes : Lexes gs ts)
    (fresh gap : Bool) : Lexes (Glyph.collapse fresh gap gs) ts := by
  induction lexes generalizing fresh gap with
  | nil => exact .nil
  | @gap c gs ts blank rest ih =>
      cases white : (char c).isBlank with
      | true =>
          rw [collapse_blank white]
          exact ih fresh true
      | false =>
          rw [collapse_dark white]
          exact .spaceBefore (.gap blank (ih _ _)) ..
  | literal rest ih =>
      rw [collapse_dark rfl]
      exact .spaceBefore (.literal (ih _ _)) ..
  | @comment body gs ts closes rest ih =>
      obtain ⟨body', closes', inner⟩ := exists_collapse_closes closes false false gs
      have star : Glyph.collapse false false (char '*' :: body.map char ++ gs) =
          ('*' :: body').map char ++ Glyph.collapse false false gs := by
        rw [List.cons_append, collapse_solid rfl, List.map_cons, List.cons_append, ← inner]
        rfl
      have whole : Glyph.collapse fresh gap (('/' :: '*' :: body).map char ++ gs) =
          Glyph.spaceBefore fresh gap (char '/') ++
            (('/' :: '*' :: body').map char ++ Glyph.collapse false false gs) :=
        (collapse_dark rfl fresh gap _).trans (congrArg (_ ++ char '/' :: ·) star)
      rw [whole]
      exact .spaceBefore (.comment closes' (ih _ _)) ..
  | @token c cs gs ts here solid rest ih =>
      obtain ⟨fresh', stays, parts⟩ :=
        exists_collapse_token solid (not_isBreak_of_token here) fresh gap gs
      rw [parts]
      refine .spaceBefore (.token ?_ solid (ih _ _)) ..
      by_cases opening : c = '('
      · subst opening
        rw [pieceAt_mark (by simp)] at here ⊢
        exact here
      · rw [stays opening]
        exact pieceAt_congr (word_run_collapse rest.not_isBlank_of_mem_word).symm
          head?_run_collapse here

/-! ## What collapsing leaves -/

theorem mem_collapse {fresh gap : Bool} {gs : List Glyph} {g : Glyph}
    (inside : g ∈ collapse fresh gap gs) : g = char ' ' ∨ g ∈ gs ∧ g.isBlank = false := by
  induction gs generalizing fresh gap with
  | nil => cases inside
  | cons h gs ih =>
      cases blank : h.isBlank with
      | true =>
          rw [collapse_blank blank] at inside
          exact (ih inside).imp_right (.imp_left (List.mem_cons_of_mem _))
      | false =>
          rw [collapse_dark blank, List.mem_append, List.mem_cons] at inside
          rcases inside with space | rfl | later
          · rcases spaceBefore_cases fresh gap h with unspaced | one
            · rw [unspaced] at space
              cases space
            · rw [one] at space
              exact .inl (List.mem_singleton.1 space)
          · exact .inr ⟨List.mem_cons_self, blank⟩
          · exact (ih later).imp_right (.imp_left (List.mem_cons_of_mem _))

/-- The last glyph is the last one that is no blank. -/
theorem getLast?_collapse (fresh gap : Bool) (gs : List Glyph) :
    (collapse fresh gap gs).getLast? = (gs.filter (!·.isBlank)).getLast? := by
  induction gs generalizing fresh gap with
  | nil => rfl
  | cons g gs ih =>
      cases blank : g.isBlank with
      | true => rw [collapse_blank blank, ih, List.filter_cons_of_neg (by simp [blank])]
      | false =>
          rw [collapse_dark blank, List.getLast?_append_cons, List.getLast?_cons, ih,
            List.filter_cons_of_pos (by simp [blank]), List.getLast?_cons]

theorem collapse_collapse (fresh gap : Bool) (gs : List Glyph) :
    collapse fresh false (collapse fresh gap gs) = collapse fresh gap gs := by
  induction gs generalizing fresh gap with
  | nil => rfl
  | cons g gs ih =>
      cases blank : g.isBlank with
      | true => rw [collapse_blank blank, ih]
      | false =>
          rw [collapse_dark blank, spaceBefore]
          split
          · rename_i spaced
            simp only [Bool.and_eq_true] at spaced
            have again : spaceBefore fresh true g = [char ' '] := by simp [spaceBefore, spaced]
            have space : (char ' ').isBlank = true := by decide
            rw [List.singleton_append, collapse_blank space, collapse_dark blank, again, ih]
            rfl
          · rw [List.nil_append, collapse_solid blank, ih]

theorem length_collapse_le (fresh gap : Bool) (gs : List Glyph) :
    (collapse fresh gap gs).length ≤ gs.length + gap.toNat := by
  induction gs generalizing fresh gap with
  | nil => simp [collapse]
  | cons g gs ih =>
      cases blank : g.isBlank with
      | true =>
          have rest := ih fresh true
          rw [collapse_blank blank, List.length_cons]
          simp only [Bool.toNat_true] at rest
          omega
      | false =>
          have rest := ih (g == char '(') false
          have space : (spaceBefore fresh gap g).length ≤ gap.toNat := by
            rw [spaceBefore]
            split
            · simp_all
            · simp
          rw [collapse_dark blank, List.length_append, List.length_cons, List.length_cons]
          simp only [Bool.toNat_false] at rest
          omega

/-- What is collapsed behind a glyph that is no blank depends on this glyph alone. -/
theorem collapse_append {g : Glyph} (solid : g.isBlank = false) (fresh gap : Bool)
    (xs ys : List Glyph) :
    collapse fresh gap (xs ++ [g] ++ ys) =
      collapse fresh gap (xs ++ [g]) ++ collapse (g == char '(') false ys := by
  induction xs generalizing fresh gap with
  | nil =>
      rw [List.nil_append, List.singleton_append, collapse_dark solid, collapse_dark solid, collapse,
        List.append_assoc, List.singleton_append]
  | cons x xs ih =>
      rw [List.cons_append, List.cons_append, collapse, collapse, ih, ih]
      split
      · rfl
      · split <;> simp

/-- A beginning of a collapsed text that does not end with a blank is collapsed. -/
theorem collapse_eq_self_of_append {fresh : Bool} {xs ys : List Glyph}
    (fixed : collapse fresh false (xs ++ ys) = xs ++ ys)
    (ends : ∀ g ∈ xs.getLast?, g.isBlank = false) : collapse fresh false xs = xs := by
  rcases List.eq_nil_or_concat xs with rfl | ⟨init, g, rfl⟩
  · rfl
  · have solid := ends g (by simp)
    rw [List.concat_eq_append] at *
    rw [collapse_append solid] at fixed
    have first := length_collapse_le fresh false (init ++ [g])
    have second := length_collapse_le (g == char '(') false ys
    have whole := congrArg List.length fixed
    simp only [List.length_append, Bool.toNat_false] at first second whole
    exact (List.append_inj fixed (by rw [List.length_append]; omega)).1

def isLiteral : Glyph → Bool
  | char _ => false
  | literal _ => true

/-- No literal stands directly behind another. -/
def Apart (gs : List Glyph) : Prop := gs.IsChain fun g h => g.isLiteral = true → h.isLiteral = false

/-- Between two literals a gap is not lost. -/
theorem Apart.cons_collapse {g : Glyph} {gs : List Glyph} {fresh gap : Bool}
    (begun : g.isLiteral = true → fresh = false) (apart : Apart gs)
    (solid : gap = false → Apart (g :: gs)) : Apart (g :: Glyph.collapse fresh gap gs) := by
  induction gs generalizing g fresh gap with
  | nil => exact .singleton g
  | cons h gs ih =>
      have tail : Apart gs := List.IsChain.tail apart
      cases blank : h.isBlank with
      | true =>
          rw [collapse_blank blank]
          exact ih begun tail (by simp)
      | false =>
          have rest : Apart (h :: Glyph.collapse (h == char '(') false gs) := by
            refine ih (fun is => ?_) tail fun _ => apart
            cases h with
            | char c => cases is
            | literal text => rfl
          rw [collapse_dark blank, Glyph.spaceBefore]
          split
          · exact .cons_cons (fun _ => rfl) (.cons_cons (fun is => by cases is) rest)
          · rename_i joined
            refine .cons_cons (fun is => ?_) rest
            cases gap with
            | false => exact (List.isChain_cons_cons.1 (solid rfl)).1 is
            | true =>
                obtain rfl : h = char ')' := by simpa [begun is] using joined
                rfl

theorem Apart.collapse {gs : List Glyph} (apart : Apart gs) (fresh : Bool) :
    Apart (Glyph.collapse fresh false gs) := by
  have behind : Apart (char ' ' :: gs) := List.isChain_cons.2 ⟨(fun _ _ is => by cases is), apart⟩
  have begun : (char ' ').isLiteral = true → fresh = false := fun is => by cases is
  exact List.IsChain.tail (Apart.cons_collapse begun apart fun _ => behind)

/-! ## The end of a text -/

/-- The glyphs without commas at their end, and then without blanks there. -/
def trimmed (gs : List Glyph) : List Glyph := (gs.rdropWhile (· == char ',')).rdropWhile isBlank

theorem trimmed_begins (gs : List Glyph) : trimmed gs <+: gs :=
  (List.rdropWhile_prefix ..).trans (List.rdropWhile_prefix ..)

theorem rdropWhile_eq_self_of_getLast? {p : Glyph → Bool} {gs : List Glyph}
    (ends : ∀ g ∈ gs.getLast?, p g = false) : gs.rdropWhile p = gs := by
  refine List.rdropWhile_eq_self_iff.2 fun nonempty => ?_
  rw [ends _ (List.getLast?_eq_some_getLast nonempty)]
  exact Bool.false_ne_true

theorem trimmed_eq_self {gs : List Glyph}
    (ends : ∀ g ∈ gs.getLast?, g ≠ char ',' ∧ g.isBlank = false) : trimmed gs = gs := by
  have commas : gs.rdropWhile (· == char ',') = gs :=
    rdropWhile_eq_self_of_getLast? fun g last => by simpa using (ends g last).1
  rw [trimmed, commas, rdropWhile_eq_self_of_getLast? fun g last => (ends g last).2]

theorem not_isBlank_of_getLast?_trimmed {gs : List Glyph} :
    ∀ g ∈ (trimmed gs).getLast?, g.isBlank = false := by
  intro g last
  obtain ⟨nonempty, rfl⟩ := List.mem_getLast?_eq_getLast last
  exact Bool.eq_false_iff.2 (List.rdropWhile_last_not isBlank _ nonempty)

def comma : Piece := .token [',']

/-- Tokens without a comma at their end. -/
def lessComma (ts : List Piece) : List Piece :=
  if ts.getLast? = some comma then ts.dropLast else ts

/-- A comma at the end is the last token. -/
theorem Lexes.exists_of_comma {gs : List Glyph} {ts : List Piece}
    (lexes : Lexes (gs ++ [char ',']) ts) : ∃ us, ts = us ++ [comma] ∧ Lexes gs us := by
  obtain ⟨us, vs, rfl, first, second⟩ := lexes.split rfl (by simp; decide)
  have last : Lexes [char ','] [comma] := .mark (by simp) .nil
  have same : vs = [comma] := second.tokens_eq.symm.trans last.tokens_eq
  exact ⟨us, by rw [same], first⟩

/-- Spaces at the end are no tokens. -/
theorem Lexes.of_append_spaces {gs blanks : List Glyph} {ts : List Piece}
    (lexes : Lexes (gs ++ blanks) ts) (spaces : ∀ g ∈ blanks, g = char ' ') : Lexes gs ts := by
  have separate : ∀ g ∈ blanks, ∃ c, g = char c ∧ isBreak c = true ∧ c ≠ '/' := fun g inside =>
    ⟨' ', spaces g inside, by decide⟩
  obtain ⟨us, vs, rfl, first, second⟩ := lexes.split rfl separate
  have last : Lexes blanks [] := by
    clear lexes second separate
    induction blanks with
    | nil => exact .nil
    | cons g blanks ih =>
        obtain ⟨rfl, others⟩ := List.forall_mem_cons.1 spaces
        exact .gap (by decide) (ih others)
  have same : vs = [] := second.tokens_eq.symm.trans last.tokens_eq
  rwa [same, List.append_nil]

/-- A text with one comma at its end at most loses this comma and the spaces before it, or is left
as it is. -/
theorem trimmed_cases {gs : List Glyph} {ts : List Piece} (lexes : Lexes gs ts)
    (spaces : ∀ g ∈ gs, g.isBlank = true → g = char ' ')
    (ends : ∀ g ∈ gs.getLast?, g.isBlank = false) (single : ¬ [comma, comma] <:+ ts) :
    (gs.getLast? = some (char ',') ∧ ∃ us, ts = us ++ [comma] ∧ Lexes (trimmed gs) us) ∨
      gs.getLast? ≠ some (char ',') ∧ trimmed gs = gs := by
  by_cases last : gs.getLast? = some (char ',')
  · obtain ⟨init, rfl⟩ := List.getLast?_eq_some_iff.1 last
    obtain ⟨us, rfl, before⟩ := lexes.exists_of_comma
    -- A second comma would be a token too.
    have one : ∀ g ∈ init.getLast?, (g == char ',') = false := by
      intro g second
      rw [beq_eq_false_iff_ne]
      rintro rfl
      obtain ⟨init', rfl⟩ := List.getLast?_eq_some_iff.1 second
      obtain ⟨us', rfl, -⟩ := before.exists_of_comma
      exact single ⟨us', by simp⟩
    have cut : trimmed (init ++ [char ',']) = init.rdropWhile isBlank := by
      rw [trimmed, List.rdropWhile_concat_pos _ _ _ (by simp), rdropWhile_eq_self_of_getLast? one]
    have blanks : ∀ g ∈ init.rtakeWhile isBlank, g = char ' ' := by
      intro g inside
      have listed : g ∈ init := (List.rtakeWhile_suffix ..).subset inside
      exact spaces g (List.mem_append_left _ listed) (List.mem_rtakeWhile_imp inside)
    refine .inl ⟨last, us, rfl, ?_⟩
    rw [← List.rdropWhile_append_rtakeWhile (p := isBlank) (l := init)] at before
    rw [cut]
    exact before.of_append_spaces blanks
  · refine .inr ⟨last, trimmed_eq_self fun g listed => ⟨?_, ends g listed⟩⟩
    rintro rfl
    exact last listed

section

variable {gs : List Glyph} {ts : List Piece} (lexes : Lexes gs ts)
  (single : ¬ [comma, comma] <:+ ts)

include lexes single

theorem trimmed_collapse_cases (fresh gap : Bool) :
    ((gs.filter (!·.isBlank)).getLast? = some (char ',') ∧
      ∃ us, ts = us ++ [comma] ∧ Lexes (trimmed (collapse fresh gap gs)) us) ∨
    (gs.filter (!·.isBlank)).getLast? ≠ some (char ',') ∧
      trimmed (collapse fresh gap gs) = collapse fresh gap gs := by
  rw [← getLast?_collapse fresh gap]
  refine trimmed_cases (lexes.collapse fresh gap) (fun g inside blank => ?_) (fun g last => ?_) single
  · rcases mem_collapse inside with is | ⟨-, dark⟩
    · exact is
    · exact absurd blank (by simp [dark])
  · rw [getLast?_collapse] at last
    simpa using List.of_mem_filter (List.mem_of_getLast? last)

/-- **The collapsed text without its last comma has the tokens of the text without their last
comma.** -/
theorem lexes_trimmed_collapse
    (last : ts.getLast? = some comma → (gs.filter (!·.isBlank)).getLast? = some (char ','))
    (fresh gap : Bool) : Lexes (trimmed (collapse fresh gap gs)) (lessComma ts) := by
  rcases trimmed_collapse_cases lexes single fresh gap with ⟨-, us, rfl, cut⟩ | ⟨other, whole⟩
  · rwa [lessComma, if_pos (by simp), List.dropLast_concat]
  · rw [whole, lessComma, if_neg fun is => other (last is)]
    exact lexes.collapse fresh gap

/-- **A text that was collapsed and trimmed is left as it is.** -/
theorem trimmed_collapse_trimmed_collapse (fresh gap : Bool) :
    trimmed (collapse fresh false (trimmed (collapse fresh gap gs))) =
      trimmed (collapse fresh gap gs) := by
  obtain ⟨trail, whole⟩ := trimmed_begins (collapse fresh gap gs)
  have fixed : collapse fresh false (trimmed (collapse fresh gap gs) ++ trail) =
      trimmed (collapse fresh gap gs) ++ trail := by
    rw [whole, collapse_collapse]
  have again := collapse_eq_self_of_append fixed not_isBlank_of_getLast?_trimmed
  rw [again]
  refine trimmed_eq_self fun g listed => ⟨?_, not_isBlank_of_getLast?_trimmed g listed⟩
  rintro rfl
  rcases trimmed_collapse_cases lexes single fresh gap with ⟨-, us, rfl, cut⟩ | ⟨other, kept⟩
  · obtain ⟨init, parts⟩ := List.getLast?_eq_some_iff.1 listed
    rw [parts] at cut
    obtain ⟨us', rfl, -⟩ := cut.exists_of_comma
    exact single ⟨us', by simp⟩
  · rw [kept, getLast?_collapse] at listed
    exact other listed

end

end Glyph

end Emend

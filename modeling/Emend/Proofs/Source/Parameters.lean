import Emend.Proofs.Layout.Laid
import Emend.Proofs.Source.Gaps
import Emend.Source.Declaration

/-!
# Parameters keep their tokens

The reading of a parameter list (`Declaration.parameters`) goes over its characters and knows
only the spans of its literals. This module says what it does to the tokens.

The spans cut the characters into glyphs (`Glyph.ofChars`), and reading collapses and trims these
glyphs (`Glyph.parameters_textOf`), provided that each literal begins and ends like one, as a
quoted text does. So what is known of glyphs holds of the text that is read
(`Declaration.tokens_parameters`): its tokens are those of the list less a comma at its end, and it
is read again as it is.

This needs a list that is `Glyph.Legible`. A comment that ends with its line would take in what is
written behind it on the one line that is left, markup and names would lose blanks that belong to
them, and a comma that a comment follows is not at the end of the text.
-/

set_option autoImplicit false

namespace Emend

namespace Glyph

/-! ## Texts and their glyphs -/

def textOf (gs : List Glyph) : List Char := gs.flatMap text

@[simp] theorem textOf_cons (g : Glyph) (gs : List Glyph) : textOf (g :: gs) = g.text ++ textOf gs :=
  List.flatMap_cons

@[simp] theorem textOf_append (gs hs : List Glyph) : textOf (gs ++ hs) = textOf gs ++ textOf hs :=
  List.flatMap_append

/-- Whether a character may begin and end a literal. -/
def isEdge (c : Char) : Bool := !Text.isBlank c && c != '(' && c != ')' && c != ','

/-- Whether a literal begins and ends like one. -/
def isSound : Glyph → Bool
  | char _ => true
  | literal text => text.head?.any isEdge && text.getLast?.any isEdge

/-- The spans cover characters that begin at an offset. -/
def Owned (spans : List Span) : Nat → List Char → Prop
  | _, [] => True
  | n, _ :: cs => inAnySpan spans n = true ∧ Owned spans (n + 1) cs

/-- The spans cover the literals of glyphs that begin at an offset, and nothing else of them. -/
def Marks (spans : List Span) : Nat → List Glyph → Prop
  | _, [] => True
  | n, char _ :: gs => inAnySpan spans n = false ∧ Marks spans (n + 1) gs
  | n, literal text :: gs => Owned spans n text ∧ Marks spans (n + text.length) gs

/-- Whether nothing or an opening parenthesis was written last. -/
def isFresh (out : List Char) : Bool := out.isEmpty || out.head? == some '('

theorem collapseFrom_owned {spans : List Span} {n : Nat} {text : List Char}
    (owned : Owned spans n text) (out rest : List Char) :
    Declaration.collapseFrom spans n false out (text ++ rest) =
      Declaration.collapseFrom spans (n + text.length) false (text.reverse ++ out) rest := by
  induction text generalizing n out with
  | nil => rfl
  | cons c text ih =>
      have next := ih owned.2 (c :: out)
      simp only [List.cons_append, Declaration.collapseFrom, owned.1]
      simp [next, Nat.add_assoc, Nat.add_comm 1]

theorem char_beq (c d : Char) : (char c == char d) = (c == d) := by
  rw [Bool.eq_iff_iff, beq_iff_eq, beq_iff_eq, char.injEq]

/-- A space is written by what was written last and what comes next. -/
theorem spaced_eq (gap : Bool) (out : List Char) (c : Char) :
    (gap && !out.isEmpty && out.head? != some '(' && c != ')') = (gap && !isFresh out && c != ')') := by
  simp [isFresh, bne, Bool.and_assoc]

theorem exists_edges {text : List Char} (sound : (literal text).isSound = true) :
    (∃ first rest, text = first :: rest ∧ isEdge first = true) ∧
      ∃ init last, text = init ++ [last] ∧ isEdge last = true := by
  simp only [isSound, Bool.and_eq_true, Option.any_eq_true] at sound
  obtain ⟨⟨first, head, begins⟩, last, tail, ends⟩ := sound
  obtain ⟨rest, rfl⟩ := List.head?_eq_some_iff.1 head
  obtain ⟨init, same⟩ := List.getLast?_eq_some_iff.1 tail
  exact ⟨⟨first, rest, rfl, begins⟩, init, last, same, ends⟩

/-- A glyph that is no blank begins and ends with what it is taken for. -/
theorem exists_first {g : Glyph} (sound : g.isSound = true) (dark : g.isBlank = false) :
    (∃ c cs, g.text = c :: cs ∧ Text.isBlank c = false ∧ (g != char ')') = (c != ')')) ∧
      ∃ init c, g.text = init ++ [c] ∧ (g == char '(') = (c == '(') := by
  cases g with
  | char c =>
      exact ⟨⟨c, [], rfl, dark, by rw [bne, bne, char_beq]⟩, [], c, rfl, char_beq c '('⟩
  | literal text =>
      obtain ⟨⟨first, rest, parts, begins⟩, init, last, same, ends⟩ := exists_edges sound
      simp only [isEdge, Bool.and_eq_true, Bool.not_eq_true', bne_iff_ne] at begins ends
      refine ⟨⟨first, rest, parts, begins.1.1.1, ?_⟩, init, last, same, ?_⟩
      · rw [bne_iff_ne.2 begins.1.2]
        rfl
      · rw [beq_eq_false_iff_ne.2 ends.1.1.2]
        rfl

/-- One glyph that is no blank is written as a whole. -/
theorem collapseFrom_glyph {spans : List Span} {g : Glyph} (sound : g.isSound = true)
    (dark : g.isBlank = false) {n : Nat} {gs : List Glyph} (marks : Marks spans n (g :: gs))
    (gap : Bool) (out rest : List Char) :
    Declaration.collapseFrom spans n gap out (g.text ++ rest) =
      Declaration.collapseFrom spans (n + g.text.length) false
        ((textOf (spaceBefore (isFresh out) gap g ++ [g])).reverse ++ out) rest := by
  obtain ⟨c, cs, parts, solid, close⟩ := (exists_first sound dark).1
  have stays : ¬ (Text.isBlank c && !inAnySpan spans n) = true := by simp [solid]
  have owned : Owned spans (n + 1) cs := by
    cases g with
    | char c =>
        cases parts
        trivial
    | literal text =>
        have whole : Owned spans n (c :: cs) := parts ▸ marks.1
        exact whole.2
  have written : (textOf (spaceBefore (isFresh out) gap g ++ [g])).reverse ++ out =
      cs.reverse ++ c :: (textOf (spaceBefore (isFresh out) gap g) ++ out) := by
    rcases spaceBefore_cases (isFresh out) gap g with unspaced | space
    · simp [unspaced, textOf, parts]
    · simp [space, textOf, parts]
      rfl
  rw [written, parts, List.cons_append, Declaration.collapseFrom, if_neg stays, spaced_eq, ← close,
    List.length_cons, Nat.add_comm cs.length, ← Nat.add_assoc, ← collapseFrom_owned owned,
    spaceBefore]
  split <;> rfl

theorem collapseFrom_textOf {spans : List Span} {gs : List Glyph}
    (sound : ∀ g ∈ gs, g.isSound = true) {n : Nat} (marks : Marks spans n gs) (gap : Bool)
    (out : List Char) :
    Declaration.collapseFrom spans n gap out (textOf gs) =
      (textOf (collapse (isFresh out) gap gs)).reverse ++ out := by
  induction gs generalizing n gap out with
  | nil => rfl
  | cons g gs ih =>
      have sound' : ∀ g ∈ gs, g.isSound = true := fun g inside => sound g (List.mem_cons_of_mem _ inside)
      have rest : Marks spans (n + g.text.length) gs := by
        cases g with
        | char c => exact marks.2
        | literal text => exact marks.2
      cases blank : g.isBlank with
      | true =>
          cases g with
          | literal text => cases blank
          | char c =>
              have passed : (Text.isBlank c && !inAnySpan spans n) = true := by
                have white : Text.isBlank c = true := blank
                rw [white, marks.1]
                rfl
              rw [collapse_blank blank, ← ih sound' rest, textOf_cons, text, List.singleton_append,
                Declaration.collapseFrom, if_pos passed]
              rfl
      | false =>
          have here := sound g List.mem_cons_self
          have fresh : isFresh ((textOf (spaceBefore (isFresh out) gap g ++ [g])).reverse ++ out) =
              (g == char '(') := by
            obtain ⟨init, c, parts, opening⟩ := (exists_first here blank).2
            simp [opening, textOf, parts, isFresh]
          rw [textOf_cons, collapseFrom_glyph here blank marks, ih sound' rest, fresh,
            collapse_dark blank]
          simp [textOf]

/-! ## The end of the parameters -/

/-- A literal is not cut. -/
theorem dropEndWhile_textOf {p : Char → Bool} {q : Glyph → Bool} (chars : ∀ c, q (char c) = p c)
    {gs : List Glyph} (whole : ∀ text, literal text ∈ gs →
      q (literal text) = false ∧ ∃ init last, text = init ++ [last] ∧ p last = false) :
    Text.dropEndWhile p (textOf gs) = textOf (Text.dropEndWhile q gs) := by
  simp only [Text.dropEndWhile_eq_rdropWhile]
  induction gs using List.reverseRecOn with
  | nil => rfl
  | append_singleton gs g ih =>
      have before := ih fun text inside => whole text (List.mem_append_left _ inside)
      rw [textOf_append, List.rdropWhile_concat]
      cases g with
      | char c =>
          have last : textOf [char c] = [c] := rfl
          rw [last, List.rdropWhile_concat, chars, before]
          split
          · rfl
          · rw [textOf_append, last]
      | literal text =>
          obtain ⟨stays, init, last, parts, keep⟩ := whole text (by simp)
          have same : textOf [literal text] = init ++ [last] := by simp [textOf, Glyph.text, parts]
          rw [if_neg (by simp [stays]), textOf_append, same, ← List.append_assoc,
            List.rdropWhile_concat, if_neg (by simp [keep])]

theorem textOf_trimmed {gs : List Glyph} (sound : ∀ g ∈ gs, g.isSound = true) :
    Text.trimEnd (Text.dropEnd ',' (.ofList (textOf gs))) = .ofList (textOf (trimmed gs)) := by
  have ends : ∀ text, literal text ∈ gs → ∃ init last, text = init ++ [last] ∧ isEdge last = true :=
    fun text inside => (exists_edges (sound _ inside)).2
  have commas : Text.dropEndWhile (· == ',') (textOf gs) =
      textOf (Text.dropEndWhile (· == char ',') gs) := by
    refine dropEndWhile_textOf (fun c => char_beq c ',') fun text inside => ⟨by simp, ?_⟩
    obtain ⟨init, last, parts, edge⟩ := ends text inside
    exact ⟨init, last, parts, by simp_all [isEdge]⟩
  have blanks : Text.dropEndWhile Text.isBlank (textOf (Text.dropEndWhile (· == char ',') gs)) =
      textOf (trimmed gs) := by
    refine dropEndWhile_textOf (p := Text.isBlank) (q := isBlank) (fun _ => rfl) fun text inside => ⟨rfl, ?_⟩
    have listed : literal text ∈ gs := (List.rdropWhile_prefix (· == char ',') _).subset inside
    obtain ⟨init, last, parts, edge⟩ := ends text listed
    exact ⟨init, last, parts, by simp_all [isEdge]⟩
  rw [Text.trimEnd, Text.dropEnd, String.toList_ofList, String.toList_ofList, commas, blanks]

/-- **The parameters are the trimmed and collapsed glyphs of the list.** -/
theorem parameters_textOf {gs : List Glyph} (sound : ∀ g ∈ gs, g.isSound = true) {offset : Nat}
    {spans : List Span} (marks : Marks spans (offset + 1) gs) :
    Declaration.parameters ("(" ++ .ofList (textOf gs) ++ ")") offset spans =
      .ofList (textOf (trimmed (collapse true false gs))) := by
  have stripped : (Text.strip? "(" ("(" ++ .ofList (textOf gs) ++ ")")).bind (Text.stripEnd? ")") =
      some (.ofList (textOf gs)) := by
    have opening : Text.strip? "(" ("(" ++ .ofList (textOf gs) ++ ")") =
        some (.ofList (textOf gs) ++ ")") :=
      Text.strip?_eq_some_iff.2 (by rw [String.append_assoc])
    rw [opening, Option.bind_some]
    simp [Text.stripEnd?, Text.stripSuffix?, Text.stripPrefix?]
  have sound' : ∀ g ∈ collapse true false gs, g.isSound = true := by
    intro g inside
    rcases mem_collapse inside with rfl | ⟨listed, -⟩
    · rfl
    · exact sound g listed
  have collapsed := collapseFrom_textOf sound marks false []
  rw [List.append_nil] at collapsed
  simp only [Declaration.parameters, stripped, String.toList_ofList, collapsed, List.reverse_reverse]
  exact textOf_trimmed sound'

/-! ## Literals by their spans -/

/-- The glyphs of characters that begin at an offset: what the spans cover without a break is one
literal. -/
def ofChars (spans : List Span) : Nat → List Char → List Glyph
  | _, [] => []
  | n, c :: cs =>
    if inAnySpan spans n then
      match ofChars spans (n + 1) cs with
      | literal text :: gs => literal (c :: text) :: gs
      | gs => literal [c] :: gs
    else char c :: ofChars spans (n + 1) cs

/-- A character that is owned begins a literal or is put before one. -/
theorem ofChars_owned {spans : List Span} {n : Nat} (owned : inAnySpan spans n = true) (c : Char)
    (cs : List Char) :
    (∃ text gs, ofChars spans (n + 1) cs = literal text :: gs ∧
      ofChars spans n (c :: cs) = literal (c :: text) :: gs) ∨
    (∀ g ∈ (ofChars spans (n + 1) cs).head?, g.isLiteral = false) ∧
      ofChars spans n (c :: cs) = literal [c] :: ofChars spans (n + 1) cs := by
  rw [ofChars, if_pos owned]
  split
  · rename_i text gs rest
    exact .inl ⟨text, gs, rest, rfl⟩
  · rename_i other
    refine .inr ⟨fun g first => ?_, rfl⟩
    cases g with
    | char c => rfl
    | literal text =>
        obtain ⟨gs, rest⟩ := List.head?_eq_some_iff.1 first
        exact absurd rest (other text gs)

theorem ofChars_free {spans : List Span} {n : Nat} (free : inAnySpan spans n = false) (c : Char)
    (cs : List Char) : ofChars spans n (c :: cs) = char c :: ofChars spans (n + 1) cs := by
  rw [ofChars, if_neg (by simp [free])]

@[simp] theorem textOf_ofChars (spans : List Span) (n : Nat) (cs : List Char) :
    textOf (ofChars spans n cs) = cs := by
  induction cs generalizing n with
  | nil => rfl
  | cons c cs ih =>
      cases owned : inAnySpan spans n with
      | false => rw [ofChars_free owned, textOf_cons, ih, text, List.singleton_append]
      | true =>
          have rest := ih (n + 1)
          rcases ofChars_owned owned c cs with ⟨text, gs, next, is⟩ | ⟨-, is⟩
          · rw [next, textOf_cons] at rest
            rw [is, textOf_cons, ← rest]
            rfl
          · rw [is, textOf_cons, rest, text, List.singleton_append]

theorem marks_ofChars (spans : List Span) (n : Nat) (cs : List Char) :
    Marks spans n (ofChars spans n cs) := by
  induction cs generalizing n with
  | nil => trivial
  | cons c cs ih =>
      cases owned : inAnySpan spans n with
      | false =>
          rw [ofChars_free owned]
          exact ⟨owned, ih (n + 1)⟩
      | true =>
          have rest := ih (n + 1)
          rcases ofChars_owned owned c cs with ⟨text, gs, next, is⟩ | ⟨-, is⟩
          · rw [next] at rest
            rw [is]
            refine ⟨⟨owned, rest.1⟩, ?_⟩
            rw [List.length_cons, Nat.add_comm text.length, ← Nat.add_assoc]
            exact rest.2
          · rw [is]
            exact ⟨⟨owned, trivial⟩, rest⟩

theorem apart_ofChars (spans : List Span) (n : Nat) (cs : List Char) :
    Apart (ofChars spans n cs) := by
  induction cs generalizing n with
  | nil => exact .nil
  | cons c cs ih =>
      have rest := ih (n + 1)
      cases owned : inAnySpan spans n with
      | false =>
          rw [ofChars_free owned]
          exact List.isChain_cons.2 ⟨(fun _ _ is => by cases is), rest⟩
      | true =>
          rcases ofChars_owned owned c cs with ⟨text, gs, next, is⟩ | ⟨first, is⟩
          · rw [next] at rest
            rw [is]
            exact List.isChain_cons.2 (List.isChain_cons.1 rest)
          · rw [is]
            exact List.isChain_cons.2 ⟨fun g head _ => first g head, rest⟩

/-- Owned characters before something else are one literal. -/
theorem ofChars_append {spans : List Span} {n : Nat} {c : Char} {cs : List Char}
    (owned : Owned spans n (c :: cs)) {rest : List Char}
    (first : ∀ g ∈ (ofChars spans (n + (c :: cs).length) rest).head?, g.isLiteral = false) :
    ofChars spans n (c :: cs ++ rest) =
      literal (c :: cs) :: ofChars spans (n + (c :: cs).length) rest := by
  induction cs generalizing n c with
  | nil =>
      rcases ofChars_owned owned.1 c rest with ⟨text, gs, next, -⟩ | ⟨-, is⟩
      · exact absurd (first _ (by rw [List.length_singleton, next]; rfl)) (by simp [isLiteral])
      · exact is
  | cons d cs ih =>
      have shift : n + (c :: d :: cs).length = n + 1 + (d :: cs).length := by
        simp only [List.length_cons]
        omega
      rw [shift] at first ⊢
      have next := ih owned.2 first
      rcases ofChars_owned owned.1 c (d :: cs ++ rest) with ⟨text, gs, same, is⟩ | ⟨other, -⟩
      · rw [next] at same
        cases same
        exact is
      · rw [next] at other
        exact absurd (other _ rfl) (by simp [isLiteral])

theorem ofChars_textOf {spans : List Span} {n : Nat} {gs : List Glyph} (marks : Marks spans n gs)
    (sound : ∀ g ∈ gs, g.isSound = true) (apart : Apart gs) : ofChars spans n (textOf gs) = gs := by
  induction gs generalizing n with
  | nil => rfl
  | cons g gs ih =>
      have sound' : ∀ g ∈ gs, g.isSound = true := fun g inside => sound g (List.mem_cons_of_mem _ inside)
      have tail : Apart gs := List.IsChain.tail apart
      cases g with
      | char c => rw [textOf_cons, text, List.singleton_append, ofChars_free marks.1, ih marks.2 sound' tail]
      | literal text =>
          have rest := ih marks.2 sound' tail
          obtain ⟨c, cs, rfl, -⟩ := (exists_edges (sound _ List.mem_cons_self)).1
          rw [textOf_cons, Glyph.text, ofChars_append marks.1, rest]
          rw [rest]
          exact fun g head => (List.isChain_cons.1 apart).1 g head rfl

/-- The spans of the literals of glyphs that begin at an offset. -/
def spansFrom : Nat → List Glyph → List Span
  | _, [] => []
  | n, char _ :: gs => spansFrom (n + 1) gs
  | n, literal text :: gs => ⟨n, n + text.length⟩ :: spansFrom (n + text.length) gs

theorem le_start_of_mem_spansFrom {n : Nat} {gs : List Glyph} {span : Span}
    (listed : span ∈ spansFrom n gs) : n ≤ span.start := by
  induction gs generalizing n with
  | nil => cases listed
  | cons g gs ih =>
      cases g with
      | char c => exact Nat.le_of_succ_le (ih listed)
      | literal text =>
          rcases List.mem_cons.1 listed with rfl | later
          · exact Nat.le_refl n
          · exact Nat.le_trans (Nat.le_add_right ..) (ih later)

theorem owned_of_mem {spans : List Span} {span : Span} (listed : span ∈ spans) {n : Nat}
    {text : List Char} (begins : span.start ≤ n) (ends : n + text.length ≤ span.stop) :
    Owned spans n text := by
  induction text generalizing n with
  | nil => trivial
  | cons c text ih =>
      rw [List.length_cons] at ends
      refine ⟨List.any_eq_true.2 ⟨span, listed, ?_⟩, ih (by omega) (by omega)⟩
      simp only [Span.contains, Bool.and_eq_true, decide_eq_true_eq]
      omega

/-- The spans of literals mark them, whatever spans end before. -/
theorem marks_append_spansFrom {before : List Span} {n : Nat}
    (ended : ∀ span ∈ before, span.stop ≤ n) (gs : List Glyph) :
    Marks (before ++ spansFrom n gs) n gs := by
  induction gs generalizing before n with
  | nil => trivial
  | cons g gs ih =>
      cases g with
      | char c =>
          refine ⟨?_, ih fun span listed => Nat.le_succ_of_le (ended span listed)⟩
          refine List.any_eq_false.2 fun span listed => ?_
          simp only [Span.contains, Bool.and_eq_true, decide_eq_true_eq]
          rcases List.mem_append.1 listed with earlier | later
          · have := ended span earlier
            omega
          · have later' : span ∈ spansFrom (n + 1) gs := later
            have := le_start_of_mem_spansFrom later'
            omega
      | literal text =>
          have own : (⟨n, n + text.length⟩ : Span) ∈ before ++ spansFrom n (literal text :: gs) := by
            simp [spansFrom]
          refine ⟨owned_of_mem own (Nat.le_refl _) (Nat.le_refl _), ?_⟩
          have ended' : ∀ span ∈ before ++ [⟨n, n + text.length⟩], span.stop ≤ n + text.length := by
            simp only [List.mem_append, List.mem_singleton]
            rintro span (earlier | rfl)
            · exact Nat.le_trans (ended span earlier) (Nat.le_add_right ..)
            · exact Nat.le_refl _
          have rest := ih ended'
          rwa [List.append_assoc, List.singleton_append] at rest

theorem marks_spansFrom (n : Nat) (gs : List Glyph) : Marks (spansFrom n gs) n gs := by
  have ended : ∀ span ∈ ([] : List Span), span.stop ≤ n := by simp
  exact marks_append_spansFrom ended gs

/-! ## Parameters keep their tokens -/

/-- The text between parentheses. -/
def enclosed (gs : List Glyph) : List Glyph := char '(' :: gs ++ [char ')']

theorem Lexes.enclosed {gs : List Glyph} {ts : List Piece} (lexes : Lexes gs ts) :
    Lexes (enclosed gs) (.token ['('] :: ts ++ [.token [')']]) := by
  have close : Lexes [char ')'] [.token [')']] := .mark (by simp) .nil
  have follows : Follows [char ')'] := fun c head => by
    cases head
    decide
  exact .mark (by simp) (lexes.append follows close)

/-- A list of parameters of which only the gaps between its pieces and its last comma are written
anew. -/
structure Legible (gs : List Glyph) : Prop where
  /-- Its literals begin and end like ones. -/
  sound : ∀ g ∈ gs, g.isSound = true
  /-- It holds no markup, no comment that ends with its line and no name with a blank. -/
  plain : ∀ piece ∈ pieces gs, piece.isPlain = true
  /-- It does not end with two commas. -/
  single : ¬ [comma, comma] <:+ tokens gs
  /-- Nothing but blanks stands behind its last comma. -/
  last : (tokens gs).getLast? = some comma → (gs.filter (!·.isBlank)).getLast? = some (char ',')

instance (gs : List Glyph) : Decidable (Legible gs) :=
  decidable_of_iff
    ((∀ g ∈ gs, g.isSound = true) ∧ (∀ piece ∈ pieces gs, piece.isPlain = true) ∧
      ¬ [comma, comma] <:+ tokens gs ∧
      ((tokens gs).getLast? = some comma → (gs.filter (!·.isBlank)).getLast? = some (char ',')))
    ⟨fun ⟨sound, plain, single, last⟩ => ⟨sound, plain, single, last⟩,
      fun legible => ⟨legible.sound, legible.plain, legible.single, legible.last⟩⟩

end Glyph

namespace Declaration

open Glyph

/-- **Parameters keep their tokens.** Put back between parentheses, the parameters that were read
have the tokens of the list less a comma at its end, and they are read again as they are. -/
theorem tokens_parameters (inner : String) (offset : Nat) (spans : List Span)
    (legible : Legible (ofChars spans (offset + 1) inner.toList)) (offset' : Nat) :
    let listed := ofChars spans (offset + 1) inner.toList
    let written := parameters ("(" ++ inner ++ ")") offset spans
    ∃ spans' : List Span,
      let listed' := ofChars spans' (offset' + 1) written.toList
      tokens (enclosed listed) = .token ['('] :: tokens listed ++ [.token [')']] ∧
      tokens (enclosed listed') = .token ['('] :: lessComma (tokens listed) ++ [.token [')']] ∧
      parameters ("(" ++ written ++ ")") offset' spans' = written := by
  intro listed written
  have lexes : Lexes listed (tokens listed) := lexes_of_plain legible.plain
  set kept := trimmed (collapse true false listed)
  have keeps : Lexes kept (lessComma (tokens listed)) :=
    lexes_trimmed_collapse lexes legible.single legible.last true false
  have sound : ∀ g ∈ kept, g.isSound = true := by
    intro g inside
    rcases mem_collapse ((trimmed_begins _).subset inside) with rfl | ⟨known, -⟩
    · rfl
    · exact legible.sound g known
  have apart : Apart kept :=
    List.IsChain.prefix ((apart_ofChars spans (offset + 1) inner.toList).collapse true)
      (trimmed_begins _)
  have text : written = .ofList (textOf kept) := by
    have marks := marks_ofChars spans (offset + 1) inner.toList
    have read := parameters_textOf legible.sound marks
    rwa [textOf_ofChars, String.ofList_toList] at read
  have marks := marks_spansFrom (offset' + 1) kept
  have same : ofChars (spansFrom (offset' + 1) kept) (offset' + 1) written.toList = kept := by
    rw [text, String.toList_ofList, ofChars_textOf marks sound apart]
  refine ⟨spansFrom (offset' + 1) kept, lexes.enclosed.tokens_eq, ?_, ?_⟩
  · rw [same]
    exact keeps.enclosed.tokens_eq
  · rw [text, parameters_textOf sound marks,
      trimmed_collapse_trimmed_collapse lexes legible.single true false]

namespace Example

/-- Promoted parameters over commented lines: a literal with blanks, and a comma at the end. -/
def promoted : String := "\n    public string $a = 'x,  y', /* b ( */\n    int ...$b,\n"

def promotedSpans : List Span := [⟨25, 32⟩]

def onOneLine : String := "public string $a = 'x,  y', /* b (*/ int ...$b"

theorem tokens_parameters_promoted :
    Legible (ofChars promotedSpans 1 promoted.toList) ∧
    parameters ("(" ++ promoted ++ ")") 0 promotedSpans = onOneLine ∧
    ∃ spans' : List Span,
      tokens (enclosed (ofChars spans' 1 onOneLine.toList)) =
        .token ['('] :: (tokens (ofChars promotedSpans 1 promoted.toList)).dropLast ++
          [.token [')']] ∧
      parameters ("(" ++ onOneLine ++ ")") 0 spans' = onOneLine := by
  have legible : Legible (ofChars promotedSpans 1 promoted.toList) := by decide +kernel
  have written : parameters ("(" ++ promoted ++ ")") 0 promotedSpans = onOneLine := by
    decide +kernel
  have last : (tokens (ofChars promotedSpans 1 promoted.toList)).getLast? = some comma := by
    decide +kernel
  obtain ⟨spans', -, kept, again⟩ := tokens_parameters promoted 0 promotedSpans legible 0
  rw [written, lessComma, if_pos last] at kept
  rw [written] at again
  exact ⟨legible, written, spans', kept, again⟩

end Example

end Declaration

end Emend

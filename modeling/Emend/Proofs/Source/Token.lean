import Emend.Proofs.Source.Lexeme
import Emend.Text.Blank
import Mathlib.Data.List.TakeWhile

/-!
# Tokens

A text of code whose literals are known is a list of glyphs: characters, and literals as a whole.
It falls into pieces (`Glyph.pieces`): gaps, comments, markup, literals and tokens, and a token is
the longest lexeme where it begins. `Glyph.tokens` keeps the literals and the tokens.

The relation `Glyph.Lexes` is the same for texts without markup, comments that end with their line
and names with blanks: it goes piece by piece, so that proofs follow it by induction. A text whose
pieces are plain is in it (`Glyph.lexes_of_plain`), and it determines the tokens
(`Glyph.Lexes.tokens_eq`).

How far a token goes is decided by the word it stands in (`Glyph.pieceAt_congr`). Hence texts can be
put together before a break (`Glyph.Lexes.append`), and cut before gaps and commas at their end
(`Glyph.Lexes.split`).
-/

set_option autoImplicit false

namespace Emend

open Lexeme

/-! ## Pieces of a text -/

/-- A character of code, or a literal as a whole. -/
inductive Glyph where
  | char (c : Char)
  | literal (text : List Char)
  deriving DecidableEq, Repr

inductive Piece where
  | gap (c : Char)
  | comment (text : List Char)
  | markup (text : List Char)
  | literal (text : List Char)
  | token (text : List Char)
  deriving DecidableEq, Repr

namespace Piece

def text : Piece → List Char
  | gap c => [c]
  | comment text | markup text | literal text | token text => text

def isToken : Piece → Bool
  | literal _ | token _ => true
  | gap _ | comment _ | markup _ => false

/-- Whether the piece may be written with other blanks: it is no markup, its blanks are not part
of a name, and if it is a comment, it ends by itself and not with its line. -/
def isPlain : Piece → Bool
  | gap _ | literal _ => true
  | comment text => ['/', '*'].isPrefixOf text && commentSize text == text.length
  | markup _ => false
  | token text => text.all (!Text.isBlank ·)

end Piece

/-- Whether a comment begins with the character `c` before `cs`. -/
def opensComment (c : Char) (cs : List Char) : Bool :=
  c == '/' && (cs.head? == some '/' || cs.head? == some '*') || c == '#' && cs.head? != some '['

/-- Whether markup begins with the character `c` before `cs`. -/
def opensMarkup (c : Char) (cs : List Char) : Bool := c == '?' && cs.head? == some '>'

theorem opensComment_iff {c : Char} {cs : List Char} :
    opensComment c cs = true ↔ c = '/' ∧ (cs.head? = some '/' ∨ cs.head? = some '*') ∨
      c = '#' ∧ cs.head? ≠ some '[' := by
  simp [opensComment]

theorem opensMarkup_iff {c : Char} {cs : List Char} :
    opensMarkup c cs = true ↔ c = '?' ∧ cs.head? = some '>' := by
  simp [opensMarkup]

/-- The size of a comment; one that does not end goes to the end of the text. -/
def commentLength (cs : List Char) : Nat :=
  if commentSize cs = 0 then cs.length else commentSize cs

/-- The first piece of the characters `c :: cs`. -/
def pieceAt (c : Char) (cs : List Char) : Piece :=
  if isGap c then .gap c
  else if opensComment c cs then .comment ((c :: cs).take (commentLength (c :: cs)))
  else if opensMarkup c cs then .markup ((c :: cs).take (interpolationSize (c :: cs)))
  else .token ((c :: cs).take (tokenSize (c :: cs)))

namespace Glyph

def text : Glyph → List Char
  | char c => [c]
  | literal text => text

/-- The characters before the first literal. -/
def run : List Glyph → List Char
  | char c :: gs => c :: run gs
  | _ => []

/-- The pieces after the first `n` glyphs. -/
def piecesFrom : Nat → List Glyph → List Piece
  | _, [] => []
  | n + 1, _ :: gs => piecesFrom n gs
  | 0, literal text :: gs => .literal text :: piecesFrom 0 gs
  | 0, char c :: gs =>
    let piece := pieceAt c (run gs)
    piece :: piecesFrom (piece.text.length - 1) gs

def pieces (gs : List Glyph) : List Piece := piecesFrom 0 gs

/-- The tokens of a text: its pieces without gaps, comments and markup. -/
def tokens (gs : List Glyph) : List Piece := (pieces gs).filter Piece.isToken

theorem piecesFrom_eq_pieces_drop (n : Nat) (gs : List Glyph) :
    piecesFrom n gs = pieces (gs.drop n) := by
  induction n generalizing gs with
  | zero => rfl
  | succ n ih =>
      cases gs with
      | nil => rfl
      | cons g gs => exact ih gs

theorem run_append_chars (cs : List Char) (gs : List Glyph) :
    run (cs.map char ++ gs) = cs ++ run gs := by
  induction cs with
  | nil => rfl
  | cons c cs ih => rw [List.map_cons, List.cons_append, run, ih, List.cons_append]

theorem eq_chars_append_of_prefix {cs : List Char} {gs : List Glyph} (begins : cs <+: run gs) :
    gs = cs.map char ++ gs.drop cs.length := by
  induction cs generalizing gs with
  | nil => rfl
  | cons c cs ih =>
      cases gs with
      | nil => simp [run] at begins
      | cons g gs =>
          cases g with
          | literal text => simp [run] at begins
          | char d =>
              obtain ⟨rfl, rest⟩ := List.cons_prefix_cons.1 begins
              rw [List.map_cons, List.length_cons, List.drop_succ_cons, List.cons_append, ← ih rest]

/-- A piece of characters and what comes after it. -/
theorem pieces_chars {c : Char} {cs : List Char} {piece : Piece} {gs : List Glyph}
    (here : pieceAt c (cs ++ run gs) = piece) (text : piece.text = c :: cs) :
    pieces ((c :: cs).map char ++ gs) = piece :: pieces gs := by
  rw [List.map_cons, List.cons_append, pieces, piecesFrom, run_append_chars, here,
    piecesFrom_eq_pieces_drop, text]
  simp

/-- The first piece of a text that begins with a character. -/
theorem exists_pieces_char {c : Char} {gs : List Glyph} {cs : List Char}
    (text : (pieceAt c (run gs)).text = c :: cs) (begins : cs <+: run gs) :
    ∃ after, gs = cs.map char ++ after ∧
      pieces (char c :: gs) = pieceAt c (cs ++ run after) :: pieces after := by
  have parts := eq_chars_append_of_prefix begins
  generalize gs.drop cs.length = after at parts
  subst parts
  rw [run_append_chars] at text
  exact ⟨after, rfl, pieces_chars rfl text⟩

/-! ## Comments that end by themselves -/

/-- The first `*/` of the text stands at its end. -/
inductive Closes : List Char → Prop where
  | done : Closes ['*', '/']
  | more {c : Char} {cs : List Char} (other : ¬ (c = '*' ∧ cs.head? = some '/'))
      (rest : Closes cs) : Closes (c :: cs)

theorem blockCommentRest?_cons {c : Char} {cs : List Char}
    (other : ¬ (c = '*' ∧ cs.head? = some '/')) :
    blockCommentRest? (c :: cs) = (blockCommentRest? cs).map (· + 1) := by
  rw [blockCommentRest?]
  rintro rest rfl rfl
  exact other ⟨rfl, rfl⟩

theorem Closes.exists_head {body : List Char} (closes : Closes body) : ∃ c, body.head? = some c := by
  cases closes with
  | done => exact ⟨_, rfl⟩
  | more => exact ⟨_, rfl⟩

theorem Closes.getLast? {body : List Char} (closes : Closes body) : body.getLast? = some '/' := by
  induction closes with
  | done => rfl
  | more _ _ ih => rw [List.getLast?_cons, ih, Option.getD_some]

/-- What comes after the end does not matter. -/
theorem Closes.blockCommentRest? {body : List Char} (closes : Closes body) (cs : List Char) :
    Lexeme.blockCommentRest? (body ++ cs) = some body.length := by
  induction closes with
  | done => rfl
  | @more c body other rest ih =>
      have other' : ¬ (c = '*' ∧ (body ++ cs).head? = some '/') := by
        obtain ⟨d, head⟩ := rest.exists_head
        rwa [List.head?_append, head, Option.some_or, ← head]
      rw [List.cons_append, blockCommentRest?_cons other', ih, Option.map_some, List.length_cons]

/-- What holds no end of a comment may stand before one. -/
theorem Closes.append {cs body : List Char} (closes : Closes body) (free : ¬ ['*', '/'] <:+: cs)
    (apart : body.head? ≠ some '/') : Closes (cs ++ body) := by
  induction cs with
  | nil => exact closes
  | cons c cs ih =>
      refine .more (fun ⟨star, slash⟩ => ?_) (ih fun inside => free (inside.trans ?_))
      · cases cs with
        | nil => exact apart slash
        | cons d cs =>
            cases star
            cases slash
            exact free ⟨[], cs, rfl⟩
      · exact (List.suffix_cons c cs).isInfix

theorem closes_of_blockCommentRest? {body : List Char}
    (found : Lexeme.blockCommentRest? body = some body.length) : Closes body := by
  induction body with
  | nil => cases found
  | cons c cs ih =>
      by_cases here : c = '*' ∧ cs.head? = some '/'
      · obtain ⟨rfl, head⟩ := here
        cases cs with
        | nil => cases head
        | cons d cs =>
            cases head
            cases cs with
            | nil => exact .done
            | cons e cs => simp [Lexeme.blockCommentRest?] at found
      · rw [blockCommentRest?_cons here] at found
        obtain ⟨n, rest, same⟩ := Option.map_eq_some_iff.1 found
        rw [List.length_cons, Nat.add_right_cancel_iff] at same
        exact .more here (ih (same ▸ rest))

theorem pieceAt_comment {body : List Char} (closes : Closes body) (cs : List Char) :
    pieceAt '/' ('*' :: body ++ cs) = .comment ('/' :: '*' :: body) := by
  have size : commentSize ('/' :: ('*' :: body ++ cs)) = body.length + 2 := by
    rw [List.cons_append, commentSize, closes.blockCommentRest?]
    rfl
  have opens : opensComment '/' ('*' :: body ++ cs) = true := rfl
  have solid : isGap '/' = false := by decide
  rw [pieceAt, solid, opens, commentLength, size]
  simp

/-! ## Plain texts -/

/-- The tokens of a text whose pieces are plain. -/
inductive Lexes : List Glyph → List Piece → Prop where
  | nil : Lexes [] []
  | gap {c : Char} {gs : List Glyph} {ts : List Piece} (blank : isGap c = true)
      (rest : Lexes gs ts) : Lexes (char c :: gs) ts
  | literal {text : List Char} {gs : List Glyph} {ts : List Piece} (rest : Lexes gs ts) :
      Lexes (literal text :: gs) (.literal text :: ts)
  | comment {body : List Char} {gs : List Glyph} {ts : List Piece} (closes : Closes body)
      (rest : Lexes gs ts) : Lexes (('/' :: '*' :: body).map char ++ gs) ts
  | token {c : Char} {cs : List Char} {gs : List Glyph} {ts : List Piece}
      (here : pieceAt c (cs ++ run gs) = .token (c :: cs))
      (solid : ∀ d ∈ c :: cs, Text.isBlank d = false) (rest : Lexes gs ts) :
      Lexes ((c :: cs).map char ++ gs) (.token (c :: cs) :: ts)

theorem Lexes.tokens_eq {gs : List Glyph} {ts : List Piece} (lexes : Lexes gs ts) :
    tokens gs = ts := by
  induction lexes with
  | nil => rfl
  | @gap c gs ts blank rest ih =>
      have here : pieceAt c ([] ++ run gs) = .gap c := by rw [pieceAt, if_pos blank]
      have cut : pieces (char c :: gs) = .gap c :: pieces gs := pieces_chars here rfl
      rw [tokens, cut, ← ih]
      rfl
  | @literal text gs ts rest ih =>
      have cut : pieces (Glyph.literal text :: gs) = .literal text :: pieces gs := rfl
      rw [tokens, cut, ← ih]
      rfl
  | @comment body gs ts closes rest ih =>
      rw [tokens, pieces_chars (pieceAt_comment closes _) rfl, ← ih]
      rfl
  | token here solid rest ih =>
      rw [tokens, pieces_chars here rfl, ← ih]
      rfl

/-- What a plain piece can be: a gap, a comment that stands whole in the run, or a token. -/
theorem pieceAt_cases {c : Char} {cs : List Char} (plain : (pieceAt c cs).isPlain = true) :
    (isGap c = true ∧ pieceAt c cs = .gap c) ∨
    (∃ body, c = '/' ∧ '*' :: body <+: cs ∧ Closes body ∧
      pieceAt c cs = .comment ('/' :: '*' :: body)) ∨
    ∃ rest, rest <+: cs ∧ pieceAt c cs = .token (c :: rest) ∧
      ∀ d ∈ c :: rest, Text.isBlank d = false := by
  unfold pieceAt at plain ⊢
  split at plain
  · rename_i gap
    exact .inl ⟨gap, if_pos gap⟩
  rename_i solid
  rw [if_neg solid]
  split at plain
  · rename_i opens
    rw [if_pos opens]
    simp only [Piece.isPlain, Bool.and_eq_true, List.isPrefixOf_iff_prefix, beq_iff_eq] at plain
    obtain ⟨⟨body, text⟩, size⟩ := plain
    have begins : '/' :: '*' :: body <+: c :: cs := by
      have whole : '/' :: '*' :: body = _ := text
      rw [whole]
      exact List.take_prefix ..
    obtain ⟨rfl, rest⟩ := List.cons_prefix_cons.1 begins
    rw [← text] at size ⊢
    refine .inr (.inl ⟨body, rfl, rest, closes_of_blockCommentRest? ?_, rfl⟩)
    simp only [List.cons_append, List.nil_append, commentSize, List.length_cons] at size
    cases found : Lexeme.blockCommentRest? body with
    | none => simp [found] at size
    | some n => simpa [found] using size
  rename_i code
  rw [if_neg code]
  split at plain
  · cases plain
  rename_i markup
  obtain ⟨n, size⟩ : ∃ n, tokenSize (c :: cs) = n + 1 :=
    Nat.exists_eq_add_one_of_ne_zero (by simp [tokenSize])
  rw [if_neg markup, size]
  rw [size] at plain
  refine .inr (.inr ⟨cs.take n, List.take_prefix .., rfl, fun d inside => ?_⟩)
  simpa using List.all_eq_true.1 plain d inside

/-- If all pieces of a text are plain, its tokens are found piece by piece. -/
theorem lexes_of_plain {gs : List Glyph} (plain : ∀ piece ∈ pieces gs, piece.isPlain = true) :
    Lexes gs (tokens gs) := by
  induction size : gs.length using Nat.strongRecOn generalizing gs with
  | ind n ih =>
  -- What comes after the first piece.
  have next (piece : Piece) (after : List Glyph) (shorter : after.length < gs.length)
      (cut : pieces gs = piece :: pieces after) : Lexes after (tokens after) :=
    ih after.length (size ▸ shorter)
      (fun piece listed => plain piece (cut ▸ List.mem_cons_of_mem _ listed)) rfl
  cases gs with
  | nil => exact .nil
  | cons g gs =>
      cases g with
      | literal text => exact .literal (next (.literal text) gs (by simp) rfl)
      | char c =>
          have here : (pieceAt c (run gs)).isPlain = true := plain _ List.mem_cons_self
          rcases pieceAt_cases here with ⟨gap, is⟩ | ⟨body, rfl, begins, closes, is⟩ |
            ⟨rest, begins, is, solid⟩
          · have first : pieceAt c ([] ++ run gs) = .gap c := is
            have cut : pieces (char c :: gs) = .gap c :: pieces gs := pieces_chars first rfl
            have lexes := next _ gs (by simp) cut
            rw [tokens, cut]
            exact .gap gap lexes
          · obtain ⟨after, rfl, cut⟩ := exists_pieces_char (by rw [is]; rfl) begins
            have lexes := next _ after (by rw [List.length_cons, List.length_append]; omega) cut
            rw [tokens, cut, pieceAt_comment closes]
            exact .comment closes lexes
          · obtain ⟨after, rfl, cut⟩ := exists_pieces_char (by rw [is]; rfl) begins
            have lexes := next _ after (by rw [List.length_cons, List.length_append]; omega) cut
            rw [run_append_chars] at is
            rw [tokens, cut, is]
            exact .token is solid lexes

/-! ## What a token depends on -/

/-- The characters before the first break. -/
def word (cs : List Char) : List Char := cs.takeWhile (!isBreak ·)

theorem exists_word_append (cs : List Char) :
    ∃ rest, cs = word cs ++ rest ∧ Ended rest ∧ ∀ c ∈ word cs, isBreak c = false := by
  refine ⟨cs.dropWhile (!isBreak ·), List.takeWhile_append_dropWhile.symm, fun c head => ?_,
    fun c inside => ?_⟩
  · have stop := List.head?_dropWhile_not (!isBreak ·) cs
    rw [Option.mem_def.1 head] at stop
    simpa using stop
  · simpa using List.mem_takeWhile_imp inside

theorem word_append {a : List Char} (plain : ∀ c ∈ a, isBreak c = false) (cs : List Char) :
    word (a ++ cs) = a ++ word cs :=
  List.takeWhile_append_of_pos fun c inside => by simp [plain c inside]

/-- Texts with the same word begin alike, unless with a break. -/
theorem head?_of_word_eq {x y : List Char} (same : word x = word y) {c : Char}
    (plain : isBreak c = false) (head : x.head? = some c) : y.head? = some c := by
  cases x with
  | nil => cases head
  | cons d x =>
      cases head
      cases y with
      | nil => simp [word, plain] at same
      | cons d y =>
          cases separates : isBreak d with
          | true => simp [word, plain, separates] at same
          | false =>
              simp only [word, List.takeWhile_cons, plain, separates, Bool.not_false, if_true] at same
              rw [(List.cons.inj same).1, List.head?_cons]

theorem pieceAt_eq_token_iff {c : Char} {cs text : List Char} :
    pieceAt c cs = .token text ↔ isGap c = false ∧ opensComment c cs = false ∧
      opensMarkup c cs = false ∧ (c :: cs).take (tokenSize (c :: cs)) = text := by
  unfold pieceAt
  split
  · simp_all
  split
  · simp_all
  split
  · simp_all
  · simp_all

/-- A token is the same as in the text that ends with the word. -/
theorem take_tokenSize (c : Char) (cs : List Char) :
    (c :: cs).take (tokenSize (c :: cs)) = (c :: word cs).take (tokenSize (c :: word cs)) := by
  obtain ⟨rest, parts, ended, plain⟩ := exists_word_append cs
  have size := tokenSize_append c plain ended
  have short := tokenSize_le c (word cs)
  have whole : c :: cs = c :: word cs ++ rest := by rw [List.cons_append, ← parts]
  rw [← whole] at size
  rw [size, whole, List.take_append_of_le_length short]

/-- A token has no break but at its beginning. -/
theorem not_isBreak_of_token {c : Char} {cs rest : List Char}
    (here : pieceAt c cs = .token (c :: rest)) : ∀ d ∈ rest, isBreak d = false := by
  obtain ⟨-, -, -, text⟩ := pieceAt_eq_token_iff.1 here
  obtain ⟨-, -, -, plain⟩ := exists_word_append cs
  rw [take_tokenSize] at text
  have begins : c :: rest <+: c :: word cs := text ▸ List.take_prefix ..
  intro d inside
  exact plain d ((List.cons_prefix_cons.1 begins).2.subset inside)

/-- A token is decided by the word that it is in, and by whether a slash follows. -/
theorem pieceAt_congr {c : Char} {cs x y : List Char} (same : word x = word y)
    (slash : y.head? = some '/' → x.head? = some '/')
    (here : pieceAt c (cs ++ x) = .token (c :: cs)) : pieceAt c (cs ++ y) = .token (c :: cs) := by
  have plain := not_isBreak_of_token here
  have whole : word (cs ++ x) = word (cs ++ y) := by
    rw [word_append plain, word_append plain, same]
  have slash' : (cs ++ y).head? = some '/' → (cs ++ x).head? = some '/' := by
    cases cs with
    | nil => exact slash
    | cons d cs => exact id
  obtain ⟨solid, code, noMarkup, text⟩ := pieceAt_eq_token_iff.1 here
  have star := head?_of_word_eq whole.symm (c := '*') (by decide)
  have bracket := head?_of_word_eq whole (c := '[') (by decide)
  have greater := head?_of_word_eq whole.symm (c := '>') (by decide)
  refine pieceAt_eq_token_iff.2 ⟨solid, ?_, ?_, ?_⟩
  · rw [Bool.eq_false_iff, ne_eq, opensComment_iff] at code ⊢
    rintro (⟨is, head | head⟩ | ⟨is, head⟩)
    · exact code (.inl ⟨is, .inl (slash' head)⟩)
    · exact code (.inl ⟨is, .inr (star head)⟩)
    · exact code (.inr ⟨is, fun head' => head (bracket head')⟩)
  · rw [Bool.eq_false_iff, ne_eq, opensMarkup_iff] at noMarkup ⊢
    exact fun ⟨is, head⟩ => noMarkup ⟨is, greater head⟩
  · rw [take_tokenSize, ← whole, ← take_tokenSize, text]

/-- A parenthesis or a comma is a token whatever follows. -/
theorem pieceAt_mark {c : Char} (mark : c ∈ ['(', ')', ',']) (cs : List Char) :
    pieceAt c cs = .token [c] := by
  simp only [List.mem_cons, List.not_mem_nil, or_false] at mark
  obtain ⟨separates, solid, noSlash, noSign, noQuestion⟩ :
      isBreak c = true ∧ isGap c = false ∧ c ≠ '/' ∧ c ≠ '#' ∧ c ≠ '?' := by
    rcases mark with rfl | rfl | rfl <;> decide
  have symbol : symbolSize (c :: cs) = 1 := by
    rcases mark with rfl | rfl | rfl <;>
      simp [symbolSize, symbolsAt, symbols, List.filter, List.isPrefixOf] <;> rfl
  have size : tokenSize (c :: cs) = 1 := by
    rw [tokenSize, symbol, local_floatSize.of_break separates, local_integerSize.of_break separates,
      local_nameSize.of_break separates]
    rfl
  refine pieceAt_eq_token_iff.2 ⟨solid, ?_, ?_, by rw [size]; rfl⟩
  · simp [opensComment, noSlash, noSign]
  · simp [opensMarkup, noQuestion]

/-! ## Texts in parts -/

/-- A text that may stand directly behind a token: it is empty, or begins with a literal or with a
break other than a slash. -/
def Follows (gs : List Glyph) : Prop := ∀ c ∈ (run gs).head?, isBreak c = true ∧ c ≠ '/'

theorem word_eq_nil {cs : List Char} (ended : Ended cs) : word cs = [] := by
  cases cs with
  | nil => rfl
  | cons c cs => simp [word, ended c rfl]

theorem word_run_append (gs : List Glyph) {after : List Glyph} (follows : Follows after) :
    word (run (gs ++ after)) = word (run gs) := by
  induction gs with
  | nil => exact word_eq_nil fun c head => (follows c head).1
  | cons g gs ih =>
      cases g with
      | literal text => rfl
      | char c =>
          unfold word at ih ⊢
          rw [List.cons_append, run, run, List.takeWhile_cons, List.takeWhile_cons, ih]

theorem head?_run_append {gs after : List Glyph} (follows : Follows after)
    (slash : (run (gs ++ after)).head? = some '/') : (run gs).head? = some '/' := by
  cases gs with
  | nil => exact absurd rfl (follows '/' slash).2
  | cons g gs =>
      cases g with
      | literal text => exact slash
      | char c => exact slash

namespace Lexes

theorem mark {c : Char} (mark : c ∈ ['(', ')', ',']) {gs : List Glyph} {ts : List Piece}
    (lexes : Lexes gs ts) : Lexes (char c :: gs) (.token [c] :: ts) := by
  have solid : Text.isBlank c = false := by
    simp only [List.mem_cons, List.not_mem_nil, or_false] at mark
    rcases mark with rfl | rfl | rfl <;> decide
  have here : pieceAt c ([] ++ run gs) = .token [c] := pieceAt_mark mark _
  exact .token here (by simpa using solid) lexes

/-- The tokens of two texts, one behind the other. -/
theorem append {gs after : List Glyph} {ts us : List Piece} (lexes : Lexes gs ts)
    (follows : Follows after) (rest : Lexes after us) : Lexes (gs ++ after) (ts ++ us) := by
  induction lexes with
  | nil => exact rest
  | gap blank _ ih => exact .gap blank ih
  | literal _ ih => exact .literal ih
  | comment closes _ ih =>
      rw [List.append_assoc]
      exact .comment closes ih
  | token here solid _ ih =>
      rw [List.append_assoc]
      exact .token (pieceAt_congr (word_run_append _ follows).symm (head?_run_append follows) here)
        solid ih

/-- Two ways to cut a text: the second cut is behind the first, or inside of what stands before
it. -/
theorem append_cases {α : Type} {xs after before ys : List α} (parts : xs ++ after = before ++ ys) :
    (∃ mid, before = xs ++ mid ∧ after = mid ++ ys) ∨
      ∃ y mid, xs = before ++ y :: mid ∧ ys = y :: mid ++ after := by
  rcases List.append_eq_append_iff.1 parts with ⟨mid, rfl, rfl⟩ | ⟨mid, rfl, rfl⟩
  · exact .inl ⟨mid, rfl, rfl⟩
  · cases mid with
    | nil => exact .inl ⟨[], by simp, by simp⟩
    | cons y mid => exact .inr ⟨y, mid, rfl, rfl⟩

/-- Gaps and commas at the end of a text hold no end of a piece that begins before them, so the
tokens before them are found without them. -/
theorem split {gs before trail : List Glyph} {ts : List Piece} (lexes : Lexes gs ts)
    (parts : gs = before ++ trail)
    (separate : ∀ g ∈ trail, ∃ c, g = char c ∧ isBreak c = true ∧ c ≠ '/') :
    ∃ us vs, ts = us ++ vs ∧ Lexes before us ∧ Lexes trail vs := by
  have follows : Follows trail := by
    intro c head
    cases trail with
    | nil => cases head
    | cons g trail =>
        obtain ⟨d, rfl, known⟩ := separate g List.mem_cons_self
        cases head
        exact known
  induction lexes generalizing before with
  | nil =>
      obtain ⟨rfl, rfl⟩ := List.append_eq_nil_iff.1 parts.symm
      exact ⟨[], [], rfl, .nil, .nil⟩
  | @gap c gs ts blank rest ih =>
      cases before with
      | nil =>
          obtain rfl : char c :: gs = trail := parts
          exact ⟨[], ts, rfl, .nil, .gap blank rest⟩
      | cons g before =>
          obtain ⟨rfl, cut⟩ := List.cons.inj parts
          obtain ⟨us, vs, rfl, first, second⟩ := ih cut
          exact ⟨us, vs, rfl, .gap blank first, second⟩
  | @literal text gs ts rest ih =>
      cases before with
      | nil =>
          obtain rfl : Glyph.literal text :: gs = trail := parts
          exact ⟨[], _, rfl, .nil, .literal rest⟩
      | cons g before =>
          obtain ⟨rfl, cut⟩ := List.cons.inj parts
          obtain ⟨us, vs, rfl, first, second⟩ := ih cut
          exact ⟨_ :: us, vs, rfl, .literal first, second⟩
  | @comment body gs ts closes rest ih =>
      rcases append_cases parts with ⟨mid, rfl, cut⟩ | ⟨g, mid, cut, same⟩
      · obtain ⟨us, vs, rfl, first, second⟩ := ih cut
        exact ⟨us, vs, rfl, .comment closes first, second⟩
      · -- The comment would end inside of the trail, but it ends with a slash.
        have last : (g :: mid).getLast? = some (char '/') := by
          have whole : (('/' :: '*' :: body).map char).getLast? = some (char '/') := by
            rw [List.getLast?_map, List.getLast?_cons, List.getLast?_cons, closes.getLast?]
            rfl
          rwa [cut, List.getLast?_append_cons] at whole
        obtain ⟨c, is, -, other⟩ := separate (char '/') (by
          rw [same]
          exact List.mem_append_left _ (List.mem_of_getLast? last))
        cases is
        exact absurd rfl other
  | @token c cs gs ts here solid rest ih =>
      rcases append_cases parts with ⟨mid, rfl, cut⟩ | ⟨g, mid, cut, same⟩
      · obtain ⟨us, vs, rfl, first, second⟩ := ih cut
        subst cut
        have slash : (run mid).head? = some '/' → (run (mid ++ trail)).head? = some '/' := by
          intro head
          cases mid with
          | nil => cases head
          | cons g mid => cases g <;> exact head
        have kept := pieceAt_congr (word_run_append mid follows) slash here
        exact ⟨_ :: us, vs, rfl, .token kept solid first, second⟩
      · cases before with
        | nil =>
            obtain rfl : (c :: cs).map char ++ gs = trail := parts
            exact ⟨[], _, rfl, .nil, .token here solid rest⟩
        | cons b before =>
            -- The token would have a break behind its beginning.
            obtain ⟨d, rfl, separates, -⟩ := separate g (by rw [same]; simp)
            have inside : char d ∈ cs.map char := by
              rw [List.map_cons, List.cons_append] at cut
              rw [(List.cons.inj cut).2]
              simp
            obtain ⟨e, listed, is⟩ := List.mem_map.1 inside
            cases is
            exact absurd (not_isBreak_of_token here d listed) (by simp [separates])

/-- No blank stands in the word that begins a plain text. -/
theorem not_isBlank_of_mem_word {gs : List Glyph} {ts : List Piece} (lexes : Lexes gs ts) :
    ∀ c ∈ word (run gs), Text.isBlank c = false := by
  induction lexes with
  | nil => simp [run, word]
  | gap blank _ _ => simp [run, word, isBreak_of_isGap blank]
  | literal _ _ => simp [run, word]
  | comment _ _ _ => simp [run, word, show isBreak '/' = true by decide]
  | @token c cs gs ts here solid rest ih =>
      rw [run_append_chars]
      cases separates : isBreak c with
      | true => simp [word, separates]
      | false =>
          have plain : ∀ d ∈ c :: cs, isBreak d = false := by
            simpa [separates] using not_isBreak_of_token here
          rw [word_append plain]
          exact fun d inside => (List.mem_append.1 inside).elim (solid d) (ih d)

end Lexes

end Glyph

end Emend

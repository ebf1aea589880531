import Emend.Proofs.Grammar.Lexing
import Emend.Proofs.Text.Words

/-!
# Where rules stand

A rule occurs in a text between two places if tokens that are laid there derive it
(`Rule.Occurs`). What a rule is made of occurs in the parts of this stretch, and what a word or a
mark is spelled by, stands at the end of its part. So the text of a node can be taken apart along
its rule, as long as no trivia stand in between (`Item.Clear`).
-/

set_option autoImplicit false

namespace Emend

open Scan

/-! ## Items without trivia -/

namespace Item

/-- No trivia stand among the items. -/
def Clear (items : List Item) : Prop := ∀ found, Item.trivia found ∉ items

theorem clear_append {items others : List Item} :
    Clear (items ++ others) ↔ Clear items ∧ Clear others := by
  simp only [Clear, List.mem_append, not_or, forall_and]

theorem clear_nil : Clear [] := fun _ => List.not_mem_nil

theorem Clear.tail {item : Item} {items : List Item} (clear : Clear (item :: items)) :
    Clear items := fun found listed => clear found (List.mem_cons_of_mem _ listed)

end Item

open Item (Clear)

namespace Scan

theorem Token.clear_before {token : Token} : Clear token.before ↔ token.trivia = [] := by
  constructor
  · intro clear
    refine List.eq_nil_iff_forall_not_mem.2 fun found listed => clear found ?_
    exact List.mem_map_of_mem (List.mem_reverse.2 listed)
  · intro bare
    simp [Token.before, bare, Item.clear_nil]

theorem Token.before_eq_nil {token : Token} (clear : Clear token.before) : token.before = [] := by
  rw [Token.before, Token.clear_before.1 clear]
  rfl

/-! ## Stretches of a text -/

theorem between_append {text : List Char} {a b c : Nat} (first : a ≤ b) (second : b ≤ c) :
    between text a c = between text a b ++ between text b c := by
  have rest : (text.drop a).drop (b - a) = text.drop b := by
    rw [List.drop_drop]
    congr 1
    omega
  have whole : c - a = (b - a) + (c - b) := by omega
  rw [between, whole, List.take_add, rest, between, between]

@[simp] theorem between_self (text : List Char) (a : Nat) : between text a a = [] := by
  simp [between]

/-- Only gaps stand between the places. -/
def Gap (text : List Char) (a b : Nat) : Prop := ∀ c ∈ between text a b, Lexeme.isGap c = true

/-- A name cannot go on at the place. -/
def Parted (text : List Char) (place : Nat) : Prop :=
  ∀ c ∈ (text.drop place).head?, Lexeme.isNameChar c = false

theorem laid_le {text : List Char} {place : Nat} {tokens : List Token}
    (laid : Laid text place tokens) : place ≤ stopAfter place tokens := by
  induction tokens generalizing place with
  | nil => exact Nat.le_refl _
  | cons token tokens ih =>
      obtain ⟨before, order, -, -, -, rest⟩ := laid
      rw [stopAfter_cons]
      exact (before.trans order).trans (ih rest)

end Scan

/-! ## Names in a text -/

namespace Lexeme

theorem isNameChar_of_isNameStart {c : Char} (start : isNameStart c = true) :
    isNameChar c = true := by
  rw [isNameChar, start, Bool.true_or]

/-- A name is as long as it can be. -/
theorem nameSize_spec {cs : List Char} (positive : 0 < nameSize cs) :
    (∀ c ∈ cs.take (nameSize cs), isNameChar c = true) ∧
      ∀ c ∈ (cs.drop (nameSize cs)).head?, isNameChar c = false := by
  cases cs with
  | nil => exact absurd positive (Nat.lt_irrefl 0)
  | cons first cs =>
      rw [nameSize] at positive ⊢
      split at positive
      · rename_i start
        rw [if_pos start, Nat.add_comm, List.take_succ_cons, List.drop_succ_cons]
        rw [← List.prefix_iff_eq_take.1 (List.takeWhile_prefix _)]
        have left : cs.drop (cs.takeWhile isNameChar).length = cs.dropWhile isNameChar := by
          conv_lhs =>
            arg 2
            rw [← List.takeWhile_append_dropWhile (p := isNameChar) (l := cs)]
          rw [List.drop_left]
        refine ⟨fun c inside => ?_, fun c next => ?_⟩
        · rcases List.mem_cons.1 inside with rfl | later
          · exact isNameChar_of_isNameStart start
          · exact List.mem_takeWhile_imp later
        · rw [left] at next
          have stops := List.head?_dropWhile_not isNameChar cs
          rw [next] at stops
          simpa using stops
      · exact absurd positive (Nat.lt_irrefl 0)

end Lexeme

namespace Rule

/-- The rule stands in the text between two places, and the items are made of it. -/
def Occurs (text : List Char) (rule : Rule) (start stop : Nat) (items : List Item) : Prop :=
  ∃ tokens, Laid text start tokens ∧ stopAfter start tokens = stop ∧ rule.Derives tokens items

/-- The same of a rule the first token of which begins at the first place. -/
def OccursAt (text : List Char) (rule : Rule) (start stop : Nat) (items : List Item) : Prop :=
  ∃ token tokens, token.extent.span.start = start ∧ Laid text start (token :: tokens) ∧
    stopAfter start (token :: tokens) = stop ∧ rule.Derives (token :: tokens) items

variable {text : List Char} {rule first second : Rule} {start stop : Nat} {items : List Item}

theorem OccursAt.occurs (occurs : OccursAt text rule start stop items) :
    Occurs text rule start stop items :=
  let ⟨token, tokens, _, laid, ends, derives⟩ := occurs
  ⟨token :: tokens, laid, ends, derives⟩

namespace Occurs

theorem le (occurs : Occurs text rule start stop items) : start ≤ stop := by
  obtain ⟨tokens, laid, rfl, -⟩ := occurs
  exact laid_le laid

theorem category {c : Category} (occurs : Occurs text (.category c) start stop items) :
    Occurs text (Grammar.rule c) start stop items := by
  obtain ⟨tokens, laid, ends, derives⟩ := occurs
  cases derives with
  | category inside => exact ⟨tokens, laid, ends, inside⟩

theorem sequence (occurs : Occurs text (.sequence first second) start stop items) :
    ∃ middle front back, items = front ++ back ∧ Occurs text first start middle front ∧
      Occurs text second middle stop back := by
  obtain ⟨tokens, laid, ends, derives⟩ := occurs
  cases derives with
  | sequence before after =>
      obtain ⟨left, right⟩ := laid_append.1 laid
      rw [stopAfter_append] at ends
      exact ⟨_, _, _, rfl, ⟨_, left, rfl, before⟩, _, right, ends, after⟩

theorem choice (occurs : Occurs text (.choice first second) start stop items) :
    Occurs text first start stop items ∨ Occurs text second start stop items := by
  obtain ⟨tokens, laid, ends, derives⟩ := occurs
  cases derives with
  | left chosen => exact .inl ⟨tokens, laid, ends, chosen⟩
  | right chosen => exact .inr ⟨tokens, laid, ends, chosen⟩

theorem optional (occurs : Occurs text (.optional rule) start stop items) :
    (stop = start ∧ items = []) ∨ Occurs text rule start stop items := by
  obtain ⟨tokens, laid, ends, derives⟩ := occurs
  cases derives with
  | without => exact .inl ⟨ends.symm, rfl⟩
  | within taken => exact .inr ⟨tokens, laid, ends, taken⟩

/-- A terminal stands behind the trivia before it. -/
theorem terminal {t : Terminal} (occurs : Occurs text (.terminal t) start stop items)
    (clear : Clear items) :
    items = [] ∧ ∃ place, start ≤ place ∧ place ≤ stop ∧ stop ≤ text.length ∧
      (t ≠ .openingTag → Gap text start place) ∧
      Spelled (text.drop place) (stop - place) t := by
  obtain ⟨tokens, laid, rfl, derives⟩ := occurs
  cases derives with
  | terminal token =>
      obtain ⟨before, order, bound, gap, spelled, -⟩ := laid
      exact ⟨Token.before_eq_nil clear, _, before, order, bound,
        gap (Token.clear_before.1 clear), spelled⟩

/-- A mark stands behind gaps. -/
theorem mark {s : String} (occurs : Occurs text (.mark s) start stop items)
    (clear : Clear items) :
    items = [] ∧ ∃ gaps, between text start stop = gaps ++ s.toList ∧
      ∀ c ∈ gaps, Lexeme.isGap c = true := by
  obtain ⟨rfl, place, before, order, -, gap, prefix', size⟩ := occurs.terminal clear
  refine ⟨rfl, between text start place, ?_, gap nofun⟩
  rw [between_append before order]
  congr 1
  rw [between, size]
  exact (List.prefix_iff_eq_take.1 prefix').symm

/-- A word stands behind gaps, and no name goes on behind it. -/
theorem word {w : String} (occurs : Occurs text (.word w) start stop items)
    (clear : Clear items) :
    items = [] ∧ ∃ gaps chars, between text start stop = gaps ++ chars ∧
      (∀ c ∈ gaps, Lexeme.isGap c = true) ∧ (∀ c ∈ chars, Lexeme.isNameChar c = true) ∧
      chars ≠ [] ∧ Text.lower (.ofList chars) = w ∧ Parted text stop := by
  obtain ⟨rfl, place, before, order, bound, gap, positive, size, lower⟩ := occurs.terminal clear
  obtain ⟨chars, next⟩ := Lexeme.nameSize_spec (size ▸ positive)
  rw [← size] at chars next
  refine ⟨rfl, between text start place, between text place stop, between_append before order,
    gap nofun, chars, ?_, lower, ?_⟩
  · intro empty
    have length := congrArg List.length empty
    simp only [between, List.length_take, List.length_drop, List.length_nil] at length
    omega
  · rw [List.drop_drop, Nat.add_sub_cancel' order] at next
    exact next

end Occurs

/-! ## Nodes -/

/-- Every token the rule can begin with satisfies `p`, if that holds of all categories. A rule that
is more than a terminal is taken for one that can be empty. -/
def opens (p : Terminal → Bool) : Rule → Bool
  | .empty => true
  | .terminal t => p t
  | .category _ => true
  | .sequence (.terminal t) _ => p t
  | .sequence first second => first.opens p && second.opens p
  | .choice left right => left.opens p && right.opens p
  | .optional rule | .eager rule | .many rule | .node _ rule => rule.opens p

theorem Derives.opens {p : Terminal → Bool} {tokens : List Token}
    (derives : rule.Derives tokens items)
    (closed : ∀ c, (Grammar.rule c).opens p = true) (opened : rule.opens p = true) :
    ∀ token ∈ tokens.head?, p token.terminal = true := by
  have append {xs ys : List Token} (left : ∀ token ∈ xs.head?, p token.terminal = true)
      (right : ∀ token ∈ ys.head?, p token.terminal = true) :
      ∀ token ∈ (xs ++ ys).head?, p token.terminal = true := by
    cases xs with
    | nil => exact right
    | cons x xs => exact left
  induction derives with
  | empty | without | passed | done => exact fun _ absent => absurd absent nofun
  | terminal token =>
      intro other first
      cases first
      exact opened
  | @category c _ _ _ ih => exact ih (closed c)
  | @sequence first second _ _ _ _ before _ ihBefore ihAfter =>
      cases first with
      | terminal t =>
          cases before with
          | terminal token =>
              intro other first
              cases first
              exact opened
      | _ =>
          obtain ⟨left, right⟩ := Bool.and_eq_true_iff.1 opened
          exact append (ihBefore left) (ihAfter right)
  | left _ ih => exact ih (Bool.and_eq_true_iff.1 opened).1
  | right _ ih => exact ih (Bool.and_eq_true_iff.1 opened).2
  | within _ ih | eager _ ih => exact ih opened
  | more _ _ ihFirst ihRest => exact append (ihFirst opened) (ihRest opened)
  | @node _ _ token _ _ _ ih =>
      intro other first
      cases first
      exact ih opened token.bare rfl

/-- No rule begins with the tag of a heredoc. -/
theorem opens_category (c : Category) : (Grammar.rule c).opens (· != .openingTag) = true := by
  cases c <;> decide +kernel

/-- A node stands behind the trivia before it, and its rule begins where it does. -/
theorem Occurs.node {label : Label} (occurs : Occurs text (.node label rule) start stop items) :
    ∃ trivia extent inner, items = trivia.map .trivia ++ [.node label extent inner] ∧
      start ≤ extent.span.start ∧ extent.span.stop = stop ∧
      OccursAt text rule extent.span.start stop inner ∧
      (trivia = [] → rule.opens (· != .openingTag) = true → Gap text start extent.span.start) := by
  obtain ⟨tokens, laid, rfl, derives⟩ := occurs
  cases derives with
  | @node _ _ token tokens inner inside =>
      obtain ⟨before, order, bound, gap, spelled, rest⟩ := laid
      have bare := Laid.bare ⟨before, order, bound, gap, spelled, rest⟩
      refine ⟨token.trivia.reverse, _, inner, rfl, before, by simp,
        ⟨token.bare, tokens, rfl, bare, by simp, inside⟩, fun untouched opened => ?_⟩
      have first := inside.opens opens_category opened token.bare rfl
      exact gap (List.reverse_eq_nil_iff.1 untouched) (by simpa using first)

/-- A node without trivia before it stands behind gaps. -/
theorem Occurs.clear_node {label : Label}
    (occurs : Occurs text (.node label rule) start stop items) (clear : Clear items)
    (opened : rule.opens (· != .openingTag) = true) :
    ∃ extent inner, items = [.node label extent inner] ∧ start ≤ extent.span.start ∧
      extent.span.stop = stop ∧ OccursAt text rule extent.span.start stop inner ∧
      Gap text start extent.span.start := by
  obtain ⟨trivia, extent, inner, rfl, before, ends, inside, gap⟩ := occurs.node
  have untouched : trivia = [] := by
    refine List.eq_nil_iff_forall_not_mem.2 fun found listed => clear found ?_
    exact List.mem_append_left _ (List.mem_map_of_mem listed)
  subst untouched
  exact ⟨extent, inner, rfl, before, ends, inside, gap rfl opened⟩

/-! ## The characters of a rule -/

/-- All terminals of the rule satisfy `p`, all its categories are known, and it makes no nodes. -/
def consists (p : Terminal → Bool) (known : Category → Bool) : Rule → Bool
  | .empty => true
  | .terminal t => p t
  | .category c => known c
  | .sequence first second | .choice first second =>
    first.consists p known && second.consists p known
  | .optional rule | .eager rule | .many rule => rule.consists p known
  | .node _ _ => false

section

variable {p : Terminal → Bool} {known : Category → Bool} {tokens : List Token}
  (derives : rule.Derives tokens items)
  (closed : ∀ c, known c = true → (Grammar.rule c).consists p known = true)
  (consists : rule.consists p known = true)

include derives closed consists

theorem Derives.terminals : ∀ token ∈ tokens, p token.terminal = true := by
  induction derives with
  | empty | without | passed | done => exact fun _ listed => absurd listed List.not_mem_nil
  | terminal token =>
      intro other listed
      obtain rfl := List.mem_singleton.1 listed
      exact consists
  | @category c _ _ _ ih => exact ih (closed c consists)
  | sequence _ _ ihBefore ihAfter =>
      obtain ⟨left, right⟩ := Bool.and_eq_true_iff.1 consists
      intro token listed
      exact (List.mem_append.1 listed).elim (ihBefore left token) (ihAfter right token)
  | left _ ih => exact ih (Bool.and_eq_true_iff.1 consists).1
  | right _ ih => exact ih (Bool.and_eq_true_iff.1 consists).2
  | within _ ih | eager _ ih => exact ih consists
  | more _ _ ihFirst ihRest =>
      intro token listed
      exact (List.mem_append.1 listed).elim (ihFirst consists token) (ihRest consists token)
  | node _ _ => cases consists

/-- No trivia in the items of such a rule, no trivia before its tokens, and no items at all. -/
theorem Derives.clear (clear : Clear items) :
    items = [] ∧ ∀ token ∈ tokens, token.trivia = [] := by
  have join {xs ys : List Token} {front back : List Item}
      (left : front = [] ∧ ∀ token ∈ xs, token.trivia = [])
      (right : back = [] ∧ ∀ token ∈ ys, token.trivia = []) :
      front ++ back = [] ∧ ∀ token ∈ xs ++ ys, token.trivia = [] := by
    refine ⟨by rw [left.1, right.1, List.append_nil], fun token listed => ?_⟩
    exact (List.mem_append.1 listed).elim (left.2 token) (right.2 token)
  induction derives with
  | empty | without | passed | done => exact ⟨rfl, fun _ listed => absurd listed List.not_mem_nil⟩
  | terminal token =>
      refine ⟨Token.before_eq_nil clear, fun other listed => ?_⟩
      obtain rfl := List.mem_singleton.1 listed
      exact Token.clear_before.1 clear
  | @category c _ _ _ ih => exact ih (closed c consists) clear
  | sequence _ _ ihBefore ihAfter =>
      obtain ⟨left, right⟩ := Bool.and_eq_true_iff.1 consists
      obtain ⟨front, back⟩ := Item.clear_append.1 clear
      exact join (ihBefore left front) (ihAfter right back)
  | left _ ih => exact ih (Bool.and_eq_true_iff.1 consists).1 clear
  | right _ ih => exact ih (Bool.and_eq_true_iff.1 consists).2 clear
  | within _ ih | eager _ ih => exact ih consists clear
  | more _ _ ihFirst ihRest =>
      obtain ⟨front, back⟩ := Item.clear_append.1 clear
      exact join (ihFirst consists front) (ihRest consists back)
  | node _ _ => cases consists

end

end Rule

/-- The terminal is spelled by characters of names, or by a mark all of whose characters satisfy
`p`. -/
def Terminal.isWritten (p : Char → Bool) : Terminal → Bool
  | .word _ | .spelled _ | .name => true
  | .symbol s => !s.toList.isEmpty && s.toList.all p
  | _ => false

open Scan

/-- A token that is written with such characters is not empty. -/
theorem Scan.Spelled.all {p : Char → Bool} (names : ∀ c, Lexeme.isNameChar c = true → p c = true)
    {cs : List Char} {size : Nat} {t : Terminal} (spelled : Spelled cs size t)
    (written : t.isWritten p = true) : cs.take size ≠ [] ∧ ∀ c ∈ cs.take size, p c = true := by
  have named (positive : 0 < size) (whole : size = Lexeme.nameSize cs) :
      cs.take size ≠ [] ∧ ∀ c ∈ cs.take size, p c = true := by
    subst whole
    refine ⟨fun empty => ?_, fun c inside => names c ((Lexeme.nameSize_spec positive).1 c inside)⟩
    have bound := Lexeme.local_nameSize.le cs
    have length := congrArg List.length empty
    rw [List.length_take, List.length_nil] at length
    omega
  cases t with
  | word _ | spelled _ | name => exact named spelled.1 (by first | exact spelled.2.1 | exact spelled.2)
  | symbol s =>
      obtain ⟨prefix', rfl⟩ := spelled
      rw [← List.prefix_iff_eq_take.1 prefix']
      simpa [Terminal.isWritten] using written
  | _ => cases written

theorem Scan.Laid.last {p : Char → Bool} (names : ∀ c, Lexeme.isNameChar c = true → p c = true)
    {text : List Char} {place : Nat} {tokens : List Token} (laid : Laid text place tokens)
    (nonempty : tokens ≠ []) (written : ∀ token ∈ tokens, token.terminal.isWritten p = true) :
    ∃ front chars, between text place (stopAfter place tokens) = front ++ chars ∧ chars ≠ [] ∧
      ∀ c ∈ chars, p c = true := by
  obtain rfl | ⟨tokens, token, rfl⟩ := tokens.eq_nil_or_concat
  · exact absurd rfl nonempty
  · rw [List.concat_eq_append] at laid written ⊢
    obtain ⟨first, before, order, -, -, spelled, -⟩ := laid_append.1 laid
    obtain ⟨nonempty, chars⟩ := spelled.all names (written token (by simp))
    refine ⟨_, _, between_append ((laid_le first).trans before) ?_, ?_⟩
    · simpa using order
    · rw [stopAfter_append]
      exact ⟨nonempty, chars⟩

/-- What stands between tokens without trivia is made of their characters and of gaps. -/
theorem Scan.Laid.all {p : Char → Bool} (names : ∀ c, Lexeme.isNameChar c = true → p c = true)
    {text : List Char} {place : Nat} {tokens : List Token} (laid : Laid text place tokens)
    (written : ∀ token ∈ tokens, token.terminal.isWritten p = true)
    (bare : ∀ token ∈ tokens, token.trivia = []) :
    ∀ c ∈ between text place (stopAfter place tokens), p c = true ∨ Lexeme.isGap c = true := by
  induction tokens generalizing place with
  | nil =>
      intro c inside
      simp at inside
  | cons token tokens ih =>
      obtain ⟨before, order, -, gap, spelled, rest⟩ := laid
      obtain ⟨now, later⟩ := List.forall_mem_cons.1 written
      obtain ⟨untouched, further⟩ := List.forall_mem_cons.1 bare
      have other : token.terminal ≠ .openingTag := by
        intro tag
        rw [tag] at now
        cases now
      intro c inside
      rw [stopAfter_cons, between_append before (order.trans (laid_le rest)),
        between_append order (laid_le rest), List.mem_append, List.mem_append] at inside
      rcases inside with first | here | there
      · exact .inr (gap untouched other c first)
      · exact .inl ((spelled.all names now).2 c here)
      · exact ih rest later further c there

namespace Rule.OccursAt

variable {text : List Char} {rule : Rule} {start stop : Nat} {items : List Item}
  {p : Char → Bool} {known : Category → Bool}
  (occurs : OccursAt text rule start stop items)
  (names : ∀ c, Lexeme.isNameChar c = true → p c = true)
  (closed : ∀ c, known c = true → (Grammar.rule c).consists (Terminal.isWritten p) known = true)
  (consists : rule.consists (Terminal.isWritten p) known = true)

include occurs names closed consists

/-- What stands for such a rule begins and ends with one of its characters. -/
theorem enclosed : Text.Enclosed (p · = true) (.ofList (between text start stop)) := by
  obtain ⟨token, tokens, rfl, laid, rfl, derives⟩ := occurs
  have written := derives.terminals closed consists
  obtain ⟨front, chars, ends, nonempty, last⟩ := laid.last names nofun written
  obtain ⟨-, order, -, -, spelled, rest⟩ := laid
  obtain ⟨begun, first⟩ := spelled.all names (written token List.mem_cons_self)
  refine ⟨?_, ?_⟩
  · rw [String.toList_ofList, stopAfter_cons, between_append order (laid_le rest)]
    obtain ⟨c, cs, shape⟩ := List.exists_cons_of_ne_nil begun
    refine ⟨c, ?_, first c (by simp [shape])⟩
    rw [between, shape]
    rfl
  · rw [String.toList_ofList, ends]
    refine ⟨chars.getLast nonempty, ?_, last _ (List.getLast_mem nonempty)⟩
    rw [List.getLast?_append_of_ne_nil _ nonempty, List.getLast?_eq_some_getLast nonempty]

/-- What stands for such a rule without trivia is made of its characters and of gaps. -/
theorem all (clear : Clear items) :
    ∀ c ∈ between text start stop, p c = true ∨ Lexeme.isGap c = true := by
  obtain ⟨token, tokens, rfl, laid, rfl, derives⟩ := occurs
  exact laid.all names (derives.terminals closed consists)
    (derives.clear closed consists clear).2

end Rule.OccursAt

end Emend

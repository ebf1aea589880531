import Emend.Proofs.Grammar.Occurrence
import Emend.Proofs.Source.Clauses

/-!
# The texts of phrases

The text of a rule is taken apart along the rule: a list has commas between its parts
(`Occurs.commaList`), a word does not run into the next one (`Parted.ne_nil`), and a node is made by
its rule (`Occurs.node_mem`). Texts are those without trivia in which the gaps are the blanks
(`Even`), since blanks are what a reader of words knows.
-/

set_option autoImplicit false

namespace Emend

open Scan
open Text (Blank Inked Listed isBlank)
open Item (Clear)

/-! ## Gaps and blanks -/

namespace Lexeme

theorem isGap_of_isNameChar {c : Char} (name : isNameChar c = true) : isGap c = false := by
  have unnamed : breaks.all (!isNameChar ·) = true := by decide
  rw [Bool.eq_false_iff]
  intro gap
  have listed : c ∈ breaks := List.contains_iff_mem.1 (isBreak_of_isGap gap)
  have other := List.all_eq_true.1 unnamed c listed
  rw [name] at other
  cases other

end Lexeme

namespace Scan

variable {text : List Char} {a b : Nat}

/-- The gaps between the places are the blanks there. -/
def Even (text : List Char) (a b : Nat) : Prop :=
  ∀ c ∈ between text a b, Lexeme.isGap c = isBlank c

theorem Even.sub (even : Even text a b) {c d : Nat} (first : a ≤ c) (last : d ≤ b) :
    Even text c d := by
  rcases Nat.le_total c d with order | order
  · intro x inside
    refine even x ?_
    rw [between_append first (order.trans last), between_append order last]
    exact List.mem_append_right _ (List.mem_append_left _ inside)
  · intro x inside
    rw [between, Nat.sub_eq_zero_of_le order, List.take_zero] at inside
    cases inside

theorem Even.blank (even : Even text a b) (gap : Gap text a b) : Blank (between text a b) :=
  fun c inside => (even c inside).symm.trans (gap c inside)

/-- Something stands before a place behind which something stands. -/
theorem between_ne_nil {c : Nat} (order : a < b) (nonempty : between text b c ≠ []) :
    between text a b ≠ [] := by
  intro empty
  refine nonempty ?_
  have short : text.length ≤ a := by
    have length := congrArg List.length empty
    rw [between, List.length_take, List.length_drop, List.length_nil] at length
    omega
  rw [between, List.drop_eq_nil_of_le (short.trans order.le), List.take_nil]

/-- What stands last before a place. -/
theorem getLast?_between (order : a ≤ b) (nonempty : between text a b ≠ []) :
    (text.take b).getLast? = (between text a b).getLast? := by
  have whole : text.take b = text.take a ++ between text a b := by
    rw [between, ← Nat.add_sub_cancel' order, List.take_add, Nat.add_sub_cancel_left]
  rw [whole, List.getLast?_append_of_ne_nil _ nonempty]

/-- Names have no blanks in an even text. -/
theorem Even.ink (even : Even text a b) {c : Char} (inside : c ∈ between text a b)
    (name : Lexeme.isNameChar c = true) : isBlank c = false :=
  (even c inside).symm.trans (Lexeme.isGap_of_isNameChar name)

end Scan

/-! ## Inversions -/

namespace Rule

variable {text : List Char} {rule first second : Rule} {start stop : Nat} {items : List Item}

/-- Repetition, by induction. -/
theorem Occurs.many_induction {motive : Nat → Nat → List Item → Prop}
    (occurs : Occurs text (.many rule) start stop items) (done : ∀ place, motive place place [])
    (more : ∀ {start middle stop front back}, Occurs text rule start middle front →
      Occurs text (.many rule) middle stop back → motive middle stop back →
      motive start stop (front ++ back)) : motive start stop items := by
  obtain ⟨tokens, laid, ends, derives⟩ := occurs
  generalize repeated : Rule.many rule = whole at derives
  induction derives generalizing start with
  | done =>
      rw [stopAfter_nil] at ends
      exact ends ▸ done start
  | more first rest _ ih =>
      cases repeated
      obtain ⟨left, right⟩ := laid_append.1 laid
      rw [stopAfter_append] at ends
      exact more ⟨_, left, rfl, first⟩ ⟨_, right, ends, rest⟩ (ih right ends rfl)
  | _ => cases repeated

/-- A mark stands behind blanks. -/
theorem Occurs.marked {s : String} (occurs : Occurs text (.mark s) start stop items)
    (clear : Clear items) :
    items = [] ∧ (Even text start stop →
      ∃ blank, Blank blank ∧ between text start stop = blank ++ s.toList) := by
  obtain ⟨rfl, gaps, spelled, gap⟩ := occurs.mark clear
  refine ⟨rfl, fun even => ⟨gaps, fun c inside => ?_, spelled⟩⟩
  exact (even c (spelled ▸ List.mem_append_left _ inside)).symm.trans (gap c inside)

namespace OccursAt

/-- Of two rules the first one stands at the first place, or the second one if there is nothing of
the first. -/
theorem sequence (occurs : OccursAt text (.sequence first second) start stop items) :
    (∃ middle front back, items = front ++ back ∧ OccursAt text first start middle front ∧
      Occurs text second middle stop back) ∨
    (first.Derives [] [] ∧ OccursAt text second start stop items) := by
  obtain ⟨token, tokens, place, laid, ends, derives⟩ := occurs
  generalize shape : token :: tokens = all at laid ends derives
  cases derives with
  | @sequence _ _ front others items more before after =>
      cases front with
      | nil =>
          obtain rfl := before.items_nil
          rw [List.nil_append] at shape
          subst shape
          exact .inr ⟨before, token, tokens, place, laid, ends, after⟩
      | cons head front =>
          obtain ⟨rfl, rfl⟩ := List.cons.inj shape
          obtain ⟨left, right⟩ := laid_append.1 laid
          rw [stopAfter_append] at ends
          exact .inl ⟨_, _, _, rfl, ⟨token, front, place, left, rfl, before⟩, _, right, ends, after⟩

theorem optional (occurs : OccursAt text (.optional rule) start stop items) :
    OccursAt text rule start stop items := by
  obtain ⟨token, tokens, place, laid, ends, derives⟩ := occurs
  cases derives with
  | within taken => exact ⟨token, tokens, place, laid, ends, taken⟩

theorem choice (occurs : OccursAt text (.choice first second) start stop items) :
    OccursAt text first start stop items ∨ OccursAt text second start stop items := by
  obtain ⟨token, tokens, place, laid, ends, derives⟩ := occurs
  cases derives with
  | left chosen => exact .inl ⟨token, tokens, place, laid, ends, chosen⟩
  | right chosen => exact .inr ⟨token, tokens, place, laid, ends, chosen⟩

theorem terminal {t : Terminal} (occurs : OccursAt text (.terminal t) start stop items) :
    Spelled (text.drop start) (stop - start) t := by
  obtain ⟨token, tokens, rfl, laid, rfl, derives⟩ := occurs
  cases derives with
  | terminal _ =>
      obtain ⟨-, -, -, -, spelled, -⟩ := laid
      simpa using spelled

theorem node {label : Label} (occurs : OccursAt text (.node label rule) start stop items)
    (clear : Clear items) :
    ∃ extent inner, items = [.node label extent inner] ∧ extent.span.start = start ∧
      extent.span.stop = stop ∧ OccursAt text rule start stop inner := by
  obtain ⟨token, tokens, place, laid, ends, derives⟩ := occurs
  cases derives with
  | @node _ _ _ _ inner inside =>
      have untouched : token.before = [] := Token.before_eq_nil (Item.clear_append.1 clear).1
      have bare := laid.bare
      rw [place] at bare
      refine ⟨⟨⟨token.extent.span.start, stopAfter token.extent.span.stop tokens⟩,
        token.extent.line⟩, inner, by rw [untouched, List.nil_append], place, by simpa using ends,
        token.bare, tokens, place, bare, by simpa using ends, inside⟩

/-- The rule begins with a terminal, which stands at the first place. -/
theorem lead {t : Terminal}
    (occurs : OccursAt text (.sequence (.terminal t) second) start stop items) :
    ∃ middle front back, items = front ++ back ∧ (Clear items → front = []) ∧ start ≤ middle ∧
      Spelled (text.drop start) (middle - start) t ∧ Occurs text second middle stop back := by
  obtain ⟨token, tokens, rfl, laid, ends, derives⟩ := occurs
  generalize shape : token :: tokens = all at laid ends derives
  cases derives with
  | sequence before after =>
      cases before with
      | terminal first =>
          obtain ⟨rfl, rfl⟩ := List.cons.inj shape
          obtain ⟨-, order, -, -, spelled, rest⟩ := laid
          exact ⟨_, _, _, rfl, fun clear => Token.before_eq_nil (Item.clear_append.1 clear).1, order,
            spelled, _, rest, by simpa using ends, after⟩

/-- A mark at the first place. -/
theorem mark {s : String}
    (occurs : OccursAt text (.sequence (.mark s) second) start stop items) :
    ∃ rest, between text start stop = s.toList ++ rest := by
  obtain ⟨middle, _, _, -, -, order, ⟨prefix', size⟩, rest⟩ := occurs.lead
  have spelled : between text start middle = s.toList := by
    rw [between, size]
    exact (List.prefix_iff_eq_take.1 prefix').symm
  exact ⟨between text middle stop, by rw [between_append order rest.le, spelled]⟩

/-- A word at the first place. -/
theorem word {w : String}
    (occurs : OccursAt text (.sequence (.word w) second) start stop items) (clear : Clear items) :
    ∃ middle, start ≤ middle ∧ Text.lower (.ofList (between text start middle)) = w ∧
      Occurs text second middle stop items := by
  obtain ⟨middle, _, _, rfl, bare, order, ⟨-, -, lower⟩, rest⟩ := occurs.lead
  rw [bare clear, List.nil_append]
  exact ⟨middle, order, lower, rest⟩

end OccursAt

/-! ## Nodes -/

/-- The rules of the nodes with a label that a rule makes, given those that the categories make. -/
def bodies (label : Label) (known : Category → List Rule) : Rule → List Rule
  | .empty | .terminal _ => []
  | .category c => known c
  | .sequence first second | .choice first second =>
    first.bodies label known ++ second.bodies label known
  | .optional rule | .eager rule | .many rule => rule.bodies label known
  | .node found rule => if found = label then [rule] else []

/-- The node stands between the places, and is made by one of the rules. -/
def MadeBy (text : List Char) (rules : List Rule) (start stop : Nat) (extent : Extent)
    (inner : List Item) : Prop :=
  ∃ rule ∈ rules, start ≤ extent.span.start ∧ extent.span.stop ≤ stop ∧
    OccursAt text rule extent.span.start extent.span.stop inner

theorem MadeBy.imp {rules others : List Rule} {extent : Extent} {inner : List Item}
    (made : MadeBy text rules start stop extent inner) (subset : rules ⊆ others) {a b : Nat}
    (first : a ≤ start) (last : stop ≤ b) : MadeBy text others a b extent inner :=
  let ⟨rule, listed, before, after, here⟩ := made
  ⟨rule, subset listed, first.trans before, after.trans last, here⟩

/-- **A node** among the items is made by one of the rules of its label. -/
theorem Occurs.node_mem {label : Label} {known : Category → List Rule}
    (occurs : Occurs text rule start stop items)
    (closed : ∀ c, (Grammar.rule c).bodies label known ⊆ known c) {extent : Extent}
    {inner : List Item} (listed : .node label extent inner ∈ items) :
    MadeBy text (rule.bodies label known) start stop extent inner := by
  obtain ⟨tokens, laid, rfl, derives⟩ := occurs
  have trivial' {token : Token} : .node label extent inner ∉ token.before := by
    intro listed
    obtain ⟨found, -, shape⟩ := List.mem_map.1 listed
    cases shape
  induction derives generalizing start with
  | empty | without | passed | done => cases listed
  | terminal token => exact (trivial' listed).elim
  | @category c _ _ _ ih =>
      exact (ih listed laid).imp (closed c) (Nat.le_refl _) (Nat.le_refl _)
  | left _ ih =>
      exact (ih listed laid).imp (List.subset_append_left _ _) (Nat.le_refl _) (Nat.le_refl _)
  | right _ ih =>
      exact (ih listed laid).imp (List.subset_append_right _ _) (Nat.le_refl _) (Nat.le_refl _)
  | within _ ih | eager _ ih => exact ih listed laid
  | sequence _ _ ihBefore ihAfter =>
      obtain ⟨before, after⟩ := laid_append.1 laid
      rw [stopAfter_append]
      rcases List.mem_append.1 listed with here | there
      · exact (ihBefore here before).imp (List.subset_append_left _ _) (Nat.le_refl _) (laid_le after)
      · exact (ihAfter there after).imp (List.subset_append_right _ _) (laid_le before) (Nat.le_refl _)
  | more _ _ ihFirst ihRest =>
      obtain ⟨before, after⟩ := laid_append.1 laid
      rw [stopAfter_append]
      rcases List.mem_append.1 listed with here | there
      · exact (ihFirst here before).imp (List.Subset.refl _) (Nat.le_refl _) (laid_le after)
      · exact (ihRest there after).imp (List.Subset.refl _) (laid_le before) (Nat.le_refl _)
  | @node found rule token tokens items inside _ =>
      rcases List.mem_append.1 listed with before | here
      · exact (trivial' before).elim
      · cases List.mem_singleton.1 here
        refine ⟨rule, by simp [bodies], laid.1, by simp, token.bare, tokens, rfl, laid.bare,
          by simp, inside⟩

/-! ## Lists -/

/-- The text of a part. -/
def partText (text : List Char) (part : Extent × List Item) : List Char :=
  between text part.1.span.start part.1.span.stop

/-- The parts are nodes of the rule between the places. -/
def Parts (text : List Char) (rule : Rule) (start stop : Nat)
    (parts : List (Extent × List Item)) : Prop :=
  ∀ part ∈ parts, start ≤ part.1.span.start ∧ part.1.span.start ≤ part.1.span.stop ∧
    part.1.span.stop ≤ stop ∧ OccursAt text rule part.1.span.start part.1.span.stop part.2

theorem Parts.widen {parts : List (Extent × List Item)} (stand : Parts text rule start stop parts)
    {a b : Nat} (first : a ≤ start) (last : stop ≤ b) : Parts text rule a b parts := by
  intro part listed
  obtain ⟨before, order, after, here⟩ := stand part listed
  exact ⟨first.trans before, order, after.trans last, here⟩

theorem Parts.cons {part : Extent × List Item} {parts : List (Extent × List Item)}
    (first : Parts text rule start stop [part]) (others : Parts text rule start stop parts) :
    Parts text rule start stop (part :: parts) :=
  List.forall_mem_cons.2 ⟨first part (List.mem_singleton_self _), others⟩

def nodes (label : Label) (parts : List (Extent × List Item)) : List Item :=
  parts.map fun part => .node label part.1 part.2

section

variable {label : Label} {body : Rule}
  (inner : ∀ {a b items}, Occurs text rule a b items → Occurs text (.node label body) a b items)
  (opened : body.opens (· != .openingTag) = true)

include inner opened

/-- One part of a list, and the gap before it. -/
theorem Occurs.part (occurs : Occurs text rule start stop items) (clear : Clear items) :
    ∃ part, items = nodes label [part] ∧ Parts text body start stop [part] ∧
      (Even text start stop →
        ∃ blank, Blank blank ∧ between text start stop = blank ++ partText text part) := by
  obtain ⟨extent, parts, rfl, before, rfl, inside, gap⟩ := (inner occurs).clear_node clear opened
  have order := inside.occurs.le
  refine ⟨(extent, parts), rfl, ?_, fun even => ⟨_, (even.sub (Nat.le_refl _) order).blank gap,
    between_append before order⟩⟩
  intro part listed
  rw [List.mem_singleton.1 listed]
  exact ⟨before, order, Nat.le_refl _, inside⟩

/-- The parts of a list behind its first one. -/
theorem Occurs.commaTail
    (occurs : Occurs text (.many (.sequence (.mark ",") rule)) start stop items)
    (clear : Clear items) :
    ∃ parts, items = nodes label parts ∧ Parts text body start stop parts ∧
      (Even text start stop → ∀ before first, Blank before →
        Listed (before ++ first ++ between text start stop)
          (first :: parts.map (partText text))) := by
  refine occurs.many_induction (motive := fun start stop items => Clear items →
    ∃ parts, items = nodes label parts ∧ Parts text body start stop parts ∧
      (Even text start stop → ∀ before first, Blank before →
        Listed (before ++ first ++ between text start stop)
          (first :: parts.map (partText text)))) ?_ ?_ clear
  · intro place _
    refine ⟨[], rfl, fun _ listed => absurd listed List.not_mem_nil, fun _ before first blank => ?_⟩
    rw [between_self]
    exact .last blank Blank.nil
  · intro start middle stop front back here rest ih clear
    obtain ⟨clearFront, clearBack⟩ := Item.clear_append.1 clear
    obtain ⟨comma, _, _, rfl, mark, one⟩ := here.sequence
    obtain ⟨clearMark, clearOne⟩ := Item.clear_append.1 clearFront
    obtain ⟨rfl, marked⟩ := mark.marked clearMark
    obtain ⟨part, rfl, stands, partial'⟩ := one.part inner opened clearOne
    obtain ⟨parts, rfl, others, listed⟩ := ih clearBack
    refine ⟨part :: parts, rfl, (stands.widen mark.le rest.le).cons
      (others.widen here.le (Nat.le_refl stop)), fun even before first blank => ?_⟩
    obtain ⟨blank', all, shape⟩ := partial' (even.sub mark.le rest.le)
    obtain ⟨gaps, gaps', spelled⟩ := marked (even.sub (Nat.le_refl start) (one.le.trans rest.le))
    have next := listed (even.sub here.le (Nat.le_refl stop)) blank' (partText text part) all
    have whole : Listed (before ++ first ++ gaps ++ ',' ::
        (blank' ++ partText text part ++ between text middle stop)) _ := .cons blank gaps' next
    rw [between_append here.le rest.le, between_append mark.le one.le, spelled, shape]
    simpa using whole

/-- **A list** has commas between its parts. -/
theorem Occurs.commaList (occurs : Occurs text (commaList rule) start stop items)
    (clear : Clear items) :
    ∃ parts, parts ≠ [] ∧ items = nodes label parts ∧ Parts text body start stop parts ∧
      (Even text start stop → Listed (between text start stop) (parts.map (partText text))) := by
  obtain ⟨middle, _, _, rfl, one, rest⟩ := occurs.sequence
  obtain ⟨clearOne, clearRest⟩ := Item.clear_append.1 clear
  obtain ⟨part, rfl, stands, partial'⟩ := one.part inner opened clearOne
  obtain ⟨parts, rfl, others, listed⟩ := rest.commaTail inner opened clearRest
  refine ⟨part :: parts, by simp, rfl, (stands.widen (Nat.le_refl _) rest.le).cons
    (others.widen one.le (Nat.le_refl _)), fun even => ?_⟩
  obtain ⟨blank, all, shape⟩ := partial' (even.sub (Nat.le_refl _) rest.le)
  rw [between_append one.le rest.le, shape]
  exact listed (even.sub one.le (Nat.le_refl _)) blank _ all

end

end Rule

/-! ## Names -/

/-- The terminal is spelled by one name. -/
def Terminal.isName : Terminal → Bool
  | .word _ | .spelled _ | .name => true
  | _ => false

namespace Scan

/-- A name ends at the place. -/
structure Named (text : List Char) (place : Nat) : Prop where
  last : ∃ c ∈ (text.take place).getLast?, Lexeme.isNameChar c = true
  parted : Parted text place

/-- Between two names there is a gap. -/
theorem Parted.ne_nil {text gaps chars : List Char} {a b : Nat} (parted : Parted text a)
    (split : between text a b = gaps ++ chars) (nonempty : chars ≠ [])
    (names : ∀ c ∈ chars, Lexeme.isNameChar c = true) : gaps ≠ [] := by
  rintro rfl
  obtain ⟨c, chars, rfl⟩ := List.exists_cons_of_ne_nil nonempty
  have next : (text.drop a).head? = some c := by
    obtain ⟨rest, whole⟩ : between text a b <+: text.drop a := List.take_prefix _ _
    rw [← whole, split]
    rfl
  have name := names c List.mem_cons_self
  rw [parted c next] at name
  cases name

/-- A name is made of the characters of names, and it ends where it can. -/
theorem Spelled.named {text : List Char} {start stop : Nat} {t : Terminal}
    (spelled : Spelled (text.drop start) (stop - start) t) (name : t.isName = true)
    (order : start ≤ stop) :
    between text start stop ≠ [] ∧ (∀ c ∈ between text start stop, Lexeme.isNameChar c = true) ∧
      Named text stop := by
  have size : 0 < stop - start ∧ stop - start = Lexeme.nameSize (text.drop start) := by
    cases t with
    | word _ | spelled _ => exact ⟨spelled.1, spelled.2.1⟩
    | name => exact spelled
    | _ => cases name
  obtain ⟨chars, next⟩ := Lexeme.nameSize_spec (size.2 ▸ size.1)
  rw [← size.2] at chars next
  rw [List.drop_drop, Nat.add_sub_cancel' order] at next
  have nonempty : between text start stop ≠ [] := by
    intro empty
    have bound := Lexeme.local_nameSize.le (text.drop start)
    have length := congrArg List.length empty
    rw [between, List.length_take, List.length_nil] at length
    omega
  refine ⟨nonempty, chars, ⟨(between text start stop).getLast nonempty, ?_,
    chars _ (List.getLast_mem nonempty)⟩, next⟩
  rw [getLast?_between order nonempty, List.getLast?_eq_some_getLast nonempty]
  rfl

end Scan

namespace Rule

variable {text : List Char} {rule : Rule} {start stop : Nat} {items : List Item}

theorem Occurs.named {t : Terminal} (occurs : Occurs text (.terminal t) start stop items)
    (clear : Clear items) (name : t.isName = true) : Named text stop := by
  obtain ⟨-, place, before, order, -, -, spelled⟩ := occurs.terminal clear
  exact (spelled.named name order).2.2

/-- Rules that stand for one name. -/
def isWord (known : Category → Bool) : Rule → Bool
  | .terminal t => t.isName
  | .category c => known c
  | .choice left right => left.isWord known && right.isWord known
  | _ => false

theorem Derives.isWord {known : Category → Bool} {tokens : List Token}
    (derives : rule.Derives tokens items)
    (closed : ∀ c, known c = true → (Grammar.rule c).isWord known = true)
    (word : rule.isWord known = true) :
    ∃ token, tokens = [token] ∧ token.terminal.isName = true := by
  induction derives with
  | terminal token => exact ⟨token, rfl, word⟩
  | category _ ih => exact ih (closed _ word)
  | left _ ih => exact ih (Bool.and_eq_true_iff.1 word).1
  | right _ ih => exact ih (Bool.and_eq_true_iff.1 word).2
  | _ => cases word

/-- The category of words that cannot name a class. -/
def isReserved (c : Category) : Bool := c == .reserved

/-- **One name** at the first place. -/
theorem OccursAt.name (occurs : OccursAt text rule start stop items)
    (word : rule.isWord isReserved = true) :
    between text start stop ≠ [] ∧ (∀ c ∈ between text start stop, Lexeme.isNameChar c = true) ∧
      Named text stop := by
  have closed : ∀ c, isReserved c = true → (Grammar.rule c).isWord isReserved = true := by
    intro c reserved
    obtain rfl := eq_of_beq reserved
    decide +kernel
  obtain ⟨token, tokens, rfl, laid, rfl, derives⟩ := occurs
  obtain ⟨other, single, name⟩ := derives.isWord closed word
  obtain ⟨rfl, rfl⟩ := List.cons.inj single
  obtain ⟨-, order, -, -, spelled, -⟩ := laid
  exact spelled.named name order

/-- A path ends with a name. -/
theorem Occurs.path_named (occurs : Occurs text Grammar.path start stop items)
    (clear : Clear items) : Named text stop := by
  obtain ⟨_, _, _, rfl, -, rest⟩ := occurs.sequence
  obtain ⟨_, _, _, rfl, first, more⟩ := rest.sequence
  obtain ⟨-, clear⟩ := Item.clear_append.1 clear
  obtain ⟨clearFirst, clearMore⟩ := Item.clear_append.1 clear
  refine more.many_induction (motive := fun a b items => Clear items → Named text a →
    Named text b) (fun _ _ named => named) (fun here _ ih clear _ => ?_) clearMore
    (first.named clearFirst rfl)
  obtain ⟨clearFront, clearBack⟩ := Item.clear_append.1 clear
  obtain ⟨_, _, _, rfl, -, name⟩ := here.sequence
  exact ih clearBack (name.named (Item.clear_append.1 clearFront).2 rfl)

theorem Occurs.className_named (occurs : Occurs text (.category .className) start stop items)
    (clear : Clear items) : Named text stop := by
  rcases occurs.category.choice with reserved | name
  · rcases reserved.category.choice with self | other
    · exact self.named clear rfl
    · rcases other.choice with parent | static
      · exact parent.named clear rfl
      · exact static.named clear rfl
  · exact name.category.path_named clear

/-! ## Written texts -/

/-- The characters of names, variables and types. -/
def isCode (c : Char) : Bool :=
  Lexeme.isNameChar c || ['\\', '?', '|', '&', '(', ')', '$'].contains c

/-- The categories of names and types. -/
def isSpelled (c : Category) : Bool :=
  [.type, .simpleType, .className, .qualifiedName, .reserved].contains c

theorem isGap_of_isCode {c : Char} (code : isCode c = true) : Lexeme.isGap c = false := by
  rcases Bool.or_eq_true_iff.1 code with name | mark
  · exact Lexeme.isGap_of_isNameChar name
  · have ink : ['\\', '?', '|', '&', '(', ')', '$'].all (!Lexeme.isGap ·) = true := by decide
    have dark := List.all_eq_true.1 ink c (List.contains_iff_mem.1 mark)
    rwa [Bool.not_eq_true'] at dark

/-- **Names, variables and types** have no blanks at their ends, and no other characters than
theirs and blanks. -/
theorem OccursAt.written (occurs : OccursAt text rule start stop items) (clear : Clear items)
    (even : Even text start stop)
    (made : rule.consists (Terminal.isWritten isCode) isSpelled = true) :
    Inked (between text start stop) ∧
      ∀ c, isCode c = false → isBlank c = false → c ∉ between text start stop := by
  have names : ∀ c, Lexeme.isNameChar c = true → isCode c = true :=
    fun c name => by rw [isCode, name, Bool.true_or]
  have closed : ∀ c, isSpelled c = true →
      (Grammar.rule c).consists (Terminal.isWritten isCode) isSpelled = true := by
    intro c known
    have each : ∀ c ∈ [Category.type, .simpleType, .className, .qualifiedName, .reserved],
        (Grammar.rule c).consists (Terminal.isWritten isCode) isSpelled = true := by
      decide +kernel
    exact each c (List.contains_iff_mem.1 known)
  constructor
  · obtain ⟨⟨first, begins, code⟩, last, ends, code'⟩ := occurs.enclosed names closed made
    rw [String.toList_ofList] at begins ends
    have ink {c : Char} (inside : c ∈ between text start stop) (code : isCode c = true) :
        isBlank c = false := (even c inside).symm.trans (isGap_of_isCode code)
    refine ⟨⟨first, by rwa [String.toList_ofList], ink (List.mem_of_mem_head? begins) code⟩, last,
      by rwa [String.toList_ofList], ink (List.mem_of_getLast? ends) code'⟩
  · intro c other ink inside
    rcases occurs.all names closed made clear c inside with code | gap
    · rw [other] at code
      cases code
    · rw [even c inside, ink] at gap
      cases gap

/-- The categories of names, types and modifiers. -/
def isPlainCategory (c : Category) : Bool :=
  [.modifier, .visibility, .type, .simpleType, .className, .qualifiedName, .reserved].contains c

/-- Rules of names, types and modifiers make no nodes. -/
theorem Occurs.items_eq_nil (occurs : Occurs text rule start stop items) (clear : Clear items)
    (made : rule.consists (fun _ => true) isPlainCategory = true) : items = [] := by
  have closed : ∀ c, isPlainCategory c = true →
      (Grammar.rule c).consists (fun _ => true) isPlainCategory = true := by
    intro c known
    have each : ∀ c ∈ [Category.modifier, .visibility, .type, .simpleType, .className,
        .qualifiedName, .reserved],
        (Grammar.rule c).consists (fun _ => true) isPlainCategory = true := by
      decide +kernel
    exact each c (List.contains_iff_mem.1 known)
  obtain ⟨tokens, -, -, derives⟩ := occurs
  exact (derives.clear closed made clear).1

/-- The end of a statement. -/
theorem Occurs.semicolon (occurs : Occurs text (.category .semicolon) start stop items)
    (clear : Clear items) :
    items = [] ∧ (Even text start stop → Declaration.Ending (between text start stop)) := by
  rcases occurs.category.choice with mark | implied
  · obtain ⟨rfl, marked⟩ := mark.marked clear
    refine ⟨rfl, fun even => ?_⟩
    obtain ⟨blank, all, spelled⟩ := marked even
    rw [spelled]
    exact .semicolon all
  · obtain ⟨rfl, place, before, order, -, gap, size⟩ := implied.terminal clear
    obtain rfl : place = stop := Nat.le_antisymm order (Nat.sub_eq_zero_iff_le.1 size)
    exact ⟨rfl, fun even => .implied (even.blank (gap nofun))⟩

end Rule

end Emend

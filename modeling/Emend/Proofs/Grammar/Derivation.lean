import Emend.Source.Tree

/-!
# Derivations

`Rule.Derives` says which sequences of tokens a rule stands for, and which items of the syntax tree
it makes of them: the nodes of the rule, and the trivia that stand before the tokens. Trivia before
the first token of a node stand outside of the node.

Reading goes through a rule from left to right, and at each place there is a list of goals left.
`Scan.Leads` says which goals can be left after some tokens and what was recorded on the way to
them. The main statement is `Scan.Leads.derives`: when no goal is left, the rule derives the tokens,
and the items are those that were recorded.
-/

set_option autoImplicit false

namespace Emend

namespace Scan

/-- A token as it was read: what it was taken for, where it stands, and the trivia before it, latest
first. -/
structure Token where
  terminal : Terminal
  extent : Extent
  trivia : List Trivia
  deriving DecidableEq

namespace Token

variable (token : Token)

/-- The token without the trivia before it. -/
def bare : Token := { token with trivia := [] }

/-- The items that stand before the token. -/
def before : List Item := token.trivia.reverse.map .trivia

@[simp] theorem bare_bare : token.bare.bare = token.bare := rfl

@[simp] theorem bare_before : token.bare.before = [] := rfl

@[simp] theorem bare_terminal : token.bare.terminal = token.terminal := rfl

@[simp] theorem bare_extent : token.bare.extent = token.extent := rfl

end Token

/-- Where the last token ends; `stop` where there is none. -/
def stopAfter (stop : Nat) (tokens : List Token) : Nat :=
  (tokens.getLast?.map (·.extent.span.stop)).getD stop

@[simp] theorem stopAfter_nil (stop : Nat) : stopAfter stop [] = stop := rfl

@[simp] theorem stopAfter_cons (stop : Nat) (token : Token) (tokens : List Token) :
    stopAfter stop (token :: tokens) = stopAfter token.extent.span.stop tokens := by
  cases tokens with
  | nil => rfl
  | cons next rest => simp [stopAfter, List.getLast?_cons]

@[simp] theorem stopAfter_append (stop : Nat) (tokens others : List Token) :
    stopAfter stop (tokens ++ others) = stopAfter (stopAfter stop tokens) others := by
  induction tokens generalizing stop with
  | nil => rfl
  | cons token tokens ih => rw [List.cons_append, stopAfter_cons, ih, stopAfter_cons]

end Scan

open Scan (Token stopAfter)

namespace Rule

/-- The rule stands for the tokens, of which it makes the items. -/
inductive Derives : Rule → List Token → List Item → Prop
  | empty : Derives .empty [] []
  | terminal (token : Token) : Derives (.terminal token.terminal) [token] token.before
  | category {c : Category} {tokens : List Token} {items : List Item}
      (inside : Derives (Grammar.rule c) tokens items) : Derives (.category c) tokens items
  | sequence {first second : Rule} {tokens others : List Token} {items more : List Item}
      (before : Derives first tokens items) (after : Derives second others more) :
      Derives (.sequence first second) (tokens ++ others) (items ++ more)
  | left {left right : Rule} {tokens : List Token} {items : List Item}
      (chosen : Derives left tokens items) : Derives (.choice left right) tokens items
  | right {left right : Rule} {tokens : List Token} {items : List Item}
      (chosen : Derives right tokens items) : Derives (.choice left right) tokens items
  | without {rule : Rule} : Derives (.optional rule) [] []
  | within {rule : Rule} {tokens : List Token} {items : List Item}
      (taken : Derives rule tokens items) : Derives (.optional rule) tokens items
  | passed {rule : Rule} : Derives (.eager rule) [] []
  | eager {rule : Rule} {tokens : List Token} {items : List Item}
      (taken : Derives rule tokens items) : Derives (.eager rule) tokens items
  | done {rule : Rule} : Derives (.many rule) [] []
  | more {rule : Rule} {tokens others : List Token} {items more : List Item}
      (first : Derives rule tokens items) (rest : Derives (.many rule) others more) :
      Derives (.many rule) (tokens ++ others) (items ++ more)
  | node {label : Label} {rule : Rule} {token : Token} {tokens : List Token} {items : List Item}
      (inside : Derives rule (token.bare :: tokens) items) :
      Derives (.node label rule) (token :: tokens) (token.before ++ [.node label
        ⟨⟨token.extent.span.start, stopAfter token.extent.span.stop tokens⟩, token.extent.line⟩
        items])

/-- What can be skipped stands for no tokens. -/
theorem derives_nil {rule : Rule} (skips : rule.skippable = true) : Derives rule [] [] := by
  induction rule with
  | empty => exact .empty
  | terminal _ | category _ | choice _ _ | node _ _ => cases skips
  | sequence first second ihFirst ihSecond =>
      rw [skippable, Bool.and_eq_true] at skips
      exact .sequence (ihFirst skips.1) (ihSecond skips.2)
  | optional _ => exact .without
  | eager _ => exact .passed
  | many _ => exact .done

/-- No tokens make no items. -/
theorem Derives.items_nil {rule : Rule} {items : List Item} (derives : Derives rule [] items) :
    items = [] := by
  generalize given : [] = tokens at derives
  induction derives with
  | empty | without | passed | done => rfl
  | terminal _ | node _ _ => cases given
  | category _ ih | left _ ih | right _ ih | within _ ih | eager _ ih => exact ih given
  | sequence _ _ ihBefore ihAfter =>
      obtain ⟨first, last⟩ := List.append_eq_nil_iff.1 given.symm
      rw [ihBefore first.symm, ihAfter last.symm, List.append_nil]
  | more _ _ ihFirst ihRest =>
      obtain ⟨first, last⟩ := List.append_eq_nil_iff.1 given.symm
      rw [ihFirst first.symm, ihRest last.symm, List.append_nil]

/-- Trivia before the first token stand before the items. -/
theorem Derives.lead {rule : Rule} {token : Token} {tokens : List Token} {items : List Item}
    (derives : Derives rule (token.bare :: tokens) items) :
    Derives rule (token :: tokens) (token.before ++ items) := by
  generalize given : token.bare :: tokens = all at derives
  induction derives generalizing tokens with
  | empty | without | passed | done => cases given
  | terminal other =>
      obtain ⟨rfl, rfl⟩ := List.cons.inj given
      simpa using Derives.terminal token
  | category _ ih => exact .category (ih given)
  | @sequence _ _ front _ _ _ before after ihBefore ihAfter =>
      cases front with
      | nil =>
          obtain rfl := before.items_nil
          exact .sequence before (ihAfter given)
      | cons _ front =>
          obtain ⟨rfl, rfl⟩ := List.cons.inj given
          rw [← List.append_assoc]
          exact .sequence (ihBefore rfl) after
  | left _ ih => exact .left (ih given)
  | right _ ih => exact .right (ih given)
  | within _ ih => exact .within (ih given)
  | eager _ ih => exact .eager (ih given)
  | @more _ front _ _ _ first rest ihFirst ihRest =>
      cases front with
      | nil =>
          obtain rfl := first.items_nil
          exact .more first (ihRest given)
      | cons _ front =>
          obtain ⟨rfl, rfl⟩ := List.cons.inj given
          rw [← List.append_assoc]
          exact .more (ihFirst rfl) rest
  | node inside ih =>
      obtain ⟨rfl, rfl⟩ := List.cons.inj given
      exact .node inside

end Rule

end Emend

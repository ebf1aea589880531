import Emend.Proofs.Grammar.Phrases

/-!
# Trait uses and imports of a syntax tree

What a trait use and an import declare is said by the nodes of the syntax tree: the names of the
traits (`traitNames`), and the kinds, names and aliases of the clauses (`declaredImports`). The
library reads both from the text of the whole statement. It finds there what the nodes say if the
statement is plain: no comment stands in it, `use` is written in small letters, and no word is
taken for the kind of an import that is none (`traitUses_plain`, `imports_plain`).
-/

set_option autoImplicit false

namespace Emend

open Scan
open Text (Blank Inked Listed Spaced isBlank)
open Item (Clear)
open Rule (Occurs OccursAt Parts partText nodes isCode)

/-! ## Nodes -/

/-- Labels of nodes the text of which is kept as it stands. -/
def Label.isKept : Label → Bool
  | .attributes | .body | .adaptations | .elementValue | .parameters | .literal => true
  | _ => false

namespace Item

mutual

/-- Whether the item is a node without trivia in it, up to nodes the text of which is kept. -/
def isPlain : Item → Bool
  | .trivia _ => false
  | .node label _ items => label.isKept || arePlain items

def arePlain : List Item → Bool
  | [] => true
  | item :: items => isPlain item && arePlain items

end

theorem arePlain_cons {item : Item} {items : List Item} :
    arePlain (item :: items) = true ↔ item.isPlain = true ∧ arePlain items = true := by
  rw [arePlain, Bool.and_eq_true]

theorem arePlain_append {items others : List Item} :
    arePlain (items ++ others) = true ↔ arePlain items = true ∧ arePlain others = true := by
  induction items with
  | nil => simp [arePlain]
  | cons item items ih =>
      simp only [List.cons_append, arePlain, Bool.and_eq_true, ih, and_assoc]

theorem isPlain_of_mem {items : List Item} (plain : arePlain items = true) {item : Item}
    (listed : item ∈ items) : item.isPlain = true := by
  induction items with
  | nil => cases listed
  | cons first items ih =>
      obtain ⟨here, later⟩ := arePlain_cons.1 plain
      rcases List.mem_cons.1 listed with rfl | there
      · exact here
      · exact ih later there

theorem clear_of_arePlain {items : List Item} (plain : arePlain items = true) : Clear items := by
  intro found listed
  have one := isPlain_of_mem plain listed
  rw [isPlain] at one
  cases one

/-- What is in a node that is not kept is plain, too. -/
theorem arePlain_of_mem {items inner : List Item} (plain : arePlain items = true) {label : Label}
    {extent : Extent} (listed : .node label extent inner ∈ items) (read : label.isKept = false) :
    arePlain inner = true := by
  have one := isPlain_of_mem plain listed
  rwa [isPlain, read, Bool.false_or] at one

end Item

open Item (arePlain)

namespace Declaration

/-! ## Texts of nodes -/

def textOf (text : List Char) (extent : Extent) : String :=
  .ofList (between text extent.span.start extent.span.stop)

/-- The nodes with a label: their extents, and what is in them. -/
def parts (label : Label) (items : List Item) : List (Extent × List Item) :=
  items.filterMap fun
    | .trivia _ => none
    | .node found extent inner => if found = label then some (extent, inner) else none

def extents (label : Label) (items : List Item) : List Extent := (parts label items).map (·.1)

def inners (label : Label) (items : List Item) : List (List Item) := (parts label items).map (·.2)

/-- The text of the first node with a label. -/
def text? (text : List Char) (label : Label) (items : List Item) : Option String :=
  (extents label items).head?.map (textOf text)

section

variable {label other : Label} {extent : Extent} {inner items others : List Item}
  {listed : List (Extent × List Item)}

theorem parts_cons :
    parts label (.node other extent inner :: items) =
      if other = label then (extent, inner) :: parts label items else parts label items := by
  by_cases same : other = label <;> simp [parts, same]

theorem parts_nodes :
    parts label (nodes other listed) = if other = label then listed else [] := by
  by_cases same : other = label <;> simp [parts, nodes, same, List.filterMap_map]

theorem mem_parts {part : Extent × List Item} :
    part ∈ parts label items ↔ .node label part.1 part.2 ∈ items := by
  obtain ⟨extent, inner⟩ := part
  simp only [parts, List.mem_filterMap]
  constructor
  · rintro ⟨item, listed, found⟩
    cases item with
    | trivia _ => cases found
    | node other extent' inner' =>
        simp only [Option.ite_none_right_eq_some, Option.some.injEq, Prod.mk.injEq] at found
        obtain ⟨rfl, rfl, rfl⟩ := found
        exact listed
  · exact fun listed => ⟨_, listed, by simp⟩

@[simp] theorem extents_nil : extents label [] = [] := rfl

@[simp] theorem inners_nil : inners label [] = [] := rfl

@[simp] theorem extents_append :
    extents label (items ++ others) = extents label items ++ extents label others := by
  simp [extents, parts]

@[simp] theorem inners_append :
    inners label (items ++ others) = inners label items ++ inners label others := by
  simp [inners, parts]

@[simp] theorem extents_cons :
    extents label (.node other extent inner :: items) =
      if other = label then extent :: extents label items else extents label items := by
  rw [extents, parts_cons]
  split <;> rfl

@[simp] theorem inners_cons :
    inners label (.node other extent inner :: items) =
      if other = label then inner :: inners label items else inners label items := by
  rw [inners, parts_cons]
  split <;> rfl

@[simp] theorem extents_nodes :
    extents label (nodes other listed) = if other = label then listed.map (·.1) else [] := by
  rw [extents, parts_nodes]
  split <;> rfl

@[simp] theorem inners_nodes :
    inners label (nodes other listed) = if other = label then listed.map (·.2) else [] := by
  rw [inners, parts_nodes]
  split <;> rfl

end

/-- A keyword that is spelled as the library spells it. -/
theorem keyword_spelled {cs rest : List Char} {w : String} (lower : Text.lower (.ofList cs) = w)
    (here : cs <+: rest) (spelled : w.toList <+: rest) : cs = w.toList := by
  have length : cs.length = w.toList.length := by
    rw [← lower, Text.toList_lower, String.toList_ofList, List.length_map]
  exact (List.prefix_of_prefix_length_le here spelled length.le).eq_of_length length

/-! ## Trait uses -/

/-- The names in a trait use. -/
def traitNames (text : List Char) (items : List Item) : List String :=
  (extents .traitName items).map (textOf text)

/-- The end of the names of a trait use: its block, or its end. -/
def namesStop (items : List Item) (stop : Nat) : Nat :=
  ((extents .adaptations items).head?.map (·.span.start)).getD stop

/-- A trait use that is read as it is meant. -/
structure PlainUse (text : List Char) (span : Span) (items : List Item) : Prop where
  plain : arePlain items = true
  even : Even text span.start (namesStop items span.stop)
  keyword : "use".toList <+: text.drop span.start

/-- How a trait use ends: with a block, or as any statement. -/
def useEnd : Rule :=
  .any [.node .adaptations (.braces (.many (.category .adaptation))), .category .semicolon]

def useRule : Rule :=
  .all [.word "use", .commaList (.node .traitName (.category .className)), useEnd]

theorem between_leads (text : List Char) (a b : Nat) : between text a b <+: text.drop a :=
  List.take_prefix _ _

theorem tail_of_useEnd {text : List Char} {a b : Nat} {items : List Item}
    (occurs : Occurs text useEnd a b items) (clear : Clear items) :
    extents .traitName items = [] ∧ a ≤ namesStop items b ∧
      (Even text a (namesStop items b) → Tail (between text a b)) := by
  rcases occurs.choice with block | ends
  · obtain ⟨extent, inner, rfl, before, rfl, braces, gap⟩ := block.clear_node clear rfl
    have stop : namesStop [.node .adaptations extent inner] extent.span.stop = extent.span.start := by
      simp [namesStop]
    refine ⟨by simp, by rwa [stop], fun even => ?_⟩
    rw [stop] at even
    obtain ⟨rest, opens⟩ := braces.mark
    rw [between_append before braces.occurs.le, opens]
    exact .block (even.blank gap) rest
  · obtain ⟨rfl, ending⟩ := ends.semicolon clear
    exact ⟨rfl, ends.le, fun even => .ending (ending even)⟩

/-- **The names of a trait use** are those that are read. -/
theorem traitUses_plain {text : List Char} {span : Span} {items : List Item}
    (occurs : OccursAt text useRule span.start span.stop items) (plain : PlainUse text span items) :
    (traitUses (.ofList (between text span.start span.stop))).map TraitUse.name =
      traitNames text items := by
  obtain ⟨plain, even, keyword⟩ := plain
  have clear := Item.clear_of_arePlain plain
  obtain ⟨first, before, lower, rest⟩ := occurs.word clear
  obtain ⟨second, _, back, rfl, list, last⟩ := rest.sequence
  obtain ⟨clearList, clearLast⟩ := Item.clear_append.1 clear
  obtain ⟨parts, -, rfl, stand, listed⟩ := list.commaList id rfl clearList
  obtain ⟨unnamed, order, tail⟩ := tail_of_useEnd last clearLast
  have spelled := keyword_spelled lower (between_leads _ _ _) keyword
  have stop : namesStop (nodes .traitName parts ++ back) span.stop = namesStop back span.stop := by
    simp [namesStop]
  rw [stop] at even
  have evenNames := even.sub before order
  have names : ∀ part ∈ parts, Inked (partText text part) ∧
      ∀ c, isCode c = false → isBlank c = false → c ∉ partText text part := by
    intro part inside
    obtain ⟨after, -, until', here⟩ := stand part inside
    have node : .node .traitName part.1 part.2 ∈ nodes .traitName parts ++ back :=
      List.mem_append_left _ (List.mem_map_of_mem inside)
    exact here.written (Item.clear_of_arePlain (Item.arePlain_of_mem plain node rfl))
      (evenNames.sub after until') (by decide)
  have whole : between text span.start span.stop =
      "use".toList ++ (between text first second ++ between text second span.stop) := by
    rw [between_append before (list.le.trans last.le), between_append list.le last.le, spelled]
  have free {c : Char} (other : isCode c = false) (ink : isBlank c = false) :
      ∀ name ∈ parts.map (partText text), c ∉ name :=
    List.forall_mem_map.2 fun part inside => (names part inside).2 c other ink
  have ends := tail (even.sub (before.trans list.le) (Nat.le_refl _))
  rw [whole, traitUses_names (listed evenNames) ?_ ?_ ends]
  · simp [traitNames, unnamed, textOf, partText, Function.comp_def]
  · exact List.forall_mem_map.2 fun part inside =>
      ⟨(names part inside).1, (names part inside).2 _ (by decide) (by decide)⟩
  · exact fun name inside =>
      ⟨free (by decide) (by decide) name inside, free (by decide) (by decide) name inside⟩

/-! ## Clauses of imports -/

/-- What a clause declares. -/
def clauseParts (text : List Char) (items : List Item) : ClauseParts where
  kind := (text? text .importKind items).bind kindOf?
  name := (text? text .importName items).getD ""
  alias_ := text? text .importAlias items

/-- A clause that is read as it is meant: its name has no blanks, and is told from a kind. -/
structure PlainClause (text : List Char) (items : List Item) : Prop where
  name : ∀ c ∈ (clauseParts text items).name.toList, isBlank c = false
  kind : (clauseParts text items).kind = none → kindOf? (clauseParts text items).name = none
  apart : ∀ kind ∈ extents .importKind items, ∀ name ∈ extents .importName items,
    kind.span.stop < name.span.start

/-- The rule of a clause. -/
def clauseRule (name localName : Rule) : Rule :=
  .all [Grammar.importKind, .node .importName name, Grammar.importAlias localName]

/-- The words stand in the text, and they are names or paths. -/
def WordsIn (words : List (List Char)) (text : List Char) : Prop :=
  Spaced words text ∧ ∀ word ∈ words, ∀ c ∈ word, isCode c = true

theorem WordsIn.not_mem {words : List (List Char)} {text : List Char} (stand : WordsIn words text)
    {c : Char} (other : isCode c = false) (ink : isBlank c = false) : c ∉ text :=
  stand.1.not_mem ink fun word listed inside => by
    rw [stand.2 word listed c inside] at other
    cases other

theorem isCode_of_isNameChar {c : Char} (name : Lexeme.isNameChar c = true) : isCode c = true := by
  rw [isCode, name, Bool.true_or]

section

variable {text : List Char} {a b : Nat} {items : List Item}

/-- A name, and the alias behind it. -/
theorem target_of_alias {name : List Char} {localName : Rule} (kind : Option ImportKind)
    (occurs : Occurs text (Grammar.importAlias localName) a b items)
    (plain : arePlain items = true) (even : Even text a b) (parted : Parted text a)
    (named : localName.isWord Rule.isReserved = true)
    (opened : localName.opens (· != .openingTag) = true) (present : name ≠ [])
    (code : ∀ c ∈ name, isCode c = true) (ink : ∀ c ∈ name, isBlank c = false) :
    extents .importKind items = [] ∧ extents .importName items = [] ∧
      ∃ words, ClauseParts.Target ⟨kind, .ofList name, text? text .importAlias items⟩ words ∧
        WordsIn words (name ++ between text a b) := by
  have clear := Item.clear_of_arePlain plain
  rcases occurs.optional with ⟨rfl, rfl⟩ | taken
  · refine ⟨rfl, rfl, [name], ?_, ?_, by simpa using code⟩
    · have target : ClauseParts.Target ⟨kind, .ofList name, none⟩ [(String.ofList name).toList] :=
        .plain rfl
      rwa [String.toList_ofList] at target
    · rw [between_self, List.append_nil]
      exact .one ink present
  · obtain ⟨middle, front, back, rfl, word, node⟩ := taken.sequence
    obtain ⟨clearWord, clearNode⟩ := Item.clear_append.1 clear
    obtain ⟨rfl, gaps, chars, spelled, gap, names, nonempty, lower, parted'⟩ := word.word clearWord
    obtain ⟨extent, inner, rfl, before, rfl, here, gap'⟩ := node.clear_node clearNode opened
    obtain ⟨nonempty', names', -⟩ := here.name named
    have evenWord := even.sub (Nat.le_refl a) (before.trans here.occurs.le)
    have evenGap := even.sub word.le here.occurs.le
    have evenName := even.sub (word.le.trans before) (Nat.le_refl _)
    refine ⟨by simp, by simp, [name, chars, between text extent.span.start extent.span.stop],
      ?_, ?_, ?_⟩
    · have target : ClauseParts.Target ⟨kind, .ofList name, some (textOf text extent)⟩
          [(String.ofList name).toList, chars, (textOf text extent).toList] :=
        .renamed rfl (by rw [Text.sameIgnoringCase_iff, lower]; decide)
      simpa [text?, textOf] using target
    · have blank : Blank gaps := fun c inside =>
        (evenWord c (spelled ▸ List.mem_append_left _ inside)).symm.trans (gap c inside)
      have plainChars : ∀ c ∈ chars, isBlank c = false := fun c inside =>
        evenWord.ink (spelled ▸ List.mem_append_right _ inside) (names c inside)
      have plainName : ∀ c ∈ between text extent.span.start extent.span.stop, isBlank c = false :=
        fun c inside => evenName.ink inside (names' c inside)
      have apart : between text middle extent.span.start ≠ [] :=
        parted'.ne_nil (between_append before here.occurs.le) nonempty' names'
      have last := Spaced.cons plainChars nonempty (evenGap.blank gap') apart
        (.one plainName nonempty')
      have whole := Spaced.cons ink present blank (parted.ne_nil spelled nonempty names) last
      rw [between_append word.le (before.trans here.occurs.le), spelled,
        between_append before here.occurs.le]
      simpa using whole
    · refine List.forall_mem_cons.2 ⟨code, List.forall_mem_cons.2 ⟨fun c inside =>
        isCode_of_isNameChar (names c inside), List.forall_mem_singleton.2 fun c inside =>
        isCode_of_isNameChar (names' c inside)⟩⟩

/-- The word of a kind is one. -/
theorem kindOf?_word (occurs : OccursAt text (.words ["function", "const"]) a b items) :
    ∃ kind, kindOf? (.ofList (between text a b)) = some kind := by
  have same {w : String} (occurs : OccursAt text (.word w) a b items) :
      Text.lower (.ofList (between text a b)) = w := occurs.terminal.2.2
  have lowered : Text.lower "function" = "function" ∧ Text.lower "const" = "const" := by decide
  rcases occurs.choice with function | const
  · refine ⟨.function, ?_⟩
    simp [kindOf?, Text.sameIgnoringCase, same function, lowered]
  · refine ⟨.constant, ?_⟩
    simp [kindOf?, Text.sameIgnoringCase, same const, lowered]

/-- **A clause** is spelled by the words that are its parts. -/
theorem clause_spelled {name localName : Rule}
    (named : ∀ {a b items}, Occurs text name a b items → Clear items → Named text b)
    (made : name.consists (Terminal.isWritten isCode) Rule.isSpelled = true)
    (opened : name.opens (· != .openingTag) = true)
    (word : localName.isWord Rule.isReserved = true)
    (opened' : localName.opens (· != .openingTag) = true)
    (occurs : OccursAt text (clauseRule name localName) a b items) (plain : arePlain items = true)
    (even : Even text a b) (clause : PlainClause text items) :
    ∃ words, (clauseParts text items).Spelled words ∧ WordsIn words (between text a b) := by
  have clear := Item.clear_of_arePlain plain
  -- A name in the clause, with its alias.
  have target (kind : Option ImportKind) {extent : Extent} {inner back : List Item}
      (here : OccursAt text name extent.span.start extent.span.stop inner)
      (alias_ : Occurs text (Grammar.importAlias localName) extent.span.stop b back)
      (plainName : arePlain inner = true) (plainBack : arePlain back = true)
      (after : a ≤ extent.span.start)
      (ink : ∀ c ∈ (textOf text extent).toList, isBlank c = false) :
      extents .importKind back = [] ∧ extents .importName back = [] ∧
        ∃ words, ClauseParts.Target ⟨kind, textOf text extent, text? text .importAlias back⟩ words ∧
          WordsIn words (between text extent.span.start b) := by
    have clearName := Item.clear_of_arePlain plainName
    obtain ⟨inked, free⟩ := here.written clearName (even.sub after alias_.le) made
    rw [textOf, String.toList_ofList] at ink
    have code : ∀ c ∈ between text extent.span.start extent.span.stop, isCode c = true := by
      intro c inside
      by_contra other
      exact free c (Bool.eq_false_iff.2 other) (ink c inside) inside
    have both := target_of_alias kind alias_ plainBack
      (even.sub (after.trans here.occurs.le) (Nat.le_refl _)) (named here.occurs clearName).parted
      word opened' inked.ne_nil code ink
    rwa [← between_append here.occurs.le alias_.le] at both
  rcases occurs.sequence with ⟨middle, front, back, rfl, kindAt, rest⟩ | ⟨-, rest⟩
  · obtain ⟨clearKind, clearRest⟩ := Item.clear_append.1 clear
    obtain ⟨kind, inner, rfl, rfl, rfl, here⟩ := kindAt.optional.node clearKind
    obtain ⟨_, front, back, rfl, node, alias_⟩ := rest.sequence
    obtain ⟨clearName, -⟩ := Item.clear_append.1 clearRest
    obtain ⟨extent, inner', rfl, before, rfl, here', gap⟩ := node.clear_node clearName opened
    obtain ⟨plainKind, plainRest⟩ := Item.arePlain_append.1 plain
    obtain ⟨plainName, plainBack⟩ := Item.arePlain_append.1 plainRest
    have after : kind.span.start ≤ kind.span.stop := kindAt.occurs.le
    have one : (clauseParts text ([.node .importKind kind inner] ++
        ([.node .importName extent inner'] ++ back))).name = textOf text extent := by
      simp [clauseParts, text?]
    obtain ⟨found, word'⟩ := kindOf?_word here
    obtain ⟨unkinded, unnamed, words, target, spaced, code⟩ := target (some found) here'
      alias_ (Item.arePlain_of_mem plainName (List.mem_singleton_self _) rfl) plainBack
      (after.trans before) (one ▸ clause.name)
    have parts : clauseParts text ([.node .importKind kind inner] ++
        ([.node .importName extent inner'] ++ back)) =
          ⟨some found, textOf text extent, text? text .importAlias back⟩ := by
      simpa [clauseParts, text?, textOf] using word'
    have apart : kind.span.stop < extent.span.start :=
      clause.apart kind (by simp) extent (by simp)
    obtain ⟨nonempty, names, -⟩ := here.name rfl
    have ink : ∀ c ∈ between text kind.span.start kind.span.stop, isBlank c = false :=
      fun c inside => (even.sub (Nat.le_refl _) rest.le).ink inside (names c inside)
    have order := here'.occurs.le.trans alias_.le
    have gaps : between text kind.span.stop extent.span.start ≠ [] :=
      between_ne_nil apart spaced.inked.ne_nil
    rw [parts]
    refine ⟨_ :: words, .kind rfl word' target, ?_, List.forall_mem_cons.2 ⟨fun c inside =>
      isCode_of_isNameChar (names c inside), code⟩⟩
    rw [between_append after rest.le, between_append before order, ← List.append_assoc]
    exact .cons ink nonempty ((even.sub after order).blank gap) gaps spaced
  · rcases rest.sequence with ⟨middle, front, back, rfl, nameAt, alias_⟩ | ⟨absent, -⟩
    · obtain ⟨clearName, -⟩ := Item.clear_append.1 clear
      obtain ⟨extent, inner, rfl, rfl, rfl, here⟩ := nameAt.node clearName
      obtain ⟨plainName, plainBack⟩ := Item.arePlain_append.1 plain
      have one : (clauseParts text ([.node .importName extent inner] ++ back)).name =
          textOf text extent := by
        simp [clauseParts, text?]
      obtain ⟨unkinded, -, words, target, spaced⟩ := target none here alias_
        (Item.arePlain_of_mem plainName (List.mem_singleton_self _) rfl) plainBack (Nat.le_refl _)
        (one ▸ clause.name)
      have parts : clauseParts text ([.node .importName extent inner] ++ back) =
          ⟨none, textOf text extent, text? text .importAlias back⟩ := by
        simp [clauseParts, text?, unkinded]
      have other := clause.kind
      rw [parts] at other ⊢
      exact ⟨words, .bare rfl (other rfl) target, spaced⟩
    · cases absent

/-! ## Imports -/

/-- What the clauses of a statement declare. -/
def clausesIn (text : List Char) (items : List Item) : List ClauseParts :=
  (inners .importClause items).map (clauseParts text)

/-- The kind of a statement: that of a group, or else that of its first clause. -/
def statementKind (text : List Char) (items : List Item) : Option ImportKind :=
  if (extents .importGroup items).isEmpty then (clausesIn text items).head?.bind (·.kind)
  else (text? text .importKind items).bind kindOf?

/-- What an import declares: each clause under its own kind, or that of the statement. -/
def declaredImports (text : List Char) (items : List Item) : List Import :=
  (clausesIn text items).map fun clause =>
    written ((clause.kind.or (statementKind text items)).getD .type)
      (text? text .importGroup items) clause.name clause.alias_

/-- The name of a group that is read as it is meant: it has no blanks, and is told from a kind. -/
structure PlainGroup (text : List Char) (items : List Item) (group : Extent) : Prop where
  name : ∀ c ∈ (textOf text group).toList, isBlank c = false
  kind : extents .importKind items = [] → kindOf? (textOf text group) = none
  apart : ∀ kind ∈ extents .importKind items, kind.span.stop < group.span.start

/-- An import that is read as it is meant; only the first clause of a list has a kind. -/
structure PlainImports (text : List Char) (span : Span) (items : List Item) : Prop where
  plain : arePlain items = true
  even : Even text span.start span.stop
  keyword : "use".toList <+: text.drop span.start
  clauses : ∀ clause ∈ inners .importClause items, PlainClause text clause
  listed : extents .importGroup items = [] →
    ∀ clause ∈ (clausesIn text items).tail, clause.kind = none
  grouped : ∀ group ∈ extents .importGroup items, PlainGroup text items group

/-- The clauses of a list are spelled by the texts of its parts. -/
theorem spells_of_parts {name localName : Rule}
    (named : ∀ {a b items}, Occurs text name a b items → Clear items → Named text b)
    (made : name.consists (Terminal.isWritten isCode) Rule.isSpelled = true)
    (opened : name.opens (· != .openingTag) = true)
    (word : localName.isWord Rule.isReserved = true)
    (opened' : localName.opens (· != .openingTag) = true)
    {parts : List (Extent × List Item)} (stand : Parts text (clauseRule name localName) a b parts)
    (even : Even text a b) (plain : arePlain (nodes .importClause parts) = true)
    (clauses : ∀ part ∈ parts, PlainClause text part.2) :
    List.Forall₂ Spells (parts.map (partText text)) (parts.map fun part => clauseParts text part.2) ∧
      (∀ cs ∈ parts.map (partText text), Text.Listed.Part cs) ∧
      ∀ cs ∈ parts.map (partText text), ∀ c, isCode c = false → isBlank c = false → c ∉ cs := by
  have each : ∀ part ∈ parts, ∃ words, (clauseParts text part.2).Spelled words ∧
      WordsIn words (partText text part) := by
    intro part listed
    obtain ⟨before, -, after, here⟩ := stand part listed
    exact clause_spelled named made opened word opened' here
      (Item.arePlain_of_mem plain (List.mem_map_of_mem listed) rfl) (even.sub before after)
      (clauses part listed)
  refine ⟨?_, List.forall_mem_map.2 fun part listed => ?_, List.forall_mem_map.2 fun part listed => ?_⟩
  · rw [List.forall₂_map_left_iff, List.forall₂_map_right_iff, List.forall₂_same]
    intro part listed
    obtain ⟨words, spelled, stand⟩ := each part listed
    exact ⟨words, spelled, stand.1⟩
  · obtain ⟨words, -, stand⟩ := each part listed
    exact ⟨stand.1.inked, stand.not_mem (by decide) (by decide)⟩
  · obtain ⟨words, -, stand⟩ := each part listed
    exact fun c other ink => stand.not_mem other ink

/-- The rule of a group behind the word of its kind. -/
def groupRule : Rule :=
  .all [.node .importGroup Grammar.path, .mark "\\", .braces (.commaList Grammar.groupClause)]

/-- The text of a group. -/
theorem groupText_of_occurs (occurs : Occurs text groupRule a b items) (clear : Clear items)
    (even : Even text a b) :
    ∃ group inner parts gap gap' list,
      items = .node .importGroup group inner :: nodes .importClause parts ∧
      a ≤ group.span.start ∧ group.span.stop ≤ b ∧ Gap text a group.span.start ∧
      OccursAt text Grammar.path group.span.start group.span.stop inner ∧
      Parts text (clauseRule Grammar.path .name) a b parts ∧
      between text group.span.start b =
        groupText (between text group.span.start group.span.stop) gap gap' list ∧
      Blank gap ∧ Blank gap' ∧ Listed list (parts.map (partText text)) := by
  obtain ⟨_, _, _, rfl, node, rest⟩ := occurs.sequence
  obtain ⟨clearNode, clearRest⟩ := Item.clear_append.1 clear
  obtain ⟨group, inner, rfl, before, rfl, here, gap⟩ := node.clear_node clearNode (by decide)
  obtain ⟨third, _, _, rfl, separator, braces⟩ := rest.sequence
  obtain ⟨clearSeparator, clearBraces⟩ := Item.clear_append.1 clearRest
  obtain ⟨rfl, separated⟩ := separator.marked clearSeparator
  obtain ⟨fourth, _, _, rfl, opening, rest'⟩ := braces.sequence
  obtain ⟨clearOpening, clearRest'⟩ := Item.clear_append.1 clearBraces
  obtain ⟨rfl, opened⟩ := opening.marked clearOpening
  obtain ⟨fifth, _, _, rfl, list, closing⟩ := rest'.sequence
  obtain ⟨clearList, clearClosing⟩ := Item.clear_append.1 clearRest'
  obtain ⟨rfl, closed⟩ := closing.marked clearClosing
  obtain ⟨parts, -, rfl, stand, listed⟩ := list.commaList id (by decide) clearList
  have order : a ≤ group.span.stop := before.trans here.occurs.le
  obtain ⟨gap₁, blank₁, text₁⟩ := separated (even.sub order braces.le)
  obtain ⟨gap₂, blank₂, text₂⟩ := opened (even.sub (order.trans separator.le) rest'.le)
  obtain ⟨gap₃, blank₃, text₃⟩ :=
    closed (even.sub (order.trans (separator.le.trans (opening.le.trans list.le))) (Nat.le_refl b))
  have inside : a ≤ fourth := order.trans (separator.le.trans opening.le)
  refine ⟨group, inner, parts, gap₁, gap₂, between text fourth fifth ++ gap₃, by simp, before,
    rest.le, gap, here, stand.widen inside closing.le, ?_, blank₁, blank₂,
    (listed (even.sub inside closing.le)).append_blank blank₃⟩
  rw [between_append here.occurs.le rest.le, between_append separator.le braces.le,
    between_append opening.le rest'.le, between_append list.le closing.le, text₁, text₂, text₃]
  simp [groupText]

/-- The word of a kind before a group, and the blanks around it. -/
theorem lead_of_occurs {rest : Rule}
    (occurs : Occurs text (.sequence Grammar.importKind rest) a b items) (clear : Clear items) :
    ∃ middle back, Occurs text rest middle b back ∧ a ≤ middle ∧
      ((middle = a ∧ items = back) ∨ ∃ kind inner, items = .node .importKind kind inner :: back ∧
        a ≤ kind.span.start ∧ kind.span.stop = middle ∧ Gap text a kind.span.start ∧
        OccursAt text (.words ["function", "const"]) kind.span.start middle inner) := by
  obtain ⟨middle, front, back, rfl, kind, rest⟩ := occurs.sequence
  refine ⟨middle, back, rest, kind.le, ?_⟩
  rcases kind.optional with ⟨rfl, rfl⟩ | node
  · exact .inl ⟨rfl, rfl⟩
  · obtain ⟨extent, inner, rfl, before, rfl, here, gap⟩ :=
      node.clear_node (Item.clear_append.1 clear).1 (by decide)
    exact .inr ⟨extent, inner, rfl, before, rfl, gap, here⟩

section

variable {span : Span}

/-- What stands behind the keyword of an import: its clauses, and its end. -/
theorem imports_list {parts : List (Extent × List Item)} {first second : Nat}
    (plain : PlainImports text span (nodes .importClause parts)) (present : parts ≠ [])
    (order : span.start ≤ first ∧ second ≤ span.stop)
    (stand : Parts text (clauseRule (.category .className) (.any [.name, .category .reserved]))
      first second parts)
    (listed : Listed (between text first second) (parts.map (partText text)))
    (ends : Ending (between text second span.stop)) :
    imports (.ofList ("use".toList ++
        (between text first second ++ between text second span.stop))) =
      declaredImports text (nodes .importClause parts) := by
  have inner : inners .importClause (nodes .importClause parts) = parts.map (·.2) := by simp
  obtain ⟨spells, good, free⟩ := spells_of_parts (fun occurs => occurs.className_named) (by decide)
    (by decide) (by decide) (by decide) stand (plain.even.sub order.1 order.2) plain.plain
    fun part inside => plain.clauses _ (inner ▸ List.mem_map_of_mem inside)
  have clauses : clausesIn text (nodes .importClause parts) =
      parts.map fun part => clauseParts text part.2 := by
    rw [clausesIn, inner, List.map_map]
    rfl
  have single : extents .importGroup (nodes .importClause parts) = [] := by simp
  have kinds := plain.listed single
  rw [← clauses] at spells
  cases shape : clausesIn text (nodes .importClause parts) with
  | nil =>
      rw [clauses, List.map_eq_nil_iff] at shape
      exact absurd shape present
  | cons clause others =>
      rw [shape] at spells kinds
      rw [imports_listed listed good (fun cs inside => ⟨free cs inside _ (by decide) (by decide),
        free cs inside _ (by decide) (by decide)⟩) ends spells kinds]
      have kind : statementKind text (nodes .importClause parts) = clause.kind := by
        simp [statementKind, shape]
      rw [declaredImports, shape, kind]
      refine List.map_congr_left fun one inside => ?_
      have same : one.kind.or clause.kind = clause.kind := by
        rcases List.mem_cons.1 inside with rfl | later
        · exact Option.or_self
        · rw [kinds one later, Option.none_or]
      rw [same]
      simp [text?]

theorem imports_group {back : List Item} {first second : Nat}
    (occurs : Occurs text (.sequence Grammar.importKind groupRule) first second back)
    (plain : PlainImports text span back) (order : span.start ≤ first ∧ second ≤ span.stop)
    (ends : Ending (between text second span.stop)) :
    imports (.ofList ("use".toList ++
        (between text first second ++ between text second span.stop))) =
      declaredImports text back := by
  have clear := Item.clear_of_arePlain plain.plain
  have even := plain.even.sub order.1 order.2
  obtain ⟨middle, items, grouped, before, kinds⟩ := lead_of_occurs occurs clear
  have clearItems : Clear items := by
    rcases kinds with ⟨-, rfl⟩ | ⟨kind, inner, rfl, -⟩
    · exact clear
    · exact clear.tail
  obtain ⟨group, inner, parts, gap, gap', list, rfl, after, stop, space, path, stand, whole, blank,
    blank', listed⟩ := groupText_of_occurs grouped clearItems (even.sub before (Nat.le_refl _))
  have within := path.occurs.le.trans stop
  have group' : extents .importGroup back = [group] := by
    rcases kinds with ⟨-, rfl⟩ | ⟨kind, inner', rfl, -⟩ <;> simp
  have inners' : inners .importClause back = parts.map (·.2) := by
    rcases kinds with ⟨-, rfl⟩ | ⟨kind, inner', rfl, -⟩ <;> simp
  have plainItems : arePlain (.node .importGroup group inner :: nodes .importClause parts) = true := by
    rcases kinds with ⟨-, rfl⟩ | ⟨kind, inner', rfl, -⟩
    · exact plain.plain
    · exact (Item.arePlain_cons.1 plain.plain).2
  obtain ⟨-, plainParts⟩ := Item.arePlain_cons.1 plainItems
  obtain ⟨ink, unkinded, apart⟩ := plain.grouped group (group' ▸ List.mem_singleton_self _)
  rw [textOf, String.toList_ofList] at ink
  have clearName : Clear inner :=
    Item.clear_of_arePlain (Item.arePlain_of_mem plainItems List.mem_cons_self rfl)
  obtain ⟨inked, free⟩ := path.written clearName (even.sub (before.trans after) stop) (by decide)
  have name : GroupName (between text group.span.start group.span.stop) := by
    refine ⟨fun c inside => ⟨ink c inside, ?_, ?_⟩, inked.ne_nil, fun last => ?_⟩
    · rintro rfl
      exact free _ (by decide) (by decide) inside
    · rintro rfl
      exact free _ (by decide) (by decide) inside
    · obtain ⟨c, here, name⟩ := (path.occurs.path_named clearName).last
      rw [getLast?_between path.occurs.le inked.ne_nil, last] at here
      cases here
      exact absurd name (by decide)
  obtain ⟨spells, good, free'⟩ := spells_of_parts (fun occurs => occurs.path_named) (by decide)
    (by decide) (by decide) (by decide) stand (even.sub before (Nat.le_refl _)) plainParts
    fun part inside => plain.clauses _ (inners' ▸ List.mem_map_of_mem inside)
  have kind : statementKind text back = (text? text .importKind back).bind kindOf? := by
    simp [statementKind, group']
  have declared : declaredImports text back = (parts.map fun part => clauseParts text part.2).map
      fun one => written (one.kind.getD (((text? text .importKind back).bind kindOf?).getD .type))
        (some (.ofList (between text group.span.start group.span.stop))) one.name one.alias_ := by
    have clauses : clausesIn text back = parts.map fun part => clauseParts text part.2 := by
      rw [clausesIn, inners', List.map_map]
      rfl
    rw [declaredImports, clauses, kind]
    refine List.map_congr_left fun one _ => ?_
    rw [Option.getD_or, text?, text?, group']
    rfl
  have semicolons : ∀ cs ∈ parts.map (partText text), ';' ∉ cs :=
    fun cs inside => free' cs inside _ (by decide) (by decide)
  rw [declared]
  rcases kinds with ⟨rfl, rfl⟩ | ⟨word, inner', rfl, front, rfl, space', here⟩
  · have text' : between text middle second = between text middle group.span.start ++
        ([] ++ groupText (between text group.span.start group.span.stop) gap gap' list) := by
      rw [between_append after within, whole, List.nil_append]
    have lead : Lead (between text group.span.start group.span.stop) none [] :=
      .bare (unkinded (by simp))
    rw [text', imports_grouped ((even.sub (Nat.le_refl _) within).blank space) name lead blank blank'
      listed good semicolons spells ends]
    simp [text?]
  · obtain ⟨found, word'⟩ := kindOf?_word here
    obtain ⟨-, names, -⟩ := here.name (by decide)
    have order' := here.occurs.le
    have within' := after.trans within
    have gaps : between text word.span.stop group.span.start ≠ [] :=
      between_ne_nil (apart word (by simp)) inked.ne_nil
    have lead : Lead (between text group.span.start group.span.stop) (some found)
        (between text word.span.start word.span.stop ++
          between text word.span.stop group.span.start) := by
      refine .kind (fun c inside => ?_) word' ((even.sub before within).blank space) gaps
      have named := names c inside
      refine ⟨(even.sub front within').ink inside named, ?_⟩
      rintro rfl
      exact absurd named (by decide)
    have text' : between text first second = between text first word.span.start ++
        ((between text word.span.start word.span.stop ++
          between text word.span.stop group.span.start) ++
        groupText (between text group.span.start group.span.stop) gap gap' list) := by
      rw [between_append front (order'.trans within'), between_append order' within',
        between_append after within, whole, List.append_assoc]
    have blank₀ := (even.sub (Nat.le_refl _) (order'.trans within')).blank space'
    rw [text', imports_grouped blank₀ name lead blank blank' listed good semicolons spells ends]
    simp [text?, textOf, word']

/-- **The imports of a statement** are those that are read. -/
theorem imports_plain
    (occurs : OccursAt text Grammar.importStatement span.start span.stop items)
    (plain : PlainImports text span items) :
    imports (.ofList (between text span.start span.stop)) = declaredImports text items := by
  have clear := Item.clear_of_arePlain plain.plain
  obtain ⟨first, before, lower, rest⟩ := occurs.word clear
  obtain ⟨second, front, _, rfl, body, last⟩ := rest.sequence
  obtain ⟨clearBody, clearLast⟩ := Item.clear_append.1 clear
  obtain ⟨rfl, ends⟩ := last.semicolon clearLast
  rw [List.append_nil] at plain ⊢
  have spelled := keyword_spelled lower (between_leads _ _ _) plain.keyword
  have ends' := ends (plain.even.sub (before.trans body.le) (Nat.le_refl _))
  rw [between_append before (body.le.trans last.le), between_append body.le last.le, spelled]
  have clause {a b : Nat} {items : List Item}
      (occurs : Occurs text (.category .useClause) a b items) :
      Occurs text (.node .importClause (clauseRule (.category .className)
        (.any [.name, .category .reserved]))) a b items := occurs.category
  rcases body.choice with list | group
  · obtain ⟨parts, present, rfl, stand, listed⟩ := list.commaList clause (by decide) clearBody
    exact imports_list plain present ⟨before, last.le⟩ stand (listed (plain.even.sub before last.le))
      ends'
  · exact imports_group group plain ⟨before, last.le⟩ ends'

end

end

end Declaration

end Emend

import Emend.Proofs.Source.Members

/-!
# Types and directives of a syntax tree

A type is declared under the name that stands in its node, and a directive with the value that
stands in its node. The library reads the first from the words of the header and the second from
the text without its blanks. It finds what the nodes say if no comment and no parenthesis stands in
the header (`header_plain`), and nothing but an end behind the directive (`directive_plain`).
-/

set_option autoImplicit false

namespace Emend

open Scan
open Text (Blank Inked isBlank)
open Item (Clear arePlain)
open Rule (Occurs OccursAt isCode)

namespace Text

theorem containsChars_iff {part cs : List Char} : containsChars part cs = true ↔ part <:+: cs := by
  induction cs with
  | nil => simp [containsChars]
  | cons c cs ih =>
      rw [containsChars, Bool.or_eq_true, ih, List.isPrefixOf_iff_prefix, List.infix_cons_iff]

theorem Blank.filter {blank : List Char} (all : Blank blank) :
    blank.filter (!isBlank ·) = [] :=
  List.filter_eq_nil_iff.2 fun c inside => by simp [all c inside]

theorem filter_ink {c : Char} (ink : isBlank c = false) (cs : List Char) :
    (c :: cs).filter (!isBlank ·) = c :: cs.filter (!isBlank ·) :=
  List.filter_cons_of_pos (by simp [ink])

end Text

namespace Declaration

section

variable {text : List Char} {items : List Item} {a b : Nat}

/-! ## Modifiers -/

/-- One of several words. -/
theorem exists_word {words : List String} (present : words ≠ [])
    (occurs : Occurs text (.words words) a b items) :
    ∃ w ∈ words, Occurs text (.word w) a b items := by
  induction words with
  | nil => exact absurd rfl present
  | cons w words ih =>
      cases words with
      | nil => exact ⟨w, List.mem_cons_self, occurs⟩
      | cons next words =>
          rcases occurs.choice with here | there
          · exact ⟨w, List.mem_cons_self, here⟩
          · obtain ⟨v, listed, found⟩ := ih (by simp) there
            exact ⟨v, List.mem_cons_of_mem _ listed, found⟩

def modifierWords : List String :=
  ["public", "protected", "private", "var", "static", "final", "abstract", "readonly"]

/-- A modifier without a parenthesis is one word. -/
theorem word_of_modifier (occurs : Occurs text (.category .modifier) a b items)
    (clear : Clear items) (free : '(' ∉ between text a b) :
    ∃ w ∈ modifierWords, Occurs text (.word w) a b [] := by
  obtain rfl := occurs.items_eq_nil clear (by decide)
  rcases occurs.category.choice with visible | other
  · obtain ⟨middle, _, _, shape, word, operation⟩ := visible.category.sequence
    obtain ⟨rfl, rfl⟩ := List.append_eq_nil_iff.1 shape.symm
    rcases operation.optional with ⟨rfl, -⟩ | taken
    · obtain ⟨w, listed, found⟩ := exists_word (by simp) word
      refine ⟨w, ?_, found⟩
      have part : ["public", "protected", "private"] ⊆ modifierWords := by decide
      exact part listed
    · obtain ⟨stop, _, _, shape', opening, rest⟩ := taken.sequence
      obtain ⟨rfl, rfl⟩ := List.append_eq_nil_iff.1 shape'.symm
      obtain ⟨-, place, before, order, -, -, prefix', size⟩ := opening.terminal Item.clear_nil
      refine absurd ?_ free
      have mark : between text place stop = ['('] := by
        rw [between, size]
        exact (List.prefix_iff_eq_take.1 prefix').symm
      rw [between_append (word.le.trans before) (order.trans rest.le),
        between_append order rest.le, mark]
      simp
  · obtain ⟨w, listed, found⟩ := exists_word (by simp) other
    refine ⟨w, ?_, found⟩
    have part : ["var", "static", "final", "abstract", "readonly"] ⊆ modifierWords := by decide
    exact part listed

/-- The text is read as these words, whatever stands behind blanks after it. -/
def ReadsAs (mods : List String) (text : List Char) : Prop :=
  ∀ rest, (∀ c ∈ rest.head?, isBlank c = true) →
    headerWords (.ofList (text ++ rest)) = mods ++ headerWords (.ofList rest)

theorem ReadsAs.append {first second : List String} {text rest : List Char}
    (here : ReadsAs first text) (there : ReadsAs second rest)
    (parted : ∀ more, (∀ c ∈ more.head?, isBlank c = true) →
      ∀ c ∈ (rest ++ more).head?, isBlank c = true) : ReadsAs (first ++ second) (text ++ rest) := by
  intro more ends
  rw [List.append_assoc, here _ (parted more ends), there more ends, List.append_assoc]

/-- Blanks, and a word. -/
theorem readsAs_word {blank word : List Char} (all : Blank blank)
    (plain : ∀ c ∈ word, isBlank c = false ∧ c ≠ ',') (nonempty : word ≠ []) :
    ReadsAs [.ofList word] (blank ++ word) := by
  intro rest ends
  rw [List.append_assoc, headerWords_blank all, headerWords_word plain nonempty ends,
    List.singleton_append]

/-- A word stands behind blanks, of which there are some if a name stands before it. -/
theorem reads_of_word {w : String} (occurs : Occurs text (.word w) a b items) (clear : Clear items)
    (even : Even text a b) :
    items = [] ∧ Parted text b ∧ (Parted text a → ∃ c cs, between text a b = c :: cs ∧
      isBlank c = true) ∧ ∃ word, Text.lower word = w ∧ ReadsAs [word] (between text a b) := by
  obtain ⟨rfl, gaps, chars, spelled, gap, names, nonempty, lower, parted⟩ := occurs.word clear
  have blank : Blank gaps := fun c inside =>
    (even c (spelled ▸ List.mem_append_left _ inside)).symm.trans (gap c inside)
  refine ⟨rfl, parted, fun before => ?_, .ofList chars, lower, ?_⟩
  · obtain ⟨c, gaps', rfl⟩ := List.exists_cons_of_ne_nil (before.ne_nil spelled nonempty names)
    exact ⟨c, gaps' ++ chars, spelled, blank c List.mem_cons_self⟩
  · rw [spelled]
    refine readsAs_word blank (fun c inside => ⟨?_, ?_⟩) nonempty
    · exact even.ink (spelled ▸ List.mem_append_right _ inside) (names c inside)
    · rintro rfl
      exact absurd (names _ inside) (by decide)

/-- Modifiers are read word by word. -/
theorem reads_of_modifiers (occurs : Occurs text (.many (.category .modifier)) a b items)
    (clear : Clear items) (even : Even text a b) (free : '(' ∉ between text a b) :
    ((a = b) ∨ Parted text b) ∧ (Parted text a → ∀ c ∈ (between text a b).head?, isBlank c = true) ∧
      ∃ mods, (∀ m ∈ mods, Text.lower m ∈ modifierWords) ∧ ReadsAs mods (between text a b) := by
  refine occurs.many_induction (motive := fun a b items => Clear items → Even text a b →
    '(' ∉ between text a b → ((a = b) ∨ Parted text b) ∧
      (Parted text a → ∀ c ∈ (between text a b).head?, isBlank c = true) ∧
      ∃ mods, (∀ m ∈ mods, Text.lower m ∈ modifierWords) ∧ ReadsAs mods (between text a b))
    ?_ ?_ clear even free
  · intro place _ _ _
    refine ⟨.inl rfl, fun _ => by simp, [], by simp, fun rest _ => by simp⟩
  · intro start middle stop front back here rest ih clear even free
    obtain ⟨clearFront, clearBack⟩ := Item.clear_append.1 clear
    have whole : between text start stop = between text start middle ++ between text middle stop :=
      between_append here.le rest.le
    rw [whole, List.mem_append, not_or] at free
    obtain ⟨w, listed, word⟩ := word_of_modifier here clearFront free.1
    obtain ⟨-, parted, begins, m, lower, reads⟩ :=
      reads_of_word word Item.clear_nil (even.sub (Nat.le_refl _) rest.le)
    obtain ⟨last, begins', mods, known, reads'⟩ :=
      ih clearBack (even.sub here.le (Nat.le_refl _)) free.2
    refine ⟨.inr ?_, fun before => ?_, m :: mods, ?_, ?_⟩
    · rcases last with rfl | parted'
      · exact parted
      · exact parted'
    · obtain ⟨c, cs, shape, space⟩ := begins before
      rw [whole, shape]
      intro d first
      cases first
      exact space
    · exact List.forall_mem_cons.2 ⟨lower ▸ listed, known⟩
    · rw [whole]
      refine reads.append reads' fun more ends => ?_
      cases between' : between text middle stop with
      | nil => exact ends
      | cons c cs =>
          have space := begins' parted
          rw [between'] at space
          exact space

/-! ## Headers -/

/-- What stands behind the name of a type: clauses, if any, and the body. -/
def EndsHeader (rest : Rule) : Prop :=
  ∀ (text : List Char) (a b : Nat) (items : List Item), Occurs text rest a b items → Clear items →
    ∃ body inner, items = [.node .body body inner] ∧ a ≤ body.span.start ∧ body.span.stop = b ∧
      body.span.start ≤ b ∧
      (Parted text a → ∀ c ∈ (between text a body.span.start).head?, Lexeme.isGap c = true)

theorem endsHeader_body : EndsHeader (.node .body (.category .memberList)) := by
  intro text a b items occurs clear
  obtain ⟨body, inner, rfl, before, rfl, here, gap⟩ := occurs.clear_node clear rfl
  exact ⟨body, inner, rfl, before, rfl, here.occurs.le,
    fun _ c first => gap c (List.mem_of_mem_head? first)⟩

theorem EndsHeader.clause {rest : Rule} (ends : EndsHeader rest) (keyword : String) :
    EndsHeader (.sequence (.optional (Grammar.classClause keyword)) rest) := by
  intro text a b items occurs clear
  obtain ⟨middle, _, _, rfl, clause, rest⟩ := occurs.sequence
  obtain ⟨clearClause, clearRest⟩ := Item.clear_append.1 clear
  obtain ⟨body, inner, rfl, before, last, order, gap⟩ := ends _ _ _ _ rest clearRest
  rcases clause.optional with ⟨rfl, rfl⟩ | taken
  · exact ⟨body, inner, rfl, before, last, order, gap⟩
  · obtain ⟨next, _, _, rfl, word, names⟩ := taken.sequence
    obtain ⟨clearWord, clearNames⟩ := Item.clear_append.1 clearClause
    obtain ⟨rfl, gaps, chars, spelled, gap', named, nonempty, -, -⟩ := word.word clearWord
    obtain rfl := names.items_eq_nil clearNames (by decide)
    refine ⟨body, inner, rfl, clause.le.trans before, last, order, fun parted c first => ?_⟩
    obtain ⟨d, gaps, rfl⟩ := List.exists_cons_of_ne_nil (parted.ne_nil spelled nonempty named)
    rw [between_append word.le (names.le.trans before), spelled] at first
    cases first
    exact gap' c List.mem_cons_self

/-- The rule of a type behind its modifiers. -/
def headRule (keyword : String) (rest : Rule) : Rule :=
  .all [.word keyword, .node .typeName .name, rest]

/-- The body stands behind the modifiers. -/
theorem le_bodyStart {keyword : String} {rest : Rule} (ends : EndsHeader rest)
    (occurs : Occurs text (headRule keyword rest) a b items) (clear : Clear items) :
    a ≤ bodyStart items b := by
  obtain ⟨middle, _, _, rfl, word, rest⟩ := occurs.sequence
  obtain ⟨clearWord, clearRest⟩ := Item.clear_append.1 clear
  obtain ⟨name, _, _, rfl, node, rest'⟩ := rest.sequence
  obtain ⟨clearNode, clearRest'⟩ := Item.clear_append.1 clearRest
  obtain ⟨extent, inner, rfl, -⟩ := node.clear_node clearNode rfl
  obtain ⟨body, inner', rfl, last, -⟩ := ends _ _ _ _ rest' clearRest'
  obtain ⟨rfl, -⟩ := word.word clearWord
  simpa [bodyStart] using (word.le.trans node.le).trans last

/-- **The name of a type** is read from its header. -/
theorem head_plain {kind : TypeKind} {rest : Rule} (ends : EndsHeader rest) {start : Nat}
    (before : start ≤ a) (occurs : Occurs text (headRule kind.keyword rest) a b items)
    (clear : Clear items) (even : Even text start (bodyStart items b)) {mods : List String}
    (known : ∀ m ∈ mods, Text.sameIgnoringCase m kind.keyword = false)
    (reads : ReadsAs mods (between text start a)) (parted : start = a ∨ Parted text a)
    {read : TypeDecl}
    (done : header? kind (.ofList (between text start (bodyStart items b))) = some read) :
    read.kind = kind ∧ some read.name = text? text .typeName items := by
  obtain ⟨middle, _, _, rfl, word, rest⟩ := occurs.sequence
  obtain ⟨clearWord, clearRest⟩ := Item.clear_append.1 clear
  obtain ⟨name, _, _, rfl, node, rest'⟩ := rest.sequence
  obtain ⟨clearNode, clearRest'⟩ := Item.clear_append.1 clearRest
  obtain ⟨extent, inner, rfl, after, rfl, here, gap⟩ := node.clear_node clearNode rfl
  obtain ⟨body, inner', rfl, last, -, -, gap'⟩ := ends _ _ _ _ rest' clearRest'
  obtain ⟨rfl, -⟩ := word.word clearWord
  have stop : bodyStart ([] ++ ([.node .typeName extent inner] ++ [.node .body body inner'])) b =
      body.span.start := by simp [bodyStart]
  rw [stop] at even done
  have order : a ≤ extent.span.stop := word.le.trans (after.trans here.occurs.le)
  have even' : Even text start extent.span.stop := even.sub (Nat.le_refl _) last
  obtain ⟨-, parted', begins, m, lower, reads'⟩ := reads_of_word word Item.clear_nil
    (even'.sub before (after.trans here.occurs.le))
  obtain ⟨nonempty, chars, named⟩ := here.name rfl
  have gaps : between text middle extent.span.start ≠ [] :=
    parted'.ne_nil (between_append after here.occurs.le) nonempty chars
  have blank : Blank (between text middle extent.span.start) :=
    (even'.sub (before.trans word.le) here.occurs.le).blank gap
  have name : ReadsAs [textOf text extent] (between text middle extent.span.stop) := by
    rw [between_append after here.occurs.le]
    refine readsAs_word blank (fun c inside => ⟨?_, ?_⟩) nonempty
    · exact (even'.sub (before.trans (word.le.trans after)) (Nat.le_refl _)).ink inside
        (chars c inside)
    · rintro rfl
      exact absurd (chars _ inside) (by decide)
  -- The keyword and the name.
  have front : ReadsAs [m, textOf text extent] (between text a extent.span.stop) := by
    rw [between_append word.le (after.trans here.occurs.le)]
    refine reads'.append name fun more _ c first => ?_
    obtain ⟨d, gaps', shape⟩ := List.exists_cons_of_ne_nil gaps
    rw [between_append after here.occurs.le, shape] at first
    cases first
    exact blank _ (shape ▸ List.mem_cons_self)
  have whole : ReadsAs (mods ++ [m, textOf text extent]) (between text start extent.span.stop) := by
    rw [between_append before order]
    rcases parted with rfl | parted
    · have nothing := reads [] (by simp)
      rw [between_self, List.nil_append] at nothing
      have noMods : mods = [] := List.self_eq_append_left.1 nothing
      rw [between_self, noMods, List.nil_append, List.nil_append]
      exact front
    · refine reads.append front fun more _ c first => ?_
      obtain ⟨d, cs, shape, space⟩ := begins parted
      rw [between_append word.le (after.trans here.occurs.le), shape] at first
      cases first
      exact space
  have tail : ∀ c ∈ (between text extent.span.stop body.span.start).head?, isBlank c = true := by
    intro c first
    have inside := List.mem_of_mem_head? first
    exact (even.sub (before.trans order) (Nat.le_refl _) c inside).symm.trans
      (gap' named.parted c first)
  rw [between_append (before.trans order) last] at done
  have words := whole _ tail
  rw [List.append_assoc] at words
  obtain ⟨kind', name'⟩ := header?_keeps words known
    (Text.sameIgnoringCase_iff.2 (lower.trans (by cases kind <;> decide))) done
  exact ⟨kind', by simp [name', text?]⟩

/-- The rule of a type declaration. -/
def typeRule : TypeKind → Rule
  | .class =>
    .all [Grammar.attributes, .many (.category .modifier), .word "class", .node .typeName .name,
      .optional (Grammar.classClause "extends"), .optional (Grammar.classClause "implements"),
      .node .body (.category .memberList)]
  | .interface =>
    .all [Grammar.attributes, .word "interface", .node .typeName .name,
      .optional (Grammar.classClause "extends"), .node .body (.category .memberList)]
  | .trait =>
    .all [Grammar.attributes, .word "trait", .node .typeName .name,
      .node .body (.category .memberList)]

/-- A header that is read as it is meant; attributes are refused. -/
structure PlainHeader (text : List Char) (span : Span) (items : List Item) : Prop where
  plain : arePlain items = true
  attributes : extents .attributes items = []
  even : Even text span.start (bodyStart items span.stop)
  parens : '(' ∉ between text span.start (bodyStart items span.stop)

theorem no_attributes (occurs : Occurs text Grammar.attributes a b items) (clear : Clear items)
    (absent : extents .attributes items = []) : b = a ∧ items = [] := by
  rcases occurs.optional with empty | listed
  · exact empty
  · obtain ⟨extent, inner, rfl, -⟩ := listed.clear_node clear rfl
    simp at absent

/-- **A type** is read with its kind and its name. -/
theorem header_plain {kind : TypeKind} {span : Span}
    (occurs : OccursAt text (typeRule kind) span.start span.stop items)
    (plain : PlainHeader text span items) {read : TypeDecl}
    (done : header? kind (.ofList (between text span.start (bodyStart items span.stop))) = some read) :
    read.kind = kind ∧ some read.name = text? text .typeName items := by
  obtain ⟨plain, attributes, even, parens⟩ := plain
  have clear := Item.clear_of_arePlain plain
  have reads : ReadsAs [] (between text span.start span.start) := fun rest _ => by simp
  cases kind with
  | «class» =>
      obtain ⟨_, _, _, rfl, first, rest⟩ := occurs.occurs.sequence
      obtain ⟨clearFirst, clearRest⟩ := Item.clear_append.1 clear
      obtain ⟨rfl, rfl⟩ := no_attributes first clearFirst (by simp_all)
      obtain ⟨middle, _, _, rfl, modifiers, rest'⟩ := rest.sequence
      obtain ⟨clearModifiers, clearRest'⟩ := Item.clear_append.1 clearRest
      obtain rfl := modifiers.items_eq_nil clearModifiers (by decide)
      have ends := (endsHeader_body.clause "implements").clause "extends"
      have order : middle ≤ bodyStart _ span.stop := le_bodyStart ends rest' clearRest'
      have free : '(' ∉ between text span.start middle := by
        rw [List.nil_append, List.nil_append, between_append modifiers.le order, List.mem_append,
          not_or] at parens
        exact parens.1
      obtain ⟨parted, -, mods, known, reads'⟩ :=
        reads_of_modifiers modifiers clearModifiers (even.sub (Nat.le_refl _) order) free
      refine head_plain ends modifiers.le rest' clearRest' even (fun m inside => ?_) reads' parted done
      have other : ∀ w ∈ modifierWords, w ≠ Text.lower TypeKind.class.keyword := by decide
      rw [Bool.eq_false_iff, ne_eq, Text.sameIgnoringCase_iff]
      exact other _ (known m inside)
  | interface =>
      obtain ⟨_, _, _, rfl, first, rest⟩ := occurs.occurs.sequence
      obtain ⟨clearFirst, clearRest⟩ := Item.clear_append.1 clear
      obtain ⟨rfl, rfl⟩ := no_attributes first clearFirst (by simp_all)
      exact head_plain (endsHeader_body.clause "extends") (Nat.le_refl _) rest clearRest even
        (by simp) reads (.inl rfl) done
  | trait =>
      obtain ⟨_, _, _, rfl, first, rest⟩ := occurs.occurs.sequence
      obtain ⟨clearFirst, clearRest⟩ := Item.clear_append.1 clear
      obtain ⟨rfl, rfl⟩ := no_attributes first clearFirst (by simp_all)
      exact head_plain endsHeader_body (Nat.le_refl _) rest clearRest even (by simp) reads
        (.inl rfl) done

/-! ## Directives -/

/-- A directive that is read as it is meant: strict types are turned on or off, and nothing but an
end stands behind. -/
structure PlainDirective (text : List Char) (span : Span) (items : List Item) : Prop where
  plain : arePlain items = true
  even : Even text span.start span.stop
  name : text? text .settingName items = some "strict_types"
  value : text? text .settingValue items ∈ [some "0", some "1"]
  ends : ∀ value ∈ extents .settingValue items, ∀ c ∈ between text value.span.stop span.stop,
    isBlank c = true ∨ c = ')' ∨ c = ';'

/-- Whether a directive turns strict types on. -/
def declaredStrict (text : List Char) (items : List Item) : Bool :=
  text? text .settingValue items == some "1"

/-- The text of a directive up to its value. -/
theorem directive_of_occurs {span : Span}
    (occurs : OccursAt text Grammar.directive span.start span.stop items)
    (clear : Clear items) (even : Even text span.start span.stop) :
    ∃ name value keyword blank gap gap' gap'',
      (extents .settingName items).head? = some name ∧
      (extents .settingValue items).head? = some value ∧ Text.lower (.ofList keyword) = "declare" ∧
      Blank blank ∧ Blank gap ∧ Blank gap' ∧ Blank gap'' ∧
      between text span.start span.stop = keyword ++ blank ++ '(' :: gap ++
        between text name.span.start name.span.stop ++ gap' ++ '=' :: gap'' ++
        between text value.span.start value.span.stop ++ between text value.span.stop span.stop := by
  obtain ⟨first, before, lower, rest⟩ := occurs.word clear
  obtain ⟨last, _, back, rfl, parens, behind⟩ := rest.sequence
  obtain ⟨second, _, _, rfl, opening, rest₁⟩ := parens.sequence
  obtain ⟨third, _, _, rfl, setting, closing⟩ := rest₁.sequence
  obtain ⟨fourth, _, _, rfl, node, rest₂⟩ := setting.sequence
  obtain ⟨fifth, _, _, rfl, sign, node'⟩ := rest₂.sequence
  simp only [Item.clear_append] at clear
  obtain ⟨⟨clearOpening, ⟨clearNode, clearSign, clearNode'⟩, clearClosing⟩, clearBack⟩ := clear
  obtain ⟨rfl, opened⟩ := opening.marked clearOpening
  obtain ⟨name, inner, rfl, after, rfl, here, gap⟩ := node.clear_node clearNode (by decide)
  obtain ⟨rfl, signed⟩ := sign.marked clearSign
  obtain ⟨value, inner', rfl, after', rfl, here', gap'⟩ := node'.clear_node clearNode' (by decide)
  have last' : value.span.stop ≤ span.stop := closing.le.trans behind.le
  have fifth' : fifth ≤ span.stop := node'.le.trans last'
  have fourth' : name.span.stop ≤ span.stop := sign.le.trans fifth'
  have second' : second ≤ span.stop := node.le.trans fourth'
  have third' : span.start ≤ second := before.trans opening.le
  obtain ⟨blank, all, opened'⟩ := opened (even.sub before second')
  obtain ⟨blank', all', signed'⟩ := signed (even.sub (third'.trans node.le) fifth')
  refine ⟨name, value, between text span.start first, blank, between text second name.span.start,
    blank', between text fifth value.span.start, by simp, by simp, lower, all,
    (even.sub third' (here.occurs.le.trans fourth')).blank gap, all',
    (even.sub (third'.trans (node.le.trans sign.le)) (here'.occurs.le.trans last')).blank gap', ?_⟩
  rw [between_append before (opening.le.trans second'), between_append opening.le second',
    between_append after (here.occurs.le.trans fourth'), between_append here.occurs.le fourth',
    between_append sign.le fifth', between_append after' (here'.occurs.le.trans last'),
    between_append here'.occurs.le last', opened', signed']
  simp

/-- **A directive** is read with its value. -/
theorem directive_plain {span : Span} {line : Nat} {strictTypes : Bool}
    (occurs : OccursAt text Grammar.directive span.start span.stop items)
    (plain : PlainDirective text span items)
    (read : File.directive (.ofList (between text span.start span.stop)) line = .ok strictTypes) :
    strictTypes = declaredStrict text items := by
  obtain ⟨plain, even, named, valued, ends⟩ := plain
  obtain ⟨name, value, keyword, blank, gap, gap', gap'', first, second, lower, all, all', all'',
    all₃, whole⟩ := directive_of_occurs occurs (Item.clear_of_arePlain plain) even
  have member : value ∈ extents .settingValue items := List.mem_of_mem_head? second
  have last := ends value member
  rw [text?, first, Option.map_some, Option.some.injEq, textOf, ← String.toList_inj,
    String.toList_ofList] at named
  have letters : ∀ c ∈ keyword, c.toLower ∈ "declare".toList := by
    intro c inside
    rw [← lower, Text.toList_lower, String.toList_ofList]
    exact List.mem_map_of_mem inside
  have strict : strictTypes = Text.containsChars "strict_types=1".toList
      ((between text span.start span.stop).filter (!isBlank ·)) := by
    unfold File.directive at read
    simp only [String.toList_ofList] at read
    split at read
    · cases read
      simp [Text.contains]
    · cases read
  rw [strict, Bool.eq_iff_iff, Text.containsChars_iff]
  have text' : text? text .settingValue items = some (textOf text value) := by rw [text?, second]; rfl
  rw [text'] at valued
  rw [declaredStrict, text', beq_iff_eq, Option.some.injEq]
  rcases List.mem_pair.1 valued with zero | one
  · -- There is no digit one in the text at all.
    rw [Option.some.injEq] at zero
    rw [zero]
    refine iff_of_false (fun part => ?_) (by decide)
    have inside := List.mem_of_mem_filter (part.subset (by decide : '1' ∈ "strict_types=1".toList))
    have digit : between text value.span.start value.span.stop = ['0'] := by
      simpa [textOf, ← String.toList_inj] using zero
    have space : isBlank '1' = false := by decide
    rw [whole, named, digit] at inside
    simp only [List.mem_append, List.mem_cons, List.not_mem_nil, or_false] at inside
    rcases inside with ((((((inside | inside) | inside | inside) | inside) | inside) |
      inside | inside) | inside) | inside
    · exact absurd (letters '1' inside) (by decide)
    · exact all.not_mem space inside
    · exact absurd inside (by decide)
    · exact all'.not_mem space inside
    · exact absurd inside (by decide)
    · exact all''.not_mem space inside
    · exact absurd inside (by decide)
    · exact all₃.not_mem space inside
    · exact absurd inside (by decide)
    · exact absurd (last '1' inside) (by decide)
  · rw [Option.some.injEq] at one
    rw [one]
    have digit : between text value.span.start value.span.stop = ['1'] := by
      simpa [textOf, ← String.toList_inj] using one
    refine iff_of_true ⟨keyword.filter (!isBlank ·) ++ ['('],
      (between text value.span.stop span.stop).filter (!isBlank ·), ?_⟩ rfl
    have word : "strict_types".toList.filter (!isBlank ·) = "strict_types".toList := by decide
    have marks : isBlank '(' = false ∧ isBlank '=' = false ∧ isBlank '1' = false := by decide
    rw [whole, named, digit]
    simp only [List.filter_append, Text.filter_ink marks.1, Text.filter_ink marks.2.1,
      Text.filter_ink marks.2.2, List.filter_nil, word, all.filter, all'.filter, all''.filter,
      all₃.filter]
    simp

end

end Declaration

end Emend

import Emend.Proofs.Source.Heads
import Emend.Proofs.Source.Uses

/-!
# Types and members of a syntax tree

The nodes of the syntax tree say which types, constants, properties and methods are declared, with
which values and return types. The library cuts the text of an element at an equals sign, looks for
a return type between the parameters and the body, and takes the name of a type from the words of
its header. It finds what the nodes say if no comment stands between these parts
(`element_plain`, `method_plain`, `header_plain`).
-/

set_option autoImplicit false

namespace Emend

open Scan
open Text (Blank Inked isBlank)
open Item (Clear arePlain)
open Rule (Occurs OccursAt isCode)

namespace Scan

theorem laid_bound {text : List Char} {place : Nat} {tokens : List Token}
    (laid : Laid text place tokens) (within : place ≤ text.length) :
    stopAfter place tokens ≤ text.length := by
  induction tokens generalizing place with
  | nil => exact within
  | cons token tokens ih =>
      obtain ⟨-, -, bound, -, -, rest⟩ := laid
      rw [stopAfter_cons]
      exact ih rest bound

theorem length_between {text : List Char} {a b : Nat} (bound : b ≤ text.length) :
    (between text a b).length = b - a := by
  rw [between, List.length_take, List.length_drop]
  omega

end Scan

theorem Rule.OccursAt.bound {text : List Char} {rule : Rule} {start stop : Nat} {items : List Item}
    (occurs : OccursAt text rule start stop items) : stop ≤ text.length := by
  obtain ⟨token, tokens, -, laid, rfl, -⟩ := occurs
  obtain ⟨-, -, bound, -, -, rest⟩ := laid
  rw [stopAfter_cons]
  exact laid_bound rest bound

namespace Declaration

def File.source (file : File) : List Char := file.text.toList

theorem File.slice_eq (file : File) (span : Span) :
    file.slice span = .ofList (between file.source span.start span.stop) := by
  rw [File.slice, Span.slice, Array.toList_extract, List.extract_eq_take_drop, between, File.source]

/-! ## Elements -/

/-- An element that is read as it is meant. -/
structure PlainElement (text : List Char) (span : Span) (items : List Item) : Prop where
  plain : arePlain items = true
  even : Even text span.start
    (((extents .elementValue items).head?.map (·.span.start)).getD span.stop)

section

variable {file : File} {text : List Char} {items : List Item} {a b : Nat}

/-- A value stands behind an equals sign. -/
theorem value_of_occurs (occurs : Occurs text Grammar.elementValue a b items)
    (clear : Clear items) :
    ∃ value inner, items = [.node .elementValue value inner] ∧ value.span.stop = b ∧
      a ≤ value.span.start ∧ value.span.start ≤ b ∧ b ≤ text.length ∧
      (Even text a value.span.start → ∃ gap gap', Blank gap ∧ Blank gap' ∧
        between text a value.span.start = gap ++ '=' :: gap') := by
  obtain ⟨middle, _, _, rfl, sign, node⟩ := occurs.sequence
  obtain ⟨clearSign, clearNode⟩ := Item.clear_append.1 clear
  obtain ⟨rfl, marked⟩ := sign.marked clearSign
  obtain ⟨value, inner, rfl, before, rfl, here, gap⟩ := node.clear_node clearNode rfl
  refine ⟨value, inner, rfl, rfl, sign.le.trans before, here.occurs.le, here.bound,
    fun even => ?_⟩
  obtain ⟨blank, all, spelled⟩ := marked (even.sub (Nat.le_refl _) before)
  refine ⟨blank, _, all, (even.sub sign.le (Nat.le_refl _)).blank gap, ?_⟩
  rw [between_append sign.le before, spelled]
  simp

/-- **An element** is cut between its name and its value. -/
theorem element_plain {span : Span} {name value : Rule}
    (values : value = Grammar.elementValue ∨ value = .optional Grammar.elementValue)
    (made : name.consists (Terminal.isWritten isCode) Rule.isSpelled = true)
    (occurs : OccursAt file.source (.sequence (.node .elementName name) value) span.start span.stop
      items)
    (plain : PlainElement file.source span items) :
    ∃ name, extents .elementName items = [name] ∧
      Inked (between file.source name.span.start name.span.stop) ∧
      ((∃ value gap, extents .elementValue items = [value] ∧ Blank gap ∧
        file.element? span = some
          (.ofList (between file.source name.span.start name.span.stop ++ gap),
            file.value (textOf file.source value) value.span.start)) ∨
      (extents .elementValue items = [] ∧ file.element? span = none ∧
        file.slice span = textOf file.source name)) := by
  obtain ⟨plain, even⟩ := plain
  have clear := Item.clear_of_arePlain plain
  rcases occurs.sequence with ⟨middle, front, back, rfl, node, rest⟩ | ⟨absent, -⟩
  · obtain ⟨clearNode, clearRest⟩ := Item.clear_append.1 clear
    obtain ⟨plainNode, -⟩ := Item.arePlain_append.1 plain
    obtain ⟨extent, inner, rfl, start, rfl, here⟩ := node.node clearNode
    have written (even : Even file.source span.start extent.span.stop) := here.written
      (Item.clear_of_arePlain (Item.arePlain_of_mem plainNode (List.mem_singleton_self _) rfl))
      even made
    have valued : (extent.span.stop = span.stop ∧ back = []) ∨
        Occurs file.source Grammar.elementValue extent.span.stop span.stop back := by
      rcases values with rfl | rfl
      · exact .inr rest
      · exact rest.optional.imp_left fun both => ⟨both.1.symm, both.2⟩
    rcases valued with ⟨last, rfl⟩ | value
    · have even' : Even file.source span.start span.stop := by simpa using even
      rw [← last] at even'
      obtain ⟨inked, free⟩ := written even'
      have slice : file.slice span = textOf file.source extent := by
        rw [file.slice_eq, textOf, start, last]
      refine ⟨extent, by simp, start ▸ inked, .inr ⟨by simp, ?_, slice⟩⟩
      exact file.element?_eq_none slice (start ▸ free '=' (by decide) (by decide))
    · obtain ⟨place, inner', rfl, last, before, after, bound, split⟩ := value_of_occurs value clearRest
      have even' : Even file.source span.start place.span.start := by simpa using even
      have order : span.start ≤ extent.span.stop := node.occurs.le
      obtain ⟨inked, free⟩ := written (even'.sub (Nat.le_refl _) before)
      obtain ⟨gap, gap', blank, blank', sign⟩ := split (even'.sub order (Nat.le_refl _))
      have front : between file.source span.start place.span.start =
          between file.source span.start extent.span.stop ++ gap ++ '=' :: gap' := by
        rw [between_append order before, sign, List.append_assoc]
      have slice : file.slice span = .ofList (between file.source span.start extent.span.stop ++ gap ++
          '=' :: (gap' ++ between file.source place.span.start place.span.stop)) := by
        rw [file.slice_eq, between_append (order.trans before) after, front, last]
        simp
      have offset : span.start + (between file.source span.start extent.span.stop ++ gap ++
          '=' :: gap').length = place.span.start := by
        rw [← front, length_between (after.trans bound), Nat.add_sub_cancel' (order.trans before)]
      have cut := file.element?_eq slice (free '=' (by decide) (by decide)) blank blank'
      rw [offset] at cut
      exact ⟨extent, by simp, start ▸ inked, .inl ⟨place, gap, by simp, blank, start ▸ cut⟩⟩
  · cases absent

end

/-- The name of an element. -/
def elementName (file : File) (items : List Item) : String :=
  (text? file.source .elementName items).getD ""

/-- The value of an element: the text of its node, without the indentation of its lines. -/
def elementValue? (file : File) (items : List Item) : Option String :=
  (extents .elementValue items).head?.map fun value =>
    file.value (textOf file.source value) value.span.start

/-- The rule of an element of constants. -/
def constantRule : Rule :=
  .all [.node .elementName (.any [.name, .category .reserved]), Grammar.elementValue]

/-- The rule of an element of properties. -/
def propertyRule : Rule :=
  .all [.node .elementName Grammar.plainVariable, .optional Grammar.elementValue]

section

variable {file : File} {items : List Item} {element : Extent}

theorem constant_plain (occurs : OccursAt file.source constantRule element.span.start
      element.span.stop items) (plain : PlainElement file.source element.span items)
    {constant : Constant} (declares : file.DeclaresConstant element constant) :
    constant.name = elementName file items ∧ some constant.value = elementValue? file items := by
  obtain ⟨text, value, found, name, rfl⟩ := declares
  have made : (Rule.any [.name, .category .reserved]).consists (Terminal.isWritten isCode)
      Rule.isSpelled = true := by decide
  obtain ⟨extent, named, inked, cut⟩ := element_plain (.inl rfl) made occurs plain
  rcases cut with ⟨place, gap, valued, blank, cut⟩ | ⟨-, uncut, -⟩
  · rw [cut] at found
    obtain ⟨rfl, same⟩ := Prod.mk.inj (Option.some.inj found)
    have trimmed := inked.trimChars Blank.nil blank
    rw [List.nil_append] at trimmed
    refine ⟨?_, by simp [elementValue?, valued, same]⟩
    rw [name, Text.trim_ofList, trimmed]
    simp [elementName, text?, named, textOf]
  · rw [uncut] at found
    cases found

theorem property_plain (occurs : OccursAt file.source propertyRule element.span.start
      element.span.stop items) (plain : PlainElement file.source element.span items)
    {property : Property} (declares : file.DeclaresProperty element property) :
    property.name = (Property.ofName (elementName file items)).name ∧
      property.value = elementValue? file items := by
  have made : Grammar.plainVariable.consists (Terminal.isWritten isCode) Rule.isSpelled = true := by
    decide
  obtain ⟨extent, named, inked, cut⟩ := element_plain (.inr rfl) made occurs plain
  have name : elementName file items = textOf file.source extent := by
    simp [elementName, text?, named]
  rw [name]
  unfold File.DeclaresProperty at declares
  rcases cut with ⟨place, gap, valued, blank, cut⟩ | ⟨unvalued, uncut, slice⟩
  · rw [cut] at declares
    have trimmed := inked.trimChars Blank.nil blank
    rw [List.nil_append] at trimmed
    refine ⟨declares.1.trans ?_, by simp [elementValue?, valued, declares.2]⟩
    simp only [Property.ofName, textOf, Text.trim_ofList, trimmed, inked.trimChars_self]
  · rw [uncut] at declares
    refine ⟨declares.1.trans ?_, by simp [elementValue?, unvalued, declares.2]⟩
    rw [slice]

end

/-! ## Methods -/

/-- Where the body begins, or what has none ends. -/
def bodyStart (items : List Item) (stop : Nat) : Nat :=
  ((extents .body items).head?.map (·.span.start)).getD stop

/-- A method that is read as it is meant. -/
structure PlainMethod (text : List Char) (span : Span) (items : List Item) : Prop where
  plain : arePlain items = true
  name : ∀ name ∈ extents .methodName items, Even text name.span.start name.span.stop
  tail : ∀ parameters ∈ extents .parameters items,
    Even text parameters.span.stop (bodyStart items span.stop)

/-- How a method ends: with its body, or as any statement. -/
def methodEnd : Rule := .any [.node .body (.category .block), .category .semicolon]

def methodRule : Rule :=
  .all [Grammar.attributes, .many (.category .modifier), .word "function", .optional (.mark "&"),
    .node .methodName (.any [.name, .category .reserved]),
    .node .parameters (.category .parameters), .optional (.category .returnType), methodEnd]

section

variable {text : List Char} {items : List Item} {a b : Nat}

/-- A return type stands behind a colon. -/
theorem returnType_of_occurs (occurs : Occurs text (.category .returnType) a b items)
    (plain : arePlain items = true) :
    ∃ type inner, items = [.node .returnType type inner] ∧ (Even text a b → ∃ blank gap,
      Blank blank ∧ Blank gap ∧ Inked (between text type.span.start type.span.stop) ∧
      ';' ∉ between text type.span.start type.span.stop ∧
      between text a b =
        blank ++ (':' :: (gap ++ between text type.span.start type.span.stop))) := by
  have clear := Item.clear_of_arePlain plain
  obtain ⟨middle, _, _, rfl, colon, node⟩ := occurs.category.sequence
  obtain ⟨clearColon, clearNode⟩ := Item.clear_append.1 clear
  obtain ⟨rfl, marked⟩ := colon.marked clearColon
  obtain ⟨type, inner, rfl, before, rfl, here, gap⟩ := node.clear_node clearNode rfl
  have clearType : Clear inner :=
    Item.clear_of_arePlain (Item.arePlain_of_mem plain (List.mem_singleton_self _) rfl)
  have made : (Rule.any [.category .type, .spelled "never"]).consists (Terminal.isWritten isCode)
      Rule.isSpelled = true := by decide
  refine ⟨type, inner, rfl, fun even => ?_⟩
  obtain ⟨inked, free⟩ :=
    here.written clearType (even.sub (colon.le.trans before) (Nat.le_refl _)) made
  obtain ⟨blank, all, spelled⟩ := marked (even.sub (Nat.le_refl _) (before.trans here.occurs.le))
  refine ⟨blank, _, all, (even.sub colon.le here.occurs.le).blank gap, inked,
    free ';' (by decide) (by decide), ?_⟩
  rw [between_append colon.le (before.trans here.occurs.le), spelled,
    between_append before here.occurs.le]
  simp

/-- What stands between a return type and the body of a method ends a statement. -/
theorem ending_of_methodEnd (occurs : Occurs text methodEnd a b items) (clear : Clear items) :
    (∀ label, label ≠ .body → extents label items = []) ∧ a ≤ bodyStart items b ∧
      (Even text a (bodyStart items b) → Ending (between text a (bodyStart items b))) := by
  rcases occurs.choice with body | ends
  · obtain ⟨extent, inner, rfl, before, rfl, here, gap⟩ := body.clear_node clear rfl
    have stop : bodyStart [.node .body extent inner] extent.span.stop = extent.span.start := by
      simp [bodyStart]
    rw [stop]
    exact ⟨fun label other => by simp [Ne.symm other], before, fun even => .implied (even.blank gap)⟩
  · obtain ⟨rfl, ending⟩ := ends.semicolon clear
    exact ⟨fun _ _ => rfl, ends.le, ending⟩

/-- The nodes of a method. -/
theorem method_of_occurs (occurs : OccursAt text methodRule a b items) (clear : Clear items) :
    ∃ lead name inner parameters inner' last returns back,
      items = lead ++ .node .methodName name inner :: .node .parameters parameters inner' ::
        (returns ++ back) ∧
      (∀ label, label ≠ .attributes → extents label lead = []) ∧
      OccursAt text (.any [.name, .category .reserved]) name.span.start name.span.stop inner ∧
      Occurs text (.optional (.category .returnType)) parameters.span.stop last returns ∧
      Occurs text methodEnd last b back := by
  obtain ⟨_, lead, _, rfl, attributes, rest⟩ := occurs.occurs.sequence
  obtain ⟨_, _, _, rfl, modifiers, rest₁⟩ := rest.sequence
  obtain ⟨_, _, _, rfl, keyword, rest₂⟩ := rest₁.sequence
  obtain ⟨_, _, _, rfl, reference, rest₃⟩ := rest₂.sequence
  obtain ⟨_, _, _, rfl, node, rest₄⟩ := rest₃.sequence
  obtain ⟨_, _, _, rfl, node', rest₅⟩ := rest₄.sequence
  obtain ⟨last, returns, back, rfl, returned, ends⟩ := rest₅.sequence
  simp only [Item.clear_append] at clear
  obtain ⟨clearLead, clearModifiers, clearKeyword, clearReference, clearNode, clearNode', -⟩ := clear
  obtain rfl := modifiers.items_eq_nil clearModifiers (by decide)
  obtain rfl := keyword.items_eq_nil clearKeyword rfl
  obtain rfl := reference.items_eq_nil clearReference rfl
  obtain ⟨name, inner, rfl, -, rfl, named, -⟩ := node.clear_node clearNode (by decide)
  obtain ⟨parameters, inner', rfl, -, rfl, -, -⟩ := node'.clear_node clearNode' rfl
  refine ⟨lead, name, inner, parameters, inner', last, returns, back, rfl, fun label other => ?_,
    named, returned, ends⟩
  rcases attributes.optional with ⟨-, rfl⟩ | listed
  · rfl
  · obtain ⟨extent, inner, rfl, -⟩ := listed.clear_node clearLead rfl
    simp [Ne.symm other]

/-- **A method** is read with its name and its return type. -/
theorem method_plain {span : Span} (occurs : OccursAt text methodRule span.start span.stop items)
    (plain : PlainMethod text span items) :
    ∃ name parameters, extents .methodName items = [name] ∧
      extents .parameters items = [parameters] ∧
      Inked (between text name.span.start name.span.stop) ∧
      File.returnType? (.ofList (between text parameters.span.stop (bodyStart items span.stop))) =
        text? text .returnType items := by
  obtain ⟨plain, evenName, evenTail⟩ := plain
  obtain ⟨lead, name, inner, parameters, inner', last, returns, back, rfl, alone, named, returned,
    ends⟩ := method_of_occurs occurs (Item.clear_of_arePlain plain)
  simp only [Item.arePlain_append, Item.arePlain_cons] at plain
  obtain ⟨-, -, -, plainReturns, plainBack⟩ := plain
  obtain ⟨single, order, ending⟩ := ending_of_methodEnd ends (Item.clear_of_arePlain plainBack)
  obtain ⟨nonempty, chars, -⟩ := named.name rfl
  have typed := returned.optional.imp_right fun written => returnType_of_occurs written plainReturns
  have other : ∀ label, label ≠ .returnType → extents label returns = [] := by
    intro label different
    rcases typed with ⟨-, rfl⟩ | ⟨type, inner, rfl, -⟩
    · rfl
    · simp [Ne.symm different]
  have names : extents .methodName (lead ++ .node .methodName name inner ::
      .node .parameters parameters inner' :: (returns ++ back)) = [name] := by
    simp [alone, other, single]
  have lists : extents .parameters (lead ++ .node .methodName name inner ::
      .node .parameters parameters inner' :: (returns ++ back)) = [parameters] := by
    simp [alone, other, single]
  have stop : bodyStart (lead ++ .node .methodName name inner ::
      .node .parameters parameters inner' :: (returns ++ back)) span.stop =
        bodyStart back span.stop := by
    simp [bodyStart, alone, other]
  have types : extents .returnType (lead ++ .node .methodName name inner ::
      .node .parameters parameters inner' :: (returns ++ back)) = extents .returnType returns := by
    simp [alone, single]
  have evenName' := evenName name (names ▸ List.mem_singleton_self _)
  have evenTail' := evenTail parameters (lists ▸ List.mem_singleton_self _)
  refine ⟨name, parameters, names, lists,
    .of_forall (fun c inside => evenName'.ink inside (chars c inside)) nonempty, ?_⟩
  rw [stop] at evenTail' ⊢
  rw [text?, types]
  rcases typed with ⟨rfl, rfl⟩ | ⟨type, inner, rfl, written⟩
  · exact File.returnType?_of_ending (ending evenTail')
  · have before := returned.le
    obtain ⟨blank, gap, all, all', inked, plain, spelled⟩ :=
      written (evenTail'.sub (Nat.le_refl _) order)
    rw [between_append before order, spelled, File.returnType?_written all all' inked plain
      (ending (evenTail'.sub before (Nat.le_refl _)))]
    rfl

end

end Declaration

end Emend

import Emend.Proofs.Source.BlockScope
import Emend.Proofs.Source.Types

/-!
# What a syntax tree declares

The statements of a file and of its namespaces stand in namespaces (`statementsIn`), and each of
them declares what its nodes say (`declared?`): a directive, imports, or a type with its members.
The library takes most of that from texts that it cuts between nodes. A statement is plain if it is
cut where it is meant to be (`PlainStatement`); a type that is plain is read with just the names,
values and return types that its nodes have (`type_declared`).
-/

set_option autoImplicit false

namespace Emend

open Scan
open Text (Blank Inked isBlank)
open Item (Clear arePlain)
open Rule (Occurs OccursAt isCode bodies)

namespace Declaration

/-! ## The rules of nodes -/

def constantsRule : Rule := .all [Grammar.attributes, Grammar.constants]

def propertiesRule : Rule := .all [Grammar.attributes, Grammar.properties]

/-- The rules that the categories have for the nodes with a label. -/
def rulesOf : Label → List Rule
  | .directive => [Grammar.directive]
  | .space => [Grammar.namespaceStatement]
  | .imports => [Grammar.importStatement]
  | .class => [typeRule .class]
  | .interface => [typeRule .interface]
  | .trait => [typeRule .trait]
  | .traitUse => [useRule]
  | .constants => [constantsRule]
  | .properties => [propertiesRule]
  | .method => [methodRule]
  | _ => []

/-- The labels of statements, of members, and of their parts. -/
def readLabels : List Label :=
  [.directive, .space, .imports, .class, .interface, .trait, .traitUse, .constants, .properties,
    .method, .body, .element]

theorem bodies_rule {label : Label} (read : label ∈ readLabels) (c : Category) :
    (Grammar.rule c).bodies label (fun _ => rulesOf label) ⊆ rulesOf label := by
  have listed : c ∈ Grammar.categories := by cases c <;> decide
  have each : ∀ label ∈ readLabels, ∀ c ∈ Grammar.categories,
      ∀ rule ∈ (Grammar.rule c).bodies label (fun _ => rulesOf label), rule ∈ rulesOf label := by
    decide +kernel
  exact each label read c listed

/-- The nodes among the items are made by the rules of their labels. -/
def Made (text : List Char) (items : List Item) : Prop :=
  ∀ ⦃label extent inner⦄, .node label extent inner ∈ items → ∀ rule ∈ rulesOf label,
    OccursAt text rule extent.span.start extent.span.stop inner

section

variable {text : List Char} {rule made : Rule} {items inner : List Item} {start stop : Nat}
  {label : Label} {extent : Extent}

/-- A node among the items that a rule makes is made by the rule of its label. -/
theorem node_of_mem (occurs : Occurs text rule start stop items) (read : label ∈ readLabels)
    (alone : rule.bodies label (fun _ => rulesOf label) ⊆ [made])
    (listed : .node label extent inner ∈ items) :
    OccursAt text made extent.span.start extent.span.stop inner := by
  obtain ⟨rule', listed', -, -, here⟩ := occurs.node_mem (bodies_rule read) listed
  obtain rfl := List.mem_singleton.1 (alone listed')
  exact here

/-- Each of these labels has one rule. -/
theorem rulesOf_eq_singleton (known : rule ∈ rulesOf label) :
    rulesOf label = [rule] ∧ label ∈ readLabels := by
  cases label with
  | directive | space | imports | «class» | interface | trait | traitUse | constants | properties
  | method =>
      obtain rfl := List.mem_singleton.1 known
      exact ⟨rfl, by decide⟩
  | _ => cases known

theorem made_of_occurs (occurs : Occurs text rule start stop items)
    (own : ∀ label ∈ readLabels, rule.bodies label (fun _ => rulesOf label) ⊆ rulesOf label) :
    Made text items := by
  intro label extent inner listed rule' known
  obtain ⟨single, read⟩ := rulesOf_eq_singleton known
  exact node_of_mem occurs read (single ▸ own label read) listed

theorem made_of_category {c : Category} (occurs : Occurs text (.category c) start stop items) :
    Made text items :=
  made_of_occurs occurs fun _ _ _ => id

theorem made_of_file (occurs : Occurs text Grammar.file start stop items) : Made text items := by
  refine made_of_occurs occurs ?_
  have each : ∀ label ∈ readLabels, ∀ rule ∈ Grammar.file.bodies label (fun _ => rulesOf label),
      rule ∈ rulesOf label := by
    decide +kernel
  exact each

end

/-! ## What nodes declare -/

/-- A type with its members. -/
structure DeclaredType where
  kind : TypeKind
  name : String
  traits : List String
  /-- Names and values. -/
  constants : List (String × String)
  properties : List (String × Option String)
  /-- Names and return types. -/
  methods : List (String × Option String)
  deriving DecidableEq, Repr

inductive Declared where
  | directive (strictTypes : Bool)
  | imports (imports : List Import)
  | type (type : DeclaredType)
  deriving DecidableEq, Repr

/-- What stands in the body of a declaration. -/
def bodyItems (items : List Item) : List Item := (inners .body items).head?.getD []

/-- The elements of the lists with a label. -/
def elements (label : Label) (items : List Item) : List (Extent × List Item) :=
  (inners label items).flatMap (parts .element)

def declaredType (file : File) (kind : TypeKind) (items : List Item) : DeclaredType :=
  let members := bodyItems items
  { kind
    name := (text? file.source .typeName items).getD ""
    traits := (inners .traitUse members).flatMap (traitNames file.source)
    constants := (elements .constants members).map fun element =>
      (elementName file element.2, (elementValue? file element.2).getD "")
    properties := (elements .properties members).map fun element =>
      ((Property.ofName (elementName file element.2)).name, elementValue? file element.2)
    methods := (inners .method members).map fun items =>
      ((text? file.source .methodName items).getD "", text? file.source .returnType items) }

/-- What a statement declares. -/
def declared? (file : File) : Item → Option Declared
  | .node .directive _ items => some (.directive (declaredStrict file.source items))
  | .node .imports _ items => some (.imports (declaredImports file.source items))
  | .node .class _ items => some (.type (declaredType file .class items))
  | .node .interface _ items => some (.type (declaredType file .interface items))
  | .node .trait _ items => some (.type (declaredType file .trait items))
  | _ => none

def spaceSpan (items : List Item) : Option Span := (extents .spaceName items).head?.map (·.span)

/-- The name of the namespace that a statement opens. -/
def spaceOf (file : File) (items : List Item) : String :=
  Name.normalize (file.spaceName (spaceSpan items))

mutual

/-- The statements of an item that stands in a namespace, and the namespace of what follows: a
namespace with a body ends with it, and one without a body goes on. -/
def statementsOf (file : File) (space : String) : Item → List (String × Item) × String
  | .trivia _ => ([], space)
  | .node label extent items =>
    if label = .space then
      match bodyStatements file (spaceOf file items) items with
      | some inside => (inside, space)
      | none => ([], spaceOf file items)
    else ([(space, .node label extent items)], space)

/-- The statements of a file or of a namespace, each with the namespace it stands in. -/
def statementsIn (file : File) (space : String) : List Item → List (String × Item)
  | [] => []
  | item :: items =>
    let stated := statementsOf file space item
    stated.1 ++ statementsIn file stated.2 items

/-- The statements in the body among the items. -/
def bodyStatements (file : File) (space : String) : List Item → Option (List (String × Item))
  | [] => none
  | .node .body _ items :: _ => some (statementsIn file space items)
  | _ :: items => bodyStatements file space items

end

/-- What stands in a file, each declaration with its namespace. -/
def declaredIn (file : File) (space : String) (items : List Item) : List (String × Declared) :=
  (statementsIn file space items).filterMap fun stated => (declared? file stated.2).map (stated.1, ·)

/-! ## Plain statements -/

/-- The members of a type are read as they are meant. -/
structure PlainMembers (text : List Char) (members : List Item) : Prop where
  traitUses : ∀ use ∈ parts .traitUse members, PlainUse text use.1.span use.2
  constants : ∀ element ∈ elements .constants members, PlainElement text element.1.span element.2
  properties : ∀ element ∈ elements .properties members,
    PlainElement text element.1.span element.2
  methods : ∀ method ∈ parts .method members, PlainMethod text method.1.span method.2

structure PlainType (text : List Char) (span : Span) (items : List Item) : Prop where
  header : PlainHeader text span items
  members : PlainMembers text (bodyItems items)

/-- A statement is read as it is meant. -/
def PlainStatement (text : List Char) : Item → Prop
  | .node .directive extent items => PlainDirective text extent.span items
  | .node .imports extent items => PlainImports text extent.span items
  | .node .class extent items | .node .interface extent items | .node .trait extent items =>
    PlainType text extent.span items
  | _ => True

/-! ### Checking whether a statement is plain -/

section

variable {text : List Char} {a b : Nat} {span : Span} {items : List Item}

-- Only the characters of a text are looked at, although there are finitely many characters.
local instance decidableOverText {p : Char → Prop} [DecidablePred p] {cs : List Char} :
    Decidable (∀ c ∈ cs, p c) :=
  List.decidableBAll p cs

instance : Decidable (Even text a b) :=
  inferInstanceAs (Decidable (∀ c ∈ between text a b, Lexeme.isGap c = isBlank c))

instance : Decidable (PlainDirective text span items) :=
  decidable_of_iff (arePlain items = true ∧ Even text span.start span.stop ∧
      text? text .settingName items = some "strict_types" ∧
      text? text .settingValue items ∈ [some "0", some "1"] ∧
      ∀ value ∈ extents .settingValue items, ∀ c ∈ between text value.span.stop span.stop,
        isBlank c = true ∨ c = ')' ∨ c = ';')
    ⟨fun ⟨plain, even, name, value, ends⟩ => ⟨plain, even, name, value, ends⟩,
      fun ⟨plain, even, name, value, ends⟩ => ⟨plain, even, name, value, ends⟩⟩

instance : Decidable (PlainClause text items) :=
  decidable_of_iff ((∀ c ∈ (clauseParts text items).name.toList, isBlank c = false) ∧
      ((clauseParts text items).kind = none → kindOf? (clauseParts text items).name = none) ∧
      ∀ kind ∈ extents .importKind items, ∀ name ∈ extents .importName items,
        kind.span.stop < name.span.start)
    ⟨fun ⟨name, kind, apart⟩ => ⟨name, kind, apart⟩, fun ⟨name, kind, apart⟩ => ⟨name, kind, apart⟩⟩

instance {group : Extent} : Decidable (PlainGroup text items group) :=
  decidable_of_iff ((∀ c ∈ (textOf text group).toList, isBlank c = false) ∧
      (extents .importKind items = [] → kindOf? (textOf text group) = none) ∧
      ∀ kind ∈ extents .importKind items, kind.span.stop < group.span.start)
    ⟨fun ⟨name, kind, apart⟩ => ⟨name, kind, apart⟩, fun ⟨name, kind, apart⟩ => ⟨name, kind, apart⟩⟩

instance : Decidable (PlainImports text span items) :=
  decidable_of_iff (arePlain items = true ∧ Even text span.start span.stop ∧
      "use".toList <+: text.drop span.start ∧
      (∀ clause ∈ inners .importClause items, PlainClause text clause) ∧
      (extents .importGroup items = [] → ∀ clause ∈ (clausesIn text items).tail, clause.kind = none) ∧
      ∀ group ∈ extents .importGroup items, PlainGroup text items group)
    ⟨fun ⟨plain, even, keyword, clauses, listed, grouped⟩ =>
        ⟨plain, even, keyword, clauses, listed, grouped⟩,
      fun ⟨plain, even, keyword, clauses, listed, grouped⟩ =>
        ⟨plain, even, keyword, clauses, listed, grouped⟩⟩

instance : Decidable (PlainUse text span items) :=
  decidable_of_iff (arePlain items = true ∧ Even text span.start (namesStop items span.stop) ∧
      "use".toList <+: text.drop span.start)
    ⟨fun ⟨plain, even, keyword⟩ => ⟨plain, even, keyword⟩,
      fun ⟨plain, even, keyword⟩ => ⟨plain, even, keyword⟩⟩

instance : Decidable (PlainElement text span items) :=
  decidable_of_iff (arePlain items = true ∧ Even text span.start
      (((extents .elementValue items).head?.map (·.span.start)).getD span.stop))
    ⟨fun ⟨plain, even⟩ => ⟨plain, even⟩, fun ⟨plain, even⟩ => ⟨plain, even⟩⟩

instance : Decidable (PlainMethod text span items) :=
  decidable_of_iff (arePlain items = true ∧
      (∀ name ∈ extents .methodName items, Even text name.span.start name.span.stop) ∧
      ∀ parameters ∈ extents .parameters items,
        Even text parameters.span.stop (bodyStart items span.stop))
    ⟨fun ⟨plain, name, tail⟩ => ⟨plain, name, tail⟩, fun ⟨plain, name, tail⟩ => ⟨plain, name, tail⟩⟩

instance : Decidable (PlainHeader text span items) :=
  decidable_of_iff (arePlain items = true ∧ extents .attributes items = [] ∧
      Even text span.start (bodyStart items span.stop) ∧
      '(' ∉ between text span.start (bodyStart items span.stop))
    ⟨fun ⟨plain, attributes, even, parens⟩ => ⟨plain, attributes, even, parens⟩,
      fun ⟨plain, attributes, even, parens⟩ => ⟨plain, attributes, even, parens⟩⟩

instance {members : List Item} : Decidable (PlainMembers text members) :=
  decidable_of_iff ((∀ use ∈ parts .traitUse members, PlainUse text use.1.span use.2) ∧
      (∀ element ∈ elements .constants members, PlainElement text element.1.span element.2) ∧
      (∀ element ∈ elements .properties members, PlainElement text element.1.span element.2) ∧
      ∀ method ∈ parts .method members, PlainMethod text method.1.span method.2)
    ⟨fun ⟨traitUses, constants, properties, methods⟩ =>
        ⟨traitUses, constants, properties, methods⟩,
      fun ⟨traitUses, constants, properties, methods⟩ =>
        ⟨traitUses, constants, properties, methods⟩⟩

instance : Decidable (PlainType text span items) :=
  decidable_of_iff (PlainHeader text span items ∧ PlainMembers text (bodyItems items))
    ⟨fun ⟨header, members⟩ => ⟨header, members⟩, fun ⟨header, members⟩ => ⟨header, members⟩⟩

instance : DecidablePred (PlainStatement text) := fun item => by
  unfold PlainStatement
  split <;> infer_instance

end

/-! ## What the outline has of the nodes -/

section

variable (label : Label) (items : List Item)

theorem filterMap_extent? : items.filterMap (Item.extent? label) = extents label items := by
  rw [extents, parts, List.map_filterMap]
  refine List.filterMap_congr fun item _ => ?_
  cases item with
  | trivia found => rfl
  | node found extent inner => by_cases same : found = label <;> simp [Item.extent?, same]

theorem filterMap_items? : items.filterMap (Item.items? label) = inners label items := by
  rw [inners, parts, List.map_filterMap]
  refine List.filterMap_congr fun item _ => ?_
  cases item with
  | trivia found => rfl
  | node found extent inner => by_cases same : found = label <;> simp [Item.items?, same]

theorem findSome?_extent? : items.findSome? (Item.extent? label) = (extents label items).head? := by
  rw [← filterMap_extent?, List.head?_filterMap]

theorem findSome?_items? : items.findSome? (Item.items? label) = (inners label items).head? := by
  rw [← filterMap_items?, List.head?_filterMap]

end

/-- What the members with one label have in the outline. -/
theorem flatMap_members {α : Type} {label : Label} {members : List Item}
    {f : MemberOutline → List α} {g : Extent × List Item → List α}
    (comment : ∀ span, f (.comment span) = []) (markup : ∀ line, f (.interpolation line) = [])
    (node : ∀ found extent inner, ((Item.node found extent inner).member?.toList).flatMap f =
      if found = label then g (extent, inner) else []) :
    (members.filterMap Item.member?).flatMap f = (parts label members).flatMap g := by
  induction members with
  | nil => rfl
  | cons item members ih =>
      have split : ((item :: members).filterMap Item.member?).flatMap f =
          item.member?.toList.flatMap f ++ (members.filterMap Item.member?).flatMap f := by
        rw [← List.flatMap_append, List.filterMap_cons]
        cases item.member? <;> rfl
      rw [split, ih]
      cases item with
      | trivia found =>
          obtain ⟨kind, span, line⟩ := found
          cases kind with
          | comment => simp [Item.member?, comment, parts]
          | interpolation => simp [Item.member?, markup, parts]
      | node found extent inner =>
          rw [node, parts_cons]
          split <;> rfl

theorem member?_method (extent : Extent) (inner : List Item) :
    (Item.node .method extent inner).member? =
      match (extents .methodName inner).head?, (extents .parameters inner).head? with
      | some name, some parameters =>
        some (.method extent (Item.attributeLine inner) name.span parameters.span
          ((extents .body inner).head?.map (·.span)))
      | _, _ => none := by
  cases name : (extents .methodName inner).head? <;>
    cases parameters : (extents .parameters inner).head? <;>
      simp only [Item.member?, findSome?_extent?, name, parameters]

section

variable (members : List Item)

theorem traitSpans_members : (members.filterMap Item.member?).flatMap (·.traitSpans) =
    (parts .traitUse members).flatMap fun use => [use.1.span] := by
  refine flatMap_members (fun _ => rfl) (fun _ => rfl) fun found extent inner => ?_
  cases found with
  | method =>
      rw [member?_method]
      split <;> rfl
  | _ => rfl

theorem constantElements_members : (members.filterMap Item.member?).flatMap (·.constantElements) =
    (parts .constants members).flatMap fun list => extents .element list.2 := by
  refine flatMap_members (fun _ => rfl) (fun _ => rfl) fun found extent inner => ?_
  cases found with
  | method =>
      rw [member?_method]
      split <;> rfl
  | constants => exact (List.append_nil _).trans (filterMap_extent? .element inner)
  | _ => rfl

theorem propertyElements_members : (members.filterMap Item.member?).flatMap (·.propertyElements) =
    (parts .properties members).flatMap fun list => extents .element list.2 := by
  refine flatMap_members (fun _ => rfl) (fun _ => rfl) fun found extent inner => ?_
  cases found with
  | method =>
      rw [member?_method]
      split <;> rfl
  | properties => exact (List.append_nil _).trans (filterMap_extent? .element inner)
  | _ => rfl

/-- Where the name of a method stands, and where its return type is looked for. -/
def methodSpans (extent : Extent) (items : List Item) : List (Span × Span) :=
  match (extents .methodName items).head?, (extents .parameters items).head? with
  | some name, some parameters =>
    [(name.span, ⟨parameters.span.stop, bodyStart items extent.span.stop⟩)]
  | _, _ => []

theorem methodSpans_members : (members.filterMap Item.member?).flatMap (·.methodSpans) =
    (parts .method members).flatMap fun method => methodSpans method.1 method.2 := by
  refine flatMap_members (fun _ => rfl) (fun _ => rfl) fun found extent inner => ?_
  cases found with
  | method =>
      rw [member?_method, if_pos rfl]
      cases name : (extents .methodName inner).head? <;>
        cases parameters : (extents .parameters inner).head? <;>
        simp [methodSpans, name, parameters, MemberOutline.methodSpans, bodyStart,
          Function.comp_def]
  | _ => rfl

end

/-- Related lists say the same if their members do. -/
theorem map_eq_of_forall₂ {α β γ : Type} {related : α → β → Prop} {f : α → γ} {g : β → γ}
    {xs : List α} {ys : List β} (pairs : List.Forall₂ related xs ys)
    (same : ∀ x ∈ xs, ∀ y, related x y → g y = f x) : ys.map g = xs.map f := by
  induction pairs with
  | nil => rfl
  | cons first _ ih =>
      rw [List.map_cons, List.map_cons, same _ List.mem_cons_self _ first,
        ih fun x listed => same x (List.mem_cons_of_mem _ listed)]

/-! ## Types -/

section

variable {file : File} {members items : List Item}

theorem traits_declared (made : Made file.source members) (plain : PlainMembers file.source members) :
    (((members.filterMap Item.member?).flatMap (·.traitSpans)).flatMap fun span =>
        traitUses (file.slice span)).map (·.name) =
      (inners .traitUse members).flatMap (traitNames file.source) := by
  rw [traitSpans_members, List.flatMap_assoc, List.map_flatMap, inners, List.flatMap_map]
  refine List.flatMap_congr fun use listed => ?_
  rw [List.flatMap_singleton, file.slice_eq]
  exact traitUses_plain (made (mem_parts.1 listed) _ (List.mem_singleton_self _))
    (plain.traitUses use listed)

/-- An element stands in a list among the members. -/
theorem element_of_mem {label : Label} {rule made' : Rule} (made : Made file.source members)
    (known : rule ∈ rulesOf label)
    (alone : rule.bodies .element (fun _ => rulesOf .element) ⊆ [made'])
    {element : Extent × List Item} (listed : element ∈ elements label members) :
    OccursAt file.source made' element.1.span.start element.1.span.stop element.2 := by
  obtain ⟨list, inside, there⟩ := List.mem_flatMap.1 listed
  obtain ⟨⟨extent, _⟩, part, rfl⟩ := List.mem_map.1 inside
  exact node_of_mem (made (mem_parts.1 part) rule known).occurs (by decide) alone
    (mem_parts.1 there)

theorem flatMap_elements (label : Label) :
    ((parts label members).flatMap fun list => extents .element list.2) =
      (elements label members).map (·.1) := by
  rw [elements, inners, List.flatMap_map, List.map_flatMap]
  rfl

theorem constants_declared (made : Made file.source members)
    (plain : PlainMembers file.source members) {constants : List Constant}
    (read : List.Forall₂ file.DeclaresConstant
      ((members.filterMap Item.member?).flatMap (·.constantElements)) constants) :
    (constants.map fun c => (c.name, c.value)) = (elements .constants members).map fun element =>
      (elementName file element.2, (elementValue? file element.2).getD "") := by
  rw [constantElements_members, flatMap_elements, List.forall₂_map_left_iff] at read
  refine map_eq_of_forall₂ read fun element listed constant declares => ?_
  have occurs : OccursAt file.source constantRule _ _ element.2 :=
    element_of_mem made (List.mem_singleton_self constantsRule) (by decide) listed
  obtain ⟨name, value⟩ := constant_plain occurs (plain.constants element listed) declares
  rw [name, ← value]
  rfl

theorem properties_declared (made : Made file.source members)
    (plain : PlainMembers file.source members) {properties : List Property}
    (read : List.Forall₂ file.DeclaresProperty
      ((members.filterMap Item.member?).flatMap (·.propertyElements)) properties) :
    (properties.map fun p => (p.name, p.value)) = (elements .properties members).map fun element =>
      ((Property.ofName (elementName file element.2)).name, elementValue? file element.2) := by
  rw [propertyElements_members, flatMap_elements, List.forall₂_map_left_iff] at read
  refine map_eq_of_forall₂ read fun element listed property declares => ?_
  have occurs : OccursAt file.source propertyRule _ _ element.2 :=
    element_of_mem made (List.mem_singleton_self propertiesRule) (by decide) listed
  obtain ⟨name, value⟩ := property_plain occurs (plain.properties element listed) declares
  rw [name, value]

theorem methods_declared (made : Made file.source members)
    (plain : PlainMembers file.source members) {methods : List Method}
    (read : List.Forall₂ file.DeclaresMethod
      ((members.filterMap Item.member?).flatMap (·.methodSpans)) methods) :
    (methods.map fun m => (m.name, m.returnType)) = (inners .method members).map fun items =>
      ((text? file.source .methodName items).getD "", text? file.source .returnType items) := by
  have each : ∀ method ∈ parts .method members, ∃ name parameters : Span,
      methodSpans method.1 method.2 = [(name, parameters)] ∧
        Text.trim (file.slice name) = (text? file.source .methodName method.2).getD "" ∧
        File.returnType? (file.slice parameters) = text? file.source .returnType method.2 := by
    intro method listed
    obtain ⟨name, parameters, named, single, inked, returns⟩ :=
      method_plain (made (mem_parts.1 listed) _ (List.mem_singleton_self _))
        (plain.methods method listed)
    refine ⟨name.span, ⟨parameters.span.stop, bodyStart method.2 method.1.span.stop⟩, ?_, ?_, ?_⟩
    · rw [methodSpans, named, single]
      rfl
    · rw [file.slice_eq, Text.trim_ofList, inked.trimChars_self, text?, named]
      rfl
    · rw [file.slice_eq, returns]
  have single : ((parts .method members).flatMap fun method => methodSpans method.1 method.2) =
      (parts .method members).map fun method => (methodSpans method.1 method.2).head?.getD default := by
    rw [← List.flatMap_pure_eq_map]
    refine List.flatMap_congr fun method listed => ?_
    obtain ⟨name, parameters, spans, -⟩ := each method listed
    simp [spans]
  rw [methodSpans_members, single, List.forall₂_map_left_iff] at read
  rw [inners, List.map_map]
  refine map_eq_of_forall₂ read fun method listed written declares => ?_
  obtain ⟨name, parameters, spans, named, returns⟩ := each method listed
  simp only [spans, List.head?_cons, Option.getD_some] at declares
  obtain ⟨name', returns'⟩ := declares
  simp only [Function.comp_apply, name', returns', named, returns]

theorem bodies_body (kind : TypeKind) :
    (typeRule kind).bodies .body (fun _ => rulesOf .body) ⊆ [.category .memberList] := by
  cases kind <;> decide

/-- The members of a type are made by the rules of members. -/
theorem made_bodyItems {kind : TypeKind} {span : Span}
    (occurs : OccursAt file.source (typeRule kind) span.start span.stop items) :
    Made file.source (bodyItems items) := by
  unfold bodyItems
  cases first : (inners .body items).head? with
  | none => exact fun _ _ _ listed => absurd listed List.not_mem_nil
  | some inner =>
      obtain ⟨⟨extent, _⟩, part, rfl⟩ := List.mem_map.1 (List.mem_of_mem_head? first)
      have here := node_of_mem occurs.occurs (by decide) (bodies_body kind) (mem_parts.1 part)
      exact made_of_category here.occurs

end

/-- What a type says that was read. -/
def WrittenType.declared (type : WrittenType) : DeclaredType where
  kind := type.head.kind
  name := type.head.name
  traits := type.traits.map (·.name)
  constants := type.constants.map fun c => (c.name, c.value)
  properties := type.properties.map fun p => (p.name, p.value)
  methods := type.methods.map fun m => (m.name, m.returnType)

/-- **A type** is read as its nodes say. -/
theorem type_declared {file : File} {kind : TypeKind} {extent : Extent} {items : List Item}
    (occurs : OccursAt file.source (typeRule kind) extent.span.start extent.span.stop items)
    (plain : PlainType file.source extent.span items) {written : WrittenType}
    (states : file.States (Item.typeOutline kind extent items) (.type written)) :
    written.declared = declaredType file kind items := by
  have made := made_bodyItems occurs
  obtain ⟨header, members⟩ := plain
  rw [Item.typeOutline, findSome?_extent?, findSome?_items?] at states
  cases states with
  | type head read =>
      obtain ⟨decl, doc, parsed, shape⟩ := head
      rw [file.slice_eq] at parsed
      obtain ⟨kind', name⟩ := header_plain occurs header parsed
      have head' : written.head.kind = kind ∧
          written.head.name = (text? file.source .typeName items).getD "" := by
        rw [shape, ← name]
        exact ⟨kind', rfl⟩
      have traits : written.traits.map (·.name) =
          (inners .traitUse (bodyItems items)).flatMap (traitNames file.source) := by
        rw [read.traits]
        exact traits_declared made members
      simp only [WrittenType.declared, declaredType, head', traits,
        constants_declared made members read.constants,
        properties_declared made members read.properties,
        methods_declared made members read.methods]

end Declaration

end Emend

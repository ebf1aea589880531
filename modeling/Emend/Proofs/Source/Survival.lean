import Emend.Proofs.Source.Lossless
import Emend.Proofs.Source.RuntimeText

/-!
# What is printed of the literals of a file

A member of a type is read from its place in the file, put into a table under its name, and
printed inside of its type, its namespace and the unit. Nothing on this way touches the code of the
member, unless another member of that name takes its place. So the literals in the values, in the
parameters and in the bodies of a file are printed as they were written, in their order
(`runtime_text_survives`).

That holds of literals alone. Text between a closing and an opening tag stands in the lines of a
body like code does, and is moved with them.
-/

set_option autoImplicit false

namespace Emend

open Declaration
open Layout (Line IsLiteral Carries charsAt joinLines commonIndent)

/-! ## Parts of a printed text -/

theorem Text.isInfix_intercalate {part : String} {parts : List String} (listed : part ∈ parts)
    (separator : String) : part.toList <:+: (separator.intercalate parts).toList := by
  rw [String.toList_intercalate]
  induction listed with
  | head rest =>
      cases rest with
      | nil => simp
      | cons next rest =>
          rw [List.map_cons, List.map_cons, List.intercalate_cons_cons, List.append_assoc]
          exact (List.prefix_append ..).isInfix
  | @tail first rest listed ih =>
      cases rest with
      | nil => cases listed
      | cons next rest =>
          rw [List.map_cons, List.map_cons, List.intercalate_cons_cons]
          exact ih.trans (List.suffix_append ..).isInfix

namespace Printer

variable {printer : Printer}

theorem member_isInfix {scope : Scope} {decl : TypeDecl} {text : String}
    (listed : text ∈ printer.members scope decl) :
    text.toList <:+: (printer.type scope decl).toList := by
  have hasMembers : (printer.members scope decl).isEmpty = false :=
    List.isEmpty_eq_false_iff.2 (List.ne_nil_of_mem listed)
  have inside := (Text.isInfix_intercalate listed "\n\n").trans (Text.isInfix_append "" _ "\n")
  rw [String.empty_append] at inside
  rw [type]
  simp only [hasMembers, Bool.false_eq_true, if_false]
  exact inside.trans (Text.isInfix_append ..)

theorem block_isInfix {unit : SourceUnit} {ns : Namespace} (held : ns ∈ unit.namespaces.values)
    {text : String} (listed : text ∈ printer.namespaceBlocks ns) :
    text.toList <:+: (printer.print unit).toList := by
  have inside : ∀ block ∈ printer.blocks unit, block.toList <:+: (printer.print unit).toList := by
    intro block listed
    have part := (Text.isInfix_intercalate listed "\n\n").trans (Text.isInfix_append "" _ "\n")
    rwa [String.empty_append] at part
  by_cases braced : isBraced unit = true
  · -- The blocks of the namespace are one block, with its line before them.
    have block := Text.isInfix_intercalate
      (List.mem_append_left ["\x7d"] (List.mem_append_right
        [if ns.isGlobal then "namespace \x7b" else "namespace " ++ ns.name ++ " \x7b"] listed))
      "\n\n"
    refine block.trans (inside _ (List.mem_append_right _ (List.mem_flatMap.2 ⟨ns, held, ?_⟩)))
    simp [braced]
  · refine inside text (List.mem_append_right _ (List.mem_flatMap.2 ⟨ns, held, ?_⟩))
    simp [braced, listed]

/-- A member of a type stands in the text of the unit. -/
theorem member_isInfix_print {unit : SourceUnit} {ns : Namespace}
    (held : ns ∈ unit.namespaces.values) {decl : TypeDecl} (declared : decl ∈ ns.types.values)
    {text : String} (listed : text ∈ printer.members ns.scope decl) :
    text.toList <:+: (printer.print unit).toList :=
  (member_isInfix listed).trans
    (block_isInfix held (List.mem_append_right _ (List.mem_map_of_mem declared)))

section

variable {width : Nat} {scope : Scope} {decl : TypeDecl}

theorem constant_mem_members {c : Constant} (listed : c ∈ decl.constants.values) :
    constant c (pad width) ∈ members ⟨width⟩ scope decl :=
  List.mem_append_left _ (List.mem_append_left _ (List.mem_append_right _
    (List.mem_map_of_mem listed)))

theorem property_mem_members {p : Property} (listed : p ∈ decl.properties.values) :
    property scope p (pad width) ∈ members ⟨width⟩ scope decl :=
  List.mem_append_left _ (List.mem_append_right _ (List.mem_map_of_mem listed))

theorem method_mem_members {m : Method} (listed : m ∈ decl.methods.values) :
    method scope m (pad width) ∈ members ⟨width⟩ scope decl :=
  List.mem_append_right _ (List.mem_map_of_mem listed)

end

theorem value_isInfix_constant (c : Constant) (pad : String) :
    (value c.value pad).toList <:+: (constant c pad).toList :=
  Text.isInfix_append ..

theorem value_isInfix_property (scope : Scope) {p : Property} {text : String}
    (given : p.value = some text) (pad : String) :
    (value text pad).toList <:+: (property scope p pad).toList := by
  have inside : (value text pad).toList <:+:
      ((p.value.map fun text => " = " ++ value text pad).getD "").toList := by
    rw [given]
    exact (Text.isInfix_append " = " _ "").trans (by simp)
  exact inside.trans (Text.isInfix_append ..)

/-- The text of a method: something before its parameters, and something before its body. -/
theorem exists_method (scope : Scope) (m : Method) (pad : String) :
    ∃ lead middle, method scope m pad =
      lead ++ (m.parameters ++ (middle ++ (m.body.map (body · pad)).getD ";")) := by
  refine ⟨docBlock m.doc pad ++ pad ++ (if m.isFinal then "final " else "") ++
    (if m.isAbstract then "abstract " else "") ++ m.visibility.keyword ++
    (if m.isStatic then " static" else "") ++ " function " ++ m.name ++ "(",
    ")" ++ (m.returnType.map fun type => ": " ++ scope.shortenType type).getD "", ?_⟩
  rw [method]
  cases m.body with
  | none => simp only [String.append_assoc, Option.map_none, Option.getD_none]
  | some text => simp only [String.append_assoc, Option.map_some, Option.getD_some]

end Printer

/-! ## From the outline to the unit -/

theorem exists_of_forall₂ {α β : Type} {R : α → β → Prop} {xs : List α} {ys : List β}
    (related : List.Forall₂ R xs ys) {x : α} (listed : x ∈ xs) : ∃ y ∈ ys, R x y := by
  induction related with
  | nil => cases listed
  | cons first _ ih =>
      rcases List.mem_cons.1 listed with rfl | later
      · exact ⟨_, List.mem_cons_self, first⟩
      · obtain ⟨y, found, holds⟩ := ih later
        exact ⟨y, List.mem_cons_of_mem _ found, holds⟩

theorem literalSpans_of_read {text : List Char} {tree : SyntaxTree}
    (found : SyntaxTree.read text = .ok tree) : literalSpans text = tree.literals := by
  unfold literalSpans
  rw [found]

def MemberOutline.block? : MemberOutline → Option Span
  | .method _ _ _ _ body => body
  | _ => none

namespace Declaration

namespace File

variable {file : File}

/-- A file is read without its tabs, and then its literals are looked for. -/
theorem text_of_read {source : String} {outline : List Outline}
    (done : File.read source = .ok (file, outline)) :
    file.text.toList = expandTabsFrom (literalSpans source.toList) 0 source.toList ∧
      file.literals = literalSpans file.text.toList := by
  obtain ⟨tree, grammatical, rfl, -⟩ := tree_of_read done
  refine ⟨List.toList_toArray, ?_⟩
  rw [List.toList_toArray]
  exact (literalSpans_of_read grammatical).symm

/-- The code of a method is what stands at these places. -/
structure HasCode (file : File) (list : Span) (body : Option Span) (method : Method) : Prop where
  parameters : method.parameters = parameters (file.slice list) list.start file.literals
  body : method.body = body.map file.body

theorem method_code {extent : Extent} {name list : Span} {body : Option Span} {doc : List String}
    {read : Method} (done : file.method extent name list body doc = .ok read) :
    file.HasCode list body read := by
  obtain ⟨last, -, rest⟩ := bind_ok done
  cases rest
  exact ⟨rfl, rfl⟩

/-- No member takes another one away. -/
theorem members_grow {items : List MemberOutline} {state last : WrittenType × List String}
    (done : items.foldlM file.member state = .ok last) : state.1.methods ⊆ last.1.methods := by
  induction items generalizing state with
  | nil =>
      cases done
      exact List.Subset.refl _
  | cons item items ih =>
      rw [List.foldlM_cons] at done
      obtain ⟨next, one, rest⟩ := bind_ok done
      obtain ⟨more, -, extended⟩ := member_spec one
      have first : state.1.methods ⊆ next.1.methods := by
        rw [extended]
        exact List.subset_append_left ..
      exact List.Subset.trans first (ih rest)

theorem members_code {items : List MemberOutline} {state last : WrittenType × List String}
    (done : items.foldlM file.member state = .ok last) {extent : Extent}
    {attributeLine : Option Nat} {name list : Span} {body : Option Span}
    (listed : .method extent attributeLine name list body ∈ items) :
    ∃ m ∈ last.1.methods, file.HasCode list body m := by
  induction items generalizing state with
  | nil => cases listed
  | cons item items ih =>
      rw [List.foldlM_cons] at done
      obtain ⟨next, one, rest⟩ := bind_ok done
      rcases List.mem_cons.1 listed with rfl | later
      · obtain ⟨_, _, read⟩ := bind_ok one
        obtain ⟨m, code, stored⟩ := bind_ok read
        cases stored
        exact ⟨m, members_grow rest (List.mem_append_right _ List.mem_cons_self), method_code code⟩
      · exact ih rest later

theorem type_code {outline : TypeOutline} {doc : List String} {written : WrittenType}
    (done : file.type outline doc = .ok written) {extent : Extent} {attributeLine : Option Nat}
    {name list : Span} {body : Option Span}
    (listed : .method extent attributeLine name list body ∈ outline.members) :
    ∃ m ∈ written.methods, file.HasCode list body m := by
  obtain ⟨_, _, _, members, rfl⟩ := exists_members done
  exact members_code members listed

/-- Every type of the outline is read. -/
theorem exists_type {doc : List String} {outline : List Outline} {entries : List Entry}
    (done : file.entries doc outline = .ok entries) {type : TypeOutline}
    (listed : .type type ∈ outline) :
    ∃ doc written, file.type type doc = .ok written ∧ .type written ∈ entries := by
  induction outline generalizing doc entries with
  | nil => cases listed
  | cons item items ih =>
      obtain ⟨⟨entry, next⟩, one, rest⟩ := bind_ok done
      obtain ⟨others, read, last⟩ := bind_ok rest
      cases last
      rcases List.mem_cons.1 listed with rfl | later
      · obtain ⟨written, known, stored⟩ := bind_ok one
        cases stored
        exact ⟨doc, written, known, List.mem_append_left _ List.mem_cons_self⟩
      · obtain ⟨doc, written, known, found⟩ := ih read later
        exact ⟨doc, written, known, List.mem_append_right _ found⟩

end File

theorem exists_standing {entries : List Entry} {entry : Entry} (listed : entry ∈ entries)
    (walk : Walk) : ∃ standing, (standing, entry) ∈ placedFrom walk entries := by
  induction entries generalizing walk with
  | nil => cases listed
  | cons first entries ih =>
      rcases List.mem_cons.1 listed with rfl | later
      · exact ⟨walk.here, List.mem_cons_self⟩
      · obtain ⟨standing, found⟩ := ih later (walk.next first)
        exact ⟨standing, List.mem_cons_of_mem _ found⟩

/-- A type that can be told apart is declared in a namespace of the unit, with its members. -/
theorem exists_decl {entries : List Entry} (distinct : Distinct (placed entries))
    {written : WrittenType} (listed : .type written ∈ entries) :
    ∃ ns ∈ (SourceUnit.ofEntries entries).namespaces.values, ∃ decl ∈ ns.types.values,
      KeepsMembers ns.scope written decl := by
  obtain ⟨standing, found⟩ := exists_standing listed .start
  have here : written ∈ typesIn (placed entries) standing.space := by
    refine List.mem_flatMap.2 ⟨_, List.mem_filter.2 ⟨found, by simp⟩, List.mem_cons_self⟩
  have keeps := ((keeps_ofEntries_iff entries).2 distinct).types standing.space
  obtain ⟨decl, declared, kept⟩ := exists_of_forall₂ keeps here
  rw [SourceUnit.spaceAt] at declared kept
  cases known : (SourceUnit.ofEntries entries).namespaces.get? standing.space with
  | none =>
      rw [known] at declared
      cases declared
  | some ns =>
      rw [known] at declared kept
      exact ⟨ns, Table.mem_values.2 ⟨_, Table.get?_eq_some_iff.1 known⟩, decl, declared, kept⟩

/-! ## From the unit to the text -/

section

variable {scope : Scope} {written : WrittenType} {decl : TypeDecl}
  (kept : KeepsMembers scope written decl)

include kept

theorem exists_property {p : Property} (read : p ∈ written.properties) :
    ∃ q ∈ decl.properties.values, q.value = p.value := by
  rw [kept.properties]
  exact ⟨_, List.mem_map_of_mem read, rfl⟩

theorem exists_method {m : Method} (read : m ∈ written.methods) :
    ∃ n ∈ decl.methods.values, n.parameters = m.parameters ∧ n.body = m.body := by
  rw [kept.methods]
  exact ⟨_, List.mem_map_of_mem read, rfl, rfl⟩

end

namespace File

variable {file : File}

/-- An element that has a value in which the literals of the file are found. -/
structure LegibleElement (file : File) (element : Extent) (name text : String) : Prop where
  bound : element.span.stop ≤ file.text.size
  cut : Text.cut? '=' (file.slice element.span) = some (name, text)
  value : file.LegibleValue text (element.span.start + name.length + 1)

/-- Code of a member in which these literals of the file are found. -/
inductive Holds (file : File) : MemberOutline → List Span → Prop where
  | constant {extent element : Extent} {attributeLine : Option Nat} {elements : List Extent}
      {name text : String} (listed : element ∈ elements)
      (legible : file.LegibleElement element name text) :
      Holds file (.constants extent attributeLine elements)
        (file.literalsIn text (element.span.start + name.length + 1))
  | property {extent element : Extent} {attributeLine : Option Nat} {elements : List Extent}
      {name text : String} (listed : element ∈ elements)
      (legible : file.LegibleElement element name text) :
      Holds file (.properties extent attributeLine elements)
        (file.literalsIn text (element.span.start + name.length + 1))
  | signature {extent : Extent} {attributeLine : Option Nat} {name list : Span}
      {body : Option Span} (parameters : file.LegibleParameters list) :
      Holds file (.method extent attributeLine name list body)
        (file.literalsIn (file.inside list) (list.start + 1))
  | method {extent : Extent} {attributeLine : Option Nat} {name list block : Span}
      (parameters : file.LegibleParameters list) (body : file.LegibleBody block)
      (order : list.stop ≤ block.start) :
      Holds file (.method extent attributeLine name list (some block))
        (file.literalsIn (file.inside list) (list.start + 1) ++
          file.literalsIn (file.inside block) (block.start + 1))

/-- A literal within a span touches neither end of it. -/
theorem literal_inside {outer span : Span}
    (listed : span ∈ file.literalsIn (file.inside outer) (outer.start + 1)) :
    outer.start < span.start ∧ span.start < span.stop ∧ span.stop < outer.stop := by
  have literal := file.literals_literalsIn _ _ span listed
  have start := literal.start_le
  have order := literal.start_lt
  have stop := literal.stop_le
  have length : (file.inside outer).toList.length ≤ outer.stop - 1 - (outer.start + 1) := by
    rw [inside, slice, Span.slice, String.toList_ofList, Array.length_toList, Array.size_extract]
    exact Nat.sub_le_sub_right (Nat.min_le_left ..) _
  omega

namespace LegibleElement

variable {element : Extent} {name text : String} (legible : file.LegibleElement element name text)

include legible

theorem element?_eq :
    file.element? element.span =
      some (name, file.value text (element.span.start + name.length + 1)) := by
  rw [element?, legible.cut, Option.map_some]

theorem value_carries (width : Nat) :
    Carries file.chars (file.literalsIn text (element.span.start + name.length + 1))
      (Printer.value (file.value text (element.span.start + name.length + 1))
        (Printer.pad width)).toList := by
  have cut := (Text.cut?_eq_some_iff.1 legible.cut).1
  have stands := @stands_of_slice file element.span (name ++ "=") text "" legible.bound
    (by rw [cut, String.append_empty]; rfl) (by simp)
  have place : element.span.start + (name ++ "=").toList.length =
      element.span.start + name.length + 1 := by
    rw [String.length_toList, String.length_append, Nat.add_assoc]
    rfl
  rw [place] at stands
  exact legible.value.value_carries stands width

end LegibleElement

/-- The lines of a body with `width` spaces in the place of their common indentation. -/
def reindentedBody (file : File) (block : Span) (width : Nat) : List Char :=
  joinLines ((file.bodyLines block).map
    (Line.reindented (commonIndent (file.bodyLines block)) width))

namespace LegibleBody

variable {block : Span} (legible : file.LegibleBody block)

include legible

theorem reindented_isInfix (width : Nat) :
    file.reindentedBody block (width + width) <:+:
      (Printer.body (file.body block) (Printer.pad width)).toList := by
  rw [legible.printed_body]
  have inner := Printer.isInfix_between (.ofList (file.reindentedBody block (width + width)))
    (Printer.pad width)
  rw [String.toList_ofList] at inner
  exact inner.trans (Text.isInfix_append ..)

/-- A line of a body that begins outside of the literals stays as it is exactly when the common
indentation is the one it gets. -/
theorem reindented_eq_iff {line : Line} (listed : line ∈ file.bodyLines block)
    (movable : line.isMovable = true) (width : Nat) :
    line.reindented (commonIndent (file.bodyLines block)) width = line.chars ↔
      commonIndent (file.bodyLines block) = width := by
  obtain ⟨least, -, -, common, deep⟩ := Layout.exists_commonIndent ⟨line, listed, movable⟩
  have indented := deep line listed movable
  rw [common] at indented
  exact (legible.laid_bodyLines.neat listed).reindented_eq_iff movable indented width

end LegibleBody

section

variable {outline : TypeOutline} {doc : List String} {written : WrittenType}
  (done : file.type outline doc = .ok written) {unit : SourceUnit} {ns : Namespace}
  (held : ns ∈ unit.namespaces.values) {decl : TypeDecl} (declared : decl ∈ ns.types.values)
  (kept : KeepsMembers ns.scope written decl)

include done held declared kept

theorem constant_carries {extent element : Extent} {attributeLine : Option Nat}
    {elements : List Extent} (member : .constants extent attributeLine elements ∈ outline.members)
    (listed : element ∈ elements) {name text : String}
    (legible : file.LegibleElement element name text) (width : Nat) :
    Carries file.chars (file.literalsIn text (element.span.start + name.length + 1))
      (Printer.print ⟨width⟩ unit).toList := by
  have inside : element ∈ outline.members.flatMap (·.constantElements) :=
    List.mem_flatMap.2 ⟨_, member, listed⟩
  obtain ⟨c, found, _, value, read, -, stored⟩ :=
    exists_of_forall₂ (type_written done).2.constants inside
  rw [legible.element?_eq] at read
  cases read
  have carried := legible.value_carries width
  rw [← stored] at carried
  rw [← kept.constants] at found
  exact carried.of_isInfix ((Printer.value_isInfix_constant c _).trans
    (Printer.member_isInfix_print held declared (Printer.constant_mem_members found)))

theorem property_carries {extent element : Extent} {attributeLine : Option Nat}
    {elements : List Extent} (member : .properties extent attributeLine elements ∈ outline.members)
    (listed : element ∈ elements) {name text : String}
    (legible : file.LegibleElement element name text) (width : Nat) :
    Carries file.chars (file.literalsIn text (element.span.start + name.length + 1))
      (Printer.print ⟨width⟩ unit).toList := by
  have inside : element ∈ outline.members.flatMap (·.propertyElements) :=
    List.mem_flatMap.2 ⟨_, member, listed⟩
  obtain ⟨p, found, read⟩ := exists_of_forall₂ (type_written done).2.properties inside
  rw [DeclaresProperty, legible.element?_eq] at read
  obtain ⟨q, stored, same⟩ := exists_property kept found
  have value := same.trans read.2
  exact (legible.value_carries width).of_isInfix
    ((Printer.value_isInfix_property ns.scope value _).trans
      (Printer.member_isInfix_print held declared (Printer.property_mem_members stored)))

/-- The text of a method is printed with its code. -/
theorem exists_printed {extent : Extent} {attributeLine : Option Nat} {name list : Span}
    {body : Option Span} (member : .method extent attributeLine name list body ∈ outline.members)
    (width : Nat) :
    ∃ middle, ((parameters (file.slice list) list.start file.literals).toList ++
      (middle ++ ((body.map fun block => Printer.body (file.body block) (Printer.pad width)).getD
        ";").toList)) <:+: (Printer.print ⟨width⟩ unit).toList := by
  obtain ⟨m, found, code⟩ := type_code done member
  obtain ⟨n, stored, same⟩ := exists_method kept found
  obtain ⟨lead, middle, whole⟩ := Printer.exists_method ns.scope n (Printer.pad width)
  have printed := Printer.member_isInfix_print held declared
    (@Printer.method_mem_members width ns.scope decl n stored)
  rw [whole, same.1, same.2, code.parameters, code.body, Option.map_map] at printed
  refine ⟨middle.toList, List.IsInfix.trans ?_ printed⟩
  rw [String.toList_append, String.toList_append, String.toList_append]
  exact (List.suffix_append ..).isInfix

theorem reindented_isInfix_print {member : MemberOutline} (listed : member ∈ outline.members)
    {block : Span} (has : member.block? = some block) (legible : file.LegibleBody block)
    (width : Nat) :
    file.reindentedBody block (width + width) <:+: (Printer.print ⟨width⟩ unit).toList := by
  cases member with
  | method extent attributeLine name list body =>
      cases has
      obtain ⟨middle, printed⟩ := exists_printed done held declared kept listed width
      rw [Option.map_some, Option.getD_some] at printed
      have inner := (legible.reindented_isInfix width).trans (List.suffix_append middle _).isInfix
      exact (inner.trans (List.suffix_append ..).isInfix).trans printed
  | comment _ | interpolation _ | traitUse _ | constants _ _ _ | properties _ _ _ => cases has

theorem parameters_carries {extent : Extent} {attributeLine : Option Nat} {name list : Span}
    {body : Option Span} (member : .method extent attributeLine name list body ∈ outline.members)
    (legible : file.LegibleParameters list) (width : Nat) :
    Carries file.chars (file.literalsIn (file.inside list) (list.start + 1))
      (Printer.print ⟨width⟩ unit).toList := by
  obtain ⟨middle, printed⟩ := exists_printed done held declared kept member width
  exact legible.parameters_carries.of_isInfix ((List.prefix_append ..).isInfix.trans printed)

/-- The literals of the parameters stand before those of the body. -/
theorem method_carries {extent : Extent} {attributeLine : Option Nat} {name list block : Span}
    (member : .method extent attributeLine name list (some block) ∈ outline.members)
    (parameters : file.LegibleParameters list) (body : file.LegibleBody block)
    (order : list.stop ≤ block.start) (width : Nat) :
    Carries file.chars (file.literalsIn (file.inside list) (list.start + 1) ++
      file.literalsIn (file.inside block) (block.start + 1))
      (Printer.print ⟨width⟩ unit).toList := by
  obtain ⟨middle, printed⟩ := exists_printed done held declared kept member width
  rw [Option.map_some, Option.getD_some] at printed
  have second := (body.body_carries width).of_isInfix (List.suffix_append middle _).isInfix
  refine (parameters.parameters_carries.both second fun a first b last => ?_).of_isInfix printed
  have here := literal_inside first
  have there := literal_inside last
  omega

/-- **The code of a member is printed with its literals.** -/
theorem Holds.carries {member : MemberOutline} (listed : member ∈ outline.members)
    {literals : List Span} (holds : file.Holds member literals) (width : Nat) :
    Carries file.chars literals (Printer.print ⟨width⟩ unit).toList := by
  cases holds with
  | constant inside legible =>
      exact constant_carries done held declared kept listed inside legible width
  | property inside legible =>
      exact property_carries done held declared kept listed inside legible width
  | signature parameters =>
      exact parameters_carries done held declared kept listed parameters width
  | method parameters body order =>
      exact method_carries done held declared kept listed parameters body order width

end

end File

end Declaration

namespace SourceUnit

/-- **Runtime text and loading and printing.** A file that is accepted is read without its tabs,
and that keeps its literals. If its declarations can be told apart, the literals that are found in
a value, in parameters and in a body are printed as they were written, in their order.

Of a body all lines are printed. Those that begin inside of a literal stay as they are; any other
line, of code as well as of text between a closing and an opening tag, stays so exactly when the
common indentation of the body is the one that the printer gives to bodies. -/
theorem runtime_text_survives (source : String) (unit : SourceUnit)
    (accepted : SourceUnit.parse source = .ok unit) (width : Nat) :
    ∃ file outline entries,
      File.read source = .ok (file, outline) ∧ Declaration.entries source = .ok entries ∧
      ((∀ span ∈ literalSpans source.toList, IsLiteral 0 source.toList span) →
        Layout.KeepsLiterals 0 source.toList (literalSpans source.toList) file.text.toList) ∧
      file.literals = literalSpans file.text.toList ∧
      (Distinct (placed entries) → ∀ type, .type type ∈ outline → ∀ member ∈ type.members,
        (∀ literals, file.Holds member literals →
          Carries file.chars literals (Printer.print ⟨width⟩ unit).toList) ∧
        ∀ block, member.block? = some block → file.LegibleBody block →
          file.reindentedBody block (width + width) <:+: (Printer.print ⟨width⟩ unit).toList ∧
          ∀ line ∈ file.bodyLines block,
            (line.isMovable = false →
              line.reindented (commonIndent (file.bodyLines block)) (width + width) =
                line.chars) ∧
            (line.isMovable = true →
              (line.reindented (commonIndent (file.bodyLines block)) (width + width) =
                line.chars ↔ commonIndent (file.bodyLines block) = width + width))) := by
  obtain ⟨entries, read, rfl⟩ := entries_of_parse accepted
  obtain ⟨⟨file, outline⟩, found, stated⟩ := bind_ok read
  obtain ⟨text, literals⟩ := File.text_of_read found
  refine ⟨file, outline, entries, found, read, fun inside => ?_, literals,
    fun distinct type listed member inside => ?_⟩
  · rw [text]
    exact (Layout.moves_expandTabsFrom inside).keepsLiterals inside
  · obtain ⟨doc, written, done, stored⟩ := File.exists_type stated listed
    obtain ⟨ns, held, decl, declared, kept⟩ := exists_decl distinct stored
    refine ⟨fun _ holds => holds.carries done held declared kept inside width,
      fun block has legible => ⟨?_, fun line there => ⟨fun stays => ?_, fun movable => ?_⟩⟩⟩
    · exact File.reindented_isInfix_print done held declared kept inside has legible width
    · exact Line.reindented_of_not_movable stays _ _
    · exact legible.reindented_eq_iff there movable _

namespace Example

deriving instance DecidableEq for Declaration.File

/-- A method with a literal in its parameters, and in its body a literal of two lines and text
between tags. -/
def quotedAndTagged : String :=
  "<?php class A\x7bfunction f($a='p  q')\x7b'x\n y';?>\n<b>\n<?php \x7d\x7d"

def taggedFile : File := ⟨quotedAndTagged.toList.toArray, [⟨28, 34⟩, ⟨36, 42⟩]⟩

def taggedMethod : MemberOutline := .method ⟨⟨14, 57⟩, 1⟩ none ⟨23, 24⟩ ⟨24, 35⟩ (some ⟨35, 57⟩)

def taggedType : TypeOutline := ⟨.class, ⟨⟨6, 58⟩, 1⟩, none, 13, [taggedMethod]⟩

def taggedEntries : List Entry :=
  [.type ⟨.ofName .class "A", [], [], [],
    [{ Method.ofName "f" with
        parameters := "$a='p  q'", body := some "'x\n y';?>\n<b>\n<?php" }]⟩]

theorem distinct_taggedEntries : Distinct (placed taggedEntries) := by
  have types : ∀ space, typesIn (placed taggedEntries) space = [] ∨
      typesIn (placed taggedEntries) space = taggedEntries.flatMap Entry.types := by
    intro space
    by_cases global : "" = space
    · subst global
      exact .inr rfl
    · left
      simp [typesIn, placed, placedFrom, taggedEntries, Walk.start, global]
  refine ⟨by decide +kernel, fun space kind => ?_, fun space => ?_, fun space written listed => ?_⟩
  · have empty : importsIn (placed taggedEntries) space kind = [] := by
      refine List.flatMap_eq_nil_iff.2 fun entry listed => ?_
      cases List.mem_singleton.1 (List.mem_filter.1 listed).1
      rfl
    rw [empty]
    exact List.nodup_nil
  · rcases types space with empty | one
    · rw [empty]
      exact List.nodup_nil
    · rw [one]
      decide +kernel
  · rcases types space with empty | one
    · rw [empty] at listed
      cases listed
    · rw [one] at listed
      cases List.mem_singleton.1 listed
      exact ⟨List.nodup_nil, List.nodup_nil, List.nodup_nil, List.nodup_singleton _⟩

/-- The literals are printed as they are, but the text between the tags is indented. -/
theorem runtime_text_survives_tagged :
    ∃ unit, SourceUnit.parse quotedAndTagged = .ok unit ∧
      Carries taggedFile.chars [⟨28, 34⟩, ⟨36, 42⟩] (Printer.print ⟨4⟩ unit).toList ∧
      "        'x\n y';?>\n        <b>\n        <?php".toList <:+:
        (Printer.print ⟨4⟩ unit).toList ∧
      ∃ line ∈ taggedFile.bodyLines ⟨35, 57⟩, line.chars = "<b>".toList ∧
        line.reindented (commonIndent (taggedFile.bodyLines ⟨35, 57⟩)) 8 ≠ line.chars := by
  have read : File.read quotedAndTagged = .ok (taggedFile, [.type taggedType]) := by
    decide +kernel
  have stated : taggedFile.entries [] [.type taggedType] = .ok taggedEntries := by decide +kernel
  have entries : Declaration.entries quotedAndTagged = .ok taggedEntries := by
    rw [Declaration.entries, read]
    exact stated
  have accepted : SourceUnit.parse quotedAndTagged = .ok (.ofEntries taggedEntries) := by
    rw [SourceUnit.parse, entries]
    rfl
  obtain ⟨_, _, _, read', entries', -, -, survives⟩ :=
    runtime_text_survives quotedAndTagged _ accepted 4
  cases read.symm.trans read'
  cases entries.symm.trans entries'
  have list : taggedFile.LegibleParameters ⟨24, 35⟩ :=
    ⟨by decide +kernel, by decide +kernel, by decide +kernel, by decide +kernel⟩
  have body : taggedFile.LegibleBody ⟨35, 57⟩ :=
    ⟨⟨by decide +kernel, by decide +kernel⟩, by decide +kernel, by
      show _ = _
      decide +kernel⟩
  obtain ⟨carried, moved⟩ := survives distinct_taggedEntries taggedType List.mem_cons_self
    taggedMethod List.mem_cons_self
  obtain ⟨printed, lines⟩ := moved ⟨35, 57⟩ rfl body
  refine ⟨_, accepted, ?_, ?_, ?_⟩
  · exact carried _ (.method list body (by decide))
  · have text : taggedFile.reindentedBody ⟨35, 57⟩ (4 + 4) =
        "        'x\n y';?>\n        <b>\n        <?php".toList := by decide +kernel
    rw [← text]
    exact printed
  · have there : ⟨"<b>".toList, ⟨false, false⟩⟩ ∈ taggedFile.bodyLines ⟨35, 57⟩ := by
      decide +kernel
    refine ⟨_, there, rfl, fun stays => ?_⟩
    have deep := ((lines _ there).2 rfl).1 stays
    exact absurd deep (by decide +kernel)

/-- A method whose body leaves the code for a line of markup. -/
def markupInBody : String := "<?php class A\x7bfunction f()\x7b?>\n<b>\n<?php \x7d\x7d"

/-- The file is accepted, and the line of markup is printed behind blanks. -/
theorem markupInBody_moved :
    (SourceUnit.parse markupInBody).toOption.map (Printer.print {}) =
      some ("<?php\n\nclass A\n\x7b\n    public function f()\n    \x7b\n        ?>\n" ++
        "        <b>\n        <?php\n    \x7d\n\x7d\n") := by
  decide +kernel

end Example

end SourceUnit

end Emend

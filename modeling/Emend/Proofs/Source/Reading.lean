import Emend.Proofs.Text
import Emend.Source.Declaration
import Mathlib.Data.List.Forall2

/-!
# Reading passes over nothing

What an outline declares is read item by item. Comments, empty statements and a closing
tag say nothing; every other item becomes one entry, in order, or the whole file is refused
(`entries_states`). In a type every element of constants and of properties, every method and
every use of traits becomes a member (`type_written`). The one part of a declaration that is
looked for in a text, and not given by the outline, is the return type: it is found only if
nothing but blanks stands before its colon (`opensWithColon_of_returnType`).
-/

set_option autoImplicit false

namespace Emend

/-! ## From the tree to the outline -/

namespace Item

theorem bodyOutline_eq (parts : List Item) :
    bodyOutline parts = (parts.findSome? (items? .body)).map outlines := by
  induction parts with
  | nil => rfl
  | cons part parts ih =>
      cases part with
      | trivia found => exact ih
      | node label extent items =>
          by_cases body : label = .body
          · subst body
            rfl
          · rw [List.findSome?_cons_of_isNone (by simp [items?, body]), ← ih, bodyOutline]
            rintro _ _ ⟨⟩
            exact body rfl

end Item

/-! ## What an outline declares -/

namespace MemberOutline

def constantElements : MemberOutline → List Extent
  | .constants _ _ elements => elements
  | _ => []

def propertyElements : MemberOutline → List Extent
  | .properties _ _ elements => elements
  | _ => []

def traitSpans : MemberOutline → List Span
  | .traitUse span => [span]
  | _ => []

def methodSpans : MemberOutline → List (Span × Span)
  | .method extent _ name parameters body =>
    [(name, ⟨parameters.stop, (body.map (·.start)).getD extent.span.stop⟩)]
  | _ => []

end MemberOutline

/-- Whether an item of the outline says anything. -/
def Outline.declares : Outline → Bool
  | .comment _ | .interpolation _ _ | .empty => false
  | _ => true

namespace Declaration

theorem bind_ok {α β : Type} {first : Except LoadError α} {next : α → Except LoadError β}
    {result : β} (done : first >>= next = .ok result) :
    ∃ value, first = .ok value ∧ next value = .ok result := by
  cases first with
  | error error => cases done
  | ok value => exact ⟨value, rfl, done⟩

def WrittenType.extend (type more : WrittenType) : WrittenType :=
  ⟨type.head, type.traits ++ more.traits, type.constants ++ more.constants,
    type.properties ++ more.properties, type.methods ++ more.methods⟩

def ImportClause.isWritten (clause : ImportClause) : Bool := !(Text.words clause.text).isEmpty

theorem ImportClause.isSome_read? (clause : ImportClause) :
    clause.read?.isSome = clause.isWritten := by
  unfold read? isWritten
  cases Text.words clause.text with
  | nil => rfl
  | cons target rest => rfl

/-- Every clause in which there is anything is read. -/
theorem imports_spec (text : String) :
    List.Forall₂ (fun clause one => clause.read? = some one)
      ((importClauses text).filter ImportClause.isWritten) (imports text) := by
  rw [imports]
  induction importClauses text with
  | nil => exact .nil
  | cons clause clauses ih =>
      have written := clause.isSome_read?
      cases read : clause.read? with
      | none =>
          rw [read] at written
          rwa [List.filter_cons_of_neg (by simp [← written]), List.filterMap_cons_none read]
      | some one =>
          rw [read] at written
          rw [List.filter_cons_of_pos written.symm, List.filterMap_cons_some read]
          exact .cons read ih

namespace File

variable {file : File}

def DeclaresConstant (file : File) (element : Extent) (constant : Constant) : Prop :=
  ∃ text value, file.element? element.span = some (text, value) ∧
    constant.name = Text.trim text ∧ constant.value = value

def DeclaresProperty (file : File) (element : Extent) (property : Property) : Prop :=
  match file.element? element.span with
  | some (text, value) =>
    property.name = (Property.ofName text).name ∧ property.value = some value
  | none => property.name = (Property.ofName (file.slice element.span)).name ∧ property.value = none

/-- A method is the one with this name; its return type is looked for behind the
parameters. -/
def DeclaresMethod (file : File) (spans : Span × Span) (method : Method) : Prop :=
  method.name = Text.trim (file.slice spans.1) ∧
    method.returnType = returnType? (file.slice spans.2)

/-- The members of a type are those that these items of its outline declare. -/
structure Written (file : File) (members : List MemberOutline) (type : WrittenType) : Prop where
  traits : type.traits =
    (members.flatMap (·.traitSpans)).flatMap fun span => traitUses (file.slice span)
  constants :
    List.Forall₂ file.DeclaresConstant (members.flatMap (·.constantElements)) type.constants
  properties :
    List.Forall₂ file.DeclaresProperty (members.flatMap (·.propertyElements)) type.properties
  methods : List.Forall₂ file.DeclaresMethod (members.flatMap (·.methodSpans)) type.methods

/-- A type declaration without its members is the one whose header stands before the
body. -/
def Heads (file : File) (type : TypeOutline) (head : TypeDecl) : Prop :=
  ∃ read doc, header? type.kind (file.slice ⟨type.extent.span.start, type.bodyStart⟩) = some read ∧
    head = { read with doc }

/-- An entry says what an item of the outline declares. -/
inductive States (file : File) : Outline → Entry → Prop where
  | directive {extent : Extent} {strictTypes : Bool}
      (known : File.directive (file.slice extent.span) extent.line = .ok strictTypes) :
      States file (.directive extent) (.directive strictTypes)
  | begin_ (name : Option Span) : States file (.begin_ name) (.begin_ (file.spaceName name))
  | enter (name : Option Span) : States file (.enter name) (.enter (file.spaceName name))
  | leave : States file .leave .leave
  | imports {span : Span} {read : List Import}
      (clauses : List.Forall₂ (fun clause one => clause.read? = some one)
        ((importClauses (file.slice span)).filter ImportClause.isWritten) read) :
      States file (.imports span) (.imports read)
  | type {type : TypeOutline} {written : WrittenType} (head : file.Heads type written.head)
      (members : file.Written type.members written) : States file (.type type) (.type written)

/-! ## Return types -/

/-- Only blanks stand before the first colon of the text behind the parameters. -/
def opensWithColon (tail : String) : Bool := (Text.trimStart tail).toList.head? == some ':'

/-- The characters of the text in which a return type is looked for. -/
def tailChars (cs : List Char) : List Char :=
  Text.trimChars (Text.dropEndWhile (· == ';') (Text.trimChars cs))

theorem returnType?_eq (tail : String) :
    returnType? tail = ((Text.stripPrefix? [':'] (tailChars tail.toList)).map fun rest =>
      String.ofList (Text.trimChars rest)).filter (!·.isEmpty) := by
  simp [returnType?, tailChars, Text.trim, Text.dropEnd, Text.strip?, Function.comp_def]

/-- Trimming changes the ends only, so what is first was first. -/
theorem colon_of_tailChars {cs rest : List Char} (found : tailChars cs = ':' :: rest) :
    ∃ more, cs.dropWhile Text.isBlank = ':' :: more := by
  obtain ⟨_, first, -⟩ := Text.exists_eq_dropEndWhile_append Text.isBlank (cs.dropWhile Text.isBlank)
  obtain ⟨_, second, -⟩ := Text.exists_eq_dropEndWhile_append (· == ';') (Text.trimChars cs)
  obtain ⟨_, third, -⟩ := Text.exists_eq_dropEndWhile_append Text.isBlank
    ((Text.dropEndWhile (· == ';') (Text.trimChars cs)).dropWhile Text.isBlank)
  rw [← Text.trimChars] at first
  rw [tailChars] at found
  rw [← Text.trimChars, found] at third
  cases kept : Text.dropEndWhile (· == ';') (Text.trimChars cs) with
  | nil =>
      rw [kept] at third
      cases third
  | cons c others =>
      rw [kept] at second third
      rw [second] at first
      have plain : Text.isBlank c = false := by
        have head := List.head?_dropWhile_not Text.isBlank cs
        rw [first] at head
        simpa using head
      rw [List.dropWhile_cons_of_neg (by simp [plain])] at third
      cases third
      exact ⟨_, first⟩

/-- A return type behind anything else than blanks is not found. -/
theorem opensWithColon_of_returnType {tail : String} (found : (returnType? tail).isSome = true) :
    opensWithColon tail = true := by
  rw [returnType?_eq] at found
  obtain ⟨type, found⟩ := Option.isSome_iff_exists.1 found
  obtain ⟨found, -⟩ := Option.filter_eq_some_iff.1 found
  obtain ⟨rest, stripped, -⟩ := Option.map_eq_some_iff.1 found
  obtain ⟨more, opens⟩ := colon_of_tailChars (Text.stripPrefix?_eq_some_iff.1 stripped)
  simp [opensWithColon, Text.trimStart, opens]

/-! ## Members -/

theorem together_spec {α : Type} {read : List String → Extent → Except LoadError α}
    {doc : List String} {elements : List Extent} {values : List α}
    (done : together read doc elements = .ok values) :
    List.Forall₂ (fun element value => ∃ doc, read doc element = .ok value) elements values := by
  induction elements generalizing doc values with
  | nil =>
      cases done
      exact .nil
  | cons element elements ih =>
      obtain ⟨value, first, rest⟩ := bind_ok done
      obtain ⟨others, read', last⟩ := bind_ok rest
      cases last
      exact .cons ⟨doc, first⟩ (ih read')

theorem constants_spec {extent : Extent} {elements : List Extent} {doc : List String}
    {read : List Constant} (done : file.constants extent elements doc = .ok read) :
    List.Forall₂ file.DeclaresConstant elements read := by
  refine (together_spec done).imp fun element constant ⟨_, one⟩ => ?_
  split at one
  · cases one
  · rename_i text value found
    cases one
    exact ⟨text, value, found, rfl, rfl⟩

theorem properties_spec {extent : Extent} {elements : List Extent} {doc : List String}
    {read : List Property} (done : file.properties extent elements doc = .ok read) :
    List.Forall₂ file.DeclaresProperty elements read := by
  refine (together_spec done).imp fun element property ⟨_, one⟩ => ?_
  cases found : file.element? element.span with
  | none =>
      simp only [found, Except.ok.injEq] at one
      simp only [DeclaresProperty, found, ← one, and_self]
  | some pair =>
      simp only [found, Except.ok.injEq] at one
      simp only [DeclaresProperty, found, ← one, and_self]

/-- The words before the name of a method do not touch it. -/
theorem methodWord_name {line : Nat} {method next : Method} {word : String}
    (done : methodWord line method word = .ok next) : next.name = method.name := by
  unfold methodWord at done
  split at done
  -- `function`, `static`, `abstract`, `final`
  iterate 4
    · cases done
      rfl
  -- A reference, and then the visibilities and every other word.
  · cases done
  · split at done
    · cases done
      rfl
    · cases done

theorem methodWords_name {line : Nat} {method last : Method} {words : List String}
    (done : words.foldlM (methodWord line) method = .ok last) : last.name = method.name := by
  induction words generalizing method with
  | nil =>
      cases done
      rfl
  | cons word words ih =>
      rw [List.foldlM_cons] at done
      obtain ⟨next, one, rest⟩ := bind_ok done
      exact (ih rest).trans (methodWord_name one)

theorem method_spec {extent : Extent} {name parameterList : Span} {body : Option Span}
    {doc : List String} {read : Method}
    (done : file.method extent name parameterList body doc = .ok read) :
    file.DeclaresMethod (name, ⟨parameterList.stop, (body.map (·.start)).getD extent.span.stop⟩)
      read := by
  obtain ⟨last, words, rest⟩ := bind_ok done
  have name := methodWords_name words
  simp only [Method.ofName] at name
  simp only [pure, Except.pure, Except.ok.injEq] at rest
  simp only [DeclaresMethod, ← rest, name, and_self]

theorem Written.nil (head : TypeDecl) : file.Written [] (.ofHead head) :=
  ⟨rfl, .nil, .nil, .nil⟩

theorem Written.append {members : List MemberOutline} {last : MemberOutline}
    {type more : WrittenType} (written : file.Written members type)
    (one : file.Written [last] more) : file.Written (members ++ [last]) (type.extend more) where
  traits := by
    rw [WrittenType.extend, written.traits, one.traits, List.flatMap_append, List.flatMap_append]
  constants := by
    rw [List.flatMap_append]
    exact List.rel_append written.constants one.constants
  properties := by
    rw [List.flatMap_append]
    exact List.rel_append written.properties one.properties
  methods := by
    rw [List.flatMap_append]
    exact List.rel_append written.methods one.methods

/-- **One member** adds what its item declares, and nothing else. -/
theorem member_spec {state next : WrittenType × List String} {item : MemberOutline}
    (done : file.member state item = .ok next) :
    ∃ more, file.Written [item] more ∧ next.1 = state.1.extend more := by
  cases item with
  | comment span =>
      cases done
      exact ⟨.ofHead state.1.head, ⟨rfl, .nil, .nil, .nil⟩,
        by simp [WrittenType.extend, WrittenType.ofHead]⟩
  | interpolation line => cases done
  | traitUse span =>
      cases done
      refine ⟨{ WrittenType.ofHead state.1.head with traits := traitUses (file.slice span) },
        ⟨?_, .nil, .nil, .nil⟩, by simp [WrittenType.extend, WrittenType.ofHead]⟩
      simp [MemberOutline.traitSpans]
  | constants extent attributeLine elements =>
      obtain ⟨_, _, rest⟩ := bind_ok done
      obtain ⟨read, one, last⟩ := bind_ok rest
      cases last
      refine ⟨{ WrittenType.ofHead state.1.head with constants := read },
        ⟨rfl, ?_, .nil, .nil⟩, by simp [WrittenType.extend, WrittenType.ofHead]⟩
      simpa [MemberOutline.constantElements] using constants_spec one
  | properties extent attributeLine elements =>
      obtain ⟨_, _, rest⟩ := bind_ok done
      obtain ⟨read, one, last⟩ := bind_ok rest
      cases last
      refine ⟨{ WrittenType.ofHead state.1.head with properties := read },
        ⟨rfl, .nil, ?_, .nil⟩, by simp [WrittenType.extend, WrittenType.ofHead]⟩
      simpa [MemberOutline.propertyElements] using properties_spec one
  | method extent attributeLine name parameterList body =>
      obtain ⟨_, _, rest⟩ := bind_ok done
      obtain ⟨read, one, last⟩ := bind_ok rest
      cases last
      refine ⟨{ WrittenType.ofHead state.1.head with methods := [read] },
        ⟨rfl, .nil, .nil, .cons (method_spec one) .nil⟩, ?_⟩
      simp [WrittenType.extend, WrittenType.ofHead]

/-- **All members.** -/
theorem members_spec {before items : List MemberOutline} {state last : WrittenType × List String}
    (done : items.foldlM file.member state = .ok last) (written : file.Written before state.1) :
    file.Written (before ++ items) last.1 ∧ last.1.head = state.1.head := by
  induction items generalizing before state with
  | nil =>
      cases done
      exact ⟨by simpa using written, rfl⟩
  | cons item items ih =>
      rw [List.foldlM_cons] at done
      obtain ⟨next, one, rest⟩ := bind_ok done
      obtain ⟨more, declared, extended⟩ := member_spec one
      have further := written.append declared
      rw [← extended] at further
      obtain ⟨all, head⟩ := ih rest further
      refine ⟨by simpa using all, head.trans ?_⟩
      rw [extended, WrittenType.extend]

/-- A type is read by its header, and then member by member. -/
theorem exists_members {outline : TypeOutline} {doc : List String} {written : WrittenType}
    (done : file.type outline doc = .ok written) :
    ∃ head last, header? outline.kind
        (file.slice ⟨outline.extent.span.start, outline.bodyStart⟩) = some head ∧
      outline.members.foldlM file.member (.ofHead { head with doc }, []) = .ok last ∧
      written = last.1 := by
  obtain ⟨_, _, rest⟩ := bind_ok done
  cases header : header? outline.kind
      (file.slice ⟨outline.extent.span.start, outline.bodyStart⟩) with
  | none =>
      simp only [header] at rest
      cases rest
  | some head =>
      simp only [header] at rest
      obtain ⟨last, members, done'⟩ := bind_ok rest
      cases done'
      exact ⟨head, last, rfl, members, rfl⟩

theorem type_written {outline : TypeOutline} {doc : List String} {written : WrittenType}
    (done : file.type outline doc = .ok written) :
    file.Heads outline written.head ∧ file.Written outline.members written := by
  obtain ⟨head, last, header, members, rfl⟩ := exists_members done
  obtain ⟨all, same⟩ := members_spec members (.nil _)
  exact ⟨⟨head, doc, header, same⟩, all⟩

/-! ## Entries -/

/-- **One item** of the outline becomes one entry if it says anything. -/
theorem entry_states {doc next : List String} {item : Outline} {entry : Option Entry}
    (done : file.entry doc item = .ok (entry, next)) :
    List.Forall₂ file.States ([item].filter Outline.declares) entry.toList := by
  cases item with
  | comment span | empty =>
      cases done
      exact .nil
  | interpolation span line =>
      rw [File.entry] at done
      split at done
      · cases done
        exact .nil
      · cases done
  | markup line | other construct line => cases done
  | directive extent =>
      obtain ⟨strictTypes, known, rest⟩ := bind_ok done
      cases rest
      exact .cons (.directive known) .nil
  | begin_ name =>
      cases done
      exact .cons (.begin_ name) .nil
  | enter name =>
      cases done
      exact .cons (.enter name) .nil
  | leave =>
      cases done
      exact .cons .leave .nil
  | imports span =>
      cases done
      exact .cons (.imports (imports_spec _)) .nil
  | type outline =>
      obtain ⟨written, read, rest⟩ := bind_ok done
      cases rest
      obtain ⟨head, members⟩ := type_written read
      exact .cons (.type head members) .nil

/-- The text of a file is the source without its tabs; its literals and its outline are those of
the tree of this text. -/
theorem tree_of_read {source : String} {outline : List Outline}
    (done : File.read source = .ok (file, outline)) :
    ∃ tree, SyntaxTree.read (expandTabsFrom (literalSpans source.toList) 0 source.toList) =
        .ok tree ∧
      file = ⟨(expandTabsFrom (literalSpans source.toList) 0 source.toList).toArray,
        tree.literals⟩ ∧
      outline = tree.outline := by
  unfold File.read at done
  cases found : SyntaxTree.read (expandTabsFrom (literalSpans source.toList) 0 source.toList) with
  | error failure =>
      simp only [found] at done
      cases done
  | ok tree =>
      simp only [found] at done
      cases done
      exact ⟨tree, rfl, rfl, rfl⟩

/-- **Nothing is passed over.** -/
theorem entries_states {doc : List String} {outline : List Outline} {entries : List Entry}
    (done : file.entries doc outline = .ok entries) :
    List.Forall₂ file.States (outline.filter Outline.declares) entries := by
  induction outline generalizing doc entries with
  | nil =>
      cases done
      exact .nil
  | cons item items ih =>
      obtain ⟨⟨entry, next⟩, one, rest⟩ := bind_ok done
      obtain ⟨others, read, last⟩ := bind_ok rest
      cases last
      rw [← List.singleton_append, List.filter_append]
      exact List.rel_append (entry_states one) (ih read)

end File

end Declaration

end Emend

import Emend.Layout
import Emend.Source.Outline

/-!
# Reading declarations

`SourceUnit.parse` reads a source text: tabs outside literals become four
spaces, the grammar gives the outline, what each item of the outline says is an
`Entry`, and the entries are put into a unit one after the other. The details of a
declaration (modifiers, names, types, values) are read from the text between its
parts, word by word; that text may hold comments, which then are words as any
others.

A syntax error anywhere is reported before anything else. Otherwise the first
construct that the model cannot hold is reported, with its line.
-/

set_option autoImplicit false

namespace Emend

/-- Why a source text could not be read. -/
inductive LoadError where
  | malformed (at_ : Position)
  /-- The text holds something that the model cannot hold. -/
  | unsupported (construct : String) (line : Nat)
  deriving DecidableEq, Repr, Inhabited

namespace LoadError

def message : LoadError → String
  | malformed at_ => s!"syntax error at line {at_.line}, column {at_.column}"
  | unsupported construct line => s!"unsupported construct '{construct}' at line {line}"

def line : LoadError → Nat
  | malformed at_ => at_.line
  | unsupported _ line => line

end LoadError

namespace Declaration

/-! ## Texts of single declarations -/

def stripBraces (text : String) : String :=
  let text := Text.trim text
  ((Text.strip? "\x7b" text).bind (Text.stripEnd? "\x7d")).getD text

/-- The lines of a doc comment; `none` for any other comment. -/
def docLines? (comment : String) : Option (List String) :=
  match (Text.strip? "/**" (Text.trim comment)).bind (Text.stripEnd? "*/") with
  | none => none
  | some inner =>
    let lines := (Text.lines inner).map fun line =>
      let line := Text.trim line
      let line := (Text.strip? "*" line).getD line
      Text.trimEnd ((Text.strip? " " line).getD line)
    some (Text.dropEndWhile String.isEmpty (lines.dropWhile String.isEmpty))

/-- Which clause of a type header the words belong to. -/
inductive Clause where
  | extends_
  | implements_

/-- Read the words of a type header after the name. -/
def headerClauses : Option Clause → TypeDecl → List String → Option TypeDecl
  | _, decl, [] => some decl
  | clause, decl, word :: words =>
    if Text.sameIgnoringCase word "extends" then headerClauses (some .extends_) decl words
    else if Text.sameIgnoringCase word "implements" then
      headerClauses (some .implements_) decl words
    else if word == "," then headerClauses clause decl words
    else
      match clause with
      | some .extends_ =>
        headerClauses clause { decl with bases := decl.bases ++ [word] } words
      | some .implements_ =>
        headerClauses clause { decl with interfaces := decl.interfaces ++ [word] } words
      | none => none

/-- Read a type header: modifiers, the keyword, the name, and the clauses. -/
def header? (kind : TypeKind) (header : String) : Option TypeDecl :=
  let words := Text.words (Text.replaceChar ',' " , " header)
  let isKeyword (word : String) : Bool := Text.sameIgnoringCase word kind.keyword
  match words.dropWhile (!isKeyword ·) with
  | _ :: name :: rest =>
    let decl := TypeDecl.ofName kind name
    headerClauses none
      { decl with modifiers := (words.takeWhile (!isKeyword ·)).map Text.lower } rest
  | _ => none

/-- Split the word `function` or `const` off an import. -/
def splitKind (text : String) (default_ : ImportKind) : ImportKind × String :=
  let cs := text.toList
  let word := String.ofList (cs.takeWhile (!Text.isBlank ·))
  match cs.dropWhile (!Text.isBlank ·) with
  | _ :: rest =>
    if Text.sameIgnoringCase word "function" then (.function, Text.trim (.ofList rest))
    else if Text.sameIgnoringCase word "const" then (.constant, Text.trim (.ofList rest))
    else (default_, text)
  | [] => (default_, text)

structure ImportClause where
  kind : ImportKind
  /-- The beginning that the names of a group share. -/
  group : Option String
  text : String
  deriving DecidableEq, Repr, Inhabited

/-- Read one clause of an import: a name, and an alias after `as`. -/
def ImportClause.read? (clause : ImportClause) : Option Import :=
  match Text.words clause.text with
  | [] => none
  | target :: rest =>
    let name := match clause.group with
      | some outer => Name.join outer target
      | none => Name.normalize target
    let localName := match rest with
      | as_ :: written :: _ =>
        if Text.sameIgnoringCase as_ "as" then written else Name.short name
      | _ => Name.short name
    some { Import.aliased name localName with kind := clause.kind }

def importClauses (text : String) : List ImportClause :=
  let text := Text.trim text
  let text := Text.trim (Text.dropEnd ';' (Text.trim ((Text.strip? "use" text).getD text)))
  let (kind, text) := splitKind text .type
  match Text.cut? '{' text with
  | some (before, after) =>
    let group := Text.dropEnd Name.separator (Text.trim before)
    (Text.split ',' (stripBraces ("\x7b" ++ after))).map fun clause =>
      let (kind, clause) := splitKind (Text.trim clause) kind
      ⟨kind, some group, clause⟩
  | none => (Text.split ',' text).map fun clause => ⟨kind, none, clause⟩

def imports (text : String) : List Import := (importClauses text).filterMap ImportClause.read?

/-- Read the use of traits in a type; a block of rules goes to the last one. -/
def traitUses (text : String) : List TraitUse :=
  let text := Text.trim text
  let text := (Text.strip? "use" text).getD text
  let (names, block) := match Text.cut? '{' text with
    | some (before, after) => (before, some ("\x7b" ++ after))
    | none => (Text.dropEnd ';' (Text.trimEnd text), none)
  let uses := (((Text.split ',' names).map Text.trim).filter (!·.isEmpty)).map fun name =>
    TraitUse.mk name none
  match block, uses.getLast? with
  | some block, some last =>
    uses.dropLast ++ [{ last with adaptations := some (Layout.dedentBlock (stripBraces block) []) }]
  | _, _ => uses

/-- Write the parameters with single spaces for the gaps between words that no
literal owns; `gap` says that blanks were passed, `out` is what is written so
far, latest first, and `offset` is where the text stands. -/
def collapseFrom (spans : List Span) (offset : Nat) (gap : Bool) (out : List Char) :
    List Char → List Char
  | [] => out
  | c :: cs =>
    if Text.isBlank c && !inAnySpan spans offset then
      collapseFrom spans (offset + 1) true out cs
    else if gap && !out.isEmpty && out.head? != some '(' && c != ')' then
      collapseFrom spans (offset + 1) false (c :: ' ' :: out) cs
    else collapseFrom spans (offset + 1) false (c :: out) cs

/-- A parameter list without its parentheses, without needless blanks and
without commas at its end. -/
def parameters (text : String) (offset : Nat) (spans : List Span) : String :=
  let (offset, inner) :=
    match (Text.strip? "(" text).bind (Text.stripEnd? ")") with
    | some inner => (offset + 1, inner)
    | none => (offset, text)
  let out := (collapseFrom spans offset false [] inner.toList).reverse
  Text.trimEnd (Text.dropEnd ',' (.ofList out))

/-! ## What is written in a file -/

structure WrittenType where
  head : TypeDecl
  traits : List TraitUse
  constants : List Constant
  properties : List Property
  methods : List Method
  deriving DecidableEq, Inhabited

namespace WrittenType

/-- A declaration whose members have not been read yet. -/
def ofHead (head : TypeDecl) : WrittenType := ⟨head, [], [], [], []⟩

/-- The declaration with each member under its name. -/
def toDecl (type : WrittenType) : TypeDecl :=
  { type.head with
    traits := .keyed TraitUse.name type.traits
    constants := .keyed Constant.name type.constants
    properties := .keyed Property.name type.properties
    methods := .keyed Method.name type.methods }

end WrittenType

/-- What an item of the outline says. -/
inductive Entry where
  | directive (strictTypes : Bool)
  | begin_ (name : String)
  | enter (name : String)
  | leave
  | imports (imports : List Import)
  | type (type : WrittenType)
  deriving DecidableEq, Inhabited

/-- What reading needs to know of the file: its text and its literals. -/
structure File where
  text : Array Char
  literals : List Span

namespace File

def slice (file : File) (span : Span) : String := span.slice file.text

/-- The marks of the lines of a text that stands at `offset`. -/
def marks (file : File) (text : String) (offset : Nat) : List LineMark :=
  marksFrom file.literals offset (Text.splitChars '\n' text.toList)

/-- The value that stands at `offset`: trimmed, and its lines after the first
without their common indentation. -/
def value (file : File) (text : String) (offset : Nat) : String :=
  let leading := (text.toList.takeWhile Text.isBlank).length
  let text := Text.trim text
  Layout.dedentContinuation text (file.marks text (offset + leading))

/-- The name and the value of an element; `none` without an equals sign. -/
def element? (file : File) (span : Span) : Option (String × String) :=
  (Text.cut? '=' (file.slice span)).map fun (name, value) =>
    (name, file.value value (span.start + name.length + 1))

/-- The body of a method without its braces and its indentation. -/
def body (file : File) (span : Span) : String :=
  let inner := file.slice ⟨span.start + 1, span.stop - 1⟩
  Layout.dedentBlock inner (file.marks inner (span.start + 1))

def refuseAttribute (attributeLine : Option Nat) : Except LoadError Unit :=
  match attributeLine with
  | some line => .error (.unsupported "attribute" line)
  | none => .ok ()

/-- The words of the text, put together, if there are any. -/
def typeHintOf (words : List String) : Option String :=
  if words.isEmpty then none else some (String.join words)

/-- Read elements that are declared together. The doc comment goes to the first of
them. -/
def together {α : Type} (read : List String → Extent → Except LoadError α) (doc : List String) :
    List Extent → Except LoadError (List α)
  | [] => .ok []
  | element :: elements => do
    let first ← read doc element
    return first :: (← together read [] elements)

def constants (file : File) (extent : Extent) (elements : List Extent) (doc : List String) :
    Except LoadError (List Constant) :=
  let first := (elements.head?.map (·.span.start)).getD extent.span.stop
  let words := (Text.words (file.slice ⟨extent.span.start, first⟩)).filter fun word =>
    !Text.sameIgnoringCase word "const"
  let isFinal := words.any (Text.sameIgnoringCase · "final")
  let words := words.filter fun word => !Text.sameIgnoringCase word "final"
  let visibility := (words.filterMap Visibility.ofKeyword?).getLast?
  let typeHint := typeHintOf (words.filter fun word => (Visibility.ofKeyword? word).isNone)
  let read (doc : List String) (element : Extent) : Except LoadError Constant :=
    match file.element? element.span with
    | none => .error (.unsupported "const_element" element.line)
    | some (name, value) =>
      .ok { Constant.ofValue name value with visibility, isFinal, typeHint, doc }
  together read doc elements

def properties (file : File) (extent : Extent) (elements : List Extent) (doc : List String) :
    Except LoadError (List Property) :=
  let first := (elements.head?.map (·.span.start)).getD extent.span.stop
  let words := Text.words (file.slice ⟨extent.span.start, first⟩)
  let visibility := ((words.filterMap Visibility.ofKeyword?).getLast?).getD .public
  let words := words.filter fun word => (Visibility.ofKeyword? word).isNone
  let isStatic := words.any (Text.sameIgnoringCase · "static")
  let isReadonly := words.any (Text.sameIgnoringCase · "readonly")
  let typeHint := typeHintOf (words.filter fun word =>
    !Text.sameIgnoringCase word "static" && !Text.sameIgnoringCase word "readonly")
  let read (doc : List String) (element : Extent) : Except LoadError Property :=
    let (name, value) := match file.element? element.span with
      | some (name, value) => (name, some value)
      | none => (file.slice element.span, none)
    .ok { Property.ofName name with value, visibility, isStatic, isReadonly, typeHint, doc }
  together read doc elements

/-- Read one word before the name of a method. -/
def methodWord (line : Nat) (method : Method) (word : String) : Except LoadError Method :=
  match Text.lower word with
  | "function" => .ok method
  | "static" => .ok { method with isStatic := true }
  | "abstract" => .ok { method with isAbstract := true }
  | "final" => .ok { method with isFinal := true }
  | "&" => .error (.unsupported "by-reference method" line)
  | other =>
    match Visibility.ofKeyword? other with
    | some visibility => .ok { method with visibility }
    | none => .error (.unsupported "method_declaration" line)

/-- The return type in the text between the parameters and the body. -/
def returnType? (tail : String) : Option String :=
  let tail := Text.trim (Text.dropEnd ';' (Text.trim tail))
  ((Text.strip? ":" tail).map Text.trim).filter (!·.isEmpty)

def method (file : File) (extent : Extent) (name parameterList : Span) (body : Option Span)
    (doc : List String) : Except LoadError Method := do
  let words := Text.words (file.slice ⟨extent.span.start, name.start⟩)
  let start : Method := { Method.ofName (file.slice name) with body := none }
  let method ← words.foldlM (methodWord extent.line) start
  let tailStop := (body.map (·.start)).getD extent.span.stop
  return { method with
    parameters := parameters (file.slice parameterList) parameterList.start file.literals
    returnType := returnType? (file.slice ⟨parameterList.stop, tailStop⟩)
    body := body.map file.body
    doc }

/-- Read one member; the second part of the state is the doc comment that waits
for its declaration. -/
def member (file : File) (state : WrittenType × List String) :
    MemberOutline → Except LoadError (WrittenType × List String)
  | .comment span => .ok (state.1, (docLines? (file.slice span)).getD state.2)
  | .interpolation line => .error (.unsupported "inline HTML" line)
  | .traitUse span =>
    .ok ({ state.1 with traits := state.1.traits ++ traitUses (file.slice span) }, [])
  | .constants extent attributeLine elements => do
    refuseAttribute attributeLine
    let read ← file.constants extent elements state.2
    return ({ state.1 with constants := state.1.constants ++ read }, [])
  | .properties extent attributeLine elements => do
    refuseAttribute attributeLine
    let read ← file.properties extent elements state.2
    return ({ state.1 with properties := state.1.properties ++ read }, [])
  | .method extent attributeLine name parameterList body => do
    refuseAttribute attributeLine
    let read ← file.method extent name parameterList body state.2
    return ({ state.1 with methods := state.1.methods ++ [read] }, [])

/-- What an unreadable type declaration is called. -/
def typeConstruct (kind : TypeKind) : String := kind.keyword ++ "_declaration"

def type (file : File) (type : TypeOutline) (doc : List String) :
    Except LoadError WrittenType := do
  refuseAttribute type.attributeLine
  let header := file.slice ⟨type.extent.span.start, type.bodyStart⟩
  match header? type.kind header with
  | none => throw (.unsupported (typeConstruct type.kind) type.extent.line)
  | some head =>
    return (← type.members.foldlM file.member (.ofHead { head with doc }, [])).1

/-- Read a directive: only strict types are known. -/
def directive (text : String) (line : Nat) : Except LoadError Bool :=
  let compact := String.ofList (text.toList.filter (!Text.isBlank ·))
  if Text.contains "strict_types=" compact then .ok (Text.contains "strict_types=1" compact)
  else .error (.unsupported "declare directive" line)

/-- The name of a namespace, which is empty where none is written. -/
def spaceName (file : File) (name : Option Span) : String :=
  (name.map fun span => Name.normalize (file.slice span)).getD ""

def constructName : String → String
  | "function_definition" => "free function"
  | "enum_declaration" => "enum"
  | other => other

/-- Read one item of the outline, if it says anything; `doc` is the doc comment that
waits for its declaration. -/
def entry (file : File) (doc : List String) :
    Outline → Except LoadError (Option Entry × List String)
  | .empty => .ok (none, doc)
  | .comment span => .ok (none, (docLines? (file.slice span)).getD doc)
  | .interpolation span line =>
    if Text.trim (file.slice span) == "?>" then .ok (none, doc)
    else .error (.unsupported "inline HTML" line)
  | .markup line => .error (.unsupported "inline HTML" line)
  | .directive extent => do
    return (some (.directive (← directive (file.slice extent.span) extent.line)), doc)
  | .begin_ name => .ok (some (.begin_ (file.spaceName name)), [])
  | .enter name => .ok (some (.enter (file.spaceName name)), [])
  | .leave => .ok (some .leave, doc)
  | .imports span => .ok (some (.imports (imports (file.slice span))), [])
  | .type type => do return (some (.type (← file.type type doc)), [])
  | .other construct line => .error (.unsupported (constructName construct) line)

/-- Read the items of the outline one after the other. -/
def entries (file : File) (doc : List String) : List Outline → Except LoadError (List Entry)
  | [] => .ok []
  | item :: items => do
    let (entry, doc) ← file.entry doc item
    return entry.toList ++ (← entries file doc items)

def read (source : String) : Except LoadError (File × List Outline) :=
  let text := expandTabsFrom (literalSpans source.toList) 0 source.toList
  match SyntaxTree.read text with
  | .error failure => .error (.malformed failure.cursor.position)
  | .ok tree => .ok (⟨text.toArray, tree.literals⟩, tree.outline)

end File

def entries (source : String) : Except LoadError (List Entry) := do
  let (file, outline) ← File.read source
  file.entries [] outline

/-! ## From the entries to the unit -/

/-- What has been read so far. -/
structure Reading where
  unit : SourceUnit
  current : String
  /-- The namespaces in whose braces it stands, innermost first. -/
  outer : List String

namespace Reading

/-- Nothing has been read yet. -/
def start : Reading := ⟨.empty, "", []⟩

def add (reading : Reading) : Entry → Reading
  | .directive strictTypes => { reading with unit := { reading.unit with strictTypes } }
  | .begin_ name => { reading with unit := reading.unit.updateNamespace name id, current := name }
  | .enter name =>
    ⟨reading.unit.updateNamespace name id, name, reading.current :: reading.outer⟩
  | .leave =>
    match reading.outer with
    | [] => reading
    | around :: outer => { reading with current := around, outer }
  | .imports imports =>
    { reading with
      unit := reading.unit.updateNamespace reading.current fun ns =>
        imports.foldl Namespace.insertImport ns }
  | .type type =>
    { reading with
      unit := reading.unit.updateNamespace reading.current fun ns =>
        { ns with types := ns.types.insert type.toDecl.name type.toDecl } }

end Reading

end Declaration

namespace SourceUnit

def resolveReferences (unit : SourceUnit) : SourceUnit :=
  unit.mapTypes fun ns decl => decl.resolveReferences ns.scope

/-- The unit of a file in which this is written. -/
def ofEntries (entries : List Declaration.Entry) : SourceUnit :=
  (entries.foldl Declaration.Reading.add .start).unit.resolveReferences

def parse (source : String) : Except LoadError SourceUnit :=
  (Declaration.entries source).map ofEntries

end SourceUnit

end Emend

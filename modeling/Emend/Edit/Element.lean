import Emend.SourceUnit

/-!
# Elements of types

An *element* is a property, a constant, a method, or a reference to a class: a
used trait, a base type or an implemented interface. Elements are addressed by
their kind and a query for their name. Names of properties and constants differ
by case, names of methods and classes do not; a query for a class without a
separator asks for the last segment only.

`modify` transforms the elements that answer to a query. It then restores what
holds of every unit: names are normalized, tables are keyed by the names, and
references are imported where their last segment is still free. A unit in which
two elements of one type would have the same name is refused.
-/

set_option autoImplicit false

namespace Emend

inductive ElementKind where
  | property
  | constant
  | traitUse
  | baseType
  | implemented
  | method
  deriving DecidableEq, Repr, Inhabited

namespace ElementKind

def keyword : ElementKind → String
  | property => "property"
  | constant => "constant"
  | traitUse => "capability_use"
  | baseType => "base_type"
  | implemented => "implemented_capability"
  | method => "method"

def isReference : ElementKind → Bool
  | traitUse | baseType | implemented => true
  | property | constant | method => false

def ofKeyword? (word : String) : Option ElementKind :=
  match Text.lower (Text.trim word) with
  | "property" | "properties" => some property
  | "constant" | "const" => some constant
  | "capability_use" | "capability" | "trait" | "use" | "mixin" => some traitUse
  | "base_type" | "base" | "extend" | "extends" | "parent" => some baseType
  | "implemented_capability" | "implement" | "implements" | "interface" => some implemented
  | "method" | "function" => some method
  | _ => none

def sameName : ElementKind → String → String → Bool
  | property, a, b | constant, a, b => a == b
  | method, a, b => Text.sameIgnoringCase a b
  | traitUse, a, b | baseType, a, b | implemented, a, b =>
    Text.sameIgnoringCase (Name.normalize a) (Name.normalize b)

def answers (kind : ElementKind) (name query : String) : Bool :=
  let query := Text.trim query
  match kind with
  | property => name == Text.dropStart '$' query
  | constant => name == query
  | method => Text.sameIgnoringCase name query
  | traitUse | baseType | implemented =>
    if query.toList.contains Name.separator then
      Text.sameIgnoringCase (Name.normalize name) (Name.normalize query)
    else Text.sameIgnoringCase (Name.short name) query

end ElementKind

inductive EditError where
  /-- The last segment of a name is taken in a namespace. -/
  | ambiguousImport (name existing localName namespace_ : String)
  | multipleInheritance (type existing requested : String)
  | duplicateElement (type : String) (kind : ElementKind) (name : String)
  | unknownKind (word : String)
  deriving DecidableEq, Repr, Inhabited

def EditError.message : EditError → String
  | ambiguousImport name existing localName namespace_ =>
    s!"cannot import {name} into namespace '{namespace_}': " ++
      s!"alias '{localName}' already refers to {existing}"
  | multipleInheritance type existing requested =>
    s!"{type} already extends {existing}; cannot also extend {requested}"
  | duplicateElement type kind name =>
    "" ++ type ++ " would contain " ++ kind.keyword ++ " '" ++ name ++ "' twice"
  | unknownKind word => s!"unsupported construct kind: '{word}'"

def ElementKind.parse (word : String) : Except EditError ElementKind :=
  match ofKeyword? word with
  | some kind => .ok kind
  | none => .error (.unknownKind (Text.trim word))

inductive Element where
  | property (property : Property)
  | constant (constant : Constant)
  | traitUse (use : TraitUse)
  | baseType (name : String)
  | implemented (name : String)
  | method (method : Method)
  deriving DecidableEq, Repr, Inhabited

namespace Element

def kind : Element → ElementKind
  | property _ => .property
  | constant _ => .constant
  | traitUse _ => .traitUse
  | baseType _ => .baseType
  | implemented _ => .implemented
  | method _ => .method

def name : Element → String
  | property p => p.name
  | constant c => c.name
  | traitUse t => t.name
  | baseType n => n
  | implemented n => n
  | method m => m.name

/-- A change of elements as a change of properties. -/
def onProperty (f : Element → Element) (p : Property) : Property :=
  match f (.property p) with
  | .property changed => changed
  | _ => p

def onConstant (f : Element → Element) (c : Constant) : Constant :=
  match f (.constant c) with
  | .constant changed => changed
  | _ => c

def onTraitUse (f : Element → Element) (t : TraitUse) : TraitUse :=
  match f (.traitUse t) with
  | .traitUse changed => changed
  | _ => t

/-- A change of elements as a change of methods. -/
def onMethod (f : Element → Element) (m : Method) : Method :=
  match f (.method m) with
  | .method changed => changed
  | _ => m

end Element

structure Located where
  namespaceName : String
  typeName : String
  element : Element
  deriving DecidableEq, Repr, Inhabited

namespace TypeDecl

def elements (decl : TypeDecl) : ElementKind → List Element
  | .property => decl.properties.values.map .property
  | .constant => decl.constants.values.map .constant
  | .traitUse => decl.traits.values.map .traitUse
  | .baseType => decl.bases.map .baseType
  | .implemented => decl.interfaces.map .implemented
  | .method => decl.methods.values.map .method

/-- Replace the elements of one kind; an answer of another kind changes
nothing. -/
def mapElements (decl : TypeDecl) (kind : ElementKind) (f : Element → Element) : TypeDecl :=
  match kind with
  | .property => { decl with properties := decl.properties.mapValues (Element.onProperty f) }
  | .constant => { decl with constants := decl.constants.mapValues (Element.onConstant f) }
  | .traitUse => { decl with traits := decl.traits.mapValues (Element.onTraitUse f) }
  | .baseType => { decl with bases := decl.bases.map fun name => (f (.baseType name)).name }
  | .implemented =>
    { decl with interfaces := decl.interfaces.map fun name => (f (.implemented name)).name }
  | .method => { decl with methods := decl.methods.mapValues (Element.onMethod f) }

/-- The first name in a list that names the same element as an earlier one. -/
def duplicateIn? (kind : ElementKind) (seen : List String) : List String → Option String
  | [] => none
  | name :: names =>
    if seen.any (kind.sameName · name) then some name else duplicateIn? kind (name :: seen) names

/-- The first name of this kind that stands twice in the type. -/
def duplicate? (decl : TypeDecl) (kind : ElementKind) : Option String :=
  duplicateIn? kind [] ((decl.elements kind).map Element.name)

/-- Bring the names of elements into their stored form: properties without
dollar signs, references without a leading separator. -/
def normalizeNames (decl : TypeDecl) : TypeDecl :=
  { decl with
    properties := decl.properties.mapValues fun p => { p with name := Text.dropStart '$' p.name }
    bases := decl.bases.map Name.normalize
    interfaces := decl.interfaces.map Name.normalize
    traits := decl.traits.mapValues fun t => { t with name := Name.normalize t.name } }

end TypeDecl

namespace Namespace

/-- Whether a class can be written here without importing it: it is a type
keyword, it lives here, or it is imported. -/
def needsNoImport (ns : Namespace) (name : String) : Bool :=
  Name.isBuiltinType name || Text.sameIgnoringCase (Name.parent name) ns.name ||
    ns.importsName name

/-- Import a reference, unless it needs no import or its last segment is the
alias of an import or the name of a type. -/
def importReference (ns : Namespace) (name : String) : Namespace :=
  let last := Name.short name
  if ns.needsNoImport name || ns.imports.keys.any (Text.sameIgnoringCase · last) ||
      ns.types.keys.any (Text.sameIgnoringCase · last) then ns
  else ns.insertImport (Import.ofName name)

end Namespace

namespace SourceUnit

def find (unit : SourceUnit) (kind : ElementKind) (query : String) : List Located :=
  unit.namespaces.values.flatMap fun ns =>
    ns.types.values.flatMap fun decl =>
      ((decl.elements kind).filter fun e => kind.answers e.name query).map fun e =>
        ⟨ns.name, decl.name, e⟩

def count (unit : SourceUnit) (kind : ElementKind) (query : String) : Nat :=
  total (fun decl => ((decl.elements kind).filter fun e => kind.answers e.name query).length)
    unit.types

/-- The error for the first type with two elements of the same name. -/
def collision? (unit : SourceUnit) (kind : ElementKind) : Option EditError :=
  unit.namespaces.values.findSome? fun ns =>
    ns.types.values.findSome? fun decl =>
      (decl.duplicate? kind).map fun name =>
        .duplicateElement (Name.join ns.name decl.name) kind name

/-- Transform the elements of this kind that answer to a query. Gives the new
unit and how many elements were visited; nothing is changed if there are
none. -/
def modify (unit : SourceUnit) (kind : ElementKind) (query : String)
    (transform : Located → Element) : Except EditError (SourceUnit × Nat) :=
  let found := unit.find kind query
  if found.isEmpty then .ok (unit, 0)
  else
    let changed := unit.mapTypes fun ns decl =>
      (decl.mapElements kind fun e =>
        if kind.answers e.name query then transform ⟨ns.name, decl.name, e⟩ else e).normalizeNames
    match changed.collision? kind with
    | some error => .error error
    | none =>
      let keyed := changed.mapTypes fun _ decl => decl.rekey
      let references := if kind.isReference then found else []
      let imported := references.foldl (fun unit located =>
        unit.updateNamespace located.namespaceName
          (·.importReference (Name.normalize (transform located).name))) keyed
      .ok (imported, found.length)

end SourceUnit

end Emend

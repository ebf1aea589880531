import Emend.Member
import Emend.Scope
import Emend.Total

/-!
# Source units

A source unit is what the library knows of one source file: its namespaces, and
in each namespace the imports and the type declarations with their members.
Every table keeps the order of the file, so that members are printed in the
order in which they were read.
-/

set_option autoImplicit false

namespace Emend

inductive TypeKind where
  | «class»
  | «interface»
  | «trait»
  deriving DecidableEq, Repr, Inhabited

def TypeKind.keyword : TypeKind → String
  | .class => "class"
  | .interface => "interface"
  | .trait => "trait"

/-- The declaration of a class, interface or trait. -/
structure TypeDecl where
  kind : TypeKind
  name : String
  /-- The words before the keyword, in lower case. -/
  modifiers : List String
  doc : List String
  bases : List String
  interfaces : List String
  traits : Table TraitUse
  constants : Table Constant
  properties : Table Property
  methods : Table Method
  deriving BEq, DecidableEq, Inhabited

namespace TypeDecl

/-- A declaration without members. -/
def ofName (kind : TypeKind) (name : String) : TypeDecl :=
  ⟨kind, name, [], [], [], [], ∅, ∅, ∅, ∅⟩

def baseType? (decl : TypeDecl) : Option String :=
  if decl.kind == .class then decl.bases.head? else none

def hasModifier (decl : TypeDecl) (modifier : String) : Bool :=
  decl.modifiers.any fun m => Text.sameIgnoringCase m modifier

/-- Key every member by its present name. -/
def rekey (decl : TypeDecl) : TypeDecl :=
  { decl with
    traits := decl.traits.rekey TraitUse.name
    constants := decl.constants.rekey Constant.name
    properties := decl.properties.rekey Property.name
    methods := decl.methods.rekey Method.name }

/-- Resolve every reference to a class: base types, interfaces, traits, and the
types of properties and of returned values. -/
def resolveReferences (decl : TypeDecl) (scope : Scope) : TypeDecl :=
  { decl with
    bases := decl.bases.map scope.resolve
    interfaces := decl.interfaces.map scope.resolve
    traits := (decl.traits.mapValues fun t => { t with name := scope.resolve t.name }).rekey
      TraitUse.name
    properties := decl.properties.mapValues fun p =>
      { p with typeHint := p.typeHint.map scope.resolveType }
    methods := decl.methods.mapValues fun m =>
      { m with returnType := m.returnType.map scope.resolveType } }

end TypeDecl

structure Namespace where
  /-- Its name; empty for the global namespace. -/
  name : String
  imports : Table Import
  functionImports : Table Import
  constantImports : Table Import
  types : Table TypeDecl
  deriving BEq, DecidableEq, Inhabited

namespace Namespace

def ofName (name : String) : Namespace := ⟨Name.normalize name, ∅, ∅, ∅, ∅⟩

def isGlobal (ns : Namespace) : Bool := ns.name.isEmpty

/-- How names are read and written here. -/
def scope (ns : Namespace) : Scope := ⟨ns.name, ns.imports⟩

/-- Whether a type is imported under some alias. -/
def importsName (ns : Namespace) (name : String) : Bool := (ns.scope.importedAs? name).isSome

def importsOf (ns : Namespace) : ImportKind → Table Import
  | .type => ns.imports
  | .function => ns.functionImports
  | .constant => ns.constantImports

/-- Every import: types, then functions, then constants. -/
def allImports (ns : Namespace) : List Import :=
  ns.imports.values ++ ns.functionImports.values ++ ns.constantImports.values

/-- Add an import to the table of its kind. -/
def insertImport (ns : Namespace) (i : Import) : Namespace :=
  match i.kind with
  | .type => { ns with imports := ns.imports.insert i.localName i }
  | .function => { ns with functionImports := ns.functionImports.insert i.localName i }
  | .constant => { ns with constantImports := ns.constantImports.insert i.localName i }

end Namespace

structure SourceUnit where
  strictTypes : Bool
  /-- Namespaces by name; the empty name is the global namespace. -/
  namespaces : Table Namespace
  deriving BEq, DecidableEq, Inhabited

namespace SourceUnit

def empty : SourceUnit := ⟨false, ∅⟩

def namespace? (unit : SourceUnit) (name : String) : Option Namespace :=
  unit.namespaces.get? (Name.normalize name)

/-- Change the namespace of this name, which is created first if need be. -/
def updateNamespace (unit : SourceUnit) (name : String) (f : Namespace → Namespace) :
    SourceUnit :=
  let name := Name.normalize name
  let ns := (unit.namespaces.get? name).getD (Namespace.ofName name)
  { unit with namespaces := unit.namespaces.insert name (f ns) }

/-- Every declared type, namespace after namespace. -/
def types (unit : SourceUnit) : List TypeDecl :=
  unit.namespaces.values.flatMap fun ns => ns.types.values

def findType? (unit : SourceUnit) (name : String) : Option TypeDecl :=
  let name := Name.normalize name
  (unit.namespace? (Name.parent name)).bind fun ns => ns.types.get? (Name.short name)

/-- How many types are declared. -/
def typeCount (unit : SourceUnit) : Nat :=
  total (fun ns => ns.types.size) unit.namespaces.values

def mapTypes (unit : SourceUnit) (f : Namespace → TypeDecl → TypeDecl) : SourceUnit :=
  { unit with
    namespaces := unit.namespaces.mapValues fun ns =>
      { ns with types := ns.types.mapValues (f ns) } }

end SourceUnit

end Emend

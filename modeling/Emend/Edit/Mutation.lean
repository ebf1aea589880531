import Emend.Edit.Element

/-!
# Mutations

A mutation is an edit that says what a unit should contain: an import, a trait
use, a base type, an interface, a member, a doc line, or strict types. `check`
says whether it is possible; `apply` checks and then edits. A mutation that is
already satisfied changes nothing, doc lines apart.

A class that a mutation refers to is imported into the namespaces that need it,
unless it can be written there without an import.
-/

set_option autoImplicit false

namespace Emend

inductive Mutation where
  | import_ (name : String)
  | use_ (name : String)
  /-- Give classes a base class and interfaces a base interface. -/
  | extend_ (name : String)
  | implement_ (name : String)
  | property (property : Property)
  | constant (constant : Constant)
  /-- Add a method to every type, without its body to interfaces. -/
  | method (method : Method)
  /-- Append a line to the doc comment of every type. -/
  | doc (line : String)
  | strictTypes (on : Bool)
  deriving DecidableEq, Repr, Inhabited

namespace Mutation

def ofImport (name : String) : Mutation := import_ (Name.normalize name)

def ofUse (name : String) : Mutation := use_ (Name.normalize name)

/-- The mutation that sets a base type. -/
def ofExtend (name : String) : Mutation := extend_ (Name.normalize name)

def ofImplement (name : String) : Mutation := implement_ (Name.normalize name)

def describe : Mutation → String
  | import_ name => "import " ++ name
  | use_ name => "use " ++ name
  | extend_ name => "extend " ++ name
  | implement_ name => "implement " ++ name
  | property p => "property $" ++ p.name
  | constant c => "constant " ++ c.name
  | method m => "method " ++ m.name ++ "()"
  | doc _ => "doc line"
  | strictTypes on => if on then "strict_types=1" else "strict_types=0"

def usesTraits : TypeKind → Bool
  | .class | .trait => true
  | .interface => false

/-- Whether types of this kind have base types. -/
def hasBases : TypeKind → Bool
  | .class | .interface => true
  | .trait => false

/-- Whether two references mean the same class. -/
def sameClass (a b : String) : Bool :=
  Text.sameIgnoringCase (Name.normalize a) (Name.normalize b)

def isSelf (ns : Namespace) (decl : TypeDecl) (name : String) : Bool :=
  Text.sameIgnoringCase (Name.join ns.name decl.name) name

def declares (wanted : TypeKind → Bool) (ns : Namespace) : Bool :=
  ns.types.values.any fun decl => wanted decl.kind

/-- The error if a class cannot be imported into a namespace: its last segment is
the alias of another import or the name of a type there. -/
def importConflict? (ns : Namespace) (name : String) : Option EditError :=
  if ns.needsNoImport name then none
  else
    let last := Name.short name
    let conflict (existing : String) : EditError := .ambiguousImport name existing last ns.name
    match ns.imports.values.find? fun i =>
        i.kind == .type && Text.sameIgnoringCase i.localName last with
    | some i => some (conflict i.name)
    | none => (ns.types.keys.find? (Text.sameIgnoringCase · last)).map fun localName =>
        conflict (Name.join ns.name localName)

/-- Check the import of a class into the namespaces that satisfy `reached`. -/
def checkImports (unit : SourceUnit) (name : String) (reached : Namespace → Bool) :
    Except EditError Unit :=
  match (unit.namespaces.values.filter reached).findSome? (importConflict? · name) with
  | some error => .error error
  | none => .ok ()

/-- Check that no class has another base class. -/
def checkSingleInheritance (unit : SourceUnit) (name : String) : Except EditError Unit :=
  let fault (ns : Namespace) (decl : TypeDecl) : Option EditError :=
    match decl.baseType? with
    | some existing =>
      if !isSelf ns decl name && !sameClass existing name then
        some (.multipleInheritance (Name.join ns.name decl.name) existing name)
      else none
    | none => none
  match unit.namespaces.values.findSome? fun ns => ns.types.values.findSome? (fault ns) with
  | some error => .error error
  | none => .ok ()

def check (mutation : Mutation) (unit : SourceUnit) : Except EditError Unit :=
  match mutation with
  | import_ name => checkImports unit name fun _ => true
  | use_ name => checkImports unit name (declares usesTraits)
  | implement_ name => checkImports unit name (declares (· == .class))
  | extend_ name => do
    checkImports unit name (declares hasBases)
    checkSingleInheritance unit name
  | property _ | constant _ | method _ | doc _ | strictTypes _ => .ok ()

/-- Edit every namespace; each edit says how many changes it made. -/
def editNamespaces (unit : SourceUnit) (f : Namespace → Namespace × Nat) : SourceUnit × Nat :=
  ({ unit with namespaces := unit.namespaces.mapValues fun ns => (f ns).1 },
    total (fun ns => (f ns).2) unit.namespaces.values)

/-- Edit every type; an edit that changes nothing is `none`. -/
def editTypes (unit : SourceUnit) (f : Namespace → TypeDecl → Option TypeDecl) :
    SourceUnit × Nat :=
  editNamespaces unit fun ns =>
    ({ ns with types := ns.types.mapValues fun decl => (f ns decl).getD decl },
      (ns.types.values.filter fun decl => (f ns decl).isSome).length)

/-- Import a class into the namespaces that satisfy `reached` and need it. -/
def importWhere (unit : SourceUnit) (name : String) (reached : Namespace → Bool) :
    SourceUnit × Nat :=
  editNamespaces unit fun ns =>
    if reached ns && !ns.needsNoImport name then (ns.insertImport (Import.ofName name), 1)
    else (ns, 0)

/-- One edit after the other, with all their changes. -/
def andThen (first : SourceUnit × Nat) (second : SourceUnit → SourceUnit × Nat) :
    SourceUnit × Nat :=
  let (unit, changes) := second first.1
  (unit, first.2 + changes)

/-- Use a trait in a type that can and does not yet, and that is not the trait
itself. -/
def addTrait (name : String) (ns : Namespace) (decl : TypeDecl) : Option TypeDecl :=
  if usesTraits decl.kind && !isSelf ns decl name && !decl.traits.keys.any (sameClass · name) then
    some { decl with traits := decl.traits.insert name (TraitUse.ofName name) }
  else none

/-- Give a class without a base class its base class, and an interface one more
base interface. -/
def addBase (name : String) (ns : Namespace) (decl : TypeDecl) : Option TypeDecl :=
  let wanted := match decl.kind with
    | .class => decl.bases.isEmpty
    | .interface => !decl.bases.any (sameClass · name)
    | .trait => false
  if !isSelf ns decl name && wanted then some { decl with bases := decl.bases ++ [name] } else none

/-- Let a class implement an interface that it does not implement yet. -/
def addInterface (name : String) (decl : TypeDecl) : Option TypeDecl :=
  if decl.kind == .class && !decl.interfaces.any (sameClass · name) then
    some { decl with interfaces := decl.interfaces ++ [name] }
  else none

/-- Add a property to a type that is no interface and has none of this name. -/
def addProperty (p : Property) (decl : TypeDecl) : Option TypeDecl :=
  if decl.kind == .interface || decl.properties.contains p.name then none
  else some { decl with properties := decl.properties.insert p.name p }

def addConstant (c : Constant) (decl : TypeDecl) : Option TypeDecl :=
  if decl.constants.contains c.name then none
  else some { decl with constants := decl.constants.insert c.name c }

/-- Add a method to a type that has none of this name; an interface only
declares it. -/
def addMethod (m : Method) (decl : TypeDecl) : Option TypeDecl :=
  if decl.methods.contains m.name then none
  else
    let added := if decl.kind == .interface then { m with body := none, isAbstract := false } else m
    some { decl with methods := decl.methods.insert added.name added }

/-- Edit a unit without checking; gives the number of changes. -/
def edit (mutation : Mutation) (unit : SourceUnit) : SourceUnit × Nat :=
  match mutation with
  | import_ name => importWhere unit name fun _ => true
  | use_ name =>
    andThen (importWhere unit name (declares usesTraits)) (editTypes · (addTrait name))
  | extend_ name =>
    andThen (importWhere unit name (declares hasBases)) (editTypes · (addBase name))
  | implement_ name =>
    andThen (importWhere unit name (declares (· == .class)))
      (editTypes · fun _ => addInterface name)
  | property p => editTypes unit fun _ => addProperty p
  | constant c => editTypes unit fun _ => addConstant c
  | method m => editTypes unit fun _ => addMethod m
  | doc line => editTypes unit fun _ decl => some { decl with doc := decl.doc ++ [line] }
  | strictTypes on =>
    ({ unit with strictTypes := on }, if unit.strictTypes == on then 0 else 1)

def apply (mutation : Mutation) (unit : SourceUnit) : Except EditError (SourceUnit × Nat) := do
  mutation.check unit
  return mutation.edit unit

end Mutation

end Emend

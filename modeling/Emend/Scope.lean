import Emend.Import
import Emend.Table

/-!
# Scopes: reading and writing names inside a namespace

A scope is a namespace with the imports that hold in it. `resolve` reads a name
as written there and gives the full name; `shorten` gives a short spelling of a
full name that can be written there.
-/

set_option autoImplicit false

namespace Emend

/-- A namespace and its imports, keyed by alias. -/
structure Scope where
  current : String
  imports : Table Import

namespace Scope

/-- The type imported under exactly this alias. -/
def typeImport? (scope : Scope) (localName : String) : Option Import :=
  (scope.imports.get? localName).filter (·.kind == .type)

/-- The first type import of a name; class names do not differ by case. -/
def importedAs? (scope : Scope) (name : String) : Option Import :=
  let name := Name.normalize name
  scope.imports.values.find? fun i => i.kind == .type && Text.sameIgnoringCase i.name name

/-- The part after the word `namespace` and a separator, in any case. -/
def relativePart? (written : String) : Option String :=
  let head := String.ofList (written.toList.take 10)
  if Text.sameIgnoringCase head "namespace\\" then some (.ofList (written.toList.drop 10)) else none

/-- The full name meant by a name written in this scope. A leading separator
marks a full name, a type keyword means itself, `namespace\` stands for the
current namespace, and the first segment may be an alias. -/
def resolve (scope : Scope) (written : String) : String :=
  let written := Text.trim written
  match Text.strip? "\\" written with
  | some absolute => absolute
  | none =>
    if Name.isBuiltinType written then written
    else
      match relativePart? written with
      | some relative => Name.join scope.current relative
      | none =>
        match Text.cut? Name.separator written with
        | some (first, rest) =>
          match scope.typeImport? first with
          | some i => Name.join i.name rest
          | none => Name.join scope.current written
        | none =>
          match scope.typeImport? written with
          | some i => i.name
          | none => Name.join scope.current written

/-- The spelling of `name` through this import of one of its parent
namespaces. -/
def throughImport? (name : String) (i : Import) : Option String :=
  match (Text.strip? i.name name).bind (Text.strip? "\\") with
  | some rest => if i.kind == .type then some (i.localName ++ "\\" ++ rest) else none
  | none => none

/-- A spelling of a full name for this scope: a type keyword as it is, an
imported name by its alias, a name of the current namespace by its last segment
unless an alias hides it, a name below an imported namespace through that
import, and any other name with a leading separator. -/
def shorten (scope : Scope) (name : String) : String :=
  let name := Name.normalize name
  if Name.isBuiltinType name then name
  else
    match scope.importedAs? name with
    | some i => i.localName
    | none =>
      let last := Name.short name
      if Name.parent name == scope.current && (scope.typeImport? last).isNone then last
      else
        match scope.imports.values.findSome? (throughImport? name) with
        | some written => written
        | none => "\\" ++ name

def resolveType (scope : Scope) (expr : String) : String := Name.mapType scope.resolve expr

def shortenType (scope : Scope) (expr : String) : String := Name.mapType scope.shorten expr

end Scope

end Emend

import Emend.Json
import Emend.SourceUnit

/-!
# Units as JSON

A unit as a JSON object: one member for each field, in the order of the fields.
Tables are objects whose members keep the order of the table.
-/

set_option autoImplicit false

namespace Emend

namespace Json

def ofMembers (members : List (String × Json)) : Json :=
  .object (members.map fun (key, value) => (some key, value))

def ofText (value : String) : Json := .text (some value)

def ofText? : Option String → Json
  | some value => ofText value
  | none => .null

def ofTexts (values : List String) : Json := .array (values.map ofText)

def ofTable {α : Type} (f : α → Json) (table : Table α) : Json :=
  ofMembers (table.entries.map fun (key, value) => (key, f value))

end Json

open Json

def ImportKind.toJson : ImportKind → Json
  | .type => ofText "Type"
  | .function => ofText "Function"
  | .constant => ofText "Constant"

def Import.toJson (i : Import) : Json :=
  ofMembers [("name", ofText i.name), ("alias", ofText i.localName), ("kind", i.kind.toJson)]

def Visibility.toJson : Visibility → Json
  | .public => ofText "Public"
  | .protected => ofText "Protected"
  | .private => ofText "Private"

def TraitUse.toJson (t : TraitUse) : Json :=
  ofMembers [("name", ofText t.name), ("adaptations", ofText? t.adaptations)]

def Constant.toJson (c : Constant) : Json :=
  ofMembers [("name", ofText c.name), ("value", ofText c.value),
    ("visibility", (c.visibility.map Visibility.toJson).getD .null), ("is_final", .bool c.isFinal),
    ("type_hint", ofText? c.typeHint), ("doc", ofTexts c.doc)]

def Property.toJson (p : Property) : Json :=
  ofMembers [("name", ofText p.name), ("value", ofText? p.value),
    ("visibility", p.visibility.toJson), ("is_static", .bool p.isStatic),
    ("readonly", .bool p.isReadonly), ("type_hint", ofText? p.typeHint), ("doc", ofTexts p.doc)]

def Method.toJson (m : Method) : Json :=
  ofMembers [("name", ofText m.name), ("visibility", m.visibility.toJson),
    ("is_static", .bool m.isStatic), ("is_abstract", .bool m.isAbstract),
    ("is_final", .bool m.isFinal), ("parameters", ofText m.parameters),
    ("return_type", ofText? m.returnType), ("body", ofText? m.body), ("doc", ofTexts m.doc)]

def TypeKind.toJson : TypeKind → Json
  | .class => ofText "Class"
  | .interface => ofText "Interface"
  | .trait => ofText "Trait"

def TypeDecl.toJson (t : TypeDecl) : Json :=
  ofMembers [("kind", t.kind.toJson), ("name", ofText t.name), ("modifiers", ofTexts t.modifiers),
    ("doc", ofTexts t.doc), ("extends", ofTexts t.bases), ("implements", ofTexts t.interfaces),
    ("traits", ofTable TraitUse.toJson t.traits),
    ("constants", ofTable Constant.toJson t.constants),
    ("properties", ofTable Property.toJson t.properties),
    ("methods", ofTable Method.toJson t.methods)]

def Namespace.toJson (n : Namespace) : Json :=
  ofMembers [("name", ofText n.name), ("imports", ofTable Import.toJson n.imports),
    ("function_imports", ofTable Import.toJson n.functionImports),
    ("constant_imports", ofTable Import.toJson n.constantImports),
    ("types", ofTable TypeDecl.toJson n.types)]

def SourceUnit.toJson (u : SourceUnit) : Json :=
  ofMembers [("strict_types", .bool u.strictTypes),
    ("namespaces", ofTable Namespace.toJson u.namespaces)]

end Emend

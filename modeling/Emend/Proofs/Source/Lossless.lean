import Emend.Proofs.Source.Statements

/-!
# When loading keeps everything

Statements that are plain are read as the nodes of the syntax tree have them, so nothing is passed
over in reading. But what is read is put into tables, and a table holds one value under each name.
So everything that the nodes declare has a counterpart of its own in the unit exactly when no two
things of one kind in one namespace, or in one type, have the same name (`holds_iff_apart`). Nothing
checks that, and no later declaration is refused: it takes the place of the earlier one.
-/

set_option autoImplicit false

namespace Emend

open Declaration

/-! ## Keeping and being distinct -/

/-- A stored declaration has every member that is written, with its references resolved. -/
structure KeepsMembers (scope : Scope) (written : WrittenType) (decl : TypeDecl) : Prop where
  name : decl.name = written.head.name
  traits : decl.traits.values = written.traits.map fun t => { t with name := scope.resolve t.name }
  constants : decl.constants.values = written.constants
  properties : decl.properties.values =
    written.properties.map fun p => { p with typeHint := p.typeHint.map scope.resolveType }
  methods : decl.methods.values =
    written.methods.map fun m => { m with returnType := m.returnType.map scope.resolveType }

/-- Everything that is written has a counterpart of its own in the unit. -/
structure Keeps (entries : List Placed) (unit : SourceUnit) : Prop where
  directives : directives entries = [] ∨ directives entries = [unit.strictTypes]
  imports : ∀ space kind,
    ((unit.spaceAt space).importsOf kind).values = importsIn entries space kind
  types : ∀ space, List.Forall₂ (KeepsMembers (unit.spaceAt space).scope) (typesIn entries space)
    (unit.spaceAt space).types.values

/-- No two members of one kind have the same name; traits are told apart by their full
names. -/
structure DistinctMembers (scope : Scope) (written : WrittenType) : Prop where
  traits : (written.traits.map fun t => scope.resolve t.name).Nodup
  constants : (written.constants.map Constant.name).Nodup
  properties : (written.properties.map Property.name).Nodup
  methods : (written.methods.map Method.name).Nodup

/-- There is at most one directive, and no two imports of one kind, no two types and no two
members have the same name. -/
structure Distinct (entries : List Placed) : Prop where
  directives : (directives entries).length ≤ 1
  imports : ∀ space kind, ((importsIn entries space kind).map Import.localName).Nodup
  types : ∀ space, ((typesIn entries space).map (·.head.name)).Nodup
  members : ∀ space, ∀ written ∈ typesIn entries space,
    DistinctMembers (assembled entries space).scope written

/-! ## Types -/

theorem keepsMembers_iff (scope : Scope) (written : WrittenType) :
    KeepsMembers scope written (written.toDecl.resolveReferences scope) ↔
      DistinctMembers scope written := by
  have traits : (written.toDecl.resolveReferences scope).traits.values =
      (written.traits.map fun t => { t with name := scope.resolve t.name }) ↔
        (written.traits.map fun t => scope.resolve t.name).Nodup :=
    Table.values_rekey_keyed_iff scope.resolve fun t => by simp only
  have constants : (written.toDecl.resolveReferences scope).constants.values = written.constants ↔
      (written.constants.map Constant.name).Nodup := Table.values_keyed_iff
  constructor
  · intro keeps
    refine ⟨traits.1 keeps.traits, constants.1 keeps.constants, ?_, ?_⟩
    · have kept := (Table.values_mapValues ..).symm.trans keeps.properties
      exact (Table.map_values_keyed_iff _).1 kept
    · have kept := (Table.values_mapValues ..).symm.trans keeps.methods
      exact (Table.map_values_keyed_iff _).1 kept
  · intro distinct
    refine ⟨rfl, traits.2 distinct.traits, constants.2 distinct.constants, ?_, ?_⟩
    · exact (Table.values_mapValues ..).trans ((Table.map_values_keyed_iff _).2 distinct.properties)
    · exact (Table.values_mapValues ..).trans ((Table.map_values_keyed_iff _).2 distinct.methods)

/-- Types in one table have all their counterparts exactly when no two have the same name, and each
one has its own. -/
theorem forall₂_types_iff (holds : WrittenType → TypeDecl → Prop) (scope : Scope)
    (types : List WrittenType) :
    List.Forall₂ holds types
        ((Table.keyed TypeDecl.name (types.map WrittenType.toDecl)).values.map
          (·.resolveReferences scope)) ↔
      (types.map (·.head.name)).Nodup ∧
        ∀ written ∈ types, holds written (written.toDecl.resolveReferences scope) := by
  have names : (types.map WrittenType.toDecl).map TypeDecl.name = types.map (·.head.name) :=
    List.map_map
  have each : List.Forall₂ holds types
      ((types.map WrittenType.toDecl).map (·.resolveReferences scope)) ↔
        ∀ written ∈ types, holds written (written.toDecl.resolveReferences scope) := by
    rw [List.forall₂_map_right_iff, List.forall₂_map_right_iff, List.forall₂_same]
  constructor
  · intro kept
    have length := kept.length_eq
    rw [List.length_map] at length
    have distinct : ((types.map WrittenType.toDecl).map TypeDecl.name).Nodup :=
      Table.length_values_keyed_iff.1 (by rw [← length, List.length_map])
    rw [Table.values_keyed distinct] at kept
    exact ⟨names ▸ distinct, each.1 kept⟩
  · rintro ⟨distinct, members⟩
    rw [Table.values_keyed (names ▸ distinct)]
    exact each.2 members

/-! ## Units -/

theorem directives_kept_iff (values : List Bool) :
    (values = [] ∨ values = [values.getLast?.getD false]) ↔ values.length ≤ 1 := by
  match values with
  | [] => simp
  | [value] => simp
  | first :: second :: values => simp

theorem importsOf_ofEntries (entries : List Entry) (space : String) (kind : ImportKind) :
    ((SourceUnit.ofEntries entries).spaceAt space).importsOf kind =
      .keyed Import.localName (importsIn (placed entries) space kind) := by
  rw [spaceAt_ofEntries]
  cases kind with
  | type => simp only [Namespace.importsOf, assembled]
  | function => simp only [Namespace.importsOf, assembled]
  | constant => simp only [Namespace.importsOf, assembled]

theorem types_ofEntries (holds : WrittenType → TypeDecl → Prop) (entries : List Entry)
    (space : String) :
    List.Forall₂ holds (typesIn (placed entries) space)
        ((SourceUnit.ofEntries entries).spaceAt space).types.values ↔
      ((typesIn (placed entries) space).map (·.head.name)).Nodup ∧
        ∀ written ∈ typesIn (placed entries) space, holds written
          (written.toDecl.resolveReferences (assembled (placed entries) space).scope) := by
  rw [← forall₂_types_iff, spaceAt_ofEntries]
  simp only [Table.values_mapValues, Namespace.scope, assembled]

theorem scope_ofEntries (entries : List Entry) (space : String) :
    ((SourceUnit.ofEntries entries).spaceAt space).scope =
      (assembled (placed entries) space).scope := by
  simp only [spaceAt_ofEntries, Namespace.scope]

/-- **Everything that was read is in the unit** exactly when it can be told apart. -/
theorem keeps_ofEntries_iff (entries : List Entry) :
    Keeps (placed entries) (SourceUnit.ofEntries entries) ↔ Distinct (placed entries) := by
  constructor
  · rintro ⟨directives, imports, types⟩
    refine ⟨?_, fun space kind => ?_, fun space => ?_, fun space => ?_⟩
    · rw [strictTypes_ofEntries] at directives
      exact (directives_kept_iff _).1 directives
    · exact Table.values_keyed_iff.1 (importsOf_ofEntries entries space kind ▸ imports space kind)
    · exact ((types_ofEntries _ entries space).1 (types space)).1
    · have kept := ((types_ofEntries _ entries space).1 (types space)).2
      rw [scope_ofEntries] at kept
      exact fun written listed => (keepsMembers_iff _ written).1 (kept written listed)
  · rintro ⟨directives, imports, types, members⟩
    refine ⟨?_, fun space kind => ?_, fun space => ?_⟩
    · rw [strictTypes_ofEntries]
      exact (directives_kept_iff _).2 directives
    · rw [importsOf_ofEntries]
      exact Table.values_keyed (imports space kind)
    · rw [types_ofEntries, scope_ofEntries]
      exact ⟨types space, fun written listed =>
        (keepsMembers_iff _ written).2 (members space written listed)⟩

namespace Declaration

/-! ## Counterparts of what the nodes declare -/

namespace Declared

def directives : Declared → List Bool
  | .directive strictTypes => [strictTypes]
  | _ => []

def importsOf (kind : ImportKind) : Declared → List Import
  | .imports listed => listed.filter (·.kind == kind)
  | _ => []

def types : Declared → List DeclaredType
  | .type declared => [declared]
  | _ => []

end Declared

def declaredDirectives (declared : List (String × Declared)) : List Bool :=
  declared.flatMap (·.2.directives)

def importsFor (declared : List (String × Declared)) (space : String) (kind : ImportKind) :
    List Import :=
  (declared.filter (·.1 == space)).flatMap (·.2.importsOf kind)

def typesFor (declared : List (String × Declared)) (space : String) : List DeclaredType :=
  (declared.filter (·.1 == space)).flatMap (·.2.types)

/-- A type as it is stored, with the names of traits and of return types resolved. -/
def DeclaredType.resolved (scope : Scope) (type : DeclaredType) : DeclaredType :=
  { type with
    traits := type.traits.map scope.resolve
    methods := type.methods.map fun m => (m.1, m.2.map scope.resolveType) }

end Declaration

/-- What a stored type says of the members that a node may declare. -/
def TypeDecl.declared (decl : TypeDecl) : DeclaredType where
  kind := decl.kind
  name := decl.name
  traits := decl.traits.values.map (·.name)
  constants := decl.constants.values.map fun c => (c.name, c.value)
  properties := decl.properties.values.map fun p => (p.name, p.value)
  methods := decl.methods.values.map fun m => (m.name, m.returnType)

namespace Declaration

/-- Everything that is declared has a counterpart of its own in the unit. -/
structure Holds (declared : List (String × Declared)) (unit : SourceUnit) : Prop where
  directives : declaredDirectives declared = [] ∨ declaredDirectives declared = [unit.strictTypes]
  imports : ∀ space kind,
    ((unit.spaceAt space).importsOf kind).values = importsFor declared space kind
  types : ∀ space, (unit.spaceAt space).types.values.map TypeDecl.declared =
    (typesFor declared space).map (·.resolved (unit.spaceAt space).scope)

/-- No two members of one kind have the same name; traits are told apart by their full names. -/
structure ApartMembers (scope : Scope) (type : DeclaredType) : Prop where
  traits : (type.traits.map scope.resolve).Nodup
  constants : (type.constants.map (·.1)).Nodup
  properties : (type.properties.map (·.1)).Nodup
  methods : (type.methods.map (·.1)).Nodup

/-- There is at most one directive, and no two imports of one kind, no two types of a namespace and
no two members of a type have the same name. -/
structure Apart (declared : List (String × Declared)) : Prop where
  directives : (declaredDirectives declared).length ≤ 1
  imports : ∀ space kind, ((importsFor declared space kind).map Import.localName).Nodup
  types : ∀ space, ((typesFor declared space).map (·.name)).Nodup
  members : ∀ space, ∀ type ∈ typesFor declared space,
    ApartMembers (scopeOf space (importsFor declared space .type)) type

section

variable {declared : List (String × Declared)} {space : String}

/-- Only the namespaces in which something is declared matter. -/
theorem importsFor_eq_nil (absent : space ∉ declared.map (·.1)) (kind : ImportKind) :
    importsFor declared space kind = [] ∧ typesFor declared space = [] := by
  have absent : declared.filter (·.1 == space) = [] := by
    refine List.filter_eq_nil_iff.2 fun entry listed same => absent ?_
    exact beq_iff_eq.1 same ▸ List.mem_map_of_mem listed
  simp [importsFor, typesFor, absent]

theorem apart_iff_listed : Apart declared ↔
    (declaredDirectives declared).length ≤ 1 ∧ ∀ space ∈ declared.map (·.1),
      (((importsFor declared space .type).map Import.localName).Nodup ∧
        ((importsFor declared space .function).map Import.localName).Nodup ∧
        ((importsFor declared space .constant).map Import.localName).Nodup) ∧
      ((typesFor declared space).map (·.name)).Nodup ∧
      ∀ type ∈ typesFor declared space,
        ApartMembers (scopeOf space (importsFor declared space .type)) type := by
  constructor
  · rintro ⟨directives, imports, types, members⟩
    exact ⟨directives, fun space _ => ⟨⟨imports space .type, imports space .function,
      imports space .constant⟩, types space, members space⟩⟩
  · rintro ⟨directives, listed⟩
    have each (space : String) : (∀ kind, ((importsFor declared space kind).map
          Import.localName).Nodup) ∧ ((typesFor declared space).map (·.name)).Nodup ∧
        ∀ type ∈ typesFor declared space,
          ApartMembers (scopeOf space (importsFor declared space .type)) type := by
      by_cases inside : space ∈ declared.map (·.1)
      · obtain ⟨⟨types, functions, constants⟩, rest⟩ := listed space inside
        refine ⟨fun kind => ?_, rest⟩
        cases kind with
        | type => exact types
        | function => exact functions
        | constant => exact constants
      · have nothing := importsFor_eq_nil inside
        refine ⟨fun kind => ?_, ?_⟩
        · simp [(nothing kind).1]
        · simp [(nothing .type).2]
    exact ⟨directives, fun space => (each space).1, fun space => (each space).2.1,
      fun space => (each space).2.2⟩

instance {scope : Scope} {type : DeclaredType} : Decidable (ApartMembers scope type) :=
  decidable_of_iff ((type.traits.map scope.resolve).Nodup ∧ (type.constants.map (·.1)).Nodup ∧
      (type.properties.map (·.1)).Nodup ∧ (type.methods.map (·.1)).Nodup)
    ⟨fun ⟨traits, constants, properties, methods⟩ => ⟨traits, constants, properties, methods⟩,
      fun ⟨traits, constants, properties, methods⟩ => ⟨traits, constants, properties, methods⟩⟩

instance : Decidable (Apart declared) := decidable_of_iff _ apart_iff_listed.symm

end

/-! ### What entries declare -/

/-- What is taken from the declarations of some namespaces is taken from their entries. -/
theorem flatMap_declaredBy {α : Type} (f : Declared → List α) (g : Entry → List α)
    (each : ∀ entry, g entry = (entry.declared?.map f).getD []) (kept : String → Bool)
    (entries : List Placed) :
    ((declaredBy entries).filter (kept ·.1)).flatMap (f ·.2) =
      (entries.filter (kept ·.1.space)).flatMap (g ·.2) := by
  induction entries with
  | nil => rfl
  | cons placed entries ih =>
      obtain ⟨standing, entry⟩ := placed
      have split : declaredBy ((standing, entry) :: entries) =
          (entry.declared?.map (standing.space, ·)).toList ++ declaredBy entries := by
        rw [declaredBy, List.filterMap_cons]
        cases entry.declared? <;> rfl
      have own := each entry
      rw [split, List.filter_append, List.flatMap_append, ih, List.filter_cons]
      cases shape : entry.declared? with
      | none => cases kept standing.space <;> simp [shape, own]
      | some declared => cases here : kept standing.space <;> simp [shape, here, own]

theorem declaredDirectives_eq (entries : List Placed) :
    declaredDirectives (declaredBy entries) = directives entries := by
  have all := flatMap_declaredBy Declared.directives Entry.directives
    (fun entry => by cases entry <;> rfl) (fun _ => true) entries
  rwa [List.filter_true, List.filter_true] at all

theorem importsFor_eq (entries : List Placed) (space : String) (kind : ImportKind) :
    importsFor (declaredBy entries) space kind = importsIn entries space kind :=
  flatMap_declaredBy (Declared.importsOf kind) (Entry.importsOf kind)
    (fun entry => by cases entry <;> rfl) (· == space) entries

theorem typesFor_eq (entries : List Placed) (space : String) :
    typesFor (declaredBy entries) space = (typesIn entries space).map WrittenType.declared := by
  rw [typesIn, List.map_flatMap]
  exact flatMap_declaredBy Declared.types (fun entry => entry.types.map WrittenType.declared)
    (fun entry => by cases entry <;> rfl) (· == space) entries

theorem apartMembers_iff (scope : Scope) (written : WrittenType) :
    ApartMembers scope written.declared ↔ DistinctMembers scope written := by
  constructor
  · rintro ⟨traits, constants, properties, methods⟩
    simp only [WrittenType.declared, List.map_map, Function.comp_def]
      at traits constants properties methods
    exact ⟨traits, constants, properties, methods⟩
  · rintro ⟨traits, constants, properties, methods⟩
    constructor <;> simp only [WrittenType.declared, List.map_map, Function.comp_def]
    · exact traits
    · exact constants
    · exact properties
    · exact methods

/-- The names of a table under its names are all different. -/
theorem nodup_names {α : Type} {name : α → String} {table : Table α}
    (keyed : Table.KeyedBy name table) : (table.values.map name).Nodup :=
  keyed.keys_eq ▸ table.nodup

theorem declared_resolveReferences_iff (scope : Scope) (written : WrittenType) :
    (written.toDecl.resolveReferences scope).declared = written.declared.resolved scope ↔
      DistinctMembers scope written := by
  constructor
  · intro same
    have traits := congrArg DeclaredType.traits same
    have constants := congrArg (fun t => t.constants.map (·.1)) same
    have properties := congrArg (fun t => t.properties.map (·.1)) same
    have methods := congrArg (fun t => t.methods.map (·.1)) same
    simp only [TypeDecl.declared, WrittenType.declared, DeclaredType.resolved, List.map_map,
      Function.comp_def, TypeDecl.resolveReferences, WrittenType.toDecl, Table.values_mapValues]
      at traits constants properties methods
    exact ⟨traits ▸ nodup_names (Table.keyedBy_rekey _ _),
      constants ▸ nodup_names (Table.keyedBy_keyed _ _),
      properties ▸ nodup_names (Table.keyedBy_keyed _ _),
      methods ▸ nodup_names (Table.keyedBy_keyed _ _)⟩
  · intro distinct
    obtain ⟨name, traits, constants, properties, methods⟩ :=
      (keepsMembers_iff scope written).2 distinct
    rw [TypeDecl.declared, name, traits, constants, properties, methods]
    simp only [WrittenType.declared, DeclaredType.resolved, List.map_map, Function.comp_def]
    rfl

theorem apart_iff_distinct (entries : List Placed) :
    Apart (declaredBy entries) ↔ Distinct entries := by
  constructor
  · rintro ⟨directives, imports, types, members⟩
    refine ⟨declaredDirectives_eq entries ▸ directives, fun space kind => ?_, fun space => ?_,
      fun space written listed => ?_⟩
    · exact importsFor_eq entries space kind ▸ imports space kind
    · have names := types space
      rwa [typesFor_eq, List.map_map] at names
    · rw [← apartMembers_iff, scope_assembled, ← importsFor_eq]
      exact members space _ (typesFor_eq entries space ▸ List.mem_map_of_mem listed)
  · rintro ⟨directives, imports, types, members⟩
    refine ⟨(declaredDirectives_eq entries).symm ▸ directives, fun space kind => ?_,
      fun space => ?_, fun space type listed => ?_⟩
    · rw [importsFor_eq]
      exact imports space kind
    · rw [typesFor_eq, List.map_map]
      exact types space
    · rw [typesFor_eq] at listed
      obtain ⟨written, inside, rfl⟩ := List.mem_map.1 listed
      rw [importsFor_eq, ← scope_assembled, apartMembers_iff]
      exact members space written inside

/-- The types of a namespace are stored as they are declared exactly when no two, and no two members
of one, have the same name. -/
theorem types_declared_iff (entries : List Entry) (space : String) :
    ((SourceUnit.ofEntries entries).spaceAt space).types.values.map TypeDecl.declared =
        (typesFor (declaredBy (placed entries)) space).map
          (·.resolved ((SourceUnit.ofEntries entries).spaceAt space).scope) ↔
      ((typesIn (placed entries) space).map (·.head.name)).Nodup ∧
        ∀ written ∈ typesIn (placed entries) space,
          DistinctMembers (assembled (placed entries) space).scope written := by
  rw [eq_comm, ← List.forall₂_eq_eq_eq, typesFor_eq, List.map_map, List.forall₂_map_left_iff,
    List.forall₂_map_right_iff, types_ofEntries, scope_ofEntries]
  refine and_congr_right fun _ => forall₂_congr fun written _ => ?_
  rw [eq_comm]
  exact declared_resolveReferences_iff _ written

/-- **Everything that is declared is in the unit** exactly when it can be told apart. -/
theorem holds_ofEntries_iff (entries : List Entry) :
    Holds (declaredBy (placed entries)) (SourceUnit.ofEntries entries) ↔
      Apart (declaredBy (placed entries)) := by
  have types := types_declared_iff entries
  rw [apart_iff_distinct]
  constructor
  · rintro ⟨directives, imports, held⟩
    refine ⟨?_, fun space kind => ?_, fun space => ((types space).1 (held space)).1,
      fun space => ((types space).1 (held space)).2⟩
    · rw [declaredDirectives_eq, strictTypes_ofEntries] at directives
      exact (directives_kept_iff _).1 directives
    · have same := imports space kind
      rw [importsOf_ofEntries, importsFor_eq] at same
      exact Table.values_keyed_iff.1 same
  · rintro ⟨directives, imports, names, members⟩
    refine ⟨?_, fun space kind => ?_, fun space => (types space).2 ⟨names space, members space⟩⟩
    · rw [declaredDirectives_eq, strictTypes_ofEntries]
      exact (directives_kept_iff _).2 directives
    · rw [importsOf_ofEntries, importsFor_eq]
      exact Table.values_keyed (imports space kind)

end Declaration

open Declaration

namespace SourceUnit.Example

/-- What the tree of a source text declares, and whether all its statements are plain. -/
def declarations (source : String) : Option (List (String × Declared) × Bool) :=
  (SyntaxTree.read (expandTabsFrom (literalSpans source.toList) 0 source.toList)).toOption.map
    fun tree => (declaredOf source tree, decide (PlainTree source tree))

/-- A file with declarations of every kind. -/
def everyKind : String :=
  "<?php declare(strict_types=1);use A\\B;class E\x7buse T;const B=1;var $x;function f():C\x7b\x7d\x7d"

def everyKindDeclared : List (String × Declared) :=
  [("", .directive true), ("", .imports [⟨"A\\B", "B", .type⟩]),
    ("", .type ⟨.class, "E", ["T"], [("B", "1")], [("x", none)], [("f", some "C")]⟩)]

/-- A class with a comment before a return type. -/
def commentBeforeType : String := "<?php class A\x7bfunction f()/**/:int\x7b\x7d\x7d"

-- What stands in the block of a directive is no statement of the file, and is lost too.
example : (SourceUnit.parse "<?php declare(strict_types=1)\x7bclass A\x7b\x7d\x7d").map typeCount =
    .ok 0 := by
  decide +kernel

end SourceUnit.Example

end Emend

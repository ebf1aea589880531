import Emend.Proofs.Edit.Element
import Emend.Proofs.Edit.Mutation
import Mathlib.Data.Fintype.Basic
import Mathlib.Tactic.MkIffOfInductiveProp

/-!
# Edits keep units sound

A unit is `Sound` when its tables are keyed by the names of what they hold, no two
imported classes and declared types share a local name, no class has two base
types, and no type refers to a class twice. Names are compared ignoring case where
the language does, while the tables compare them as they are written: that no two
of them clash is what the guards of the edits are for.

The guards compare names in stored form, so soundness is kept together with
`Stored`. One lemma for each write: an import under a free alias
(`Namespace.Sound.insertImport`), an edit of declarations (`Keeps`), a change of
elements (`TypeDecl.rekey_sound`), an import after a change (`updateNamespace_sound`).
`EditStep.run_sound` is one step, `EditStep.runAll_sound` a whole run.
-/

set_option autoImplicit false

namespace Emend

instance : Fintype ElementKind where
  elems := {.property, .constant, .traitUse, .baseType, .implemented, .method}
  complete := by
    intro kind
    cases kind <;> decide

instance : Fintype ImportKind where
  elems := {.type, .function, .constant}
  complete := by
    intro kind
    cases kind <;> decide

/-- No two of the names are the same, in any case. -/
def Name.Distinct (names : List String) : Prop :=
  names.Pairwise fun a b => Text.sameIgnoringCase a b = false

instance (names : List String) : Decidable (Name.Distinct names) :=
  inferInstanceAs (Decidable (names.Pairwise _))

/-- Members are keyed by their names, and no class is referred to twice. -/
@[mk_iff]
structure TypeDecl.Sound (decl : TypeDecl) : Prop where
  traits : decl.traits.KeyedBy TraitUse.name
  constants : decl.constants.KeyedBy Constant.name
  properties : decl.properties.KeyedBy Property.name
  methods : decl.methods.KeyedBy Method.name
  oneBase : decl.kind = .class → decl.bases.length ≤ 1
  once : ∀ kind : ElementKind, kind.isReference = true → Name.Distinct (decl.names kind)

/-- Every reference to a class is in stored form. -/
def TypeDecl.Stored (decl : TypeDecl) : Prop :=
  ∀ kind : ElementKind, kind.isReference = true → ∀ name ∈ decl.names kind, Name.Settled name

/-- Imports are keyed by their aliases, each in the table of its kind, and no alias
of a class is that of another or the name of a type. -/
@[mk_iff]
structure Namespace.Sound (ns : Namespace) : Prop where
  imports : ∀ kind, (ns.importsOf kind).KeyedBy Import.localName
  kinds : ∀ kind, ∀ i ∈ (ns.importsOf kind).values, i.kind = kind
  types : ns.types.KeyedBy TypeDecl.name
  aliases : Name.Distinct (ns.imports.values.map Import.localName)
  free : ∀ i ∈ ns.imports.values, ∀ decl ∈ ns.types.values,
    Text.sameIgnoringCase i.localName decl.name = false
  decls : ∀ decl ∈ ns.types.values, decl.Sound

/-- The name of the namespace and the references in it are in stored form. -/
@[mk_iff]
structure Namespace.Stored (ns : Namespace) : Prop where
  name : Name.normalize ns.name = ns.name
  decls : ∀ decl ∈ ns.types.values, decl.Stored

/-- Namespaces are keyed by their names, and each is sound. -/
@[mk_iff]
structure SourceUnit.Sound (unit : SourceUnit) : Prop where
  keyed : unit.namespaces.KeyedBy Namespace.name
  namespaces : ∀ ns ∈ unit.namespaces.values, ns.Sound

/-- Every name of a class or a namespace is in stored form. -/
def SourceUnit.Stored (unit : SourceUnit) : Prop := ∀ ns ∈ unit.namespaces.values, ns.Stored

instance (decl : TypeDecl) : Decidable decl.Sound := decidable_of_iff' _ decl.sound_iff

instance (decl : TypeDecl) : Decidable decl.Stored :=
  inferInstanceAs (Decidable (∀ kind : ElementKind, kind.isReference = true → _))

instance (ns : Namespace) : Decidable ns.Sound := decidable_of_iff' _ ns.sound_iff

instance (ns : Namespace) : Decidable ns.Stored := decidable_of_iff' _ ns.stored_iff

instance (unit : SourceUnit) : Decidable unit.Sound := decidable_of_iff' _ unit.sound_iff

instance (unit : SourceUnit) : Decidable unit.Stored :=
  inferInstanceAs (Decidable (∀ ns ∈ unit.namespaces.values, ns.Stored))

/-! ## Distinct names -/

namespace Name.Distinct

variable {names : List String}

theorem append {name : String} (distinct : Distinct names)
    (fresh : ∀ earlier ∈ names, Text.lower earlier ≠ Text.lower name) :
    Distinct (names ++ [name]) := by
  refine List.pairwise_append.2 ⟨distinct, List.pairwise_singleton .., ?_⟩
  intro earlier listed last isLast
  rw [List.mem_singleton.1 isLast, Bool.eq_false_iff]
  exact fun same => fresh earlier listed (Text.sameIgnoringCase_iff.1 same)

theorem nodup (distinct : Distinct names) : names.Nodup := by
  refine List.Pairwise.imp ?_ distinct
  rintro a b differ rfl
  rw [Text.sameIgnoringCase_iff.2 rfl] at differ
  cases differ

end Name.Distinct

/-! ## Declarations -/

namespace TypeDecl

variable {decl decl' : TypeDecl} {name : String}

/-- One more reference to a class that is not referred to yet. -/
theorem references_append (sound : decl.Sound) (stored : decl.Stored)
    (wf : Name.WellFormed name) (kind : ElementKind) (reference : kind.isReference = true)
    (fresh : (decl.names kind).any (Mutation.sameClass · name) = false)
    (added : decl'.names kind = decl.names kind ++ [name])
    (others : ∀ other, other ≠ kind → decl'.names other = decl.names other) :
    (∀ other : ElementKind, other.isReference = true → Name.Distinct (decl'.names other)) ∧
      decl'.Stored := by
  constructor
  · intro other reference'
    by_cases here : other = kind
    · subst here
      rw [added]
      refine (sound.once other reference').append fun earlier listed same => ?_
      have clash := List.any_eq_false.1 fresh earlier listed
      rw [Mutation.sameClass, (stored other reference earlier listed).normalize_eq,
        wf.normalize_eq, Text.sameIgnoringCase_iff] at clash
      exact clash same
    · rw [others other here]
      exact sound.once other reference'
  · intro other reference' n listed
    by_cases here : other = kind
    · subst here
      rw [added] at listed
      rcases List.mem_append.1 listed with before | last
      · exact stored other reference n before
      · exact List.mem_singleton.1 last ▸ wf.settled
    · rw [others other here] at listed
      exact stored other reference' n listed

/-- An edit of members leaves the references alone. -/
theorem sound_of_members (sound : decl.Sound) (stored : decl.Stored) (kind : decl'.kind = decl.kind)
    (bases : decl'.bases = decl.bases) (interfaces : decl'.interfaces = decl.interfaces)
    (traits : decl'.traits = decl.traits) (constants : decl'.constants.KeyedBy Constant.name)
    (properties : decl'.properties.KeyedBy Property.name)
    (methods : decl'.methods.KeyedBy Method.name) : decl'.Sound ∧ decl'.Stored := by
  have same : ∀ other : ElementKind, other.isReference = true →
      decl'.names other = decl.names other := by
    intro other reference
    cases other with
    | traitUse => rw [names_traitUse, names_traitUse, traits]
    | baseType => rw [names_baseType, names_baseType, bases]
    | implemented => rw [names_implemented, names_implemented, interfaces]
    | property | constant | method => cases reference
  refine ⟨⟨traits ▸ sound.traits, constants, properties, methods, ?_, ?_⟩, ?_⟩
  · rw [kind, bases]
    exact sound.oneBase
  · intro other reference
    rw [same other reference]
    exact sound.once other reference
  · intro other reference name listed
    rw [same other reference] at listed
    exact stored other reference name listed

/-! ### Changed elements -/

theorem sameName_eq {kind : ElementKind} (reference : kind.isReference = true) {a b : String}
    (left : Name.Settled a) (right : Name.Settled b) :
    kind.sameName a b = Text.sameIgnoringCase a b := by
  cases kind with
  | traitUse | baseType | implemented =>
      rw [ElementKind.sameName, left.normalize_eq, right.normalize_eq]
  | property | constant | method => cases reference

section Changed

variable {kind : ElementKind} {f : Element → Element} (stored : decl.Stored)
  (settles : kind.isReference = true → ∀ e ∈ decl.elements kind, Name.Settled e.name →
    Name.Settled (Name.normalize (f e).name))

include stored

theorem names_changed_of_ne {other : ElementKind} (reference : other.isReference = true)
    (ne : other ≠ kind) :
    (decl.mapElements kind f).normalizeNames.names other = decl.names other := by
  rw [names_normalizeNames reference, names_mapElements_of_ne ne]
  refine (List.map_congr_left fun name listed => ?_).trans (List.map_id _)
  exact (stored other reference name listed).normalize_eq

include settles

theorem stored_changed : (decl.mapElements kind f).normalizeNames.Stored := by
  intro other reference name listed
  by_cases here : other = kind
  · subst here
    rw [names_normalizeNames reference] at listed
    obtain ⟨n, changed, rfl⟩ := List.mem_map.1 listed
    obtain ⟨e, element, given⟩ := mem_names_mapElements reference changed
    have settled : Name.Settled e.name :=
      stored other reference e.name (List.mem_map_of_mem element)
    rcases given with rfl | rfl
    · exact settles reference e element settled
    · rw [settled.normalize_eq]
      exact settled
  · rw [names_changed_of_ne stored reference here] at listed
    exact stored other reference name listed

/-- The kind that changed is free of duplicates, and the others did not change. -/
theorem once_changed (sound : decl.Sound)
    (free : (decl.mapElements kind f).normalizeNames.duplicate? kind = none)
    (other : ElementKind) (reference : other.isReference = true) :
    Name.Distinct ((decl.mapElements kind f).normalizeNames.names other) := by
  by_cases here : other = kind
  · subst here
    have settled := stored_changed stored settles other reference
    refine List.Pairwise.imp_of_mem ?_ (duplicate?_eq_none_iff.1 free)
    intro a b first second differ
    rw [← sameName_eq reference (settled a first) (settled b second)]
    exact differ
  · rw [names_changed_of_ne stored reference here]
    exact sound.once other reference

end Changed

/-- Keying the members anew: references that are all different stay. -/
theorem rekey_sound (oneBase : decl.kind = .class → decl.bases.length ≤ 1)
    (once : ∀ kind : ElementKind, kind.isReference = true → Name.Distinct (decl.names kind))
    (stored : decl.Stored) : decl.rekey.Sound ∧ decl.rekey.Stored := by
  have same : ∀ kind : ElementKind, kind.isReference = true →
      decl.rekey.names kind = decl.names kind :=
    fun kind reference => names_rekey reference (once .traitUse rfl).nodup
  refine ⟨⟨Table.keyedBy_rekey _ _, Table.keyedBy_rekey _ _, Table.keyedBy_rekey _ _,
    Table.keyedBy_rekey _ _, oneBase, ?_⟩, ?_⟩
  · intro kind reference
    rw [same kind reference]
    exact once kind reference
  · intro kind reference name listed
    rw [same kind reference] at listed
    exact stored kind reference name listed

end TypeDecl

namespace Mutation

variable {f : Namespace → TypeDecl → Option TypeDecl} {name : String}

/-- An edit of declarations that keeps them sound, under their names. -/
def Keeps (f : Namespace → TypeDecl → Option TypeDecl) : Prop :=
  ∀ ns decl decl', decl.Sound → decl.Stored → f ns decl = some decl' →
    decl'.name = decl.name ∧ decl'.Sound ∧ decl'.Stored

theorem keeps_addTrait (wf : Name.WellFormed name) : Keeps (addTrait name) := by
  intro ns decl decl' sound stored edited
  obtain ⟨⟨-, -, unused⟩, rfl⟩ := addTrait_eq_some_iff.1 edited
  have written : (TraitUse.ofName name).name = name := by
    simp only [TraitUse.ofName, wf.normalize_eq]
  have absent : name ∉ decl.traits.keys := fun listed =>
    List.any_eq_false.1 unused name listed (sameClass_self name)
  rw [sound.traits.keys_eq, ← TypeDecl.names_traitUse] at unused
  have added : ({ decl with traits := decl.traits.insert name (TraitUse.ofName name) }
      : TypeDecl).names .traitUse = decl.names .traitUse ++ [name] := by
    rw [TypeDecl.names_traitUse, TypeDecl.names_traitUse,
      Table.values_insert_of_not_mem absent, List.map_append, List.map_singleton, written]
  have references := TypeDecl.references_append sound stored wf .traitUse rfl unused added <| by
    intro other ne
    cases other with
    | traitUse => exact absurd rfl ne
    | property | constant | baseType | implemented | method => rfl
  have keyed := sound.traits.insert (TraitUse.ofName name)
  rw [written] at keyed
  exact ⟨rfl, { sound with traits := keyed, once := references.1 }, references.2⟩

theorem keeps_addBase (wf : Name.WellFormed name) : Keeps (addBase name) := by
  intro ns decl decl' sound stored edited
  obtain ⟨⟨-, lacks⟩, rfl⟩ := addBase_eq_some_iff.1 edited
  have fresh : (decl.names .baseType).any (sameClass · name) = false := by
    rw [TypeDecl.names_baseType]
    cases kind : decl.kind <;> simp_all [lacksBase]
  have added : ({ decl with bases := decl.bases ++ [name] } : TypeDecl).names .baseType =
      decl.names .baseType ++ [name] := by
    rw [TypeDecl.names_baseType, TypeDecl.names_baseType]
  have references := TypeDecl.references_append sound stored wf .baseType rfl fresh added <| by
    intro other ne
    cases other with
    | baseType => exact absurd rfl ne
    | property | constant | traitUse | implemented | method => rfl
  have oneBase : decl.kind = .class → (decl.bases ++ [name]).length ≤ 1 := by
    intro kind
    have bare : decl.bases = [] := by simpa [lacksBase, kind] using lacks
    simp [bare]
  exact ⟨rfl, { sound with oneBase, once := references.1 }, references.2⟩

theorem keeps_addInterface (wf : Name.WellFormed name) : Keeps fun _ => addInterface name := by
  intro ns decl decl' sound stored edited
  obtain ⟨⟨-, fresh⟩, rfl⟩ := addInterface_eq_some_iff.1 edited
  rw [← TypeDecl.names_implemented] at fresh
  have added : ({ decl with interfaces := decl.interfaces ++ [name] } : TypeDecl).names
      .implemented = decl.names .implemented ++ [name] := by
    rw [TypeDecl.names_implemented, TypeDecl.names_implemented]
  have references := TypeDecl.references_append sound stored wf .implemented rfl fresh added <| by
    intro other ne
    cases other with
    | implemented => exact absurd rfl ne
    | property | constant | traitUse | baseType | method => rfl
  exact ⟨rfl, { sound with once := references.1 }, references.2⟩

theorem keeps_addProperty (p : Property) : Keeps fun _ => addProperty p := by
  intro ns decl decl' sound stored edited
  obtain ⟨-, rfl⟩ := addProperty_eq_some_iff.1 edited
  exact ⟨rfl, TypeDecl.sound_of_members sound stored rfl rfl rfl rfl sound.constants
    (sound.properties.insert p) sound.methods⟩

theorem keeps_addConstant (c : Constant) : Keeps fun _ => addConstant c := by
  intro ns decl decl' sound stored edited
  obtain ⟨-, rfl⟩ := addConstant_eq_some_iff.1 edited
  exact ⟨rfl, TypeDecl.sound_of_members sound stored rfl rfl rfl rfl (sound.constants.insert c)
    sound.properties sound.methods⟩

theorem keeps_addMethod (m : Method) : Keeps fun _ => addMethod m := by
  intro ns decl decl' sound stored edited
  obtain ⟨-, rfl⟩ := addMethod_eq_some_iff.1 edited
  have keyed := sound.methods.insert (methodFor m decl)
  rw [methodFor_name] at keyed
  exact ⟨rfl, TypeDecl.sound_of_members sound stored rfl rfl rfl rfl sound.constants
    sound.properties keyed⟩

theorem keeps_doc (line : String) :
    Keeps fun _ decl => some { decl with doc := decl.doc ++ [line] } := by
  intro ns decl decl' sound stored edited
  obtain rfl := Option.some.inj edited
  exact ⟨rfl, TypeDecl.sound_of_members sound stored rfl rfl rfl rfl sound.constants
    sound.properties sound.methods⟩

end Mutation

/-! ## Namespaces -/

structure Namespace.Replaces (after before : Namespace) : Prop where
  name : after.name = before.name
  sound : after.Sound
  stored : after.Stored

namespace Namespace

variable {ns : Namespace} {name : String}

theorem ofName_sound (normal : Name.normalize name = name) :
    (ofName name).name = name ∧ (ofName name).Sound ∧ (ofName name).Stored := by
  have named : (ofName name).name = name := by
    simp only [ofName, normal]
  refine ⟨named, ⟨fun kind => ?_, fun kind i listed => ?_, Table.keyedBy_empty _, .nil, ?_, ?_⟩,
    ⟨by rw [named, normal], ?_⟩⟩
  · cases kind <;> exact Table.keyedBy_empty _
  · cases kind <;> cases listed
  · intro i listed
    cases listed
  · intro decl declared
    cases declared
  · intro decl declared
    cases declared

/-- **An import under a free alias.** -/
theorem insertImport_replaces (sound : ns.Sound) (stored : ns.Stored) {i : Import}
    (isType : i.kind = .type)
    (aliases : ∀ j ∈ ns.imports.values, Text.lower j.localName ≠ Text.lower i.localName)
    (types : ∀ decl ∈ ns.types.values, Text.lower decl.name ≠ Text.lower i.localName) :
    (ns.insertImport i).Replaces ns := by
  have keyed : ns.imports.KeyedBy Import.localName := sound.imports .type
  have absent : i.localName ∉ ns.imports.keys := by
    rw [keyed.keys_eq]
    intro listed
    obtain ⟨j, imported, same⟩ := List.mem_map.1 listed
    exact aliases j imported (congrArg Text.lower same)
  have inserted : ns.insertImport i = { ns with imports := ns.imports.insert i.localName i } := by
    rw [insertImport, isType]
  rw [inserted]
  refine ⟨rfl, ⟨?_, ?_, sound.types, ?_, ?_, sound.decls⟩, ⟨stored.name, stored.decls⟩⟩
  · intro kind
    cases kind with
    | type => exact keyed.insert i
    | function => exact sound.imports .function
    | constant => exact sound.imports .constant
  · intro kind j listed
    cases kind with
    | type =>
        rcases Table.mem_values_insert listed with rfl | before
        · exact isType
        · exact sound.kinds .type j before
    | function => exact sound.kinds .function j listed
    | constant => exact sound.kinds .constant j listed
  · rw [Table.values_insert_of_not_mem absent, List.map_append]
    refine sound.aliases.append fun earlier listed => ?_
    obtain ⟨j, imported, rfl⟩ := List.mem_map.1 listed
    exact aliases j imported
  · intro j listed decl declared
    rcases Table.mem_values_insert listed with rfl | before
    · rw [Bool.eq_false_iff]
      exact fun same => types decl declared (Text.sameIgnoringCase_iff.1 same).symm
    · exact sound.free j before decl declared

/-- Declarations that are sound under their names. -/
theorem mapTypes_replaces (sound : ns.Sound) (stored : ns.Stored) {g : TypeDecl → TypeDecl}
    (kept : ∀ decl ∈ ns.types.values,
      (g decl).name = decl.name ∧ (g decl).Sound ∧ (g decl).Stored) :
    ({ ns with types := ns.types.mapValues g } : Namespace).Replaces ns := by
  have came : ∀ decl' ∈ (ns.types.mapValues g).values, ∃ decl ∈ ns.types.values,
      g decl = decl' := by
    intro decl' declared
    rw [Table.values_mapValues] at declared
    exact List.mem_map.1 declared
  refine ⟨rfl, ⟨sound.imports, sound.kinds, ?_, sound.aliases, ?_, ?_⟩, ⟨stored.name, ?_⟩⟩
  · exact sound.types.mapValues fun decl declared => (kept decl declared).1
  · intro i listed decl' declared
    obtain ⟨decl, before, rfl⟩ := came decl' declared
    rw [(kept decl before).1]
    exact sound.free i listed decl before
  · intro decl' declared
    obtain ⟨decl, before, rfl⟩ := came decl' declared
    exact (kept decl before).2.1
  · intro decl' declared
    obtain ⟨decl, before, rfl⟩ := came decl' declared
    exact (kept decl before).2.2

/-- Importing a name whose last segment is free. -/
theorem importName_replaces (sound : ns.Sound) (stored : ns.Stored) (settled : Name.Settled name)
    (aliases : ∀ alias_ ∈ ns.imports.keys, Text.lower alias_ ≠ Text.lower (Name.short name))
    (types : ∀ type ∈ ns.types.keys, Text.lower type ≠ Text.lower (Name.short name)) :
    (ns.insertImport (Import.ofName name)).Replaces ns := by
  have keyed : ns.imports.KeyedBy Import.localName := sound.imports .type
  rw [keyed.keys_eq] at aliases
  rw [sound.types.keys_eq] at types
  rw [Import.ofName_eq settled]
  generalize Name.short name = last at aliases types
  refine insertImport_replaces sound stored rfl (fun i listed => ?_) (fun decl declared => ?_)
  · exact aliases i.localName (List.mem_map_of_mem listed)
  · exact types decl.name (List.mem_map_of_mem declared)

/-- After a change of elements a reference is only imported under a free alias. -/
theorem importReference_replaces (sound : ns.Sound) (stored : ns.Stored)
    (settled : Name.Settled name) : (ns.importReference name).Replaces ns := by
  unfold importReference
  dsimp only
  split
  · exact ⟨rfl, sound, stored⟩
  · rename_i needed
    simp only [Bool.or_eq_true, List.any_eq_true, Text.sameIgnoringCase_iff, not_or, not_exists,
      not_and] at needed
    exact importName_replaces sound stored settled needed.1.2 needed.2

end Namespace

namespace Mutation

variable {f : Namespace → TypeDecl → Option TypeDecl} {ns : Namespace} {name : String}

theorem importInto_replaces (sound : ns.Sound) (stored : ns.Stored) (wf : Name.WellFormed name)
    {reached : Namespace → Bool} (checked : reached ns = true → importConflict? ns name = none) :
    (importInto name reached ns).1.Replaces ns := by
  unfold importInto
  split
  · rename_i needed
    rw [Bool.and_eq_true, Bool.not_eq_true'] at needed
    rcases importConflict?_eq_none_iff.1 (checked needed.1) with unneeded | ⟨aliases, types⟩
    · rw [unneeded] at needed
      cases needed.2
    · have keyed : ns.imports.KeyedBy Import.localName := sound.imports .type
      refine Namespace.importName_replaces sound stored wf.settled ?_ types
      rw [keyed.keys_eq]
      intro alias_ listed
      obtain ⟨i, imported, rfl⟩ := List.mem_map.1 listed
      exact aliases i imported (sound.kinds .type i imported)
  · exact ⟨rfl, sound, stored⟩

theorem editDecls_replaces (keeps : Keeps f) (sound : ns.Sound) (stored : ns.Stored) :
    (editDecls f ns).1.Replaces ns := by
  refine Namespace.mapTypes_replaces sound stored fun decl declared => ?_
  cases edited : f ns decl with
  | none => exact ⟨rfl, sound.decls decl declared, stored.decls decl declared⟩
  | some decl' =>
      exact keeps ns decl decl' (sound.decls decl declared) (stored.decls decl declared) edited

theorem both_replaces (keeps : Keeps f) (sound : ns.Sound) (stored : ns.Stored)
    (wf : Name.WellFormed name) {reached : Namespace → Bool}
    (checked : reached ns = true → importConflict? ns name = none) :
    (both (importInto name reached) (editDecls f) ns).1.Replaces ns := by
  have first := importInto_replaces sound stored wf checked
  have second := editDecls_replaces keeps first.sound first.stored
  exact ⟨second.name.trans first.name, second.sound, second.stored⟩

/-- **A mutation that passed its check keeps every namespace sound.** -/
theorem onNamespace_replaces {m : Mutation} (wf : m.WellFormed) {u : SourceUnit}
    (checked : m.check u = .ok ()) (listed : ns ∈ u.namespaces.values) (sound : ns.Sound)
    (stored : ns.Stored) : (m.onNamespace ns).1.Replaces ns := by
  cases m with
  | import_ name =>
      have conflict := checkImports_eq_ok_iff.1 checked ns listed
      simp only [onNamespace]
      exact importInto_replaces sound stored wf conflict
  | use_ name =>
      have conflict := checkImports_eq_ok_iff.1 checked ns listed
      exact both_replaces (keeps_addTrait wf) sound stored wf conflict
  | extend_ name =>
      have conflict := checkImports_eq_ok_iff.1 (check_extend_eq_ok_iff.1 checked).1 ns listed
      exact both_replaces (keeps_addBase wf) sound stored wf conflict
  | implement_ name =>
      have conflict := checkImports_eq_ok_iff.1 checked ns listed
      exact both_replaces (keeps_addInterface wf) sound stored wf conflict
  | property p => exact editDecls_replaces (keeps_addProperty p) sound stored
  | constant c => exact editDecls_replaces (keeps_addConstant c) sound stored
  | method added => exact editDecls_replaces (keeps_addMethod added) sound stored
  | doc line => exact editDecls_replaces (keeps_doc line) sound stored
  | strictTypes on => exact ⟨rfl, sound, stored⟩

end Mutation

/-! ## Units -/

namespace SourceUnit

variable {u : SourceUnit}

theorem mapNamespaces_sound (sound : u.Sound) {g : Namespace → Namespace}
    (replaces : ∀ ns ∈ u.namespaces.values, (g ns).Replaces ns) :
    ({ u with namespaces := u.namespaces.mapValues g } : SourceUnit).Sound ∧
      ({ u with namespaces := u.namespaces.mapValues g } : SourceUnit).Stored := by
  refine ⟨⟨sound.keyed.mapValues fun ns listed => (replaces ns listed).name, ?_⟩, ?_⟩
  · intro ns' listed
    rw [Table.values_mapValues] at listed
    obtain ⟨ns, before, rfl⟩ := List.mem_map.1 listed
    exact (replaces ns before).sound
  · intro ns' listed
    rw [Table.values_mapValues] at listed
    obtain ⟨ns, before, rfl⟩ := List.mem_map.1 listed
    exact (replaces ns before).stored

/-- **A mutation keeps a unit sound.** -/
theorem apply_sound (sound : u.Sound) (stored : u.Stored) {m : Mutation} (wf : m.WellFormed)
    {u' : SourceUnit} {changes : Nat} (applied : m.apply u = .ok (u', changes)) :
    u'.Sound ∧ u'.Stored := by
  obtain ⟨checked, edited⟩ := Mutation.apply_eq_ok_iff.1 applied
  obtain rfl : (m.edit u).1 = u' := congrArg Prod.fst edited
  by_cases directive : ∃ on, m = .strictTypes on
  · obtain ⟨on, rfl⟩ := directive
    exact ⟨⟨sound.keyed, sound.namespaces⟩, stored⟩
  · rw [Mutation.edit_eq m u fun on e => directive ⟨on, e⟩]
    exact mapNamespaces_sound sound fun ns listed =>
      Mutation.onNamespace_replaces wf checked listed (sound.namespaces ns listed)
        (stored ns listed)

theorem mapTypes_sound (sound : u.Sound) (stored : u.Stored) {f : Namespace → TypeDecl → TypeDecl}
    (kept : ∀ ns ∈ u.namespaces.values, ∀ decl ∈ ns.types.values,
      (f ns decl).name = decl.name ∧ (f ns decl).Sound ∧ (f ns decl).Stored) :
    (u.mapTypes f).Sound ∧ (u.mapTypes f).Stored := by
  refine mapNamespaces_sound sound fun ns listed => ?_
  exact Namespace.mapTypes_replaces (sound.namespaces ns listed) (stored ns listed)
    (kept ns listed)

/-- The namespace of a name that is in stored form: it is there already, or it is
new and empty. -/
theorem target_sound (sound : u.Sound) (stored : u.Stored) {name : String}
    (normal : Name.normalize name = name) :
    ((u.namespaces.get? name).getD (Namespace.ofName name)).name = name ∧
      ((u.namespaces.get? name).getD (Namespace.ofName name)).Sound ∧
      ((u.namespaces.get? name).getD (Namespace.ofName name)).Stored := by
  cases found : u.namespaces.get? name with
  | some ns =>
      rw [Option.getD_some]
      obtain ⟨listed, named⟩ := sound.keyed.get?_eq_some_iff.1 found
      exact ⟨named, sound.namespaces ns listed, stored ns listed⟩
  | none =>
      rw [Option.getD_none]
      exact Namespace.ofName_sound normal

theorem updateNamespace_sound (sound : u.Sound) (stored : u.Stored) {name : String}
    (normal : Name.normalize name = name) {g : Namespace → Namespace}
    (replaces : ∀ ns : Namespace, ns.Sound → ns.Stored → (g ns).Replaces ns) :
    (u.updateNamespace name g).Sound ∧ (u.updateNamespace name g).Stored := by
  simp only [updateNamespace, normal]
  obtain ⟨named, targetSound, targetStored⟩ := target_sound sound stored normal
  generalize (u.namespaces.get? name).getD (Namespace.ofName name) = ns at *
  have after := replaces ns targetSound targetStored
  have keyed := sound.keyed.insert (g ns)
  rw [after.name, named] at keyed
  refine ⟨⟨keyed, fun ns' listed => ?_⟩, fun ns' listed => ?_⟩
  · rcases Table.mem_values_insert listed with rfl | before
    · exact after.sound
    · exact sound.namespaces ns' before
  · rcases Table.mem_values_insert listed with rfl | before
    · exact after.stored
    · exact stored ns' before

/-- Importing references one after the other. -/
theorem importAll_sound (sound : u.Sound) (stored : u.Stored) (transform : Located → Element)
    {references : List Located}
    (settled : ∀ located ∈ references,
      Name.normalize located.namespaceName = located.namespaceName ∧
        Name.Settled (Name.normalize (transform located).name)) :
    (importAll transform u references).Sound ∧ (importAll transform u references).Stored := by
  induction references generalizing u with
  | nil => exact ⟨sound, stored⟩
  | cons located references ih =>
      obtain ⟨normal, reference⟩ := settled located (List.mem_cons_self ..)
      obtain ⟨sound', stored'⟩ := updateNamespace_sound sound stored normal
        fun ns nsSound nsStored => Namespace.importReference_replaces nsSound nsStored reference
      exact ih sound' stored' fun other listed => settled other (List.mem_cons_of_mem _ listed)

/-- Every class that a transform names it names in a well-formed way, unless it leaves
the name as it was. -/
def NamesWell (kind : ElementKind) (transform : Located → Element) : Prop :=
  kind.isReference = true → ∀ located : Located, located.element.kind = kind →
    (transform located).name = located.element.name ∨
      Name.WellFormed (Name.normalize (transform located).name)

section Modify

variable {kind : ElementKind} {query : String} {transform : Located → Element}
  (wf : NamesWell kind transform)

include wf

theorem NamesWell.settled (reference : kind.isReference = true) {located : Located}
    (here : located.element.kind = kind) (settled : Name.Settled located.element.name) :
    Name.Settled (Name.normalize (transform located).name) := by
  rcases wf reference located here with left | named
  · rw [left, settled.normalize_eq]
    exact settled
  · exact named.settled

/-- What becomes of one declaration. -/
theorem changed_sound {ns : Namespace} {decl : TypeDecl} (sound : decl.Sound)
    (stored : decl.Stored)
    (free : (changed kind query transform ns decl).duplicate? kind = none) :
    (changed kind query transform ns decl).rekey.name = decl.name ∧
      (changed kind query transform ns decl).rekey.Sound ∧
      (changed kind query transform ns decl).rekey.Stored := by
  have settles : kind.isReference = true → ∀ e ∈ decl.elements kind, Name.Settled e.name →
      Name.Settled (Name.normalize (changeAt kind query transform ns decl e).name) := by
    intro reference e element settled
    rw [changeAt]
    split
    · exact wf.settled reference (TypeDecl.kind_of_mem_elements element) settled
    · rw [settled.normalize_eq]
      exact settled
  have oneBase : (changed kind query transform ns decl).kind = .class →
      (changed kind query transform ns decl).bases.length ≤ 1 := by
    intro isClass
    have before : decl.kind = .class := by
      rw [← decl.kind_mapElements kind (changeAt kind query transform ns decl)]
      exact isClass
    have length : (changed kind query transform ns decl).bases.length = decl.bases.length := by
      simp [changed, TypeDecl.normalizeNames]
    rw [length]
    exact sound.oneBase before
  refine ⟨decl.name_mapElements kind _, ?_⟩
  exact TypeDecl.rekey_sound oneBase (TypeDecl.once_changed stored settles sound free)
    (TypeDecl.stored_changed stored settles)

/-- **A change of elements keeps a unit sound.** -/
theorem modify_sound (sound : u.Sound) (stored : u.Stored) {u' : SourceUnit} {visited : Nat}
    (modified : u.modify kind query transform = .ok (u', visited)) : u'.Sound ∧ u'.Stored := by
  rcases modify_cases modified with ⟨-, rfl, -⟩ | ⟨free, rfl, -⟩
  · exact ⟨sound, stored⟩
  · have keyed := mapTypes_sound sound stored fun ns listed decl declared =>
      changed_sound wf ((sound.namespaces ns listed).decls decl declared)
        ((stored ns listed).decls decl declared) (free ns listed decl declared)
    refine importAll_sound keyed.1 keyed.2 transform fun located listed => ?_
    split at listed
    · rename_i reference
      obtain ⟨ns, there, decl, declared, named, element⟩ := mem_find listed
      have settled := (stored ns there).decls decl declared kind reference _
        (List.mem_map_of_mem element)
      rw [named]
      exact ⟨(stored ns there).name,
        wf.settled reference (TypeDecl.kind_of_mem_elements element) settled⟩
    · cases listed

end Modify

end SourceUnit

/-! ## Runs -/

/-- One edit of a unit: a mutation, or a change of the elements that answer to a
query. -/
inductive EditStep where
  | mutate (mutation : Mutation)
  | modify (kind : ElementKind) (query : String) (transform : Located → Element)

namespace EditStep

/-- What the edit gives, or why it is refused. -/
def apply (unit : SourceUnit) : EditStep → Except EditError (SourceUnit × Nat)
  | mutate mutation => mutation.apply unit
  | modify kind query transform => unit.modify kind query transform

def WellFormed : EditStep → Prop
  | mutate mutation => mutation.WellFormed
  | modify kind _ transform => SourceUnit.NamesWell kind transform

def run (unit : SourceUnit) (step : EditStep) : SourceUnit :=
  match step.apply unit with
  | .ok (edited, _) => edited
  | .error _ => unit

def runAll (unit : SourceUnit) (steps : List EditStep) : SourceUnit := steps.foldl run unit

theorem run_sound {unit : SourceUnit} (sound : unit.Sound) (stored : unit.Stored) {step : EditStep}
    (wf : step.WellFormed) : (run unit step).Sound ∧ (run unit step).Stored := by
  unfold run
  split
  · rename_i edited changes applied
    cases step with
    | mutate mutation => exact SourceUnit.apply_sound sound stored wf applied
    | modify kind query transform => exact SourceUnit.modify_sound wf sound stored applied
  · exact ⟨sound, stored⟩

/-- **Every run of edits keeps a unit sound.** From a sound unit with its names in
stored form, any edits one after the other, each of them made or refused, lead to
such a unit. -/
theorem runAll_sound {unit : SourceUnit} (sound : unit.Sound) (stored : unit.Stored)
    {steps : List EditStep} (wf : ∀ step ∈ steps, step.WellFormed) :
    (runAll unit steps).Sound ∧ (runAll unit steps).Stored := by
  induction steps generalizing unit with
  | nil => exact ⟨sound, stored⟩
  | cons step steps ih =>
      obtain ⟨sound', stored'⟩ := run_sound sound stored (wf step (List.mem_cons_self ..))
      exact ih sound' stored' fun other listed => wf other (List.mem_cons_of_mem _ listed)

namespace Example

def oneClass (namespaceName : String) (interfaces : List String) : SourceUnit :=
  { strictTypes := false
    namespaces := .ofList [(namespaceName, ⟨namespaceName, ∅, ∅, ∅, .ofList [("C",
      { TypeDecl.ofName .class "C" with
        interfaces := interfaces
        constants := .ofList [("N", ⟨"N", "1", none, false, none, []⟩)] })]⟩)] }

/-- A trait, a renamed interface whose alias is taken by then, and a base class
that is refused. -/
theorem runAll_sound_oneClass :
    ((oneClass "App" ["Foo"]).Sound ∧ (oneClass "App" ["Foo"]).Stored) ∧
      (runAll (oneClass "App" ["Foo"])
        [.mutate (.use_ "Lib\\T"), .modify .implemented "Foo" fun _ => .implemented "Net\\T",
          .mutate (.extend_ "Other\\C")]).Sound := by
  have sound : (oneClass "App" ["Foo"]).Sound := by decide +kernel
  have stored : (oneClass "App" ["Foo"]).Stored := by decide +kernel
  refine ⟨⟨sound, stored⟩, (runAll_sound sound stored ?_).1⟩
  simp only [List.forall_mem_cons, List.not_mem_nil, false_imp_iff, implies_true, and_true,
    WellFormed]
  refine ⟨by decide +kernel, fun _ _ _ => Or.inr ?_, by decide +kernel⟩
  show Name.WellFormed (Name.normalize "Net\\T")
  decide +kernel

/-- Sound units whose names are not in stored form can become unsound, also when no
name is assigned: a namespace is looked up under one name and created under
another, and two interfaces become one. -/
theorem runAll_unstored :
    (∀ kind query, (EditStep.modify kind query Located.element).WellFormed) ∧
    ((oneClass "\\\\A" ["Foo"]).Sound ∧
      ¬ (runAll (oneClass "\\\\A" ["Foo"])
        [.modify .implemented "Foo" Located.element]).Sound) ∧
    (oneClass "A" ["Foo", "\\\\Foo"]).Sound ∧
      ¬ (runAll (oneClass "A" ["Foo", "\\\\Foo"])
        [.modify .constant "N" Located.element, .modify .constant "N" Located.element]).Sound := by
  refine ⟨fun kind query _ located _ => Or.inl rfl, ⟨?_, ?_⟩, ?_, ?_⟩
  all_goals decide +kernel

end Example

end EditStep

end Emend

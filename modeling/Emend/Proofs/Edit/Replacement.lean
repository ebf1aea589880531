import Emend.Proofs.Edit.Invariant
import Emend.Session
import Mathlib.Data.List.Forall2

/-!
# A change of elements replaces what it matches

`modify` rebuilds the tables of every type of a unit, of which those keyed by equal
names would lose a value. In a unit that is keyed by names in stored form nothing is
lost: `TypeDecl.Revised` says what becomes of a type, `Namespace.Revised` and
`SourceUnit.Revised` what becomes of all that stands around it. The way there, for the
elements of each kind in their order:

* `elements_mapElements`, `elements_normalizeNames`: the change and the stored form act
  on the elements one by one;
* `elements_rekey`: keying by names that are all different keeps every element;
* `importAll_eq`: what is imported afterwards goes to the namespaces that are there.

Two elements of the same name are what `modify` refuses, and all that it refuses
(`collision?_eq_some`).
-/

set_option autoImplicit false

namespace Emend

def Element.stored : Element → Element
  | property p => property { p with name := Text.dropStart '$' p.name }
  | constant c => constant c
  | traitUse t => traitUse { t with name := Name.normalize t.name }
  | baseType name => baseType (Name.normalize name)
  | implemented name => implemented (Name.normalize name)
  | method m => method m

/-- Whether two names in stored form name the same element: those of properties and
constants differ by case, all others do not. -/
def ElementKind.Clash : ElementKind → String → String → Prop
  | property, a, b | constant, a, b => a = b
  | method, a, b | traitUse, a, b | baseType, a, b | implemented, a, b =>
    Text.lower a = Text.lower b

instance : (kind : ElementKind) → (a b : String) → Decidable (kind.Clash a b)
  | .property, a, b | .constant, a, b => inferInstanceAs (Decidable (a = b))
  | .method, a, b | .traitUse, a, b | .baseType, a, b | .implemented, a, b =>
    inferInstanceAs (Decidable (Text.lower a = Text.lower b))

/-- Every member stands under its name. -/
@[mk_iff]
structure TypeDecl.Keyed (decl : TypeDecl) : Prop where
  traits : decl.traits.KeyedBy TraitUse.name
  constants : decl.constants.KeyedBy Constant.name
  properties : decl.properties.KeyedBy Property.name
  methods : decl.methods.KeyedBy Method.name

/-- No property has a dollar sign before its name. -/
def TypeDecl.Plain (decl : TypeDecl) : Prop :=
  ∀ p ∈ decl.properties.values, Text.dropStart '$' p.name = p.name

/-- Namespaces and members stand under their names, and properties have plain ones. -/
@[mk_iff]
structure SourceUnit.Keyed (unit : SourceUnit) : Prop where
  namespaces : unit.namespaces.KeyedBy Namespace.name
  members : ∀ ns ∈ unit.namespaces.values, ∀ decl ∈ ns.types.values, decl.Keyed
  plain : ∀ ns ∈ unit.namespaces.values, ∀ decl ∈ ns.types.values, decl.Plain

instance (decl : TypeDecl) : Decidable decl.Keyed := decidable_of_iff' _ decl.keyed_iff

instance (decl : TypeDecl) : Decidable decl.Plain :=
  inferInstanceAs (Decidable (∀ p ∈ decl.properties.values, _))

instance (unit : SourceUnit) : Decidable unit.Keyed := decidable_of_iff' _ unit.keyed_iff

/-! ## What becomes of a unit -/

/-- What an element that answers to the query becomes; any other stays as it is. -/
def SourceUnit.replaceAt (kind : ElementKind) (query : String) (transform : Located → Element)
    (ns : Namespace) (decl : TypeDecl) (e : Element) : Element :=
  if kind.answers e.name query then (transform ⟨ns.name, decl.name, e⟩).stored else e

structure TypeDecl.Revised (kind : ElementKind) (replace : Element → Element)
    (before after : TypeDecl) : Prop where
  elements : after.elements kind = (before.elements kind).map replace
  others : ∀ other, other ≠ kind → after.elements other = before.elements other
  keyed : after.Keyed
  header : after.kind = before.kind ∧ after.name = before.name ∧
    after.modifiers = before.modifiers ∧ after.doc = before.doc

def Import.Appended (names : List String) (before after : Table Import) : Prop :=
  ∃ added : List String, added.Sublist names ∧
    after.entries =
      before.entries ++ added.map fun name => (Name.short name, Import.ofName name)

/-- The namespace with its types revised, in which at most the classes of the given
names are imported. -/
structure Namespace.Revised (kind : ElementKind) (query : String)
    (transform : Located → Element) (names : List String) (before after : Namespace) : Prop where
  keys : after.types.keys = before.types.keys
  types : List.Forall₂
    (fun decl => decl.Revised kind (SourceUnit.replaceAt kind query transform before decl))
    before.types.values after.types.values
  imports : Import.Appended names before.imports after.imports
  header : after.name = before.name ∧ after.functionImports = before.functionImports ∧
    after.constantImports = before.constantImports

/-- The classes that the elements found in a namespace refer to after the change. -/
def SourceUnit.referredIn (unit : SourceUnit) (kind : ElementKind) (query : String)
    (transform : Located → Element) (ns : Namespace) : List String :=
  let references := if kind.isReference then unit.find kind query else []
  (references.filter (·.namespaceName = ns.name)).map fun located =>
    Name.normalize (transform located).name

structure SourceUnit.Revised (kind : ElementKind) (query : String)
    (transform : Located → Element) (before after : SourceUnit) : Prop where
  strictTypes : after.strictTypes = before.strictTypes
  keys : after.namespaces.keys = before.namespaces.keys
  namespaces : List.Forall₂
    (fun ns => ns.Revised kind query transform (before.referredIn kind query transform ns))
    before.namespaces.values after.namespaces.values

def SourceUnit.namesAfter (kind : ElementKind) (query : String) (transform : Located → Element)
    (ns : Namespace) (decl : TypeDecl) : List String :=
  (decl.elements kind).map fun e => (replaceAt kind query transform ns decl e).name

/-- Some type would hold two elements of the kind with the same name. -/
def SourceUnit.Clashes (unit : SourceUnit) (kind : ElementKind) (query : String)
    (transform : Located → Element) : Prop :=
  ∃ ns ∈ unit.namespaces.values, ∃ decl ∈ ns.types.values, ∃ a b,
    [a, b].Sublist (namesAfter kind query transform ns decl) ∧ kind.Clash a b

/-! ## Elements one by one -/

namespace Element

variable {f : Element → Element}

theorem name_stored {e : Element} (reference : e.kind.isReference = true) :
    e.stored.name = Name.normalize e.name := by
  cases e with
  | traitUse | baseType | implemented => simp only [stored, name]
  | property | constant | method => cases reference

theorem property_onProperty {p : Property} (kept : (f (.property p)).kind = .property) :
    property (onProperty f p) = f (.property p) := by
  unfold onProperty
  cases changed : f (.property p) <;> simp_all [kind]

theorem constant_onConstant {c : Constant} (kept : (f (.constant c)).kind = .constant) :
    constant (onConstant f c) = f (.constant c) := by
  unfold onConstant
  cases changed : f (.constant c) <;> simp_all [kind]

theorem traitUse_onTraitUse {t : TraitUse} (kept : (f (.traitUse t)).kind = .traitUse) :
    traitUse (onTraitUse f t) = f (.traitUse t) := by
  unfold onTraitUse
  cases changed : f (.traitUse t) <;> simp_all [kind]

theorem method_onMethod {m : Method} (kept : (f (.method m)).kind = .method) :
    method (onMethod f m) = f (.method m) := by
  unfold onMethod
  cases changed : f (.method m) <;> simp_all [kind]

theorem baseType_name {e : Element} (kept : e.kind = .baseType) : baseType e.name = e := by
  cases e <;> first | rfl | cases kept

theorem implemented_name {e : Element} (kept : e.kind = .implemented) :
    implemented e.name = e := by
  cases e <;> first | rfl | cases kept

end Element

namespace TypeDecl

variable {decl : TypeDecl} {kind other : ElementKind} {f : Element → Element}

/-- Changing what elements hold is changing the elements. -/
theorem map_map_element {α : Type} {wrap : α → Element} {change : α → α} {values : List α}
    (agrees : ∀ value ∈ values, wrap (change value) = f (wrap value)) :
    (values.map change).map wrap = (values.map wrap).map f := by
  rw [List.map_map, List.map_map]
  exact List.map_congr_left agrees

theorem elements_mapElements (kinds : ∀ e ∈ decl.elements kind, (f e).kind = kind) :
    (decl.mapElements kind f).elements kind = (decl.elements kind).map f := by
  cases kind with
  | property =>
      simp only [elements, mapElements, Table.values_mapValues]
      exact map_map_element fun p listed =>
        Element.property_onProperty (kinds _ (List.mem_map_of_mem listed))
  | constant =>
      simp only [elements, mapElements, Table.values_mapValues]
      exact map_map_element fun c listed =>
        Element.constant_onConstant (kinds _ (List.mem_map_of_mem listed))
  | traitUse =>
      simp only [elements, mapElements, Table.values_mapValues]
      exact map_map_element fun t listed =>
        Element.traitUse_onTraitUse (kinds _ (List.mem_map_of_mem listed))
  | baseType =>
      exact map_map_element fun base listed =>
        Element.baseType_name (kinds _ (List.mem_map_of_mem listed))
  | implemented =>
      exact map_map_element fun interface listed =>
        Element.implemented_name (kinds _ (List.mem_map_of_mem listed))
  | method =>
      simp only [elements, mapElements, Table.values_mapValues]
      exact map_map_element fun m listed =>
        Element.method_onMethod (kinds _ (List.mem_map_of_mem listed))

theorem elements_mapElements_of_ne (ne : other ≠ kind) :
    (decl.mapElements kind f).elements other = decl.elements other := by
  cases kind <;> cases other <;> first | rfl | exact absurd rfl ne

theorem elements_normalizeNames (decl : TypeDecl) (kind : ElementKind) :
    decl.normalizeNames.elements kind = (decl.elements kind).map Element.stored := by
  cases kind <;> simp [elements, normalizeNames, Element.stored, Function.comp_def]

/-- Elements whose names are in stored form stay as they are. -/
theorem stored_of_mem_elements (plain : decl.Plain) (stored : decl.Stored) {e : Element}
    (element : e ∈ decl.elements kind) : e.stored = e := by
  have settled : kind.isReference = true → Name.normalize e.name = e.name := fun reference =>
    (stored kind reference e.name (List.mem_map_of_mem element)).normalize_eq
  cases kind with
  | property =>
      obtain ⟨p, listed, rfl⟩ := List.mem_map.1 element
      rw [Element.stored, plain p listed]
  | constant | method =>
      obtain ⟨member, -, rfl⟩ := List.mem_map.1 element
      rfl
  | traitUse =>
      obtain ⟨t, -, rfl⟩ := List.mem_map.1 element
      have same : Name.normalize t.name = t.name := settled rfl
      rw [Element.stored, same]
  | baseType | implemented =>
      obtain ⟨name, -, rfl⟩ := List.mem_map.1 element
      have same : Name.normalize name = name := settled rfl
      rw [Element.stored, same]

/-! ## Members under their names -/

/-- No two members of a kind have the same name. References that stand in lists are no
members. -/
def DistinctMembers (decl : TypeDecl) : Prop :=
  ∀ kind, kind ≠ .baseType → kind ≠ .implemented → (decl.names kind).Nodup

theorem Keyed.distinctMembers (keyed : decl.Keyed) : decl.DistinctMembers := by
  intro kind notBase notInterface
  cases kind with
  | property =>
      rw [names_property, ← keyed.properties.keys_eq]
      exact decl.properties.nodup
  | constant =>
      rw [names_constant, ← keyed.constants.keys_eq]
      exact decl.constants.nodup
  | traitUse =>
      rw [names_traitUse, ← keyed.traits.keys_eq]
      exact decl.traits.nodup
  | method =>
      rw [names_method, ← keyed.methods.keys_eq]
      exact decl.methods.nodup
  | baseType => exact absurd rfl notBase
  | implemented => exact absurd rfl notInterface

/-- **Keying the members by names that are all different keeps every element.** -/
theorem elements_rekey (distinct : decl.DistinctMembers) (kind : ElementKind) :
    decl.rekey.elements kind = decl.elements kind := by
  have nodup := distinct kind
  cases kind with
  | property =>
      rw [names_property] at nodup
      simp only [elements, rekey, Table.values_rekey (nodup (by decide) (by decide))]
  | constant =>
      rw [names_constant] at nodup
      simp only [elements, rekey, Table.values_rekey (nodup (by decide) (by decide))]
  | traitUse =>
      rw [names_traitUse] at nodup
      simp only [elements, rekey, Table.values_rekey (nodup (by decide) (by decide))]
  | method =>
      rw [names_method] at nodup
      simp only [elements, rekey, Table.values_rekey (nodup (by decide) (by decide))]
  | baseType | implemented => rfl

theorem keyed_rekey (decl : TypeDecl) : decl.rekey.Keyed :=
  ⟨Table.keyedBy_rekey _ _, Table.keyedBy_rekey _ _, Table.keyedBy_rekey _ _,
    Table.keyedBy_rekey _ _⟩

end TypeDecl

/-! ## One type -/

theorem ElementKind.sameName_self (kind : ElementKind) (name : String) :
    kind.sameName name name = true := by
  cases kind <;> simp [sameName, Text.sameIgnoringCase]

/-- On names in stored form. -/
theorem ElementKind.sameName_iff {kind : ElementKind} {a b : String}
    (left : kind.isReference = true → Name.normalize a = a)
    (right : kind.isReference = true → Name.normalize b = b) :
    kind.sameName a b = true ↔ kind.Clash a b := by
  cases kind with
  | property | constant => exact beq_iff_eq
  | method => exact Text.sameIgnoringCase_iff
  | traitUse | baseType | implemented =>
      rw [sameName, left rfl, right rfl]
      exact Text.sameIgnoringCase_iff

namespace SourceUnit

variable {kind : ElementKind} {query : String} {transform : Located → Element} {ns : Namespace}
  {decl : TypeDecl}
  (kinds : ∀ located : Located, located.element.kind = kind → (transform located).kind = kind)

include kinds

theorem elements_changed (plain : decl.Plain) (stored : decl.Stored) :
    (changed kind query transform ns decl).elements kind =
      (decl.elements kind).map (replaceAt kind query transform ns decl) := by
  have kept : ∀ e ∈ decl.elements kind,
      (changeAt kind query transform ns decl e).kind = kind := by
    intro e element
    rw [changeAt]
    split
    · exact kinds _ (TypeDecl.kind_of_mem_elements element)
    · exact TypeDecl.kind_of_mem_elements element
  rw [changed, TypeDecl.elements_normalizeNames, TypeDecl.elements_mapElements kept, List.map_map]
  refine List.map_congr_left fun e element => ?_
  rw [Function.comp_apply, changeAt, replaceAt]
  split
  · rfl
  · exact TypeDecl.stored_of_mem_elements plain stored element

theorem names_changed (plain : decl.Plain) (stored : decl.Stored) :
    (changed kind query transform ns decl).names kind =
      namesAfter kind query transform ns decl := by
  rw [TypeDecl.names, elements_changed kinds plain stored, List.map_map]
  rfl

omit kinds in
theorem elements_changed_of_ne (plain : decl.Plain) (stored : decl.Stored) {other : ElementKind}
    (ne : other ≠ kind) :
    (changed kind query transform ns decl).elements other = decl.elements other := by
  rw [changed, TypeDecl.elements_normalizeNames, TypeDecl.elements_mapElements_of_ne ne]
  refine (List.map_congr_left fun e element => ?_).trans (List.map_id _)
  exact TypeDecl.stored_of_mem_elements plain stored element

omit kinds in
theorem distinctMembers_changed (keyed : decl.Keyed) (plain : decl.Plain) (stored : decl.Stored)
    (free : (changed kind query transform ns decl).duplicate? kind = none) :
    (changed kind query transform ns decl).DistinctMembers := by
  intro other notBase notInterface
  by_cases here : other = kind
  · subst here
    refine List.Pairwise.imp ?_ (TypeDecl.duplicate?_eq_none_iff.1 free)
    rintro a b differ rfl
    rw [other.sameName_self] at differ
    cases differ
  · rw [TypeDecl.names, elements_changed_of_ne plain stored here]
    exact keyed.distinctMembers other notBase notInterface

/-- **A type without clashes is revised.** -/
theorem revised_changed (keyed : decl.Keyed) (plain : decl.Plain) (stored : decl.Stored)
    (free : (changed kind query transform ns decl).duplicate? kind = none) :
    decl.Revised kind (replaceAt kind query transform ns decl)
      (changed kind query transform ns decl).rekey := by
  have distinct := distinctMembers_changed keyed plain stored free
  refine ⟨?_, fun other ne => ?_, TypeDecl.keyed_rekey _, ?_⟩
  · rw [TypeDecl.elements_rekey distinct, elements_changed kinds plain stored]
  · rw [TypeDecl.elements_rekey distinct, elements_changed_of_ne plain stored ne]
  · cases kind <;> exact ⟨rfl, rfl, rfl, rfl⟩

/-- The names after the change are in stored form. -/
theorem normalize_of_mem_namesAfter (wf : NamesWell kind transform) (stored : decl.Stored)
    (reference : kind.isReference = true) {name : String}
    (listed : name ∈ namesAfter kind query transform ns decl) : Name.normalize name = name := by
  obtain ⟨e, element, rfl⟩ := List.mem_map.1 listed
  have here := TypeDecl.kind_of_mem_elements element
  have settled : Name.Settled e.name := stored kind reference e.name (List.mem_map_of_mem element)
  rw [replaceAt]
  split
  · have reference' : (transform ⟨ns.name, decl.name, e⟩).kind.isReference = true := by
      rw [kinds _ here]
      exact reference
    rw [Element.name_stored reference']
    exact (wf.settled reference here settled).normalize_eq
  · exact settled.normalize_eq

theorem duplicate?_changed_eq_none_iff (wf : NamesWell kind transform) (plain : decl.Plain)
    (stored : decl.Stored) :
    (changed kind query transform ns decl).duplicate? kind = none ↔
      (namesAfter kind query transform ns decl).Pairwise fun a b => ¬ kind.Clash a b := by
  have same : ∀ {a b}, a ∈ namesAfter kind query transform ns decl →
      b ∈ namesAfter kind query transform ns decl →
      (kind.sameName a b = true ↔ kind.Clash a b) := fun left right =>
    ElementKind.sameName_iff
      (fun reference => normalize_of_mem_namesAfter kinds wf stored reference left)
      (fun reference => normalize_of_mem_namesAfter kinds wf stored reference right)
  rw [TypeDecl.duplicate?_eq_none_iff, names_changed kinds plain stored]
  constructor
  · refine List.Pairwise.imp_of_mem fun left right differ clash => ?_
    rw [(same left right).2 clash] at differ
    cases differ
  · refine List.Pairwise.imp_of_mem fun left right apart => ?_
    rw [Bool.eq_false_iff]
    exact fun equal => apart ((same left right).1 equal)

end SourceUnit

/-! ## What is refused -/

namespace TypeDecl

theorem duplicateIn?_eq_some {kind : ElementKind} {seen names : List String} {name : String}
    (found : duplicateIn? kind seen names = some name) :
    ∃ earlier, kind.sameName earlier name = true ∧
      ((earlier ∈ seen ∧ name ∈ names) ∨ [earlier, name].Sublist names) := by
  induction names generalizing seen with
  | nil => cases found
  | cons first names ih =>
      rw [duplicateIn?] at found
      by_cases taken : seen.any (kind.sameName · first) = true
      · rw [if_pos taken] at found
        obtain ⟨earlier, listed, same⟩ := List.any_eq_true.1 taken
        obtain rfl := Option.some.inj found
        exact ⟨earlier, same, Or.inl ⟨listed, List.mem_cons_self⟩⟩
      · rw [if_neg taken] at found
        obtain ⟨earlier, same, ⟨listed, later⟩ | both⟩ := ih found
        · refine ⟨earlier, same, ?_⟩
          rcases List.mem_cons.1 listed with rfl | before
          · exact Or.inr ((List.singleton_sublist.2 later).cons_cons earlier)
          · exact Or.inl ⟨before, List.mem_cons_of_mem _ later⟩
        · exact ⟨earlier, same, Or.inr (both.cons first)⟩

theorem duplicate?_eq_some {decl : TypeDecl} {kind : ElementKind} {name : String}
    (found : decl.duplicate? kind = some name) :
    ∃ earlier, [earlier, name].Sublist (decl.names kind) ∧ kind.sameName earlier name = true := by
  obtain ⟨earlier, same, ⟨listed, -⟩ | both⟩ := duplicateIn?_eq_some found
  · cases listed
  · exact ⟨earlier, both, same⟩

end TypeDecl

namespace SourceUnit

section Refused

variable {unit : SourceUnit} {kind : ElementKind} {query : String}
  {transform : Located → Element} {g : Namespace → TypeDecl → TypeDecl}

theorem mem_mapTypes {ns' : Namespace} {decl' : TypeDecl}
    (listed : ns' ∈ (unit.mapTypes g).namespaces.values) (declared : decl' ∈ ns'.types.values) :
    ∃ ns ∈ unit.namespaces.values, ∃ decl ∈ ns.types.values,
      ns'.name = ns.name ∧ decl' = g ns decl := by
  rw [mapTypes, Table.values_mapValues] at listed
  obtain ⟨ns, before, rfl⟩ := List.mem_map.1 listed
  rw [Table.values_mapValues] at declared
  obtain ⟨decl, there, rfl⟩ := List.mem_map.1 declared
  exact ⟨ns, before, decl, there, rfl, rfl⟩

theorem collision?_eq_some {error : EditError} (found : unit.collision? kind = some error) :
    ∃ ns ∈ unit.namespaces.values, ∃ decl ∈ ns.types.values, ∃ name,
      decl.duplicate? kind = some name ∧
        error = .duplicateElement (Name.join ns.name decl.name) kind name := by
  obtain ⟨ns, listed, inside⟩ := List.exists_of_findSome?_eq_some found
  obtain ⟨decl, declared, twice⟩ := List.exists_of_findSome?_eq_some inside
  obtain ⟨name, duplicate, rfl⟩ := Option.map_eq_some_iff.1 twice
  exact ⟨ns, listed, decl, declared, name, duplicate, rfl⟩

theorem collision?_mapTypes_eq_none_iff :
    (unit.mapTypes g).collision? kind = none ↔
      ∀ ns ∈ unit.namespaces.values, ∀ decl ∈ ns.types.values,
        (g ns decl).duplicate? kind = none := by
  rw [collision?_eq_none_iff]
  constructor
  · intro free ns listed decl declared
    refine free { ns with types := ns.types.mapValues (g ns) } ?_ _ ?_
    · rw [mapTypes, Table.values_mapValues]
      exact List.mem_map.2 ⟨ns, listed, rfl⟩
    · rw [Table.values_mapValues]
      exact List.mem_map_of_mem declared
  · intro free ns' listed decl' declared
    obtain ⟨ns, before, decl, there, -, rfl⟩ := mem_mapTypes listed declared
    exact free ns before decl there

/-- What `modify` does when something is found. -/
theorem modify_of_find_ne_nil (found : unit.find kind query ≠ []) :
    unit.modify kind query transform =
      match (unit.mapTypes (changed kind query transform)).collision? kind with
      | some error => .error error
      | none => .ok (importAll transform
          (unit.mapTypes fun ns decl => (changed kind query transform ns decl).rekey)
          (if kind.isReference then unit.find kind query else []),
          (unit.find kind query).length) := by
  have nonempty : ¬ (unit.find kind query).isEmpty = true := by
    rw [List.isEmpty_iff]
    exact found
  have keyed := mapTypes_mapTypes unit (changed kind query transform) TypeDecl.rekey
  rw [modify, if_neg nonempty, ← keyed]
  rfl

/-- `count` counts what `find` finds. -/
theorem length_find (unit : SourceUnit) (kind : ElementKind) (query : String) :
    (unit.find kind query).length = unit.count kind query := by
  have counted : ∀ decls : List TypeDecl, ∀ space : String,
      (decls.flatMap fun decl =>
        ((decl.elements kind).filter fun e => kind.answers e.name query).map fun e =>
          (⟨space, decl.name, e⟩ : Located)).length =
      total (fun decl => ((decl.elements kind).filter fun e =>
        kind.answers e.name query).length) decls := by
    intro decls space
    induction decls with
    | nil => rfl
    | cons decl decls ih =>
        rw [List.flatMap_cons, List.length_append, List.length_map, ih, total_cons]
  rw [find, count, types]
  induction unit.namespaces.values with
  | nil => rfl
  | cons ns spaces ih =>
      rw [List.flatMap_cons, List.length_append, counted, ih, List.flatMap_cons, total_append]

end Refused

end SourceUnit

/-! ## What is imported -/

namespace Import.Appended

variable {first second third : Table Import} {names others : List String}

theorem refl (table : Table Import) (names : List String) : Appended names table table :=
  ⟨[], List.nil_sublist _, (List.append_nil _).symm⟩

theorem trans (one : Appended names first second) (two : Appended others second third) :
    Appended (names ++ others) first third := by
  obtain ⟨added, selected, entries⟩ := one
  obtain ⟨added', selected', entries'⟩ := two
  refine ⟨added ++ added', selected.append selected', ?_⟩
  rw [entries', entries, List.map_append, List.append_assoc]

end Import.Appended

namespace Namespace

structure Extended (names : List String) (before after : Namespace) : Prop where
  imports : Import.Appended names before.imports after.imports
  types : after.types = before.types
  header : after.name = before.name ∧ after.functionImports = before.functionImports ∧
    after.constantImports = before.constantImports

theorem Extended.refl (names : List String) (ns : Namespace) : Extended names ns ns :=
  ⟨.refl .., rfl, rfl, rfl, rfl⟩

theorem Extended.trans {first second third : Namespace} {names others : List String}
    (one : Extended names first second) (two : Extended others second third) :
    Extended (names ++ others) first third :=
  ⟨one.imports.trans two.imports, two.types.trans one.types, two.header.1.trans one.header.1,
    two.header.2.1.trans one.header.2.1, two.header.2.2.trans one.header.2.2⟩

variable (ns : Namespace)

/-- A reference is imported under an alias that is free, or not at all. -/
theorem importReference_extended {name : String} (settled : Name.Settled name) :
    Extended [name] ns (ns.importReference name) := by
  unfold importReference
  dsimp only
  split
  · exact .refl ..
  · rename_i needed
    simp only [Bool.or_eq_true, List.any_eq_true, not_or, not_exists, not_and] at needed
    have absent : Name.short name ∉ ns.imports.keys := fun listed =>
      needed.1.2 _ listed (Text.sameIgnoringCase_iff.2 rfl)
    rw [insertImport_ofName ns settled, ← Import.ofName_eq settled]
    exact ⟨⟨[name], List.Sublist.refl _, upsert_of_not_mem absent _⟩, rfl, rfl, rfl, rfl⟩

/-- Import a reference, if it stands in this namespace. -/
def importFor (transform : Located → Element) (ns : Namespace) (located : Located) : Namespace :=
  if ns.name = located.namespaceName then
    ns.importReference (Name.normalize (transform located).name)
  else ns

theorem foldl_importFor_extended {transform : Located → Element} {references : List Located}
    (settled : ∀ located ∈ references, Name.Settled (Name.normalize (transform located).name)) :
    Extended
      ((references.filter (·.namespaceName = ns.name)).map fun located =>
        Name.normalize (transform located).name)
      ns (references.foldl (importFor transform) ns) := by
  induction references generalizing ns with
  | nil => exact .refl ..
  | cons located references ih =>
      obtain ⟨reference, rest⟩ := List.forall_mem_cons.1 settled
      rw [List.foldl_cons, importFor]
      by_cases here : ns.name = located.namespaceName
      · have first := ns.importReference_extended reference
        have others := ih (ns.importReference (Name.normalize (transform located).name)) rest
        rw [if_pos here, List.filter_cons_of_pos (by simpa using here.symm), List.map_cons]
        rw [first.header.1] at others
        exact first.trans others
      · rw [if_neg here, List.filter_cons_of_neg (by simpa using Ne.symm here)]
        exact ih ns rest

end Namespace

namespace SourceUnit

theorem updateNamespace_eq {unit : SourceUnit} (keyed : unit.namespaces.KeyedBy Namespace.name)
    {name : String} (normal : Name.normalize name = name) (present : name ∈ unit.namespaces.keys)
    (g : Namespace → Namespace) :
    unit.updateNamespace name g =
      { unit with namespaces :=
          unit.namespaces.mapValues fun ns => if ns.name = name then g ns else ns } := by
  rw [keyed.keys_eq] at present
  obtain ⟨ns, listed, named⟩ := List.mem_map.1 present
  have found := keyed.get?_eq_some_iff.2 ⟨listed, named⟩
  simp only [updateNamespace, normal, found, Option.getD_some]
  rw [keyed.insert_eq_mapValues found g]

/-- **Imports go to the namespaces that are there.** -/
theorem importAll_eq {transform : Located → Element} {references : List Located}
    (settled : ∀ located ∈ references, Name.Settled (Name.normalize (transform located).name))
    {unit : SourceUnit} (keyed : unit.namespaces.KeyedBy Namespace.name)
    (present : ∀ located ∈ references,
      Name.normalize located.namespaceName = located.namespaceName ∧
        located.namespaceName ∈ unit.namespaces.keys) :
    importAll transform unit references =
      { unit with namespaces :=
          unit.namespaces.mapValues (references.foldl (Namespace.importFor transform)) } := by
  induction references generalizing unit with
  | nil =>
      have same : unit.namespaces.mapValues (fun ns => ns) = unit.namespaces :=
        Table.mapValues_eq_self fun ns _ => rfl
      simp only [List.foldl_nil, same, importAll]
  | cons located references ih =>
      obtain ⟨reference, settled⟩ := List.forall_mem_cons.1 settled
      obtain ⟨⟨normal, there⟩, present⟩ := List.forall_mem_cons.1 present
      have first : unit.updateNamespace located.namespaceName
            (·.importReference (Name.normalize (transform located).name)) =
          { unit with namespaces :=
              unit.namespaces.mapValues fun ns => ns.importFor transform located } :=
        updateNamespace_eq keyed normal there _
      have names : ∀ ns ∈ unit.namespaces.values, (ns.importFor transform located).name = ns.name := by
        intro ns _
        rw [Namespace.importFor]
        split
        · exact (ns.importReference_extended reference).header.1
        · rfl
      rw [importAll, List.foldl_cons, first]
      refine (ih settled (keyed.mapValues names) ?_).trans ?_
      · rw [Table.keys_mapValues]
        exact present
      · rw [Table.mapValues_mapValues]
        rfl

section Modify

variable {unit : SourceUnit} {kind : ElementKind} {query : String} {transform : Located → Element}

/-- A unit in which nothing answers to the query is its own revision. -/
theorem revised_self (keyed : unit.Keyed) (unfound : unit.find kind query = []) :
    Revised kind query transform unit unit := by
  have unmatched : ∀ ns ∈ unit.namespaces.values, ∀ decl ∈ ns.types.values,
      ∀ e ∈ decl.elements kind, kind.answers e.name query = false := by
    intro ns listed decl declared e element
    simp only [find, List.flatMap_eq_nil_iff, List.map_eq_nil_iff, List.filter_eq_nil_iff,
      Bool.not_eq_true] at unfound
    exact unfound ns listed decl declared e element
  refine ⟨rfl, rfl, List.forall₂_same.2 fun ns listed => ⟨rfl, ?_, .refl .., rfl, rfl, rfl⟩⟩
  refine List.forall₂_same.2 fun decl declared => ⟨?_, fun _ _ => rfl, ?_, rfl, rfl, rfl, rfl⟩
  · refine ((List.map_congr_left fun e element => ?_).trans (List.map_id _)).symm
    rw [replaceAt, unmatched ns listed decl declared e element]
    rfl
  · exact keyed.members ns listed decl declared

variable (keyed : unit.Keyed) (stored : unit.Stored)
  (kinds : ∀ located : Located, located.element.kind = kind → (transform located).kind = kind)
  (wf : NamesWell kind transform)

include keyed stored wf

/-- What is found stands in a namespace of the unit, and refers to a class by a name in
stored form. -/
theorem reference_of_mem_find (reference : kind.isReference = true) {located : Located}
    (found : located ∈ unit.find kind query) :
    Name.Settled (Name.normalize (transform located).name) ∧
      Name.normalize located.namespaceName = located.namespaceName ∧
      located.namespaceName ∈ unit.namespaces.keys := by
  obtain ⟨ns, there, decl, declared, named, element⟩ := mem_find found
  have settled := (stored ns there).decls decl declared kind reference _
    (List.mem_map_of_mem element)
  refine ⟨wf.settled reference (TypeDecl.kind_of_mem_elements element) settled, ?_, ?_⟩
  · rw [named]
    exact (stored ns there).name
  · rw [named, keyed.namespaces.keys_eq]
    exact List.mem_map_of_mem there

include kinds

/-- **A unit without clashes is revised.** -/
theorem revised_importAll
    (free : ∀ ns ∈ unit.namespaces.values, ∀ decl ∈ ns.types.values,
      (changed kind query transform ns decl).duplicate? kind = none) :
    Revised kind query transform unit
      (importAll transform
        (unit.mapTypes fun ns decl => (changed kind query transform ns decl).rekey)
        (if kind.isReference then unit.find kind query else [])) := by
  have found : ∀ located ∈ (if kind.isReference then unit.find kind query else []),
      Name.Settled (Name.normalize (transform located).name) ∧
        Name.normalize located.namespaceName = located.namespaceName ∧
        located.namespaceName ∈ unit.namespaces.keys := by
    intro located listed
    split at listed
    · exact reference_of_mem_find keyed stored wf ‹_› listed
    · cases listed
  have settled := fun located listed => (found located listed).1
  have mapped : (unit.mapTypes fun ns decl =>
      (changed kind query transform ns decl).rekey).namespaces.KeyedBy Namespace.name := by
    unfold mapTypes
    exact keyed.namespaces.mapValues fun _ _ => rfl
  rw [importAll_eq settled mapped ?present]
  case present =>
    rw [mapTypes, Table.keys_mapValues]
    exact fun located listed => (found located listed).2
  refine ⟨rfl, ?_, ?_⟩
  · rw [mapTypes, Table.keys_mapValues, Table.keys_mapValues]
  · rw [mapTypes, Table.values_mapValues, Table.values_mapValues, List.map_map,
      List.forall₂_map_right_iff, List.forall₂_same]
    intro ns listed
    have extended := Namespace.foldl_importFor_extended { ns with
      types := ns.types.mapValues fun decl => (changed kind query transform ns decl).rekey } settled
    refine ⟨?_, ?_, extended.imports, extended.header⟩
    · rw [Function.comp_apply, extended.types, Table.keys_mapValues]
    · rw [Function.comp_apply, extended.types, Table.values_mapValues,
        List.forall₂_map_right_iff, List.forall₂_same]
      intro decl declared
      exact revised_changed kinds (keyed.members ns listed decl declared)
        (keyed.plain ns listed decl declared) ((stored ns listed).decls decl declared)
        (free ns listed decl declared)

theorem clashes_iff :
    unit.Clashes kind query transform ↔
      ¬ ∀ ns ∈ unit.namespaces.values, ∀ decl ∈ ns.types.values,
        (changed kind query transform ns decl).duplicate? kind = none := by
  have each : ∀ ns ∈ unit.namespaces.values, ∀ decl ∈ ns.types.values,
      ((changed kind query transform ns decl).duplicate? kind = none ↔
        ∀ a b, [a, b].Sublist (namesAfter kind query transform ns decl) → ¬ kind.Clash a b) := by
    intro ns listed decl declared
    rw [duplicate?_changed_eq_none_iff kinds wf (keyed.plain ns listed decl declared)
      ((stored ns listed).decls decl declared), List.pairwise_iff_forall_sublist]
  constructor
  · rintro ⟨ns, listed, decl, declared, a, b, both, clash⟩ free
    exact (each ns listed decl declared).1 (free ns listed decl declared) a b both clash
  · intro taken
    by_contra apart
    refine taken fun ns listed decl declared => (each ns listed decl declared).2 ?_
    intro a b both clash
    exact apart ⟨ns, listed, decl, declared, a, b, both, clash⟩

/-- A refusal names a type and the second of two elements in it. -/
theorem modify_eq_error (found : unit.find kind query ≠ [])
    (clashes : unit.Clashes kind query transform) :
    ∃ ns ∈ unit.namespaces.values, ∃ decl ∈ ns.types.values, ∃ a b,
      [a, b].Sublist (namesAfter kind query transform ns decl) ∧ kind.Clash a b ∧
        unit.modify kind query transform =
          .error (.duplicateElement (Name.join ns.name decl.name) kind b) := by
  rw [clashes_iff keyed stored kinds wf, ← collision?_mapTypes_eq_none_iff] at clashes
  obtain ⟨error, refused⟩ := Option.ne_none_iff_exists'.1 clashes
  rw [modify_of_find_ne_nil found, refused]
  obtain ⟨ns', listed', decl', declared', name, duplicate, rfl⟩ := collision?_eq_some refused
  obtain ⟨ns, listed, decl, declared, named, rfl⟩ := mem_mapTypes listed' declared'
  have plain := keyed.plain ns listed decl declared
  have settled := (stored ns listed).decls decl declared
  obtain ⟨earlier, both, same⟩ := TypeDecl.duplicate?_eq_some duplicate
  rw [names_changed kinds plain settled] at both
  have left : earlier ∈ namesAfter kind query transform ns decl :=
    both.subset (List.mem_cons_self ..)
  have right : name ∈ namesAfter kind query transform ns decl :=
    both.subset (List.mem_cons_of_mem _ (List.mem_cons_self ..))
  have clash := (ElementKind.sameName_iff
    (fun reference => normalize_of_mem_namesAfter kinds wf settled reference left)
    (fun reference => normalize_of_mem_namesAfter kinds wf settled reference right)).1 same
  refine ⟨ns, listed, decl, declared, earlier, name, both, clash, ?_⟩
  have declName : (changed kind query transform ns decl).name = decl.name :=
    decl.name_mapElements kind _
  simp only [named, declName]

/-- **A change of elements replaces what is found and loses nothing.** In a unit that is
keyed by names, all of them in stored form: what is counted is what is found, and what
the change visits. If no type comes to hold two elements of the same name, every element
found is replaced where it stands, and all that happens besides is that classes are
imported where they are referred to. Else the change is refused, and the unit stays as
it was. -/
theorem modify_replaces_found :
    (unit.find kind query).length = unit.count kind query ∧
      (unit.find kind query = [] ∨ ¬ unit.Clashes kind query transform →
        ∃ after, unit.edit (·.modify kind query transform) =
            (after, .ok (unit.count kind query)) ∧
          Revised kind query transform unit after) ∧
      (unit.find kind query ≠ [] → unit.Clashes kind query transform →
        ∃ ns ∈ unit.namespaces.values, ∃ decl ∈ ns.types.values, ∃ a b,
          [a, b].Sublist (namesAfter kind query transform ns decl) ∧ kind.Clash a b ∧
            unit.edit (·.modify kind query transform) =
              (unit, .error (.duplicateElement (Name.join ns.name decl.name) kind b))) := by
  refine ⟨length_find unit kind query, fun passes => ?_, fun found clashes => ?_⟩
  · by_cases unfound : unit.find kind query = []
    · refine ⟨unit, ?_, revised_self keyed unfound⟩
      rw [← length_find, unfound, edit, modify, unfound]
      rfl
    · have apart := passes.resolve_left unfound
      rw [clashes_iff keyed stored kinds wf, Classical.not_not] at apart
      refine ⟨_, ?_, revised_importAll keyed stored kinds wf apart⟩
      rw [edit, modify_of_find_ne_nil unfound, collision?_mapTypes_eq_none_iff.2 apart,
        ← length_find]
  · obtain ⟨ns, listed, decl, declared, a, b, both, clash, refused⟩ :=
      modify_eq_error keyed stored kinds wf found clashes
    refine ⟨ns, listed, decl, declared, a, b, both, clash, ?_⟩
    rw [edit, refused]

end Modify

namespace Example

def implementing (namespaceName : String) (imports : List (String × Import))
    (interfaces : List String) : SourceUnit :=
  { strictTypes := false
    namespaces := .ofList [(namespaceName, ⟨namespaceName, .ofList imports, ∅, ∅, .ofList [("C",
      { TypeDecl.ofName .class "C" with
        interfaces := interfaces
        properties := .ofList [("p", Property.ofName "p")] })]⟩)] }

/-- A class with two interfaces, the first of which is imported. -/
def twoInterfaces : SourceUnit :=
  implementing "App" [("Foo", ⟨"Lib\\Foo", "Foo", .type⟩)] ["Lib\\Foo", "Lib\\Bar"]

/-- One of the interfaces gets the name of a class that is then imported, or the name of
the other one in another case. -/
theorem modify_replaces_found_twoInterfaces :
    (twoInterfaces.Keyed ∧ twoInterfaces.Stored) ∧
      (∃ after, twoInterfaces.edit
            (·.modify .implemented "foo" fun _ => .implemented "\\Net\\T") = (after, .ok 1) ∧
          Revised .implemented "foo" (fun _ => .implemented "\\Net\\T") twoInterfaces after) ∧
      ∃ type name, twoInterfaces.edit
          (·.modify .implemented "foo" fun _ => .implemented "lib\\BAR") =
        (twoInterfaces, .error (.duplicateElement type .implemented name)) := by
  have keyed : twoInterfaces.Keyed := by decide +kernel
  have stored : twoInterfaces.Stored := by decide +kernel
  have kinds : ∀ name : String, ∀ located : Located, located.element.kind = .implemented →
      (Element.implemented name).kind = .implemented := fun _ _ _ => rfl
  have named : ∀ name : String, Name.WellFormed (Name.normalize name) →
      NamesWell .implemented fun _ => .implemented name := fun name wf _ _ _ => Or.inr wf
  have count : twoInterfaces.count .implemented "foo" = 1 := by decide +kernel
  refine ⟨⟨keyed, stored⟩, ?_, ?_⟩
  · have wf := named "\\Net\\T" (by decide +kernel)
    have apart := not_congr (@clashes_iff _ _ "foo" _ keyed stored (kinds _) wf)
    have replaced := (@modify_replaces_found _ _ "foo" _ keyed stored (kinds _) wf).2.1
    rw [count] at replaced
    refine replaced (Or.inr (apart.2 ?_))
    rw [Classical.not_not]
    decide +kernel
  · have wf := named "lib\\BAR" (by decide +kernel)
    have clashes := @clashes_iff _ _ "foo" _ keyed stored (kinds _) wf
    have refused := (@modify_replaces_found _ _ "foo" _ keyed stored (kinds _) wf).2.2
    obtain ⟨ns, -, decl, -, a, b, -, -, same⟩ :=
      refused (by decide +kernel) (clashes.2 (by decide +kernel))
    exact ⟨_, _, same⟩

/-- Names that are keys and their own normalization are not enough: a namespace is looked
up, and created, under its name without a leading separator, and the alias of an import
has no blanks before it. -/
theorem modify_unsettled :
    (∀ unit ∈ [implementing "\\A" [] ["Foo"],
        implementing "N" [("B", ⟨"X\\B", "B", .type⟩)] ["A\\ B"]],
      unit.Keyed ∧ ∀ ns ∈ unit.namespaces.values, ∀ decl ∈ ns.types.values,
        ∀ kind : ElementKind, kind.isReference = true → ∀ name ∈ decl.names kind,
          Name.normalize name = name) ∧
    (∃ after, (implementing "\\A" [] ["Foo"]).edit
        (·.modify .implemented "Foo" Located.element) = (after, .ok 1) ∧
      after.namespaces.keys = ["\\A", "A"]) ∧
    ∃ after, (implementing "N" [("B", ⟨"X\\B", "B", .type⟩)] ["A\\ B"]).edit
        (·.modify .implemented "A\\ B" Located.element) = (after, .ok 1) ∧
      after.namespaces.values.map (·.imports.values) = [[⟨"A\\ B", "B", .type⟩]] := by
  refine ⟨by decide +kernel, ⟨_, Prod.ext rfl ?_, ?_⟩, ⟨_, Prod.ext rfl ?_, ?_⟩⟩
  all_goals decide +kernel

end Example

end SourceUnit

end Emend

import Emend.Proofs.Edit.Replacement

/-!
# What a change of references imports

After a change `modify` imports the classes that the elements it found refer to. It does
so for every element found, whether the change gave it another name or left it alone.

* `Namespace.importReference_eq`: a reference is imported if its class is `Importable`;
* `Namespace.importable_insertImport`: what can be imported after that;
* `Namespace.entries_foldl_importFor`: of references one after the other, the first with
  each last segment is imported;
* `SourceUnit.modify_imports`: the same for a whole unit.

So a reference that was left alone is imported like any other, unless one before it took
its alias, and a change of nothing may add imports: `modify_imports_renamed_iff` says when.
-/

set_option autoImplicit false

namespace Emend

/-- Of the members that satisfy `p`, the first with each key. -/
theorem mem_eraseDupsBy_filter {α : Type} {key : α → String} {p : α → Bool} {a : α}
    {l : List α} :
    a ∈ (l.filter p).eraseDupsBy (fun x y => key x == key y) ↔
      ∃ before later, l = before ++ a :: later ∧ p a = true ∧
        ∀ b ∈ before, p b = true → key b ≠ key a := by
  induction l generalizing p with
  | nil => simp
  | cons x l ih =>
      by_cases passes : p x = true
      · rw [List.filter_cons_of_pos passes, List.eraseDupsBy_cons, List.filter_filter,
          List.mem_cons, ih]
        constructor
        · rintro (rfl | ⟨before, later, rfl, here, first⟩)
          · exact ⟨[], l, rfl, passes, fun b listed => by cases listed⟩
          · simp only [Bool.and_eq_true, decide_eq_true_eq, beq_eq_false_iff_ne] at here first
            refine ⟨x :: before, later, rfl, here.2, List.forall_mem_cons.2 ⟨fun _ same => ?_, ?_⟩⟩
            · exact here.1 same.symm
            · intro b listed holds same
              exact first b listed ⟨fun equal => here.1 (same.symm.trans equal), holds⟩ same
        · rintro ⟨before, later, split, here, first⟩
          rcases List.cons_eq_append_iff.1 split with ⟨rfl, rest⟩ | ⟨before, rfl, rfl⟩
          · exact Or.inl (List.cons.inj rest).1
          · obtain ⟨differs, first⟩ := List.forall_mem_cons.1 first
            refine Or.inr ⟨before, later, rfl, ?_, fun b listed holds => ?_⟩
            · simp only [Bool.and_eq_true, decide_eq_true_eq, beq_eq_false_iff_ne]
              exact ⟨(differs passes).symm, here⟩
            · exact first b listed (Bool.and_eq_true_iff.1 holds).2
      · rw [List.filter_cons_of_neg passes, ih]
        constructor
        · rintro ⟨before, later, rfl, here, first⟩
          exact ⟨x :: before, later, rfl, here,
            List.forall_mem_cons.2 ⟨fun holds => absurd holds passes, first⟩⟩
        · rintro ⟨before, later, split, here, first⟩
          rcases List.cons_eq_append_iff.1 split with ⟨rfl, rest⟩ | ⟨before, rfl, rfl⟩
          · exact absurd ((List.cons.inj rest).1 ▸ here) passes
          · exact ⟨before, later, rfl, here, (List.forall_mem_cons.1 first).2⟩

namespace SourceUnit

/-- The class that an element refers to after the change. -/
def referredTo (transform : Located → Element) (located : Located) : String :=
  Name.normalize (transform located).name

/-- Its last segment ignoring case, under which it would be imported. -/
def aliasAfter (transform : Located → Element) (located : Located) : String :=
  Text.lower (Name.short (referredTo transform located))

end SourceUnit

/-! ## One namespace -/

namespace Namespace

open SourceUnit (referredTo aliasAfter)

/-- The class cannot be written here without an import, and nothing stands in the way of
one: neither an alias nor a type has its last segment for a name. -/
@[mk_iff]
structure Importable (ns : Namespace) (name : String) : Prop where
  isClass : Name.isBuiltinType name = false
  elsewhere : Text.lower (Name.parent name) ≠ Text.lower ns.name
  unknown : ∀ i ∈ ns.imports.values, i.kind = .type → Text.lower i.name ≠ Text.lower name
  aliases : ∀ key ∈ ns.imports.keys, Text.lower key ≠ Text.lower (Name.short name)
  types : ∀ key ∈ ns.types.keys, Text.lower key ≠ Text.lower (Name.short name)

instance (ns : Namespace) (name : String) : Decidable (ns.Importable name) :=
  decidable_of_iff' _ (ns.importable_iff name)

/-- The element stands in this namespace, into which the class can be imported that it
refers to after the change. -/
def Wants (transform : Located → Element) (ns : Namespace) (located : Located) : Prop :=
  located.namespaceName = ns.name ∧ ns.Importable (referredTo transform located)

instance (transform : Located → Element) (ns : Namespace) (located : Located) :
    Decidable (ns.Wants transform located) :=
  inferInstanceAs (Decidable (_ ∧ _))

/-- The references for which a class is imported after the change: of those that can be
imported, the first under each alias. -/
def importedFor (transform : Located → Element) (references : List Located) (ns : Namespace) :
    List Located :=
  (references.filter (ns.Wants transform ·)).eraseDupsBy fun a b =>
    aliasAfter transform a == aliasAfter transform b

variable {ns : Namespace} {name : String}

theorem importReference_eq (normal : Name.normalize name = name) :
    ns.importReference name =
      if ns.Importable name then ns.insertImport (Import.ofName name) else ns := by
  have guard : (ns.needsNoImport name ||
      ns.imports.keys.any (Text.sameIgnoringCase · (Name.short name)) ||
        ns.types.keys.any (Text.sameIgnoringCase · (Name.short name))) = true ↔
      ¬ ns.Importable name := by
    simp only [needsNoImport, importable_iff, Bool.or_eq_true, importsName_iff, List.any_eq_true,
      Text.sameIgnoringCase_iff, normal]
    grind
  rw [importReference]
  by_cases importable : ns.Importable name
  · rw [if_pos importable, if_neg fun held => guard.1 held importable]
  · rw [if_neg importable, if_pos (guard.2 importable)]

/-- An import is written behind the others. -/
theorem entries_insertImport (settled : Name.Settled name) (free : ns.Importable name) :
    (ns.insertImport (Import.ofName name)).imports.entries =
      ns.imports.entries ++ [(Name.short name, Import.ofName name)] := by
  have absent : Name.short name ∉ ns.imports.keys := fun listed => free.aliases _ listed rfl
  rw [insertImport_ofName ns settled, ← Import.ofName_eq settled]
  exact upsert_of_not_mem absent _

theorem header_insertImport (ns : Namespace) (settled : Name.Settled name) :
    (ns.insertImport (Import.ofName name)).name = ns.name ∧
      (ns.insertImport (Import.ofName name)).types = ns.types := by
  rw [insertImport_ofName ns settled]
  exact ⟨rfl, rfl⟩

/-- An import takes its alias, and nothing else. -/
theorem importable_insertImport (settled : Name.Settled name) (free : ns.Importable name)
    {other : String} :
    (ns.insertImport (Import.ofName name)).Importable other ↔
      ns.Importable other ∧ Text.lower (Name.short name) ≠ Text.lower (Name.short other) := by
  have entries := entries_insertImport settled free
  have keys : (ns.insertImport (Import.ofName name)).imports.keys =
      ns.imports.keys ++ [Name.short name] := by
    rw [Table.keys, entries, List.map_append, List.map_singleton, Table.keys]
  have values : (ns.insertImport (Import.ofName name)).imports.values =
      ns.imports.values ++ [⟨name, Name.short name, .type⟩] := by
    rw [Table.values, entries, List.map_append, List.map_singleton, Import.ofName_eq settled,
      Table.values]
  obtain ⟨sameName, sameTypes⟩ := header_insertImport ns settled
  -- a class of the same name has the same last segment
  have segment : Text.lower name = Text.lower other →
      Text.lower (Name.short name) = Text.lower (Name.short other) := fun same => by
    rw [Name.lower_short, Name.lower_short, same]
  simp only [importable_iff, keys, values, sameName, sameTypes, List.forall_mem_append,
    List.forall_mem_singleton]
  grind

/-- What can be imported does not depend on what the types hold. -/
theorem importable_of_keys {types : Table TypeDecl} (keys : types.keys = ns.types.keys) :
    { ns with types := types }.Importable name ↔ ns.Importable name := by
  simp only [importable_iff, keys]

section References

variable {transform : Located → Element} {references : List Located} {located : Located}

theorem importedFor_of_keys {types : Table TypeDecl} (keys : types.keys = ns.types.keys) :
    { ns with types := types }.importedFor transform references =
      ns.importedFor transform references := by
  rw [importedFor, importedFor]
  congr 1
  refine List.filter_congr fun located _ => ?_
  rw [decide_eq_decide, Wants, Wants, importable_of_keys keys]

theorem importFor_of_wants (settled : Name.Settled (referredTo transform located))
    (wants : ns.Wants transform located) :
    ns.importFor transform located =
      ns.insertImport (Import.ofName (referredTo transform located)) := by
  rw [importFor, if_pos wants.1.symm]
  exact (importReference_eq settled.normalize_eq).trans (if_pos wants.2)

theorem importFor_of_not_wants (settled : Name.Settled (referredTo transform located))
    (unwanted : ¬ ns.Wants transform located) : ns.importFor transform located = ns := by
  rw [importFor]
  split
  · rename_i here
    have stays : ¬ ns.Importable (referredTo transform located) := fun importable =>
      unwanted ⟨here.symm, importable⟩
    exact (importReference_eq settled.normalize_eq).trans (if_neg stays)
  · rfl

/-- Behind a reference that is imported come those with another alias. -/
theorem importedFor_cons (settled : Name.Settled (referredTo transform located))
    (wants : ns.Wants transform located) :
    ns.importedFor transform (located :: references) =
      located :: (ns.insertImport (Import.ofName (referredTo transform located))).importedFor
        transform references := by
  have sameName := (ns.header_insertImport settled).1
  simp only [importedFor]
  rw [List.filter_cons_of_pos (by simpa using wants), List.eraseDupsBy_cons, List.filter_filter]
  refine congrArg (fun kept => located :: List.eraseDupsBy _ kept) ?_
  refine List.filter_congr fun other _ => ?_
  rw [Bool.eq_iff_iff]
  simp only [Wants, sameName, importable_insertImport settled wants.2, Bool.and_eq_true,
    decide_eq_true_eq, beq_eq_false_iff_ne, aliasAfter]
  grind

/-- **Of references one after the other, the first under each alias is imported.** -/
theorem entries_foldl_importFor
    (settled : ∀ located ∈ references, Name.Settled (referredTo transform located)) :
    (references.foldl (importFor transform) ns).imports.entries =
      ns.imports.entries ++ (ns.importedFor transform references).map fun located =>
        (Name.short (referredTo transform located),
          Import.ofName (referredTo transform located)) := by
  induction references generalizing ns with
  | nil => exact (List.append_nil _).symm
  | cons located references ih =>
      obtain ⟨reference, rest⟩ := List.forall_mem_cons.1 settled
      rw [List.foldl_cons]
      by_cases wants : ns.Wants transform located
      · rw [importFor_of_wants reference wants, ih rest, entries_insertImport reference wants.2,
          importedFor_cons reference wants, List.map_cons, List.append_assoc,
          List.singleton_append]
      · rw [importFor_of_not_wants reference wants, ih rest]
        simp only [importedFor]
        rw [List.filter_cons_of_neg (by simpa using wants)]

theorem importedFor_eq_nil_iff :
    ns.importedFor transform references = [] ↔
      ∀ located ∈ references, ¬ ns.Wants transform located := by
  constructor
  · intro importsNone located listed wants
    have kept : located ∈ references.filter (ns.Wants transform ·) :=
      List.mem_filter.2 ⟨listed, decide_eq_true wants⟩
    cases filtered : references.filter (ns.Wants transform ·) with
    | nil =>
        rw [filtered] at kept
        cases kept
    | cons first others =>
        rw [importedFor, filtered, List.eraseDupsBy_cons] at importsNone
        cases importsNone
  · intro unwanted
    rw [importedFor, List.filter_eq_nil_iff.2 fun located listed => by
      simpa using unwanted located listed]
    rfl

/-- A namespace that wants none of the references stays as it is. -/
theorem foldl_importFor_eq_self_iff
    (settled : ∀ located ∈ references, Name.Settled (referredTo transform located)) :
    references.foldl (importFor transform) ns = ns ↔
      ∀ located ∈ references, ¬ ns.Wants transform located := by
  have entries : (references.foldl (importFor transform) ns).imports.entries = _ :=
    entries_foldl_importFor settled
  rw [← importedFor_eq_nil_iff]
  constructor
  · intro same
    rw [same, List.self_eq_append_right, List.map_eq_nil_iff] at entries
    exact entries
  · intro unfound
    have extended := ns.foldl_importFor_extended settled
    rw [unfound, List.map_nil, List.append_nil] at entries
    have imports := Table.ext entries
    obtain ⟨-, types, name, functions, constants⟩ := extended
    generalize references.foldl (importFor transform) ns = after at *
    cases after
    cases ns
    simp_all

end References

end Namespace

/-! ## A change of nothing -/

namespace TypeDecl

variable {decl other : TypeDecl} {kind : ElementKind} {replace : Element → Element}

/-- A type is its elements under their names and what stands in its header. -/
theorem Keyed.eq_of_elements (left : decl.Keyed) (right : other.Keyed)
    (elements : ∀ kind, decl.elements kind = other.elements kind)
    (header : decl.kind = other.kind ∧ decl.name = other.name ∧
      decl.modifiers = other.modifiers ∧ decl.doc = other.doc) : decl = other := by
  have properties := left.properties.eq_of_values right.properties
    (List.map_injective_iff.2 (fun _ _ => Element.property.inj) (elements .property))
  have constants := left.constants.eq_of_values right.constants
    (List.map_injective_iff.2 (fun _ _ => Element.constant.inj) (elements .constant))
  have traits := left.traits.eq_of_values right.traits
    (List.map_injective_iff.2 (fun _ _ => Element.traitUse.inj) (elements .traitUse))
  have methods := left.methods.eq_of_values right.methods
    (List.map_injective_iff.2 (fun _ _ => Element.method.inj) (elements .method))
  have bases := List.map_injective_iff.2 (fun _ _ => Element.baseType.inj) (elements .baseType)
  have interfaces :=
    List.map_injective_iff.2 (fun _ _ => Element.implemented.inj) (elements .implemented)
  obtain ⟨sameKind, sameName, modifiers, doc⟩ := header
  cases decl
  cases other
  simp_all

/-- A revision in which every element stays is no revision. -/
theorem Revised.eq_self (revised : decl.Revised kind replace other) (keyed : decl.Keyed)
    (stays : ∀ e ∈ decl.elements kind, replace e = e) : other = decl := by
  refine revised.keyed.eq_of_elements keyed (fun any => ?_) revised.header
  by_cases here : any = kind
  · rw [here, revised.elements]
    exact (List.map_congr_left stays).trans (List.map_id _)
  · exact revised.others any here

end TypeDecl

namespace SourceUnit

section Change

variable {unit after : SourceUnit} {kind : ElementKind} {query : String}
  {transform : Located → Element} {visited : Nat}

theorem Sound.keyed_of_plain (sound : unit.Sound)
    (plain : ∀ ns ∈ unit.namespaces.values, ∀ decl ∈ ns.types.values, decl.Plain) :
    unit.Keyed := by
  refine ⟨sound.keyed, fun ns listed decl declared => ?_, plain⟩
  have inside := (sound.namespaces ns listed).decls decl declared
  exact ⟨inside.traits, inside.constants, inside.properties, inside.methods⟩

variable (keyed : unit.Keyed) (stored : unit.Stored) (wf : NamesWell kind transform)
  (reference : kind.isReference = true)

include keyed stored wf reference

/-- Imports go to the namespaces that are there, whatever became of their types. -/
theorem importAll_mapTypes (g : Namespace → TypeDecl → TypeDecl) :
    importAll transform (unit.mapTypes g) (unit.find kind query) =
      { unit.mapTypes g with
        namespaces := (unit.mapTypes g).namespaces.mapValues
          ((unit.find kind query).foldl (Namespace.importFor transform)) } := by
  have found : ∀ located ∈ unit.find kind query, _ := fun _ listed =>
    reference_of_mem_find keyed stored wf reference listed
  have mapped : (unit.mapTypes g).namespaces.KeyedBy Namespace.name := by
    unfold mapTypes
    exact keyed.namespaces.mapValues fun _ _ => rfl
  refine importAll_eq (fun located listed => (found located listed).1) mapped ?_
  rw [mapTypes, Table.keys_mapValues]
  exact fun located listed => (found located listed).2

/-- **What a change of references imports.** -/
theorem modify_imports (modified : unit.modify kind query transform = .ok (after, visited)) :
    List.Forall₂
      (fun ns ns' => ns'.name = ns.name ∧
        ns'.imports.entries = ns.imports.entries ++
          (ns.importedFor transform (unit.find kind query)).map fun located =>
            (Name.short (referredTo transform located),
              Import.ofName (referredTo transform located)))
      unit.namespaces.values after.namespaces.values := by
  have settled : ∀ located ∈ unit.find kind query, Name.Settled (referredTo transform located) :=
    fun located listed => (reference_of_mem_find keyed stored wf reference listed).1
  rcases modify_cases modified with ⟨unfound, rfl, -⟩ | ⟨-, rfl, -⟩
  · refine List.forall₂_same.2 fun ns _ => ⟨rfl, ?_⟩
    rw [unfound]
    exact (List.append_nil _).symm
  · rw [if_pos reference, importAll_mapTypes keyed stored wf reference, Table.values_mapValues,
      mapTypes, Table.values_mapValues, List.map_map, List.forall₂_map_right_iff,
      List.forall₂_same]
    intro ns _
    have extended := Namespace.foldl_importFor_extended { ns with
      types := ns.types.mapValues fun decl => (changed kind query transform ns decl).rekey } settled
    refine ⟨extended.header.1, ?_⟩
    rw [Function.comp_apply, Namespace.entries_foldl_importFor settled,
      Namespace.importedFor_of_keys (Table.keys_mapValues _ _)]

omit wf reference in
/-- An element that the change leaves alone stays, as its name is in stored form. -/
theorem replaceAt_eq_self
    (nothing : ∀ located ∈ unit.find kind query, transform located = located.element)
    {ns : Namespace} (listed : ns ∈ unit.namespaces.values) {decl : TypeDecl}
    (declared : decl ∈ ns.types.values) {e : Element} (element : e ∈ decl.elements kind) :
    replaceAt kind query transform ns decl e = e := by
  rw [replaceAt]
  split
  · rename_i answers
    have found : (⟨ns.name, decl.name, e⟩ : Located) ∈ unit.find kind query := by
      simp only [find, List.mem_flatMap, List.mem_map, List.mem_filter]
      exact ⟨ns, listed, decl, declared, e, ⟨element, answers⟩, rfl⟩
    rw [nothing _ found]
    exact TypeDecl.stored_of_mem_elements (keyed.plain ns listed decl declared)
      ((stored ns listed).decls decl declared) element
  · rfl

variable (sound : unit.Sound)
  (kinds : ∀ located : Located, located.element.kind = kind → (transform located).kind = kind)
  (nothing : ∀ located ∈ unit.find kind query, transform located = located.element)

include sound kinds nothing

omit wf in
/-- A change of nothing is never refused. -/
theorem duplicate?_changed_of_nothing {ns : Namespace} (listed : ns ∈ unit.namespaces.values)
    {decl : TypeDecl} (declared : decl ∈ ns.types.values) :
    (changed kind query transform ns decl).duplicate? kind = none := by
  have settled := (stored ns listed).decls decl declared
  have names : (changed kind query transform ns decl).names kind = decl.names kind := by
    rw [names_changed kinds (keyed.plain ns listed decl declared) settled, namesAfter]
    refine List.map_congr_left fun e element => ?_
    rw [replaceAt_eq_self keyed stored nothing listed declared element]
  rw [TypeDecl.duplicate?_eq_none_iff, names]
  refine List.Pairwise.imp_of_mem ?_
    (((sound.namespaces ns listed).decls decl declared).once kind reference)
  intro a b first second differ
  rw [TypeDecl.sameName_eq reference (settled kind reference a first)
    (settled kind reference b second)]
  exact differ

omit wf in
/-- A change of nothing leaves the types as they are. -/
theorem mapTypes_of_nothing :
    (unit.mapTypes fun ns decl => (changed kind query transform ns decl).rekey) = unit := by
  have each : ∀ ns ∈ unit.namespaces.values,
      ns.types.mapValues (fun decl => (changed kind query transform ns decl).rekey) =
        ns.types := by
    intro ns listed
    refine Table.mapValues_eq_self fun decl declared => ?_
    have members := keyed.members ns listed decl declared
    have revised := revised_changed kinds members (keyed.plain ns listed decl declared)
      ((stored ns listed).decls decl declared)
      (duplicate?_changed_of_nothing keyed stored reference sound kinds nothing listed declared)
    exact revised.eq_self members fun e element =>
      replaceAt_eq_self keyed stored nothing listed declared element
  have namespaces : unit.namespaces.mapValues (fun ns => { ns with
      types := ns.types.mapValues fun decl => (changed kind query transform ns decl).rekey }) =
      unit.namespaces := by
    refine Table.mapValues_eq_self fun ns listed => ?_
    rw [each ns listed]
  rw [mapTypes, namespaces]

/-- **What a change of nothing does**: it imports what can be imported. -/
theorem modify_of_nothing :
    ∃ after, unit.modify kind query transform = .ok (after, unit.count kind query) ∧
      (after = unit ↔
        ∀ ns ∈ unit.namespaces.values, ∀ located ∈ unit.find kind query,
          ¬ ns.Wants transform located) := by
  have types := mapTypes_of_nothing keyed stored reference sound kinds nothing
  have imported : importAll transform
      (unit.mapTypes fun ns decl => (changed kind query transform ns decl).rekey)
        (unit.find kind query) = _ := importAll_mapTypes keyed stored wf reference _
  rw [types] at imported
  have settled : ∀ located ∈ unit.find kind query, Name.Settled (referredTo transform located) :=
    fun located listed => (reference_of_mem_find keyed stored wf reference listed).1
  refine ⟨importAll transform unit (unit.find kind query), ?_, ?_⟩
  · by_cases unfound : unit.find kind query = []
    · rw [← length_find, modify, unfound]
      rfl
    · have free := collision?_mapTypes_eq_none_iff.2 fun ns listed decl declared =>
        duplicate?_changed_of_nothing keyed stored reference sound kinds nothing listed declared
      rw [modify_of_find_ne_nil unfound, free, if_pos reference, types, length_find]
  · rw [imported]
    constructor
    · intro same ns listed
      have values := congrArg (fun unit => unit.namespaces.values) same
      rw [Table.values_mapValues] at values
      refine (Namespace.foldl_importFor_eq_self_iff settled).1 ?_
      exact List.map_inj_left.1 (values.trans (List.map_id _).symm) ns listed
    · intro unwanted
      rw [Table.mapValues_eq_self fun ns listed =>
        (Namespace.foldl_importFor_eq_self_iff settled).2 (unwanted ns listed)]

end Change

/-- **A change of references imports for all that it finds, renamed or not.** In a sound
unit whose names are in stored form: behind what a namespace imported stand the classes of
the references that it wants, the first under each alias. So only references that the
change renamed are imported exactly if every other one that a namespace wants comes behind
a reference with its alias. A change of nothing succeeds, and leaves the unit as it was
exactly if no reference found is wanted. -/
theorem modify_imports_renamed_iff {unit : SourceUnit} (sound : unit.Sound)
    (stored : unit.Stored)
    (plain : ∀ ns ∈ unit.namespaces.values, ∀ decl ∈ ns.types.values, decl.Plain)
    {kind : ElementKind} (reference : kind.isReference = true) (query : String)
    {transform : Located → Element}
    (kinds : ∀ located : Located, located.element.kind = kind → (transform located).kind = kind)
    (wf : NamesWell kind transform) :
    (∀ after visited, unit.modify kind query transform = .ok (after, visited) →
      List.Forall₂
        (fun ns ns' => ns'.name = ns.name ∧
          ns'.imports.entries = ns.imports.entries ++
            (ns.importedFor transform (unit.find kind query)).map fun located =>
              (Name.short (referredTo transform located),
                Import.ofName (referredTo transform located)))
        unit.namespaces.values after.namespaces.values) ∧
      (∀ ns ∈ unit.namespaces.values,
        (∀ located ∈ ns.importedFor transform (unit.find kind query),
            (transform located).name ≠ located.element.name) ↔
          ∀ earlier located later, unit.find kind query = earlier ++ located :: later →
            (transform located).name = located.element.name → ns.Wants transform located →
              ∃ other ∈ earlier, ns.Wants transform other ∧
                aliasAfter transform other = aliasAfter transform located) ∧
      ((∀ located ∈ unit.find kind query, transform located = located.element) →
        ∃ after, unit.modify kind query transform = .ok (after, unit.count kind query) ∧
          (after = unit ↔
            ∀ ns ∈ unit.namespaces.values, ∀ located ∈ unit.find kind query,
              ¬ ns.Wants transform located)) := by
  have keyed := sound.keyed_of_plain plain
  refine ⟨fun after visited modified => modify_imports keyed stored wf reference modified, ?_,
    modify_of_nothing keyed stored wf reference sound kinds⟩
  intro ns _
  constructor
  · intro renamed earlier located later split left wants
    by_contra first
    refine renamed located (mem_eraseDupsBy_filter.2
      ⟨earlier, later, split, decide_eq_true wants, fun other before holds same => ?_⟩) left
    exact first ⟨other, before, of_decide_eq_true holds, same⟩
  · intro behind located imported left
    obtain ⟨earlier, later, split, wants, first⟩ := mem_eraseDupsBy_filter.1 imported
    obtain ⟨other, before, wanted, same⟩ :=
      behind earlier located later split left (of_decide_eq_true wants)
    exact first other before (decide_eq_true wanted) same

namespace Example

/-- A class with a base type that is not imported. -/
def derived (name : String) : TypeDecl := { TypeDecl.ofName .class name with bases := ["B\\D"] }

def twoDerived : SourceUnit :=
  { strictTypes := false
    namespaces := .ofList [("A", ⟨"A", ∅, ∅, ∅,
      .ofList [("C", derived "C"), ("E", derived "E")]⟩)] }

/-- Gives one of the classes another base type, and leaves the other alone. -/
def rebase (located : Located) : Element :=
  if located.typeName = "E" then .baseType "\\New\\T" else located.element

/-- The base type of the class that was left alone is imported too, and so it is if both
are left alone. -/
theorem modify_imports_renamed_iff_oneRebased :
    (twoDerived.Sound ∧ twoDerived.Stored) ∧
      (∃ after ns, twoDerived.modify .baseType "D" rebase = .ok (after, 2) ∧
        after.namespaces.values = [ns] ∧
        ns.imports.values = [⟨"B\\D", "D", .type⟩, ⟨"New\\T", "T", .type⟩]) ∧
      ∃ after, twoDerived.modify .baseType "D" Located.element = .ok (after, 2) ∧
        after ≠ twoDerived := by
  have sound : twoDerived.Sound := by decide +kernel
  have stored : twoDerived.Stored := by decide +kernel
  have plain : ∀ ns ∈ twoDerived.namespaces.values, ∀ decl ∈ ns.types.values, decl.Plain := by
    decide +kernel
  have kinds : ∀ located : Located, located.element.kind = .baseType →
      (rebase located).kind = .baseType := by
    intro located here
    rw [rebase]
    split
    · rfl
    · exact here
  have wf : NamesWell .baseType rebase := by
    intro _ located _
    rw [rebase]
    split
    · exact Or.inr (by decide +kernel)
    · exact Or.inl rfl
  have count : twoDerived.count .baseType "D" = 2 := by decide +kernel
  refine ⟨⟨sound, stored⟩, ?_, ?_⟩
  · have imports := (modify_imports_renamed_iff sound stored plain rfl "D" kinds wf).1
    have visited : (twoDerived.modify .baseType "D" rebase).toOption.map Prod.snd = some 2 := by
      decide +kernel
    cases modified : twoDerived.modify .baseType "D" rebase with
    | error refused =>
        rw [modified] at visited
        cases visited
    | ok result =>
        rw [modified] at visited
        obtain ⟨after, n⟩ := result
        obtain rfl : n = 2 := Option.some.inj visited
        have each := imports after 2 modified
        obtain ⟨ns, rest, ⟨-, entries⟩, others, alone⟩ := List.forall₂_cons_left_iff.1 each
        obtain rfl := List.forall₂_nil_left_iff.1 others
        refine ⟨after, ns, rfl, alone, ?_⟩
        rw [Table.values, entries]
        decide +kernel
  · have kept : ∀ located : Located, located.element.kind = .baseType →
        (Located.element located).kind = .baseType := fun _ here => here
    obtain ⟨after, modified, same⟩ := (modify_imports_renamed_iff sound stored plain rfl "D"
      kept fun _ _ _ => Or.inl rfl).2.2 fun _ _ => rfl
    rw [count] at modified
    refine ⟨after, modified, fun equal => absurd (same.1 equal) ?_⟩
    decide +kernel

end Example

end SourceUnit

end Emend

import Emend.Proofs.Edit.Footprint
import Emend.Proofs.Edit.Idempotence
import Emend.Proofs.Edit.Invariant
import Emend.Proofs.Source.Assembly

/-!
# Mutations that make types refer to a class

Using a trait, setting a base type and implementing an interface are one edit with the kind of
the reference as a parameter. The kind says which types are to refer to the class (`wants`),
and one of them gets a reference when it has none yet (`asks`). `SourceUnit.referring` is that
edit of a whole unit with the imports that it needs, and a mutation that passes its check does
just this (`edit_eq_referring`); `apply_refers` counts what was added.

A trait does not use itself and a class does not extend itself, but whether a class would
implement itself nobody asks (`spares`).

Whether a reference is there is asked of each type, while the import of the class is checked
for each namespace, and first. So to ask for what is there already can fail, and `present_iff`
says when: where the class is written in full and its last segment means something else.
-/

set_option autoImplicit false

namespace Emend

open Mutation

/-! ## References -/

namespace ElementKind

/-- Whether types of this kind are to refer to the class. -/
def wants : ElementKind → TypeKind → Bool
  | traitUse => usesTraits
  | baseType => hasBases
  | implemented => (· == .class)
  | property | constant | method => fun _ => false

/-- Whether a type is left alone as the class itself. -/
def spares (kind : ElementKind) (name : String) (ns : Namespace) (decl : TypeDecl) : Bool :=
  kind != .implemented && isSelf ns decl name

/-- Whether a type is to get a reference: it is to refer to the class and does not yet. -/
def asks (kind : ElementKind) (name : String) (ns : Namespace) (decl : TypeDecl) : Bool :=
  kind.wants decl.kind && !kind.spares name ns decl && !(decl.names kind).any (sameClass · name)

end ElementKind

/-- The declaration with one more reference to a class. -/
def TypeDecl.refer (decl : TypeDecl) (name : String) : ElementKind → TypeDecl
  | .traitUse => { decl with traits := decl.traits.insert name (TraitUse.ofName name) }
  | .baseType => { decl with bases := decl.bases ++ [name] }
  | .implemented => { decl with interfaces := decl.interfaces ++ [name] }
  | .property | .constant | .method => decl

/-- The namespace in which every type that is to refer to the class does so, and in which the
class can be written. -/
def Namespace.referring (ns : Namespace) (kind : ElementKind) (name : String) : Namespace :=
  { ns with
    imports :=
      if declares kind.wants ns && !ns.needsNoImport name then
        ns.imports.insert (Name.short name) ⟨name, Name.short name, .type⟩
      else ns.imports
    types := ns.types.mapValues fun decl =>
      if kind.asks name ns decl then decl.refer name kind else decl }

@[simp] theorem Namespace.name_referring {ns : Namespace} {kind : ElementKind} {name : String} :
    (ns.referring kind name).name = ns.name :=
  rfl

theorem Namespace.types_referring {ns : Namespace} {kind : ElementKind} {name : String} :
    (ns.referring kind name).types =
      ns.types.mapValues fun decl => if kind.asks name ns decl then decl.refer name kind else decl :=
  rfl

namespace SourceUnit

/-- The unit in which every type that is to refer to the class does so. -/
def referring (unit : SourceUnit) (kind : ElementKind) (name : String) : SourceUnit :=
  { unit with namespaces := unit.namespaces.mapValues (·.referring kind name) }

def importCount (unit : SourceUnit) : Nat :=
  total (fun ns => ns.imports.size) unit.namespaces.values

def referenceCount (unit : SourceUnit) (kind : ElementKind) : Nat :=
  total (fun ns => total (fun decl => (decl.names kind).length) ns.types.values)
    unit.namespaces.values

end SourceUnit

/-- The mutation makes types refer to a class. -/
inductive Mutation.Refers : Mutation → ElementKind → String → Prop where
  | use_ (name : String) : Refers (.use_ name) .traitUse name
  | extend_ (name : String) : Refers (.extend_ name) .baseType name
  | implement_ (name : String) : Refers (.implement_ name) .implemented name

variable {m : Mutation} {kind : ElementKind} {name : String} {ns : Namespace} {decl : TypeDecl}

namespace Mutation.Refers

theorem className?_eq (refers : m.Refers kind name) : m.className? = some name := by
  cases refers <;> rfl

theorem reaches_eq (refers : m.Refers kind name) : m.reaches = declares kind.wants := by
  cases refers <;> rfl

theorem isReference (refers : m.Refers kind name) : kind.isReference = true := by
  cases refers <;> rfl

theorem wellFormed (refers : m.Refers kind name) (wf : Name.WellFormed name) : m.WellFormed := by
  cases refers <;> exact wf

theorem onNamespace_eq_both (refers : m.Refers kind name) :
    m.onNamespace = both (importInto name (declares kind.wants)) (editDecls m.declEdit) := by
  cases refers <;> rfl

/-- **The edit of one declaration.** For a class that is to get a base class, passing the check
means that it has none or this one. -/
theorem declEdit_eq (refers : m.Refers kind name)
    (keyed : decl.traits.KeyedBy TraitUse.name)
    (single : ∀ existing, decl.baseType? = some existing → kind = .baseType →
      isSelf ns decl name = true ∨ sameClass existing name = true) :
    m.declEdit ns decl =
      if kind.asks name ns decl then some (decl.refer name kind) else none := by
  cases refers with
  | use_ =>
      rw [declEdit, addTrait, keyed.keys_eq, ElementKind.asks, TypeDecl.names_traitUse]
      rfl
  | implement_ =>
      have asks : ElementKind.implemented.asks name ns decl =
          (decl.kind == .class && !decl.interfaces.any (sameClass · name)) := by
        rw [ElementKind.asks, TypeDecl.names_implemented]
        simp [ElementKind.wants, ElementKind.spares]
      rw [asks]
      rfl
  | extend_ =>
      have lacks : isSelf ns decl name = false →
          lacksBase name decl =
            (hasBases decl.kind && !decl.bases.any (sameClass · name)) := by
        intro other
        cases shape : decl.kind with
        | interface | trait => simp [lacksBase, hasBases, shape]
        | «class» =>
            cases given : decl.bases with
            | nil => simp [lacksBase, hasBases, shape, given]
            | cons existing rest =>
                have first := single existing (by simp [TypeDecl.baseType?, shape, given]) rfl
                simp only [other, Bool.false_eq_true, false_or] at first
                simp [lacksBase, hasBases, shape, given, first]
      rw [declEdit, addBase_eq, ElementKind.asks, TypeDecl.names_baseType]
      cases self : isSelf ns decl name with
      | true => simp [ElementKind.spares, self]
      | false =>
          rw [lacks self]
          simp [ElementKind.wants, ElementKind.spares, self]
          rfl

end Mutation.Refers

/-- Of the types that are the class itself one that implements interfaces is asked. -/
theorem ElementKind.asks_self_iff (refers : m.Refers kind name)
    (self : isSelf ns decl name = true) :
    kind.asks name ns decl = true ↔ kind = .implemented ∧ decl.kind = .class ∧
      decl.interfaces.any (sameClass · name) = false := by
  cases refers with
  | use_ | extend_ => simp [asks, spares, self]
  | implement_ =>
      rw [asks, TypeDecl.names_implemented]
      simp [wants, spares]

/-! ## What is added -/

theorem Name.Distinct.countP_eq_one {names : List String} (distinct : Name.Distinct names)
    {n : String} (listed : n ∈ names) (same : Text.sameIgnoringCase n name = true) :
    names.countP (Text.sameIgnoringCase · name) = 1 := by
  obtain ⟨before, after, rfl⟩ := List.append_of_mem listed
  obtain ⟨-, later, apart⟩ := List.pairwise_append.1 distinct
  have differ : ∀ other, Text.sameIgnoringCase n other = false ∨
      Text.sameIgnoringCase other n = false → ¬ Text.sameIgnoringCase other name = true := by
    intro other differ equal
    rw [Text.sameIgnoringCase_iff] at same equal
    simp only [Bool.eq_false_iff, ne_eq, Text.sameIgnoringCase_iff, same, equal] at differ
    simp at differ
  have absent : before.countP (Text.sameIgnoringCase · name) = 0 :=
    List.countP_eq_zero.2 fun other earlier =>
      differ other (Or.inr (apart other earlier n List.mem_cons_self))
  have absent' : after.countP (Text.sameIgnoringCase · name) = 0 :=
    List.countP_eq_zero.2 fun other inside =>
      differ other (Or.inl ((List.pairwise_cons.1 later).1 other inside))
  rw [List.countP_append, List.countP_cons, absent, absent', if_pos same]

/-- A type that gets a reference has it after those that it had. -/
theorem TypeDecl.names_refer (reference : kind.isReference = true)
    (keyed : decl.traits.KeyedBy TraitUse.name) (wf : Name.WellFormed name)
    (asked : kind.asks name ns decl = true) :
    (decl.refer name kind).names kind = decl.names kind ++ [name] := by
  cases kind with
  | property | constant | method => cases reference
  | baseType => rw [names_baseType, names_baseType, refer]
  | implemented => rw [names_implemented, names_implemented, refer]
  | traitUse =>
      simp only [ElementKind.asks, Bool.and_eq_true, Bool.not_eq_true'] at asked
      have absent : name ∉ decl.traits.keys := by
        rw [keyed.keys_eq, ← names_traitUse]
        exact fun listed => List.any_eq_false.1 asked.2 name listed (sameClass_self name)
      have written : (TraitUse.ofName name).name = name := by
        simp only [TraitUse.ofName, wf.normalize_eq]
      rw [names_traitUse, names_traitUse, refer, Table.values_insert_of_not_mem absent,
        List.map_append, List.map_singleton, written]

@[simp] theorem TypeDecl.kind_refer : (decl.refer name kind).kind = decl.kind := by
  cases kind <;> rfl

@[simp] theorem TypeDecl.name_refer : (decl.refer name kind).name = decl.name := by
  cases kind <;> rfl

/-- What a namespace declares is still of the kind that it was. -/
theorem Namespace.declares_referring (wanted : TypeKind → Bool) :
    declares wanted (ns.referring kind name) = declares wanted ns := by
  have same : ∀ decl : TypeDecl,
      (if kind.asks name ns decl then decl.refer name kind else decl).kind = decl.kind := by
    intro decl
    split
    · exact TypeDecl.kind_refer
    · rfl
  simp only [declares, referring, Table.values_mapValues, List.any_map, Function.comp_def, same]

/-- **A reference that every type is to have stands there once.** -/
theorem TypeDecl.countP_names_eq_one (reference : kind.isReference = true)
    (sound : decl.Sound) (stored : ∀ n ∈ decl.names kind, Name.Settled n)
    (wf : Name.WellFormed name) (wanted : kind.wants decl.kind = true)
    (other : kind.spares name ns decl = false) :
    ((if kind.asks name ns decl then decl.refer name kind else decl).names kind).countP
      (Text.sameIgnoringCase · name) = 1 := by
  have same : ∀ n ∈ decl.names kind, sameClass n name = Text.sameIgnoringCase n name := by
    intro n listed
    rw [sameClass, (stored n listed).normalize_eq, wf.normalize_eq]
  cases asked : kind.asks name ns decl with
  | true =>
      have fresh := asked
      simp only [ElementKind.asks, Bool.and_eq_true, Bool.not_eq_true', List.any_eq_false] at fresh
      have absent : (decl.names kind).countP (Text.sameIgnoringCase · name) = 0 :=
        List.countP_eq_zero.2 fun n listed => same n listed ▸ fresh.2 n listed
      rw [if_pos rfl, names_refer reference sound.traits wf asked, List.countP_append, absent]
      simp
  | false =>
      simp only [ElementKind.asks, wanted, other, Bool.not_false, Bool.and_self, Bool.true_and,
        Bool.not_eq_false'] at asked
      obtain ⟨n, listed, refers⟩ := List.any_eq_true.1 asked
      rw [same n listed] at refers
      exact (sound.once kind reference).countP_eq_one listed refers

/-- Whether it gets a reference or not, a type keeps its kind, its name and its references. -/
theorem TypeDecl.referring_keeps (reference : kind.isReference = true)
    (keyed : decl.traits.KeyedBy TraitUse.name) (wf : Name.WellFormed name) {decl' : TypeDecl}
    (became : (if kind.asks name ns decl then decl.refer name kind else decl) = decl') :
    decl'.kind = decl.kind ∧ decl'.name = decl.name ∧ decl.names kind ⊆ decl'.names kind := by
  subst became
  split
  · rename_i asked
    rw [names_refer reference keyed wf asked]
    exact ⟨kind_refer, name_refer, List.subset_append_left ..⟩
  · exact ⟨rfl, rfl, List.Subset.refl _⟩

/-! ## Namespaces -/

section Checked

variable (refers : m.Refers kind name) (wf : Name.WellFormed name) {u : SourceUnit}
  (checked : m.check u = .ok ()) (listed : ns ∈ u.namespaces.values)

include refers checked listed

/-- A class that is to get a base class has none, or this one. -/
theorem single_of_check (declared : decl ∈ ns.types.values) (existing : String)
    (base : decl.baseType? = some existing) (isBase : kind = .baseType) :
    isSelf ns decl name = true ∨ sameClass existing name = true := by
  cases refers with
  | extend_ =>
      have single := (check_eq_ok_iff.1 checked).2 name rfl
      exact checkSingleInheritance_eq_ok_iff.1 single ns listed decl declared existing base
  | use_ | implement_ => cases isBase

include wf

/-- **What the mutation does to a namespace**, and how many changes it counts. -/
theorem onNamespace_refers (keyed : ∀ decl ∈ ns.types.values, decl.traits.KeyedBy TraitUse.name) :
    m.onNamespace ns = (ns.referring kind name,
      (if declares kind.wants ns && !ns.needsNoImport name then 1 else 0) +
        (ns.types.values.filter (kind.asks name ns)).length) := by
  -- the types are edited after the import, which changes neither their namespace nor them
  have edits : ∀ ns', ns'.name = ns.name → ∀ decl ∈ ns.types.values, m.declEdit ns' decl =
      if kind.asks name ns decl then some (decl.refer name kind) else none := by
    intro ns' here decl declared
    have asked : kind.asks name ns' decl = kind.asks name ns decl := by
      simp only [ElementKind.asks, ElementKind.spares, isSelf_of_name_eq here]
    rw [← asked]
    refine refers.declEdit_eq (keyed decl declared) fun existing base isBase => ?_
    rw [isSelf_of_name_eq here]
    exact single_of_check refers checked listed declared existing base isBase
  have after : ∀ ns', ns'.name = ns.name → ns'.types = ns.types → editDecls m.declEdit ns' =
      ({ ns' with types := (ns.referring kind name).types },
        (ns.types.values.filter (kind.asks name ns)).length) := by
    intro ns' here types
    have values : ns.types.mapValues (fun decl => (m.declEdit ns' decl).getD decl) =
        (ns.referring kind name).types := by
      rw [Namespace.types_referring]
      refine Table.mapValues_congr fun decl declared => ?_
      rw [edits ns' here decl declared]
      split <;> rfl
    have counted : ns.types.values.filter (fun decl => (m.declEdit ns' decl).isSome) =
        ns.types.values.filter (kind.asks name ns) := by
      refine List.filter_congr fun decl declared => ?_
      rw [edits ns' here decl declared]
      cases kind.asks name ns decl <;> rfl
    simp only [editDecls, types, values, counted]
  rw [refers.onNamespace_eq_both, both,
    after _ (importInto_name name _ ns) (importInto_types name _ ns)]
  unfold importInto
  by_cases needed : (declares kind.wants ns && !ns.needsNoImport name) = true
  · rw [if_pos needed, ns.insertImport_ofName wf.settled, Namespace.referring, if_pos needed,
      if_pos needed]
  · rw [if_neg needed, Namespace.referring, if_neg needed, if_neg needed]

end Checked

/-- What was added to a namespace is what was counted. -/
theorem Namespace.size_referring (reference : kind.isReference = true) (sound : ns.Sound)
    (wf : Name.WellFormed name)
    (free : declares kind.wants ns = true → ns.needsNoImport name = false → Free ns name) :
    (ns.referring kind name).imports.size = ns.imports.size +
        (if declares kind.wants ns && !ns.needsNoImport name then 1 else 0) ∧
      total (fun decl => (decl.names kind).length) (ns.referring kind name).types.values =
        total (fun decl => (decl.names kind).length) ns.types.values +
          (ns.types.values.filter (kind.asks name ns)).length := by
  constructor
  · rw [referring]
    split
    · rename_i needed
      rw [Bool.and_eq_true, Bool.not_eq_true'] at needed
      have keyed : ns.imports.KeyedBy Import.localName := sound.imports .type
      have absent : Name.short name ∉ ns.imports.keys := by
        rw [keyed.keys_eq]
        intro listed
        obtain ⟨i, imported, taken⟩ := List.mem_map.1 listed
        exact (free needed.1 needed.2).aliases i imported (sound.kinds .type i imported)
          (congrArg Text.lower taken)
      rw [Table.size_insert_of_not_mem absent]
    · rfl
  · have keyed : ∀ decl ∈ ns.types.values, decl.traits.KeyedBy TraitUse.name :=
      fun decl declared => (sound.decls decl declared).traits
    rw [referring, Table.values_mapValues]
    generalize ns.types.values = decls at keyed
    induction decls with
    | nil => rfl
    | cons decl decls ih =>
        have rest := ih fun other declared => keyed other (List.mem_cons_of_mem _ declared)
        rw [List.map_cons, total_cons, total_cons, rest]
        cases asked : kind.asks name ns decl with
        | true =>
            rw [if_pos rfl, List.filter_cons_of_pos asked, List.length_cons,
              TypeDecl.names_refer reference (keyed decl List.mem_cons_self) wf asked,
              List.length_append, List.length_singleton]
            omega
        | false =>
            rw [if_neg Bool.false_ne_true, List.filter_cons_of_neg (by simp [asked])]
            omega

/-- **Afterwards the class can be written wherever a type is to refer to it**: this is its own
namespace, or the class is imported. -/
theorem Namespace.written_referring (wf : Name.WellFormed name)
    (noKeyword : Name.isBuiltinType name = false)
    (declared : declares kind.wants (ns.referring kind name) = true) :
    Text.sameIgnoringCase (Name.parent name) (ns.referring kind name).name = true ∨
      (ns.referring kind name).importsName name = true := by
  rw [declares_referring] at declared
  have needless : (ns.referring kind name).needsNoImport name = true := by
    cases needed : ns.needsNoImport name with
    | true =>
        have imports : (ns.referring kind name).imports = ns.imports := by
          simp only [referring, needed, Bool.not_true, Bool.and_false, Bool.false_eq_true, if_false]
        rw [needsNoImport_of_eq name_referring imports, needed]
    | false =>
        have imports : (ns.referring kind name).imports =
            (ns.insertImport (Import.ofName name)).imports := by
          simp only [referring, needed, declared, Bool.not_false, Bool.and_self, if_true,
            ns.insertImport_ofName wf.settled]
        have same : (ns.referring kind name).name = (ns.insertImport (Import.ofName name)).name := by
          rw [ns.insertImport_ofName wf.settled, name_referring]
        rw [needsNoImport_of_eq same imports, needsNoImport_insertImport ns wf]
  simp only [needsNoImport, noKeyword, Bool.false_or, Bool.or_eq_true] at needless
  exact needless

/-! ## Units -/

/-- In a unit that was read every used trait stands under its name. -/
theorem SourceUnit.traits_keyed_of_parse {source : String} {unit : SourceUnit}
    (read : parse source = .ok unit) :
    ∀ ns ∈ unit.namespaces.values, ∀ decl ∈ ns.types.values,
      decl.traits.KeyedBy TraitUse.name := by
  obtain ⟨entries, -, rfl⟩ := Declaration.entries_of_parse read
  intro ns listed decl declared
  rw [ofEntries, resolveReferences, mapTypes, Table.values_mapValues] at listed
  obtain ⟨written, -, rfl⟩ := List.mem_map.1 listed
  rw [Table.values_mapValues] at declared
  obtain ⟨before, -, rfl⟩ := List.mem_map.1 declared
  exact Table.keyedBy_rekey _ _

namespace Mutation

variable {u u' : SourceUnit} {changes : Nat}

/-- **A mutation that refers to a class does just this**: it adds the references that are asked
for and the imports that they need. -/
theorem edit_eq_referring (refers : m.Refers kind name) (wf : Name.WellFormed name)
    (keyed : ∀ ns ∈ u.namespaces.values, ∀ decl ∈ ns.types.values,
      decl.traits.KeyedBy TraitUse.name)
    (checked : m.check u = .ok ()) : (m.edit u).1 = u.referring kind name := by
  have namespaces : u.namespaces.mapValues (fun ns => (m.onNamespace ns).1) =
      u.namespaces.mapValues (·.referring kind name) :=
    Table.mapValues_congr fun ns listed => by
      rw [onNamespace_refers refers wf checked listed (keyed ns listed)]
  have plain : m.strictAfter u.strictTypes = u.strictTypes := by cases refers <;> rfl
  rw [edit_fst, namespaces, plain, SourceUnit.referring]

/-- **What is counted is what was added.** -/
theorem edit_count (refers : m.Refers kind name) (wf : Name.WellFormed name) (sound : u.Sound)
    (checked : m.check u = .ok ()) :
    (u.referring kind name).importCount + (u.referring kind name).referenceCount kind =
      u.importCount + u.referenceCount kind + (m.edit u).2 := by
  have keyed : ∀ ns ∈ u.namespaces.values, ∀ decl ∈ ns.types.values,
      decl.traits.KeyedBy TraitUse.name := fun ns listed decl declared =>
    ((sound.namespaces ns listed).decls decl declared).traits
  have each : ∀ ns ∈ u.namespaces.values,
      (ns.referring kind name).imports.size + total (fun decl => (decl.names kind).length)
          (ns.referring kind name).types.values =
        ns.imports.size + total (fun decl => (decl.names kind).length) ns.types.values +
          (m.onNamespace ns).2 := by
    intro ns listed
    have free : declares kind.wants ns = true → ns.needsNoImport name = false → Free ns name :=
      fun reached needed => (check_eq_ok_iff.1 checked).1 ns listed name
        (adds_eq_some_iff.2 ⟨refers.className?_eq, refers.reaches_eq ▸ reached, needed⟩)
    obtain ⟨imports, references⟩ :=
      Namespace.size_referring refers.isReference (sound.namespaces ns listed) wf free
    rw [imports, references, onNamespace_refers refers wf checked listed (keyed ns listed)]
    omega
  have counted : (m.edit u).2 = total (fun ns => (m.onNamespace ns).2) u.namespaces.values := by
    rw [edit_eq m u (by cases refers <;> simp)]
    rfl
  rw [counted]
  simp only [SourceUnit.importCount, SourceUnit.referenceCount, SourceUnit.referring,
    Table.values_mapValues, total_map, ← total_add]
  exact total_congr each

/-- **What a mutation that refers to a class does.** Where it succeeds, every type that is to
refer to the class and does not yet gets the reference, behind those that it has, every namespace
of such a type in which the class cannot be written gets the import, and nothing else changes.
Then the class is written, and referred to once, wherever it is to be, and what is counted is
what was added. Of the types that are the class itself just a class that is to implement itself
gets the reference. -/
theorem apply_refers (refers : m.Refers kind name) (wf : Name.WellFormed name)
    (noKeyword : Name.isBuiltinType name = false) (sound : u.Sound)
    (applied : m.apply u = .ok (u', changes)) :
    u' = u.referring kind name ∧
      (∀ ns ∈ u'.namespaces.values, declares kind.wants ns = true →
        Text.sameIgnoringCase (Name.parent name) ns.name = true ∨ ns.importsName name = true) ∧
      (∀ ns ∈ u'.namespaces.values, ∀ decl ∈ ns.types.values, kind.wants decl.kind = true →
        kind.spares name ns decl = false → decl.Stored →
        (decl.names kind).countP (Text.sameIgnoringCase · name) = 1) ∧
      u'.importCount + u'.referenceCount kind = u.importCount + u.referenceCount kind + changes ∧
      ∀ ns ∈ u.namespaces.values, ∀ decl ∈ ns.types.values, isSelf ns decl name = true →
        (kind.asks name ns decl = true ↔ kind = .implemented ∧ decl.kind = .class ∧
          decl.interfaces.any (sameClass · name) = false) := by
  obtain ⟨checked, edited⟩ := apply_eq_ok_iff.1 applied
  have keyed : ∀ ns ∈ u.namespaces.values, ∀ decl ∈ ns.types.values,
      decl.traits.KeyedBy TraitUse.name := fun ns listed decl declared =>
    ((sound.namespaces ns listed).decls decl declared).traits
  obtain rfl : u.referring kind name = u' := by
    rw [← edit_eq_referring refers wf keyed checked, edited]
  obtain rfl : (m.edit u).2 = changes := congrArg Prod.snd edited
  have before : ∀ ns' ∈ (u.referring kind name).namespaces.values,
      ∃ ns ∈ u.namespaces.values, ns.referring kind name = ns' := by
    intro ns' listed
    rw [SourceUnit.referring, Table.values_mapValues] at listed
    exact List.mem_map.1 listed
  refine ⟨rfl, ?_, ?_, edit_count refers wf sound checked, ?_⟩
  · intro ns' listed' declared
    obtain ⟨ns, -, rfl⟩ := before ns' listed'
    exact Namespace.written_referring wf noKeyword declared
  · intro ns' listed' decl' declared' wanted other stored
    obtain ⟨ns, listed, rfl⟩ := before ns' listed'
    rw [Namespace.types_referring, Table.values_mapValues] at declared'
    obtain ⟨decl, declared, became⟩ := List.mem_map.1 declared'
    have soundDecl := (sound.namespaces ns listed).decls decl declared
    obtain ⟨sameKind, sameName, kept⟩ :=
      TypeDecl.referring_keeps refers.isReference soundDecl.traits wf became
    have settled : ∀ n ∈ decl.names kind, Name.Settled n :=
      fun n inside => stored kind refers.isReference n (kept inside)
    have other' : kind.spares name ns decl = false := by
      rw [← other, ElementKind.spares, ElementKind.spares, isSelf, isSelf, sameName,
        Namespace.name_referring]
    rw [sameKind] at wanted
    rw [← became]
    exact TypeDecl.countP_names_eq_one refers.isReference soundDecl settled wf wanted other'
  · intro ns _ decl _ self
    exact ElementKind.asks_self_iff refers self

namespace Example

/-- Two classes, of which one is to be implemented. -/
def pair : SourceUnit :=
  { strictTypes := false
    namespaces := .ofList [("", { Namespace.ofName "" with
      types := .ofList [("A", .ofName .class "A"), ("B", .ofName .class "B")] })] }

/-- The class `A` implements itself, as the other one does. -/
theorem apply_refers_self :
    SourceUnit.parse "<?php class A{}class B{}" = .ok pair ∧
      ∃ u', (implement_ "A").apply pair = .ok (u', 2) ∧
        u' = pair.referring .implemented "A" ∧
        ∀ ns ∈ pair.namespaces.values, ∀ decl ∈ ns.types.values, isSelf ns decl "A" = true →
          ElementKind.implemented.asks "A" ns decl = true := by
  have applied : (implement_ "A").apply pair = .ok (((implement_ "A").edit pair).1, 2) :=
    apply_eq_ok_iff.2 ⟨by rfl, Prod.ext rfl (by decide +kernel)⟩
  obtain ⟨done, -, -, -, self⟩ :=
    apply_refers (.implement_ "A") (by decide +kernel) (by decide +kernel) (by decide +kernel) applied
  have classes : ∀ ns ∈ pair.namespaces.values, ∀ decl ∈ ns.types.values,
      decl.kind = .class ∧ decl.interfaces.any (sameClass · "A") = false := by decide +kernel
  refine ⟨by decide +kernel, _, applied, done, fun ns listed decl declared isIt => ?_⟩
  exact (self ns listed decl declared isIt).2 ⟨rfl, classes ns listed decl declared⟩

end Example

/-! ## Asking for what is there -/

theorem check_refers_iff (refers : m.Refers kind name) :
    m.check u = .ok () ↔
      (∀ ns ∈ u.namespaces.values, declares kind.wants ns = true →
        ns.needsNoImport name = false → Free ns name) ∧
      (kind = .baseType → ∀ ns ∈ u.namespaces.values, ∀ decl ∈ ns.types.values, ∀ first,
        decl.baseType? = some first → isSelf ns decl name = true ∨ sameClass first name = true) := by
  rw [check_eq_ok_iff]
  refine and_congr (forall_congr' fun ns => forall_congr' fun _ => ?_) ?_
  · simp only [adds_eq_some_iff, refers.className?_eq, refers.reaches_eq, Option.some.injEq]
    constructor
    · exact fun free reached needed => free name ⟨rfl, reached, needed⟩
    · rintro free class_ ⟨rfl, reached, needed⟩
      exact free reached needed
  · cases refers with
    | use_ | implement_ => simp
    | extend_ =>
        rw [← checkSingleInheritance_eq_ok_iff]
        exact ⟨fun single _ => single name rfl, fun single base same => by
          cases same
          exact single rfl⟩

/-- **To ask for what is there.** Where every type that is to refer to a class does, the mutation
succeeds exactly when every namespace of such a type can write the class or can import it, and,
for a base type, when it is the first one of each class. Then no type is changed. -/
theorem apply_present (refers : m.Refers kind name) {source : String}
    (read : SourceUnit.parse source = .ok u)
    (present : ∀ ns ∈ u.namespaces.values, ∀ decl ∈ ns.types.values, kind.wants decl.kind = true →
      kind.spares name ns decl = false → (decl.names kind).any (sameClass · name) = true) :
    ((∃ result, m.apply u = .ok result) ↔
      (∀ ns ∈ u.namespaces.values, declares kind.wants ns = true →
        ns.needsNoImport name = false → Free ns name) ∧
      (kind = .baseType → ∀ ns ∈ u.namespaces.values, ∀ decl ∈ ns.types.values, ∀ first,
        decl.baseType? = some first → isSelf ns decl name = true ∨ sameClass first name = true)) ∧
      ∀ u' changes, m.apply u = .ok (u', changes) →
        u'.namespaces.mapValues Namespace.types = u.namespaces.mapValues Namespace.types := by
  constructor
  · rw [← check_refers_iff refers]
    constructor
    · rintro ⟨result, applied⟩
      exact (apply_eq_ok_iff.1 applied).1
    · exact fun checked => ⟨m.edit u, apply_eq_ok_iff.2 ⟨checked, rfl⟩⟩
  · intro u' changes applied
    obtain ⟨checked, edited⟩ := apply_eq_ok_iff.1 applied
    obtain rfl : (m.edit u).1 = u' := congrArg Prod.fst edited
    rw [edit_fst, Table.mapValues_mapValues]
    refine Table.mapValues_congr fun ns listed => ?_
    rw [onNamespace_fst]
    refine Table.mapValues_eq_self fun decl declared => ?_
    have settled : kind.asks name ns decl = false := by
      cases asked : kind.asks name ns decl with
      | false => rfl
      | true =>
          simp only [ElementKind.asks, Bool.and_eq_true, Bool.not_eq_true'] at asked
          obtain ⟨⟨wanted, other⟩, absent⟩ := asked
          rw [present ns listed decl declared wanted other] at absent
          cases absent
    have keyed := SourceUnit.traits_keyed_of_parse read ns listed decl declared
    have single := single_of_check refers checked listed declared
    rw [declAfter, refers.declEdit_eq keyed single, settled, if_neg Bool.false_ne_true, Option.getD_none]

namespace Example

/-- A class that extends another class of its name, written in full. -/
def namesake : SourceUnit :=
  { strictTypes := false
    namespaces := .ofList [("A", { Namespace.ofName "A" with
      types := .ofList [("U", { TypeDecl.ofName .class "U" with bases := ["B\\U"] })] })] }

/-- To ask for the base class that it has fails: the class cannot be imported. -/
theorem apply_present_namesake :
    SourceUnit.parse "<?php namespace A;class U extends \\B\\U{}" = .ok namesake ∧
      (∀ ns ∈ namesake.namespaces.values, ∀ decl ∈ ns.types.values,
        (decl.names .baseType).any (sameClass · "B\\U") = true) ∧
      ¬ ∃ result, (extend_ "B\\U").apply namesake = .ok result := by
  have read : SourceUnit.parse "<?php namespace A;class U extends \\B\\U{}" = .ok namesake := by
    decide +kernel
  have present : ∀ ns ∈ namesake.namespaces.values, ∀ decl ∈ ns.types.values,
      (decl.names .baseType).any (sameClass · "B\\U") = true := by decide +kernel
  have exactly := (apply_present (.extend_ "B\\U") read fun ns listed decl declared _ _ =>
    present ns listed decl declared).1
  refine ⟨read, present, fun succeeds => ?_⟩
  have taken : ∃ ns ∈ namesake.namespaces.values, declares hasBases ns = true ∧
      ns.needsNoImport "B\\U" = false ∧
      ∃ key ∈ ns.types.keys, Text.lower key = Text.lower (Name.short "B\\U") := by decide +kernel
  obtain ⟨ns, listed, declared, needed, key, held, same⟩ := taken
  exact ((exactly.1 succeeds).1 ns listed declared needed).types key held same

end Example

end Mutation

end Emend

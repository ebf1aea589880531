import Emend.Edit.Element
import Emend.Proofs.Table

/-!
# The names of the elements of a type

`modify` changes elements and then puts the names in order. What it does to the
names of the references of a type, kind by kind:

* `mem_names_mapElements`: a changed name comes from the transform or was there;
* `names_normalizeNames`: every reference is normalized;
* `names_rekey`: keying the members by different names loses none.

`duplicateIn?_eq_none_iff` and `collision?_eq_none_iff` say what is ruled out when
no duplicate is found.
-/

set_option autoImplicit false

namespace Emend

namespace TypeDecl

def names (decl : TypeDecl) (kind : ElementKind) : List String :=
  (decl.elements kind).map Element.name

variable {decl : TypeDecl} {kind other : ElementKind}

theorem names_property : decl.names .property = decl.properties.values.map Property.name := by
  simp [names, elements, Element.name, Function.comp_def]

theorem names_constant : decl.names .constant = decl.constants.values.map Constant.name := by
  simp [names, elements, Element.name, Function.comp_def]

theorem names_method : decl.names .method = decl.methods.values.map Method.name := by
  simp [names, elements, Element.name, Function.comp_def]

theorem names_traitUse : decl.names .traitUse = decl.traits.values.map TraitUse.name := by
  simp [names, elements, Element.name, Function.comp_def]

theorem names_baseType : decl.names .baseType = decl.bases := by
  simp [names, elements, Element.name, Function.comp_def]

theorem names_implemented : decl.names .implemented = decl.interfaces := by
  simp [names, elements, Element.name, Function.comp_def]

theorem kind_of_mem_elements {e : Element} (element : e ∈ decl.elements kind) : e.kind = kind := by
  cases kind <;> simp only [elements, List.mem_map] at element <;> obtain ⟨_, -, rfl⟩ := element <;>
    rfl

/-! ## Duplicates -/

theorem duplicateIn?_eq_none_iff {seen names : List String} :
    duplicateIn? kind seen names = none ↔
      (∀ earlier ∈ seen, ∀ name ∈ names, kind.sameName earlier name = false) ∧
        names.Pairwise fun a b => kind.sameName a b = false := by
  induction names generalizing seen with
  | nil => simp [duplicateIn?]
  | cons name names ih =>
      rw [duplicateIn?]
      by_cases taken : seen.any (kind.sameName · name) = true
      · rw [if_pos taken]
        obtain ⟨earlier, listed, same⟩ := List.any_eq_true.1 taken
        simp only [reduceCtorEq, false_iff, not_and]
        intro free
        rw [free earlier listed name (List.mem_cons_self ..)] at same
        cases same
      · rw [if_neg taken, ih, List.pairwise_cons]
        simp only [List.any_eq_true, not_exists, not_and, Bool.not_eq_true] at taken
        simp only [List.mem_cons, forall_eq_or_imp]
        constructor
        · rintro ⟨⟨first, free⟩, rest⟩
          exact ⟨fun earlier listed => ⟨taken earlier listed, free earlier listed⟩, first, rest⟩
        · rintro ⟨free, first, rest⟩
          exact ⟨⟨first, fun earlier listed => (free earlier listed).2⟩, rest⟩

theorem duplicate?_eq_none_iff :
    decl.duplicate? kind = none ↔
      (decl.names kind).Pairwise fun a b => kind.sameName a b = false := by
  rw [duplicate?, ← names, duplicateIn?_eq_none_iff]
  simp

/-! ## Changing names -/

section

variable (decl) (kind) (f : Element → Element)

@[simp] theorem name_mapElements : (decl.mapElements kind f).name = decl.name := by
  cases kind <;> rfl

@[simp] theorem kind_mapElements : (decl.mapElements kind f).kind = decl.kind := by
  cases kind <;> rfl

@[simp] theorem length_bases_mapElements :
    (decl.mapElements kind f).bases.length = decl.bases.length := by
  cases kind <;> simp [mapElements]

end

theorem names_normalizeNames (reference : kind.isReference = true) :
    decl.normalizeNames.names kind = (decl.names kind).map Name.normalize := by
  cases kind with
  | traitUse | baseType | implemented =>
      simp [names, elements, normalizeNames, Element.name, Function.comp_def]
  | property | constant | method => cases reference

theorem names_mapElements_of_ne (ne : other ≠ kind) (f : Element → Element) :
    (decl.mapElements kind f).names other = decl.names other := by
  cases kind <;> cases other <;> first | rfl | exact absurd rfl ne

theorem mem_names_mapElements (reference : kind.isReference = true) {f : Element → Element}
    {name : String} (listed : name ∈ (decl.mapElements kind f).names kind) :
    ∃ e ∈ decl.elements kind, (f e).name = name ∨ e.name = name := by
  cases kind with
  | traitUse =>
      simp only [names, elements, mapElements, Table.values_mapValues, List.map_map,
        List.mem_map] at listed
      obtain ⟨t, used, rfl⟩ := listed
      refine ⟨.traitUse t, List.mem_map_of_mem used, ?_⟩
      simp only [Function.comp_apply, Element.onTraitUse]
      split
      · rename_i changed answer
        exact Or.inl (congrArg Element.name answer)
      · exact Or.inr rfl
  | baseType | implemented =>
      simp only [names, elements, mapElements, List.map_map, List.mem_map] at listed
      obtain ⟨base, written, rfl⟩ := listed
      exact ⟨_, List.mem_map_of_mem written, Or.inl rfl⟩
  | property | constant | method => cases reference

theorem names_rekey (reference : kind.isReference = true)
    (distinct : (decl.names .traitUse).Nodup) : decl.rekey.names kind = decl.names kind := by
  cases kind with
  | traitUse =>
      rw [names_traitUse] at distinct
      simp only [names, elements, rekey, Table.values_rekey distinct]
  | baseType | implemented => rfl
  | property | constant | method => cases reference

end TypeDecl

namespace SourceUnit

theorem mapTypes_mapTypes (unit : SourceUnit) (f : Namespace → TypeDecl → TypeDecl)
    (g : TypeDecl → TypeDecl) :
    (unit.mapTypes f).mapTypes (fun _ => g) = unit.mapTypes fun ns decl => g (f ns decl) := by
  simp only [mapTypes, Table.mapValues_mapValues]

theorem collision?_eq_none_iff {unit : SourceUnit} {kind : ElementKind} :
    unit.collision? kind = none ↔
      ∀ ns ∈ unit.namespaces.values, ∀ decl ∈ ns.types.values, decl.duplicate? kind = none := by
  simp only [collision?, List.findSome?_eq_none_iff, Option.map_eq_none_iff]

theorem mem_find {unit : SourceUnit} {kind : ElementKind} {query : String} {located : Located}
    (found : located ∈ unit.find kind query) :
    ∃ ns ∈ unit.namespaces.values, ∃ decl ∈ ns.types.values,
      located.namespaceName = ns.name ∧ located.element ∈ decl.elements kind := by
  simp only [find, List.mem_flatMap, List.mem_map, List.mem_filter] at found
  obtain ⟨ns, listed, decl, declared, e, ⟨element, -⟩, rfl⟩ := found
  exact ⟨ns, listed, decl, declared, rfl, element⟩

def changeAt (kind : ElementKind) (query : String) (transform : Located → Element) (ns : Namespace)
    (decl : TypeDecl) (e : Element) : Element :=
  if kind.answers e.name query then transform ⟨ns.name, decl.name, e⟩ else e

/-- The declaration with its elements changed and its names in stored form. -/
def changed (kind : ElementKind) (query : String) (transform : Located → Element)
    (ns : Namespace) (decl : TypeDecl) : TypeDecl :=
  (decl.mapElements kind (changeAt kind query transform ns decl)).normalizeNames

/-- Import what the transform refers to, reference after reference. -/
def importAll (transform : Located → Element) (unit : SourceUnit) (references : List Located) :
    SourceUnit :=
  references.foldl (fun unit located => unit.updateNamespace located.namespaceName
    (·.importReference (Name.normalize (transform located).name))) unit

/-- **What `modify` can do**: nothing, or a change without duplicates, after which
the members are keyed anew and references are imported. -/
theorem modify_cases {unit unit' : SourceUnit} {kind : ElementKind} {query : String}
    {transform : Located → Element} {visited : Nat}
    (modified : unit.modify kind query transform = .ok (unit', visited)) :
    (unit.find kind query = [] ∧ unit' = unit ∧ visited = 0) ∨
      ((∀ ns ∈ unit.namespaces.values, ∀ decl ∈ ns.types.values,
          (changed kind query transform ns decl).duplicate? kind = none) ∧
        unit' = importAll transform
          (unit.mapTypes fun ns decl => (changed kind query transform ns decl).rekey)
          (if kind.isReference then unit.find kind query else []) ∧
        visited = (unit.find kind query).length) := by
  simp only [modify] at modified
  split at modified
  · rename_i empty
    cases modified
    exact Or.inl ⟨List.isEmpty_iff.1 empty, rfl, rfl⟩
  · split at modified
    · cases modified
    · rename_i free
      cases modified
      refine Or.inr ⟨fun ns listed decl declared => ?_, ?_, rfl⟩
      · refine collision?_eq_none_iff.1 free
          { ns with types := ns.types.mapValues (changed kind query transform ns) } ?_ _ ?_
        · rw [mapTypes, Table.values_mapValues]
          exact List.mem_map_of_mem (f := fun ns : Namespace =>
            { ns with types := ns.types.mapValues (changed kind query transform ns) }) listed
        · rw [Table.values_mapValues]
          exact List.mem_map_of_mem declared
      · rw [mapTypes_mapTypes]
        rfl

end SourceUnit

end Emend

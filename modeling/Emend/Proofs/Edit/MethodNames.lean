import Emend.Proofs.Edit.Footprint
import Emend.Proofs.Edit.Invariant

/-!
# Names of methods along a run of edits

The names of methods do not differ by case, but the table of the methods of a type keeps
them as they are written. A change of elements looks for two methods of one name in any
case before it is made. A mutation that adds a method looks for a method of the same
spelling only: beside `foo` it adds `FOO`, and a change that leaves the two of them is
refused from then on.

`AddsApart` is what such a mutation would have to check. `run_methodsDistinct_iff` is one
step: no other edit brings two names together, and this one does unless it `AddsApart`.
`methodsDistinct_along_iff` is a whole run.
-/

set_option autoImplicit false

namespace Emend

/-- In every type the names of the methods are different, in any case. -/
def SourceUnit.MethodsDistinct (unit : SourceUnit) : Prop :=
  ∀ decl ∈ unit.types, Name.Distinct (decl.names .method)

instance (unit : SourceUnit) : Decidable unit.MethodsDistinct :=
  inferInstanceAs (Decidable (∀ decl ∈ unit.types, _))

namespace TypeDecl

variable {decl : TypeDecl}

theorem names_method_rekey (distinct : Name.Distinct (decl.names .method)) :
    decl.rekey.names .method = decl.names .method := by
  have nodup := distinct.nodup
  rw [names_method] at nodup ⊢
  rw [names_method]
  exact congrArg (List.map Method.name) (Table.values_rekey nodup)

theorem names_method_added (added : Method) (absent : added.name ∉ decl.methods.keys)
    (ns : Namespace) :
    ((Mutation.method added).declAfter ns decl).names .method =
      decl.names .method ++ [added.name] := by
  have edited := Mutation.addMethod_eq_some_iff.2 ⟨absent, rfl⟩
  have after : (Mutation.method added).declAfter ns decl =
      { decl with
        methods := decl.methods.insert added.name (Mutation.methodFor added decl) } := by
    show (Mutation.addMethod added decl).getD decl = _
    rw [edited, Option.getD_some]
  rw [after, names_method, names_method, Table.values_insert_of_not_mem absent, List.map_append,
    List.map_singleton, Mutation.methodFor_name]

theorem distinct_method_added_iff (distinct : Name.Distinct (decl.names .method))
    (added : Method) (ns : Namespace) :
    Name.Distinct (((Mutation.method added).declAfter ns decl).names .method) ↔
      (added.name ∉ decl.methods.keys →
        ∀ name ∈ decl.names .method, Text.sameIgnoringCase name added.name = false) := by
  by_cases present : added.name ∈ decl.methods.keys
  · have same : (Mutation.method added).declAfter ns decl = decl := by
      show (Mutation.addMethod added decl).getD decl = decl
      rw [Mutation.addMethod_eq, if_pos (Table.contains_iff.2 present), Option.getD_none]
    rw [same]
    exact ⟨fun _ absent => absurd present absent, fun _ => distinct⟩
  · rw [names_method_added added present, Name.Distinct, List.pairwise_append]
    constructor
    · rintro ⟨-, -, apart⟩ - name listed
      exact apart name listed added.name (List.mem_singleton_self _)
    · intro apart
      refine ⟨distinct, List.pairwise_singleton .., fun name listed last isLast => ?_⟩
      rw [List.mem_singleton.1 isLast]
      exact apart present name listed

end TypeDecl

theorem Namespace.types_importReference (ns : Namespace) (name : String) :
    (ns.importReference name).types = ns.types := by
  unfold importReference
  dsimp only
  split <;> rfl

namespace SourceUnit

variable {u : SourceUnit}

theorem mem_types {decl : TypeDecl} :
    decl ∈ u.types ↔ ∃ ns ∈ u.namespaces.values, decl ∈ ns.types.values := by
  simp only [types, List.mem_flatMap]

theorem mem_types_edit {m : Mutation} {after : TypeDecl} :
    after ∈ (m.edit u).1.types ↔
      ∃ ns ∈ u.namespaces.values, ∃ decl ∈ ns.types.values, m.declAfter ns decl = after := by
  simp only [mem_types, Mutation.mem_namespaces_edit, exists_exists_and_eq_and,
    Mutation.values_types_onNamespace, List.mem_map]

theorem mem_types_mapTypes {f : Namespace → TypeDecl → TypeDecl} {after : TypeDecl} :
    after ∈ (u.mapTypes f).types ↔
      ∃ ns ∈ u.namespaces.values, ∃ decl ∈ ns.types.values, f ns decl = after := by
  simp only [mem_types, mapTypes, Table.values_mapValues, List.mem_map, exists_exists_and_eq_and]

/-! ## Imports declare nothing -/

theorem types_updateNamespace_subset {name : String} {g : Namespace → Namespace}
    (kept : ∀ ns, (g ns).types = ns.types) : (u.updateNamespace name g).types ⊆ u.types := by
  intro decl declared
  obtain ⟨ns, listed, inside⟩ := mem_types.1 declared
  rcases Table.mem_values_insert listed with rfl | before
  · rw [kept] at inside
    cases found : u.namespaces.get? (Name.normalize name) with
    | some there =>
        rw [found, Option.getD_some] at inside
        have key := Table.get?_eq_some_iff.1 found
        exact mem_types.2 ⟨there, Table.mem_values.2 ⟨_, key⟩, inside⟩
    | none =>
        rw [found, Option.getD_none] at inside
        cases inside
  · exact mem_types.2 ⟨ns, before, inside⟩

theorem types_importAll_subset (transform : Located → Element) (references : List Located) :
    (importAll transform u references).types ⊆ u.types := by
  induction references generalizing u with
  | nil => exact List.Subset.refl _
  | cons located references ih =>
      have first : (u.updateNamespace located.namespaceName
          (·.importReference (Name.normalize (transform located).name))).types ⊆ u.types :=
        types_updateNamespace_subset fun ns => ns.types_importReference _
      exact List.Subset.trans ih first

/-! ## One edit -/

theorem methodsDistinct_edit_iff {m : Mutation} :
    (m.edit u).1.MethodsDistinct ↔
      ∀ ns ∈ u.namespaces.values, ∀ decl ∈ ns.types.values,
        Name.Distinct ((m.declAfter ns decl).names .method) := by
  simp only [MethodsDistinct, mem_types_edit, forall_exists_index, and_imp]
  constructor
  · intro distinct ns listed decl declared
    exact distinct _ ns listed decl declared rfl
  · rintro distinct _ ns listed decl declared rfl
    exact distinct ns listed decl declared

/-- A mutation that edits no methods keeps their names. -/
theorem MethodsDistinct.edit (distinct : u.MethodsDistinct) {m : Mutation}
    (others : m.part? ≠ some .methods) : (m.edit u).1.MethodsDistinct := by
  refine methodsDistinct_edit_iff.2 fun ns listed decl declared => ?_
  have methods : (m.declAfter ns decl).methods = decl.methods :=
    Mutation.get_declAfter others ns decl
  rw [TypeDecl.names_method, methods, ← TypeDecl.names_method]
  exact distinct decl (mem_types.2 ⟨ns, listed, declared⟩)

/-- **A change of elements keeps the names of methods different**: it is refused where two
methods get one name, and where it changes no methods it does not touch their names. -/
theorem MethodsDistinct.modify (distinct : u.MethodsDistinct) {kind : ElementKind}
    {query : String} {transform : Located → Element} {u' : SourceUnit} {visited : Nat}
    (modified : u.modify kind query transform = .ok (u', visited)) : u'.MethodsDistinct := by
  rcases modify_cases modified with ⟨-, rfl, -⟩ | ⟨free, rfl, -⟩
  · exact distinct
  · intro after declaredAfter
    obtain ⟨ns, listed, decl, declared, rfl⟩ :=
      mem_types_mapTypes.1 (types_importAll_subset transform _ declaredAfter)
    have changed : Name.Distinct ((changed kind query transform ns decl).names .method) := by
      by_cases here : kind = .method
      · subst here
        exact TypeDecl.duplicate?_eq_none_iff.1 (free ns listed decl declared)
      · have kept : (decl.mapElements kind (changeAt kind query transform ns decl)).names .method =
            decl.names .method := TypeDecl.names_mapElements_of_ne (Ne.symm here) _
        have before := distinct decl (mem_types.2 ⟨ns, listed, declared⟩)
        rw [← kept] at before
        exact before
    rw [TypeDecl.names_method_rekey changed]
    exact changed

end SourceUnit

namespace EditStep

def AddsApart (unit : SourceUnit) : EditStep → Prop
  | mutate (.method added) => ∀ ns ∈ unit.namespaces.values, ∀ decl ∈ ns.types.values,
      added.name ∉ decl.methods.keys →
        ∀ name ∈ decl.names .method, Text.sameIgnoringCase name added.name = false
  | _ => True

/-- **One step**: the names of methods stay different unless a method is added whose name
is there in another case. -/
theorem run_methodsDistinct_iff {unit : SourceUnit} (distinct : unit.MethodsDistinct)
    (step : EditStep) : (run unit step).MethodsDistinct ↔ AddsApart unit step := by
  cases step with
  | modify kind query transform =>
      refine iff_of_true ?_ trivial
      unfold run
      split
      · rename_i modified
        exact distinct.modify modified
      · exact distinct
  | mutate m =>
      by_cases added : ∃ method, m = .method method
      · obtain ⟨method, rfl⟩ := added
        show ((Mutation.method method).edit unit).1.MethodsDistinct ↔ _
        rw [SourceUnit.methodsDistinct_edit_iff]
        refine forall_congr' fun ns => forall_congr' fun listed => forall_congr' fun decl =>
          forall_congr' fun declared => ?_
        have before := distinct decl (SourceUnit.mem_types.2 ⟨ns, listed, declared⟩)
        exact TypeDecl.distinct_method_added_iff before method ns
      · have others : m.part? ≠ some .methods ∧ AddsApart unit (mutate m) := by
          cases m with
          | method method => exact absurd ⟨method, rfl⟩ added
          | _ => exact ⟨by simp [Mutation.part?], trivial⟩
        refine iff_of_true ?_ others.2
        unfold run
        split
        · rename_i edited changes applied
          obtain rfl : (m.edit unit).1 = edited :=
            congrArg Prod.fst (Mutation.apply_eq_ok_iff.1 applied).2
          exact distinct.edit others.1
        · exact distinct

/-- A property of every step of a run and of the unit that it is made on. -/
def Along (P : SourceUnit → EditStep → Prop) : SourceUnit → List EditStep → Prop
  | _, [] => True
  | unit, step :: steps => P unit step ∧ Along P (run unit step) steps

/-- An invariant that each step keeps exactly under a condition holds throughout a run
exactly when the condition holds along it. -/
theorem along_iff_of_step {I : SourceUnit → Prop} {P : SourceUnit → EditStep → Prop}
    (keeps : ∀ {unit}, I unit → ∀ step, I (run unit step) ↔ P unit step) {unit : SourceUnit}
    (start : I unit) (steps : List EditStep) :
    (∀ taken, taken <+: steps → I (runAll unit taken)) ↔ Along P unit steps := by
  induction steps generalizing unit with
  | nil =>
      refine iff_of_true (fun taken before => ?_) trivial
      rw [List.prefix_nil.1 before]
      exact start
  | cons step steps ih =>
      constructor
      · intro throughout
        have once : I (run unit step) :=
          throughout [step] ((List.prefix_cons_inj step).2 (List.nil_prefix ..))
        refine ⟨(keeps start step).1 once, (ih once).1 fun taken before => ?_⟩
        exact throughout (step :: taken) ((List.prefix_cons_inj step).2 before)
      · rintro ⟨first, rest⟩ taken before
        have once : I (run unit step) := (keeps start step).2 first
        rcases List.prefix_cons_iff.1 before with rfl | ⟨later, rfl, inside⟩
        · exact start
        · exact (ih once).2 rest later inside

/-- **The names of methods along a run.** From a unit in which they are different in any
case, they stay so throughout a run of edits exactly when no step adds a method beside one
of its name in another case. -/
theorem methodsDistinct_along_iff {unit : SourceUnit} (distinct : unit.MethodsDistinct)
    (steps : List EditStep) :
    (∀ taken, taken <+: steps → (runAll unit taken).MethodsDistinct) ↔
      Along AddsApart unit steps :=
  along_iff_of_step run_methodsDistinct_iff distinct steps

namespace Example

def oneMethod : SourceUnit :=
  { strictTypes := false
    namespaces := .ofList [("App", { Namespace.ofName "App" with
      types := .ofList [("A", { TypeDecl.ofName .class "A" with
        methods := .ofList [("foo", .ofName "foo")] })] })] }

def rename (name : String) (located : Located) : Element :=
  match located.element with
  | .method m => .method { m with name := name }
  | other => other

/-- A method `FOO` is added after `foo` was renamed, or beside it. -/
theorem methodsDistinct_along_renamed :
    oneMethod.MethodsDistinct ∧
      (∀ taken, taken <+: [.modify .method "foo" (rename "bar"), .mutate (.method (.ofName "FOO"))] →
        (runAll oneMethod taken).MethodsDistinct) ∧
      ¬ ∀ taken, taken <+: [.mutate (.method (.ofName "FOO"))] →
        (runAll oneMethod taken).MethodsDistinct := by
  have distinct : oneMethod.MethodsDistinct := by decide +kernel
  refine ⟨distinct, (methodsDistinct_along_iff distinct _).2 ⟨trivial, ?_, trivial⟩, ?_⟩
  · unfold AddsApart
    decide +kernel
  · rw [methodsDistinct_along_iff distinct]
    rintro ⟨apart, -⟩
    unfold AddsApart at apart
    revert apart
    decide +kernel

end Example

end EditStep

end Emend

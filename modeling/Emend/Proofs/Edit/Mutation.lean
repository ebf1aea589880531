import Emend.Edit.Mutation
import Emend.Proofs.Name
import Emend.Proofs.SourceUnit

/-!
# What a mutation does to one namespace

A mutation edits every namespace of a unit on its own: `onNamespace` is that edit,
an import that may be needed and then an edit of each declared type. Everything
about `edit` is said here once per namespace, and everything about `check` as
what it rules out:

* `edit_eq`: `edit` is `onNamespace` everywhere;
* `apply_eq_ok_iff`: a mutation is applied exactly when it passes its check;
* `importConflict?_eq_none_iff` and `checkSingleInheritance_eq_ok_iff`: what a
  passed check means.
-/

set_option autoImplicit false

namespace Emend

theorem total_eq_zero_iff {α : Type} {f : α → Nat} {xs : List α} :
    total f xs = 0 ↔ ∀ x ∈ xs, f x = 0 := by
  induction xs with
  | nil => simp
  | cons x xs ih => simp [ih]

theorem total_add {α : Type} (f g : α → Nat) (xs : List α) :
    total (fun x => f x + g x) xs = total f xs + total g xs := by
  induction xs with
  | nil => rfl
  | cons x xs ih =>
      simp only [total_cons, ih]
      omega

theorem total_congr {α : Type} {f g : α → Nat} {xs : List α} (same : ∀ x ∈ xs, f x = g x) :
    total f xs = total g xs := by
  induction xs with
  | nil => rfl
  | cons x xs ih =>
      rw [total_cons, total_cons, same x List.mem_cons_self,
        ih fun y member => same y (List.mem_cons_of_mem _ member)]

theorem total_map {α β : Type} (f : β → Nat) (g : α → β) (xs : List α) :
    total f (xs.map g) = total (fun x => f (g x)) xs := by
  induction xs with
  | nil => rfl
  | cons x xs ih => simp [ih]

/-! ## Names in another case -/

theorem Import.ofName_eq {name : String} (settled : Name.Settled name) :
    Import.ofName name = ⟨name, Name.short name, .type⟩ := by
  simp only [Import.ofName, Import.aliased, settled.normalize_eq, settled.trim_short]

namespace Namespace

theorem insertImport_ofName (ns : Namespace) {name : String} (settled : Name.Settled name) :
    ns.insertImport (Import.ofName name) =
      { ns with imports := ns.imports.insert (Name.short name) ⟨name, Name.short name, .type⟩ } := by
  simp only [insertImport, Import.ofName_eq settled]

theorem importsName_iff {ns : Namespace} {name : String} :
    ns.importsName name = true ↔
      ∃ i ∈ ns.imports.values, i.kind = .type ∧
        Text.lower i.name = Text.lower (Name.normalize name) := by
  simp [importsName, Scope.importedAs?, scope]

theorem needsNoImport_congr (ns : Namespace) {a b : String} (same : Text.lower a = Text.lower b) :
    ns.needsNoImport a = ns.needsNoImport b := by
  rw [Bool.eq_iff_iff]
  simp only [needsNoImport, Bool.or_eq_true, Text.sameIgnoringCase_iff, importsName_iff,
    Name.isBuiltinType_congr same, Name.lower_parent, Name.lower_normalize, same]

/-- Whether a class needs an import depends on the namespace and its imports. -/
theorem needsNoImport_of_eq {a b : Namespace} (name : a.name = b.name)
    (imports : a.imports = b.imports) (class_ : String) :
    a.needsNoImport class_ = b.needsNoImport class_ := by
  simp only [needsNoImport, importsName, scope, name, imports]

theorem needsNoImport_of_beq {a b : Namespace} (name : a.name = b.name)
    (imports : (a.imports == b.imports) = true) {class_ : String}
    (reads : a.needsNoImport class_ = true) : b.needsNoImport class_ = true := by
  simp only [needsNoImport, Bool.or_eq_true, importsName_iff] at reads ⊢
  rcases reads with written | ⟨i, listed, found⟩
  · exact Or.inl (name ▸ written)
  · obtain ⟨key, entry⟩ := Table.mem_values.1 listed
    exact Or.inr ⟨i, Table.mem_values.2 ⟨key, Table.mem_of_beq imports entry⟩, found⟩

end Namespace

namespace Mutation

def WellFormed : Mutation → Prop
  | import_ name | use_ name | extend_ name | implement_ name => Name.WellFormed name
  | property _ | constant _ | method _ | doc _ | strictTypes _ => True

instance (mutation : Mutation) : Decidable mutation.WellFormed :=
  match mutation with
  | import_ name | use_ name | extend_ name | implement_ name =>
    inferInstanceAs (Decidable (Name.WellFormed name))
  | property _ | constant _ | method _ | doc _ | strictTypes _ => .isTrue trivial

theorem sameClass_congr {a b : String} (same : Text.lower a = Text.lower b) (existing : String) :
    sameClass existing a = sameClass existing b := by
  rw [Bool.eq_iff_iff]
  simp only [sameClass, Text.sameIgnoringCase_iff, Name.lower_normalize, same]

theorem isSelf_congr {a b : String} (same : Text.lower a = Text.lower b) (ns : Namespace)
    (decl : TypeDecl) : isSelf ns decl a = isSelf ns decl b := by
  rw [Bool.eq_iff_iff]
  simp only [isSelf, Text.sameIgnoringCase_iff, same]

theorem sameClass_self (name : String) : sameClass name name = true := by
  simp [sameClass]

theorem isSelf_of_name_eq {ns ns' : Namespace} (here : ns'.name = ns.name) (decl : TypeDecl)
    (name : String) : isSelf ns' decl name = isSelf ns decl name := by
  simp only [isSelf, here]

/-! ## Edits of one namespace -/

def importInto (name : String) (reached : Namespace → Bool) (ns : Namespace) : Namespace × Nat :=
  if reached ns && !ns.needsNoImport name then (ns.insertImport (Import.ofName name), 1)
  else (ns, 0)

/-- Edit every type of a namespace; an edit that changes nothing is `none`. -/
def editDecls (f : Namespace → TypeDecl → Option TypeDecl) (ns : Namespace) : Namespace × Nat :=
  ({ ns with types := ns.types.mapValues fun decl => (f ns decl).getD decl },
    (ns.types.values.filter fun decl => (f ns decl).isSome).length)

/-- Edit a namespace twice, with all the changes. -/
def both (f g : Namespace → Namespace × Nat) (ns : Namespace) : Namespace × Nat :=
  ((g (f ns).1).1, (f ns).2 + (g (f ns).1).2)

def onNamespace : Mutation → Namespace → Namespace × Nat
  | import_ name => importInto name fun _ => true
  | use_ name => both (importInto name (declares usesTraits)) (editDecls (addTrait name))
  | extend_ name => both (importInto name (declares hasBases)) (editDecls (addBase name))
  | implement_ name =>
    both (importInto name (declares (· == .class))) (editDecls fun _ => addInterface name)
  | property p => editDecls fun _ => addProperty p
  | constant c => editDecls fun _ => addConstant c
  | method m => editDecls fun _ => addMethod m
  | doc line => editDecls fun _ decl => some { decl with doc := decl.doc ++ [line] }
  | strictTypes _ => fun ns => (ns, 0)

theorem importInto_types (name : String) (reached : Namespace → Bool) (ns : Namespace) :
    (importInto name reached ns).1.types = ns.types := by
  unfold importInto
  split <;> rfl

theorem importInto_name (name : String) (reached : Namespace → Bool) (ns : Namespace) :
    (importInto name reached ns).1.name = ns.name := by
  unfold importInto
  split <;> rfl

theorem mem_editDecls {f : Namespace → TypeDecl → Option TypeDecl} {ns : Namespace}
    {decl' : TypeDecl} :
    decl' ∈ (editDecls f ns).1.types.values ↔
      ∃ decl ∈ ns.types.values, (f ns decl).getD decl = decl' := by
  simp only [editDecls, Table.values_mapValues, List.mem_map]

theorem andThen_editNamespaces (unit : SourceUnit) (f g : Namespace → Namespace × Nat) :
    andThen (editNamespaces unit f) (editNamespaces · g) = editNamespaces unit (both f g) := by
  simp only [andThen, editNamespaces, both, Table.mapValues_mapValues, Table.values_mapValues,
    total_map, total_add]

theorem edit_eq (mutation : Mutation) (unit : SourceUnit)
    (noDirective : ∀ on, mutation ≠ strictTypes on) :
    mutation.edit unit = editNamespaces unit mutation.onNamespace := by
  cases mutation with
  | use_ name | extend_ name | implement_ name => exact andThen_editNamespaces unit _ _
  | strictTypes on => exact absurd rfl (noDirective on)
  | _ => rfl

/-! ## Edits of one declaration -/

variable {name : String} {ns : Namespace} {decl decl' : TypeDecl}

theorem addTrait_eq_some_iff :
    addTrait name ns decl = some decl' ↔
      (usesTraits decl.kind = true ∧ isSelf ns decl name = false ∧
        decl.traits.keys.any (sameClass · name) = false) ∧
      { decl with traits := decl.traits.insert name (TraitUse.ofName name) } = decl' := by
  simp only [addTrait, Option.ite_none_right_eq_some, Bool.and_eq_true, Bool.not_eq_true',
    Option.some.injEq, and_assoc]

/-- Whether a declaration gets one more base type. -/
def lacksBase (name : String) (decl : TypeDecl) : Bool :=
  match decl.kind with
  | .class => decl.bases.isEmpty
  | .interface => !decl.bases.any (sameClass · name)
  | .trait => false

theorem addBase_eq_some_iff :
    addBase name ns decl = some decl' ↔
      (isSelf ns decl name = false ∧ lacksBase name decl = true) ∧
      { decl with bases := decl.bases ++ [name] } = decl' := by
  unfold addBase lacksBase
  cases decl.kind <;>
    simp only [Option.ite_none_right_eq_some, Bool.and_eq_true, Bool.not_eq_true',
      Option.some.injEq]

theorem addInterface_eq_some_iff :
    addInterface name decl = some decl' ↔
      (decl.kind = .class ∧ decl.interfaces.any (sameClass · name) = false) ∧
      { decl with interfaces := decl.interfaces ++ [name] } = decl' := by
  simp only [addInterface, Option.ite_none_right_eq_some, Bool.and_eq_true, Bool.not_eq_true',
    Option.some.injEq, beq_iff_eq]

theorem addProperty_eq_some_iff {p : Property} :
    addProperty p decl = some decl' ↔
      (decl.kind ≠ .interface ∧ p.name ∉ decl.properties.keys) ∧
      { decl with properties := decl.properties.insert p.name p } = decl' := by
  simp only [addProperty, Option.ite_none_left_eq_some, Bool.or_eq_true, beq_iff_eq, not_or,
    Option.some.injEq, Table.contains_iff, ne_eq]

theorem addConstant_eq_some_iff {c : Constant} :
    addConstant c decl = some decl' ↔
      c.name ∉ decl.constants.keys ∧
      { decl with constants := decl.constants.insert c.name c } = decl' := by
  simp only [addConstant, Option.ite_none_left_eq_some, Option.some.injEq, Table.contains_iff]

/-- The form in which a method is added: an interface only declares it. -/
def methodFor (m : Method) (decl : TypeDecl) : Method :=
  if decl.kind == .interface then { m with body := none, isAbstract := false } else m

theorem methodFor_name (m : Method) (decl : TypeDecl) : (methodFor m decl).name = m.name := by
  unfold methodFor
  split <;> rfl

theorem addMethod_eq_some_iff {m : Method} :
    addMethod m decl = some decl' ↔
      m.name ∉ decl.methods.keys ∧
      { decl with methods := decl.methods.insert m.name (methodFor m decl) } = decl' := by
  simp only [addMethod, Option.ite_none_left_eq_some, Option.some.injEq, Table.contains_iff]
  rw [← methodFor, methodFor_name]

/-- An edit of declarations that adds something and leaves alone what is declared. -/
structure Adds (f : Namespace → TypeDecl → Option TypeDecl) : Prop where
  name : ∀ {ns decl decl'}, f ns decl = some decl' → decl'.name = decl.name
  kind : ∀ {ns decl decl'}, f ns decl = some decl' → decl'.kind = decl.kind
  unlike : ∀ {ns decl decl'}, f ns decl = some decl' → ¬ (decl' == decl) = true

theorem adds_addTrait (name : String) : Adds (addTrait name) := by
  constructor
  all_goals
    intro ns decl decl' edited
    obtain ⟨⟨-, -, absent⟩, rfl⟩ := addTrait_eq_some_iff.1 edited
  · rfl
  · rfl
  · intro same
    have fresh : name ∉ decl.traits.keys := fun listed =>
      List.any_eq_false.1 absent name listed (sameClass_self name)
    have traits := (TypeDecl.beq_iff.1 same).2.2.2.2.2.2.1
    exact Table.not_beq_insert fresh _ traits

theorem adds_addBase (name : String) : Adds (addBase name) := by
  constructor
  all_goals
    intro ns decl decl' edited
    obtain ⟨-, rfl⟩ := addBase_eq_some_iff.1 edited
  · rfl
  · rfl
  · intro same
    have bases := (TypeDecl.beq_iff.1 same).2.2.2.2.1
    simp at bases

theorem adds_addInterface (name : String) : Adds fun _ => addInterface name := by
  constructor
  all_goals
    intro ns decl decl' edited
    obtain ⟨-, rfl⟩ := addInterface_eq_some_iff.1 edited
  · rfl
  · rfl
  · intro same
    have interfaces := (TypeDecl.beq_iff.1 same).2.2.2.2.2.1
    simp at interfaces

theorem adds_addProperty (p : Property) : Adds fun _ => addProperty p := by
  constructor
  all_goals
    intro ns decl decl' edited
    obtain ⟨⟨-, absent⟩, rfl⟩ := addProperty_eq_some_iff.1 edited
  · rfl
  · rfl
  · intro same
    have properties := (TypeDecl.beq_iff.1 same).2.2.2.2.2.2.2.2.1
    exact Table.not_beq_insert absent _ properties

theorem adds_addConstant (c : Constant) : Adds fun _ => addConstant c := by
  constructor
  all_goals
    intro ns decl decl' edited
    obtain ⟨absent, rfl⟩ := addConstant_eq_some_iff.1 edited
  · rfl
  · rfl
  · intro same
    have constants := (TypeDecl.beq_iff.1 same).2.2.2.2.2.2.2.1
    exact Table.not_beq_insert absent _ constants

theorem adds_addMethod (m : Method) : Adds fun _ => addMethod m := by
  constructor
  all_goals
    intro ns decl decl' edited
    obtain ⟨absent, rfl⟩ := addMethod_eq_some_iff.1 edited
  · rfl
  · rfl
  · intro same
    have methods := (TypeDecl.beq_iff.1 same).2.2.2.2.2.2.2.2.2
    exact Table.not_beq_insert absent _ methods

/-! ## What a passed check means -/

theorem apply_eq_ok_iff {mutation : Mutation} {unit : SourceUnit} {result : SourceUnit × Nat} :
    mutation.apply unit = .ok result ↔
      mutation.check unit = .ok () ∧ mutation.edit unit = result := by
  unfold apply
  cases mutation.check unit with
  | error e => simp [bind, Except.bind]
  | ok done => simp [bind, Except.bind, pure, Except.pure]

theorem importConflict?_eq_none_iff {ns : Namespace} {name : String} :
    importConflict? ns name = none ↔
      ns.needsNoImport name = true ∨
        (∀ i ∈ ns.imports.values, i.kind = .type →
          Text.lower i.localName ≠ Text.lower (Name.short name)) ∧
        ∀ key ∈ ns.types.keys, Text.lower key ≠ Text.lower (Name.short name) := by
  unfold importConflict?
  cases needed : ns.needsNoImport name with
  | true => simp
  | false =>
      simp only [Bool.false_eq_true, if_false, false_or]
      cases taken : ns.imports.values.find? fun i =>
          i.kind == .type && Text.sameIgnoringCase i.localName (Name.short name) with
      | some i =>
          have listed := List.mem_of_find?_eq_some taken
          have found := List.find?_some taken
          rw [Bool.and_eq_true, beq_iff_eq, Text.sameIgnoringCase_iff] at found
          simp only [reduceCtorEq, false_iff, not_and]
          intro free
          exact absurd found.2 (free i listed found.1)
      | none =>
          simp only [Option.map_eq_none_iff, List.find?_eq_none, Text.sameIgnoringCase_iff]
          rw [List.find?_eq_none] at taken
          simp only [Bool.and_eq_true, beq_iff_eq, Text.sameIgnoringCase_iff, not_and] at taken
          exact ⟨fun free => ⟨taken, free⟩, fun free => free.2⟩

theorem checkImports_eq_ok_iff {unit : SourceUnit} {name : String} {reached : Namespace → Bool} :
    checkImports unit name reached = .ok () ↔
      ∀ ns ∈ unit.namespaces.values, reached ns = true → importConflict? ns name = none := by
  unfold checkImports
  cases found : (unit.namespaces.values.filter reached).findSome? (importConflict? · name) with
  | some error =>
      obtain ⟨ns, listed, conflict⟩ := List.exists_of_findSome?_eq_some found
      rw [List.mem_filter] at listed
      simp only [reduceCtorEq, false_iff]
      intro free
      rw [free ns listed.1 listed.2] at conflict
      cases conflict
  | none =>
      rw [List.findSome?_eq_none_iff] at found
      simpa only [List.mem_filter, and_imp, true_iff] using found

/-- No class has a base class other than this one, unless it is this one. -/
theorem checkSingleInheritance_eq_ok_iff {unit : SourceUnit} {name : String} :
    checkSingleInheritance unit name = .ok () ↔
      ∀ ns ∈ unit.namespaces.values, ∀ decl ∈ ns.types.values, ∀ existing,
        decl.baseType? = some existing →
          isSelf ns decl name = true ∨ sameClass existing name = true := by
  unfold checkSingleInheritance
  dsimp only
  split
  · rename_i error found
    obtain ⟨ns, listed, inside⟩ := List.exists_of_findSome?_eq_some found
    obtain ⟨decl, declared, fault⟩ := List.exists_of_findSome?_eq_some inside
    simp only [reduceCtorEq, false_iff]
    intro free
    split at fault
    · rename_i existing base
      have allowed := free ns listed decl declared existing base
      rcases allowed with self | same
      · simp [self] at fault
      · simp [same] at fault
    · cases fault
  · rename_i found
    simp only [List.findSome?_eq_none_iff] at found
    simp only [true_iff]
    intro ns listed decl declared existing base
    have free := found ns listed decl declared
    simp only [base] at free
    by_cases self : isSelf ns decl name = true
    · exact Or.inl self
    · by_cases same : sameClass existing name = true
      · exact Or.inr same
      · simp [self, same] at free

theorem check_extend_eq_ok_iff {name : String} {u : SourceUnit} :
    (extend_ name).check u = .ok () ↔
      checkImports u name (declares hasBases) = .ok () ∧
        checkSingleInheritance u name = .ok () := by
  simp only [check]
  cases checkImports u name (declares hasBases) with
  | error e => simp [bind, Except.bind]
  | ok done => simp [bind, Except.bind]

end Mutation

end Emend

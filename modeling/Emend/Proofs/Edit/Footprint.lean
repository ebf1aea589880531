import Emend.Proofs.Edit.Mutation

/-!
# What a mutation reads and writes

A mutation touches a namespace in two places. It may import its class, which is
`adds`: the class is imported into a namespace that is reached and needs it. And it
edits one part of every declaration, which is `part?`; what it makes of that part depends
on the part, on the kind and the name of the declaration and on the name of the
namespace, and on nothing else (`declAfter_eq`).

`onNamespace_fst` and `edit_fst` put the two together, and `check_eq_ok_iff` says the
check in the same terms: a class that is added is `Free` where it is added.
-/

set_option autoImplicit false

namespace Emend

/-! ## Parts of a declaration -/

/-- The parts of a declaration that mutations edit. -/
inductive Part where
  | doc
  | bases
  | interfaces
  | traits
  | constants
  | properties
  | methods
  deriving DecidableEq

abbrev Part.Content : Part → Type
  | doc | bases | interfaces => List String
  | traits => Table TraitUse
  | constants => Table Constant
  | properties => Table Property
  | methods => Table Method

namespace TypeDecl

def get (decl : TypeDecl) : (part : Part) → part.Content
  | .doc => decl.doc
  | .bases => decl.bases
  | .interfaces => decl.interfaces
  | .traits => decl.traits
  | .constants => decl.constants
  | .properties => decl.properties
  | .methods => decl.methods

def set (decl : TypeDecl) : (part : Part) → part.Content → TypeDecl
  | .doc, content => { decl with doc := content }
  | .bases, content => { decl with bases := content }
  | .interfaces, content => { decl with interfaces := content }
  | .traits, content => { decl with traits := content }
  | .constants, content => { decl with constants := content }
  | .properties, content => { decl with properties := content }
  | .methods, content => { decl with methods := content }

section

variable (decl : TypeDecl) (part : Part) (content : part.Content)

@[simp] theorem kind_set : (decl.set part content).kind = decl.kind := by cases part <;> rfl

@[simp] theorem name_set : (decl.set part content).name = decl.name := by cases part <;> rfl

@[simp] theorem set_get : decl.set part (decl.get part) = decl := by cases part <;> rfl

variable {part} {other : Part} (ne : other ≠ part)

include ne

theorem get_set_of_ne : (decl.set part content).get other = decl.get other := by
  cases part <;> cases other <;> first | rfl | exact absurd rfl ne

theorem set_set_comm (content' : other.Content) :
    (decl.set part content).set other content' = (decl.set other content').set part content := by
  cases part <;> cases other <;> first | rfl | exact absurd rfl ne

end

end TypeDecl

namespace Mutation

variable {m : Mutation} {ns : Namespace} {name : String}

/-! ## Declarations -/

/-- The part of every declaration that the mutation edits, if it edits any. -/
def part? : Mutation → Option Part
  | use_ _ => some .traits
  | extend_ _ => some .bases
  | implement_ _ => some .interfaces
  | property _ => some .properties
  | constant _ => some .constants
  | method _ => some .methods
  | doc _ => some .doc
  | import_ _ | strictTypes _ => none

/-- The edit of one declaration; one that changes nothing is `none`. -/
def declEdit : Mutation → Namespace → TypeDecl → Option TypeDecl
  | use_ name => addTrait name
  | extend_ name => addBase name
  | implement_ name => fun _ => addInterface name
  | property p => fun _ => addProperty p
  | constant c => fun _ => addConstant c
  | method m => fun _ => addMethod m
  | doc line => fun _ decl => some { decl with doc := decl.doc ++ [line] }
  | import_ _ | strictTypes _ => fun _ _ => none

def declAfter (m : Mutation) (ns : Namespace) (decl : TypeDecl) : TypeDecl :=
  (m.declEdit ns decl).getD decl

theorem addBase_eq (name : String) (ns : Namespace) (decl : TypeDecl) :
    addBase name ns decl =
      if !isSelf ns decl name && lacksBase name decl then
        some { decl with bases := decl.bases ++ [name] }
      else none := by
  unfold addBase lacksBase
  cases decl.kind <;> rfl

theorem addMethod_eq (m : Method) (decl : TypeDecl) :
    addMethod m decl =
      if decl.methods.contains m.name then none
      else some { decl with methods := decl.methods.insert m.name (methodFor m decl) } := by
  unfold addMethod
  dsimp only
  rw [← methodFor, methodFor_name]

/-- An edit of one part that is made, or one that finds the part in order. -/
theorem getD_ite_set (decl : TypeDecl) (part : Part) (content : part.Content) (added : Prop)
    [Decidable added] :
    (if added then some (decl.set part content) else none).getD decl =
      decl.set part (if added then content else decl.get part) := by
  split
  · rfl
  · rw [TypeDecl.set_get, Option.getD_none]

theorem getD_ite_get (decl : TypeDecl) (part : Part) (content : part.Content) (present : Prop)
    [Decidable present] :
    (if present then none else some (decl.set part content)).getD decl =
      decl.set part (if present then decl.get part else content) := by
  split
  · rw [TypeDecl.set_get, Option.getD_none]
  · rfl

/-- **A mutation edits one part of a declaration.** What it writes there depends on what
stood there, on the kind and name of the declaration and on the name of the namespace. -/
theorem declAfter_eq {part : Part} (edits : m.part? = some part) :
    ∃ update : String → TypeKind → String → part.Content → part.Content, ∀ ns decl,
      m.declAfter ns decl =
        decl.set part (update ns.name decl.kind decl.name (decl.get part)) := by
  cases m with
  | import_ name | strictTypes on => cases edits
  | use_ name =>
      cases edits
      refine ⟨fun space kind type traits =>
        if usesTraits kind && !Text.sameIgnoringCase (Name.join space type) name &&
          !traits.keys.any (sameClass · name) then traits.insert name (TraitUse.ofName name)
        else traits, fun ns decl => ?_⟩
      exact getD_ite_set decl .traits _ _
  | extend_ name =>
      cases edits
      refine ⟨fun space kind type bases =>
        if !Text.sameIgnoringCase (Name.join space type) name &&
          lacksBase name { TypeDecl.ofName kind type with bases := bases } then bases ++ [name]
        else bases, fun ns decl => ?_⟩
      rw [declAfter, declEdit, addBase_eq]
      exact getD_ite_set decl .bases _ _
  | implement_ name =>
      cases edits
      refine ⟨fun _ kind _ interfaces =>
        if kind == .class && !interfaces.any (sameClass · name) then interfaces ++ [name]
        else interfaces, fun ns decl => ?_⟩
      exact getD_ite_set decl .interfaces _ _
  | property p =>
      cases edits
      refine ⟨fun _ kind _ properties =>
        if kind == .interface || properties.contains p.name then properties
        else properties.insert p.name p, fun ns decl => ?_⟩
      exact getD_ite_get decl .properties _ _
  | constant c =>
      cases edits
      refine ⟨fun _ _ _ constants =>
        if constants.contains c.name then constants else constants.insert c.name c,
        fun ns decl => ?_⟩
      exact getD_ite_get decl .constants _ _
  | method added =>
      cases edits
      refine ⟨fun _ kind type methods =>
        if methods.contains added.name then methods
        else methods.insert added.name (methodFor added (TypeDecl.ofName kind type)),
        fun ns decl => ?_⟩
      change (addMethod added decl).getD decl = _
      rw [addMethod_eq]
      exact getD_ite_get decl .methods _ _
  | doc line =>
      cases edits
      exact ⟨fun _ _ _ lines => lines ++ [line], fun ns decl => rfl⟩

theorem declAfter_of_none (edits : m.part? = none) (ns : Namespace) (decl : TypeDecl) :
    m.declAfter ns decl = decl := by
  cases m with
  | import_ name | strictTypes on => rfl
  | _ => cases edits

theorem exists_declAfter_eq_set (m : Mutation) (ns : Namespace) (decl : TypeDecl) :
    ∃ part content, m.declAfter ns decl = decl.set part content := by
  cases edits : m.part? with
  | none => exact ⟨.doc, decl.get .doc, by rw [declAfter_of_none edits, TypeDecl.set_get]⟩
  | some part =>
      obtain ⟨update, eq⟩ := declAfter_eq edits
      exact ⟨part, _, eq ns decl⟩

@[simp] theorem kind_declAfter (m : Mutation) (ns : Namespace) (decl : TypeDecl) :
    (m.declAfter ns decl).kind = decl.kind := by
  obtain ⟨part, content, eq⟩ := exists_declAfter_eq_set m ns decl
  rw [eq, TypeDecl.kind_set]

@[simp] theorem name_declAfter (m : Mutation) (ns : Namespace) (decl : TypeDecl) :
    (m.declAfter ns decl).name = decl.name := by
  obtain ⟨part, content, eq⟩ := exists_declAfter_eq_set m ns decl
  rw [eq, TypeDecl.name_set]

/-- The other parts of a declaration stay. -/
theorem get_declAfter {part : Part} (ne : m.part? ≠ some part) (ns : Namespace)
    (decl : TypeDecl) : (m.declAfter ns decl).get part = decl.get part := by
  cases edits : m.part? with
  | none => rw [declAfter_of_none edits]
  | some edited =>
      obtain ⟨update, eq⟩ := declAfter_eq edits
      rw [eq, TypeDecl.get_set_of_ne]
      rintro rfl
      exact ne edits

/-- The edit of a declaration does not depend on what a namespace imports. -/
theorem declAfter_of_name_eq {ns' : Namespace} (here : ns'.name = ns.name) (decl : TypeDecl) :
    m.declAfter ns' decl = m.declAfter ns decl := by
  cases edits : m.part? with
  | none => rw [declAfter_of_none edits, declAfter_of_none edits]
  | some part =>
      obtain ⟨update, eq⟩ := declAfter_eq edits
      rw [eq, eq, here]

/-! ## Imports -/

def className? : Mutation → Option String
  | import_ name | use_ name | extend_ name | implement_ name => some name
  | property _ | constant _ | method _ | doc _ | strictTypes _ => none

def reaches : Mutation → Namespace → Bool
  | import_ _ => fun _ => true
  | use_ _ => declares usesTraits
  | extend_ _ => declares hasBases
  | implement_ _ => declares (· == .class)
  | property _ | constant _ | method _ | doc _ | strictTypes _ => fun _ => false

def adds (m : Mutation) (ns : Namespace) : Option String :=
  m.className?.filter fun name => m.reaches ns && !ns.needsNoImport name

theorem adds_eq_some_iff :
    m.adds ns = some name ↔
      m.className? = some name ∧ m.reaches ns = true ∧ ns.needsNoImport name = false := by
  simp [adds, Option.filter_eq_some_iff]

theorem wellFormed_of_className? (wf : m.WellFormed) (named : m.className? = some name) :
    Name.WellFormed name := by
  cases m <;> simp_all [className?, WellFormed]

/-- The imports with one more class under its last segment. -/
def withImport (imports : Table Import) : Option String → Table Import
  | some name => imports.insert (Name.short name) ⟨name, Name.short name, .type⟩
  | none => imports

theorem importInto_fst (wf : Name.WellFormed name) (reached : Namespace → Bool) (ns : Namespace) :
    (importInto name reached ns).1 =
      { ns with imports := withImport ns.imports
                  ((some name).filter fun name => reached ns && !ns.needsNoImport name) } := by
  unfold importInto
  by_cases needed : (reached ns && !ns.needsNoImport name) = true
  · simp only [needed, if_true, Option.filter_some, withImport]
    exact ns.insertImport_ofName wf.settled
  · simp only [needed, if_false, Option.filter_some, withImport, Bool.false_eq_true]

def imported (m : Mutation) (ns : Namespace) : Namespace :=
  match m.className? with
  | some name => (importInto name m.reaches ns).1
  | none => ns

theorem imported_eq (wf : m.WellFormed) (ns : Namespace) :
    m.imported ns = { ns with imports := withImport ns.imports (m.adds ns) } := by
  unfold imported adds
  cases named : m.className? with
  | none => rfl
  | some name => exact importInto_fst (wellFormed_of_className? wf named) m.reaches ns

@[simp] theorem name_imported (m : Mutation) (ns : Namespace) : (m.imported ns).name = ns.name := by
  unfold imported
  split
  · rw [importInto_name]
  · rfl

/-- **What a mutation makes of a namespace**: it imports a class, and edits every declaration. -/
theorem onNamespace_fst (m : Mutation) (ns : Namespace) :
    (m.onNamespace ns).1 =
      { m.imported ns with types := ns.types.mapValues (m.declAfter ns) } := by
  -- the edit of declarations reads the name of the namespace, which the import keeps
  have step : ∀ {class_ : String} {reached : Namespace → Bool}
      {f : Namespace → TypeDecl → Option TypeDecl},
      (∀ {ns'}, ns'.name = ns.name → f ns' = f ns) →
      (both (importInto class_ reached) (editDecls f) ns).1 =
        { (importInto class_ reached ns).1 with
          types := ns.types.mapValues fun decl => (f ns decl).getD decl } := by
    intro class_ reached f same
    simp only [both, editDecls, importInto_types, same (importInto_name class_ reached ns)]
  have kept : m.part? = none → ns.types.mapValues (m.declAfter ns) = ns.types := fun edits =>
    Table.mapValues_eq_self fun decl _ => declAfter_of_none edits ns decl
  cases m with
  | import_ class_ =>
      have onto : (import_ class_).imported ns = (importInto class_ (fun _ => true) ns).1 := rfl
      rw [kept rfl, onto, ← importInto_types class_ (fun _ => true) ns]
      simp only [onNamespace]
  | use_ class_ =>
      refine step fun here => funext fun decl => ?_
      rw [addTrait, addTrait, isSelf_of_name_eq here]
  | extend_ class_ =>
      refine step fun here => funext fun decl => ?_
      rw [addBase_eq, addBase_eq, isSelf_of_name_eq here]
  | implement_ class_ => exact step fun _ => rfl
  | property p | constant c | method added | doc line => rfl
  | strictTypes on =>
      rw [kept rfl]
      rfl

theorem onNamespace_eq (wf : m.WellFormed) (ns : Namespace) :
    (m.onNamespace ns).1 =
      { ns with imports := withImport ns.imports (m.adds ns)
                types := ns.types.mapValues (m.declAfter ns) } := by
  rw [onNamespace_fst, imported_eq wf]

section

variable (m) (ns : Namespace)

theorem name_onNamespace : (m.onNamespace ns).1.name = ns.name := by
  rw [onNamespace_fst, name_imported]

theorem keys_types_onNamespace : (m.onNamespace ns).1.types.keys = ns.types.keys := by
  rw [onNamespace_fst, Table.keys_mapValues]

theorem values_types_onNamespace :
    (m.onNamespace ns).1.types.values = ns.types.values.map (m.declAfter ns) := by
  rw [onNamespace_fst, Table.values_mapValues]

end

/-! ## Units and checks -/

def strictAfter (m : Mutation) (before : Bool) : Bool :=
  match m with
  | strictTypes on => on
  | _ => before

/-- **What a mutation makes of a unit.** -/
theorem edit_fst (m : Mutation) (u : SourceUnit) :
    (m.edit u).1 =
      { strictTypes := m.strictAfter u.strictTypes
        namespaces := u.namespaces.mapValues fun ns => (m.onNamespace ns).1 } := by
  cases m with
  | strictTypes on =>
      have same : (u.namespaces.mapValues fun ns => ns) = u.namespaces :=
        Table.mapValues_eq_self fun _ _ => rfl
      simp only [edit, strictAfter, onNamespace, same]
  | _ =>
      rw [edit_eq _ u (by simp)]
      rfl

theorem mem_namespaces_edit {u : SourceUnit} {after : Namespace} :
    after ∈ (m.edit u).1.namespaces.values ↔
      ∃ ns ∈ u.namespaces.values, (m.onNamespace ns).1 = after := by
  rw [edit_fst, Table.values_mapValues, List.mem_map]

/-- No class is imported, and no type declared, under the last segment of this name. -/
structure Free (ns : Namespace) (name : String) : Prop where
  aliases : ∀ i ∈ ns.imports.values, i.kind = .type →
    Text.lower i.localName ≠ Text.lower (Name.short name)
  types : ∀ key ∈ ns.types.keys, Text.lower key ≠ Text.lower (Name.short name)

theorem checkImports_eq_ok_iff_free {u : SourceUnit} {reached : Namespace → Bool} :
    checkImports u name reached = .ok () ↔
      ∀ ns ∈ u.namespaces.values, reached ns = true → ns.needsNoImport name = false →
        Free ns name := by
  rw [checkImports_eq_ok_iff]
  refine forall_congr' fun ns => forall_congr' fun _ => forall_congr' fun _ => ?_
  rw [importConflict?_eq_none_iff]
  constructor
  · rintro (unneeded | ⟨aliases, types⟩) needed
    · rw [unneeded] at needed
      cases needed
    · exact ⟨aliases, types⟩
  · intro free
    cases needed : ns.needsNoImport name with
    | true => exact Or.inl rfl
    | false => exact Or.inr ⟨(free needed).aliases, (free needed).types⟩

/-- **What the check of a mutation rules out**: an import under a name that is taken, and
a second base class. -/
theorem check_eq_ok_iff {u : SourceUnit} :
    m.check u = .ok () ↔
      (∀ ns ∈ u.namespaces.values, ∀ name, m.adds ns = some name → Free ns name) ∧
        ∀ base, m = extend_ base → checkSingleInheritance u base = .ok () := by
  have named : ∀ class_, m.className? = some class_ →
      (checkImports u class_ m.reaches = .ok () ↔
        ∀ ns ∈ u.namespaces.values, ∀ name, m.adds ns = some name → Free ns name) := by
    intro class_ isClass
    rw [checkImports_eq_ok_iff_free]
    refine forall_congr' fun ns => forall_congr' fun _ => ?_
    simp only [adds_eq_some_iff, isClass, Option.some.injEq]
    constructor
    · rintro free name ⟨rfl, reached, needed⟩
      exact free reached needed
    · intro free reached needed
      exact free class_ ⟨rfl, reached, needed⟩
  cases m with
  | import_ class_ | use_ class_ | implement_ class_ =>
      have imports := named class_ rfl
      exact ⟨fun passed => ⟨imports.1 passed, by simp⟩, fun passed => imports.2 passed.1⟩
  | extend_ class_ =>
      have imports := named class_ rfl
      rw [check_extend_eq_ok_iff, ← imports]
      refine and_congr Iff.rfl ⟨?_, fun passed => passed class_ rfl⟩
      rintro passed base ⟨⟩
      exact passed
  | property p | constant c | method added | doc line | strictTypes on =>
      simp [check, adds, className?]

end Mutation

end Emend

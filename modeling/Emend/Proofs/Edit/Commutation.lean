import Emend.Proofs.Edit.Footprint

/-!
# Independent mutations commute

Mutations of different kinds edit different parts of a declaration, so their edits of
declarations commute as they are (`declAfter_comm`). Their imports meet: a class that
one of them imports needs no import by the other, and takes its last segment as an
alias. `adds_onNamespace` says what the second one still adds, `free_onNamespace_iff`
where it may. From these the checks pass in the other order (`check_of_check_after`,
`check_after_of_check`), and the imports are the same up to their order
(`imports_comm`). `apply_comm` puts these together.
-/

set_option autoImplicit false

namespace Emend.Mutation

def sameKind : Mutation → Mutation → Bool
  | import_ _, import_ _ | use_ _, use_ _ | extend_ _, extend_ _ | implement_ _, implement_ _
  | property _, property _ | constant _, constant _ | method _, method _ | doc _, doc _
  | strictTypes _, strictTypes _ => true
  | _, _ => false

theorem sameKind_of_part? {a b : Mutation} {part : Part} (edits : a.part? = some part)
    (edits' : b.part? = some part) : a.sameKind b = true := by
  cases a <;> cases b <;> first | rfl | (cases edits <;> cases edits')

/-- The mutations are of different kinds, or both import, and they do not name one class
in two cases. -/
structure Independent (a b : Mutation) : Prop where
  kinds : a.sameKind b = false ∨ ∃ x y, a = import_ x ∧ b = import_ y
  names : ∀ x y, a.className? = some x → b.className? = some y →
    x = y ∨ Text.sameIgnoringCase x y = false

namespace Independent

variable {a b : Mutation} (independent : Independent a b)

include independent

theorem symm : Independent b a where
  kinds := by
    rcases independent.kinds with differ | ⟨x, y, rfl, rfl⟩
    · left
      cases a <;> cases b <;> first | rfl | cases differ
    · exact Or.inr ⟨y, x, rfl, rfl⟩
  names := by
    intro y x second first
    refine (independent.names x y first second).imp Eq.symm fun differ => ?_
    rw [Bool.eq_false_iff] at differ ⊢
    exact fun same => differ (Text.sameIgnoringCase_iff.2 (Text.sameIgnoringCase_iff.1 same).symm)

theorem part?_ne {part : Part} (edits : a.part? = some part) : b.part? ≠ some part := by
  intro edits'
  rcases independent.kinds with differ | ⟨x, y, rfl, rfl⟩
  · rw [sameKind_of_part? edits edits'] at differ
    cases differ
  · cases edits

theorem eq_of_lower_eq {x y : String} (first : a.className? = some x)
    (second : b.className? = some y) (same : Text.lower x = Text.lower y) : x = y := by
  rcases independent.names x y first second with equal | differ
  · exact equal
  · rw [Text.sameIgnoringCase_iff.2 same] at differ
    cases differ

theorem strictAfter_comm (strict : Bool) :
    b.strictAfter (a.strictAfter strict) = a.strictAfter (b.strictAfter strict) := by
  rcases independent.kinds with differ | ⟨x, y, rfl, rfl⟩
  · cases a <;> cases b <;> first | rfl | cases differ
  · rfl

/-- **Edits of declarations commute.** -/
theorem declAfter_comm (ns : Namespace) (decl : TypeDecl) :
    b.declAfter ns (a.declAfter ns decl) = a.declAfter ns (b.declAfter ns decl) := by
  cases edits : a.part? with
  | none => rw [declAfter_of_none edits, declAfter_of_none edits]
  | some part =>
      cases edits' : b.part? with
      | none => rw [declAfter_of_none edits', declAfter_of_none edits']
      | some other =>
          have ne : other ≠ part := by
            rintro rfl
            exact independent.part?_ne edits edits'
          obtain ⟨update, eq⟩ := declAfter_eq edits
          obtain ⟨update', eq'⟩ := declAfter_eq edits'
          simp only [eq, eq', TypeDecl.kind_set, TypeDecl.name_set,
            TypeDecl.get_set_of_ne _ _ ne, TypeDecl.get_set_of_ne _ _ ne.symm]
          exact TypeDecl.set_set_comm decl _ ne _

end Independent

/-! ## One namespace after a mutation -/

section Namespaces

variable {a b : Mutation} {ns : Namespace}

/-- No mutation changes the kind of a type, so another one reaches the same namespaces. -/
theorem reaches_onNamespace (a b : Mutation) (ns : Namespace) :
    b.reaches (a.onNamespace ns).1 = b.reaches ns := by
  have kinds : ∀ wanted, declares wanted (a.onNamespace ns).1 = declares wanted ns := by
    intro wanted
    simp only [declares, values_types_onNamespace, List.any_map, Function.comp_def,
      kind_declAfter]
  cases b <;> simp only [reaches, kinds]

variable (wf : a.WellFormed) (keyed : ns.imports.KeyedBy Import.localName)
  (free : ∀ name, a.adds ns = some name → Free ns name)

include wf keyed free

/-- An import under a free alias overwrites no import of a class. -/
theorem mem_imports_onNamespace_iff {i : Import} (isType : i.kind = .type) :
    i ∈ (a.onNamespace ns).1.imports.values ↔
      i ∈ ns.imports.values ∨ ∃ name, a.adds ns = some name ∧ i = ⟨name, Name.short name, .type⟩ := by
  rw [onNamespace_eq wf]
  cases added : a.adds ns with
  | none => simp [withImport]
  | some name =>
      simp only [withImport, Option.some.injEq, exists_eq_left']
      constructor
      · intro listed
        exact (Table.mem_values_insert listed).symm
      · rintro (before | rfl)
        · refine keyed.mem_values_insert_of_ne before fun same => ?_
          exact (free name added).aliases i before isType (congrArg Text.lower same)
        · exact Table.mem_values.2 ⟨Name.short name, mem_upsert_self _ _ _⟩

theorem needsNoImport_onNamespace_iff {name : String} (named : Name.WellFormed name) :
    (a.onNamespace ns).1.needsNoImport name = true ↔
      ns.needsNoImport name = true ∨
        ∃ added, a.adds ns = some added ∧ Text.lower added = Text.lower name := by
  have imports : (a.onNamespace ns).1.importsName name = true ↔
      ns.importsName name = true ∨
        ∃ added, a.adds ns = some added ∧ Text.lower added = Text.lower name := by
    simp only [Namespace.importsName_iff, named.normalize_eq]
    constructor
    · rintro ⟨i, listed, isType, same⟩
      rcases (mem_imports_onNamespace_iff wf keyed free isType).1 listed with
        before | ⟨added, adds, rfl⟩
      · exact Or.inl ⟨i, before, isType, same⟩
      · exact Or.inr ⟨added, adds, same⟩
    · rintro (⟨i, before, isType, same⟩ | ⟨added, adds, same⟩)
      · exact ⟨i, (mem_imports_onNamespace_iff wf keyed free isType).2 (Or.inl before), isType, same⟩
      · exact ⟨⟨added, Name.short added, .type⟩,
          (mem_imports_onNamespace_iff wf keyed free rfl).2 (Or.inr ⟨added, adds, rfl⟩), rfl, same⟩
  simp only [Namespace.needsNoImport, Bool.or_eq_true, imports, name_onNamespace, or_assoc]

theorem free_onNamespace_iff {name : String} :
    Free (a.onNamespace ns).1 name ↔
      Free ns name ∧ ∀ added, a.adds ns = some added →
        Text.lower (Name.short added) ≠ Text.lower (Name.short name) := by
  constructor
  · intro still
    refine ⟨⟨fun i before isType => ?_, ?_⟩, fun added adds => ?_⟩
    · exact still.aliases i ((mem_imports_onNamespace_iff wf keyed free isType).2 (Or.inl before))
        isType
    · rw [← keys_types_onNamespace a ns]
      exact still.types
    · have listed : (⟨added, Name.short added, .type⟩ : Import) ∈
          (a.onNamespace ns).1.imports.values :=
        (mem_imports_onNamespace_iff wf keyed free rfl).2 (Or.inr ⟨added, adds, rfl⟩)
      have apart := still.aliases _ listed rfl
      dsimp only at apart
      exact apart
  · rintro ⟨before, apart⟩
    refine ⟨fun i listed isType => ?_, ?_⟩
    · rcases (mem_imports_onNamespace_iff wf keyed free isType).1 listed with
        there | ⟨added, adds, rfl⟩
      · exact before.aliases i there isType
      · dsimp only
        exact apart added adds
    · rw [keys_types_onNamespace]
      exact before.types

variable (independent : Independent a b) (wf' : b.WellFormed)

include independent wf'

/-- **What the second mutation still adds**: its class, unless the first one added that. -/
theorem adds_onNamespace :
    b.adds (a.onNamespace ns).1 = if a.adds ns = b.adds ns then none else b.adds ns := by
  refine Option.ext fun name => ?_
  rw [adds_eq_some_iff, reaches_onNamespace, Option.ite_none_left_eq_some, adds_eq_some_iff]
  constructor
  · rintro ⟨named, reached, needed⟩
    rw [Bool.eq_false_iff, ne_eq,
      needsNoImport_onNamespace_iff wf keyed free (wellFormed_of_className? wf' named), not_or,
      ← ne_eq, ← Bool.eq_false_iff] at needed
    refine ⟨fun same => needed.2 ?_, named, reached, needed.1⟩
    exact ⟨name, same.trans (adds_eq_some_iff.2 ⟨named, reached, needed.1⟩), rfl⟩
  · rintro ⟨differ, named, reached, needed⟩
    refine ⟨named, reached, ?_⟩
    rw [Bool.eq_false_iff, ne_eq,
      needsNoImport_onNamespace_iff wf keyed free (wellFormed_of_className? wf' named), not_or,
      ← ne_eq, ← Bool.eq_false_iff]
    refine ⟨needed, ?_⟩
    rintro ⟨added, adds, same⟩
    have equal := independent.eq_of_lower_eq (adds_eq_some_iff.1 adds).1 named same
    exact differ (adds.trans (equal ▸ (adds_eq_some_iff.2 ⟨named, reached, needed⟩).symm))

variable (free' : ∀ name, b.adds (a.onNamespace ns).1 = some name →
  Free (a.onNamespace ns).1 name)

include free'

/-- The class of the second mutation is free before the first one: it is the class that
the first one added, or still free afterwards. -/
theorem free_of_free_after {name : String} (adds : b.adds ns = some name) : Free ns name := by
  by_cases same : a.adds ns = b.adds ns
  · exact free name (same.trans adds)
  · have still : b.adds (a.onNamespace ns).1 = some name := by
      rw [adds_onNamespace wf keyed free independent wf', if_neg same, adds]
    exact ((free_onNamespace_iff wf keyed free).1 (free' name still)).1

theorem shorts_apart {x y : String} (first : a.adds ns = some x) (second : b.adds ns = some y)
    (ne : x ≠ y) : Text.lower (Name.short x) ≠ Text.lower (Name.short y) := by
  have still : b.adds (a.onNamespace ns).1 = some y := by
    rw [adds_onNamespace wf keyed free independent wf', if_neg (by simp [first, second, ne]),
      second]
  exact ((free_onNamespace_iff wf keyed free).1 (free' y still)).2 x first

/-- The class of the first mutation is free after the second one. -/
theorem free_after_of_free {name : String} (adds : a.adds (b.onNamespace ns).1 = some name) :
    Free (b.onNamespace ns).1 name := by
  have freeB : ∀ name, b.adds ns = some name → Free ns name := fun _ =>
    free_of_free_after wf keyed free independent wf' free'
  rw [adds_onNamespace wf' keyed freeB independent.symm wf, Option.ite_none_left_eq_some] at adds
  refine (free_onNamespace_iff wf' keyed freeB).2 ⟨free name adds.2, fun other second => ?_⟩
  have ne : name ≠ other := by
    rintro rfl
    exact adds.1 (second.trans adds.2.symm)
  exact (shorts_apart wf keyed free independent wf' free' adds.2 second ne).symm

/-- The imports are the same in both orders, up to the order of the entries. -/
theorem imports_comm :
    ((a.onNamespace (b.onNamespace ns).1).1.imports ==
      (b.onNamespace (a.onNamespace ns).1).1.imports) = true := by
  have freeB : ∀ name, b.adds ns = some name → Free ns name := fun _ =>
    free_of_free_after wf keyed free independent wf' free'
  have after := adds_onNamespace wf keyed free independent wf'
  have after' := adds_onNamespace wf' keyed freeB independent.symm wf
  rw [onNamespace_eq wf (b.onNamespace ns).1, onNamespace_eq wf' (a.onNamespace ns).1, after,
    after', onNamespace_eq wf, onNamespace_eq wf']
  dsimp only
  cases first : a.adds ns with
  | none => cases second : b.adds ns <;> simp [withImport]
  | some x =>
      cases second : b.adds ns with
      | none => simp [withImport]
      | some y =>
          by_cases same : x = y
          · simp [withImport, same]
          · have apart := shorts_apart wf keyed free independent wf' free' first second same
            rw [if_neg (by simpa using Ne.symm same), if_neg (by simpa using same)]
            exact Table.insert_comm _ (fun short => apart (congrArg Text.lower short).symm) _ _

/-- **Two mutations of one namespace commute.** -/
theorem onNamespace_comm :
    ((a.onNamespace (b.onNamespace ns).1).1 == (b.onNamespace (a.onNamespace ns).1).1) = true := by
  have imports := imports_comm wf keyed free independent wf' free'
  have types : (a.onNamespace (b.onNamespace ns).1).1.types =
      (b.onNamespace (a.onNamespace ns).1).1.types := by
    have here : a.declAfter (b.onNamespace ns).1 = a.declAfter ns :=
      funext fun decl => declAfter_of_name_eq (name_onNamespace b ns) decl
    have here' : b.declAfter (a.onNamespace ns).1 = b.declAfter ns :=
      funext fun decl => declAfter_of_name_eq (name_onNamespace a ns) decl
    rw [onNamespace_eq wf (b.onNamespace ns).1, onNamespace_eq wf' (a.onNamespace ns).1]
    dsimp only
    rw [here, here', onNamespace_eq wf, onNamespace_eq wf', Table.mapValues_mapValues,
      Table.mapValues_mapValues]
    simp only [independent.declAfter_comm]
  refine Namespace.beq_iff.2 ⟨?_, imports, ?_, ?_, ?_⟩
  · simp only [name_onNamespace]
  · simp only [onNamespace_eq wf, onNamespace_eq wf', BEq.rfl]
  · simp only [onNamespace_eq wf, onNamespace_eq wf', BEq.rfl]
  · rw [types]
    exact BEq.rfl

end Namespaces

/-! ## Units and checks -/

/-- A mutation that edits no base types leaves the check of base classes alone. -/
theorem checkSingleInheritance_edit_iff {a : Mutation} (others : a.part? ≠ some .bases)
    (u : SourceUnit) (base : String) :
    checkSingleInheritance (a.edit u).1 base = .ok () ↔ checkSingleInheritance u base = .ok () := by
  have baseType : ∀ ns decl, (a.declAfter ns decl).baseType? = decl.baseType? := by
    intro ns decl
    have bases : (a.declAfter ns decl).bases = decl.bases := get_declAfter others ns decl
    simp only [TypeDecl.baseType?, kind_declAfter, bases]
  have self : ∀ ns decl,
      isSelf (a.onNamespace ns).1 (a.declAfter ns decl) base = isSelf ns decl base := by
    intro ns decl
    simp only [isSelf, name_onNamespace, name_declAfter]
  simp only [checkSingleInheritance_eq_ok_iff, mem_namespaces_edit, forall_exists_index, and_imp,
    forall_apply_eq_imp_iff₂, values_types_onNamespace, List.forall_mem_map, baseType, self]

section Units

variable {a b : Mutation} {u : SourceUnit} (checked : a.check u = .ok ())
  (checked' : b.check (a.edit u).1 = .ok ())

include checked checked'

/-- What the two passed checks say about one namespace. -/
theorem free_of_checks {ns : Namespace} (listed : ns ∈ u.namespaces.values) :
    (∀ name, a.adds ns = some name → Free ns name) ∧
      ∀ name, b.adds (a.onNamespace ns).1 = some name → Free (a.onNamespace ns).1 name := by
  constructor
  · exact (check_eq_ok_iff.1 checked).1 ns listed
  · exact (check_eq_ok_iff.1 checked').1 _ (mem_namespaces_edit.2 ⟨ns, listed, rfl⟩)

variable (independent : Independent a b) (wf : a.WellFormed) (wf' : b.WellFormed)
  (keyed : ∀ ns ∈ u.namespaces.values, ns.imports.KeyedBy Import.localName)

include independent wf wf' keyed

theorem check_of_check_after : b.check u = .ok () := by
  refine check_eq_ok_iff.2 ⟨fun ns listed name => ?_, ?_⟩
  · obtain ⟨free, free'⟩ := free_of_checks checked checked' listed
    exact free_of_free_after wf (keyed ns listed) free independent wf' free'
  · rintro base rfl
    have others : a.part? ≠ some .bases := independent.symm.part?_ne rfl
    rw [← checkSingleInheritance_edit_iff others]
    exact (check_eq_ok_iff.1 checked').2 base rfl

theorem check_after_of_check : a.check (b.edit u).1 = .ok () := by
  refine check_eq_ok_iff.2 ⟨fun after listedAfter name => ?_, ?_⟩
  · obtain ⟨ns, listed, rfl⟩ := mem_namespaces_edit.1 listedAfter
    obtain ⟨free, free'⟩ := free_of_checks checked checked' listed
    exact free_after_of_free wf (keyed ns listed) free independent wf' free'
  · rintro base rfl
    have others : b.part? ≠ some .bases := independent.part?_ne rfl
    rw [checkSingleInheritance_edit_iff others]
    exact (check_eq_ok_iff.1 checked).2 base rfl

theorem edit_comm : ((a.edit (b.edit u).1).1 == (b.edit (a.edit u).1).1) = true := by
  simp only [edit_fst, Table.mapValues_mapValues]
  refine SourceUnit.beq_iff.2 ⟨(independent.strictAfter_comm u.strictTypes).symm, ?_⟩
  refine Table.mapValues_beq_mapValues fun ns listed => BEq.symm ?_
  obtain ⟨free, free'⟩ := free_of_checks checked checked' listed
  exact onNamespace_comm wf (keyed ns listed) free independent wf' free'

end Units

/-- **Independent mutations commute.** Where one after the other succeeds, so does the other
order, and the units are the same up to the order in their tables. -/
theorem apply_comm {a b : Mutation} (independent : Independent a b) (wf : a.WellFormed)
    (wf' : b.WellFormed) {u v w : SourceUnit} {changes changes' : Nat}
    (keyed : ∀ ns ∈ u.namespaces.values, ns.imports.KeyedBy Import.localName)
    (first : a.apply u = .ok (v, changes)) (second : b.apply v = .ok (w, changes')) :
    ∃ v' w' n n', b.apply u = .ok (v', n) ∧ a.apply v' = .ok (w', n') ∧ (w' == w) = true := by
  obtain ⟨checked, edited⟩ := apply_eq_ok_iff.1 first
  obtain ⟨checked', edited'⟩ := apply_eq_ok_iff.1 second
  obtain rfl : (a.edit u).1 = v := congrArg Prod.fst edited
  obtain rfl : (b.edit (a.edit u).1).1 = w := congrArg Prod.fst edited'
  refine ⟨(b.edit u).1, (a.edit (b.edit u).1).1, (b.edit u).2, (a.edit (b.edit u).1).2, ?_, ?_, ?_⟩
  · exact apply_eq_ok_iff.2
      ⟨check_of_check_after checked checked' independent wf wf' keyed, rfl⟩
  · exact apply_eq_ok_iff.2
      ⟨check_after_of_check checked checked' independent wf wf' keyed, rfl⟩
  · exact edit_comm checked checked' independent wf wf' keyed

namespace Example

/-- A class and a trait in one namespace, an interface in another. -/
def mixed : SourceUnit :=
  { strictTypes := false
    namespaces := .ofList
      [("App", { Namespace.ofName "App" with
          types := .ofList [("A", .ofName .class "A"), ("T", .ofName .trait "T")] }),
       ("Api", { Namespace.ofName "Api" with types := .ofList [("B", .ofName .interface "B")] })] }

/-- A trait is used and an interface implemented, in both orders: each is imported where it
is needed, the first one of them first. -/
theorem use_comm_implement :
    ∃ v w, (use_ "Lib\\Logs").apply mixed = .ok (v, 3) ∧
      (implement_ "Lib\\Sends").apply v = .ok (w, 2) ∧
      ∃ v' w' n n', (implement_ "Lib\\Sends").apply mixed = .ok (v', n) ∧
        (use_ "Lib\\Logs").apply v' = .ok (w', n') ∧ (w' == w) = true := by
  have independent : Independent (use_ "Lib\\Logs") (implement_ "Lib\\Sends") :=
    ⟨Or.inl rfl, by
      rintro x y ⟨⟩ ⟨⟩
      exact Or.inr (by decide +kernel)⟩
  have first : (use_ "Lib\\Logs").apply mixed = .ok (((use_ "Lib\\Logs").edit mixed).1, 3) :=
    apply_eq_ok_iff.2 ⟨by rfl, Prod.ext rfl (by decide +kernel)⟩
  have second : (implement_ "Lib\\Sends").apply ((use_ "Lib\\Logs").edit mixed).1 =
      .ok (((implement_ "Lib\\Sends").edit ((use_ "Lib\\Logs").edit mixed).1).1, 2) :=
    apply_eq_ok_iff.2 ⟨by rfl, Prod.ext rfl (by decide +kernel)⟩
  exact ⟨_, _, first, second, apply_comm independent (by decide +kernel) (by decide +kernel)
    (by decide +kernel) first second⟩

end Example

end Emend.Mutation

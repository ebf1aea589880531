import Emend.Proofs.Edit.Mutation

/-!
# A mutation is satisfied once it was applied

A mutation says what a unit should contain, so applying it a second time finds
everything in place. Per namespace: after the first edit a class that was
imported needs no import, and a declaration that was edited is not edited again,
in whatever case the class is named (`onNamespace_again`). Per unit: the check
passes again (`check_again`), and the number of changes is zero exactly when
nothing changed (`edit_counts`). `apply_idempotent` puts these together.

Doc lines are the exception, which append at every application.
-/

set_option autoImplicit false

namespace Emend.Mutation

inductive Agrees : Mutation → Mutation → Prop where
  | import_ {a b : String} (same : Text.sameIgnoringCase a b = true) :
      Agrees (.import_ a) (.import_ b)
  | use_ {a b : String} (same : Text.sameIgnoringCase a b = true) : Agrees (.use_ a) (.use_ b)
  | extend_ {a b : String} (same : Text.sameIgnoringCase a b = true) :
      Agrees (.extend_ a) (.extend_ b)
  | implement_ {a b : String} (same : Text.sameIgnoringCase a b = true) :
      Agrees (.implement_ a) (.implement_ b)
  | property (p : Property) : Agrees (.property p) (.property p)
  | constant (c : Constant) : Agrees (.constant c) (.constant c)
  | method (m : Method) : Agrees (.method m) (.method m)
  | doc (line : String) : Agrees (.doc line) (.doc line)
  | strictTypes (on : Bool) : Agrees (.strictTypes on) (.strictTypes on)

theorem Agrees.refl (mutation : Mutation) : mutation.Agrees mutation := by
  cases mutation with
  | import_ name => exact .import_ (Text.sameIgnoringCase_iff.2 rfl)
  | use_ name => exact .use_ (Text.sameIgnoringCase_iff.2 rfl)
  | extend_ name => exact .extend_ (Text.sameIgnoringCase_iff.2 rfl)
  | implement_ name => exact .implement_ (Text.sameIgnoringCase_iff.2 rfl)
  | property p => exact .property p
  | constant c => exact .constant c
  | method m => exact .method m
  | doc line => exact .doc line
  | strictTypes on => exact .strictTypes on

/-- The count of an edit says whether it changed anything: without a change nothing
moved, and a result that only moved elements counts none. -/
def Counts {α : Type} [BEq α] (before : α) (result : α × Nat) : Prop :=
  (result.2 = 0 → result.1 = before) ∧ ((result.1 == before) = true → result.2 = 0)

theorem Counts.eq_zero_iff {α : Type} [BEq α] [ReflBEq α] {before : α} {result : α × Nat}
    (counts : Counts before result) : result.2 = 0 ↔ result.1 = before :=
  ⟨counts.1, fun same => counts.2 (same ▸ BEq.rfl)⟩

theorem Counts.eq_zero_iff_beq {α : Type} [BEq α] [ReflBEq α] {before : α} {result : α × Nat}
    (counts : Counts before result) : result.2 = 0 ↔ (result.1 == before) = true :=
  ⟨fun unchanged => counts.1 unchanged ▸ BEq.rfl, counts.2⟩

/-! ## Edits that find everything in place -/

theorem importInto_eq_self {name : String} {reached : Namespace → Bool} {ns : Namespace}
    (done : reached ns = true → ns.needsNoImport name = true) :
    importInto name reached ns = (ns, 0) := by
  unfold importInto
  by_cases h : reached ns = true
  · simp [h, done h]
  · simp [h]

theorem editDecls_eq_self {f : Namespace → TypeDecl → Option TypeDecl} {ns : Namespace}
    (done : ∀ decl ∈ ns.types.values, f ns decl = none) : editDecls f ns = (ns, 0) := by
  have same : (ns.types.mapValues fun decl => (f ns decl).getD decl) = ns.types :=
    Table.mapValues_eq_self fun decl declared => by rw [done decl declared, Option.getD_none]
  have unedited : ns.types.values.filter (fun decl => (f ns decl).isSome) = [] :=
    List.filter_eq_nil_iff.2 fun decl declared => by simp [done decl declared]
  simp only [editDecls, same, unedited, List.length_nil]

theorem both_eq_self {f g : Namespace → Namespace × Nat} {ns : Namespace}
    (first : f ns = (ns, 0)) (second : g ns = (ns, 0)) : both f g ns = (ns, 0) := by
  simp [both, first, second]

/-! ## Imports -/

theorem needsNoImport_insertImport (ns : Namespace) {name : String} (wf : Name.WellFormed name) :
    (ns.insertImport (Import.ofName name)).needsNoImport name = true := by
  have imported : (ns.insertImport (Import.ofName name)).importsName name = true := by
    rw [ns.insertImport_ofName wf.settled, Namespace.importsName_iff, wf.normalize_eq]
    have listed : (⟨name, Name.short name, .type⟩ : Import) ∈
        (ns.imports.insert (Name.short name) ⟨name, Name.short name, .type⟩).values :=
      Table.mem_values.2 ⟨Name.short name, mem_upsert_self _ _ _⟩
    exact ⟨_, listed, by simp⟩
  simp [Namespace.needsNoImport, imported]

/-- A namespace that is reached needs no import of the class afterwards. -/
theorem needsNoImport_importInto {name : String} (wf : Name.WellFormed name)
    {reached : Namespace → Bool} {ns : Namespace} (reaches : reached ns = true) :
    (importInto name reached ns).1.needsNoImport name = true := by
  unfold importInto
  cases needed : ns.needsNoImport name with
  | true => simp [needed]
  | false => simp [reaches, needsNoImport_insertImport ns wf]

theorem importInto_eq_of_zero {name : String} {reached : Namespace → Bool} {ns : Namespace}
    (unchanged : (importInto name reached ns).2 = 0) : (importInto name reached ns).1 = ns := by
  unfold importInto at unchanged ⊢
  split
  · rename_i imported
    simp [imported] at unchanged
  · rfl

theorem importInto_eq_zero_of_beq {name : String} (wf : Name.WellFormed name)
    {reached : Namespace → Bool} {ns : Namespace}
    (same : ((importInto name reached ns).1.imports == ns.imports) = true) :
    (importInto name reached ns).2 = 0 := by
  by_cases reaches : reached ns = true
  · have needed : ns.needsNoImport name = true :=
      Namespace.needsNoImport_of_beq (importInto_name name reached ns) same
        (needsNoImport_importInto wf reaches)
    simp [importInto, needed]
  · simp [importInto, reaches]

/-! ## Declarations

Each edit of a declaration adds an element unless it is there; afterwards it is
there, in every case of its name. -/

/-- An edit with a guard does nothing exactly when the guard fails. -/
theorem eq_none_iff_not_guard {edit : Option TypeDecl} {guard : Prop} {added : TypeDecl}
    (guarded : ∀ decl, edit = some decl ↔ guard ∧ added = decl) : edit = none ↔ ¬ guard := by
  rw [Option.eq_none_iff_forall_ne_some]
  constructor
  · exact fun never holds => never added ((guarded added).2 ⟨holds, rfl⟩)
  · exact fun fails decl edited => fails ((guarded decl).1 edited).1

section Again

variable {a b : String} (same : Text.lower a = Text.lower b) {ns ns' : Namespace}
  (here : ns'.name = ns.name) (decl : TypeDecl)

include same

theorem addInterface_again : addInterface b ((addInterface a decl).getD decl) = none := by
  rw [eq_none_iff_not_guard fun _ => addInterface_eq_some_iff]
  simp only [← sameClass_congr same]
  cases first : addInterface a decl with
  | none => exact (eq_none_iff_not_guard fun _ => addInterface_eq_some_iff).1 first
  | some edited =>
      obtain ⟨-, rfl⟩ := addInterface_eq_some_iff.1 first
      simp [sameClass_self]

include here

theorem addTrait_again : addTrait b ns' ((addTrait a ns decl).getD decl) = none := by
  rw [eq_none_iff_not_guard fun _ => addTrait_eq_some_iff]
  simp only [← sameClass_congr same, ← isSelf_congr same, isSelf_of_name_eq here]
  cases first : addTrait a ns decl with
  | none => exact (eq_none_iff_not_guard fun _ => addTrait_eq_some_iff).1 first
  | some edited =>
      obtain ⟨-, rfl⟩ := addTrait_eq_some_iff.1 first
      rintro ⟨-, -, absent⟩
      have used := List.any_eq_false.1 absent a (Table.mem_keys_insert _ _ _)
      exact used (sameClass_self a)

theorem addBase_again : addBase b ns' ((addBase a ns decl).getD decl) = none := by
  rw [eq_none_iff_not_guard fun _ => addBase_eq_some_iff]
  simp only [lacksBase, ← sameClass_congr same, ← isSelf_congr same, isSelf_of_name_eq here]
  cases first : addBase a ns decl with
  | none => exact (eq_none_iff_not_guard fun _ => addBase_eq_some_iff).1 first
  | some edited =>
      obtain ⟨-, rfl⟩ := addBase_eq_some_iff.1 first
      rintro ⟨-, lacks⟩
      cases kind : decl.kind <;> simp [kind, sameClass_self] at lacks

end Again

theorem addProperty_again (p : Property) (decl : TypeDecl) :
    addProperty p ((addProperty p decl).getD decl) = none := by
  cases first : addProperty p decl with
  | none => exact first
  | some edited =>
      obtain ⟨-, rfl⟩ := addProperty_eq_some_iff.1 first
      rw [eq_none_iff_not_guard fun _ => addProperty_eq_some_iff]
      exact fun absent => absent.2 (Table.mem_keys_insert _ _ _)

theorem addConstant_again (c : Constant) (decl : TypeDecl) :
    addConstant c ((addConstant c decl).getD decl) = none := by
  cases first : addConstant c decl with
  | none => exact first
  | some edited =>
      obtain ⟨-, rfl⟩ := addConstant_eq_some_iff.1 first
      rw [eq_none_iff_not_guard fun _ => addConstant_eq_some_iff]
      exact fun absent => absent (Table.mem_keys_insert _ _ _)

theorem addMethod_again (m : Method) (decl : TypeDecl) :
    addMethod m ((addMethod m decl).getD decl) = none := by
  cases first : addMethod m decl with
  | none => exact first
  | some edited =>
      obtain ⟨-, rfl⟩ := addMethod_eq_some_iff.1 first
      rw [eq_none_iff_not_guard fun _ => addMethod_eq_some_iff]
      exact fun absent => absent (Table.mem_keys_insert _ _ _)

/-! ## Namespaces -/

section Namespaces

variable {f g : Namespace → TypeDecl → Option TypeDecl} {ns : Namespace}

theorem declares_editDecls (adds : Adds f) (wanted : TypeKind → Bool) :
    declares wanted (editDecls f ns).1 = declares wanted ns := by
  have kind : ∀ decl, ((f ns decl).getD decl).kind = decl.kind := by
    intro decl
    cases edited : f ns decl with
    | none => rfl
    | some decl' => exact adds.kind edited
  simp only [declares, editDecls, Table.values_mapValues, List.any_map, Function.comp_def, kind]

theorem editDecls_counts (adds : Adds f) : Counts ns (editDecls f ns) := by
  constructor
  · intro uncounted
    have done : ∀ decl ∈ ns.types.values, f ns decl = none := by
      simpa [editDecls] using uncounted
    rw [editDecls_eq_self done]
  · intro same
    have types : ((ns.types.mapValues fun decl => (f ns decl).getD decl) == ns.types) = true :=
      (Namespace.beq_iff.1 same).2.2.2.2
    have done : ∀ decl ∈ ns.types.values, f ns decl = none := by
      intro decl declared
      cases edited : f ns decl with
      | none => rfl
      | some decl' =>
          have unchanged := Table.beq_of_mapValues_beq types decl declared
          rw [edited, Option.getD_some] at unchanged
          exact absurd unchanged (adds.unlike edited)
    rw [editDecls_eq_self done]

theorem editDecls_again
    (again : ∀ {ns' decl}, ns'.name = ns.name → g ns' ((f ns decl).getD decl) = none) :
    editDecls g (editDecls f ns).1 = ((editDecls f ns).1, 0) := by
  refine editDecls_eq_self fun decl' declared => ?_
  obtain ⟨decl, -, rfl⟩ := mem_editDecls.1 declared
  exact again rfl

/-- The two parts of an edit change different fields, so they cannot undo each
other. -/
theorem both_counts {name : String} (wf : Name.WellFormed name) (adds : Adds f)
    (reached : Namespace → Bool) :
    Counts ns (both (importInto name reached) (editDecls f) ns) := by
  constructor
  · intro uncounted
    have parts : (importInto name reached ns).2 = 0 ∧
        (editDecls f (importInto name reached ns).1).2 = 0 := Nat.add_eq_zero_iff.1 uncounted
    have unchanged := importInto_eq_of_zero parts.1
    rw [unchanged] at parts
    rw [both, unchanged]
    exact (editDecls_counts adds).1 parts.2
  · intro same
    have imports : ((importInto name reached ns).1.imports == ns.imports) = true :=
      (Namespace.beq_iff.1 same).2.1
    have first := importInto_eq_zero_of_beq wf imports
    have unchanged := importInto_eq_of_zero first
    rw [both, unchanged] at same
    rw [both, first, unchanged, (editDecls_counts adds).2 same]

variable {a b : String} {wanted : TypeKind → Bool}

/-- A namespace that is reached needs no import of the class after the edit. -/
theorem needsNoImport_both (wf : Name.WellFormed a) (same : Text.lower a = Text.lower b)
    (adds : Adds f)
    (reaches : declares wanted (both (importInto a (declares wanted)) (editDecls f) ns).1 = true) :
    (both (importInto a (declares wanted)) (editDecls f) ns).1.needsNoImport b = true := by
  have before : declares wanted ns = true := by
    rw [both, declares_editDecls adds, declares, importInto_types] at reaches
    exact reaches
  rw [← Namespace.needsNoImport_congr _ same, ← needsNoImport_importInto wf before]
  exact Namespace.needsNoImport_of_eq rfl rfl a

theorem both_again (wf : Name.WellFormed a) (same : Text.lower a = Text.lower b) (adds : Adds f)
    (again : ∀ {ns ns' decl}, ns'.name = ns.name → g ns' ((f ns decl).getD decl) = none) :
    both (importInto b (declares wanted)) (editDecls g)
        (both (importInto a (declares wanted)) (editDecls f) ns).1 =
      ((both (importInto a (declares wanted)) (editDecls f) ns).1, 0) :=
  both_eq_self (importInto_eq_self fun reaches => needsNoImport_both wf same adds reaches)
    (editDecls_again again)

theorem importInto_again (wf : Name.WellFormed a) (same : Text.lower a = Text.lower b)
    (ns : Namespace) :
    importInto b (fun _ => true) (importInto a (fun _ => true) ns).1 =
      ((importInto a (fun _ => true) ns).1, 0) := by
  refine importInto_eq_self fun _ => ?_
  rw [← Namespace.needsNoImport_congr _ same]
  exact needsNoImport_importInto wf rfl

end Namespaces

section Main

variable {m m' : Mutation} (noDoc : ∀ line, m ≠ doc line) (wf : m.WellFormed)

include noDoc wf

/-- **A namespace that a mutation edited is not edited again.** -/
theorem onNamespace_again (agrees : m.Agrees m') (ns : Namespace) :
    m'.onNamespace (m.onNamespace ns).1 = ((m.onNamespace ns).1, 0) := by
  cases agrees with
  | import_ same => exact importInto_again wf (Text.sameIgnoringCase_iff.1 same) ns
  | use_ same =>
      have lower := Text.sameIgnoringCase_iff.1 same
      exact both_again wf lower (adds_addTrait _) fun here => addTrait_again lower here _
  | extend_ same =>
      have lower := Text.sameIgnoringCase_iff.1 same
      exact both_again wf lower (adds_addBase _) fun here => addBase_again lower here _
  | implement_ same =>
      have lower := Text.sameIgnoringCase_iff.1 same
      exact both_again wf lower (adds_addInterface _) fun _ => addInterface_again lower _
  | property p =>
      exact editDecls_again (f := fun _ => addProperty p) fun _ => addProperty_again p _
  | constant c =>
      exact editDecls_again (f := fun _ => addConstant c) fun _ => addConstant_again c _
  | method added =>
      exact editDecls_again (f := fun _ => addMethod added) fun _ => addMethod_again added _
  | doc line => exact absurd rfl (noDoc line)
  | strictTypes on => rfl

theorem onNamespace_counts (ns : Namespace) : Counts ns (m.onNamespace ns) := by
  cases m with
  | import_ name =>
      simp only [onNamespace]
      constructor
      · exact importInto_eq_of_zero
      · exact fun same => importInto_eq_zero_of_beq wf (Namespace.beq_iff.1 same).2.1
  | use_ name => exact both_counts wf (adds_addTrait name) _
  | extend_ name => exact both_counts wf (adds_addBase name) _
  | implement_ name => exact both_counts wf (adds_addInterface name) _
  | property p => exact editDecls_counts (adds_addProperty p)
  | constant c => exact editDecls_counts (adds_addConstant c)
  | method added => exact editDecls_counts (adds_addMethod added)
  | doc line => exact absurd rfl (noDoc line)
  | strictTypes on => exact ⟨fun _ => rfl, fun _ => rfl⟩

end Main

/-! ## Units -/

section Units

variable {f g : Namespace → Namespace × Nat} {u : SourceUnit}

theorem mem_editNamespaces {ns' : Namespace} :
    ns' ∈ (editNamespaces u f).1.namespaces.values ↔
      ∃ ns ∈ u.namespaces.values, (f ns).1 = ns' := by
  simp only [editNamespaces, Table.values_mapValues, List.mem_map]

theorem editNamespaces_eq_self (done : ∀ ns ∈ u.namespaces.values, f ns = (ns, 0)) :
    editNamespaces u f = (u, 0) := by
  have same : (u.namespaces.mapValues fun ns => (f ns).1) = u.namespaces :=
    Table.mapValues_eq_self fun ns listed => by rw [done ns listed]
  have unchanged : total (fun ns => (f ns).2) u.namespaces.values = 0 :=
    total_eq_zero_iff.2 fun ns listed => by rw [done ns listed]
  simp only [editNamespaces, same, unchanged]

theorem editNamespaces_again (again : ∀ ns, g (f ns).1 = ((f ns).1, 0)) :
    editNamespaces (editNamespaces u f).1 g = ((editNamespaces u f).1, 0) := by
  refine editNamespaces_eq_self fun ns' listed => ?_
  obtain ⟨ns, -, rfl⟩ := mem_editNamespaces.1 listed
  exact again ns

theorem editNamespaces_counts (counts : ∀ ns, Counts ns (f ns)) : Counts u (editNamespaces u f) := by
  constructor
  · intro unchanged
    have done : ∀ ns ∈ u.namespaces.values, f ns = (ns, 0) := by
      intro ns listed
      have zero := total_eq_zero_iff.1 unchanged ns listed
      exact Prod.ext ((counts ns).1 zero) zero
    rw [editNamespaces_eq_self done]
  · intro same
    have namespaces := Table.beq_of_mapValues_beq (SourceUnit.beq_iff.1 same).2
    exact total_eq_zero_iff.2 fun ns listed => (counts ns).2 (namespaces ns listed)

end Units

section Check

variable {a b : String} (wf : Name.WellFormed a) (same : Text.lower a = Text.lower b)
  {u : SourceUnit}

include wf same

/-- No namespace that is reached needs the import again. -/
theorem checkImports_again {f : Namespace → TypeDecl → Option TypeDecl} (adds : Adds f)
    (wanted : TypeKind → Bool) :
    checkImports (editNamespaces u (both (importInto a (declares wanted)) (editDecls f))).1 b
      (declares wanted) = .ok () := by
  rw [checkImports_eq_ok_iff]
  intro ns' listed reaches
  obtain ⟨ns, -, rfl⟩ := mem_editNamespaces.1 listed
  exact importConflict?_eq_none_iff.2 (Or.inl (needsNoImport_both wf same adds reaches))

theorem checkImports_import_again :
    checkImports (editNamespaces u (importInto a fun _ => true)).1 b (fun _ => true) = .ok () := by
  rw [checkImports_eq_ok_iff]
  intro ns' listed _
  obtain ⟨ns, -, rfl⟩ := mem_editNamespaces.1 listed
  refine importConflict?_eq_none_iff.2 (Or.inl ?_)
  rw [← Namespace.needsNoImport_congr _ same]
  exact needsNoImport_importInto wf rfl

omit wf

/-- A class that got a base class got this one, and every other class had passed
the check before. -/
theorem checkSingleInheritance_again (reached : Namespace → Bool)
    (checked : checkSingleInheritance u a = .ok ()) :
    checkSingleInheritance
      (editNamespaces u (both (importInto a reached) (editDecls (addBase a)))).1 b = .ok () := by
  rw [checkSingleInheritance_eq_ok_iff] at checked ⊢
  intro ns' listed decl' declared existing base
  obtain ⟨ns, before, rfl⟩ := mem_editNamespaces.1 listed
  obtain ⟨decl, declaredBefore, rfl⟩ := mem_editDecls.1 declared
  rw [importInto_types] at declaredBefore
  have here : (both (importInto a reached) (editDecls (addBase a)) ns).1.name = ns.name :=
    importInto_name a reached ns
  rw [isSelf_of_name_eq here, ← isSelf_congr same, ← sameClass_congr same]
  cases edited : addBase a (importInto a reached ns).1 decl with
  | none =>
      rw [edited, Option.getD_none] at base
      rw [Option.getD_none]
      exact checked ns before decl declaredBefore existing base
  | some decl' =>
      rw [edited, Option.getD_some] at base
      obtain ⟨⟨-, lacks⟩, rfl⟩ := addBase_eq_some_iff.1 edited
      right
      cases kind : decl.kind with
      | «class» =>
          have bare : decl.bases = [] := by simpa [lacksBase, kind] using lacks
          have given : a = existing := by simpa [TypeDecl.baseType?, kind, bare] using base
          exact given ▸ sameClass_self a
      | interface | trait => simp [TypeDecl.baseType?, kind] at base

end Check

section Main

variable {m m' : Mutation} (noDoc : ∀ line, m ≠ doc line) (wf : m.WellFormed)
  (agrees : m.Agrees m') {u : SourceUnit}

include wf agrees

/-- **A mutation that passed its check passes it again after the edit.** -/
theorem check_again (checked : m.check u = .ok ()) : m'.check (m.edit u).1 = .ok () := by
  cases agrees with
  | import_ same => exact checkImports_import_again wf (Text.sameIgnoringCase_iff.1 same)
  | use_ same =>
      rw [edit_eq _ _ (by simp)]
      exact checkImports_again wf (Text.sameIgnoringCase_iff.1 same) (adds_addTrait _) _
  | extend_ same =>
      have lower := Text.sameIgnoringCase_iff.1 same
      rw [check_extend_eq_ok_iff] at checked ⊢
      rw [edit_eq _ _ (by simp)]
      exact ⟨checkImports_again wf lower (adds_addBase _) _,
        checkSingleInheritance_again lower _ checked.2⟩
  | implement_ same =>
      rw [edit_eq _ _ (by simp)]
      exact checkImports_again wf (Text.sameIgnoringCase_iff.1 same) (adds_addInterface _) _
  | property p | constant c | method added | doc line | strictTypes on => rfl

include noDoc

theorem edit_again : m'.edit (m.edit u).1 = ((m.edit u).1, 0) := by
  by_cases directive : ∃ on, m = strictTypes on
  · obtain ⟨on, rfl⟩ := directive
    cases agrees
    simp [edit]
  · have plain : ∀ on, m ≠ strictTypes on := fun on e => directive ⟨on, e⟩
    have plain' : ∀ on, m' ≠ strictTypes on := by
      rintro on rfl
      cases agrees
      exact plain on rfl
    rw [edit_eq m u plain, edit_eq m' _ plain']
    exact editNamespaces_again (onNamespace_again noDoc wf agrees)

omit agrees

theorem edit_counts : Counts u (m.edit u) := by
  by_cases directive : ∃ on, m = strictTypes on
  · obtain ⟨on, rfl⟩ := directive
    obtain ⟨strict, namespaces⟩ := u
    cases strict <;> cases on <;> simp [Counts, edit, SourceUnit.beq_iff]
  · rw [edit_eq m u fun on e => directive ⟨on, e⟩]
    exact editNamespaces_counts (onNamespace_counts noDoc wf)

end Main

/-- **Mutations are idempotent.** A mutation other than a doc line reports no change
exactly when it changed nothing, the order in tables included or not. Applied a
second time, in whatever case the class is named, it succeeds and changes nothing. -/
theorem apply_idempotent {m : Mutation} (noDoc : ∀ line, m ≠ doc line) (wf : m.WellFormed)
    {u u' : SourceUnit} {changes : Nat} (applied : m.apply u = .ok (u', changes)) :
    (changes = 0 ↔ u' = u) ∧ (changes = 0 ↔ (u' == u) = true) ∧ m.apply u' = .ok (u', 0) ∧
      ∀ m', m.Agrees m' → m'.apply u' = .ok (u', 0) := by
  obtain ⟨checked, edited⟩ := apply_eq_ok_iff.1 applied
  have unit : (m.edit u).1 = u' := congrArg Prod.fst edited
  have count : (m.edit u).2 = changes := congrArg Prod.snd edited
  subst unit count
  have counts : Counts u (m.edit u) := edit_counts noDoc wf
  have again : ∀ m', m.Agrees m' → m'.apply (m.edit u).1 = .ok ((m.edit u).1, 0) :=
    fun m' agrees =>
      apply_eq_ok_iff.2 ⟨check_again wf agrees checked, edit_again noDoc wf agrees⟩
  exact ⟨counts.eq_zero_iff, counts.eq_zero_iff_beq, again m (.refl m), again⟩

namespace Example

/-- A class and an interface in a namespace without imports. -/
def plain : SourceUnit :=
  { strictTypes := false
    namespaces := .ofList [("App", { Namespace.ofName "App" with
      types := .ofList [("A", .ofName .class "A"), ("B", .ofName .interface "B")] })] }

/-- The trait is imported and used once, in whatever case it is asked for. -/
theorem use_again_in_another_case :
    ∃ u', (use_ "Lib\\T").apply plain = .ok (u', 2) ∧ u' ≠ plain ∧
      (use_ "LIB\\t").apply u' = .ok (u', 0) := by
  have applied : (use_ "Lib\\T").apply plain = .ok (((use_ "Lib\\T").edit plain).1, 2) :=
    apply_eq_ok_iff.2 ⟨by rfl, Prod.ext rfl (by decide +kernel)⟩
  obtain ⟨count, -, -, again⟩ := apply_idempotent (by simp) (by decide +kernel) applied
  refine ⟨_, applied, fun same => ?_, again _ (.use_ (by decide +kernel))⟩
  exact absurd (count.2 same) (by decide)

end Example

end Emend.Mutation

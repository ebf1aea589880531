import Emend.Proofs.Table
import Emend.SourceUnit

/-!
# Equality of units

Units are `==` when they hold the same elements, whatever the order in their
tables; everything else, the order of base types, interfaces and doc lines
included, has to be the same. This is an equivalence.
-/

set_option autoImplicit false

namespace Emend

theorem TypeDecl.beq_iff {a b : TypeDecl} :
    (a == b) = true ↔
      a.kind = b.kind ∧ a.name = b.name ∧ a.modifiers = b.modifiers ∧ a.doc = b.doc ∧
      a.bases = b.bases ∧ a.interfaces = b.interfaces ∧ (a.traits == b.traits) = true ∧
      (a.constants == b.constants) = true ∧ (a.properties == b.properties) = true ∧
      (a.methods == b.methods) = true := by
  cases a
  cases b
  show instBEqTypeDecl.beq _ _ = true ↔ _
  simp only [instBEqTypeDecl.beq, Bool.and_eq_true, beq_iff_eq]

instance : EquivBEq TypeDecl where
  rfl := by simp [TypeDecl.beq_iff]
  symm := by
    intro a b
    simp only [TypeDecl.beq_iff]
    rintro ⟨kind, name, modifiers, doc, bases, interfaces, traits, constants, properties, methods⟩
    exact ⟨kind.symm, name.symm, modifiers.symm, doc.symm, bases.symm, interfaces.symm,
      BEq.symm traits, BEq.symm constants, BEq.symm properties, BEq.symm methods⟩
  trans := by
    intro a b c
    simp only [TypeDecl.beq_iff]
    rintro ⟨kind, name, modifiers, doc, bases, interfaces, traits, constants, properties, methods⟩
      ⟨kind', name', modifiers', doc', bases', interfaces', traits', constants', properties',
        methods'⟩
    exact ⟨kind.trans kind', name.trans name', modifiers.trans modifiers', doc.trans doc',
      bases.trans bases', interfaces.trans interfaces', BEq.trans traits traits',
      BEq.trans constants constants', BEq.trans properties properties',
      BEq.trans methods methods'⟩

theorem Namespace.beq_iff {a b : Namespace} :
    (a == b) = true ↔
      a.name = b.name ∧ (a.imports == b.imports) = true ∧
      (a.functionImports == b.functionImports) = true ∧
      (a.constantImports == b.constantImports) = true ∧ (a.types == b.types) = true := by
  cases a
  cases b
  show instBEqNamespace.beq _ _ = true ↔ _
  simp only [instBEqNamespace.beq, Bool.and_eq_true, beq_iff_eq]

instance : EquivBEq Namespace where
  rfl := by simp [Namespace.beq_iff]
  symm := by
    intro a b
    simp only [Namespace.beq_iff]
    rintro ⟨name, imports, functions, constants, types⟩
    exact ⟨name.symm, BEq.symm imports, BEq.symm functions, BEq.symm constants, BEq.symm types⟩
  trans := by
    intro a b c
    simp only [Namespace.beq_iff]
    rintro ⟨name, imports, functions, constants, types⟩
      ⟨name', imports', functions', constants', types'⟩
    exact ⟨name.trans name', BEq.trans imports imports', BEq.trans functions functions',
      BEq.trans constants constants', BEq.trans types types'⟩

theorem SourceUnit.beq_iff {a b : SourceUnit} :
    (a == b) = true ↔
      a.strictTypes = b.strictTypes ∧ (a.namespaces == b.namespaces) = true := by
  cases a
  cases b
  show instBEqSourceUnit.beq _ _ = true ↔ _
  simp only [instBEqSourceUnit.beq, Bool.and_eq_true, beq_iff_eq]

instance : EquivBEq SourceUnit where
  rfl := by simp [SourceUnit.beq_iff]
  symm := by
    intro a b
    simp only [SourceUnit.beq_iff]
    exact fun ⟨strict, namespaces⟩ => ⟨strict.symm, BEq.symm namespaces⟩
  trans := by
    intro a b c
    simp only [SourceUnit.beq_iff]
    exact fun ⟨strict, namespaces⟩ ⟨strict', namespaces'⟩ =>
      ⟨strict.trans strict', BEq.trans namespaces namespaces'⟩

end Emend

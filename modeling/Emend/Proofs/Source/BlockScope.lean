import Emend.Proofs.Source.Assembly

/-!
# Which imports a declaration sees

References are resolved when the whole file has been read, with the imports of the
namespace. So a declaration sees the imports of every block of its namespace, also of
those that stand behind it (`stored_references`). It sees exactly the imports of its own
block when no other block of the namespace has any. With two blocks of one name an import
of the first one captures a name in the second (`stored_references_captured`).
-/

set_option autoImplicit false

namespace Emend

namespace Declaration

def importsAt (entries : List Placed) (standing : Standing) (kind : ImportKind) : List Import :=
  (entries.filter (·.1 == standing)).flatMap (·.2.importsOf kind)

/-- How names are read in a namespace with these imports of types; of two imports with
one alias the later one counts. -/
def scopeOf (space : String) (imports : List Import) : Scope :=
  ⟨Name.normalize space, .keyed Import.localName imports⟩

theorem scope_assembled (entries : List Placed) (space : String) :
    (assembled entries space).scope = scopeOf space (importsIn entries space .type) := by
  simp only [Namespace.scope, assembled, scopeOf]

theorem typesIn_append (before after : List Placed) (space : String) :
    typesIn (before ++ after) space = typesIn before space ++ typesIn after space := by
  simp [typesIn]

theorem typesIn_cons_type (standing : Standing) (written : WrittenType) (after : List Placed) :
    typesIn ((standing, .type written) :: after) standing.space =
      written :: typesIn after standing.space := by
  simp [typesIn, Entry.types]

/-- The last type of its name is stored, with its references resolved. -/
theorem get?_types_ofEntries {entries : List Entry} {before after : List Placed}
    {standing : Standing} {written : WrittenType}
    (stands : placed entries = before ++ (standing, .type written) :: after)
    (last : written.head.name ∉ (typesIn after standing.space).map (·.head.name)) :
    ((SourceUnit.ofEntries entries).spaceAt standing.space).types.get? written.head.name =
      some (written.toDecl.resolveReferences
        (scopeOf standing.space (importsIn (placed entries) standing.space .type))) := by
  have found : (assembled (placed entries) standing.space).types.get? written.toDecl.name =
      some written.toDecl := by
    rw [assembled, stands, typesIn_append, typesIn_cons_type, List.map_append, List.map_cons]
    refine Table.get?_keyed_last _ written.toDecl ?_
    rw [List.map_map]
    exact last
  rw [spaceAt_ofEntries]
  show (Table.mapValues _ _).get? written.toDecl.name = _
  rw [Table.get?_mapValues, found, scope_assembled]
  rfl

/-- If no other block of the namespace has imports of types, those of the block are all. -/
theorem importsIn_eq_importsAt {entries : List Placed} {standing : Standing}
    (alone : ∀ other ∈ entries, other.1.space = standing.space →
      other.2.importsOf .type ≠ [] → other.1 = standing) :
    importsIn entries standing.space .type = importsAt entries standing .type := by
  induction entries with
  | nil => rfl
  | cons first entries ih =>
      have rest := ih fun other member => alone other (List.mem_cons_of_mem _ member)
      simp only [importsIn, importsAt] at rest ⊢
      by_cases here : first.1 = standing
      · simp [here, rest]
      · by_cases space : first.1.space = standing.space
        · have noImports : first.2.importsOf .type = [] := by
            by_contra nonempty
            exact here (alone first (List.mem_cons_self ..) space nonempty)
          simp [here, space, noImports, rest]
        · simp [here, space, rest]

end Declaration

open Declaration

/-- **What references mean in a unit that was read.** A declaration that no later one of
its namespace replaces is stored with every reference resolved against the name of its
namespace and the imports of all blocks of that namespace; these are the imports of its
own block if no other block of the namespace imports a type. -/
theorem SourceUnit.stored_references (source : String) (unit : SourceUnit)
    (accepted : SourceUnit.parse source = .ok unit) :
    ∃ entries, Declaration.entries source = .ok entries ∧
      ∀ (before after : List Placed) (standing : Standing) (written : WrittenType),
        placed entries = before ++ (standing, .type written) :: after →
        written.head.name ∉ (typesIn after standing.space).map (·.head.name) →
        (unit.spaceAt standing.space).types.get? written.head.name =
          some (written.toDecl.resolveReferences
            (scopeOf standing.space (importsIn (placed entries) standing.space .type))) ∧
        ((∀ other ∈ placed entries, other.1.space = standing.space →
            other.2.importsOf .type ≠ [] → other.1 = standing) →
          (unit.spaceAt standing.space).types.get? written.head.name =
            some (written.toDecl.resolveReferences
              (scopeOf standing.space (importsAt (placed entries) standing .type)))) := by
  obtain ⟨entries, read, rfl⟩ := entries_of_parse accepted
  refine ⟨entries, read, fun before after standing written stands last => ?_⟩
  have stored := get?_types_ofEntries stands last
  refine ⟨stored, fun alone => ?_⟩
  rw [stored, importsIn_eq_importsAt alone]

namespace SourceUnit.Example

/-- A file with two blocks of one namespace, of which the first imports what the second
one has a name for. -/
def twoBlocks : String := "<?php namespace A; use X\\F; namespace A; class D extends F {}"

def twoBlocksEntries : List Entry :=
  [.begin_ "A", .imports [⟨"X\\F", "F", .type⟩], .begin_ "A",
    .type (.ofHead { TypeDecl.ofName .class "D" with bases := ["F"] })]

/-- The base class of the second block is read with the import of the first; with the
imports of its own block it would be another class. -/
theorem stored_references_captured :
    ∃ unit decl, SourceUnit.parse twoBlocks = .ok unit ∧
      (unit.spaceAt "A").types.get? "D" = some decl ∧ decl.bases = ["X\\F"] ∧
      importsAt (placed twoBlocksEntries) ⟨2, "A"⟩ .type = [] ∧
      (scopeOf "A" []).resolve "F" = "A\\F" := by
  have read : Declaration.entries twoBlocks = .ok twoBlocksEntries := by decide +kernel
  have accepted : SourceUnit.parse twoBlocks = .ok (.ofEntries twoBlocksEntries) := by
    rw [SourceUnit.parse, read]
    rfl
  obtain ⟨entries, read', stored⟩ := stored_references twoBlocks _ accepted
  obtain rfl : twoBlocksEntries = entries := Except.ok.inj (read.symm.trans read')
  have found := (stored
    [(⟨0, ""⟩, .begin_ "A"), (⟨1, "A"⟩, .imports [⟨"X\\F", "F", .type⟩]),
      (⟨1, "A"⟩, .begin_ "A")] []
    ⟨2, "A"⟩ (.ofHead { TypeDecl.ofName .class "D" with bases := ["F"] })
    (by decide +kernel) (by decide +kernel)).1
  exact ⟨_, _, accepted, found, by decide +kernel, by decide +kernel, by decide +kernel⟩

end SourceUnit.Example

end Emend

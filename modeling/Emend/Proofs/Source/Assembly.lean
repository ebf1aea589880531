import Emend.Proofs.Table
import Emend.Source.Declaration

/-!
# What becomes of the entries of a file

An entry stands in a block and in the namespace of that block. A namespace may have
several blocks: every statement and every pair of braces opens a new one, and the closing
brace goes back to the block around. What a unit holds of a namespace is made of the
entries of all its blocks together: each table is the list of what is written there, put
under its names (`spaceAt_ofEntries`).
-/

set_option autoImplicit false

namespace Emend

/-- What a unit holds of the namespace under a key; nothing if it has none. -/
def SourceUnit.spaceAt (unit : SourceUnit) (space : String) : Namespace :=
  (unit.namespaces.get? space).getD (.ofName space)

namespace SourceUnit

/-- Changing a namespace changes what is held of it, and of no other. -/
theorem spaceAt_updateNamespace (unit : SourceUnit) (name : String) (f : Namespace → Namespace)
    (space : String) :
    (unit.updateNamespace name f).spaceAt space =
      if Name.normalize name = space then f (unit.spaceAt space) else unit.spaceAt space := by
  simp only [updateNamespace, spaceAt, Table.get?_insert]
  by_cases same : Name.normalize name = space
  · subst same
    rw [if_pos rfl, if_pos rfl, Option.getD_some]
  · rw [if_neg same, if_neg (Ne.symm same)]

theorem spaceAt_resolveReferences (unit : SourceUnit) (space : String) :
    unit.resolveReferences.spaceAt space =
      { unit.spaceAt space with
        types := (unit.spaceAt space).types.mapValues
          (·.resolveReferences (unit.spaceAt space).scope) } := by
  simp only [resolveReferences, mapTypes, spaceAt, Table.get?_mapValues]
  cases unit.namespaces.get? space with
  | none =>
      rw [Option.map_none, Option.getD_none, Namespace.ofName]
      congr 1
  | some ns => rfl

end SourceUnit

namespace Declaration

/-! ## Where entries stand -/

structure Standing where
  /-- The block; before the first namespace statement it is 0. -/
  block : Nat
  space : String
  deriving DecidableEq, Repr, Inhabited

/-- How far a walk over the entries has come. -/
structure Walk where
  here : Standing
  /-- The blocks around, innermost first. -/
  outer : List Standing
  opened : Nat

namespace Walk

def start : Walk := ⟨⟨0, ""⟩, [], 0⟩

def next (walk : Walk) : Entry → Walk
  | .begin_ name =>
    ⟨⟨walk.opened + 1, Name.normalize name⟩, walk.outer, walk.opened + 1⟩
  | .enter name =>
    ⟨⟨walk.opened + 1, Name.normalize name⟩, walk.here :: walk.outer, walk.opened + 1⟩
  | .leave =>
    match walk.outer with
    | [] => walk
    | around :: outer => { walk with here := around, outer }
  | .directive _ | .imports _ | .type _ => walk

end Walk

abbrev Placed := Standing × Entry

def placedFrom (walk : Walk) : List Entry → List Placed
  | [] => []
  | entry :: entries => (walk.here, entry) :: placedFrom (walk.next entry) entries

def placed (entries : List Entry) : List Placed := placedFrom .start entries

/-! ## What is written in a namespace -/

namespace Entry

def importsOf (kind : ImportKind) : Entry → List Import
  | .imports listed => listed.filter (·.kind == kind)
  | _ => []

def types : Entry → List WrittenType
  | .type written => [written]
  | _ => []

def directives : Entry → List Bool
  | .directive strictTypes => [strictTypes]
  | _ => []

end Entry

def importsIn (entries : List Placed) (space : String) (kind : ImportKind) : List Import :=
  (entries.filter (·.1.space == space)).flatMap (·.2.importsOf kind)

def typesIn (entries : List Placed) (space : String) : List WrittenType :=
  (entries.filter (·.1.space == space)).flatMap (·.2.types)

def directives (entries : List Placed) : List Bool := entries.flatMap (·.2.directives)

/-- A namespace with everything that stands in it, each under its name. -/
def assembled (entries : List Placed) (space : String) : Namespace where
  name := Name.normalize space
  imports := .keyed Import.localName (importsIn entries space .type)
  functionImports := .keyed Import.localName (importsIn entries space .function)
  constantImports := .keyed Import.localName (importsIn entries space .constant)
  types := .keyed TypeDecl.name ((typesIn entries space).map WrittenType.toDecl)

def Entry.into : Entry → Namespace → Namespace
  | .imports listed, ns => listed.foldl Namespace.insertImport ns
  | .type written, ns =>
    { ns with types := ns.types.insert written.toDecl.name written.toDecl }
  | _, ns => ns

theorem foldl_insertImport (imports : List Import) (ns : Namespace) :
    imports.foldl Namespace.insertImport ns =
      { ns with
        imports := ns.imports.insertAll Import.localName (imports.filter (·.kind == .type))
        functionImports :=
          ns.functionImports.insertAll Import.localName (imports.filter (·.kind == .function))
        constantImports :=
          ns.constantImports.insertAll Import.localName
            (imports.filter (·.kind == .constant)) } := by
  induction imports generalizing ns with
  | nil => rfl
  | cons first imports ih =>
      rw [List.foldl_cons, ih, Namespace.insertImport]
      cases kind : first.kind with
      | type => simp [kind, Table.insertAll]
      | function => simp [kind, Table.insertAll]
      | constant => simp [kind, Table.insertAll]

/-- The last entry is put into its namespace, and into no other. -/
theorem assembled_concat (entries : List Placed) (last : Placed) (space : String) :
    assembled (entries ++ [last]) space =
      if last.1.space = space then last.2.into (assembled entries space)
      else assembled entries space := by
  by_cases here : last.1.space = space
  · rw [if_pos here]
    cases entry : last.2 with
    | imports listed =>
        simp [assembled, importsIn, typesIn, here, entry, Entry.into, foldl_insertImport,
          Entry.importsOf, Entry.types, List.filter_append, Table.keyed_append]
    | type written =>
        simp [assembled, importsIn, typesIn, here, entry, Entry.into, Entry.importsOf, Entry.types,
          List.filter_append, Table.keyed_append, Table.insertAll]
    | directive _ | begin_ _ | enter _ | leave =>
        simp [assembled, importsIn, typesIn, here, entry, Entry.into, Entry.importsOf, Entry.types,
          List.filter_append]
  · rw [if_neg here]
    simp [assembled, importsIn, typesIn, here, List.filter_append]

/-! ## Walking and reading side by side -/

/-- The reading holds what the entries before it say. -/
structure Describes (entries : List Placed) (walk : Walk) (reading : Reading) : Prop where
  here : walk.here.space = Name.normalize reading.current
  outer : walk.outer.map (·.space) = reading.outer.map Name.normalize
  strictTypes : reading.unit.strictTypes = (directives entries).getLast?.getD false
  spaces : ∀ space, reading.unit.spaceAt space = assembled entries space

theorem describes_start : Describes [] .start .start where
  here := by decide +kernel
  outer := rfl
  strictTypes := rfl
  spaces _ := rfl

/-- An entry that is no directive changes at most the namespace it stands in. -/
theorem Describes.pass {entries : List Placed} {walk : Walk} {reading : Reading}
    (describes : Describes entries walk reading) (entry : Entry) (silent : entry.directives = [])
    (here : (walk.next entry).here.space = Name.normalize (reading.add entry).current)
    (outer : (walk.next entry).outer.map (·.space) = (reading.add entry).outer.map Name.normalize)
    (strictTypes : (reading.add entry).unit.strictTypes = reading.unit.strictTypes)
    (spaces : ∀ space, (reading.add entry).unit.spaceAt space =
      if walk.here.space = space then entry.into (reading.unit.spaceAt space)
      else reading.unit.spaceAt space) :
    Describes (entries ++ [(walk.here, entry)]) (walk.next entry) (reading.add entry) where
  here := here
  outer := outer
  strictTypes := by
    rw [strictTypes, describes.strictTypes]
    simp [directives, silent]
  spaces space := by rw [spaces, assembled_concat, describes.spaces]

theorem spaceAt_open (unit : SourceUnit) (name space : String) :
    (unit.updateNamespace name id).spaceAt space = unit.spaceAt space := by
  rw [SourceUnit.spaceAt_updateNamespace]
  split <;> rfl

/-- **One entry.** -/
theorem Describes.add {entries : List Placed} {walk : Walk} {reading : Reading}
    (describes : Describes entries walk reading) (entry : Entry) :
    Describes (entries ++ [(walk.here, entry)]) (walk.next entry) (reading.add entry) := by
  cases entry with
  | directive strictTypes =>
      refine ⟨describes.here, describes.outer, ?_, fun space => ?_⟩
      · simp [Reading.add, directives, Entry.directives]
      · simp only [assembled_concat, Entry.into, ite_self, ← describes.spaces]
        rfl
  | begin_ name =>
      apply describes.pass
      · rfl
      · simp only [Walk.next, Reading.add]
      · exact describes.outer
      · rfl
      · simp only [Reading.add, spaceAt_open, Entry.into, ite_self, implies_true]
  | enter name =>
      apply describes.pass
      · rfl
      · simp only [Walk.next, Reading.add]
      · simp only [Walk.next, Reading.add, List.map_cons, describes.here, describes.outer]
      · rfl
      · simp only [Reading.add, spaceAt_open, Entry.into, ite_self, implies_true]
  | leave =>
      have outer := describes.outer
      obtain ⟨unit, current, around⟩ := reading
      obtain ⟨here, outside, opened⟩ := walk
      cases around with
      | nil =>
          obtain rfl := List.map_eq_nil_iff.1 outer
          exact describes.pass .leave rfl describes.here rfl rfl (by simp [Reading.add, Entry.into])
      | cons name names =>
          cases outside with
          | nil => cases outer
          | cons standing standings =>
              obtain ⟨first, others⟩ := List.cons.inj outer
              exact describes.pass .leave rfl first others rfl (by simp [Reading.add, Entry.into])
  | imports listed =>
      apply describes.pass (.imports listed) rfl describes.here describes.outer rfl
      simp only [Reading.add, SourceUnit.spaceAt_updateNamespace, describes.here, Entry.into,
        implies_true]
  | type written =>
      apply describes.pass (.type written) rfl describes.here describes.outer rfl
      simp only [Reading.add, SourceUnit.spaceAt_updateNamespace, describes.here, Entry.into,
        implies_true]

/-- **All entries.** -/
theorem Describes.foldl {before : List Placed} {walk : Walk} {reading : Reading}
    (describes : Describes before walk reading) (entries : List Entry) :
    ∃ last, Describes (before ++ placedFrom walk entries) last
      (entries.foldl Reading.add reading) := by
  induction entries generalizing before walk reading with
  | nil => exact ⟨walk, by simpa [placedFrom] using describes⟩
  | cons entry entries ih =>
      obtain ⟨last, described⟩ := ih (describes.add entry)
      refine ⟨last, ?_⟩
      rw [List.append_assoc, List.singleton_append] at described
      exact described

/-- **What a unit holds of a namespace** is what stands in all its blocks, each under its
name, and the references of its types are resolved with all its imports. -/
theorem spaceAt_ofEntries (entries : List Entry) (space : String) :
    (SourceUnit.ofEntries entries).spaceAt space =
      { assembled (placed entries) space with
        types := (assembled (placed entries) space).types.mapValues
          (·.resolveReferences (assembled (placed entries) space).scope) } := by
  obtain ⟨_, described⟩ := describes_start.foldl entries
  rw [SourceUnit.ofEntries, SourceUnit.spaceAt_resolveReferences, described.spaces]
  rfl

/-- A text is accepted if what is written in it can be read. -/
theorem entries_of_parse {source : String} {unit : SourceUnit}
    (accepted : SourceUnit.parse source = .ok unit) :
    ∃ read, entries source = .ok read ∧ unit = SourceUnit.ofEntries read := by
  rw [SourceUnit.parse] at accepted
  cases done : entries source with
  | error error =>
      rw [done] at accepted
      cases accepted
  | ok read =>
      rw [done] at accepted
      cases accepted
      exact ⟨read, rfl, rfl⟩

/-- Of the directives of a file the last holds. -/
theorem strictTypes_ofEntries (entries : List Entry) :
    (SourceUnit.ofEntries entries).strictTypes =
      (directives (placed entries)).getLast?.getD false := by
  obtain ⟨_, described⟩ := describes_start.foldl entries
  exact described.strictTypes

end Declaration

end Emend

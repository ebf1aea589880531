import Emend.Proofs.Resolution
import Emend.Proofs.Source.ImportBlock
import Mathlib.Data.List.Pairwise

/-!
# The order of imports

Imports are listed in an order of their own, so the order of the table does not show in the lines
that are printed for them (`listedImports_reordered`), as long as no two imports of one kind have
the same name. References are written with the table as it is. A keyword, an imported class and a
class of the namespace are written the same in every order (`direct?_reordered`). Below an imported
namespace the first import counts that lies above the name, and there may be two: `\A\B\C` is
`B\C` or `A\B\C` where both `A` and `A\B` are imported.

So a name is written the same in every order exactly if it is not contested in this way
(`shorten_iff_not_contested`), and no name is contested if no import lies below another one
(`not_contested`).
-/

set_option autoImplicit false

namespace Emend

/-- Where all answers agree, the first one does not depend on the order. -/
theorem findSome?_of_perm {α β : Type} {f : α → Option β} {xs ys : List α} (perm : xs.Perm ys)
    (agree : ∀ x ∈ xs, ∀ y ∈ xs, ∀ a b, f x = some a → f y = some b → a = b) :
    xs.findSome? f = ys.findSome? f := by
  cases left : xs.findSome? f with
  | none =>
      rw [List.findSome?_eq_none_iff] at left
      refine (List.findSome?_eq_none_iff.2 fun y listed => ?_).symm
      exact left y (perm.mem_iff.2 listed)
  | some a =>
      obtain ⟨x, listed, found⟩ := List.exists_of_findSome?_eq_some left
      cases right : ys.findSome? f with
      | none =>
          rw [List.findSome?_eq_none_iff] at right
          rw [right x (perm.mem_iff.1 listed)] at found
          cases found
      | some b =>
          obtain ⟨y, listed', found'⟩ := List.exists_of_findSome?_eq_some right
          rw [agree x listed y (perm.mem_iff.2 listed') a b found found']

/-- Where one member at most is wanted, it is found in every order. -/
theorem find?_of_perm {α : Type} {p : α → Bool} {xs ys : List α} (perm : xs.Perm ys)
    (one : ∀ x ∈ xs, ∀ y ∈ xs, p x = true → p y = true → x = y) : xs.find? p = ys.find? p := by
  rw [List.find?_eq_findSome?_guard, List.find?_eq_findSome?_guard]
  refine findSome?_of_perm perm fun x listed y listed' a b found found' => ?_
  rw [Option.guard_eq_some_iff] at found found'
  obtain ⟨rfl, wanted⟩ := found
  obtain ⟨rfl, wanted'⟩ := found'
  exact one x listed y listed' wanted wanted'

namespace Table

variable {α : Type} {table other : Table α}

theorem perm_values (perm : other.entries.Perm table.entries) : other.values.Perm table.values :=
  perm.map Prod.snd

theorem get?_of_perm (perm : other.entries.Perm table.entries) (key : String) :
    other.get? key = table.get? key := by
  ext value
  rw [get?_eq_some_iff, get?_eq_some_iff, perm.mem_iff]

/-- Any value can come first. -/
theorem exists_first {value : α} (listed : value ∈ table.values) :
    ∃ other : Table α, other.entries.Perm table.entries ∧ ∃ rest, other.values = value :: rest := by
  obtain ⟨key, there⟩ := mem_values.1 listed
  obtain ⟨before, after, split⟩ := List.append_of_mem there
  have perm : ((key, value) :: (before ++ after)).Perm table.entries := by
    rw [split]
    exact List.perm_middle.symm
  exact ⟨⟨_, (perm.map Prod.fst).nodup_iff.2 table.nodup⟩, perm, _, rfl⟩

end Table

namespace Scope

/-- The spelling of a name that goes through no other name: a type keyword, an alias, or the last
segment of a class of the namespace. -/
def direct? (scope : Scope) (name : String) : Option String :=
  let name := Name.normalize name
  if Name.isBuiltinType name then some name
  else
    match scope.importedAs? name with
    | some i => some i.localName
    | none =>
      let last := Name.short name
      if Name.parent name == scope.current && (scope.typeImport? last).isNone then some last
      else none

/-- No two imports of one kind have the same name. -/
def DistinctImports (imports : List Import) : Prop :=
  imports.Pairwise fun i j => i.kind = j.kind → Text.lower i.name ≠ Text.lower j.name

/-- A name that lies below two imported names, is written through one of them, and differently
through the other one. -/
structure Contested (scope : Scope) (name : String) : Prop where
  indirect : scope.direct? name = none
  ways : ∃ i ∈ scope.imports.values, ∃ j ∈ scope.imports.values, i.kind = .type ∧ j.kind = .type ∧
    ∃ rest rest', Name.normalize name = i.name ++ "\\" ++ rest ∧
      Name.normalize name = j.name ++ "\\" ++ rest' ∧
      i.localName ++ "\\" ++ rest ≠ j.localName ++ "\\" ++ rest'

variable {scope : Scope} {name : String}

theorem shorten_eq (scope : Scope) (name : String) :
    scope.shorten name = (scope.direct? name).getD
      ((scope.imports.values.findSome? (throughImport? (Name.normalize name))).getD
        ("\\" ++ Name.normalize name)) := by
  unfold shorten direct?
  generalize Name.normalize name = name
  dsimp only
  cases Name.isBuiltinType name with
  | true => simp
  | false =>
      cases scope.importedAs? name with
      | some i => simp
      | none =>
          cases Name.parent name == scope.current &&
              (scope.typeImport? (Name.short name)).isNone with
          | true => simp
          | false => cases scope.imports.values.findSome? (throughImport? name) <;> simp

theorem DistinctImports.eq_of_lower_eq {imports : List Import} (distinct : DistinctImports imports)
    {i j : Import} (first : i ∈ imports) (second : j ∈ imports) (kind : i.kind = j.kind)
    (name : Text.lower i.name = Text.lower j.name) : i = j := by
  by_contra ne
  have : Std.Symm fun i j : Import => i.kind = j.kind → Text.lower i.name ≠ Text.lower j.name :=
    ⟨fun _ _ apart kind name => apart kind.symm name.symm⟩
  exact List.Pairwise.forall distinct first second ne kind name

section Reordered

variable {imports : Table Import} (perm : imports.entries.Perm scope.imports.entries)

include perm

theorem typeImport?_reordered (s : String) :
    (Scope.mk scope.current imports).typeImport? s = scope.typeImport? s := by
  rw [typeImport?, typeImport?, Table.get?_of_perm perm]

theorem importedAs?_reordered (distinct : DistinctImports scope.imports.values) (name : String) :
    (Scope.mk scope.current imports).importedAs? name = scope.importedAs? name := by
  have perm' := Table.perm_values perm
  refine (find?_of_perm perm'.symm fun i first j second wanted wanted' => ?_).symm
  rw [Bool.and_eq_true, beq_iff_eq, Text.sameIgnoringCase_iff] at wanted wanted'
  exact distinct.eq_of_lower_eq first second (wanted.1.trans wanted'.1.symm)
    (wanted.2.trans wanted'.2.symm)

/-- **What is written without another name** is written the same in every order. -/
theorem direct?_reordered (distinct : DistinctImports scope.imports.values) (name : String) :
    (Scope.mk scope.current imports).direct? name = scope.direct? name := by
  simp only [direct?, importedAs?_reordered perm distinct, typeImport?_reordered perm]

end Reordered

/-- A name that is not contested is written the same in every order. -/
theorem shorten_reordered (scope : Scope) {imports : Table Import}
    (perm : imports.entries.Perm scope.imports.entries)
    (distinct : DistinctImports scope.imports.values) (settled : ¬ scope.Contested name) :
    (Scope.mk scope.current imports).shorten name = scope.shorten name := by
  rw [shorten_eq, shorten_eq scope, direct?_reordered perm distinct]
  cases indirect : scope.direct? name with
  | some written => rfl
  | none =>
      have same : scope.imports.values.findSome? (throughImport? (Name.normalize name)) =
          imports.values.findSome? (throughImport? (Name.normalize name)) := by
        refine findSome?_of_perm (Table.perm_values perm).symm
          fun i first j second a b way way' => ?_
        obtain ⟨isType, rest, below, rfl⟩ := throughImport?_eq_some_iff.1 way
        obtain ⟨isType', rest', below', rfl⟩ := throughImport?_eq_some_iff.1 way'
        by_contra ne
        exact settled
          ⟨indirect, i, first, j, second, isType, isType', rest, rest', below, below', ne⟩
      rw [← same]

/-- The import that comes first counts. -/
theorem exists_shorten_through (distinct : DistinctImports scope.imports.values)
    (indirect : scope.direct? name = none) {i : Import} (listed : i ∈ scope.imports.values)
    (isType : i.kind = .type) {rest : String}
    (below : Name.normalize name = i.name ++ "\\" ++ rest) :
    ∃ imports : Table Import, imports.entries.Perm scope.imports.entries ∧
      (Scope.mk scope.current imports).shorten name = i.localName ++ "\\" ++ rest := by
  obtain ⟨imports, perm, others, first⟩ := Table.exists_first listed
  have way : throughImport? (Name.normalize name) i = some (i.localName ++ "\\" ++ rest) :=
    throughImport?_eq_some_iff.2 ⟨isType, rest, below, rfl⟩
  refine ⟨imports, perm, ?_⟩
  rw [shorten_eq, direct?_reordered perm distinct, indirect, Option.getD_none]
  simp only [first, List.findSome?_cons, way, Option.getD_some]

/-- **A name is written the same in every order** exactly if it is not contested. -/
theorem shorten_iff_not_contested (scope : Scope) (distinct : DistinctImports scope.imports.values)
    (name : String) :
    (∀ imports : Table Import, imports.entries.Perm scope.imports.entries →
      (Scope.mk scope.current imports).shorten name = scope.shorten name) ↔
      ¬ scope.Contested name := by
  constructor
  · rintro same ⟨indirect, i, first, j, second, isType, isType', rest, rest', below, below', ne⟩
    -- one order has the one import first, another order the other one
    obtain ⟨imports, perm, written⟩ := exists_shorten_through distinct indirect first isType below
    obtain ⟨imports', perm', written'⟩ :=
      exists_shorten_through distinct indirect second isType' below'
    rw [same imports perm] at written
    rw [same imports' perm', written] at written'
    exact ne written'
  · exact fun settled imports perm => scope.shorten_reordered perm distinct settled

/-- Of two names above one name either is the same as the other or lies above it. -/
theorem eq_or_below {a b rest rest' : String} (same : a ++ "\\" ++ rest = b ++ "\\" ++ rest') :
    (a = b ∧ rest = rest') ∨ (∃ middle, b = a ++ "\\" ++ middle) ∨
      ∃ middle, a = b ++ "\\" ++ middle := by
  have chars : a.toList ++ Name.separator :: rest.toList =
      b.toList ++ Name.separator :: rest'.toList := by
    simpa [Name.toList_separator] using congrArg String.toList same
  have below : ∀ {outer inner : String} {c : Char} {middle others others' : List Char},
      inner.toList = outer.toList ++ c :: middle →
      Name.separator :: others = c :: middle ++ Name.separator :: others' →
      ∃ middle, inner = outer ++ "\\" ++ middle := by
    intro outer inner c middle others others' whole next
    rw [List.cons_append, List.cons.injEq] at next
    refine ⟨.ofList middle, String.toList_inj.1 ?_⟩
    simp [whole, ← next.1, Name.toList_separator]
  -- the longer of the two names goes on with the separator
  rcases List.append_eq_append_iff.1 chars with ⟨middle, whole, next⟩ | ⟨middle, whole, next⟩
  · cases middle with
    | nil =>
        refine Or.inl ⟨String.toList_inj.1 (by simpa using whole.symm), String.toList_inj.1 ?_⟩
        simpa using next
    | cons c middle => exact Or.inr (Or.inl (below whole next))
  · cases middle with
    | nil =>
        refine Or.inl ⟨String.toList_inj.1 (by simpa using whole), String.toList_inj.1 ?_⟩
        simpa using next.symm
    | cons c middle => exact Or.inr (Or.inr (below whole next))

theorem not_contested (scope : Scope) (distinct : DistinctImports scope.imports.values)
    (apart : ∀ i ∈ scope.imports.values, ∀ j ∈ scope.imports.values, i.kind = .type →
      j.kind = .type → ∀ rest, j.name ≠ i.name ++ "\\" ++ rest) (name : String) :
    ¬ scope.Contested name := by
  rintro ⟨-, i, first, j, second, isType, isType', rest, rest', below, below', ne⟩
  rcases eq_or_below (below.symm.trans below') with
    ⟨same, rest_eq⟩ | ⟨middle, lower⟩ | ⟨middle, lower⟩
  · have one := distinct.eq_of_lower_eq first second (isType.trans isType'.symm)
      (congrArg Text.lower same)
    exact ne (by rw [one, rest_eq])
  · exact apart i first j second isType isType' middle lower
  · exact apart j second i first isType' isType middle lower

end Scope

namespace Printer

variable {ns : Namespace}

/-! ## What is printed -/

/-- A type is printed with the spellings of its scope, and nothing else of it. -/
theorem type_congr (printer : Printer) {scope other : Scope}
    (same : ∀ name, other.shorten name = scope.shorten name) (decl : TypeDecl) :
    printer.type other decl = printer.type scope decl := by
  have spelled : other.shorten = scope.shorten := funext same
  have lists : nameList other = nameList scope := by
    funext names
    rw [nameList, nameList, spelled]
  have hints : other.shortenType = scope.shortenType := by
    funext expr
    rw [Scope.shortenType, Scope.shortenType, spelled]
  have head : header other decl = header scope decl := by rw [header, header, lists]
  have inner : printer.members other decl = printer.members scope decl := by
    simp only [members, traitUse, property, method, spelled, hints]
  rw [type, type, head, inner]

section Reordered

variable {imports : Table Import} (perm : imports.entries.Perm ns.imports.entries)
  (distinct : Scope.DistinctImports ns.imports.values)

include perm distinct

/-- **Imports are listed the same** in every order. -/
theorem listedImports_reordered : listedImports { ns with imports } = listedImports ns := by
  have oneWay : ns.imports.values.Pairwise fun i j =>
      ¬ (importsInOrder i j = true ∧ importsInOrder j i = true) := by
    refine List.Pairwise.imp ?_ distinct
    rintro i j apart ⟨before, after⟩
    rw [importsInOrder_iff] at before after
    rcases before with less | ⟨kind, le⟩
    · rcases after with less' | ⟨kind', -⟩
      · omega
      · rw [kind'] at less
        omega
    · rcases after with less' | ⟨-, le'⟩
      · rw [kind] at less'
        omega
      · exact apart kind (String.le_antisymm le le')
  have sorted := sortBy_append_of_perm importsInOrder_total importsInOrder_trans
    (Table.perm_values perm).symm oneWay (ns.functionImports.values ++ ns.constantImports.values)
  simpa only [listedImports, Namespace.allImports, List.append_assoc] using sorted.symm

end Reordered

theorem importLines_congr (printer : Printer) {other : Namespace}
    (same : listedImports other = listedImports ns) :
    printer.importLines other = printer.importLines ns := by
  have listed : ∀ ns : Namespace, printer.importLines ns =
      (if (listedImports ns).isEmpty then []
        else ["\n".intercalate ((listedImports ns).map importLine)]).flatMap fun block =>
          Text.lines (block ++ "\n") := by
    intro ns
    have own : listedImports { ns with types := ∅ } = listedImports ns := rfl
    have empty : ({ ns with types := ∅ } : Namespace).types.values = [] := rfl
    rw [importLines, namespaceBlocks_eq, own, empty, List.map_nil, List.append_nil]
  rw [listed, listed, same]

/-- **The order of imports** shows in what is printed of a namespace exactly where a name is
contested. The lines of the imports are the same in every order, and so is the whole namespace
if no import lies below another one. -/
theorem reordered_iff_not_contested {ns : Namespace}
    (distinct : Scope.DistinctImports ns.imports.values) :
    (∀ imports : Table Import, imports.entries.Perm ns.imports.entries →
      ∀ printer : Printer, printer.importLines { ns with imports } = printer.importLines ns) ∧
    (∀ name, (∀ imports : Table Import, imports.entries.Perm ns.imports.entries →
        ({ ns with imports } : Namespace).scope.shorten name = ns.scope.shorten name) ↔
      ¬ ns.scope.Contested name) ∧
    ((∀ i ∈ ns.imports.values, ∀ j ∈ ns.imports.values, i.kind = .type → j.kind = .type →
        ∀ rest, j.name ≠ i.name ++ "\\" ++ rest) →
      ∀ imports : Table Import, imports.entries.Perm ns.imports.entries →
        ∀ printer : Printer, printer.namespaceBlocks { ns with imports } =
          printer.namespaceBlocks ns) := by
  refine ⟨fun imports perm printer =>
    importLines_congr printer (listedImports_reordered perm distinct), ?_, ?_⟩
  · exact fun name => ns.scope.shorten_iff_not_contested distinct name
  · intro apart imports perm printer
    have spelled : ∀ name, ({ ns with imports } : Namespace).scope.shorten name =
        ns.scope.shorten name := by
      intro name
      exact ns.scope.shorten_reordered perm distinct (ns.scope.not_contested distinct apart name)
    have types : ns.types.values.map (printer.type ({ ns with imports } : Namespace).scope) =
        ns.types.values.map (printer.type ns.scope) :=
      List.map_congr_left fun decl _ => type_congr printer spelled decl
    rw [namespaceBlocks_eq, namespaceBlocks_eq, listedImports_reordered perm distinct, types]

namespace Example

/-- A namespace that imports a class and a class below it. -/
def nested : Namespace where
  name := ""
  imports := .ofList [("B", ⟨"A\\B", "B", .type⟩), ("A", ⟨"A", "A", .type⟩)]
  functionImports := ∅
  constantImports := ∅
  types := ∅

/-- Another order of the imports gives `A\B\C` another spelling. -/
theorem reordered_iff_not_contested_nested :
    Scope.DistinctImports nested.imports.values ∧ nested.scope.Contested "A\\B\\C" ∧
      nested.scope.shorten "A\\B\\C" = "B\\C" ∧
      ¬ ∀ imports : Table Import, imports.entries.Perm nested.imports.entries →
        ({ nested with imports } : Namespace).scope.shorten "A\\B\\C" =
          nested.scope.shorten "A\\B\\C" := by
  have distinct : Scope.DistinctImports nested.imports.values := by
    unfold Scope.DistinctImports
    decide
  have contested : nested.scope.Contested "A\\B\\C" :=
    ⟨by decide, ⟨"A\\B", "B", .type⟩, by decide, ⟨"A", "A", .type⟩, by decide, rfl, rfl, "C",
      "B\\C", by decide, by decide, by decide⟩
  refine ⟨distinct, contested, by decide, ?_⟩
  rw [(reordered_iff_not_contested distinct).2.1]
  exact fun settled => settled contested

end Example

end Printer

end Emend

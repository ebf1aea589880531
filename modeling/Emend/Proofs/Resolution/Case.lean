import Emend.Proofs.Resolution

/-!
# Spellings of a reference

Class names do not differ by case, and neither do aliases. A reference is read in two ways. One of
them is by its shape alone: a separator before it, a type keyword, the word `namespace`, and for
every other name the current namespace. This way does not distinguish case
(`lower_resolve_bare_congr`). The other one is by an import under the first segment
(`resolve_eq`), and an import is looked up under its alias as it is spelled.

So two spellings of one reference mean the same class exactly unless one of them begins with an
alias, the other one with that alias in another case, and the import makes a difference
(`same_resolve_iff`).
-/

set_option autoImplicit false

namespace Emend

/-- What a written name means whose first segment is the alias of this import. -/
def Import.expand (i : Import) (written : String) : String :=
  match Text.cut? Name.separator (Text.trim written) with
  | some (_, rest) => Name.join i.name rest
  | none => i.name

namespace Name

theorem strip?_lower (name : String) :
    Text.strip? "\\" (Text.lower name) = (Text.strip? "\\" name).map Text.lower := by
  have fixed : ∀ d ∈ "\\".toList, ∀ c : Char, c.toLower = d ↔ c = d := by
    rw [toList_separator]
    intro d inside c
    rw [List.mem_singleton.1 inside, toLower_eq_separator_iff]
  simp only [Text.strip?, Text.toList_lower, Text.stripPrefix?_map_toLower fixed, Option.map_map]
  congr 1
  funext rest
  simp [Text.lower]

theorem cut?_lower (name : String) :
    Text.cut? separator (Text.lower name) =
      (Text.cut? separator name).map fun (a, b) => (Text.lower a, Text.lower b) := by
  simp only [Text.cut?, Text.toList_lower, Text.splitFirst?_map_toLower toLower_eq_separator_iff,
    Option.map_map]
  congr 1
  funext cut
  simp [Text.lower]

/-- Names that differ by case alone are cut at the same place. -/
theorem cut?_congr {r s : String} (same : Text.lower r = Text.lower s) :
    (Text.cut? separator r = none ∧ Text.cut? separator s = none) ∨
      ∃ a b a' b', Text.cut? separator r = some (a, b) ∧ Text.cut? separator s = some (a', b') ∧
        Text.lower a = Text.lower a' ∧ Text.lower b = Text.lower b' := by
  have cut := (cut?_lower r).symm.trans ((congrArg _ same).trans (cut?_lower s))
  cases left : Text.cut? separator r with
  | none =>
      cases right : Text.cut? separator s with
      | none => exact Or.inl ⟨rfl, rfl⟩
      | some parts =>
          rw [left, right] at cut
          cases cut
  | some parts =>
      cases right : Text.cut? separator s with
      | none =>
          rw [left, right] at cut
          cases cut
      | some parts' =>
          rw [left, right, Option.map_some, Option.map_some, Option.some.injEq,
            Prod.mk.injEq] at cut
          exact Or.inr ⟨_, _, _, _, rfl, rfl, cut.1, cut.2⟩

end Name

namespace Scope

/-- Whether no import can change what a written name means: a separator stands before it, it is a
type keyword, or it begins with the word `namespace`. -/
def isFixed (written : String) : Bool :=
  (Text.strip? "\\" written).isSome || Name.isBuiltinType written || (relativePart? written).isSome

def aliasPart? (written : String) : Option String :=
  let written := Text.trim written
  if isFixed written then none
  else some (((Text.cut? Name.separator written).map Prod.fst).getD written)

def importOf? (scope : Scope) (written : String) : Option Import :=
  (aliasPart? written).bind scope.typeImport?

/-- The namespace without its imports. -/
def bare (scope : Scope) : Scope := ⟨scope.current, ∅⟩

/-- The one spelling is read with an import that the other one does not find, and it means another
class than it would without imports. -/
def Misses (scope : Scope) (found missed : String) : Prop :=
  ∃ i, scope.importOf? found = some i ∧ scope.importOf? missed = none ∧
    Text.sameIgnoringCase (i.expand found) (scope.bare.resolve found) = false

variable {scope : Scope} {r s : String}

theorem typeImport?_bare (s : String) : scope.bare.typeImport? s = none := rfl

/-- A name is read with its import, and without one by its shape alone. -/
theorem resolve_eq (scope : Scope) (written : String) :
    scope.resolve written =
      ((scope.importOf? written).map (·.expand written)).getD (scope.bare.resolve written) := by
  unfold resolve importOf? aliasPart? isFixed Import.expand
  generalize Text.trim written = written
  simp only [typeImport?_bare]
  cases Text.strip? "\\" written with
  | some absolute => simp
  | none =>
      cases Name.isBuiltinType written with
      | true => simp
      | false =>
          cases relativePart? written with
          | some relative => simp [bare]
          | none =>
              cases Text.cut? Name.separator written with
              | none => cases found : scope.typeImport? written <;> simp [found, bare]
              | some parts => cases found : scope.typeImport? parts.1 <;> simp [found, bare]

/-- How a name is read by its shape. -/
theorem resolve_bare (scope : Scope) (written : String) :
    scope.bare.resolve written =
      (Text.strip? "\\" (Text.trim written)).getD
        (if Name.isBuiltinType (Text.trim written) then Text.trim written
          else Name.join scope.current
            ((relativePart? (Text.trim written)).getD (Text.trim written))) := by
  unfold resolve
  generalize Text.trim written = written
  simp only [typeImport?_bare]
  cases Text.strip? "\\" written with
  | some absolute => simp
  | none =>
      cases Name.isBuiltinType written with
      | true => simp
      | false =>
          cases relativePart? written with
          | some relative => simp [bare]
          | none => cases Text.cut? Name.separator written <;> simp [bare]

/-! ## What does not depend on case -/

section Same

variable (same : Text.lower r = Text.lower s)

include same

theorem map_strip?_congr :
    (Text.strip? "\\" r).map Text.lower = (Text.strip? "\\" s).map Text.lower := by
  rw [← Name.strip?_lower, ← Name.strip?_lower, same]

theorem map_relativePart?_congr :
    (relativePart? r).map Text.lower = (relativePart? s).map Text.lower := by
  have chars : r.toList.map Char.toLower = s.toList.map Char.toLower := by
    rw [← Text.toList_lower, ← Text.toList_lower, same]
  have head : Text.lower (.ofList (r.toList.take 10)) =
      Text.lower (.ofList (s.toList.take 10)) := by
    simp only [Text.lower, String.toList_ofList, List.map_take, chars]
  have tail : Text.lower (.ofList (r.toList.drop 10)) =
      Text.lower (.ofList (s.toList.drop 10)) := by
    simp only [Text.lower, String.toList_ofList, List.map_drop, chars]
  have word : Text.sameIgnoringCase (.ofList (r.toList.take 10)) "namespace\\" =
      Text.sameIgnoringCase (.ofList (s.toList.take 10)) "namespace\\" := by
    rw [Text.sameIgnoringCase, Text.sameIgnoringCase, head]
  cases relative : Text.sameIgnoringCase (.ofList (s.toList.take 10)) "namespace\\" with
  | true => simp only [relativePart?, word, relative, if_true, Option.map_some, tail]
  | false =>
      simp only [relativePart?, word, relative, Bool.false_eq_true, if_false, Option.map_none]

theorem isFixed_congr : isFixed r = isFixed s := by
  have strip := congrArg Option.isSome (map_strip?_congr same)
  have relative := congrArg Option.isSome (map_relativePart?_congr same)
  rw [Option.isSome_map, Option.isSome_map] at strip relative
  rw [isFixed, isFixed, strip, relative, Name.isBuiltinType_congr same]

theorem lower_trim_congr : Text.lower (Text.trim r) = Text.lower (Text.trim s) := by
  rw [Text.lower_trim, Text.lower_trim, same]

theorem map_aliasPart?_congr :
    (aliasPart? r).map Text.lower = (aliasPart? s).map Text.lower := by
  have trimmed := lower_trim_congr same
  have fixed := isFixed_congr trimmed
  cases fixed' : isFixed (Text.trim s) with
  | true => simp only [aliasPart?, fixed, fixed', if_true, Option.map_none]
  | false =>
      simp only [aliasPart?, fixed, fixed', Bool.false_eq_true, if_false, Option.map_some]
      rcases Name.cut?_congr trimmed with ⟨left, right⟩ | ⟨a, b, a', b', left, right, first, -⟩
      · simp only [left, right, Option.map_none, Option.getD_none, trimmed]
      · simp only [left, right, Option.map_some, Option.getD_some, first]

theorem lower_expand_congr (i : Import) : Text.lower (i.expand r) = Text.lower (i.expand s) := by
  unfold Import.expand
  rcases Name.cut?_congr (lower_trim_congr same) with
    ⟨left, right⟩ | ⟨a, b, a', b', left, right, -, rest⟩
  · simp only [left, right]
  · simp only [left, right, Name.lower_join, rest]

/-- **Without imports** a reference means the same class in every case. -/
theorem lower_resolve_bare_congr :
    Text.lower (scope.bare.resolve r) = Text.lower (scope.bare.resolve s) := by
  have trimmed := lower_trim_congr same
  have strip := map_strip?_congr trimmed
  have keyword := Name.isBuiltinType_congr trimmed
  have inside : Text.lower (Name.join scope.current
      ((relativePart? (Text.trim r)).getD (Text.trim r))) =
      Text.lower (Name.join scope.current ((relativePart? (Text.trim s)).getD (Text.trim s))) := by
    rw [Name.lower_join, Name.lower_join, ← Option.getD_map Text.lower,
      ← Option.getD_map Text.lower, map_relativePart?_congr trimmed, trimmed]
  rw [resolve_bare, resolve_bare, ← Option.getD_map Text.lower, ← Option.getD_map Text.lower,
    strip, keyword]
  cases Name.isBuiltinType (Text.trim s) with
  | true => simp only [if_true, trimmed]
  | false => simp only [Bool.false_eq_true, if_false, inside]

end Same

/-! ## What depends on case -/

/-- Two aliases that differ by case alone are one. -/
theorem typeImport?_unique (distinct : (scope.imports.keys.map Text.lower).Nodup) {a b : String}
    (same : Text.lower a = Text.lower b) {i j : Import} (first : scope.typeImport? a = some i)
    (second : scope.typeImport? b = some j) : i = j := by
  have key : ∀ {alias_ : String} {i : Import}, scope.typeImport? alias_ = some i →
      alias_ ∈ scope.imports.keys := by
    intro alias_ i found
    have there := Table.get?_eq_some_iff.1 (Option.filter_eq_some_iff.1 found).1
    exact List.mem_map_of_mem (f := Prod.fst) there
  have one : a = b := List.inj_on_of_nodup_map distinct (key first) (key second) same
  rw [one, second] at first
  exact (Option.some.inj first).symm

/-- Two spellings of a reference do not find different imports. -/
theorem importOf?_unique (distinct : (scope.imports.keys.map Text.lower).Nodup)
    (same : Text.lower r = Text.lower s) {i j : Import} (first : scope.importOf? r = some i)
    (second : scope.importOf? s = some j) : i = j := by
  obtain ⟨a, left, found⟩ := Option.bind_eq_some_iff.1 first
  obtain ⟨b, right, found'⟩ := Option.bind_eq_some_iff.1 second
  have parts := map_aliasPart?_congr same
  rw [left, right, Option.map_some, Option.map_some, Option.some.injEq] at parts
  exact typeImport?_unique distinct parts found found'

theorem resolve_of_importOf? {i : Import} (found : scope.importOf? r = some i) :
    scope.resolve r = i.expand r := by
  rw [resolve_eq, found, Option.map_some, Option.getD_some]

theorem resolve_of_importOf?_none (missed : scope.importOf? r = none) :
    scope.resolve r = scope.bare.resolve r := by
  rw [resolve_eq, missed, Option.map_none, Option.getD_none]

/-- An import that only one spelling finds must mean what the name means without it. -/
theorem same_resolve_of_found (same : Text.lower r = Text.lower s) {i : Import}
    (found : scope.importOf? r = some i) (missed : scope.importOf? s = none) :
    Text.lower (scope.resolve r) = Text.lower (scope.resolve s) ↔ ¬ scope.Misses r s := by
  rw [resolve_of_importOf? found, resolve_of_importOf?_none missed,
    ← lower_resolve_bare_congr same, ← Text.sameIgnoringCase_iff]
  constructor
  · rintro equal ⟨j, found', -, other⟩
    rw [found, Option.some.injEq] at found'
    rw [found', other] at equal
    cases equal
  · intro kept
    by_contra other
    exact kept ⟨i, found, missed, Bool.eq_false_iff.2 other⟩

/-- **Two spellings of a reference** mean the same class exactly unless one of them is read with
an import that the other one does not find. -/
theorem same_resolve_iff (distinct : (scope.imports.keys.map Text.lower).Nodup)
    (same : Text.sameIgnoringCase r s = true) :
    Text.sameIgnoringCase (scope.resolve r) (scope.resolve s) = true ↔
      ¬ scope.Misses r s ∧ ¬ scope.Misses s r := by
  rw [Text.sameIgnoringCase_iff] at same ⊢
  -- a spelling without an import misses nothing of another one
  have idle : ∀ {a b : String}, scope.importOf? a = none → ¬ scope.Misses a b := by
    rintro a b missed ⟨i, found, -⟩
    rw [missed] at found
    cases found
  cases left : scope.importOf? r with
  | none =>
      cases right : scope.importOf? s with
      | none =>
          rw [resolve_of_importOf?_none left, resolve_of_importOf?_none right]
          exact iff_of_true (lower_resolve_bare_congr same) ⟨idle left, idle right⟩
      | some j =>
          rw [eq_comm, same_resolve_of_found same.symm right left]
          exact ⟨fun kept => ⟨idle left, kept⟩, And.right⟩
  | some i =>
      cases right : scope.importOf? s with
      | none =>
          rw [same_resolve_of_found same left right]
          exact ⟨fun kept => ⟨kept, idle right⟩, And.left⟩
      | some j =>
          have one := importOf?_unique distinct same left right
          rw [resolve_of_importOf? left, resolve_of_importOf? right, one]
          refine iff_of_true (lower_expand_congr same j) ⟨?_, ?_⟩
          · rintro ⟨-, -, missed, -⟩
            rw [right] at missed
            cases missed
          · rintro ⟨-, -, missed, -⟩
            rw [left] at missed
            cases missed

namespace Example

def oneImport : Scope := ⟨"N", .ofList [("Foo", ⟨"X\\Foo", "Foo", .type⟩)]⟩

/-- The alias in lower case is taken for a class of the namespace. -/
theorem same_resolve_iff_lowerCase :
    (oneImport.imports.keys.map Text.lower).Nodup ∧ Text.sameIgnoringCase "Foo" "foo" = true ∧
      oneImport.resolve "Foo" = "X\\Foo" ∧ oneImport.resolve "foo" = "N\\foo" ∧
      ¬ Text.sameIgnoringCase (oneImport.resolve "Foo") (oneImport.resolve "foo") = true := by
  have distinct : (oneImport.imports.keys.map Text.lower).Nodup := by decide
  have same : Text.sameIgnoringCase "Foo" "foo" = true := by decide
  refine ⟨distinct, same, by decide, by decide, ?_⟩
  rw [same_resolve_iff distinct same]
  exact fun kept => kept.1 ⟨⟨"X\\Foo", "Foo", .type⟩, by decide, by decide, by decide⟩

end Example

end Scope

end Emend

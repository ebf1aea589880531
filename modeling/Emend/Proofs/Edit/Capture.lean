import Emend.Proofs.Edit.Footprint
import Emend.Proofs.Resolution
import Emend.Source.Declaration

/-!
# What an import captures

An import puts a new alias into a scope. A name that is kept in full is shortened anew
when it is printed, so the alias cannot capture it: what it denotes there is the name
itself (`lower_resolve_shorten`), or the last segment where that is a type keyword
(`resolve_shorten_of_hidden`), and neither depends on the new import.

The types of constants and the parameter lists of methods are kept as text. What a
written name denotes depends on the import under its first segment and on no other
(`resolve_congr`), so exactly the names that begin with the new alias are captured
(`resolve_importing_ne`). `import_captures_iff` puts these together.
-/

set_option autoImplicit false

namespace Emend

/-! ## The names in a declaration -/

namespace Name

/-- The names of a type expression; `current` is the name read so far. -/
def typeNamesFrom (current : List Char) : List Char → List String
  | [] => if current.isEmpty then [] else [.ofList current]
  | c :: cs =>
    if isTypeNameChar c then typeNamesFrom (current ++ [c]) cs
    else (if current.isEmpty then [] else [.ofList current]) ++ typeNamesFrom [] cs

/-- The names of a type expression, which are those that `mapType` changes. -/
def typeNames (expr : String) : List String := typeNamesFrom [] expr.toList

/-- The names in a parameter list; after a dollar sign stands a variable. -/
def parameterNames (parameters : String) : List String :=
  match Text.splitChars '$' parameters.toList with
  | [] => []
  | before :: after =>
    typeNamesFrom [] before ++ after.flatMap fun cs => typeNamesFrom [] (cs.dropWhile isTypeNameChar)

/-- A well-formed name as it is written, with or without a separator before it. -/
def IsWritten (written : String) : Prop :=
  WellFormed written ∨ ∃ name, WellFormed name ∧ written = "\\" ++ name

theorem IsWritten.trim_eq {written : String} (isWritten : IsWritten written) :
    Text.trim written = written := by
  rcases isWritten with wf | ⟨name, wf, rfl⟩
  · exact wf.trim_eq
  · refine Text.trim_of_forall fun c member => ?_
    rw [String.toList_append, toList_separator, List.singleton_append, List.mem_cons] at member
    rcases member with rfl | inside
    · decide
    · exact wf.no_blank c inside

theorem head?_segments_append {first : String} (single : separator ∉ first.toList)
    (rest : String) : (segments (first ++ "\\" ++ rest)).head? = some first := by
  rw [segments_append, segments_of_not_mem single, List.singleton_append, List.head?_cons]

/-- A well-formed name that begins with this segment is it, or lies below it. -/
theorem WellFormed.eq_or_append {name first : String} (wf : WellFormed name)
    (begins : (segments name).head? = some first) :
    name = first ∨ ∃ rest, WellFormed rest ∧ name = first ++ "\\" ++ rest := by
  cases cut : Text.cut? separator name with
  | none =>
      rw [segments_of_not_mem (Text.cut?_eq_none_iff.1 cut), List.head?_cons] at begins
      exact Or.inl (Option.some.inj begins)
  | some parts =>
      obtain ⟨before, rest⟩ := parts
      obtain ⟨e, single⟩ := Text.cut?_eq_some_iff.1 cut
      rw [singleton_separator] at e
      rw [e, head?_segments_append single, Option.some.injEq] at begins
      rw [e, wellFormed_append_iff] at wf
      exact Or.inr ⟨rest, wf.2, begins ▸ e⟩

theorem join_append {outer s rest : String} (outerWf : outer = "" ∨ WellFormed outer)
    (wf : WellFormed s) (restWf : WellFormed rest) :
    join outer (s ++ "\\" ++ rest) = join outer s ++ "\\" ++ rest := by
  have whole : WellFormed (s ++ "\\" ++ rest) := wellFormed_append_iff.2 ⟨wf, restWf⟩
  rcases outerWf with rfl | outerWf
  · rw [join_empty whole, join_empty wf]
  · rw [join_of_wellFormed outerWf whole, join_of_wellFormed outerWf wf]
    simp only [String.append_assoc]

theorem parent_join {outer s : String} (outerWf : outer = "" ∨ WellFormed outer)
    (wf : WellFormed s) (single : separator ∉ s.toList) : parent (join outer s) = outer := by
  rcases outerWf with rfl | outerWf
  · rw [join_empty wf, parent_eq, wf.normalize_eq, Text.cutLast?_eq_none_iff.2 single,
      Option.map_none, Option.getD_none]
  · have cut : Text.cutLast? separator (outer ++ "\\" ++ s) = some (outer, s) := by
      rw [Text.cutLast?_eq_some_iff, singleton_separator]
      exact ⟨rfl, single⟩
    rw [join_of_wellFormed outerWf wf, parent_eq,
      (wellFormed_append_iff.2 ⟨outerWf, wf⟩).normalize_eq, cut, Option.map_some, Option.getD_some]

end Name

namespace TypeDecl

/-- The names that are kept in full, and printed as short as the scope allows. -/
def storedNames (decl : TypeDecl) : List String :=
  decl.bases ++ decl.interfaces ++ decl.traits.values.map TraitUse.name ++
    (decl.properties.values.filterMap Property.typeHint ++
      decl.methods.values.filterMap Method.returnType).flatMap Name.typeNames

/-- The names in what is kept as text, and printed as it is. -/
def verbatimNames (decl : TypeDecl) : List String :=
  (decl.constants.values.filterMap Constant.typeHint).flatMap Name.typeNames ++
    decl.methods.values.flatMap fun m => Name.parameterNames m.parameters

end TypeDecl

namespace Scope

variable {scope : Scope} {name : String}

/-! ## What a printed name denotes -/

theorem Regular.typeImport?_keyword (regular : scope.Regular) {s : String}
    (keyword : Name.isBuiltinType s = true) : scope.typeImport? s = none := by
  cases found : scope.typeImport? s with
  | none => rfl
  | some i =>
      -- every alias stands under its own name, and none is a keyword
      have there := (Option.filter_eq_some_iff.1 found).1
      obtain ⟨listed, rfl⟩ := regular.keyed.get?_eq_some_iff.1 there
      rw [(regular.aliases i listed).noKeyword] at keyword
      cases keyword

theorem resolve_shorten_of_hidden (regular : scope.Regular) (wf : Name.WellFormed name)
    (hidden : scope.Hidden name) : scope.resolve (scope.shorten name) = Name.short name := by
  have imported := (importedAs?_eq_none_iff wf).2 hidden.notImported
  have free := regular.typeImport?_keyword hidden.keyword
  have written : scope.shorten name = Name.short name := by
    unfold shorten
    simp only [wf.normalize_eq, hidden.noKeyword, imported, hidden.here, free, beq_self_eq_true,
      Option.isNone_none, Bool.and_self, if_true, Bool.false_eq_true, if_false]
  rw [written, resolve_keyword wf.short hidden.keyword]

/-- **A printed name denotes the name that is kept**, up to case. -/
theorem lower_resolve_shorten (regular : scope.Regular) (wf : Name.WellFormed name)
    (visible : ¬ scope.Hidden name) :
    Text.lower (scope.resolve (scope.shorten name)) = Text.lower name := by
  rcases resolve_shorten_visible regular wf visible with exactly | ⟨i, -, -, same, read⟩
  · rw [exactly]
  · rw [read, same]

/-- A name is read with the import under its first segment, and no other. -/
theorem resolve_congr {other : Scope} (current : other.current = scope.current) {written : String}
    (agree : ∀ first, (Name.segments (Text.trim written)).head? = some first →
      other.typeImport? first = scope.typeImport? first) :
    other.resolve written = scope.resolve written := by
  unfold resolve
  generalize Text.trim written = written at agree
  dsimp only
  cases cut : Text.cut? Name.separator written with
  | none =>
      have whole := agree written <| by
        rw [Name.segments_of_not_mem (Text.cut?_eq_none_iff.1 cut), List.head?_cons]
      simp only [whole, current]
  | some parts =>
      obtain ⟨first, rest⟩ := parts
      obtain ⟨e, single⟩ := Text.cut?_eq_some_iff.1 cut
      rw [Name.singleton_separator] at e
      have begins := agree first <| by rw [e, Name.head?_segments_append single]
      simp only [begins, current]

/-! ## One more import -/

/-- The scope with one more class imported under its last segment. -/
def importing (scope : Scope) (name : String) : Scope :=
  ⟨scope.current, scope.imports.insert (Name.short name) ⟨name, Name.short name, .type⟩⟩

/-- The class is not known here, and its last segment can be its alias. -/
structure Admits (scope : Scope) (name : String) : Prop where
  wellFormed : Name.WellFormed name
  isAlias : Name.IsAlias (Name.short name)
  free : ∀ i ∈ scope.imports.values, i.kind = .type →
    Text.lower i.localName ≠ Text.lower (Name.short name)
  notHere : Text.lower (Name.parent name) ≠ Text.lower scope.current
  notImported : ∀ i ∈ scope.imports.values, i.kind = .type → Text.lower i.name ≠ Text.lower name

section Importing

variable {class_ : String} (regular : scope.Regular) (admits : scope.Admits class_)

theorem typeImport?_importing (s : String) :
    (scope.importing class_).typeImport? s =
      if s = Name.short class_ then some ⟨class_, Name.short class_, .type⟩
      else scope.typeImport? s := by
  unfold typeImport? importing
  rw [Table.get?_insert]
  split <;> rfl

include admits regular

theorem typeImport?_of_admits : scope.typeImport? (Name.short class_) = none := by
  cases found : scope.typeImport? (Name.short class_) with
  | none => rfl
  | some i =>
      obtain ⟨there, isType⟩ := Option.filter_eq_some_iff.1 found
      obtain ⟨listed, named⟩ := regular.keyed.get?_eq_some_iff.1 there
      exact absurd (congrArg Text.lower named) (admits.free i listed (by simpa using isType))

theorem regular_importing : (scope.importing class_).Regular where
  current := regular.current
  keyed := by
    have keyed := regular.keyed.insert ⟨class_, Name.short class_, .type⟩
    dsimp only at keyed
    exact keyed
  aliases := by
    intro i listed
    rcases Table.mem_values_insert listed with rfl | before
    · dsimp only
      exact admits.isAlias
    · exact regular.aliases i before

/-- The new import is of another class, so it hides and reveals nothing. -/
theorem hidden_importing_iff : (scope.importing class_).Hidden name ↔ scope.Hidden name := by
  constructor
  · rintro ⟨here, keyword, noKeyword, notImported⟩
    refine ⟨here, keyword, noKeyword, fun i listed isType => notImported i ?_ isType⟩
    refine regular.keyed.mem_values_insert_of_ne listed fun named => ?_
    exact admits.free i listed isType (congrArg Text.lower named)
  · rintro ⟨here, keyword, noKeyword, notImported⟩
    refine ⟨here, keyword, noKeyword, fun i listed isType => ?_⟩
    rcases Table.mem_values_insert listed with rfl | before
    · intro same
      apply admits.notHere
      rw [Name.lower_parent, same, ← Name.lower_parent, here]
    · exact notImported i before isType

/-- **A name that is kept in full is not captured.** -/
theorem resolve_shorten_importing (wf : Name.WellFormed name) :
    Text.lower ((scope.importing class_).resolve ((scope.importing class_).shorten name)) =
      Text.lower (scope.resolve (scope.shorten name)) := by
  have regular' := regular_importing regular admits
  by_cases hidden : scope.Hidden name
  · have hidden' := (hidden_importing_iff regular admits).2 hidden
    rw [resolve_shorten_of_hidden regular wf hidden,
      resolve_shorten_of_hidden regular' wf hidden']
  · have visible : ¬ (scope.importing class_).Hidden name := fun hidden' =>
      hidden ((hidden_importing_iff regular admits).1 hidden')
    rw [lower_resolve_shorten regular wf hidden, lower_resolve_shorten regular' wf visible]

/-- The class that an unimported last segment denotes here is another one. -/
theorem lower_join_short_ne :
    Text.lower (Name.join scope.current (Name.short class_)) ≠ Text.lower class_ := by
  intro same
  apply admits.notHere
  have above := Name.parent_join regular.current admits.isAlias.wellFormed admits.isAlias.single
  rw [Name.lower_parent, ← same, ← Name.lower_parent, above]

/-- **A written name that begins with the new alias is captured.** -/
theorem resolve_importing_ne {written : String} (wf : Name.WellFormed written)
    (begins : (Name.segments written).head? = some (Name.short class_)) :
    Text.lower ((scope.importing class_).resolve written) ≠ Text.lower (scope.resolve written) := by
  have isAlias := admits.isAlias
  have before := typeImport?_of_admits regular admits
  have after : (scope.importing class_).typeImport? (Name.short class_) =
      some ⟨class_, Name.short class_, .type⟩ := by
    rw [typeImport?_importing, if_pos rfl]
  have apart := lower_join_short_ne regular admits
  rcases wf.eq_or_append begins with whole | ⟨rest, restWf, below⟩
  · rw [whole, resolve_alias isAlias.wellFormed isAlias.single isAlias.noKeyword after,
      resolve_local isAlias.wellFormed isAlias.single isAlias.noKeyword before]
    exact apart.symm
  · rw [below, resolve_through isAlias restWf after, resolve_several isAlias restWf, before,
      Option.map_none, Option.getD_none, Name.join_of_wellFormed admits.wellFormed restWf,
      Name.join_append regular.current isAlias.wellFormed restWf]
    simp only [Text.lower_append]
    intro same
    apply apart
    rw [← String.toList_inj] at same ⊢
    simpa only [String.toList_append, List.append_cancel_right_eq] using same.symm

theorem same_resolve_importing_iff {written : String} (isWritten : Name.IsWritten written) :
    Text.sameIgnoringCase ((scope.importing class_).resolve written) (scope.resolve written) =
        true ↔
      (Name.segments written).head? ≠ some (Name.short class_) := by
  rw [Text.sameIgnoringCase_iff]
  constructor
  · intro same begins
    rcases isWritten with wf | ⟨name, wf, rfl⟩
    · exact resolve_importing_ne regular admits wf begins same
    · -- a full name begins with an empty segment
      have empty : (Name.segments ("" ++ "\\" ++ name)).head? = some "" :=
        Name.head?_segments_append (by decide) name
      rw [String.empty_append, begins, Option.some.injEq] at empty
      exact admits.isAlias.wellFormed.ne_empty empty
  · intro other
    have current : (scope.importing class_).current = scope.current := rfl
    have same : (scope.importing class_).resolve written = scope.resolve written := by
      refine resolve_congr current fun first begins => ?_
      rw [isWritten.trim_eq] at begins
      rw [typeImport?_importing, if_neg]
      intro named
      rw [named] at begins
      exact other begins
    rw [same]

end Importing

end Scope

/-! ## Imports of a unit -/

namespace Mutation

theorem scope_onNamespace_import {name : String} (wf : Name.WellFormed name) (ns : Namespace) :
    ((import_ name).onNamespace ns).1.scope =
      if ns.needsNoImport name = true then ns.scope else ns.scope.importing name := by
  have named : (import_ name).WellFormed := wf
  have added : (import_ name).adds ns = if ns.needsNoImport name = true then none else some name := by
    rw [adds, className?, reaches, Option.filter_some, Bool.true_and]
    cases ns.needsNoImport name <;> rfl
  rw [onNamespace_eq named, added]
  split
  · rfl
  · rfl

theorem admits_of_check {name : String} (wf : Name.WellFormed name)
    (isAlias : Name.IsAlias (Name.short name)) {u : SourceUnit}
    (checked : (import_ name).check u = .ok ()) {ns : Namespace}
    (listed : ns ∈ u.namespaces.values) (needed : ns.needsNoImport name = false) :
    ns.scope.Admits name := by
  have free := (check_eq_ok_iff.1 checked).1 ns listed name
    (adds_eq_some_iff.2 ⟨rfl, rfl, needed⟩)
  simp only [Namespace.needsNoImport, Bool.or_eq_false_iff] at needed
  refine ⟨wf, isAlias, free.aliases, fun same => ?_, fun i imported isType same => ?_⟩
  · have here : Text.sameIgnoringCase (Name.parent name) ns.name = true :=
      Text.sameIgnoringCase_iff.2 same
    rw [here] at needed
    cases needed.1.2
  · have known : ns.importsName name = true := by
      rw [Namespace.importsName_iff, wf.normalize_eq]
      exact ⟨i, imported, isType, same⟩
    rw [known] at needed
    cases needed.2

/-- **What an import captures.** Types are not changed, and a name that is kept in full
denotes the same class as before. A name in a type of a constant or in a parameter list
does so exactly unless the class was imported anew and the name begins with its alias. -/
theorem import_captures_iff {name : String} (wf : Name.WellFormed name)
    (isAlias : Name.IsAlias (Name.short name)) {u u' : SourceUnit} {changes : Nat}
    (applied : (import_ name).apply u = .ok (u', changes)) {key : String} {ns : Namespace}
    (found : u.namespaces.get? key = some ns) (regular : ns.scope.Regular) :
    ∃ ns', u'.namespaces.get? key = some ns' ∧ ns'.types = ns.types ∧
      ∀ decl ∈ ns.types.values,
        (∀ stored ∈ decl.storedNames, Name.WellFormed stored →
          Text.sameIgnoringCase (ns'.scope.resolve (ns'.scope.shorten stored))
            (ns.scope.resolve (ns.scope.shorten stored)) = true) ∧
        ∀ written ∈ decl.verbatimNames, Name.IsWritten written →
          (Text.sameIgnoringCase (ns'.scope.resolve written) (ns.scope.resolve written) = true ↔
            ns.needsNoImport name = true ∨
              (Name.segments written).head? ≠ some (Name.short name)) := by
  obtain ⟨checked, edited⟩ := apply_eq_ok_iff.1 applied
  obtain rfl : ((import_ name).edit u).1 = u' := congrArg Prod.fst edited
  refine ⟨((import_ name).onNamespace ns).1, ?_, ?_, ?_⟩
  · rw [edit_fst, Table.get?_mapValues, found, Option.map_some]
  · rw [onNamespace_fst]
    exact Table.mapValues_eq_self fun decl _ => declAfter_of_none rfl ns decl
  · intro decl _
    rw [scope_onNamespace_import wf]
    cases needed : ns.needsNoImport name with
    | true => simp
    | false =>
        have listed : ns ∈ u.namespaces.values :=
          Table.mem_values.2 ⟨key, Table.get?_eq_some_iff.1 found⟩
        have admits := admits_of_check wf isAlias checked listed needed
        simp only [Bool.false_eq_true, if_false, false_or]
        refine ⟨fun stored _ storedWf => ?_, fun written _ isWritten => ?_⟩
        · exact Text.sameIgnoringCase_iff.2
            (Scope.resolve_shorten_importing regular admits storedWf)
        · exact Scope.same_resolve_importing_iff regular admits isWritten

namespace Example

/-- One class in the types of a constant, of a parameter and of a returned value. -/
def typed : String := "<?php namespace A;class C{const Foo X=1;function f(Foo $x):Foo{}}"

def typedDecl : TypeDecl :=
  { TypeDecl.ofName .class "C" with
    constants := .ofList [("X", { Constant.ofValue "X" "1" with typeHint := some "Foo" })]
    methods := .ofList [("f", { Method.ofName "f" with
      parameters := "Foo $x"
      returnType := some "A\\Foo" })] }

def typedSpace : Namespace :=
  { Namespace.ofName "A" with types := .ofList [("C", typedDecl)] }

def typedUnit : SourceUnit := ⟨false, .ofList [("A", typedSpace)]⟩

/-- An import of another `Foo`: the returned class is printed in full from then on, but the
`Foo` of the constant and of the parameter is the imported one. -/
theorem import_captures_iff_typed :
    SourceUnit.parse typed = .ok typedUnit ∧ "A\\Foo" ∈ typedDecl.storedNames ∧
      typedDecl.verbatimNames = ["Foo", "Foo"] ∧
      ∃ u' ns', (import_ "Lib\\Foo").apply typedUnit = .ok (u', 1) ∧
        u'.namespaces.get? "A" = some ns' ∧
        Text.sameIgnoringCase (ns'.scope.resolve (ns'.scope.shorten "A\\Foo"))
          (typedSpace.scope.resolve (typedSpace.scope.shorten "A\\Foo")) = true ∧
        ¬ Text.sameIgnoringCase (ns'.scope.resolve "Foo") (typedSpace.scope.resolve "Foo") = true := by
  have stored : "A\\Foo" ∈ typedDecl.storedNames := by decide +kernel
  have verbatim : typedDecl.verbatimNames = ["Foo", "Foo"] := by decide +kernel
  have declared : typedDecl ∈ typedSpace.types.values := by
    show typedDecl ∈ [typedDecl]
    exact List.mem_singleton_self _
  have regular : typedSpace.scope.Regular :=
    ⟨Or.inr (by decide +kernel), by decide +kernel, by decide +kernel⟩
  have applied : (import_ "Lib\\Foo").apply typedUnit =
      .ok (((import_ "Lib\\Foo").edit typedUnit).1, 1) :=
    apply_eq_ok_iff.2 ⟨by rfl, Prod.ext rfl (by decide +kernel)⟩
  have found : typedUnit.namespaces.get? "A" = some typedSpace := by decide +kernel
  obtain ⟨ns', found', -, kept⟩ := import_captures_iff (by decide +kernel) (by decide +kernel)
    applied found regular
  obtain ⟨full, text⟩ := kept typedDecl declared
  refine ⟨by decide +kernel, stored, verbatim, _, ns', applied, found',
    full "A\\Foo" stored (by decide +kernel), ?_⟩
  have listed : "Foo" ∈ typedDecl.verbatimNames := verbatim ▸ List.mem_cons_self ..
  rw [text "Foo" listed (Or.inl (by decide +kernel))]
  decide +kernel

end Example

end Mutation

end Emend

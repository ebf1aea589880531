import Emend.Scope
import Emend.Proofs.Name
import Emend.Proofs.Table

/-!
# Shortening is undone by resolution

`Scope.shorten` has five ways out and `Scope.resolve` five ways in. A way out is
said once, in `Scope.shorten_cases`; for each of them one lemma says how
`resolve` reads what was written. Together they give `Scope.resolve_shorten`: in
a regular scope the short spelling of a name means that name, up to the case of
letters, and exactly unless the scope imports the name in another case.
-/

set_option autoImplicit false

namespace Emend

/-- One segment that is no type keyword and not the word `namespace`. -/
structure Name.IsAlias (s : String) : Prop where
  wellFormed : Name.WellFormed s
  single : Name.separator ∉ s.toList
  noKeyword : Name.isBuiltinType s = false
  noNamespace : Text.sameIgnoringCase s "namespace" = false

instance (s : String) : Decidable (Name.IsAlias s) :=
  decidable_of_iff
    (Name.WellFormed s ∧ Name.separator ∉ s.toList ∧ Name.isBuiltinType s = false ∧
      Text.sameIgnoringCase s "namespace" = false)
    ⟨fun ⟨a, b, c, d⟩ => ⟨a, b, c, d⟩, fun ⟨a, b, c, d⟩ => ⟨a, b, c, d⟩⟩

/-- A well-formed name with no type keyword in it, unless it is one. -/
structure Name.IsTarget (name : String) : Prop where
  wellFormed : Name.WellFormed name
  keyword : Name.isBuiltinType name = true ∨
    ∀ segment ∈ Name.segments name, Name.isBuiltinType segment = false

instance (name : String) : Decidable (Name.IsTarget name) :=
  decidable_of_iff
    (Name.WellFormed name ∧ (Name.isBuiltinType name = true ∨
      ∀ segment ∈ Name.segments name, Name.isBuiltinType segment = false))
    ⟨fun ⟨a, b⟩ => ⟨a, b⟩, fun ⟨a, b⟩ => ⟨a, b⟩⟩

namespace Scope

/-- The namespace is well formed or global, and every import stands under its
alias. -/
structure Regular (scope : Scope) : Prop where
  current : scope.current = "" ∨ Name.WellFormed scope.current
  keyed : scope.imports.KeyedBy Import.localName
  aliases : ∀ i ∈ scope.imports.values, Name.IsAlias i.localName

variable {scope : Scope}

/-! ## How a written name is read -/

/-- Only the word `namespace` before the first separator makes a name relative. -/
theorem relativePart?_eq_none {written : String}
    (other : ∀ first rest, written = first ++ "\\" ++ rest → Name.separator ∉ first.toList →
      Text.lower first ≠ "namespace") : relativePart? written = none := by
  have ne : ¬ Text.sameIgnoringCase (.ofList (written.toList.take 10)) "namespace\\" = true := by
    rw [Text.sameIgnoringCase_iff, ← String.toList_inj, Text.toList_lower, String.toList_ofList]
    intro same
    have cut := congrArg (Text.splitFirst? Name.separator) same
    rw [Text.splitFirst?_map_toLower Name.toLower_eq_separator_iff] at cut
    have word : Text.splitFirst? Name.separator (Text.lower "namespace\\").toList =
        some ("namespace".toList, []) := by decide
    rw [word, Option.map_eq_some_iff] at cut
    obtain ⟨⟨a, b⟩, found, e⟩ := cut
    obtain ⟨shape, single⟩ := Text.splitFirst?_eq_some_iff.1 found
    refine other (.ofList a) (.ofList (b ++ written.toList.drop 10)) ?_ (by simpa using single) ?_
    · have whole : a ++ Name.separator :: b ++ written.toList.drop 10 = written.toList := by
        rw [← shape, List.take_append_drop]
      rw [← String.toList_inj]
      simpa [Name.toList_separator] using whole.symm
    · rw [← String.toList_inj, Text.toList_lower, String.toList_ofList]
      exact (Prod.mk.inj e).1
  simp only [relativePart?, ne, if_false, Bool.false_eq_true]

/-- A full name is read as it is. -/
theorem resolve_absolute {name : String} (wf : Name.WellFormed name) :
    scope.resolve ("\\" ++ name) = name := by
  have plain : ∀ c ∈ ("\\" ++ name).toList, Text.isBlank c = false := by
    intro c member
    rw [String.toList_append, Name.toList_separator, List.mem_append, List.mem_singleton] at member
    rcases member with rfl | inside
    · decide
    · exact wf.no_blank c inside
  have strip : Text.strip? "\\" (Text.trim ("\\" ++ name)) = some name := by
    rw [Text.trim_of_forall plain, Text.strip?_eq_some_iff]
  unfold resolve
  simp only [strip]

/-- A type keyword means itself. -/
theorem resolve_keyword {name : String} (wf : Name.WellFormed name)
    (keyword : Name.isBuiltinType name = true) : scope.resolve name = name := by
  unfold resolve
  simp only [wf.trim_eq, wf.strip?_eq_none, keyword, if_true]

section Single

variable {s : String} (wf : Name.WellFormed s) (single : Name.separator ∉ s.toList)
  (noKeyword : Name.isBuiltinType s = false)

include wf single noKeyword

theorem resolve_single : scope.resolve s =
    ((scope.typeImport? s).map Import.name).getD (Name.join scope.current s) := by
  have relative : relativePart? s = none := by
    refine relativePart?_eq_none fun first rest e _ => absurd ?_ single
    simp [e, Name.toList_separator]
  have cut : Text.cut? Name.separator s = none := Text.cut?_eq_none_iff.2 single
  unfold resolve
  simp only [wf.trim_eq, wf.strip?_eq_none, noKeyword, relative, cut, Bool.false_eq_true, if_false]
  cases scope.typeImport? s <;> simp

theorem resolve_alias {i : Import} (found : scope.typeImport? s = some i) :
    scope.resolve s = i.name := by
  rw [resolve_single wf single noKeyword, found, Option.map_some, Option.getD_some]

theorem resolve_local (free : scope.typeImport? s = none) :
    scope.resolve s = Name.join scope.current s := by
  rw [resolve_single wf single noKeyword, free, Option.map_none, Option.getD_none]

end Single

/-- The first of several segments may be an alias. -/
theorem resolve_several {first rest : String} (isAlias : Name.IsAlias first)
    (wf : Name.WellFormed rest) :
    scope.resolve (first ++ "\\" ++ rest) =
      ((scope.typeImport? first).map fun i => Name.join i.name rest).getD
        (Name.join scope.current (first ++ "\\" ++ rest)) := by
  have whole : Name.WellFormed (first ++ "\\" ++ rest) :=
    Name.wellFormed_append_iff.2 ⟨isAlias.wellFormed, wf⟩
  have cut : Text.cut? Name.separator (first ++ "\\" ++ rest) = some (first, rest) := by
    rw [Text.cut?_eq_some_iff, Name.singleton_separator]
    exact ⟨rfl, isAlias.single⟩
  have keyword : Name.isBuiltinType (first ++ "\\" ++ rest) = false :=
    Name.isBuiltinType_of_separator whole (by simp [Name.toList_separator])
  have relative : relativePart? (first ++ "\\" ++ rest) = none := by
    refine relativePart?_eq_none fun other tail e single => ?_
    have again : Text.cut? Name.separator (first ++ "\\" ++ rest) = some (other, tail) := by
      rw [Text.cut?_eq_some_iff, Name.singleton_separator]
      exact ⟨e, single⟩
    rw [cut] at again
    obtain ⟨rfl, -⟩ := Prod.mk.inj (Option.some.inj again)
    have differs := isAlias.noNamespace
    rw [Bool.eq_false_iff, ne_eq, Text.sameIgnoringCase_iff] at differs
    exact fun same => differs (same.trans (by decide))
  unfold resolve
  simp only [whole.trim_eq, whole.strip?_eq_none, keyword, relative, cut, Bool.false_eq_true,
    if_false]
  cases scope.typeImport? first with
  | none => simp only [Option.map_none, Option.getD_none]
  | some i => simp only [Option.map_some, Option.getD_some]

theorem resolve_through {first rest : String} {i : Import} (isAlias : Name.IsAlias first)
    (wf : Name.WellFormed rest) (found : scope.typeImport? first = some i) :
    scope.resolve (first ++ "\\" ++ rest) = Name.join i.name rest := by
  rw [resolve_several isAlias wf, found, Option.map_some, Option.getD_some]

/-! ## How a full name is written -/

theorem throughImport?_eq_some_iff {name written : String} {i : Import} :
    throughImport? name i = some written ↔
      i.kind = .type ∧ ∃ rest, name = i.name ++ "\\" ++ rest ∧ written = i.localName ++ "\\" ++ rest := by
  unfold throughImport?
  constructor
  · intro found
    split at found
    · rename_i rest stripped
      split at found
      · rename_i isType
        obtain ⟨tail, outer, inner⟩ := Option.bind_eq_some_iff.1 stripped
        rw [Text.strip?_eq_some_iff] at outer inner
        refine ⟨by simpa using isType, rest, ?_, (Option.some.inj found).symm⟩
        rw [outer, inner, String.append_assoc]
      · cases found
    · cases found
  · rintro ⟨isType, rest, rfl, rfl⟩
    have stripped : (Text.strip? i.name (i.name ++ "\\" ++ rest)).bind (Text.strip? "\\") =
        some rest := by
      refine Option.bind_eq_some_iff.2 ⟨"\\" ++ rest, ?_, ?_⟩
      · rw [Text.strip?_eq_some_iff, String.append_assoc]
      · rw [Text.strip?_eq_some_iff]
    simp only [stripped, isType, beq_self_eq_true, if_true]

/-- The five ways to write a well-formed name. -/
theorem shorten_cases (scope : Scope) {name : String} (wf : Name.WellFormed name) :
    (Name.isBuiltinType name = true ∧ scope.shorten name = name) ∨
    (∃ i ∈ scope.imports.values, i.kind = .type ∧ Text.lower i.name = Text.lower name ∧
      scope.shorten name = i.localName) ∨
    (Name.isBuiltinType name = false ∧ Name.parent name = scope.current ∧
      scope.typeImport? (Name.short name) = none ∧ scope.shorten name = Name.short name) ∨
    (∃ i ∈ scope.imports.values, i.kind = .type ∧ ∃ rest, name = i.name ++ "\\" ++ rest ∧
      scope.shorten name = i.localName ++ "\\" ++ rest) ∨
    scope.shorten name = "\\" ++ name := by
  unfold shorten
  simp only [wf.normalize_eq]
  cases keyword : Name.isBuiltinType name with
  | true => simp
  | false =>
      simp only [Bool.false_eq_true, if_false, false_and, false_or, true_and]
      cases imported : scope.importedAs? name with
      | some i =>
          left
          have listed := List.mem_of_find?_eq_some imported
          have found := List.find?_some imported
          rw [wf.normalize_eq, Bool.and_eq_true, beq_iff_eq, Text.sameIgnoringCase_iff] at found
          exact ⟨i, listed, found.1, found.2, rfl⟩
      | none =>
          right
          simp only [Bool.and_eq_true, beq_iff_eq, Option.isNone_iff_eq_none]
          split
          · rename_i here
            exact Or.inl ⟨here.1, here.2, rfl⟩
          · right
            cases through : scope.imports.values.findSome? (throughImport? name) with
            | some written =>
                left
                obtain ⟨i, listed, found⟩ := List.exists_of_findSome?_eq_some through
                obtain ⟨isType, rest, e, e'⟩ := throughImport?_eq_some_iff.1 found
                exact ⟨i, listed, isType, rest, e, e'⟩
            | none => exact Or.inr rfl

/-! ## The two together -/

theorem Regular.typeImport?_eq (regular : scope.Regular) {i : Import}
    (listed : i ∈ scope.imports.values) (isType : i.kind = .type) :
    scope.typeImport? i.localName = some i := by
  have found := regular.keyed.get?_eq_some_iff.2 ⟨listed, rfl⟩
  simp [typeImport?, found, isType]

theorem importedAs?_eq_none_iff {name : String} (wf : Name.WellFormed name) :
    scope.importedAs? name = none ↔
      ∀ i ∈ scope.imports.values, i.kind = .type → Text.lower i.name ≠ Text.lower name := by
  simp [importedAs?, wf.normalize_eq]

theorem shorten_of_importedAs? {name : String} (wf : Name.WellFormed name)
    (noKeyword : Name.isBuiltinType name = false) {i : Import}
    (imported : scope.importedAs? name = some i) : scope.shorten name = i.localName := by
  unfold shorten
  simp only [wf.normalize_eq, noKeyword, imported, Bool.false_eq_true, if_false]

/-- A class of the current namespace that is not imported, with a type keyword as its
last segment: it is printed as that segment and read as the keyword. -/
structure Hidden (scope : Scope) (name : String) : Prop where
  here : Name.parent name = scope.current
  keyword : Name.isBuiltinType (Name.short name) = true
  noKeyword : Name.isBuiltinType name = false
  notImported : ∀ i ∈ scope.imports.values, i.kind = .type →
    Text.lower i.name ≠ Text.lower name

/-- What the short spelling of a name that is not hidden means: the name itself, or an
imported name that is spelled in a case of its own. -/
theorem resolve_shorten_visible (regular : scope.Regular) {name : String}
    (wf : Name.WellFormed name) (visible : ¬ scope.Hidden name) :
    scope.resolve (scope.shorten name) = name ∨
      ∃ i ∈ scope.imports.values, i.kind = .type ∧ Text.lower i.name = Text.lower name ∧
        scope.resolve (scope.shorten name) = i.name := by
  rcases shorten_cases scope wf with
    ⟨keyword, written⟩ | ⟨i, listed, isType, same, written⟩ |
    ⟨noKeyword, here, free, written⟩ | ⟨i, listed, isType, rest, below, written⟩ | written
  · left
    rw [written, resolve_keyword wf keyword]
  · right
    have isAlias := regular.aliases i listed
    refine ⟨i, listed, isType, same, ?_⟩
    rw [written]
    exact resolve_alias isAlias.wellFormed isAlias.single isAlias.noKeyword
      (regular.typeImport?_eq listed isType)
  · left
    have plain : Name.isBuiltinType (Name.short name) = false := by
      rw [Bool.eq_false_iff]
      intro keyword
      -- an import of the name would have been written instead of its last segment
      cases imported : scope.importedAs? name with
      | none =>
          exact visible ⟨here, keyword, noKeyword, (importedAs?_eq_none_iff wf).1 imported⟩
      | some i =>
          have isAlias := regular.aliases i (List.mem_of_find?_eq_some imported)
          rw [← written, shorten_of_importedAs? wf noKeyword imported, isAlias.noKeyword] at keyword
          cases keyword
    rw [written, resolve_local wf.short wf.parts.1 plain free, ← here, Name.join_parent_short wf]
  · left
    have parts := wf
    rw [below, Name.wellFormed_append_iff] at parts
    rw [written, resolve_through (regular.aliases i listed) parts.2
      (regular.typeImport?_eq listed isType), Name.join_of_wellFormed parts.1 parts.2, ← below]
  · left
    rw [written, resolve_absolute wf]

/-- A name without a type keyword in it is not hidden. -/
theorem Hidden.not_isTarget {name : String} (hidden : scope.Hidden name) :
    ¬ Name.IsTarget name := by
  rintro ⟨wf, keyword | plain⟩
  · rw [hidden.noKeyword] at keyword
    cases keyword
  · have last := plain _ wf.parts.2.1
    rw [hidden.keyword] at last
    cases last

theorem resolve_shorten_cases (regular : scope.Regular) {name : String}
    (target : Name.IsTarget name) :
    scope.resolve (scope.shorten name) = name ∨
      ∃ i ∈ scope.imports.values, i.kind = .type ∧ Text.lower i.name = Text.lower name ∧
        scope.resolve (scope.shorten name) = i.name :=
  resolve_shorten_visible regular target.wellFormed fun hidden => hidden.not_isTarget target

/-- **The short spelling of a name means that name**, up to case, and exactly
unless the scope imports the name in another case. -/
theorem resolve_shorten (regular : scope.Regular) {name : String} (target : Name.IsTarget name) :
    Text.sameIgnoringCase (scope.resolve (scope.shorten name)) name = true ∧
      ((∀ i ∈ scope.imports.values, i.kind = .type → Text.sameIgnoringCase i.name name = true →
          i.name = name) →
        scope.resolve (scope.shorten name) = name) := by
  rcases resolve_shorten_cases regular target with exactly | ⟨i, listed, isType, same, read⟩
  · rw [exactly]
    exact ⟨Text.sameIgnoringCase_iff.2 rfl, fun _ => rfl⟩
  · rw [read]
    have same' : Text.sameIgnoringCase i.name name = true := Text.sameIgnoringCase_iff.2 same
    exact ⟨same', fun spelled => spelled i listed isType same'⟩

namespace Example

/-- A scope in which an alias hides a name of the namespace, and a class is
imported in a case of its own. -/
def shadowed : Scope :=
  ⟨"App\\Models", .ofList [("Post", ⟨"Other\\Post", "Post", .type⟩),
    ("Rel", ⟨"Vendor\\Relations", "Rel", .type⟩)]⟩

theorem shadowed_regular : shadowed.Regular :=
  ⟨Or.inr (by decide), by decide, by decide⟩

/-- The hidden name is written in full and read back; the imported one is read
back as it is imported. -/
theorem resolve_shorten_shadowed :
    (shadowed.Regular ∧ Name.IsTarget "App\\Models\\Post" ∧
      shadowed.resolve (shadowed.shorten "App\\Models\\Post") = "App\\Models\\Post") ∧
    Name.IsTarget "vendor\\relations" ∧
      Text.sameIgnoringCase (shadowed.resolve (shadowed.shorten "vendor\\relations"))
        "vendor\\relations" = true :=
  have post : Name.IsTarget "App\\Models\\Post" := by decide
  have relations : Name.IsTarget "vendor\\relations" := by decide
  ⟨⟨shadowed_regular, post, (resolve_shorten shadowed_regular post).2 (by decide)⟩, relations,
    (resolve_shorten shadowed_regular relations).1⟩

end Example

end Scope

end Emend

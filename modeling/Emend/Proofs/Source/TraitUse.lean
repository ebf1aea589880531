import Emend.Proofs.Text
import Emend.Source.Declaration
import Emend.Source.Printer

/-!
# Reading trait uses, and when printing comes to rest

The grammar takes a keyword in any case, but a trait use is read by the spelling of
its keyword: `use` is cut off as it is printed, and any other spelling is left in
the first name (`traitUses_of_other`). So the names that stand in a clause are
read exactly when its keyword is spelled as it is printed (`traitUses_eq_iff`).

A name that holds the keyword is printed after one more keyword, which the grammar
refuses. So the printed text of such a file is no fixed point of reading and
printing (`Example.not_fixedPoint_capital`).
-/

set_option autoImplicit false

namespace Emend

namespace Text

/-- A text between two characters that are no blanks is trimmed. -/
theorem trimChars_of_ends {first last : Char} {cs : List Char} (begins : isBlank first = false)
    (ends : isBlank last = false) : trimChars (first :: cs ++ [last]) = first :: cs ++ [last] := by
  rw [trimChars, List.cons_append, List.dropWhile_cons_of_neg (by simp [begins]),
    ← List.cons_append, dropEndWhile_concat_of_neg ends]

end Text

namespace Declaration

/-! ## Clauses -/

/-- What a trait can be called: something without blanks and without what ends a name
in a clause. -/
def IsTraitName (name : String) : Prop :=
  name ≠ "" ∧ ∀ c ∈ name.toList, Text.isBlank c = false ∧ c ∉ [',', ';', '{']

/-- A trait use: a keyword, names with commas between them, and a semicolon. -/
def useClause (keyword : String) (names : List String) : String :=
  keyword ++ " " ++ ", ".intercalate names ++ ";"

/-- The names of a clause after what stands before the first of them. -/
def listChars (lead : List Char) (names : List String) : List Char :=
  lead ++ [',', ' '].intercalate (names.map String.toList)

theorem toList_useClause (keyword : String) (names : List String) :
    (useClause keyword names).toList = listChars (keyword.toList ++ [' ']) names ++ [';'] := by
  simp [useClause, listChars]

theorem listChars_cons (lead : List Char) (name other : String) (others : List String) :
    listChars lead (name :: other :: others) =
      (lead ++ name.toList) ++ ',' :: listChars [' '] (other :: others) := by
  simp [listChars, List.intercalate_cons_cons]

theorem IsTraitName.trim_blank {name : String} (named : IsTraitName name) :
    Text.trim (.ofList (' ' :: name.toList)) = name := by
  have plain : ∀ c ∈ name.toList, Text.isBlank c = false := fun c inside => (named.2 c inside).1
  rw [Text.trim, String.toList_ofList, Text.trimChars, List.dropWhile_cons_of_pos (by decide),
    Text.dropWhile_eq_self_of_forall plain, Text.dropEndWhile_eq_self_of_forall plain,
    String.ofList_toList]

theorem IsTraitName.exists_last {name : String} (named : IsTraitName name) :
    ∃ front last, name.toList = front ++ [last] ∧ Text.isBlank last = false := by
  have nonempty : name.toList ≠ [] := fun e => named.1 (String.toList_eq_nil_iff.1 e)
  refine ⟨_, _, (List.dropLast_concat_getLast nonempty).symm, ?_⟩
  exact (named.2 _ (List.getLast_mem nonempty)).1

section

variable {lead : List Char} {name : String} {names : List String}
  (plain : ∀ c ∈ lead, c ∉ [',', ';', '{']) (named : ∀ n ∈ name :: names, IsTraitName n)

include plain named

/-- What ends a name in a clause is not in the list, commas apart. -/
theorem not_mem_listChars {c : Char} (ends : c ∈ [';', '{']) :
    c ∉ listChars lead (name :: names) := by
  have absent : c ∉ lead ++ name.toList := by
    rw [List.mem_append, not_or]
    exact ⟨fun inside => plain c inside (List.mem_cons_of_mem _ ends), fun inside =>
      ((named name (by simp)).2 c inside).2 (List.mem_cons_of_mem _ ends)⟩
  induction names generalizing lead name with
  | nil => simpa [listChars] using absent
  | cons other others ih =>
      have named' : ∀ n ∈ other :: others, IsTraitName n :=
        fun n listed => named n (List.mem_cons_of_mem _ listed)
      have separator : c ≠ ',' ∧ c ∉ [' '] := by
        simp only [List.mem_cons, List.not_mem_nil, or_false] at ends
        rcases ends with rfl | rfl <;> decide
      have absent' : c ∉ [' '] ++ other.toList := by
        rw [List.mem_append, not_or]
        exact ⟨separator.2, fun inside =>
          ((named' other (by simp)).2 c inside).2 (List.mem_cons_of_mem _ ends)⟩
      rw [listChars_cons, List.mem_append, List.mem_cons, not_or, not_or]
      exact ⟨absent, separator.1, ih (by simp) named' absent'⟩

/-- The commas of a clause stand between its names. -/
theorem splitChars_listChars :
    Text.splitChars ',' (listChars lead (name :: names)) =
      (lead ++ name.toList) :: names.map fun n => ' ' :: n.toList := by
  have absent : ',' ∉ lead ++ name.toList := by
    rw [List.mem_append, not_or]
    exact ⟨fun inside => plain _ inside (by simp), fun inside =>
      ((named name (by simp)).2 _ inside).2 (by simp)⟩
  induction names generalizing lead name with
  | nil => simp [listChars, Text.splitChars_of_not_mem absent]
  | cons other others ih =>
      have named' : ∀ n ∈ other :: others, IsTraitName n :=
        fun n listed => named n (List.mem_cons_of_mem _ listed)
      have absent' : ',' ∉ [' '] ++ other.toList := by
        rw [List.mem_append, not_or]
        exact ⟨by decide, fun inside => ((named' other (by simp)).2 _ inside).2 (by simp)⟩
      rw [listChars_cons, Text.splitChars_append, Text.splitChars_of_not_mem absent,
        ih (by simp) named' absent']
      rfl

theorem trim_split_listChars :
    (Text.split ',' (.ofList (listChars lead (name :: names)))).map Text.trim =
      Text.trim (.ofList (lead ++ name.toList)) :: names := by
  rw [Text.split, String.toList_ofList, splitChars_listChars plain named, List.map_cons,
    List.map_cons, List.map_map, List.map_map]
  congr 1
  refine (List.map_congr_left fun n inside => ?_).trans (List.map_id _)
  exact (named n (List.mem_cons_of_mem _ inside)).trim_blank

/-- The traits that are read from a clause after what is cut off. -/
theorem traitUses_of_toList {text : String}
    (clause : ((Text.strip? "use" (Text.trim text)).getD (Text.trim text)).toList =
      listChars lead (name :: names) ++ [';'])
    (first : Text.trim (.ofList (lead ++ name.toList)) ≠ "") :
    traitUses text = (Text.trim (.ofList (lead ++ name.toList)) :: names).map
      fun n => TraitUse.mk n none := by
  unfold traitUses
  extract_lets trimmed rest
  change rest.toList = _ at clause
  clear_value rest trimmed
  have braceless : Text.cut? '{' rest = none := by
    rw [Text.cut?_eq_none_iff, clause, List.mem_append, not_or]
    exact ⟨not_mem_listChars plain named (by decide), by decide⟩
  have listed : Text.dropEnd ';' (Text.trimEnd rest) = .ofList (listChars lead (name :: names)) := by
    rw [Text.dropEnd, Text.trimEnd, clause, Text.dropEndWhile_concat_of_neg (by decide),
      String.toList_ofList, Text.dropEndWhile_concat_of_pos (by decide),
      Text.dropEndWhile_eq_self_of_forall]
    intro c inside
    rw [beq_eq_false_iff_ne]
    rintro rfl
    exact not_mem_listChars plain named (by decide) inside
  have kept : (Text.trim (.ofList (lead ++ name.toList)) :: names).filter (!·.isEmpty) =
      Text.trim (.ofList (lead ++ name.toList)) :: names := by
    rw [List.filter_eq_self]
    intro n inside
    rcases List.mem_cons.1 inside with rfl | later
    · simpa using first
    · simpa using (named n (List.mem_cons_of_mem _ later)).1
  rw [braceless]
  simp only [listed, trim_split_listChars plain named, kept]

end

/-! ## The keyword -/

section

variable {keyword : String} (same : Text.sameIgnoringCase keyword "use" = true)

include same

theorem toLower_keyword : keyword.toList.map Char.toLower = ['u', 's', 'e'] := by
  rw [← Text.toList_lower, Text.sameIgnoringCase_iff.1 same]
  decide

theorem keyword_plain {c : Char} (inside : c ∈ keyword.toList) :
    Text.isBlank c = false ∧ c ∉ [',', ';', '{'] := by
  have letter : c.toLower ∈ ['u', 's', 'e'] := by
    rw [← toLower_keyword same]
    exact List.mem_map_of_mem inside
  constructor
  · rw [← Text.isBlank_toLower]
    revert letter
    generalize c.toLower = d
    simp only [List.mem_cons, List.not_mem_nil, or_false]
    rintro (rfl | rfl | rfl) <;> decide
  · intro ends
    simp only [List.mem_cons, List.not_mem_nil, or_false] at ends
    rcases ends with rfl | rfl | rfl <;> revert letter <;> decide

theorem exists_keyword_cons :
    ∃ first rest, keyword.toList = first :: rest ∧ Text.isBlank first = false := by
  cases spelled : keyword.toList with
  | nil => simpa [spelled] using toLower_keyword same
  | cons first rest => exact ⟨first, rest, rfl, (keyword_plain same (by simp [spelled])).1⟩

theorem trim_useClause (names : List String) :
    Text.trim (useClause keyword names) = useClause keyword names := by
  obtain ⟨first, rest, spelled, begins⟩ := exists_keyword_cons same
  have ends : ∃ inner, (useClause keyword names).toList = first :: inner ++ [';'] := by
    rw [toList_useClause, listChars, spelled]
    exact ⟨_, rfl⟩
  obtain ⟨inner, clause⟩ := ends
  rw [Text.trim, clause, Text.trimChars_of_ends begins (by decide), ← clause,
    String.ofList_toList]

/-- Only the spelling that is printed is cut off. -/
theorem strip?_useClause (other : keyword ≠ "use") (names : List String) :
    Text.strip? "use" (useClause keyword names) = none := by
  cases stripped : Text.strip? "use" (useClause keyword names) with
  | none => rfl
  | some rest =>
      have clause := congrArg String.toList (Text.strip?_eq_some_iff.1 stripped)
      rw [toList_useClause, listChars, String.toList_append, List.append_assoc,
        List.append_assoc] at clause
      have length : keyword.toList.length = "use".toList.length := by
        rw [← List.length_map Char.toLower, toLower_keyword same]
        decide
      exact absurd (String.toList_injective (List.append_inj clause length).1) other

variable {name : String} {names : List String} (named : ∀ n ∈ name :: names, IsTraitName n)

include named

/-- A keyword in another spelling stays in the first name. -/
theorem traitUses_of_other (other : keyword ≠ "use") :
    traitUses (useClause keyword (name :: names)) =
      ((keyword ++ " " ++ name) :: names).map fun n => TraitUse.mk n none := by
  have plain : ∀ c ∈ keyword.toList ++ [' '], c ∉ [',', ';', '{'] := by
    intro c inside
    rcases List.mem_append.1 inside with letter | blank
    · exact (keyword_plain same letter).2
    · rw [List.mem_singleton.1 blank]
      decide
  have first : Text.trim (.ofList (keyword.toList ++ [' '] ++ name.toList)) =
      keyword ++ " " ++ name := by
    obtain ⟨letter, letters, spelled, begins⟩ := exists_keyword_cons same
    obtain ⟨front, last, written, ends⟩ := (named name (by simp)).exists_last
    have bounded : keyword.toList ++ [' '] ++ name.toList =
        letter :: (letters ++ [' '] ++ front) ++ [last] := by
      simp [spelled, written]
    rw [Text.trim, String.toList_ofList, bounded, Text.trimChars_of_ends begins ends, ← bounded]
    apply String.toList_injective
    simp
  rw [traitUses_of_toList plain named, first]
  · rw [trim_useClause same, strip?_useClause same other, Option.getD_none, toList_useClause]
  · rw [first]
    intro empty
    have chars := congrArg String.toList empty
    rw [String.toList_append, String.toList_append, List.append_assoc] at chars
    have blank : " ".toList = [' '] := by decide
    rw [blank] at chars
    simp at chars

end

/-- The keyword as it is printed is cut off, and the names are read. -/
theorem traitUses_of_use {name : String} {names : List String}
    (named : ∀ n ∈ name :: names, IsTraitName n) :
    traitUses (useClause "use" (name :: names)) =
      (name :: names).map fun n => TraitUse.mk n none := by
  have first : Text.trim (.ofList ([' '] ++ name.toList)) = name := (named name (by simp)).trim_blank
  have stripped : Text.strip? "use" (useClause "use" (name :: names)) =
      some (.ofList (listChars [' '] (name :: names) ++ [';'])) := by
    rw [Text.strip?_eq_some_iff]
    apply String.toList_injective
    rw [toList_useClause, String.toList_append, String.toList_ofList, listChars, listChars]
    simp
  have plain : ∀ c ∈ [' '], c ∉ [',', ';', '{'] := by simp
  rw [traitUses_of_toList plain named, first]
  · rw [trim_useClause (by decide), stripped, Option.getD_some, String.toList_ofList]
  · rw [first]
    exact (named name (by simp)).1

/-- **The names of a clause are read exactly when its keyword is spelled as it is
printed.** -/
theorem traitUses_eq_iff {keyword : String} (same : Text.sameIgnoringCase keyword "use" = true)
    {names : List String} (nonempty : names ≠ []) (named : ∀ n ∈ names, IsTraitName n) :
    traitUses (useClause keyword names) = names.map (fun n => TraitUse.mk n none) ↔
      keyword = "use" := by
  cases names with
  | nil => exact absurd rfl nonempty
  | cons name names =>
      constructor
      · intro read
        refine Decidable.byContradiction fun other => ?_
        rw [traitUses_of_other same named other] at read
        have first : keyword ++ " " ++ name = name :=
          congrArg TraitUse.name (List.cons.inj read).1
        have length : (keyword ++ " " ++ name).toList.length = name.toList.length :=
          congrArg (fun text : String => text.toList.length) first
        rw [String.toList_append, String.toList_append, List.length_append,
          List.length_append] at length
        have blank : " ".toList.length = 1 := by decide
        omega
      · rintro rfl
        exact traitUses_of_use named

end Declaration

/-! ## Fixed points -/

namespace Printer

/-- The text in which a source text is printed after it was read. -/
def reprint? (printer : Printer) (text : String) : Option String :=
  (SourceUnit.parse text).toOption.map printer.print

/-- The printed text is read, and printed as it is. -/
def FixedPoint (printer : Printer) (text : String) : Prop :=
  ∀ printed, printer.reprint? text = some printed → printer.reprint? printed = some printed

namespace Example

/-- A file with one trait use, the keyword of which begins with a capital letter. -/
def capitalUse : String := "<?php class A\x7bUse B;\x7d"

/-- The keyword is printed as a part of the name, and the grammar refuses two words where a name
stands. -/
theorem not_fixedPoint_capital :
    reprint? {} capitalUse = some "<?php\n\nclass A\n\x7b\n    use Use B;\n\x7d\n" ∧
      ¬ FixedPoint {} capitalUse := by
  have printed : reprint? {} capitalUse =
      some "<?php\n\nclass A\n\x7b\n    use Use B;\n\x7d\n" := by decide +kernel
  have refused : reprint? {} "<?php\n\nclass A\n\x7b\n    use Use B;\n\x7d\n" = none := by
    decide +kernel
  refine ⟨printed, fun fixed => ?_⟩
  have again := fixed _ printed
  rw [refused] at again
  cases again

end Example

end Printer

end Emend

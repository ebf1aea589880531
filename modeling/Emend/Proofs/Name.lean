import Emend.Name
import Emend.Proofs.Text

/-!
# Well-formed names

A name is well formed when each of its segments holds something and no blank.
Such a name is its own stored form, and it falls into well-formed parts at every
separator (`wellFormed_append_iff`), so taking it apart and joining it again
gives it back (`join_parent_short`).

Names that differ by case alone have parts that differ by case alone: each
operation on names commutes with `Text.lower`.
-/

set_option autoImplicit false

namespace Emend.Name

def segments (name : String) : List String := Text.split separator name

/-- Every segment holds something and no blank. -/
def WellFormed (name : String) : Prop :=
  ∀ segment ∈ segments name, segment ≠ "" ∧ ∀ c ∈ segment.toList, Text.isBlank c = false

instance (name : String) : Decidable (WellFormed name) :=
  decidable_of_iff
    (((segments name).all fun segment =>
      !segment.isEmpty && segment.toList.all fun c => !Text.isBlank c) = true)
    (by simp [WellFormed])

theorem singleton_separator : String.singleton separator = "\\" := rfl

theorem toList_separator : "\\".toList = [separator] := rfl

/-! ## Segments -/

theorem segments_of_not_mem {name : String} (single : separator ∉ name.toList) :
    segments name = [name] := by
  simp [segments, Text.split, Text.splitChars_of_not_mem single]

theorem segments_append (a b : String) : segments (a ++ "\\" ++ b) = segments a ++ segments b := by
  simp [segments, Text.split, toList_separator, Text.splitChars_append]

theorem wellFormed_append_iff {a b : String} :
    WellFormed (a ++ "\\" ++ b) ↔ WellFormed a ∧ WellFormed b := by
  simp only [WellFormed, segments_append, List.mem_append]
  constructor
  · exact fun wf => ⟨fun s m => wf s (Or.inl m), fun s m => wf s (Or.inr m)⟩
  · rintro ⟨left, right⟩ s (m | m)
    · exact left s m
    · exact right s m

namespace WellFormed

variable {name : String}

theorem ne_empty (wf : WellFormed name) : name ≠ "" := by
  rintro rfl
  exact (wf "" (by decide)).1 rfl

theorem no_blank (wf : WellFormed name) : ∀ c ∈ name.toList, Text.isBlank c = false := by
  intro c member
  by_cases h : c = separator
  · subst h
    decide
  · obtain ⟨piece, found, holds⟩ := Text.exists_mem_splitChars member h
    refine (wf (.ofList piece) ?_).2 c (by simpa using holds)
    exact List.mem_map_of_mem found

theorem trim_eq (wf : WellFormed name) : Text.trim name = name := Text.trim_of_forall wf.no_blank

/-- A well-formed name does not begin with a separator. -/
theorem strip?_eq_none (wf : WellFormed name) : Text.strip? "\\" name = none := by
  cases h : Text.strip? "\\" name with
  | none => rfl
  | some rest =>
      have e : name = "" ++ "\\" ++ rest := by
        rw [Text.strip?_eq_some_iff.1 h]
        rfl
      rw [e, wellFormed_append_iff] at wf
      exact absurd rfl wf.1.ne_empty

theorem normalize_eq (wf : WellFormed name) : normalize name = name := by
  simp [normalize, wf.trim_eq, wf.strip?_eq_none]

end WellFormed

/-! ## Parts -/

theorem short_eq (name : String) :
    short name =
      ((Text.cutLast? separator (normalize name)).map Prod.snd).getD (normalize name) := by
  delta short
  generalize normalize name = stored
  dsimp only
  generalize Text.cutLast? separator stored = cut
  cases cut <;> rfl

theorem parent_eq (name : String) :
    parent name = ((Text.cutLast? separator (normalize name)).map Prod.fst).getD "" := by
  delta parent
  generalize Text.cutLast? separator (normalize name) = cut
  cases cut <;> rfl

/-- What the last cut of a well-formed name gives: one segment, alone or below a
well-formed name. -/
theorem WellFormed.parts {name : String} (wf : WellFormed name) :
    separator ∉ (short name).toList ∧ short name ∈ segments name ∧
      (parent name = "" ∧ short name = name ∨
        WellFormed (parent name) ∧ WellFormed (short name) ∧
          name = parent name ++ "\\" ++ short name) := by
  cases h : Text.cutLast? separator name with
  | none =>
      have single := Text.cutLast?_eq_none_iff.1 h
      have whole : short name = name := by simp [short_eq, wf.normalize_eq, h]
      have top : parent name = "" := by simp [parent_eq, wf.normalize_eq, h]
      refine ⟨by rwa [whole], ?_, Or.inl ⟨top, whole⟩⟩
      rw [segments_of_not_mem single, whole]
      exact List.mem_singleton_self _
  | some cut =>
      obtain ⟨outer, last⟩ := cut
      obtain ⟨e, single⟩ := Text.cutLast?_eq_some_iff.1 h
      have below : short name = last := by simp [short_eq, wf.normalize_eq, h]
      have above : parent name = outer := by simp [parent_eq, wf.normalize_eq, h]
      rw [singleton_separator] at e
      have split := wf
      rw [e, wellFormed_append_iff] at split
      rw [below, above]
      refine ⟨single, ?_, Or.inr ⟨split.1, split.2, e⟩⟩
      rw [e, segments_append, segments_of_not_mem single]
      exact List.mem_append_right _ (List.mem_singleton_self _)

theorem WellFormed.short {name : String} (wf : WellFormed name) : WellFormed (short name) := by
  rcases wf.parts.2.2 with ⟨-, whole⟩ | ⟨-, below, -⟩
  · rwa [whole]
  · exact below

theorem join_of_wellFormed {outer inner : String} (outerWf : WellFormed outer)
    (innerWf : WellFormed inner) : join outer inner = outer ++ "\\" ++ inner := by
  simp [join, outerWf.normalize_eq, innerWf.normalize_eq, outerWf.ne_empty]

theorem join_empty {inner : String} (wf : WellFormed inner) : join "" inner = inner := by
  have e : normalize "" = "" := by decide
  simp [join, wf.normalize_eq, e]

theorem join_parent_short {name : String} (wf : WellFormed name) :
    join (parent name) (short name) = name := by
  rcases wf.parts.2.2 with ⟨top, whole⟩ | ⟨above, below, e⟩
  · rw [top, whole, join_empty wf]
  · rw [join_of_wellFormed above below, ← e]

/-- The form in which names are stored: no blanks around the name or its last
segment, and no separator before it. -/
structure Settled (name : String) : Prop where
  normalize_eq : normalize name = name
  trim_short : Text.trim (short name) = short name

theorem WellFormed.settled {name : String} (wf : WellFormed name) : Settled name :=
  ⟨wf.normalize_eq, wf.short.trim_eq⟩

instance (name : String) : Decidable (Settled name) :=
  decidable_of_iff (normalize name = name ∧ Text.trim (short name) = short name)
    ⟨fun ⟨a, b⟩ => ⟨a, b⟩, fun ⟨a, b⟩ => ⟨a, b⟩⟩

/-! ## Case -/

theorem toLower_eq_separator_iff (c : Char) : c.toLower = separator ↔ c = separator :=
  Text.toLower_eq_iff (by decide)

theorem lower_separator : Text.lower "\\" = "\\" := by decide

theorem lower_normalize (name : String) :
    Text.lower (normalize name) = normalize (Text.lower name) := by
  have fixed : ∀ d ∈ "\\".toList, ∀ c : Char, c.toLower = d ↔ c = d := by
    rw [toList_separator]
    intro d m c
    rw [List.mem_singleton.1 m, toLower_eq_separator_iff]
  simp only [normalize, ← Text.lower_trim, Text.strip?, Text.toList_lower,
    Text.stripPrefix?_map_toLower fixed]
  cases Text.stripPrefix? "\\".toList (Text.trim name).toList with
  | none => rfl
  | some rest => simp [Text.lower]

theorem cutLast?_lower (name : String) :
    Text.cutLast? separator (Text.lower name) =
      (Text.cutLast? separator name).map fun (a, b) => (Text.lower a, Text.lower b) := by
  simp only [Text.cutLast?, Text.toList_lower, Text.splitLast?_map_toLower toLower_eq_separator_iff,
    Option.map_map]
  congr 1
  funext cut
  simp [Text.lower]

theorem lower_short (name : String) : Text.lower (short name) = short (Text.lower name) := by
  simp only [short_eq, ← lower_normalize, cutLast?_lower]
  generalize normalize name = stored
  cases Text.cutLast? separator stored with
  | none => simp only [Option.map_none, Option.getD_none]
  | some cut => simp only [Option.map_some, Option.getD_some]

theorem lower_parent (name : String) : Text.lower (parent name) = parent (Text.lower name) := by
  simp only [parent_eq, ← lower_normalize, cutLast?_lower]
  generalize normalize name = stored
  cases Text.cutLast? separator stored with
  | none => rfl
  | some cut => simp only [Option.map_some, Option.getD_some]

theorem isEmpty_lower (s : String) : (Text.lower s).isEmpty = s.isEmpty := by
  rw [Bool.eq_iff_iff, String.isEmpty_iff, String.isEmpty_iff, ← String.toList_eq_nil_iff,
    ← String.toList_eq_nil_iff, Text.toList_lower, List.map_eq_nil_iff]

theorem lower_join (outer inner : String) :
    Text.lower (join outer inner) = join (Text.lower outer) (Text.lower inner) := by
  simp only [join, ← lower_normalize, isEmpty_lower]
  split
  · rfl
  · simp only [Text.lower_append, lower_separator]

/-- Whether a name is a type keyword does not depend on its case. -/
theorem isBuiltinType_congr {a b : String} (same : Text.lower a = Text.lower b) :
    isBuiltinType a = isBuiltinType b := by
  simp only [isBuiltinType, Text.sameIgnoringCase, Text.lower_trim, same]

/-- A name of several segments is no type keyword. -/
theorem isBuiltinType_of_separator {name : String} (wf : WellFormed name)
    (several : separator ∈ name.toList) : isBuiltinType name = false := by
  rw [isBuiltinType, List.any_eq_false, wf.trim_eq]
  intro builtin listed same
  have plain : ∀ b ∈ builtinTypes, separator ∉ (Text.lower b).toList := by decide
  rw [Text.sameIgnoringCase_iff] at same
  refine plain builtin listed ?_
  rw [same, Text.toList_lower, List.mem_map]
  exact ⟨separator, several, (toLower_eq_separator_iff separator).2 rfl⟩

end Emend.Name

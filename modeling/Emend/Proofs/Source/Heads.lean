import Emend.Proofs.Source.Clauses
import Emend.Proofs.Source.Header
import Emend.Proofs.Source.Reading

/-!
# Reading type headers, elements and directives

The name of a type is the word after its keyword, the name of an element is what stands before the
first equals sign, and a return type is what stands behind a colon. If nothing but blanks stands
between these parts, each of them is found.
-/

set_option autoImplicit false

namespace Emend.Declaration

open Text (Blank Inked isBlank trimChars)

/-! ## Type headers -/

/-- The clauses of a header change neither the kind nor the name. -/
theorem headerClauses_keeps {clause : Option Clause} {decl read : TypeDecl} {words : List String}
    (done : headerClauses clause decl words = some read) :
    read.kind = decl.kind ∧ read.name = decl.name := by
  induction words generalizing clause decl with
  | nil =>
      cases done
      exact ⟨rfl, rfl⟩
  | cons word words ih =>
      rw [headerClauses.eq_def] at done
      dsimp only at done
      split at done
      · exact ih done
      · split at done
        · exact ih done
        · split at done
          · exact ih done
          · cases clause with
            | none => cases done
            | some clause =>
                cases clause with
                | extends_ | implements_ =>
                    have kept := ih done
                    exact kept

/-- The name of a type is the word after its keyword. -/
theorem header?_keeps {kind : TypeKind} {header keyword name : String}
    {modifiers rest : List String}
    (words : headerWords header = modifiers ++ keyword :: name :: rest)
    (modified : ∀ m ∈ modifiers, Text.sameIgnoringCase m kind.keyword = false)
    (key : Text.sameIgnoringCase keyword kind.keyword = true) {read : TypeDecl}
    (done : header? kind header = some read) : read.kind = kind ∧ read.name = name := by
  have others : ∀ m ∈ modifiers, (!Text.sameIgnoringCase m kind.keyword) = true :=
    fun m inside => by rw [modified m inside, Bool.not_false]
  have behind : (headerWords header).dropWhile (!Text.sameIgnoringCase · kind.keyword) =
      keyword :: name :: rest := by
    rw [words, List.dropWhile_append_of_pos others, List.dropWhile_cons_of_neg (by simp [key])]
  rw [headerWords] at behind
  simp only [header?, behind] at done
  exact headerClauses_keeps done

/-- What the commas of a header are replaced by begins with a blank. -/
theorem head?_flatMap_comma {cs : List Char} (ends : ∀ c ∈ cs.head?, isBlank c = true) :
    ∀ c ∈ (cs.flatMap fun d => if d = ',' then " , ".toList else [d]).head?, isBlank c = true := by
  cases cs with
  | nil => exact fun _ listed => absurd listed nofun
  | cons d cs =>
      have space := ends d rfl
      have other : d ≠ ',' := by
        rintro rfl
        exact absurd space (by decide)
      intro c first
      rw [List.flatMap_cons, if_neg other, List.singleton_append] at first
      cases first
      exact space

theorem headerWords_blank {blank : List Char} (all : Blank blank) (cs : List Char) :
    headerWords (.ofList (blank ++ cs)) = headerWords (.ofList cs) := by
  have same : (blank.flatMap fun d => if d = ',' then " , ".toList else [d]) = blank := by
    rw [List.flatMap_congr (g := fun d => [d]) fun d inside => ?_, List.flatMap_singleton']
    refine if_neg ?_
    rintro rfl
    exact absurd (all _ inside) (by decide)
  simp only [headerWords, Text.replaceChar, Text.words, String.toList_ofList, List.flatMap_append,
    same, Text.wordsFrom_blank all]

/-- A word of a header ends where a blank does, or the header. -/
theorem headerWords_word {word rest : List Char}
    (plain : ∀ c ∈ word, isBlank c = false ∧ c ≠ ',') (nonempty : word ≠ [])
    (ends : ∀ c ∈ rest.head?, isBlank c = true) :
    headerWords (.ofList (word ++ rest)) = .ofList word :: headerWords (.ofList rest) := by
  have same : (word.flatMap fun d => if d = ',' then " , ".toList else [d]) = word := by
    rw [List.flatMap_congr (g := fun d => [d]) fun d inside => if_neg (plain d inside).2,
      List.flatMap_singleton']
  simp only [headerWords, Text.replaceChar, Text.words, String.toList_ofList, List.flatMap_append,
    same]
  rw [Text.wordsFrom_word (fun c inside => (plain c inside).1) nonempty (head?_flatMap_comma ends),
    List.map_cons]

/-! ## Elements -/

namespace File

variable {file : File}

/-- Blanks before a value do not matter. -/
theorem value_blank {blank : List Char} (all : Blank blank) (cs : List Char) (offset : Nat) :
    file.value (.ofList (blank ++ cs)) offset = file.value (.ofList cs) (offset + blank.length) := by
  have leading : (blank ++ cs).takeWhile isBlank = blank ++ cs.takeWhile isBlank :=
    List.takeWhile_append_of_pos all
  have trimmed : trimChars (blank ++ cs) = trimChars cs := by
    rw [trimChars, Text.dropWhile_blank all, ← trimChars]
  simp only [File.value, String.toList_ofList, leading, Text.trim_ofList, trimmed,
    List.length_append, Nat.add_assoc]

/-- **An element** is cut at its first equals sign. -/
theorem element?_eq {span : Span} {name gap gap' value : List Char}
    (slice : file.slice span = .ofList (name ++ gap ++ '=' :: (gap' ++ value)))
    (free : '=' ∉ name) (first : Blank gap) (last : Blank gap') :
    file.element? span = some (.ofList (name ++ gap),
      file.value (.ofList value) (span.start + (name ++ gap ++ '=' :: gap').length)) := by
  have absent : '=' ∉ name ++ gap := by
    rw [List.mem_append, not_or]
    exact ⟨free, first.not_mem (by decide)⟩
  have cut : Text.cut? '=' (.ofList (name ++ gap ++ '=' :: (gap' ++ value))) =
      some (.ofList (name ++ gap), .ofList (gap' ++ value)) := by
    rw [Text.cut?, String.toList_ofList, Text.splitFirst?_eq_some_iff.2 ⟨rfl, absent⟩,
      Option.map_some]
  have place : span.start + (name ++ gap).length + 1 + gap'.length =
      span.start + (name ++ gap ++ '=' :: gap').length := by
    simp only [List.length_append, List.length_cons]
    omega
  rw [element?, slice, cut, Option.map_some]
  simp only [String.length_ofList, value_blank last, place]

theorem element?_eq_none {span : Span} {name : List Char} (slice : file.slice span = .ofList name)
    (free : '=' ∉ name) : file.element? span = none := by
  have uncut : Text.cut? '=' (.ofList name) = none := by
    rwa [Text.cut?_eq_none_iff, String.toList_ofList]
  rw [element?, slice, uncut, Option.map_none]

/-! ## Return types -/

theorem returnType?_of_ending {tail : List Char} (ends : Ending tail) :
    returnType? (.ofList tail) = none := by
  have empty : tailChars tail = [] := by
    cases ends with
    | @semicolon blank all =>
        have trimmed : trimChars (blank ++ [';']) = [';'] := by
          simpa using (Inked.singleton (c := ';') (by decide)).trimChars all Blank.nil
        rw [tailChars, trimmed]
        decide
    | implied all =>
        have trimmed : trimChars tail = [] := by
          have blank : (tail ++ []).dropWhile isBlank = [] := Text.dropWhile_blank all
          rw [List.append_nil] at blank
          rw [trimChars, blank]
          rfl
        rw [tailChars, trimmed]
        decide
  rw [returnType?_eq, String.toList_ofList, empty]
  rfl

/-- **A return type** stands behind a colon. -/
theorem returnType?_written {blank gap type tail : List Char} (first : Blank blank)
    (second : Blank gap) (inked : Inked type) (plain : ';' ∉ type) (ends : Ending tail) :
    returnType? (.ofList (blank ++ (':' :: (gap ++ type)) ++ tail)) = some (.ofList type) := by
  have colon : isBlank ':' = false := by decide
  have core : Inked (':' :: (gap ++ type)) := by
    simpa using (Inked.singleton colon).append inked gap
  have unended : ';' ∉ [] ++ ':' :: (gap ++ type) := by
    simp only [List.nil_append, List.mem_cons, List.mem_append, not_or]
    exact ⟨by decide, second.not_mem (by decide), plain⟩
  obtain ⟨blank', all, cut⟩ := ends.cut [] core unended
  have begins : trimChars (blank ++ (':' :: (gap ++ type)) ++ tail) =
      Text.dropEndWhile isBlank ([] ++ (':' :: (gap ++ type)) ++ tail) := by
    rw [trimChars, List.append_assoc, Text.dropWhile_blank first, core.dropWhile_append,
      List.nil_append]
  have chars : tailChars (blank ++ (':' :: (gap ++ type)) ++ tail) = ':' :: (gap ++ type) := by
    rw [tailChars, begins, cut]
    exact core.trimChars Blank.nil all
  have trimmed : trimChars (gap ++ type) = type := by
    simpa using inked.trimChars second Blank.nil
  have nonempty : String.ofList type ≠ "" := by simpa using inked.ne_nil
  rw [returnType?_eq, String.toList_ofList, chars]
  simp [Text.stripPrefix?, trimmed, Option.filter, nonempty]

end File

end Emend.Declaration

import Emend.Proofs.Text

/-!
# Words and the ends of a text

A word is a text without blanks that is not empty. A space parts the words before it from those
behind it (`words_space`); a word with a space behind it is the first word of a text
(`words_append`), and a text that consists of one is its own list of words (`words_of_word`).
Trimming looks at the two ends of a text only: one that begins and ends without a blank is left as
it is (`Enclosed.trim_eq`), and what stands between does not matter (`Enclosed.append`).
-/

set_option autoImplicit false

namespace Emend.Text

structure IsWord (s : String) : Prop where
  ne_empty : s ≠ ""
  no_blank : ∀ c ∈ s.toList, isBlank c = false

instance (s : String) : Decidable (IsWord s) :=
  decidable_of_iff (s ≠ "" ∧ (s.toList.all fun c => !isBlank c) = true)
    ⟨fun ⟨nonempty, plain⟩ => ⟨nonempty, by simpa using plain⟩,
      fun word => ⟨word.ne_empty, by simpa using word.no_blank⟩⟩

theorem IsWord.not_isBlank {s : String} (word : IsWord s) :
    ∀ c ∈ s.toList, (!isBlank c) = true := by
  intro c inside
  simp [word.no_blank c inside]

/-! ## Words -/

theorem wordsFrom_append {isSep : Char → Bool} {word : List Char}
    (plain : ∀ c ∈ word, isSep c = false) (read rest : List Char) :
    wordsFrom isSep read (word ++ rest) = wordsFrom isSep (read ++ word) rest := by
  induction word generalizing read with
  | nil => rw [List.append_nil, List.nil_append]
  | cons c word ih =>
      obtain ⟨here, later⟩ := List.forall_mem_cons.1 plain
      rw [List.cons_append, wordsFrom, if_neg (by simp [here]), ih later, List.append_assoc,
        List.singleton_append]

theorem words_of_word {s : String} (word : IsWord s) : words s = [s] := by
  have nonempty : s.toList ≠ [] := by simpa using word.ne_empty
  have read := wordsFrom_append word.no_blank [] []
  rw [List.append_nil, List.nil_append, wordsFrom, if_neg (by simpa using nonempty)] at read
  rw [words, read, List.map_singleton, String.ofList_toList]

theorem words_append {s : String} (word : IsWord s) (rest : String) :
    words (s ++ " " ++ rest) = s :: words rest := by
  have nonempty : s.toList ≠ [] := by simpa using word.ne_empty
  have text : (s ++ " " ++ rest).toList = s.toList ++ ' ' :: rest.toList := by simp
  have space : isBlank ' ' = true := by decide
  rw [words, text, wordsFrom_append word.no_blank, List.nil_append, wordsFrom, if_pos space,
    if_neg (by simpa using nonempty), List.map_cons, String.ofList_toList, ← words]

theorem wordsFrom_append_cons {isSep : Char → Bool} {c : Char} (sep : isSep c = true)
    (read a b : List Char) :
    wordsFrom isSep read (a ++ c :: b) = wordsFrom isSep read a ++ wordsFrom isSep [] b := by
  induction a generalizing read with
  | nil =>
      simp only [List.nil_append, wordsFrom, sep, if_true]
      split <;> rfl
  | cons d a ih =>
      simp only [List.cons_append, wordsFrom]
      split
      · split
        · exact ih []
        · rw [ih [], List.cons_append]
      · exact ih (read ++ [d])

/-- **A space** parts the words before it from those behind it. -/
theorem words_space (a b : String) : words (a ++ " " ++ b) = words a ++ words b := by
  have text : (a ++ " " ++ b).toList = a.toList ++ ' ' :: b.toList := by simp
  rw [words, text, wordsFrom_append_cons (by decide), List.map_append, ← words, ← words]

/-! ## The ends of a text -/

/-- The text begins and ends with characters of which `p` holds. -/
structure Enclosed (p : Char → Prop) (s : String) : Prop where
  begins : ∃ c, s.toList.head? = some c ∧ p c
  ends : ∃ c, s.toList.getLast? = some c ∧ p c

instance (p : Char → Prop) [DecidablePred p] (s : String) : Decidable (Enclosed p s) :=
  decidable_of_iff
    ((s.toList.head?.any fun c => decide (p c)) = true ∧
      (s.toList.getLast?.any fun c => decide (p c)) = true)
    ⟨fun ⟨begins, ends⟩ => ⟨by simpa [Option.any_eq_true] using begins,
        by simpa [Option.any_eq_true] using ends⟩,
      fun ⟨begins, ends⟩ => ⟨by simpa [Option.any_eq_true] using begins,
        by simpa [Option.any_eq_true] using ends⟩⟩

theorem enclosed_of_forall {p : Char → Prop} {s : String} (nonempty : s ≠ "")
    (all : ∀ c ∈ s.toList, p c) : Enclosed p s := by
  have present : s.toList ≠ [] := by simpa using nonempty
  refine ⟨⟨s.toList.head present, List.head?_eq_some_head present, all _ (List.head_mem present)⟩, ?_⟩
  exact ⟨s.toList.getLast present, List.getLast?_eq_some_getLast present,
    all _ (List.getLast_mem present)⟩

namespace Enclosed

variable {p : Char → Prop} {a b s : String}

/-- What stands between the ends does not matter. -/
theorem append (first : Enclosed p a) (last : Enclosed p b) (middle : String) :
    Enclosed p (a ++ middle ++ b) := by
  obtain ⟨c, begins, holds⟩ := first.begins
  obtain ⟨d, ends, holds'⟩ := last.ends
  refine ⟨⟨c, ?_, holds⟩, d, ?_, holds'⟩
  · rw [String.append_assoc, String.toList_append, List.head?_append, begins, Option.some_or]
  · rw [String.toList_append, List.getLast?_append, ends, Option.some_or]

theorem imp {q : Char → Prop} (weaker : ∀ c, p c → q c) (enclosed : Enclosed p s) :
    Enclosed q s := by
  obtain ⟨⟨first, begins, holds⟩, last, ends, holds'⟩ := enclosed
  exact ⟨⟨first, begins, weaker first holds⟩, last, ends, weaker last holds'⟩

theorem dropEndWhile_eq {drop : Char → Bool} (enclosed : Enclosed (drop · = false) s) :
    dropEndWhile drop s.toList = s.toList := by
  obtain ⟨last, ends, kept⟩ := enclosed.ends
  obtain ⟨front, whole⟩ := List.getLast?_eq_some_iff.1 ends
  rw [whole]
  exact dropEndWhile_append_cons kept front []

theorem trim_eq (enclosed : Enclosed (isBlank · = false) s) : trim s = s := by
  obtain ⟨first, begins, kept⟩ := enclosed.begins
  obtain ⟨rest, whole⟩ := List.head?_eq_some_iff.1 begins
  have front : s.toList.dropWhile isBlank = s.toList := by
    rw [whole, List.dropWhile_cons_of_neg (by simp [kept])]
  rw [trim, trimChars, front, enclosed.dropEndWhile_eq, String.ofList_toList]

/-- A blank before the text is trimmed away. -/
theorem trim_space (enclosed : Enclosed (isBlank · = false) s) : trim (" " ++ s) = s := by
  have space : isBlank ' ' = true := by decide
  have text : (" " ++ s).toList = ' ' :: s.toList := by simp
  rw [trim, trimChars, text, List.dropWhile_cons_of_pos space, ← trimChars, ← trim,
    enclosed.trim_eq]

theorem dropEnd_eq {c : Char} (enclosed : Enclosed (· ≠ c) s) :
    dropEnd c (s ++ String.singleton c) = s := by
  have other : Enclosed (fun d => (d == c) = false) s := enclosed.imp fun d => by simp
  have text : (s ++ String.singleton c).toList = s.toList ++ [c] := by simp
  have drops : dropEndWhile (· == c) (s.toList ++ [c]) = dropEndWhile (· == c) s.toList := by
    simp [dropEndWhile]
  rw [dropEnd, text, drops, other.dropEndWhile_eq, String.ofList_toList]

end Enclosed

end Emend.Text

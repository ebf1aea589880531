import Emend.Proofs.Text.Words
import Mathlib.Data.List.DropRight

/-!
# Parts of a text

Words are spaced in a text if there are blanks between them, and they are its words then
(`Spaced.words`). Parts are listed in a text if there are commas between them, and blanks around
them at most. Such a text is cut at its commas, and the pieces are trimmed, to get the parts back
(`Listed.split`); blanks at its ends do not matter (`Listed.exists_core`), and of its first part a
beginning may be taken off (`Listed.uncons`).
-/

set_option autoImplicit false

namespace Emend.Text

/-- All characters are blank. -/
def Blank (cs : List Char) : Prop := ∀ c ∈ cs, isBlank c = true

theorem Blank.append {a b : List Char} (first : Blank a) (second : Blank b) : Blank (a ++ b) :=
  fun c inside => (List.mem_append.1 inside).elim (first c) (second c)

theorem Blank.nil : Blank [] := fun _ inside => absurd inside List.not_mem_nil

theorem Blank.not_mem {cs : List Char} (blank : Blank cs) {c : Char} (ink : isBlank c = false) :
    c ∉ cs := fun inside => by simp [blank c inside] at ink

/-- The text has no blanks at its ends, and there is something in it. -/
def Inked (cs : List Char) : Prop := Enclosed (isBlank · = false) (.ofList cs)

theorem Inked.ne_nil {cs : List Char} (inked : Inked cs) : cs ≠ [] := by
  rintro rfl
  obtain ⟨c, begins, -⟩ := inked.begins
  simp at begins

theorem Inked.singleton {c : Char} (ink : isBlank c = false) : Inked [c] :=
  ⟨⟨c, by simp, ink⟩, c, by simp, ink⟩

/-- A word has no blanks at its ends. -/
theorem Inked.of_forall {cs : List Char} (plain : ∀ c ∈ cs, isBlank c = false)
    (nonempty : cs ≠ []) : Inked cs :=
  enclosed_of_forall (by simpa using nonempty) (by simpa using plain)

theorem mem_of_mem_dropEndWhile {α : Type} {p : α → Bool} {x : α} {xs : List α}
    (inside : x ∈ dropEndWhile p xs) : x ∈ xs :=
  List.mem_reverse.1 ((List.dropWhile_sublist p).subset (List.mem_reverse.1 inside))

theorem dropEndWhile_dropEndWhile {α : Type} (p : α → Bool) (xs : List α) :
    dropEndWhile p (dropEndWhile p xs) = dropEndWhile p xs := by
  rw [dropEndWhile, dropEndWhile, List.reverse_reverse, List.dropWhile_idempotent]

theorem dropWhile_blank {blank cs : List Char} (all : Blank blank) :
    (blank ++ cs).dropWhile isBlank = cs.dropWhile isBlank := by
  induction blank with
  | nil => rfl
  | cons c blank ih =>
      obtain ⟨here, later⟩ := List.forall_mem_cons.1 all
      rw [List.cons_append, List.dropWhile_cons_of_pos here, ih later]

theorem dropEndWhile_blank {cs blank : List Char} (all : Blank blank) :
    dropEndWhile isBlank (cs ++ blank) = dropEndWhile isBlank cs := by
  have reversed : Blank blank.reverse := fun c inside => all c (List.mem_reverse.1 inside)
  rw [dropEndWhile, List.reverse_append, dropWhile_blank reversed, dropEndWhile]

theorem Inked.dropWhile_append {cs : List Char} (inked : Inked cs) (rest : List Char) :
    (cs ++ rest).dropWhile isBlank = cs ++ rest := by
  obtain ⟨c, first, ink⟩ := inked.begins
  rw [String.toList_ofList] at first
  obtain ⟨cs', rfl⟩ := List.head?_eq_some_iff.1 first
  rw [List.cons_append, List.dropWhile_cons_of_neg (by simp [ink])]

theorem Inked.dropEndWhile_append {cs : List Char} (inked : Inked cs) (front : List Char) :
    dropEndWhile isBlank (front ++ cs) = front ++ cs := by
  obtain ⟨c, last, ink⟩ := inked.ends
  rw [String.toList_ofList] at last
  obtain ⟨cs', rfl⟩ := List.getLast?_eq_some_iff.1 last
  rw [← List.append_assoc]
  exact dropEndWhile_append_cons ink _ []

theorem Inked.exists_dropEndWhile {cs : List Char} (inked : Inked cs) (rest : List Char) :
    ∃ more, dropEndWhile isBlank (cs ++ rest) = cs ++ more := by
  obtain ⟨c, last, ink⟩ := inked.ends
  rw [String.toList_ofList] at last
  obtain ⟨cs', rfl⟩ := List.getLast?_eq_some_iff.1 last
  refine ⟨dropEndWhile isBlank rest, ?_⟩
  have kept := dropEndWhile_append_cons ink cs' rest
  simpa using kept

/-- Trimming the end does not go back over ink. -/
theorem Inked.dropEndWhile_prepend {cs : List Char} (inked : Inked cs) (front rest : List Char) :
    dropEndWhile isBlank (front ++ (cs ++ rest)) =
      front ++ dropEndWhile isBlank (cs ++ rest) := by
  obtain ⟨c, last, ink⟩ := inked.ends
  rw [String.toList_ofList] at last
  obtain ⟨cs', rfl⟩ := List.getLast?_eq_some_iff.1 last
  have ends (front : List Char) : dropEndWhile isBlank (front ++ (cs' ++ [c] ++ rest)) =
      front ++ (cs' ++ c :: dropEndWhile isBlank rest) := by
    have kept := dropEndWhile_append_cons ink (front ++ cs') rest
    simpa using kept
  rw [ends front]
  exact congrArg (front ++ ·) (ends []).symm

/-- Blanks around a text are trimmed away, and nothing else. -/
theorem Inked.trimChars {cs : List Char} (inked : Inked cs) {before after : List Char}
    (first : Blank before) (last : Blank after) : trimChars (before ++ cs ++ after) = cs := by
  rw [Text.trimChars, List.append_assoc, dropWhile_blank first, inked.dropWhile_append,
    dropEndWhile_blank last]
  exact inked.dropEndWhile_append []

theorem Inked.trimChars_self {cs : List Char} (inked : Inked cs) : Text.trimChars cs = cs := by
  simpa using inked.trimChars Blank.nil Blank.nil

/-- What stands between two such texts does not matter. -/
theorem Inked.append {a b : List Char} (first : Inked a) (last : Inked b) (middle : List Char) :
    Inked (a ++ middle ++ b) := by
  have joined := Enclosed.append first last (.ofList middle)
  rwa [← String.ofList_append, ← String.ofList_append] at joined

theorem Inked.eq_nil_of_blank {blank cs : List Char} (inked : Inked (blank ++ cs))
    (all : Blank blank) : blank = [] := by
  cases blank with
  | nil => rfl
  | cons c blank =>
      obtain ⟨d, first, ink⟩ := inked.begins
      rw [String.toList_ofList] at first
      cases first
      have space := all c List.mem_cons_self
      rw [space] at ink
      cases ink

/-- A text that goes on as one without blanks at its ends does, and begins as one. -/
theorem Inked.of_append {front cs rest : List Char} (inked : Inked (front ++ (cs ++ rest)))
    (begins : Inked cs) : Inked (cs ++ rest) := by
  have nonempty : cs ++ rest ≠ [] := fun empty => begins.ne_nil (List.append_eq_nil_iff.1 empty).1
  obtain ⟨c, first, ink⟩ := begins.begins
  obtain ⟨d, last, ink'⟩ := inked.ends
  rw [String.toList_ofList] at first last
  refine ⟨⟨c, ?_, ink⟩, d, ?_, ink'⟩
  · rw [String.toList_ofList, List.head?_append, first, Option.some_or]
  · rwa [String.toList_ofList, ← List.getLast?_append_of_ne_nil front nonempty]

/-! ## Words -/

theorem wordsFrom_blank {blank : List Char} (all : Blank blank) (cs : List Char) :
    wordsFrom isBlank [] (blank ++ cs) = wordsFrom isBlank [] cs := by
  induction blank with
  | nil => rfl
  | cons c blank ih =>
      obtain ⟨here, later⟩ := List.forall_mem_cons.1 all
      rw [List.cons_append, wordsFrom, if_pos here]
      exact ih later

/-- A word ends where a blank does, or the text. -/
theorem wordsFrom_word {word rest : List Char} (plain : ∀ c ∈ word, isBlank c = false)
    (nonempty : word ≠ []) (ends : ∀ c ∈ rest.head?, isBlank c = true) :
    wordsFrom isBlank [] (word ++ rest) = word :: wordsFrom isBlank [] rest := by
  rw [wordsFrom_append plain, List.nil_append]
  cases rest with
  | nil => simp [wordsFrom, nonempty]
  | cons c rest =>
      have space : isBlank c = true := ends c rfl
      simp [wordsFrom, space, nonempty]

/-- The words stand in the text with blanks between them. -/
inductive Spaced : List (List Char) → List Char → Prop
  | one {word : List Char} (plain : ∀ c ∈ word, isBlank c = false) (nonempty : word ≠ []) :
      Spaced [word] word
  | cons {word blank rest : List Char} {words : List (List Char)}
      (plain : ∀ c ∈ word, isBlank c = false) (nonempty : word ≠ []) (all : Blank blank)
      (apart : blank ≠ []) (others : Spaced words rest) :
      Spaced (word :: words) (word ++ blank ++ rest)

namespace Spaced

variable {words : List (List Char)} {text : List Char}

theorem inked (spaced : Spaced words text) : Inked text := by
  induction spaced with
  | one plain nonempty => exact .of_forall plain nonempty
  | cons plain nonempty _ _ _ ih => exact (Inked.of_forall plain nonempty).append ih _

/-- A character that is in no word and no blank is not in the text. -/
theorem not_mem (spaced : Spaced words text) {c : Char} (ink : isBlank c = false)
    (absent : ∀ word ∈ words, c ∉ word) : c ∉ text := by
  induction spaced with
  | one _ _ => exact absent _ List.mem_cons_self
  | cons _ _ all _ _ ih =>
      obtain ⟨here, later⟩ := List.forall_mem_cons.1 absent
      simp only [List.mem_append, not_or]
      exact ⟨⟨here, all.not_mem ink⟩, ih later⟩

/-- The first word stands at the beginning. -/
theorem exists_head {word : List Char} (spaced : Spaced (word :: words) text) :
    ∃ rest, text = word ++ rest ∧ (∀ c ∈ word, isBlank c = false) ∧
      ∀ c ∈ rest.head?, isBlank c = true := by
  cases spaced with
  | one plain _ => exact ⟨[], (List.append_nil _).symm, plain, fun _ listed => absurd listed nofun⟩
  | @cons _ blank rest _ plain _ all apart _ =>
      refine ⟨blank ++ rest, List.append_assoc .., plain, fun c first => ?_⟩
      obtain ⟨d, blank, rfl⟩ := List.exists_cons_of_ne_nil apart
      cases first
      exact all _ List.mem_cons_self

/-- The other words stand behind blanks. -/
theorem exists_tail {word next : List Char} (spaced : Spaced (word :: next :: words) text) :
    ∃ blank rest, text = word ++ blank ++ rest ∧ (∀ c ∈ word, isBlank c = false) ∧ Blank blank ∧
      blank ≠ [] ∧ Spaced (next :: words) rest := by
  cases spaced with
  | cons plain _ all apart others => exact ⟨_, _, rfl, plain, all, apart, others⟩

theorem wordsFrom_append (spaced : Spaced words text) {after : List Char} (last : Blank after) :
    wordsFrom isBlank [] (text ++ after) = words := by
  have wordless : wordsFrom isBlank [] after = [] := by
    have read := wordsFrom_blank last []
    rwa [List.append_nil] at read
  induction spaced with
  | one plain nonempty =>
      have ends : ∀ c ∈ after.head?, isBlank c = true :=
        fun c first => last c (List.mem_of_mem_head? first)
      rw [wordsFrom_word plain nonempty ends, wordless]
  | @cons word blanks rest words plain nonempty all apart _ ih =>
      have ends : ∀ c ∈ (blanks ++ (rest ++ after)).head?, isBlank c = true := by
        obtain ⟨c, cs, rfl⟩ := List.exists_cons_of_ne_nil apart
        intro d first
        cases first
        exact all _ List.mem_cons_self
      rw [List.append_assoc, List.append_assoc, wordsFrom_word plain nonempty ends,
        wordsFrom_blank all, ih]

/-- Blanks around the words do not matter. -/
theorem wordsFrom_of_trimChars {cs : List Char} (spaced : Spaced words (Text.trimChars cs)) :
    wordsFrom isBlank [] cs = words := by
  obtain ⟨after, cut, last⟩ := exists_eq_dropEndWhile_append isBlank (cs.dropWhile isBlank)
  have whole : cs = cs.takeWhile isBlank ++ (Text.trimChars cs ++ after) := by
    rw [Text.trimChars, ← cut, List.takeWhile_append_dropWhile]
  have first : Blank (cs.takeWhile isBlank) := fun c inside =>
    List.all_eq_true.1 List.all_takeWhile c inside
  rw [whole, wordsFrom_blank first, spaced.wordsFrom_append last]

end Spaced

/-! ## Lists -/

/-- The parts stand in the text, with commas between them and blanks around them. -/
inductive Listed : List Char → List (List Char) → Prop
  | last {before part after : List Char} (first : Blank before) (rest : Blank after) :
      Listed (before ++ part ++ after) [part]
  | cons {before part after rest : List Char} {parts : List (List Char)} (first : Blank before)
      (next : Blank after) (others : Listed rest parts) :
      Listed (before ++ part ++ after ++ ',' :: rest) (part :: parts)

namespace Listed

variable {text : List Char} {part : List Char} {parts : List (List Char)}

/-- A part that can be told from what stands around it. -/
structure Part (cs : List Char) : Prop where
  inked : Inked cs
  comma : ',' ∉ cs

theorem split (listed : Listed text parts) (good : ∀ part ∈ parts, Part part) :
    (splitChars ',' text).map Text.trimChars = parts := by
  have absent {before part after : List Char} (first : Blank before) (here : Part part)
      (next : Blank after) : ',' ∉ before ++ part ++ after := by
    have comma : isBlank ',' = false := by decide
    simp only [List.mem_append, not_or]
    exact ⟨⟨first.not_mem comma, here.comma⟩, next.not_mem comma⟩
  induction listed with
  | last first rest =>
      have here := good _ List.mem_cons_self
      rw [splitChars_of_not_mem (absent first here rest), List.map_singleton,
        here.inked.trimChars first rest]
  | cons first next _ ih =>
      obtain ⟨here, later⟩ := List.forall_mem_cons.1 good
      rw [splitChars_append, splitChars_of_not_mem (absent first here next), List.map_append, ih later,
        List.map_singleton, here.inked.trimChars first next]
      rfl

/-- A character that is in no part, no blank and no comma, is not in the list. -/
theorem not_mem (listed : Listed text parts) {c : Char} (ink : isBlank c = false) (other : c ≠ ',')
    (absent : ∀ part ∈ parts, c ∉ part) : c ∉ text := by
  induction listed with
  | last first rest =>
      simp only [List.mem_append, not_or]
      exact ⟨⟨first.not_mem ink, absent _ List.mem_cons_self⟩, rest.not_mem ink⟩
  | cons first next _ ih =>
      obtain ⟨here, later⟩ := List.forall_mem_cons.1 absent
      simp only [List.mem_append, List.mem_cons, not_or]
      exact ⟨⟨⟨first.not_mem ink, here⟩, next.not_mem ink⟩, other, ih later⟩

/-- The first part stands behind blanks, and may begin at a later place. -/
theorem uncons (listed : Listed text (part :: parts)) :
    ∃ before rest, text = before ++ part ++ rest ∧ Blank before ∧
      (∀ c ∈ rest.head?, isBlank c = true ∨ c = ',') ∧
      ∀ tail, Listed (tail ++ rest) (tail :: parts) := by
  cases listed with
  | @last before _ after first rest =>
      refine ⟨before, after, rfl, first, fun c next => .inl (rest c (List.mem_of_mem_head? next)),
        fun tail => ?_⟩
      have listed : Listed ([] ++ tail ++ after) [tail] := last Blank.nil rest
      simpa using listed
  | @cons before _ after rest _ first next others =>
      refine ⟨before, after ++ ',' :: rest, by simp, first, fun c head => ?_, fun tail => ?_⟩
      · cases after with
        | nil =>
            cases head
            exact .inr rfl
        | cons d after =>
            cases head
            exact .inl (next c List.mem_cons_self)
      have listed : Listed ([] ++ tail ++ after ++ ',' :: rest) (tail :: _) :=
        cons Blank.nil next others
      simpa using listed

/-- Blanks behind the list do not matter. -/
theorem append_blank (listed : Listed text parts) {blank : List Char} (all : Blank blank) :
    Listed (text ++ blank) parts := by
  induction listed with
  | last first rest =>
      rw [List.append_assoc]
      exact last first (rest.append all)
  | cons first next _ ih =>
      rw [List.append_assoc, List.cons_append]
      exact cons first next ih

theorem prepend_blank (listed : Listed text parts) {blank : List Char} (all : Blank blank) :
    Listed (blank ++ text) parts := by
  cases listed with
  | last first rest =>
      rw [← List.append_assoc, ← List.append_assoc]
      exact last (all.append first) rest
  | cons first next others =>
      rw [← List.append_assoc, ← List.append_assoc, ← List.append_assoc]
      exact cons (all.append first) next others

/-- Blanks at the ends of a list do not matter. -/
theorem exists_core (listed : Listed text parts) (good : ∀ part ∈ parts, Inked part) :
    ∃ before core after, text = before ++ core ++ after ∧ Blank before ∧ Blank after ∧
      Inked core ∧ Listed core parts := by
  induction listed with
  | @last before part after first rest =>
      have listed : Listed ([] ++ part ++ []) [part] := last Blank.nil Blank.nil
      exact ⟨before, part, after, rfl, first, rest, good _ List.mem_cons_self, by simpa using listed⟩
  | @cons before part after rest parts first next _ ih =>
      obtain ⟨here, later⟩ := List.forall_mem_cons.1 good
      obtain ⟨before', core, after', rfl, first', last', inked, listed⟩ := ih later
      have whole : Listed ([] ++ part ++ after ++ ',' :: (before' ++ core)) (part :: parts) :=
        cons Blank.nil next (listed.prepend_blank first')
      refine ⟨before, part ++ (after ++ ',' :: before') ++ core, after', by simp, first, last',
        here.append inked _, ?_⟩
      simpa using whole

end Listed

end Emend.Text

import Emend.Text.Blank

/-!
# Cuts, trimming and case

What the text operations do, said once: a cut is an equation between a text and
its parts, trimming a text without blanks does nothing, and folding the case of
letters commutes with every operation, because no letter is a blank or a
separator.
-/

set_option autoImplicit false

namespace Emend.Text

/-! ## Cuts of lists of characters -/

theorem stripPrefix?_eq_some_iff {beginning cs rest : List Char} :
    stripPrefix? beginning cs = some rest ↔ cs = beginning ++ rest := by
  induction beginning generalizing cs with
  | nil => simp [stripPrefix?, eq_comm]
  | cons p ps ih =>
      cases cs with
      | nil => simp [stripPrefix?]
      | cons c cs =>
          by_cases h : p = c
          · simp [stripPrefix?, h, ih]
          · simp [stripPrefix?, h, Ne.symm h]

theorem splitFirst?_eq_some_iff {sep : Char} {cs before after : List Char} :
    splitFirst? sep cs = some (before, after) ↔ cs = before ++ sep :: after ∧ sep ∉ before := by
  induction cs generalizing before with
  | nil => simp [splitFirst?]
  | cons c cs ih =>
      by_cases h : c = sep
      · cases before with
        | nil => simp [splitFirst?, h]
        | cons b before => simp [splitFirst?, h]; grind
      · cases before with
        | nil => simp [splitFirst?, h]
        | cons b before =>
            simp only [splitFirst?, h, if_false, Option.map_eq_some_iff, Prod.exists]
            grind

theorem splitFirst?_eq_none_iff {sep : Char} {cs : List Char} :
    splitFirst? sep cs = none ↔ sep ∉ cs := by
  induction cs with
  | nil => simp [splitFirst?]
  | cons c cs ih =>
      by_cases h : c = sep
      · simp [splitFirst?, h]
      · simp [splitFirst?, h, Ne.symm h, ih]

theorem splitLast?_eq_some_iff {sep : Char} {cs before after : List Char} :
    splitLast? sep cs = some (before, after) ↔ cs = before ++ sep :: after ∧ sep ∉ after := by
  simp only [splitLast?, Option.map_eq_some_iff, Prod.exists, Prod.mk.injEq]
  constructor
  · rintro ⟨a, b, cut, rfl, rfl⟩
    obtain ⟨e, absent⟩ := splitFirst?_eq_some_iff.1 cut
    exact ⟨by simpa using congrArg List.reverse e, by simpa using absent⟩
  · rintro ⟨rfl, absent⟩
    refine ⟨after.reverse, before.reverse, splitFirst?_eq_some_iff.2 ⟨by simp, by simpa using absent⟩,
      by simp, by simp⟩

theorem splitLast?_eq_none_iff {sep : Char} {cs : List Char} :
    splitLast? sep cs = none ↔ sep ∉ cs := by
  simp [splitLast?, splitFirst?_eq_none_iff]

theorem splitChars_ne_nil (sep : Char) (cs : List Char) : splitChars sep cs ≠ [] := by
  cases cs with
  | nil => simp [splitChars]
  | cons c cs =>
      rw [splitChars]
      split
      · simp
      · split <;> simp

theorem splitChars_of_not_mem {sep : Char} {cs : List Char} (absent : sep ∉ cs) :
    splitChars sep cs = [cs] := by
  induction cs with
  | nil => rfl
  | cons c cs ih =>
      have ne : c ≠ sep := fun e => absent (e ▸ List.mem_cons_self)
      rw [splitChars, if_neg ne, ih fun m => absent (List.mem_cons_of_mem _ m)]

/-- A separator ends one piece and begins another. -/
theorem splitChars_append (sep : Char) (a b : List Char) :
    splitChars sep (a ++ sep :: b) = splitChars sep a ++ splitChars sep b := by
  induction a with
  | nil => simp [splitChars]
  | cons c a ih =>
      by_cases h : c = sep
      · simp [splitChars, h, ih]
      · simp only [List.cons_append, splitChars, h, if_false, ih]
        cases pieces : splitChars sep a with
        | nil => exact absurd pieces (splitChars_ne_nil sep a)
        | cons piece pieces => rfl

/-- A character of the text that is no separator stands in one of the pieces. -/
theorem exists_mem_splitChars {sep c : Char} {cs : List Char} (member : c ∈ cs) (ne : c ≠ sep) :
    ∃ piece ∈ splitChars sep cs, c ∈ piece := by
  induction cs with
  | nil => simp at member
  | cons d cs ih =>
      rw [splitChars]
      rcases List.mem_cons.1 member with rfl | inside
      · rw [if_neg ne]
        split <;> exact ⟨_, List.mem_cons_self, List.mem_cons_self⟩
      · obtain ⟨piece, found, holds⟩ := ih inside
        split
        · exact ⟨piece, List.mem_cons_of_mem _ found, holds⟩
        · split
          · simp_all
          · rename_i first rest pieces
            rw [pieces] at found
            rcases List.mem_cons.1 found with rfl | later
            · exact ⟨_, List.mem_cons_self, List.mem_cons_of_mem _ holds⟩
            · exact ⟨piece, List.mem_cons_of_mem _ later, holds⟩

/-! ## Trimming -/

theorem dropWhile_eq_self_of_forall {α : Type} {p : α → Bool} {cs : List α}
    (fails : ∀ c ∈ cs, p c = false) : cs.dropWhile p = cs := by
  cases cs with
  | nil => rfl
  | cons c cs => simp [fails c List.mem_cons_self]

theorem dropEndWhile_eq_self_of_forall {α : Type} {p : α → Bool} {cs : List α}
    (fails : ∀ c ∈ cs, p c = false) : dropEndWhile p cs = cs := by
  rw [dropEndWhile, dropWhile_eq_self_of_forall fun c m => fails c (List.mem_reverse.1 m),
    List.reverse_reverse]

/-- What is dropped stands at the end. -/
theorem exists_eq_dropEndWhile_append {α : Type} (p : α → Bool) (cs : List α) :
    ∃ rest, cs = dropEndWhile p cs ++ rest ∧ ∀ c ∈ rest, p c = true := by
  refine ⟨(cs.reverse.takeWhile p).reverse, ?_, fun c inside => ?_⟩
  · rw [dropEndWhile, ← List.reverse_append, List.takeWhile_append_dropWhile, List.reverse_reverse]
  · exact List.all_eq_true.1 List.all_takeWhile c (List.mem_reverse.1 inside)

/-- Nothing is dropped up to an element that stays. -/
theorem dropEndWhile_append_cons {α : Type} {p : α → Bool} {c : α} (keep : p c = false)
    (before after : List α) :
    dropEndWhile p (before ++ c :: after) = before ++ c :: dropEndWhile p after := by
  have stop : ¬ p c = true := by simp [keep]
  simp only [dropEndWhile, List.reverse_append, List.reverse_cons, List.append_assoc,
    List.singleton_append, List.dropWhile_append, List.dropWhile_cons_of_neg stop]
  split
  · rename_i gone
    rw [List.isEmpty_iff] at gone
    simp [gone]
  · simp

theorem dropEndWhile_concat_of_neg {α : Type} {p : α → Bool} {c : α} (keep : p c = false)
    (cs : List α) : dropEndWhile p (cs ++ [c]) = cs ++ [c] := by
  simp [dropEndWhile, keep]

theorem dropEndWhile_concat_of_pos {α : Type} {p : α → Bool} {c : α} (drop : p c = true)
    (cs : List α) : dropEndWhile p (cs ++ [c]) = dropEndWhile p cs := by
  simp [dropEndWhile, drop]

/-- A text without blanks is trimmed. -/
theorem trim_of_forall {s : String} (plain : ∀ c ∈ s.toList, isBlank c = false) : trim s = s := by
  rw [trim, trimChars, dropWhile_eq_self_of_forall plain, dropEndWhile_eq_self_of_forall plain,
    String.ofList_toList]

/-! ## Cuts of texts -/

theorem strip?_eq_some_iff {beginning s rest : String} :
    strip? beginning s = some rest ↔ s = beginning ++ rest := by
  simp only [strip?, Option.map_eq_some_iff, stripPrefix?_eq_some_iff]
  constructor
  · rintro ⟨cs, e, rfl⟩
    exact String.toList_inj.1 (by simpa using e)
  · rintro rfl
    exact ⟨rest.toList, by simp, by simp⟩

theorem cut?_eq_some_iff {sep : Char} {s before after : String} :
    cut? sep s = some (before, after) ↔
      s = before ++ String.singleton sep ++ after ∧ sep ∉ before.toList := by
  simp only [cut?, Option.map_eq_some_iff, Prod.exists, Prod.mk.injEq]
  constructor
  · rintro ⟨a, b, cut, rfl, rfl⟩
    obtain ⟨e, absent⟩ := splitFirst?_eq_some_iff.1 cut
    exact ⟨String.toList_inj.1 (by simp [e]), by simpa using absent⟩
  · rintro ⟨rfl, absent⟩
    exact ⟨before.toList, after.toList, splitFirst?_eq_some_iff.2 ⟨by simp, absent⟩, by simp,
      by simp⟩

theorem cut?_eq_none_iff {sep : Char} {s : String} : cut? sep s = none ↔ sep ∉ s.toList := by
  simp [cut?, splitFirst?_eq_none_iff]

theorem cutLast?_eq_some_iff {sep : Char} {s before after : String} :
    cutLast? sep s = some (before, after) ↔
      s = before ++ String.singleton sep ++ after ∧ sep ∉ after.toList := by
  simp only [cutLast?, Option.map_eq_some_iff, Prod.exists, Prod.mk.injEq]
  constructor
  · rintro ⟨a, b, cut, rfl, rfl⟩
    obtain ⟨e, absent⟩ := splitLast?_eq_some_iff.1 cut
    exact ⟨String.toList_inj.1 (by simp [e]), by simpa using absent⟩
  · rintro ⟨rfl, absent⟩
    exact ⟨before.toList, after.toList, splitLast?_eq_some_iff.2 ⟨by simp, absent⟩, by simp,
      by simp⟩

theorem cutLast?_eq_none_iff {sep : Char} {s : String} :
    cutLast? sep s = none ↔ sep ∉ s.toList := by
  simp [cutLast?, splitLast?_eq_none_iff]

/-! ## Case

Folding the case of a letter gives a letter, and leaves everything else alone. -/

theorem toLower_cases (c : Char) :
    c.toLower = c ∨ (65 ≤ c.toNat ∧ c.toNat ≤ 90 ∧ c.toLower.toNat = c.toNat + 32) := by
  unfold Char.toLower
  split
  · rename_i h
    right
    obtain ⟨low, high⟩ := h
    have low' : 65 ≤ c.toNat := low
    have high' : c.toNat ≤ 90 := high
    refine ⟨low', high', ?_⟩
    show (c.val + 32).toNat = c.val.toNat + 32
    have : c.val.toNat ≤ 90 := high'
    rw [UInt32.toNat_add]
    simp
    omega
  · exact Or.inl rfl

theorem isBlank_toLower (c : Char) : isBlank c.toLower = isBlank c := by
  rcases toLower_cases c with same | ⟨low, high, e⟩
  · rw [same]
  · simp only [isBlank, e]
    grind

/-- A character that is no letter is the folded form of nothing but itself. -/
theorem toLower_eq_iff {c d : Char} (noLetter : d.toNat < 65 ∨ 90 < d.toNat ∧ d.toNat < 97) :
    c.toLower = d ↔ c = d := by
  rcases toLower_cases c with same | ⟨low, high, e⟩
  · rw [same]
  · constructor
    · rintro rfl
      omega
    · rintro rfl
      omega

theorem dropEndWhile_map {α β : Type} (f : α → β) (p : β → Bool) (cs : List α) :
    dropEndWhile p (cs.map f) = (dropEndWhile (p ∘ f) cs).map f := by
  simp only [dropEndWhile, ← List.map_reverse, List.dropWhile_map]

theorem trimChars_map_toLower (cs : List Char) :
    trimChars (cs.map Char.toLower) = (trimChars cs).map Char.toLower := by
  have blank : isBlank ∘ Char.toLower = isBlank := funext isBlank_toLower
  rw [trimChars, trimChars, List.dropWhile_map, dropEndWhile_map, blank]

theorem stripPrefix?_map_toLower {beginning : List Char}
    (fixed : ∀ d ∈ beginning, ∀ c : Char, c.toLower = d ↔ c = d) (cs : List Char) :
    stripPrefix? beginning (cs.map Char.toLower) =
      (stripPrefix? beginning cs).map (List.map Char.toLower) := by
  induction beginning generalizing cs with
  | nil => rfl
  | cons d ds ih =>
      cases cs with
      | nil => rfl
      | cons c cs =>
          have head := fixed d List.mem_cons_self c
          have tail := ih (fun e m => fixed e (List.mem_cons_of_mem _ m)) cs
          by_cases h : d = c
          · simp [stripPrefix?, h ▸ head.2 h.symm, h, tail]
          · have h' : ¬ d = c.toLower := fun e => h (head.1 e.symm).symm
            simp [stripPrefix?, h, h']

theorem splitFirst?_map_toLower {sep : Char} (fixed : ∀ c : Char, c.toLower = sep ↔ c = sep)
    (cs : List Char) :
    splitFirst? sep (cs.map Char.toLower) =
      (splitFirst? sep cs).map fun (a, b) => (a.map Char.toLower, b.map Char.toLower) := by
  induction cs with
  | nil => rfl
  | cons c cs ih =>
      by_cases h : c = sep
      · simp [splitFirst?, h, (fixed sep).2 rfl]
      · have h' : ¬ c.toLower = sep := fun e => h ((fixed c).1 e)
        simp only [List.map_cons, splitFirst?, h, h', if_false, ih, Option.map_map]
        rfl

theorem splitLast?_map_toLower {sep : Char} (fixed : ∀ c : Char, c.toLower = sep ↔ c = sep)
    (cs : List Char) :
    splitLast? sep (cs.map Char.toLower) =
      (splitLast? sep cs).map fun (a, b) => (a.map Char.toLower, b.map Char.toLower) := by
  simp only [splitLast?, ← List.map_reverse, splitFirst?_map_toLower fixed, Option.map_map]
  congr 1
  funext cut
  simp

@[simp] theorem toList_lower (s : String) : (lower s).toList = s.toList.map Char.toLower := by
  simp [lower]

theorem lower_append (s t : String) : lower (s ++ t) = lower s ++ lower t := by
  simp [lower]

theorem lower_trim (s : String) : lower (trim s) = trim (lower s) := by
  simp [lower, trim, trimChars_map_toLower]

@[simp] theorem sameIgnoringCase_iff {s t : String} :
    sameIgnoringCase s t = true ↔ lower s = lower t := by
  simp [sameIgnoringCase]

end Emend.Text

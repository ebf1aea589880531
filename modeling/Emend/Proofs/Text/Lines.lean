import Emend.Proofs.Layout.Ink

/-!
# Lines of a text

A line feed ends a line and begins another one, so a text with a line feed between two parts has
the lines of the one and then those of the other (`lines_append`, `split_append`). There are two
ways to count: `Text.split '\n'` gives all pieces between line feeds, `Text.lines` leaves out a
carriage return before a line feed and an empty last piece. Of a text that is made of lines, each
with a line feed behind it, both give these lines (`split_closed`, `lines_cons`).
-/

set_option autoImplicit false

namespace Emend.Text

/-! ## Pieces between line feeds -/

theorem toList_lineFeed : "\n".toList = ['\n'] := rfl

theorem split_append (a b : String) :
    split '\n' (a ++ "\n" ++ b) = split '\n' a ++ split '\n' b := by
  simp only [split, String.toList_append, toList_lineFeed, List.append_assoc, List.singleton_append,
    splitChars_append, List.map_append]

theorem split_of_not_mem {s : String} (single : '\n' ∉ s.toList) : split '\n' s = [s] := by
  simp only [split, splitChars_of_not_mem single, List.map_cons, List.map_nil, String.ofList_toList]

theorem split_ne_nil (s : String) : split '\n' s ≠ [] := by
  intro empty
  exact splitChars_ne_nil '\n' s.toList (List.map_eq_nil_iff.1 empty)

/-- A text is one piece exactly if there is no line feed in it. -/
theorem length_split_eq_one_iff {s : String} :
    (split '\n' s).length = 1 ↔ '\n' ∉ s.toList := by
  constructor
  · intro one inside
    obtain ⟨before, after, cut⟩ := List.append_of_mem inside
    have first := List.length_pos_iff.2 (splitChars_ne_nil '\n' before)
    have second := List.length_pos_iff.2 (splitChars_ne_nil '\n' after)
    rw [split, cut, splitChars_append, List.length_map, List.length_append] at one
    omega
  · intro single
    rw [split_of_not_mem single, List.length_singleton]

/-- Of texts with a line feed behind each the pieces are those of the texts, and what stands behind
the last line feed. -/
theorem split_closed {texts : List String} (nonempty : texts ≠ []) :
    split '\n' ("\n".intercalate texts ++ "\n") = texts.flatMap (split '\n') ++ [""] := by
  have closed : ∀ s : String, split '\n' (s ++ "\n") = split '\n' s ++ [""] := by
    intro s
    have cut := split_append s ""
    rw [String.append_empty] at cut
    exact cut
  induction texts with
  | nil => exact absurd rfl nonempty
  | cons text texts ih =>
      cases texts with
      | nil => simp [closed]
      | cons next texts =>
          rw [String.intercalate_cons_cons, String.append_assoc, split_append, ih (by simp)]
          simp only [List.flatMap_cons, List.append_assoc]

/-- What has no separator goes to the first piece of what follows. -/
theorem splitChars_append_of_not_mem {sep : Char} {front : List Char} (absent : sep ∉ front)
    (cs : List Char) :
    splitChars sep (front ++ cs) =
      (splitChars sep cs).modifyHead (front ++ ·) := by
  induction front with
  | nil => cases pieces : splitChars sep cs <;> simp [pieces]
  | cons c front ih =>
      have ne : c ≠ sep := fun e => absent (e ▸ List.mem_cons_self)
      rw [List.cons_append, splitChars, if_neg ne,
        ih fun inside => absent (List.mem_cons_of_mem _ inside)]
      cases pieces : splitChars sep cs with
      | nil => exact absurd pieces (splitChars_ne_nil sep cs)
      | cons piece pieces => rfl

/-! ## Lines -/

/-- A line without the carriage return that ends it. -/
def withoutReturn (piece : List Char) : List Char := (stripSuffix? ['\r'] piece).getD piece

theorem withoutReturn_eq_self {piece : List Char} (plain : piece.getLast? ≠ some '\r') :
    withoutReturn piece = piece := by
  rw [withoutReturn, stripSuffix?, List.reverse_singleton]
  cases reversed : piece.reverse with
  | nil => rfl
  | cons c cs =>
      have ne : '\r' ≠ c := by
        rintro rfl
        apply plain
        rw [← List.head?_reverse, reversed, List.head?_cons]
      rw [stripPrefix?, if_neg ne]
      rfl

/-- What does not end in a carriage return stays in front. -/
theorem withoutReturn_append {front : List Char} (plain : front.getLast? ≠ some '\r')
    (piece : List Char) : withoutReturn (front ++ piece) = front ++ withoutReturn piece := by
  cases reversed : piece.reverse with
  | nil =>
      rw [List.reverse_eq_nil_iff.1 reversed, List.append_nil, withoutReturn_eq_self plain]
      exact (List.append_nil front).symm
  | cons c cs =>
      simp only [withoutReturn, stripSuffix?, List.reverse_append, reversed, List.reverse_singleton,
        List.cons_append, stripPrefix?]
      split <;> simp

theorem withoutReturn_subset (piece : List Char) : withoutReturn piece ⊆ piece := by
  intro c inside
  rw [withoutReturn, stripSuffix?] at inside
  cases stripped : stripPrefix? ['\r'].reverse piece.reverse with
  | none =>
      rw [stripped] at inside
      exact inside
  | some rest =>
      rw [stripped] at inside
      rw [← List.mem_reverse, stripPrefix?_eq_some_iff.1 stripped]
      exact List.mem_append_right _ (List.mem_reverse.1 inside)

theorem lines_eq (s : String) :
    lines s = ((splitChars '\n' s.toList).dropLast.map withoutReturn ++
      [(splitChars '\n' s.toList).getLastD []].filter (!·.isEmpty)).map String.ofList := by
  rw [lines]
  cases last : ((splitChars '\n' s.toList).getLastD []).isEmpty with
  | true =>
      simp only [last, if_true, Bool.not_true, Bool.false_eq_true, not_false_eq_true,
        List.filter_cons_of_neg, List.filter_nil, List.append_nil]
      rfl
  | false =>
      simp only [last, Bool.false_eq_true, if_false, Bool.not_false, List.filter_cons_of_pos,
        List.filter_nil]
      rfl

theorem lines_closed (s : String) :
    lines (s ++ "\n") =
      (splitChars '\n' s.toList).map fun piece => String.ofList (withoutReturn piece) := by
  have pieces : splitChars '\n' (s ++ "\n").toList = splitChars '\n' s.toList ++ [[]] := by
    rw [String.toList_append, toList_lineFeed, splitChars_append]
    rfl
  rw [lines_eq, pieces]
  simp

/-- **A line feed** ends one line and begins another. -/
theorem lines_append (a b : String) : lines (a ++ "\n" ++ b) = lines (a ++ "\n") ++ lines b := by
  have pieces : splitChars '\n' (a ++ "\n" ++ b).toList =
      splitChars '\n' a.toList ++ splitChars '\n' b.toList := by
    rw [String.toList_append, String.toList_append, toList_lineFeed, List.append_assoc,
      List.singleton_append, splitChars_append]
  have nonempty := splitChars_ne_nil '\n' b.toList
  rw [lines_eq, lines_eq b, lines_closed, pieces, List.dropLast_append_of_ne_nil nonempty,
    List.getLastD_eq_getLast?, List.getLast?_append_of_ne_nil _ nonempty,
    ← List.getLastD_eq_getLast?]
  simp

/-- A text begins with a line that is closed as it is. -/
theorem lines_cons {line : String} (single : '\n' ∉ line.toList)
    (plain : line.toList.getLast? ≠ some '\r') (rest : String) :
    lines (line ++ "\n" ++ rest) = line :: lines rest := by
  rw [lines_append, lines_closed, splitChars_of_not_mem single]
  simp [withoutReturn_eq_self plain]

/-- Lines with a line feed behind each, and what stands behind them. -/
theorem lines_join {texts : List String}
    (single : ∀ text ∈ texts, '\n' ∉ text.toList ∧ text.toList.getLast? ≠ some '\r')
    (tail : String) :
    lines (String.join (texts.map (· ++ "\n")) ++ tail) = texts ++ lines tail := by
  induction texts with
  | nil => simp
  | cons text texts ih =>
      obtain ⟨first, others⟩ := List.forall_mem_cons.1 single
      rw [List.map_cons, String.join_cons, String.append_assoc, lines_cons first.1 first.2,
        ih others, List.cons_append]

/-- A text without a line feed is one line. -/
theorem lines_of_not_mem {s : String} (nonempty : s ≠ "") (single : '\n' ∉ s.toList) :
    lines s = [s] := by
  have chars : s.toList ≠ [] := by simpa using nonempty
  rw [lines_eq, splitChars_of_not_mem single]
  simp [chars]

/-- The first line begins as the text does. -/
theorem exists_lines_cons {front : String} (single : '\n' ∉ front.toList)
    (plain : front.toList.getLast? ≠ some '\r') (rest : String) :
    ∃ more others, lines (front ++ rest ++ "\n") = (front ++ more) :: others := by
  cases pieces : splitChars '\n' rest.toList with
  | nil => exact absurd pieces (splitChars_ne_nil '\n' rest.toList)
  | cons piece pieces' =>
      refine ⟨.ofList (withoutReturn piece),
        pieces'.map fun piece => String.ofList (withoutReturn piece), ?_⟩
      rw [lines_closed, String.toList_append, splitChars_append_of_not_mem single, pieces,
        List.modifyHead_cons, List.map_cons, withoutReturn_append plain]
      simp

theorem lineFeed_not_mem_lines {s line : String} (found : line ∈ lines s) : '\n' ∉ line.toList := by
  rw [lines_eq, List.mem_map] at found
  obtain ⟨piece, listed, rfl⟩ := found
  rw [String.toList_ofList]
  rcases List.mem_append.1 listed with closed | last
  · obtain ⟨own, there, rfl⟩ := List.mem_map.1 closed
    intro inside
    exact not_mem_of_mem_splitChars (List.dropLast_subset _ there) (withoutReturn_subset own inside)
  · have own : piece ∈ splitChars '\n' s.toList := by
      rw [List.mem_singleton.1 (List.mem_filter.1 last).1, List.getLastD_eq_getLast?,
        List.getLast?_eq_getLast_of_ne_nil (splitChars_ne_nil '\n' s.toList)]
      exact List.getLast_mem _
    exact not_mem_of_mem_splitChars own

/-- Only the empty text has no line. -/
theorem lines_eq_nil_iff {s : String} : lines s = [] ↔ s = "" := by
  constructor
  · intro noLines
    have whole := intercalate_splitChars '\n' s.toList
    cases pieces : splitChars '\n' s.toList with
    | nil => exact absurd pieces (splitChars_ne_nil '\n' s.toList)
    | cons piece others =>
        cases others with
        | nil =>
            have empty : piece = [] := by simpa [lines_eq, pieces] using noLines
            rw [pieces, empty] at whole
            exact String.toList_eq_nil_iff.1 whole.symm
        | cons next others => simp [lines_eq, pieces] at noLines
  · rintro rfl
    rfl

end Emend.Text

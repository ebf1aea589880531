import Emend.Proofs.Source.Indentation
import Emend.Proofs.Source.Token
import Emend.Proofs.Text.Lines
import Emend.Proofs.Text.Words

/-!
# Doc comments are read as they are printed

A doc comment is printed with a star before each of its lines. It is read line by line: the blanks
around a line go, then one star, one space and the blanks at the end, and empty lines at the two
ends of the comment go as well. So stars, spaces and slashes that a line itself begins with are kept
(`docLine_printed`), and lines of which the first and the last one are not empty are read as they
were printed (`docLines?_docBlock`). Reading gives no other lines (`isDoc_of_docLines?`), so what
was read once is read again.

What is printed is one comment as long as no line holds the end of a comment (`closes_docBody`).
-/

set_option autoImplicit false

namespace Emend

open Layout (ink)

namespace Text

/-- What stays at the end is not dropped. -/
theorem not_of_getLast?_dropEndWhile {α : Type} {p : α → Bool} {xs : List α} {x : α}
    (last : (dropEndWhile p xs).getLast? = some x) : p x = false := by
  rw [dropEndWhile, List.getLast?_reverse] at last
  have stays := List.head?_dropWhile_not p xs.reverse
  rw [last] at stays
  exact stays

theorem dropEndWhile_begins {α : Type} (p : α → Bool) (xs : List α) : dropEndWhile p xs <+: xs := by
  obtain ⟨rest, whole, -⟩ := exists_eq_dropEndWhile_append p xs
  exact ⟨rest, whole.symm⟩

theorem toList_trim_subset (s : String) : (trim s).toList ⊆ s.toList := by
  rw [trim, String.toList_ofList, trimChars]
  exact List.Subset.trans (dropEndWhile_begins _ _).subset (List.dropWhile_suffix _).subset

theorem toList_trimEnd_subset (s : String) : (trimEnd s).toList ⊆ s.toList := by
  rw [trimEnd, String.toList_ofList]
  exact (dropEndWhile_begins _ _).subset

theorem toList_strip?_subset (beginning s : String) :
    ((strip? beginning s).getD s).toList ⊆ s.toList := by
  cases stripped : strip? beginning s with
  | none => exact List.Subset.refl _
  | some rest =>
      rw [strip?_eq_some_iff.1 stripped, String.toList_append]
      exact List.subset_append_right _ _

theorem trimEnd_trimEnd (s : String) : trimEnd (trimEnd s) = trimEnd s := by
  rw [trimEnd, trimEnd, String.toList_ofList, dropEndWhile_eq_rdropWhile,
    dropEndWhile_eq_rdropWhile, List.rdropWhile_idempotent]

/-- Blanks around a text that begins and ends otherwise are trimmed. -/
theorem trim_append {lead s trail : String} (before : ink lead.toList = [])
    (after : ink trail.toList = []) (enclosed : Enclosed (isBlank · = false) s) :
    trim (lead ++ s ++ trail) = s := by
  obtain ⟨⟨first, begins, dark⟩, last, ends, dark'⟩ := enclosed
  have inkEnds : Layout.InkEnds s.toList := by
    rw [Layout.InkEnds, begins, ends]
    simp [Layout.isInk, dark, dark']
  rw [trim, String.toList_append, String.toList_append, trimChars_append before after inkEnds,
    String.ofList_toList]

end Text

namespace Declaration

/-- What a line of a doc comment says: the line without the blanks around it, the star and one
space. -/
def docLine (line : String) : String :=
  let line := Text.trim line
  let line := (Text.strip? "*" line).getD line
  Text.trimEnd ((Text.strip? " " line).getD line)

/-- A text of one line without blanks at its end. -/
structure IsDocLine (line : String) : Prop where
  single : '\n' ∉ line.toList
  trimmed : Text.trimEnd line = line

instance (line : String) : Decidable (IsDocLine line) :=
  decidable_of_iff ('\n' ∉ line.toList ∧ Text.trimEnd line = line)
    ⟨fun ⟨a, b⟩ => ⟨a, b⟩, fun ⟨a, b⟩ => ⟨a, b⟩⟩

/-- What a doc comment can say: lines of which the first and the last one are not empty. -/
structure IsDoc (doc : List String) : Prop where
  lines : ∀ line ∈ doc, IsDocLine line
  first : doc.head? ≠ some ""
  last : doc.getLast? ≠ some ""

instance (doc : List String) : Decidable (IsDoc doc) :=
  decidable_of_iff
    ((∀ line ∈ doc, IsDocLine line) ∧ doc.head? ≠ some "" ∧ doc.getLast? ≠ some "")
    ⟨fun ⟨a, b, c⟩ => ⟨a, b, c⟩, fun ⟨a, b, c⟩ => ⟨a, b, c⟩⟩

theorem docLines?_eq (comment : String) :
    docLines? comment =
      ((Text.strip? "/**" (Text.trim comment)).bind (Text.stripEnd? "*/")).map fun inner =>
        Text.dropEndWhile String.isEmpty
          (((Text.lines inner).map docLine).dropWhile String.isEmpty) := by
  unfold docLines?
  generalize (Text.strip? "/**" (Text.trim comment)).bind (Text.stripEnd? "*/") = inner
  cases inner with
  | none => rfl
  | some inner => rfl

/-! ## What reading gives -/

theorem isDocLine_docLine {line : String} (single : '\n' ∉ line.toList) :
    IsDocLine (docLine line) := by
  have part : (docLine line).toList ⊆ line.toList := by
    refine List.Subset.trans (Text.toList_trimEnd_subset _) ?_
    refine List.Subset.trans (Text.toList_strip?_subset _ _) ?_
    exact List.Subset.trans (Text.toList_strip?_subset _ _) (Text.toList_trim_subset line)
  exact ⟨fun inside => single (part inside), Text.trimEnd_trimEnd _⟩

/-- **Reading gives lines** of which the first and the last one are not empty. -/
theorem isDoc_of_docLines? {comment : String} {doc : List String}
    (read : docLines? comment = some doc) : IsDoc doc := by
  rw [docLines?_eq, Option.map_eq_some_iff] at read
  obtain ⟨inner, -, rfl⟩ := read
  generalize written : (Text.lines inner).map docLine = lines
  have kept := Text.dropEndWhile_begins String.isEmpty (lines.dropWhile String.isEmpty)
  refine ⟨fun line listed => ?_, fun first => ?_, fun last => ?_⟩
  · have member := (List.dropWhile_suffix _).subset (kept.subset listed)
    rw [← written] at member
    obtain ⟨own, found, rfl⟩ := List.mem_map.1 member
    exact isDocLine_docLine (Text.lineFeed_not_mem_lines found)
  · have stays := List.head?_dropWhile_not String.isEmpty lines
    obtain ⟨rest, whole⟩ := kept
    rw [← whole, List.head?_append, first, Option.some_or] at stays
    cases stays
  · exact absurd (Text.not_of_getLast?_dropEndWhile last) (by decide)

end Declaration

namespace Printer

/-- A line of a doc comment from its star on. -/
def starred (line : String) : String := if line.isEmpty then "*" else "* " ++ line

def docLine (pad line : String) : String := pad ++ " " ++ starred line

/-- What a printed doc comment says between the marks of a comment. -/
def docInner (pad : String) (doc : List String) : String :=
  "" ++ "\n" ++ (String.join ((doc.map (docLine pad)).map (· ++ "\n")) ++ (pad ++ " "))

/-- A printed doc comment from its first mark to its last one. -/
def docComment (pad : String) (doc : List String) : String :=
  "/**" ++ (docInner pad doc ++ "*/")

variable {doc : List String} {line : String} {width : Nat}

theorem docBlock_eq (nonempty : doc ≠ []) (pad : String) :
    docBlock doc pad = pad ++ docComment pad doc ++ "\n" := by
  have lines : (doc.map (docLine pad)).map (· ++ "\n") = doc.map fun line =>
      if line.isEmpty then pad ++ " *\n" else pad ++ " * " ++ line ++ "\n" := by
    rw [List.map_map]
    refine List.map_congr_left fun line _ => ?_
    rw [Function.comp_apply, docLine, starred]
    apply String.toList_inj.1
    split <;> simp
  have opening : pad ++ "/**\n" = pad ++ "/**" ++ "\n" := String.toList_inj.1 (by simp)
  have closing : " */\n" = " " ++ "*/" ++ "\n" := by decide
  rw [docBlock, if_neg (by simpa using nonempty), ← lines, docComment, docInner, opening, closing]
  simp only [String.append_assoc, String.empty_append]

/-! ## Lines -/

theorem enclosed_starred (isDocLine : Declaration.IsDocLine line) :
    Text.Enclosed (Text.isBlank · = false) (starred line) := by
  rw [starred]
  split
  · decide
  · rename_i nonempty
    have chars : line.toList ≠ [] := by simpa using nonempty
    have last := List.getLast?_eq_some_getLast chars
    refine ⟨⟨'*', by simp, by decide⟩, line.toList.getLast chars, ?_, ?_⟩
    · rw [String.toList_append, List.getLast?_append, last, Option.some_or]
    · have trimmed := congrArg String.toList isDocLine.trimmed
      rw [Text.trimEnd, String.toList_ofList] at trimmed
      exact Text.not_of_getLast?_dropEndWhile ((congrArg List.getLast? trimmed).trans last)

theorem ink_pad_space : ink (pad width ++ " ").toList = [] := by
  rw [String.toList_append, Layout.ink_append, ink_pad]
  rfl

/-- **A printed line** is read as the line it was printed for. -/
theorem docLine_printed (isDocLine : Declaration.IsDocLine line) :
    Declaration.docLine (docLine (pad width) line) = line := by
  have trimmed : Text.trim (docLine (pad width) line) = starred line := by
    have cut : Text.trim (docLine (pad width) line ++ "") = starred line :=
      Text.trim_append ink_pad_space rfl (enclosed_starred isDocLine)
    rwa [String.append_empty] at cut
  have star : Text.strip? "*" (starred line) = some (if line.isEmpty then "" else " " ++ line) := by
    rw [Text.strip?_eq_some_iff, starred]
    split
    · rfl
    · exact String.toList_inj.1 (by simp)
  rw [Declaration.docLine, trimmed, star, Option.getD_some]
  split
  · rename_i empty
    rw [String.isEmpty_iff.1 empty]
    decide
  · rw [Text.strip?_eq_some_iff.2 rfl, Option.getD_some, isDocLine.trimmed]

theorem docLine_single (isDocLine : Declaration.IsDocLine line) :
    '\n' ∉ (docLine (pad width) line).toList ∧
      (docLine (pad width) line).toList.getLast? ≠ some '\r' := by
  constructor
  · have inner : '\n' ∉ (starred line).toList := by
      rw [starred]
      split
      · decide
      · simpa using isDocLine.single
    simpa [docLine, lineFeed_not_mem_pad] using inner
  · obtain ⟨c, ends, dark⟩ := (enclosed_starred isDocLine).ends
    rw [docLine, String.toList_append, List.getLast?_append, ends, Option.some_or]
    rintro ⟨⟩
    exact absurd dark (by decide)

/-! ## Comments -/

/-- The lines of a printed comment, those of the two marks included. -/
theorem lines_docInner (isDoc : Declaration.IsDoc doc) :
    (Text.lines (docInner (pad width) doc)).map Declaration.docLine = "" :: (doc ++ [""]) := by
  have single : ∀ text ∈ doc.map (docLine (pad width)),
      '\n' ∉ text.toList ∧ text.toList.getLast? ≠ some '\r' := by
    simpa using fun line listed => docLine_single (isDoc.lines line listed)
  have printed : (doc.map (docLine (pad width))).map Declaration.docLine = doc := by
    rw [List.map_map]
    refine (List.map_congr_left fun line listed => ?_).trans (List.map_id doc)
    exact docLine_printed (isDoc.lines line listed)
  have last : Text.lines (pad width ++ " ") = [pad width ++ " "] := by
    refine Text.lines_of_not_mem (fun noText => ?_) ?_
    · simpa using congrArg String.toList noText
    · simp [lineFeed_not_mem_pad]
  have blank : Declaration.docLine (pad width ++ " ") = "" := by
    rw [Declaration.docLine, Text.trim, Text.trimChars_of_blank ink_pad_space]
    decide
  have empty : Declaration.docLine "" = "" := by decide
  rw [docInner, Text.lines_cons (by simp) (by simp), Text.lines_join single, last, List.map_cons,
    List.map_append, printed, List.map_singleton, blank, empty]

/-- The empty lines beside the marks are dropped. -/
theorem drop_empty_lines (isDoc : Declaration.IsDoc doc) (nonempty : doc ≠ []) :
    Text.dropEndWhile String.isEmpty (("" :: (doc ++ [""])).dropWhile String.isEmpty) = doc := by
  have front : ("" :: (doc ++ [""])).dropWhile String.isEmpty = doc ++ [""] := by
    rw [List.dropWhile_cons_of_pos rfl]
    cases doc with
    | nil => exact absurd rfl nonempty
    | cons first rest =>
        have full : first ≠ "" := by simpa using isDoc.first
        exact List.dropWhile_cons_of_neg (by simpa using full)
  rcases List.eq_nil_or_concat doc with rfl | ⟨lines, last, rfl⟩
  · exact absurd rfl nonempty
  · have full : last ≠ "" := by simpa using isDoc.last
    rw [front, List.concat_eq_append, List.append_assoc, List.singleton_append,
      Text.dropEndWhile_append_cons (by simpa using full)]
    rfl

theorem enclosed_docComment (pad : String) (doc : List String) :
    Text.Enclosed (Text.isBlank · = false) (docComment pad doc) := by
  have opening : Text.Enclosed (Text.isBlank · = false) "/**" := by decide
  have closing : Text.Enclosed (Text.isBlank · = false) "*/" := by decide
  rw [docComment, ← String.append_assoc]
  exact opening.append closing _

/-- **A printed comment** is read as the lines it was printed for, with blanks around it or not. -/
theorem docLines?_docComment (isDoc : Declaration.IsDoc doc) (nonempty : doc ≠ [])
    {lead trail : String} (before : ink lead.toList = []) (after : ink trail.toList = []) :
    Declaration.docLines? (lead ++ docComment (pad width) doc ++ trail) = some doc := by
  have opening : Text.strip? "/**" (docComment (pad width) doc) =
      some (docInner (pad width) doc ++ "*/") := Text.strip?_eq_some_iff.2 rfl
  have closing : Text.stripEnd? "*/" (docInner (pad width) doc ++ "*/") =
      some (docInner (pad width) doc) := by
    simp [Text.stripEnd?, Text.stripSuffix?, Text.stripPrefix?]
  rw [Declaration.docLines?_eq, Text.trim_append before after (enclosed_docComment _ _), opening,
    Option.bind_some, closing, Option.map_some, lines_docInner isDoc, drop_empty_lines isDoc nonempty]

theorem docLines?_docBlock (isDoc : Declaration.IsDoc doc) (nonempty : doc ≠ []) :
    Declaration.docLines? (docBlock doc (pad width)) = some doc := by
  rw [docBlock_eq nonempty]
  exact docLines?_docComment isDoc nonempty (ink_pad width) (by decide)

/-! ## Where a printed comment ends -/

open Glyph (Closes)

theorem closes_spaces {body : List Char} (apart : body.head? ≠ some '/') (closes : Closes body) :
    Closes ((pad width ++ " ").toList ++ body) := by
  refine closes.append (fun inside => ?_) apart
  have star : '*' ∈ (pad width ++ " ").toList := inside.subset List.mem_cons_self
  simp [pad] at star

theorem closes_docLine (free : ¬ ['*', '/'] <:+: line.toList) {body : List Char}
    (closes : Closes body) : Closes ((docLine (pad width) line ++ "\n").toList ++ body) := by
  have ended : Closes ('\n' :: body) := .more (by simp) closes
  have text : (starred line).toList ++ '\n' :: body =
      '*' :: (if line.isEmpty then [] else ' ' :: line.toList) ++ '\n' :: body := by
    rw [starred]
    split <;> simp
  have said : Closes ((starred line).toList ++ '\n' :: body) := by
    rw [text]
    split
    · exact .more (by simp) ended
    -- a slash at the beginning of the line is parted from the star by the space
    · exact .more (by simp) (.more (by simp) (ended.append free (by simp)))
  have begins : ((starred line).toList ++ '\n' :: body).head? ≠ some '/' := by simp [text]
  have whole : Closes ((pad width ++ " ").toList ++ _) := closes_spaces begins said
  simpa [docLine] using whole

/-- **One comment.** A printed comment ends at its last mark if none of its lines holds such a
mark. -/
theorem closes_docBody (free : ∀ line ∈ doc, ¬ ['*', '/'] <:+: line.toList) :
    Closes ('*' :: (docInner (pad width) doc ++ "*/").toList) := by
  have closing : Closes ((pad width ++ " ").toList ++ ['*', '/']) := closes_spaces (by simp) .done
  have lines : Closes ((String.join ((doc.map (docLine (pad width))).map (· ++ "\n"))).toList ++
      ((pad width ++ " ").toList ++ ['*', '/'])) := by
    -- each line is put before a rest that closes already
    induction doc with
    | nil => simpa using closing
    | cons line doc ih =>
        obtain ⟨first, others⟩ := List.forall_mem_cons.1 free
        have whole : Closes ((docLine (pad width) line ++ "\n").toList ++ _) :=
          closes_docLine first (ih others)
        simpa using whole
  have whole : Closes ('*' :: '\n' :: _) := .more (by simp) (.more (by simp) lines)
  simpa [docInner] using whole

theorem commentSize_docComment (free : ∀ line ∈ doc, ¬ ['*', '/'] <:+: line.toList)
    (rest : List Char) :
    Lexeme.commentSize ((docComment (pad width) doc).toList ++ rest) =
      (docComment (pad width) doc).length := by
  have closes : Closes ('*' :: (docInner (pad width) doc ++ "*/").toList) := closes_docBody free
  have text : (docComment (pad width) doc).toList =
      '/' :: '*' :: '*' :: (docInner (pad width) doc ++ "*/").toList := by
    simp [docComment]
  rw [← String.length_toList, text, List.cons_append, List.cons_append, Lexeme.commentSize,
    closes.blockCommentRest?]
  rfl

/-- **Round trip of doc comments.** Lines without line feeds and without blanks at their ends, of
which the first and the last one are not empty, are read from what is printed for them, whatever the
padding. If none of them holds the end of a comment, then what is printed is, between the padding
and a line feed, one comment, and these lines are read from it. The lines that are read from any
comment are read again from what is printed for them, unless there are none: for no lines nothing is
printed. -/
theorem doc_comment_round_trip (width : Nat) :
    (∀ doc, Declaration.IsDoc doc → doc ≠ [] →
      Declaration.docLines? (docBlock doc (pad width)) = some doc ∧
      ((∀ line ∈ doc, ¬ "*/".toList <:+: line.toList) →
        ∃ comment, docBlock doc (pad width) = pad width ++ comment ++ "\n" ∧
          Declaration.docLines? comment = some doc ∧
          ∀ rest, Lexeme.commentSize (comment.toList ++ rest) = comment.length)) ∧
    (∀ comment doc, Declaration.docLines? comment = some doc → doc ≠ [] →
      Declaration.docLines? (docBlock doc (pad width)) = some doc) ∧
    docBlock [] (pad width) = "" := by
  refine ⟨fun doc isDoc nonempty => ⟨docLines?_docBlock isDoc nonempty, fun free => ?_⟩,
    fun comment doc read => docLines?_docBlock (Declaration.isDoc_of_docLines? read), rfl⟩
  refine ⟨docComment (pad width) doc, docBlock_eq nonempty _, ?_, commentSize_docComment free⟩
  have alone : Declaration.docLines? ("" ++ docComment (pad width) doc ++ "") = some doc :=
    docLines?_docComment isDoc nonempty rfl rfl
  rwa [String.empty_append, String.append_empty] at alone

namespace Example

/-- Lines that begin with a star, with blanks and with a slash, and an empty one. -/
def starredLines : List String := ["* first", "", "  /last"]

theorem doc_comment_round_trip_stars :
    Declaration.IsDoc starredLines ∧
      Declaration.docLines? (docBlock starredLines (pad 4)) = some starredLines ∧
      (∃ comment, docBlock starredLines (pad 4) = pad 4 ++ comment ++ "\n" ∧
        Declaration.docLines? comment = some starredLines ∧
        ∀ rest, Lexeme.commentSize (comment.toList ++ rest) = comment.length) ∧
      Declaration.docLines? "/** one */" = some ["one"] ∧
      Declaration.docLines? (docBlock ["one"] (pad 4)) = some ["one"] := by
  have isDoc : Declaration.IsDoc starredLines := by decide
  have free : ∀ line ∈ starredLines, ¬ "*/".toList <:+: line.toList := by
    decide +kernel
  have read : Declaration.docLines? "/** one */" = some ["one"] := by decide
  obtain ⟨printed, onlyComment⟩ := (doc_comment_round_trip 4).1 starredLines isDoc (by decide)
  exact ⟨isDoc, printed, onlyComment free, read,
    (doc_comment_round_trip 4).2.1 "/** one */" ["one"] read (by decide)⟩

/-- A comment of blanks has no lines, and as nothing is printed for it, it is not read again. -/
theorem blank_comment_not_read_again :
    Declaration.docLines? "/** */" = some [] ∧ Declaration.IsDoc [] ∧
      Declaration.docLines? (docBlock [] (pad 4)) = none := by
  decide

end Example

end Printer

end Emend

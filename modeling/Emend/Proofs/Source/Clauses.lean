import Emend.Proofs.Text.Parts
import Emend.Source.Declaration
import Mathlib.Data.List.Forall2

/-!
# Reading trait uses and imports

The names of a trait use and the clauses of an import are cut from the text of the whole statement.
If the keyword is written as the library writes it, and if nothing but blanks stands between the
parts, each of them is found (`traitUses_names`, `importClauses_listed`, `importClauses_grouped`).
-/

set_option autoImplicit false

namespace Emend

open Text (Blank Inked Listed isBlank trimChars)

namespace Text

theorem trim_ofList (cs : List Char) : trim (.ofList cs) = .ofList (trimChars cs) := by
  rw [trim, String.toList_ofList]

/-- The parts of a list, cut at the commas and trimmed. -/
theorem Listed.map_trim_split {cs : List Char} {parts : List (List Char)}
    (listed : Listed cs parts) (good : ∀ part ∈ parts, Text.Listed.Part part) :
    (Text.split ',' (.ofList cs)).map trim = parts.map String.ofList := by
  have pieces := congrArg (List.map String.ofList) (listed.split good)
  rw [Text.split, String.toList_ofList, List.map_map, ← pieces, List.map_map]
  exact List.map_congr_left fun piece _ => trim_ofList piece

end Text

namespace Declaration

/-! ## Trait uses -/

/-- How a statement ends: with a semicolon, or with nothing before a closing tag. -/
inductive Ending : List Char → Prop
  | semicolon {blank : List Char} (all : Blank blank) : Ending (blank ++ [';'])
  | implied {blank : List Char} (all : Blank blank) : Ending blank

/-- A trait use may end with a block, too. -/
inductive Tail : List Char → Prop
  | ending {tail : List Char} (ends : Ending tail) : Tail tail
  | block {blank : List Char} (all : Blank blank) (rest : List Char) : Tail (blank ++ '\x7b' :: rest)

/-- The keyword is cut off a statement. -/
theorem strip_use (cs : List Char) :
    (Text.strip? "use" (Text.trim (.ofList ("use".toList ++ cs)))).getD
      (Text.trim (.ofList ("use".toList ++ cs))) = .ofList (Text.dropEndWhile isBlank cs) := by
  have trimmed : trimChars ("use".toList ++ cs) = "use".toList ++ Text.dropEndWhile isBlank cs :=
    Text.dropEndWhile_append_cons (c := 'e') (by decide) ['u', 's'] cs
  have rest : Text.strip? "use" (.ofList ("use".toList ++ Text.dropEndWhile isBlank cs)) =
      some (.ofList (Text.dropEndWhile isBlank cs)) := by
    rw [Text.strip?_eq_some_iff, String.ofList_append, String.ofList_toList]
  rw [Text.trim_ofList, trimmed, rest, Option.getD_some]

namespace Ending

variable {tail : List Char} (ends : Ending tail)

include ends

theorem prepend {blank : List Char} (first : Blank blank) : Ending (blank ++ tail) := by
  cases ends with
  | semicolon all =>
      rw [← List.append_assoc]
      exact .semicolon (first.append all)
  | implied all => exact .implied (first.append all)

theorem not_mem {c : Char} (ink : isBlank c = false) (other : c ≠ ';') : c ∉ tail := by
  cases ends with
  | semicolon all =>
      rw [List.mem_append, List.mem_singleton, not_or]
      exact ⟨all.not_mem ink, other⟩
  | implied all => exact all.not_mem ink

/-- The end is cut off a text in which there is no semicolon. -/
theorem cut (front : List Char) {core : List Char} (inked : Inked core) (plain : ';' ∉ front ++ core) :
    ∃ blank, Blank blank ∧
      Text.dropEndWhile (· == ';') (Text.dropEndWhile isBlank (front ++ core ++ tail)) =
        front ++ core ++ blank := by
  have stays {cs : List Char} (free : ';' ∉ cs) : Text.dropEndWhile (· == ';') cs = cs := by
    refine Text.dropEndWhile_eq_self_of_forall fun c inside => ?_
    rw [beq_eq_false_iff_ne]
    rintro rfl
    exact free inside
  cases ends with
  | @semicolon blank all =>
      have free : ';' ∉ front ++ core ++ blank := by
        rw [List.mem_append, not_or]
        exact ⟨plain, all.not_mem (by decide)⟩
      refine ⟨blank, all, ?_⟩
      rw [← List.append_assoc, Text.dropEndWhile_concat_of_neg (by decide),
        Text.dropEndWhile_concat_of_pos (by decide), stays free]
  | implied all =>
      refine ⟨[], Blank.nil, ?_⟩
      rw [Text.dropEndWhile_blank all, inked.dropEndWhile_append, stays plain, List.append_nil]

end Ending

/-- The part of a trait use in which its names stand. -/
def namesText (rest : String) : String :=
  match Text.cut? '\x7b' rest with
  | some (before, _) => before
  | none => Text.dropEnd ';' (Text.trimEnd rest)

theorem namesText_block {front : List Char} (free : '\x7b' ∉ front) (rest : List Char) :
    namesText (.ofList (front ++ '\x7b' :: rest)) = .ofList front := by
  have cut : Text.cut? '\x7b' (.ofList (front ++ '\x7b' :: rest)) =
      some (.ofList front, .ofList rest) := by
    rw [Text.cut?, String.toList_ofList, Text.splitFirst?_eq_some_iff.2 ⟨rfl, free⟩, Option.map_some]
  simp only [namesText, cut]

theorem namesText_of_not_mem {cs : List Char} (free : '\x7b' ∉ cs) :
    namesText (.ofList cs) =
      .ofList (Text.dropEndWhile (· == ';') (Text.dropEndWhile isBlank cs)) := by
  have cut : Text.cut? '\x7b' (.ofList cs) = none := by
    rwa [Text.cut?_eq_none_iff, String.toList_ofList]
  simp only [namesText, cut, Text.dropEnd, Text.trimEnd, String.toList_ofList]

/-- A block of rules changes none of the names. -/
theorem map_name_traitUses (text : String) :
    (traitUses text).map TraitUse.name =
      (((Text.split ',' (namesText ((Text.strip? "use" (Text.trim text)).getD (Text.trim text)))).map
        Text.trim).filter (!·.isEmpty)) := by
  unfold traitUses namesText
  extract_lets trimmed rest
  have named (names : List String) :
      (names.map fun name => TraitUse.mk name none).map TraitUse.name = names := by
    rw [List.map_map]
    exact List.map_id _
  cases Text.cut? '\x7b' rest with
  | none => exact named _
  | some parts =>
      simp only
      split
      · rename_i last block found
        obtain ⟨front, whole⟩ := List.getLast?_eq_some_iff.1 found
        refine Eq.trans ?_ (named _)
        rw [whole]
        simp
      · exact named _

/-- **Trait uses.** Every name of the list is read. -/
theorem traitUses_names {list tail : List Char} {names : List (List Char)}
    (listed : Listed list names) (good : ∀ name ∈ names, Text.Listed.Part name)
    (plain : ∀ name ∈ names, ';' ∉ name ∧ '\x7b' ∉ name) (ends : Tail tail) :
    (traitUses (.ofList ("use".toList ++ (list ++ tail)))).map TraitUse.name =
      names.map String.ofList := by
  have braceless : '\x7b' ∉ list :=
    listed.not_mem (by decide) (by decide) fun name inside => (plain name inside).2
  have unended : ';' ∉ list :=
    listed.not_mem (by decide) (by decide) fun name inside => (plain name inside).1
  have open' : isBlank '\x7b' = false := by decide
  -- The text of the names is the list again, up to blanks behind it.
  have names' : ∃ cs, namesText (.ofList (Text.dropEndWhile isBlank (list ++ tail))) = .ofList cs ∧
      Listed cs names := by
    cases ends with
    | ending ends =>
        obtain ⟨before, core, after, rfl, first, last, inked, here⟩ :=
          listed.exists_core fun name inside => (good name inside).inked
        obtain ⟨blank, all, cut⟩ := (ends.prepend last).cut before inked fun inside =>
          unended (List.mem_append_left _ inside)
        have free : '\x7b' ∉ Text.dropEndWhile isBlank (before ++ core ++ after ++ tail) := by
          intro inside
          rcases List.mem_append.1 (Text.mem_of_mem_dropEndWhile inside) with here | there
          · exact braceless here
          · exact ends.not_mem open' (by decide) there
        refine ⟨before ++ core ++ blank, ?_, (here.prepend_blank first).append_blank all⟩
        rw [namesText_of_not_mem free, Text.dropEndWhile_dropEndWhile, ← cut]
        simp only [List.append_assoc]
    | @block blank all rest =>
        have kept : Text.dropEndWhile isBlank (list ++ (blank ++ '\x7b' :: rest)) =
            list ++ blank ++ '\x7b' :: Text.dropEndWhile isBlank rest := by
          rw [← List.append_assoc]
          exact Text.dropEndWhile_append_cons open' _ _
        have free : '\x7b' ∉ list ++ blank := by
          rw [List.mem_append, not_or]
          exact ⟨braceless, all.not_mem open'⟩
        refine ⟨list ++ blank, ?_, listed.append_blank all⟩
        rw [kept, namesText_block free]
  obtain ⟨cs, text, here⟩ := names'
  rw [map_name_traitUses, strip_use, text, here.map_trim_split good, List.filter_eq_self]
  intro name inside
  obtain ⟨chars, member, rfl⟩ := List.mem_map.1 inside
  simpa using (good chars member).inked.ne_nil

/-! ## Imports -/

/-- The kind that a word after `use` stands for. -/
def kindOf? (word : String) : Option ImportKind :=
  if Text.sameIgnoringCase word "function" then some .function
  else if Text.sameIgnoringCase word "const" then some .constant
  else none

/-- What is imported under a name, perhaps one of a group, and an alias. -/
def written (kind : ImportKind) (group : Option String) (name : String) (local? : Option String) :
    Import :=
  let full := match group with
    | some outer => Name.join outer name
    | none => Name.normalize name
  { Import.aliased full (local?.getD (Name.short full)) with kind }

/-- The parts of a clause of an import. -/
structure ClauseParts where
  kind : Option ImportKind
  name : String
  alias_ : Option String
  deriving DecidableEq, Repr

namespace ClauseParts

/-- The words of a clause after its kind: a name, and perhaps `as` and an alias. -/
inductive Target (parts : ClauseParts) : List (List Char) → Prop
  | plain (unaliased : parts.alias_ = none) : Target parts [parts.name.toList]
  | renamed {word : List Char} {localName : String} (aliased : parts.alias_ = some localName)
      (isAs : Text.sameIgnoringCase (.ofList word) "as" = true) :
      Target parts [parts.name.toList, word, localName.toList]

theorem Target.exists_cons {parts : ClauseParts} {words : List (List Char)}
    (target : parts.Target words) : ∃ more, words = parts.name.toList :: more := by
  cases target with
  | plain _ => exact ⟨_, rfl⟩
  | renamed _ _ => exact ⟨_, rfl⟩

/-- The words of a clause. A name that would be taken for a kind needs one before it. -/
inductive Spelled (parts : ClauseParts) : List (List Char) → Prop
  | bare {words : List (List Char)} (unkinded : parts.kind = none) (other : kindOf? parts.name = none)
      (target : parts.Target words) : Spelled parts words
  | kind {word : List Char} {words : List (List Char)} {kind : ImportKind}
      (kinded : parts.kind = some kind) (means : kindOf? (.ofList word) = some kind)
      (target : parts.Target words) : Spelled parts (word :: words)

end ClauseParts

/-- **One clause.** -/
theorem read?_of_target {clause : ImportClause} {parts : ClauseParts} {words : List (List Char)}
    (target : parts.Target words) (read : Text.wordsFrom isBlank [] clause.text.toList = words) :
    clause.read? = some (written clause.kind clause.group parts.name parts.alias_) := by
  cases target with
  | plain unaliased =>
      cases group : clause.group <;>
        simp only [ImportClause.read?, Text.words, read, List.map_cons, List.map_nil,
          String.ofList_toList, written, unaliased, Option.getD_none, group]
  | renamed aliased isAs =>
      cases group : clause.group <;>
        simp only [ImportClause.read?, Text.words, read, List.map_cons, List.map_nil,
          String.ofList_toList, written, aliased, isAs, if_true, Option.getD_some, group]

theorem filterMap_eq_map {α β γ : Type} {f : α → Option γ} {g : β → γ} {xs : List α} {ys : List β}
    (related : List.Forall₂ (fun x y => f x = some (g y)) xs ys) : xs.filterMap f = ys.map g := by
  induction related with
  | nil => rfl
  | cons first _ ih => rw [List.filterMap_cons_some first, ih, List.map_cons]

/-- The pieces of a list, each of them spelled like the part it stands for. -/
theorem pieces_spelled {α : Type} {list : List Char} {texts : List (List Char)}
    (listed : Listed list texts) (good : ∀ text ∈ texts, Text.Listed.Part text) {parts : List α}
    {spells : List Char → α → Prop} (spelled : List.Forall₂ spells texts parts) :
    List.Forall₂ (fun piece part => spells (trimChars piece.toList) part)
      (Text.split ',' (.ofList list)) parts := by
  rw [← listed.split good, List.forall₂_map_left_iff] at spelled
  simpa [Text.split] using spelled

/-- The words of a clause without its kind stand in the text. -/
def Targets (text : List Char) (parts : ClauseParts) : Prop :=
  ∃ words, parts.Target words ∧ Text.Spaced words text

/-- The words of a clause stand in the text. -/
def Spells (text : List Char) (parts : ClauseParts) : Prop :=
  ∃ words, parts.Spelled words ∧ Text.Spaced words text

/-- The clauses of a list, all of one kind. -/
theorem read_targets {list : List Char} {texts : List (List Char)} (listed : Listed list texts)
    (good : ∀ text ∈ texts, Text.Listed.Part text) {clauses : List ClauseParts}
    (targets : List.Forall₂ Targets texts clauses) (kind : ImportKind) (group : Option String) :
    ((Text.split ',' (.ofList list)).map fun clause => ⟨kind, group, clause⟩).filterMap
        ImportClause.read? =
      clauses.map fun clause => written kind group clause.name clause.alias_ := by
  rw [List.filterMap_map]
  refine filterMap_eq_map ((pieces_spelled listed good targets).imp fun piece clause spelled => ?_)
  obtain ⟨words, target, spaced⟩ := spelled
  exact read?_of_target target spaced.wordsFrom_of_trimChars

/-! ### Kinds -/

/-- A word with a mark in it is no keyword. -/
theorem kindOf?_of_mem {word : List Char} {c : Char} (inside : c ∈ word)
    (noLetter : c ∈ [',', '\\', '\x7b']) : kindOf? (.ofList word) = none := by
  have other : ∀ keyword ∈ ["function", "const"],
      Text.sameIgnoringCase (.ofList word) keyword = false := by
    intro keyword listed
    rw [Bool.eq_false_iff, ne_eq, Text.sameIgnoringCase_iff]
    intro same
    have there : c.toLower ∈ (Text.lower keyword).toList := by
      rw [← same, Text.toList_lower, String.toList_ofList]
      exact List.mem_map_of_mem inside
    revert there
    simp only [List.mem_cons, List.not_mem_nil, or_false] at listed noLetter
    rcases listed with rfl | rfl <;> rcases noLetter with rfl | rfl | rfl <;> decide
  simp [kindOf?, other]

theorem splitKind_eq (cs : List Char) (default_ : ImportKind) :
    splitKind (.ofList cs) default_ =
      match cs.dropWhile (!isBlank ·), kindOf? (.ofList (cs.takeWhile (!isBlank ·))) with
      | _ :: rest, some kind => (kind, Text.trim (.ofList rest))
      | _, _ => (default_, .ofList cs) := by
  rw [splitKind, String.toList_ofList, kindOf?]
  cases cs.dropWhile (!isBlank ·) with
  | nil => rfl
  | cons c rest =>
      by_cases function : Text.sameIgnoringCase (.ofList (cs.takeWhile (!isBlank ·))) "function"
      · simp [function]
      · by_cases const : Text.sameIgnoringCase (.ofList (cs.takeWhile (!isBlank ·))) "const"
        · simp [function, const]
        · simp [function, const]

theorem takeWhile_word {word : List Char} (plain : ∀ c ∈ word, isBlank c = false)
    (rest : List Char) :
    (word ++ rest).takeWhile (!isBlank ·) = word ++ rest.takeWhile (!isBlank ·) ∧
      (word ++ rest).dropWhile (!isBlank ·) = rest.dropWhile (!isBlank ·) := by
  have keep : ∀ c ∈ word, (!isBlank c) = true := fun c inside => by simp [plain c inside]
  exact ⟨List.takeWhile_append_of_pos keep, List.dropWhile_append_of_pos keep⟩

/-- A kind is split off a text with its blanks. -/
theorem splitKind_of_kind {word blank rest : List Char} {kind : ImportKind}
    (plain : ∀ c ∈ word, isBlank c = false) (means : kindOf? (.ofList word) = some kind)
    (all : Blank blank) (apart : blank ≠ []) (inked : Inked rest) (default_ : ImportKind) :
    splitKind (.ofList (word ++ blank ++ rest)) default_ = (kind, .ofList rest) := by
  obtain ⟨c, blanks, rfl⟩ := List.exists_cons_of_ne_nil apart
  obtain ⟨space, later⟩ := List.forall_mem_cons.1 all
  obtain ⟨front, back⟩ := takeWhile_word plain (c :: (blanks ++ rest))
  have takes : (c :: (blanks ++ rest)).takeWhile (!isBlank ·) = [] := by simp [space]
  have drops : (c :: (blanks ++ rest)).dropWhile (!isBlank ·) = c :: (blanks ++ rest) := by
    simp [space]
  have trimmed : trimChars (blanks ++ rest) = rest := by
    have both := inked.trimChars later Blank.nil
    rwa [List.append_nil] at both
  rw [List.append_assoc, List.cons_append, splitKind_eq, front, back, takes, drops,
    List.append_nil, means]
  simp only [Text.trim_ofList, trimmed]

/-- A text that begins with another word is left as it is. -/
theorem splitKind_of_name {word rest : List Char} (plain : ∀ c ∈ word, isBlank c = false)
    (other : kindOf? (.ofList word) = none)
    (ends : ∀ c ∈ rest.head?, isBlank c = true ∨ c ∈ [',', '\\', '\x7b'])
    (default_ : ImportKind) :
    splitKind (.ofList (word ++ rest)) default_ = (default_, .ofList (word ++ rest)) := by
  obtain ⟨front, -⟩ := takeWhile_word plain rest
  have unknown : kindOf? (.ofList ((word ++ rest).takeWhile (!isBlank ·))) = none := by
    rw [front]
    cases rest with
    | nil => simpa using other
    | cons c rest =>
        rcases ends c rfl with blank | mark
        · have takes : (c :: rest).takeWhile (!isBlank ·) = [] := by simp [blank]
          rwa [takes, List.append_nil]
        · have ink : isBlank c = false := by
            simp only [List.mem_cons, List.not_mem_nil, or_false] at mark
            rcases mark with rfl | rfl | rfl <;> decide
          have takes : c ∈ (c :: rest).takeWhile (!isBlank ·) := by simp [ink]
          exact kindOf?_of_mem (List.mem_append_right _ takes) mark
  rw [splitKind_eq, unknown]
  cases (word ++ rest).dropWhile (!isBlank ·) with
  | nil => rfl
  | cons c rest => rfl

/-! ### Statements -/

/-- The clauses of a statement, all of one kind up to exceptions in a group. -/
def clausesOf (kind : ImportKind) (text : String) : List ImportClause :=
  match Text.cut? '\x7b' text with
  | some (before, after) =>
    (Text.split ',' (stripBraces ("\x7b" ++ after))).map fun clause =>
      let (kind, clause) := splitKind (Text.trim clause) kind
      ⟨kind, some (Text.dropEnd Name.separator (Text.trim before)), clause⟩
  | none => (Text.split ',' text).map fun clause => ⟨kind, none, clause⟩

/-- The clauses of a statement are read from what stands between its keyword and its end. -/
theorem importClauses_eq {blank core tail : List Char} (first : Blank blank) (inked : Inked core)
    (plain : ';' ∉ core) (ends : Ending tail) :
    importClauses (.ofList ("use".toList ++ (blank ++ core ++ tail))) =
      clausesOf (splitKind (.ofList core) .type).1 (splitKind (.ofList core) .type).2 := by
  obtain ⟨blank', all, cut⟩ := ends.cut [] inked plain
  rw [List.nil_append] at cut
  have trimmed : trimChars (Text.dropEndWhile isBlank (blank ++ core ++ tail)) =
      Text.dropEndWhile isBlank (core ++ tail) := by
    obtain ⟨rest, kept⟩ := inked.exists_dropEndWhile tail
    rw [List.append_assoc, inked.dropEndWhile_prepend, trimChars, Text.dropWhile_blank first, kept,
      inked.dropWhile_append, ← kept, Text.dropEndWhile_dropEndWhile]
  have body : Text.trim (Text.dropEnd ';' (Text.trim
      (.ofList (Text.dropEndWhile isBlank (blank ++ core ++ tail))))) = .ofList core := by
    have whole := inked.trimChars Blank.nil all
    rw [List.nil_append] at whole
    rw [Text.trim_ofList, trimmed, Text.dropEnd, String.toList_ofList, cut, Text.trim_ofList, whole]
  unfold importClauses clausesOf
  cases block : Text.cut? '\x7b' (splitKind (.ofList core) .type).2 <;>
    simp only [strip_use, body, block]

theorem targets_of_spells {texts : List (List Char)} {clauses : List ClauseParts}
    (spells : List.Forall₂ Spells texts clauses) (kinds : ∀ other ∈ clauses, other.kind = none) :
    List.Forall₂ Targets texts clauses := by
  induction spells with
  | nil => exact .nil
  | @cons text clause texts clauses first _ ih =>
      obtain ⟨unkinded, later⟩ := List.forall_mem_cons.1 kinds
      obtain ⟨words, spelled, spaced⟩ := first
      cases spelled with
      | bare _ _ target => exact .cons ⟨words, target, spaced⟩ (ih later)
      | kind kinded _ _ =>
          rw [unkinded] at kinded
          cases kinded

/-- The word of a kind is cut off with the blanks behind it, and the rest is a list of clauses
without it. -/
theorem exists_listed {core : List Char} {texts : List (List Char)} (inked : Inked core)
    (listed : Listed core texts) (good : ∀ text ∈ texts, Text.Listed.Part text) {clause : ClauseParts}
    {clauses : List ClauseParts} (spells : List.Forall₂ Spells texts (clause :: clauses))
    (kinds : ∀ other ∈ clauses, other.kind = none) :
    ∃ rest texts', splitKind (.ofList core) .type = (clause.kind.getD .type, .ofList rest) ∧
      Listed rest texts' ∧ (∀ text ∈ texts', Text.Listed.Part text) ∧
      List.Forall₂ Targets texts' (clause :: clauses) ∧ rest ⊆ core := by
  cases spells with
  | @cons text _ texts _ first others =>
      obtain ⟨words, spelled, spaced⟩ := first
      obtain ⟨before, rest, rfl, blank, head, grow⟩ := listed.uncons
      rw [List.append_assoc] at inked
      obtain rfl := inked.eq_nil_of_blank blank
      rw [List.nil_append] at inked ⊢
      have others' := targets_of_spells others kinds
      cases spelled with
      | bare unkinded other target =>
          refine ⟨text ++ rest, text :: texts, ?_, grow text, good,
            .cons ⟨words, target, spaced⟩ others', List.Subset.refl _⟩
          obtain ⟨more, rfl⟩ := target.exists_cons
          obtain ⟨behind, rfl, plain, ends⟩ := spaced.exists_head
          rw [unkinded, List.append_assoc]
          refine splitKind_of_name plain (by rwa [String.ofList_toList]) (fun c next => ?_) .type
          cases behind with
          | nil => exact (head c next).imp_right fun comma => by simp [comma]
          | cons d behind =>
              cases next
              exact .inl (ends _ rfl)
      | @kind word words kind kinded means target =>
          obtain ⟨more, rfl⟩ := target.exists_cons
          obtain ⟨blank, behind, rfl, plain, all, apart, spaced'⟩ := spaced.exists_tail
          rw [List.append_assoc] at inked
          have inked' := inked.of_append spaced'.inked
          obtain ⟨here, later⟩ := List.forall_mem_cons.1 good
          refine ⟨behind ++ rest, behind :: texts, ?_, grow behind, ?_,
            .cons ⟨_, target, spaced'⟩ others', fun c inside => by simp_all⟩
          · rw [kinded, List.append_assoc]
            exact splitKind_of_kind plain means all apart inked' .type
          · refine List.forall_mem_cons.2 ⟨⟨spaced'.inked, fun comma => ?_⟩, later⟩
            exact here.comma (List.mem_append_right _ comma)

/-- **A list of imports.** Every clause of the list is read, of the kind that stands before it. -/
theorem imports_listed {list tail : List Char} {texts : List (List Char)}
    (listed : Listed list texts) (good : ∀ text ∈ texts, Text.Listed.Part text)
    (plain : ∀ text ∈ texts, ';' ∉ text ∧ '\x7b' ∉ text) (ends : Ending tail)
    {clause : ClauseParts} {clauses : List ClauseParts}
    (spells : List.Forall₂ Spells texts (clause :: clauses))
    (kinds : ∀ other ∈ clauses, other.kind = none) :
    imports (.ofList ("use".toList ++ (list ++ tail))) =
      (clause :: clauses).map fun one =>
        written (clause.kind.getD .type) none one.name one.alias_ := by
  have braceless : '\x7b' ∉ list :=
    listed.not_mem (by decide) (by decide) fun name inside => (plain name inside).2
  have unended : ';' ∉ list :=
    listed.not_mem (by decide) (by decide) fun name inside => (plain name inside).1
  obtain ⟨before, core, after, rfl, first, last, inked, here⟩ :=
    listed.exists_core fun name inside => (good name inside).inked
  obtain ⟨rest, texts', cut, listed', good', targets, inside⟩ :=
    exists_listed inked here good spells kinds
  have plain' : ';' ∉ core := fun there =>
    unended (List.mem_append_left _ (List.mem_append_right _ there))
  have open' : Text.cut? '\x7b' (.ofList rest) = none := by
    rw [Text.cut?_eq_none_iff, String.toList_ofList]
    exact fun there => braceless (List.mem_append_left _ (List.mem_append_right _ (inside there)))
  have text : before ++ core ++ after ++ tail = before ++ core ++ (after ++ tail) :=
    List.append_assoc ..
  rw [imports, text, importClauses_eq first inked plain' (ends.prepend last), cut, clausesOf]
  simp only [open']
  exact read_targets listed' good' targets _ none

/-! ### Groups -/

/-- **A clause of a group**, of its own kind or of that of the group. -/
theorem read?_of_spells {text : List Char} {clause : ClauseParts} (spells : Spells text clause)
    (kind : ImportKind) (group : Option String) :
    ImportClause.read? ⟨(splitKind (.ofList text) kind).1, group, (splitKind (.ofList text) kind).2⟩ =
      some (written (clause.kind.getD kind) group clause.name clause.alias_) := by
  obtain ⟨words, spelled, spaced⟩ := spells
  cases spelled with
  | bare unkinded other target =>
      obtain ⟨more, rfl⟩ := target.exists_cons
      obtain ⟨rest, rfl, plain, ends⟩ := spaced.exists_head
      rw [splitKind_of_name plain (by rwa [String.ofList_toList]) (fun c next => .inl (ends c next)),
        unkinded]
      have read := spaced.wordsFrom_append Blank.nil
      exact read?_of_target target (by simpa only [List.append_nil, String.toList_ofList] using read)
  | @kind word words own kinded means target =>
      obtain ⟨more, rfl⟩ := target.exists_cons
      obtain ⟨blank, rest, rfl, plain, all, apart, spaced'⟩ := spaced.exists_tail
      rw [splitKind_of_kind plain means all apart spaced'.inked, kinded]
      have read := spaced'.wordsFrom_append Blank.nil
      exact read?_of_target target (by simpa only [List.append_nil, String.toList_ofList] using read)

theorem stripBraces_block (inner : List Char) :
    stripBraces ("\x7b" ++ .ofList (inner ++ ['\x7d'])) = .ofList inner := by
  have text : "\x7b" ++ String.ofList (inner ++ ['\x7d']) =
      .ofList ('\x7b' :: inner ++ ['\x7d']) := by
    apply String.toList_injective
    simp
  have trimmed : trimChars ('\x7b' :: inner ++ ['\x7d']) = '\x7b' :: inner ++ ['\x7d'] := by
    have open' : ¬ isBlank '\x7b' = true := by decide
    rw [trimChars, List.cons_append, List.dropWhile_cons_of_neg open', ← List.cons_append,
      Text.dropEndWhile_concat_of_neg (by decide)]
  have first : Text.strip? "\x7b" (.ofList ('\x7b' :: inner ++ ['\x7d'])) =
      some (.ofList (inner ++ ['\x7d'])) := by
    rw [Text.strip?_eq_some_iff, ← text]
  have last : Text.stripEnd? "\x7d" (.ofList (inner ++ ['\x7d'])) = some (.ofList inner) := by
    simp [Text.stripEnd?, Text.stripSuffix?, Text.stripPrefix?]
  rw [stripBraces, text, Text.trim_ofList, trimmed, first, Option.bind_some, last, Option.getD_some]

/-- Blanks behind the name of a group do not matter. -/
theorem written_group (kind : ImportKind) {group blank : List Char} (inked : Inked group)
    (all : Blank blank) (name : String) (local? : Option String) :
    written kind (some (.ofList (group ++ blank))) name local? =
      written kind (some (.ofList group)) name local? := by
  have trimmed : trimChars (group ++ blank) = trimChars group := by
    rw [inked.trimChars_self]
    simpa using inked.trimChars Blank.nil all
  have same : Name.normalize (.ofList (group ++ blank)) = Name.normalize (.ofList group) := by
    rw [Name.normalize, Name.normalize, Text.trim_ofList, Text.trim_ofList, trimmed]
  simp only [written, Name.join, same]

/-- The name that the clauses of a group share. -/
structure GroupName (group : List Char) : Prop where
  plain : ∀ c ∈ group, isBlank c = false ∧ c ≠ '\x7b' ∧ c ≠ ';'
  nonempty : group ≠ []
  ends : group.getLast? ≠ some '\\'

namespace GroupName

variable {group : List Char} (name : GroupName group)

include name

theorem inked : Inked group := .of_forall (fun c inside => (name.plain c inside).1) name.nonempty

/-- The separator behind the name is cut off, and blanks may be left. -/
theorem dropEnd_separator {gap gap' : List Char} (first : Blank gap) (last : Blank gap') :
    ∃ blank, Blank blank ∧
      Text.dropEnd Name.separator (Text.trim (.ofList (group ++ gap ++ '\\' :: gap'))) =
        .ofList (group ++ blank) := by
  have trimmed : trimChars (group ++ gap ++ '\\' :: gap') = group ++ gap ++ ['\\'] := by
    have mark : isBlank '\\' = false := by decide
    have whole : Inked (group ++ gap ++ ['\\']) := name.inked.append (.singleton mark) gap
    simpa using whole.trimChars Blank.nil last
  rw [Text.trim_ofList, trimmed, Text.dropEnd, String.toList_ofList,
    Text.dropEndWhile_concat_of_pos (by decide)]
  refine ⟨gap, first, ?_⟩
  congr 1
  obtain rfl | ⟨gap, c, rfl⟩ := gap.eq_nil_or_concat
  · obtain ⟨front, c, rfl⟩ := group.eq_nil_or_concat.resolve_left name.nonempty
    have other : (c == Name.separator) = false := by
      have ends := name.ends
      simpa [Name.separator] using ends
    rw [List.append_nil, List.concat_eq_append]
    refine Text.dropEndWhile_concat_of_neg ?_ _
    exact other
  · rw [List.concat_eq_append, ← List.append_assoc]
    have space : isBlank c = true := first c (by simp)
    refine Text.dropEndWhile_concat_of_neg ?_ _
    rw [beq_eq_false_iff_ne]
    rintro rfl
    exact absurd space (by decide)

end GroupName

/-- The text of a group behind the word of its kind. -/
def groupText (group gap gap' list : List Char) : List Char :=
  group ++ gap ++ '\\' :: gap' ++ '\x7b' :: (list ++ ['\x7d'])

/-- The clauses of a group are read, each of its own kind or of that of the group. -/
theorem read_group {group gap gap' list : List Char} (name : GroupName group) (first : Blank gap)
    (last : Blank gap') {texts : List (List Char)} (listed : Listed list texts)
    (good : ∀ text ∈ texts, Text.Listed.Part text) {clauses : List ClauseParts}
    (spells : List.Forall₂ Spells texts clauses) (kind : ImportKind) :
    (clausesOf kind (.ofList (groupText group gap gap' list))).filterMap ImportClause.read? =
      clauses.map fun one =>
        written (one.kind.getD kind) (some (.ofList group)) one.name one.alias_ := by
  obtain ⟨blank, all, before⟩ := name.dropEnd_separator first last
  have absent : '\x7b' ∉ group ++ gap ++ '\\' :: gap' := by
    have open' : isBlank '\x7b' = false := by decide
    simp only [List.mem_append, List.mem_cons, not_or]
    exact ⟨⟨fun inside => (name.plain _ inside).2.1 rfl, first.not_mem open'⟩, by decide,
      last.not_mem open'⟩
  have cut : Text.cut? '\x7b' (.ofList (groupText group gap gap' list)) =
      some (.ofList (group ++ gap ++ '\\' :: gap'), .ofList (list ++ ['\x7d'])) := by
    rw [Text.cut?, String.toList_ofList, groupText,
      Text.splitFirst?_eq_some_iff.2 ⟨rfl, absent⟩, Option.map_some]
  unfold clausesOf
  simp only [cut, stripBraces_block, before, List.filterMap_map]
  refine filterMap_eq_map ((pieces_spelled listed good spells).imp fun piece clause spelled => ?_)
  have read := read?_of_spells spelled kind (some (.ofList (group ++ blank)))
  rw [written_group _ name.inked all] at read
  rw [Function.comp_apply, Text.trim]
  exact read

/-- What may stand before the name of a group: nothing, or the word of a kind and blanks. -/
inductive Lead (group : List Char) : Option ImportKind → List Char → Prop
  | bare (other : kindOf? (.ofList group) = none) : Lead group none []
  | kind {word blank : List Char} {kind : ImportKind}
      (plain : ∀ c ∈ word, isBlank c = false ∧ c ≠ ';')
      (means : kindOf? (.ofList word) = some kind) (all : Blank blank) (apart : blank ≠ []) :
      Lead group (some kind) (word ++ blank)

/-- The word of a kind is cut off a group. -/
theorem splitKind_group {group gap gap' list lead : List Char} (name : GroupName group)
    (first : Blank gap) {kind : Option ImportKind} (leads : Lead group kind lead) :
    splitKind (.ofList (lead ++ groupText group gap gap' list)) .type =
      (kind.getD .type, .ofList (groupText group gap gap' list)) := by
  have text : groupText group gap gap' list =
      group ++ (gap ++ '\\' :: (gap' ++ '\x7b' :: (list ++ ['\x7d']))) := by simp [groupText]
  cases leads with
  | bare other =>
      rw [List.nil_append, text]
      refine splitKind_of_name (fun c inside => (name.plain c inside).1) other (fun c next => ?_) _
      cases gap with
      | nil =>
          cases next
          exact .inr (by simp)
      | cons d gap =>
          cases next
          exact .inl (first _ List.mem_cons_self)
  | kind plain means all apart =>
      have inked : Inked (groupText group gap gap' list) := by
        have brace : Inked ['\x7d'] := .singleton (by decide)
        have whole := name.inked.append brace (gap ++ '\\' :: gap' ++ '\x7b' :: list)
        simpa [groupText] using whole
      exact splitKind_of_kind (fun c inside => (plain c inside).1) means all apart inked _

/-- **A group of imports.** Every clause of the group is read, of its own kind or of that of the
group. -/
theorem imports_grouped {blank lead group gap gap' list tail : List Char} (before : Blank blank)
    (name : GroupName group) {kind : Option ImportKind} (leads : Lead group kind lead)
    (first : Blank gap) (last : Blank gap') {texts : List (List Char)} (listed : Listed list texts)
    (good : ∀ text ∈ texts, Text.Listed.Part text) (plain : ∀ text ∈ texts, ';' ∉ text)
    {clauses : List ClauseParts} (spells : List.Forall₂ Spells texts clauses) (ends : Ending tail) :
    imports (.ofList ("use".toList ++
        (blank ++ (lead ++ groupText group gap gap' list) ++ tail))) =
      clauses.map fun one =>
        written (one.kind.getD (kind.getD .type)) (some (.ofList group)) one.name one.alias_ := by
  have semicolon : isBlank ';' = false := by decide
  have inked : Inked (lead ++ groupText group gap gap' list) := by
    have brace : Inked ['\x7d'] := .singleton (by decide)
    cases leads with
    | bare _ =>
        have whole := name.inked.append brace (gap ++ '\\' :: gap' ++ '\x7b' :: list)
        simpa [groupText] using whole
    | @kind word blank _ plain means _ _ =>
        have nonempty : word ≠ [] := by
          rintro rfl
          cases means
        have word' : Inked word := .of_forall (fun c inside => (plain c inside).1) nonempty
        have whole := word'.append brace
          (blank ++ group ++ gap ++ '\\' :: gap' ++ '\x7b' :: list)
        simpa [groupText] using whole
  have unended : ';' ∉ lead ++ groupText group gap gap' list := by
    have list' : ';' ∉ list := listed.not_mem semicolon (by decide) plain
    have lead' : ';' ∉ lead := by
      cases leads with
      | bare _ => exact List.not_mem_nil
      | kind plain _ all _ =>
          rw [List.mem_append, not_or]
          exact ⟨fun inside => (plain _ inside).2 rfl, all.not_mem semicolon⟩
    simp only [groupText, List.mem_append, List.mem_cons, not_or]
    exact ⟨lead', ⟨⟨⟨fun inside => (name.plain _ inside).2.2 rfl, first.not_mem semicolon⟩,
      by decide, last.not_mem semicolon⟩, by decide, list', by decide, List.not_mem_nil⟩⟩
  rw [imports, importClauses_eq before inked unended ends, splitKind_group name first leads]
  exact read_group name first last listed good spells _

end Declaration

end Emend

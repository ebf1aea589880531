import Emend.Proofs.Resolution
import Emend.Proofs.Text.Words
import Emend.Source.Declaration
import Emend.Source.Printer
import Mathlib.Data.List.Forall2

/-!
# Type headers are read as they are printed

The header of a type is printed as its modifiers, its keyword, its name, and up to two clauses with
names that are shortened for the scope. It is read word by word, and a comma is a word of its own
(`headerWords_header`). A name in a clause is taken for what it is as long as it does not open a
clause itself (`headerClauses_names`), and however a name is shortened, what is written of it is
such a word (`shorten_isReference`). So the clauses are read as the spellings that were printed
(`header?_header`), and resolved in the same scope these mean the names they were printed for.
-/

set_option autoImplicit false

namespace Emend

namespace Declaration

/-- A word that a type header keeps whole: it has no blank and no comma. -/
structure IsHeaderWord (s : String) : Prop where
  isWord : Text.IsWord s
  noComma : ',' ∉ s.toList

instance (s : String) : Decidable (IsHeaderWord s) :=
  decidable_of_iff (Text.IsWord s ∧ ',' ∉ s.toList) ⟨fun ⟨a, b⟩ => ⟨a, b⟩, fun ⟨a, b⟩ => ⟨a, b⟩⟩

def Clause.keyword : Clause → String
  | .extends_ => "extends"
  | .implements_ => "implements"

def clauseKeywords : List String := ["extends", "implements"]

structure IsReference (s : String) : Prop extends IsHeaderWord s where
  noClause : Text.lower s ∉ clauseKeywords

/-- A word before the keyword of a type: in lower case, and not the keyword. -/
structure IsModifier (kind : TypeKind) (s : String) : Prop extends IsHeaderWord s where
  lower : Text.lower s = s
  noKeyword : s ≠ kind.keyword

instance (kind : TypeKind) (s : String) : Decidable (IsModifier kind s) :=
  decidable_of_iff (IsHeaderWord s ∧ Text.lower s = s ∧ s ≠ kind.keyword)
    ⟨fun ⟨a, b, c⟩ => ⟨a, b, c⟩, fun ⟨a, b, c⟩ => ⟨a, b, c⟩⟩

/-- The words of a type header; a comma is a word of its own. -/
def headerWords (header : String) : List String :=
  Text.words (Text.replaceChar ',' " , " header)

/-! ## Words -/

theorem headerWords_space (a b : String) :
    headerWords (a ++ " " ++ b) = headerWords a ++ headerWords b := by
  have spaced : Text.replaceChar ',' " , " (a ++ " " ++ b) =
      Text.replaceChar ',' " , " a ++ " " ++ Text.replaceChar ',' " , " b := by
    apply String.toList_inj.1
    simp [Text.replaceChar]
  rw [headerWords, spaced, Text.words_space, ← headerWords, ← headerWords]

theorem headerWords_comma (a b : String) :
    headerWords (a ++ ", " ++ b) = headerWords a ++ "," :: headerWords b := by
  have spaced : Text.replaceChar ',' " , " (a ++ ", " ++ b) =
      Text.replaceChar ',' " , " a ++ " " ++ ("," ++ " " ++ ("" ++ " " ++
        Text.replaceChar ',' " , " b)) := by
    apply String.toList_inj.1
    simp [Text.replaceChar]
  have comma : Text.words "," = [","] := by decide
  have empty : Text.words "" = [] := by decide
  rw [headerWords, spaced, Text.words_space, Text.words_space, Text.words_space, comma, empty,
    ← headerWords, ← headerWords, List.nil_append, List.singleton_append]

theorem headerWords_of_isHeaderWord {s : String} (plain : IsHeaderWord s) :
    headerWords s = [s] := by
  have same : Text.replaceChar ',' " , " s = s := by
    have each : ∀ c ∈ s.toList, (if c = ',' then " , ".toList else [c]) = [c] := by
      intro c inside
      exact if_neg fun comma : c = ',' => plain.noComma (comma ▸ inside)
    rw [Text.replaceChar, List.flatMap_congr each, List.flatMap_singleton', String.ofList_toList]
  rw [headerWords, same, Text.words_of_word plain.isWord]

theorem headerWords_intercalate {parts : List String} :
    headerWords (" ".intercalate parts) = parts.flatMap headerWords := by
  induction parts with
  | nil => decide
  | cons part parts ih =>
      cases parts with
      | nil => simp
      | cons next parts =>
          rw [String.intercalate_cons_cons, headerWords_space, ih, List.flatMap_cons,
            List.flatMap_cons, List.flatMap_cons]

theorem headerWords_list {names : List String} (plain : ∀ n ∈ names, IsHeaderWord n) :
    headerWords (", ".intercalate names) = names.intersperse "," := by
  induction names with
  | nil => decide
  | cons name names ih =>
      obtain ⟨first, others⟩ := List.forall_mem_cons.1 plain
      cases names with
      | nil => simp [headerWords_of_isHeaderWord first]
      | cons next names =>
          rw [String.intercalate_cons_cons, headerWords_comma, headerWords_of_isHeaderWord first,
            ih others]
          rfl

/-! ## Clauses -/

namespace Clause

def words (clause : Clause) (names : List String) : List String :=
  if names.isEmpty then [] else clause.keyword :: names.intersperse ","

def add (clause : Clause) (decl : TypeDecl) (names : List String) : TypeDecl :=
  match clause with
  | .extends_ => { decl with bases := decl.bases ++ names }
  | .implements_ => { decl with interfaces := decl.interfaces ++ names }

end Clause

theorem headerClauses_reference {clause : Clause} {decl : TypeDecl} {word : String}
    (reference : IsReference word) (rest : List String) :
    headerClauses (some clause) decl (word :: rest) =
      headerClauses (some clause) (clause.add decl [word]) rest := by
  have other : ∀ keyword ∈ clauseKeywords, ¬ Text.sameIgnoringCase word keyword = true := by
    intro keyword listed same
    have lower : ∀ keyword ∈ clauseKeywords, Text.lower keyword = keyword := by decide
    rw [Text.sameIgnoringCase_iff, lower keyword listed] at same
    exact reference.noClause (same ▸ listed)
  have noComma : (word == ",") = false := by
    rw [beq_eq_false_iff_ne]
    rintro rfl
    exact reference.noComma (by decide)
  rw [headerClauses.eq_def]
  dsimp only
  rw [if_neg (other "extends" (by decide)), if_neg (other "implements" (by decide)), noComma,
    if_neg Bool.false_ne_true]
  cases clause with
  | extends_ => rfl
  | implements_ => rfl

theorem headerClauses_comma (clause : Option Clause) (decl : TypeDecl) (rest : List String) :
    headerClauses clause decl ("," :: rest) = headerClauses clause decl rest := by
  rw [headerClauses.eq_def]
  dsimp only
  rw [if_neg (by decide), if_neg (by decide), if_pos (by decide)]

theorem headerClauses_keyword (clause : Clause) (before : Option Clause) (decl : TypeDecl)
    (rest : List String) :
    headerClauses before decl (clause.keyword :: rest) = headerClauses (some clause) decl rest := by
  rw [headerClauses.eq_def]
  dsimp only
  cases clause with
  | extends_ => rw [if_pos (by decide)]
  | implements_ => rw [if_neg (by decide), if_pos (by decide)]

/-- The names of a clause are put in one after the other. -/
theorem headerClauses_names {clause : Clause} {names : List String}
    (references : ∀ n ∈ names, IsReference n) (decl : TypeDecl) (rest : List String) :
    headerClauses (some clause) decl (names.intersperse "," ++ rest) =
      headerClauses (some clause) (clause.add decl names) rest := by
  induction names generalizing decl with
  | nil => cases clause <;> simp [Clause.add]
  | cons name names ih =>
      obtain ⟨first, others⟩ := List.forall_mem_cons.1 references
      cases names with
      | nil => exact headerClauses_reference first rest
      | cons next names =>
          have added : clause.add (clause.add decl [name]) (next :: names) =
              clause.add decl (name :: next :: names) := by
            cases clause <;> simp [Clause.add]
          rw [List.intersperse_cons_cons, List.cons_append, List.cons_append,
            headerClauses_reference first, headerClauses_comma, ih others, added]

theorem headerClauses_clause {clause : Clause} {names : List String}
    (references : ∀ n ∈ names, IsReference n) (before : Option Clause) (decl : TypeDecl)
    (rest : List String) :
    ∃ after, headerClauses before decl (clause.words names ++ rest) =
      headerClauses after (clause.add decl names) rest := by
  cases names with
  | nil => exact ⟨before, by cases clause <;> simp [Clause.words, Clause.add]⟩
  | cons name names =>
      refine ⟨some clause, ?_⟩
      rw [Clause.words, if_neg (by simp), List.cons_append, headerClauses_keyword,
        headerClauses_names references]

/-- A header is read from its words: the modifiers before the keyword, the name, and the clauses. -/
theorem header?_of_words {kind : TypeKind} {header name : String} {modifiers clauses : List String}
    (words : headerWords header = modifiers ++ kind.keyword :: name :: clauses)
    (modified : ∀ m ∈ modifiers, IsModifier kind m) :
    header? kind header =
      headerClauses none { TypeDecl.ofName kind name with modifiers } clauses := by
  have keyword : (!Text.sameIgnoringCase kind.keyword kind.keyword) = false := by
    rw [Text.sameIgnoringCase, beq_self_eq_true]
    rfl
  have other : ∀ m ∈ modifiers, (!Text.sameIgnoringCase m kind.keyword) = true := by
    intro m inside
    have lower : Text.lower kind.keyword = kind.keyword := by cases kind <;> decide
    rw [Bool.not_eq_true', Bool.eq_false_iff, ne_eq, Text.sameIgnoringCase_iff,
      (modified m inside).lower, lower]
    exact (modified m inside).noKeyword
  have front : (headerWords header).takeWhile (!Text.sameIgnoringCase · kind.keyword) =
      modifiers := by
    rw [words, List.takeWhile_append_of_pos other, List.takeWhile_cons_of_neg (by simp [keyword]),
      List.append_nil]
  have rest : (headerWords header).dropWhile (!Text.sameIgnoringCase · kind.keyword) =
      kind.keyword :: name :: clauses := by
    rw [words, List.dropWhile_append_of_pos other, List.dropWhile_cons_of_neg (by simp [keyword])]
  have lowered : modifiers.map Text.lower = modifiers := by
    rw [List.map_congr_left fun m inside => (modified m inside).lower, List.map_id']
  rw [headerWords] at front rest
  simp only [header?, front, rest, lowered]

end Declaration

/-! ## What is printed -/

namespace Printer

variable {scope : Scope} {decl : TypeDecl}

theorem headerWords_clause (scope : Scope) (clause : Declaration.Clause) {names : List String}
    (plain : ∀ n ∈ names, Declaration.IsHeaderWord (scope.shorten n)) :
    (if names.isEmpty then [] else [clause.keyword ++ " " ++ nameList scope names]).flatMap
        Declaration.headerWords = clause.words (names.map scope.shorten) := by
  cases names with
  | nil => rfl
  | cons name names =>
      have keyword : Declaration.headerWords clause.keyword = [clause.keyword] := by
        cases clause <;> decide
      have written : ∀ n ∈ (name :: names).map scope.shorten, Declaration.IsHeaderWord n := by
        intro n inside
        obtain ⟨own, listed, rfl⟩ := List.mem_map.1 inside
        exact plain own listed
      rw [if_neg (by simp), List.flatMap_singleton, Declaration.headerWords_space, keyword,
        nameList, Declaration.headerWords_list written, Declaration.Clause.words, if_neg (by simp)]
      rfl

/-- **The words of a printed header.** -/
theorem headerWords_header (modifiers : ∀ m ∈ decl.modifiers, Declaration.IsHeaderWord m)
    (name : Declaration.IsHeaderWord decl.name)
    (names : ∀ n ∈ decl.bases ++ decl.interfaces, Declaration.IsHeaderWord (scope.shorten n)) :
    Declaration.headerWords (header scope decl) =
      decl.modifiers ++ decl.kind.keyword :: decl.name ::
        (Declaration.Clause.extends_.words (decl.bases.map scope.shorten) ++
          Declaration.Clause.implements_.words (decl.interfaces.map scope.shorten)) := by
  have front : decl.modifiers.flatMap Declaration.headerWords = decl.modifiers := by
    rw [List.flatMap_congr fun m inside =>
      Declaration.headerWords_of_isHeaderWord (modifiers m inside), List.flatMap_singleton']
  have keyword : Declaration.headerWords decl.kind.keyword = [decl.kind.keyword] := by
    cases decl.kind <;> decide
  have bases := headerWords_clause scope .extends_ fun n inside =>
    names n (List.mem_append_left decl.interfaces inside)
  have interfaces := headerWords_clause scope .implements_ fun n inside =>
    names n (List.mem_append_right decl.bases inside)
  rw [header, Declaration.headerWords_intercalate, List.flatMap_append, List.flatMap_append,
    List.flatMap_append, front, List.flatMap_cons, List.flatMap_singleton, keyword,
    Declaration.headerWords_of_isHeaderWord name, ← bases, ← interfaces]
  have opened : ∀ text : String, "extends " ++ text =
      Declaration.Clause.extends_.keyword ++ " " ++ text := fun text =>
    String.toList_inj.1 (by simp [Declaration.Clause.keyword])
  have opened' : ∀ text : String, "implements " ++ text =
      Declaration.Clause.implements_.keyword ++ " " ++ text := fun text =>
    String.toList_inj.1 (by simp [Declaration.Clause.keyword])
  simp only [opened, opened', List.append_assoc, List.cons_append, List.nil_append]

end Printer

/-! ## How names are written -/

namespace Name

/-- A name that a clause can list: there is no comma in it, and its last segment opens no clause. -/
structure IsListable (name : String) : Prop where
  noComma : ',' ∉ name.toList
  noClause : Text.lower (short name) ∉ Declaration.clauseKeywords

instance (name : String) : Decidable (IsListable name) :=
  decidable_of_iff (',' ∉ name.toList ∧ Text.lower (short name) ∉ Declaration.clauseKeywords)
    ⟨fun ⟨a, b⟩ => ⟨a, b⟩, fun ⟨a, b⟩ => ⟨a, b⟩⟩

variable {name : String}

theorem WellFormed.isWord (wf : WellFormed name) : Text.IsWord name := ⟨wf.ne_empty, wf.no_blank⟩

/-- A word with a separator in it opens no clause. -/
theorem isReference_of_separator (plain : Declaration.IsHeaderWord name)
    (several : separator ∈ name.toList) : Declaration.IsReference name := by
  refine ⟨plain, fun listed => ?_⟩
  have single : ∀ keyword ∈ Declaration.clauseKeywords, separator ∉ keyword.toList := by decide
  refine single _ listed ?_
  rw [Text.toList_lower, List.mem_map]
  exact ⟨separator, several, (toLower_eq_separator_iff _).2 rfl⟩

theorem isReference_short (wf : WellFormed name) (listable : IsListable name) :
    Declaration.IsReference (short name) := by
  refine ⟨⟨wf.short.isWord, fun inside => listable.noComma ?_⟩, listable.noClause⟩
  rcases wf.parts.2.2 with ⟨-, whole⟩ | ⟨-, -, whole⟩
  · rwa [whole] at inside
  · rw [whole, String.toList_append]
    exact List.mem_append_right _ inside

/-- A name in full is taken for a name. -/
theorem isReference_of_wellFormed (wf : WellFormed name) (listable : IsListable name) :
    Declaration.IsReference name := by
  rcases wf.parts.2.2 with ⟨-, whole⟩ | ⟨-, -, whole⟩
  · rw [← whole]
    exact isReference_short wf listable
  · refine isReference_of_separator ⟨wf.isWord, listable.noComma⟩ ?_
    rw [whole]
    simp [toList_separator]

end Name

namespace Scope

variable {scope : Scope} {name : String}

/-- **However a name is written**, it is taken for a name. -/
theorem shorten_isReference (regular : scope.Regular)
    (aliases : ∀ i ∈ scope.imports.values, i.kind = .type → Name.IsListable i.localName)
    (wf : Name.WellFormed name) (listable : Name.IsListable name) :
    Declaration.IsReference (scope.shorten name) := by
  rcases shorten_cases scope wf with
    ⟨-, written⟩ | ⟨i, listed, isType, -, written⟩ | ⟨-, -, -, written⟩ |
    ⟨i, listed, isType, rest, below, written⟩ | written
  · rw [written]
    exact Name.isReference_of_wellFormed wf listable
  · rw [written]
    exact Name.isReference_of_wellFormed (regular.aliases i listed).wellFormed
      (aliases i listed isType)
  · rw [written]
    exact Name.isReference_short wf listable
  -- below an import the separator tells the name from a keyword, whatever its last segment is
  · have parts := wf
    rw [below, Name.wellFormed_append_iff] at parts
    have whole : Name.WellFormed (i.localName ++ "\\" ++ rest) :=
      Name.wellFormed_append_iff.2 ⟨(regular.aliases i listed).wellFormed, parts.2⟩
    have noComma : ',' ∉ (i.localName ++ "\\" ++ rest).toList := by
      have own := (aliases i listed isType).noComma
      have inside := listable.noComma
      rw [below] at inside
      simp only [String.toList_append, List.mem_append, not_or] at inside ⊢
      exact ⟨⟨own, inside.1.2⟩, inside.2⟩
    rw [written]
    exact Name.isReference_of_separator ⟨whole.isWord, noComma⟩ (by simp [Name.toList_separator])
  · have isWord : Text.IsWord ("\\" ++ name) := by
      refine ⟨by simp, fun c inside => ?_⟩
      rw [String.toList_append, Name.toList_separator, List.singleton_append,
        List.mem_cons] at inside
      rcases inside with rfl | inside
      · decide
      · exact wf.no_blank c inside
    have noComma : ',' ∉ ("\\" ++ name).toList := by
      rw [String.toList_append, Name.toList_separator, List.singleton_append, List.mem_cons, not_or]
      exact ⟨by decide, listable.noComma⟩
    rw [written]
    exact Name.isReference_of_separator ⟨isWord, noComma⟩ (by simp [Name.toList_separator])

end Scope

namespace Printer

/-! ## Reading what is printed -/

/-- **A header is read as it is printed**, with the names as they are written in the scope. -/
theorem header?_header {scope : Scope} {decl : TypeDecl}
    (modifiers : ∀ m ∈ decl.modifiers, Declaration.IsModifier decl.kind m)
    (name : Declaration.IsHeaderWord decl.name)
    (names : ∀ n ∈ decl.bases ++ decl.interfaces, Declaration.IsReference (scope.shorten n)) :
    Declaration.header? decl.kind (header scope decl) =
      some { TypeDecl.ofName decl.kind decl.name with
        modifiers := decl.modifiers
        bases := decl.bases.map scope.shorten
        interfaces := decl.interfaces.map scope.shorten } := by
  have words := headerWords_header (fun m inside => (modifiers m inside).toIsHeaderWord) name
    fun n inside => (names n inside).toIsHeaderWord
  have written : ∀ {own : List String}, own ⊆ decl.bases ++ decl.interfaces →
      ∀ n ∈ own.map scope.shorten, Declaration.IsReference n := by
    intro own part n inside
    obtain ⟨n, listed, rfl⟩ := List.mem_map.1 inside
    exact names n (part listed)
  have bases := written (List.subset_append_left decl.bases decl.interfaces)
  have interfaces := written (List.subset_append_right decl.bases decl.interfaces)
  -- a clause without names leaves the clause before it open, so what is open is not said
  obtain ⟨between, first⟩ := Declaration.headerClauses_clause bases none
    { TypeDecl.ofName decl.kind decl.name with modifiers := decl.modifiers }
    (Declaration.Clause.implements_.words (decl.interfaces.map scope.shorten))
  obtain ⟨after, second⟩ := Declaration.headerClauses_clause interfaces between
    (Declaration.Clause.extends_.add
      { TypeDecl.ofName decl.kind decl.name with modifiers := decl.modifiers }
      (decl.bases.map scope.shorten)) []
  rw [List.append_nil] at second
  rw [Declaration.header?_of_words words modifiers, first, second]
  rw [Declaration.headerClauses.eq_def]
  rfl

/-- Names that are written and read again in one scope are the same up to case, and in order. -/
theorem resolve_written {scope : Scope} (regular : scope.Regular) {names : List String}
    (targets : ∀ n ∈ names, Name.IsTarget n) :
    List.Forall₂ (Text.sameIgnoringCase · · = true)
      ((names.map scope.shorten).map scope.resolve) names := by
  rw [List.map_map, List.forall₂_map_left_iff, List.forall₂_same]
  intro n inside
  rw [Function.comp_apply, Text.sameIgnoringCase_iff]
  rcases Scope.resolve_shorten_cases regular (targets n inside) with read | ⟨i, -, -, same, read⟩
  · rw [read]
  · rw [read, same]

/-- **Type headers are read as they are printed**: the header of a type is read as a type of the
same kind, modifiers and name, and with its references resolved this type has the same bases and
interfaces, in order and up to case. -/
theorem header_round_trip {scope : Scope} {decl : TypeDecl} (regular : scope.Regular)
    (aliases : ∀ i ∈ scope.imports.values, i.kind = .type → Name.IsListable i.localName)
    (modifiers : ∀ m ∈ decl.modifiers, Declaration.IsModifier decl.kind m)
    (name : Declaration.IsHeaderWord decl.name)
    (names : ∀ n ∈ decl.bases ++ decl.interfaces, Name.IsTarget n ∧ Name.IsListable n) :
    ∃ read, Declaration.header? decl.kind (header scope decl) = some read ∧
      read.kind = decl.kind ∧ read.modifiers = decl.modifiers ∧ read.name = decl.name ∧
      List.Forall₂ (Text.sameIgnoringCase · · = true) (read.resolveReferences scope).bases
        decl.bases ∧
      List.Forall₂ (Text.sameIgnoringCase · · = true) (read.resolveReferences scope).interfaces
        decl.interfaces := by
  refine ⟨_, header?_header modifiers name fun n inside => ?_, rfl, rfl, rfl, ?_, ?_⟩
  · exact Scope.shorten_isReference regular aliases (names n inside).1.wellFormed (names n inside).2
  · exact resolve_written regular fun n inside => (names n (List.mem_append_left _ inside)).1
  · exact resolve_written regular fun n inside => (names n (List.mem_append_right _ inside)).1

namespace Example

/-- A namespace with an alias for a class, and an import that others lie below. -/
def mixed : Scope :=
  ⟨"App", .ofList [("Base", ⟨"Vendor\\Model", "Base", .type⟩),
    ("Rel", ⟨"Vendor\\Relations", "Rel", .type⟩)]⟩

/-- A class with names of all kinds: one under an alias in another case, one of the namespace, one
below an import and one of none of these. -/
def post : TypeDecl :=
  { TypeDecl.ofName .class "Post" with
    modifiers := ["abstract", "final"]
    bases := ["vendor\\model"]
    interfaces := ["App\\Local", "Vendor\\Relations\\Many", "Countable"] }

/-- The header of the class is read, and each name is found again. -/
theorem header_round_trip_mixed :
    (mixed.Regular ∧ (∀ i ∈ mixed.imports.values, i.kind = .type → Name.IsListable i.localName) ∧
      (∀ m ∈ post.modifiers, Declaration.IsModifier post.kind m) ∧
      Declaration.IsHeaderWord post.name ∧
      ∀ n ∈ post.bases ++ post.interfaces, Name.IsTarget n ∧ Name.IsListable n) ∧
    header mixed post =
      "abstract final class Post extends Base implements Local, Rel\\Many, \\Countable" ∧
    ∃ read, Declaration.header? .class (header mixed post) = some read ∧
      read.modifiers = ["abstract", "final"] ∧ read.name = "Post" ∧
      List.Forall₂ (Text.sameIgnoringCase · · = true) (read.resolveReferences mixed).interfaces
        post.interfaces := by
  have regular : mixed.Regular := ⟨Or.inr (by decide), by decide, by decide⟩
  have aliases : ∀ i ∈ mixed.imports.values, i.kind = .type → Name.IsListable i.localName := by
    decide
  have modifiers : ∀ m ∈ post.modifiers, Declaration.IsModifier post.kind m := by decide
  have name : Declaration.IsHeaderWord post.name := by decide
  have names : ∀ n ∈ post.bases ++ post.interfaces, Name.IsTarget n ∧ Name.IsListable n := by
    decide
  obtain ⟨read, found, -, modified, named, -, interfaces⟩ :=
    header_round_trip regular aliases modifiers name names
  exact ⟨⟨regular, aliases, modifiers, name, names⟩, by decide, read, found, modified, named,
    interfaces⟩

end Example

end Printer

end Emend

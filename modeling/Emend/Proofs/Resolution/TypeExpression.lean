import Emend.Proofs.Edit.Capture
import Mathlib.Data.List.Chain

/-!
# Type expressions are read back

`Name.mapType` reads a type expression once, character by character, with the name read so
far in hand. Said in two steps, it takes the expression apart (`typeParts`), changes the
names and writes the parts one behind the other (`mapType_eq`). A second pass finds the
same parts again (`typeParts_mapType`) if

* what the first pass wrote for a name is again a word of name characters, and
* no two names of the expression stand next to each other once the blanks between them are
  gone (`NamesApart`).

So two passes are one pass with the two changes (`mapType_mapType`). Shortening writes a
word for every name, in a scope whose aliases are words, and resolving it gives the name
back up to case: `typeExpression_round_trip`.
-/

set_option autoImplicit false

namespace Emend

namespace Name

/-- A part of a type expression: a name, or one character of punctuation. -/
inductive TypePart where
  | name (word : String)
  | mark (c : Char)
  deriving DecidableEq

/-- A name that stands in a type expression as one name: it holds something, and nothing
but name characters. -/
def IsTypeWord (word : String) : Prop :=
  word ≠ "" ∧ ∀ c ∈ word.toList, isTypeNameChar c = true

instance (word : String) : Decidable (IsTypeWord word) :=
  decidable_of_iff (word ≠ "" ∧ word.toList.all isTypeNameChar = true)
    (and_congr_right' List.all_eq_true)

namespace TypePart

def chars : TypePart → List Char
  | name word => word.toList
  | mark c => [c]

def isName : TypePart → Bool
  | name _ => true
  | mark _ => false

def onName (f : String → String) : TypePart → TypePart
  | name word => name (f word)
  | mark c => mark c

/-- A part as it can be read: punctuation is neither blank nor part of a name. -/
def Legible : TypePart → Prop
  | name word => IsTypeWord word
  | mark c => isTypeNameChar c = false ∧ Text.isBlank c = false

def Same : TypePart → TypePart → Prop
  | name a, name b => Text.sameIgnoringCase a b = true
  | mark a, mark b => a = b
  | _, _ => False

/-- Two parts that can stand next to each other without becoming one name. -/
def Apart (a b : TypePart) : Prop := ¬ (a.isName = true ∧ b.isName = true)

instance (a b : TypePart) : Decidable (Apart a b) := inferInstanceAs (Decidable (¬ _))

end TypePart

/-- The name that was read, if anything was. -/
def typeWord (word : List Char) : List TypePart :=
  if word.isEmpty then [] else [.name (.ofList word)]

/-- The parts of a type expression without its blanks; `current` is the name read so far. -/
def typePartsFrom (current : List Char) : List Char → List TypePart
  | [] => typeWord current
  | c :: cs =>
    if isTypeNameChar c then typePartsFrom (current ++ [c]) cs
    else typeWord current ++ (if Text.isBlank c then [] else [.mark c]) ++ typePartsFrom [] cs

def typeParts (expr : String) : List TypePart := typePartsFrom [] expr.toList

/-- Between two names stands something that is no blank: two name characters with nothing
but blanks between them are next to each other. -/
def NamesApart (expr : String) : Prop :=
  ∀ before gap after c d, expr.toList = before ++ c :: (gap ++ d :: after) →
    isTypeNameChar c = true → isTypeNameChar d = true →
      (∀ b ∈ gap, Text.isBlank b = true) → gap = []

def withoutBlanks (expr : String) : String :=
  .ofList (expr.toList.filter fun c => !Text.isBlank c)

/-! ## Name characters -/

/-- A blank is no name character. -/
theorem isTypeNameChar_of_isBlank {c : Char} (blank : Text.isBlank c = true) :
    isTypeNameChar c = false := by
  have listed : c.toNat ∈ List.range' 9 5 ++ List.range' 0x2000 11 ++
      [0x20, 0x85, 0xA0, 0x1680, 0x2028, 0x2029, 0x202F, 0x205F, 0x3000] := by
    simp only [Text.isBlank, Bool.or_eq_true, Bool.and_eq_true, decide_eq_true_eq,
      beq_iff_eq] at blank
    simp only [List.mem_append, List.mem_range'_1, List.mem_cons, List.not_mem_nil, or_false]
    omega
  have each : ∀ n ∈ List.range' 9 5 ++ List.range' 0x2000 11 ++
      [0x20, 0x85, 0xA0, 0x1680, 0x2028, 0x2029, 0x202F, 0x205F, 0x3000],
      isTypeNameChar (Char.ofNat n) = false := by decide +kernel
  have here := each c.toNat listed
  rwa [Char.ofNat_toNat] at here

theorem isBlank_of_isTypeNameChar {c : Char} (inName : isTypeNameChar c = true) :
    Text.isBlank c = false := by
  rw [Bool.eq_false_iff]
  intro blank
  rw [isTypeNameChar_of_isBlank blank] at inName
  cases inName

/-- Case does not decide what is a name character. -/
theorem isTypeNameChar_toLower (c : Char) : isTypeNameChar c.toLower = isTypeNameChar c := by
  rcases Text.toLower_cases c with same | ⟨low, high, folded⟩
  · rw [same]
  · have upper : ∀ n ∈ List.range' 65 26, isTypeNameChar (Char.ofNat n) = true ∧
        isTypeNameChar (Char.ofNat (n + 32)) = true := by decide +kernel
    have listed : c.toNat ∈ List.range' 65 26 := by
      rw [List.mem_range'_1]
      omega
    have both := upper c.toNat listed
    rw [← folded, Char.ofNat_toNat, Char.ofNat_toNat] at both
    rw [both.1, both.2]

theorem IsTypeWord.congr {a b : String} (word : IsTypeWord b)
    (same : Text.lower a = Text.lower b) : IsTypeWord a := by
  have folded : a.toList.map Char.toLower = b.toList.map Char.toLower := by
    rw [← Text.toList_lower, ← Text.toList_lower, same]
  constructor
  · rintro rfl
    have empty : b.toList = [] := List.map_eq_nil_iff.1 folded.symm
    exact word.1 (String.toList_eq_nil_iff.1 empty)
  · intro c inside
    have listed : c.toLower ∈ b.toList.map Char.toLower := by
      rw [← folded]
      exact List.mem_map_of_mem inside
    obtain ⟨d, there, same⟩ := List.mem_map.1 listed
    rw [← isTypeNameChar_toLower, ← same, isTypeNameChar_toLower]
    exact word.2 d there

/-! ## One pass -/

theorem typeWord_nil : typeWord [] = [] := rfl

theorem typeWord_of_ne_nil {word : List Char} (nonempty : word ≠ []) :
    typeWord word = [.name (.ofList word)] := by
  rw [typeWord, if_neg (by simpa using nonempty)]

/-- `mapType` changes the names among the parts and leaves out the blanks. -/
theorem mapTypeFrom_eq (f : String → String) (current cs : List Char) :
    mapTypeFrom f current cs =
      ((typePartsFrom current cs).map (TypePart.onName f)).flatMap TypePart.chars := by
  have word : ∀ read : List Char, (if read.isEmpty then [] else (f (.ofList read)).toList) =
      ((typeWord read).map (TypePart.onName f)).flatMap TypePart.chars := by
    intro read
    cases read with
    | nil => rfl
    | cons c cs => simp [typeWord, TypePart.onName, TypePart.chars]
  induction cs generalizing current with
  | nil => exact word current
  | cons c cs ih =>
      by_cases inName : isTypeNameChar c = true
      · rw [mapTypeFrom, typePartsFrom, if_pos inName, if_pos inName, ih]
      · rw [mapTypeFrom, typePartsFrom, if_neg inName, if_neg inName, ih, word]
        cases blank : Text.isBlank c <;> simp [TypePart.onName, TypePart.chars]

theorem mapType_eq (f : String → String) (expr : String) :
    mapType f expr =
      .ofList (((typeParts expr).map (TypePart.onName f)).flatMap TypePart.chars) := by
  rw [mapType, mapTypeFrom_eq, typeParts]

/-- The names among the parts are the names of the expression. -/
theorem mem_typeNamesFrom (current cs : List Char) (word : String) :
    word ∈ typeNamesFrom current cs ↔ TypePart.name word ∈ typePartsFrom current cs := by
  have here : ∀ read : List Char,
      word ∈ (if read.isEmpty then [] else [String.ofList read]) ↔ .name word ∈ typeWord read := by
    intro read
    cases read <;> simp [typeWord]
  induction cs generalizing current with
  | nil => exact here current
  | cons c cs ih =>
      by_cases inName : isTypeNameChar c = true
      · rw [typeNamesFrom, typePartsFrom, if_pos inName, if_pos inName]
        exact ih _
      · rw [typeNamesFrom, typePartsFrom, if_neg inName, if_neg inName, List.mem_append,
          List.mem_append, List.mem_append, here current]
        cases blank : Text.isBlank c <;> simp [ih []]

theorem mem_typeNames {expr word : String} :
    word ∈ typeNames expr ↔ .name word ∈ typeParts expr :=
  mem_typeNamesFrom [] expr.toList word

/-- What was read is all that is no blank. -/
theorem chars_typePartsFrom (current cs : List Char) :
    (typePartsFrom current cs).flatMap TypePart.chars =
      current ++ cs.filter fun c => !Text.isBlank c := by
  have word : ∀ read : List Char, (typeWord read).flatMap TypePart.chars = read := by
    intro read
    cases read <;> simp [typeWord, TypePart.chars]
  induction cs generalizing current with
  | nil => simp [typePartsFrom, word]
  | cons c cs ih =>
      by_cases inName : isTypeNameChar c = true
      · rw [typePartsFrom, if_pos inName, ih]
        simp [isBlank_of_isTypeNameChar inName]
      · rw [typePartsFrom, if_neg inName, List.flatMap_append, List.flatMap_append, word, ih]
        cases blank : Text.isBlank c <;> simp [blank, TypePart.chars]

theorem withoutBlanks_eq (expr : String) :
    withoutBlanks expr = .ofList ((typeParts expr).flatMap TypePart.chars) := by
  rw [typeParts, chars_typePartsFrom, List.nil_append, withoutBlanks]

/-- Parts are read as they can be read again. -/
theorem legible_of_mem {current cs : List Char}
    (read : ∀ c ∈ current, isTypeNameChar c = true) {part : TypePart}
    (listed : part ∈ typePartsFrom current cs) : part.Legible := by
  have word : ∀ {current : List Char}, (∀ c ∈ current, isTypeNameChar c = true) →
      part ∈ typeWord current → part.Legible := by
    intro current read listed
    cases current with
    | nil => cases listed
    | cons c cs =>
        rw [typeWord_of_ne_nil (List.cons_ne_nil c cs), List.mem_singleton] at listed
        subst listed
        refine ⟨by simp, ?_⟩
        rw [String.toList_ofList]
        exact read
  induction cs generalizing current with
  | nil => exact word read listed
  | cons c cs ih =>
      rw [typePartsFrom] at listed
      split at listed
      · rename_i inName
        exact ih (List.forall_mem_append.2 ⟨read, List.forall_mem_singleton.2 inName⟩) listed
      · rename_i outside
        rcases List.mem_append.1 listed with front | later
        · rcases List.mem_append.1 front with before | here
          · exact word read before
          · split at here
            · cases here
            · rename_i plain
              rw [List.mem_singleton.1 here]
              exact ⟨Bool.eq_false_iff.2 outside, Bool.eq_false_iff.2 plain⟩
        · exact ih (by simp) later

/-! ## A second pass -/

/-- Name characters go on with the name that is being read. -/
theorem typePartsFrom_append {word : List Char} (inName : ∀ c ∈ word, isTypeNameChar c = true)
    (current rest : List Char) :
    typePartsFrom current (word ++ rest) = typePartsFrom (current ++ word) rest := by
  induction word generalizing current with
  | nil => rw [List.nil_append, List.append_nil]
  | cons c word ih =>
      obtain ⟨first, others⟩ := List.forall_mem_cons.1 inName
      rw [List.cons_append, typePartsFrom, if_pos first, ih others, List.append_assoc,
        List.singleton_append]

/-- Any other character ends it. -/
theorem typePartsFrom_cons {c : Char} (outside : isTypeNameChar c = false)
    (current rest : List Char) :
    typePartsFrom current (c :: rest) = typeWord current ++ typePartsFrom [] (c :: rest) := by
  have stop : ¬ isTypeNameChar c = true := by simp [outside]
  rw [typePartsFrom, typePartsFrom, if_neg stop, if_neg stop, typeWord_nil, List.nil_append,
    List.append_assoc]

theorem typePartsFrom_mark {c : Char} (legible : (TypePart.mark c).Legible) (rest : List Char) :
    typePartsFrom [] (c :: rest) = .mark c :: typePartsFrom [] rest := by
  have stop : ¬ isTypeNameChar c = true := by simp [legible.1]
  rw [typePartsFrom, if_neg stop, legible.2]
  rfl

/-- Blanks between names are passed over. -/
theorem typePartsFrom_blanks {gap : List Char} (blanks : ∀ b ∈ gap, Text.isBlank b = true)
    (rest : List Char) : typePartsFrom [] (gap ++ rest) = typePartsFrom [] rest := by
  induction gap with
  | nil => rfl
  | cons b gap ih =>
      obtain ⟨blank, blanks⟩ := List.forall_mem_cons.1 blanks
      have stop : ¬ isTypeNameChar b = true := by simp [isTypeNameChar_of_isBlank blank]
      rw [List.cons_append, typePartsFrom, if_neg stop, if_pos blank, ih blanks]
      rfl

/-- With something read, the first part is a name. -/
theorem exists_typePartsFrom_name {read : List Char} (nonempty : read ≠ []) (rest : List Char) :
    ∃ word parts, typePartsFrom read rest = .name word :: parts := by
  induction rest generalizing read with
  | nil => exact ⟨_, [], typeWord_of_ne_nil nonempty⟩
  | cons c rest ih =>
      by_cases inName : isTypeNameChar c = true
      · rw [typePartsFrom, if_pos inName]
        exact ih (by simp)
      · rw [typePartsFrom_cons (by simpa using inName), typeWord_of_ne_nil nonempty]
        exact ⟨_, _, rfl⟩

/-- **What is written is read**: parts of which no two names are next to each other. -/
theorem typePartsFrom_chars {parts : List TypePart} (legible : ∀ part ∈ parts, part.Legible)
    (apart : parts.IsChain TypePart.Apart) :
    typePartsFrom [] (parts.flatMap TypePart.chars) = parts := by
  induction parts with
  | nil => rfl
  | cons part parts ih =>
      obtain ⟨first, others⟩ := List.forall_mem_cons.1 legible
      have rest := ih others apart.of_cons
      rw [List.flatMap_cons]
      cases part with
      | mark c =>
          show typePartsFrom [] (c :: parts.flatMap TypePart.chars) = _
          rw [typePartsFrom_mark first, rest]
      | name word =>
          have nonempty : word.toList ≠ [] := fun empty => first.1 (String.toList_eq_nil_iff.1 empty)
          show typePartsFrom [] (word.toList ++ parts.flatMap TypePart.chars) = _
          rw [typePartsFrom_append first.2, List.nil_append]
          have ended : typePartsFrom word.toList (parts.flatMap TypePart.chars) =
              typeWord word.toList ++ typePartsFrom [] (parts.flatMap TypePart.chars) := by
            cases parts with
            | nil => simp [typePartsFrom, typeWord_nil]
            | cons next parts =>
                cases next with
                | mark c => exact typePartsFrom_cons (List.forall_mem_cons.1 others).1.1 _ _
                | name other => exact absurd ⟨rfl, rfl⟩ (List.isChain_cons_cons.1 apart).1
          rw [ended, rest, typeWord_of_ne_nil nonempty, String.ofList_toList, List.singleton_append]

/-! ## Names that stand apart -/

/-- An expression whose first part is a name begins with it, after blanks. -/
theorem exists_of_head?_name {cs : List Char} {word : String}
    (first : (typePartsFrom [] cs).head? = some (.name word)) :
    ∃ gap d after, cs = gap ++ d :: after ∧ isTypeNameChar d = true ∧
      ∀ b ∈ gap, Text.isBlank b = true := by
  induction cs with
  | nil => cases first
  | cons c cs ih =>
      by_cases inName : isTypeNameChar c = true
      · exact ⟨[], c, cs, rfl, inName, by simp⟩
      · cases blank : Text.isBlank c with
        | false =>
            rw [typePartsFrom_mark ⟨by simpa using inName, blank⟩] at first
            cases first
        | true =>
            rw [typePartsFrom, if_neg inName, blank] at first
            obtain ⟨gap, d, after, rfl, there, blanks⟩ := ih first
            exact ⟨c :: gap, d, after, rfl, there, List.forall_mem_cons.2 ⟨blank, blanks⟩⟩

/-- Reading goes on behind a character that is no part of a name: what was read before it
and what is read behind it can stand together. -/
theorem isChain_typePartsFrom {current cs : List Char}
    (apart : ∀ before gap after c d, current ++ cs = before ++ c :: (gap ++ d :: after) →
      isTypeNameChar c = true → isTypeNameChar d = true →
        (∀ b ∈ gap, Text.isBlank b = true) → gap = [])
    (read : ∀ c ∈ current, isTypeNameChar c = true) :
    (typePartsFrom current cs).IsChain TypePart.Apart := by
  have word : ∀ read : List Char, (typeWord read).IsChain TypePart.Apart := by
    intro read
    cases read <;> simp [typeWord]
  induction cs generalizing current with
  | nil => exact word current
  | cons c cs ih =>
      by_cases inName : isTypeNameChar c = true
      · rw [typePartsFrom, if_pos inName]
        refine ih ?_ (List.forall_mem_append.2 ⟨read, List.forall_mem_singleton.2 inName⟩)
        rw [List.append_assoc]
        exact apart
      · have rest : (typePartsFrom [] cs).IsChain TypePart.Apart := by
          refine ih (fun before gap after a b split => ?_) (by simp)
          refine apart (current ++ c :: before) gap after a b ?_
          rw [← List.nil_append cs, split]
          simp
        have behind : (typePartsFrom [] (c :: cs)).IsChain TypePart.Apart := by
          cases blank : Text.isBlank c with
          | true =>
              rw [typePartsFrom, if_neg inName, blank]
              exact rest
          | false =>
              rw [typePartsFrom_mark ⟨by simpa using inName, blank⟩]
              refine List.isChain_cons.2 ⟨fun next _ both => ?_, rest⟩
              cases both.1
        rw [typePartsFrom_cons (by simpa using inName)]
        refine List.isChain_append.2 ⟨word current, behind, ?_⟩
        intro last isLast next isNext both
        -- a name on both sides: only blanks stand between their characters
        cases next with
        | mark _ => cases both.2
        | name other =>
            obtain ⟨gap, d, after, split, there, blanks⟩ := exists_of_head?_name isNext
            obtain rfl | ⟨front, a, rfl⟩ := List.eq_nil_or_concat current
            · cases isLast
            · have empty := apart front gap after a d (by simp [split])
                (read a (by simp)) there blanks
              subst empty
              obtain ⟨rfl, -⟩ := List.cons.inj split
              exact inName there

/-- Blanks between two name characters leave two names next to each other. -/
theorem not_isChain_typePartsFrom {c d : Char} (left : isTypeNameChar c = true)
    (right : isTypeNameChar d = true) {gap : List Char} (nonempty : gap ≠ [])
    (blanks : ∀ b ∈ gap, Text.isBlank b = true) (current before after : List Char) :
    ¬ (typePartsFrom current (before ++ c :: (gap ++ d :: after))).IsChain TypePart.Apart := by
  induction before generalizing current with
  | nil =>
      obtain ⟨b, gap, rfl⟩ := List.exists_cons_of_ne_nil nonempty
      obtain ⟨word, parts, next⟩ := exists_typePartsFrom_name (List.cons_ne_nil d []) after
      have blank := isTypeNameChar_of_isBlank (List.forall_mem_cons.1 blanks).1
      have behind : typePartsFrom [] (d :: after) = typePartsFrom [d] after := by
        rw [typePartsFrom, if_pos right, List.nil_append]
      rw [List.nil_append, typePartsFrom, if_pos left, List.cons_append,
        typePartsFrom_cons blank, typeWord_of_ne_nil (by simp), ← List.cons_append,
        typePartsFrom_blanks blanks, behind, next, List.singleton_append]
      intro chain
      exact (List.isChain_cons_cons.1 chain).1 ⟨rfl, rfl⟩
  | cons first before ih =>
      by_cases inName : isTypeNameChar first = true
      · rw [List.cons_append, typePartsFrom, if_pos inName]
        exact ih _
      · rw [List.cons_append, typePartsFrom, if_neg inName]
        exact fun chain => ih [] (List.isChain_append.1 chain).2.1

theorem namesApart_iff {expr : String} :
    NamesApart expr ↔ (typeParts expr).IsChain TypePart.Apart := by
  constructor
  · intro apart
    exact isChain_typePartsFrom (by rwa [List.nil_append]) (by simp)
  · intro chain before gap after c d split left right blanks
    by_contra nonempty
    refine not_isChain_typePartsFrom left right nonempty blanks [] before after ?_
    rw [← split]
    exact chain

instance (expr : String) : Decidable (NamesApart expr) := decidable_of_iff' _ namesApart_iff

/-! ## Two passes -/

section Passes

variable {expr : String} {f : String → String} (apart : NamesApart expr)
  (words : ∀ name ∈ typeNames expr, IsTypeWord (f name))

include apart words

/-- **A second pass finds the parts that the first one wrote.** -/
theorem typeParts_mapType :
    typeParts (mapType f expr) = (typeParts expr).map (TypePart.onName f) := by
  rw [mapType_eq, typeParts, String.toList_ofList]
  refine typePartsFrom_chars (fun part listed => ?_) ?_
  · obtain ⟨read, there, rfl⟩ := List.mem_map.1 listed
    cases read with
    | name word => exact words word (mem_typeNames.2 there)
    | mark c => exact legible_of_mem (by simp) there
  · refine (List.isChain_map _).2 ((namesApart_iff.1 apart).imp fun a b differ => ?_)
    cases a <;> cases b <;> exact differ

theorem mapType_mapType (g : String → String) :
    mapType g (mapType f expr) = mapType (g ∘ f) expr := by
  have both : TypePart.onName g ∘ TypePart.onName f = TypePart.onName (g ∘ f) := by
    funext part
    cases part <;> rfl
  rw [mapType_eq g, typeParts_mapType apart words, List.map_map, both, ← mapType_eq]

end Passes

theorem mapType_congr {expr : String} {f g : String → String}
    (same : ∀ name ∈ typeNames expr, Text.lower (f name) = Text.lower (g name)) :
    Text.lower (mapType f expr) = Text.lower (mapType g expr) := by
  simp only [mapType_eq, Text.lower, String.toList_ofList, List.map_flatMap, List.flatMap_map]
  congr 1
  refine List.flatMap_congr fun part listed => ?_
  cases part with
  | mark c => rfl
  | name word =>
      have here := same word (mem_typeNames.2 listed)
      show (f word).toList.map Char.toLower = (g word).toList.map Char.toLower
      rw [← Text.toList_lower, ← Text.toList_lower, here]

theorem isTypeWord_of_mem {expr name : String} (listed : name ∈ typeNames expr) :
    IsTypeWord name :=
  legible_of_mem (by simp) (mem_typeNames.1 listed)

theorem mapType_id (expr : String) : mapType id expr = withoutBlanks expr := by
  have same : TypePart.onName id = id := by
    funext part
    cases part <;> rfl
  rw [mapType_eq, same, List.map_id, withoutBlanks_eq]

/-- A separator can stand between a word and name characters. -/
theorem IsTypeWord.append {word rest : String} (isWord : IsTypeWord word)
    (inName : ∀ c ∈ rest.toList, isTypeNameChar c = true) :
    IsTypeWord (word ++ "\\" ++ rest) := by
  refine ⟨by simp, fun c inside => ?_⟩
  simp only [String.toList_append, toList_separator, List.mem_append, List.mem_singleton]
    at inside
  rcases inside with (before | rfl) | after
  · exact isWord.2 c before
  · decide
  · exact inName c after

end Name

namespace Scope

variable {scope : Scope}

/-- A short spelling is one name again. -/
theorem isTypeWord_shorten
    (aliases : ∀ i ∈ scope.imports.values, Name.IsTypeWord i.localName) {name : String}
    (wf : Name.WellFormed name) (word : Name.IsTypeWord name) :
    Name.IsTypeWord (scope.shorten name) := by
  have inside : ∀ {part : String}, (∀ c ∈ part.toList, c ∈ name.toList) →
      ∀ c ∈ part.toList, Name.isTypeNameChar c = true := by
    intro part taken c listed
    exact word.2 c (taken c listed)
  rcases shorten_cases scope wf with
    ⟨-, written⟩ | ⟨i, listed, -, -, written⟩ | ⟨-, -, -, written⟩ |
    ⟨i, listed, -, rest, below, written⟩ | written
  · rw [written]
    exact word
  · rw [written]
    exact aliases i listed
  · rw [written]
    refine ⟨wf.short.ne_empty, inside fun c listed => ?_⟩
    rcases wf.parts.2.2 with ⟨-, whole⟩ | ⟨-, -, split⟩
    · rwa [whole] at listed
    · rw [split]
      simp [listed]
  · rw [written]
    refine (aliases i listed).append (inside fun c listed => ?_)
    rw [below]
    simp [listed]
  · rw [written]
    refine ⟨by simp, fun c listed => ?_⟩
    rw [String.toList_append, Name.toList_separator, List.singleton_append,
      List.mem_cons] at listed
    rcases listed with rfl | later
    · decide
    · exact word.2 c later

/-- **Type expressions are read back.** In an expression whose names stand apart, two
passes are one pass with the two changes, whenever the first writes words of name
characters. Shortening does, in a regular scope whose aliases are of name characters; so
resolving what was shortened gives the expression without its blanks, every mark as it was
and every name up to case. -/
theorem typeExpression_round_trip {expr : String} (apart : Name.NamesApart expr) :
    (∀ f g : String → String, (∀ name ∈ Name.typeNames expr, Name.IsTypeWord (f name)) →
      Name.mapType g (Name.mapType f expr) = Name.mapType (g ∘ f) expr) ∧
    ∀ scope : Scope, scope.Regular →
      (∀ i ∈ scope.imports.values, ∀ c ∈ i.localName.toList, Name.isTypeNameChar c = true) →
      (∀ name ∈ Name.typeNames expr, Name.IsTarget name) →
        Text.sameIgnoringCase (scope.resolveType (scope.shortenType expr))
            (Name.withoutBlanks expr) = true ∧
          List.Forall₂ Name.TypePart.Same
            (Name.typeParts (scope.resolveType (scope.shortenType expr)))
            (Name.typeParts expr) := by
  refine ⟨fun f g words => Name.mapType_mapType apart words g, ?_⟩
  intro scope regular plain targets
  have aliases : ∀ i ∈ scope.imports.values, Name.IsTypeWord i.localName := fun i listed =>
    ⟨(regular.aliases i listed).wellFormed.ne_empty, plain i listed⟩
  have shortened : ∀ name ∈ Name.typeNames expr, Name.IsTypeWord (scope.shorten name) :=
    fun name listed => isTypeWord_shorten aliases (targets name listed).wellFormed
      (Name.isTypeWord_of_mem listed)
  have same : ∀ name ∈ Name.typeNames expr,
      Text.lower ((scope.resolve ∘ scope.shorten) name) = Text.lower name := by
    intro name listed
    rcases resolve_shorten_cases regular (targets name listed) with exactly | ⟨i, -, -, same, read⟩
    · rw [Function.comp_apply, exactly]
    · rw [Function.comp_apply, read, same]
  have whole : scope.resolveType (scope.shortenType expr) =
      Name.mapType (scope.resolve ∘ scope.shorten) expr := by
    rw [resolveType, shortenType, Name.mapType_mapType apart shortened]
  constructor
  · rw [whole, Text.sameIgnoringCase_iff, ← Name.mapType_id]
    exact Name.mapType_congr same
  · have words : ∀ name ∈ Name.typeNames expr,
        Name.IsTypeWord ((scope.resolve ∘ scope.shorten) name) := fun name listed =>
      (Name.isTypeWord_of_mem listed).congr (same name listed)
    rw [whole, Name.typeParts_mapType apart words, List.forall₂_map_left_iff, List.forall₂_same]
    intro part listed
    cases part with
    | mark c => exact rfl
    | name word => exact Text.sameIgnoringCase_iff.2 (same word (Name.mem_typeNames.2 listed))

namespace Example

/-- A name that an alias hides, one that is imported in another case, one below it and a
keyword, with blanks and parentheses around them. -/
def unionOfThree : String :=
  "( App\\Models\\Post & vendor\\relations )| ?Vendor\\Relations\\HasMany | null"

/-- It is written `(\App\Models\Post&Rel)|?Rel\HasMany|null` and read back; and writing every
name in full and then taking the last segments is taking the last segments. -/
theorem typeExpression_round_trip_union :
    (Name.NamesApart unionOfThree ∧ shadowed.Regular) ∧
      Text.sameIgnoringCase (shadowed.resolveType (shadowed.shortenType unionOfThree))
        "(App\\Models\\Post&vendor\\relations)|?Vendor\\Relations\\HasMany|null" = true ∧
      Name.mapType Name.short (Name.mapType ("\\" ++ ·) unionOfThree) =
        Name.mapType (Name.short ∘ ("\\" ++ ·)) unionOfThree := by
  have apart : Name.NamesApart unionOfThree := by decide +kernel
  have plain : Name.withoutBlanks unionOfThree =
      "(App\\Models\\Post&vendor\\relations)|?Vendor\\Relations\\HasMany|null" := by decide +kernel
  have aliases : ∀ i ∈ shadowed.imports.values, Name.IsTypeWord i.localName := by decide +kernel
  obtain ⟨passes, trip⟩ := typeExpression_round_trip apart
  refine ⟨⟨apart, shadowed_regular⟩, ?_, passes _ _ (by decide +kernel)⟩
  rw [← plain]
  exact (trip shadowed shadowed_regular (fun i listed => (aliases i listed).2)
    (by decide +kernel)).1

end Example

end Scope

end Emend

import Emend.Proofs.Literal.Quoting
import Mathlib.Data.List.Forall2

/-!
# Literals inside of literals

A list or map is written from the texts of its elements, with their lines moved by one step: four
blanks after every line feed. Between tokens these are nothing, but in a text they are part of it.
So a moved text denotes the moved value (`read?_moved`), and the value is its own moved one
exactly if no text in it has a line feed (`Value.moved_eq_self_iff`).

What is written for a value denotes one, at any depth (`Rendered.readable`), and `nested_values`
says which: a list denotes the moved values of its elements, and so changes every text with a line
feed in them.
-/

set_option autoImplicit false

namespace Emend.Literal

/-! ## Moved texts -/

/-- The characters of a text with its lines after the first moved by one step. -/
def movedChars (cs : List Char) : List Char :=
  cs.flatMap fun c => if c = '\n' then "\n    ".toList else [c]

theorem toList_moved (s : String) : (moved s).toList = movedChars s.toList := by
  rw [moved, Text.replaceChar, String.toList_ofList, movedChars]

theorem moved_ofList (cs : List Char) : moved (.ofList cs) = .ofList (movedChars cs) := by
  rw [← String.toList_inj, toList_moved, String.toList_ofList, String.toList_ofList]

theorem movedChars_append (a b : List Char) :
    movedChars (a ++ b) = movedChars a ++ movedChars b := List.flatMap_append

theorem movedChars_cons (c : Char) (cs : List Char) :
    movedChars (c :: cs) =
      c :: (if c = '\n' then "    ".toList else []) ++ movedChars cs := by
  rw [movedChars, List.flatMap_cons, ← movedChars]
  split
  · rename_i newline
    subst newline
    rfl
  · rfl

theorem movedChars_eq_self_iff {cs : List Char} : movedChars cs = cs ↔ '\n' ∉ cs := by
  have size : (movedChars cs).length = cs.length + 4 * cs.count '\n' := by
    induction cs with
    | nil => rfl
    | cons c cs ih =>
        rw [movedChars_cons, List.length_append, ih, List.count_cons]
        split <;> simp_all <;> omega
  constructor
  · intro same inside
    have occurs := List.count_pos_iff.2 inside
    rw [same] at size
    omega
  · clear size
    intro oneLine
    induction cs with
    | nil => rfl
    | cons c cs ih =>
        rw [List.mem_cons, not_or] at oneLine
        rw [movedChars_cons, if_neg (Ne.symm oneLine.1), ih oneLine.2]
        rfl

theorem movedChars_injective {a b : List Char} (same : movedChars a = movedChars b) : a = b := by
  induction a generalizing b with
  | nil =>
      cases b with
      | nil => rfl
      | cons d b =>
          rw [movedChars_cons] at same
          cases same
  | cons c a ih =>
      cases b with
      | nil =>
          rw [movedChars_cons] at same
          cases same
      | cons d b =>
          rw [movedChars_cons, movedChars_cons, List.cons_append, List.cons_append] at same
          obtain ⟨rfl, rest⟩ := List.cons.inj same
          rw [ih (List.append_cancel_left rest)]

theorem moved_injective {s t : String} (same : moved s = moved t) : s = t := by
  rw [← String.toList_inj, toList_moved, toList_moved] at same
  exact String.toList_inj.1 (movedChars_injective same)

theorem moved_eq_self_iff {s : String} : moved s = s ↔ '\n' ∉ s.toList := by
  rw [← String.toList_inj, toList_moved, movedChars_eq_self_iff]

/-! ## Moved values -/

def Key.moved : Key → Key
  | .int n => .int n
  | .text s => .text (Literal.moved s)

def Key.oneLine : Key → Bool
  | .int _ => true
  | .text s => !s.toList.contains '\n'

mutual

def Value.moved : Value → Value
  | .null => .null
  | .bool b => .bool b
  | .number n => .number n
  | .text s => .text (Literal.moved s)
  | .array entries => .array (movedEntries entries)

def movedEntries : List (Key × Value) → List (Key × Value)
  | [] => []
  | entry :: entries => movedEntry entry :: movedEntries entries

def movedEntry : Key × Value → Key × Value
  | (key, value) => (key.moved, value.moved)

end

mutual

def Value.oneLine : Value → Bool
  | .null | .bool _ | .number _ => true
  | .text s => !s.toList.contains '\n'
  | .array entries => oneLineEntries entries

def oneLineEntries : List (Key × Value) → Bool
  | [] => true
  | entry :: entries => oneLineEntry entry && oneLineEntries entries

def oneLineEntry : Key × Value → Bool
  | (key, value) => key.oneLine && value.oneLine

end

theorem movedEntries_eq_map (entries : List (Key × Value)) :
    movedEntries entries = entries.map movedEntry := by
  induction entries with
  | nil => rfl
  | cons entry entries ih => rw [movedEntries, ih, List.map_cons]

theorem Key.moved_eq_self_iff {key : Key} : key.moved = key ↔ key.oneLine = true := by
  cases key with
  | int n => simp [moved, oneLine]
  | text s => simp [moved, oneLine, Literal.moved_eq_self_iff]

mutual

theorem Value.moved_eq_self_iff : (value : Value) → (value.moved = value ↔ value.oneLine = true)
  | .null | .bool _ | .number _ => by simp [Value.moved, Value.oneLine]
  | .text s => by simp [Value.moved, Value.oneLine, Literal.moved_eq_self_iff]
  | .array entries => by
      simp [Value.moved, Value.oneLine, movedEntries_eq_self_iff entries]

theorem movedEntries_eq_self_iff :
    (entries : List (Key × Value)) → (movedEntries entries = entries ↔ oneLineEntries entries = true)
  | [] => by simp [movedEntries, oneLineEntries]
  | entry :: entries => by
      simp [movedEntries, oneLineEntries, movedEntry_eq_self_iff entry,
        movedEntries_eq_self_iff entries]

theorem movedEntry_eq_self_iff :
    (entry : Key × Value) → (movedEntry entry = entry ↔ oneLineEntry entry = true)
  | (key, value) => by
      simp [movedEntry, oneLineEntry, Key.moved_eq_self_iff, Value.moved_eq_self_iff value]

end

theorem Key.moved_injective {k l : Key} (same : k.moved = l.moved) : k = l := by
  cases k <;> cases l <;> simp_all [moved]
  exact Literal.moved_injective same

/-- A text with a line feed is no number. -/
theorem Key.ofText_moved (s : String) : Key.ofText (Literal.moved s) = (Key.ofText s).moved := by
  by_cases oneLine : '\n' ∈ s.toList
  · have text : ∀ t : String, '\n' ∈ t.toList → Key.ofText t = .text t := by
      intro t inside
      have noNumber : number? t = none := by
        cases read : number? t with
        | none => rfl
        | some n =>
            rw [number?_eq_some_iff] at read
            have := wordChars_toString n '\n' (read ▸ inside)
            contradiction
      simp [Key.ofText, noNumber]
    have kept : '\n' ∈ (Literal.moved s).toList := by
      rw [toList_moved, movedChars]
      exact List.mem_flatMap.2 ⟨_, oneLine, by decide⟩
    rw [text _ oneLine, text _ kept, Key.moved]
  · rw [Literal.moved_eq_self_iff.2 oneLine]
    have same : (Key.ofText s).oneLine = true := by
      unfold Key.ofText
      split
      · split <;> simp [oneLine, Key.oneLine]
      · simpa [Key.oneLine] using oneLine
    exact (Key.moved_eq_self_iff.2 same).symm

theorem Value.key?_moved (value : Value) : value.moved.key? = value.key?.map Key.moved := by
  cases value with
  | null => rfl
  | bool b => rfl
  | number n =>
      rw [Value.moved, Value.key?]
      split <;> rfl
  | text s => rw [Value.moved, Value.key?, Value.key?, Key.ofText_moved, Option.map_some]
  | array entries => rfl

theorem place_moved (key : Key) (value : Value) (entries : List (Key × Value)) :
    place key.moved value.moved (movedEntries entries) = movedEntries (place key value entries) := by
  induction entries with
  | nil => rfl
  | cons entry entries ih =>
      obtain ⟨k, v⟩ := entry
      rw [movedEntries, movedEntry, place, place]
      by_cases here : k = key
      · rw [if_pos here, if_pos (congrArg Key.moved here), movedEntries, movedEntry]
      · rw [if_neg here, if_neg fun same => here (Key.moved_injective same), movedEntries, movedEntry,
          ih]

theorem Value.ofList_moved (values : List Value) :
    Value.ofList (values.map Value.moved) = (Value.ofList values).moved := by
  rw [Value.ofList, Value.ofList, Value.moved, movedEntries_eq_map, List.zipIdx_map, List.map_map,
    List.map_map]
  rfl

theorem Value.ofEntries_moved (entries : List (Key × Value)) :
    Value.ofEntries (movedEntries entries) = (Value.ofEntries entries).moved := by
  have placed (before : List (Key × Value)) :
      (movedEntries entries).foldl (fun placed entry => place entry.1 entry.2 placed)
          (movedEntries before) =
        movedEntries (entries.foldl (fun placed entry => place entry.1 entry.2 placed) before) := by
    induction entries generalizing before with
    | nil => rfl
    | cons entry entries ih =>
        rw [movedEntries, List.foldl_cons, List.foldl_cons, ← ih, movedEntry, place_moved]
  rw [Value.ofEntries, Value.ofEntries, Value.moved, ← placed []]
  rfl

/-! ## Reading a moved text -/

def Token.moved : Token → Token
  | .text value => .text (Literal.moved value)
  | .word written => .word written
  | .opening => .opening
  | .closing => .closing
  | .comma => .comma
  | .arrow => .arrow

/-- The scanner with the lines of the text that it is in moved. -/
def Mode.moved : Mode → Mode
  | .between => .between
  | .word read => .word read
  | .text read => .text (movedChars read)
  | .escaped read => .escaped (movedChars read)
  | .equals => .equals

def movedScan (scanned : Mode × List Token) : Mode × List Token :=
  (scanned.1.moved, scanned.2.map Token.moved)

theorem movedScan_of_opened {c : Char} {scanned : Mode × List Token}
    (opened : Mode.opened c = some scanned) : movedScan scanned = scanned := by
  unfold Mode.opened at opened
  repeat' split at opened
  all_goals cases opened <;> rfl

/-- One step of the scanner: the blanks after a line feed are nothing between tokens and stand
in the text otherwise. -/
theorem scan_movedChars_singleton (mode : Mode) (c : Char) :
    scan mode.moved (movedChars [c]) = (mode.step c).map movedScan := by
  by_cases newline : c = '\n'
  · subst newline
    cases mode with
    | between | word read | equals => rfl
    | text read | escaped read =>
        simp [scan, Mode.moved, Mode.step, movedScan, movedChars]
  · have kept : movedChars [c] = [c] := movedChars_eq_self_iff.2 (by simpa using Ne.symm newline)
    have one : scan mode.moved [c] = mode.moved.step c := by
      cases stepped : mode.moved.step c <;> simp [scan, stepped]
    rw [kept, one]
    cases mode with
    | between =>
        cases opened : Mode.opened c with
        | none => simp [Mode.moved, Mode.step, opened]
        | some scanned => simp [Mode.moved, Mode.step, opened, movedScan_of_opened opened]
    | word read =>
        by_cases within : isWordChar c = true
        · simp [Mode.moved, Mode.step, within, movedScan]
        · cases opened : Mode.opened c with
          | none => simp [Mode.moved, Mode.step, within, opened]
          | some scanned =>
              obtain ⟨mode, tokens⟩ := scanned
              obtain ⟨sameMode, sameTokens⟩ := Prod.mk.inj (movedScan_of_opened opened)
              dsimp only at sameMode sameTokens
              rw [Mode.moved, Mode.step, if_neg within, opened]
              simp only [Option.map_some, movedScan, List.map_cons, Token.moved, sameMode, sameTokens]
    | text read =>
        rw [Mode.moved, Mode.step, Mode.step]
        split
        · rfl
        · split
          · simp [movedScan, Mode.moved, Token.moved, moved_ofList]
          · simp [movedScan, Mode.moved, movedChars_append, kept]
    | escaped read =>
        have both : movedChars ['\\', c] = ['\\', c] :=
          movedChars_eq_self_iff.2 (by simpa using Ne.symm newline)
        rw [Mode.moved, Mode.step, Mode.step]
        split <;> simp [movedScan, Mode.moved, movedChars_append, kept, both]
    | equals =>
        rw [Mode.moved, Mode.step]
        split <;> rfl

theorem scan_movedChars (mode : Mode) (cs : List Char) :
    scan mode.moved (movedChars cs) = (scan mode cs).map movedScan := by
  induction cs generalizing mode with
  | nil => rfl
  | cons c cs ih =>
      have parts : movedChars (c :: cs) = movedChars [c] ++ movedChars cs := movedChars_append [c] cs
      rw [parts, scan_append, scan_movedChars_singleton]
      cases stepped : mode.step c with
      | none => simp [scan, stepped]
      | some next =>
          obtain ⟨mode, tokens⟩ := next
          cases rest : scan mode cs <;> simp [scan, stepped, movedScan, ih, rest]

theorem tokens?_moved (text : String) :
    tokens? (moved text) = (tokens? text).map (·.map Token.moved) := by
  have start : Mode.between = Mode.between.moved := rfl
  rw [tokens?, tokens?, toList_moved, start, scan_movedChars, ← start]
  cases scanned : scan .between text.toList with
  | none => rfl
  | some next =>
      obtain ⟨mode, tokens⟩ := next
      cases mode <;> simp [movedScan, Mode.moved, Mode.finish?, Token.moved]

def movedElement (element : Option Key × Value) : Option Key × Value :=
  (element.1.map Key.moved, element.2.moved)

theorem assemble?_moved (elements : List (Option Key × Value)) :
    assemble? (elements.map movedElement) = (assemble? elements).map Value.moved := by
  have nones : (elements.map movedElement).all (·.1.isNone) = elements.all (·.1.isNone) := by
    rw [List.all_map]
    congr
    funext element
    simp [movedElement]
  have somes : (elements.map movedElement).all (·.1.isSome) = elements.all (·.1.isSome) := by
    rw [List.all_map]
    congr
    funext element
    simp [movedElement]
  have values : (elements.map movedElement).map (·.2) = (elements.map (·.2)).map Value.moved := by
    rw [List.map_map, List.map_map]
    rfl
  have entries : (elements.map movedElement).filterMap keyed? =
      movedEntries (elements.filterMap keyed?) := by
    rw [movedEntries_eq_map, List.filterMap_map, List.map_filterMap]
    congr
    funext element
    obtain ⟨key, value⟩ := element
    cases key <;> rfl
  rw [assemble?, assemble?, nones, somes, values, entries, Value.ofList_moved,
    Value.ofEntries_moved]
  split
  · rfl
  · split <;> rfl

/-- The open array with the lines of all its texts moved. -/
def Frame.moved (frame : Frame) : Frame :=
  ⟨frame.elements.map movedElement, frame.key.map Key.moved⟩

theorem Frame.push_moved (frame : Frame) (value : Value) :
    frame.moved.push value.moved = (frame.push value).moved := by
  simp [Frame.push, Frame.moved, movedElement]

/-- The machine with the lines of all texts moved. -/
def State.moved : State → State
  | .waiting stack => .waiting (stack.map Frame.moved)
  | .holding value stack => .holding value.moved (stack.map Frame.moved)

theorem Value.moved_of_ofWord? {written : String} {value : Value}
    (read : Value.ofWord? written = some value) : value.moved = value := by
  unfold Value.ofWord? at read
  repeat' split at read
  all_goals cases read <;> rfl

theorem State.step_moved (state : State) (token : Token) :
    state.moved.step token.moved = (state.step token).map State.moved := by
  cases state with
  | waiting stack =>
      cases token with
      | text value | opening | comma | arrow => rfl
      | word written =>
          cases read : Value.ofWord? written with
          | none => simp [moved, Token.moved, step, read]
          | some value => simp [moved, Token.moved, step, read, Value.moved_of_ofWord? read]
      | closing =>
          cases stack with
          | nil => rfl
          | cons frame stack =>
              obtain ⟨elements, key⟩ := frame
              cases key with
              | some key => rfl
              | none =>
                  have assembled := assemble?_moved elements
                  cases found : assemble? elements <;>
                    simp_all [moved, Token.moved, Frame.moved, step]
  | holding value stack =>
      cases stack with
      | nil => cases token <;> rfl
      | cons frame stack =>
          cases token with
          | text value | word written | opening => rfl
          | comma => simp [moved, Token.moved, step, Frame.push_moved]
          | closing =>
              have assembled := assemble?_moved (frame.push value).elements
              have pushed : (frame.moved.push value.moved).elements =
                  (frame.push value).elements.map movedElement := by
                rw [Frame.push_moved, Frame.moved]
              cases found : assemble? (frame.push value).elements <;>
                simp_all [moved, Token.moved, step]
          | arrow =>
              obtain ⟨elements, key⟩ := frame
              cases key with
              | some key => rfl
              | none =>
                  have known := value.key?_moved
                  cases found : value.key? <;> simp_all [moved, Token.moved, Frame.moved, step]

theorem State.run_moved (state : State) (tokens : List Token) :
    state.moved.run (tokens.map Token.moved) = (state.run tokens).map State.moved := by
  induction tokens generalizing state with
  | nil => rfl
  | cons token tokens ih =>
      rw [List.map_cons, State.run, State.run, State.step_moved]
      cases stepped : state.step token with
      | none => rfl
      | some next => exact ih next

theorem State.result?_moved (state : State) : state.moved.result? = state.result?.map Value.moved := by
  cases state with
  | waiting stack => rfl
  | holding value stack => cases stack <;> rfl

/-- A moved text denotes the moved value. -/
theorem read?_moved (text : String) : read? (moved text) = (read? text).map Value.moved := by
  rw [read?, read?, tokens?_moved]
  cases tokens? text with
  | none => rfl
  | some tokens =>
      have start : State.waiting [] = (State.waiting []).moved := rfl
      have ran := State.run_moved (.waiting []) tokens
      rw [← start] at ran
      cases after : State.run (.waiting []) tokens with
      | none => simp [ran, after]
      | some state => simp [ran, after, State.result?_moved]

/-! ## Texts in their surroundings -/

theorem read?_eq_some_iff {text : String} {value : Value} :
    read? text = some value ↔ ∃ tokens, tokens? text = some tokens ∧
      State.run (.waiting []) tokens = some (.holding value []) := by
  constructor
  · intro read
    obtain ⟨tokens, scanned, read⟩ := Option.bind_eq_some_iff.1 read
    obtain ⟨state, ran, held⟩ := Option.bind_eq_some_iff.1 read
    refine ⟨tokens, scanned, ?_⟩
    rw [ran]
    unfold State.result? at held
    split at held
    · cases held
      rfl
    · cases held
  · rintro ⟨tokens, scanned, ran⟩
    simp [read?, scanned, ran, State.result?]

/-- A character that cannot be part of a word ends the token before it. -/
theorem scan_delimited {text : String} {tokens : List Token} (scanned : tokens? text = some tokens)
    {c : Char} {own : List Token} (delimiter : isWordChar c = false)
    (opened : Mode.opened c = some (.between, own)) :
    scan .between (text.toList ++ [c]) = some (.between, tokens ++ own) := by
  obtain ⟨⟨mode, ended⟩, passed, last⟩ := Option.bind_eq_some_iff.1 scanned
  rw [scan_append, passed]
  cases mode with
  | between =>
      cases last
      simp [scan, Mode.step, opened]
  | word read =>
      cases last
      simp [scan, Mode.step, delimiter, opened]
  | text read | escaped read | equals => cases last

def Adds (line : String) (element : Option Key × Value) : Prop :=
  ∃ tokens, scan .between line.toList = some (.between, tokens) ∧
    ∀ elements stack, State.run (.waiting (⟨elements, none⟩ :: stack)) tokens =
      some (.waiting (⟨elements ++ [element], none⟩ :: stack))

/-- Whatever is open, the tokens of a value make the machine hold it. -/
theorem run_value {tokens : List Token} {value : Value}
    (ran : State.run (.waiting []) tokens = some (.holding value [])) (stack : List Frame) :
    State.run (.waiting stack) tokens = some (.holding value stack) :=
  State.run_under stack ran

theorem adds_item {text : String} {value : Value} (read : read? text = some value) :
    Adds ("    " ++ text ++ ",") (none, value) := by
  obtain ⟨tokens, scanned, ran⟩ := read?_eq_some_iff.1 read
  have ended : scan .between (text.toList ++ [',']) = some (.between, tokens ++ [.comma]) :=
    scan_delimited scanned (by decide) (by decide)
  refine ⟨tokens ++ [.comma], ?_, fun elements stack => State.run_trans (run_value ran _) rfl⟩
  have indent : scan .between "    ".toList = some (.between, []) := rfl
  have whole := scan_trans indent ended
  rw [String.toList_append, String.toList_append, List.append_assoc]
  exact whole

theorem adds_entry {key text name : String} {value : Value}
    (named : tokens? key = some [.text name]) (read : read? text = some value) :
    Adds ("    " ++ key ++ " => " ++ text ++ ",") (some (.ofText name), value) := by
  obtain ⟨tokens, scanned, ran⟩ := read?_eq_some_iff.1 read
  refine ⟨[.text name, .arrow] ++ (tokens ++ [.comma]), ?_, fun elements stack => ?_⟩
  · have parts : ("    " ++ key ++ " => " ++ text ++ ",").toList =
        "    ".toList ++ ((key.toList ++ [' ']) ++ ("=> ".toList ++ (text.toList ++ [',']))) := by
      simp
    have indent : scan .between "    ".toList = some (.between, []) := rfl
    have ended : scan .between (key.toList ++ [' ']) = some (.between, [.text name] ++ []) :=
      scan_delimited named (by decide) (by decide)
    have pointed : scan .between "=> ".toList = some (.between, [.arrow]) := rfl
    have closed : scan .between (text.toList ++ [',']) = some (.between, tokens ++ [.comma]) :=
      scan_delimited scanned (by decide) (by decide)
    have whole := scan_trans indent (scan_trans ended (scan_trans pointed closed))
    rw [parts]
    exact whole
  · have keyed : State.run (.waiting (⟨elements, none⟩ :: stack)) [.text name, .arrow] =
        some (.waiting (⟨elements, some (.ofText name)⟩ :: stack)) := rfl
    exact State.run_trans keyed (State.run_trans (run_value ran _) rfl)

/-- Lines one after the other add what each of them adds. -/
theorem scan_lines {lines : List String} {elements : List (Option Key × Value)}
    (adds : List.Forall₂ Adds lines elements) :
    ∃ tokens, scan .between ("\n".intercalate lines).toList = some (.between, tokens) ∧
      ∀ before stack, State.run (.waiting (⟨before, none⟩ :: stack)) tokens =
        some (.waiting (⟨before ++ elements, none⟩ :: stack)) := by
  induction adds with
  | nil => exact ⟨[], rfl, fun before stack => by simp [State.run]⟩
  | @cons line element lines elements first others ih =>
      obtain ⟨tokens, scanned, ran⟩ := first
      obtain ⟨further, scannedAll, ranAll⟩ := ih
      cases others with
      | nil => exact ⟨tokens, by simpa using scanned, ran⟩
      | @cons next _ lines _ _ _ =>
          have parts : ("\n".intercalate (line :: next :: lines)).toList =
              line.toList ++ (['\n'] ++ ("\n".intercalate (next :: lines)).toList) := by
            simp [String.intercalate_cons_cons]
          have feed : scan .between ['\n'] = some (.between, []) := rfl
          refine ⟨tokens ++ ([] ++ further), ?_, fun before stack => ?_⟩
          · rw [parts]
            exact scan_trans scanned (scan_trans feed scannedAll)
          · refine State.run_trans (ran before stack) ?_
            rw [List.nil_append, ranAll, List.append_assoc]
            rfl

/-- Lines between brackets are the array of what they add. -/
theorem read?_bracketed {lines : List String} {elements : List (Option Key × Value)} {value : Value}
    (adds : List.Forall₂ Adds lines elements) (assembled : assemble? elements = some value) :
    read? (bracketed lines) = some value := by
  rw [bracketed]
  split
  · rename_i noLines
    cases adds with
    | nil =>
        have empty : read? "[]" = assemble? [] := rfl
        exact empty.trans assembled
    | cons first others => cases noLines
  · obtain ⟨tokens, scanned, ran⟩ := scan_lines adds
    have whole : scan .between ("[\n".toList ++ (("\n".intercalate lines).toList ++ "\n]".toList)) =
        some (.between, [.opening] ++ (tokens ++ [.closing])) :=
      scan_trans rfl (scan_trans scanned rfl)
    refine read?_eq_some_iff.2 ⟨[.opening] ++ (tokens ++ [.closing]), ?_, ?_⟩
    · rw [tokens?, String.toList_append, String.toList_append, List.append_assoc, whole]
      simp [Mode.finish?]
    · refine State.run_trans rfl (State.run_trans (ran [] []) ?_)
      simp [State.run, State.step, assembled]

/-! ## What is written -/

theorem tokens?_string (s : String) : tokens? (string s) = some [.text s] := by
  have scanned := scan_string s ""
  rw [String.append_empty] at scanned
  rw [tokens?, scanned]
  rfl

theorem tokens?_word {s : String} (nonempty : s ≠ "") (word : ∀ c ∈ s.toList, isWordChar c = true) :
    tokens? s = some [.word s] := by
  have further (read cs : List Char) (within : ∀ c ∈ cs, isWordChar c = true) :
      scan (.word read) cs = some (.word (read ++ cs), []) := by
    induction cs generalizing read with
    | nil => simp [scan]
    | cons c cs ih =>
        simp [scan, Mode.step, within c List.mem_cons_self,
          ih (read ++ [c]) fun d inside => within d (List.mem_cons_of_mem _ inside)]
  cases chars : s.toList with
  | nil => exact absurd (String.toList_eq_nil_iff.1 chars) nonempty
  | cons c cs =>
      rw [chars] at word
      have first := word c List.mem_cons_self
      have opened : Mode.opened c = some (.word [c], []) := by
        have solid : isSpace c = false := by
          rw [Bool.eq_false_iff]
          intro space
          simp only [isSpace, Bool.or_eq_true, beq_iff_eq] at space
          rcases space with ((rfl | rfl) | rfl) | rfl <;> contradiction
        simp [Mode.opened, solid, first]
      have rest := further [c] cs fun d inside => word d (List.mem_cons_of_mem _ inside)
      have back : String.ofList (c :: cs) = s := by rw [← chars, String.ofList_toList]
      simp [tokens?, chars, scan, Mode.step, opened, rest, Mode.finish?, back]

theorem read?_string (s : String) : read? (string s) = some (.text s) :=
  read?_eq_some_iff.2 ⟨_, tokens?_string s, rfl⟩

theorem read?_word {s : String} {value : Value} (nonempty : s ≠ "")
    (word : ∀ c ∈ s.toList, isWordChar c = true) (known : Value.ofWord? s = some value) :
    read? s = some value :=
  read?_eq_some_iff.2 ⟨_, tokens?_word nonempty word, by simp [State.run, State.step, known]⟩

theorem read?_int (n : Int) : read? (int n) = some (.number n) := by
  have written : number? (toString n) = some n := number?_eq_some_iff.2 rfl
  refine read?_word ?_ (wordChars_toString n) (by rw [int, Value.ofWord?, written])
  intro empty
  have short : number? "" = some n := by rw [← empty]; exact written
  cases short

theorem assemble?_keyed (entries : List (Key × Value)) :
    assemble? (entries.map fun entry => (some entry.1, entry.2)) = some (.ofEntries entries) := by
  have keyed : (entries.map fun entry => (some entry.1, entry.2)).filterMap keyed? = entries := by
    rw [List.filterMap_map]
    exact List.filterMap_some
  cases entries with
  | nil => rfl
  | cons entry entries =>
      rw [assemble?, if_neg (by simp), if_pos (by simp), keyed]

/-- A list denotes its elements, with the lines of their texts moved. -/
theorem read?_list {items : List String} {values : List Value}
    (own : List.Forall₂ (fun item value => read? item = some value) items values) :
    read? (list items) = some (Value.ofList values).moved := by
  have adds : List.Forall₂ Adds (items.map fun item => "    " ++ moved item ++ ",")
      (values.map fun value => (none, value.moved)) := by
    rw [List.forall₂_map_left_iff, List.forall₂_map_right_iff]
    refine own.imp fun item value read => adds_item ?_
    rw [read?_moved, read, Option.map_some]
  refine read?_bracketed adds ?_
  rw [assemble?, if_pos (by simp), List.map_map, ← Value.ofList_moved]
  rfl

/-- A map denotes its entries, with the lines of their texts moved. -/
theorem read?_map {entries : List (String × String)} {keyed : List (Key × Value)}
    (own : List.Forall₂ (fun entry keyed => (read? (string entry.1)).bind Value.key? = some keyed.1 ∧
      read? entry.2 = some keyed.2) entries keyed) :
    read? (map entries) = some (Value.ofEntries keyed).moved := by
  have adds : List.Forall₂ Adds
      (entries.map fun entry =>
        "    " ++ moved (string entry.1) ++ " => " ++ moved entry.2 ++ ",")
      ((movedEntries keyed).map fun entry => (some entry.1, entry.2)) := by
    rw [movedEntries_eq_map, List.map_map, List.forall₂_map_left_iff, List.forall₂_map_right_iff]
    refine own.imp ?_
    rintro ⟨key, text⟩ ⟨k, value⟩ ⟨named, read⟩
    rw [read?_string] at named
    obtain rfl : Key.ofText key = k := Option.some.inj named
    have written : tokens? (moved (string key)) = some [.text (moved key)] := by
      rw [tokens?_moved, tokens?_string]
      rfl
    have below : read? (moved text) = some value.moved := by rw [read?_moved, read, Option.map_some]
    have entry := adds_entry written below
    rw [Key.ofText_moved] at entry
    exact entry
  refine read?_bracketed adds ?_
  rw [assemble?_keyed, Value.ofEntries_moved]

/-- The texts that are written for values. -/
inductive Rendered : String → Prop where
  | null : Rendered null
  | bool (b : Bool) : Rendered (bool b)
  | int (n : Int) : Rendered (int n)
  | string (s : String) : Rendered (string s)
  | list {items : List String} (rendered : ∀ item ∈ items, Rendered item) : Rendered (list items)
  | map {entries : List (String × String)} (rendered : ∀ entry ∈ entries, Rendered entry.2) :
      Rendered (map entries)

theorem exists_forall₂ {α β : Type} {R : α → β → Prop} {as : List α} (each : ∀ a ∈ as, ∃ b, R a b) :
    ∃ bs, List.Forall₂ R as bs := by
  induction as with
  | nil => exact ⟨[], .nil⟩
  | cons a as ih =>
      obtain ⟨b, here⟩ := each a List.mem_cons_self
      obtain ⟨bs, others⟩ := ih fun a listed => each a (List.mem_cons_of_mem _ listed)
      exact ⟨b :: bs, .cons here others⟩

/-- The entry of a map has a key and a value of its own. -/
theorem exists_keyed {entry : String × String} (readable : ∃ value, read? entry.2 = some value) :
    ∃ keyed : Key × Value, (read? (string entry.1)).bind Value.key? = some keyed.1 ∧
      read? entry.2 = some keyed.2 := by
  obtain ⟨value, read⟩ := readable
  exact ⟨(.ofText entry.1, value), by rw [read?_string]; rfl, read⟩

/-- Whatever is written for a value denotes one. -/
theorem Rendered.readable {text : String} (rendered : Rendered text) :
    ∃ value, read? text = some value := by
  induction rendered with
  | null => exact ⟨.null, rfl⟩
  | bool b => exact ⟨.bool b, by cases b <;> rfl⟩
  | int n => exact ⟨_, read?_int n⟩
  | string s => exact ⟨_, read?_string s⟩
  | list rendered ih =>
      obtain ⟨values, own⟩ := exists_forall₂ ih
      exact ⟨_, read?_list own⟩
  | map rendered ih =>
      obtain ⟨keyed, own⟩ := exists_forall₂ fun entry listed => exists_keyed (ih entry listed)
      exact ⟨_, read?_map own⟩

/-- Every element of a list that is written denotes a value on its own, and the list denotes the
array of these values with the lines of their texts moved; that is the array of the values
themselves exactly if no text in them has a line feed. And so do a map, its keys and its
values. -/
theorem nested_values {items : List String} {entries : List (String × String)}
    (rendered : ∀ item ∈ items, Rendered item) (valued : ∀ entry ∈ entries, Rendered entry.2) :
    (∃ values, List.Forall₂ (fun item value => read? item = some value) items values ∧
      read? (list items) = some (Value.ofList values).moved ∧
      (read? (list items) = some (Value.ofList values) ↔ (Value.ofList values).oneLine = true)) ∧
    ∃ keyed, List.Forall₂ (fun entry keyed =>
        (read? (string entry.1)).bind Value.key? = some keyed.1 ∧ read? entry.2 = some keyed.2)
        entries keyed ∧
      read? (map entries) = some (Value.ofEntries keyed).moved ∧
      (read? (map entries) = some (Value.ofEntries keyed) ↔
        (Value.ofEntries keyed).oneLine = true) := by
  constructor
  · obtain ⟨values, own⟩ := exists_forall₂ fun item listed => (rendered item listed).readable
    have read := read?_list own
    refine ⟨values, own, read, ?_⟩
    rw [read, Option.some.injEq, Value.moved_eq_self_iff]
  · obtain ⟨keyed, own⟩ := exists_forall₂ fun entry listed =>
      exists_keyed (valued entry listed).readable
    have read := read?_map own
    refine ⟨keyed, own, read, ?_⟩
    rw [read, Option.some.injEq, Value.moved_eq_self_iff]

namespace Example

/-- A text gets four blanks after its line feed, as an element and as a key. -/
theorem nested_values_lineFeed :
    (read? (list [string "a\nb"]) = some (.ofList [.text "a\n    b"]) ∧
      read? (list [string "a\nb"]) ≠ some (.ofList [.text "a\nb"])) ∧
    read? (map [("k\nl", int 1)]) = some (.ofEntries [(.text "k\n    l", .number 1)]) ∧
      read? (map [("k\nl", int 1)]) ≠ some (.ofEntries [(.text "k\nl", .number 1)]) := by
  have rendered : ∀ item ∈ [string "a\nb"], Rendered item := fun item listed =>
    List.mem_singleton.1 listed ▸ .string "a\nb"
  have valued : ∀ entry ∈ [("k\nl", int 1)], Rendered entry.2 := fun entry listed =>
    List.mem_singleton.1 listed ▸ .int 1
  obtain ⟨⟨values, own, read, exactly⟩, keyed, own', read', exactly'⟩ :=
    nested_values rendered valued
  constructor
  · obtain ⟨value, _, first, others, rfl⟩ := List.forall₂_cons_left_iff.1 own
    cases others
    rw [read?_string] at first
    cases first
    exact ⟨read, fun same => absurd (exactly.1 same) (by decide)⟩
  · obtain ⟨⟨key, value⟩, _, ⟨named, first⟩, others, rfl⟩ := List.forall₂_cons_left_iff.1 own'
    cases others
    rw [read?_string] at named
    rw [read?_int] at first
    cases named
    cases first
    exact ⟨read', fun same => absurd (exactly'.1 same) (by decide)⟩

end Example

end Emend.Literal

import Emend.Proofs.Source.Declared

/-!
# Statements are read as their nodes say

A walk over the entries of a file goes through the same namespaces as the statements of its syntax
tree do. So in a file the statements of which are plain, what was read is what its nodes declare,
in order, and each in its namespace (`declaredBy_placed`).
-/

set_option autoImplicit false

namespace Emend

open Scan
open Rule (Occurs OccursAt)

namespace Declaration

/-- What an entry declares. -/
def Entry.declared? : Entry → Option Declared
  | .directive strictTypes => some (.directive strictTypes)
  | .imports read => some (.imports read)
  | .type written => some (.type written.declared)
  | .begin_ _ | .enter _ | .leave => none

/-- What the entries declare, each in the namespace it stands in. -/
def declaredBy (entries : List Placed) : List (String × Declared) :=
  entries.filterMap fun placed => placed.2.declared?.map (placed.1.space, ·)

/-! ## One statement -/

section

variable {file : File} {extent : Extent} {inner items : List Item}

theorem imports_eq_of_clauses {text : String} {read : List Import}
    (clauses : List.Forall₂ (fun clause one => clause.read? = some one)
      ((importClauses text).filter ImportClause.isWritten) read) : read = imports text := by
  refine List.right_unique_forall₂' (fun clause one other found found' => ?_) clauses
    (imports_spec text)
  exact Option.some.inj (found.symm.trans found')

/-- **One statement** that opens no namespace becomes an entry that declares what its nodes say,
or nothing if they say nothing. -/
theorem statement_declared {label : Label} (other : label ≠ .space)
    (made : Made file.source [.node label extent inner])
    (plain : PlainStatement file.source (.node label extent inner)) {entries : List Entry}
    (states : List.Forall₂ file.States
      ((Item.outline (.node label extent inner)).filter Outline.declares) entries) :
    (entries = [] ∧ declared? file (.node label extent inner) = none) ∨
      ∃ entry, entries = [entry] ∧ (∀ walk : Walk, walk.next entry = walk) ∧
        entry.declared? = declared? file (.node label extent inner) := by
  have here {rule : Rule} (known : rule ∈ rulesOf label) :=
    made (List.mem_singleton_self _) rule known
  -- What says nothing becomes no entry, and what says something becomes one.
  have silent : (Item.outline (.node label extent inner)).filter Outline.declares = [] →
      entries = [] := fun nothing => List.forall₂_nil_left_iff.1 (nothing ▸ states)
  have single {item : Outline}
      (one : (Item.outline (.node label extent inner)).filter Outline.declares = [item]) :
      ∃ entry, entries = [entry] ∧ file.States item entry := by
    obtain ⟨entry, _, stated, rest, rfl⟩ := List.forall₂_cons_left_iff.1 (one ▸ states)
    rw [List.forall₂_nil_left_iff.1 rest]
    exact ⟨entry, rfl, stated⟩
  cases label with
  | space => exact absurd rfl other
  | statement construct =>
      obtain ⟨entry, -, stated⟩ := single rfl
      cases stated
  | directive =>
      obtain ⟨entry, rfl, stated⟩ := single rfl
      cases stated with
      | directive known =>
          rw [file.slice_eq] at known
          refine .inr ⟨_, rfl, fun _ => rfl, ?_⟩
          rw [directive_plain (here (List.mem_singleton_self _)) plain known]
          rfl
  | imports =>
      obtain ⟨entry, rfl, stated⟩ := single rfl
      cases stated with
      | imports clauses =>
          refine .inr ⟨_, rfl, fun _ => rfl, ?_⟩
          rw [imports_eq_of_clauses clauses, file.slice_eq, Entry.declared?,
            imports_plain (here (List.mem_singleton_self _)) plain]
          rfl
  | «class» | interface | trait =>
      obtain ⟨entry, rfl, stated⟩ := single rfl
      cases entry with
      | type written =>
          refine .inr ⟨_, rfl, fun _ => rfl, ?_⟩
          rw [Entry.declared?, type_declared (here (List.mem_singleton_self _)) plain stated]
          rfl
      | _ => cases stated
  | _ => exact .inl ⟨silent rfl, rfl⟩

end

/-! ## All statements -/

theorem split_forall₂ {α β : Type} {related : α → β → Prop} {first second : List α} {ys : List β}
    (pairs : List.Forall₂ related (first ++ second) ys) :
    ∃ front back, ys = front ++ back ∧ List.Forall₂ related first front ∧
      List.Forall₂ related second back := by
  refine ⟨ys.take first.length, ys.drop first.length, (List.take_append_drop ..).symm, ?_, ?_⟩
  · simpa using List.forall₂_take first.length pairs
  · simpa using List.forall₂_drop first.length pairs

theorem placedFrom_append (walk : Walk) (front back : List Entry) :
    placedFrom walk (front ++ back) =
      placedFrom walk front ++ placedFrom (front.foldl Walk.next walk) back := by
  induction front generalizing walk with
  | nil => rfl
  | cons entry front ih => simp only [List.cons_append, placedFrom, ih, List.foldl_cons]

theorem declaredBy_append (front back : List Placed) :
    declaredBy (front ++ back) = declaredBy front ++ declaredBy back :=
  List.filterMap_append

/-- The namespace that holds after the items. -/
def spaceAfter (file : File) (space : String) (items : List Item) : String :=
  items.foldl (fun space item => (statementsOf file space item).2) space

@[simp] theorem statementsIn_one (file : File) (space : String) (item : Item) :
    statementsIn file space [item] = (statementsOf file space item).1 := by
  rw [statementsIn, statementsIn, List.append_nil]

@[simp] theorem spaceAfter_one (file : File) (space : String) (item : Item) :
    spaceAfter file space [item] = (statementsOf file space item).2 := rfl

theorem space_enter (walk : Walk) (name : String) :
    (walk.next (.enter name)).here.space = Name.normalize name := by
  simp only [Walk.next]

theorem next_leave {walk : Walk} {around : Standing} {outer : List Standing}
    (within : walk.outer = around :: outer) :
    (walk.next .leave).here = around ∧ (walk.next .leave).outer = outer := by
  simp only [Walk.next, within, and_self]

/-- The entries say what the items declare, and leave no namespace open. -/
structure Agrees (file : File) (items : List Item) (walk : Walk) (entries : List Entry) : Prop where
  declared : declaredBy (placedFrom walk entries) = declaredIn file walk.here.space items
  here : (entries.foldl Walk.next walk).here.space = spaceAfter file walk.here.space items
  outer : (entries.foldl Walk.next walk).outer = walk.outer

theorem Agrees.append {file : File} {item : Item} {items : List Item} {walk : Walk}
    {front back : List Entry} (first : Agrees file [item] walk front)
    (rest : Agrees file items (front.foldl Walk.next walk) back) :
    Agrees file (item :: items) walk (front ++ back) where
  declared := by
    have here := first.here
    rw [placedFrom_append, declaredBy_append, first.declared, rest.declared, here]
    simp [declaredIn, statementsIn, spaceAfter]
  here := by
    rw [List.foldl_append, rest.here, first.here]
    rfl
  outer := by rw [List.foldl_append, rest.outer, first.outer]

/-- Wherever the statements are plain, the entries say what the items declare. -/
def Readable (file : File) (items : List Item) : Prop :=
  ∀ (walk : Walk) (entries : List Entry),
    (∀ stated ∈ statementsIn file walk.here.space items, PlainStatement file.source stated.2) →
    List.Forall₂ file.States ((Item.outlines items).filter Outline.declares) entries →
    Agrees file items walk entries

section

variable {file : File} {extent : Extent} {inner items : List Item} {item : Item}

theorem Readable.nil : Readable file [] := by
  intro walk entries _ states
  obtain rfl := List.forall₂_nil_left_iff.1 states
  exact ⟨rfl, rfl, rfl⟩

theorem Readable.cons (first : Readable file [item]) (rest : Readable file items) :
    Readable file (item :: items) := by
  intro walk entries plain states
  rw [Item.outlines, List.filter_append] at states
  obtain ⟨front, back, rfl, left, right⟩ := split_forall₂ states
  have agrees := first walk front (fun stated listed => plain stated ?_) ?_
  · refine agrees.append (rest _ back (fun stated listed => plain stated ?_) right)
    rw [agrees.here] at listed
    rw [statementsIn]
    exact List.mem_append_right _ listed
  · rw [statementsIn] at listed ⊢
    exact List.mem_append_left _ (by simpa [statementsIn] using listed)
  · rwa [Item.outlines, Item.outlines, List.append_nil]

theorem Readable.trivia (found : Trivia) : Readable file [.trivia found] := by
  intro walk entries _ states
  have silent : (Item.outlines [.trivia found]).filter Outline.declares = [] := by
    obtain ⟨kind, _, _⟩ := found
    cases kind <;> rfl
  rw [silent] at states
  obtain rfl := List.forall₂_nil_left_iff.1 states
  exact ⟨rfl, rfl, rfl⟩

theorem Readable.statement {label : Label} (other : label ≠ .space)
    (made : Made file.source [.node label extent inner]) :
    Readable file [.node label extent inner] := by
  intro walk entries plain states
  have stated : statementsIn file walk.here.space [.node label extent inner] =
      [(walk.here.space, .node label extent inner)] := by
    simp [statementsIn, statementsOf, other]
  have after : spaceAfter file walk.here.space [.node label extent inner] = walk.here.space := by
    simp [spaceAfter, statementsOf, other]
  rw [Item.outlines, Item.outlines, List.append_nil] at states
  have declared := statement_declared other made
    (plain _ (stated ▸ List.mem_singleton_self _)) states
  rcases declared with ⟨rfl, nothing⟩ | ⟨entry, rfl, stays, same⟩
  · refine ⟨?_, after.symm, rfl⟩
    rw [declaredIn, stated]
    simp [placedFrom, declaredBy, nothing]
  · refine ⟨?_, ?_, ?_⟩
    · rw [declaredIn, stated, placedFrom, placedFrom, declaredBy, List.filterMap_cons,
        List.filterMap_cons, same]
      rfl
    · simp [stays, after]
    · simp [stays]

theorem bodyStatements_eq (file : File) (space : String) (items : List Item) :
    bodyStatements file space items = (inners .body items).head?.map (statementsIn file space) := by
  induction items with
  | nil => rfl
  | cons item items ih =>
      cases item with
      | trivia found => exact ih
      | node label extent inner =>
          by_cases body : label = .body
          · subst body
            simp [bodyStatements]
          · rw [inners_cons, if_neg body, ← ih, bodyStatements]
            rintro _ _ ⟨⟩
            exact body rfl

theorem outline_space :
    (Item.outline (.node .space extent inner)).filter Outline.declares =
      match (inners .body inner).head? with
      | none => [.begin_ (spaceSpan inner)]
      | some body => .enter (spaceSpan inner) ::
          ((Item.outlines body).filter Outline.declares ++ [.leave]) := by
  rw [Item.outline, findSome?_extent?, Item.bodyOutline_eq, findSome?_items?]
  cases (inners .body inner).head? with
  | none => rfl
  | some body =>
      show List.filter _ (_ :: (_ ++ [_])) = _
      rw [List.filter_cons_of_pos rfl, List.filter_append]
      rfl

/-- **A namespace** with a body is left again at its end. -/
theorem Readable.space
    (bodies : ∀ extent' body, .node .body extent' body ∈ inner → Readable file body) :
    Readable file [.node .space extent inner] := by
  intro walk entries plain states
  rw [Item.outlines, Item.outlines, List.append_nil, outline_space] at states
  have stated : statementsOf file walk.here.space (.node .space extent inner) =
      match (inners .body inner).head? with
      | none => ([], spaceOf file inner)
      | some body => (statementsIn file (spaceOf file inner) body, walk.here.space) := by
    rw [statementsOf, if_pos rfl, bodyStatements_eq]
    cases (inners .body inner).head? <;> rfl
  cases first : (inners .body inner).head? with
  | none =>
      simp only [first] at states stated
      obtain ⟨entry, _, here, rest, rfl⟩ := List.forall₂_cons_left_iff.1 states
      obtain rfl := List.forall₂_nil_left_iff.1 rest
      cases here
      refine ⟨?_, ?_, rfl⟩
      · rw [declaredIn, statementsIn_one, stated]
        rfl
      · rw [spaceAfter_one, stated]
        rfl
  | some body =>
      simp only [first] at states stated
      obtain ⟨⟨extent', _⟩, part, rfl⟩ := List.mem_map.1 (List.mem_of_mem_head? first)
      obtain ⟨entry, others, here, rest, rfl⟩ := List.forall₂_cons_left_iff.1 states
      obtain ⟨inside, last, rfl, within, closing⟩ := split_forall₂ rest
      obtain ⟨entry', _, here', rest', rfl⟩ := List.forall₂_cons_left_iff.1 closing
      obtain rfl := List.forall₂_nil_left_iff.1 rest'
      cases here
      cases here'
      rw [statementsIn_one, stated, spaceOf] at plain
      obtain ⟨declared, -, outer⟩ := bodies extent' _ (mem_parts.1 part)
        (walk.next (.enter (file.spaceName (spaceSpan inner)))) inside
        (by rw [space_enter]; exact plain) within
      rw [space_enter] at declared
      obtain ⟨back, around⟩ := next_leave outer
      refine ⟨?_, ?_, ?_⟩
      · rw [placedFrom, placedFrom_append, ← List.singleton_append, declaredBy_append,
          declaredBy_append, declared, declaredIn, declaredIn, statementsIn_one, stated, spaceOf]
        exact List.append_nil _
      · rw [spaceAfter_one, stated, List.foldl_cons, List.foldl_append, List.foldl_cons,
          List.foldl_nil, back]
      · rw [List.foldl_cons, List.foldl_append, List.foldl_cons, List.foldl_nil, around]

theorem Made.one {item : Item} (made : Made file.source items) (listed : item ∈ items) :
    Made file.source [item] :=
  fun _ _ _ inside => made (List.mem_singleton.1 inside ▸ listed)

/-- The statements in the body of a namespace are made by the rules of statements. -/
theorem made_body (made : Made file.source items) (listed : .node .space extent inner ∈ items)
    {extent' : Extent} {body : List Item} (inside : .node .body extent' body ∈ inner) :
    Made file.source body := by
  have space := made listed _ (List.mem_singleton_self Grammar.namespaceStatement)
  have here : OccursAt file.source (.category .block) _ _ body :=
    node_of_mem space.occurs (by decide) (by decide) inside
  exact made_of_category here.occurs

/-- **All statements.** Items are walked through as they are nested. -/
theorem readable (items : List Item) (made : Made file.source items) : Readable file items := by
  match items with
  | [] => exact .nil
  | .trivia found :: items =>
      exact .cons (.trivia found) (readable items fun _ _ _ listed => made (.tail _ listed))
  | .node label extent inner :: items =>
      have rest := readable items fun _ _ _ listed => made (.tail _ listed)
      by_cases space : label = .space
      · subst space
        refine .cons (.space fun extent' body listed => ?_) rest
        have smaller : sizeOf body < sizeOf inner := by
          have within := List.sizeOf_lt_of_mem listed
          rw [Item.node.sizeOf_spec] at within
          omega
        exact readable body (made_body made List.mem_cons_self listed)
      · exact .cons (.statement space (made.one List.mem_cons_self)) rest
termination_by sizeOf items

end

/-- The file of a source text with this tree. -/
def File.ofTree (source : String) (tree : SyntaxTree) : File where
  text := (expandTabsFrom (literalSpans source.toList) 0 source.toList).toArray
  literals := tree.literals

/-- What the tree of a source text declares. -/
def declaredOf (source : String) (tree : SyntaxTree) : List (String × Declared) :=
  declaredIn (.ofTree source tree) "" tree.items

/-- All statements of the tree of a source text are plain. -/
def PlainTree (source : String) (tree : SyntaxTree) : Prop :=
  ∀ stated ∈ statementsIn (.ofTree source tree) "" tree.items,
    PlainStatement (File.ofTree source tree).source stated.2

instance (source : String) (tree : SyntaxTree) : Decidable (PlainTree source tree) :=
  inferInstanceAs (Decidable (∀ stated ∈ statementsIn (.ofTree source tree) "" tree.items, _))

/-- **What was read is what the nodes declare**, in order, and each in its namespace. -/
theorem declaredBy_placed {source : String} {tree : SyntaxTree} {doc : List String}
    {entries : List Entry}
    (grammatical : SyntaxTree.read (expandTabsFrom (literalSpans source.toList) 0 source.toList) =
      .ok tree)
    (read : (File.ofTree source tree).entries doc tree.outline = .ok entries)
    (plain : PlainTree source tree) : declaredBy (placed entries) = declaredOf source tree := by
  have chars : (File.ofTree source tree).source =
      expandTabsFrom (literalSpans source.toList) 0 source.toList := by
    rw [File.source, File.ofTree, List.toList_toArray]
  rw [← chars] at grammatical
  obtain ⟨tokens, laid, derives⟩ := SyntaxTree.read_derives grammatical
  have states := File.entries_states read
  rw [SyntaxTree.outline] at states
  cases markup : tree.markupLine with
  | none =>
      rw [markup] at states
      have made := made_of_file ⟨tokens, laid, rfl, derives⟩
      exact (readable tree.items made .start entries plain states).declared
  | some line =>
      rw [markup] at states
      obtain ⟨entry, _, stated, -⟩ := List.forall₂_cons_left_iff.1 states
      cases stated

end Declaration

end Emend

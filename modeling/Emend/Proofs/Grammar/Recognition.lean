import Emend.Proofs.Grammar.Derivation

/-!
# What the recognizer reads is derived

A thread with its frames is a list of goals with what was recorded on the way to them. It is
right about the tokens read so far if every way to complete the goals makes them, with the tokens
of the goals, a derivation of the rule that is read (`Scan.Leads`). Reading a token keeps all
threads right (`Recognizer.Sound.read`), so a thread with nothing left has found a derivation
(`Recognizer.Sound.derives`).

The argument goes from the end of the text to its beginning, as building the tree does: what the
goals will make is given, and the record of the thread is gone back over.
-/

set_option autoImplicit false

namespace Emend

namespace Scan

variable {root rule : Rule} {tokens : List Token} {token : Token} {stop : Nat}
  {goals : List Goal} {events : List Event}

/-! ## Records -/

theorem buildAll_append (builder : Builder) (events others : List Event) :
    buildAll builder (events ++ others) = buildAll (buildAll builder events) others := by
  induction events generalizing builder with
  | nil => rfl
  | cons event events ih => exact ih (build builder event)

/-- What was recorded inside of a category counts as if it stood outside. -/
theorem buildAll_inner (builder : Builder) (inside others : List Event) :
    buildAll builder (.inner inside :: others) = buildAll builder (inside ++ others) := by
  rw [buildAll, build, buildAll_append]

theorem buildAll_trivia (builder : Builder) (trivia : List Trivia) :
    buildAll builder (trivia.map .trivia) =
      { builder with items := trivia.reverse.map .trivia ++ builder.items } := by
  induction trivia generalizing builder with
  | nil => rfl
  | cons first trivia ih =>
      rw [List.map_cons, buildAll, build, ih]
      simp

/-- Put items before those of a builder. -/
def Builder.prepend (items : List Item) (builder : Builder) : Builder :=
  { builder with items := items ++ builder.items }

@[simp] theorem Builder.prepend_nil (builder : Builder) : builder.prepend [] = builder := rfl

theorem Builder.prepend_prepend (items more : List Item) (builder : Builder) :
    (builder.prepend more).prepend items = builder.prepend (items ++ more) := by
  rw [prepend, prepend, prepend, List.append_assoc]

/-! ## Completing goals -/

/-- The goals stand for the tokens, the last token before which ended at a place, and the builder
holds what is made of them. -/
inductive Completes : List Goal → Nat → List Token → Builder → Prop
  | nil {stop : Nat} : Completes [] stop [] ⟨[], []⟩
  | close {goals : List Goal} {stop : Nat} {tokens : List Token} {builder : Builder}
      (rest : Completes goals stop tokens builder) :
      Completes (.close :: goals) stop tokens ⟨[], (stop, builder.items) :: builder.around⟩
  | rule {rule : Rule} {goals : List Goal} {stop : Nat} {tokens others : List Token}
      {items : List Item} {builder : Builder} (first : rule.Derives tokens items)
      (rest : Completes goals (stopAfter stop tokens) others builder) :
      Completes (.rule rule :: goals) stop (tokens ++ others) (builder.prepend items)

/-- Whatever completes the goals makes a derivation of the tokens read before. -/
def Leads (root : Rule) (tokens : List Token) (stop : Nat) (goals : List Goal)
    (events : List Event) : Prop :=
  ∀ others builder, Completes goals stop others builder →
    ∃ items, buildAll builder events = ⟨items, []⟩ ∧ root.Derives (tokens ++ others) items

/-- Whatever lets the rule begin with the token, and completes the goals after it, makes a
derivation of the tokens read before. -/
def Begins (root : Rule) (tokens : List Token) (token : Token) (rule : Rule) (goals : List Goal)
    (events : List Event) : Prop :=
  ∀ taken items others builder, rule.Derives (token.bare :: taken) items →
    Completes goals (stopAfter token.extent.span.stop taken) others builder →
      ∃ all, buildAll (builder.prepend items) events = ⟨all, []⟩ ∧
        root.Derives (tokens ++ token :: (taken ++ others)) all

theorem leads_rule (rule : Rule) : Leads rule [] stop [.rule rule] [] := by
  intro others builder completes
  cases completes with
  | rule first rest =>
      cases rest
      exact ⟨_, rfl, by simpa [Builder.prepend] using first⟩

namespace Leads

theorem derives (leads : Leads root tokens stop [] events) :
    root.Derives tokens (itemsOf events) := by
  obtain ⟨items, built, derived⟩ := leads [] ⟨[], []⟩ .nil
  rw [List.append_nil] at derived
  rwa [itemsOf, built]

/-- A node ends where the last token did. -/
theorem close (leads : Leads root tokens stop (.close :: goals) events) :
    Leads root tokens stop goals (.closed stop :: events) :=
  fun others _ completes => leads others _ (.close completes)

theorem skip (leads : Leads root tokens stop (.rule rule :: goals) events)
    (skips : rule.skippable = true) : Leads root tokens stop goals events :=
  fun others builder completes =>
    leads others builder (.rule (Rule.derives_nil skips) completes)

theorem inner {inside : List Event} (leads : Leads root tokens stop goals (inside ++ events)) :
    Leads root tokens stop goals (.inner inside :: events) := by
  intro others builder completes
  rw [buildAll_inner]
  exact leads others builder completes

theorem begins (leads : Leads root tokens stop (.rule rule :: goals) events) :
    Begins root tokens token rule goals (token.trivia.map .trivia ++ events) := by
  intro taken items others builder derives completes
  obtain ⟨all, built, derived⟩ := leads _ _ (.rule derives.lead (by simpa using completes))
  refine ⟨all, ?_, by simpa using derived⟩
  rw [buildAll_append, buildAll_trivia, ← built, Builder.prepend, Builder.prepend, Token.before]
  simp

end Leads

/-! ## Starts -/

theorem open_eq (labels : List Label) (extent : Extent) (events : List Event) :
    Recognizer.open_ labels extent events =
      (labels.map fun label => Event.opened label extent.span.start extent.line).reverse ++
        events := by
  induction labels generalizing events with
  | nil => rfl
  | cons label labels ih =>
      simp only [Recognizer.open_, List.foldl_cons] at ih ⊢
      rw [ih]
      simp

theorem starts_append (t : Terminal) (rule : Rule) (labels : List Label)
    (goals more : List Goal) :
    rule.starts t labels (goals ++ more) =
      (rule.starts t labels goals).map fun start => { start with goals := start.goals ++ more } := by
  induction rule generalizing labels goals with
  | empty => rfl
  | terminal u =>
      simp only [Rule.starts]
      split <;> rfl
  | category c =>
      simp only [Rule.starts]
      split <;> rfl
  | sequence first second ihFirst ihSecond =>
      simp only [Rule.starts, List.map_append]
      rw [← List.cons_append, ihFirst]
      split
      · rw [ihSecond]
      · rfl
  | choice left right ihLeft ihRight =>
      simp only [Rule.starts, List.map_append, ihLeft, ihRight]
  | optional rule ih | eager rule ih => exact ih labels goals
  | many rule ih => exact ih labels (.rule (.many rule) :: goals)
  | node label rule ih => exact ih (labels ++ [label]) (.close :: goals)

/-- How a start goes on: with nothing, or with the rest of the category it calls. -/
def GoesOn (token : Token) : Option Category → List Token → List Item → Prop
  | none, taken, items => taken = [] ∧ items = []
  | some c, taken, items => (Grammar.rule c).Derives (token.bare :: taken) items

/-- The rule begins with the token, inside of nodes with these labels, and takes some of the tokens
after it; the others complete the goals. The builder stands behind the labels. -/
inductive Begun (token : Token) (rule : Rule) (goals : List Goal) (labels : List Label)
    (tokens : List Token) (builder : Builder) : Prop
  | intro {taken rest : List Token} {items : List Item} {after : Builder}
      (split : tokens = taken ++ rest) (derives : rule.Derives (token.bare :: taken) items)
      (completes : Completes goals (stopAfter token.extent.span.stop taken) rest after)
      (built : buildAll builder (Recognizer.open_ labels token.extent []) = after.prepend items)

namespace Begun

variable {first second : Rule} {label : Label} {labels : List Label} {builder : Builder}

theorem imp (begun : Begun token first goals labels tokens builder)
    (weaker : ∀ {taken items}, first.Derives taken items → second.Derives taken items) :
    Begun token second goals labels tokens builder := by
  obtain ⟨split, derives, completes, built⟩ := begun
  exact ⟨split, weaker derives, completes, built⟩

/-- What a goal after the rule makes may belong to the rule. -/
theorem join (begun : Begun token first (.rule second :: goals) labels tokens builder)
    (both : ∀ {taken items others more}, first.Derives taken items → second.Derives others more →
      rule.Derives (taken ++ others) (items ++ more)) :
    Begun token rule goals labels tokens builder := by
  obtain ⟨rfl, derives, completes, built⟩ := begun
  cases completes with
  | rule derivesMore completesRest =>
      rw [← stopAfter_append] at completesRest
      rw [Builder.prepend_prepend] at built
      exact ⟨(List.append_assoc ..).symm, both derives derivesMore, completesRest, built⟩

/-- A node that is closed after the rule is opened before it. -/
theorem node (begun : Begun token rule (.close :: goals) labels tokens builder) :
    Begun token (.node label rule) goals (label :: labels) tokens builder := by
  obtain ⟨rfl, derives, completes, built⟩ := begun
  cases completes with
  | close completesRest =>
      have opened : Recognizer.open_ (label :: labels) token.extent [] =
          Recognizer.open_ labels token.extent [] ++
            [.opened label token.extent.span.start token.extent.line] := by
        simp [open_eq]
      refine ⟨rfl, .node derives, completesRest, ?_⟩
      rw [opened, buildAll_append, built]
      simp [Builder.prepend, buildAll, build]

end Begun

/-- **One start** of a rule, and what completes its goals, make a derivation of the rule. -/
theorem starts_begun {start : Start} {labels : List Label}
    (listed : start ∈ rule.starts token.terminal labels goals) {taken others : List Token}
    {items : List Item} {builder : Builder} (goesOn : GoesOn token start.call taken items)
    (completes :
      Completes start.goals (stopAfter token.extent.span.stop taken) others builder) :
    ∃ inner, start.labels = labels ++ inner ∧
      Begun token rule goals inner (taken ++ others) (builder.prepend items) := by
  induction rule generalizing labels goals with
  | empty => cases listed
  | terminal u =>
      rw [Rule.starts] at listed
      split at listed
      · rename_i same
        obtain rfl := List.mem_singleton.1 listed
        obtain ⟨rfl, rfl⟩ := goesOn
        obtain rfl := eq_of_beq same
        exact ⟨[], by simp, .intro rfl (.terminal token.bare) completes rfl⟩
      · cases listed
  | category c =>
      rw [Rule.starts] at listed
      split at listed
      · obtain rfl := List.mem_singleton.1 listed
        exact ⟨[], by simp, rfl, .category goesOn, completes, rfl⟩
      · cases listed
  | sequence first second ihFirst ihSecond =>
      rw [Rule.starts] at listed
      rcases List.mem_append.1 listed with here | later
      · obtain ⟨inner, labelled, begun⟩ := ihFirst here
        exact ⟨inner, labelled, begun.join .sequence⟩
      · split at later
        · rename_i skips
          obtain ⟨inner, labelled, begun⟩ := ihSecond later
          exact ⟨inner, labelled, begun.imp (.sequence (Rule.derives_nil skips))⟩
        · cases later
  | choice left right ihLeft ihRight =>
      rw [Rule.starts] at listed
      rcases List.mem_append.1 listed with here | here
      · obtain ⟨inner, labelled, begun⟩ := ihLeft here
        exact ⟨inner, labelled, begun.imp .left⟩
      · obtain ⟨inner, labelled, begun⟩ := ihRight here
        exact ⟨inner, labelled, begun.imp .right⟩
  | optional rule ih =>
      obtain ⟨inner, labelled, begun⟩ := ih listed
      exact ⟨inner, labelled, begun.imp .within⟩
  | eager rule ih =>
      obtain ⟨inner, labelled, begun⟩ := ih listed
      exact ⟨inner, labelled, begun.imp .eager⟩
  | many rule ih =>
      obtain ⟨inner, labelled, begun⟩ := ih listed
      exact ⟨inner, labelled, begun.join .more⟩
  | node label rule ih =>
      obtain ⟨inner, labelled, begun⟩ := ih listed
      exact ⟨label :: inner, by simp [labelled], begun.node⟩

namespace Begins

variable {start : Start} (begins : Begins root tokens token rule goals events)
  (listed : start ∈ rule.starts token.terminal [] goals)

include begins listed

theorem goesOn {taken others : List Token} {items : List Item} {builder : Builder}
    (goesOn : GoesOn token start.call taken items)
    (completes :
      Completes start.goals (stopAfter token.extent.span.stop taken) others builder) :
    ∃ all, buildAll (builder.prepend items)
        (Recognizer.open_ start.labels token.extent events) = ⟨all, []⟩ ∧
      root.Derives (tokens ++ token :: (taken ++ others)) all := by
  obtain ⟨inner, labelled, split, derives, goesThere, built⟩ := starts_begun listed goesOn completes
  obtain ⟨all, whole, derived⟩ := begins _ _ _ _ derives goesThere
  refine ⟨all, ?_, by rwa [split]⟩
  rw [labelled, List.nil_append, open_eq, buildAll_append]
  rw [open_eq, List.append_nil] at built
  rw [built, whole]

/-- A start that calls no category has read the token. -/
theorem leads (direct : start.call = none) :
    Leads root (tokens ++ [token]) token.extent.span.stop start.goals
      (Recognizer.open_ start.labels token.extent events) := by
  intro others builder completes
  have nothing : GoesOn token start.call [] [] := by
    rw [direct]
    exact ⟨rfl, rfl⟩
  simpa using begins.goesOn listed nothing completes

/-- A category that a start calls has to begin with the token. -/
theorem call {c : Category} (called : start.call = some c) :
    Begins root tokens token (Grammar.rule c) start.goals
      (Recognizer.open_ start.labels token.extent events) := by
  intro taken items others builder derives completes
  have rest : GoesOn token start.call taken items := by
    rw [called]
    exact derives
  exact begins.goesOn listed rest completes

end Begins

/-! ## Frames -/

/-- What is left after a category, and what was recorded before it, by one of the ways back
through the frames. -/
inductive Path (frames : Array (List Thread)) : Nat → List Goal → List Event → Prop
  | bottom : Path frames 0 [] []
  | back {frame : Nat} {thread : Thread} {goals : List Goal} {events : List Event}
      (listed : thread ∈ (frames[frame]?).getD []) (rest : Path frames thread.frame goals events) :
      Path frames frame (thread.goals ++ goals) (thread.events ++ events)

/-- A frame leads back to earlier frames. -/
def Grounded (frames : Array (List Thread)) : Prop :=
  ∀ frame : Nat, ∀ thread ∈ (frames[frame]?).getD [], thread.frame < frame

theorem lt_size_of_mem {frames : Array (List Thread)} {frame : Nat} {thread : Thread}
    (listed : thread ∈ (frames[frame]?).getD []) : frame < frames.size := by
  refine Decidable.byContradiction fun outside => ?_
  rw [Array.getElem?_eq_none (Nat.not_lt.1 outside)] at listed
  cases listed

theorem mem_push {frames : Array (List Thread)} {more : List Thread} {frame : Nat}
    {thread : Thread} (listed : thread ∈ ((frames.push more)[frame]?).getD []) :
    (frame = frames.size ∧ thread ∈ more) ∨ thread ∈ (frames[frame]?).getD [] := by
  rw [Array.getElem?_push] at listed
  split at listed
  · rename_i last
    exact .inl ⟨last, listed⟩
  · exact .inr listed

theorem Grounded.push {frames : Array (List Thread)} (grounded : Grounded frames)
    {more : List Thread} (earlier : ∀ thread ∈ more, thread.frame < frames.size) :
    Grounded (frames.push more) := by
  intro frame thread listed
  rcases mem_push listed with ⟨rfl, fresh⟩ | old
  · exact earlier thread fresh
  · exact grounded frame thread old

/-- A new frame does not change the ways back from the frames before it. -/
theorem Path.of_push {frames : Array (List Thread)} {more : List Thread}
    (grounded : Grounded frames) {frame : Nat} (path : Path (frames.push more) frame goals events)
    (old : frame < frames.size) : Path frames frame goals events := by
  induction path with
  | bottom => exact .bottom
  | @back frame thread _ _ listed _ ih =>
      rcases mem_push listed with ⟨rfl, -⟩ | earlier
      · exact absurd old (Nat.lt_irrefl _)
      · exact .back earlier (ih (Nat.lt_trans (grounded frame thread earlier) old))

theorem Path.of_push_size {frames : Array (List Thread)} {more : List Thread} (grounded : Grounded frames)
    (earlier : ∀ thread ∈ more, thread.frame < frames.size) (positive : 0 < frames.size)
    (path : Path (frames.push more) frames.size goals events) :
    ∃ thread ∈ more, ∃ left before, Path frames thread.frame left before ∧
      goals = thread.goals ++ left ∧ events = thread.events ++ before := by
  generalize new : frames.size = frame at path
  cases path with
  | bottom => omega
  | back listed rest =>
      subst new
      rcases mem_push listed with ⟨-, fresh⟩ | old
      · exact ⟨_, fresh, _, _, rest.of_push grounded (earlier _ fresh), rfl, rfl⟩
      · exact absurd (lt_size_of_mem old) (Nat.lt_irrefl _)

/-- Goals, a record and the frame they are in are right about the tokens read so far, whatever
way back is taken from the frame. -/
structure LeadsFrom (root : Rule) (tokens : List Token) (stop : Nat)
    (frames : Array (List Thread)) (goals : List Goal) (events : List Event) (frame : Nat) :
    Prop where
  inside : frame < frames.size
  leads : ∀ left before, Path frames frame left before →
    Leads root tokens stop (goals ++ left) (events ++ before)

/-- The same of a rule that has to begin with the next token. -/
structure BeginsFrom (root : Rule) (tokens : List Token) (token : Token)
    (frames : Array (List Thread)) (rule : Rule) (goals : List Goal) (events : List Event)
    (frame : Nat) : Prop where
  inside : frame < frames.size
  begins : ∀ left before, Path frames frame left before →
    Begins root tokens token rule (goals ++ left) (events ++ before)

variable {frames : Array (List Thread)} {frame : Nat}

theorem LeadsFrom.push (leads : LeadsFrom root tokens stop frames goals events frame)
    (grounded : Grounded frames) (more : List Thread) :
    LeadsFrom root tokens stop (frames.push more) goals events frame where
  inside := by
    rw [Array.size_push]
    exact Nat.lt_succ_of_lt leads.inside
  leads left before path := leads.leads left before (path.of_push grounded leads.inside)

theorem BeginsFrom.push (begins : BeginsFrom root tokens token frames rule goals events frame)
    (grounded : Grounded frames) (more : List Thread) :
    BeginsFrom root tokens token (frames.push more) rule goals events frame where
  inside := by
    rw [Array.size_push]
    exact Nat.lt_succ_of_lt begins.inside
  begins left before path := begins.begins left before (path.of_push grounded begins.inside)

theorem LeadsFrom.begins
    (leads : LeadsFrom root tokens stop frames (.rule rule :: goals) events frame) :
    BeginsFrom root tokens token frames rule goals (token.trivia.map .trivia ++ events) frame where
  inside := leads.inside
  begins left before path := by
    rw [List.append_assoc]
    exact (leads.leads left before path).begins

/-- More goals after a rule are more goals after each of its starts. -/
theorem start_append {start : Start} (listed : start ∈ rule.starts token.terminal [] goals)
    (left : List Goal) :
    { start with goals := start.goals ++ left } ∈
      rule.starts token.terminal [] (goals ++ left) := by
  rw [starts_append]
  exact List.mem_map_of_mem listed

namespace BeginsFrom

variable {start : Start}
  (begins : BeginsFrom root tokens token frames rule goals events frame)
  (listed : start ∈ rule.starts token.terminal [] goals)

include begins listed

theorem leads (direct : start.call = none) :
    LeadsFrom root (tokens ++ [token]) token.extent.span.stop frames start.goals
      (Recognizer.open_ start.labels token.extent events) frame where
  inside := begins.inside
  leads left before path := by
    have leads := (begins.begins left before path).leads (start_append listed left) direct
    simpa [open_eq] using leads

theorem call {c : Category} (called : start.call = some c) :
    BeginsFrom root tokens token frames (Grammar.rule c) start.goals
      (Recognizer.open_ start.labels token.extent events) frame where
  inside := begins.inside
  begins left before path := by
    have begins := (begins.begins left before path).call (start_append listed left) called
    simpa [open_eq] using begins

end BeginsFrom

end Scan

open Scan

namespace Thread

variable {root : Rule} {tokens : List Token} {stop : Nat} {frames : Array (List Thread)}

/-- With nothing left in its category, a thread goes on in the frame around it. -/
theorem leadsFrom_resume {frame : Nat} {events : List Event} {thread : Thread}
    (leads : LeadsFrom root tokens stop frames [] events frame) (grounded : Grounded frames)
    (back : thread ∈ (frames[frame]?).getD []) :
    LeadsFrom root tokens stop frames (thread.resume events).goals (thread.resume events).events
      (thread.resume events).frame := by
  have earlier : thread.frame < frames.size :=
    Nat.lt_trans (grounded frame thread back) leads.inside
  unfold resume
  split
  · rename_i silent
    obtain rfl := List.isEmpty_iff.1 silent
    exact ⟨earlier, fun left before path => leads.leads _ _ (.back back path)⟩
  · refine ⟨earlier, fun left before path => Leads.inner ?_⟩
    exact leads.leads _ _ (.back back path)

/-- Passing over goals in one category keeps what is left right. -/
theorem openingsHere_leads (refused : List Rule) {events : List Event} {goals : List Goal}
    {frame : Nat} (leads : LeadsFrom root tokens stop frames goals events frame) :
    (∀ opening ∈ (openingsHere stop frame refused events goals).1,
      LeadsFrom root tokens stop frames (.rule opening.rule :: opening.goals) opening.events
        opening.frame) ∧
    ∀ refused' events', (openingsHere stop frame refused events goals).2 = some (refused', events') →
      LeadsFrom root tokens stop frames [] events' frame := by
  induction goals generalizing refused events with
  | nil =>
      refine ⟨fun _ listed => absurd listed List.not_mem_nil, fun _ _ passed => ?_⟩
      cases passed
      exact leads
  | cons goal goals ih =>
      cases goal with
      | close =>
          exact ih refused
            ⟨leads.inside, fun left before path => (leads.leads left before path).close⟩
      | rule rule =>
          cases skips : rule.skippable with
          | false =>
              simp only [openingsHere, skips, Bool.false_eq_true, if_false]
              refine ⟨fun opening listed => ?_, fun _ _ passed => absurd passed nofun⟩
              obtain rfl := List.mem_singleton.1 listed
              exact leads
          | true =>
              obtain ⟨others, passed⟩ := ih (rule.refusals ++ refused)
                ⟨leads.inside, fun left before path => (leads.leads left before path).skip skips⟩
              simp only [openingsHere, skips, if_true]
              refine ⟨fun opening listed => ?_, passed⟩
              rcases List.mem_cons.1 listed with rfl | later
              · exact leads
              · exact others opening later

theorem openings_leads {depth frame : Nat} {refused : List Rule} {goals : List Goal}
    {events : List Event} (grounded : Grounded frames)
    (leads : LeadsFrom root tokens stop frames goals events frame) :
    ∀ opening ∈ openings frames stop depth refused goals events frame,
      LeadsFrom root tokens stop frames (.rule opening.rule :: opening.goals) opening.events
        opening.frame := by
  induction depth generalizing frame refused goals events with
  | zero => exact (openingsHere_leads refused leads).1
  | succ depth ih =>
      obtain ⟨here, through⟩ := openingsHere_leads refused leads
      intro opening listed
      rw [openings] at listed
      cases passed : (openingsHere stop frame refused events goals).2 with
      | none =>
          simp only [passed] at listed
          exact here opening listed
      | some state =>
          obtain ⟨refused', events'⟩ := state
          simp only [passed, List.mem_append, List.mem_flatMap] at listed
          rcases listed with first | ⟨thread, back, later⟩
          · exact here opening first
          · split at later
            · exact ih (leadsFrom_resume (through refused' events' passed) grounded back) opening later
            · cases later

end Thread

namespace Recognizer

variable {root : Rule} {tokens : List Token} {token : Token} {stop : Nat}
  {frames : Array (List Thread)}

/-- All threads, and the rules that they may go on with, are right about the tokens. -/
structure Sound (root : Rule) (tokens : List Token) (stop : Nat) (recognizer : Recognizer) :
    Prop where
  grounded : Grounded recognizer.frames
  threads : ∀ thread ∈ recognizer.threads,
    LeadsFrom root tokens stop recognizer.frames thread.goals thread.events thread.frame
  openings : ∀ opening ∈ recognizer.openings,
    LeadsFrom root tokens stop recognizer.frames (.rule opening.rule :: opening.goals)
      opening.events opening.frame

theorem mem_of_mem_distinct {threads : List Thread} {thread : Thread}
    (listed : thread ∈ distinct threads) : thread ∈ threads := by
  induction threads with
  | nil => cases listed
  | cons first threads ih =>
      rw [distinct, List.foldr_cons, ← distinct] at listed
      rcases List.mem_cons.1 listed with rfl | later
      · exact List.mem_cons_self
      · exact List.mem_cons_of_mem _ (ih (List.mem_filter.1 later).1)

/-- **Threads that are right** make a recognizer that is. -/
theorem sound_settle {threads : List Thread} (grounded : Grounded frames)
    (leads : ∀ thread ∈ threads,
      LeadsFrom root tokens stop frames thread.goals thread.events thread.frame) :
    Sound root tokens stop (settle frames threads stop) := by
  have kept : ∀ thread ∈ (settle frames threads stop).threads, thread ∈ threads := by
    intro thread listed
    cases threads with
    | nil => exact listed
    | cons first threads =>
        cases threads with
        | nil => exact listed
        | cons second threads => exact mem_of_mem_distinct listed
  refine ⟨grounded, fun thread listed => leads thread (kept thread listed), fun opening listed => ?_⟩
  obtain ⟨thread, there, opens⟩ := List.mem_flatMap.1 listed
  exact Thread.openings_leads grounded (leads thread (kept thread there)) opening opens

theorem sound_ofRule (rule : Rule) : Sound rule [] 0 (ofRule rule) := by
  have empty : ∀ frame : Nat, (((#[[]] : Array (List Thread))[frame]?).getD []) = [] := by
    intro frame
    cases frame with
    | zero => rfl
    | succ frame => rfl
  refine sound_settle (fun frame thread listed => ?_) fun thread listed => ?_
  · rw [empty] at listed
    cases listed
  · obtain rfl := List.mem_singleton.1 listed
    refine ⟨Nat.zero_lt_one, fun left before path => ?_⟩
    cases path with
    | bottom => exact leads_rule rule
    | back listed _ =>
        rw [empty] at listed
        cases listed

/-! ## Reading a token -/

/-- A category that is to be entered has to begin with the token. -/
def Call.Sound (root : Rule) (tokens : List Token) (token : Token) (frames : Array (List Thread))
    (call : Call) : Prop :=
  BeginsFrom root tokens token frames (Grammar.rule call.category) call.back.goals
    call.back.events call.back.frame

/-- The threads that read the token are right, and so are the categories to be entered. -/
theorem starts_sound {rule : Rule} {goals : List Goal} {events : List Event} {frame : Nat}
    (begins : BeginsFrom root tokens token frames rule goals events frame) :
    (∀ thread ∈ direct token.extent events frame (rule.starts token.terminal [] goals),
      LeadsFrom root (tokens ++ [token]) token.extent.span.stop frames thread.goals thread.events
        thread.frame) ∧
    ∀ call ∈ calls token.extent events frame (rule.starts token.terminal [] goals),
      call.Sound root tokens token frames := by
  constructor
  · intro thread listed
    obtain ⟨start, there, rfl⟩ := List.mem_map.1 listed
    obtain ⟨begun, direct⟩ := List.mem_filter.1 there
    exact begins.leads begun (Option.isNone_iff_eq_none.1 direct)
  · intro call listed
    obtain ⟨start, begun, called⟩ := List.mem_filterMap.1 listed
    obtain ⟨c, there, rfl⟩ := Option.map_eq_some_iff.1 called
    exact begins.call begun there

/-- The way back from a category is the one from the place that called it. -/
theorem exists_back {call : Call} (grounded : Grounded frames) (sound : call.Sound root tokens token frames)
    {thread : Thread} (listed : thread ∈ returns frames call.back) :
    BeginsFrom root tokens token frames (Grammar.rule call.category) thread.goals thread.events
      thread.frame := by
  rw [returns] at listed
  split at listed
  · rename_i silent
    obtain ⟨goals, events⟩ := Bool.and_eq_true_iff.1 silent
    rw [Call.Sound, List.isEmpty_iff.1 goals, List.isEmpty_iff.1 events] at sound
    exact ⟨Nat.lt_trans (grounded _ _ listed) sound.inside,
      fun left before path => sound.begins _ _ (.back listed path)⟩
  · obtain rfl := List.mem_singleton.1 listed
    exact sound

/-- The new frame of a category leads back to all places that called it. -/
theorem beginsFrom_new {c : Category} {mine : List Call} (grounded : Grounded frames)
    (positive : 0 < frames.size) (same : ∀ call ∈ mine, call.category = c)
    (sound : ∀ call ∈ mine, call.Sound root tokens token frames) :
    let back := mine.flatMap fun call => returns frames call.back
    Grounded (frames.push back) ∧
      BeginsFrom root tokens token (frames.push back) (Grammar.rule c) [] [] frames.size := by
  intro back
  have goesBack : ∀ thread ∈ back, BeginsFrom root tokens token frames (Grammar.rule c)
      thread.goals thread.events thread.frame := by
    intro thread listed
    obtain ⟨call, called, returned⟩ := List.mem_flatMap.1 listed
    rw [← same call called]
    exact exists_back grounded (sound call called) returned
  have earlier : ∀ thread ∈ back, thread.frame < frames.size :=
    fun thread listed => (goesBack thread listed).inside
  refine ⟨grounded.push earlier, ⟨?_, fun left before path => ?_⟩⟩
  · rw [Array.size_push]
    exact Nat.lt_succ_self _
  · obtain ⟨thread, listed, left', before', path', rfl, rfl⟩ :=
      path.of_push_size grounded earlier positive
    exact (goesBack thread listed).begins left' before' path'

/-- **Entering categories** until the token is read everywhere keeps all threads right. -/
theorem enter_sound (fuel : Nat) {calls : List Call} {threads : List Thread}
    (grounded : Grounded frames) (sound : ∀ call ∈ calls, call.Sound root tokens token frames)
    (leads : ∀ thread ∈ threads, LeadsFrom root (tokens ++ [token]) token.extent.span.stop frames
      thread.goals thread.events thread.frame) :
    Grounded (enter token.terminal token.extent fuel calls frames threads).1 ∧
      ∀ thread ∈ (enter token.terminal token.extent fuel calls frames threads).2,
        LeadsFrom root (tokens ++ [token]) token.extent.span.stop
          (enter token.terminal token.extent fuel calls frames threads).1
          thread.goals thread.events thread.frame := by
  induction fuel generalizing calls frames threads with
  | zero => exact ⟨grounded, leads⟩
  | succ fuel ih =>
      cases calls with
      | nil => exact ⟨grounded, leads⟩
      | cons first rest =>
          simp only [enter, List.partition_eq_filter_filter]
          generalize rest.foldl _ first.category = c
          have positive : 0 < frames.size :=
            Nat.lt_of_le_of_lt (Nat.zero_le _) (sound first List.mem_cons_self).inside
          have same : ∀ call ∈ (first :: rest).filter (·.category == c), call.category = c :=
            fun call listed => eq_of_beq (List.mem_filter.1 listed).2
          obtain ⟨grounded', begins⟩ := beginsFrom_new grounded positive same
            fun call listed => sound call (List.mem_filter.1 listed).1
          obtain ⟨direct, further⟩ := starts_sound begins
          refine ih grounded' (fun call listed => ?_) fun thread listed => ?_
          · rcases List.mem_append.1 listed with old | new
            · exact (sound call (List.mem_filter.1 old).1).push grounded _
            · exact further call new
          · rcases List.mem_append.1 listed with old | new
            · exact (leads thread old).push grounded _
            · exact direct thread new

/-- **One token.** -/
theorem Sound.read {recognizer : Recognizer} (sound : recognizer.Sound root tokens stop)
    (token : Token) :
    (recognizer.read token.terminal token.extent token.trivia).Sound root (tokens ++ [token])
      token.extent.span.stop := by
  have begins : ∀ opening ∈ recognizer.openings.filter (accepts token.terminal),
      BeginsFrom root tokens token recognizer.frames opening.rule opening.goals
        (token.trivia.map .trivia ++ opening.events) opening.frame :=
    fun opening listed => (sound.openings opening (List.mem_filter.1 listed).1).begins
  have called : ∀ call ∈ (recognizer.openings.filter (accepts token.terminal)).flatMap
      fun opening => calls token.extent (token.trivia.map .trivia ++ opening.events) opening.frame
        (opening.rule.starts token.terminal [] opening.goals),
      call.Sound root tokens token recognizer.frames := by
    intro call listed
    obtain ⟨opening, there, called⟩ := List.mem_flatMap.1 listed
    exact (starts_sound (begins opening there)).2 call called
  have reads : ∀ thread ∈ (recognizer.openings.filter (accepts token.terminal)).flatMap
      fun opening => direct token.extent (token.trivia.map .trivia ++ opening.events) opening.frame
        (opening.rule.starts token.terminal [] opening.goals),
      LeadsFrom root (tokens ++ [token]) token.extent.span.stop recognizer.frames thread.goals
        thread.events thread.frame := by
    intro thread listed
    obtain ⟨opening, there, reads⟩ := List.mem_flatMap.1 listed
    exact (starts_sound (begins opening there)).1 thread reads
  obtain ⟨grounded, leads⟩ :=
    enter_sound (2 * Grammar.categories.length) sound.grounded called reads
  exact sound_settle grounded leads

/-- **A thread that has nothing left has found a derivation.** -/
theorem Sound.derives {recognizer : Recognizer} (sound : recognizer.Sound root tokens stop)
    {events : List Event} (complete : recognizer.complete? = some events) :
    root.Derives tokens (itemsOf events) := by
  obtain ⟨thread, found, rfl⟩ := Option.map_eq_some_iff.1 complete
  have listed := List.mem_of_find?_eq_some found
  have finished := List.find?_some found
  rw [Bool.and_eq_true] at finished
  have leads := (sound.threads thread listed).leads [] [] (eq_of_beq finished.2 ▸ .bottom)
  rw [List.append_nil, List.append_nil, List.isEmpty_iff.1 finished.1] at leads
  exact leads.derives

end Recognizer

end Emend

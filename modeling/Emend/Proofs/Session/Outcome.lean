import Emend.Proofs.Session.Gate
import Emend.Proofs.Validator.Ready

/-!
# What emitting does to each unit

Validating makes the directory for copies and nothing else, so delivery finds the files in one
known state (`validateAll_render`). A unit is delivered by what the file of its origin holds
(`held?`). One delivery touches that file only (`deliver_outcome`), so when no two units share a
file, the outcome of each unit can be told from the files as they were at the start
(`deliverAll_outcome`), and a file that was written still holds its text at the end.

A unit is settled when its file, if there is one, holds its text and its checksum is the text's.
Writing settles every unit, and delivering a settled unit does nothing (`deliverAll_settled`), so
emitting twice writes nothing the second time (`emit_outcome`).
-/

set_option autoImplicit false

namespace Emend

open FileTree (Extends SameFiles SameShape)

variable {checker : Checker} {judge : Judge} {tree before after later : FileTree}
  {text contents path : String}

namespace Session

/-! ## Validating -/

section Validating

variable {validator : Validator} {texts given : List String}

/-- Validating texts in a tree with the directory for copies gives that tree back. -/
theorem validateAll_of_ready (ready : texts ≠ [] → validator.Ready tree)
    (spares : ∀ text ∈ texts, checker.Spares (validator.copyOf text).text) :
    ∃ outcome, validateAll validator checker tree texts = (tree, outcome) ∧
      ∀ given, outcome = .ok given → given = texts := by
  induction texts with
  | nil => exact ⟨_, rfl, by simp⟩
  | cons text texts ih =>
      have there := ready (List.cons_ne_nil text texts)
      obtain ⟨first, validated, same⟩ := Validator.validate_of_ready there (spares text (by simp))
      obtain ⟨rest, validatedRest, sameRest⟩ :=
        ih (fun _ => there) fun other mem => spares other (List.mem_cons_of_mem text mem)
      rw [validateAll, validated]
      cases first with
      | error error => exact ⟨_, rfl, by simp⟩
      | ok given =>
          obtain rfl := same given rfl
          simp only [validatedRest]
          refine ⟨_, rfl, ?_⟩
          cases rest with
          | error error => simp [Except.map]
          | ok others =>
              obtain rfl := sameRest others rfl
              simp [Except.map]

/-- Validating texts goes on from the tree with the directory for copies. -/
theorem validateAll_of_makeDirectories
    (made : tree.makeDirectories validator.tempRoot = .ok after) (nonempty : texts ≠ []) :
    validateAll validator checker tree texts = validateAll validator checker after texts := by
  cases texts with
  | nil => exact absurd rfl nonempty
  | cons text texts => simp only [validateAll, Validator.validate_of_makeDirectories made]

/-- Texts that pass are given back, and a directory for copies is all that was made. -/
theorem validateAll_ok
    (spares : ∀ text ∈ texts, checker.Spares (validator.copyOf text).text)
    (passed : validateAll validator checker tree texts = (after, .ok given)) :
    given = texts ∧ (texts = [] ∧ after = tree ∨
      texts ≠ [] ∧ tree.makeDirectories validator.tempRoot = .ok after) := by
  cases texts with
  | nil =>
      cases passed
      exact ⟨rfl, Or.inl ⟨rfl, rfl⟩⟩
  | cons text texts =>
      have nonempty := List.cons_ne_nil text texts
      have first : ∃ middle own, validator.validate checker tree text = (middle, .ok own) := by
        rw [validateAll] at passed
        split at passed
        · cases passed
        · exact ⟨_, _, by assumption⟩
      obtain ⟨_, _, validated⟩ := first
      obtain ⟨made, directories⟩ := Validator.makeDirectories_of_validate validated
      have ready := Validator.ready_of_makeDirectories directories (.refl made)
      obtain ⟨outcome, gaveBack, sameTexts⟩ := validateAll_of_ready (fun _ => ready) spares
      rw [validateAll_of_makeDirectories directories nonempty, gaveBack] at passed
      cases passed
      exact ⟨sameTexts given rfl, Or.inr ⟨nonempty, directories⟩⟩

/-- Where texts passed they pass again, if the checker judges by the contents. -/
theorem validateAll_again (ready : validator.Ready tree) (same : SameShape tree later)
    (judges : ∀ text ∈ texts, checker.Judges judge (validator.copyOf text).text)
    (passed : validateAll validator checker tree texts = (after, .ok given)) :
    validateAll validator checker later texts = (later, .ok texts) := by
  induction texts generalizing given after with
  | nil => rfl
  | cons text texts ih =>
      have judged := judges text (by simp)
      have judgesRest := fun other mem => judges other (List.mem_cons_of_mem text mem)
      obtain ⟨first, validated, sameText⟩ := Validator.validate_of_ready ready judged.spares
      rw [validateAll, validated] at passed
      cases first with
      | error error => cases passed
      | ok own =>
          obtain rfl := sameText own rfl
          obtain ⟨rest, validatedRest, _⟩ :=
            validateAll_of_ready (fun _ => ready) fun other mem => (judgesRest other mem).spares
          simp only [validatedRest] at passed
          cases rest with
          | error error => cases passed
          | ok others =>
              rw [validateAll, Validator.validate_again ready same judged validated]
              simp only [ih judgesRest validatedRest]
              rfl

end Validating

/-! ## The files of units -/

variable {manifest : Manifest} {mode : EmitMode} {origin : Origin} {loaded kept : LoadedUnit}

def held? (manifest : Manifest) (tree : FileTree) (origin : Origin) : Option String :=
  (origin.locate? manifest).bind fun path => (tree.read path).toOption

def fileKey? (manifest : Manifest) (tree : FileTree) (origin : Origin) : Option String :=
  (target? manifest tree origin).bind fun path => (tree.follow path).toOption.map Place.key

theorem held?_eq_some_iff :
    held? manifest tree origin = some contents ↔
      ∃ path, origin.locate? manifest = some path ∧ tree.read path = .ok contents := by
  unfold held?
  rw [Option.bind_eq_some_iff]
  refine exists_congr fun path => and_congr_right fun _ => ?_
  cases tree.read path with
  | error fault => simp [Except.toOption]
  | ok found => simp [Except.toOption]

theorem held?_eq_none_iff :
    held? manifest tree origin = none ↔
      ∀ path, origin.locate? manifest = some path → tree.isFile path = false := by
  unfold held?
  rw [Option.bind_eq_none_iff]
  refine forall_congr' fun path => imp_congr_right fun _ => ?_
  rw [← Bool.not_eq_true, FileTree.isFile_iff]
  cases tree.read path with
  | error fault => simp [Except.toOption]
  | ok found => simp [Except.toOption]

theorem target?_eq_none_iff :
    target? manifest tree origin = none ↔ held? manifest tree origin = none := by
  rw [held?_eq_none_iff, target?, Option.filter_eq_none_iff]
  simp

theorem fileKey?_of_read {place : Place} (located : origin.locate? manifest = some path)
    (found : tree.read path = .ok contents) (led : tree.follow path = .ok place) :
    fileKey? manifest tree origin = some (Place.key place) := by
  have target : target? manifest tree origin = some path :=
    Option.filter_eq_some_iff.2 ⟨located, FileTree.isFile_iff.2 ⟨contents, found⟩⟩
  rw [fileKey?, target, Option.bind_some, led]
  rfl

theorem fileKey?_of_sameShape (same : SameShape before after) :
    fileKey? manifest after origin = fileKey? manifest before origin := by
  unfold fileKey?
  rw [target?_of_sameShape manifest origin same]
  congr
  funext path
  rw [same.follow_eq]

/-- What a unit's file holds stays while that file stays. -/
theorem held?_eq_of_files (same : SameShape before after)
    (files : ∀ place, fileKey? manifest before origin = some (Place.key place) →
      after.fileAt? place = before.fileAt? place) :
    held? manifest after origin = held? manifest before origin := by
  have forth : ∀ {one other : FileTree} {contents : String}, SameShape one other →
      (∀ place, fileKey? manifest one origin = some (Place.key place) →
        other.fileAt? place = one.fileAt? place) →
      held? manifest one origin = some contents → held? manifest other origin = some contents := by
    intro one other contents same files holds
    obtain ⟨path, located, found⟩ := held?_eq_some_iff.1 holds
    obtain ⟨place, led, node, plain⟩ := FileTree.read_eq_ok_iff.1 found
    have kept := files place (fileKey?_of_read located found led)
    rw [FileTree.fileAt?_eq_some_iff.2 node, FileTree.fileAt?_eq_some_iff] at kept
    exact held?_eq_some_iff.2 ⟨path, located,
      FileTree.read_eq_ok_iff.2 ⟨place, same.extends.follow led, kept, plain⟩⟩
  ext contents
  refine ⟨forth same.symm fun place key => ?_, forth same files⟩
  rw [fileKey?_of_sameShape same] at key
  exact (files place key).symm

/-! ## Delivering once -/

def Settled (manifest : Manifest) (tree : FileTree) (text : String) (loaded : LoadedUnit) : Prop :=
  ∀ held, held? manifest tree loaded.origin = some held →
    held = text ∧ loaded.checksum = Checksum.ofText text

structure Outcome (manifest : Manifest) (mode : EmitMode) (before after : FileTree)
    (text : String) (loaded kept : LoadedUnit) (emitted : EmittedUnit) : Prop where
  origin : emitted.origin = loaded.origin
  contents : emitted.contents = if mode.returns then some text else none
  path : emitted.path = if mode.writes then target? manifest before loaded.origin else none
  returned : emitted.disposition = .returned ↔ mode.writes = false
  stale : emitted.disposition = .skippedStale ↔
    mode.writes = true ∧ held? manifest before loaded.origin = none
  unchanged : emitted.disposition = .unchanged ↔
    mode.writes = true ∧ held? manifest before loaded.origin = some text
  written : emitted.disposition = .written ↔
    mode.writes = true ∧ ∃ other, other ≠ text ∧ held? manifest before loaded.origin = some other
  same : SameUnit loaded kept
  /-- A unit that is not written to a file keeps its checksum. -/
  untouched : mode.writes = false ∨ held? manifest before loaded.origin = none → kept = loaded
  settled : mode.writes = true → Settled manifest after text kept

/-- What a unit's file holds has the checksum of a text only if it is that text. -/
def Separates (manifest : Manifest) (tree : FileTree) (origin : Origin) (text : String) : Prop :=
  ∀ held, held? manifest tree origin = some held →
    Checksum.ofText held = Checksum.ofText text → held = text

/-- Delivering one unit touches its own file only. -/
theorem deliver_outcome (manifest : Manifest) (mode : EmitMode) (tree : FileTree)
    (loaded : LoadedUnit) (text : String)
    (separates : Separates manifest tree loaded.origin text) :
    ∃ after kept emitted, deliver manifest mode tree loaded text = (after, kept, .ok emitted) ∧
      Outcome manifest mode tree after text loaded kept emitted ∧ SameShape tree after ∧
      (∀ place, fileKey? manifest tree loaded.origin ≠ some (Place.key place) →
        after.fileAt? place = tree.fileAt? place) ∧
      (mode.writes = false → after = tree) := by
  unfold deliver
  cases writes : mode.writes with
  | false =>
      refine ⟨tree, loaded, _, rfl, ?_, .refl tree, fun _ _ => rfl, fun _ => rfl⟩
      constructor <;> simp [writes, SameUnit]
  | true =>
      simp only [Bool.not_true, Bool.false_eq_true, if_false]
      cases target : target? manifest tree loaded.origin with
      | none =>
          have holdsNone := target?_eq_none_iff.1 target
          refine ⟨tree, loaded, _, rfl, ?_, .refl tree, fun _ _ => rfl, by simp⟩
          constructor <;> simp [writes, SameUnit, Settled, holdsNone, target]
      | some path =>
          obtain ⟨place, located, led, wrote, shape, reads⟩ := write_target target text
          obtain ⟨_, isFile⟩ := Option.filter_eq_some_iff.1 target
          obtain ⟨held, found⟩ := FileTree.isFile_iff.1 isFile
          have holds : held? manifest tree loaded.origin = some held :=
            held?_eq_some_iff.2 ⟨path, located, found⟩
          have told : Checksum.ofText held = Checksum.ofText text ↔ held = text :=
            ⟨separates held holds, congrArg Checksum.ofText⟩
          simp only [found, Except.toOption, Option.map_some, beq_iff_eq, Option.some.injEq, told,
            wrote]
          by_cases same : held = text
          · subst same
            simp only [if_true]
            refine ⟨tree, _, _, rfl, ?_, .refl tree, fun _ _ => rfl, by simp⟩
            constructor <;> simp [writes, SameUnit, Settled, holds, target]
          · simp only [same, if_false]
            have holdsAfter : held? manifest (tree.put place (.file text)) loaded.origin =
                some text := held?_eq_some_iff.2 ⟨path, located, reads⟩
            refine ⟨_, _, _, rfl, ?_, shape, ?_, by simp⟩
            · constructor <;> simp [writes, SameUnit, Settled, holds, holdsAfter, same, target]
            · intro other differs
              obtain ⟨_, key⟩ | kept := FileTree.fileAt?_put tree place other text
              · exact absurd (key ▸ fileKey?_of_read located found led) differs
              · exact kept

/-- What a unit's file held may be told from an earlier tree, if it was left alone since. -/
theorem Outcome.of_before {middle : FileTree} {emitted : EmittedUnit}
    (outcome : Outcome manifest mode middle after text loaded kept emitted)
    (shape : SameShape before middle)
    (left : held? manifest middle loaded.origin = held? manifest before loaded.origin) :
    Outcome manifest mode before after text loaded kept emitted := by
  obtain ⟨origin, contents, path, returned, stale, unchanged, written, same, untouched, settled⟩ :=
    outcome
  rw [target?_of_sameShape manifest loaded.origin shape] at path
  rw [left] at stale unchanged untouched
  simp only [left] at written
  exact ⟨origin, contents, path, returned, stale, unchanged, written, same, untouched, settled⟩

/-- What a unit's file holds may be told from a later tree, if it is left alone. -/
theorem Outcome.of_after {middle : FileTree} {emitted : EmittedUnit}
    (outcome : Outcome manifest mode before middle text loaded kept emitted)
    (left : held? manifest after loaded.origin = held? manifest middle loaded.origin) :
    Outcome manifest mode before after text loaded kept emitted := by
  have origin : kept.origin = loaded.origin := by rw [outcome.same]
  refine { outcome with settled := fun writes held holds => ?_ }
  rw [origin, left, ← origin] at holds
  exact outcome.settled writes held holds

def SeparateFiles (manifest : Manifest) (tree : FileTree) (units : List LoadedUnit) : Prop :=
  (units.filterMap fun loaded => fileKey? manifest tree loaded.origin).Nodup

theorem separateFiles_cons {units : List LoadedUnit} :
    SeparateFiles manifest tree (loaded :: units) ↔
      (∀ other ∈ units, ∀ key, fileKey? manifest tree loaded.origin = some key →
        fileKey? manifest tree other.origin ≠ some key) ∧ SeparateFiles manifest tree units := by
  simp only [SeparateFiles, List.Nodup, List.pairwise_filterMap, List.pairwise_cons]
  refine and_congr_left fun _ => forall_congr' fun other => forall_congr' fun _ => ?_
  constructor
  · intro apart key own same
    exact apart key own key same rfl
  · rintro apart key own _ same rfl
    exact apart key own same

theorem SeparateFiles.of_sameShape {units : List LoadedUnit} (same : SameShape before after)
    (separate : SeparateFiles manifest before units) : SeparateFiles manifest after units := by
  simpa only [SeparateFiles, fileKey?_of_sameShape same] using separate

/-- What becomes of units and of the files: each unit has its outcome, and the files of no unit
are left alone. -/
structure Outcomes (manifest : Manifest) (mode : EmitMode) (print : LoadedUnit → String)
    (before after : FileTree) (units : List LoadedUnit)
    (results : List (LoadedUnit × EmittedUnit)) : Prop where
  each : List.Forall₂ (fun loaded result =>
    Outcome manifest mode before after (print loaded) loaded result.1 result.2) units results
  shape : SameShape before after
  others : ∀ place,
    (∀ loaded ∈ units, fileKey? manifest before loaded.origin ≠ some (Place.key place)) →
      after.fileAt? place = before.fileAt? place
  idle : mode.writes = false → after = before

/-- Delivering units of different files gives each the outcome that it would have alone. -/
theorem deliverAll_outcome (manifest : Manifest) (mode : EmitMode) (print : LoadedUnit → String)
    {units : List LoadedUnit} (separate : SeparateFiles manifest tree units)
    (separates : ∀ loaded ∈ units, Separates manifest tree loaded.origin (print loaded)) :
    ∃ after results,
      deliverAll manifest mode tree (units.map fun loaded => (loaded, print loaded)) =
        (after, results.map Prod.fst, .ok (results.map Prod.snd)) ∧
      Outcomes manifest mode print tree after units results := by
  induction units generalizing tree with
  | nil => exact ⟨tree, [], rfl, .nil, .refl tree, fun _ _ => rfl, fun _ => rfl⟩
  | cons loaded units ih =>
      obtain ⟨apart, separateRest⟩ := separateFiles_cons.1 separate
      obtain ⟨own, theirs⟩ := List.forall_mem_cons.1 separates
      obtain ⟨middle, kept, emitted, delivered, outcome, shape, frame, idle⟩ :=
        deliver_outcome manifest mode tree loaded (print loaded) own
      -- the first delivery leaves the later files alone, and they leave its file alone
      have ahead : ∀ other ∈ units,
          held? manifest middle other.origin = held? manifest tree other.origin := by
        intro other mem
        refine held?_eq_of_files shape fun place key => frame place fun own => ?_
        exact apart other mem _ own key
      obtain ⟨after, results, deliveredRest, each, shapeRest, frameRest, idleRest⟩ :=
        ih (separateRest.of_sameShape shape) fun other mem held holds =>
          theirs other mem held (ahead other mem ▸ holds)
      have behind : held? manifest after loaded.origin = held? manifest middle loaded.origin := by
        refine held?_eq_of_files shapeRest fun place key => frameRest place fun other mem => ?_
        rw [fileKey?_of_sameShape shape] at key ⊢
        exact apart other mem _ key
      refine ⟨after, (kept, emitted) :: results, ?_, .cons (outcome.of_after behind) ?_,
        shape.trans shapeRest, ?_, ?_⟩
      · simp only [List.map_cons, deliverAll, delivered, deliveredRest, Except.map]
      · refine ((List.forall₂_and_left units results).2 ⟨ahead, each⟩).imp ?_
        rintro other result ⟨left, theirs⟩
        exact theirs.of_before shape left
      · intro place ofNone
        rw [frameRest place, frame place]
        · exact ofNone loaded (by simp)
        · intro other mem
          rw [fileKey?_of_sameShape shape]
          exact ofNone other (List.mem_cons_of_mem _ mem)
      · intro returns
        rw [idleRest returns, idle returns]

/-! ## Delivering again -/

/-- Nothing is done to a settled unit. -/
theorem deliver_settled (settled : Settled manifest tree text loaded)
    (writes : mode.writes = true) :
    ∃ emitted, deliver manifest mode tree loaded text = (tree, loaded, .ok emitted) ∧
      (emitted.disposition = .unchanged ∨ emitted.disposition = .skippedStale) := by
  unfold deliver
  simp only [writes, Bool.not_true, Bool.false_eq_true, if_false]
  cases target : target? manifest tree loaded.origin with
  | none => exact ⟨_, rfl, Or.inr rfl⟩
  | some path =>
      obtain ⟨located, isFile⟩ := Option.filter_eq_some_iff.1 target
      obtain ⟨held, found⟩ := FileTree.isFile_iff.1 isFile
      obtain ⟨rfl, checksum⟩ := settled held (held?_eq_some_iff.2 ⟨path, located, found⟩)
      simp only [found, Except.toOption, Option.map_some, beq_self_eq_true, if_true, ← checksum]
      exact ⟨_, rfl, Or.inl rfl⟩

theorem deliverAll_settled (writes : mode.writes = true) {pairs : List (LoadedUnit × String)}
    (settled : ∀ pair ∈ pairs, Settled manifest tree pair.2 pair.1) :
    ∃ emission, deliverAll manifest mode tree pairs = (tree, pairs.map Prod.fst, .ok emission) ∧
      ∀ emitted ∈ emission,
        emitted.disposition = .unchanged ∨ emitted.disposition = .skippedStale := by
  induction pairs with
  | nil => exact ⟨[], rfl, by simp⟩
  | cons pair pairs ih =>
      obtain ⟨loaded, text⟩ := pair
      obtain ⟨emitted, delivered, idle⟩ := deliver_settled (settled (loaded, text) (by simp)) writes
      obtain ⟨emission, deliveredRest, idleRest⟩ := ih fun pair mem => settled pair (by simp [mem])
      refine ⟨emitted :: emission, ?_, List.forall_mem_cons.2 ⟨idle, idleRest⟩⟩
      simp only [deliverAll, delivered, deliveredRest, Except.map, List.map_cons]

/-! ## Emitting -/

/-- The files as delivery finds them: there is a directory for copies, if any was made. -/
def ready (session : Session) (tree : FileTree) : FileTree :=
  if session.units.isEmpty then tree
  else (tree.makeDirectories session.validator.tempRoot).toOption.getD tree

section Emitting

variable {session kept : Session} {emission : Emission}

theorem zip_render (session : Session) : session.units.zip session.render =
    session.units.map fun loaded => (loaded, session.printed loaded) :=
  List.map_prod_left_eq_zip.symm

theorem emit_ok (emitted : session.emit checker mode tree = (after, kept, .ok emission)) :
    ∃ middle validated,
      validateAll session.validator checker tree session.render = (middle, .ok validated) ∧
        deliverAll session.manifest mode middle (session.units.zip validated) =
          (after, kept.units, .ok emission) ∧
        kept = { session with units := kept.units } := by
  unfold emit at emitted
  split at emitted
  · cases emitted
  · rename_i middle validated passed
    refine ⟨middle, validated, passed, ?_⟩
    simp only [Prod.mk.injEq] at emitted
    obtain ⟨rfl, rfl, outcome⟩ := emitted
    exact ⟨Prod.ext rfl (Prod.ext rfl outcome), rfl⟩

/-- Up to delivery a directory is made, if any, and no file comes, goes or changes. -/
theorem ready_spec (session : Session) (tree : FileTree) :
    Extends tree (session.ready tree) ∧ SameFiles tree (session.ready tree) := by
  unfold ready
  split
  · exact ⟨.refl tree, .refl tree⟩
  · cases made : tree.makeDirectories session.validator.tempRoot with
    | error fault => exact ⟨.refl tree, .refl tree⟩
    | ok after => exact FileTree.makeDirectories_spec made

/-- Units that pass are delivered from `ready`. -/
theorem validateAll_render {validated : List String}
    (spares : ∀ text ∈ session.render, checker.Spares (session.validator.copyOf text).text)
    (passed : validateAll session.validator checker tree session.render = (after, .ok validated)) :
    after = session.ready tree ∧ validated = session.render := by
  obtain ⟨same, ⟨noTexts, rfl⟩ | ⟨nonempty, made⟩⟩ := validateAll_ok spares passed
  · have units : session.units = [] := List.map_eq_nil_iff.1 noTexts
    exact ⟨by simp [ready, units], same⟩
  · have units : session.units.isEmpty = false := by
      simpa [List.isEmpty_iff, render] using nonempty
    exact ⟨by simp [ready, units, made, Except.toOption], same⟩

/-- In a later tree of the same shape the directory for copies is there, and if the checker
judges by the contents the units pass again. -/
theorem validateAll_render_again {validated : List String}
    (spares : ∀ text ∈ session.render, checker.Spares (session.validator.copyOf text).text)
    (passed : validateAll session.validator checker tree session.render = (after, .ok validated))
    (same : SameShape after later) :
    (session.render ≠ [] → session.validator.Ready later) ∧
      ∀ judge, (∀ text ∈ session.render,
          checker.Judges judge (session.validator.copyOf text).text) →
        validateAll session.validator checker later session.render =
          (later, .ok session.render) := by
  obtain ⟨_, ⟨noTexts, _⟩ | ⟨nonempty, made⟩⟩ := validateAll_ok spares passed
  · refine ⟨fun nonempty => absurd noTexts nonempty, fun _ _ => ?_⟩
    rw [noTexts]
    rfl
  · have ready := Validator.ready_of_makeDirectories made (.refl after)
    rw [validateAll_of_makeDirectories made nonempty] at passed
    exact ⟨fun _ => Validator.ready_of_makeDirectories made same.extends,
      fun _ judges => validateAll_again ready same judges passed⟩

/-- Nothing is done to a session whose units are settled. -/
theorem emit_settled (session : Session) (writes : mode.writes = true)
    (ready : session.render ≠ [] → session.validator.Ready tree)
    (spares : ∀ text ∈ session.render, checker.Spares (session.validator.copyOf text).text)
    (settled : ∀ loaded ∈ session.units,
      Settled session.manifest tree (session.printed loaded) loaded) :
    ∃ outcome, session.emit checker mode tree = (tree, session, outcome) ∧
      (∀ emission, outcome = .ok emission → ∀ emitted ∈ emission,
        emitted.disposition = .unchanged ∨ emitted.disposition = .skippedStale) ∧
      (validateAll session.validator checker tree session.render = (tree, .ok session.render) →
        ∃ emission, outcome = .ok emission) := by
  obtain ⟨validated, gaveBack, same⟩ := validateAll_of_ready ready spares
  rw [emit, gaveBack]
  cases validated with
  | error error => exact ⟨_, rfl, by simp, by simp⟩
  | ok texts =>
      obtain rfl := same texts rfl
      have each : ∀ pair ∈ session.units.map fun loaded => (loaded, session.printed loaded),
          Settled session.manifest tree pair.2 pair.1 := by
        intro pair mem
        obtain ⟨loaded, own, rfl⟩ := List.mem_map.1 mem
        exact settled loaded own
      obtain ⟨emission, delivered, idle⟩ := deliverAll_settled writes each
      have units : (session.units.map fun loaded => (loaded, session.printed loaded)).map
          Prod.fst = session.units := by simp [Function.comp_def]
      simp only [zip_render, delivered, units]
      refine ⟨.ok emission, rfl, ?_, fun _ => ⟨emission, rfl⟩⟩
      rintro _ ⟨⟩
      exact idle

/-- Without a collision among them, texts are the same when their checksums are. -/
theorem Outcome.unchanged_iff_checksum {emitted : EmittedUnit} {loaded kept : LoadedUnit}
    (outcome : Outcome manifest mode before after text loaded kept emitted)
    (separates : Separates manifest before loaded.origin text) :
    emitted.disposition = .unchanged ↔ mode.writes = true ∧
      (held? manifest before loaded.origin).map Checksum.ofText = some (Checksum.ofText text) := by
  rw [outcome.unchanged]
  refine and_congr_right fun _ => ⟨fun holds => by rw [holds]; rfl, fun same => ?_⟩
  obtain ⟨held, holds, equal⟩ := Option.map_eq_some_iff.1 same
  rw [holds, separates held holds equal]

/-- Units are the same after delivery but for checksums, and settled if they were written. -/
theorem Outcomes.kept_units {units : List LoadedUnit} {results : List (LoadedUnit × EmittedUnit)}
    (outcomes : Outcomes session.manifest mode session.printed before after units results) :
    (results.map Prod.fst).map session.printed = units.map session.printed ∧
      (mode.writes = true → ∀ kept ∈ results.map Prod.fst,
        Settled session.manifest after (session.printed kept) kept) := by
  have prints : ∀ {loaded kept : LoadedUnit}, SameUnit loaded kept →
      session.printed kept = session.printed loaded := by
    intro loaded kept same
    rw [printed, printed, same]
  obtain ⟨each, -, -, -⟩ := outcomes
  induction each with
  | nil => exact ⟨rfl, by simp⟩
  | cons outcome _ ih =>
      obtain ⟨texts, settled⟩ := ih
      refine ⟨?_, fun writes => ?_⟩
      · simp only [List.map_cons, prints outcome.same, texts]
      · simp only [List.map_cons, List.forall_mem_cons]
        refine ⟨?_, settled writes⟩
        rw [prints outcome.same]
        exact outcome.settled writes

/-- **The outcome of emitting.** Let emitting succeed, with a checker that changes no file and
units of different files, and let no file hold a text that has the checksum of its unit's text and
is another. There is one result for each unit, in order, and each unit has its outcome by what its
file held; all other files are left alone. A second run in a mode that writes changes nothing, and
if the checker judges by the contents it succeeds.

As in `emit_gate`, every file may be read and written. -/
theorem emit_outcome (session kept : Session) (checker : Checker) (mode : EmitMode)
    (tree after : FileTree) (emission : Emission)
    (spares : ∀ text ∈ session.render, checker.Spares (session.validator.copyOf text).text)
    (separate : SeparateFiles session.manifest (session.ready tree) session.units)
    (separates : ∀ loaded ∈ session.units,
      Separates session.manifest (session.ready tree) loaded.origin (session.printed loaded))
    (emitted : session.emit checker mode tree = (after, kept, .ok emission)) :
    Extends tree (session.ready tree) ∧ SameFiles tree (session.ready tree) ∧
    ∃ results, emission = results.map Prod.snd ∧
      kept = { session with units := results.map Prod.fst } ∧
      Outcomes session.manifest mode session.printed (session.ready tree) after session.units
        results ∧
      -- the same, as told by checksums
      List.Forall₂ (fun loaded result => result.2.disposition = .unchanged ↔
        mode.writes = true ∧
          (held? session.manifest (session.ready tree) loaded.origin).map Checksum.ofText =
            some (Checksum.ofText (session.printed loaded))) session.units results ∧
      -- the second run
      (mode.writes = true → ∀ again : EmitMode, again.writes = true →
        ∃ outcome, kept.emit checker again after = (after, kept, outcome) ∧
          (∀ second, outcome = .ok second → ∀ result ∈ second,
            result.disposition = .unchanged ∨ result.disposition = .skippedStale) ∧
          ∀ judge, (∀ text ∈ session.render,
              checker.Judges judge (session.validator.copyOf text).text) →
            ∃ second, outcome = .ok second) := by
  obtain ⟨middle, validated, passed, delivered, same⟩ := emit_ok emitted
  obtain ⟨rfl, rfl⟩ := validateAll_render spares passed
  obtain ⟨_, results, deliveredAll, outcomes⟩ :=
    deliverAll_outcome session.manifest mode session.printed separate separates
  rw [zip_render, deliveredAll] at delivered
  simp only [Prod.mk.injEq, Except.ok.injEq] at delivered
  obtain ⟨rfl, units, rfl⟩ := delivered
  rw [← units] at same
  subst same
  obtain ⟨extension, files⟩ := session.ready_spec tree
  refine ⟨extension, files, results, rfl, rfl, outcomes, ?_, ?_⟩
  · refine ((List.forall₂_and_left _ _).2 ⟨separates, outcomes.each⟩).imp ?_
    rintro loaded result ⟨own, outcome⟩
    exact outcome.unchanged_iff_checksum own
  · intro writes again writesAgain
    obtain ⟨texts, settled⟩ := outcomes.kept_units
    have render : { session with units := results.map Prod.fst }.render = session.render := texts
    obtain ⟨ready, passes⟩ := validateAll_render_again spares passed outcomes.shape
    obtain ⟨outcome, emittedAgain, idle, succeeds⟩ :=
      emit_settled { session with units := results.map Prod.fst } writesAgain (render ▸ ready)
        (render ▸ spares) (settled writes)
    refine ⟨outcome, emittedAgain, idle, fun judge judges => succeeds ?_⟩
    rw [render]
    exact passes judge judges

end Emitting

namespace Example

/-- A session of three units: one whose file is out of date, one whose file is not, and one that
has none. -/
def oldNewAndGone : Session where
  units := [⟨.file "/w/old.php", some "/w/old.php", .empty, ""⟩,
    ⟨.file "/w/new.php", some "/w/new.php", ⟨true, ∅⟩, ""⟩, ⟨.symbol "Gone", none, .empty, ""⟩]
  manifest := .empty
  validator := ⟨some "require 'boot.php';", "/tmp/scribe", []⟩
  printer := {}

def oldAndNewFiles : FileTree :=
  .ofEntries ["w"] []
    [("/w/old.php", "<?php"), ("/w/new.php", "<?php\n\ndeclare(strict_types=1);\n")]

/-- A judge that lets everything pass. -/
def passesAll : Judge := fun _ => .ok (.ofExit (some 0) "")

/-- One unit is written, one is found unchanged and one is passed over; then nothing is left to
write. -/
theorem emit_outcome_old_new_and_gone :
    (∀ contents, (judgedBy passesAll).Judges passesAll contents) ∧
      SeparateFiles oldNewAndGone.manifest (oldNewAndGone.ready oldAndNewFiles)
        oldNewAndGone.units ∧
      (∀ loaded ∈ oldNewAndGone.units,
        Separates oldNewAndGone.manifest (oldNewAndGone.ready oldAndNewFiles) loaded.origin
          (oldNewAndGone.printed loaded)) ∧
      ∃ after kept emission second,
        oldNewAndGone.emit (judgedBy passesAll) .both oldAndNewFiles = (after, kept, .ok emission) ∧
          emission.map (·.disposition) = [.written, .unchanged, .skippedStale] ∧
          kept.emit (judgedBy passesAll) .writeOnly after = (after, kept, .ok second) ∧
          ∀ result ∈ second,
            result.disposition = .unchanged ∨ result.disposition = .skippedStale := by
  have judges : ∀ contents, (judgedBy passesAll).Judges passesAll contents := by
    intro contents tree path found
    simp only [judgedBy, found]
  have separate : SeparateFiles oldNewAndGone.manifest (oldNewAndGone.ready oldAndNewFiles)
      oldNewAndGone.units := by
    unfold SeparateFiles
    decide +kernel
  have dispositions :
      (oldNewAndGone.emit (judgedBy passesAll) .both oldAndNewFiles).2.2.toOption.map
        (·.map (·.disposition)) = some [.written, .unchanged, .skippedStale] := by
    decide +kernel
  have separates : ∀ loaded ∈ oldNewAndGone.units,
      Separates oldNewAndGone.manifest (oldNewAndGone.ready oldAndNewFiles) loaded.origin
        (oldNewAndGone.printed loaded) := by
    have each : ∀ loaded ∈ oldNewAndGone.units,
        ((held? oldNewAndGone.manifest (oldNewAndGone.ready oldAndNewFiles) loaded.origin).all
          fun held => held == oldNewAndGone.printed loaded ||
            Checksum.ofText held != Checksum.ofText (oldNewAndGone.printed loaded)) = true := by
      decide +kernel
    intro loaded listed held holds same
    simpa [holds, same] using each loaded listed
  refine ⟨judges, separate, separates, ?_⟩
  obtain ⟨emission, succeeded, told⟩ := Option.map_eq_some_iff.1 dispositions
  cases emitted : oldNewAndGone.emit (judgedBy passesAll) .both oldAndNewFiles with
  | mk after rest =>
      obtain ⟨kept, outcome⟩ := rest
      rw [emitted] at succeeded
      cases outcome with
      | error error => cases succeeded
      | ok emission' =>
          cases succeeded
          obtain ⟨_, _, _, _, _, _, _, again⟩ := emit_outcome oldNewAndGone kept
            (judgedBy passesAll) .both oldAndNewFiles after emission
            (fun text _ => (judges _).spares) separate separates emitted
          obtain ⟨outcome, second, idle, succeeds⟩ := again rfl .writeOnly rfl
          obtain ⟨last, rfl⟩ := succeeds passesAll fun _ _ => judges _
          exact ⟨after, kept, emission, last, rfl, told, second, idle last rfl⟩

end Example

end Session

end Emend

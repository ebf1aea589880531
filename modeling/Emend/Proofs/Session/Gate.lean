import Emend.Proofs.Validator
import Emend.Session

/-!
# The validation gate

Emitting has two phases. The first validates the printed units in their order up to
the first that is kept back, and leaves every file alone (`validateAll_spec`). The
second is reached only when all have passed; it writes the printed units and nothing
else, each to the file that its origin leads to, and no file comes or goes
(`deliverAll_spec`). So a run that ends with an error has changed no file.
-/

set_option autoImplicit false

namespace Emend

open FileTree (Extends SameFiles SameShape)

variable {checker : Checker} {judge : Judge} {tree after : FileTree}

/-! ## Validating -/

namespace Validator

variable {validator : Validator}

/-- The texts whose copies are checked: those up to the first that the judge does not let
pass, and that one. -/
def checked (validator : Validator) (judge : Judge) : List String → List String
  | [] => []
  | text :: texts =>
    text :: if validator.accepts judge text then validator.checked judge texts else []

/-- The texts before one of them pass, and this is the error that keeps that one back;
until then no file has changed. -/
def StopsAt (validator : Validator) (judge : Judge) (tree : FileTree) (texts : List String)
    (error : Error) : Prop :=
  ∃ passed refused rest, texts = passed ++ refused :: rest ∧
    (∀ text ∈ passed, validator.accepts judge text = true) ∧
      ∃ there, Extends tree there ∧ SameFiles tree there ∧
        validator.Refuses judge there refused error

theorem StopsAt.cons {first : String} {texts : List String} {error : Error}
    (accepted : validator.accepts judge first = true) (extension : Extends tree after)
    (files : SameFiles tree after) (stops : validator.StopsAt judge after texts error) :
    validator.StopsAt judge tree (first :: texts) error := by
  obtain ⟨passed, refused, rest, rfl, all, there, extendsThere, filesThere, refuses⟩ := stops
  refine ⟨first :: passed, refused, rest, rfl, ?_, there, extension.trans extendsThere,
    files.trans filesThere, refuses⟩
  rintro text (_ | ⟨_, mem⟩)
  · exact accepted
  · exact all text mem

end Validator

namespace Session

/-- Validating texts changes no file. Either all pass and are given back as they are, or
it stops at the first that is kept back. -/
theorem validateAll_spec {validator : Validator} (tree : FileTree) (texts : List String)
    (judges : ∀ text ∈ validator.checked judge texts,
      checker.Judges judge (validator.copyOf text).text) :
    ∃ after, Extends tree after ∧ SameFiles tree after ∧
      (((∀ text ∈ texts, validator.accepts judge text = true) ∧
          validateAll validator checker tree texts = (after, .ok texts)) ∨
        ∃ error, validator.StopsAt judge tree texts error ∧
          validateAll validator checker tree texts = (after, .error error)) := by
  induction texts generalizing tree with
  | nil => exact ⟨tree, .refl tree, .refl tree, Or.inl ⟨by simp, rfl⟩⟩
  | cons text texts ih =>
      obtain ⟨middle, extension, files, ⟨accepted, validated⟩ | ⟨error, refuses, validated⟩⟩ :=
        Validator.validate_spec tree (judges text (by simp [Validator.checked]))
      · have judgesRest : ∀ other ∈ validator.checked judge texts,
            checker.Judges judge (validator.copyOf other).text :=
          fun other mem => judges other (by simp [Validator.checked, accepted, mem])
        obtain ⟨after, extendsRest, filesRest, rest⟩ := ih middle judgesRest
        refine ⟨after, extension.trans extendsRest, files.trans filesRest, ?_⟩
        obtain ⟨all, validatedRest⟩ | ⟨error, stops, validatedRest⟩ := rest
        · refine Or.inl ⟨List.forall_mem_cons.2 ⟨accepted, all⟩, ?_⟩
          simp only [validateAll, validated, validatedRest, Except.map]
        · refine Or.inr ⟨error, stops.cons accepted extension files, ?_⟩
          simp only [validateAll, validated, validatedRest, Except.map]
      · refine ⟨middle, extension, files, Or.inr ⟨error, ?_, ?_⟩⟩
        · exact ⟨[], text, texts, rfl, by simp, tree, .refl tree, .refl tree, refuses⟩
        · simp only [validateAll, validated]

/-! ## Delivering -/

def LeadsTo (manifest : Manifest) (tree : FileTree) (origin : Origin) (place : Place) : Prop :=
  ∃ path own, origin.locate? manifest = some path ∧ tree.follow path = .ok own ∧
    Place.key place = Place.key own

theorem LeadsTo.extend {manifest : Manifest} {origin : Origin} {place : Place}
    (leads : LeadsTo manifest tree origin place) (extension : Extends tree after) :
    LeadsTo manifest after origin place := by
  obtain ⟨path, own, located, led, same⟩ := leads
  exact ⟨path, own, located, extension.follow led, same⟩

theorem target?_of_sameShape (manifest : Manifest) (origin : Origin)
    (same : SameShape tree after) :
    target? manifest after origin = target? manifest tree origin := by
  have isFile : after.isFile = tree.isFile := funext fun _ => same.isFile_eq
  rw [target?, target?, isFile]

/-- What the result of emitting a unit says of it: its origin, its text if the mode
returns text, and the file that it stands in if the mode writes. -/
structure Reports (manifest : Manifest) (mode : EmitMode) (tree : FileTree)
    (print : LoadedUnit → String) (loaded : LoadedUnit) (emitted : EmittedUnit) : Prop where
  origin : emitted.origin = loaded.origin
  contents : emitted.contents = if mode.returns then some (print loaded) else none
  path : emitted.path = if mode.writes then target? manifest tree loaded.origin else none

/-- The same unit, up to the checksum of the text that it was last written as. -/
def SameUnit (loaded kept : LoadedUnit) : Prop := kept = { loaded with checksum := kept.checksum }

structure Delivery (manifest : Manifest) (mode : EmitMode) (print : LoadedUnit → String)
    (units : List LoadedUnit) (before after : FileTree) (kept : List LoadedUnit)
    (emission : Emission) : Prop where
  shape : SameShape before after
  kept : List.Forall₂ SameUnit units kept
  reports : List.Forall₂ (Reports manifest mode after print) units emission
  files : ∀ place, after.fileAt? place = before.fileAt? place ∨
    mode.writes = true ∧ ∃ loaded ∈ units, LeadsTo manifest after loaded.origin place ∧
      after.fileAt? place = some (print loaded)
  /-- The files that results speak of do hold a printed unit, or were left alone since they hold
  a text of the same checksum. -/
  written : ∀ emitted ∈ emission, ∀ path, emitted.path = some path →
    ∃ loaded ∈ units, ∃ held, after.read path = .ok held ∧
      (held = print loaded ∨ emitted.disposition = .unchanged ∧
        Checksum.ofText held = Checksum.ofText (print loaded))

variable {manifest : Manifest} {mode : EmitMode} {print : LoadedUnit → String}

/-- A unit whose file is there is written to it. -/
theorem write_target {loaded : LoadedUnit} {path : String}
    (target : target? manifest tree loaded.origin = some path) (text : String) :
    ∃ place, loaded.origin.locate? manifest = some path ∧ tree.follow path = .ok place ∧
      tree.write path text = .ok (tree.put place (.file text)) ∧
      SameShape tree (tree.put place (.file text)) ∧
      (tree.put place (.file text)).read path = .ok text := by
  obtain ⟨located, isFile⟩ := Option.filter_eq_some_iff.1 target
  obtain ⟨held, found⟩ := FileTree.isFile_iff.1 isFile
  obtain ⟨place, led, node, wrote⟩ := FileTree.write_of_read found text
  obtain ⟨_, _, _, plain⟩ := FileTree.read_eq_ok_iff.1 found
  have shape := FileTree.sameShape_put node text
  refine ⟨place, located, led, wrote, shape, FileTree.read_eq_ok_iff.2 ⟨place, ?_, ?_, plain⟩⟩
  · exact shape.extends.follow led
  · exact FileTree.nodeAt?_put_self (by simp [node]) _

/-- A unit that is not written, since it need not be, leaves the files alone. -/
theorem Delivery.idle {loaded kept : LoadedUnit} {emitted : EmittedUnit}
    (same : SameUnit loaded kept) (report : Reports manifest mode tree print loaded emitted)
    (holds : ∀ path, emitted.path = some path → ∃ held, tree.read path = .ok held ∧
      (held = print loaded ∨ emitted.disposition = .unchanged ∧
        Checksum.ofText held = Checksum.ofText (print loaded))) :
    Delivery manifest mode print [loaded] tree tree [kept] [emitted] where
  shape := .refl tree
  kept := .cons same .nil
  reports := .cons report .nil
  files _ := Or.inl rfl
  written := by
    intro result mem path shown
    obtain rfl := List.mem_singleton.1 mem
    exact ⟨loaded, List.mem_singleton_self _, holds path shown⟩

/-- Delivering one unit cannot fail: it is written only to a file that is there. -/
theorem deliver_spec (manifest : Manifest) (mode : EmitMode) (print : LoadedUnit → String)
    (tree : FileTree) (loaded : LoadedUnit) :
    ∃ after kept emitted, deliver manifest mode tree loaded (print loaded) =
        (after, kept, .ok emitted) ∧
      Delivery manifest mode print [loaded] tree after [kept] [emitted] := by
  unfold deliver
  cases writes : mode.writes with
  | false => exact ⟨_, _, _, rfl, .idle rfl ⟨rfl, rfl, by simp [writes]⟩ (by simp)⟩
  | true =>
      simp only [Bool.not_true, Bool.false_eq_true, if_false]
      cases target : target? manifest tree loaded.origin with
      | none => exact ⟨_, _, _, rfl, .idle rfl ⟨rfl, rfl, by simp [writes, target]⟩ (by simp)⟩
      | some path =>
          by_cases already : (tree.read path).toOption.map Checksum.ofText =
              some (Checksum.ofText (print loaded))
          · obtain ⟨held, found, same⟩ := Option.map_eq_some_iff.1 already
            have holds : tree.read path = .ok held := by
              cases reads : tree.read path with
              | error fault => simp [reads, Except.toOption] at found
              | ok other => simpa [reads, Except.toOption] using found
            simp only [already, beq_self_eq_true, if_true]
            refine ⟨_, _, _, rfl, .idle rfl ⟨rfl, rfl, by simp [writes, target]⟩ ?_⟩
            rintro _ ⟨⟩
            exact ⟨held, holds, Or.inr ⟨rfl, same⟩⟩
          · obtain ⟨place, located, led, wrote, shape, reads⟩ := write_target target (print loaded)
            simp only [beq_iff_eq, already, if_false, wrote]
            refine ⟨_, _, _, rfl, shape, .cons rfl .nil, .cons ⟨rfl, rfl, ?_⟩ .nil, ?_, ?_⟩
            · simp [writes, target?_of_sameShape manifest loaded.origin shape, target]
            · intro other
              obtain ⟨holds, same⟩ | same := FileTree.fileAt?_put tree place other (print loaded)
              · refine Or.inr ⟨writes, loaded, List.mem_singleton_self _, ?_, holds⟩
                exact ⟨path, place, located, shape.extends.follow led, same⟩
              · exact Or.inl same
            · rintro _ (_ | ⟨_, ⟨⟩⟩) _ ⟨⟩
              exact ⟨loaded, List.mem_singleton_self _, print loaded, reads, Or.inl rfl⟩

theorem Reports.of_sameShape {loaded : LoadedUnit} {emitted : EmittedUnit}
    (reports : Reports manifest mode tree print loaded emitted) (same : SameShape tree after) :
    Reports manifest mode after print loaded emitted :=
  ⟨reports.origin, reports.contents, by
    rw [reports.path, target?_of_sameShape manifest loaded.origin same]⟩

/-- Later deliveries leave what was written, or write another unit over it. -/
theorem Delivery.cons {loaded first : LoadedUnit} {units kept : List LoadedUnit}
    {emitted : EmittedUnit} {emission : Emission} {middle : FileTree}
    (one : Delivery manifest mode print [loaded] tree middle [first] [emitted])
    (rest : Delivery manifest mode print units middle after kept emission) :
    Delivery manifest mode print (loaded :: units) tree after (first :: kept)
      (emitted :: emission) := by
  obtain ⟨oneShape, _ | ⟨same, _⟩, _ | ⟨report, _⟩, oneFiles, oneWritten⟩ := one
  refine ⟨oneShape.trans rest.shape, .cons same rest.kept,
    .cons (report.of_sameShape rest.shape) rest.reports, ?_, ?_⟩
  · intro place
    obtain stays | ⟨writes, other, mem, leads, holds⟩ := rest.files place
    · obtain first | ⟨writes, other, mem, leads, holds⟩ := oneFiles place
      · exact Or.inl (stays.trans first)
      · refine Or.inr ⟨writes, other, ?_, leads.extend rest.shape.extends, stays.trans holds⟩
        exact List.mem_cons.2 (Or.inl (List.mem_singleton.1 mem))
    · exact Or.inr ⟨writes, other, List.mem_cons_of_mem _ mem, leads, holds⟩
  · rintro result (_ | ⟨_, mem⟩) path shown
    · obtain ⟨own, ownMem, held, reads, stands⟩ := oneWritten emitted (by simp) path shown
      obtain ⟨place, led, node, plain⟩ := FileTree.read_eq_ok_iff.1 reads
      have ledAfter := rest.shape.extends.follow led
      obtain stays | ⟨_, other, otherMem, _, holds⟩ := rest.files place
      · refine ⟨own, List.mem_cons.2 (Or.inl (List.mem_singleton.1 ownMem)), held, ?_, stands⟩
        rw [FileTree.fileAt?_eq_some_iff.2 node, FileTree.fileAt?_eq_some_iff] at stays
        exact FileTree.read_eq_ok_iff.2 ⟨place, ledAfter, stays, plain⟩
      · refine ⟨other, List.mem_cons_of_mem _ otherMem, print other, ?_, Or.inl rfl⟩
        rw [FileTree.fileAt?_eq_some_iff] at holds
        exact FileTree.read_eq_ok_iff.2 ⟨place, ledAfter, holds, plain⟩
    · obtain ⟨other, otherMem, reads⟩ := rest.written result mem path shown
      exact ⟨other, List.mem_cons_of_mem _ otherMem, reads⟩

/-- Delivering never fails, and delivers every unit as it is printed. -/
theorem deliverAll_spec (manifest : Manifest) (mode : EmitMode) (print : LoadedUnit → String)
    (tree : FileTree) (units : List LoadedUnit) :
    ∃ after kept emission,
      deliverAll manifest mode tree (units.map fun loaded => (loaded, print loaded)) =
        (after, kept, .ok emission) ∧
      Delivery manifest mode print units tree after kept emission := by
  induction units generalizing tree with
  | nil => exact ⟨tree, [], [], rfl, .refl tree, .nil, .nil, fun _ => Or.inl rfl, by simp⟩
  | cons loaded units ih =>
      obtain ⟨middle, first, emitted, delivered, one⟩ :=
        deliver_spec manifest mode print tree loaded
      obtain ⟨after, kept, emission, deliveredRest, rest⟩ := ih middle
      refine ⟨after, first :: kept, emitted :: emission, ?_, one.cons rest⟩
      simp only [List.map_cons, deliverAll, delivered, deliveredRest, Except.map]

/-! ## Emitting -/

def printed (session : Session) (loaded : LoadedUnit) : String :=
  session.printer.print loaded.unit

/-- The two ways in which emitting ends: nothing is delivered, since a unit was kept
back, or all passed and everything is. -/
theorem emit_cases (session : Session) (mode : EmitMode) (tree : FileTree)
    (judges : ∀ text ∈ session.validator.checked judge session.render,
      checker.Judges judge (session.validator.copyOf text).text) :
    ∃ ready, Extends tree ready ∧ SameFiles tree ready ∧
      ((∃ error, session.validator.StopsAt judge tree session.render error ∧
          session.emit checker mode tree = (ready, session, .error error)) ∨
        ∃ after kept emission,
          (∀ text ∈ session.render, session.validator.accepts judge text = true) ∧
          Delivery session.manifest mode session.printed session.units ready after kept emission ∧
          session.emit checker mode tree =
            (after, { session with units := kept }, .ok emission)) := by
  obtain ⟨ready, extension, files, ⟨all, validated⟩ | ⟨error, stops, validated⟩⟩ :=
    validateAll_spec tree session.render judges
  · obtain ⟨after, kept, emission, delivered, delivery⟩ :=
      deliverAll_spec session.manifest mode session.printed ready session.units
    refine ⟨ready, extension, files, Or.inr ⟨after, kept, emission, all, delivery, ?_⟩⟩
    have pairs : session.units.zip session.render =
        session.units.map fun loaded => (loaded, session.printed loaded) :=
      List.map_prod_left_eq_zip.symm
    simp only [emit, validated, pairs, delivered]
  · refine ⟨ready, extension, files, Or.inl ⟨error, stops, ?_⟩⟩
    simp only [emit, validated]

/-- Loading and editing touch no file, so a run that fails has the files that emitting
left. -/
theorem process_error {origins : List Origin} {manifest : Manifest} {validator : Validator}
    {printer : Printer} {edits : List SessionEdit} {mode : EmitMode} {error : Error}
    (failed : process tree origins manifest validator printer edits checker mode =
      (after, .error error)) :
    after = tree ∨ ∃ session kept : Session,
      session.emit checker mode tree = (after, kept, .error error) := by
  unfold process at failed
  split at failed
  · cases failed
    exact Or.inl rfl
  · split at failed
    · cases failed
      exact Or.inl rfl
    · rename_i session _
      refine Or.inr ⟨session, (session.emit checker mode tree).2.1, ?_⟩
      simp only [Prod.mk.injEq] at failed
      exact Prod.ext failed.1 (Prod.ext rfl failed.2)

/-- **The validation gate.** The copies of the printed units are judged in order up to the
first that does not pass; nothing is asked of the checker about any other text. If a unit
is kept back, its error is the outcome, no file has changed and the session is as before;
if all pass, what is returned and written are the printed units. In both cases no file has
come or gone. Hence a whole run that ends with an error has changed no file.

This is said of trees in which every file may be read and written, as the files of `FileTree` may:
once all units have passed, delivering them cannot fail (`deliverAll_spec`). -/
theorem emit_gate (checker : Checker) (judge : Judge) (mode : EmitMode) (tree : FileTree) :
    (∀ session : Session,
      (∀ text ∈ session.validator.checked judge session.render,
        checker.Judges judge (session.validator.copyOf text).text) →
      ∃ after kept outcome, session.emit checker mode tree = (after, kept, outcome) ∧
        (∀ place, (after.fileAt? place).isSome = (tree.fileAt? place).isSome) ∧
        match outcome with
        | .error error =>
          session.validator.StopsAt judge tree session.render error ∧ SameFiles tree after ∧
            kept = session
        | .ok emission =>
          (∀ text ∈ session.render, session.validator.accepts judge text = true) ∧
            kept = { session with units := kept.units } ∧
            ∃ ready, Extends tree ready ∧ SameFiles tree ready ∧
              Delivery session.manifest mode session.printed session.units ready after kept.units
                emission) ∧
    ∀ (origins : List Origin) (manifest : Manifest) (validator : Validator) (printer : Printer)
      (edits : List SessionEdit) (after : FileTree) (error : Error),
      (∀ contents, checker.Judges judge contents) →
      process tree origins manifest validator printer edits checker mode = (after, .error error) →
      SameFiles tree after := by
  constructor
  · intro session judges
    obtain ⟨ready, extension, files, ⟨error, stops, emitted⟩ |
      ⟨after, kept, emission, all, delivery, emitted⟩⟩ := emit_cases session mode tree judges
    · refine ⟨ready, session, .error error, emitted, ?_, stops, files, rfl⟩
      exact fun place => congrArg Option.isSome (files place)
    · refine ⟨after, { session with units := kept }, .ok emission, emitted, ?_, all, rfl, ready,
        extension, files, delivery⟩
      exact fun place => (delivery.shape.file place).trans (congrArg Option.isSome (files place))
  · intro origins manifest validator printer edits after error judges failed
    obtain rfl | ⟨session, kept, emitted⟩ := process_error failed
    · exact .refl after
    · obtain ⟨ready, _, files, ⟨_, _, ended⟩ | ⟨_, _, _, _, _, ended⟩⟩ :=
        emit_cases session mode tree fun text _ => judges (session.validator.copyOf text).text
      · rw [ended] at emitted
        cases emitted
        exact files
      · rw [ended] at emitted
        cases emitted

namespace Example

/-- The checker that asks a judge about the contents of a file. -/
def judgedBy (judge : Judge) : Checker := fun tree path =>
  match tree.read path with
  | .ok contents => (tree, judge contents)
  | .error fault => (tree, .error (.notStarted path fault))

/-- A session of two files: an empty one, and one that declares strict types. -/
def plainThenStrict : Session where
  units := [⟨.file "/w/a.php", some "/w/a.php", .empty, ""⟩,
    ⟨.file "/w/b.php", some "/w/b.php", ⟨true, ∅⟩, ""⟩]
  manifest := .empty
  validator := ⟨some "require 'boot.php';", "/tmp/scribe", []⟩
  printer := {}

/-- The two files as they stand on disk. -/
def plainAndStrictFiles : FileTree :=
  .ofEntries ["w"] [] [("/w/a.php", "<?php"), ("/w/b.php", "<?php")]

/-- A judge that lets the copy of an empty file pass and nothing else. -/
def passesPlain : Judge := fun contents =>
  .ok (.ofExit (some (if contents = "<?php\nrequire 'boot.php';\n" then 0 else 1)) "")

/-- The second unit is kept back, so the first is not written either. -/
theorem emit_gate_second_refused :
    (∀ contents, (judgedBy passesPlain).Judges passesPlain contents) ∧
      plainThenStrict.validator.accepts passesPlain "<?php\n" = true ∧
      ∃ after error,
        plainThenStrict.emit (judgedBy passesPlain) .both plainAndStrictFiles =
          (after, plainThenStrict, .error error) ∧ SameFiles plainAndStrictFiles after := by
  have judges : ∀ contents, (judgedBy passesPlain).Judges passesPlain contents := by
    intro contents tree path found
    simp only [judgedBy, found]
  refine ⟨judges, by decide +kernel, ?_⟩
  obtain ⟨after, kept, outcome, emitted, -, ended⟩ :=
    (emit_gate (judgedBy passesPlain) passesPlain .both plainAndStrictFiles).1 plainThenStrict
      fun _ _ => judges _
  cases outcome with
  | error error =>
      obtain ⟨-, files, rfl⟩ := ended
      exact ⟨after, error, emitted, files⟩
  | ok emission =>
      have all : ∀ text ∈ plainThenStrict.render,
          plainThenStrict.validator.accepts passesPlain text = true := ended.1
      exact absurd all (by decide +kernel)

end Example

end Session

end Emend

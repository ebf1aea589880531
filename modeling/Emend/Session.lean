import Emend.Checksum
import Emend.Edit.Mutation
import Emend.Session.Emission
import Emend.Validator

/-!
# Sessions

A session loads sources, edits all of them, and emits them. An edit that one unit
refuses changes none. Emitting validates every unit before anything is written,
and a unit whose file is gone is passed over.

Units are edited where they stand, one after the other. There are two ways to leave
them alone when one refuses: a mutation is checked in all of them before the first
is edited, and any other edit is made at once and taken back.
-/

set_option autoImplicit false

namespace Emend

structure LoadedUnit where
  origin : Origin
  path : Option String
  unit : SourceUnit
  /-- The checksum of the text that was last read or written. -/
  checksum : String
  deriving Inhabited

namespace LoadedUnit

/-- Make a unit of a text that stands at `path` or comes from nowhere. -/
def ofSource (origin : Origin) (path : Option String) (text : String) : Except Error LoadedUnit :=
  match SourceUnit.parse text with
  | .ok unit => .ok ⟨origin, path, unit, Checksum.ofText text⟩
  | .error cause => .error (.load (path.getD origin.shown) cause)

def ofText (origin : Origin) (text : String) : Except Error LoadedUnit := ofSource origin none text

def load (tree : FileTree) (manifest : Manifest) (origin : Origin) : Except Error LoadedUnit :=
  match origin.locate? manifest with
  | none => .error (.unresolved origin.shown)
  | some path =>
    match tree.read path with
    | .ok text => ofSource origin (some path) text
    | .error fault => .error (.io path fault)

/-- Edit units where they stand, up to the first that refuses the edit; gives the sum
of what the edits count. An edit may remember what it has seen. -/
def editAll {σ : Type} (edit : σ → SourceUnit → σ × SourceUnit × Except EditError Nat)
    (state : σ) : List LoadedUnit → List LoadedUnit × Except EditError Nat
  | [] => ([], .ok 0)
  | loaded :: others =>
    match edit state loaded.unit with
    | (_, unit, .error error) => ({ loaded with unit } :: others, .error error)
    | (state, unit, .ok count) =>
      let (others, outcome) := editAll edit state others
      ({ loaded with unit } :: others, outcome.map (count + ·))

def putBack (loaded : List LoadedUnit) (units : List SourceUnit) : List LoadedUnit :=
  List.zipWith (fun loaded unit => { loaded with unit }) loaded units

end LoadedUnit

def SourceUnit.edit (edit : SourceUnit → Except EditError (SourceUnit × Nat)) (unit : SourceUnit) :
    SourceUnit × Except EditError Nat :=
  match edit unit with
  | .ok (edited, count) => (edited, .ok count)
  | .error error => (unit, .error error)

inductive MemberChange where
  | property (f : Property → Property)
  | constant (f : Constant → Constant)
  | method (f : Method → Method)

namespace MemberChange

def kind : MemberChange → ElementKind
  | property _ => .property
  | constant _ => .constant
  | method _ => .method

/-- What becomes of an element; one of another kind stays. -/
def apply : MemberChange → Element → Element
  | property f, .property p => .property (f p)
  | constant f, .constant c => .constant (f c)
  | method f, .method m => .method (f m)
  | _, element => element

end MemberChange

/-- Loaded units and what is needed to emit them. -/
structure Session where
  units : List LoadedUnit
  manifest : Manifest
  validator : Validator
  printer : Printer
  deriving Inhabited

namespace Session

def load (tree : FileTree) (origins : List Origin) (manifest : Manifest) (validator : Validator)
    (printer : Printer) : Except Error Session := do
  return ⟨← origins.mapM (LoadedUnit.load tree manifest), manifest, validator, printer⟩

/-! ## Edits -/

/-- Apply a mutation to every unit, after it was checked in all of them; gives how many
changes were made. -/
def apply (session : Session) (mutation : Mutation) : Session × Except EditError Nat :=
  match session.units.forM fun loaded => mutation.check loaded.unit with
  | .error error => (session, .error error)
  | .ok () =>
    let (units, outcome) := LoadedUnit.editAll
      (fun _ unit => ((), unit.edit mutation.apply)) () session.units
    ({ session with units }, outcome)

/-- Edit every unit; if one refuses the edit, all are put back as they were. -/
def editEach {σ : Type} (session : Session)
    (edit : σ → SourceUnit → σ × SourceUnit × Except EditError Nat) (state : σ) :
    Session × Except EditError Nat :=
  let snapshot := session.units.map (·.unit)
  match LoadedUnit.editAll edit state session.units with
  | (units, .ok count) => ({ session with units }, .ok count)
  | (units, .error error) =>
    ({ session with units := LoadedUnit.putBack units snapshot }, .error error)

/-- Transform the elements of this kind that answer to a query, in every unit;
gives how many were visited. -/
def modify (session : Session) (kind : ElementKind) (query : String)
    (transform : Located → Element) : Session × Except EditError Nat :=
  session.editEach (fun _ unit => ((), unit.edit (·.modify kind query transform))) ()

end Session

inductive SessionEdit where
  | apply (mutation : Mutation)
  | modify (kind : ElementKind) (query : String) (transform : Located → Element)
  | modifyKind (word query : String) (transform : Located → Element)
  | modifyMember (query : String) (change : MemberChange)

namespace SessionEdit

/-- Make the edit; gives how many changes were made or how many elements were
visited. -/
def run (session : Session) : SessionEdit → Session × Except EditError Nat
  | apply mutation => session.apply mutation
  | modify kind query transform => session.modify kind query transform
  | modifyKind word query transform =>
    match ElementKind.parse word with
    | .ok kind => session.modify kind query transform
    | .error error => (session, .error error)
  | modifyMember query change =>
    session.modify change.kind query fun located => change.apply located.element

/-- Make edits one after the other, up to the first that is refused. -/
def runAll (session : Session) : List SessionEdit → Session × Except EditError Unit
  | [] => (session, .ok ())
  | edit :: edits =>
    match edit.run session with
    | (session, .ok _) => runAll session edits
    | (session, .error error) => (session, .error error)

end SessionEdit

namespace Session

def count (session : Session) (kind : ElementKind) (query : String) : Nat :=
  total (fun loaded => loaded.unit.count kind query) session.units

/-! ## Emission -/

def render (session : Session) : List String :=
  session.units.map fun loaded => session.printer.print loaded.unit

/-- The file that a unit is written back to, if it is still there. -/
def target? (manifest : Manifest) (tree : FileTree) (origin : Origin) : Option String :=
  (origin.locate? manifest).filter tree.isFile

/-- Deliver the validated text of a unit; gives the files and the unit afterwards. A file that
holds a text of the same checksum is not written. -/
def deliver (manifest : Manifest) (mode : EmitMode) (tree : FileTree) (loaded : LoadedUnit)
    (text : String) : FileTree × LoadedUnit × Except Error EmittedUnit :=
  let contents := if mode.returns then some text else none
  let emitted (path : Option String) (disposition : Disposition) : EmittedUnit :=
    ⟨loaded.origin, path, contents, disposition⟩
  if !mode.writes then (tree, loaded, .ok (emitted none .returned))
  else
    match target? manifest tree loaded.origin with
    | none => (tree, loaded, .ok (emitted none .skippedStale))
    | some path =>
      let checksum := Checksum.ofText text
      let kept := { loaded with checksum }
      if (tree.read path).toOption.map Checksum.ofText == some checksum then
        (tree, kept, .ok (emitted (some path) .unchanged))
      else
        match tree.write path text with
        | .ok tree => (tree, kept, .ok (emitted (some path) .written))
        | .error fault => (tree, loaded, .error (.io path fault))

/-- Validate texts one after the other up to the first that is refused; gives those
that passed if all did. -/
def validateAll (validator : Validator) (checker : Checker) (tree : FileTree) :
    List String → FileTree × Except Error (List String)
  | [] => (tree, .ok [])
  | text :: texts =>
    match validator.validate checker tree text with
    | (tree, .error error) => (tree, .error error)
    | (tree, .ok validated) =>
      let (tree, others) := validateAll validator checker tree texts
      (tree, others.map (validated :: ·))

/-- Deliver texts one after the other up to the first that cannot be written. -/
def deliverAll (manifest : Manifest) (mode : EmitMode) (tree : FileTree) :
    List (LoadedUnit × String) → FileTree × List LoadedUnit × Except Error Emission
  | [] => (tree, [], .ok [])
  | (loaded, text) :: rest =>
    match deliver manifest mode tree loaded text with
    | (tree, loaded, .error error) => (tree, loaded :: rest.map Prod.fst, .error error)
    | (tree, loaded, .ok first) =>
      let (tree, others, outcome) := deliverAll manifest mode tree rest
      (tree, loaded :: others, outcome.map (first :: ·))

/-- Print, validate and deliver every unit; gives the files and the session
afterwards. -/
def emit (session : Session) (checker : Checker) (mode : EmitMode) (tree : FileTree) :
    FileTree × Session × Except Error Emission :=
  match validateAll session.validator checker tree session.render with
  | (tree, .error error) => (tree, session, .error error)
  | (tree, .ok validated) =>
    let (tree, units, outcome) :=
      deliverAll session.manifest mode tree (session.units.zip validated)
    (tree, { session with units }, outcome)

/-- Load sources, edit them and emit them, up to the first error. -/
def process (tree : FileTree) (origins : List Origin) (manifest : Manifest)
    (validator : Validator) (printer : Printer) (edits : List SessionEdit) (checker : Checker)
    (mode : EmitMode) : FileTree × Except Error Emission :=
  match load tree origins manifest validator printer with
  | .error error => (tree, .error error)
  | .ok session =>
    match SessionEdit.runAll session edits with
    | (_, .error error) => (tree, .error (.edit error))
    | (session, .ok ()) =>
      let (tree, _, outcome) := session.emit checker mode tree
      (tree, outcome)

end Session

end Emend

import Emend.Files.Tree
import Emend.Source.Printer
import Emend.Toml.Document

/-!
# Settings

What can be configured: how text is printed, how it is validated, which program
checks it, and where classes are looked up. Settings are read from a TOML
document; a setting that is left out keeps its default, and unknown names are
passed over. A group of settings may also be an array with one setting after the
other.
-/

set_option autoImplicit false

namespace Emend

structure ValidatorSettings where
  /-- The directive that is put in front of checked code; blank for none. -/
  bootstrap : String := "require \"vendor/autoload.php\";"
  /-- The directory for checked copies, unless the default one is used. -/
  tempRoot : Option String := none
  /-- What the output of a checker starts with if there is a fatal error. -/
  fatalMarkers : List String :=
    ["PHP Fatal error:", "PHP Parse error:", "Fatal error:", "Parse error:"]
  deriving DecidableEq, Repr, Inhabited

structure CheckerSettings where
  program : String := "php"
  arguments : List String := ["-f"]
  timeoutSeconds : Nat := 10
  /-- The directory that it runs in, unless that is the root of the project. -/
  workingDirectory : Option String := none
  deriving DecidableEq, Repr, Inhabited

structure ManifestSettings where
  root : String := "."
  /-- A class map to use instead of looking through the project. -/
  classMap : Option String := none
  deriving DecidableEq, Repr, Inhabited

structure Settings where
  indent : Nat := 4
  validator : ValidatorSettings := {}
  checker : CheckerSettings := {}
  manifest : ManifestSettings := {}
  deriving DecidableEq, Repr, Inhabited

inductive SettingsError where
  /-- The text is no document, or a setting has a value of the wrong kind. -/
  | malformed
  | noProgram
  | noTime
  /-- A word names no way to emit. -/
  | unknownMode (word : String)
  deriving DecidableEq, Repr, Inhabited

def SettingsError.message : SettingsError → String
  | malformed => "invalid configuration: TOML parse error"
  | noProgram => "invalid configuration: checker.program must not be empty"
  | noTime => "invalid configuration: checker.timeout_secs must be positive"
  | unknownMode word => s!"invalid configuration: unknown emit mode '{word}'"

namespace Toml

def asText? : Toml → Option String
  | text value => some value
  | _ => none

def asTexts? : Toml → Option (List String)
  | array items => items.mapM asText?
  | _ => none

def asNat? : Toml → Option Nat
  | integer value => if 0 ≤ value then some value.toNat else none
  | _ => none

/-- The members of a group with these names: of a table by name, of an array by
position. A moment is a group with none of them. -/
def group? (names : List String) : Toml → Option Members
  | table _ members => some members
  | array items => some (names.zip items)
  | tables elements => some (names.zip (elements.map (.table .header)))
  | moment => some []
  | _ => none

def setting {α : Type} (members : Members) (name : String) (decode : Toml → Option α)
    (default_ : α) : Option α :=
  match get? members name with
  | none => some default_
  | some value => decode value

end Toml

namespace Settings

open Toml in
/-- The settings for printing: the width of the indentation. -/
def printer? (value : Toml) : Option Nat := do
  setting (← group? ["indent"] value) "indent" asNat? 4

open Toml in
def validator? (value : Toml) : Option ValidatorSettings := do
  let members ← group? ["bootstrap", "temp_root", "fatal_markers"] value
  let defaults : ValidatorSettings := {}
  return {
    bootstrap := ← setting members "bootstrap" asText? defaults.bootstrap
    tempRoot := ← setting members "temp_root" (asText? · |>.map some) defaults.tempRoot
    fatalMarkers := ← setting members "fatal_markers" asTexts? defaults.fatalMarkers }

open Toml in
def checker? (value : Toml) : Option CheckerSettings := do
  let members ← group? ["program", "args", "timeout_secs", "working_dir"] value
  let defaults : CheckerSettings := {}
  return {
    program := ← setting members "program" asText? defaults.program
    arguments := ← setting members "args" asTexts? defaults.arguments
    timeoutSeconds := ← setting members "timeout_secs" asNat? defaults.timeoutSeconds
    workingDirectory :=
      ← setting members "working_dir" (asText? · |>.map some) defaults.workingDirectory }

open Toml in
def manifest? (value : Toml) : Option ManifestSettings := do
  let members ← group? ["root", "classmap"] value
  let defaults : ManifestSettings := {}
  return {
    root := ← setting members "root" asText? defaults.root
    classMap := ← setting members "classmap" (asText? · |>.map some) defaults.classMap }

open Toml in
def ofMembers? (members : Members) : Option Settings := do
  let defaults : Settings := {}
  return {
    indent := ← setting members "printer" printer? defaults.indent
    validator := ← setting members "validator" validator? defaults.validator
    checker := ← setting members "checker" checker? defaults.checker
    manifest := ← setting members "manifest" manifest? defaults.manifest }

/-- Refuse settings with which no check could run. -/
def check (settings : Settings) : Except SettingsError Settings :=
  if (Text.trim settings.checker.program).isEmpty then .error .noProgram
  else if settings.checker.timeoutSeconds == 0 then .error .noTime
  else .ok settings

/-- Read settings from the text of a document. -/
def parse (source : String) : Except SettingsError Settings :=
  match (Toml.parse? source).bind ofMembers? with
  | some settings => settings.check
  | none => .error .malformed

def printer (settings : Settings) : Printer := ⟨settings.indent⟩

def withRoot (settings : Settings) (root : String) : Settings :=
  { settings with manifest.root := root }

def workingDirectory (settings : Settings) : String :=
  settings.checker.workingDirectory.getD settings.manifest.root

/-- The directive in front of checked code, if it is not blank. -/
def bootstrap? (settings : Settings) : Option String :=
  let directive := Text.trim settings.validator.bootstrap
  if directive.isEmpty then none else some directive

end Settings

end Emend

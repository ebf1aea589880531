import Emend.Checker
import Emend.Edit.Element
import Emend.Manifest.Project
import Emend.Settings
import Emend.Source.Declaration

/-!
# Errors

Everything that can go wrong while sources are loaded, edited, validated and
written back. An error has a text of its own and the texts of its causes, from
the nearest to the farthest.
-/

set_option autoImplicit false

namespace Emend

inductive Error where
  | unresolved (name : String)
  /-- A source cannot be loaded. -/
  | load (path : String) (cause : LoadError)
  | edit (cause : EditError)
  /-- A checker found a fatal error in the copy at `path`. -/
  | fatal (message output path : String) (line : Option Nat)
  /-- A checker refused the text without saying why. -/
  | refused (exitCode : Option Int) (output : String)
  | check (cause : CheckError)
  /-- The manifest cannot be built. -/
  | manifest (cause : ManifestError)
  | io (path : String) (fault : IoFault)
  | settings (cause : SettingsError)
  deriving DecidableEq, Repr, Inhabited

namespace Error

def message : Error → String
  | unresolved name => s!"cannot resolve source '{name}': not in class manifest"
  | load path cause => "failed to load " ++ path ++ ": " ++ cause.message
  | edit cause => cause.message
  | fatal text _ path line =>
    let place := match line with
      | some line => " on line " ++ toString line
      | none => ""
    "syntax error in " ++ path ++ place ++ ": " ++ text
  | refused exitCode output =>
    let code := match exitCode with
      | some code => toString code
      | none => "none"
    "validation failed (exit code " ++ code ++ "): " ++ output
  | check cause => "checker error: " ++ cause.message
  | manifest cause => "manifest error: " ++ cause.message
  | io path fault => "io error on " ++ path ++ ": " ++ fault.message
  | settings cause => cause.message

def causes : Error → List String
  | load _ cause => [cause.message]
  | check cause => cause.message :: cause.causes
  | manifest cause =>
    cause.message :: match cause with
      | .unreadable _ fault => [fault.message]
      | .malformed _ | .noProject _ => []
  | io _ fault => [fault.message]
  | unresolved _ | edit _ | fatal .. | refused .. | settings _ => []

def chain (error : Error) : String := ": ".intercalate (error.message :: error.causes)

end Error

def Settings.load (tree : FileTree) (path : String) : Except Error Settings :=
  match tree.read path with
  | .error fault => .error (.io path fault)
  | .ok text => (Settings.parse text).mapError .settings

end Emend

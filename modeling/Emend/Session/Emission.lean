import Emend.Session.Origin
import Emend.Settings

/-!
# Emissions

What becomes of validated text: it is returned, written back to where it came
from, or both. Each unit gets a disposition that says what happened to it.
-/

set_option autoImplicit false

namespace Emend

inductive EmitMode where
  | returnOnly
  | writeOnly
  | both
  deriving DecidableEq, Repr, Inhabited

namespace EmitMode

/-- Whether text is written back. -/
def writes : EmitMode → Bool
  | writeOnly | both => true
  | returnOnly => false

def returns : EmitMode → Bool
  | returnOnly | both => true
  | writeOnly => false

def parse (word : String) : Except SettingsError EmitMode :=
  match Text.lower (Text.trim word) with
  | "return" | "return_only" => .ok returnOnly
  | "write" | "write_only" => .ok writeOnly
  | "both" => .ok both
  | other => .error (.unknownMode other)

end EmitMode

inductive Disposition where
  /-- It was only returned. -/
  | returned
  | written
  /-- Its file held the same text already. -/
  | unchanged
  | skippedStale
  deriving DecidableEq, Repr, Inhabited

structure EmittedUnit where
  origin : Origin
  /-- The file that it was written to or found unchanged in. -/
  path : Option String
  /-- Its text, if the mode returns text. -/
  contents : Option String
  disposition : Disposition
  deriving DecidableEq, Repr, Inhabited

/-- The results of emitting units, in their order. -/
abbrev Emission := List EmittedUnit

namespace Emission

def written (emission : Emission) : Nat :=
  (emission.filter fun unit => unit.disposition == .written).length

def firstContents? (emission : Emission) : Option String := emission.head?.bind (·.contents)

end Emission

end Emend

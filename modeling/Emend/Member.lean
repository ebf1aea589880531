import Emend.Name

/-!
# Members of a type

The elements of a class, interface or trait: trait uses, constants, properties
and methods. Values, parameter lists and bodies are kept as source text; names
of classes are fully qualified.
-/

set_option autoImplicit false

namespace Emend

/-- Who may use a member. -/
inductive Visibility where
  | «public»
  | «protected»
  | «private»
  deriving DecidableEq, Repr, Inhabited

namespace Visibility

/-- The visibility named by a keyword in any case; `var` means public. -/
def ofKeyword? (word : String) : Option Visibility :=
  match Text.lower word with
  | "public" => some .public
  | "var" => some .public
  | "protected" => some .protected
  | "private" => some .private
  | _ => none

def keyword : Visibility → String
  | .public => "public"
  | .protected => "protected"
  | .private => "private"

end Visibility

/-- Whether a value is laid out as an array over several lines: its first line
is `[` and its last, another one, is `]`. -/
def isArrayLayout (value : String) : Bool :=
  match Text.lines value with
  | first :: second :: rest =>
    Text.trim first == "[" && Text.trim ((second :: rest).getLastD second) == "]"
  | _ => false

structure TraitUse where
  name : String
  /-- The rules inside the braces of the use, as source text. -/
  adaptations : Option String
  deriving DecidableEq, Repr, Inhabited

namespace TraitUse

def ofName (name : String) : TraitUse := ⟨Name.normalize name, none⟩

end TraitUse

structure Constant where
  name : String
  value : String
  visibility : Option Visibility
  isFinal : Bool
  typeHint : Option String
  doc : List String
  deriving DecidableEq, Repr, Inhabited

namespace Constant

/-- A constant with nothing but a name and a value. -/
def ofValue (name value : String) : Constant := ⟨Text.trim name, value, none, false, none, []⟩

/-- Whether the value is laid out as an array over several lines. -/
def isArray (c : Constant) : Bool := isArrayLayout c.value

end Constant

structure Property where
  /-- Its name without the dollar sign. -/
  name : String
  /-- Its default value as source text. -/
  value : Option String
  visibility : Visibility
  isStatic : Bool
  isReadonly : Bool
  typeHint : Option String
  doc : List String
  deriving DecidableEq, Repr, Inhabited

namespace Property

/-- A public property without a value; leading dollar signs of the name do not
count. -/
def ofName (name : String) : Property :=
  ⟨Text.dropStart '$' (Text.trim name), none, .public, false, false, none, []⟩

/-- Whether there is a value laid out as an array over several lines. -/
def isArray (p : Property) : Bool := p.value.any isArrayLayout

end Property

structure Method where
  name : String
  visibility : Visibility
  isStatic : Bool
  isAbstract : Bool
  isFinal : Bool
  /-- The text between the parentheses of its parameter list. -/
  parameters : String
  returnType : Option String
  /-- The text between its braces; `none` when it is only declared. -/
  body : Option String
  doc : List String
  deriving DecidableEq, Repr, Inhabited

namespace Method

/-- A public method with an empty body. -/
def ofName (name : String) : Method :=
  ⟨Text.trim name, .public, false, false, false, "", none, some "", []⟩

/-- Give the method a return type; its names are stored without a leading
separator. -/
def withReturnType (m : Method) (returns : String) : Method :=
  { m with returnType := some (Name.mapType Name.normalize returns) }

/-- Make the method abstract, which drops its body. -/
def abstracted (m : Method) : Method := { m with isAbstract := true, body := none }

end Method

end Emend

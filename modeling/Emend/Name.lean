import Emend.Text.Blank
import Emend.Text.Letter

/-!
# Qualified names

A qualified name is a text of segments with a backslash between them. Its
stored form is fully qualified and has no leading separator:
`Vendor\Pkg\Thing`. A type expression is a text in which maximal runs of name
characters are names and everything else is punctuation.
-/

set_option autoImplicit false

namespace Emend.Name

/-- The character between two segments. -/
def separator : Char := '\\'

/-- Type keywords; they mean themselves in every namespace. -/
def builtinTypes : List String :=
  ["array", "bool", "callable", "false", "float", "int", "iterable", "mixed", "never", "null",
    "object", "parent", "self", "static", "string", "true", "void"]

/-- The name without surrounding blanks and without one leading separator. -/
def normalize (name : String) : String :=
  let name := Text.trim name
  (Text.strip? "\\" name).getD name

def short (name : String) : String :=
  let name := normalize name
  match Text.cutLast? separator name with
  | some (_, last) => last
  | none => name

/-- All segments but the last; empty for a global name. -/
def parent (name : String) : String :=
  match Text.cutLast? separator (normalize name) with
  | some (namespace_, _) => namespace_
  | none => ""

/-- The name of `name` inside `namespace_`. -/
def join (namespace_ name : String) : String :=
  let outer := normalize namespace_
  let inner := normalize name
  if outer.isEmpty then inner else outer ++ "\\" ++ inner

def isBuiltinType (name : String) : Bool :=
  builtinTypes.any fun builtin => Text.sameIgnoringCase builtin (Text.trim name)

/-- Whether a character belongs to a name inside a type expression. -/
def isTypeNameChar (c : Char) : Bool :=
  Text.isAlphanumeric c || c == '_' || c == separator

/-- Change the names of a type expression; `current` is the name read so far. -/
def mapTypeFrom (f : String → String) (current : List Char) : List Char → List Char
  | [] => if current.isEmpty then [] else (f (.ofList current)).toList
  | c :: cs =>
    if isTypeNameChar c then mapTypeFrom f (current ++ [c]) cs
    else
      (if current.isEmpty then [] else (f (.ofList current)).toList) ++
        (if Text.isBlank c then [] else [c]) ++ mapTypeFrom f [] cs

/-- Apply `f` to every name of a type expression, keep the punctuation and drop
the blanks. -/
def mapType (f : String → String) (expr : String) : String :=
  .ofList (mapTypeFrom f [] expr.toList)

end Emend.Name

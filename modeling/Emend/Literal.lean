import Emend.Text.Blank

/-!
# Literals

The canonical source text of simple values. A list or map with elements is laid
out with one element on each line, so that its first line is `[` and its last
line is `]`.
-/

set_option autoImplicit false

namespace Emend.Literal

/-- A text in single quotes; backslashes and single quotes get a backslash
before them. -/
def string (text : String) : String :=
  .ofList ('\'' :: (text.toList.flatMap fun c =>
    if c = '\\' then ['\\', '\\'] else if c = '\'' then ['\\', '\''] else [c]) ++ ['\''])

def bool (b : Bool) : String := if b then "true" else "false"

def int (n : Int) : String := toString n

def null : String := "null"

/-- The text with its lines after the first moved by one step. -/
def moved (text : String) : String := Text.replaceChar '\n' "\n    " text

def bracketed (lines : List String) : String :=
  if lines.isEmpty then "[]" else "[\n" ++ "\n".intercalate lines ++ "\n]"

def list (items : List String) : String :=
  bracketed (items.map fun item => "    " ++ moved item ++ ",")

def stringList (items : List String) : String := list (items.map string)

/-- A map from texts to values given by their texts. -/
def map (entries : List (String × String)) : String :=
  bracketed (entries.map fun (key, value) =>
    "    " ++ moved (string key) ++ " => " ++ moved value ++ ",")

end Emend.Literal

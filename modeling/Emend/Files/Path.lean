import Emend.Text.Blank

/-!
# Paths

A path is a text whose parts stand between slashes. Paths are joined as written:
nothing is resolved, `a/../b` stays `a/../b`. The parts of a path leave out what
names no step, that is empty parts and dots, except a dot at the very beginning
of a relative path.
-/

set_option autoImplicit false

namespace Emend.Path

def separator : Char := '/'

def isAbsolute (path : String) : Bool := path.toList.head? == some separator

/-- Whether the path asks for a directory: it ends in a separator or in a dot
after one. -/
def wantsDirectory (path : String) : Bool :=
  match path.toList.reverse with
  | '/' :: _ => true
  | '.' :: '/' :: _ => true
  | _ => false

/-- The path of `relative` seen from the directory `base`. An absolute path stays
as it is. -/
def join (base relative : String) : String :=
  if isAbsolute relative || base.isEmpty then relative
  else if base.toList.getLast? == some separator then base ++ relative
  else base ++ "/" ++ relative

/-- Whether a piece between separators is no step of its own. -/
def isVoid (piece : List Char) : Bool := piece == [] || piece == ['.']

/-- The pieces of a path after the root, with a mark for those that are steps. A
dot is a step only at the beginning of a relative path. -/
def pieces (path : String) : List (List Char × Bool) :=
  let marked (cs : List Char) : List (List Char × Bool) :=
    (Text.splitChars separator cs).map fun piece => (piece, !isVoid piece)
  match path.toList with
  | '/' :: cs => marked cs
  | cs =>
    match marked cs with
    | (['.'], _) :: rest => (['.'], true) :: rest
    | all => all

def steps (path : String) : List String :=
  ((pieces path).filter (·.2)).map fun (piece, _) => .ofList piece

/-- The path without its last step; `none` when there is no step to leave out. -/
def parent? (path : String) : Option String :=
  let isStep (piece : List Char × Bool) : Bool := piece.2
  match (pieces path).reverse.dropWhile (!isStep ·) with
  | [] => none
  | _ :: front =>
    let kept := (front.dropWhile (!isStep ·)).reverse.map (·.1)
    let body := String.ofList ([separator].intercalate kept)
    some (if isAbsolute path then "/" ++ body else body)

/-- What stands before and after the last dot of a file's name; a dot at the very
beginning does not count. -/
def stemAndExtension (name : String) : String × Option String :=
  match Text.cutLast? '.' name with
  | some (stem, extension) =>
    if stem.isEmpty || name == ".." then (name, none) else (stem, some extension)
  | none => (name, none)

end Emend.Path

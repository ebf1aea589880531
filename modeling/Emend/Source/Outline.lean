import Emend.SourceUnit
import Emend.Source.Tree

/-!
# The outline of a source file

An outline is the part of the syntax tree of a file that declarations are read
from: the statements of the file and of its namespaces, one after the other, and
the members of its types. The braces of a namespace are entries of their own.
Each entry gives the spans of the parts whose text matters. Everything below
that, such as bodies and values, is a span of text.
-/

set_option autoImplicit false

namespace Emend

/-- What may stand in the body of a type. -/
inductive MemberOutline where
  | comment (span : Span)
  | interpolation (line : Nat)
  | traitUse (span : Span)
  /-- Constants; the line of an attribute, and the span of each element. -/
  | constants (extent : Extent) (attributeLine : Option Nat) (elements : List Extent)
  /-- Properties; the line of an attribute, and the span of each element. -/
  | properties (extent : Extent) (attributeLine : Option Nat) (elements : List Extent)
  /-- A method; the line of an attribute, its name, its parameter list with the
  parentheses, and its body with the braces. -/
  | method (extent : Extent) (attributeLine : Option Nat) (name parameters : Span)
      (body : Option Span)
  deriving DecidableEq, Repr, Inhabited

structure TypeOutline where
  kind : TypeKind
  extent : Extent
  attributeLine : Option Nat
  bodyStart : Nat
  members : List MemberOutline
  deriving DecidableEq, Repr, Inhabited

/-- What may stand in a file or in a namespace. -/
inductive Outline where
  | comment (span : Span)
  | interpolation (span : Span) (line : Nat)
  /-- Text before the first tag. -/
  | markup (line : Nat)
  | empty
  | directive (extent : Extent)
  /-- The statement of a namespace, which holds from here on; the span of its
  name. -/
  | begin_ (name : Option Span)
  /-- The opening brace of a namespace; the span of its name. -/
  | enter (name : Option Span)
  | leave
  | imports (span : Span)
  | type (type : TypeOutline)
  /-- A statement that declares nothing the library can hold. -/
  | other (construct : String) (line : Nat)
  deriving DecidableEq, Repr, Inhabited

namespace Item

def extent? (label : Label) : Item → Option Extent
  | .node found extent _ => if found == label then some extent else none
  | .trivia _ => none

def items? (label : Label) : Item → Option (List Item)
  | .node found _ items => if found == label then some items else none
  | .trivia _ => none

def attributeLine (items : List Item) : Option Nat :=
  (items.findSome? (extent? .attributes)).map (·.line)

def member? : Item → Option MemberOutline
  | .trivia found =>
    match found.kind with
    | .comment => some (.comment found.span)
    | .interpolation => some (.interpolation found.line)
  | .node label extent items =>
    let elements := items.filterMap (extent? .element)
    match label with
    | .traitUse => some (.traitUse extent.span)
    | .constants => some (.constants extent (attributeLine items) elements)
    | .properties => some (.properties extent (attributeLine items) elements)
    | .method =>
      match items.findSome? (extent? .methodName), items.findSome? (extent? .parameters) with
      | some name, some parameters =>
        some (.method extent (attributeLine items) name.span parameters.span
          ((items.findSome? (extent? .body)).map (·.span)))
      | _, _ => none
    | _ => none

/-- The type that a node with this extent and these items declares. -/
def typeOutline (kind : TypeKind) (extent : Extent) (items : List Item) : Outline :=
  let bodyStart := ((items.findSome? (extent? .body)).map (·.span.start)).getD extent.span.stop
  let members := ((items.findSome? (items? .body)).getD []).filterMap member?
  .type ⟨kind, extent, attributeLine items, bodyStart, members⟩

mutual

def outline : Item → List Outline
  | .trivia found =>
    match found.kind with
    | .comment => [.comment found.span]
    | .interpolation => [.interpolation found.span found.line]
  | .node label extent items =>
    match label with
    | .statement construct => [.other construct extent.line]
    | .emptyStatement => [.empty]
    | .directive => [.directive extent]
    | .space =>
      let name := (items.findSome? (extent? .spaceName)).map (·.span)
      match bodyOutline items with
      | none => [.begin_ name]
      | some inside => .enter name :: inside ++ [.leave]
    | .imports => [.imports extent.span]
    | .class => [typeOutline .class extent items]
    | .interface => [typeOutline .interface extent items]
    | .trait => [typeOutline .trait extent items]
    | _ => []

def outlines : List Item → List Outline
  | [] => []
  | item :: items => outline item ++ outlines items

/-- What stands between the braces of the body among items. -/
def bodyOutline : List Item → Option (List Outline)
  | [] => none
  | .node .body _ items :: _ => some (outlines items)
  | _ :: items => bodyOutline items

end

end Item

def SyntaxTree.outline (tree : SyntaxTree) : List Outline :=
  (tree.markupLine.map Outline.markup).toList ++ Item.outlines tree.items

end Emend

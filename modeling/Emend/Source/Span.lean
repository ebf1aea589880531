/-!
# Spans, and the lines of text around literals

A `Span` is a range of character offsets of a source text. The spans of the
string literals decide which blanks of a text belong to a runtime value: the
beginning of a line that starts inside a literal, the end of a line whose line
feed lies inside a literal, and every tab inside a literal. `LineMark` records
the first two for one line.
-/

set_option autoImplicit false

namespace Emend

/-- The offsets from `start` up to, not including, `stop`. -/
structure Span where
  start : Nat
  stop : Nat
  deriving DecidableEq, Repr, Inhabited

namespace Span

def contains (span : Span) (offset : Nat) : Bool := span.start ≤ offset && offset < span.stop

def containsAfterStart (span : Span) (offset : Nat) : Bool :=
  span.start < offset && offset < span.stop

def slice (span : Span) (text : Array Char) : String :=
  .ofList (text.extract span.start span.stop).toList

end Span

/-- Where a line stands among the literals of its text. -/
structure LineMark where
  opensInside : Bool
  /-- The line feed that ends the line is inside a literal. -/
  closesInside : Bool
  deriving DecidableEq, Repr, Inhabited

namespace LineMark

def plain : LineMark := ⟨false, false⟩

end LineMark

def inAnySpan (spans : List Span) (offset : Nat) : Bool := spans.any (·.contains offset)

/-- Mark lines that stand one after the other from `offset` on, with one line
feed between two of them. -/
def marksFrom (spans : List Span) (offset : Nat) : List (List Char) → List LineMark
  | [] => []
  | line :: rest =>
    let stop := offset + line.length
    ⟨spans.any (·.containsAfterStart offset), inAnySpan spans stop⟩ ::
      marksFrom spans (stop + 1) rest

/-- Replace the tabs outside the spans by four spaces; `offset` is where the
text begins. -/
def expandTabsFrom (spans : List Span) (offset : Nat) : List Char → List Char
  | [] => []
  | c :: cs =>
    if c = '\t' && !inAnySpan spans offset then
      ' ' :: ' ' :: ' ' :: ' ' :: expandTabsFrom spans (offset + 1) cs
    else c :: expandTabsFrom spans (offset + 1) cs

end Emend

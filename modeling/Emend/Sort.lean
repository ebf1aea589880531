/-!
# Sorting

Lists are sorted by insertion, which keeps the order of members that are in order
both ways. The lists of the library are short, and this form can be evaluated in
proofs.
-/

set_option autoImplicit false

namespace Emend

/-- Put a member before the first one that it may stand before. -/
def insertBy {α : Type} (inOrder : α → α → Bool) (x : α) : List α → List α
  | [] => [x]
  | y :: ys => if inOrder x y then x :: y :: ys else y :: insertBy inOrder x ys

/-- Sort a list; members that are in order both ways keep their order. -/
def sortBy {α : Type} (inOrder : α → α → Bool) : List α → List α
  | [] => []
  | x :: xs => insertBy inOrder x (sortBy inOrder xs)

end Emend

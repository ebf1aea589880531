/-!
# Totals

The sum of what is counted in each member of a list.
-/

set_option autoImplicit false

namespace Emend

/-- The sum of `f` over a list. -/
def total {α : Type} (f : α → Nat) : List α → Nat
  | [] => 0
  | x :: xs => f x + total f xs

/-- Nothing counts nothing. -/
@[simp] theorem total_nil {α : Type} (f : α → Nat) : total f [] = 0 := rfl

/-- The first member counts besides the others. -/
@[simp] theorem total_cons {α : Type} (f : α → Nat) (x : α) (xs : List α) :
    total f (x :: xs) = f x + total f xs := rfl

/-- A total is the sum of the totals of two parts. -/
theorem total_append {α : Type} (f : α → Nat) (xs ys : List α) :
    total f (xs ++ ys) = total f xs + total f ys := by
  induction xs with
  | nil => simp
  | cons x xs ih => simp [ih, Nat.add_assoc]

end Emend

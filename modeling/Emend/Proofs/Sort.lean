import Emend.Sort
import Mathlib.Data.List.Sort

/-!
# Sorted lists

Sorting by insertion is the insertion sort of the library of lists, for an order that is a function
to truth values. So sorting moves members and neither loses nor makes any (`perm_sortBy`), what is
sorted is in order (`pairwise_sortBy`), and what is in order stays as it is (`sortBy_eq_self`), also
where members are in order both ways. Members of which no two are in order both ways are sorted the
same whatever their order was (`sortBy_append_of_perm`).
-/

set_option autoImplicit false

namespace Emend

variable {α : Type} {inOrder : α → α → Bool}

theorem insertBy_eq (x : α) (xs : List α) :
    insertBy inOrder x xs = xs.orderedInsert (inOrder · · = true) x := by
  induction xs with
  | nil => rfl
  | cons y ys ih => rw [insertBy, List.orderedInsert_cons, ih]

theorem sortBy_eq (xs : List α) : sortBy inOrder xs = xs.insertionSort (inOrder · · = true) := by
  induction xs with
  | nil => rfl
  | cons x xs ih => rw [sortBy, insertBy_eq, ih, List.insertionSort_cons]

theorem perm_sortBy (inOrder : α → α → Bool) (xs : List α) : (sortBy inOrder xs).Perm xs := by
  rw [sortBy_eq]
  exact List.perm_insertionSort _ xs

@[simp] theorem mem_sortBy {x : α} {xs : List α} : x ∈ sortBy inOrder xs ↔ x ∈ xs :=
  (perm_sortBy inOrder xs).mem_iff

theorem sortBy_eq_self {xs : List α} (sorted : xs.Pairwise (inOrder · · = true)) :
    sortBy inOrder xs = xs := by
  rw [sortBy_eq]
  exact sorted.insertionSort_eq

theorem pairwise_sortBy (total : ∀ a b, inOrder a b = true ∨ inOrder b a = true)
    (trans : ∀ a b c, inOrder a b = true → inOrder b c = true → inOrder a c = true) (xs : List α) :
    (sortBy inOrder xs).Pairwise (inOrder · · = true) := by
  have : Std.Total (α := α) (inOrder · · = true) := ⟨total⟩
  have : IsTrans α (inOrder · · = true) := ⟨trans⟩
  rw [sortBy_eq]
  exact List.pairwise_insertionSort _ xs

section Total

variable (total : ∀ a b, inOrder a b = true ∨ inOrder b a = true)
  (trans : ∀ a b c, inOrder a b = true → inOrder b c = true → inOrder a c = true)

include trans in
theorem insertBy_insertBy {x y : α} (before : inOrder x y = true) (after : inOrder y x = false)
    (zs : List α) :
    insertBy inOrder x (insertBy inOrder y zs) = insertBy inOrder y (insertBy inOrder x zs) := by
  induction zs with
  | nil => simp only [insertBy, before, after, if_true, Bool.false_eq_true, if_false]
  | cons z zs ih =>
      cases second : inOrder y z with
      | true =>
          have first := trans x y z before second
          simp only [insertBy, before, after, first, second, if_true, Bool.false_eq_true, if_false]
      | false =>
          cases first : inOrder x z with
          | true =>
              simp only [insertBy, after, first, second, if_true, Bool.false_eq_true, if_false]
          | false => simp only [insertBy, first, second, Bool.false_eq_true, if_false, ih]

include total trans

/-- Members that are in order one way only can be put in one after the other or the other way
round. -/
theorem insertBy_comm {x y : α} (oneWay : ¬ (inOrder x y = true ∧ inOrder y x = true))
    (zs : List α) :
    insertBy inOrder x (insertBy inOrder y zs) = insertBy inOrder y (insertBy inOrder x zs) := by
  rcases total x y with before | before
  · exact insertBy_insertBy trans before
      (Bool.eq_false_iff.2 fun after => oneWay ⟨before, after⟩) zs
  · exact (insertBy_insertBy trans before
      (Bool.eq_false_iff.2 fun after => oneWay ⟨after, before⟩) zs).symm

theorem sortBy_append_of_perm {xs ys : List α} (perm : xs.Perm ys)
    (oneWay : xs.Pairwise fun x y => ¬ (inOrder x y = true ∧ inOrder y x = true))
    (rest : List α) : sortBy inOrder (xs ++ rest) = sortBy inOrder (ys ++ rest) := by
  induction perm with
  | nil => rfl
  | cons x _ ih =>
      rw [List.cons_append, List.cons_append, sortBy, sortBy, ih (List.pairwise_cons.1 oneWay).2]
  | swap x y zs =>
      have apart := (List.pairwise_cons.1 oneWay).1 x List.mem_cons_self
      simp only [List.cons_append, sortBy]
      exact insertBy_comm total trans apart _
  | trans first _ ih ih' =>
      refine (ih oneWay).trans (ih' ((first.pairwise_iff ?_).1 oneWay))
      exact fun apart both => apart both.symm

end Total

end Emend

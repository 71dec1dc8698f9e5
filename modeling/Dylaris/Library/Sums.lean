import Mathlib.Algebra.Order.Group.Int
import Mathlib.Algebra.Order.BigOperators.Group.List
import Mathlib.Algebra.Ring.Int.Defs

/-!
# A quantity summed over parties

Many parties, kept in a list, each hold some of a quantity that is accounted for in one place.  The
account is right when it equals the sum over the parties; a step moves one party, and `sumOf_set`
says what that does to the sum.
-/

set_option autoImplicit false

universe u

variable {α : Type u}

/-- The quantity `f`, over all parties. -/
def sumOf (f : α → Int) (l : List α) : Int := (l.map f).sum

variable {f g : α → Int} {l : List α}

theorem sumOf_append_singleton (x : α) : sumOf f (l ++ [x]) = sumOf f l + f x := by
  simp [sumOf]

/-- One party changes. -/
theorem sumOf_set {i : Nat} {x : α} (hx : l[i]? = some x) (y : α) :
    sumOf f (l.set i y) = sumOf f l - f x + f y := by
  induction l generalizing i with
  | nil => simp at hx
  | cons z l ih =>
    cases i with
    | zero =>
      rw [List.getElem?_cons_zero, Option.some_inj] at hx
      subst hx
      simp only [sumOf, List.set_cons_zero, List.map_cons, List.sum_cons]
      omega
    | succ i =>
      rw [List.getElem?_cons_succ] at hx
      have := ih hx
      simp only [sumOf, List.set_cons_succ, List.map_cons, List.sum_cons] at this ⊢
      omega

theorem sumOf_le_sumOf (h : ∀ x ∈ l, f x ≤ g x) : sumOf f l ≤ sumOf g l := List.sum_le_sum h

theorem sumOf_add : sumOf (fun x ↦ f x + g x) l = sumOf f l + sumOf g l := List.sum_map_add

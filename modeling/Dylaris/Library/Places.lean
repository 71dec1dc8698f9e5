import Mathlib.Data.List.Basic

/-!
# Parties by their place in a list

The parties of a machine are kept in a list and known by their place: a new one is put at the end, and
a step of one replaces it.  Here is what stands at a place after either.
-/

set_option autoImplicit false

namespace Places

universe u

variable {α : Type u} {l : List α} {x y : α} {i j : Nat}

/-- After one has been added, what stands at a place stood there before or is the new one. -/
theorem getElem?_append_singleton (h : (l ++ [x])[i]? = some y) :
    l[i]? = some y ∨ (i = l.length ∧ y = x) := by
  rw [List.getElem?_append] at h
  split at h
  · exact .inl h
  rename_i hlt
  obtain ⟨hi, hy⟩ := List.getElem?_eq_some_iff.mp h
  rw [List.length_singleton] at hi
  refine .inr ⟨by omega, ?_⟩
  rw [← hy]
  simp

/-- After one has been replaced, what stands at a place is the new one or stood there before. -/
theorem getElem?_set (h : (l.set i x)[j]? = some y) :
    (j = i ∧ y = x) ∨ (j ≠ i ∧ l[j]? = some y) := by
  by_cases hji : j = i
  · subst hji
    obtain ⟨hlt, hy⟩ := List.getElem?_eq_some_iff.mp h
    exact .inl ⟨rfl, by rw [← hy, List.getElem_set_self]⟩
  · rw [List.getElem?_set_ne (Ne.symm hji)] at h
    exact .inr ⟨hji, h⟩

/-- A place that is taken is still taken, by the new one, after a replacement there. -/
theorem getElem?_set_self (h : l[i]? = some y) : (l.set i x)[i]? = some x :=
  List.getElem?_set_self (List.getElem?_eq_some_iff.mp h).1

end Places

import Mathlib.Data.List.Nodup

/-!
# Cells with one owner

Cells are allocated in order and can be closed.  `owns i = some a` says that the owner `i` is the one that
will close the cell `a`: a slot of a map, a local variable, a field.  A program that gives every open cell
at most one owner, and closes a cell only by taking it from its owner, closes no cell twice.

* `Sound owns closes next` is that discipline, where `closes a` counts how often `a` has been closed and
  the cells from `next` on are yet to be allocated.
* `Sound.rename` is the rule for a step that hands cells over, drops some and closes some of those it
  drops; `Sound.drop` is the case where nothing changes hands.
* `Sound.allocate` is the rule for a step that gives new cells to owners.
-/

set_option autoImplicit false

namespace Owned

universe u

variable {ι : Type u} {owns owns' : ι → Option Nat} {closes closes' : Nat → Nat} {next next' : Nat}

/-- Every cell has at most one owner, is open while it has one, and has been closed at most once. -/
structure Sound (owns : ι → Option Nat) (closes : Nat → Nat) (next : Nat) : Prop where
  inj : ∀ {i j a}, owns i = some a → owns j = some a → i = j
  lt : ∀ {i a}, owns i = some a → a < next
  isOpen : ∀ {i a}, owns i = some a → closes a = 0
  once : ∀ a, closes a ≤ 1
  unallocated : ∀ {a}, next ≤ a → closes a = 0

/-- The cells that a step closes are cells it takes from their owners. -/
def ClosesOwned (owns owns' : ι → Option Nat) (closes closes' : Nat → Nat) : Prop :=
  ∀ a, closes' a = closes a ∨ (closes' a = closes a + 1 ∧ (∃ i, owns i = some a) ∧
    ∀ i, owns' i ≠ some a)

/-- A cell that its owner has dropped has none. -/
theorem Sound.not_owned (h : Sound owns closes next) {i : ι} {b : Nat}
    (hsub : ∀ i a, owns' i = some a → owns i = some a) (hi : owns i = some b)
    (hi' : owns' i = none) (j : ι) :
    owns' j ≠ some b := by
  intro hj
  rw [h.inj (hsub j b hj) hi, hi'] at hj
  cases hj

/-- The owner of one cell closes it. -/
theorem closesOwned_of_one {i : ι} {b : Nat} (hi : owns i = some b) (hb : ∀ j, owns' j ≠ some b)
    (hcloses : ∀ a, closes' a = if a = b then closes a + 1 else closes a) :
    ClosesOwned owns owns' closes closes' := by
  intro a
  by_cases h : a = b
  · subst h
    exact .inr ⟨(hcloses a).trans (if_pos rfl), ⟨i, hi⟩, hb⟩
  · exact .inl ((hcloses a).trans (if_neg h))

section

variable (h : Sound owns closes next)

include h

/-- **Cells change hands.**  What an owner has after the step it has from the owner `f i`, and no two have
from the same. -/
theorem Sound.rename (f : ι → ι)
    (hsub : ∀ i a, owns' i = some a → owns (f i) = some a)
    (hf : ∀ i j a, owns' i = some a → owns' j = some a → f i = f j → i = j)
    (hcloses : ClosesOwned owns owns' closes closes') : Sound owns' closes' next where
  inj hi hj := hf _ _ _ hi hj (h.inj (hsub _ _ hi) (hsub _ _ hj))
  lt hi := h.lt (hsub _ _ hi)
  isOpen {i a} hi := by
    rcases hcloses a with heq | ⟨_, _, hnone⟩
    · rw [heq]
      exact h.isOpen (hsub _ _ hi)
    · exact absurd hi (hnone i)
  once a := by
    rcases hcloses a with heq | ⟨heq, ⟨i, hi⟩, _⟩
    · rw [heq]
      exact h.once a
    · have := h.isOpen hi
      omega
  unallocated {a} ha := by
    rcases hcloses a with heq | ⟨_, ⟨i, hi⟩, _⟩
    · rw [heq]
      exact h.unallocated ha
    · exact absurd (h.lt hi) (by omega)

/-- **Owners drop cells.** -/
theorem Sound.drop (hsub : ∀ i a, owns' i = some a → owns i = some a)
    (hcloses : ClosesOwned owns owns' closes closes') : Sound owns' closes' next :=
  h.rename id hsub (fun _ _ _ _ _ hij ↦ hij) hcloses

/-- **New cells.**  What an owner has after the step it had, or it has got one of the new cells, each of
which is given out once. -/
theorem Sound.allocate (new : List (ι × Nat)) (hle : next ≤ next')
    (hnew : ∀ p ∈ new, next ≤ p.2 ∧ p.2 < next') (hnodup : (new.map Prod.snd).Nodup)
    (hsub : ∀ i a, owns' i = some a → owns i = some a ∨ (i, a) ∈ new) : Sound owns' closes next' where
  inj {i j a} hi hj := by
    rcases hsub i a hi with hi | hi
    · rcases hsub j a hj with hj | hj
      · exact h.inj hi hj
      · have := h.lt hi
        have := (hnew _ hj).1
        omega
    · rcases hsub j a hj with hj | hj
      · have := h.lt hj
        have := (hnew _ hi).1
        omega
      · exact congrArg Prod.fst (List.inj_on_of_nodup_map hnodup hi hj rfl)
  lt {i a} hi := by
    rcases hsub i a hi with hi | hi
    · have := h.lt hi
      omega
    · exact (hnew _ hi).2
  isOpen {i a} hi := by
    rcases hsub i a hi with hi | hi
    · exact h.isOpen hi
    · exact h.unallocated (hnew _ hi).1
  once := h.once
  unallocated ha := h.unallocated (by omega)

end

end Owned

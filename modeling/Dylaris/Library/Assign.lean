import Mathlib.Data.List.Basic

/-!
# Assigning in a batch

`assign f writes` is the map `f` after the writes, one after the other.  What a key holds then is what the
last write to it says; where all writes to a key agree, the order does not matter (`assign_of_mem`).
-/

set_option autoImplicit false

universe u v

variable {κ : Type u} {ν : Type v} [DecidableEq κ]

/-- The map after the writes. -/
def assign (f : κ → ν) (writes : List (κ × ν)) : κ → ν :=
  writes.foldl (fun f w ↦ Function.update f w.1 w.2) f

variable {writes : List (κ × ν)}

theorem assign_of_not_mem {f : κ → ν} {k : κ} (h : ∀ v, (k, v) ∉ writes) :
    assign f writes k = f k := by
  induction writes generalizing f with
  | nil => rfl
  | cons w writes ih =>
    have hne : k ≠ w.1 := by
      rintro rfl
      exact h w.2 List.mem_cons_self
    have hrest : assign f (w :: writes) k = assign (Function.update f w.1 w.2) writes k := rfl
    rw [hrest, ih fun v hv ↦ h v (List.mem_cons_of_mem _ hv), Function.update_of_ne hne]

/-- The writes to a key agree. -/
theorem assign_of_mem {f : κ → ν} {k : κ} {v : ν} (hmem : (k, v) ∈ writes)
    (hagree : ∀ v', (k, v') ∈ writes → v' = v) : assign f writes k = v := by
  induction writes generalizing f with
  | nil => cases hmem
  | cons w writes ih =>
    have hrest : assign f (w :: writes) k = assign (Function.update f w.1 w.2) writes k := rfl
    rw [hrest]
    by_cases hlater : (k, v) ∈ writes
    · exact ih hlater fun v' hv' ↦ hagree v' (List.mem_cons_of_mem _ hv')
    obtain rfl : (k, v) = w := (List.mem_cons.mp hmem).resolve_right hlater
    rw [assign_of_not_mem, Function.update_self]
    intro v' hv'
    have := hagree v' (List.mem_cons_of_mem _ hv')
    exact hlater (this ▸ hv')

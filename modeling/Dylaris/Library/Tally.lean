import Mathlib.Data.List.Basic

/-!
# Tallies

A tally says how much each key has, and is only added to: a map from keys to numbers in which a missing key
has nothing.  It is kept as a list in the order in which the keys came up.
-/

set_option autoImplicit false

universe u

/-- How much each key has. -/
abbrev Tally (κ : Type u) := List (κ × Int)

namespace Tally

open List Option

variable {κ : Type u}

/-- Everything together. -/
def total : Tally κ → Int
  | [] => 0
  | (_, n) :: t => n + total t

@[simp] theorem total_nil : total ([] : Tally κ) = 0 := rfl

@[simp] theorem total_cons (k : κ) (n : Int) (t : Tally κ) : total ((k, n) :: t) = n + total t := rfl

theorem total_append (t t' : Tally κ) : total (t ++ t') = total t + total t' := by
  induction t with
  | nil => simp
  | cons p t ih =>
    rw [cons_append, total_cons, total_cons, ih]
    omega

variable [DecidableEq κ] {t : Tally κ}

def get (t : Tally κ) (k : κ) : Int := ((t.find? fun p ↦ p.1 = k).map Prod.snd).getD 0

theorem get_cons (j : κ) (n : Int) (t : Tally κ) (k : κ) :
    get ((j, n) :: t) k = if j = k then n else get t k := by
  rw [get, find?_cons]
  split <;> rename_i h <;> simp only [decide_eq_true_eq, decide_eq_false_iff_not] at h
  · rw [if_pos h, map_some, getD_some]
  · rw [if_neg h, get]

/-- A key has no more than each of its entries may have. -/
theorem get_le {k : κ} {n : Int} (hn : 0 ≤ n) (h : ∀ m, (k, m) ∈ t → m ≤ n) : get t k ≤ n := by
  induction t with
  | nil => exact hn
  | cons p t ih =>
    rw [get_cons]
    split
    · rename_i hk
      exact h p.2 (hk ▸ mem_cons_self)
    · exact ih fun m hm ↦ h m (mem_cons_of_mem p hm)

theorem get_nonneg (h : ∀ x ∈ t, 0 ≤ x.2) (k : κ) : 0 ≤ get t k := by
  induction t with
  | nil => exact Int.le_refl 0
  | cons p t ih =>
    rw [get_cons]
    split
    · exact h p mem_cons_self
    · exact ih fun x hx ↦ h x (mem_cons_of_mem p hx)

/-- Leaving out the keys that have nothing takes nothing from a key. -/
theorem get_le_get_filter (t : Tally κ) (k : κ) : get t k ≤ get (t.filter fun p ↦ 0 < p.2) k := by
  induction t with
  | nil => exact Int.le_refl 0
  | cons p t ih =>
    rw [get_cons]
    by_cases hp : 0 < p.2
    · rw [filter_cons_of_pos (by simpa using hp), get_cons]
      split
      · exact Int.le_refl _
      · exact ih
    · have hnonneg : 0 ≤ get (t.filter fun p ↦ 0 < p.2) k :=
        get_nonneg (fun x hx ↦ Int.le_of_lt (of_decide_eq_true (mem_filter.mp hx).2)) k
      rw [filter_cons_of_neg (by simpa using hp)]
      split
      · omega
      · exact ih

/-- What is left to a key, once something is taken from it. -/
theorem get_map_sub_le (t : Tally κ) (v : κ → Int) (k : κ) :
    get (t.map fun p ↦ (p.1, max 0 (p.2 - v p.1))) k ≤ max 0 (get t k - v k) := by
  induction t with
  | nil => exact Int.le_max_left ..
  | cons p t ih =>
    rw [map_cons, get_cons, get_cons]
    split
    · rename_i hk
      exact hk ▸ Int.le_refl _
    · exact ih

/-- A key gets more. -/
def add : Tally κ → κ → Int → Tally κ
  | [], k, n => [(k, n)]
  | (j, m) :: t, k, n => if j = k then (j, m + n) :: t else (j, m) :: add t k n

theorem total_add (t : Tally κ) (k : κ) (n : Int) : total (t.add k n) = total t + n := by
  induction t with
  | nil => simp [add]
  | cons p t ih =>
    rw [add]
    split
    · rw [total_cons, total_cons]
      omega
    · rw [total_cons, total_cons, ih]
      omega

/-- What is added to keys that have something, or nothing, leaves them with something, or nothing. -/
theorem nonneg_add (h : ∀ x ∈ t, 0 ≤ x.2) {n : Int} (hn : 0 ≤ n) (k : κ) :
    ∀ x ∈ t.add k n, 0 ≤ x.2 := by
  induction t with
  | nil =>
    intro x hx
    rw [add, mem_singleton] at hx
    rw [hx]
    exact hn
  | cons p t ih =>
    intro x hx
    have hp := h p mem_cons_self
    have ht := fun y hy ↦ h y (mem_cons_of_mem p hy)
    rw [add] at hx
    split at hx
    · rcases mem_cons.mp hx with rfl | hx
      · show 0 ≤ p.2 + n
        omega
      · exact ht x hx
    · rcases mem_cons.mp hx with rfl | hx
      · exact hp
      · exact ih ht x hx

end Tally

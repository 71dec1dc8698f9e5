import Dylaris.Library.Table

/-!
# Things kept under names

A directory as its parent sees it: a list of named things, read by the first entry of a name.  Four
operations change it, and each is described by what it does to every name.  `rename` is the one that
can be refused: the old name must be there and the new one must be free.
-/

set_option autoImplicit false

namespace Shelf

open Table

universe u v

variable {κ : Type u} {α : Type v} [DecidableEq κ]

/-- The name of an entry, as the key of a table. -/
def label (e : κ × α) : Option κ := some e.1

/-- What is kept under a name. -/
def get (shelf : List (κ × α)) (n : κ) : Option α := (lookup label n shelf).map Prod.snd

/-- Take away what is kept under a name. -/
def remove (shelf : List (κ × α)) (n : κ) : List (κ × α) := delete label n shelf

/-- Change what is kept under a name, if anything is. -/
def modify (shelf : List (κ × α)) (n : κ) (f : α → α) : List (κ × α) :=
  update label n (fun e ↦ (e.1, f e.2)) shelf

/-- Keep something under a name, in the place of what was there. -/
def put (shelf : List (κ × α)) (n : κ) (x : α) : List (κ × α) := remove shelf n ++ [(n, x)]

/-- Give what is kept under `a` the name `b`. -/
def rename (shelf : List (κ × α)) (a b : κ) : Option (List (κ × α)) :=
  match get shelf a, get shelf b with
  | some x, none => some (remove shelf a ++ [(b, x)])
  | _, _ => none

variable {shelf shelf' : List (κ × α)} {n m a b : κ} {x : α} {f : α → α}

theorem lookup_eq_none_of_get (h : get shelf n = none) : lookup label n shelf = none :=
  Option.map_eq_none_iff.mp h

theorem get_remove : get (remove shelf n) m = if m = n then none else get shelf m := by
  rw [get, remove, lookup_delete]
  split
  · rfl
  · rfl

theorem get_modify : get (modify shelf n f) m = if m = n then (get shelf n).map f else get shelf m := by
  have hlabel : ∀ e : κ × α, label e = some n → label (e.1, f e.2) = some n := fun _ he ↦ he
  rw [get, modify, lookup_update hlabel]
  split
  · rw [get, Option.map_map, Option.map_map]
    rfl
  · rfl

theorem get_insert (h : get shelf n = none) :
    get (shelf ++ [(n, x)]) m = if m = n then some x else get shelf m := by
  have hlabel : label (n, x) = some n := rfl
  rw [get, lookup_insert hlabel (lookup_eq_none_of_get h)]
  split
  · rfl
  · rfl

theorem get_put : get (put shelf n x) m = if m = n then some x else get shelf m := by
  rw [put, get_insert (by rw [get_remove, if_pos rfl]), get_remove]
  split
  · rfl
  · rfl

/-- **What a rename does.** -/
theorem rename_eq_some (h : rename shelf a b = some shelf') :
    ∃ x, get shelf a = some x ∧ get shelf b = none ∧
      ∀ n, get shelf' n = if n = b then some x else if n = a then none else get shelf n := by
  rw [rename] at h
  split at h
  · rename_i x ha hb
    cases h
    have hfree : get (remove shelf a) b = none := by
      rw [get_remove, hb, ite_self]
    exact ⟨x, ha, hb, fun n ↦ by rw [get_insert hfree, get_remove]⟩
  · cases h

end Shelf

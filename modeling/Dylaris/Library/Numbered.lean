import Mathlib.Data.List.Perm.Basic
import Mathlib.Data.List.Range
import Mathlib.Data.List.Sort

/-!
# Pieces under numbers

A sequence is sent in pieces, each under its number, in any order and some more than once; the receiver
keeps them ordered by number, the last arrival of a number replacing an earlier one.  `insert` is such
an arrival, `Sorted` what it keeps.

`Numbered.Of l m` says that every piece kept is the one that `l` has under its number, counting from 1.
Once every number has arrived, the receiver has the whole sequence: `values_eq`.
-/

set_option autoImplicit false

namespace Numbered

open List Option Prod

universe u

variable {β : Type u}

/-- A piece arrives. -/
def insert (k : Nat) (v : β) : List (Nat × β) → List (Nat × β)
  | [] => [(k, v)]
  | p :: m =>
    if k < p.1 then (k, v) :: p :: m
    else if k = p.1 then (k, v) :: m
    else p :: insert k v m

/-- The pieces are ordered by number, and each number occurs once. -/
def Sorted (m : List (Nat × β)) : Prop := m.Pairwise fun p q ↦ p.1 < q.1

/-- Every piece is the one that `l` has under its number. -/
def Of (l : List β) (m : List (Nat × β)) : Prop := ∀ p ∈ m, ∃ i, p.1 = i + 1 ∧ l[i]? = some p.2

variable {l : List β} {m : List (Nat × β)}

theorem mem_of_mem_insert {k : Nat} {v : β} {p : Nat × β} (h : p ∈ insert k v m) :
    p = (k, v) ∨ p ∈ m := by
  induction m with
  | nil => exact .inl (mem_singleton.mp h)
  | cons q m ih =>
    rw [insert] at h
    split at h
    · exact mem_cons.mp h
    split at h
    · exact (mem_cons.mp h).imp_right (mem_cons_of_mem q)
    · rcases mem_cons.mp h with rfl | h
      · exact .inr mem_cons_self
      · exact (ih h).imp_right (mem_cons_of_mem q)

theorem key_mem_insert_self (k : Nat) (v : β) (m : List (Nat × β)) :
    k ∈ (insert k v m).map fst := by
  induction m with
  | nil => exact mem_cons_self
  | cons q m ih =>
    rw [insert]
    split
    · exact mem_cons_self
    · split
      · exact mem_cons_self
      · exact mem_cons_of_mem _ ih

theorem key_mem_insert {j : Nat} (k : Nat) (v : β) (h : j ∈ m.map fst) :
    j ∈ (insert k v m).map fst := by
  induction m with
  | nil => cases h
  | cons q m ih =>
    rw [insert]
    split
    · exact mem_cons_of_mem _ h
    rcases mem_cons.mp h with rfl | h
    · split
      · rename_i heq
        exact mem_cons.mpr (.inl heq.symm)
      · exact mem_cons_self
    · split
      · exact mem_cons_of_mem _ h
      · exact mem_cons_of_mem _ (ih h)

theorem Sorted.insert (h : Sorted m) (k : Nat) (v : β) : Sorted (insert k v m) := by
  induction m with
  | nil => exact pairwise_singleton _ _
  | cons q m ih =>
    obtain ⟨hq, hm⟩ := pairwise_cons.mp h
    rw [Numbered.insert]
    split
    · rename_i hlt
      refine pairwise_cons.mpr ⟨fun p hp ↦ ?_, h⟩
      rcases mem_cons.mp hp with rfl | hp
      · exact hlt
      · exact hlt.trans (hq p hp)
    · split
      · rename_i heq
        exact pairwise_cons.mpr ⟨fun p hp ↦ heq ▸ hq p hp, hm⟩
      refine pairwise_cons.mpr ⟨fun p hp ↦ ?_, ih hm⟩
      rcases mem_of_mem_insert hp with rfl | hp
      · dsimp only
        omega
      · exact hq p hp

theorem Of.insert (h : Of l m) {i : Nat} {v : β} (hv : l[i]? = some v) :
    Of l (insert (i + 1) v m) := by
  intro p hp
  rcases mem_of_mem_insert hp with rfl | hp
  · exact ⟨i, rfl, hv⟩
  · exact h p hp

/-- The sequence grows at its end. -/
theorem Of.append (h : Of l m) (v : β) : Of (l ++ [v]) m := by
  intro p hp
  obtain ⟨i, hi, hv⟩ := h p hp
  have hlt : i < l.length := (List.getElem?_eq_some_iff.mp hv).1
  exact ⟨i, hi, by rw [getElem?_append_left hlt, hv]⟩

/-- Once every number has arrived, the numbers are those from 1 to the length. -/
theorem keys_eq (hs : Sorted m) (hof : Of l m) (hall : ∀ i < l.length, i + 1 ∈ m.map fst) :
    m.map fst = List.range' 1 l.length := by
  have hlt : (m.map fst).Pairwise (· < ·) := pairwise_map.mpr hs
  have hlt' : (List.range' 1 l.length).Pairwise (· < ·) := pairwise_lt_range'
  refine List.Perm.eq_of_pairwise (fun a b _ _ hab hba ↦ absurd (hab.trans hba) (lt_irrefl a)) hlt hlt' ?_
  refine (perm_ext_iff_of_nodup (hlt.imp ne_of_lt) (hlt'.imp ne_of_lt)).mpr fun k ↦ ?_
  rw [mem_range'_1]
  constructor
  · intro hk
    obtain ⟨p, hp, rfl⟩ := mem_map.mp hk
    obtain ⟨i, hi, hv⟩ := hof p hp
    have hlen := (List.getElem?_eq_some_iff.mp hv).1
    omega
  · intro hk
    have hmem := hall (k - 1) (by omega)
    rwa [Nat.sub_add_cancel hk.1] at hmem

/-- **Once every number has arrived, the pieces in order are the sequence.** -/
theorem values_eq (hs : Sorted m) (hof : Of l m) (hall : ∀ i < l.length, i + 1 ∈ m.map fst) :
    m.map snd = l := by
  have hkeys := keys_eq hs hof hall
  have hlen : m.length = l.length := by simpa using congrArg List.length hkeys
  refine ext_getElem (by rw [length_map, hlen]) fun i h₁ h₂ ↦ ?_
  have him : i < m.length := hlen ▸ h₂
  -- The piece at position `i` has the number `i + 1`.
  have hkey : m[i].1 = i + 1 := by
    have hget : (m.map fst)[i]? = (List.range' 1 l.length)[i]? := by rw [hkeys]
    rw [getElem?_map, getElem?_eq_getElem him, getElem?_range' h₂] at hget
    have hi := Option.some.inj hget
    omega
  obtain ⟨j, hj, hv⟩ := hof m[i] (getElem_mem him)
  obtain rfl : j = i := by omega
  rw [getElem_map]
  exact (List.getElem?_eq_some_iff.mp hv).2.symm

end Numbered

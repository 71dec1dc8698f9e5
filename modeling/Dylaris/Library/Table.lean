import Mathlib.Data.List.Basic
import Mathlib.Data.List.Induction
import Mathlib.Data.List.Pairwise

/-!
# Tables with a unique index

A database table is a list of rows, and a unique index on it is a partial key `key : ρ → Option κ`:
`none` is the row the index leaves out (a partial index, or SQL's `NULL`, which is never equal to
itself).  `Table.Unique key rows` says that no two rows share a key.

Under that invariant a lookup is membership, `lookup_eq_some_iff`, and the operations below — the
single-row `UPDATE`, the `INSERT … ON CONFLICT DO UPDATE`, the `DELETE` — are described by what they
do to every lookup.  `index` is the other way to read a table: fold it into a map, later rows
overwriting earlier ones; with a unique key the two agree, `index_view`.
-/

set_option autoImplicit false

namespace Table

open List Option

universe u v

variable {ρ : Type u} {κ : Type v} [DecidableEq κ] (key : ρ → Option κ)

/-- No two rows have the same key. -/
def Unique (rows : List ρ) : Prop := rows.Pairwise fun a b ↦ key a = none ∨ key a ≠ key b

/-- The first row with key `k`. -/
def lookup (k : κ) (rows : List ρ) : Option ρ := rows.find? fun r ↦ key r = some k

/-- `UPDATE … WHERE key = k`. -/
def update (k : κ) (set : ρ → ρ) (rows : List ρ) : List ρ :=
  rows.map fun r ↦ if key r = some k then set r else r

/-- `DELETE … WHERE key = k`. -/
def delete (k : κ) (rows : List ρ) : List ρ := rows.filter fun r ↦ key r ≠ some k

/-- `INSERT … ON CONFLICT (key) DO UPDATE`. -/
def upsert (k : κ) (set : ρ → ρ) (new : ρ) (rows : List ρ) : List ρ :=
  match lookup key k rows with
  | some _ => update key k set rows
  | none => rows ++ [new]

/-- The table read into a map in one pass, a later row overwriting an earlier one. -/
def index (rows : List ρ) : κ → Option ρ :=
  rows.foldl (fun m r ↦ match key r with
    | some k => Function.update m k (some r)
    | none => m) fun _ ↦ none

variable {key}

instance (rows : List ρ) : Decidable (Unique key rows) :=
  inferInstanceAs (Decidable (rows.Pairwise _))

variable {k : κ} {rows : List ρ} {r : ρ}

theorem mem_of_lookup (h : lookup key k rows = some r) : r ∈ rows ∧ key r = some k :=
  ⟨mem_of_find?_eq_some h, by simpa using find?_some h⟩

theorem lookup_eq_none_iff : lookup key k rows = none ↔ ∀ r ∈ rows, key r ≠ some k := by
  simp [lookup, find?_eq_none]

/-- **A lookup is membership**, when the key is unique. -/
theorem lookup_eq_some_iff (hu : Unique key rows) :
    lookup key k rows = some r ↔ r ∈ rows ∧ key r = some k := by
  refine ⟨mem_of_lookup, ?_⟩
  rintro ⟨hmem, hk⟩
  induction rows with
  | nil => simp at hmem
  | cons x rest ih =>
    rw [Unique, pairwise_cons] at hu
    rw [lookup, find?_cons]
    by_cases hx : key x = some k
    · rcases mem_cons.mp hmem with rfl | hr
      · simp [hx]
      · rcases hu.1 r hr with hnone | hne
        · rw [hx] at hnone
          cases hnone
        · exact absurd (hx.trans hk.symm) hne
    · rcases mem_cons.mp hmem with rfl | hr
      · exact absurd hk hx
      · simp only [hx, decide_false]
        exact ih hu.2 hr

/-- Two tables with the same rows of a given kind answer the same lookups of that kind. -/
theorem lookup_filter_congr {rows' : List ρ} (hu : Unique key rows) (hu' : Unique key rows')
    {p : ρ → Prop} [DecidablePred p] (h : ∀ r, p r → (r ∈ rows ↔ r ∈ rows')) (k : κ) :
    (lookup key k rows).filter p = (lookup key k rows').filter p := by
  ext r
  simp only [filter_eq_some_iff, decide_eq_true_eq]
  constructor
  · rintro ⟨hl, hp⟩
    obtain ⟨hm, hk⟩ := mem_of_lookup hl
    exact ⟨(lookup_eq_some_iff hu').2 ⟨(h r hp).1 hm, hk⟩, hp⟩
  · rintro ⟨hl, hp⟩
    obtain ⟨hm, hk⟩ := mem_of_lookup hl
    exact ⟨(lookup_eq_some_iff hu).2 ⟨(h r hp).2 hm, hk⟩, hp⟩

/-- The rows a unique key selects are at most one, so the last of them is the first. -/
theorem getLast?_filter_eq_lookup (hu : Unique key rows) {p : ρ → Bool}
    (hp : ∀ r, p r = true ↔ key r = some k) : (rows.filter p).getLast? = lookup key k rows := by
  have hfind : lookup key k rows = (rows.filter p).head? := by
    rw [head?_filter, lookup]
    congr 1
    funext r
    rw [Bool.eq_iff_iff, hp r, decide_eq_true_iff]
  rw [hfind]
  match hl : rows.filter p with
  | [] => rfl
  | [_] => rfl
  | a :: b :: rest =>
    have hpair : (a :: b :: rest).Pairwise fun a b ↦ key a = none ∨ key a ≠ key b :=
      hl ▸ hu.sublist filter_sublist
    have ha := (hp a).1 (mem_filter.mp (hl ▸ mem_cons_self : a ∈ rows.filter p)).2
    have hb := (hp b).1 (mem_filter.mp
      (hl ▸ mem_cons_of_mem a mem_cons_self : b ∈ rows.filter p)).2
    rcases (pairwise_cons.mp hpair).1 b mem_cons_self with h | h
    · rw [ha] at h
      cases h
    · exact absurd (ha.trans hb.symm) h

/-! ## What the operations do to a lookup -/

variable {set : ρ → ρ}

/-- A set that keeps the key of the row it touches keeps every key. -/
theorem key_set (hset : ∀ r, key r = some k → key (set r) = some k) (r : ρ) :
    key (if key r = some k then set r else r) = key r := by
  split
  · rename_i hr
    exact (hset r hr).trans hr.symm
  · rfl

theorem lookup_update (hset : ∀ r, key r = some k → key (set r) = some k)
    (j : κ) (rows : List ρ) : lookup key j (update key k set rows)
      = if j = k then (lookup key k rows).map set else lookup key j rows := by
  -- The keys are unchanged, so the same row is found, before or after it is set.
  have hfind : lookup key j (update key k set rows)
      = (lookup key j rows).map fun r ↦ if key r = some k then set r else r := by
    rw [lookup, update, find?_map]
    congr 2
    funext r
    simp [key_set hset]
  rw [hfind]
  cases hl : lookup key j rows with
  | none =>
    split
    · rename_i hjk
      rw [← hjk, hl]
      rfl
    · rfl
  | some r =>
    have hr : key r = some j := (mem_of_lookup hl).2
    split
    · rename_i hjk
      subst hjk
      simp [hl, hr]
    · rename_i hjk
      simp [hr, hjk]

theorem lookup_delete (k j : κ) (rows : List ρ) :
    lookup key j (delete key k rows) = if j = k then none else lookup key j rows := by
  split
  · rename_i hjk
    rw [lookup_eq_none_iff, hjk]
    exact fun r hr ↦ by simpa using (mem_filter.mp hr).2
  rename_i hjk
  rw [lookup, lookup, delete, find?_filter]
  congr 1
  funext r
  by_cases hr : key r = some j <;> simp [hr, hjk]

variable {new : ρ}

theorem lookup_insert (hnew : key new = some k) (hfree : lookup key k rows = none) (j : κ) :
    lookup key j (rows ++ [new]) = if j = k then some new else lookup key j rows := by
  rw [lookup, find?_append]
  change (lookup key j rows).or _ = _
  by_cases hjk : j = k
  · subst hjk
    simp [hfree, hnew]
  · have hkj : ¬ k = j := fun h ↦ hjk h.symm
    simp [hnew, hjk, hkj]

theorem lookup_upsert
    (hset : ∀ r, key r = some k → key (set r) = some k) (hnew : key new = some k) (j : κ)
    (rows : List ρ) : lookup key j (upsert key k set new rows)
      = if j = k then some ((lookup key k rows).elim new set) else lookup key j rows := by
  rw [upsert]
  cases hl : lookup key k rows with
  | none => exact lookup_insert hnew hl j
  | some r =>
    simp only [lookup_update hset, hl]
    rfl

/-! ## The operations keep a key unique -/

section

variable (h : Unique key rows)

include h

theorem Unique.delete (k : κ) : Unique key (Table.delete key k rows) :=
  h.sublist filter_sublist

theorem Unique.insert
    (hnew : key new = some k) (hfree : lookup key k rows = none) : Unique key (rows ++ [new]) := by
  rw [Unique, pairwise_append]
  refine ⟨h, pairwise_singleton _ _, fun r hr r' hr' ↦ .inr ?_⟩
  rw [mem_singleton.mp hr', hnew]
  exact lookup_eq_none_iff.mp hfree r hr

/-- An update that keeps the key of the row it touches. -/
theorem Unique.update (hset : ∀ r, key r = some k → key (set r) = some k) :
    Unique key (Table.update key k set rows) := by
  rw [Unique, Table.update, pairwise_map]
  refine List.Pairwise.imp ?_ h
  intro a b hab
  rw [key_set hset a, key_set hset b]
  exact hab

theorem Unique.upsert
    (hset : ∀ r, key r = some k → key (set r) = some k) (hnew : key new = some k) :
    Unique key (Table.upsert key k set new rows) := by
  rw [Table.upsert]
  split
  · exact h.update hset
  · rename_i hfree
    exact h.insert hnew hfree

end

/-! ## Reading a table into a map -/

theorem index_append_singleton (rows : List ρ) (r : ρ) :
    index key (rows ++ [r]) = match key r with
      | some k => Function.update (index key rows) k (some r)
      | none => index key rows := by
  simp [index, foldl_append]

/-- A later row overwrites an earlier one, so the map holds the last row of each key. -/
theorem index_eq_getLast? (rows : List ρ) (k : κ) :
    index key rows k = (rows.filter fun r ↦ key r = some k).getLast? := by
  induction rows using List.reverseRecOn with
  | nil => rfl
  | append_singleton rows r ih =>
    rw [index_append_singleton, filter_append]
    cases hr : key r with
    | none => simp [ih, hr]
    | some j =>
      by_cases hjk : j = k
      · subst hjk
        simp [hr]
      · have hkj : k ≠ j := fun h ↦ hjk h.symm
        simp [Function.update_of_ne hkj, ih, hr, hjk]

theorem mem_of_index (h : index key rows k = some r) : r ∈ rows ∧ key r = some k := by
  rw [index_eq_getLast?] at h
  simpa using mem_filter.mp (mem_of_getLast? h)

theorem index_ne_none (hmem : r ∈ rows) (hk : key r = some k) : index key rows k ≠ none := by
  rw [index_eq_getLast?, Ne, getLast?_eq_none_iff, filter_eq_nil_iff]
  exact fun h ↦ h r hmem (by simpa using hk)

/-- **Indexing a view of a table is looking up in the table.**  The view keeps some of the rows, `p`,
and maps them; its key `k` stands for the key `k'` of the table, which is unique. -/
theorem index_view {σ : Type*} {ι : Type*} [DecidableEq ι] (hu : Unique key rows)
    {p : ρ → Bool} {f : ρ → σ} {key' : σ → Option ι} {k : ι} {k' : κ}
    (h : ∀ r, (key' (f r) = some k ∧ p r = true) ↔ key r = some k') :
    index key' ((rows.filter p).map f) k = (lookup key k' rows).map f := by
  rw [index_eq_getLast?, List.filter_map, List.filter_filter, List.getLast?_map]
  congr 1
  refine getLast?_filter_eq_lookup hu fun r ↦ ?_
  rw [← h r]
  simp

end Table

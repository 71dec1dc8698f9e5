import Dylaris.Library.Text
import Mathlib.Data.Nat.Digits.Lemmas

/-!
# Fields in one text

A record is written as its fields with a separator between them, and a number as its decimal digits.
With the separator in front of each name, as in a path from the root, one text is a prefix of another
only when the names are (`prefix_of_flatMap_prefix`).
-/

set_option autoImplicit false

open Text

namespace Fields

open List Option

universe u

variable {α : Type u} {sep : α}

/-! ## Names with the separator in front -/

/-- A name without a separator before a text that begins with one. -/
theorem eq_of_append_sep {s t X Y : List α} (hs : sep ∉ s) (ht : sep ∉ t)
    (h : s ++ sep :: X <+: t ++ Y) (hY : Y = [] ∨ ∃ Z, Y = sep :: Z) :
    s = t ∧ sep :: X <+: Y := by
  induction s generalizing t with
  | nil =>
    cases t with
    | nil => exact ⟨rfl, h⟩
    | cons b t =>
      rw [nil_append, cons_append, cons_prefix_cons] at h
      exact absurd (h.1 ▸ mem_cons_self) ht
  | cons a s ih =>
    cases t with
    | nil =>
      rcases hY with rfl | ⟨Z, rfl⟩
      · exact absurd (prefix_nil.mp h) (by simp)
      · exact absurd ((cons_prefix_cons.mp h).1 ▸ mem_cons_self) hs
    | cons b t =>
      rw [cons_append, cons_append, cons_prefix_cons] at h
      obtain ⟨rfl, h⟩ := h
      obtain ⟨rfl, h'⟩ := ih (fun hmem ↦ hs (mem_cons_of_mem _ hmem))
        (fun hmem ↦ ht (mem_cons_of_mem _ hmem)) h
      exact ⟨rfl, h'⟩

theorem flatMap_eq (sep : α) (p : List (List α)) :
    p.flatMap (sep :: ·) = [] ∨ ∃ Z, p.flatMap (sep :: ·) = sep :: Z := by
  cases p with
  | nil => exact .inl rfl
  | cons s p => exact .inr ⟨s ++ p.flatMap (sep :: ·), rfl⟩

/-- Names with the separator in front of each, and one more separator: where such a text begins
another one, its names begin the other's. -/
theorem prefix_of_flatMap_prefix {p q : List (List α)} {X : List α} (hp : ∀ s ∈ p, sep ∉ s)
    (hq : ∀ s ∈ q, sep ∉ s) (h : p.flatMap (sep :: ·) ++ sep :: X <+: q.flatMap (sep :: ·)) :
    p <+: q := by
  induction p generalizing q with
  | nil => exact nil_prefix
  | cons s p ih =>
    cases q with
    | nil => exact absurd (prefix_nil.mp h) (by simp)
    | cons t q =>
      simp only [flatMap_cons, cons_append, append_assoc, cons_prefix_cons,
        true_and] at h
      have htail : ∃ Z, p.flatMap (sep :: ·) ++ sep :: X = sep :: Z := by
        rcases flatMap_eq sep p with h | ⟨Z, h⟩
        · exact ⟨X, by rw [h]; rfl⟩
        · exact ⟨Z ++ sep :: X, by rw [h]; rfl⟩
      obtain ⟨Z, hZ⟩ := htail
      rw [hZ] at h
      obtain ⟨rfl, h'⟩ := eq_of_append_sep (hp s mem_cons_self) (hq t mem_cons_self) h
        (flatMap_eq sep q)
      rw [← hZ] at h'
      exact cons_prefix_cons.mpr ⟨rfl, ih (fun s hs ↦ hp s (mem_cons_of_mem _ hs))
        (fun s hs ↦ hq s (mem_cons_of_mem _ hs)) h'⟩

theorem flatMap_inj {p q : List (List α)} (hp : ∀ s ∈ p, sep ∉ s) (hq : ∀ s ∈ q, sep ∉ s)
    (h : p.flatMap (sep :: ·) = q.flatMap (sep :: ·)) : p = q := by
  induction p generalizing q with
  | nil =>
    cases q with
    | nil => rfl
    | cons t q => cases h
  | cons s p ih =>
    cases q with
    | nil => cases h
    | cons t q =>
      simp only [flatMap_cons, cons_append, List.cons.injEq, true_and] at h
      have hst : s = t ∧ p.flatMap (sep :: ·) = q.flatMap (sep :: ·) := by
        rcases flatMap_eq sep p with hnil | ⟨X, hX⟩
        · rw [hnil, append_nil] at h
          rw [hnil]
          rcases flatMap_eq sep q with hnil' | ⟨Y, hY⟩
          · rw [hnil', append_nil] at h
            exact ⟨h, hnil'.symm⟩
          · rw [hY] at h
            exact absurd (h ▸ mem_append_right t mem_cons_self) (hp s mem_cons_self)
        · rw [hX] at h
          obtain ⟨rfl, -⟩ := eq_of_append_sep (hp s mem_cons_self) (hq t mem_cons_self)
            (by rw [h]) (flatMap_eq sep q)
          rw [hX]
          exact ⟨rfl, append_cancel_left h⟩
      rw [hst.1, ih (fun s hs ↦ hp s (mem_cons_of_mem _ hs))
        (fun s hs ↦ hq s (mem_cons_of_mem _ hs)) hst.2]

/-! ## Fields with the separator between them -/

theorem mem_intercalate {b : α} (hb : b ≠ sep) (fs : List (List α)) :
    b ∈ [sep].intercalate fs ↔ ∃ f ∈ fs, b ∈ f := by
  induction fs with
  | nil => simp
  | cons f fs ih =>
    cases fs with
    | nil => simp
    | cons g fs =>
      rw [intercalate_cons_cons]
      simp [hb, ih]

theorem intercalate_append_nil {fs : List (List α)} (h : fs ≠ []) :
    [sep].intercalate (fs ++ [[]]) = [sep].intercalate fs ++ [sep] := by
  induction fs with
  | nil => exact absurd rfl h
  | cons f fs ih =>
    cases fs with
    | nil => simp [intercalate_cons_cons]
    | cons g fs =>
      have ih := ih (by simp)
      rw [cons_append] at ih
      rw [cons_append, cons_append, intercalate_cons_cons, ih, intercalate_cons_cons]
      simp

variable [DecidableEq α]

/-- The parts of a split text are free of the separator. -/
theorem notMem_of_mem_splitOn {t s : List α} (h : s ∈ t.splitOn sep) : sep ∉ s := by
  induction t generalizing s with
  | nil =>
    rw [splitOn_nil, mem_singleton] at h
    rw [h]
    exact not_mem_nil
  | cons a t ih =>
    rw [splitOn_cons_eq_if_modifyHead] at h
    split at h
    · rcases mem_cons.mp h with rfl | h
      · exact not_mem_nil
      · exact ih h
    rename_i hne
    cases ht : t.splitOn sep with
    | nil => exact absurd ht (splitOn_ne_nil _ _)
    | cons f fs =>
      rw [ht] at h ih
      rcases mem_cons.mp h with rfl | h
      · rw [mem_cons, not_or]
        exact ⟨fun heq ↦ hne (by simp [heq]), ih mem_cons_self⟩
      · exact ih (mem_cons_of_mem _ h)

/-! ## Numbers -/

/-- The digit of a number below ten. -/
def digitByte (d : Nat) : UInt8 := 0x30 + d.toUInt8

/-- A natural number in decimal. -/
def formatNat (n : Nat) : Text :=
  if n = 0 then [0x30] else ((Nat.digits 10 n).map digitByte).reverse

/-- `strconv.FormatInt(n, 10)`. -/
def formatInt : Int → Text
  | .ofNat n => formatNat n
  | .negSucc n => 0x2D :: formatNat (n + 1)

theorem digitByte_toNat {d : Nat} (h : d < 10) : (digitByte d).toNat - 0x30 = d := by
  revert d
  decide

theorem isDigit_digitByte {d : Nat} (h : d < 10) : isDigit (digitByte d) = true := by
  revert d
  decide

theorem isDigit_of_mem_formatNat {n : Nat} {b : UInt8} (h : b ∈ formatNat n) : isDigit b = true := by
  rw [formatNat] at h
  split at h
  · rw [mem_singleton.mp h]
    decide
  · obtain ⟨d, hd, rfl⟩ := mem_map.mp (mem_reverse.mp h)
    exact isDigit_digitByte (Nat.digits_lt_base (by omega) hd)

/-- A number is read back from its digits. -/
theorem decimal_formatNat (n : Nat) : decimal (formatNat n) = n := by
  rw [formatNat]
  split
  · rename_i hn
    rw [hn]
    decide
  have hdigits : ∀ l : List Nat, (∀ d ∈ l, d < 10) →
      (l.map digitByte).foldr (fun b n ↦ 10 * n + (b.toNat - 0x30)) 0 = Nat.ofDigits 10 l := by
    intro l
    induction l with
    | nil => exact fun _ ↦ rfl
    | cons d l ih =>
      intro hl
      rw [map_cons, foldr_cons, ih fun x hx ↦ hl x (mem_cons_of_mem _ hx),
        digitByte_toNat (hl d mem_cons_self), Nat.ofDigits_cons]
      omega
  rw [decimal, foldl_reverse, hdigits _ fun d hd ↦ Nat.digits_lt_base (by omega) hd,
    Nat.ofDigits_digits]

/-- A number in decimal has digits and, in front, perhaps a sign. -/
theorem mem_formatInt {z : Int} {b : UInt8} (h : b ∈ formatInt z) : isDigit b = true ∨ b = 0x2D := by
  cases z with
  | ofNat n => exact .inl (isDigit_of_mem_formatNat h)
  | negSucc n =>
    rcases mem_cons.mp h with rfl | h
    · exact .inr rfl
    · exact .inl (isDigit_of_mem_formatNat h)

end Fields

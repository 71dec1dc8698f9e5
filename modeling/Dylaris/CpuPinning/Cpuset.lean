import Dylaris.Library.Fields
import Mathlib.Data.Int.Range

/-!
# Core numbers as text

`compactCpuset` and `parseCpusetList` of `core/services/cpu_pinning.go`.  A core number is an `int`, here
an integer in its range, and `n++` on the largest one gives the smallest.  So the loop over a range that
ends at the largest number does not end (`expand_maxInt`); the loop is run for so many rounds, and has no
result if it is not over by then.  `Ends` excludes such a range.
-/

set_option autoImplicit false

namespace Dylaris.CpuPinning

open List Option Text Fields

/-- The largest `int`. -/
def maxInt : Int := 2 ^ 63 - 1

/-- `n + 1` as an `int`. -/
def next (n : Int) : Int := (n + 1).bmod (2 ^ 64)

/-- A run from `start` to `prev` as text. -/
def part (start prev : Int) : Text :=
  if start = prev then formatInt start else formatInt start ++ 0x2D :: formatInt prev

/-- The parts of the numbers behind `prev`, and of the run from `start` on that it is in. -/
def parts (start prev : Int) : List Int → List Text
  | [] => [part start prev]
  | id :: ids => if id = next prev then parts start id ids else part start prev :: parts id id ids

def compactCpuset : List Int → Text
  | [] => []
  | id :: ids => [0x2C].intercalate (parts id id ids)

/-- `for n := lo; n <= hi; n++`, for so many rounds. -/
def expand (hi : Int) : Nat → Int → Option (List Int)
  | 0, _ => none
  | rounds + 1, n => if n ≤ hi then (expand hi rounds (next n)).map (n :: ·) else some []

/-- The two numbers around the first dash. -/
def bounds (part : Text) : Option (Int × Int) := do
  let lo ← parseInt64 (trimSpace (part.takeWhile (· ≠ 0x2D)))
  let hi ← parseInt64 (trimSpace (part.dropWhile (· ≠ 0x2D)).tail)
  some (lo, hi)

def parsePart (rounds : Nat) (part : Text) : Option (List Int) :=
  if part = [] then some []
  else if 0x2D ∈ part then
    match bounds part with
    | some (lo, hi) => if hi < lo then some [] else expand hi rounds lo
    | none => some []
  else some (parseInt64 part).toList

/-- The loop over the parts. -/
def parseParts (rounds : Nat) : List Text → Option (List Int)
  | [] => some []
  | part :: parts => (parsePart rounds (trimSpace part)).bind fun out ↦
      (parseParts rounds parts).map (out ++ ·)

/-- `parseCpusetList`, with so many rounds for each of its ranges.  A text without a part has an empty one,
which is left out. -/
def parseCpusetList (rounds : Nat) (s : Text) : Option (List Int) :=
  parseParts rounds ((trimSpace s).splitOn 0x2C)

/-- The part is no range up to the largest number. -/
def PartEnds (part : Text) : Prop :=
  0x2D ∈ part → ∀ b ∈ bounds part, b.1 ≤ b.2 → b.2 ≠ maxInt

/-- No part of the text is a range up to the largest number. -/
def Ends (s : Text) : Prop := ∀ part ∈ (trimSpace s).splitOn 0x2C, PartEnds (trimSpace part)

instance (s : Text) : Decidable (Ends s) :=
  inferInstanceAs (Decidable (∀ part ∈ _, _ → ∀ b ∈ bounds _, _ → _))

/-! ## The loop -/

variable {lo hi n : Int} {rounds : Nat}

theorem next_of_lt (hlo : -2 ^ 63 ≤ n) (hhi : n < maxInt) : next n = n + 1 := by
  rw [maxInt] at hhi
  rw [next, Int.bmod_def]
  omega

theorem next_le (n : Int) : next n ≤ maxInt := by
  rw [maxInt, next, Int.bmod_def]
  omega

/-- A loop up to the largest number goes on. -/
theorem expand_maxInt (hn : n ≤ maxInt) : expand maxInt rounds n = none := by
  induction rounds generalizing n with
  | zero => rfl
  | succ rounds ih => rw [expand, if_pos hn, ih (next_le n), map_none]

theorem range_cons (h : lo ≤ hi) : Int.range lo (hi + 1) = lo :: Int.range (lo + 1) (hi + 1) := by
  have hlen : (hi + 1 - lo).toNat = (hi + 1 - (lo + 1)).toNat + 1 := by omega
  rw [Int.range, hlen, range_succ_eq_map, map_cons, List.map_map, Int.range]
  refine congrArg₂ cons (by simp) (map_congr_left fun k _ ↦ ?_)
  simp only [Function.comp_apply, Nat.cast_succ]
  omega

theorem range_append (h : lo ≤ hi) : Int.range lo hi ++ [hi] = Int.range lo (hi + 1) := by
  have hlen : (hi + 1 - lo).toNat = (hi - lo).toNat + 1 := by omega
  rw [Int.range, Int.range, hlen, range_succ, map_append, map_singleton]
  refine congrArg (_ ++ [·]) ?_
  omega

theorem range_self (n : Int) : Int.range n (n + 1) = [n] := by
  rw [range_cons le_rfl, Int.range, sub_self]
  rfl

/-- Any other loop is over after the numbers of its range. -/
theorem expand_eq (hlo : -2 ^ 63 ≤ lo) (hle : lo ≤ hi + 1) (hhi : hi < maxInt)
    (hrounds : hi - lo + 1 < rounds) : expand hi rounds lo = some (Int.range lo (hi + 1)) := by
  induction rounds generalizing lo with
  | zero => omega
  | succ rounds ih =>
    rw [expand]
    split
    · rename_i hle
      rw [next_of_lt hlo (by omega), ih (by omega) (by omega) (by omega), range_cons hle, map_some]
    · rw [Int.range, Int.toNat_of_nonpos (by omega)]
      rfl

/-! ## Numbers -/

theorem parseInt64_range {t : Text} (h : parseInt64 t = some n) : -2 ^ 63 ≤ n ∧ n ≤ maxInt := by
  unfold parseInt64 at h
  dsimp only at h
  rw [ite_none_right_eq_some, ite_none_right_eq_some, some_inj] at h
  rw [maxInt]
  omega

theorem formatNat_ne_nil (k : Nat) : formatNat k ≠ [] := by
  rw [formatNat]
  split
  · exact cons_ne_nil _ _
  · simpa using Nat.digits_ne_nil_iff_ne_zero.mpr ‹k ≠ 0›

theorem parseInt64_formatInt (h0 : 0 ≤ n) (hn : n ≤ maxInt) : parseInt64 (formatInt n) = some n := by
  obtain ⟨k, rfl⟩ := Int.eq_ofNat_of_zero_le h0
  have hdigits : ∀ b ∈ formatNat k, isDigit b = true := fun b ↦ isDigit_of_mem_formatNat
  -- A digit is no sign.
  have hfirst : ∀ c, isDigit c = false → ∀ digits, formatNat k = c :: digits → False := by
    intro c hc digits heq
    rw [hdigits c (heq ▸ mem_cons_self)] at hc
    cases hc
  show parseInt64 (formatNat k) = _
  rw [maxInt] at hn
  rw [parseInt64, if_pos ⟨formatNat_ne_nil k, all_eq_true.mpr hdigits⟩, decimal_formatNat]
  · dsimp only
    rw [if_neg Bool.false_ne_true, if_pos (by omega)]
  · exact hfirst _ rfl
  · exact hfirst _ rfl

/-! ## Parts -/

variable {start prev : Int} {ids : List Int}

theorem bounds_range {p : Text} (h : bounds p = some (lo, hi)) : -2 ^ 63 ≤ lo ∧ hi ≤ maxInt := by
  obtain ⟨lo', hlo, h⟩ := bind_eq_some_iff.mp h
  obtain ⟨hi', hhi, h⟩ := bind_eq_some_iff.mp h
  cases h
  exact ⟨(parseInt64_range hlo).1, (parseInt64_range hhi).2⟩

/-- A part that is no such range is over. -/
theorem exists_parsePart {p : Text} (h : PartEnds p) (hrounds : 2 ^ 64 < rounds) :
    ∃ out, parsePart rounds p = some out := by
  fun_cases parsePart rounds p
  · exact ⟨_, rfl⟩
  · exact ⟨_, rfl⟩
  next hdash lo hi hb hle =>
    have hmax := h hdash _ hb (Int.not_lt.mp hle)
    have hrange := bounds_range hb
    refine ⟨_, expand_eq hrange.1 (by omega) (by omega) ?_⟩
    rw [maxInt] at hrange
    omega
  · exact ⟨_, rfl⟩
  · exact ⟨_, rfl⟩

theorem exists_parseParts {ps : List Text} (h : ∀ p ∈ ps, PartEnds (trimSpace p))
    (hrounds : 2 ^ 64 < rounds) : ∃ out, parseParts rounds ps = some out := by
  induction ps with
  | nil => exact ⟨[], rfl⟩
  | cons p ps ih =>
    obtain ⟨out, hout⟩ := exists_parsePart (h p mem_cons_self) hrounds
    obtain ⟨rest, hrest⟩ := ih fun q hq ↦ h q (mem_cons_of_mem _ hq)
    exact ⟨out ++ rest, by rw [parseParts, hout, hrest]; rfl⟩

/-! ## Rendered numbers -/

theorem trim_of_digits {t : Text} (h : ∀ b ∈ t, isDigit b = true ∨ b = 0x2D ∨ b = 0x2C) :
    trimSpace t = t :=
  trimSpace_of_trimmed (trimmed_of_bytes (by decide) h)

theorem mem_part {b : UInt8} (h : b ∈ part start prev) : isDigit b = true ∨ b = 0x2D := by
  rw [part] at h
  split at h
  · exact mem_formatInt h
  · rcases mem_append.mp h with h | h
    · exact mem_formatInt h
    · rcases mem_cons.mp h with rfl | h
      · exact .inr rfl
      · exact mem_formatInt h

theorem trim_part : trimSpace (part start prev) = part start prev :=
  trim_of_digits fun _ hb ↦ (mem_part hb).imp_right .inl

theorem isDigit_of_mem (h0 : 0 ≤ n) {b : UInt8} (h : b ∈ formatInt n) : isDigit b = true := by
  obtain ⟨k, rfl⟩ := Int.eq_ofNat_of_zero_le h0
  exact isDigit_of_mem_formatNat h

theorem dash_notMem (h0 : 0 ≤ n) : 0x2D ∉ formatInt n := fun h ↦ by
  cases isDigit_of_mem h0 h

theorem bounds_part (h0 : 0 ≤ start) (hlt : start < prev) (hprev : prev ≤ maxInt) :
    bounds (part start prev) = some (start, prev) := by
  have hdigits : ∀ b ∈ formatInt start, decide (b ≠ 0x2D) = true := by
    intro b hb
    rw [decide_eq_true_iff]
    rintro rfl
    exact dash_notMem h0 hb
  have htrim : ∀ {m : Int}, trimSpace (formatInt m) = formatInt m :=
    trim_of_digits fun b hb ↦ (mem_formatInt hb).imp_right .inl
  rw [bounds, part, if_neg hlt.ne, takeWhile_append_of_pos hdigits, dropWhile_append_of_pos hdigits,
    takeWhile_cons_of_neg (by simp), dropWhile_cons_of_neg (by simp), append_nil, tail_cons, htrim, htrim,
    parseInt64_formatInt h0 (by omega), parseInt64_formatInt (by omega) hprev]
  rfl

theorem parsePart_range (h0 : 0 ≤ start) (hlt : start < prev) (hprev : prev ≤ maxInt) :
    parsePart rounds (part start prev) = expand prev rounds start := by
  have hdash : 0x2D ∈ part start prev := by simp [part, hlt.ne]
  rw [parsePart, if_neg (ne_nil_of_mem hdash), if_pos hdash, bounds_part h0 hlt hprev]
  exact if_neg (by omega)

theorem parsePart_part (h0 : 0 ≤ start) (hle : start ≤ prev) (hprev : prev ≤ maxInt)
    (hends : PartEnds (part start prev)) (hrounds : 2 ^ 64 < rounds) :
    parsePart rounds (part start prev) = some (Int.range start (prev + 1)) := by
  rcases hle.eq_or_lt with rfl | hlt
  · have hpart : part start start = formatInt start := if_pos rfl
    have hne : formatInt start ≠ [] := by
      obtain ⟨k, rfl⟩ := Int.eq_ofNat_of_zero_le h0
      exact formatNat_ne_nil k
    rw [hpart, parsePart, if_neg hne, if_neg (dash_notMem h0), parseInt64_formatInt h0 hprev,
      range_self]
    rfl
  · have hdash : 0x2D ∈ part start prev := by simp [part, hlt.ne]
    have hmax := hends hdash _ (bounds_part h0 hlt hprev) hle
    rw [parsePart_range h0 hlt hprev]
    exact expand_eq (by omega) (by omega) (by omega) (by rw [maxInt] at hprev; omega)

/-- The runs are read back one by one. -/
theorem parseParts_parts (h0 : 0 ≤ start) (hle : start ≤ prev)
    (hmax : ∀ n ∈ prev :: ids, n ≤ maxInt) (hsorted : (prev :: ids).Pairwise (· < ·))
    (hends : ∀ p ∈ parts start prev ids, PartEnds (trimSpace p)) (hrounds : 2 ^ 64 < rounds) :
    parseParts rounds (parts start prev ids) = some (Int.range start (prev + 1) ++ ids) := by
  have hprev := hmax prev mem_cons_self
  induction ids generalizing start prev with
  | nil =>
    have hpart := hends _ mem_cons_self
    rw [trim_part] at hpart
    rw [parts, parseParts, trim_part, parsePart_part h0 hle hprev hpart hrounds]
    rfl
  | cons id ids ih =>
    have hlt : prev < id := rel_of_pairwise_cons hsorted mem_cons_self
    have hid := hmax id (by simp)
    have hrest := fun n hn ↦ hmax n (mem_cons_of_mem _ hn)
    have hnext := next_of_lt (n := prev) (by omega) (by omega)
    rw [parts] at hends ⊢
    split
    · rename_i heq
      rw [if_pos heq] at hends
      rw [ih h0 (by omega) hrest (pairwise_cons.mp hsorted).2 hends hid, heq, hnext,
        ← range_append (Int.le_add_one hle), append_assoc]
      rfl
    · rename_i hne
      rw [if_neg hne] at hends
      have hpart := hends _ mem_cons_self
      rw [trim_part] at hpart
      rw [parseParts, trim_part, parsePart_part h0 hle hprev hpart hrounds,
        ih (by omega) le_rfl hrest (pairwise_cons.mp hsorted).2
          (fun p hp ↦ hends p (mem_cons_of_mem _ hp)) hid,
        range_self]
      rfl

theorem exists_part {p : Text} (h : p ∈ parts start prev ids) : ∃ a b, p = part a b := by
  induction ids generalizing start prev with
  | nil => exact ⟨start, prev, mem_singleton.mp h⟩
  | cons id ids ih =>
    rw [parts] at h
    split at h
    · exact ih h
    · rcases mem_cons.mp h with rfl | h
      · exact ⟨start, prev, rfl⟩
      · exact ih h

/-- A rendered text is its parts again. -/
theorem split_compactCpuset (id : Int) (ids : List Int) :
    trimSpace (compactCpuset (id :: ids)) = compactCpuset (id :: ids) ∧
      (compactCpuset (id :: ids)).splitOn 0x2C = parts id id ids := by
  have hne : ∀ start prev, parts start prev ids ≠ [] := by
    induction ids with
    | nil => exact fun _ _ ↦ cons_ne_nil _ _
    | cons id ids ih =>
      intro start prev
      rw [parts]
      split
      · exact ih start id
      · exact cons_ne_nil _ _
  refine ⟨trim_of_digits fun b hb ↦ ?_, splitOn_intercalate _ (fun p hp hcomma ↦ ?_) (hne _ _)⟩
  · by_cases hcomma : b = 0x2C
    · exact .inr (.inr hcomma)
    obtain ⟨p, hp, hbp⟩ := (mem_intercalate hcomma _).mp hb
    obtain ⟨a, c, rfl⟩ := exists_part hp
    exact (mem_part hbp).imp_right .inl
  · obtain ⟨a, c, rfl⟩ := exists_part hp
    exact absurd (mem_part hcomma) (by decide)

theorem parse_compactCpuset (id : Int) (ids : List Int) :
    parseCpusetList rounds (compactCpuset (id :: ids)) = parseParts rounds (parts id id ids) := by
  obtain ⟨htrim, hsplit⟩ := split_compactCpuset id ids
  rw [parseCpusetList, htrim, hsplit]

theorem parsePart_eq_none {p : Text} (h : ¬PartEnds p) (rounds : Nat) : parsePart rounds p = none := by
  rw [PartEnds] at h
  push Not at h
  obtain ⟨hdash, ⟨lo, hi⟩, hb, hle, rfl⟩ := h
  rw [parsePart, if_neg (ne_nil_of_mem hdash), if_pos hdash, Option.mem_def.mp hb]
  exact (if_neg (not_lt.mpr hle)).trans (expand_maxInt hle)

/-- A part on which the loop does not end is met, whatever stands before it. -/
theorem parseParts_eq_none {ps : List Text} {p : Text} (hp : p ∈ ps)
    (h : parsePart rounds (trimSpace p) = none) : parseParts rounds ps = none := by
  induction ps with
  | nil => cases hp
  | cons q ps ih =>
    rw [parseParts]
    rcases mem_cons.mp hp with rfl | hp
    · rw [h]
      rfl
    · rw [ih hp]
      exact bind_eq_none_iff.mpr fun _ _ ↦ rfl

/-- **A cpuset is parsed in finite steps, and rendering is its inverse**, exactly for the texts without a
range that ends at the largest number: at most `2 ^ 64` numbers are in any other range. -/
theorem cpuset_parsed (s : Text) :
    (∃ k, ∀ rounds, k < rounds → (∃ out, parseCpusetList rounds s = some out) ∧
      ∀ ids, ids.Pairwise (· < ·) → (∀ n ∈ ids, 0 ≤ n ∧ n ≤ maxInt) →
        compactCpuset ids = s → parseCpusetList rounds s = some ids) ↔ Ends s := by
  constructor
  · rintro ⟨k, hk⟩ p hp
    obtain ⟨out, hout⟩ := (hk (k + 1) k.lt_succ_self).1
    by_contra hends
    rw [parseCpusetList, parseParts_eq_none hp (parsePart_eq_none hends _)] at hout
    cases hout
  · refine fun h ↦ ⟨2 ^ 64, fun rounds hrounds ↦ ⟨exists_parseParts h hrounds, ?_⟩⟩
    intro ids hsorted hids hs
    subst hs
    cases ids with
    | nil => rfl
    | cons id ids =>
      have hid := hids id mem_cons_self
      obtain ⟨htrim, hsplit⟩ := split_compactCpuset id ids
      rw [Ends, htrim, hsplit] at h
      rw [parse_compactCpuset,
        parseParts_parts hid.1 le_rfl (fun n hn ↦ (hids n hn).2) hsorted h hrounds, range_self]
      rfl

theorem cpuset_parsed_runs :
    ∃ k, ∀ rounds, k < rounds →
      parseCpusetList rounds (compactCpuset [0, 1, 2, 8]) = some [0, 1, 2, 8] := by
  obtain ⟨k, hk⟩ := (cpuset_parsed (compactCpuset [0, 1, 2, 8])).mpr (by decide +kernel)
  exact ⟨k, fun rounds hrounds ↦ (hk rounds hrounds).2 _ (by decide) (by decide) rfl⟩

/-- The last two numbers are rendered as a range that is not read back. -/
theorem not_cpuset_parsed :
    [maxInt - 1, maxInt].Pairwise (· < ·) ∧ (∀ n ∈ [maxInt - 1, maxInt], 0 ≤ n ∧ n ≤ maxInt) ∧
      ∀ rounds, parseCpusetList rounds (compactCpuset [maxInt - 1, maxInt]) = none := by
  refine ⟨by decide, by decide, fun rounds ↦ ?_⟩
  have hparts : parts (maxInt - 1) (maxInt - 1) [maxInt] = [part (maxInt - 1) maxInt] := by
    rw [parts, if_pos (by decide), parts]
  rw [parse_compactCpuset, hparts, parseParts, trim_part, parsePart_range (by decide) (by decide) le_rfl,
    expand_maxInt (by decide)]
  rfl

end Dylaris.CpuPinning

import Mathlib.Data.List.Basic
import Mathlib.Algebra.Order.Group.Int

/-!
# Text as bytes

A string of the source is a sequence of bytes, in UTF-8 where it is well formed and not where it is
not.  White space is the Unicode property, so some of it takes two or three bytes; `spaces` lists the
encodings.  None of them is the beginning or the end of another, and a byte that is part of no
encoding is left alone, so looking for one of them at either end of a text is decoding the rune there
and asking whether it is white space.
-/

set_option autoImplicit false

/-- A string, as its bytes. -/
abbrev Text := List UInt8

namespace Text

open List

/-- The bytes of a literal. -/
def lit (s : String) : Text := s.toUTF8.toList

/-- The encodings of white space: tab to carriage return, the space, U+0085, U+00A0, U+1680, U+2000
to U+200A, U+2028, U+2029, U+202F, U+205F and U+3000. -/
def spaces : List Text :=
  [[0x09], [0x0A], [0x0B], [0x0C], [0x0D], [0x20], [0xC2, 0x85], [0xC2, 0xA0], [0xE1, 0x9A, 0x80],
    [0xE2, 0x80, 0x80], [0xE2, 0x80, 0x81], [0xE2, 0x80, 0x82], [0xE2, 0x80, 0x83],
    [0xE2, 0x80, 0x84], [0xE2, 0x80, 0x85], [0xE2, 0x80, 0x86], [0xE2, 0x80, 0x87],
    [0xE2, 0x80, 0x88], [0xE2, 0x80, 0x89], [0xE2, 0x80, 0x8A], [0xE2, 0x80, 0xA8],
    [0xE2, 0x80, 0xA9], [0xE2, 0x80, 0xAF], [0xE2, 0x81, 0x9F], [0xE3, 0x80, 0x80]]

/-- The length of the pattern a text begins with, or 0. -/
def widthOf (patterns : List Text) (t : Text) : Nat :=
  ((patterns.find? fun p ↦ p.isPrefixOf t).map List.length).getD 0

/-- Drop patterns from the front of a text while it begins with one; `skip` bytes of the current one
are still to go. -/
def strip (patterns : List Text) : Nat → Text → Text
  | _, [] => []
  | skip + 1, _ :: t => strip patterns skip t
  | 0, b :: t =>
    match widthOf patterns (b :: t) with
    | 0 => b :: t
    | w + 1 => strip patterns w t

def trimLeft (t : Text) : Text := strip spaces 0 t

def trimRight (t : Text) : Text := (strip (spaces.map List.reverse) 0 t.reverse).reverse

/-- `strings.TrimSpace`. -/
def trimSpace (t : Text) : Text := trimRight (trimLeft t)

/-- The text neither begins nor ends with white space. -/
def Trimmed (t : Text) : Prop := ∀ p ∈ spaces, ¬ p <+: t ∧ ¬ p <:+ t

instance (t : Text) : Decidable (Trimmed t) := inferInstanceAs (Decidable (∀ p ∈ spaces, _))

theorem strip_eq_self {patterns : List Text} {t : Text} (h : ∀ p ∈ patterns, ¬ p <+: t) :
    strip patterns 0 t = t := by
  cases t with
  | nil => rfl
  | cons b t =>
    have hnone : patterns.find? (fun p ↦ p.isPrefixOf (b :: t)) = none := by
      rw [find?_eq_none]
      exact fun p hp hpre ↦ h p hp (List.isPrefixOf_iff_prefix.mp hpre)
    rw [strip, widthOf, hnone]
    rfl

theorem trimmed_of_bytes {t : Text} {P : UInt8 → Prop} (hspace : ∀ p ∈ spaces, ∃ b ∈ p, ¬ P b)
    (h : ∀ b ∈ t, P b) : Trimmed t := by
  intro p hp
  obtain ⟨b, hb, hnot⟩ := hspace p hp
  exact ⟨fun hpre ↦ hnot (h b (hpre.subset hb)), fun hsuf ↦ hnot (h b (hsuf.subset hb))⟩

theorem trimSpace_of_trimmed {t : Text} (h : Trimmed t) : trimSpace t = t := by
  have hleft : trimLeft t = t := strip_eq_self fun p hp ↦ (h p hp).1
  have hright : strip (spaces.map List.reverse) 0 t.reverse = t.reverse := by
    refine strip_eq_self fun p hp hpre ↦ ?_
    obtain ⟨q, hq, rfl⟩ := mem_map.mp hp
    exact (h q hq).2 (List.reverse_prefix.mp hpre)
  rw [trimSpace, hleft, trimRight, hright, reverse_reverse]

theorem strip_suffix (patterns : List Text) (skip : Nat) (t : Text) : strip patterns skip t <:+ t := by
  induction t generalizing skip with
  | nil => cases skip <;> exact suffix_refl _
  | cons b t ih =>
    cases skip with
    | succ skip => exact (ih skip).trans (suffix_cons b t)
    | zero =>
      rw [strip]
      split
      · exact suffix_refl _
      · exact (ih _).trans (suffix_cons b t)

theorem not_prefix_strip {patterns : List Text} (hne : [] ∉ patterns) (skip : Nat) (t : Text) :
    ∀ p ∈ patterns, ¬ p <+: strip patterns skip t := by
  induction t generalizing skip with
  | nil =>
    intro p hp hpre
    have hnil : strip patterns skip [] = [] := by cases skip <;> rfl
    rw [hnil, prefix_nil] at hpre
    exact hne (hpre ▸ hp)
  | cons b t ih =>
    cases skip with
    | succ skip => exact ih skip
    | zero =>
      rw [strip]
      split
      · rename_i hwidth
        intro p hp hpre
        rw [widthOf] at hwidth
        cases hfind : patterns.find? (·.isPrefixOf (b :: t)) with
        | none => exact find?_eq_none.mp hfind p hp (List.isPrefixOf_iff_prefix.mpr hpre)
        | some q =>
          rw [hfind] at hwidth
          exact hne (length_eq_zero_iff.mp hwidth ▸ mem_of_find?_eq_some hfind)
      · exact ih _

theorem trimmed_trimSpace (t : Text) : Trimmed (trimSpace t) := by
  have hreverse : [] ∉ spaces.map List.reverse := by decide +kernel
  intro p hp
  refine ⟨fun hpre ↦ ?_, fun hsuffix ↦ ?_⟩
  · -- What is left on the right is the beginning of what was left on the left.
    have hsub : trimSpace t <+: trimLeft t := by
      rw [trimSpace, trimRight, ← reverse_suffix, reverse_reverse]
      exact strip_suffix ..
    exact not_prefix_strip (by decide) 0 t p hp (hpre.trans hsub)
  · rw [trimSpace, trimRight, ← reverse_prefix, reverse_reverse] at hsuffix
    exact not_prefix_strip hreverse 0 _ p.reverse (mem_map_of_mem hp) hsuffix

/-- A byte of no pattern stops the stripping. -/
theorem exists_strip {patterns : List Text} {b : UInt8} (hb : ∀ p ∈ patterns, b ∉ p) (r : Text) :
    ∀ (s : Text) (skip : Nat), skip ≤ s.length →
      ∃ s', strip patterns skip (s ++ b :: r) = s' ++ b :: r := by
  -- A pattern at the front of the text ends before the byte.
  have hwidth : ∀ s, widthOf patterns (s ++ b :: r) ≤ s.length := by
    intro s
    rw [widthOf]
    cases hfind : patterns.find? (·.isPrefixOf (s ++ b :: r)) with
    | none => exact Nat.zero_le _
    | some p =>
      have hp : p <+: s ++ b :: r := by simpa using find?_some hfind
      by_contra hlong
      have hsub : s ++ [b] <+: p := prefix_of_prefix_length_le ⟨r, by simp⟩ hp
        (by simpa [Nat.succ_le_iff] using hlong)
      exact hb p (mem_of_find?_eq_some hfind) (hsub.subset (by simp))
  intro s
  induction s with
  | nil =>
    intro skip hskip
    obtain rfl := Nat.le_zero.mp hskip
    have hzero := Nat.le_zero.mp (hwidth [])
    rw [nil_append] at hzero
    exact ⟨[], by rw [nil_append, strip, hzero]⟩
  | cons a s ih =>
    intro skip hskip
    cases skip with
    | succ skip => exact ih skip (Nat.le_of_succ_le_succ hskip)
    | zero =>
      rw [cons_append, strip]
      cases hw : widthOf patterns (a :: (s ++ b :: r)) with
      | zero => exact ⟨a :: s, rfl⟩
      | succ w =>
        have hle := hwidth (a :: s)
        rw [cons_append, hw] at hle
        exact ih w (Nat.le_of_succ_le_succ hle)

/-! ## Words and numbers -/

/-- `strings.Fields`, from inside a word: `word` is what has been read of it, last byte first. -/
def fieldsFrom : Nat → Text → Text → List Text
  | _, word, [] => if word = [] then [] else [word.reverse]
  | skip + 1, word, _ :: t => fieldsFrom skip word t
  | 0, word, b :: t =>
    match widthOf spaces (b :: t) with
    | 0 => fieldsFrom 0 (b :: word) t
    | w + 1 => if word = [] then fieldsFrom w [] t else word.reverse :: fieldsFrom w [] t

/-- `strings.Fields`. -/
def fields (t : Text) : List Text := fieldsFrom 0 [] t

def isDigit (b : UInt8) : Bool := 0x30 ≤ b && b ≤ 0x39

/-- The value of a run of digits. -/
def decimal (t : Text) : Nat := t.foldl (fun n b ↦ 10 * n + (b.toNat - 0x30)) 0

/-- `strconv.ParseInt`, in base ten and 64 bits: a sign perhaps, and digits. -/
def parseInt64 (t : Text) : Option Int :=
  let (neg, digits) : Bool × Text :=
    match t with
    | 0x2D :: digits => (true, digits)
    | 0x2B :: digits => (false, digits)
    | digits => (false, digits)
  if digits ≠ [] ∧ digits.all isDigit then
    let n : Int := if neg then -decimal digits else decimal digits
    if -2 ^ 63 ≤ n ∧ n < 2 ^ 63 then some n else none
  else none

example : fields (lit " every\t6h\n") = [lit "every", lit "6h"] := by decide +kernel

example : trimSpace (lit " a b\r\n\xa0") = lit "a b" := by decide +kernel

end Text

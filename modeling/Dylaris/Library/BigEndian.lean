import Mathlib.Algebra.Order.Group.Nat
import Mathlib.Data.List.Induction
import Mathlib.Data.Vector.Basic

/-!
# Bytes

Numbers as a fixed number of bytes, the most significant first, and arrays of a fixed length.

* `bigEndian w n` is the `w` bytes of `n` and `ofBigEndian` the number some bytes stand for.  Each
  undoes the other: `ofBigEndian_bigEndian` up to `256 ^ w`, `bigEndian_ofBigEndian` always.
* `Block n` is an array of `n` bytes; `Block.copy` fills one from a slice, which is how a field of a
  frame is read.
-/

set_option autoImplicit false

namespace Bytes

/-- The `w` bytes of a number, the most significant first. -/
def bigEndian : Nat → Nat → List UInt8
  | 0, _ => []
  | w + 1, n => bigEndian w (n / 256) ++ [UInt8.ofNat n]

/-- The number that some bytes stand for. -/
def ofBigEndian (bs : List UInt8) : Nat := bs.foldl (fun n b ↦ 256 * n + b.toNat) 0

@[simp]
theorem length_bigEndian (w n : Nat) : (bigEndian w n).length = w := by
  induction w generalizing n with
  | zero => rfl
  | succ w ih => simp [bigEndian, ih]

theorem ofBigEndian_append_singleton (bs : List UInt8) (b : UInt8) :
    ofBigEndian (bs ++ [b]) = 256 * ofBigEndian bs + b.toNat := by
  simp [ofBigEndian]

theorem ofBigEndian_bigEndian (w n : Nat) : ofBigEndian (bigEndian w n) = n % 256 ^ w := by
  induction w generalizing n with
  | zero => simp [bigEndian, ofBigEndian, Nat.mod_one]
  | succ w ih =>
    have hlast : (UInt8.ofNat n).toNat = n % 256 := UInt8.toNat_ofNat'
    rw [bigEndian, ofBigEndian_append_singleton, ih, hlast, Nat.pow_succ', Nat.mod_mul, Nat.add_comm]

theorem ofBigEndian_bigEndian_of_lt {w n : Nat} (h : n < 256 ^ w) :
    ofBigEndian (bigEndian w n) = n := by
  rw [ofBigEndian_bigEndian, Nat.mod_eq_of_lt h]

theorem ofBigEndian_lt (bs : List UInt8) : ofBigEndian bs < 256 ^ bs.length := by
  induction bs using List.reverseRecOn with
  | nil => simp [ofBigEndian]
  | append_singleton bs b ih =>
    have hb : b.toNat < 256 := b.toNat_lt
    rw [ofBigEndian_append_singleton, List.length_append, List.length_singleton, Nat.pow_succ]
    omega

theorem bigEndian_ofBigEndian (bs : List UInt8) : bigEndian bs.length (ofBigEndian bs) = bs := by
  induction bs using List.reverseRecOn with
  | nil => rfl
  | append_singleton bs b ih =>
    have hb : b.toNat < 256 := b.toNat_lt
    have hdiv : (256 * ofBigEndian bs + b.toNat) / 256 = ofBigEndian bs := by omega
    have hlast : UInt8.ofNat (256 * ofBigEndian bs + b.toNat) = b := by
      rw [← UInt8.toNat_inj, UInt8.toNat_ofNat']
      omega
    rw [List.length_append, List.length_singleton, bigEndian, ofBigEndian_append_singleton, hdiv,
      hlast, ih]

/-! ## Arrays -/

/-- An array of `n` bytes. -/
abbrev Block (n : Nat) := List.Vector UInt8 n

/-- An array filled from the front of a slice; what the slice does not reach stays zero. -/
def Block.copy (n : Nat) (bs : List UInt8) : Block n :=
  ⟨(bs ++ List.replicate n 0).take n, by simp⟩

/-- The array before it is filled. -/
def Block.zero (n : Nat) : Block n := Block.copy n []

theorem Block.toList_copy {n : Nat} {bs : List UInt8} (h : bs.length = n) :
    (Block.copy n bs).toList = bs := by
  change (bs ++ List.replicate n 0).take n = bs
  rw [List.take_left' h]

theorem Block.copy_toList {n : Nat} (b : Block n) : Block.copy n b.toList = b :=
  List.Vector.eq _ _ (Block.toList_copy b.toList_length)

end Bytes

import Dylaris.Library.BigEndian

/-!
# Overlay addresses of a region

`NextFreeIP` and `ValidateFixedWGIP` of `core/services/warp.go`.  The one steps through a subnet from its
network address on, past the first host, which is the leader's, and takes the address before the first one
outside for the broadcast address; the other computes that address from the mask.
`fixed_address_agrees` says that both have the same hosts.

The package `net` reads and writes the texts; an address here is its four bytes, as the number they stand
for, and has one dotted text.  The taken addresses are a set of addresses then.
-/

set_option autoImplicit false

namespace Dylaris.Warp

open Bytes List BitVec

/-- `incIP` on the bytes, the last one first: it goes on while a byte comes out as zero. -/
def incBytes : List UInt8 → List UInt8
  | [] => []
  | b :: bs => if b + 1 ≠ 0 then (b + 1) :: bs else (b + 1) :: incBytes bs

def incIP (ip : BitVec 32) : BitVec 32 :=
  BitVec.ofNat 32 (ofBigEndian (incBytes (bigEndian 4 ip.toNat).reverse).reverse)

/-- The mask that keeps the first bits. -/
def cidrMask (ones : Nat) : BitVec 32 := BitVec.allOnes 32 <<< (32 - ones)

/-- A subnet, as `net.ParseCIDR` gives it, with a prefix of at least one bit. -/
structure IPNet where
  network : BitVec 32
  ones : Nat
  ones_pos : 1 ≤ ones
  ones_le : ones ≤ 32
  masked : network &&& cidrMask ones = network

namespace IPNet

variable (net : IPNet)

def contains (ip : BitVec 32) : Bool := ip &&& cidrMask net.ones == net.network &&& cidrMask net.ones

def broadcast : BitVec 32 := net.network ||| ~~~ cidrMask net.ones

end IPNet

/-- The error is that the subnet is exhausted. -/
abbrev Found := Except Unit (BitVec 32)

/-- The loop of `NextFreeIP`, for so many rounds; `none` if it has not ended by then. -/
def nextFreeFrom (net : IPNet) (taken : BitVec 32 → Bool) : Nat → Bool → BitVec 32 → Option Found
  | 0, _, _ => none
  | rounds + 1, leaderReserved, ip =>
    let cur := incIP ip
    if !net.contains cur then some (.error ())
    else if leaderReserved then nextFreeFrom net taken rounds false cur
    else if !net.contains (incIP cur) then some (.error ())
    else if !taken cur then some (.ok cur)
    else nextFreeFrom net taken rounds false cur

/-- `NextFreeIP`, in so many rounds. -/
def nextFreeIP (net : IPNet) (taken : BitVec 32 → Bool) (rounds : Nat) : Option Found :=
  nextFreeFrom net taken rounds true net.network

/-- What `ErrInvalidFixedWGIP` wraps. -/
inductive FixedIPError
  /-- `%q is not inside region subnet %s` -/
  | outside
  /-- `%q is the subnet network address` -/
  | network
  /-- `%q is the leader-reserved address (first host)` -/
  | leader
  /-- `%q is the subnet broadcast address` -/
  | broadcast
deriving DecidableEq, Repr

/-- `ValidateFixedWGIP`. -/
def validateFixedWGIP (ip : BitVec 32) (net : IPNet) : Except FixedIPError Unit :=
  if !net.contains ip then .error .outside
  else if ip = net.network then .error .network
  else if ip = incIP net.network then .error .leader
  else if ip = net.broadcast then .error .broadcast
  else .ok ()

/-! ## Addresses as numbers -/

theorem ofBigEndian_incBytes (bs : List UInt8) :
    ofBigEndian (incBytes bs).reverse = (ofBigEndian bs.reverse + 1) % 256 ^ bs.length := by
  induction bs with
  | nil => simp [incBytes, ofBigEndian]
  | cons b bs ih =>
    have hb : b.toNat < 256 := b.toNat_lt
    have hrest := ofBigEndian_lt bs.reverse
    have hsucc : (b + 1).toNat = (b.toNat + 1) % 256 := UInt8.toNat_add b 1
    rw [length_reverse] at hrest
    rw [incBytes]
    split
    · rename_i hne
      have hne : (b + 1).toNat ≠ 0 := fun h ↦ hne (UInt8.toNat_inj.mp h)
      rw [reverse_cons, reverse_cons, ofBigEndian_append_singleton,
        ofBigEndian_append_singleton, length_cons, Nat.pow_succ, Nat.mod_eq_of_lt (by omega)]
      omega
    · rename_i hzero
      rw [Decidable.not_not] at hzero
      have hzero : (b + 1).toNat = 0 := congrArg UInt8.toNat hzero
      rw [reverse_cons, reverse_cons, ofBigEndian_append_singleton,
        ofBigEndian_append_singleton, ih, hzero, length_cons, Nat.pow_succ',
        ← Nat.mul_mod_mul_left, Nat.mul_add_one, show 256 = b.toNat + 1 by omega]
      rfl

/-- The carry makes it the next number. -/
theorem incIP_eq (ip : BitVec 32) : incIP ip = ip + 1 := by
  have hip : ip.toNat < 256 ^ 4 := ip.isLt
  have hbytes : ofBigEndian (bigEndian 4 ip.toNat) = ip.toNat := ofBigEndian_bigEndian_of_lt hip
  refine eq_of_toNat_eq ?_
  rw [incIP, ofBigEndian_incBytes, reverse_reverse, hbytes, length_reverse, length_bigEndian,
    toNat_ofNat, toNat_add]
  exact Nat.mod_mod_of_dvd _ (by decide)

theorem toNat_cidrMask : ∀ ones ≤ 32, (cidrMask ones).toNat = 2 ^ 32 - 2 ^ (32 - ones) := by
  decide

/-- The mask keeps the high bits. -/
theorem toNat_and_cidrMask (ip : BitVec 32) (ones : Nat) :
    (ip &&& cidrMask ones).toNat = ip.toNat / 2 ^ (32 - ones) * 2 ^ (32 - ones) := by
  generalize hk : 32 - ones = k
  have hshift : ip &&& cidrMask ones = (ip >>> k) <<< k := by
    rw [cidrMask, hk]
    ext i hi
    simp only [getElem_and, getElem_shiftLeft, getElem_allOnes,
      getElem_ushiftRight]
    by_cases hik : i < k
    · simp [hik]
    · simp [hik, Nat.add_sub_cancel' (Nat.not_lt.mp hik), getLsbD_eq_getElem hi]
  have hle : ip.toNat / 2 ^ k * 2 ^ k ≤ ip.toNat := Nat.div_mul_le_self _ _
  rw [hshift, toNat_shiftLeft, toNat_ushiftRight, Nat.shiftRight_eq_div_pow,
    Nat.shiftLeft_eq, Nat.mod_eq_of_lt (Nat.lt_of_le_of_lt hle ip.isLt)]

namespace IPNet

variable (net : IPNet)

/-- How many addresses the subnet has. -/
def size : Nat := 2 ^ (32 - net.ones)

theorem size_pos : 0 < net.size := Nat.two_pow_pos _

theorem size_le : net.size ≤ 2 ^ 31 := by
  have := net.ones_pos
  exact Nat.pow_le_pow_right (by decide) (by omega)

/-- The network address is a multiple of the size, and so the last one that fits. -/
theorem exists_network : ∃ q, net.network.toNat = q * net.size ∧ q * net.size + net.size ≤ 2 ^ 32 := by
  have hnetwork := congrArg BitVec.toNat net.masked
  rw [toNat_and_cidrMask, ← size] at hnetwork
  have hparts : 2 ^ net.ones * net.size = 2 ^ 32 := by
    rw [size, ← Nat.pow_add, Nat.add_sub_cancel' net.ones_le]
  have hlt : net.network.toNat / net.size * net.size < 2 ^ net.ones * net.size := by
    rw [hnetwork, hparts]
    exact net.network.isLt
  refine ⟨net.network.toNat / net.size, hnetwork.symm, ?_⟩
  rw [← Nat.succ_mul, ← hparts]
  exact Nat.mul_le_mul_right _ (Nat.lt_of_mul_lt_mul_right hlt)

/-- The subnet is the numbers from the network address on. -/
theorem contains_iff (ip : BitVec 32) : net.contains ip = true ↔
    net.network.toNat ≤ ip.toNat ∧ ip.toNat < net.network.toNat + net.size := by
  obtain ⟨q, hq, -⟩ := net.exists_network
  have hdiv : ip.toNat / net.size = q ↔ q * net.size ≤ ip.toNat ∧
      ip.toNat < q * net.size + net.size := by
    rw [Nat.div_eq_iff net.size_pos]
    have := net.size_pos
    omega
  rw [contains, net.masked, beq_iff_eq, ← toNat_inj, toNat_and_cidrMask, ← size, hq, ← hdiv,
    Nat.mul_left_inj net.size_pos.ne']

theorem toNat_broadcast : net.broadcast.toNat = net.network.toNat + (net.size - 1) := by
  obtain ⟨q, hq, hle⟩ := net.exists_network
  have hdisjoint : net.network &&& ~~~ cidrMask net.ones = 0#32 := by
    rw [← net.masked, BitVec.and_assoc, BitVec.and_not_self]
    exact BitVec.and_zero
  rw [broadcast, ← add_eq_or_of_and_eq_zero _ _ hdisjoint, toNat_add, toNat_not,
    toNat_cidrMask _ net.ones_le, ← size, Nat.mod_eq_of_lt (by omega)]
  omega

/-- An address of the subnet that is not reserved. -/
def Host (ip : BitVec 32) : Prop :=
  net.contains ip = true ∧ ip ≠ net.network ∧ ip ≠ net.network + 1 ∧ ip ≠ net.broadcast

theorem host_iff (ip : BitVec 32) : net.Host ip ↔
    net.network.toNat + 1 < ip.toNat ∧ ip.toNat + 1 < net.network.toNat + net.size := by
  have hpos := net.size_pos
  have hfirst : (net.network + 1).toNat = (net.network.toNat + 1) % 2 ^ 32 := toNat_add ..
  rw [Host, contains_iff, ne_eq, ne_eq, ne_eq, ← toNat_inj, ← toNat_inj,
    ← toNat_inj, hfirst, toNat_broadcast]
  omega

/-- A step from within leads to the next number, and out of the subnet from its last one only. -/
theorem contains_incIP {ip : BitVec 32} (h : net.contains ip = true) :
    if ip.toNat + 1 < net.network.toNat + net.size then
      net.contains (incIP ip) = true ∧ (incIP ip).toNat = ip.toNat + 1
    else net.contains (incIP ip) = false := by
  obtain ⟨q, hq, hle⟩ := net.exists_network
  have hsize := net.size_le
  have hsucc : (incIP ip).toNat = (ip.toNat + 1) % 2 ^ 32 := by
    rw [incIP_eq]
    exact toNat_add ..
  rw [← Bool.not_eq_true, net.contains_iff]
  rw [net.contains_iff] at h
  split <;> omega

end IPNet

/-! ## The search -/

variable {net : IPNet} {taken : BitVec 32 → Bool}

/-- The lowest host that is not taken, or an error if all are. -/
def LowestFree (net : IPNet) (taken : BitVec 32 → Bool) : Found → Prop
  | .ok ip => net.Host ip ∧ taken ip = false ∧ ∀ b, net.Host b → taken b = false →
      ip.toNat ≤ b.toNat
  | .error () => ∀ b, net.Host b → taken b = true

/-- Behind the first host, with all hosts so far taken, the search ends before the subnet does. -/
theorem lowestFree_nextFreeFrom {rounds : Nat} {ip : BitVec 32} (hip : net.contains ip = true)
    (hfirst : net.network.toNat < ip.toNat)
    (hbelow : ∀ b, net.Host b → b.toNat ≤ ip.toNat → taken b = true)
    (hrounds : net.network.toNat + net.size - ip.toNat ≤ rounds) :
    ∃ r, nextFreeFrom net taken rounds false ip = some r ∧ LowestFree net taken r := by
  induction rounds generalizing ip with
  | zero =>
    rw [net.contains_iff] at hip
    omega
  | succ rounds ih =>
    have hcur := net.contains_incIP hip
    rw [nextFreeFrom]
    split at hcur
    · obtain ⟨hcur, hval⟩ := hcur
      have hnext := net.contains_incIP hcur
      simp only [hcur, Bool.not_true, Bool.false_eq_true, if_false]
      split at hnext
      · simp only [hnext.1, Bool.not_true, Bool.false_eq_true, if_false]
        cases htaken : taken (incIP ip) with
        | false =>
          refine ⟨_, rfl, (net.host_iff _).mpr (by omega), htaken, fun b hb hfree ↦ ?_⟩
          by_contra hlow
          rw [hbelow b hb (by omega)] at hfree
          cases hfree
        | true =>
          refine ih hcur (by omega) (fun b hb hle ↦ ?_) (by omega)
          rcases Nat.lt_or_eq_of_le hle with hlt | heq
          · exact hbelow b hb (by omega)
          · rwa [eq_of_toNat_eq heq]
      · -- The address is the last one.
        rw [hnext]
        refine ⟨_, rfl, fun b hb ↦ hbelow b hb ?_⟩
        rw [net.host_iff] at hb
        omega
    · rw [hcur]
      refine ⟨_, rfl, fun b hb ↦ hbelow b hb ?_⟩
      rw [net.host_iff] at hb
      omega

/-- The search is over after as many rounds as the subnet has addresses. -/
theorem lowestFree_nextFreeIP (net : IPNet) (taken : BitVec 32 → Bool) {rounds : Nat}
    (h : net.size ≤ rounds) :
    ∃ r, nextFreeIP net taken rounds = some r ∧ LowestFree net taken r := by
  have hpos := net.size_pos
  have hcur := net.contains_incIP ((net.contains_iff net.network).mpr (by omega))
  obtain ⟨rounds, rfl⟩ : ∃ n, rounds = n + 1 := ⟨rounds - 1, by omega⟩
  rw [nextFreeIP, nextFreeFrom]
  split at hcur
  · obtain ⟨hcur, hval⟩ := hcur
    simp only [hcur, Bool.not_true, Bool.false_eq_true, if_false, if_true]
    refine lowestFree_nextFreeFrom hcur (by omega) (fun b hb hle ↦ ?_) (by omega)
    rw [net.host_iff] at hb
    omega
  · rw [hcur]
    refine ⟨_, rfl, fun b hb ↦ ?_⟩
    rw [net.host_iff] at hb
    omega

theorem validateFixedWGIP_iff (ip : BitVec 32) (net : IPNet) :
    validateFixedWGIP ip net = .ok () ↔ net.Host ip := by
  rw [IPNet.Host, ← incIP_eq]
  fun_cases validateFixedWGIP ip net <;> simp_all

/-- **The fixed-address rule and the allocator agree.**  `NextFreeIP` ends on every subnet and returns the
lowest host that is not taken, or fails if all are; and `ValidateFixedWGIP` accepts the addresses that it
returns for some set of taken ones. -/
theorem fixed_address_agrees (net : IPNet) {rounds : Nat} (h : net.size ≤ rounds) :
    (∀ taken, ∃ r, nextFreeIP net taken rounds = some r ∧ LowestFree net taken r) ∧
    ∀ ip, validateFixedWGIP ip net = .ok () ↔
      ∃ taken, nextFreeIP net taken rounds = some (.ok ip) := by
  refine ⟨fun taken ↦ lowestFree_nextFreeIP net taken h, fun ip ↦ ?_⟩
  rw [validateFixedWGIP_iff]
  constructor
  · -- All but this one are taken.
    intro hip
    obtain ⟨r, hr, hlowest⟩ := lowestFree_nextFreeIP net (fun b ↦ b != ip) h
    cases r with
    | ok b => exact ⟨_, by rwa [show b = ip by simpa using hlowest.2.1] at hr⟩
    | error => exact absurd (hlowest ip hip) (by simp)
  · rintro ⟨taken, hfound⟩
    obtain ⟨r, hr, hlowest⟩ := lowestFree_nextFreeIP net taken h
    rw [hfound] at hr
    cases hr
    exact hlowest.1

/-- A subnet of eight addresses at the very end. -/
def lastEight : IPNet := ⟨0xFFFFFFF8, 29, by decide, by decide, by decide⟩

theorem fixed_address_agrees_lastEight :
    ∃ taken, nextFreeIP lastEight taken 8 = some (.ok 0xFFFFFFFE) :=
  ((fixed_address_agrees lastEight (by decide)).2 _).mp (by decide)

end Dylaris.Warp

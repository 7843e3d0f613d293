import Mathlib.Algebra.Group.Nat.Defs
import Mathlib.Data.List.Basic

/-!
Masks of 64-bit words. A mask and its complement split a word in two parts that
have no bit in common, so that clearing bits is a subtraction.
-/

namespace VirtioDisk.WordMasks

theorem mask_or_right (x y z : UInt64) : (x ||| y) &&& z = (x &&& z) ||| (y &&& z) :=
  UInt64.toBitVec_inj.mp BitVec.and_or_distrib_right

theorem mask_split (x mask : UInt64) : (x &&& mask) ||| (x &&& ~~~mask) = x := by
  apply UInt64.toBitVec_inj.mp
  ext i bound
  simp only [UInt64.toBitVec_or, UInt64.toBitVec_and, UInt64.toBitVec_not, BitVec.getElem_or,
    BitVec.getElem_and, BitVec.getElem_not]
  cases x.toBitVec[i] <;> cases mask.toBitVec[i] <;> rfl

theorem add_disjoint (x y : UInt64) (disjoint : x &&& y = 0) : x + y = x ||| y := by
  apply UInt64.toBitVec_inj.mp
  have bits : x.toBitVec &&& y.toBitVec = 0#64 := by
    simpa using congrArg UInt64.toBitVec disjoint
  simpa using BitVec.add_eq_or_of_and_eq_zero x.toBitVec y.toBitVec bits

theorem parts_apart (x mask : UInt64) : (x &&& mask) &&& (x &&& ~~~mask) = 0 := by
  rw [UInt64.and_comm x (~~~mask), ← UInt64.and_assoc, UInt64.and_assoc x, UInt64.and_not_self,
    UInt64.and_zero, UInt64.zero_and]

/-- The `&` with the complement takes the masked part away. -/
theorem cleared (x mask : UInt64) : x &&& ~~~mask = x - (x &&& mask) := by
  have sum := add_disjoint _ _ (parts_apart x mask)
  rw [mask_split] at sum
  grind

theorem masked_le (x mask : UInt64) : x &&& mask ≤ x := by
  rw [UInt64.le_iff_toNat_le, UInt64.toNat_and]
  exact Nat.and_le_left

theorem clear_toNat (x mask : UInt64) :
    (x &&& ~~~mask).toNat = x.toNat - (x.toNat &&& mask.toNat) := by
  rw [cleared, UInt64.toNat_sub_of_le _ _ (masked_le x mask), UInt64.toNat_and]

theorem power_mask_toNat {bits : Nat} (narrow : bits < 64) :
    (UInt64.ofNat (2 ^ bits) - 1).toNat = 2 ^ bits - 1 := by
  have small : 2 ^ bits < 2 ^ 64 := Nat.pow_lt_pow_right (by decide) narrow
  have positive : 0 < 2 ^ bits := Nat.two_pow_pos bits
  have word : (UInt64.ofNat (2 ^ bits)).toNat = 2 ^ bits := by
    rw [UInt64.toNat_ofNat', Nat.mod_eq_of_lt small]
  have one : (1 : UInt64) ≤ UInt64.ofNat (2 ^ bits) := by
    rw [UInt64.le_iff_toNat_le, word]
    exact positive
  rw [UInt64.toNat_sub_of_le _ _ one, word]
  rfl

/-- The start of the block of `2 ^ bits` bytes. -/
theorem block_start_toNat (x : UInt64) {bits : Nat} (narrow : bits < 64) :
    (x &&& ~~~(UInt64.ofNat (2 ^ bits) - 1)).toNat = 2 ^ bits * (x.toNat / 2 ^ bits) := by
  rw [clear_toNat, power_mask_toNat narrow, Nat.and_two_pow_sub_one_eq_mod]
  have split := Nat.div_add_mod x.toNat (2 ^ bits)
  omega

end VirtioDisk.WordMasks

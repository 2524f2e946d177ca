import Mathlib.Data.Nat.Bitwise

/-!
# Blocks of addresses

An address is a vector of bits, and a block is the set of addresses that begin with the same bits as a
base address. Programs test this with a mask.

## Main definitions

* `Block w` — a base address and the number of bits that count.
* `Block.Contains` — an address begins like the base.
-/

namespace Network

variable {w : Nat}

/-- A base address with the length of a prefix. -/
structure Block (w : Nat) where
  base : BitVec w
  bits : Nat

/-- The address has the prefix of the base. -/
def Block.Contains (b : Block w) (a : BitVec w) : Prop :=
  a.toNat / 2 ^ (w - b.bits) = b.base.toNat / 2 ^ (w - b.bits)

instance (b : Block w) (a : BitVec w) : Decidable (b.Contains a) := by
  unfold Block.Contains
  infer_instance

/-- Two vectors agree under the mask that clears the last bits just if they agree without those bits. -/
theorem and_mask_eq_iff (a b : BitVec w) (k : Nat) :
    a &&& (BitVec.allOnes w <<< k) = b &&& (BitVec.allOnes w <<< k) ↔ a.toNat / 2 ^ k = b.toNat / 2 ^ k := by
  rw [← Nat.shiftRight_eq_div_pow, ← Nat.shiftRight_eq_div_pow, ← BitVec.toNat_ushiftRight,
    ← BitVec.toNat_ushiftRight, ← BitVec.toNat_eq]
  constructor
  · intro h
    apply BitVec.eq_of_getLsbD_eq
    intro i hi
    have hbit := congrArg (fun v => v.getLsbD (k + i)) h
    simp only [BitVec.getLsbD_and, BitVec.getLsbD_shiftLeft, BitVec.getLsbD_allOnes] at hbit
    rw [BitVec.getLsbD_ushiftRight, BitVec.getLsbD_ushiftRight]
    by_cases hk : k + i < w
    · have hle : ¬ k + i < k := by omega
      simpa [hk, hi, hle] using hbit
    · rw [BitVec.getLsbD_of_ge _ _ (by omega), BitVec.getLsbD_of_ge _ _ (by omega)]
  · intro h
    apply BitVec.eq_of_getLsbD_eq
    intro i hi
    simp only [BitVec.getLsbD_and, BitVec.getLsbD_shiftLeft, BitVec.getLsbD_allOnes]
    by_cases hk : i < k
    · simp [hk]
    · have hbit := congrArg (fun v => v.getLsbD (i - k)) h
      simp only [BitVec.getLsbD_ushiftRight] at hbit
      rw [show k + (i - k) = i by omega] at hbit
      rw [hbit]

/-- The mask of a block, tested against its base. -/
theorem Block.contains_iff_mask (b : Block w) (a : BitVec w) :
    b.Contains a ↔
      a &&& (BitVec.allOnes w <<< (w - b.bits)) = b.base &&& (BitVec.allOnes w <<< (w - b.bits)) :=
  (and_mask_eq_iff a b.base (w - b.bits)).symm

end Network

import Mathlib.Algebra.Group.Nat.Defs

/-!
# Fields of 64-bit words

The 64-bit macros and functions of `bit.h`.
-/

namespace Bao

/-- `BIT64_MASK(OFF, LEN)`, for a positive length. -/
def bit64Mask (off len : Nat) : BitVec 64 := (((1#64 <<< (len - 1)) <<< 1) - 1#64) <<< off

/-- `bit64_extract`. -/
def bit64Extract (word : BitVec 64) (off len : Nat) : BitVec 64 :=
  (word >>> off) &&& bit64Mask 0 len

private theorem ones_of_length64 (k : Fin 64) :
    ((1#64 <<< k.val) <<< 1) - 1#64 = BitVec.ofNat 64 (2 ^ (k.val + 1) - 1) := by
  revert k
  decide

/-- The bits of a mask. -/
theorem getLsbD_bit64Mask {off len j : Nat} (hlen : 1 ≤ len) (hfit : off + len ≤ 64) :
    (bit64Mask off len).getLsbD j = (decide (off ≤ j) && decide (j < off + len)) := by
  have hones := ones_of_length64 ⟨len - 1, by omega⟩
  simp only [Nat.sub_add_cancel hlen] at hones
  rw [bit64Mask, hones, BitVec.getLsbD_shiftLeft, BitVec.getLsbD_ofNat,
    Nat.testBit_two_pow_sub_one]
  by_cases hlo : off ≤ j
  · by_cases hhi : j < off + len
    · have h1 : j < 64 := by omega
      have h2 : ¬ j < off := by omega
      have h3 : j - off < 64 := by omega
      have h4 : j - off < len := by omega
      simp only [h1, h2, h3, h4, hlo, hhi, decide_true, decide_false, Bool.not_false,
        Bool.and_self]
    · have h4 : ¬ j - off < len := by omega
      simp only [h4, hhi, decide_false, Bool.and_false]
  · have h2 : j < off := by omega
    simp only [h2, hlo, decide_true, decide_false, Bool.not_true, Bool.and_false, Bool.false_and]

theorem getLsbD_bit64Extract {word : BitVec 64} {off len j : Nat} (hlen : 1 ≤ len)
    (hfit : len ≤ 64) :
    (bit64Extract word off len).getLsbD j = (decide (j < len) && word.getLsbD (off + j)) := by
  rw [bit64Extract, BitVec.getLsbD_and, BitVec.getLsbD_ushiftRight,
    getLsbD_bit64Mask hlen (by omega), Nat.zero_add, decide_eq_true (Nat.zero_le j), Bool.true_and,
    Bool.and_comm]

end Bao

import BaoHypervisor.BitMemory
import BaoHypervisor.WordRegs
import Mathlib.Algebra.Order.Ring.Nat

/-!
# Fields packed into words

An array of `n`-bit words holds fields of `w` bits side by side, `w` being a
divisor of `n`: field `i` is the bits from `i * w` on.  Replacing the masked
bits of one word is a write of one field.
-/

namespace PackedFields

open BitMemory (IsMask)
open WordRegs (put)

variable {n w : Nat}

/-- Field `i` of the words. -/
def field (w : Nat) (r : Nat → BitVec n) (i : Nat) : BitVec w :=
  (r (i * w / n)).extractLsb' (i * w % n) w

/-- A word with the masked bits of `v`, shifted up by `off`, put into it. -/
def insert (cur v mask : BitVec n) (off : Nat) : BitVec n :=
  (cur &&& ~~~mask) ||| ((v <<< off) &&& mask)

theorem getLsbD_insert {cur v mask : BitVec n} {off : Nat} (hmask : IsMask mask off w) {t : Nat} :
    (insert cur v mask off).getLsbD t =
      if off ≤ t ∧ t < off + w then v.getLsbD (t - off) else cur.getLsbD t := by
  have hfit := hmask.1
  have hbit : mask.getLsbD t = decide (off ≤ t ∧ t < off + w) := by
    rw [hmask.2, Bool.decide_and]
  rw [insert, BitVec.getLsbD_or, BitVec.getLsbD_and, BitVec.getLsbD_not, BitVec.getLsbD_and,
    BitVec.getLsbD_shiftLeft, hbit]
  by_cases hin : off ≤ t ∧ t < off + w
  · have hn : t < n := by omega
    have hlo : ¬ t < off := by omega
    simp only [hin, hn, hlo, and_self, decide_true, decide_false, Bool.not_true, Bool.and_false,
      Bool.not_false, Bool.true_and, Bool.and_true, Bool.false_or, if_true]
  · by_cases hn : t < n
    · simp only [hin, hn, decide_true, decide_false, Bool.not_false, Bool.true_and, Bool.and_true,
        Bool.and_false, Bool.or_false, if_false]
    · have hcur : cur.getLsbD t = false := BitVec.getLsbD_of_ge cur t (by omega)
      simp only [hin, hcur, decide_false, Bool.false_and, Bool.and_false, Bool.or_false, if_false]

theorem place (hw : 0 < w) (q i : Nat) :
    i * w / (w * q) = i / q ∧ i * w % (w * q) = i % q * w := by
  rw [Nat.mul_comm w q]
  exact ⟨Nat.mul_div_mul_right i q hw, Nat.mul_mod_mul_right w i q⟩

theorem offset_add_le (hw : 0 < w) (hn : 0 < n) (hdvd : w ∣ n) (i : Nat) : i * w % n + w ≤ n := by
  obtain ⟨q, rfl⟩ := hdvd
  have hq : 0 < q := Nat.pos_of_mul_pos_left hn
  rw [(place hw q i).2]
  have hlt : i % q + 1 ≤ q := Nat.mod_lt i hq
  calc i % q * w + w = (i % q + 1) * w := (Nat.succ_mul _ _).symm
    _ ≤ q * w := Nat.mul_le_mul_right w hlt
    _ = w * q := Nat.mul_comm q w

/-- **The written field** holds the value written. -/
theorem field_put_same {r : Nat → BitVec n} {i : Nat}
    {v mask : BitVec n} (hmask : IsMask mask (i * w % n) w) :
    field w (put r (i * w / n) (insert (r (i * w / n)) v mask (i * w % n))) i = v.setWidth w := by
  have hfit := hmask.1
  apply BitVec.eq_of_getLsbD_eq
  intro t ht
  have hin : i * w % n ≤ i * w % n + t ∧ i * w % n + t < i * w % n + w := by omega
  have hput : put r (i * w / n) (insert (r (i * w / n)) v mask (i * w % n)) (i * w / n) =
      insert (r (i * w / n)) v mask (i * w % n) := if_pos rfl
  rw [field, hput, BitVec.getLsbD_extractLsb', getLsbD_insert hmask, if_pos hin,
    Nat.add_sub_cancel_left, BitVec.getLsbD_setWidth]

/-- **Every other field** is kept. -/
theorem field_put_other (hw : 0 < w) (hdvd : w ∣ n) {r : Nat → BitVec n} {i j : Nat}
    {v mask : BitVec n} (hmask : IsMask mask (i * w % n) w) (hne : j ≠ i) :
    field w (put r (i * w / n) (insert (r (i * w / n)) v mask (i * w % n))) j = field w r j := by
  unfold field
  by_cases hword : j * w / n = i * w / n
  · obtain ⟨q, rfl⟩ := hdvd
    rw [hword]
    obtain ⟨hjdiv, hjmod⟩ := place hw q j
    obtain ⟨hidiv, himod⟩ := place hw q i
    have hmod : j % q ≠ i % q := by
      intro hmod
      apply hne
      rw [← Nat.div_add_mod j q, ← Nat.div_add_mod i q, hmod, ← hjdiv, ← hidiv, hword]
    have hput : put r (i * w / (w * q)) (insert (r (i * w / (w * q))) v mask (i * w % (w * q)))
        (i * w / (w * q)) = insert (r (i * w / (w * q))) v mask (i * w % (w * q)) := if_pos rfl
    rw [hput]
    apply BitVec.eq_of_getLsbD_eq
    intro t ht
    have hout : ¬ (i * w % (w * q) ≤ j * w % (w * q) + t ∧
        j * w % (w * q) + t < i * w % (w * q) + w) := by
      rw [hjmod, himod]
      rcases Nat.lt_or_gt_of_ne hmod with hlt | hgt
      · have hle := Nat.mul_le_mul_right w (Nat.succ_le_of_lt hlt)
        rw [Nat.succ_mul] at hle
        omega
      · have hle := Nat.mul_le_mul_right w (Nat.succ_le_of_lt hgt)
        rw [Nat.succ_mul] at hle
        omega
    rw [BitVec.getLsbD_extractLsb', BitVec.getLsbD_extractLsb', getLsbD_insert hmask, if_neg hout]
  · have hput : put r (i * w / n) (insert (r (i * w / n)) v mask (i * w % n)) (j * w / n) =
        r (j * w / n) := if_neg hword
    rw [hput]

theorem toNat_masked (len off : Nat) {v mask : BitVec n} (hmask : mask.toNat = 2 ^ len - 1)
    (hfit : off + len ≤ n) :
    ((v &&& (mask <<< off)) >>> off).toNat = v.toNat / 2 ^ off % 2 ^ len := by
  have hlt : (2 ^ len - 1) <<< off < 2 ^ n := by
    have hpow : 2 ^ (len + off) ≤ 2 ^ n := Nat.pow_le_pow_right (by decide) (by omega)
    have hpos : 0 < 2 ^ len := Nat.two_pow_pos len
    rw [Nat.shiftLeft_eq]
    calc (2 ^ len - 1) * 2 ^ off < 2 ^ len * 2 ^ off :=
          Nat.mul_lt_mul_of_pos_right (by omega) (Nat.two_pow_pos off)
      _ = 2 ^ (len + off) := (Nat.pow_add 2 len off).symm
      _ ≤ 2 ^ n := hpow
  rw [BitVec.toNat_ushiftRight, BitVec.toNat_and, BitVec.toNat_shiftLeft, hmask,
    Nat.mod_eq_of_lt hlt, Nat.shiftRight_and_distrib, Nat.shiftLeft_shiftRight,
    Nat.and_two_pow_sub_one_eq_mod, Nat.shiftRight_eq_div_pow]

end PackedFields

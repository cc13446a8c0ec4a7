import Mathlib.Algebra.Group.Nat.Defs

/-!
# Bits kept in an array of word registers

Bit `i` of an array of `n`-bit words is bit `i % n` of word `i / n`.  What
writing a word or one bit does is said about the bits.
-/

namespace WordRegs

variable {n : Nat}

/-- Bit `i` of the words. -/
def bit (r : Nat → BitVec n) (i : Nat) : Bool := (r (i / n)).getLsbD (i % n)

/-- A word written. -/
def put (r : Nat → BitVec n) (reg : Nat) (v : BitVec n) : Nat → BitVec n :=
  fun k => if k = reg then v else r k

/-- A bit set. -/
def setBit (r : Nat → BitVec n) (i : Nat) : Nat → BitVec n :=
  put r (i / n) (r (i / n) ||| 1#n <<< (i % n))

/-- A bit cleared. -/
def clearBit (r : Nat → BitVec n) (i : Nat) : Nat → BitVec n :=
  put r (i / n) (r (i / n) &&& ~~~(1#n <<< (i % n)))

theorem bit_put (r : Nat → BitVec n) (reg : Nat) (v : BitVec n) (i : Nat) :
    bit (put r reg v) i = if i / n = reg then v.getLsbD (i % n) else bit r i := by
  unfold bit put
  split <;> rfl

theorem getLsbD_mask {i j : Nat} (hj : j < n) :
    (1#n <<< i).getLsbD j = decide (j = i) := by
  have hn : 0 < n := by omega
  rw [BitVec.getLsbD_shiftLeft, BitVec.getLsbD_one]
  by_cases heq : j = i
  · simp [heq, hn, heq ▸ hj]
  · have hbit : ¬ (¬ j < i ∧ j - i = 0) := by omega
    by_cases hlt : j < i
    · simp [hlt, heq]
    · have hne : j - i ≠ 0 := by omega
      simp [hne, heq]

theorem eq_iff_mod {i j : Nat} (hword : j / n = i / n) : j % n = i % n ↔ j = i := by
  constructor
  · intro hmod
    rw [← Nat.div_add_mod j n, ← Nat.div_add_mod i n, hword, hmod]
  · intro heq
    rw [heq]

theorem bit_setBit (hn : 0 < n) (r : Nat → BitVec n) (i j : Nat) :
    bit (setBit r i) j = (bit r j || decide (j = i)) := by
  unfold setBit
  rw [bit_put]
  split
  · rename_i hword
    have hsame : decide (j % n = i % n) = decide (j = i) := decide_eq_decide.mpr (eq_iff_mod hword)
    rw [BitVec.getLsbD_or, getLsbD_mask (Nat.mod_lt j hn), hsame]
    unfold bit
    rw [hword]
  · rename_i hword
    have hne : j ≠ i := fun heq => hword (by rw [heq])
    simp [hne]

theorem bit_clearBit (hn : 0 < n) (r : Nat → BitVec n) (i j : Nat) :
    bit (clearBit r i) j = (bit r j && !decide (j = i)) := by
  unfold clearBit
  rw [bit_put]
  split
  · rename_i hword
    have hlt := Nat.mod_lt j hn
    have hsame : decide (j % n = i % n) = decide (j = i) := decide_eq_decide.mpr (eq_iff_mod hword)
    rw [BitVec.getLsbD_and, BitVec.getLsbD_not, getLsbD_mask hlt, hsame]
    unfold bit
    rw [hword]
    simp [hlt]
  · rename_i hword
    have hne : j ≠ i := fun heq => hword (by rw [heq])
    simp [hne]

section Set

variable {r : Nat → BitVec n} {i j : Nat}

theorem bit_setBit_iff (hn : 0 < n) :
    bit (setBit r j) i = true ↔ bit r i = true ∨ i = j := by
  rw [bit_setBit hn, Bool.or_eq_true, decide_eq_true_eq]

theorem bit_clearBit_iff (hn : 0 < n) :
    bit (clearBit r j) i = true ↔ bit r i = true ∧ i ≠ j := by
  rw [bit_clearBit hn, Bool.and_eq_true, Bool.not_eq_true', decide_eq_false_iff_not]

theorem bit_put_kept {reg : Nat} {v : BitVec n} (h : bit r i = true)
    (hv : i / n = reg → v.getLsbD (i % n) = true) : bit (put r reg v) i = true := by
  rw [bit_put]
  split
  · rename_i hword
    exact hv hword
  · exact h

theorem bit_put_or {reg : Nat} {v : BitVec n} (h : bit r i = true) :
    bit (put r reg (r reg ||| v)) i = true := by
  refine bit_put_kept h fun hword => ?_
  unfold bit at h
  rw [BitVec.getLsbD_or, ← hword, h]
  rfl

end Set

end WordRegs

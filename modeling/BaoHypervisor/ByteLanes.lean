import BaoHypervisor.BitMemory
import BaoHypervisor.WordRegs

/-!
# Lanes of a word

A narrow access to a wide register reads or replaces the `len` bits of the
register from bit `sh` on.  The shifted masks that do so are read here as
statements about the bits of the memory that holds the register.
-/

namespace BitMemory

/-- The store after the low `len` bits of `v` are written at address `p`. -/
def setLane {n : Nat} (m : Store) (p len : Nat) (v : BitVec n) : Store :=
  fun b => if p ≤ b ∧ b < p + len then v.getLsbD (b - p) else m b

/-- The word `cur` with the masked low bits of `v` shifted into it. -/
def mergeLane {n : Nat} (cur v mask : BitVec n) (sh : Nat) : BitVec n :=
  ((v &&& mask) <<< sh) ||| (cur &&& ~~~(mask <<< sh))

/-- The masked low bits of a word that is shifted down. -/
def laneOf {n : Nat} (v mask : BitVec n) (sh : Nat) : BitVec n :=
  (v >>> sh) &&& mask

/-- A value whose bit `len - 1` is set is extended with ones. -/
def signExtendLane {n : Nat} (ext : Bool) (len : Nat) (v mask : BitVec n) : BitVec n :=
  if ext && ((1#n <<< (len - 1)) &&& v != 0#n) then v ||| ~~~mask else v

/-- The bits of a merged word, the mask being that of `len` bits. -/
theorem getLsbD_mergeLane {n len sh t : Nat} {cur v mask : BitVec n} (hmask : IsMask mask 0 len)
    (ht : t < n) :
    (mergeLane cur v mask sh).getLsbD t =
      if sh ≤ t ∧ t < sh + len then v.getLsbD (t - sh) else cur.getLsbD t := by
  have hshift : (mask <<< sh).getLsbD t = decide (sh ≤ t ∧ t < sh + len) := by
    rw [BitVec.getLsbD_shiftLeft, hmask.2]
    by_cases hlo : t < sh
    · have hno : ¬ (sh ≤ t ∧ t < sh + len) := by omega
      simp [hlo, hno]
    · have hiff : t - sh < len ↔ sh ≤ t ∧ t < sh + len := by omega
      simp [ht, hlo, hiff]
  rw [mergeLane, BitVec.getLsbD_or, BitVec.getLsbD_and, BitVec.getLsbD_not, hshift,
    BitVec.getLsbD_shiftLeft, BitVec.getLsbD_and, hmask.2]
  by_cases hin : sh ≤ t ∧ t < sh + len
  · have hlo : ¬ t < sh := by omega
    have hlen : t - sh < len := by omega
    simp [hin, hlo, hlen, ht]
  · by_cases hlo : t < sh
    · simp [hin, hlo, ht]
    · have hlen : ¬ t - sh < len := by omega
      simp [hin, hlen, ht]

/-- **A merged word written back** changes the lane only. -/
theorem setWord_mergeLane {n len sh p : Nat} {m : Store} {v mask : BitVec n}
    (hmask : IsMask mask 0 len) (hfit : sh + len ≤ n) :
    setWord m p (mergeLane (word n m p) v mask sh) = setLane m (p + sh) len v := by
  funext b
  by_cases hword : p ≤ b ∧ b < p + n
  · have ht : b - p < n := by omega
    have hiff : (sh ≤ b - p ∧ b - p < sh + len) ↔ (p + sh ≤ b ∧ b < p + sh + len) := by omega
    have hsub : b - p - sh = b - (p + sh) := by omega
    have hback : p + (b - p) = b := by omega
    simp only [setWord, hword, and_self, if_true, setLane, getLsbD_mergeLane hmask ht,
      getLsbD_word, ht, decide_true, Bool.true_and, hiff, hsub, hback]
  · have hout : ¬ (p + sh ≤ b ∧ b < p + sh + len) := by omega
    simp only [setWord, hword, if_false, setLane, hout]

/-- The same for a register of `w` bits that is merged at the wider size `n`. -/
theorem setWord_setWidth_mergeLane {n w len sh p : Nat} {m : Store} {v mask : BitVec n}
    (hmask : IsMask mask 0 len) (hfit : sh + len ≤ w) (hw : w ≤ n) :
    setWord m p ((mergeLane ((word w m p).setWidth n) v mask sh).setWidth w) =
      setLane m (p + sh) len v := by
  funext b
  by_cases hword : p ≤ b ∧ b < p + w
  · have ht : b - p < w := by omega
    have htn : b - p < n := by omega
    have hiff : (sh ≤ b - p ∧ b - p < sh + len) ↔ (p + sh ≤ b ∧ b < p + sh + len) := by omega
    have hsub : b - p - sh = b - (p + sh) := by omega
    have hback : p + (b - p) = b := by omega
    simp only [setWord, hword, and_self, if_true, setLane, BitVec.getLsbD_setWidth,
      getLsbD_mergeLane hmask htn, getLsbD_word, ht, htn, decide_true, Bool.true_and, hiff,
      hsub, hback]
  · have hout : ¬ (p + sh ≤ b ∧ b < p + sh + len) := by omega
    simp only [setWord, hword, if_false, setLane, hout]

/-- **What a lane write keeps.**  Every bit is kept exactly if the lane's bits
that are to be kept have their old value in what is written. -/
theorem setLane_kept_iff {n : Nat} {m : Store} {p len : Nat} {v : BitVec n} {K : Nat → Prop} :
    (∀ b, K b → setLane m p len v b = m b) ↔
      ∀ j, j < len → K (p + j) → v.getLsbD j = m (p + j) := by
  constructor
  · intro h j hj hk
    have hin : p ≤ p + j ∧ p + j < p + len := by omega
    have hkept := h (p + j) hk
    simp only [setLane, hin, and_self, if_true, Nat.add_sub_cancel_left] at hkept
    exact hkept
  · intro h b hk
    by_cases hin : p ≤ b ∧ b < p + len
    · have hback : p + (b - p) = b := by omega
      have hkept := h (b - p) (by omega) (by rwa [hback])
      rw [hback] at hkept
      simp only [setLane, hin, and_self, if_true, hkept]
    · simp only [setLane, hin, if_false]

theorem setLane_other {n : Nat} {m : Store} {p len b : Nat} {v : BitVec n}
    (h : b < p ∨ p + len ≤ b) : setLane m p len v b = m b := by
  have hout : ¬ (p ≤ b ∧ b < p + len) := by omega
  simp only [setLane, hout, if_false]

theorem oneBit_and_ne_zero {n i : Nat} (hi : i < n) (v : BitVec n) :
    ((1#n <<< i) &&& v != 0#n) = v.getLsbD i := by
  have hbit : ∀ j, j < n → ((1#n <<< i) &&& v).getLsbD j = (decide (j = i) && v.getLsbD j) := by
    intro j hj
    rw [BitVec.getLsbD_and, WordRegs.getLsbD_mask hj]
  cases hv : v.getLsbD i with
  | true =>
      rw [bne_iff_ne]
      intro hzero
      have hone := hbit i hi
      rw [hzero, hv] at hone
      simp at hone
  | false =>
      have hzero : (1#n <<< i) &&& v = 0#n := by
        apply BitVec.eq_of_getLsbD_eq
        intro j hj
        rw [hbit j hj, BitVec.getLsbD_zero]
        by_cases hji : j = i
        · rw [hji, hv, Bool.and_false]
        · simp [hji]
      rw [hzero]
      simp

/-- A loop over the bits of a word that treats bit `i` on its own. -/
theorem getLsbD_foldl_bits {n : Nat} {f : BitVec n → Nat → BitVec n} {g : Nat → Bool → Bool}
    (hf : ∀ w i t, i < n → t < n →
      (f w i).getLsbD t = if t = i then g i (w.getLsbD i) else w.getLsbD t)
    (w : BitVec n) {k t : Nat} (hk : k ≤ n) (ht : t < n) :
    ((List.range k).foldl f w).getLsbD t = if t < k then g t (w.getLsbD t) else w.getLsbD t := by
  induction k with
  | zero => simp
  | succ k ih =>
      have hprev := ih (Nat.le_of_succ_le hk)
      rw [List.range_succ, List.foldl_append, List.foldl_cons, List.foldl_nil, hf _ _ _ hk ht]
      by_cases htk : t = k
      · have hlt : k < k + 1 := Nat.lt_succ_self k
        rw [htk] at hprev ⊢
        rw [if_pos rfl, if_pos hlt, hprev, if_neg (Nat.lt_irrefl k)]
      · rw [if_neg htk, hprev]
        have hiff : t < k + 1 ↔ t < k := by omega
        simp only [hiff]

/-! ## Extension -/

/-- The `len` bits `f` as a word, extended with the last of them if `ext` is set
and with zeros otherwise. -/
def extendBits (n : Nat) (ext : Bool) (len : Nat) (f : Nat → Bool) : BitVec n :=
  word n (fun b => if b < len then f b else ext && f (len - 1)) 0

theorem getLsbD_extendBits {n len j : Nat} {ext : Bool} {f : Nat → Bool} (hj : j < n) :
    (extendBits n ext len f).getLsbD j = if j < len then f j else ext && f (len - 1) := by
  rw [extendBits, getLsbD_word, decide_eq_true hj, Bool.true_and, Nat.zero_add]

theorem extendBits_congr {n len : Nat} {ext : Bool} {f g : Nat → Bool} (hlen : 0 < len)
    (h : ∀ j, j < len → f j = g j) : extendBits n ext len f = extendBits n ext len g := by
  apply BitVec.eq_of_getLsbD_eq
  intro j hj
  rw [getLsbD_extendBits hj, getLsbD_extendBits hj, h (len - 1) (Nat.sub_lt hlen Nat.one_pos)]
  by_cases hin : j < len
  · rw [if_pos hin, if_pos hin, h j hin]
  · rw [if_neg hin, if_neg hin]

theorem extendBits_zero {n len : Nat} {ext : Bool} {f : Nat → Bool} (hlen : 0 < len)
    (h : ∀ j, j < len → f j = false) : extendBits n ext len f = 0#n := by
  rw [extendBits_congr hlen h]
  apply BitVec.eq_of_getLsbD_eq
  intro j hj
  rw [getLsbD_extendBits hj, BitVec.getLsbD_zero, Bool.and_false, ite_self]

/-- **The two extensions** of a value agree exactly if it fills the word or its
last bit is clear. -/
theorem extendBits_eq_iff {n len : Nat} {ext ext' : Bool} {f : Nat → Bool} (hlen : len ≤ n) :
    extendBits n ext len f = extendBits n ext' len f ↔
      ext = ext' ∨ len = n ∨ f (len - 1) = false := by
  constructor
  · intro heq
    by_cases hfull : len = n
    · exact Or.inr (Or.inl hfull)
    · have hlt : len < n := Nat.lt_of_le_of_ne hlen hfull
      have hbit : (extendBits n ext len f).getLsbD len = (extendBits n ext' len f).getLsbD len := by
        rw [heq]
      rw [getLsbD_extendBits hlt, getLsbD_extendBits hlt, if_neg (Nat.lt_irrefl _),
        if_neg (Nat.lt_irrefl _)] at hbit
      cases htop : f (len - 1) with
      | false => exact Or.inr (Or.inr rfl)
      | true =>
          rw [htop, Bool.and_true, Bool.and_true] at hbit
          exact Or.inl hbit
  · intro hcond
    apply BitVec.eq_of_getLsbD_eq
    intro j hj
    rw [getLsbD_extendBits hj, getLsbD_extendBits hj]
    by_cases hin : j < len
    · rw [if_pos hin, if_pos hin]
    · rw [if_neg hin, if_neg hin]
      rcases hcond with hext | hfull | htop
      · rw [hext]
      · omega
      · rw [htop, Bool.and_false, Bool.and_false]

theorem signExtendLane_eq_extendBits {n len sh : Nat} {ext : Bool} {v mask : BitVec n}
    (hmask : IsMask mask 0 len) (hlen : 0 < len) :
    signExtendLane ext len (laneOf v mask sh) mask =
      extendBits n ext len fun j => v.getLsbD (sh + j) := by
  have hfit : len ≤ n := by
    have hle := hmask.1
    omega
  have htop : len - 1 < n := by omega
  have hlane : ∀ j, (laneOf v mask sh).getLsbD j = (decide (j < len) && v.getLsbD (sh + j)) := by
    intro j
    rw [laneOf, BitVec.getLsbD_and, BitVec.getLsbD_ushiftRight, hmask.2, Bool.and_comm]
    simp
  apply BitVec.eq_of_getLsbD_eq
  intro j hj
  have hlast : decide (len - 1 < len) = true := decide_eq_true (by omega)
  rw [getLsbD_extendBits hj, signExtendLane, oneBit_and_ne_zero htop, hlane, hlast, Bool.true_and]
  by_cases hin : j < len
  · rw [if_pos hin]
    split
    · rw [BitVec.getLsbD_or, BitVec.getLsbD_not, hlane, hmask.2]
      simp [hin]
    · rw [hlane, decide_eq_true hin, Bool.true_and]
  · rw [if_neg hin]
    split
    · rename_i hext
      rw [BitVec.getLsbD_or, BitVec.getLsbD_not, hlane, hmask.2, hext]
      simp [hin, hj]
    · rename_i hext
      rw [hlane, decide_eq_false hin, Bool.false_and]
      exact ((Bool.not_eq_true _).mp hext).symm

end BitMemory

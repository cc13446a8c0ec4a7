import Mathlib.Algebra.Group.Nat.Defs

/-!
# Bit-addressed memory read and written in words

A store is a function from bit addresses to bits.  A `w`-bit word is the slice
of `w` consecutive bits at an address, lowest bit first.  Reading and writing
whole words, masking them and comparing them are then statements about the
bits of an interval, which is how every word-at-a-time bitmap loop is
reasoned about below.
-/

namespace BitMemory

/-- A memory addressed by bits. -/
abbrev Store := Nat → Bool

/-- The `w` bits of the store from address `p` on, as one word. -/
def word : (w : Nat) → Store → Nat → BitVec w
  | 0, _, _ => 0#0
  | w + 1, m, p => BitVec.cons (m (p + w)) (word w m p)

/-- The store after the word `v` is written at address `p`. -/
def setWord {w : Nat} (m : Store) (p : Nat) (v : BitVec w) : Store :=
  fun b => if p ≤ b ∧ b < p + w then v.getLsbD (b - p) else m b

/-- All `n` bits from address `p` on have the value `v`. -/
def Uniform (m : Store) (v : Bool) (p n : Nat) : Prop :=
  ∀ j, j < n → m (p + j) = v

/-- The store after the `n` bits from address `p` on are set to `v`. -/
def fill (m : Store) (v : Bool) (p n : Nat) : Store :=
  fun b => if p ≤ b ∧ b < p + n then v else m b

/-- A word whose bits `off` to `off + len - 1` are one and all others zero. -/
def IsMask {w : Nat} (mask : BitVec w) (off len : Nat) : Prop :=
  off + len ≤ w ∧
  ∀ i, mask.getLsbD i = (decide (off ≤ i) && decide (i < off + len))

@[simp] theorem getLsbD_word (w : Nat) (m : Store) (p i : Nat) :
    (word w m p).getLsbD i = (decide (i < w) && m (p + i)) := by
  induction w with
  | zero => simp [word]
  | succ w ih =>
      rw [word, BitVec.getLsbD_cons, ih]
      by_cases htop : i = w
      · simp [htop]
      · have hlt : i < w + 1 ↔ i < w := by omega
        simp [htop, hlt]

@[simp] theorem fill_zero (m : Store) (v : Bool) (p : Nat) : fill m v p 0 = m := by
  funext b
  have hno : ¬ (p ≤ b ∧ b < p + 0) := by omega
  simp only [fill, hno, if_false]

theorem fill_other {m : Store} {v : Bool} {p n b : Nat} (h : b < p ∨ p + n ≤ b) :
    fill m v p n b = m b := by
  have hno : ¬ (p ≤ b ∧ b < p + n) := by omega
  simp only [fill, hno, if_false]

theorem fill_inside {m : Store} {v : Bool} {p n b : Nat} (h1 : p ≤ b) (h2 : b < p + n) :
    fill m v p n b = v := by
  simp only [fill, h1, h2, and_self, if_true]

theorem fill_fill (m : Store) (v : Bool) (p n k : Nat) :
    fill (fill m v p n) v (p + n) k = fill m v p (n + k) := by
  funext b
  by_cases h1 : p ≤ b ∧ b < p + (n + k)
  · rw [fill_inside h1.1 h1.2]
    by_cases h2 : p + n ≤ b
    · exact fill_inside h2 (by omega)
    · rw [fill_other (by omega), fill_inside h1.1 (by omega)]
  · rw [fill_other (by omega), fill_other (by omega), fill_other (by omega)]

theorem uniform_append {m : Store} {v : Bool} {p n k : Nat} :
    Uniform m v p (n + k) ↔ Uniform m v p n ∧ Uniform m v (p + n) k := by
  constructor
  · intro h
    refine ⟨fun j hj => h j (by omega), fun j hj => ?_⟩
    have := h (n + j) (by omega)
    rwa [← Nat.add_assoc] at this
  · rintro ⟨h1, h2⟩ j hj
    by_cases hlt : j < n
    · exact h1 j hlt
    · have := h2 (j - n) (by omega)
      rwa [Nat.add_assoc, Nat.add_sub_cancel' (by omega)] at this

theorem Uniform.mono {m : Store} {v : Bool} {p n k : Nat} (h : Uniform m v p n)
    (hk : k ≤ n) : Uniform m v p k :=
  fun j hj => h j (by omega)

/-- The store after the `n` bits from `p` on are copied to the address `q`. -/
def copyBits (m : Store) (p q n : Nat) : Store :=
  fun b => if q ≤ b ∧ b < q + n then m (p + (b - q)) else m b

theorem copyBits_other {m : Store} {p q n b : Nat} (h : b < q ∨ q + n ≤ b) :
    copyBits m p q n b = m b := by
  have hno : ¬ (q ≤ b ∧ b < q + n) := by omega
  simp only [copyBits, hno, if_false]

theorem copyBits_inside {m : Store} {p q n j : Nat} (hj : j < n) :
    copyBits m p q n (q + j) = m (p + j) := by
  have hin : q ≤ q + j ∧ q + j < q + n := by omega
  have hidx : q + j - q = j := by omega
  simp only [copyBits, hin, and_self, if_true, hidx]

theorem setWord_word (w : Nat) (m : Store) (p q : Nat) :
    setWord m q (word w m p) = copyBits m p q w := by
  funext b
  by_cases hin : q ≤ b ∧ b < q + w
  · have hlt : b - q < w := by omega
    simp only [setWord, copyBits, hin, and_self, if_true, getLsbD_word, hlt, decide_true,
      Bool.true_and]
  · simp only [setWord, copyBits, hin, if_false]

/-- **One copy after the other** is one copy, where the second does not read what the
first has written. -/
theorem copyBits_copyBits {m : Store} {p q n k : Nat} (h : p + (n + k) ≤ q ∨ q ≤ p) :
    copyBits (copyBits m p q n) (p + n) (q + n) k = copyBits m p q (n + k) := by
  funext b
  rcases Nat.lt_or_ge b q with hlt | hge
  · rw [copyBits_other (by omega), copyBits_other (by omega), copyBits_other (by omega)]
  · obtain ⟨j, rfl⟩ := Nat.exists_eq_add_of_le hge
    rcases Nat.lt_or_ge j n with hfirst | hnext
    · rw [copyBits_other (by omega), copyBits_inside hfirst, copyBits_inside (by omega)]
    · obtain ⟨i, rfl⟩ := Nat.exists_eq_add_of_le hnext
      rcases Nat.lt_or_ge i k with hsecond | hlast
      · rw [← Nat.add_assoc, copyBits_inside hsecond, Nat.add_assoc q, copyBits_inside (by omega),
          copyBits_other (by omega), Nat.add_assoc]
      · rw [copyBits_other (by omega), copyBits_other (by omega), copyBits_other (by omega)]

/-- Or-ing a mask into the word at `p` sets exactly the masked bits. -/
theorem setWord_or_mask {w : Nat} {m : Store} {p off len : Nat} {mask : BitVec w}
    (hmask : IsMask mask off len) :
    setWord m p (word w m p ||| mask) = fill m true (p + off) len := by
  obtain ⟨hfit, hbits⟩ := hmask
  funext b
  by_cases hin : p ≤ b ∧ b < p + w
  · obtain ⟨hlo, hhi⟩ := hin
    have hidx : p + (b - p) = b := by omega
    simp only [setWord, hlo, hhi, and_self, if_true, BitVec.getLsbD_or, getLsbD_word,
      hbits, hidx, fill]
    by_cases hr : p + off ≤ b ∧ b < p + off + len
    · have h1 : off ≤ b - p := by omega
      have h2 : b - p < off + len := by omega
      simp [hr, h1, h2]
    · have h1 : ¬ (off ≤ b - p ∧ b - p < off + len) := by omega
      have h2 : b - p < w := by omega
      simp only [hr, if_false, h2, decide_true, Bool.true_and]
      rw [← Bool.decide_and, decide_eq_false h1, Bool.or_false]
  · rw [fill_other (by omega)]
    simp only [setWord, hin, if_false]

/-- Clearing the bits of a mask in the word at `p` clears exactly the masked bits. -/
theorem setWord_and_not_mask {w : Nat} {m : Store} {p off len : Nat} {mask : BitVec w}
    (hmask : IsMask mask off len) :
    setWord m p (word w m p &&& ~~~mask) = fill m false (p + off) len := by
  obtain ⟨hfit, hbits⟩ := hmask
  funext b
  by_cases hin : p ≤ b ∧ b < p + w
  · obtain ⟨hlo, hhi⟩ := hin
    have hidx : p + (b - p) = b := by omega
    have h3 : b - p < w := by omega
    simp only [setWord, hlo, hhi, and_self, if_true, BitVec.getLsbD_and, BitVec.getLsbD_not,
      getLsbD_word, hbits, hidx, fill, h3, decide_true, Bool.true_and]
    by_cases hr : p + off ≤ b ∧ b < p + off + len
    · have h1 : off ≤ b - p := by omega
      have h2 : b - p < off + len := by omega
      simp [hr, h1, h2]
    · have h1 : ¬ (off ≤ b - p ∧ b - p < off + len) := by omega
      simp only [hr, if_false]
      rw [← Bool.decide_and, decide_eq_false h1, Bool.not_false, Bool.and_true]
  · rw [fill_other (by omega)]
    simp only [setWord, hin, if_false]

/-- A masked word differs from a uniform pattern nowhere exactly when the masked bits of the
store are uniform. -/
theorem word_xor_and_mask_eq_zero {w : Nat} {m : Store} {p off len : Nat} {v : Bool}
    {mask pattern : BitVec w} (hmask : IsMask mask off len)
    (hpat : ∀ i, off ≤ i → i < off + len → pattern.getLsbD i = v) :
    (word w m p ^^^ pattern) &&& mask = 0#w ↔ Uniform m v (p + off) len := by
  obtain ⟨hfit, hbits⟩ := hmask
  constructor
  · intro hzero j hj
    have hbit := congrArg (fun x => x.getLsbD (off + j)) hzero
    have h1 : off + j < w := by omega
    simp only [BitVec.getLsbD_and, BitVec.getLsbD_xor, getLsbD_word, hbits, h1,
      hpat (off + j) (by omega) (by omega), BitVec.getLsbD_zero, decide_true, Bool.true_and,
      Nat.le_add_right, Nat.add_lt_add_left hj, Bool.and_true] at hbit
    rw [Nat.add_assoc]
    simpa using hbit
  · intro hall
    apply BitVec.eq_of_getLsbD_eq
    intro i hi
    simp only [BitVec.getLsbD_and, BitVec.getLsbD_xor, getLsbD_word, hbits, hi,
      BitVec.getLsbD_zero, decide_true, Bool.true_and]
    by_cases hr : off ≤ i ∧ i < off + len
    · have hm := hall (i - off) (by omega)
      rw [Nat.add_assoc, Nat.add_sub_cancel' hr.1] at hm
      simp [hm, hpat i hr.1 hr.2]
    · rw [← Bool.decide_and, decide_eq_false hr, Bool.and_false]

theorem word_xor_eq_zero {w : Nat} {m : Store} {p : Nat} {v : Bool} {pattern : BitVec w}
    (hpat : ∀ i, i < w → pattern.getLsbD i = v) :
    word w m p ^^^ pattern = 0#w ↔ Uniform m v p w := by
  have hones : IsMask (BitVec.allOnes w) 0 w := ⟨by omega, fun i => by simp⟩
  have h := word_xor_and_mask_eq_zero (m := m) (p := p) hones
    (fun i _ hi => hpat i (by omega))
  rwa [BitVec.and_allOnes, Nat.add_zero] at h

/-- Number of bits with value `v` among the first `n` bits from `p` on. -/
def countBits (m : Store) (v : Bool) (p : Nat) : Nat → Nat
  | 0 => 0
  | n + 1 => countBits m v p n + if m (p + n) = v then 1 else 0

theorem countBits_le (m : Store) (v : Bool) (p n : Nat) : countBits m v p n ≤ n := by
  induction n with
  | zero => simp [countBits]
  | succ n ih => simp only [countBits]; split <;> omega

theorem countBits_congr {m m' : Store} {v : Bool} {p n : Nat}
    (h : ∀ j, j < n → m' (p + j) = m (p + j)) :
    countBits m' v p n = countBits m v p n := by
  induction n with
  | zero => rfl
  | succ n ih =>
      simp only [countBits]
      rw [ih (fun j hj => h j (by omega)), h n (by omega)]

/-- Changing one bit of the interval from `!v` to `v` adds one to the count of `v`. -/
theorem countBits_update {m m' : Store} {v : Bool} {p n i : Nat} (hi : i < n)
    (hold : m (p + i) = !v) (hnew : m' (p + i) = v)
    (hother : ∀ j, j < n → j ≠ i → m' (p + j) = m (p + j)) :
    countBits m' v p n = countBits m v p n + 1 := by
  induction n with
  | zero => omega
  | succ n ih =>
      simp only [countBits]
      by_cases hlast : i = n
      · subst hlast
        rw [countBits_congr (fun j hj => hother j (by omega) (by omega)), hnew, hold]
        simp
      · rw [ih (by omega) (fun j hj hne => hother j (by omega) hne),
          hother n (by omega) (fun h => hlast h.symm)]
        omega

theorem countBits_fill_one {m : Store} {v : Bool} {p n i : Nat} (hi : i < n)
    (hold : m (p + i) = v) :
    countBits (fill m (!v) (p + i) 1) v p n + 1 = countBits m v p n := by
  have hnew : fill m (!v) (p + i) 1 (p + i) = !v := fill_inside (Nat.le_refl _) (by omega)
  exact (countBits_update hi hnew hold (fun j _ hne => (fill_other (by omega)).symm)).symm

/-- Changing a run of bits away from `v` removes its length from the count of `v`. -/
theorem countBits_fill {m : Store} {v : Bool} {p n i k : Nat} (hi : i + k ≤ n)
    (hold : Uniform m v (p + i) k) :
    countBits (fill m (!v) (p + i) k) v p n + k = countBits m v p n := by
  induction k with
  | zero => rw [fill_zero, Nat.add_zero]
  | succ k ih =>
      have hnext : fill m (!v) (p + i) k (p + (i + k)) = v := by
        rw [fill_other (by omega), ← Nat.add_assoc]
        exact hold k (by omega)
      have hone := countBits_fill_one (n := n) (by omega) hnext
      rw [← Nat.add_assoc p, fill_fill] at hone
      have := ih (by omega) (hold.mono (by omega))
      omega

/-- The store after the bits at the listed offsets from `p` are set to `v`. -/
def fillAt (m : Store) (v : Bool) (p : Nat) : List Nat → Store
  | [] => m
  | i :: rest => fillAt (fill m v (p + i) 1) v p rest

theorem fillAt_other {m : Store} {v : Bool} {p b : Nat} {l : List Nat}
    (h : ∀ i ∈ l, b ≠ p + i) : fillAt m v p l b = m b := by
  induction l generalizing m with
  | nil => rfl
  | cons i rest ih =>
      have hi := h i List.mem_cons_self
      rw [fillAt, ih (fun j hj => h j (List.mem_cons_of_mem i hj)), fill_other (by omega)]

theorem fillAt_inside {m : Store} {v : Bool} {p i : Nat} {l : List Nat} (h : i ∈ l) :
    fillAt m v p l (p + i) = v := by
  induction l generalizing m with
  | nil => cases h
  | cons j rest ih =>
      rw [fillAt]
      by_cases hrest : i ∈ rest
      · exact ih hrest
      · obtain rfl : i = j := by simpa [hrest] using h
        rw [fillAt_other (fun k hk heq => hrest (by
          obtain rfl : i = k := by omega
          exact hk)), fill_inside (Nat.le_refl _) (by omega)]

/-- Changing distinct bits away from `v` removes their number from the count of `v`. -/
theorem countBits_fillAt {m : Store} {v : Bool} {p n : Nat} {l : List Nat}
    (hinc : l.Pairwise (· < ·)) (hin : ∀ i ∈ l, i < n ∧ m (p + i) = v) :
    countBits (fillAt m (!v) p l) v p n + l.length = countBits m v p n := by
  induction l generalizing m with
  | nil => rfl
  | cons i rest ih =>
      obtain ⟨hfirst, hrest⟩ := List.pairwise_cons.mp hinc
      obtain ⟨hi, hv⟩ := hin i List.mem_cons_self
      have hone := countBits_fill_one hi hv
      have hthen := ih (m := fill m (!v) (p + i) 1) hrest (fun j hj => by
        have hlt := hfirst j hj
        obtain ⟨hj1, hj2⟩ := hin j (List.mem_cons_of_mem i hj)
        exact ⟨hj1, by rw [fill_other (by omega), hj2]⟩)
      rw [fillAt, List.length_cons]
      omega

theorem countBits_add_countBits_not (m : Store) (v : Bool) (p n : Nat) :
    countBits m v p n + countBits m (!v) p n = n := by
  induction n with
  | zero => rfl
  | succ n ih =>
      simp only [countBits]
      cases hv : v <;> cases hm : m (p + n) <;> simp [hv] at ih ⊢ <;> omega

theorem exists_of_countBits_pos {m : Store} {v : Bool} {p n : Nat}
    (h : 0 < countBits m v p n) : ∃ i, i < n ∧ m (p + i) = v := by
  induction n with
  | zero => simp [countBits] at h
  | succ n ih =>
      simp only [countBits] at h
      by_cases hn : m (p + n) = v
      · exact ⟨n, by omega, hn⟩
      · simp only [hn, if_false, Nat.add_zero] at h
        obtain ⟨i, hi, hm⟩ := ih h
        exact ⟨i, by omega, hm⟩

end BitMemory

import Mathlib.Algebra.Order.BigOperators.Group.Finset
import Mathlib.Data.Finset.Max

/-!
# Barriers that count

`n` parties meet again and again at a barrier that has only a counter.  A
party that enters raises the counter and waits until it reaches the next
multiple of `n`.  `e p` is how often the party `p` entered.  The parties are
never more than one round apart, the counter a party waits for is `n` times
its own number of entries, and once the counter is there every party has
entered as often.
-/

namespace RoundBarrier

open Finset

variable {n : Nat} {e : Nat → Nat} {waiting : Nat → Prop}

/-- No party is a round ahead of one that it waited for. -/
structure InRounds (n : Nat) (e : Nat → Nat) (waiting : Nat → Prop) : Prop where
  level : ∀ p q, p < n → q < n → e p ≤ e q + 1
  passed : ∀ p q, p < n → q < n → ¬ waiting p → e p ≤ e q

theorem InRounds.initial (h : ∀ p, e p = 0) : InRounds n e waiting where
  level := fun p q _ _ => by rw [h p]; exact Nat.zero_le _
  passed := fun p q _ _ _ => by rw [h p]; exact Nat.zero_le _

/-- The counter is the number of all entries. -/
def entries (n : Nat) (e : Nat → Nat) : Nat := ∑ p ∈ range n, e p

theorem entries_enter {e' : Nat → Nat} {p : Nat} (hp : p < n) (hown : e' p = e p + 1)
    (hother : ∀ q, q ≠ p → e' q = e q) : entries n e' = entries n e + 1 := by
  have hmem := mem_range.mpr hp
  rw [entries, entries, ← add_sum_erase _ _ hmem, ← add_sum_erase _ e hmem, hown]
  have hrest : ∑ q ∈ (range n).erase p, e' q = ∑ q ∈ (range n).erase p, e q :=
    sum_congr rfl fun q hq => hother q (ne_of_mem_erase hq)
  rw [hrest]
  omega

theorem mul_le_entries {m : Nat} (h : ∀ p, p < n → m ≤ e p) : n * m ≤ entries n e := by
  calc n * m = ∑ _p ∈ range n, m := by rw [sum_const, card_range, Nat.nsmul_eq_mul]
    _ ≤ entries n e := sum_le_sum fun p hp => h p (mem_range.mp hp)

theorem entries_lt {m q : Nat} (h : ∀ p, p < n → e p ≤ m) (hq : q < n) (hlt : e q < m) :
    entries n e < n * m := by
  calc entries n e < ∑ _p ∈ range n, m :=
        sum_lt_sum (fun p hp => h p (mem_range.mp hp)) ⟨q, mem_range.mpr hq, hlt⟩
    _ = n * m := by rw [sum_const, card_range, Nat.nsmul_eq_mul]

/-- Rounding up to the next multiple of `n`. -/
theorem align_next {m x : Nat} (hlo : n * m < x) (hhi : x ≤ n * (m + 1)) :
    (x + n - 1) / n * n = n * (m + 1) := by
  have hpos : 0 < n := by
    rcases Nat.eq_zero_or_pos n with hzero | hpos
    · simp [hzero] at hlo hhi
      omega
    · exact hpos
  rw [Nat.mul_succ] at hhi ⊢
  have hdiv : (x + n - 1) / n = m + 1 := by
    apply Nat.div_eq_of_lt_le
    · rw [Nat.add_mul, Nat.one_mul, Nat.mul_comm]
      omega
    · rw [Nat.add_mul, Nat.add_mul, Nat.one_mul, Nat.mul_comm]
      omega
  rw [hdiv, Nat.add_mul, Nat.one_mul, Nat.mul_comm]

/-- **What an entering party waits for** is `n` times its number of entries. -/
theorem InRounds.target (h : InRounds n e waiting) {p : Nat} (hp : p < n) (hnot : ¬ waiting p) :
    (entries n e + 1 + n - 1) / n * n = n * (e p + 1) := by
  have hlo := mul_le_entries fun q hq => h.passed p q hp hq hnot
  have hhi := entries_lt (fun q hq => h.level q p hq hp) hp (Nat.lt_succ_self (e p))
  exact align_next (by omega) (by omega)

theorem InRounds.enter (h : InRounds n e waiting) {p : Nat} (hp : p < n) (hnot : ¬ waiting p)
    {e' : Nat → Nat} {waiting' : Nat → Prop} (hown : e' p = e p + 1) (hwait : waiting' p)
    (hother : ∀ q, q ≠ p → e' q = e q ∧ (waiting' q ↔ waiting q)) : InRounds n e' waiting' := by
  have hle : ∀ q, e q ≤ e' q := by
    intro q
    by_cases hq : q = p
    · rw [hq, hown]
      omega
    · rw [(hother q hq).1]
  constructor
  · intro a b ha hb
    by_cases hap : a = p
    · subst hap
      have hpass := h.passed a b ha hb hnot
      have hb' := hle b
      omega
    · rw [(hother a hap).1]
      have hlevel := h.level a b ha hb
      have hb' := hle b
      omega
  · intro a b ha hb hnota
    by_cases hap : a = p
    · exact (hnota (hap ▸ hwait)).elim
    · obtain ⟨ha', hwa⟩ := hother a hap
      rw [ha']
      exact Nat.le_trans (h.passed a b ha hb (fun hw => hnota (hwa.mpr hw))) (hle b)

/-- **A round is complete** once the counter reached the multiple: every party
entered as often as the one that waits. -/
theorem InRounds.complete (h : InRounds n e waiting) {p : Nat}
    (hcount : n * e p ≤ entries n e) : ∀ q, q < n → e p ≤ e q := by
  intro q hq
  by_cases hle : e p ≤ e q
  · exact hle
  · have hmost : ∀ r, r < n → e r ≤ e p := by
      intro r hr
      have hlevel := h.level r q hr hq
      omega
    have hlt := entries_lt hmost hq (by omega)
    omega

theorem InRounds.leave (h : InRounds n e waiting) {p : Nat}
    (hcount : n * e p ≤ entries n e) {waiting' : Nat → Prop}
    (hother : ∀ q, q ≠ p → (waiting' q ↔ waiting q)) : InRounds n e waiting' := by
  refine ⟨h.level, fun a b ha hb hnota => ?_⟩
  by_cases hap : a = p
  · rw [hap]
    exact h.complete hcount b hb
  · exact h.passed a b ha hb fun hw => hnota ((hother a hap).mpr hw)

/-- **Somebody can leave**: the party with the fewest entries. -/
theorem exists_complete (hn : 0 < n) (e : Nat → Nat) :
    ∃ p, p < n ∧ n * e p ≤ entries n e := by
  obtain ⟨p, hp, hleast⟩ := exists_min_image (range n) e ⟨0, mem_range.mpr hn⟩
  exact ⟨p, mem_range.mp hp, mul_le_entries fun q hq => hleast q (mem_range.mpr hq)⟩

end RoundBarrier

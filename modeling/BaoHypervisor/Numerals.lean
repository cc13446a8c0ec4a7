import Mathlib.Data.Nat.Digits.Lemmas

/-!
# Numerals

The digits of a number in a base, the highest one first and without leading zeros; zero
has one digit.  `topDigits` takes the digits off from above by division, as a printing
loop does.
-/

namespace Numerals

/-- The digits write the value, with no leading zero. -/
structure IsNumeral (base value : Nat) (ds : List Nat) : Prop where
  digit : ∀ d ∈ ds, d < base
  value : Nat.ofDigits base ds.reverse = value
  leading : ds = [0] ∨ (ds ≠ [] ∧ ds.head? ≠ some 0)

/-- The numeral of a value. -/
def numeral (base value : Nat) : List Nat :=
  if value = 0 then [0] else (Nat.digits base value).reverse

/-- The digits at positions `n` to 0, by division from above. -/
def topDigits (base : Nat) : Nat → Nat → List Nat
  | 0, u => [u]
  | n + 1, u => u / base ^ (n + 1) :: topDigits base n (u % base ^ (n + 1))

variable {base value n u : Nat} {ds : List Nat}

/-- **The numeral is unique.** -/
theorem IsNumeral.eq_numeral (hbase : 1 < base) (h : IsNumeral base value ds) :
    ds = numeral base value := by
  unfold numeral
  rcases h.leading with rfl | ⟨hne, hhead⟩
  · have hzero : value = 0 := by simpa using h.value.symm
    rw [if_pos hzero]
  · have hlast : ∀ hne : ds.reverse ≠ [], ds.reverse.getLast hne ≠ 0 := by
      intro hne' hlast
      apply hhead
      rw [← List.getLast?_reverse, List.getLast?_eq_some_getLast hne', hlast]
    have hdigits : Nat.digits base value = ds.reverse := by
      rw [← h.value]
      exact Nat.digits_ofDigits base hbase _ (fun d hd => h.digit d (List.mem_reverse.mp hd)) hlast
    have hpos : value ≠ 0 := by
      rintro rfl
      rw [Nat.digits_zero] at hdigits
      exact hne (List.reverse_eq_nil_iff.mp hdigits.symm)
    rw [if_neg hpos, hdigits, List.reverse_reverse]

theorem isNumeral_numeral (hbase : 1 < base) (value : Nat) :
    IsNumeral base value (numeral base value) := by
  unfold numeral
  split
  · next hzero =>
    refine ⟨fun d hd => ?_, ?_, .inl rfl⟩
    · rw [List.mem_singleton.mp hd]
      exact Nat.lt_of_succ_lt hbase
    · rw [hzero]
      simp
  · next hpos =>
    have hne := (Nat.digits_ne_nil_iff_ne_zero (b := base)).mpr hpos
    refine ⟨fun d hd => ?_, ?_, .inr ⟨by simpa using hne, ?_⟩⟩
    · exact Nat.digits_lt_base hbase (List.mem_reverse.mp hd)
    · rw [List.reverse_reverse, Nat.ofDigits_digits]
    · rw [List.head?_reverse, List.getLast?_eq_some_getLast hne]
      exact fun heq => Nat.getLast_digit_ne_zero base hpos (Option.some.inj heq)

theorem length_topDigits : (topDigits base n u).length = n + 1 := by
  induction n generalizing u with
  | zero => rfl
  | succ n ih => rw [topDigits, List.length_cons, ih]

theorem ofDigits_topDigits : Nat.ofDigits base (topDigits base n u).reverse = u := by
  induction n generalizing u with
  | zero => simp [topDigits]
  | succ n ih =>
      rw [topDigits, List.reverse_cons, Nat.ofDigits_append, ih, List.length_reverse,
        length_topDigits, Nat.ofDigits_singleton]
      exact Nat.mod_add_div u (base ^ (n + 1))

theorem topDigits_lt (hbase : 1 < base) (hu : u < base ^ (n + 1)) :
    ∀ d ∈ topDigits base n u, d < base := by
  induction n generalizing u with
  | zero =>
      intro d hd
      rw [List.mem_singleton.mp hd]
      simpa using hu
  | succ n ih =>
      have hpos : 0 < base ^ (n + 1) := Nat.pow_pos (Nat.lt_of_succ_lt hbase)
      intro d hd
      rcases List.mem_cons.mp hd with rfl | hd
      · apply Nat.div_lt_of_lt_mul
        rwa [← Nat.pow_succ]
      · exact ih (Nat.mod_lt u hpos) d hd

/-- **Digits taken from above**, from the highest one that is not zero, are the numeral. -/
theorem topDigits_eq_numeral (hbase : 1 < base) (hlo : base ^ n ≤ u ∨ n = 0)
    (hhi : u < base ^ (n + 1)) : topDigits base n u = numeral base u := by
  refine IsNumeral.eq_numeral hbase ⟨topDigits_lt hbase hhi, ofDigits_topDigits, ?_⟩
  cases n with
  | zero =>
      rcases Nat.eq_zero_or_pos u with rfl | hpos
      · exact .inl rfl
      · refine .inr ⟨List.cons_ne_nil _ _, fun heq => ?_⟩
        exact absurd (Option.some.inj heq) (Nat.ne_of_gt hpos)
  | succ n =>
      refine .inr ⟨List.cons_ne_nil _ _, fun heq => ?_⟩
      have hle := hlo.resolve_right (Nat.succ_ne_zero n)
      have hpos : 0 < base ^ (n + 1) := Nat.pow_pos (Nat.lt_of_succ_lt hbase)
      exact absurd (Option.some.inj heq) (Nat.ne_of_gt (Nat.div_pos hle hpos))

theorem length_numeral (hbase : 1 < base) (u : Nat) :
    (numeral base u).length = Nat.log base u + 1 := by
  have hlo : base ^ Nat.log base u ≤ u ∨ Nat.log base u = 0 := by
    rcases Nat.eq_zero_or_pos u with rfl | hpos
    · exact .inr (Nat.log_zero_right base)
    · exact .inl (Nat.pow_log_le_self base (Nat.ne_of_gt hpos))
  rw [← topDigits_eq_numeral hbase hlo (Nat.lt_pow_succ_log_self hbase u), length_topDigits]

end Numerals

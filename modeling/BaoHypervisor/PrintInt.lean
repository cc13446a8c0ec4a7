import BaoHypervisor.Machine
import BaoHypervisor.Numerals
import Mathlib.Logic.Function.Iterate

/-!
# Printing integers

`vprintd` of `printk.c`.  A divisor is scaled up to the highest power of the base that is
not above the number, and the digits are taken off by dividing.  A null buffer only
counts.
-/

namespace Bao

open Numerals

/-- An argument behind the format: an `int`, a `long` or a string, without its null
character. -/
inductive VaArg (W : LongWidth) where
  | int (v : BitVec 32)
  | long (v : BitVec W.bits)
  | str (s : List Char)

/-- `F_LONG`, `F_UNSIGNED` and `F_BASE16`. -/
def fLong : Nat := 1 <<< 0
def fUnsigned : Nat := 1 <<< 1
def fBase16 : Nat := 1 <<< 2

/-- `digit_to_char`. -/
def digitToChar (i base : Nat) : Char :=
  let digit := i % base
  if i < 10 then Char.ofNat ('0'.toNat + digit) else Char.ofNat ('a'.toNat + (digit - 10))

/-- `printc`. -/
def printc (buf : Option (List Char)) (c : Char) : Option (List Char) :=
  buf.map fun written => written ++ [c]

variable {W : LongWidth}

/-- `va_arg` of an unsigned type; `none` is an argument of another size. -/
def vaUnsigned (isLong : Bool) : List (VaArg W) → Option (Nat × List (VaArg W))
  | .int v :: rest => if isLong then none else some (v.toNat, rest)
  | .long v :: rest => if isLong then some (v.toNat, rest) else none
  | _ => none

/-- `va_arg` of a signed type. -/
def vaSigned (isLong : Bool) : List (VaArg W) → Option (Int × List (VaArg W))
  | .int v :: rest => if isLong then none else some (v.toInt, rest)
  | .long v :: rest => if isLong then some (v.toInt, rest) else none
  | _ => none

section

variable (W : LongWidth) (base : Nat)

/-- A turn of the loop that scales the divisor, on `tmp` and `divisor`. -/
def scaleStep (s : Nat × Nat) : Nat × Nat := (s.1 / base, s.2 * base % 2 ^ W.bits)

/-- The loop that scales the divisor; `none` is a loop that is not at its end after `fuel`
turns. -/
def scaleLoop : Nat → Nat × Nat → Option Nat
  | 0, s => if base ≤ s.1 then none else some s.2
  | fuel + 1, s => if base ≤ s.1 then scaleLoop fuel (scaleStep W base s) else some s.2

/-- A turn of the loop that prints the digits, on `u` and `divisor`. -/
def printStep (s : Nat × Nat) : Nat × Nat :=
  let digit := s.1 / s.2
  ((s.1 + 2 ^ W.bits - digit * s.2 % 2 ^ W.bits) % 2 ^ W.bits, s.2 / base)

/-- The loop that prints the digits: the buffer and the number of characters. -/
def printLoop : Nat → Nat × Nat → Option (List Char) → Nat → Option (Option (List Char) × Nat)
  | 0, s, buf, charCount => if 0 < s.2 then none else some (buf, charCount)
  | fuel + 1, s, buf, charCount =>
      if 0 < s.2 then
        printLoop fuel (printStep W base s) (printc buf (digitToChar (s.1 / s.2) base))
          (charCount + 1)
      else some (buf, charCount)

end

/-- `base` and `is_unsigned`. -/
def vprintdBase (flags : Nat) : Nat := if flags &&& fBase16 ≠ 0 then 16 else 10

def vprintdIsLong (flags : Nat) : Bool := flags &&& fLong != 0

def vprintdIsUnsigned (flags : Nat) : Bool := flags &&& fUnsigned != 0 || vprintdBase flags != 10

/-- `vprintd`: the number of characters, the buffer, and the arguments that are left.  A
loop gets one turn more than a long has bits. -/
def vprintd (buf : Option (List Char)) (flags : Nat) (args : List (VaArg W)) :
    Option (Nat × Option (List Char) × List (VaArg W)) :=
  let base := vprintdBase flags
  let isLong := vprintdIsLong flags
  let start : Option (Nat × Option (List Char) × Nat × List (VaArg W)) :=
    if vprintdIsUnsigned flags then
      (vaUnsigned isLong args).map fun (u, args) => (u, buf, 0, args)
    else
      (vaSigned isLong args).map fun (s, args) =>
        if s < 0 then
          ((2 ^ W.bits - (s % 2 ^ W.bits).toNat) % 2 ^ W.bits, printc buf '-', 1, args)
        else (s.toNat, buf, 0, args)
  match start with
  | none => none
  | some (u, buf, charCount, args) =>
      match scaleLoop W base (W.bits + 1) (u, 1) with
      | none => none
      | some divisor =>
          (printLoop W base (W.bits + 1) (u, divisor) buf charCount).map
            fun (buf, charCount) => (charCount, buf, args)

/-! ## The text of an integer -/

/-- The argument has the size that the flags ask for. -/
def VaArg.Matches (flags : Nat) : VaArg W → Prop
  | .int _ => vprintdIsLong flags = false
  | .long _ => vprintdIsLong flags = true
  | .str _ => False

/-- The number that the argument is for the flags. -/
def VaArg.value (flags : Nat) : VaArg W → Int
  | .int v => if vprintdIsUnsigned flags then v.toNat else v.toInt
  | .long v => if vprintdIsUnsigned flags then v.toNat else v.toInt
  | .str _ => 0

/-- The text of a number: a sign if it is negative, and its numeral. -/
def intText (base : Nat) (value : Int) : List Char :=
  (if value < 0 then ['-'] else []) ++ (numeral base value.natAbs).map Nat.digitChar

/-- The divisor fits a word at each turn that scales it, and is not zero before any of the
`digits` digits. -/
structure DivisorFine (W : LongWidth) (base u digits : Nat) : Prop where
  scales : ∀ j, base ≤ ((scaleStep W base)^[j] (u, 1)).1 →
    ((scaleStep W base)^[j] (u, 1)).2 * base < 2 ^ W.bits
  prints : ∃ divisor, scaleLoop W base (W.bits + 1) (u, 1) = some divisor ∧
    ∀ j, j < digits → 0 < ((printStep W base)^[j] (u, divisor)).2

variable {base u n : Nat} {buf : Option (List Char)}

theorem digitToChar_eq {d : Nat} (hd : d < base) (hbase : base ≤ 16) :
    digitToChar d base = Nat.digitChar d := by
  have hall : ∀ d, d < 16 →
      (if d < 10 then Char.ofNat ('0'.toNat + d) else Char.ofNat ('a'.toNat + (d - 10))) =
        Nat.digitChar d := by decide
  rw [digitToChar, Nat.mod_eq_of_lt hd]
  exact hall d (Nat.lt_of_lt_of_le hd hbase)

/-- **After `j` turns** the divisor is a power of the base, which is not above the number. -/
theorem scaleStep_iterate (hbase : 1 < base) (hu : u < 2 ^ W.bits) {j : Nat}
    (hj : base ^ j ≤ u ∨ j = 0) : (scaleStep W base)^[j] (u, 1) = (u / base ^ j, base ^ j) := by
  induction j with
  | zero => simp
  | succ j ih =>
      have hle := hj.resolve_right (Nat.succ_ne_zero j)
      have hprev : base ^ j ≤ u :=
        Nat.le_trans (Nat.pow_le_pow_right (Nat.lt_of_succ_lt hbase) (Nat.le_succ j)) hle
      rw [Function.iterate_succ_apply', ih (.inl hprev), scaleStep]
      have hfits : base ^ j * base < 2 ^ W.bits := by
        rw [← Nat.pow_succ]
        exact Nat.lt_of_le_of_lt hle hu
      rw [Nat.mod_eq_of_lt hfits, Nat.div_div_eq_div_mul, Nat.pow_succ]

theorem scaleStep_fst (j d : Nat) : ((scaleStep W base)^[j] (u, d)).1 = u / base ^ j := by
  induction j with
  | zero => simp
  | succ j ih =>
      rw [Function.iterate_succ_apply', scaleStep, ih, Nat.div_div_eq_div_mul, Nat.pow_succ]

/-- **The loop that scales** ends with the highest power of the base. -/
theorem scaleLoop_eq (hbase : 1 < base) (hu : u < 2 ^ W.bits) (hlo : base ^ n ≤ u ∨ n = 0)
    (hhi : u < base ^ (n + 1)) {j fuel : Nat} (hj : j ≤ n) (hfuel : n - j ≤ fuel) :
    scaleLoop W base fuel (u / base ^ j, base ^ j) = some (base ^ n) := by
  have hpos : 0 < base := Nat.lt_of_succ_lt hbase
  have hdone : ¬ base ≤ u / base ^ n := by
    intro hle
    have hmul := Nat.mul_le_of_le_div _ _ _ hle
    rw [← Nat.pow_succ'] at hmul
    exact absurd hhi (Nat.not_lt.mpr hmul)
  induction fuel generalizing j with
  | zero =>
      obtain rfl : j = n := by omega
      rw [scaleLoop, if_neg hdone]
  | succ fuel ih =>
      rw [scaleLoop]
      rcases Nat.eq_or_lt_of_le hj with rfl | hlt
      · rw [if_neg hdone]
      · have hle : base ^ (j + 1) ≤ u := by
          have hn := hlo.resolve_right (by omega)
          exact Nat.le_trans (Nat.pow_le_pow_right hpos hlt) hn
        have hgo : base ≤ u / base ^ j := by
          rw [Nat.le_div_iff_mul_le (Nat.pow_pos hpos), ← Nat.pow_succ']
          exact hle
        have hstep : scaleStep W base (u / base ^ j, base ^ j) =
            (u / base ^ (j + 1), base ^ (j + 1)) := by
          have hthis : base ^ j ≤ u ∨ j = 0 :=
            .inl (Nat.le_trans (Nat.pow_le_pow_right hpos (Nat.le_succ j)) hle)
          have hnext := scaleStep_iterate (W := W) hbase hu (.inl hle)
          rwa [Function.iterate_succ_apply', scaleStep_iterate hbase hu hthis] at hnext
        rw [if_pos hgo, hstep]
        exact ih hlt (by omega)

theorem printStep_eq (hu : u < 2 ^ W.bits) (d : Nat) :
    printStep W base (u, d) = (u % d, d / base) := by
  have hle : u / d * d ≤ u := Nat.div_mul_le_self u d
  have hmod := Nat.div_add_mod' u d
  have hsub : u + 2 ^ W.bits - u / d * d = u % d + 2 ^ W.bits := by omega
  rw [printStep]
  dsimp only
  rw [Nat.mod_eq_of_lt (Nat.lt_of_le_of_lt hle hu), hsub, Nat.add_mod_right]
  have hlt : u % d < 2 ^ W.bits := Nat.lt_of_le_of_lt (Nat.mod_le u d) hu
  rw [Nat.mod_eq_of_lt hlt]

theorem printc_append (c : Char) (rest : List Char) :
    (printc buf c).map (· ++ rest) = buf.map (· ++ c :: rest) := by
  cases buf with
  | none => rfl
  | some written => simp [printc]

/-- **The loop that prints** takes the digits off from above. -/
theorem printLoop_eq (hbase : 1 < base) (hle : base ≤ 16) (hu : u < 2 ^ W.bits)
    (hhi : u < base ^ (n + 1)) {fuel : Nat} (hfuel : n < fuel) (charCount : Nat) :
    printLoop W base fuel (u, base ^ n) buf charCount =
      some (buf.map (· ++ (topDigits base n u).map Nat.digitChar), charCount + (n + 1)) := by
  have hpos : 0 < base := Nat.lt_of_succ_lt hbase
  induction n generalizing u buf charCount fuel with
  | zero =>
      obtain ⟨fuel, rfl⟩ := Nat.exists_eq_add_of_lt hfuel
      have hdone : ∀ fuel, printLoop W base fuel (u % 1, 1 / base)
          (printc buf (Nat.digitChar u)) (charCount + 1) =
            some (printc buf (Nat.digitChar u), charCount + 1) := by
        have hzero : ¬ 0 < 1 / base := by
          rw [Nat.div_eq_of_lt hbase]
          exact Nat.lt_irrefl 0
        intro fuel
        cases fuel with
        | zero => rw [printLoop, if_neg hzero]
        | succ fuel => rw [printLoop, if_neg hzero]
      rw [Nat.pow_zero, printLoop, if_pos Nat.one_pos, printStep_eq hu 1, Nat.div_one,
        digitToChar_eq (by simpa using hhi) hle, hdone]
      rfl
  | succ n ih =>
      obtain ⟨fuel, rfl⟩ : ∃ k, fuel = k + 1 := ⟨fuel - 1, by omega⟩
      have hpow : 0 < base ^ (n + 1) := Nat.pow_pos hpos
      have hdigit : u / base ^ (n + 1) < base := by
        apply Nat.div_lt_of_lt_mul
        rwa [← Nat.pow_succ]
      have hdiv : base ^ (n + 1) / base = base ^ n := by
        rw [Nat.pow_succ]
        exact Nat.mul_div_cancel _ hpos
      rw [printLoop, if_pos hpow, printStep_eq hu (base ^ (n + 1)), digitToChar_eq hdigit hle, hdiv,
        ih (Nat.lt_of_le_of_lt (Nat.mod_le _ _) hu) (Nat.mod_lt u hpow) (by omega),
        printc_append, topDigits, List.map_cons]
      congr 2
      omega

theorem printStep_iterate (hbase : 1 < base) {j : Nat} (hj : j ≤ n) (u : Nat) :
    ((printStep W base)^[j] (u, base ^ n)).2 = base ^ (n - j) := by
  induction j with
  | zero => rfl
  | succ j ih =>
      have hsplit : n - j = n - (j + 1) + 1 := by omega
      rw [Function.iterate_succ_apply', printStep, ih (by omega), hsplit, Nat.pow_succ]
      exact Nat.mul_div_cancel _ (Nat.lt_of_succ_lt hbase)

theorem log_lt (hbase : 1 < base) (hu : u < 2 ^ W.bits) : Nat.log base u < W.bits := by
  have hint := W.int_le
  rcases Nat.eq_zero_or_pos u with rfl | hpos
  · rw [Nat.log_zero_right]
    omega
  · have hle := Nat.pow_log_le_self base (Nat.ne_of_gt hpos)
    have htwo : 2 ^ Nat.log base u ≤ base ^ Nat.log base u := Nat.pow_le_pow_left hbase _
    exact (Nat.pow_lt_pow_iff_right Nat.one_lt_two).mp (by omega)

/-- **Both loops** print the numeral of a word. -/
theorem loops_print (hbase : 1 < base) (hle : base ≤ 16) (hu : u < 2 ^ W.bits) :
    scaleLoop W base (W.bits + 1) (u, 1) = some (base ^ Nat.log base u) ∧
    (∀ buf charCount, printLoop W base (W.bits + 1) (u, base ^ Nat.log base u) buf charCount =
      some (buf.map (· ++ (numeral base u).map Nat.digitChar),
        charCount + (numeral base u).length)) ∧
    DivisorFine W base u (numeral base u).length := by
  have hpos : 0 < base := Nat.lt_of_succ_lt hbase
  have hlt := log_lt hbase hu
  have hlo : base ^ Nat.log base u ≤ u ∨ Nat.log base u = 0 := by
    rcases Nat.eq_zero_or_pos u with rfl | hpos
    · exact .inr (Nat.log_zero_right base)
    · exact .inl (Nat.pow_log_le_self base (Nat.ne_of_gt hpos))
  have hhi : u < base ^ (Nat.log base u + 1) := Nat.lt_pow_succ_log_self hbase u
  have hnumeral := topDigits_eq_numeral hbase hlo hhi
  have hlength := length_numeral hbase u
  have hscale := scaleLoop_eq hbase hu hlo hhi (Nat.zero_le _) (show _ ≤ W.bits + 1 by omega)
  rw [Nat.pow_zero, Nat.div_one] at hscale
  refine ⟨hscale, fun buf charCount => ?_, ?_, _, hscale, fun j hj => ?_⟩
  · rw [hlength, ← hnumeral]
    exact printLoop_eq hbase hle hu hhi (by omega) charCount
  · intro j hturn
    rw [scaleStep_fst] at hturn
    have hnext : base ^ (j + 1) ≤ u := by
      rw [Nat.le_div_iff_mul_le (Nat.pow_pos hpos), ← Nat.pow_succ'] at hturn
      exact hturn
    have hthis : base ^ j ≤ u := Nat.le_trans (Nat.pow_le_pow_right hpos (Nat.le_succ j)) hnext
    rw [scaleStep_iterate hbase hu (.inl hthis), ← Nat.pow_succ]
    exact Nat.lt_of_le_of_lt hnext hu
  · rw [printStep_iterate hbase (by omega)]
    exact Nat.pow_pos (Nat.lt_of_succ_lt hbase)

/-! ## The whole function -/

theorem negated_eq {s : Int} (hlo : -2 ^ (W.bits - 1) ≤ s) (hneg : s < 0) :
    (2 ^ W.bits - (s % 2 ^ W.bits).toNat) % 2 ^ W.bits = s.natAbs := by
  have hint := W.int_le
  have hpow : (2 : Int) ^ W.bits = 2 * 2 ^ (W.bits - 1) := by
    have hsplit : W.bits = W.bits - 1 + 1 := by omega
    rw [hsplit, Int.pow_succ, Int.mul_comm]
    rfl
  have hcast : ((2 ^ W.bits : Nat) : Int) = 2 ^ W.bits := by simp
  have hmod : s % 2 ^ W.bits = s + 2 ^ W.bits := by
    rw [← Int.add_emod_right]
    exact Int.emod_eq_of_lt (by omega) (by omega)
  rw [hmod]
  have habs : 2 ^ W.bits - (s + 2 ^ W.bits).toNat = s.natAbs := by omega
  rw [habs]
  exact Nat.mod_eq_of_lt (by omega)

theorem toInt_bounds {k : Nat} (v : BitVec k) (hk : k ≤ W.bits) :
    -2 ^ (W.bits - 1) ≤ v.toInt ∧ v.toInt < 2 ^ (W.bits - 1) := by
  have hle : (2 : Int) ^ (k - 1) ≤ 2 ^ (W.bits - 1) := by
    exact_mod_cast Nat.pow_le_pow_right Nat.two_pos (Nat.sub_le_sub_right hk 1)
  have hlo := BitVec.le_toInt v
  have hhi := BitVec.toInt_lt (x := v)
  constructor
  · omega
  · omega

theorem one_lt_vprintdBase (flags : Nat) : 1 < vprintdBase flags ∧ vprintdBase flags ≤ 16 := by
  unfold vprintdBase
  split
  · decide
  · decide

theorem loops_intText {flags : Nat} {value : Int} (hvalue : value.natAbs < 2 ^ W.bits)
    (buf : Option (List Char)) :
    ∃ divisor, scaleLoop W (vprintdBase flags) (W.bits + 1) (value.natAbs, 1) = some divisor ∧
      printLoop W (vprintdBase flags) (W.bits + 1) (value.natAbs, divisor)
        (if value < 0 then printc buf '-' else buf) (if value < 0 then 1 else 0) =
      some (buf.map (· ++ intText (vprintdBase flags) value),
        (intText (vprintdBase flags) value).length) := by
  obtain ⟨hbase, hle⟩ := one_lt_vprintdBase flags
  obtain ⟨hscale, hprint, -⟩ := loops_print hbase hle hvalue
  refine ⟨_, hscale, ?_⟩
  rw [hprint, intText]
  by_cases hneg : value < 0
  · rw [if_pos hneg, if_pos hneg, if_pos hneg, printc_append, List.length_append, List.length_map]
    rfl
  · rw [if_neg hneg, if_neg hneg, if_neg hneg, List.nil_append, List.length_map, Nat.zero_add]

/-- **`vprintd`** prints the text of its argument, and takes that argument. -/
theorem vprintd_eq {flags : Nat} {arg : VaArg W} (h : arg.Matches flags) (rest : List (VaArg W))
    (buf : Option (List Char)) :
    (arg.value flags).natAbs < 2 ^ W.bits ∧
    vprintd buf flags (arg :: rest) =
      some ((intText (vprintdBase flags) (arg.value flags)).length,
        buf.map (· ++ intText (vprintdBase flags) (arg.value flags)), rest) := by
  have hint := W.int_le
  have hpow : (2 : Int) ^ W.bits = 2 * 2 ^ (W.bits - 1) := by
    have hsplit : W.bits = W.bits - 1 + 1 := by omega
    rw [hsplit, Int.pow_succ, Int.mul_comm]
    rfl
  have hcast : ((2 ^ W.bits : Nat) : Int) = 2 ^ W.bits := by simp
  -- an argument of either size, as the number that its bits are for the flags
  have hall : ∀ {k : Nat} (v : BitVec k), k ≤ W.bits → ∀ value : Int,
      value = (if vprintdIsUnsigned flags then (v.toNat : Int) else v.toInt) →
      vaUnsigned (vprintdIsLong flags) (arg :: rest) = some (v.toNat, rest) →
      vaSigned (vprintdIsLong flags) (arg :: rest) = some (v.toInt, rest) →
      value.natAbs < 2 ^ W.bits ∧ vprintd buf flags (arg :: rest) =
        some ((intText (vprintdBase flags) value).length,
          buf.map (· ++ intText (vprintdBase flags) value), rest) := by
    intro k v hk value hvalue hunsigned hsigned
    have hbounds := toInt_bounds (W := W) v hk
    have hnat : v.toNat < 2 ^ W.bits :=
      Nat.lt_of_lt_of_le v.isLt (Nat.pow_le_pow_right Nat.two_pos hk)
    cases hflag : vprintdIsUnsigned flags with
    | true =>
        rw [hflag, if_pos rfl] at hvalue
        subst hvalue
        have hneg : ¬ (v.toNat : Int) < 0 := by omega
        obtain ⟨divisor, hscale, hprint⟩ := @loops_intText W flags v.toNat (by omega) buf
        rw [if_neg hneg, if_neg hneg, Int.natAbs_natCast] at hprint
        rw [Int.natAbs_natCast] at hscale
        refine ⟨by omega, ?_⟩
        simp only [vprintd, hflag, if_true, hunsigned, Option.map_some, hscale, hprint]
    | false =>
        rw [hflag, if_neg Bool.false_ne_true] at hvalue
        subst hvalue
        have habs : v.toInt.natAbs < 2 ^ W.bits := by omega
        obtain ⟨divisor, hscale, hprint⟩ := @loops_intText W flags _ habs buf
        refine ⟨habs, ?_⟩
        by_cases hneg : v.toInt < 0
        · rw [if_pos hneg, if_pos hneg] at hprint
          simp only [vprintd, hflag, Bool.false_eq_true, if_false, hsigned, Option.map_some, hneg,
            if_true, negated_eq hbounds.1 hneg, hscale, hprint]
        · have hto : v.toInt.toNat = v.toInt.natAbs := by omega
          rw [if_neg hneg, if_neg hneg] at hprint
          simp only [vprintd, hflag, Bool.false_eq_true, if_false, hsigned, Option.map_some, hneg,
            hto, hscale, hprint]
  cases arg with
  | int v =>
      have hshort : vprintdIsLong flags = false := h
      exact hall v hint _ rfl (by rw [vaUnsigned, hshort]; rfl) (by rw [vaSigned, hshort]; rfl)
  | long v =>
      have hlong : vprintdIsLong flags = true := h
      exact hall v (Nat.le_refl _) _ rfl (by rw [vaUnsigned, hlong]; rfl)
        (by rw [vaSigned, hlong]; rfl)
  | str s => exact h.elim

/-- **Integers are printed canonically**, for every word and all flags: a minus sign if the
number is negative, and its only numeral.  The divisor stays inside a word and is not zero
before any digit, and a null buffer counts the characters that are written to a real one. -/
theorem vprintd_canonical {flags : Nat} {arg : VaArg W} (h : arg.Matches flags)
    (rest : List (VaArg W)) (written : List Char) :
    ∃ ds text, IsNumeral (vprintdBase flags) (arg.value flags).natAbs ds ∧
      (∀ ds', IsNumeral (vprintdBase flags) (arg.value flags).natAbs ds' → ds' = ds) ∧
      text = (if arg.value flags < 0 then ['-'] else []) ++ ds.map Nat.digitChar ∧
      vprintd (some written) flags (arg :: rest) =
        some (text.length, some (written ++ text), rest) ∧
      vprintd none flags (arg :: rest) = some (text.length, none, rest) ∧
      DivisorFine W (vprintdBase flags) (arg.value flags).natAbs ds.length := by
  obtain ⟨hbase, hle⟩ := one_lt_vprintdBase flags
  obtain ⟨hvalue, hsome⟩ := vprintd_eq h rest (some written)
  refine ⟨_, _, isNumeral_numeral hbase _, fun ds' hds => hds.eq_numeral hbase, rfl, hsome,
    (vprintd_eq h rest none).2, (loops_print hbase hle hvalue).2.2⟩

/-- The smallest `int`. -/
theorem vprintd_canonical_min : ∃ text : List Char,
    vprintd (W := ⟨64, by decide⟩) none 0 [.int 0x80000000#32] = some (text.length, none, []) := by
  obtain ⟨ds, text, -, -, -, -, hnull, -⟩ :=
    @vprintd_canonical ⟨64, by decide⟩ 0 (.int 0x80000000#32) rfl [] []
  exact ⟨text, hnull⟩

/-- It has eleven characters. -/
example : intText 10 (-2147483648) = "-2147483648".toList := by decide +kernel

end Bao

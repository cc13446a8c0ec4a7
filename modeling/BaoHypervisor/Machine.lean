import Mathlib.Algebra.Group.Nat.Defs

/-!
# The target machine

What the memory code takes from the platform: the width of `unsigned long`
and `size_t`, the page size, the cache colours and the size of the static
bitmap pool.  The arithmetic macros of `util.h` follow, on words modulo
`2 ^ wordBits`.
-/

namespace Bao

/-- The width of `unsigned long` and `size_t`, which is not below that of `int`. -/
structure LongWidth where
  bits : Nat
  int_le : 32 ≤ bits

/-- 64-bit targets. -/
abbrev LongWidth.w64 : LongWidth := ⟨64, by decide⟩

/-- The constants of one target.  `COLOR_NUM` and `COLOR_SIZE` come from
dividing a cache way by the page size, so together they span no more pages
than the address space has. -/
structure Machine where
  wordBits : Nat
  pageBits : Nat
  colorNum : Nat
  colorSize : Nat
  bitmapPoolSize : Nat
  two_le_pageBits : 2 ≤ pageBits
  pageBits_room : pageBits + 5 < wordBits
  colorNum_pos : 0 < colorNum
  colorSize_pos : 0 < colorSize
  colors_fit : colorNum * colorSize ≤ 2 ^ (wordBits - pageBits)

/-- A 64-bit target with 4 KiB pages and no usable cache colours. -/
def Machine.mmu64 : Machine where
  wordBits := 64
  pageBits := 12
  colorNum := 1
  colorSize := 1
  bitmapPoolSize := 4096
  two_le_pageBits := by decide
  pageBits_room := by decide
  colorNum_pos := by decide
  colorSize_pos := by decide
  colors_fit := by decide

/-- A 32-bit target with 64-byte pages. -/
def Machine.mpu32 : Machine where
  wordBits := 32
  pageBits := 6
  colorNum := 1
  colorSize := 1
  bitmapPoolSize := 8
  two_le_pageBits := by decide
  pageBits_room := by decide
  colorNum_pos := by decide
  colorSize_pos := by decide
  colors_fit := by decide

namespace Machine

variable (M : Machine)

/-- Number of values of a machine word. -/
abbrev wordCount : Nat := 2 ^ M.wordBits

/-- `PAGE_SIZE`. -/
abbrev pageSize : Nat := 2 ^ M.pageBits

/-- Number of pages of the address space. -/
abbrev pageCount : Nat := 2 ^ (M.wordBits - M.pageBits)

/-- `ULONG_MAX` and `SIZE_MAX`. -/
def sizeMax : Nat := M.wordCount - 1

/-- The `ssize_t` with the bits of the `size_t` `x`. -/
def ssize (x : Nat) : Int :=
  if x % M.wordCount < 2 ^ (M.wordBits - 1) then (x % M.wordCount : Nat)
  else (x % M.wordCount : Nat) - (M.wordCount : Nat)

/-- `ALIGN(val, PAGE_SIZE)`. -/
def align (val : Nat) : Nat :=
  ((val + (M.pageSize - 1)) % M.wordCount) / M.pageSize * M.pageSize

/-- `NUM_PAGES(sz)`. -/
def numPages (sz : Nat) : Nat := M.align sz / M.pageSize

/-- `base + size` of `range_in_range`, saturated on overflow. -/
def limit (base size : Nat) : Nat :=
  let limit := (base + size) % M.wordCount
  if limit < base then M.sizeMax else limit

/-- `range_in_range`. -/
def rangeInRange (base1 size1 base2 size2 : Nat) : Bool :=
  decide (base2 ≤ base1) && decide (M.limit base1 size1 ≤ M.limit base2 size2)

/-- `in_range`. -/
def inRange (addr base size : Nat) : Bool := M.rangeInRange addr 1 base size

/-- `all_clrs`. -/
def allClrs (clrs : Nat) : Bool :=
  let mask := 2 ^ M.colorNum - 1
  let masked := clrs &&& mask
  masked == 0 || masked == mask

theorem pageSize_pos : 0 < M.pageSize := Nat.two_pow_pos _

theorem pageSize_dvd_zero : M.pageSize ∣ 0 := Nat.dvd_zero _

theorem four_le_pageSize : 4 ≤ M.pageSize :=
  Nat.pow_le_pow_right (by decide : 0 < 2) M.two_le_pageBits

theorem pageCount_pos : 0 < M.pageCount := Nat.two_pow_pos _

theorem wordCount_eq : M.wordCount = M.pageCount * M.pageSize := by
  have := M.pageBits_room
  rw [← Nat.pow_add, Nat.sub_add_cancel (by omega)]

theorem sixtyFour_le_pageCount : 64 ≤ M.pageCount := by
  have := M.pageBits_room
  calc 64 = 2 ^ 6 := by decide
    _ ≤ 2 ^ (M.wordBits - M.pageBits) := Nat.pow_le_pow_right (by decide) (by omega)

theorem four_pageCount_le_wordCount : 4 * M.pageCount ≤ M.wordCount := by
  rw [M.wordCount_eq, Nat.mul_comm]
  exact Nat.mul_le_mul_left _ M.four_le_pageSize

theorem colorPeriod_le : M.colorNum * M.colorSize ≤ M.pageCount := M.colors_fit

theorem colorPeriod_pos : 0 < M.colorNum * M.colorSize :=
  Nat.mul_pos M.colorNum_pos M.colorSize_pos

theorem two_pageCount_le_signBit : 2 * M.pageCount ≤ 2 ^ (M.wordBits - 1) := by
  have := M.two_le_pageBits
  have := M.pageBits_room
  calc 2 * M.pageCount = 2 ^ (M.wordBits - M.pageBits + 1) := by
        rw [Nat.pow_succ, Nat.mul_comm]
    _ ≤ 2 ^ (M.wordBits - 1) := Nat.pow_le_pow_right (by decide) (by omega)

theorem signBit_lt_wordCount : 2 ^ (M.wordBits - 1) < M.wordCount :=
  Nat.pow_lt_pow_right (by decide) (by have := M.pageBits_room; omega)

theorem ssize_of_lt {x : Nat} (h : x < 2 ^ (M.wordBits - 1)) : M.ssize x = x := by
  have hword := M.signBit_lt_wordCount
  rw [ssize, Nat.mod_eq_of_lt (by omega), if_pos h]

theorem ssize_neg {x : Nat} (h : 2 ^ (M.wordBits - 1) ≤ x) (hx : x < M.wordCount) :
    M.ssize x < 0 := by
  rw [ssize, Nat.mod_eq_of_lt hx, if_neg (by omega)]
  omega

theorem eq_of_ssize_eq {x r : Nat} (hx : x < M.wordCount) (h : M.ssize x = r) : x = r := by
  by_cases hsmall : x < 2 ^ (M.wordBits - 1)
  · rw [M.ssize_of_lt hsmall] at h
    omega
  · have := M.ssize_neg (by omega) hx
    omega

theorem align_of_dvd {val : Nat} (hdvd : M.pageSize ∣ val) (hlt : val < M.wordCount) :
    M.align val = val := by
  obtain ⟨k, rfl⟩ := hdvd
  have hpos := M.pageSize_pos
  have hk : k < M.pageCount := by
    rw [M.wordCount_eq, Nat.mul_comm] at hlt
    exact Nat.lt_of_mul_lt_mul_right hlt
  have hfit : M.pageSize * k + (M.pageSize - 1) < M.wordCount := by
    have hmul : M.pageSize * (k + 1) ≤ M.pageSize * M.pageCount := Nat.mul_le_mul_left _ hk
    rw [M.wordCount_eq, Nat.mul_comm M.pageCount]
    rw [Nat.mul_succ] at hmul
    omega
  rw [align, Nat.mod_eq_of_lt hfit, Nat.mul_add_div hpos,
    Nat.div_eq_of_lt (by omega), Nat.add_zero, Nat.mul_comm]

theorem numPages_eq {sz : Nat} (h : sz + (M.pageSize - 1) < M.wordCount) :
    M.numPages sz = (sz + (M.pageSize - 1)) / M.pageSize := by
  rw [numPages, align, Nat.mod_eq_of_lt h, Nat.mul_div_cancel _ M.pageSize_pos]

theorem numPages_mul {k : Nat} (h : k * M.pageSize < M.wordCount) :
    M.numPages (k * M.pageSize) = k := by
  rw [numPages, M.align_of_dvd (Nat.dvd_mul_left _ _) h, Nat.mul_div_cancel _ M.pageSize_pos]

/-- The limit of a range inside the address space is its end, except that the
end of the address space itself is saturated. -/
theorem limit_of_le {base size : Nat} (h : base + size ≤ M.wordCount)
    (hsize : size < M.wordCount) : M.limit base size = min (base + size) M.sizeMax := by
  unfold limit sizeMax
  by_cases hwrap : base + size = M.wordCount
  · simp only [hwrap, Nat.mod_self]
    rw [if_pos (by omega)]
    omega
  · rw [Nat.mod_eq_of_lt (by omega)]
    simp only
    rw [if_neg (by omega)]
    omega

theorem rangeInRange_of_lt {base1 size1 base2 size2 : Nat}
    (h1 : base1 + size1 < M.wordCount) (h2 : base2 + size2 < M.wordCount) :
    M.rangeInRange base1 size1 base2 size2 = true ↔
      base2 ≤ base1 ∧ base1 + size1 ≤ base2 + size2 := by
  rw [rangeInRange, M.limit_of_le (Nat.le_of_lt h1) (by omega),
    M.limit_of_le (Nat.le_of_lt h2) (by omega), Bool.and_eq_true, decide_eq_true_eq,
    decide_eq_true_eq]
  unfold sizeMax
  omega

/-- `range_in_range` is containment for ranges inside the address space that
end on a page boundary. -/
theorem rangeInRange_iff {base1 size1 base2 size2 : Nat}
    (h1 : base1 + size1 ≤ M.wordCount) (hs1 : size1 < M.wordCount)
    (h2 : base2 + size2 ≤ M.wordCount) (hs2 : size2 < M.wordCount)
    (hdvd : M.pageSize ∣ base2 + size2) :
    M.rangeInRange base1 size1 base2 size2 = true ↔
      base2 ≤ base1 ∧ base1 + size1 ≤ base2 + size2 := by
  have hend : base2 + size2 ≠ M.sizeMax := by
    intro heq
    have hword : M.pageSize ∣ base2 + size2 + 1 := by
      have hpos := Nat.two_pow_pos M.wordBits
      have hcount : base2 + size2 + 1 = M.pageCount * M.pageSize := by
        rw [heq, sizeMax, ← M.wordCount_eq]
        omega
      exact hcount ▸ Nat.dvd_mul_left _ _
    have hone : M.pageSize ∣ 1 := (Nat.dvd_add_right hdvd).mp hword
    have := Nat.le_of_dvd (by decide) hone
    have := M.four_le_pageSize
    omega
  rw [rangeInRange, M.limit_of_le h1 hs1, M.limit_of_le h2 hs2, Bool.and_eq_true,
    decide_eq_true_eq, decide_eq_true_eq]
  unfold sizeMax at hend ⊢
  omega

end Machine

end Bao

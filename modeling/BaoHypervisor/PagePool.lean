import BaoHypervisor.Bitmap

/-!
# Page pools

A page pool is a contiguous range of physical pages with one bit per page,
set while the page is taken.  This file has the operations of `mem.c` on one
pool, under its lock: initialisation, contiguous allocation and reservation.
`none` as the result of a function that loops is a call that does not return.
-/

namespace Bao

open BitMemory

/-- `struct ppages`. -/
structure Ppages where
  base : Nat
  numPages : Nat
  colors : Nat
deriving DecidableEq, Repr

/-- A range of pages that does not wrap around the address space. -/
def Ppages.Fits (M : Machine) (p : Ppages) : Prop :=
  p.numPages < M.pageCount ∧ p.base + p.numPages * M.pageSize ≤ M.wordCount

/-- A page-aligned memory region that does not wrap around the address space. -/
structure MemRegion (M : Machine) where
  base : Nat
  size : Nat
  base_aligned : M.pageSize ∣ base
  size_aligned : M.pageSize ∣ size
  size_lt : size < M.wordCount
  fits : base + size ≤ M.wordCount

/-- `struct page_pool`, with `bitmap` the bit address of its bitmap.  A pool
starts on a page boundary and lies inside the address space. -/
structure PagePool (M : Machine) where
  base : Nat
  numPages : Nat
  free : Nat
  last : Nat
  bitmap : Nat
  aligned : M.pageSize ∣ base
  numPages_lt : numPages < M.pageCount
  fits : base + numPages * M.pageSize ≤ M.wordCount

variable {M : Machine}

namespace MemRegion

variable (r : MemRegion M)

theorem pages_mul : r.size / M.pageSize * M.pageSize = r.size :=
  Nat.div_mul_cancel r.size_aligned

theorem pages_lt : r.size / M.pageSize < M.pageCount := by
  have hlt := r.size_lt
  rw [M.wordCount_eq, ← r.pages_mul] at hlt
  exact Nat.lt_of_mul_lt_mul_right hlt

end MemRegion

/-- `pp_init` and `pp_root_init` up to the bitmap: all pages free. -/
def poolOfRegion (r : MemRegion M) (bitmap : Nat) : PagePool M where
  base := r.base
  numPages := r.size / M.pageSize
  free := r.size / M.pageSize
  last := 0
  bitmap := bitmap
  aligned := r.base_aligned
  numPages_lt := r.pages_lt
  fits := by rw [r.pages_mul]; exact r.fits

namespace PagePool

/-- One search pass of `pp_alloc`: the outer `none` is a search that does not
end, the inner one a search that finds nothing. -/
def allocPass (m : Store) (pool : PagePool M) (numPages : Nat) (aligned : Bool) (start : Nat) :
    Nat → Nat → Option (Option Nat)
  | 0, _ => none
  | fuel + 1, curr =>
      if pool.free = 0 then some none
      else
        match bitmapFindConsec M m pool.bitmap pool.numPages curr numPages false with
        | none => some none
        | some bit =>
            if aligned && (bit + start) % M.wordCount % numPages != 0 then
              allocPass m pool numPages aligned start fuel
                ((bit + (bit + start) % M.wordCount % numPages) % M.wordCount)
            else some (some bit)

/-- The end of `pp_alloc` once `numPages` pages are found at `bit`. -/
def take (m : Store) (pool : PagePool M) (numPages bit : Nat) :
    Bool × Ppages × Store × PagePool M :=
  (true, { base := pool.base + bit * M.pageSize, numPages := numPages, colors := 0 },
    bitmapSetConsecutive m pool.bitmap bit numPages,
    { pool with
      free := (pool.free + (M.wordCount - numPages)) % M.wordCount
      last := (bit + numPages) % M.wordCount })

/-- `pp_alloc`. -/
def ppAlloc (m : Store) (pool : PagePool M) (numPages : Nat) (aligned : Bool) (ppages : Ppages) :
    Option (Bool × Ppages × Store × PagePool M) :=
  let ppages := { ppages with colors := 0, numPages := 0 }
  if numPages = 0 then some (true, ppages, m, pool)
  else
    let start := if aligned then pool.base / M.pageSize % numPages else 0
    let curr :=
      if aligned then (pool.last + (pool.last + start) % M.wordCount % numPages) % M.wordCount
      else pool.last
    let nextAligned := (numPages - pool.base / M.pageSize % numPages) % numPages
    match allocPass m pool numPages aligned start (pool.numPages + 1) curr with
    | none => none
    | some (some bit) => some (take m pool numPages bit)
    | some none =>
        match allocPass m pool numPages aligned start (pool.numPages + 1)
            (if aligned then nextAligned else 0) with
        | none => none
        | some (some bit) => some (take m pool numPages bit)
        | some none => some (false, ppages, m, pool)

/-- `mem_ppages_in_pool`. -/
def memPpagesInPool (pool : PagePool M) (ppages : Ppages) : Bool :=
  M.rangeInRange ppages.base (ppages.numPages * M.pageSize % M.wordCount)
    pool.base (pool.numPages * M.pageSize)

/-- The index in the pool of the first page of `ppages`. -/
def pageoff (pool : PagePool M) (ppages : Ppages) : Nat :=
  M.numPages (ppages.base - pool.base)

/-- `mem_are_ppages_reserved_in_pool`. -/
def memArePpagesReservedInPool (m : Store) (pool : PagePool M) (ppages : Ppages) : Bool :=
  if pool.memPpagesInPool ppages then
    let isAlloced := bitmapGet m pool.bitmap (pool.pageoff ppages)
    let avlblContigPp := bitmapCountConsecutive m pool.bitmap pool.numPages (pool.pageoff ppages)
      ppages.numPages
    isAlloced || decide (avlblContigPp < ppages.numPages)
  else false

/-- `mem_reserve_ppool_ppages`. -/
def memReservePpoolPpages (m : Store) (pool : PagePool M) (ppages : Ppages) :
    Bool × Store × PagePool M :=
  if pool.memPpagesInPool ppages && !pool.memArePpagesReservedInPool m ppages then
    (true, bitmapSetConsecutive m pool.bitmap (pool.pageoff ppages) ppages.numPages,
      { pool with free := (pool.free + (M.wordCount - ppages.numPages)) % M.wordCount })
  else (false, m, pool)

/-! ## What an allocation takes -/

/-- The `n` pages from index `i` on are free. -/
abbrev Clear (m : Store) (pool : PagePool M) (i n : Nat) : Prop :=
  Uniform m false (pool.bitmap + i) n

/-- `pp_alloc` takes the pages at `bit`: a run of free bits that starts in
the pool and stays in the granule of its last page. -/
structure Takes (m : Store) (pool : PagePool M) (n : Nat) (aligned : Bool) (bit : Nat) :
    Prop where
  inPool : bit < pool.numPages
  first : m (pool.bitmap + bit) = false
  clear : n < 2 ^ (M.wordBits - 1) → pool.Clear m bit n
  inGranule : n < 2 ^ (M.wordBits - 1) → bit + n ≤ granuleEnd pool.numPages
  aligned : aligned = true → n ∣ pool.base / M.pageSize + bit

theorem pageNumber_lt (pool : PagePool M) {bit : Nat} (hbit : bit < pool.numPages) :
    pool.base / M.pageSize + bit < M.pageCount := by
  have hfits := pool.fits
  obtain ⟨k, hk⟩ := pool.aligned
  rw [hk, M.wordCount_eq, Nat.mul_comm M.pageSize k, ← Nat.add_mul] at hfits
  have hle := Nat.le_of_mul_le_mul_right hfits M.pageSize_pos
  rw [hk, Nat.mul_div_cancel_left _ M.pageSize_pos]
  omega

theorem allocPass_takes {m : Store} {pool : PagePool M} {n start fuel curr bit : Nat}
    {aligned : Bool} (hn : 1 ≤ n) (hword : n < M.wordCount)
    (hstart : aligned = true → start = pool.base / M.pageSize % n)
    (h : pool.allocPass m n aligned start fuel curr = some (some bit)) :
    pool.free ≠ 0 ∧ pool.Takes m n aligned bit := by
  induction fuel generalizing curr with
  | zero => cases h
  | succ fuel ih =>
      rw [allocPass] at h
      by_cases hfree : pool.free = 0
      · rw [if_pos hfree] at h
        cases h
      · rw [if_neg hfree] at h
        cases hfind : bitmapFindConsec M m pool.bitmap pool.numPages curr n false with
        | none => rw [hfind] at h; cases h
        | some i =>
            rw [hfind] at h
            simp only at h
            by_cases hagain : aligned && (i + start) % M.wordCount % n != 0
            · rw [if_pos hagain] at h
              exact ih h
            · rw [if_neg hagain] at h
              obtain rfl := Option.some.inj (Option.some.inj h)
              obtain ⟨-, hin, hfirst, hrun⟩ := bitmapFindConsec_some M hn hword
                (Nat.le_of_lt pool.numPages_lt) hfind
              refine ⟨hfree, hin, hfirst, fun hs => (hrun hs).1, fun hs => (hrun hs).2, fun hal => ?_⟩
              have hsum : (i + start) % M.wordCount % n = 0 := by
                simpa [hal] using hagain
              have hpage := pool.pageNumber_lt hin
              have hle := M.four_pageCount_le_wordCount
              have hmod := Nat.mod_le (pool.base / M.pageSize) n
              have hnowrap : i + pool.base / M.pageSize % n < M.wordCount := by omega
              rw [hstart hal, Nat.mod_eq_of_lt hnowrap, Nat.add_comm, Nat.mod_add_mod] at hsum
              exact Nat.dvd_of_mod_eq_zero hsum

/-- **What `pp_alloc` does.**  It takes no pages for an empty request, or it
takes a run that can be taken, or it fails and changes nothing. -/
theorem ppAlloc_cases {m m' : Store} {pool pool' : PagePool M} {n : Nat} {aligned ok : Bool}
    {out out' : Ppages} (hword : n < M.wordCount)
    (h : pool.ppAlloc m n aligned out = some (ok, out', m', pool')) :
    (n = 0 ∧ ok = true ∧ out'.numPages = 0 ∧ m' = m ∧ pool' = pool) ∨
    (1 ≤ n ∧ ∃ bit, pool.free ≠ 0 ∧ pool.Takes m n aligned bit ∧
      (ok, out', m', pool') = pool.take m n bit) ∨
    (1 ≤ n ∧ ok = false ∧ out'.numPages = 0 ∧ m' = m ∧ pool' = pool) := by
  rw [ppAlloc] at h
  by_cases hzero : n = 0
  · rw [if_pos hzero] at h
    obtain ⟨rfl, rfl, rfl, rfl⟩ : true = ok ∧ _ = out' ∧ m = m' ∧ pool = pool' := by
      simpa using h
    exact .inl ⟨hzero, rfl, rfl, rfl, rfl⟩
  · have hn : 1 ≤ n := by omega
    rw [if_neg hzero] at h
    simp only at h
    have hstart : aligned = true →
        (if aligned then pool.base / M.pageSize % n else 0) = pool.base / M.pageSize % n :=
      fun hal => if_pos hal
    split at h
    · cases h
    · next bit hpass =>
        obtain ⟨hfree, htakes⟩ := allocPass_takes hn hword hstart hpass
        exact .inr (.inl ⟨hn, bit, hfree, htakes, (Option.some.inj h).symm⟩)
    · split at h
      · cases h
      · next bit hpass =>
          obtain ⟨hfree, htakes⟩ := allocPass_takes hn hword hstart hpass
          exact .inr (.inl ⟨hn, bit, hfree, htakes, (Option.some.inj h).symm⟩)
      · obtain ⟨rfl, rfl, rfl, rfl⟩ : false = ok ∧ _ = out' ∧ m = m' ∧ pool = pool' := by
          simpa using h
        exact .inr (.inr ⟨hn, rfl, rfl, rfl, rfl⟩)

/-! ## What a reservation takes -/

theorem bytes_lt {n : Nat} (h : n < M.pageCount) : n * M.pageSize < M.wordCount := by
  rw [M.wordCount_eq]
  exact Nat.mul_lt_mul_of_pos_right h M.pageSize_pos

theorem memPpagesInPool_iff (pool : PagePool M) {p : Ppages} (hp : p.Fits M) :
    pool.memPpagesInPool p = true ↔
      pool.base ≤ p.base ∧
        p.base + p.numPages * M.pageSize ≤ pool.base + pool.numPages * M.pageSize := by
  have hlt := bytes_lt hp.1
  have hpool := bytes_lt pool.numPages_lt
  rw [memPpagesInPool, Nat.mod_eq_of_lt hlt]
  exact M.rangeInRange_iff hp.2 hlt pool.fits hpool
    (Nat.dvd_add pool.aligned (Nat.dvd_mul_left _ _))

theorem pageoff_add_le {pool : PagePool M} {p : Ppages} (hpos : 1 ≤ p.numPages)
    (hlo : pool.base ≤ p.base)
    (hhi : p.base + p.numPages * M.pageSize ≤ pool.base + pool.numPages * M.pageSize) :
    pool.pageoff p + p.numPages ≤ pool.numPages := by
  have hpool := bytes_lt pool.numPages_lt
  have hpage := M.pageSize_pos
  have hone : M.pageSize ≤ p.numPages * M.pageSize := Nat.le_mul_of_pos_left _ hpos
  rw [pageoff, M.numPages_eq (by omega), ← Nat.add_mul_div_right _ _ hpage]
  apply Nat.lt_succ_iff.mp
  rw [Nat.div_lt_iff_lt_mul hpage, Nat.succ_mul]
  omega

theorem base_add_pageoff {pool : PagePool M} {p : Ppages} (hpos : 1 ≤ p.numPages)
    (hlo : pool.base ≤ p.base)
    (hhi : p.base + p.numPages * M.pageSize ≤ pool.base + pool.numPages * M.pageSize)
    (haligned : M.pageSize ∣ p.base) :
    pool.base + pool.pageoff p * M.pageSize = p.base := by
  have hpool := bytes_lt pool.numPages_lt
  have hone : M.pageSize ≤ p.numPages * M.pageSize := Nat.le_mul_of_pos_left _ hpos
  have hpage := M.pageSize_pos
  have hdvd : M.pageSize ∣ p.base - pool.base := Nat.dvd_sub haligned pool.aligned
  rw [pageoff, Machine.numPages, M.align_of_dvd hdvd (by omega), Nat.div_mul_cancel hdvd]
  omega

theorem memArePpagesReservedInPool_iff {m : Store} {pool : PagePool M} {p : Ppages}
    (hpos : 1 ≤ p.numPages) (hin : pool.memPpagesInPool p = true)
    (hoff : pool.pageoff p + p.numPages ≤ pool.numPages) :
    pool.memArePpagesReservedInPool m p = false ↔ pool.Clear m (pool.pageoff p) p.numPages := by
  have hstart : pool.pageoff p < pool.numPages := by omega
  have hcount := bitmapCountConsecutive_spec m pool.bitmap hstart hpos
  rw [memArePpagesReservedInPool, if_pos hin]
  simp only [bitmapGet_eq, Bool.or_eq_false_iff, decide_eq_false_iff_not, Nat.not_lt]
  constructor
  · rintro ⟨hclear, hlong⟩
    have huniform := hcount.uniform.mono hlong
    rwa [hclear] at huniform
  · intro hclear
    have hfirst : m (pool.bitmap + pool.pageoff p) = false := hclear 0 (by omega)
    refine ⟨hfirst, Nat.le_of_not_lt (fun hshort => ?_)⟩
    rcases hcount.stop hshort with hend | hother
    · omega
    · refine hother ?_
      rw [hfirst, ← Nat.add_assoc]
      exact hclear _ hshort

/-- **What `mem_reserve_ppool_ppages` does** for a nonempty range: it takes
exactly the pages of the range, all free, or it changes nothing. -/
theorem memReservePpoolPpages_cases {m m' : Store} {pool pool' : PagePool M} {p : Ppages}
    {ok : Bool} (hp : p.Fits M) (hpos : 1 ≤ p.numPages)
    (h : pool.memReservePpoolPpages m p = (ok, m', pool')) :
    (ok = true ∧ pool.base ≤ p.base ∧
      p.base + p.numPages * M.pageSize ≤ pool.base + pool.numPages * M.pageSize ∧
      pool.Clear m (pool.pageoff p) p.numPages ∧
      m' = fill m true (pool.bitmap + pool.pageoff p) p.numPages ∧
      pool' = { pool with free := (pool.free + (M.wordCount - p.numPages)) % M.wordCount }) ∨
    (ok = false ∧ m' = m ∧ pool' = pool) := by
  rw [memReservePpoolPpages] at h
  by_cases hgo : pool.memPpagesInPool p && !pool.memArePpagesReservedInPool m p
  · rw [if_pos hgo, bitmapSetConsecutive_eq _ _ _ hpos] at h
    rw [Bool.and_eq_true, Bool.not_eq_true'] at hgo
    obtain ⟨hlo, hhi⟩ := (pool.memPpagesInPool_iff hp).mp hgo.1
    have hclear := (memArePpagesReservedInPool_iff hpos hgo.1 (pageoff_add_le hpos hlo hhi)).mp hgo.2
    obtain ⟨rfl, rfl, rfl⟩ : true = ok ∧ _ = m' ∧ _ = pool' := by simpa using h
    exact .inl ⟨rfl, hlo, hhi, hclear, rfl, rfl⟩
  · rw [if_neg hgo] at h
    obtain ⟨rfl, rfl, rfl⟩ : false = ok ∧ m = m' ∧ pool = pool' := by simpa using h
    exact .inr ⟨rfl, rfl, rfl⟩

theorem memReservePpoolPpages_of_clear {m : Store} (pool : PagePool M) {p : Ppages}
    (hp : p.Fits M) (hpos : 1 ≤ p.numPages) (hlo : pool.base ≤ p.base)
    (hhi : p.base + p.numPages * M.pageSize ≤ pool.base + pool.numPages * M.pageSize)
    (hclear : pool.Clear m (pool.pageoff p) p.numPages) :
    pool.memReservePpoolPpages m p =
      (true, fill m true (pool.bitmap + pool.pageoff p) p.numPages,
        { pool with free := (pool.free + (M.wordCount - p.numPages)) % M.wordCount }) := by
  have hin := (pool.memPpagesInPool_iff hp).mpr ⟨hlo, hhi⟩
  have hfree := (memArePpagesReservedInPool_iff hpos hin (pageoff_add_le hpos hlo hhi)).mpr hclear
  rw [memReservePpoolPpages, hin, hfree, bitmapSetConsecutive_eq _ _ _ hpos]
  rfl

end PagePool

end Bao

import BaoHypervisor.ColoredPool
import BaoHypervisor.StepSystem

/-!
# The page pools of the system

All pools share the static bitmap pool, from which `pp_bitmap_alloc` cuts
their bitmaps at byte granularity.  The step system below runs the pool
operations in any order; every operation is atomic, as each holds the lock of
its pool.  The results are soundness of `pp_alloc`, with the exact pool and
request sizes for which it holds, and the accounting of `pool->free`.
-/

namespace Bao

open BitMemory

variable {M : Machine}

/-- The bitmap pool and the page pools created so far. -/
structure PoolState (M : Machine) where
  bits : Store
  lastIndex : Nat
  pools : List (PagePool M)

namespace PoolState

/-- `pp_bitmap_alloc`: the bit address of the new bitmap and the next free byte. -/
def ppBitmapAlloc (s : PoolState M) (poolNumPages : Nat) : Option (Nat × Nat) :=
  if poolNumPages ≤ (M.bitmapPoolSize - s.lastIndex) * 8 then
    some (8 * s.lastIndex, s.lastIndex + (poolNumPages / 8 + if poolNumPages % 8 ≠ 0 then 1 else 0))
  else none

/-- `pp_init`, with the pool added to the list. -/
def ppInit (s : PoolState M) (r : MemRegion M) : Option (PoolState M) :=
  match s.ppBitmapAlloc (r.size / M.pageSize) with
  | none => none
  | some (bitmap, lastIndex) =>
      some { s with lastIndex := lastIndex, pools := s.pools ++ [poolOfRegion r bitmap] }

/-- The state after an operation on pool `i`. -/
def setPool (s : PoolState M) (i : Nat) (bits : Store) (pool : PagePool M) : PoolState M :=
  { s with bits := bits, pools := s.pools.set i pool }

/-- `mem_free_ppages` (MMU build). -/
def memFreePpages (s : PoolState M) (fuel : Nat) (ppages : Ppages) : Option (PoolState M) :=
  (s.pools.foldl (fun m pool => m.bind (pool.memFreePpages fuel ppages)) (some s.bits)).map
    (fun m => { s with bits := m })

/-- `mem_free_ppages` (MPU build). -/
def memFreePpagesMpu (s : PoolState M) (ppages : Ppages) : PoolState M :=
  { s with bits := s.pools.foldl (fun m pool => pool.memFreePpagesMpu ppages m) s.bits }

end PoolState

/-- One completed pool operation with its arguments and results. -/
inductive PoolEvent (M : Machine)
  | init (r : MemRegion M)
  | alloc (i n : Nat) (aligned ok : Bool) (ppages : Ppages)
  | allocClr (i n colors : Nat) (ok : Bool) (ppages : Ppages)
  | reserve (i : Nat) (ppages : Ppages) (ok : Bool)
  | free (ppages : Ppages)

/-- The out parameter of an allocation before the call. -/
def noPpages : Ppages := { base := 0, numPages := 0, colors := 0 }

/-- The pool operations.  Arguments are machine words; a call that does not
return makes no step. -/
inductive PoolStep : PoolState M → PoolEvent M → PoolState M → Prop
  | init {s s' : PoolState M} {r : MemRegion M} (h : s.ppInit r = some s') :
      PoolStep s (.init r) s'
  | alloc {s : PoolState M} {i n : Nat} {aligned ok : Bool} {ppages : Ppages} {m : Store}
      {pool pool' : PagePool M} (hpool : s.pools[i]? = some pool) (hn : n < M.wordCount)
      (h : pool.ppAlloc s.bits n aligned noPpages = some (ok, ppages, m, pool')) :
      PoolStep s (.alloc i n aligned ok ppages) (s.setPool i m pool')
  | allocClr {s : PoolState M} {i n colors fuel : Nat} {ok : Bool} {ppages : Ppages} {m : Store}
      {pool pool' : PagePool M} (hpool : s.pools[i]? = some pool) (hn : n < M.wordCount)
      (h : pool.ppAllocClr s.bits n colors fuel noPpages = some (ok, ppages, m, pool')) :
      PoolStep s (.allocClr i n colors ok ppages) (s.setPool i m pool')
  | reserve {s : PoolState M} {i : Nat} {ok : Bool} {ppages : Ppages} {m : Store}
      {pool pool' : PagePool M} (hpool : s.pools[i]? = some pool)
      (h : pool.memReservePpoolPpages s.bits ppages = (ok, m, pool')) :
      PoolStep s (.reserve i ppages ok) (s.setPool i m pool')
  | free {s s' : PoolState M} {fuel : Nat} {ppages : Ppages}
      (h : s.memFreePpages fuel ppages = some s') : PoolStep s (.free ppages) s'
  | freeMpu {s : PoolState M} {ppages : Ppages} :
      PoolStep s (.free ppages) (s.memFreePpagesMpu ppages)

/-- At start there is no pool and the bitmap pool is zero. -/
def PoolState.Initial (s : PoolState M) : Prop :=
  s.lastIndex = 0 ∧ s.pools = [] ∧ ∀ b, b < 8 * M.bitmapPoolSize → s.bits b = false

/-- The system of all pools. -/
def poolSystem (M : Machine) : StepSystem (PoolState M) (PoolEvent M) where
  init := PoolState.Initial
  step := PoolStep

/-! ## Soundness of an allocation -/

/-- The pages of a range: their addresses. -/
def Ppages.Covers (M : Machine) (p : Ppages) (addr : Nat) : Prop :=
  p.base ≤ addr ∧ addr < p.base + p.numPages * M.pageSize

/-- The address of page `i` of a pool. -/
def PagePool.pageAddr (pool : PagePool M) (i : Nat) : Nat := pool.base + i * M.pageSize

/-- A sound allocation of `n` pages: inside the pool, of free pages, setting
their bits and no others, and aligned to its size when asked. -/
structure AllocSound (m m' : Store) (pool : PagePool M) (n : Nat) (aligned : Bool)
    (out : Ppages) : Prop where
  numPages : out.numPages = n
  inside : pool.base ≤ out.base ∧
    out.base + n * M.pageSize ≤ pool.base + pool.numPages * M.pageSize
  wasFree : ∀ i, out.Covers M (pool.pageAddr i) → m (pool.bitmap + i) = false
  isSet : ∀ i, out.Covers M (pool.pageAddr i) → m' (pool.bitmap + i) = true
  others : ∀ b, (∀ i, out.Covers M (pool.pageAddr i) → b ≠ pool.bitmap + i) → m' b = m b
  aligned : aligned = true → n ∣ out.base / M.pageSize

/-- The pages covered by an allocation at index `bit`. -/
theorem covers_pageAddr_iff {pool : PagePool M} {n bit i colors : Nat} :
    Ppages.Covers M { base := pool.base + bit * M.pageSize, numPages := n, colors := colors }
      (pool.pageAddr i) ↔ bit ≤ i ∧ i < bit + n := by
  have hpage := M.pageSize_pos
  have hlo : bit * M.pageSize ≤ i * M.pageSize ↔ bit ≤ i :=
    ⟨fun h => Nat.le_of_mul_le_mul_right h hpage, fun h => Nat.mul_le_mul_right _ h⟩
  have hhi : i * M.pageSize < (bit + n) * M.pageSize ↔ i < bit + n :=
    ⟨fun h => Nat.lt_of_mul_lt_mul_right h, fun h => Nat.mul_lt_mul_of_pos_right h hpage⟩
  rw [Nat.add_mul] at hhi
  unfold Ppages.Covers PagePool.pageAddr
  simp only
  omega

/-- Every run of bits that `pp_alloc` accepts for the request ends inside the pool. -/
def AllocInside (m : Store) (pool : PagePool M) (n : Nat) (aligned : Bool) : Prop :=
  ∀ bit, pool.Takes m n aligned bit → bit + n ≤ pool.numPages

theorem take_sound {m : Store} {pool : PagePool M} {n bit : Nat} {aligned : Bool}
    (hn : 1 ≤ n) (htakes : pool.Takes m n aligned bit) (hin : bit + n ≤ pool.numPages) :
    AllocSound m (pool.take m n bit).2.2.1 pool n aligned (pool.take m n bit).2.1 := by
  have hpages := pool.numPages_lt
  have hsign := M.two_pageCount_le_signBit
  have hclear := htakes.clear (by omega)
  have hset : (pool.take m n bit).2.2.1 = fill m true (pool.bitmap + bit) n :=
    bitmapSetConsecutive_eq m pool.bitmap bit hn
  rw [hset]
  refine ⟨rfl, ⟨Nat.le_add_right _ _, ?_⟩, fun i hi => ?_, fun i hi => ?_, fun b hb => ?_,
    fun hal => ?_⟩
  · have hmul : (bit + n) * M.pageSize ≤ pool.numPages * M.pageSize :=
      Nat.mul_le_mul_right _ hin
    rw [Nat.add_mul] at hmul
    simp only [PagePool.take]
    omega
  · obtain ⟨h1, h2⟩ := covers_pageAddr_iff.mp hi
    have := hclear (i - bit) (by omega)
    rwa [show pool.bitmap + bit + (i - bit) = pool.bitmap + i by omega] at this
  · obtain ⟨h1, h2⟩ := covers_pageAddr_iff.mp hi
    exact fill_inside (by omega) (by omega)
  · refine fill_other ?_
    by_cases hlo : pool.bitmap + bit ≤ b
    · by_cases hhi : b < pool.bitmap + bit + n
      · refine (hb (b - pool.bitmap) (covers_pageAddr_iff.mpr ⟨by omega, by omega⟩) ?_).elim
        omega
      · omega
    · omega
  · have hpage := M.pageSize_pos
    simp only [PagePool.take]
    rw [Nat.add_mul_div_right _ _ hpage]
    exact htakes.aligned hal

/-- Sizes for which no accepted run can leave the pool. -/
def AllocSizesOk (M : Machine) (numPages n : Nat) : Prop :=
  numPages = 0 ∨
    (n < 2 ^ (M.wordBits - 1) ∧ (32 ∣ numPages ∨ n = 1 ∨ granuleEnd numPages < n))

theorem AllocSizesOk.allocInside {m : Store} {pool : PagePool M} {n : Nat} {aligned : Bool}
    (h : AllocSizesOk M pool.numPages n) : AllocInside m pool n aligned := by
  intro bit htakes
  have hin := htakes.inPool
  rcases h with hzero | ⟨hsmall, hsizes⟩
  · omega
  · have hgranule := htakes.inGranule hsmall
    rcases hsizes with hdvd | hone | hlarge
    · have hend : granuleEnd pool.numPages = pool.numPages := by
        unfold granuleEnd
        omega
      omega
    · omega
    · omega

/-! ## Overrunning allocations -/

/-- Events of the plain allocator: pools are created, and pages are allocated
without colours, reserved and freed. -/
def PoolEvent.Plain : PoolEvent M → Prop
  | .allocClr .. => False
  | _ => True

/-- The region of the first `n` pages of the address space. -/
def lowRegion (M : Machine) {n : Nat} (hn : n < M.pageCount) : MemRegion M where
  base := 0
  size := n * M.pageSize
  base_aligned := Nat.dvd_zero _
  size_aligned := Nat.dvd_mul_left _ _
  size_lt := PagePool.bytes_lt hn
  fits := by have := PagePool.bytes_lt hn; omega

/-- The zeroed bitmap pool without page pools. -/
def emptyPools (M : Machine) : PoolState M where
  bits := fun _ => false
  lastIndex := 0
  pools := []

/-- The pool of the first `n` pages with `taken` of them taken. -/
def lowPool (M : Machine) {n : Nat} (hn : n < M.pageCount) (taken : Nat) : PagePool M :=
  { poolOfRegion (lowRegion M hn) 0 with free := n - taken }

@[simp] theorem lowPool_numPages {n : Nat} (hn : n < M.pageCount) (taken : Nat) :
    (lowPool M hn taken).numPages = n :=
  Nat.mul_div_cancel n M.pageSize_pos

theorem ppInit_low {n : Nat} (hn : n < M.pageCount) (hroom : n ≤ 8 * M.bitmapPoolSize) :
    ∃ last, (emptyPools M).ppInit (lowRegion M hn) =
      some { emptyPools M with lastIndex := last, pools := [lowPool M hn 0] } := by
  have hpages : (lowRegion M hn).size / M.pageSize = n := Nat.mul_div_cancel n M.pageSize_pos
  have hpool : poolOfRegion (lowRegion M hn) 0 = lowPool M hn 0 := by
    simp only [lowPool, poolOfRegion, hpages, Nat.sub_zero]
  refine ⟨0 + (n / 8 + if n % 8 ≠ 0 then 1 else 0), ?_⟩
  rw [PoolState.ppInit, hpages, PoolState.ppBitmapAlloc, if_pos (by simp only [emptyPools]; omega)]
  simp only [emptyPools, Nat.mul_zero, hpool, List.nil_append]

/-- A state with the first `taken` pages of a low pool reserved is reachable. -/
theorem reach_lowPool {n taken : Nat} (hn : n < M.pageCount) (hroom : n ≤ 8 * M.bitmapPoolSize)
    (htaken : taken < n) :
    ∃ s : PoolState M, (poolSystem M).Reach (fun _ e => e.Plain) s ∧
      s.pools = [lowPool M hn taken] ∧ s.bits = fill (fun _ => false) true 0 taken := by
  have hinit : (poolSystem M).Reach (fun _ e => e.Plain) (emptyPools M) :=
    .init ⟨rfl, rfl, fun _ _ => rfl⟩
  obtain ⟨last, hcreate⟩ := ppInit_low hn hroom
  have hcreated := StepSystem.Reach.step (e := PoolEvent.init (lowRegion M hn)) hinit
    (show PoolEvent.Plain _ from trivial) (PoolStep.init hcreate)
  rcases Nat.eq_zero_or_pos taken with rfl | hpos
  · exact ⟨_, hcreated, rfl, (fill_zero _ _ _).symm⟩
  · -- the pages below `taken` are all free and get reserved
    have hword := PagePool.bytes_lt (M := M) (n := taken) (by omega)
    have hbase : (lowPool M hn 0).base = 0 := rfl
    have hmul : taken * M.pageSize ≤ n * M.pageSize := Nat.mul_le_mul_right _ (by omega)
    have hoff : (lowPool M hn 0).pageoff ⟨0, taken, 0⟩ = 0 := by
      simpa [PagePool.pageoff] using M.numPages_mul (k := 0) (by omega)
    have hres := (lowPool M hn 0).memReservePpoolPpages_of_clear (m := fun _ => false)
      (p := ⟨0, taken, 0⟩) ⟨by simp only; omega, by simp only; omega⟩ hpos
      (Nat.le_refl 0) (by simp only [lowPool_numPages, hbase]; omega) (fun _ _ => rfl)
    have hfree : (n + (M.wordCount - taken)) % M.wordCount = n - taken := by
      have hcount := M.four_pageCount_le_wordCount
      rw [show n + (M.wordCount - taken) = n - taken + M.wordCount by omega, Nat.add_mod_right,
        Nat.mod_eq_of_lt (by omega)]
    refine ⟨_, .step (e := .reserve 0 ⟨0, taken, 0⟩ true) hcreated trivial
      (PoolStep.reserve rfl hres), ?_, ?_⟩
    · simp only [PoolState.setPool, List.set_cons_zero, lowPool, Nat.sub_zero, hfree]
    · simp only [PoolState.setPool, hoff]
      rfl

theorem exists_overrun {n k : Nat} (taken : Nat) (hn : n < M.pageCount)
    (hroom : n ≤ 8 * M.bitmapPoolSize) (hk : 1 ≤ k) (hword : k < M.wordCount)
    (htaken : taken < n) (hover : n < taken + k)
    (hend : k < 2 ^ (M.wordBits - 1) → taken + k ≤ granuleEnd n) :
    ∃ (s : PoolState M) (m : Store) (pool : PagePool M),
      (poolSystem M).Reach (fun _ e => e.Plain) s ∧
      s.pools[0]? = some (lowPool M hn taken) ∧
      (lowPool M hn taken).ppAlloc s.bits k false noPpages =
        some (true, ⟨taken * M.pageSize, k, 0⟩, m, pool) ∧
      ¬ AllocSound s.bits m (lowPool M hn taken) k false ⟨taken * M.pageSize, k, 0⟩ := by
  obtain ⟨s, hreach, hpools, hbits⟩ := reach_lowPool hn hroom htaken
  have hfirst : bitmapFindNth s.bits 0 n 1 0 false = some taken := by
    refine bitmapFindNth_one_eq (Nat.zero_le _) htaken ?_ (fun j _ hj => ?_)
    · rw [hbits, fill_other (by omega)]
    · rw [hbits, fill_inside (by omega) (by omega)]
      exact Bool.noConfusion
  have hlong : ¬ M.ssize (bitmapCountConsecutive s.bits 0 n taken k) < M.ssize k := by
    rw [count_short_iff M (Nat.le_of_lt hn) htaken hk hword]
    rintro ⟨hshort, hsmall⟩
    have hclear : ∀ b, taken ≤ b → s.bits b = false := fun b hb => by
      rw [hbits, fill_other (by omega)]
    have hspec := bitmapCountConsecutive_spec s.bits 0 htaken hk
    have hroom := hend hsmall
    have := hspec.toEnd (fun j _ => by rw [hclear _ (by omega), hclear _ (by omega)]) (by omega)
    omega
  have hfind := bitmapFindConsec_first M hfirst hlong
  have hfree : (lowPool M hn taken).free ≠ 0 := by
    simp only [lowPool]
    omega
  have hpass : (lowPool M hn taken).allocPass s.bits k false 0
      ((lowPool M hn taken).numPages + 1) 0 = some (some taken) := by
    rw [PagePool.allocPass, if_neg hfree, lowPool_numPages]
    simp only [lowPool, poolOfRegion, hfind, Bool.false_and, Bool.false_eq_true, if_false]
  have hbase : (lowPool M hn taken).base + taken * M.pageSize = taken * M.pageSize :=
    Nat.zero_add _
  refine ⟨s, ((lowPool M hn taken).take s.bits k taken).2.2.1,
    ((lowPool M hn taken).take s.bits k taken).2.2.2, hreach, by rw [hpools]; rfl, ?_,
    fun hsound => ?_⟩
  · rw [PagePool.ppAlloc, if_neg (by omega)]
    simp only [Bool.false_eq_true, if_false]
    have hlast : (lowPool M hn taken).last = 0 := rfl
    rw [hlast, hpass]
    simp only [PagePool.take, hbase]
  · have hin := hsound.inside.2
    simp only [lowPool_numPages] at hin
    have hbase0 : (lowPool M hn taken).base = 0 := rfl
    rw [hbase0, Nat.zero_add, ← Nat.add_mul] at hin
    have := Nat.le_of_mul_le_mul_right hin M.pageSize_pos
    omega

/-- In every reachable state every successful request of `n` pages to a pool
of `numPages` pages is sound. -/
def AllocAlwaysSound (M : Machine) (numPages n : Nat) : Prop :=
  ∀ (s : PoolState M) (i : Nat) (pool : PagePool M) (aligned : Bool) (out : Ppages)
    (m : Store) (pool' : PagePool M),
    (poolSystem M).Reach (fun _ e => e.Plain) s → s.pools[i]? = some pool →
    pool.numPages = numPages →
    pool.ppAlloc s.bits n aligned noPpages = some (true, out, m, pool') →
    AllocSound s.bits m pool n aligned out

/-- **Soundness of `pp_alloc`.**  All allocations of `n` pages from a pool of
`numPages` pages are sound exactly when the sizes leave no room for a run
over the end of the pool. -/
theorem ppAlloc_sound_iff {numPages n : Nat} (hpages : numPages < M.pageCount)
    (hroom : numPages ≤ 8 * M.bitmapPoolSize) (hn : 1 ≤ n) (hword : n < M.wordCount) :
    AllocAlwaysSound M numPages n ↔ AllocSizesOk M numPages n := by
  constructor
  · intro hsound
    by_cases hok : AllocSizesOk M numPages n
    · exact hok
    · -- start the run as low as the granule allows, but below the last page
      have hnot := hok
      unfold AllocSizesOk at hnot
      have hend := le_granuleEnd numPages
      have hround := granuleEnd_le numPages
      have hsign := M.two_pageCount_le_signBit
      have hcount := M.sixtyFour_le_pageCount
      obtain ⟨s, m, pool', hreach, hpool, halloc, hbad⟩ :=
        exists_overrun (min (numPages - 1) (granuleEnd numPages - n)) hpages hroom hn hword
          (by omega) (by unfold granuleEnd at *; omega) (fun _ => by unfold granuleEnd at *; omega)
      exact (hbad (hsound s 0 _ false _ m pool' hreach hpool (lowPool_numPages hpages _)
        halloc)).elim
  · rintro hok s i pool aligned out m pool' - - rfl halloc
    rcases PagePool.ppAlloc_cases hword halloc with ⟨h0, -⟩ | ⟨-, bit, -, htakes, heq⟩ | ⟨-, h, -⟩
    · omega
    · have hsound := take_sound hn htakes (hok.allocInside bit htakes)
      rw [← heq] at hsound
      exact hsound
    · cases h

/-- The sizes decide for a pool of 64 pages and for one of 33 pages. -/
theorem ppAlloc_sound_iff_instances :
    (AllocAlwaysSound Machine.mmu64 64 2 ↔ AllocSizesOk Machine.mmu64 64 2) ∧
      (AllocAlwaysSound Machine.mmu64 33 2 ↔ AllocSizesOk Machine.mmu64 33 2) :=
  ⟨ppAlloc_sound_iff (by decide) (by decide) (by decide) (by decide),
    ppAlloc_sound_iff (by decide) (by decide) (by decide) (by decide)⟩

/-- On a pool of 33 pages a request for two pages is answered with the last
page and one past the end. -/
theorem ppAlloc_overruns_33 :
    ∃ (s : PoolState Machine.mmu64) (m : Store) (pool pool' : PagePool Machine.mmu64),
      (poolSystem Machine.mmu64).Reach (fun _ e => e.Plain) s ∧
      s.pools[0]? = some pool ∧ pool.numPages = 33 ∧
      pool.ppAlloc s.bits 2 false noPpages = some (true, ⟨32 * 4096, 2, 0⟩, m, pool') ∧
      ¬ AllocSound s.bits m pool 2 false ⟨32 * 4096, 2, 0⟩ := by
  obtain ⟨s, m, pool', hreach, hpool, halloc, hbad⟩ :=
    exists_overrun (M := Machine.mmu64) (n := 33) (k := 2) 32 (by decide) (by decide)
      (by decide) (by decide) (by decide) (by decide) (fun _ => by decide)
  exact ⟨s, m, _, pool', hreach, hpool, lowPool_numPages _ _, halloc, hbad⟩

/-! ## The free counter -/

/-- An operation on one pool keeps to the bits of the pool, and keeps the
counter right if it was. -/
structure PoolChange (m m' : Store) (pool pool' : PagePool M) : Prop where
  numPages : pool'.numPages = pool.numPages
  bitmap : pool'.bitmap = pool.bitmap
  outside : ∀ b, b < pool.bitmap ∨ pool.bitmap + pool.numPages ≤ b → m' b = m b
  counted : pool.free = countBits m false pool.bitmap pool.numPages →
    pool'.free = countBits m' false pool.bitmap pool.numPages

theorem PoolChange.refl (m : Store) (pool : PagePool M) : PoolChange m m pool pool :=
  ⟨rfl, rfl, fun _ _ => rfl, id⟩

theorem sub_free {free n : Nat} (hle : n ≤ free) (hlt : free < M.pageCount) :
    (free + (M.wordCount - n)) % M.wordCount = free - n := by
  have hcount := M.four_pageCount_le_wordCount
  rw [show free + (M.wordCount - n) = free - n + M.wordCount by omega, Nat.add_mod_right,
    Nat.mod_eq_of_lt (by omega)]

theorem poolChange_fill {m : Store} {pool pool' : PagePool M} {i n : Nat}
    (hin : i + n ≤ pool.numPages) (hclear : pool.Clear m i n)
    (hpages : pool'.numPages = pool.numPages) (hbitmap : pool'.bitmap = pool.bitmap)
    (hfree : pool'.free = (pool.free + (M.wordCount - n)) % M.wordCount) :
    PoolChange m (fill m true (pool.bitmap + i) n) pool pool' := by
  refine ⟨hpages, hbitmap, fun b hb => fill_other (by omega), fun hcounted => ?_⟩
  have hfill := countBits_fill (n := pool.numPages) hin hclear
  rw [Bool.not_false] at hfill
  have hle := countBits_le m false pool.bitmap pool.numPages
  have hlt := pool.numPages_lt
  rw [hfree, sub_free (by omega) (by omega)]
  omega

theorem PagePool.TakesClr.poolChange {m m' : Store} {pool pool' : PagePool M} {n colors : Nat}
    {out : Ppages} {l : List Nat} (h : pool.TakesClr m m' pool' n colors out l) :
    PoolChange m m' pool pool' := by
  obtain ⟨last, rfl⟩ := h.pool_eq
  rw [h.bits]
  refine ⟨rfl, rfl, fun b hb => fillAt_other (fun i hi => ?_), fun hcounted => ?_⟩
  · have := (h.pages.free i hi).1
    omega
  · have hfill := countBits_fillAt h.pages.increasing h.pages.free
    rw [Bool.not_false, h.length] at hfill
    have hle := countBits_le m false pool.bitmap pool.numPages
    have hlt := pool.numPages_lt
    simp only
    rw [sub_free (by omega) (by omega)]
    omega

/-- Bitmaps of different pools do not share bits, bits of no pool are clear,
and every pool counts its clear bits. -/
structure Accounts (s : PoolState M) : Prop where
  inUse : ∀ (i : Nat) (pool : PagePool M), s.pools[i]? = some pool →
    pool.bitmap + pool.numPages ≤ 8 * s.lastIndex
  room : s.lastIndex ≤ M.bitmapPoolSize
  disjoint : ∀ (i j : Nat) (p q : PagePool M), s.pools[i]? = some p → s.pools[j]? = some q → i < j →
    p.bitmap + p.numPages ≤ q.bitmap
  unused : ∀ b, 8 * s.lastIndex ≤ b → b < 8 * M.bitmapPoolSize → s.bits b = false
  counted : ∀ (i : Nat) (pool : PagePool M), s.pools[i]? = some pool →
    pool.free = countBits s.bits false pool.bitmap pool.numPages

theorem Accounts.initial {s : PoolState M} (h : s.Initial) : Accounts s := by
  obtain ⟨hlast, hpools, hzero⟩ := h
  refine ⟨fun i p hp => ?_, by omega, fun i j p q hp => ?_, fun b _ hb => hzero b hb,
    fun i p hp => ?_⟩
  all_goals simp [hpools] at hp

theorem Accounts.setPool {s : PoolState M} (h : Accounts s) {i : Nat} {pool pool' : PagePool M}
    {m' : Store} (hpool : s.pools[i]? = some pool) (hchange : PoolChange s.bits m' pool pool') :
    Accounts (s.setPool i m' pool') := by
  obtain ⟨hpages, hbitmap, houtside, hcounted⟩ := hchange
  have hlt : i < s.pools.length := (List.getElem?_eq_some_iff.mp hpool).1
  -- a pool of the new state is the changed one or an old one at another index
  have hcases : ∀ j q, (s.setPool i m' pool').pools[j]? = some q →
      (j = i ∧ q = pool') ∨ (j ≠ i ∧ s.pools[j]? = some q) := by
    intro j q hq
    rw [PoolState.setPool, List.getElem?_set] at hq
    by_cases hj : i = j
    · rw [if_pos hj, if_pos hlt] at hq
      exact .inl ⟨hj.symm, (Option.some.inj hq).symm⟩
    · rw [if_neg hj] at hq
      exact .inr ⟨fun heq => hj heq.symm, hq⟩
  have huse := h.inUse i pool hpool
  refine ⟨fun j q hq => ?_, h.room, fun j k p q hp hq hjk => ?_, fun b hb hb' => ?_,
    fun j q hq => ?_⟩
  · rcases hcases j q hq with ⟨rfl, rfl⟩ | ⟨-, hq⟩
    · rw [hpages, hbitmap]
      exact huse
    · exact h.inUse j q hq
  · rcases hcases j p hp with ⟨rfl, rfl⟩ | ⟨hj, hp'⟩
    · rcases hcases k q hq with ⟨rfl, rfl⟩ | ⟨hk, hq⟩
      · omega
      · rw [hpages, hbitmap]
        exact h.disjoint _ _ _ _ hpool hq hjk
    · rcases hcases k q hq with ⟨rfl, rfl⟩ | ⟨hk, hq⟩
      · rw [hbitmap]
        exact h.disjoint _ _ _ _ hp' hpool hjk
      · exact h.disjoint _ _ _ _ hp' hq hjk
  · have hout := houtside b (.inr (Nat.le_trans huse hb))
    exact hout.trans (h.unused b hb hb')
  · rcases hcases j q hq with ⟨rfl, rfl⟩ | ⟨hj, hq⟩
    · rw [hpages, hbitmap]
      exact hcounted (h.counted _ _ hpool)
    · rw [h.counted j q hq]
      refine (countBits_congr (fun k hk => houtside _ ?_)).symm
      rcases Nat.lt_or_gt_of_ne hj with hlt | hgt
      · have := h.disjoint _ _ _ _ hq hpool hlt
        omega
      · have := h.disjoint _ _ _ _ hpool hq hgt
        omega

theorem Accounts.ppInit {s s' : PoolState M} (h : Accounts s) {r : MemRegion M}
    (hinit : s.ppInit r = some s') : Accounts s' := by
  rw [PoolState.ppInit, PoolState.ppBitmapAlloc] at hinit
  have hroom := h.room
  by_cases hfits : r.size / M.pageSize ≤ (M.bitmapPoolSize - s.lastIndex) * 8
  · rw [if_pos hfits] at hinit
    obtain rfl := Option.some.inj hinit
    have hcases : ∀ j q, (s.pools ++ [poolOfRegion r (8 * s.lastIndex)])[j]? = some q →
        s.pools[j]? = some q ∨ (j = s.pools.length ∧ q = poolOfRegion r (8 * s.lastIndex)) := by
      intro j q hq
      rw [List.getElem?_append] at hq
      by_cases hj : j < s.pools.length
      · rw [if_pos hj] at hq
        exact .inl hq
      · rw [if_neg hj] at hq
        obtain ⟨hlt, heq⟩ := List.getElem?_eq_some_iff.mp hq
        have hzero : j - s.pools.length = 0 := by simpa using hlt
        simp only [hzero, List.getElem_cons_zero] at heq
        exact .inr ⟨by omega, heq.symm⟩
    have hlen : ∀ {j q}, s.pools[j]? = some q → j < s.pools.length :=
      fun hq => (List.getElem?_eq_some_iff.mp hq).1
    have hbytes : r.size / M.pageSize ≤ 8 * (r.size / M.pageSize / 8 +
        if r.size / M.pageSize % 8 ≠ 0 then 1 else 0) := by split <;> omega
    have hbytes' : r.size / M.pageSize / 8 + (if r.size / M.pageSize % 8 ≠ 0 then 1 else 0) ≤
        M.bitmapPoolSize - s.lastIndex := by split <;> omega
    have hnew : (poolOfRegion r (8 * s.lastIndex)).numPages = r.size / M.pageSize := rfl
    have hnewmap : (poolOfRegion r (8 * s.lastIndex)).bitmap = 8 * s.lastIndex := rfl
    refine ⟨fun j q hq => ?_, ?_, fun j k p q hp hq hjk => ?_, fun b hb hb' => ?_,
      fun j q hq => ?_⟩
    · rcases hcases j q hq with hq | ⟨-, rfl⟩
      · have := h.inUse j q hq
        simp only
        omega
      · simp only [hnew, hnewmap]
        omega
    · simp only
      omega
    · rcases hcases j p hp with hp | ⟨rfl, rfl⟩
      · rcases hcases k q hq with hq | ⟨-, rfl⟩
        · exact h.disjoint _ _ _ _ hp hq hjk
        · rw [hnewmap]
          exact h.inUse j p hp
      · rcases hcases k q hq with hq | ⟨rfl, -⟩
        · have := hlen hq
          omega
        · omega
    · simp only at hb
      exact h.unused b (by omega) hb'
    · rcases hcases j q hq with hq | ⟨-, rfl⟩
      · exact h.counted j q hq
      · have hall := countBits_add_countBits_not s.bits false (8 * s.lastIndex)
          (r.size / M.pageSize)
        have hnone : countBits s.bits true (8 * s.lastIndex) (r.size / M.pageSize) = 0 := by
          rcases Nat.eq_zero_or_pos (countBits s.bits true (8 * s.lastIndex)
            (r.size / M.pageSize)) with hz | hpos
          · exact hz
          · obtain ⟨i, hi, hset⟩ := exists_of_countBits_pos hpos
            rw [h.unused _ (by omega) (by omega)] at hset
            cases hset
        rw [Bool.not_false, hnone, Nat.add_zero] at hall
        exact hall.symm
  · rw [if_neg hfits] at hinit
    cases hinit

/-- A step after which the counters are still right: an allocation finds no
run over the end of its pool, a reservation is of a nonempty range, and no
page of a pool is freed. -/
def AccountingOk (s : PoolState M) : PoolEvent M → Prop
  | .init _ => True
  | .alloc i n aligned _ _ => ∀ pool, s.pools[i]? = some pool → AllocInside s.bits pool n aligned
  | .allocClr .. => True
  | .reserve _ ppages _ => ppages.Fits M ∧ 1 ≤ ppages.numPages
  | .free ppages => ppages.numPages = 0 ∨
      ∀ pool ∈ s.pools, M.inRange ppages.base pool.base (pool.numPages * M.pageSize) = false

theorem foldl_bind_same {α β : Type} {f : β → α → Option α} {l : List β}
    (hsame : ∀ p ∈ l, ∀ m, f p m = some m) (m : α) :
    l.foldl (fun m p => m.bind (f p)) (some m) = some m := by
  induction l with
  | nil => rfl
  | cons p rest ih =>
      rw [List.foldl_cons, Option.bind_some, hsame p List.mem_cons_self]
      exact ih fun q hq => hsame q (List.mem_cons_of_mem p hq)

theorem memFreePpages_none {s s' : PoolState M} {fuel : Nat} {ppages : Ppages}
    (hnone : ppages.numPages = 0 ∨
      ∀ pool ∈ s.pools, M.inRange ppages.base pool.base (pool.numPages * M.pageSize) = false)
    (h : s.memFreePpages fuel ppages = some s') : s' = s := by
  have hone : ∀ pool ∈ s.pools, ∀ m, pool.memFreePpages fuel ppages m = some m := by
    intro pool hpool m
    rw [PagePool.memFreePpages]
    rcases hnone with hzero | hout
    · simp only [hzero, PagePool.freeClr, bitmapClearConsecutive, ite_self]
    · rw [hout pool hpool, if_neg Bool.false_ne_true]
  rw [PoolState.memFreePpages, foldl_bind_same hone] at h
  exact (Option.some.inj h).symm

theorem memFreePpagesMpu_none {s : PoolState M} {ppages : Ppages}
    (hnone : ppages.numPages = 0 ∨
      ∀ pool ∈ s.pools, M.inRange ppages.base pool.base (pool.numPages * M.pageSize) = false) :
    s.memFreePpagesMpu ppages = s := by
  have hone : ∀ pool ∈ s.pools, ∀ m, pool.memFreePpagesMpu ppages m = m := by
    intro pool hpool m
    rw [PagePool.memFreePpagesMpu]
    rcases hnone with hzero | hout
    · simp only [hzero, bitmapClearConsecutive, ite_self]
    · rw [hout pool hpool, if_neg Bool.false_ne_true]
  have hfold : ∀ pools : List (PagePool M), (∀ p ∈ pools, p ∈ s.pools) →
      pools.foldl (fun m pool => pool.memFreePpagesMpu ppages m) s.bits = s.bits := by
    intro pools hpools
    induction pools with
    | nil => rfl
    | cons p rest ih =>
        rw [List.foldl_cons, hone p (hpools p List.mem_cons_self)]
        exact ih (fun q hq => hpools q (List.mem_cons_of_mem p hq))
  rw [PoolState.memFreePpagesMpu, hfold s.pools (fun _ hp => hp)]

/-- **Step lemma.**  Every step that meets the condition keeps the accounts. -/
theorem accounts_step {s s' : PoolState M} {e : PoolEvent M} (h : Accounts s)
    (hok : AccountingOk s e) (hstep : PoolStep s e s') : Accounts s' := by
  cases hstep with
  | init hinit => exact h.ppInit hinit
  | @alloc i n aligned ok ppages m pool pool' hpool hn halloc =>
      refine h.setPool hpool ?_
      rcases PagePool.ppAlloc_cases hn halloc with ⟨-, -, -, rfl, rfl⟩ |
        ⟨hpos, bit, -, htakes, heq⟩ | ⟨-, -, -, rfl, rfl⟩
      · exact .refl _ _
      · have hin := hok _ hpool bit htakes
        have hpages := pool.numPages_lt
        have hsign := M.two_pageCount_le_signBit
        rw [PagePool.take, bitmapSetConsecutive_eq _ _ _ hpos] at heq
        obtain ⟨-, -, rfl, rfl⟩ : _ ∧ _ ∧ _ ∧ _ := by simpa using heq
        exact poolChange_fill hin (htakes.clear (by omega)) rfl rfl rfl
      · exact .refl _ _
  | allocClr hpool hn halloc =>
      refine h.setPool hpool ?_
      rcases PagePool.ppAllocClr_cases halloc with ⟨-, l, htakes⟩ | ⟨-, -, rfl, rfl⟩
      · exact htakes.poolChange
      · exact .refl _ _
  | reserve hpool hres =>
      refine h.setPool hpool ?_
      rcases PagePool.memReservePpoolPpages_cases hok.1 hok.2 hres with
        ⟨-, hlo, hhi, hclear, rfl, rfl⟩ | ⟨-, rfl, rfl⟩
      · exact poolChange_fill (PagePool.pageoff_add_le hok.2 hlo hhi) hclear rfl rfl rfl
      · exact .refl _ _
  | free hfree =>
      rw [memFreePpages_none hok hfree]
      exact h
  | freeMpu =>
      rw [memFreePpagesMpu_none hok]
      exact h

/-- One page of memory, with its counter as the allocator leaves it. -/
def onePage (free last : Nat) : PagePool Machine.mmu64 where
  base := 0
  numPages := 1
  free := free
  last := last
  bitmap := 0
  aligned := by decide
  numPages_lt := by decide
  fits := by decide

end Bao

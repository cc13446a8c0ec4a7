import BaoHypervisor.StaticIsolation

/-!
# Allocation after initialisation

The system that `mem_init` leaves behind: any sequence of `mem_alloc_ppages`
calls and of frees of allocated pages.  Next to the pools a state has the set
of allocated pages, which the code does not keep.  In every run whose requests
stay inside the pools no static reservation is ever handed out.
-/

namespace Bao

open BitMemory

variable {M : Machine}

/-- The pools and, as a ghost, the addresses of the allocated pages. -/
structure PageState (M : Machine) where
  pools : PoolState M
  allocated : Nat → Prop

/-- A completed call with its arguments and results. -/
inductive PageEvent
  | alloc (colors n : Nat) (aligned : Bool) (out : Ppages)
  | free (ppages : Ppages)

/-- The freed pages are allocated pages of one pool, as the pages of an
allocation are. -/
structure Frees (s : PageState M) (ppages : Ppages) : Prop where
  allocated : ∀ a, ppages.Page M a → s.allocated a
  pool : ∃ (i : Nat) (pool : PagePool M), s.pools.pools[i]? = some pool ∧
    pool.base ≤ ppages.base ∧ ppages.base < pool.limit ∧ pool.Owns ppages

/-- Allocations and frees of allocated pages; the MPU build frees without colours. -/
inductive PageStep : PageState M → PageEvent → PageState M → Prop
  | alloc {s : PageState M} {pools : PoolState M} {fuel colors n : Nat} {aligned : Bool}
      {out : Ppages} (hn : n < M.wordCount)
      (h : s.pools.memAllocPpages fuel colors n aligned = some (pools, out)) :
      PageStep s (.alloc colors n aligned out)
        { pools := pools, allocated := fun a => s.allocated a ∨ out.Page M a }
  | free {s : PageState M} {pools : PoolState M} {fuel : Nat} {ppages : Ppages}
      (hfrees : Frees s ppages) (h : s.pools.memFreePpages fuel ppages = some pools) :
      PageStep s (.free ppages)
        { pools := pools, allocated := fun a => s.allocated a ∧ ¬ ppages.Page M a }
  | freeMpu {s : PageState M} {ppages : Ppages} (hfrees : Frees s ppages)
      (hall : M.allClrs ppages.colors = true) :
      PageStep s (.free ppages)
        { pools := s.pools.memFreePpagesMpu ppages
          allocated := fun a => s.allocated a ∧ ¬ ppages.Page M a }

/-- The runs from the state of the pools after `mem_init`. -/
def pageSystem (pools : PoolState M) : StepSystem (PageState M) PageEvent where
  init s := s = { pools := pools, allocated := fun _ => False }
  step := PageStep

/-- A request for which `pp_alloc` finds no run over the end of a pool. -/
def PageOk (s : PageState M) : PageEvent → Prop
  | .alloc colors n aligned _ => AllocOk s.pools colors n aligned
  | .free _ => True

/-- The reserved ranges keep their bits, allocated pages have theirs, and no
allocated page is in a reserved range. -/
structure Isolated (static : Ppages → Prop) (s : PageState M) : Prop where
  layout : Layout s.pools
  kept : ∀ r, static r → r.Kept s.pools
  taken : ∀ a, s.allocated a → ∃ (i k : Nat) (pool : PagePool M), s.pools.pools[i]? = some pool ∧
    pool.PageAt k a ∧ s.pools.bits (pool.bitmap + k) = true
  apart : ∀ a, s.allocated a → ∀ r, static r → ¬ r.Covers M a

theorem Ppages.Kept.bit {s : PoolState M} {r : Ppages} (h : r.Kept s) (hlayout : Layout s)
    {i k a : Nat} {pool : PagePool M} (hpool : s.pools[i]? = some pool) (hat : pool.PageAt k a)
    (hcovers : r.Covers M a) : s.bits (pool.bitmap + k) = true := by
  obtain ⟨j, pool', hpool', ⟨hlo, hhi⟩, hset⟩ := h
  have hbounds := hat.bounds
  obtain ⟨hge, hlt⟩ := id hcovers
  obtain ⟨-, rfl⟩ := hlayout.pool_unique hpool hpool' hbounds ⟨by omega, by omega⟩
  obtain ⟨-, rfl⟩ := hat
  exact hset k hcovers

theorem Grants.sameLayout {s s' : PoolState M} {i n : Nat} {pool : PagePool M} {out : Ppages}
    (h : Grants s s' i pool n out) (hpool : s.pools[i]? = some pool) : SameLayout s' s := by
  obtain ⟨pool', hpools, hbase, hn, hmap⟩ := h.pool_eq
  have hshape : pool'.shape = pool.shape := by
    unfold PagePool.shape
    rw [hbase, hn, hmap]
  have hset := sameLayout_setPool (m := s'.bits) hpool hshape
  refine ⟨h.lastIndex, fun j => ?_⟩
  rw [hpools]
  exact hset.2 j

theorem Grants.bits_mono {s s' : PoolState M} {i n b : Nat} {pool : PagePool M} {out : Ppages}
    (h : Grants s s' i pool n out) (hset : s.bits b = true) : s'.bits b = true := by
  by_cases hpage : ∃ k, out.Page M (pool.pageAddr k) ∧ b = pool.bitmap + k
  · obtain ⟨k, hk, rfl⟩ := hpage
    exact h.isSet k hk
  · rw [h.others b (fun k hk heq => hpage ⟨k, hk, heq⟩)]
    exact hset

/-- **Step lemma for allocations.**  The new pages were free, so they are in
no reserved range. -/
theorem Isolated.alloc {static : Ppages → Prop} {s : PageState M} {pools : PoolState M}
    {fuel colors n : Nat} {aligned : Bool} {out : Ppages} (h : Isolated static s)
    (hok : AllocOk s.pools colors n aligned) (hn : n < M.wordCount)
    (halloc : s.pools.memAllocPpages fuel colors n aligned = some (pools, out)) :
    Isolated static { pools := pools, allocated := fun a => s.allocated a ∨ out.Page M a } := by
  rcases memAllocPpages_cases hn hok halloc with ⟨hzero, rfl⟩ | ⟨i, pool, hpool, hgrants⟩
  · refine ⟨h.layout, h.kept, ?_, ?_⟩
    · rintro a (ha | ha)
      · exact h.taken a ha
      · exact (not_page_of_empty hzero ha).elim
    · rintro a (ha | ha)
      · exact h.apart a ha
      · exact (not_page_of_empty hzero ha).elim
  · have hsame := hgrants.sameLayout hpool
    refine ⟨h.layout.congr hsame, fun r hr => ?_, ?_, ?_⟩
    · exact (h.kept r hr).mono (fun j _ => hsame.2 j)
        (fun _ _ _ _ _ _ hset => hgrants.bits_mono hset)
    · rintro a (ha | ha)
      · obtain ⟨j, k, q, hq, ⟨hk, haddr⟩, hset⟩ := h.taken a ha
        obtain ⟨q', hq', hbase, hnum, hmap⟩ := hsame.symm.pool hq
        refine ⟨j, k, q', hq', ⟨hnum ▸ hk, ?_⟩, ?_⟩
        · rw [haddr, PagePool.pageAddr, PagePool.pageAddr, hbase]
        · rw [← hmap]
          exact hgrants.bits_mono hset
      · obtain ⟨k, hk, haddr⟩ := hgrants.page a ha
        obtain ⟨q', hq', hbase, hnum, hmap⟩ := hsame.symm.pool hpool
        refine ⟨i, k, q', hq', ⟨hnum ▸ hk, ?_⟩, ?_⟩
        · rw [haddr, PagePool.pageAddr, PagePool.pageAddr, hbase]
        · rw [← hmap]
          exact hgrants.isSet k (haddr ▸ ha)
    · rintro a (ha | ha) r hr hcovers
      · exact h.apart a ha r hr hcovers
      · obtain ⟨k, hk, haddr⟩ := hgrants.page a ha
        have hset := (h.kept r hr).bit h.layout hpool ⟨hk, haddr⟩ hcovers
        rw [hgrants.wasFree k (haddr ▸ ha)] at hset
        cases hset

theorem Frees.owns {s : PageState M} {ppages : Ppages} (h : Frees s ppages)
    (hlayout : Layout s.pools) {i : Nat} {q : PagePool M} (hq : s.pools.pools[i]? = some q)
    (hin : M.inRange ppages.base q.base (q.numPages * M.pageSize) = true) : q.Owns ppages := by
  obtain ⟨j, pool, hpool, hlo, hhi, howns⟩ := h.pool
  have hfits := pool.fits
  have hword := Nat.two_pow_pos M.wordBits
  have hpage := M.four_le_pageSize
  have hone : 1 < M.wordCount := by
    have := M.signBit_lt_wordCount
    have := Nat.two_pow_pos (M.wordBits - 1)
    omega
  have hpools : q.numPages * M.pageSize < M.wordCount := PagePool.bytes_lt q.numPages_lt
  unfold PagePool.limit at hhi
  have hrange : q.base ≤ ppages.base ∧ ppages.base + 1 ≤ q.base + q.numPages * M.pageSize :=
    (M.rangeInRange_iff (by omega) hone q.fits hpools
      (Nat.dvd_add q.aligned (Nat.dvd_mul_left _ _))).mp hin
  have hq' : q.base ≤ ppages.base ∧ ppages.base < q.limit := by
    unfold PagePool.limit
    omega
  obtain ⟨-, rfl⟩ := hlayout.pool_unique hq hpool hq' ⟨hlo, hhi⟩
  exact howns

theorem Frees.bit_kept {s : PageState M} {pools : PoolState M} {fuel : Nat} {ppages : Ppages}
    (h : Frees s ppages) (hlayout : Layout s.pools)
    (hfree : s.pools.memFreePpages fuel ppages = some pools) {i k : Nat} {pool : PagePool M}
    (hpool : s.pools.pools[i]? = some pool) (hk : k < pool.numPages)
    (hnot : ¬ ppages.Page M (pool.pageAddr k)) :
    pools.bits (pool.bitmap + k) = s.pools.bits (pool.bitmap + k) := by
  have howns : ∀ q ∈ s.pools.pools,
      M.inRange ppages.base q.base (q.numPages * M.pageSize) = true → q.Owns ppages := by
    intro q hq hin
    obtain ⟨j, hj⟩ := List.getElem?_of_mem hq
    exact h.owns hlayout hj hin
  refine (memFreePpages_other howns hfree).2.2 _ (fun q hq hin l hl heq => ?_)
  obtain ⟨j, hj⟩ := List.getElem?_of_mem hq
  obtain ⟨l', hl', haddr⟩ := howns q hq hin _ hl
  obtain rfl := pageAddr_inj haddr
  obtain ⟨rfl, rfl⟩ := hlayout.bit_unique hpool hj hk hl' heq
  exact hnot hl

/-- **Step lemma for frees.**  Only bits of allocated pages are cleared. -/
theorem Isolated.free {static : Ppages → Prop} {s : PageState M} {pools : PoolState M} {fuel : Nat}
    {ppages : Ppages} (h : Isolated static s) (hfrees : Frees s ppages)
    (hfree : s.pools.memFreePpages fuel ppages = some pools) :
    Isolated static { pools := pools, allocated := fun a => s.allocated a ∧ ¬ ppages.Page M a } := by
  have hother := memFreePpages_other (fun q hq hin => by
    obtain ⟨j, hj⟩ := List.getElem?_of_mem hq
    exact hfrees.owns h.layout hj hin) hfree
  obtain ⟨hpools, hlast, -⟩ := hother
  have hsame : SameLayout pools s.pools := ⟨hlast, fun i => by rw [hpools]⟩
  refine ⟨h.layout.congr hsame, fun r hr => ?_, ?_, fun a ha => h.apart a ha.1⟩
  · refine (h.kept r hr).mono (fun j _ => hsame.2 j) (fun i k pool hpool hin hcovers hset => ?_)
    have hbound : k < pool.numPages := by
      have hlt := Nat.lt_of_lt_of_le hcovers.2 hin.2
      rw [PagePool.pageAddr, PagePool.limit] at hlt
      exact Nat.lt_of_mul_lt_mul_right (Nat.lt_of_add_lt_add_left hlt)
    rw [hfrees.bit_kept h.layout hfree hpool hbound]
    · exact hset
    · exact fun hpage => h.apart _ (hfrees.allocated _ hpage) r hr hcovers
  · rintro a ⟨ha, hnot⟩
    obtain ⟨i, k, pool, hpool, ⟨hk, haddr⟩, hset⟩ := h.taken a ha
    refine ⟨i, k, pool, hpools ▸ hpool, ⟨hk, haddr⟩, ?_⟩
    simp only
    rw [hfrees.bit_kept h.layout hfree hpool hk (haddr ▸ hnot)]
    exact hset

theorem isolated_step {static : Ppages → Prop} {s s' : PageState M} {e : PageEvent}
    (h : Isolated static s) (hok : PageOk s e) (hstep : PageStep s e s') : Isolated static s' := by
  cases hstep with
  | alloc hn halloc => exact h.alloc hok hn halloc
  | free hfrees hfree => exact h.free hfrees hfree
  | freeMpu hfrees hall => exact h.free hfrees (@memFreePpages_of_allClrs M _ 0 _ hall)

/-- **Run lemma.**  In every run whose requests stay inside the pools the
reservations stay isolated. -/
theorem isolated_run {static : Ppages → Prop} {pools : PoolState M} (hlayout : Layout pools)
    (hkept : ∀ r, static r → r.Kept pools) {s : PageState M}
    (h : (pageSystem pools).Reach PageOk s) : Isolated static s := by
  have hinit : ∀ s, (pageSystem pools).init s → Isolated static s := by
    rintro s rfl
    exact ⟨hlayout, hkept, fun _ ha => ha.elim, fun _ ha => ha.elim⟩
  have hstep : ∀ s e s', Isolated static s → PageOk s e → (pageSystem pools).step s e s' →
      Isolated static s' := fun s e s' hinv hok hs => isolated_step hinv hok hs
  exact h.invariant hinit hstep

/-- Different owners have no page in common, except an image and a region of
its VM around it. -/
def StaticDisjoint (p : Platform M) (c : Config) : Prop :=
  ∀ o ∈ staticOwners p c, ∀ o' ∈ staticOwners p c, o ≠ o' →
    ¬ ImageInRegion p c o o' → ¬ ImageInRegion p c o' o →
    (ppagesFor p c o).Apart M (ppagesFor p c o')

/-- In every run from `pools` whose requests stay inside the pools, everything
placed statically stays reserved in one pool, and `mem_alloc_ppages` returns
none of its pages. -/
def NeverHandedOut (p : Platform M) (c : Config) (pools : PoolState M) : Prop :=
  ∀ s, (pageSystem pools).Reach PageOk s →
    (∀ o ∈ staticOwners p c, (ppagesFor p c o).Kept s.pools) ∧
    ∀ s' colors n aligned out, PageOk s (.alloc colors n aligned out) →
      PageStep s (.alloc colors n aligned out) s' →
      ∀ a, out.Page M a → ∀ o ∈ staticOwners p c, ¬ (ppagesFor p c o).Covers M a

/-- What is placed statically stays reserved and is never handed out after `mem_init`. -/
theorem neverHandedOut {p : Platform M} {c c' : Config} {flags : Owner → Bool}
    {s0 : PoolState M} {st : InitState M} (hapart : p.regions.Pairwise MemRegion.Apart)
    (hs0 : s0.Initial) (hinit : memInit p c flags s0 = some st) (hconfig : configInit p c = some c')
    (hwf : c'.WellFormed M) (hwrap : c'.ForEach (NoWrap M)) : NeverHandedOut p c' st.pools := by
  obtain ⟨hlayout, hkept, -⟩ := memInit_isolated hapart hs0 hconfig hwf hwrap hinit
  intro s hreach
  have hstatic : ∀ r, (∃ o ∈ staticOwners p c', r = ppagesFor p c' o) → r.Kept st.pools := by
    rintro r ⟨o, ho, rfl⟩
    exact hkept o ho
  have hinv := isolated_run hlayout hstatic hreach
  refine ⟨fun o ho => hinv.kept _ ⟨o, ho, rfl⟩, ?_⟩
  intro s' colors n aligned out hok hstep a ha o ho
  have hnext := isolated_step hinv hok hstep
  cases hstep with
  | alloc hn halloc => exact hnext.apart a (.inr ha) _ ⟨o, ho, rfl⟩

/-- **Isolation of the static reservations.**  If `mem_init` completes on a
well-formed configuration whose ranges do not wrap, everything placed
statically is disjoint, and in every run whose requests stay inside the pools
it stays reserved and is never returned by `mem_alloc_ppages`. -/
theorem static_memory_isolated {p : Platform M} {c c' : Config} {flags : Owner → Bool}
    {s0 : PoolState M} {st : InitState M} (hapart : p.regions.Pairwise MemRegion.Apart)
    (hs0 : s0.Initial) (hinit : memInit p c flags s0 = some st) (hconfig : configInit p c = some c')
    (hwf : c'.WellFormed M) (hwrap : c'.ForEach (NoWrap M)) :
    StaticDisjoint p c' ∧ NeverHandedOut p c' st.pools := by
  obtain ⟨-, -, hdisjoint⟩ := memInit_isolated hapart hs0 hconfig hwf hwrap hinit
  exact ⟨hdisjoint, neverHandedOut hapart hs0 hinit hconfig hwf hwrap⟩

/-! ## A platform with two adjacent regions -/

/-- Pages `first` to `first + n - 1` as a memory region. -/
def pagesRegion (first n : Nat) (hfirst : first + n ≤ 1000000) : MemRegion Machine.mmu64 where
  base := first * 4096
  size := n * 4096
  base_aligned := Nat.dvd_mul_left _ _
  size_aligned := Nat.dvd_mul_left _ _
  size_lt := by
    have : Machine.mmu64.wordCount = 2 ^ 64 := rfl
    omega
  fits := by
    have : Machine.mmu64.wordCount = 2 ^ 64 := rfl
    omega

/-- The hypervisor in the first of two adjacent regions, the first of `n` pages. -/
def twoRegions (n : Nat) (hn : n ≤ 1000) : Platform Machine.mmu64 where
  regions := [pagesRegion 0 n (by omega), pagesRegion n 32 (by omega)]
  memNonUnified := false
  memProtMpu := false
  vasBase := 0
  imgAddr := 0
  dataAddr := 0
  dataVmaStart := 0
  imageLoadSize := 8 * 4096
  imageNoloadSize := 8 * 4096
  vmImageSize := 0
  dataSize := 8 * 4096
  cpuNum := 4
  cpuBootAllocSize := 4 * 4096
  img_aligned := Machine.mmu64.pageSize_dvd_zero
  dataVma_aligned := Machine.mmu64.pageSize_dvd_zero
  load_aligned := by decide
  noload_aligned := by decide
  vmImage_aligned := Machine.mmu64.pageSize_dvd_zero
  data_aligned := by decide
  cpuBoot_aligned := by decide
  load_pos := by decide
  noload_pos := by decide
  data_pos := by decide
  cpus_pos := by decide
  load_fits := by decide
  cpus_fit := by decide

/-- One VM with a region of two pages at page `n`, its image in the first of them. -/
def oneVm (n : Nat) : Config where
  vmlist :=
    [{ image := { loadAddr := n * 4096, size := 4096, separatelyLoaded := true }
       regions := [{ base := 0, size := 8192, colors := 0, placePhys := true, phys := n * 4096 }]
       ipcs := [] }]
  shmemlist := []

theorem oneVm_wellFormed (n : Nat) : (oneVm n).WellFormed Machine.mmu64 := by
  refine ⟨fun vm hvm => ?_, fun shmem hshmem => (List.not_mem_nil hshmem).elim⟩
  obtain rfl := List.mem_singleton.mp hvm
  refine ⟨⟨Nat.dvd_mul_left _ _, Nat.succ_pos _⟩, fun reg hreg _ => ?_⟩
  obtain rfl := List.mem_singleton.mp hreg
  exact ⟨Nat.dvd_mul_left _ _, Nat.succ_pos _⟩

theorem oneVm_noWrap {n : Nat} (hn : n ≤ 1000) : (oneVm n).ForEach (NoWrap Machine.mmu64) := by
  have hword : Machine.mmu64.wordCount = 2 ^ 64 := rfl
  have hpage : Machine.mmu64.pageSize = 4096 := rfl
  have hone : Machine.mmu64.numPages 4096 = 1 := by decide
  have htwo : Machine.mmu64.numPages 8192 = 2 := by decide
  have himage : NoWrap Machine.mmu64 (n * 4096) 4096 := by
    rw [NoWrap, hone, hpage, hword]
    omega
  have hregion : NoWrap Machine.mmu64 (n * 4096) 8192 := by
    rw [NoWrap, htwo, hpage, hword]
    omega
  refine ⟨fun vm hvm => ?_, fun shmem hshmem => (List.not_mem_nil hshmem).elim⟩
  obtain rfl := List.mem_singleton.mp hvm
  refine ⟨himage, fun reg hreg _ => ?_⟩
  obtain rfl := List.mem_singleton.mp hreg
  exact hregion

theorem twoRegions_apart {n : Nat} (hn : n ≤ 1000) :
    (twoRegions n hn).regions.Pairwise MemRegion.Apart := by
  refine List.pairwise_cons.mpr ⟨fun r hr => ?_, List.pairwise_singleton _ _⟩
  obtain rfl := List.mem_singleton.mp hr
  refine .inl ?_
  simp only [pagesRegion]
  omega

/-- With a root region of 64 pages `mem_init` completes, and the region of the
VM is never handed out. -/
theorem static_memory_isolated_64 :
    ∃ st, memInit (twoRegions 64 (by decide)) (oneVm 64) (fun _ => false) (emptyPools _) = some st ∧
      StaticDisjoint (twoRegions 64 (by decide)) (oneVm 64) ∧
      NeverHandedOut (twoRegions 64 (by decide)) (oneVm 64) st.pools := by
  have hsome : (memInit (twoRegions 64 (by decide)) (oneVm 64) (fun _ => false)
      (emptyPools _)).isSome = true := by decide +kernel
  obtain ⟨st, hst⟩ := Option.isSome_iff_exists.mp hsome
  have hzero : (emptyPools Machine.mmu64).Initial := ⟨rfl, rfl, fun _ _ => rfl⟩
  exact ⟨st, hst, static_memory_isolated (twoRegions_apart (by decide)) hzero hst rfl
    (oneVm_wellFormed 64) (oneVm_noWrap (by decide))⟩

/-- With a root region of 33 pages the first request for two pages after
`mem_init` is answered with the last page of that region and the first page of
the VM's region behind it. -/
theorem static_memory_handed_out :
    (twoRegions 33 (by decide)).regions.Pairwise MemRegion.Apart ∧
    (oneVm 33).WellFormed Machine.mmu64 ∧
    ∃ st s' out a, memInit (twoRegions 33 (by decide)) (oneVm 33) (fun _ => false) (emptyPools _) =
        some st ∧
      PageStep { pools := st.pools, allocated := fun _ => False } (.alloc 0 2 false out) s' ∧
      out.Page Machine.mmu64 a ∧
      .vmRegion 0 0 ∈ staticOwners (twoRegions 33 (by decide)) (oneVm 33) ∧
      (ppagesFor (twoRegions 33 (by decide)) (oneVm 33) (.vmRegion 0 0)).Covers Machine.mmu64 a := by
  have hrun : (memInit (twoRegions 33 (by decide)) (oneVm 33) (fun _ => false) (emptyPools _)).bind
      (fun st => (st.pools.memAllocPpages 0 0 2 false).map Prod.snd) =
        some (memPpagesGet (32 * 4096) 2) := by decide +kernel
  obtain ⟨st, hst, halloc⟩ := Option.bind_eq_some_iff.mp hrun
  obtain ⟨⟨pools, out⟩, halloc, hout⟩ := Option.map_eq_some_iff.mp halloc
  have hcovers : (ppagesFor (twoRegions 33 (by decide)) (oneVm 33) (.vmRegion 0 0)).Covers
      Machine.mmu64 (33 * 4096) := by
    unfold Ppages.Covers
    decide +kernel
  refine ⟨twoRegions_apart (by decide), oneVm_wellFormed 33, st, _, out, 33 * 4096, hst,
    .alloc (by decide) halloc, ?_, by decide, hcovers⟩
  rw [show out = memPpagesGet (32 * 4096) 2 from hout]
  exact page_memPpagesGet.mpr ⟨1, by decide, rfl⟩

end Bao

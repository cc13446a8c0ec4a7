import BaoHypervisor.StaticMemory

/-!
# Static reservations stay apart

What `mem_init` reserves lies in page pools with its bits set, pairwise
disjoint, and no allocation after it returns any of these pages, as long as
the allocator keeps to its pools.  `Held` is what the reservations so far have
in common; one successful reservation adds an owner to it, because the bitmap
test excludes every page of the owners before.
-/

namespace Bao

open BitMemory

variable {M : Machine}

/-! ## The layout of the pools -/

/-- Two ranges of pages have no page in common. -/
def Ppages.Apart (M : Machine) (p q : Ppages) : Prop :=
  p.base + p.numPages * M.pageSize ≤ q.base ∨ q.base + q.numPages * M.pageSize ≤ p.base

/-- Two memory regions do not overlap. -/
def MemRegion.Apart (r q : MemRegion M) : Prop :=
  r.base + r.size ≤ q.base ∨ q.base + q.size ≤ r.base

/-- A nonempty page-aligned range inside the address space. -/
structure Ppages.WellPlaced (M : Machine) (p : Ppages) : Prop where
  fits : p.Fits M
  pos : 1 ≤ p.numPages
  aligned : M.pageSize ∣ p.base

namespace PagePool

/-- The first address after the pool. -/
def limit (pool : PagePool M) : Nat := pool.base + pool.numPages * M.pageSize

/-- The part of a pool that no operation changes. -/
def shape (pool : PagePool M) : Nat × Nat × Nat := (pool.base, pool.numPages, pool.bitmap)

/-- The range lies inside the pool. -/
def Contains (pool : PagePool M) (p : Ppages) : Prop :=
  pool.base ≤ p.base ∧ p.base + p.numPages * M.pageSize ≤ pool.limit

theorem exists_pageAddr {pool : PagePool M} {a : Nat} (hdvd : M.pageSize ∣ a)
    (hlo : pool.base ≤ a) (hhi : a < pool.limit) : ∃ k, pool.PageAt k a := by
  have hpage := M.pageSize_pos
  obtain ⟨k, hk⟩ := Nat.dvd_sub hdvd pool.aligned
  have haddr : a = pool.pageAddr k := by
    rw [pageAddr, Nat.mul_comm]
    omega
  refine ⟨k, ?_, haddr⟩
  rw [haddr, pageAddr, limit] at hhi
  exact Nat.lt_of_mul_lt_mul_right (Nat.lt_of_add_lt_add_left hhi)

theorem PageAt.bounds {pool : PagePool M} {k a : Nat} (h : pool.PageAt k a) :
    pool.base ≤ a ∧ a < pool.limit := by
  obtain ⟨hk, rfl⟩ := h
  have := Nat.mul_lt_mul_of_pos_right hk M.pageSize_pos
  exact ⟨Nat.le_add_right _ _, Nat.add_lt_add_left this _⟩

theorem covers_iff {pool : PagePool M} {p : Ppages} (hp : p.WellPlaced M) (hin : pool.Contains p)
    {k : Nat} : p.Covers M (pool.pageAddr k) ↔
      pool.pageoff p ≤ k ∧ k < pool.pageoff p + p.numPages := by
  have hbase := base_add_pageoff hp.pos hin.1 hin.2 hp.aligned
  have hcovers : Ppages.Covers M
      { base := pool.base + pool.pageoff p * M.pageSize, numPages := p.numPages, colors := p.colors }
      (pool.pageAddr k) ↔ pool.pageoff p ≤ k ∧ k < pool.pageoff p + p.numPages :=
    covers_pageAddr_iff
  rw [hbase] at hcovers
  exact hcovers

end PagePool

/-- Bitmaps do not share bits, bits of no pool are clear, and the pools do not
share pages. -/
structure Layout (s : PoolState M) : Prop where
  inUse : ∀ (i : Nat) (pool : PagePool M), s.pools[i]? = some pool →
    pool.bitmap + pool.numPages ≤ 8 * s.lastIndex
  room : s.lastIndex ≤ M.bitmapPoolSize
  bitmaps : ∀ (i j : Nat) (p q : PagePool M), s.pools[i]? = some p → s.pools[j]? = some q → i < j →
    p.bitmap + p.numPages ≤ q.bitmap
  apart : ∀ (i j : Nat) (p q : PagePool M), s.pools[i]? = some p → s.pools[j]? = some q → i < j →
    p.limit ≤ q.base ∨ q.limit ≤ p.base

/-- Only counters, search positions and bits differ. -/
def SameLayout (s' s : PoolState M) : Prop :=
  s'.lastIndex = s.lastIndex ∧
    ∀ i : Nat, s'.pools[i]?.map PagePool.shape = s.pools[i]?.map PagePool.shape

theorem SameLayout.refl (s : PoolState M) : SameLayout s s := ⟨rfl, fun _ => rfl⟩

theorem SameLayout.symm {s s' : PoolState M} (h : SameLayout s' s) : SameLayout s s' :=
  ⟨h.1.symm, fun i => (h.2 i).symm⟩

theorem SameLayout.pool {s s' : PoolState M} (h : SameLayout s' s) {i : Nat} {pool' : PagePool M}
    (hpool : s'.pools[i]? = some pool') : ∃ pool, s.pools[i]? = some pool ∧
      pool'.base = pool.base ∧ pool'.numPages = pool.numPages ∧ pool'.bitmap = pool.bitmap := by
  have hshape := h.2 i
  rw [hpool, Option.map_some] at hshape
  obtain ⟨pool, hget, heq⟩ := Option.map_eq_some_iff.mp hshape.symm
  obtain ⟨hbase, hrest⟩ := Prod.mk.inj heq
  obtain ⟨hn, hmap⟩ := Prod.mk.inj hrest
  exact ⟨pool, hget, hbase.symm, hn.symm, hmap.symm⟩

theorem Layout.congr {s s' : PoolState M} (h : Layout s) (hsame : SameLayout s' s) :
    Layout s' := by
  refine ⟨fun i p hp => ?_, hsame.1 ▸ h.room, fun i j p q hp hq hij => ?_,
    fun i j p q hp hq hij => ?_⟩
  · obtain ⟨p', hp', -, hn, hmap⟩ := hsame.pool hp
    rw [hn, hmap, hsame.1]
    exact h.inUse i p' hp'
  · obtain ⟨p', hp', -, hn, hmap⟩ := hsame.pool hp
    obtain ⟨q', hq', -, -, hmap'⟩ := hsame.pool hq
    rw [hn, hmap, hmap']
    exact h.bitmaps i j p' q' hp' hq' hij
  · obtain ⟨p', hp', hbase, hn, -⟩ := hsame.pool hp
    obtain ⟨q', hq', hbase', hn', -⟩ := hsame.pool hq
    unfold PagePool.limit
    rw [hn, hbase, hn', hbase']
    exact h.apart i j p' q' hp' hq' hij

theorem sameLayout_setPool {s : PoolState M} {i : Nat} {pool pool' : PagePool M} {m : Store}
    (hpool : s.pools[i]? = some pool) (hshape : pool'.shape = pool.shape) :
    SameLayout (s.setPool i m pool') s := by
  refine ⟨rfl, fun j => ?_⟩
  rw [PoolState.setPool, List.getElem?_set]
  by_cases hj : i = j
  · subst hj
    rw [if_pos rfl, if_pos (List.getElem?_eq_some_iff.mp hpool).1, hpool, Option.map_some,
      Option.map_some, hshape]
  · rw [if_neg hj]

theorem Layout.pool_unique {s : PoolState M} (h : Layout s) {i j a : Nat} {p q : PagePool M}
    (hp : s.pools[i]? = some p) (hq : s.pools[j]? = some q) (hap : p.base ≤ a ∧ a < p.limit)
    (haq : q.base ≤ a ∧ a < q.limit) : i = j ∧ p = q := by
  have hij : i = j := by
    rcases Nat.lt_trichotomy i j with hlt | heq | hgt
    · have := h.apart i j p q hp hq hlt
      omega
    · exact heq
    · have := h.apart j i q p hq hp hgt
      omega
  subst hij
  rw [hp] at hq
  exact ⟨rfl, Option.some.inj hq⟩

theorem Layout.bit_unique {s : PoolState M} (h : Layout s) {i j k l : Nat} {p q : PagePool M}
    (hp : s.pools[i]? = some p) (hq : s.pools[j]? = some q) (hk : k < p.numPages)
    (hl : l < q.numPages) (heq : p.bitmap + k = q.bitmap + l) : p = q ∧ k = l := by
  have hij : i = j := by
    rcases Nat.lt_trichotomy i j with hlt | heq' | hgt
    · have := h.bitmaps i j p q hp hq hlt
      omega
    · exact heq'
    · have := h.bitmaps j i q p hq hp hgt
      omega
  subst hij
  rw [hp] at hq
  obtain rfl := Option.some.inj hq
  exact ⟨rfl, Nat.add_left_cancel heq⟩

/-! ## Reserved ranges -/

/-- The range lies inside one page pool with all its bits set. -/
def Ppages.Kept (s : PoolState M) (p : Ppages) : Prop :=
  ∃ (i : Nat) (pool : PagePool M), s.pools[i]? = some pool ∧ pool.Contains p ∧
    ∀ k, p.Covers M (pool.pageAddr k) → s.bits (pool.bitmap + k) = true

theorem Ppages.Kept.mono {s s' : PoolState M} {p : Ppages} (h : p.Kept s)
    (hpools : ∀ i : Nat, (∃ pool, s.pools[i]? = some pool) →
      s'.pools[i]?.map PagePool.shape = s.pools[i]?.map PagePool.shape)
    (hbits : ∀ (i k : Nat) (pool : PagePool M), s.pools[i]? = some pool →
      pool.Contains p → p.Covers M (pool.pageAddr k) →
      s.bits (pool.bitmap + k) = true → s'.bits (pool.bitmap + k) = true) :
    p.Kept s' := by
  obtain ⟨i, pool, hpool, hin, hset⟩ := h
  have hshape := hpools i ⟨pool, hpool⟩
  rw [hpool, Option.map_some] at hshape
  obtain ⟨pool', hpool', heq⟩ := Option.map_eq_some_iff.mp hshape
  obtain ⟨hbase, hrest⟩ := Prod.mk.inj heq
  obtain ⟨hn, hmap⟩ := Prod.mk.inj hrest
  refine ⟨i, pool', hpool', ?_, fun k hk => ?_⟩
  · unfold PagePool.Contains PagePool.limit
    rw [hbase, hn]
    exact hin
  · rw [PagePool.pageAddr, hbase] at hk
    rw [hmap]
    exact hbits i k pool hpool hin hk (hset k hk)

theorem Ppages.Kept.apart {s : PoolState M} (h : Layout s) {p q : Ppages} {i : Nat}
    {pool : PagePool M} (hp : p.WellPlaced M) (hq : q.WellPlaced M)
    (hpool : s.pools[i]? = some pool) (hin : pool.Contains p)
    (hclear : pool.Clear s.bits (pool.pageoff p) p.numPages) (hkept : q.Kept s) :
    p.Apart M q := by
  obtain ⟨j, pool2, hpool2, hin2, hset⟩ := hkept
  by_cases hapart : p.Apart M q
  · exact hapart
  · -- the later of the two bases is an address of both ranges
    unfold Ppages.Apart at hapart
    have hpage := M.pageSize_pos
    have hone : M.pageSize ≤ p.numPages * M.pageSize := Nat.le_mul_of_pos_left _ hp.pos
    have hone2 : M.pageSize ≤ q.numPages * M.pageSize := Nat.le_mul_of_pos_left _ hq.pos
    obtain ⟨a, hdvd, hpa, hqa⟩ : ∃ a, M.pageSize ∣ a ∧ p.Covers M a ∧ q.Covers M a := by
      unfold Ppages.Covers
      rcases Nat.le_total p.base q.base with hle | hle
      · exact ⟨q.base, hq.aligned, by omega, by omega⟩
      · exact ⟨p.base, hp.aligned, by omega, by omega⟩
    obtain ⟨hlo, hhi⟩ := hin
    obtain ⟨hlo2, hhi2⟩ := hin2
    unfold Ppages.Covers at hpa hqa
    obtain ⟨-, rfl⟩ := h.pool_unique (a := a) hpool hpool2 ⟨by omega, by omega⟩
      ⟨by omega, by omega⟩
    have hpageAt : ∃ k, pool.PageAt k a := PagePool.exists_pageAddr hdvd (by omega) (by omega)
    obtain ⟨k, hk, rfl⟩ := hpageAt
    obtain ⟨h1, h2⟩ := (PagePool.covers_iff hp ⟨hlo, hhi⟩).mp hpa
    have hfree := hclear (k - pool.pageoff p) (by omega)
    rw [Nat.add_assoc, Nat.add_sub_cancel' h1, hset k hqa] at hfree
    cases hfree

theorem reserveIn_cases {s s' : PoolState M} {i : Nat} {p : Ppages} {ok : Bool}
    (hp : p.WellPlaced M) (h : s.reserveIn i p = (ok, s')) :
    (ok = true ∧ ∃ pool, s.pools[i]? = some pool ∧ pool.Contains p ∧
      pool.Clear s.bits (pool.pageoff p) p.numPages ∧ SameLayout s' s ∧
      s'.bits = fill s.bits true (pool.bitmap + pool.pageoff p) p.numPages) ∨
    (ok = false ∧ s' = s) := by
  rw [PoolState.reserveIn] at h
  cases hpool : s.pools[i]? with
  | none =>
      rw [hpool] at h
      obtain ⟨rfl, rfl⟩ := Prod.mk.inj h
      exact .inr ⟨rfl, rfl⟩
  | some pool =>
      rw [hpool] at h
      cases hres : pool.memReservePpoolPpages s.bits p with
      | mk ok' rest =>
          obtain ⟨m, pool'⟩ := rest
          simp only [hres] at h
          obtain ⟨rfl, rfl⟩ := Prod.mk.inj h
          rcases PagePool.memReservePpoolPpages_cases hp.fits hp.pos hres with
            ⟨rfl, hlo, hhi, hclear, rfl, rfl⟩ | ⟨rfl, rfl, rfl⟩
          · exact .inl ⟨rfl, pool, rfl, ⟨hlo, hhi⟩, hclear, sameLayout_setPool hpool rfl, rfl⟩
          · exact .inr ⟨rfl, setPool_self hpool⟩

/-- What the reservations made so far have in common: the ranges of the owners
`done` are reserved and pairwise disjoint. -/
structure Held (s : PoolState M) (range : Owner → Ppages) (done : Owner → Prop) : Prop where
  layout : Layout s
  kept : ∀ o, done o → (range o).Kept s
  apart : ∀ o o', done o → done o' → o ≠ o' → (range o).Apart M (range o')

theorem Ppages.Apart.symm {p q : Ppages} (h : p.Apart M q) : q.Apart M p := Or.symm h

theorem Held.subset {s : PoolState M} {range : Owner → Ppages} {done done' : Owner → Prop}
    (h : Held s range done) (hsub : ∀ o, done' o → done o) : Held s range done' :=
  ⟨h.layout, fun o ho => h.kept o (hsub o ho),
    fun o o' ho ho' hne => h.apart o o' (hsub o ho) (hsub o' ho') hne⟩

/-- **Step lemma.**  A successful reservation adds its owner. -/
theorem Held.reserveIn {s s' : PoolState M} {range : Owner → Ppages} {done : Owner → Prop}
    {i : Nat} {o : Owner} (h : Held s range done) (hwell : (range o).WellPlaced M)
    (hdone : ∀ o', done o' → (range o').WellPlaced M)
    (hres : s.reserveIn i (range o) = (true, s')) :
    Held s' range (fun o' => done o' ∨ o' = o) := by
  rcases reserveIn_cases hwell hres with ⟨-, pool, hpool, hin, hclear, hsame, hbits⟩ | ⟨hno, -⟩
  · have hnew : ∀ o', done o' → (range o).Apart M (range o') := fun o' ho' =>
      (h.kept o' ho').apart h.layout hwell (hdone o' ho') hpool hin hclear
    refine ⟨h.layout.congr hsame, ?_, ?_⟩
    · rintro o' (ho' | rfl)
      · refine (h.kept o' ho').mono (fun j _ => hsame.2 j) (fun j k q _ _ _ hset => ?_)
        rw [hbits, fill]
        split
        · rfl
        · exact hset
      · -- the pool of the new range has the same shape after the step
        obtain ⟨pool', hpool', hbase, hn, hmap⟩ := hsame.symm.pool hpool
        refine ⟨i, pool', hpool', ?_, fun k hk => ?_⟩
        · unfold PagePool.Contains PagePool.limit
          rw [← hbase, ← hn]
          exact hin
        · rw [PagePool.pageAddr, ← hbase] at hk
          obtain ⟨h1, h2⟩ := (PagePool.covers_iff hwell hin).mp hk
          rw [hbits, ← hmap, fill_inside (by omega) (by omega)]
    · rintro o1 o2 (h1 | rfl) (h2 | rfl) hne
      · exact h.apart o1 o2 h1 h2 hne
      · exact (hnew o1 h1).symm
      · exact hnew o2 h2
      · exact (hne rfl).elim
  · cases hno

/-! ## New pools -/

theorem ppInit_cases {s s' : PoolState M} {r : MemRegion M} (hroom : s.lastIndex ≤ M.bitmapPoolSize)
    (h : s.ppInit r = some s') :
    s'.bits = s.bits ∧ s'.pools = s.pools ++ [poolOfRegion r (8 * s.lastIndex)] ∧
      8 * s.lastIndex + r.size / M.pageSize ≤ 8 * s'.lastIndex ∧
      s'.lastIndex ≤ M.bitmapPoolSize := by
  rw [PoolState.ppInit, PoolState.ppBitmapAlloc] at h
  by_cases hfits : r.size / M.pageSize ≤ (M.bitmapPoolSize - s.lastIndex) * 8
  · rw [if_pos hfits] at h
    obtain rfl := Option.some.inj h
    refine ⟨rfl, rfl, ?_, ?_⟩
    · simp only
      split <;> omega
    · simp only
      split <;> omega
  · rw [if_neg hfits] at h
    cases h

theorem getElem?_push {pools : List (PagePool M)} {new pool : PagePool M} {i : Nat}
    (h : (pools ++ [new])[i]? = some pool) :
    (i < pools.length ∧ pools[i]? = some pool) ∨ (i = pools.length ∧ pool = new) := by
  rw [List.getElem?_append] at h
  by_cases hi : i < pools.length
  · rw [if_pos hi] at h
    exact .inl ⟨hi, h⟩
  · rw [if_neg hi] at h
    obtain ⟨hlt, heq⟩ := List.getElem?_eq_some_iff.mp h
    have hzero : i - pools.length = 0 := by simpa using hlt
    simp only [hzero, List.getElem_cons_zero] at heq
    exact .inr ⟨by omega, heq.symm⟩

theorem limit_poolOfRegion (r : MemRegion M) (bitmap : Nat) :
    (poolOfRegion r bitmap).limit = r.base + r.size := by
  rw [PagePool.limit, poolOfRegion]
  simp only [r.pages_mul]

/-- The region overlaps no pool. -/
def MemRegion.Fresh (r : MemRegion M) (s : PoolState M) : Prop :=
  ∀ pool ∈ s.pools, r.base + r.size ≤ pool.base ∨ pool.limit ≤ r.base

theorem Layout.ppInit {s s' : PoolState M} {r : MemRegion M} (h : Layout s) (hfresh : r.Fresh s)
    (hinit : s.ppInit r = some s') : Layout s' := by
  obtain ⟨-, hpools, hlast, hroom⟩ := ppInit_cases h.room hinit
  have hnew : (poolOfRegion r (8 * s.lastIndex)).bitmap = 8 * s.lastIndex := rfl
  have hn : (poolOfRegion r (8 * s.lastIndex)).numPages = r.size / M.pageSize := rfl
  have hbase : (poolOfRegion r (8 * s.lastIndex)).base = r.base := rfl
  refine ⟨fun i p hp => ?_, hroom, fun i j p q hp hq hij => ?_, fun i j p q hp hq hij => ?_⟩
  · rw [hpools] at hp
    rcases getElem?_push hp with ⟨-, hp⟩ | ⟨-, rfl⟩
    · have := h.inUse i p hp
      omega
    · omega
  · rw [hpools] at hp hq
    rcases getElem?_push hp with ⟨hi, hp⟩ | ⟨hi, rfl⟩
    · rcases getElem?_push hq with ⟨-, hq⟩ | ⟨-, rfl⟩
      · exact h.bitmaps i j p q hp hq hij
      · rw [hnew]
        exact h.inUse i p hp
    · rcases getElem?_push hq with ⟨hj, -⟩ | ⟨hj, -⟩
      · omega
      · omega
  · rw [hpools] at hp hq
    rcases getElem?_push hp with ⟨hi, hp⟩ | ⟨hi, rfl⟩
    · rcases getElem?_push hq with ⟨-, hq⟩ | ⟨-, rfl⟩
      · exact h.apart i j p q hp hq hij
      · rw [limit_poolOfRegion, hbase]
        exact (hfresh p (List.mem_of_getElem? hp)).symm
    · rcases getElem?_push hq with ⟨hj, -⟩ | ⟨hj, -⟩
      · omega
      · omega

theorem Held.ppInit {s s' : PoolState M} {range : Owner → Ppages} {done : Owner → Prop}
    {r : MemRegion M} (h : Held s range done) (hfresh : r.Fresh s)
    (hinit : s.ppInit r = some s') : Held s' range done := by
  obtain ⟨hbits, hpools, -, -⟩ := ppInit_cases h.layout.room hinit
  refine ⟨h.layout.ppInit hfresh hinit, fun o ho => ?_, h.apart⟩
  refine (h.kept o ho).mono ?_ (fun _ _ _ _ _ _ hset => hbits ▸ hset)
  rintro i ⟨pool, hpool⟩
  rw [hpools, List.getElem?_append_left (List.getElem?_eq_some_iff.mp hpool).1]

/-! ## The reservations of `mem_init` -/

section Init

variable {p : Platform M} {c : Config} {deferred : Owner → Bool}

/-- Every range that `mem_init` may reserve is well placed. -/
def AllPlaced (p : Platform M) (c : Config) : Prop :=
  ∀ o ∈ staticOwners p c, (ppagesFor p c o).WellPlaced M

/-- The owners whose pages are reserved so far: the hypervisor's own parts in
the root pool, and those whose flag went up since `mem_init_reserved`. -/
def Done (p : Platform M) (c : Config) (deferred : Owner → Bool) (st : InitState M) (o : Owner) :
    Prop :=
  o ∈ p.rootOwners ∨ (o ∈ staticOwners p c ∧ st.reserved o = true ∧ deferred o = false)

/-- The invariant of the reservation loops. -/
structure Reserving (p : Platform M) (c : Config) (deferred : Owner → Bool) (s : PoolState M)
    (st : InitState M) : Prop where
  held : Held st.pools (ppagesFor p c) (Done p c deferred st)
  flags : ∀ o, deferred o = true → st.reserved o = true
  layout : SameLayout st.pools s

theorem rootOwners_static {o : Owner} (h : o ∈ p.rootOwners) : o ∈ staticOwners p c := by
  unfold staticOwners
  simp only [List.mem_append]
  exact .inl (.inl (.inl (.inl h)))

theorem Done.static {st : InitState M} {o : Owner} (h : Done p c deferred st o) :
    o ∈ staticOwners p c := by
  rcases h with h | h
  · exact rootOwners_static h
  · exact h.1

theorem SameLayout.trans {s s' s'' : PoolState M} (h : SameLayout s'' s') (h' : SameLayout s' s) :
    SameLayout s'' s :=
  ⟨h.1.trans h'.1, fun i => (h.2 i).trans (h'.2 i)⟩

theorem Reserving.owner {s : PoolState M} {st : InitState M} {i : Nat} {o : Owner}
    (h : Reserving p c deferred s st) (hplaced : AllPlaced p c) (ho : o ∈ staticOwners p c)
    (hdef : deferred o = false) : Reserving p c deferred s (reserveOwner p c i st o) := by
  rw [reserveOwner]
  cases hres : st.pools.reserveIn i (ppagesFor p c o) with
  | mk ok s' =>
      cases ok with
      | false =>
          rcases reserveIn_cases (hplaced o ho) hres with ⟨hok, -⟩ | ⟨-, rfl⟩
          · cases hok
          · exact h
      | true =>
          have hheld := h.held.reserveIn (hplaced o ho) (fun o' ho' => hplaced o' ho'.static) hres
          rcases reserveIn_cases (hplaced o ho) hres with ⟨-, -, -, -, -, hsame, -⟩ | ⟨hno, -⟩
          · refine ⟨hheld.subset ?_, fun o' ho' => ?_, hsame.trans h.layout⟩
            · rintro o' (hroot | ⟨hstatic, hflag, hdef'⟩)
              · exact .inl (.inl hroot)
              · by_cases heq : o' = o
                · exact .inr heq
                · simp only [if_neg heq] at hflag
                  exact .inl (.inr ⟨hstatic, hflag, hdef'⟩)
            · simp only
              split
              · rfl
              · exact h.flags o' ho'
          · cases hno

theorem Reserving.unlessReserved {s : PoolState M} {st : InitState M} {i : Nat} {o : Owner}
    (h : Reserving p c deferred s st) (hplaced : AllPlaced p c) (ho : o ∈ staticOwners p c) :
    Reserving p c deferred s (reserveUnlessReserved p c i st o) := by
  rw [reserveUnlessReserved]
  by_cases hflag : st.reserved o = true
  · rw [if_pos hflag]
    exact h
  · rw [if_neg hflag]
    refine h.owner hplaced ho ?_
    cases hdef : deferred o with
    | false => rfl
    | true => exact (hflag (h.flags o hdef)).elim

/-- **Loop lemma.**  A loop over owners keeps the invariant. -/
theorem Reserving.loop {s : PoolState M} {i : Nat} (hplaced : AllPlaced p c) (owners : List Owner)
    (hstatic : ∀ o ∈ owners, o ∈ staticOwners p c) {st : InitState M}
    (h : Reserving p c deferred s st) :
    Reserving p c deferred s (owners.foldl (reserveUnlessReserved p c i) st) := by
  induction owners generalizing st with
  | nil => exact h
  | cons o rest ih =>
      rw [List.foldl_cons]
      exact ih (fun o' ho' => hstatic o' (List.mem_cons_of_mem o ho'))
        (h.unlessReserved hplaced (hstatic o List.mem_cons_self))

theorem images_static {o : Owner} (h : o ∈ c.images) : o ∈ staticOwners p c := by
  unfold staticOwners
  simp only [List.mem_append]
  exact .inl (.inl (.inr h))

theorem physRegions_static {o : Owner} (h : o ∈ c.physRegions) : o ∈ staticOwners p c := by
  unfold staticOwners
  simp only [List.mem_append]
  exact .inl (.inr h)

theorem physShmems_static {o : Owner} (h : o ∈ c.physShmems) : o ∈ staticOwners p c := by
  unfold staticOwners
  simp only [List.mem_append]
  exact .inr h

/-- `mem_reserve_physical_memory` keeps the invariant for every pool. -/
theorem Reserving.memReservePhysicalMemory {s : PoolState M} {st : InitState M} {i : Nat}
    (h : Reserving p c deferred s st) (hplaced : AllPlaced p c)
    (hload : p.memNonUnified = true → deferred .hypImageLoad = false) :
    Reserving p c deferred s (memReservePhysicalMemory p c i st) := by
  rw [Bao.memReservePhysicalMemory]
  have hfirst : Reserving p c deferred s
      (if p.memNonUnified then reserveOwner p c i st .hypImageLoad else st) := by
    by_cases hnon : p.memNonUnified = true
    · rw [if_pos hnon]
      refine h.owner hplaced ?_ (hload hnon)
      unfold staticOwners
      rw [if_pos hnon]
      simp only [List.mem_append, List.mem_singleton]
      exact .inl (.inl (.inl (.inr trivial)))
    · rw [if_neg hnon]
      exact h
  exact ((hfirst.loop hplaced c.images (fun _ => images_static)).loop hplaced c.physRegions
    (fun _ => physRegions_static)).loop hplaced c.physShmems (fun _ => physShmems_static)

theorem MemRegion.Fresh.congr {r : MemRegion M} {s s' : PoolState M} (h : r.Fresh s)
    (hsame : SameLayout s' s) : r.Fresh s' := by
  intro pool hpool
  obtain ⟨i, hi⟩ := List.getElem?_of_mem hpool
  obtain ⟨pool', hpool', hbase, hn, -⟩ := hsame.pool hi
  unfold PagePool.limit
  rw [hbase, hn]
  exact h pool' (List.mem_of_getElem? hpool')

theorem Reserving.memCreatePpools (hplaced : AllPlaced p c)
    (hload : p.memNonUnified = true → deferred .hypImageLoad = false)
    {regions : List (MemRegion M)} (hapart : regions.Pairwise MemRegion.Apart) {s : PoolState M}
    {st st' : InitState M} (h : Reserving p c deferred s st)
    (hfresh : ∀ r ∈ regions, r.Fresh st.pools)
    (hcreate : memCreatePpools p c regions st = some st') :
    ∃ s', Reserving p c deferred s' st' := by
  induction regions generalizing s st with
  | nil =>
      obtain rfl := Option.some.inj hcreate
      exact ⟨s, h⟩
  | cons r rest ih =>
      rw [Bao.memCreatePpools] at hcreate
      cases hinit : st.pools.ppInit r with
      | none =>
          rw [hinit] at hcreate
          cases hcreate
      | some s1 =>
          rw [hinit] at hcreate
          obtain ⟨hr, hrest⟩ := List.pairwise_cons.mp hapart
          have hpools := (ppInit_cases h.held.layout.room hinit).2.1
          have hone : Reserving p c deferred s1 { st with pools := s1 } :=
            ⟨h.held.ppInit (hfresh r List.mem_cons_self) hinit, h.flags, SameLayout.refl s1⟩
          have htwo := hone.memReservePhysicalMemory (i := st.pools.pools.length) hplaced hload
          refine ih hrest htwo (fun q hq => ?_) hcreate
          refine MemRegion.Fresh.congr ?_ htwo.layout
          intro pool hpool
          rw [hpools, List.mem_append, List.mem_singleton] at hpool
          rcases hpool with hold | rfl
          · exact hfresh q (List.mem_cons_of_mem r hq) pool hold
          · rw [limit_poolOfRegion]
            exact Or.symm (hr q hq)

/-! ## The root pool -/

theorem Held.root {owners : List Owner} {range : Owner → Ppages} {done : Owner → Prop}
    {s s' : PoolState M} (h : Held s range done)
    (hrange : ∀ o ∈ owners, p.ppages o = range o)
    (hwell : ∀ o ∈ owners, (range o).WellPlaced M)
    (hdone : ∀ o, done o → (range o).WellPlaced M)
    (hres : ppRootReserveHypMem p owners s = (true, s')) :
    Held s' range (fun o => done o ∨ o ∈ owners) ∧ SameLayout s' s := by
  induction owners generalizing s done with
  | nil =>
      obtain ⟨-, rfl⟩ := Prod.mk.inj hres
      exact ⟨h.subset (fun o ho => ho.resolve_right List.not_mem_nil), SameLayout.refl s⟩
  | cons o rest ih =>
      rw [ppRootReserveHypMem, hrange o List.mem_cons_self] at hres
      cases hfirst : s.reserveIn 0 (range o) with
      | mk ok s1 =>
          simp only [hfirst] at hres
          cases hrest : ppRootReserveHypMem p rest s1 with
          | mk okRest s2 =>
              simp only [hrest] at hres
              obtain ⟨hok, rfl⟩ := Prod.mk.inj hres
              rw [Bool.and_eq_true] at hok
              obtain ⟨rfl, rfl⟩ := hok
              have hwell' := hwell o List.mem_cons_self
              have hone := h.reserveIn hwell' hdone hfirst
              have hdone' : ∀ o', (done o' ∨ o' = o) → (range o').WellPlaced M := by
                rintro o' (ho' | rfl)
                · exact hdone o' ho'
                · exact hwell'
              obtain ⟨htwo, hsame⟩ := ih hone
                (fun o' ho' => hrange o' (List.mem_cons_of_mem o ho'))
                (fun o' ho' => hwell o' (List.mem_cons_of_mem o ho')) hdone' hrest
              refine ⟨htwo.subset ?_, ?_⟩
              · rintro o' (ho' | ho')
                · exact .inl (.inl ho')
                · rcases List.mem_cons.mp ho' with rfl | ho'
                  · exact .inl (.inr rfl)
                  · exact .inr ho'
              · rcases reserveIn_cases hwell' hfirst with ⟨-, -, -, -, -, hsame1, -⟩ | ⟨hno, -⟩
                · exact hsame.trans hsame1
                · cases hno

theorem ppages_root {o : Owner} (h : o ∈ p.rootOwners) : p.ppages o = ppagesFor p c o := by
  unfold Platform.rootOwners at h
  cases o with
  | vmImage i => split at h <;> simp at h
  | vmRegion i j => split at h <;> simp at h
  | shmem k => split at h <;> simp at h
  | hypImageLoad => rfl
  | hypImageNoload => rfl
  | hypData => rfl
  | cpus => rfl

theorem Layout.initial {s : PoolState M} (h : s.Initial) : Layout s := by
  obtain ⟨hlast, hpools, -⟩ := h
  refine ⟨fun i q hq => ?_, by omega, fun i j q r hq => ?_, fun i j q r hq => ?_⟩
  all_goals simp [hpools] at hq

theorem memSetupRootPool_held {s s' : PoolState M} {root : Nat}
    (hapart : p.regions.Pairwise MemRegion.Apart) (hplaced : AllPlaced p c) (hs : s.Initial)
    (h : memSetupRootPool p s = some (root, s')) :
    Held s' (ppagesFor p c) (· ∈ p.rootOwners) ∧
      ∀ r ∈ p.regions.eraseIdx root, r.Fresh s' := by
  rw [memSetupRootPool] at h
  cases hfind : memFindRootRegion p with
  | none =>
      rw [hfind] at h
      cases h
  | some i =>
      rw [hfind] at h
      simp only at h
      cases hregion : p.regions[i]? with
      | none =>
          rw [hregion] at h
          cases h
      | some region =>
          rw [hregion] at h
          obtain ⟨s2, hroot, heq⟩ := Option.map_eq_some_iff.mp h
          obtain ⟨rfl, rfl⟩ := Prod.mk.inj heq
          rw [ppRootInit] at hroot
          cases hinit : s.ppInit region with
          | none =>
              rw [hinit] at hroot
              cases hroot
          | some s1 =>
              rw [hinit] at hroot
              simp only at hroot
              cases hres : ppRootReserveHypMem p p.rootOwners s1 with
              | mk ok s3 =>
                  rw [hres] at hroot
                  cases ok with
                  | false => cases hroot
                  | true =>
                      obtain rfl := Option.some.inj hroot
                      have hfresh : region.Fresh s := fun q hq => by simp [hs.2.1] at hq
                      have hstart : Held s (ppagesFor p c) (fun _ => False) :=
                        ⟨Layout.initial hs, fun _ ho => ho.elim, fun _ _ ho => ho.elim⟩
                      obtain ⟨hheld, hsame⟩ := (hstart.ppInit hfresh hinit).root
                        (fun o ho => ppages_root ho) (fun o ho => hplaced o (rootOwners_static ho))
                        (fun _ ho => ho.elim) hres
                      refine ⟨hheld.subset (fun o ho => .inr ho), fun r hr => ?_⟩
                      refine MemRegion.Fresh.congr ?_ hsame
                      intro q hq
                      rw [(ppInit_cases hstart.layout.room hinit).2.1, hs.2.1, List.nil_append,
                        List.mem_singleton] at hq
                      rw [hq, limit_poolOfRegion]
                      -- the root region is another entry of the list of regions
                      obtain ⟨j, hj, hne, rfl⟩ := List.mem_eraseIdx_iff_getElem.mp hr
                      obtain ⟨hi, rfl⟩ := List.getElem?_eq_some_iff.mp hregion
                      have hpair := List.pairwise_iff_getElem.mp hapart
                      rcases Nat.lt_or_gt_of_ne hne with hlt | hgt
                      · exact hpair j i hj hi hlt
                      · exact Or.symm (hpair i j hi hj hgt)

/-! ## What the configuration places -/

/-- `P` holds for the address and the size of every VM image, every region and
every shared memory with `place_phys`. -/
def Config.ForEach (c : Config) (P : Nat → Nat → Prop) : Prop :=
  (∀ vm ∈ c.vmlist, P vm.image.loadAddr vm.image.size ∧
    ∀ reg ∈ vm.regions, reg.placePhys = true → P reg.phys reg.size) ∧
  ∀ shmem ∈ c.shmemlist, shmem.placePhys = true → P shmem.phys shmem.size

/-- Physical addresses are page-aligned, and images and regions are not empty. -/
def Config.WellFormed (M : Machine) (c : Config) : Prop :=
  c.ForEach (fun base size => M.pageSize ∣ base ∧ 0 < size)

/-- The range, rounded up to pages, does not wrap around the address space. -/
def NoWrap (M : Machine) (base size : Nat) : Prop :=
  size + (M.pageSize - 1) < M.wordCount ∧ base + M.numPages size * M.pageSize ≤ M.wordCount

theorem mem_images {o : Owner} (h : o ∈ c.images) :
    ∃ i vm, o = .vmImage i ∧ c.vmlist[i]? = some vm := by
  obtain ⟨i, hi, rfl⟩ := List.mem_map.mp h
  rw [List.mem_range] at hi
  exact ⟨i, c.vmlist[i], rfl, List.getElem?_eq_getElem hi⟩

theorem mem_physRegions {o : Owner} : o ∈ c.physRegions ↔ ∃ i j vm reg, o = .vmRegion i j ∧
    c.vmlist[i]? = some vm ∧ vm.regions[j]? = some reg ∧ reg.placePhys = true := by
  unfold Config.physRegions
  rw [List.mem_flatMap]
  constructor
  · rintro ⟨⟨vm, i⟩, hvm, h⟩
    obtain ⟨⟨reg, j⟩, hreg, hif⟩ := List.mem_filterMap.mp h
    rw [List.mk_mem_zipIdx_iff_getElem?] at hvm hreg
    cases hphys : reg.placePhys with
    | false => simp [hphys] at hif
    | true =>
        simp only [hphys, if_true, Option.some.injEq] at hif
        exact ⟨i, j, vm, reg, hif.symm, hvm, hreg, hphys⟩
  · rintro ⟨i, j, vm, reg, rfl, hvm, hreg, hphys⟩
    refine ⟨(vm, i), List.mk_mem_zipIdx_iff_getElem?.mpr hvm, ?_⟩
    refine List.mem_filterMap.mpr ⟨(reg, j), List.mk_mem_zipIdx_iff_getElem?.mpr hreg, ?_⟩
    simp only [hphys, if_true]

theorem mem_physShmems {o : Owner} (h : o ∈ c.physShmems) : ∃ k shmem, o = .shmem k ∧
    c.shmemlist[k]? = some shmem ∧ shmem.placePhys = true := by
  obtain ⟨⟨shmem, k⟩, hshmem, hif⟩ := List.mem_filterMap.mp h
  rw [List.mk_mem_zipIdx_iff_getElem?] at hshmem
  cases hphys : shmem.placePhys with
  | false => simp [hphys] at hif
  | true =>
      simp only [hphys, if_true, Option.some.injEq] at hif
      exact ⟨k, shmem, hif.symm, hshmem, hphys⟩

theorem numPages_lt_pageCount {size : Nat} (h : size + (M.pageSize - 1) < M.wordCount) :
    M.numPages size < M.pageCount := by
  rw [M.numPages_eq h, Nat.div_lt_iff_lt_mul M.pageSize_pos, ← M.wordCount_eq]
  exact h

theorem numPages_pos {size : Nat} (h : size + (M.pageSize - 1) < M.wordCount) (hpos : 0 < size) :
    1 ≤ M.numPages size := by
  rw [M.numPages_eq h, Nat.one_le_div_iff M.pageSize_pos]
  omega

theorem wellPlaced_of_noWrap {base size : Nat} (hdvd : M.pageSize ∣ base) (hpos : 0 < size)
    (h : NoWrap M base size) : (memPpagesGet base (M.numPages size)).WellPlaced M :=
  ⟨⟨numPages_lt_pageCount h.1, h.2⟩, numPages_pos h.1 hpos, hdvd⟩

theorem noWrap_of_dvd {base size : Nat} (hdvd : M.pageSize ∣ size) (hpos : 0 < size)
    (hlt : size < M.wordCount) (hle : base + size ≤ M.wordCount) : NoWrap M base size := by
  obtain ⟨k, hk⟩ := hdvd
  rw [Nat.mul_comm] at hk
  subst hk
  have hpage := M.pageSize_pos
  have hcount : k < M.pageCount := by
    rw [M.wordCount_eq] at hlt
    exact Nat.lt_of_mul_lt_mul_right hlt
  have hmul : (k + 1) * M.pageSize ≤ M.pageCount * M.pageSize := Nat.mul_le_mul_right _ hcount
  rw [Nat.succ_mul, ← M.wordCount_eq] at hmul
  refine ⟨by omega, ?_⟩
  rw [M.numPages_mul hlt]
  exact hle

theorem hyp_wellPlaced (p : Platform M) : ∀ o ∈ Owner.hypImageLoad :: p.rootOwners,
    (p.ppages o).WellPlaced M := by
  have hload := p.load_pos
  have hcpus := p.cpus_pos
  have hfit := p.cpus_fit
  have hloadWell : (p.ppages .hypImageLoad).WellPlaced M :=
    wellPlaced_of_noWrap p.img_aligned hload
      (noWrap_of_dvd p.load_aligned hload (by have := p.load_fits; omega)
        (Nat.le_of_lt p.load_fits))
  have hcpuDvd : M.pageSize ∣ p.cpuNum * p.cpuBootAllocSize :=
    Nat.dvd_trans p.cpuBoot_aligned (Nat.dvd_mul_left _ _)
  have hcpuWell : M.pageSize ∣ p.cpuBaseAddr → p.cpuNum * p.cpuBootAllocSize < M.wordCount →
      (p.ppages .cpus).WellPlaced M := by
    intro hdvd hlt
    have hbase : p.cpuBaseAddr < M.wordCount := by
      unfold Platform.cpuBaseAddr
      omega
    unfold Platform.ppages
    simp only [Nat.mod_eq_of_lt hbase, Nat.mod_eq_of_lt hlt]
    exact wellPlaced_of_noWrap hdvd hcpus (noWrap_of_dvd hcpuDvd hcpus hlt hfit)
  intro o ho
  rcases List.mem_cons.mp ho with rfl | ho
  · exact hloadWell
  · unfold Platform.rootOwners at ho
    by_cases hnon : p.memNonUnified = true
    · rw [if_pos hnon] at ho hfit
      have hdata := p.data_pos
      have hdataDvd : M.pageSize ∣ p.dataVmaStart + p.dataSize :=
        Nat.dvd_add p.dataVma_aligned p.data_aligned
      simp only [List.mem_cons, List.not_mem_nil, or_false] at ho
      rcases ho with rfl | rfl
      · exact wellPlaced_of_noWrap p.dataVma_aligned hdata
          (noWrap_of_dvd p.data_aligned hdata (by omega) (by omega))
      · refine hcpuWell ?_ (by omega)
        unfold Platform.cpuBaseAddr
        rw [if_pos hnon]
        exact hdataDvd
    · rw [if_neg hnon] at ho hfit
      have hnoload := p.noload_pos
      have hgapDvd : M.pageSize ∣ p.imgAddr + p.imageLoadSize + p.vmImageSize :=
        Nat.dvd_add (Nat.dvd_add p.img_aligned p.load_aligned) p.vmImage_aligned
      simp only [List.mem_cons, List.not_mem_nil, or_false] at ho
      rcases ho with rfl | rfl | rfl
      · exact hloadWell
      · unfold Platform.ppages
        simp only
        rw [Nat.mod_eq_of_lt (by omega)]
        exact wellPlaced_of_noWrap hgapDvd hnoload
          (noWrap_of_dvd p.noload_aligned hnoload (by omega) (by omega))
      · refine hcpuWell ?_ (by omega)
        unfold Platform.cpuBaseAddr
        rw [if_neg hnon]
        exact Nat.dvd_add hgapDvd p.noload_aligned

theorem allPlaced (hwf : c.WellFormed M) (hwrap : c.ForEach (NoWrap M)) : AllPlaced p c := by
  intro o ho
  unfold staticOwners at ho
  simp only [List.mem_append] at ho
  rcases ho with (((ho | ho) | ho) | ho) | ho
  · rw [← ppages_root ho]
    exact hyp_wellPlaced p o (List.mem_cons_of_mem _ ho)
  · split at ho
    · obtain rfl := List.mem_singleton.mp ho
      exact hyp_wellPlaced p _ List.mem_cons_self
    · exact (List.not_mem_nil ho).elim
  · obtain ⟨i, vm, rfl, hvm⟩ := mem_images ho
    have hmem := List.mem_of_getElem? hvm
    have hplace := (hwf.1 vm hmem).1
    unfold ppagesFor
    simp only [hvm]
    exact wellPlaced_of_noWrap hplace.1 hplace.2 (hwrap.1 vm hmem).1
  · obtain ⟨i, j, vm, reg, rfl, hvm, hreg, hphys⟩ := mem_physRegions.mp ho
    have hmem := List.mem_of_getElem? hvm
    have hmem' := List.mem_of_getElem? hreg
    have hplace := (hwf.1 vm hmem).2 reg hmem' hphys
    unfold ppagesFor
    simp only [hvm, Option.bind_some, hreg]
    exact wellPlaced_of_noWrap hplace.1 hplace.2 ((hwrap.1 vm hmem).2 reg hmem' hphys)
  · obtain ⟨k, shmem, rfl, hshmem, hphys⟩ := mem_physShmems ho
    have hmem := List.mem_of_getElem? hshmem
    have hplace := hwf.2 shmem hmem hphys
    unfold ppagesFor
    simp only [hshmem]
    exact wellPlaced_of_noWrap hplace.1 hplace.2 (hwrap.2 shmem hmem hphys)

/-! ## After `mem_init` -/

/-- The pages of `p` are pages of `q`. -/
def Ppages.Inside (M : Machine) (p q : Ppages) : Prop :=
  q.base ≤ p.base ∧ p.base + p.numPages * M.pageSize ≤ q.base + q.numPages * M.pageSize

/-- An image wholly inside a region with `place_phys` of the same VM. -/
def ImageInRegion (p : Platform M) (c : Config) (o o' : Owner) : Prop :=
  ∃ i j, o = .vmImage i ∧ o' = .vmRegion i j ∧ o' ∈ c.physRegions ∧
    (ppagesFor p c o).Inside M (ppagesFor p c o')

theorem numPages_bounds {size : Nat} (h : size + (M.pageSize - 1) < M.wordCount) :
    size ≤ M.numPages size * M.pageSize ∧ M.numPages size * M.pageSize < size + M.pageSize := by
  have hpage := M.pageSize_pos
  have hdiv := Nat.div_add_mod (size + (M.pageSize - 1)) M.pageSize
  have hmod := Nat.mod_lt (size + (M.pageSize - 1)) hpage
  rw [M.numPages_eq h, Nat.mul_comm]
  omega

theorem inside_of_rangeInRange {base size base' size' : Nat} (h : NoWrap M base size)
    (h' : NoWrap M base' size') (hdvd : M.pageSize ∣ base) (hdvd' : M.pageSize ∣ base')
    (hin : M.rangeInRange base size base' size' = true) :
    (memPpagesGet base (M.numPages size)).Inside M (memPpagesGet base' (M.numPages size')) := by
  have hpage := M.four_le_pageSize
  obtain ⟨h1, h2⟩ := numPages_bounds h.1
  obtain ⟨h1', h2'⟩ := numPages_bounds h'.1
  have hfit := h.2
  have hfit' := h'.2
  have hlimit : M.limit base size = min (base + size) M.sizeMax :=
    M.limit_of_le (by omega) (by have := h.1; omega)
  have hlimit' : M.limit base' size' = min (base' + size') M.sizeMax :=
    M.limit_of_le (by omega) (by have := h'.1; omega)
  rw [Machine.rangeInRange, hlimit, hlimit', Bool.and_eq_true, decide_eq_true_eq,
    decide_eq_true_eq] at hin
  obtain ⟨hlo, hle⟩ := hin
  refine ⟨hlo, ?_⟩
  unfold memPpagesGet
  simp only
  by_cases hpages : base + M.numPages size * M.pageSize ≤ base' + M.numPages size' * M.pageSize
  · exact hpages
  · -- both ends are page boundaries, so they would be a page apart
    have hend : M.pageSize ∣ base + M.numPages size * M.pageSize :=
      Nat.dvd_add hdvd (Nat.dvd_mul_left _ _)
    have hend' : M.pageSize ∣ base' + M.numPages size' * M.pageSize :=
      Nat.dvd_add hdvd' (Nat.dvd_mul_left _ _)
    have hgap := Nat.le_of_dvd (by omega) (Nat.dvd_sub hend hend')
    unfold Machine.sizeMax at hle
    omega

theorem Ppages.Apart.inside {p q r : Ppages} (h : q.Apart M r) (hin : p.Inside M q) :
    p.Apart M r := by
  unfold Ppages.Apart Ppages.Inside at *
  omega

theorem Ppages.Kept.inside {s : PoolState M} {q r : Ppages} (h : q.Kept s)
    (hin : r.Inside M q) : r.Kept s := by
  obtain ⟨i, pool, hpool, ⟨hlo, hhi⟩, hset⟩ := h
  obtain ⟨hlo', hhi'⟩ := hin
  refine ⟨i, pool, hpool, ⟨Nat.le_trans hlo hlo', Nat.le_trans hhi' hhi⟩, fun k hk => hset k ?_⟩
  exact ⟨Nat.le_trans hlo' hk.1, Nat.lt_of_lt_of_le hk.2 hhi'⟩

/-- The reservations hold after `mem_init`. -/
theorem memInit_reserving {c' : Config} {s : PoolState M} {st : InitState M}
    {flags : Owner → Bool} (hapart : p.regions.Pairwise MemRegion.Apart) (hs : s.Initial)
    (hconfig : configInit p c = some c') (hplaced : AllPlaced p c')
    (hinit : memInit p c flags s = some st) :
    (∃ s', Reserving p c' (memInitReserved p c' flags) s' st) ∧
      memCheckReserved p c' st.reserved = true := by
  rw [memInit] at hinit
  cases hroot : memSetupRootPool p s with
  | none =>
      rw [hroot] at hinit
      cases hinit
  | some found =>
      obtain ⟨root, s1⟩ := found
      simp only [hroot, hconfig] at hinit
      obtain ⟨hheld, hfresh⟩ := memSetupRootPool_held hapart hplaced hs hroot
      have hload : p.memNonUnified = true → memInitReserved p c' flags .hypImageLoad = false := by
        intro hnon
        rw [memInitReserved, if_pos hnon]
      have hstart : Reserving p c' (memInitReserved p c' flags) s1
          { pools := s1, reserved := memInitReserved p c' flags } := by
        refine ⟨hheld.subset ?_, fun o ho => ho, SameLayout.refl s1⟩
        rintro o (ho | ⟨-, hflag, hdef⟩)
        · exact ho
        · simp only at hflag
          rw [hflag] at hdef
          cases hdef
      have hmaster := hstart.memReservePhysicalMemory (i := 0) hplaced hload
      cases hcreate : memCreatePpools p c' (p.regions.eraseIdx root)
          (memReservePhysicalMemory p c' 0
            { pools := s1, reserved := memInitReserved p c' flags }) with
      | none =>
          rw [hcreate] at hinit
          cases hinit
      | some st' =>
          rw [hcreate] at hinit
          simp only at hinit
          by_cases hcheck : memCheckReserved p c' st'.reserved = true
          · rw [if_pos hcheck] at hinit
            obtain rfl := Option.some.inj hinit
            refine ⟨Reserving.memCreatePpools hplaced hload ?_ hmaster ?_ hcreate, hcheck⟩
            · exact hapart.sublist (List.eraseIdx_sublist _ _)
            · exact fun r hr => (hfresh r hr).congr hmaster.layout
          · rw [if_neg hcheck] at hinit
            cases hinit

theorem done_or_inside {s : PoolState M} {st : InitState M} {flags : Owner → Bool}
    (hwf : c.WellFormed M) (hwrap : c.ForEach (NoWrap M))
    (h : Reserving p c (memInitReserved p c flags) s st)
    (hcheck : memCheckReserved p c st.reserved = true) {o : Owner} (ho : o ∈ staticOwners p c) :
    Done p c (memInitReserved p c flags) st o ∨
      ∃ o', ImageInRegion p c o o' ∧ Done p c (memInitReserved p c flags) st o' := by
  unfold memCheckReserved at hcheck
  simp only [Bool.and_eq_true] at hcheck
  obtain ⟨⟨⟨hload, himages⟩, hregions⟩, hshmems⟩ := hcheck
  have hregion : ∀ o' ∈ c.physRegions, Done p c (memInitReserved p c flags) st o' := by
    intro o' ho'
    refine .inr ⟨physRegions_static ho', List.all_eq_true.mp hregions o' ho', ?_⟩
    obtain ⟨i, j, vm, reg, rfl, -⟩ := mem_physRegions.mp ho'
    rw [memInitReserved, if_pos ho']
  have hstatic := ho
  unfold staticOwners at ho
  simp only [List.mem_append] at ho
  rcases ho with (((ho | ho) | ho) | ho) | ho
  · exact .inl (.inl ho)
  · by_cases hnon : p.memNonUnified = true
    · rw [if_pos hnon] at ho
      obtain rfl := List.mem_singleton.mp ho
      rw [hnon] at hload
      refine .inl (.inr ⟨hstatic, hload, ?_⟩)
      rw [memInitReserved, if_pos hnon]
    · rw [if_neg hnon] at ho
      exact (List.not_mem_nil ho).elim
  · -- an image that counts as reserved from the start lies inside a region of its VM
    obtain ⟨i, vm, rfl, hvm⟩ := mem_images ho
    cases hdef : memInitReserved p c flags (.vmImage i) with
    | false => exact .inl (.inr ⟨hstatic, List.all_eq_true.mp himages _ ho, hdef⟩)
    | true =>
        simp only [memInitReserved, hvm] at hdef
        obtain ⟨reg, hreg, hin⟩ := List.any_eq_true.mp hdef
        rw [Bool.and_eq_true] at hin
        obtain ⟨j, hj⟩ := List.getElem?_of_mem hreg
        have hmem := List.mem_of_getElem? hvm
        have hphys : Owner.vmRegion i j ∈ c.physRegions :=
          mem_physRegions.mpr ⟨i, j, vm, reg, rfl, hvm, hj, hin.1⟩
        refine .inr ⟨.vmRegion i j, ⟨i, j, rfl, rfl, hphys, ?_⟩, hregion _ hphys⟩
        unfold ppagesFor
        simp only [hvm, Option.bind_some, hj]
        exact inside_of_rangeInRange (hwrap.1 vm hmem).1 ((hwrap.1 vm hmem).2 reg hreg hin.1)
          (hwf.1 vm hmem).1.1 ((hwf.1 vm hmem).2 reg hreg hin.1).1 hin.2
  · exact .inl (hregion o ho)
  · obtain ⟨k, shmem, rfl, -⟩ := mem_physShmems ho
    refine .inl (.inr ⟨hstatic, List.all_eq_true.mp hshmems _ ho, ?_⟩)
    rw [memInitReserved, if_pos ho]

/-- **Isolation at the end of `mem_init`.**  Everything placed statically is
reserved, and apart from images in their own region it is pairwise disjoint. -/
theorem memInit_isolated {c' : Config} {s : PoolState M} {st : InitState M}
    {flags : Owner → Bool} (hapart : p.regions.Pairwise MemRegion.Apart) (hs : s.Initial)
    (hconfig : configInit p c = some c') (hwf : c'.WellFormed M) (hwrap : c'.ForEach (NoWrap M))
    (hinit : memInit p c flags s = some st) :
    Layout st.pools ∧ (∀ o ∈ staticOwners p c', (ppagesFor p c' o).Kept st.pools) ∧
      ∀ o ∈ staticOwners p c', ∀ o' ∈ staticOwners p c', o ≠ o' →
        ¬ ImageInRegion p c' o o' → ¬ ImageInRegion p c' o' o →
        (ppagesFor p c' o).Apart M (ppagesFor p c' o') := by
  have hplaced : AllPlaced p c' := allPlaced hwf hwrap
  obtain ⟨⟨s', h⟩, hcheck⟩ := memInit_reserving hapart hs hconfig hplaced hinit
  have hcases := fun {o} (ho : o ∈ staticOwners p c') => done_or_inside hwf hwrap h hcheck ho
  refine ⟨h.held.layout, fun o ho => ?_, fun o ho o' ho' hne hnot hnot' => ?_⟩
  · rcases hcases ho with hdone | ⟨o', ⟨-, -, -, -, -, hin⟩, hdone⟩
    · exact h.held.kept o hdone
    · exact (h.held.kept o' hdone).inside hin
  · -- replace an image by the region around it, on both sides
    rcases hcases ho with hdone | ⟨q, himg, hdone⟩
    · rcases hcases ho' with hdone' | ⟨q', himg', hdone'⟩
      · exact h.held.apart o o' hdone hdone' hne
      · have hne' : o ≠ q' := fun heq => hnot' (heq ▸ himg')
        obtain ⟨-, -, -, -, -, hin'⟩ := himg'
        exact ((h.held.apart q' o hdone' hdone (Ne.symm hne')).inside hin').symm
    · obtain ⟨i, j, rfl, rfl, -, hin⟩ := id himg
      rcases hcases ho' with hdone' | ⟨q', himg', hdone'⟩
      · have hne' : Owner.vmRegion i j ≠ o' := fun heq => hnot (heq ▸ himg)
        exact (h.held.apart _ o' hdone hdone' hne').inside hin
      · obtain ⟨i', j', rfl, rfl, -, hin'⟩ := id himg'
        have hne' : Owner.vmRegion i j ≠ .vmRegion i' j' := by
          intro heq
          refine hne ?_
          rw [(Owner.vmRegion.inj heq).1]
        exact (((h.held.apart _ _ hdone hdone' hne').inside hin).symm.inside hin').symm

end Init

end Bao

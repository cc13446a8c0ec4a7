import BaoHypervisor.PageAlloc

/-!
# Three views of a coloured block

`pp_alloc_clr` marks the pages of a block by their index in the pool, the
coloured path of `mem_map` lists them from the base of the block, and
`mem_free_ppages` lists them from the index of that base in the pool.  All
three step with `pp_next_clr`, from different bases and with different offsets.
This file shows that they mean the same pages in the same order.
-/

namespace Bao

open BitMemory

variable {M : Machine}

/-- The coloured path of `mem_map`: the virtual address and the physical address
written to the entry of each of `n` pages. -/
def memMapClr (M : Machine) (ppages : Ppages) (fuel : Nat) :
    Nat → Nat → Nat → Option (List (Nat × Nat))
  | 0, _, _ => some []
  | n + 1, vaddr, index =>
      match ppNextClr M ppages.base ppages.colors fuel index with
      | none => none
      | some index =>
          (memMapClr M ppages fuel n ((vaddr + M.pageSize) % M.wordCount)
            ((index + 1) % M.wordCount)).map
              ((vaddr, (ppages.base + index * M.pageSize) % M.wordCount) :: ·)

/-- The entry that the `i`-th page of a block at `va` gets: page `k` of the pool. -/
def PagePool.entryAt (pool : PagePool M) (va : Nat) (i k : Nat) : Nat × Nat :=
  ((va + i * M.pageSize) % M.wordCount, pool.pageAddr k)

/-- The address ranges of different pools are disjoint. -/
def PoolState.Apart (s : PoolState M) : Prop :=
  ∀ (i j : Nat) (p q : PagePool M), s.pools[i]? = some p → s.pools[j]? = some q → i ≠ j →
    p.base + p.numPages * M.pageSize ≤ q.base ∨ q.base + q.numPages * M.pageSize ≤ p.base

/-- The pools have the same place and the same bitmap. -/
structure SamePool (p q : PagePool M) : Prop where
  base : q.base = p.base
  numPages : q.numPages = p.numPages
  bitmap : q.bitmap = p.bitmap

/-! ## Lists of pages -/

theorem onColor_of_allClrs {colors : Nat} (hall : M.allClrs colors = true)
    (hclr : HasColor M colors) (base index : Nat) : onColor M base index colors = true := by
  obtain ⟨c, hc, hbit⟩ := hclr
  have hmasked : ∀ i, i < M.colorNum →
      (colors &&& (2 ^ M.colorNum - 1)).testBit i = colors.testBit i := by
    intro i hi
    rw [Nat.testBit_and, Nat.testBit_two_pow_sub_one, decide_eq_true hi, Bool.and_true]
  unfold Machine.allClrs at hall
  simp only [Bool.or_eq_true, beq_iff_eq] at hall
  have hfull : colors &&& (2 ^ M.colorNum - 1) = 2 ^ M.colorNum - 1 := by
    refine hall.resolve_left fun hzero => ?_
    have hset := hmasked c hc
    rw [hzero, Nat.zero_testBit, hbit] at hset
    cases hset
  unfold onColor
  have hlt := Nat.mod_lt ((index + base / M.pageSize % (M.colorNum * M.colorSize)) % M.wordCount /
    M.colorSize) M.colorNum_pos
  simp only
  rw [← hmasked _ hlt, hfull, Nat.testBit_two_pow_sub_one, decide_eq_true hlt]

theorem clrPages_consecutive {base colors fuel : Nat} (hfuel : fuel ≠ 0)
    (hon : ∀ i, onColor M base i colors = true) (n index : Nat) :
    clrPages M base colors fuel n index = some (List.range' index n) := by
  induction n generalizing index with
  | zero => rfl
  | succ n ih =>
      rw [clrPages, ppNextClr_self hfuel (hon index), List.range'_succ]
      simp only [ih (index + 1), Option.map_some]

theorem fillAt_range' (m : Store) (v : Bool) (p i n : Nat) :
    fillAt m v p (List.range' i n) = fill m v (p + i) n := by
  induction n generalizing m i with
  | zero =>
      funext b
      rw [fill_other (by omega)]
      rfl
  | succ n ih =>
      rw [List.range'_succ, fillAt, ih]
      funext b
      by_cases hfirst : b = p + i
      · rw [hfirst, fill_other (by omega), fill_inside (by omega) (by omega),
          fill_inside (by omega) (by omega)]
      · by_cases hin : p + i ≤ b ∧ b < p + i + (n + 1)
        · rw [fill_inside (by omega) (by omega), fill_inside (by omega) (by omega)]
        · rw [fill_other (by omega), fill_other (by omega), fill_other (by omega)]

theorem fillAt_restores {m : Store} {p : Nat} {l : List Nat} (hfree : ∀ k ∈ l, m (p + k) = false) :
    fillAt (fillAt m true p l) false p l = m := by
  funext b
  by_cases hin : ∃ k ∈ l, b = p + k
  · obtain ⟨k, hk, rfl⟩ := hin
    rw [fillAt_inside hk, hfree k hk]
  · have hout : ∀ k ∈ l, b ≠ p + k := fun k hk heq => hin ⟨k, hk, heq⟩
    rw [fillAt_other hout, fillAt_other hout]

/-! ## Mapping -/

theorem memMapClr_eq {p : Ppages} {fuel n va index : Nat} {l : List Nat}
    (hl : clrPages M p.base p.colors fuel n index = some l) (hin : ∀ k ∈ l, k < M.pageCount)
    (hva : va < M.wordCount) :
    memMapClr M p fuel n va index = some (l.mapIdx fun i k =>
      ((va + i * M.pageSize) % M.wordCount, (p.base + k * M.pageSize) % M.wordCount)) := by
  induction n generalizing index l va with
  | zero =>
      obtain rfl := Option.some.inj hl
      rfl
  | succ n ih =>
      rw [clrPages] at hl
      cases hnext : ppNextClr M p.base p.colors fuel index with
      | none =>
          rw [hnext] at hl
          cases hl
      | some k =>
          rw [hnext] at hl
          obtain ⟨rest, hrest, rfl⟩ := Option.map_eq_some_iff.mp hl
          obtain ⟨hk, hin⟩ := List.forall_mem_cons.mp hin
          have hword := M.four_pageCount_le_wordCount
          have hlt := Nat.mod_lt (va + M.pageSize) (Nat.two_pow_pos M.wordBits)
          rw [memMapClr, hnext]
          simp only [Nat.mod_eq_of_lt (show k + 1 < M.wordCount by omega), ih hrest hin hlt,
            Option.map_some, List.mapIdx_cons, Nat.zero_mul, Nat.add_zero, Nat.mod_eq_of_lt hva,
            Nat.mod_add_mod]
          congr 3
          funext i j
          rw [Nat.add_assoc, Nat.succ_mul, Nat.add_comm M.pageSize]

/-! ## Freeing -/

theorem PagePool.freeClr_of_pages {pool : PagePool M} {colors fuel n index : Nat} {l : List Nat}
    (hl : clrPages M pool.base colors fuel n index = some l) (m : Store) :
    pool.freeClr colors fuel n m index = some (fillAt m false pool.bitmap l) := by
  induction n generalizing index l m with
  | zero =>
      obtain rfl := Option.some.inj hl
      rfl
  | succ n ih =>
      rw [clrPages] at hl
      cases hnext : ppNextClr M pool.base colors fuel index with
      | none =>
          rw [hnext] at hl
          cases hl
      | some k =>
          rw [hnext] at hl
          obtain ⟨rest, hrest, rfl⟩ := Option.map_eq_some_iff.mp hl
          rw [PagePool.freeClr, hnext]
          simp only [bitmapClear_eq]
          exact ih hrest _

theorem PagePool.pageAddr_add (pool : PagePool M) (i j : Nat) :
    pool.pageAddr i + j * M.pageSize = pool.pageAddr (i + j) := by
  rw [PagePool.pageAddr, PagePool.pageAddr, Nat.add_mul, Nat.add_assoc]

theorem PagePool.pageAddr_lt (pool : PagePool M) {k : Nat} (hk : k < pool.numPages) :
    pool.pageAddr k < M.wordCount := by
  have hlt : k * M.pageSize < pool.numPages * M.pageSize :=
    Nat.mul_lt_mul_of_pos_right hk M.pageSize_pos
  have hfits := pool.fits
  unfold PagePool.pageAddr
  omega

theorem PagePool.inRange_pageAddr (pool : PagePool M) {k : Nat} (hk : k < pool.numPages) :
    M.inRange (pool.pageAddr k) pool.base (pool.numPages * M.pageSize) = true := by
  have hend : k * M.pageSize + M.pageSize ≤ pool.numPages * M.pageSize := by
    rw [← Nat.succ_mul]
    exact Nat.mul_le_mul_right _ hk
  have hfits := pool.fits
  have hpage := M.four_le_pageSize
  have hbytes := PagePool.bytes_lt pool.numPages_lt
  unfold Machine.inRange PagePool.pageAddr
  rw [M.rangeInRange_iff (by omega) (by omega) hfits hbytes
    (Nat.dvd_add pool.aligned (Nat.dvd_mul_left _ _))]
  omega

theorem PagePool.not_inRange_pageAddr {pool q : PagePool M} {k : Nat} (hk : k < pool.numPages)
    (hapart : pool.base + pool.numPages * M.pageSize ≤ q.base ∨
      q.base + q.numPages * M.pageSize ≤ pool.base) :
    M.inRange (pool.pageAddr k) q.base (q.numPages * M.pageSize) = false := by
  have hend : k * M.pageSize + M.pageSize ≤ pool.numPages * M.pageSize := by
    rw [← Nat.succ_mul]
    exact Nat.mul_le_mul_right _ hk
  have hfits := pool.fits
  have hpage := M.four_le_pageSize
  have hbytes := PagePool.bytes_lt q.numPages_lt
  have hbytes' := PagePool.bytes_lt pool.numPages_lt
  unfold Machine.inRange PagePool.pageAddr
  rw [Bool.eq_false_iff]
  intro hin
  rw [M.rangeInRange_iff (by omega) (by omega) q.fits hbytes
    (Nat.dvd_add q.aligned (Nat.dvd_mul_left _ _))] at hin
  omega

/-- **A block of a pool**: the pages `l` are listed from its base. -/
structure PagePool.Block (pool : PagePool M) (p : Ppages) (l : List Nat) : Prop where
  inPool : ∀ k ∈ l, k < pool.numPages
  length : l.length = p.numPages
  color : HasColor M p.colors
  start : p.numPages ≠ 0 → ∃ first, first < pool.numPages ∧ p.base = pool.pageAddr first ∧
    ∃ fuel, clrPages M pool.base p.colors fuel p.numPages first = some l

theorem hasColor_of_onColor {base index colors : Nat}
    (h : onColor M base index colors = true) : HasColor M colors :=
  ⟨_, Nat.mod_lt _ M.colorNum_pos, h⟩

/-- What `pp_alloc_clr` takes is a block of the pool. -/
theorem PagePool.TakesClr.block {m m' : Store} {pool pool' : PagePool M} {n colors : Nat}
    {out : Ppages} {l : List Nat} (h : pool.TakesClr m m' pool' n colors out l)
    (hclr : HasColor M colors) : pool.Block out l := by
  obtain ⟨hpages, hlen, ⟨fuel, first, hl, hon, rfl⟩, _, _⟩ := h
  refine ⟨fun k hk => (hpages.free k hk).1, hlen, hclr, fun hpos => ⟨first, ?_, rfl, fuel, hl⟩⟩
  -- the first page of the list is the base of the block
  have hfuel : fuel ≠ 0 := by
    rintro rfl
    obtain ⟨n, rfl⟩ := Nat.exists_eq_succ_of_ne_zero hpos
    cases hl
  obtain ⟨n, rfl⟩ := Nat.exists_eq_succ_of_ne_zero hpos
  rw [clrPages, ppNextClr_self hfuel (hon (Nat.succ_ne_zero n))] at hl
  obtain ⟨rest, _, rfl⟩ := Option.map_eq_some_iff.mp hl
  exact (hpages.free first List.mem_cons_self).1

/-- **The mapped pages** of a block are its pages in order. -/
theorem PagePool.Block.mapped {pool : PagePool M} {p : Ppages} {l : List Nat}
    (h : pool.Block p l) {va : Nat} (hva : va < M.wordCount) :
    ∃ enough, ∀ fuel, enough ≤ fuel →
      memMapClr M p fuel p.numPages va 0 = some (l.mapIdx (pool.entryAt va)) := by
  by_cases hzero : p.numPages = 0
  · have hnil : l = [] := List.eq_nil_of_length_eq_zero (h.length.trans hzero)
    subst hnil
    exact ⟨0, fun fuel _ => by rw [hzero]; rfl⟩
  · obtain ⟨first, hfirst, hbase, enough, hl⟩ := h.start hzero
    have hlt := pool.numPages_lt
    have hin : ∀ k ∈ l, k < M.pageCount := fun k hk => Nat.lt_trans (h.inPool k hk) hlt
    obtain ⟨l', hl', rfl⟩ := clrPages_unshift h.color (Nat.lt_trans hfirst hlt)
      (Nat.zero_le M.pageCount) hin hl
    have hin' : ∀ k ∈ l', k < M.pageCount := fun k hk => by
      have := hin (first + k) (List.mem_map_of_mem hk)
      omega
    refine ⟨enough, fun fuel hfuel => ?_⟩
    have hmono := clrPages_mono hfuel hl'
    rw [← PagePool.pageAddr, ← hbase] at hmono
    rw [memMapClr_eq hmono hin' hva]
    congr 1
    rw [List.mapIdx_eq_iff]
    intro i
    rw [List.getElem?_mapIdx, List.getElem?_map]
    cases hget : l'[i]? with
    | none => rfl
    | some k =>
        have hk := h.inPool (first + k) (List.mem_map_of_mem (List.mem_of_getElem? hget))
        simp only [Option.map_some, PagePool.entryAt, hbase]
        rw [PagePool.pageAddr_add, Nat.mod_eq_of_lt (pool.pageAddr_lt hk)]

/-- **The freed pages** of a block, in any state of its pool, are its pages. -/
theorem PagePool.Block.freed {pool q : PagePool M} {p : Ppages} {l : List Nat}
    (h : pool.Block p l) (hsame : SamePool pool q) :
    ∃ enough, ∀ fuel, enough ≤ fuel → ∀ m,
      q.memFreePpages fuel p m = some (fillAt m false pool.bitmap l) := by
  by_cases hzero : p.numPages = 0
  · have hnil : l = [] := List.eq_nil_of_length_eq_zero (h.length.trans hzero)
    subst hnil
    refine ⟨0, fun fuel _ m => ?_⟩
    rw [PagePool.memFreePpages]
    simp only [hzero, PagePool.freeClr, bitmapClearConsecutive, ite_self, fillAt]
  · obtain ⟨first, hfirst, hbase, enough, hl⟩ := h.start hzero
    have hin := pool.inRange_pageAddr hfirst
    have hoff : (pool.pageAddr first - pool.base) / M.pageSize = first := by
      rw [PagePool.pageAddr, Nat.add_sub_cancel_left, Nat.mul_div_cancel _ M.pageSize_pos]
    rw [← hsame.base] at hl
    refine ⟨enough, fun fuel hfuel m => ?_⟩
    rw [PagePool.memFreePpages, hbase, hsame.base, hsame.numPages, hsame.bitmap, hin, if_pos rfl]
    simp only [hoff]
    by_cases hall : M.allClrs p.colors = true
    · -- a full colour map: the list is consecutive
      have hne : enough ≠ 0 := by
        rintro rfl
        obtain ⟨n, hn⟩ := Nat.exists_eq_succ_of_ne_zero hzero
        rw [hn] at hl
        cases hl
      rw [clrPages_consecutive hne (onColor_of_allClrs hall h.color q.base)] at hl
      obtain rfl := Option.some.inj hl
      rw [if_pos hall, bitmapClearConsecutive_eq, fillAt_range']
    · rw [if_neg hall, ← hsame.bitmap]
      exact PagePool.freeClr_of_pages (clrPages_mono hfuel hl) m

/-- **Freeing over all pools** clears the pages of a block in its pool, and
nothing in the others when the pools are apart. -/
theorem PagePool.Block.freed_all {pool q : PagePool M} {p : Ppages} {l : List Nat}
    (h : pool.Block p l) {s : PoolState M} {i : Nat} (hq : s.pools[i]? = some q)
    (hsame : SamePool pool q) (hapart : s.Apart) :
    ∃ enough, ∀ fuel, enough ≤ fuel →
      s.memFreePpages fuel p = some { s with bits := fillAt s.bits false pool.bitmap l } := by
  obtain ⟨enough, hfreed⟩ := h.freed hsame
  refine ⟨enough, fun fuel hfuel => ?_⟩
  have hother : ∀ j r, s.pools[j]? = some r → j ≠ i → ∀ m, r.memFreePpages fuel p m = some m := by
    intro j r hr hj m
    rw [PagePool.memFreePpages]
    by_cases hzero : p.numPages = 0
    · simp only [hzero, PagePool.freeClr, bitmapClearConsecutive, ite_self]
    · obtain ⟨first, hfirst, hbase, _⟩ := h.start hzero
      have hranges := hapart i j q r hq hr hj.symm
      rw [hsame.base, hsame.numPages] at hranges
      rw [hbase, PagePool.not_inRange_pageAddr hfirst hranges, if_neg Bool.false_ne_true]
  obtain ⟨hlt, rfl⟩ := List.getElem?_eq_some_iff.mp hq
  have hsplit : s.pools = s.pools.take i ++ s.pools[i] :: s.pools.drop (i + 1) := by
    rw [List.getElem_cons_drop, List.take_append_drop]
  have hbefore : ∀ r ∈ s.pools.take i, ∀ m, r.memFreePpages fuel p m = some m := by
    intro r hr
    obtain ⟨j, hj⟩ := List.mem_iff_getElem?.mp hr
    rw [List.getElem?_take] at hj
    by_cases hji : j < i
    · rw [if_pos hji] at hj
      exact hother j r hj (Nat.ne_of_lt hji)
    · rw [if_neg hji] at hj
      cases hj
  have hafter : ∀ r ∈ s.pools.drop (i + 1), ∀ m, r.memFreePpages fuel p m = some m := by
    intro r hr
    obtain ⟨j, hj⟩ := List.mem_iff_getElem?.mp hr
    rw [List.getElem?_drop] at hj
    exact hother (i + 1 + j) r hj (by omega)
  rw [PoolState.memFreePpages, hsplit, List.foldl_append, foldl_bind_same hbefore, List.foldl_cons,
    Option.bind_some, hfreed fuel hfuel, foldl_bind_same hafter, Option.map_some]

theorem PoolState.Apart.setPool {s : PoolState M} {i : Nat} {pool pool' : PagePool M} {m : Store}
    (h : s.Apart) (hpool : s.pools[i]? = some pool) (hsame : SamePool pool pool') :
    (s.setPool i m pool').Apart := by
  have hold : ∀ (j : Nat) (r : PagePool M), (s.setPool i m pool').pools[j]? = some r →
      ∃ q, s.pools[j]? = some q ∧ r.base = q.base ∧ r.numPages = q.numPages := by
    intro j r hr
    simp only [PoolState.setPool, List.getElem?_set] at hr
    by_cases hj : i = j
    · subst hj
      rw [if_pos rfl, if_pos (List.getElem?_eq_some_iff.mp hpool).1] at hr
      obtain rfl := Option.some.inj hr
      exact ⟨pool, hpool, hsame.base, hsame.numPages⟩
    · rw [if_neg hj] at hr
      exact ⟨r, hr, rfl, rfl⟩
  intro j k p q hp hq hne
  obtain ⟨p', hp', hbase, hnum⟩ := hold j p hp
  obtain ⟨q', hq', hbase', hnum'⟩ := hold k q hq
  rw [hbase, hnum, hbase', hnum']
  exact h j k p' q' hp' hq' hne

/-- **Three views of a coloured block agree.**  The pages `l` that a successful
`pp_alloc_clr` marks are, in this order, the pages that the coloured path of
`mem_map` maps, and the pages that `mem_free_ppages` clears, in its pool as in
all pools; so freeing the block right away restores the bitmaps. -/
theorem colored_views_agree {s : PoolState M} {i n colors fuel : Nat} {pool pool' : PagePool M}
    {out out' : Ppages} {m' : Store} (hpool : s.pools[i]? = some pool)
    (h : pool.ppAllocClr s.bits n colors fuel out = some (true, out', m', pool')) :
    ∃ l : List Nat, l.length = n ∧ l.Pairwise (· < ·) ∧ (∀ k ∈ l, k < pool.numPages) ∧
      ((∀ b, m' b ≠ s.bits b ↔ ∃ k ∈ l, b = pool.bitmap + k) ∧
        ∀ k ∈ l, m' (pool.bitmap + k) = true) ∧
      (∀ va, va < M.wordCount → ∃ enough, ∀ fuel, enough ≤ fuel →
        memMapClr M out' fuel out'.numPages va 0 = some (l.mapIdx (pool.entryAt va))) ∧
      (∀ q, SamePool pool q → ∃ enough, ∀ fuel, enough ≤ fuel → ∀ m,
        q.memFreePpages fuel out' m = some (fillAt m false pool.bitmap l)) ∧
      (∀ (t : PoolState M) (j : Nat) (q : PagePool M), t.pools[j]? = some q → SamePool pool q → t.Apart →
        ∃ enough, ∀ fuel, enough ≤ fuel → t.memFreePpages fuel out' =
          some { t with bits := fillAt t.bits false pool.bitmap l }) ∧
      (s.Apart → ∃ enough, ∀ fuel, enough ≤ fuel →
        (s.setPool i m' pool').memFreePpages fuel out' =
          some { s.setPool i m' pool' with bits := s.bits }) := by
  have hclr : HasColor M colors := by
    rw [PagePool.ppAllocClr] at h
    cases hstart : ppNextClr M pool.base colors fuel pool.last with
    | none =>
        rw [hstart] at h
        cases h
    | some index => exact hasColor_of_onColor (ppNextClr_onColor hstart)
  obtain ⟨_, l, htakes⟩ | ⟨hfalse, _⟩ := PagePool.ppAllocClr_cases h
  · have hblock := htakes.block hclr
    have hfree : ∀ k ∈ l, s.bits (pool.bitmap + k) = false := fun k hk => (htakes.pages.free k hk).2
    have hbits : m' = fillAt s.bits true pool.bitmap l := htakes.bits
    have hsame : SamePool pool pool' := by
      obtain ⟨last, rfl⟩ := htakes.pool_eq
      exact ⟨rfl, rfl, rfl⟩
    refine ⟨l, htakes.length, htakes.pages.increasing, hblock.inPool, ⟨fun b => ?_, fun k hk => ?_⟩,
      fun va hva => hblock.mapped hva, fun q hq => hblock.freed hq,
      fun t j q hq hsameq hapart => hblock.freed_all hq hsameq hapart, fun hapart => ?_⟩
    · constructor
      · intro hne
        by_contra hout
        refine hne ?_
        rw [hbits, fillAt_other fun k hk heq => hout ⟨k, hk, heq⟩]
      · rintro ⟨k, hk, rfl⟩ heq
        rw [hbits, fillAt_inside hk, hfree k hk] at heq
        cases heq
    · rw [hbits, fillAt_inside hk]
    · have hlt := (List.getElem?_eq_some_iff.mp hpool).1
      have hnow : (s.setPool i m' pool').pools[i]? = some pool' := List.getElem?_set_self hlt
      obtain ⟨enough, hall⟩ := hblock.freed_all hnow hsame (hapart.setPool hpool hsame)
      refine ⟨enough, fun fuel hfuel => ?_⟩
      rw [hall fuel hfuel]
      have hback : fillAt (s.setPool i m' pool').bits false pool.bitmap l = s.bits := by
        rw [PoolState.setPool, hbits]
        exact fillAt_restores hfree
      rw [hback]
  · cases hfalse

/-- A 64-bit target with four colours of two pages each. -/
def fourColors : Machine :=
  { Machine.mmu64 with
    colorNum := 4
    colorSize := 2
    colorNum_pos := by decide
    colorSize_pos := by decide
    colors_fit := by decide }

/-- Sixteen free pages from page 3 on, to be searched from the sixth on. -/
def sixteenPages : PagePool fourColors where
  base := 3 * 4096
  numPages := 16
  free := 16
  last := 5
  bitmap := 0
  aligned := by decide
  numPages_lt := by decide
  fits := by decide

/-- That pool alone, with nothing taken. -/
def sixteenFree : PoolState fourColors where
  bits := fun _ => false
  lastIndex := 2
  pools := [sixteenPages]

/-- Three pages of the first and the third colour, found at pages 5, 6 and 9 of
the pool, are mapped and freed as the same block. -/
theorem colored_views_agree_sixteen :
    ∃ (out : Ppages) (m : Store) (pool : PagePool fourColors),
      sixteenPages.ppAllocClr sixteenFree.bits 3 5 100 noPpages = some (true, out, m, pool) ∧
      out = { base := 8 * 4096, numPages := 3, colors := 5 } ∧
      ∃ enough, ∀ fuel, enough ≤ fuel → (sixteenFree.setPool 0 m pool).memFreePpages fuel out =
        some { sixteenFree.setPool 0 m pool with bits := sixteenFree.bits } := by
  have hapart : sixteenFree.Apart := by
    intro i j p q hp hq hne
    have hi := (List.getElem?_eq_some_iff.mp hp).1
    have hj := (List.getElem?_eq_some_iff.mp hq).1
    simp only [sixteenFree, List.length_singleton] at hi hj
    omega
  have halloc : ∃ m pool, sixteenPages.ppAllocClr sixteenFree.bits 3 5 100 noPpages =
      some (true, { base := 8 * 4096, numPages := 3, colors := 5 }, m, pool) := ⟨_, _, rfl⟩
  obtain ⟨m, pool, halloc⟩ := halloc
  obtain ⟨_, _, _, _, _, _, _, _, hrestores⟩ := colored_views_agree (i := 0) rfl halloc
  exact ⟨_, m, pool, halloc, rfl, hrestores hapart⟩

end Bao

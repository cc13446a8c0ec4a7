import BaoHypervisor.PoolSystem

/-!
# Allocating pages from all pools

`mem_alloc_ppages` asks the pools one after the other, with colours or
without, and `mem_free_ppages` gives pages back.  A `struct ppages` stands for
a set of pages, consecutive ones or consecutive ones of a colour map; here an
allocation is described by its pages, whichever allocator served it.
-/

namespace Bao

open BitMemory

variable {M : Machine}

/-- `mem_ppages_get`. -/
def memPpagesGet (base numPages : Nat) : Ppages :=
  { base := base, numPages := numPages, colors := 0 }

/-- The page at address `a` is one of the pages of `p`. -/
def Ppages.Page (M : Machine) (p : Ppages) (a : Nat) : Prop :=
  if M.allClrs p.colors then ∃ i, i < p.numPages ∧ a = p.base + i * M.pageSize
  else ∃ fuel l i, clrPages M p.base p.colors fuel p.numPages 0 = some l ∧ i ∈ l ∧
    a = p.base + i * M.pageSize

/-- The page at address `a` is page `i` of the pool. -/
def PagePool.PageAt (pool : PagePool M) (i a : Nat) : Prop :=
  i < pool.numPages ∧ a = pool.pageAddr i

theorem allClrs_zero : M.allClrs 0 = true := by
  unfold Machine.allClrs
  simp only [Nat.zero_and, BEq.rfl, Bool.true_or]

theorem page_memPpagesGet {base n a : Nat} :
    (memPpagesGet base n).Page M a ↔ ∃ i, i < n ∧ a = base + i * M.pageSize := by
  unfold Ppages.Page memPpagesGet
  rw [if_pos allClrs_zero]

theorem not_page_of_empty {p : Ppages} (hzero : p.numPages = 0) {a : Nat} : ¬ p.Page M a := by
  intro hpage
  unfold Ppages.Page at hpage
  rw [hzero] at hpage
  by_cases hall : M.allClrs p.colors
  · rw [if_pos hall] at hpage
    obtain ⟨i, hi, -⟩ := hpage
    omega
  · rw [if_neg hall] at hpage
    obtain ⟨fuel, l, i, hl, hi, -⟩ := hpage
    obtain rfl := Option.some.inj hl
    exact List.not_mem_nil hi

/-! ## Colours of a pool and of a range in it -/

theorem color_eq (x : Nat) : x / M.colorSize % M.colorNum =
    x % (M.colorNum * M.colorSize) / M.colorSize := by
  rw [Nat.mul_comm M.colorNum, Nat.mod_mul_right_div_self]

theorem onColor_shift {base k i colors : Nat} (hword : k + i + M.pageCount ≤ M.wordCount) :
    onColor M (base + k * M.pageSize) i colors = onColor M base (k + i) colors := by
  have hpage := M.pageSize_pos
  have hperiod := M.colorPeriod_pos
  have hle := M.colorPeriod_le
  have hoff := Nat.mod_lt (base / M.pageSize) hperiod
  have hoff' := Nat.mod_lt (base / M.pageSize + k) hperiod
  unfold onColor
  simp only
  rw [Nat.add_mul_div_right _ _ hpage, Nat.mod_eq_of_lt (a := i + _) (by omega),
    Nat.mod_eq_of_lt (a := k + i + _) (by omega)]
  congr 1
  -- both page numbers agree modulo the period of the colour map
  have hmod : (i + (base / M.pageSize + k) % (M.colorNum * M.colorSize)) %
      (M.colorNum * M.colorSize) =
      (k + i + base / M.pageSize % (M.colorNum * M.colorSize)) % (M.colorNum * M.colorSize) := by
    rw [Nat.add_mod_mod, Nat.add_mod_mod]
    congr 1
    omega
  rw [color_eq, color_eq (k + i + _), hmod]

/-- The colour map has a colour of the machine. -/
def HasColor (M : Machine) (colors : Nat) : Prop := ∃ c, c < M.colorNum ∧ colors.testBit c = true

theorem exists_color {colors : Nat} (hclr : M.allClrs colors = false) : HasColor M colors := by
  unfold Machine.allClrs at hclr
  simp only [Bool.or_eq_false_iff, beq_eq_false_iff_ne] at hclr
  obtain ⟨c, hc⟩ := Nat.exists_testBit_of_ne_zero hclr.1
  rw [Nat.testBit_and, Nat.testBit_two_pow_sub_one, Bool.and_eq_true, decide_eq_true_eq] at hc
  exact ⟨c, hc.2, hc.1⟩

theorem exists_onColor (base index : Nat) {colors : Nat} (hclr : HasColor M colors)
    (hword : index + 2 * M.pageCount ≤ M.wordCount) :
    ∃ t, index ≤ t ∧ t < index + M.colorNum * M.colorSize ∧ onColor M base t colors = true := by
  obtain ⟨c, hc, hbit⟩ := hclr
  have hperiod := M.colorPeriod_pos
  have hle := M.colorPeriod_le
  have hsize := M.colorSize_pos
  have hoff := Nat.mod_lt (base / M.pageSize) hperiod
  have hslot : c * M.colorSize < M.colorNum * M.colorSize := Nat.mul_lt_mul_of_pos_right hc hsize
  -- the first page from `index` on that stands at the start of colour `c`
  let first := index + base / M.pageSize % (M.colorNum * M.colorSize)
  let gap := (M.colorNum * M.colorSize + c * M.colorSize -
    first % (M.colorNum * M.colorSize)) % (M.colorNum * M.colorSize)
  have hgap : gap < M.colorNum * M.colorSize := Nat.mod_lt _ hperiod
  have hfirst := Nat.mod_lt first hperiod
  have hsum : (first + gap) % (M.colorNum * M.colorSize) = c * M.colorSize := by
    have hdiv := Nat.div_add_mod first (M.colorNum * M.colorSize)
    rw [Nat.add_mod_mod, ← Nat.add_sub_assoc (by omega)]
    rw [show first + (M.colorNum * M.colorSize + c * M.colorSize) -
        first % (M.colorNum * M.colorSize) = c * M.colorSize + M.colorNum * M.colorSize +
          M.colorNum * M.colorSize * (first / (M.colorNum * M.colorSize)) by omega,
      Nat.add_mul_mod_self_left, Nat.add_mod_right, Nat.mod_eq_of_lt hslot]
  refine ⟨index + gap, Nat.le_add_right _ _, by omega, ?_⟩
  unfold onColor
  simp only
  rw [Nat.mod_eq_of_lt (a := index + gap + _) (by omega),
    show index + gap + base / M.pageSize % (M.colorNum * M.colorSize) = first + gap by
      simp only [first]; omega,
    color_eq, hsum, Nat.mul_div_cancel _ hsize]
  exact hbit

theorem ppNextClr_mono {base colors fuel fuel' index r : Nat} (hle : fuel ≤ fuel')
    (h : ppNextClr M base colors fuel index = some r) :
    ppNextClr M base colors fuel' index = some r := by
  induction fuel generalizing index fuel' with
  | zero => cases h
  | succ fuel ih =>
      obtain ⟨k, rfl⟩ : ∃ k, fuel' = k + 1 := ⟨fuel' - 1, by omega⟩
      rw [ppNextClr] at h ⊢
      by_cases hon : onColor M base index colors
      · rw [if_pos hon] at h ⊢
        exact h
      · rw [if_neg hon] at h ⊢
        exact ih (by omega) h

theorem ppNextClr_ends {base colors index t : Nat} (ht : t < M.wordCount) (hle : index ≤ t)
    (hon : onColor M base t colors = true) :
    ∃ r, ppNextClr M base colors (t - index + 1) index = some r := by
  obtain ⟨d, rfl⟩ : ∃ d, t = index + d := ⟨t - index, by omega⟩
  rw [Nat.add_sub_cancel_left]
  clear hle
  induction d generalizing index with
  | zero => exact ⟨index, ppNextClr_self (by decide) hon⟩
  | succ d ih =>
      rw [ppNextClr]
      by_cases hhere : onColor M base index colors
      · exact ⟨index, if_pos hhere⟩
      · rw [if_neg hhere, Nat.mod_eq_of_lt (by omega)]
        exact ih (by omega) (by rwa [Nat.add_right_comm, Nat.add_assoc])

theorem ppNextClr_ends_of_later {base colors fuel d index : Nat}
    (h : ∃ r, ppNextClr M base colors fuel ((index + d) % M.wordCount) = some r)
    (hindex : index < M.wordCount) :
    ∃ r, ppNextClr M base colors (fuel + d) index = some r := by
  induction d generalizing index with
  | zero => rwa [Nat.add_zero, Nat.mod_eq_of_lt hindex] at h
  | succ d ih =>
      rw [← Nat.add_assoc, ppNextClr]
      by_cases hhere : onColor M base index colors
      · exact ⟨index, if_pos hhere⟩
      · rw [if_neg hhere]
        refine ih ?_ (Nat.mod_lt _ (Nat.two_pow_pos _))
        rwa [Nat.mod_add_mod, Nat.add_assoc, Nat.add_comm 1]

/-- **The search for a colour ends**, also when it wraps around the address space. -/
theorem ppNextClr_total {colors : Nat} (hclr : HasColor M colors) (base index : Nat) :
    ∃ fuel r, ppNextClr M base colors fuel index = some r := by
  have hword := M.four_pageCount_le_wordCount
  have hle := M.colorPeriod_le
  obtain ⟨t, -, ht, hon⟩ := exists_onColor base 0 hclr (by omega)
  have hzero := ppNextClr_ends (by omega) (Nat.zero_le t) hon
  by_cases hindex : index < M.wordCount
  · refine ⟨t - 0 + 1 + (M.wordCount - index), ppNextClr_ends_of_later ?_ hindex⟩
    rwa [Nat.add_sub_cancel' (Nat.le_of_lt hindex), Nat.mod_self]
  · refine ⟨t - 0 + 1 + (M.wordCount - (index + 1) % M.wordCount) + 1, ?_⟩
    rw [ppNextClr]
    by_cases hhere : onColor M base index colors
    · exact ⟨index, if_pos hhere⟩
    · rw [if_neg hhere]
      have hlt := Nat.mod_lt (index + 1) (Nat.two_pow_pos M.wordBits)
      refine ppNextClr_ends_of_later ?_ hlt
      rwa [Nat.add_sub_cancel' (Nat.le_of_lt hlt), Nat.mod_self]

theorem clrPages_mono {base colors fuel fuel' n index : Nat} {l : List Nat} (hle : fuel ≤ fuel')
    (h : clrPages M base colors fuel n index = some l) :
    clrPages M base colors fuel' n index = some l := by
  induction n generalizing index l with
  | zero => exact h
  | succ n ih =>
      rw [clrPages] at h ⊢
      cases hnext : ppNextClr M base colors fuel index with
      | none => rw [hnext] at h; cases h
      | some i =>
          rw [hnext] at h
          obtain ⟨rest, hrest, rfl⟩ := Option.map_eq_some_iff.mp h
          rw [ppNextClr_mono hle hnext]
          simp only [ih hrest, Option.map_some]

theorem clrPages_unique {base colors fuel fuel' n index : Nat} {l l' : List Nat}
    (h : clrPages M base colors fuel n index = some l)
    (h' : clrPages M base colors fuel' n index = some l') : l = l' := by
  have h1 := clrPages_mono (Nat.le_max_left fuel fuel') h
  have h2 := clrPages_mono (Nat.le_max_right fuel fuel') h'
  rw [h1] at h2
  exact Option.some.inj h2

theorem clrPages_total {colors : Nat} (hclr : HasColor M colors) (base n index : Nat) :
    ∃ fuel l, clrPages M base colors fuel n index = some l := by
  induction n generalizing index with
  | zero => exact ⟨0, [], rfl⟩
  | succ n ih =>
      obtain ⟨fuel, i, hi⟩ := ppNextClr_total hclr base index
      obtain ⟨fuel', l, hl⟩ := ih (i + 1)
      refine ⟨max fuel fuel', i :: l, ?_⟩
      rw [clrPages, ppNextClr_mono (Nat.le_max_left _ _) hi]
      simp only [clrPages_mono (Nat.le_max_right _ _) hl, Option.map_some]

theorem ppNextClr_shift (fuel : Nat) {base k colors index t : Nat} (hle : index ≤ t)
    (hword : k + t + M.pageCount ≤ M.wordCount)
    (hon : onColor M (base + k * M.pageSize) t colors = true) :
    ppNextClr M base colors fuel (k + index) =
      (ppNextClr M (base + k * M.pageSize) colors fuel index).map (k + ·) := by
  have hpos := M.pageCount_pos
  induction fuel generalizing index with
  | zero => rfl
  | succ fuel ih =>
      rw [ppNextClr, ppNextClr, onColor_shift (by omega)]
      by_cases hhere : onColor M base (k + index) colors
      · rw [if_pos hhere, if_pos hhere, Option.map_some]
      · have hne : index ≠ t := by
          rintro rfl
          rw [onColor_shift hword] at hon
          exact hhere hon
        rw [if_neg hhere, if_neg hhere, Nat.mod_eq_of_lt (by omega), Nat.mod_eq_of_lt (by omega),
          Nat.add_assoc]
        exact ih (by omega)

theorem clrPages_shift {base k colors fuel n index : Nat} {l : List Nat}
    (hclr : HasColor M colors) (hk : k < M.pageCount) (hindex : index ≤ M.pageCount)
    (hin : ∀ i ∈ l, i < M.pageCount)
    (hl : clrPages M (base + k * M.pageSize) colors fuel n index = some l) :
    clrPages M base colors fuel n (k + index) = some (l.map (k + ·)) := by
  induction n generalizing index l with
  | zero =>
      obtain rfl := Option.some.inj hl
      rfl
  | succ n ih =>
      have hword := M.four_pageCount_le_wordCount
      have hle := M.colorPeriod_le
      obtain ⟨t, ht, ht', hon⟩ := exists_onColor (base + k * M.pageSize) index hclr
        (by omega)
      rw [clrPages] at hl
      cases hnext : ppNextClr M (base + k * M.pageSize) colors fuel index with
      | none => rw [hnext] at hl; cases hl
      | some i =>
          rw [hnext] at hl
          obtain ⟨rest, hrest, rfl⟩ := Option.map_eq_some_iff.mp hl
          obtain ⟨hi, hin⟩ := List.forall_mem_cons.mp hin
          have hshift := ppNextClr_shift fuel ht (by omega) hon
          rw [clrPages, hshift, hnext]
          simp only [Option.map_some, Nat.add_assoc, ih (by omega) hin hrest, List.map_cons]

theorem clrPages_unshift {base k colors fuel n index : Nat} {l : List Nat}
    (hclr : HasColor M colors) (hk : k < M.pageCount) (hindex : index ≤ M.pageCount)
    (hin : ∀ i ∈ l, i < M.pageCount)
    (hl : clrPages M base colors fuel n (k + index) = some l) :
    ∃ l', clrPages M (base + k * M.pageSize) colors fuel n index = some l' ∧
      l = l'.map (k + ·) := by
  induction n generalizing index l with
  | zero =>
      obtain rfl := Option.some.inj hl
      exact ⟨[], rfl, rfl⟩
  | succ n ih =>
      have hword := M.four_pageCount_le_wordCount
      have hle := M.colorPeriod_le
      obtain ⟨t, ht, ht', hon⟩ := exists_onColor (base + k * M.pageSize) index hclr
        (by omega)
      have hshift := ppNextClr_shift fuel ht (by omega) hon
      rw [clrPages, hshift] at hl
      cases hnext : ppNextClr M (base + k * M.pageSize) colors fuel index with
      | none =>
          rw [hnext] at hl
          cases hl
      | some i =>
          rw [hnext] at hl
          simp only [Option.map_some, Nat.add_assoc] at hl
          obtain ⟨rest, hrest, rfl⟩ := Option.map_eq_some_iff.mp hl
          obtain ⟨hi, hin⟩ := List.forall_mem_cons.mp hin
          obtain ⟨l', hl', rfl⟩ := ih (by omega) hin hrest
          refine ⟨i :: l', ?_, rfl⟩
          rw [clrPages, hnext]
          simp only [hl', Option.map_some]

theorem page_colored_iff {p : Ppages} {base k fuel a : Nat} {l : List Nat}
    (hclr : M.allClrs p.colors = false) (hk : k < M.pageCount)
    (hbase : p.base = base + k * M.pageSize) (hin : ∀ i ∈ l, i < M.pageCount)
    (hl : clrPages M base p.colors fuel p.numPages k = some l) :
    p.Page M a ↔ ∃ i ∈ l, a = base + i * M.pageSize := by
  obtain ⟨l', hl', rfl⟩ := clrPages_unshift (exists_color hclr) hk (Nat.zero_le _) hin hl
  have haddr : ∀ i, base + k * M.pageSize + i * M.pageSize = base + (k + i) * M.pageSize :=
    fun i => by rw [Nat.add_mul, Nat.add_assoc]
  unfold Ppages.Page
  rw [if_neg (by rw [hclr]; exact Bool.false_ne_true), hbase]
  constructor
  · rintro ⟨fuel', l'', i, hl'', hi, rfl⟩
    obtain rfl := clrPages_unique hl' hl''
    exact ⟨k + i, List.mem_map.mpr ⟨i, hi, rfl⟩, haddr i⟩
  · rintro ⟨j, hj, rfl⟩
    obtain ⟨i, hi, rfl⟩ := List.mem_map.mp hj
    exact ⟨fuel, l', i, hl', hi, (haddr i).symm⟩

/-! ## `mem_alloc_ppages` -/

namespace PoolState

/-- The loop of `mem_alloc_ppages` over the pools from pool `i` on. -/
def allocFrom (fuel colors numPages : Nat) (aligned : Bool) :
    List (PagePool M) → Nat → PoolState M → Ppages → Option (PoolState M × Ppages)
  | [], _, s, pages => some (s, pages)
  | pool :: rest, i, s, pages =>
      match (if !M.allClrs colors && !aligned then pool.ppAllocClr s.bits numPages colors fuel pages
        else pool.ppAlloc s.bits numPages aligned pages) with
      | none => none
      | some (true, pages, m, pool) => some (s.setPool i m pool, pages)
      | some (false, pages, m, pool) =>
          allocFrom fuel colors numPages aligned rest (i + 1) (s.setPool i m pool) pages

/-- `mem_alloc_ppages`. -/
def memAllocPpages (s : PoolState M) (fuel colors numPages : Nat) (aligned : Bool) :
    Option (PoolState M × Ppages) :=
  allocFrom fuel colors numPages aligned s.pools 0 s noPpages

end PoolState

/-- Pages of `pool` that were free are taken, and no other bit changes. -/
structure Grants (s s' : PoolState M) (i : Nat) (pool : PagePool M) (n : Nat) (out : Ppages) :
    Prop where
  numPages : out.numPages = n
  pool_eq : ∃ pool' : PagePool M, s'.pools = s.pools.set i pool' ∧ pool'.base = pool.base ∧
    pool'.numPages = pool.numPages ∧ pool'.bitmap = pool.bitmap
  lastIndex : s'.lastIndex = s.lastIndex
  page : ∀ a, out.Page M a → ∃ k, pool.PageAt k a
  wasFree : ∀ k, out.Page M (pool.pageAddr k) → s.bits (pool.bitmap + k) = false
  isSet : ∀ k, out.Page M (pool.pageAddr k) → s'.bits (pool.bitmap + k) = true
  others : ∀ b, (∀ k, out.Page M (pool.pageAddr k) → b ≠ pool.bitmap + k) → s'.bits b = s.bits b

theorem pageAddr_inj {pool : PagePool M} {i j : Nat} (h : pool.pageAddr i = pool.pageAddr j) :
    i = j := by
  unfold PagePool.pageAddr at h
  exact Nat.eq_of_mul_eq_mul_right M.pageSize_pos (Nat.add_left_cancel h)

/-- What `pp_alloc` takes inside the pool is granted. -/
theorem grants_of_take {s : PoolState M} {i n bit : Nat} {pool pool' : PagePool M} {m : Store}
    {aligned ok : Bool} {out : Ppages} (hn : 1 ≤ n)
    (htakes : pool.Takes s.bits n aligned bit) (hin : bit + n ≤ pool.numPages)
    (heq : (ok, out, m, pool') = pool.take s.bits n bit) :
    Grants s (s.setPool i m pool') i pool n out := by
  have hsound := take_sound hn htakes hin
  obtain ⟨-, rfl, rfl, rfl⟩ : _ ∧ _ ∧ _ ∧ _ := by simpa [PagePool.take] using heq
  have hpage : ∀ a, (memPpagesGet (pool.base + bit * M.pageSize) n).Page M a ↔
      ∃ j, bit ≤ j ∧ j < bit + n ∧ a = pool.pageAddr j := by
    intro a
    rw [page_memPpagesGet]
    constructor
    · rintro ⟨j, hj, rfl⟩
      exact ⟨bit + j, Nat.le_add_right _ _, by omega, by
        rw [PagePool.pageAddr, Nat.add_mul, Nat.add_assoc]⟩
    · rintro ⟨j, h1, h2, rfl⟩
      refine ⟨j - bit, by omega, ?_⟩
      rw [PagePool.pageAddr, Nat.add_assoc, ← Nat.add_mul, Nat.add_sub_cancel' h1]
  have hcovers : ∀ k, (memPpagesGet (pool.base + bit * M.pageSize) n).Page M (pool.pageAddr k) ↔
      Ppages.Covers M (pool.take s.bits n bit).2.1 (pool.pageAddr k) := by
    intro k
    rw [hpage]
    refine Iff.trans ⟨?_, fun h => ⟨k, h.1, h.2, rfl⟩⟩ covers_pageAddr_iff.symm
    rintro ⟨j, h1, h2, heq⟩
    rw [pageAddr_inj heq]
    exact ⟨h1, h2⟩
  refine ⟨rfl, ⟨_, rfl, rfl, rfl, rfl⟩, rfl, fun a ha => ?_, fun k hk => ?_, fun k hk => ?_,
    fun b hb => ?_⟩
  · obtain ⟨j, -, hj, rfl⟩ := (hpage a).mp ha
    exact ⟨j, by omega, rfl⟩
  · exact hsound.wasFree k ((hcovers k).mp hk)
  · exact hsound.isSet k ((hcovers k).mp hk)
  · exact hsound.others b (fun k hk => hb k ((hcovers k).mpr hk))

/-- What `pp_alloc_clr` takes is granted. -/
theorem grants_of_takesClr {s : PoolState M} {i n colors : Nat} {pool pool' : PagePool M}
    {m : Store} {out : Ppages} {l : List Nat} (hclr : M.allClrs colors = false)
    (htakes : pool.TakesClr s.bits m pool' n colors out l) :
    Grants s (s.setPool i m pool') i pool n out := by
  obtain ⟨hpages, hlen, ⟨fuel, first, hl, hon, rfl⟩, rfl, last, rfl⟩ := htakes
  have hlt := pool.numPages_lt
  have hin : ∀ j ∈ l, j < M.pageCount := fun j hj => Nat.lt_trans (hpages.free j hj).1 hlt
  have hpage : ∀ a, Ppages.Page M
      { base := pool.base + first * M.pageSize, numPages := n, colors := colors } a ↔
      ∃ j ∈ l, a = pool.pageAddr j := by
    intro a
    cases n with
    | zero =>
        obtain rfl := List.eq_nil_of_length_eq_zero hlen
        refine ⟨fun h => (not_page_of_empty rfl h).elim, ?_⟩
        rintro ⟨j, hj, -⟩
        exact (List.not_mem_nil hj).elim
    | succ n =>
        refine page_colored_iff hclr ?_ rfl hin hl
        -- the range starts no later than its first page
        rw [clrPages] at hl
        cases hnext : ppNextClr M pool.base colors fuel first with
        | none => rw [hnext] at hl; cases hl
        | some r =>
            rw [hnext] at hl
            obtain ⟨rest, -, rfl⟩ := Option.map_eq_some_iff.mp hl
            have hfuel : fuel ≠ 0 := by
              rintro rfl
              cases hnext
            rw [ppNextClr_self hfuel (hon (Nat.succ_ne_zero n))] at hnext
            obtain rfl := Option.some.inj hnext
            exact hin _ List.mem_cons_self
  refine ⟨rfl, ⟨_, rfl, rfl, rfl, rfl⟩, rfl, fun a ha => ?_, fun k hk => ?_, fun k hk => ?_,
    fun b hb => ?_⟩
  · obtain ⟨j, hj, rfl⟩ := (hpage a).mp ha
    exact ⟨j, (hpages.free j hj).1, rfl⟩
  · obtain ⟨j, hj, heq⟩ := (hpage _).mp hk
    rw [pageAddr_inj heq]
    exact (hpages.free j hj).2
  · obtain ⟨j, hj, heq⟩ := (hpage _).mp hk
    rw [pageAddr_inj heq]
    exact fillAt_inside hj
  · refine fillAt_other (fun j hj heq => ?_)
    exact hb j ((hpage _).mpr ⟨j, hj, rfl⟩) heq

/-- The requests that `pp_alloc` serves without leaving a pool; a coloured
request never leaves one. -/
def AllocOk (s : PoolState M) (colors n : Nat) (aligned : Bool) : Prop :=
  (!M.allClrs colors && !aligned) = false →
    ∀ pool ∈ s.pools, AllocInside s.bits pool n aligned

theorem setPool_self {s : PoolState M} {i : Nat} {pool : PagePool M}
    (hpool : s.pools[i]? = some pool) : s.setPool i s.bits pool = s := by
  have hset : s.pools.set i pool = s.pools := by
    apply List.ext_getElem?
    intro j
    by_cases hj : i = j
    · subst hj
      rw [List.getElem?_set_self (List.getElem?_eq_some_iff.mp hpool).1, hpool]
    · rw [List.getElem?_set_ne hj]
  rw [PoolState.setPool, hset]

/-- **What `mem_alloc_ppages` does.**  It grants no page and changes nothing,
or one pool grants the pages. -/
theorem memAllocPpages_cases {s s' : PoolState M} {fuel colors n : Nat} {aligned : Bool}
    {out : Ppages} (hword : n < M.wordCount) (hok : AllocOk s colors n aligned)
    (h : s.memAllocPpages fuel colors n aligned = some (s', out)) :
    (out.numPages = 0 ∧ s' = s) ∨
      ∃ i pool, s.pools[i]? = some pool ∧ Grants s s' i pool n out := by
  have hloop : ∀ (rest : List (PagePool M)) (i : Nat) (pages : Ppages), pages.numPages = 0 →
      (∀ j pool, rest[j]? = some pool → s.pools[i + j]? = some pool) →
      PoolState.allocFrom fuel colors n aligned rest i s pages = some (s', out) →
      (out.numPages = 0 ∧ s' = s) ∨
        ∃ i pool, s.pools[i]? = some pool ∧ Grants s s' i pool n out := by
    intro rest
    induction rest with
    | nil =>
        intro i pages hpages _ hrun
        obtain ⟨rfl, rfl⟩ := Prod.mk.inj (Option.some.inj hrun)
        exact .inl ⟨hpages, rfl⟩
    | cons pool rest ih =>
        intro i pages hpages hrest hrun
        have hpool : s.pools[i]? = some pool := hrest 0 pool rfl
        have hnext : ∀ j q, rest[j]? = some q → s.pools[i + 1 + j]? = some q := fun j q hq => by
          rw [Nat.add_right_comm]
          exact hrest (j + 1) q hq
        rw [PoolState.allocFrom] at hrun
        by_cases hclr : (!M.allClrs colors && !aligned) = true
        · rw [if_pos hclr] at hrun
          have hproper : M.allClrs colors = false := by
            rw [Bool.and_eq_true, Bool.not_eq_true'] at hclr
            exact hclr.1
          cases halloc : pool.ppAllocClr s.bits n colors fuel pages with
          | none => rw [halloc] at hrun; cases hrun
          | some r =>
              obtain ⟨ok, pages', m, pool'⟩ := r
              rw [halloc] at hrun
              rcases PagePool.ppAllocClr_cases halloc with ⟨rfl, l, htakes⟩ | ⟨rfl, hzero, rfl, rfl⟩
              · obtain ⟨rfl, rfl⟩ := Prod.mk.inj (Option.some.inj hrun)
                exact .inr ⟨i, pool, hpool, grants_of_takesClr hproper htakes⟩
              · simp only [setPool_self hpool] at hrun
                exact ih (i + 1) pages' hzero hnext hrun
        · rw [if_neg hclr] at hrun
          have hin := hok (Bool.eq_false_iff.mpr hclr) pool (List.mem_of_getElem? hpool)
          cases halloc : pool.ppAlloc s.bits n aligned pages with
          | none => rw [halloc] at hrun; cases hrun
          | some r =>
              obtain ⟨ok, pages', m, pool'⟩ := r
              rw [halloc] at hrun
              rcases PagePool.ppAlloc_cases hword halloc with ⟨-, rfl, hzero, rfl, rfl⟩ |
                ⟨hn, bit, -, htakes, heq⟩ | ⟨-, rfl, hzero, rfl, rfl⟩
              · simp only [setPool_self hpool] at hrun
                obtain ⟨rfl, rfl⟩ := Prod.mk.inj (Option.some.inj hrun)
                exact .inl ⟨hzero, rfl⟩
              · obtain rfl : ok = true := (Prod.mk.inj heq).1
                obtain ⟨rfl, rfl⟩ := Prod.mk.inj (Option.some.inj hrun)
                exact .inr ⟨i, pool, hpool, grants_of_take hn htakes (hin bit htakes) heq⟩
              · simp only [setPool_self hpool] at hrun
                exact ih (i + 1) pages' hzero hnext hrun
  exact hloop s.pools 0 noPpages rfl (fun j pool hj => by rwa [Nat.zero_add]) h

/-! ## `mem_free_ppages` -/

/-- The pages of `p` are pages of `pool`. -/
def PagePool.Owns (pool : PagePool M) (p : Ppages) : Prop :=
  ∀ a, p.Page M a → ∃ k, pool.PageAt k a

theorem exists_page {p : Ppages} (hpos : 1 ≤ p.numPages) :
    ∃ i, p.Page M (p.base + i * M.pageSize) := by
  unfold Ppages.Page
  by_cases hall : M.allClrs p.colors
  · refine ⟨0, ?_⟩
    rw [if_pos hall]
    exact ⟨0, hpos, rfl⟩
  · obtain ⟨fuel, l, hl⟩ := clrPages_total (exists_color (Bool.eq_false_iff.mpr hall)) p.base p.numPages 0
    cases l with
    | nil =>
        have := clrPages_length hl
        rw [List.length_nil] at this
        omega
    | cons i rest =>
        refine ⟨i, ?_⟩
        rw [if_neg hall]
        exact ⟨fuel, _, i, hl, List.mem_cons_self, rfl⟩

theorem PagePool.Owns.base_eq {pool : PagePool M} {p : Ppages} (h : pool.Owns p)
    (hpos : 1 ≤ p.numPages) (hlo : pool.base ≤ p.base) :
    (p.base - pool.base) / M.pageSize < pool.numPages ∧
      p.base = pool.base + (p.base - pool.base) / M.pageSize * M.pageSize := by
  obtain ⟨i, hi⟩ := exists_page (M := M) hpos
  obtain ⟨k, hk, heq⟩ := h _ hi
  have hpage := M.pageSize_pos
  unfold PagePool.pageAddr at heq
  have hle : i ≤ k := by
    refine Nat.le_of_mul_le_mul_right (Nat.le_of_add_le_add_left (a := pool.base) ?_) hpage
    omega
  have hsplit : k * M.pageSize = (k - i) * M.pageSize + i * M.pageSize := by
    rw [← Nat.add_mul, Nat.sub_add_cancel hle]
  have hoff : p.base - pool.base = (k - i) * M.pageSize := by omega
  rw [hoff, Nat.mul_div_cancel _ hpage]
  omega

theorem freed_other {pool : PagePool M} {p : Ppages} {fuel b : Nat} {m m' : Store}
    (howns : M.inRange p.base pool.base (pool.numPages * M.pageSize) = true → pool.Owns p)
    (h : pool.memFreePpages fuel p m = some m')
    (hb : M.inRange p.base pool.base (pool.numPages * M.pageSize) = true →
      ∀ k, p.Page M (pool.pageAddr k) → b ≠ pool.bitmap + k) : m' b = m b := by
  rw [PagePool.memFreePpages] at h
  by_cases hin : M.inRange p.base pool.base (pool.numPages * M.pageSize) = true
  · rw [if_pos hin] at h
    replace hb := hb hin
    simp only at h
    rcases Nat.eq_zero_or_pos p.numPages with hzero | hpos
    · rw [hzero] at h
      simp only [bitmapClearConsecutive, PagePool.freeClr, ite_self] at h
      rw [← Option.some.inj h]
    · have hlo : pool.base ≤ p.base := by
        unfold Machine.inRange Machine.rangeInRange at hin
        rw [Bool.and_eq_true, decide_eq_true_eq] at hin
        exact hin.1
      obtain ⟨hk, hbase⟩ := (howns hin).base_eq hpos hlo
      generalize (p.base - pool.base) / M.pageSize = off at h hk hbase
      have haddr : ∀ i, pool.pageAddr (off + i) =
          p.base + i * M.pageSize := fun i => by
        rw [PagePool.pageAddr, Nat.add_mul, ← Nat.add_assoc, ← hbase]
      by_cases hall : M.allClrs p.colors = true
      · rw [if_pos hall, bitmapClearConsecutive_eq] at h
        rw [← Option.some.inj h]
        refine fill_other ?_
        by_cases hlow : b < pool.bitmap + off
        · exact .inl hlow
        · by_cases hhigh : pool.bitmap + off + p.numPages ≤ b
          · exact .inr hhigh
          · refine (hb (b - pool.bitmap) ?_ (by omega)).elim
            unfold Ppages.Page
            rw [if_pos hall]
            refine ⟨b - pool.bitmap - off, by omega, ?_⟩
            rw [← haddr, Nat.add_sub_cancel' (by omega)]
      · have hclr := Bool.eq_false_iff.mpr hall
        rw [if_neg hall] at h
        obtain ⟨l, hl, rfl⟩ := PagePool.freeClr_eq h
        -- the list of the pool is the list of the range, moved to its place
        obtain ⟨fuel', l', hl'⟩ := clrPages_total (exists_color hclr) p.base p.numPages 0
        have hpage : ∀ i ∈ l', p.Page M (p.base + i * M.pageSize) := by
          intro i hi
          unfold Ppages.Page
          rw [if_neg hall]
          exact ⟨fuel', l', i, hl', hi, rfl⟩
        have hlt := pool.numPages_lt
        have hsmall : ∀ i ∈ l', i < M.pageCount := by
          intro i hi
          obtain ⟨k, hk', heq⟩ := howns hin _ (hpage i hi)
          rw [← haddr] at heq
          have := pageAddr_inj heq
          omega
        have hbase' := hl'
        rw [hbase] at hbase'
        have hshift := clrPages_shift (exists_color hclr) (Nat.lt_trans hk hlt) (Nat.zero_le _) hsmall hbase'
        rw [Nat.add_zero] at hshift
        obtain rfl := clrPages_unique hl hshift
        refine fillAt_other (fun j hj heq => ?_)
        obtain ⟨i, hi, rfl⟩ := List.mem_map.mp hj
        exact hb _ ((haddr i).symm ▸ hpage i hi) heq
  · rw [if_neg hin] at h
    rw [← Option.some.inj h]

/-- **What `mem_free_ppages` does** to pages of the pools: the bits of other
pages stay as they are. -/
theorem memFreePpages_other {s s' : PoolState M} {fuel : Nat} {p : Ppages}
    (howns : ∀ pool ∈ s.pools,
      M.inRange p.base pool.base (pool.numPages * M.pageSize) = true → pool.Owns p)
    (h : s.memFreePpages fuel p = some s') :
    s'.pools = s.pools ∧ s'.lastIndex = s.lastIndex ∧
      ∀ b, (∀ pool ∈ s.pools, M.inRange p.base pool.base (pool.numPages * M.pageSize) = true →
        ∀ k, p.Page M (pool.pageAddr k) → b ≠ pool.bitmap + k) → s'.bits b = s.bits b := by
  rw [PoolState.memFreePpages] at h
  obtain ⟨m', hfold, rfl⟩ := Option.map_eq_some_iff.mp h
  refine ⟨rfl, rfl, fun b hb => ?_⟩
  have hloop : ∀ (pools : List (PagePool M)) (r : Option Store), (∀ q ∈ pools, q ∈ s.pools) →
      (∀ m, r = some m → m b = s.bits b) →
      pools.foldl (fun m pool => m.bind (pool.memFreePpages fuel p)) r = some m' →
      m' b = s.bits b := by
    intro pools
    induction pools with
    | nil =>
        intro r _ hr hrun
        exact hr m' hrun
    | cons pool rest ih =>
        intro r hpools hr hrun
        rw [List.foldl_cons] at hrun
        refine ih _ (fun q hq => hpools q (List.mem_cons_of_mem pool hq)) ?_ hrun
        intro m hm
        obtain ⟨m1, rfl, hfree⟩ := Option.bind_eq_some_iff.mp hm
        have hpool := hpools pool List.mem_cons_self
        rw [freed_other (howns pool hpool) hfree (hb pool hpool)]
        exact hr m1 rfl
  exact hloop s.pools (some s.bits) (fun _ hq => hq)
    (fun m hm => by rw [← Option.some.inj hm]) hfold

theorem memFreePpages_of_allClrs {s : PoolState M} {fuel : Nat} {p : Ppages}
    (hall : M.allClrs p.colors = true) :
    s.memFreePpages fuel p = some (s.memFreePpagesMpu p) := by
  have hone : ∀ (pool : PagePool M) m,
      pool.memFreePpages fuel p m = some (pool.memFreePpagesMpu p m) := by
    intro pool m
    rw [PagePool.memFreePpages, PagePool.memFreePpagesMpu]
    by_cases hin : M.inRange p.base pool.base (pool.numPages * M.pageSize) = true
    · rw [if_pos hin, if_pos hin]
      simp only [hall, if_true]
    · rw [if_neg hin, if_neg hin]
  have hfold : ∀ (pools : List (PagePool M)) m,
      pools.foldl (fun m pool => m.bind (pool.memFreePpages fuel p)) (some m) =
        some (pools.foldl (fun m pool => pool.memFreePpagesMpu p m) m) := by
    intro pools
    induction pools with
    | nil => exact fun m => rfl
    | cons pool rest ih =>
        intro m
        rw [List.foldl_cons, List.foldl_cons, Option.bind_some, hone]
        exact ih _
  rw [PoolState.memFreePpages, hfold, Option.map_some]
  rfl

end Bao

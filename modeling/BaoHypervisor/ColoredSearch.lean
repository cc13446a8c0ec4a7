import Mathlib.Data.Finset.Card
import Mathlib.Order.Interval.Finset.Nat
import BaoHypervisor.ColoredViews

/-!
# When coloured allocation ends

Both rounds of `pp_alloc_clr` go through the pages of the wanted colours in order.
A run of free ones is not stepped over: either the counting starts at or before its
first page and goes on through all of it, or the search has not come to it yet.
The second round is bounded by `pool->last`, which can lie beyond the pool: a clear
bit there holds the search for ever.
-/

namespace Bao

open BitMemory

variable {M : Machine}

/-- The pages of the wanted colours in an interval. -/
def clrCount (M : Machine) (base colors a b : Nat) : Nat :=
  ((Finset.Ico a b).filter fun k => onColor M base k colors = true).card

theorem clrCount_self {base colors a : Nat} : clrCount M base colors a a = 0 := by
  rw [clrCount, Finset.Ico_self]
  rfl

theorem clrCount_split {base colors a b c : Nat} (hab : a ≤ b) (hbc : b ≤ c) :
    clrCount M base colors a c = clrCount M base colors a b + clrCount M base colors b c := by
  unfold clrCount
  rw [← Finset.Ico_union_Ico_eq_Ico hab hbc, Finset.filter_union, Finset.card_union_of_disjoint]
  exact Finset.disjoint_filter_filter (Finset.Ico_disjoint_Ico_consecutive a b c)

theorem ppNextClr_lt {base colors fuel index r : Nat} (hindex : index < M.wordCount)
    (h : ppNextClr M base colors fuel index = some r) : r < M.wordCount := by
  induction fuel generalizing index with
  | zero => cases h
  | succ fuel ih =>
    rw [ppNextClr] at h
    by_cases hon : onColor M base index colors
    · rw [if_pos hon] at h
      obtain rfl := Option.some.inj h
      exact hindex
    · rw [if_neg hon] at h
      exact ih (Nat.mod_lt _ (Nat.two_pow_pos _)) h

theorem clrCount_next {base colors fuel a index r : Nat} (hindex : index < M.pageCount)
    (hon : onColor M base index colors = true) (hle : a ≤ index)
    (h : ppNextClr M base colors fuel ((index + 1) % M.wordCount) = some r) :
    index < r ∧ (∀ k, index < k → k < r → onColor M base k colors = false) ∧
      clrCount M base colors a r = clrCount M base colors a index + 1 := by
  obtain ⟨hlt, hnext⟩ := lt_of_ppNextClr_succ hindex hon h
  have hword := M.four_pageCount_le_wordCount
  have hperiod := M.colorPeriod_le
  have hbound : r ≤ index + M.colorNum * M.colorSize := by
    have hpos := M.colorPeriod_pos
    have hagain : onColor M base (index + M.colorNum * M.colorSize) colors = true := by
      rw [onColor_add_period hindex, hon]
    exact (ppNextClr_between (by omega) (by omega) hagain hnext).2
  have hgap : ∀ k, index < k → k < r → onColor M base k colors = false := by
    intro k hlo hhi
    rw [Bool.eq_false_iff]
    intro hk
    have := (ppNextClr_between (by omega) (by omega) hk hnext).2
    omega
  refine ⟨hlt, hgap, ?_⟩
  have hinsert : (Finset.Ico a r).filter (fun k => onColor M base k colors = true) =
      insert index ((Finset.Ico a index).filter fun k => onColor M base k colors = true) := by
    ext k
    rw [Finset.mem_filter, Finset.mem_insert, Finset.mem_filter, Finset.mem_Ico, Finset.mem_Ico]
    constructor
    · rintro ⟨⟨hlo, hhi⟩, hk⟩
      rcases Nat.lt_trichotomy k index with hbelow | heq | habove
      · exact .inr ⟨⟨hlo, hbelow⟩, hk⟩
      · exact .inl heq
      · rw [hgap k habove hhi] at hk
        cases hk
    · rintro (rfl | ⟨⟨hlo, hhi⟩, hk⟩)
      · exact ⟨⟨hle, hlt⟩, hon⟩
      · exact ⟨⟨hlo, by omega⟩, hk⟩
  have hnot : index ∉ (Finset.Ico a index).filter fun k => onColor M base k colors = true := by
    rw [Finset.mem_filter, Finset.mem_Ico]
    omega
  rw [clrCount, hinsert, Finset.card_insert_of_notMem hnot]
  rfl

namespace PagePool

variable {m : Store} {pool : PagePool M} {colors n : Nat}

/-- A free page of the pool of a wanted colour. -/
def Vacant (m : Store) (pool : PagePool M) (colors k : Nat) : Prop :=
  onColor M pool.base k colors = true ∧ k < pool.numPages ∧ m (pool.bitmap + k) = false

/-- The pool holds `n` free pages that follow one another in the wanted colours. -/
def HoldsRun (m : Store) (pool : PagePool M) (n colors : Nat) : Prop :=
  ∃ fuel first l, clrPages M pool.base colors fuel n first = some l ∧ pool.FreePages m colors l

/-- `pp_alloc_clr` ends; what it takes is `n` free pages of the pool, all of the wanted
colours from the returned base on, and no other bit changes; where it takes nothing
nothing changes; and it finds a run that the pool holds. -/
def ClrAllocFine (m : Store) (pool : PagePool M) (n colors : Nat) (out : Ppages) : Prop :=
  ∃ fuel ok out' m' pool', pool.ppAllocClr m n colors fuel out = some (ok, out', m', pool') ∧
    (ok = true → ∃ l, pool.TakesClr m m' pool' n colors out' l) ∧
    (ok = false → m' = m ∧ pool' = pool) ∧
    (pool.HoldsRun m n colors → ok = true)

/-- The condition: `pool->last` lies in the pool or at its end, or there is a run, or
no clear bit beyond the pool holds the second round and the colours do not run out
before its bound. -/
def ClrSearchEnds (m : Store) (pool : PagePool M) (n colors : Nat) : Prop :=
  pool.last ≤ pool.numPages ∨ pool.HoldsRun m n colors ∨
    ((∀ k, pool.numPages ≤ k → k < pool.last → onColor M pool.base k colors = true →
        m (pool.bitmap + k) = true) ∧
      ∃ t, pool.last ≤ t ∧ t < M.wordCount ∧ onColor M pool.base t colors = true)

/-! ## The inner loops -/

theorem skipUsed_le {cf limit fuel index r t : Nat} (ht : t < M.wordCount) (hle : index ≤ t)
    (hon : onColor M pool.base t colors = true)
    (hstop : limit ≤ t ∨ m (pool.bitmap + t) = false)
    (h : pool.skipUsed m colors cf limit fuel index = some r) : r ≤ t := by
  induction fuel generalizing index with
  | zero => cases h
  | succ fuel ih =>
    rw [skipUsed, bitmapGet_eq] at h
    by_cases hgo : index < limit ∧ m (pool.bitmap + index) = true
    · rw [if_pos hgo] at h
      have hne : index ≠ t := by
        rintro rfl
        rcases hstop with hge | hfree
        · omega
        · rw [hgo.2] at hfree
          cases hfree
      cases hnext : ppNextClr M pool.base colors cf ((index + 1) % M.wordCount) with
      | none =>
        rw [hnext] at h
        cases h
      | some i =>
        rw [hnext] at h
        rw [Nat.mod_eq_of_lt (by omega)] at hnext
        exact ih (ppNextClr_between ht (by omega) hon hnext).2 h
    · rw [if_neg hgo] at h
      obtain rfl := Option.some.inj h
      exact hle

theorem skipUsed_ends (m : Store) (limit : Nat) {index t : Nat} (ht : t < M.wordCount)
    (hle : index ≤ t) (hindex : onColor M pool.base index colors = true)
    (hon : onColor M pool.base t colors = true)
    (hstop : limit ≤ t ∨ m (pool.bitmap + t) = false) :
    ∃ least r, (∀ cf f, least ≤ cf → least ≤ f →
        pool.skipUsed m colors cf limit f index = some r) ∧
      index ≤ r ∧ r ≤ t ∧ onColor M pool.base r colors = true ∧
      (limit ≤ r ∨ m (pool.bitmap + r) = false) := by
  induction hd : t - index using Nat.strongRecOn generalizing index with
  | ind d ih =>
    by_cases hgo : index < limit ∧ m (pool.bitmap + index) = true
    · have hne : index ≠ t := by
        rintro rfl
        rcases hstop with hge | hfree
        · omega
        · rw [hgo.2] at hfree
          cases hfree
      obtain ⟨i, hnext⟩ := ppNextClr_ends ht (Nat.succ_le_of_lt (Nat.lt_of_le_of_ne hle hne)) hon
      obtain ⟨hlo, hhi⟩ := ppNextClr_between ht (by omega) hon hnext
      obtain ⟨least, r, hrun, hrlo, hrest⟩ :=
        ih (t - i) (by omega) hhi (ppNextClr_onColor hnext) rfl
      refine ⟨max (least + 1) (t - (index + 1) + 1), r, fun cf f hcf hf => ?_, by omega, hrest⟩
      obtain ⟨f, rfl⟩ := Nat.exists_eq_add_of_le' (show 1 ≤ f by omega)
      rw [skipUsed, bitmapGet_eq, if_pos hgo, Nat.mod_eq_of_lt (by omega),
        ppNextClr_mono (by omega) hnext]
      exact hrun cf f (by omega) (by omega)
    · refine ⟨1, index, fun cf f _ hf => ?_, Nat.le_refl index, hle, hindex, ?_⟩
      · obtain ⟨f, rfl⟩ := Nat.exists_eq_add_of_le' hf
        rw [skipUsed, bitmapGet_eq, if_neg hgo]
      · rcases Nat.lt_or_ge index limit with hlt | hge
        · right
          rw [Bool.eq_false_iff]
          exact fun hused => hgo ⟨hlt, hused⟩
        · exact .inl hge

theorem countFree_ends (m : Store) (pool : PagePool M) (hclr : HasColor M colors) (index : Nat)
    {allocated : Nat}
    (hle : allocated ≤ n) :
    ∃ least next found, ∀ cf f, least ≤ cf → least ≤ f →
      pool.countFree m colors cf n f index allocated = some (next, found) := by
  induction hd : n - allocated generalizing index allocated with
  | zero =>
    refine ⟨1, index, allocated, fun cf f _ hf => ?_⟩
    obtain ⟨f, rfl⟩ := Nat.exists_eq_add_of_le' hf
    rw [countFree, if_neg (by omega)]
  | succ d ih =>
    by_cases hgo : index < pool.numPages ∧ bitmapGet m pool.bitmap index = false ∧ allocated < n
    · obtain ⟨fuel, i, hnext⟩ := ppNextClr_total hclr pool.base ((index + 1) % M.wordCount)
      obtain ⟨least, next, found, hrun⟩ := ih i (Nat.succ_le_of_lt hgo.2.2) (by omega)
      refine ⟨max (least + 1) fuel, next, found, fun cf f hcf hf => ?_⟩
      obtain ⟨f, rfl⟩ := Nat.exists_eq_add_of_le' (show 1 ≤ f by omega)
      rw [countFree, if_pos hgo, ppNextClr_mono (by omega) hnext]
      exact hrun cf f (by omega) (by omega)
    · refine ⟨1, index, allocated, fun cf f _ hf => ?_⟩
      obtain ⟨f, rfl⟩ := Nat.exists_eq_add_of_le' hf
      rw [countFree, if_neg hgo]

/-- **What is counted** are all pages of the wanted colours up to where the counting
stops, which is short of `n` only at a page that is not vacant. -/
theorem countFree_counts {cf fuel index allocated next found : Nat} (hle : allocated ≤ n)
    (hon : onColor M pool.base index colors = true)
    (h : pool.countFree m colors cf n fuel index allocated = some (next, found)) :
    index ≤ next ∧ onColor M pool.base next colors = true ∧ found ≤ n ∧
    (∀ k, index ≤ k → k < next → onColor M pool.base k colors = true →
      pool.Vacant m colors k) ∧
    found = allocated + clrCount M pool.base colors index next ∧
    (found = n ∨ ¬ pool.Vacant m colors next) := by
  induction fuel generalizing index allocated with
  | zero => cases h
  | succ fuel ih =>
    rw [countFree, bitmapGet_eq] at h
    by_cases hgo : index < pool.numPages ∧ m (pool.bitmap + index) = false ∧ allocated < n
    · rw [if_pos hgo] at h
      obtain ⟨hin, hfree, hshort⟩ := hgo
      cases hnext : ppNextClr M pool.base colors cf ((index + 1) % M.wordCount) with
      | none =>
        rw [hnext] at h
        cases h
      | some i =>
        rw [hnext] at h
        have hpool := pool.numPages_lt
        obtain ⟨hlt, hgap, hone⟩ := clrCount_next (by omega) hon (Nat.le_refl index) hnext
        obtain ⟨hle', hon', hfound, hall, hcount, hend⟩ := ih hshort (ppNextClr_onColor hnext) h
        refine ⟨by omega, hon', hfound, fun k hlo hhi hk => ?_, ?_, hend⟩
        · rcases Nat.lt_trichotomy k index with hbelow | heq | habove
          · omega
          · rw [heq]
            exact ⟨hon, hin, hfree⟩
          · rcases Nat.lt_or_ge k i with hbetween | hge
            · rw [hgap k habove hbetween] at hk
              cases hk
            · exact hall k hge hhi hk
        · rw [clrCount_split (Nat.le_of_lt hlt) hle', hone, clrCount_self]
          omega
    · rw [if_neg hgo] at h
      obtain ⟨rfl, rfl⟩ : index = next ∧ allocated = found := by simpa using h
      refine ⟨Nat.le_refl _, hon, hle, fun k hlo hhi => by omega, ?_, ?_⟩
      · rw [clrCount_self]
        rfl
      · rcases Nat.eq_or_lt_of_le hle with heq | hshort
        · exact .inl heq
        · exact .inr fun hv => hgo ⟨hv.2.1, hv.2.2, hshort⟩

/-! ## A run -/

/-- A run as an interval in which the pages of the wanted colours are vacant. -/
structure RunFrom (m : Store) (pool : PagePool M) (n colors first past : Nat) : Prop where
  start : pool.Vacant m colors first
  all : ∀ k, first ≤ k → k < past → onColor M pool.base k colors = true →
    pool.Vacant m colors k
  count : clrCount M pool.base colors first past = n

theorem exists_past {fuel first : Nat} {l : List Nat}
    (hl : clrPages M pool.base colors fuel n first = some l)
    (hon : onColor M pool.base first colors = true) (hin : ∀ k ∈ l, k < pool.numPages) :
    ∃ past, clrCount M pool.base colors first past = n ∧
      ∀ k, first ≤ k → k < past → onColor M pool.base k colors = true → k ∈ l := by
  induction n generalizing first l with
  | zero =>
    exact ⟨first, clrCount_self, fun k hlo hhi => by omega⟩
  | succ n ih =>
    have hfuel : fuel ≠ 0 := by
      rintro rfl
      cases hl
    rw [clrPages, ppNextClr_self hfuel hon] at hl
    obtain ⟨rest, hrest, rfl⟩ := Option.map_eq_some_iff.mp hl
    have hfirst := hin first List.mem_cons_self
    have hpool := pool.numPages_lt
    have hword := M.four_pageCount_le_wordCount
    cases n with
    | zero =>
      refine ⟨first + 1, ?_, fun k hlo hhi _ => ?_⟩
      · rw [clrCount, Nat.Ico_succ_singleton, Finset.filter_singleton, if_pos hon]
        rfl
      · have heq : k = first := by omega
        rw [heq]
        exact List.mem_cons_self
    | succ n =>
      cases hnext : ppNextClr M pool.base colors fuel (first + 1) with
      | none =>
        rw [clrPages, hnext] at hrest
        cases hrest
      | some i =>
        have hstep := hnext
        rw [← Nat.mod_eq_of_lt (show first + 1 < M.wordCount by omega)] at hstep
        obtain ⟨hlt, hgap, hone⟩ := clrCount_next (by omega) hon (Nat.le_refl first) hstep
        rw [← clrPages_of_next hnext] at hrest
        obtain ⟨past, hcount, hall⟩ := ih hrest (ppNextClr_onColor hnext)
          fun k hk => hin k (List.mem_cons_of_mem first hk)
        have hpast : i < past := by
          rcases Nat.lt_or_ge i past with hin' | hge
          · exact hin'
          · rw [clrCount, Finset.Ico_eq_empty_of_le hge] at hcount
            cases hcount
        refine ⟨past, ?_, fun k hlo hhi hk => ?_⟩
        · rw [clrCount_split (Nat.le_of_lt hlt) (Nat.le_of_lt hpast), hone, hcount, clrCount_self]
          omega
        · rcases Nat.lt_trichotomy k first with hbelow | heq | habove
          · omega
          · rw [heq]
            exact List.mem_cons_self
          · rcases Nat.lt_or_ge k i with hbetween | hge
            · rw [hgap k habove hbetween] at hk
              cases hk
            · exact List.mem_cons_of_mem first (hall k hge hhi hk)

theorem HoldsRun.runFrom (hn : 0 < n) (h : pool.HoldsRun m n colors) :
    ∃ first past, pool.RunFrom m n colors first past := by
  obtain ⟨fuel, index, l, hl, hfree⟩ := h
  obtain ⟨n, rfl⟩ := Nat.exists_eq_add_of_le' hn
  have hhead := hl
  rw [clrPages] at hhead
  cases hnext : ppNextClr M pool.base colors fuel index with
  | none =>
    rw [hnext] at hhead
    cases hhead
  | some first =>
    rw [hnext] at hhead
    obtain ⟨rest, -, rfl⟩ := Option.map_eq_some_iff.mp hhead
    rw [← clrPages_of_next hnext] at hl
    have hvacant : ∀ k ∈ first :: rest, pool.Vacant m colors k := fun k hk =>
      ⟨hfree.colored k hk, (hfree.free k hk).1, (hfree.free k hk).2⟩
    obtain ⟨past, hcount, hall⟩ := exists_past hl (ppNextClr_onColor hnext)
      fun k hk => (hfree.free k hk).1
    exact ⟨first, past, hvacant first List.mem_cons_self,
      fun k hlo hhi hk => hvacant k (hall k hlo hhi hk), hcount⟩

/-! ## One round -/

theorem holdsRun_of_countFree {cf fuel index next : Nat} (hcf : cf ≠ 0)
    (hon : onColor M pool.base index colors = true)
    (h : pool.countFree m colors cf n fuel index 0 = some (next, n)) :
    pool.HoldsRun m n colors := by
  obtain ⟨-, -, hpages⟩ := countFree_pages hon h
  obtain ⟨l, hl, hfree, -⟩ := hpages hcf
  exact ⟨cf, index, l, hl, hfree⟩

theorem RunFrom.le_of_countFree {cf fuel index next found first past : Nat}
    (h : pool.RunFrom m n colors first past) (hle : index ≤ first)
    (hon : onColor M pool.base index colors = true)
    (hcount : pool.countFree m colors cf n fuel index 0 = some (next, found))
    (hshort : found < n) : next ≤ first := by
  obtain ⟨-, hon', -, -, hfound, hend⟩ := countFree_counts (Nat.zero_le n) hon hcount
  apply Nat.le_of_not_lt
  intro hlt
  have hout : past ≤ next := by
    apply Nat.le_of_not_lt
    intro hin
    rcases hend with heq | hno
    · omega
    · exact hno (h.all next (Nat.le_of_lt hlt) hin hon')
  -- all of the run has been counted
  have hsub : clrCount M pool.base colors first past ≤ clrCount M pool.base colors index next := by
    apply Finset.card_le_card
    apply Finset.filter_subset_filter
    exact Finset.Ico_subset_Ico hle hout
  rw [h.count] at hsub
  omega

/-- **A round finds a run** that starts ahead of it and below its bound. -/
theorem RunFrom.found (firstIndex : Nat) {index allocated limit first past : Nat}
    (h : pool.RunFrom m n colors first past) (hclr : HasColor M colors) (hle : index ≤ first)
    (hlimit : first < limit) (hon : onColor M pool.base index colors = true)
    (hshort : allocated < n) :
    ∃ least start, ∀ cf f, least ≤ cf → least ≤ f →
      pool.clrPass m colors cf n limit f index allocated firstIndex = some (start, n) := by
  induction hd : first - index using Nat.strongRecOn generalizing index allocated firstIndex with
  | ind d ih =>
    have hword := M.four_pageCount_le_wordCount
    have hpool := pool.numPages_lt
    have hfirst := h.start.2.1
    obtain ⟨least, r, hskip, hlo, hhi, hr, hstop⟩ := skipUsed_ends m limit
      (by omega) hle hon h.start.1 (.inr h.start.2.2)
    have hfree : m (pool.bitmap + r) = false := hstop.resolve_left (by omega)
    obtain ⟨least', next, found, hcount⟩ := countFree_ends m pool hclr r (Nat.zero_le n)
    have hrun := hcount least' least' (Nat.le_refl _) (Nat.le_refl _)
    obtain ⟨hrle, hnext, hfound, hall, hnum, hend⟩ := countFree_counts (Nat.zero_le n) hr hrun
    have hpass : ∀ cf f, max least least' ≤ cf → max least least' ≤ f →
        pool.clrPass m colors cf n limit (f + 1) index allocated firstIndex =
          pool.clrPass m colors cf n limit f next found r := by
      intro cf f hcf hf
      rw [clrPass, if_pos ⟨hshort, by omega⟩, hskip cf f (by omega) (by omega)]
      simp only
      rw [if_neg (by omega), hcount cf f (by omega) (by omega)]
    rcases Nat.eq_or_lt_of_le hfound with heq | hless
    · refine ⟨max least least' + 2, r, fun cf f hcf hf => ?_⟩
      obtain ⟨f, rfl⟩ := Nat.exists_eq_add_of_le' (show 2 ≤ f by omega)
      rw [hpass cf (f + 1) (by omega) (by omega), clrPass, if_neg (by omega), heq]
    · have hnle := h.le_of_countFree hhi hr hrun hless
      have hgo : r < next := by
        apply Nat.lt_of_le_of_ne hrle
        rintro rfl
        rcases hend with heq | hno
        · omega
        · exact hno ⟨hr, by omega, hfree⟩
      obtain ⟨least2, start, hrest⟩ := ih (first - next) (by omega) r hnle hnext hless rfl
      refine ⟨max (max least least') least2 + 1, start, fun cf f hcf hf => ?_⟩
      obtain ⟨f, rfl⟩ := Nat.exists_eq_add_of_le' (show 1 ≤ f by omega)
      rw [hpass cf f (by omega) (by omega)]
      exact hrest cf f (by omega) (by omega)

/-- **A round ends** where no clear bit beyond the pool holds it and the colours go on
to its bound. -/
theorem clrPass_ends (m : Store) (firstIndex : Nat) {limit t : Nat} (hclr : HasColor M colors)
    (ht : t < M.wordCount) (hlimit : limit ≤ t) (hcolor : onColor M pool.base t colors = true)
    (hbeyond : ∀ k, pool.numPages ≤ k → k < limit → onColor M pool.base k colors = true →
      m (pool.bitmap + k) = true) {index allocated : Nat}
    (hon : onColor M pool.base index colors = true) (hle : allocated ≤ n) :
    ∃ least start found, found ≤ n ∧ ∀ cf f, least ≤ cf → least ≤ f →
      pool.clrPass m colors cf n limit f index allocated firstIndex = some (start, found) := by
  induction hd : limit - index using Nat.strongRecOn generalizing index allocated firstIndex with
  | ind d ih =>
    by_cases hgo : allocated < n ∧ index < limit
    · obtain ⟨least, r, hskip, hlo, hhi, hr, hstop⟩ := skipUsed_ends m limit ht
        (by omega) hon hcolor (.inl hlimit)
      rcases Nat.lt_or_ge r limit with hin | hout
      · have hfree := hstop.resolve_left (by omega)
        have hpool : r < pool.numPages := by
          apply Nat.lt_of_not_le
          intro hge
          rw [hbeyond r hge hin hr] at hfree
          cases hfree
        obtain ⟨least', next, found, hcount⟩ := countFree_ends m pool hclr r (Nat.zero_le n)
        have hrun := hcount least' least' (Nat.le_refl _) (Nat.le_refl _)
        obtain ⟨hrle, hnext, hfound, -, hnum, hend⟩ := countFree_counts (Nat.zero_le n) hr hrun
        have hstep : r < next := by
          apply Nat.lt_of_le_of_ne hrle
          rintro rfl
          rw [clrCount_self] at hnum
          rcases hend with heq | hno
          · omega
          · exact hno ⟨hr, hpool, hfree⟩
        obtain ⟨least2, start, found', hfound', hrest⟩ := ih (limit - next) (by omega) r hnext
          hfound rfl
        refine ⟨max (max least least') least2 + 1, start, found', hfound', fun cf f hcf hf => ?_⟩
        obtain ⟨f, rfl⟩ := Nat.exists_eq_add_of_le' (show 1 ≤ f by omega)
        rw [clrPass, if_pos hgo, hskip cf f (by omega) (by omega)]
        simp only
        rw [if_neg (by omega), hcount cf f (by omega) (by omega)]
        exact hrest cf f (by omega) (by omega)
      · refine ⟨least + 1, firstIndex, 0, Nat.zero_le n, fun cf f hcf hf => ?_⟩
        obtain ⟨f, rfl⟩ := Nat.exists_eq_add_of_le' (show 1 ≤ f by omega)
        rw [clrPass, if_pos hgo, hskip cf f (by omega) (by omega)]
        simp only
        rw [if_pos hout]
    · refine ⟨1, firstIndex, allocated, hle, fun cf f _ hf => ?_⟩
      obtain ⟨f, rfl⟩ := Nat.exists_eq_add_of_le' hf
      rw [clrPass, if_neg hgo]

/-- **A round does not end** where the search stays on pages below its bound and there
is no run. -/
theorem clrPass_never {limit : Nat} (Stays : Nat → Prop)
    (hstays : ∀ i, Stays i → onColor M pool.base i colors = true ∧ i < limit)
    (hskip : ∀ cf fuel i r, Stays i → pool.skipUsed m colors cf limit fuel i = some r → Stays r)
    (hcount : ∀ cf fuel i next found, Stays i →
      pool.countFree m colors cf n fuel i 0 = some (next, found) → Stays next)
    (hno : ¬ pool.HoldsRun m n colors) {cf fuel index allocated firstIndex : Nat}
    (hcf : cf ≠ 0) (hindex : Stays index) (hshort : allocated < n) :
    pool.clrPass m colors cf n limit fuel index allocated firstIndex = none := by
  induction fuel generalizing index allocated firstIndex with
  | zero => rfl
  | succ fuel ih =>
    rw [clrPass, if_pos ⟨hshort, (hstays index hindex).2⟩]
    cases hr : pool.skipUsed m colors cf limit fuel index with
    | none => rfl
    | some r =>
      have hstay := hskip cf fuel index r hindex hr
      obtain ⟨hon, hlt⟩ := hstays r hstay
      simp only
      rw [if_neg (by omega)]
      cases hc : pool.countFree m colors cf n fuel r 0 with
      | none => rfl
      | some result =>
        obtain ⟨next, found⟩ := result
        simp only
        have hle := (countFree_counts (Nat.zero_le n) hon hc).2.2.1
        have hless : found < n := by
          apply Nat.lt_of_le_of_ne hle
          rintro rfl
          exact hno (holdsRun_of_countFree hcf hon hc)
        exact ih (hcount cf fuel r next found hstay hc) hless

/-! ## The allocation -/

theorem markClr_ends (m : Store) (pool : PagePool M) (hclr : HasColor M colors) (n index : Nat) :
    ∃ least m' last, ∀ cf, least ≤ cf → pool.markClr colors cf n m index = some (m', last) := by
  induction n generalizing m index with
  | zero => exact ⟨0, m, index, fun _ _ => rfl⟩
  | succ n ih =>
    obtain ⟨fuel, i, hnext⟩ := ppNextClr_total hclr pool.base index
    obtain ⟨least, m', last, hrun⟩ := ih (bitmapSet m pool.bitmap i) (i + 1)
    refine ⟨max fuel least, m', last, fun cf hcf => ?_⟩
    rw [markClr, ppNextClr_mono (by omega) hnext]
    exact hrun cf (by omega)

/-- Without a run and with a bound beyond the pool, a page of the colours below the bound
with a clear bit holds the round. -/
theorem clrPass_held {limit t cf fuel index allocated firstIndex : Nat} (hcf : cf ≠ 0)
    (hno : ¬ pool.HoldsRun m n colors) (hon : onColor M pool.base index colors = true)
    (ht : t < M.wordCount) (hle : index ≤ t) (hlt : t < limit) (hpool : pool.numPages ≤ t)
    (hcolor : onColor M pool.base t colors = true) (hfree : m (pool.bitmap + t) = false)
    (hshort : allocated < n) :
    pool.clrPass m colors cf n limit fuel index allocated firstIndex = none := by
  apply clrPass_never (fun i => onColor M pool.base i colors = true ∧ i ≤ t) _ _ _ hno hcf
    ⟨hon, hle⟩ hshort
  · exact fun i hi => ⟨hi.1, by omega⟩
  · exact fun _ _ i r hi hr =>
      ⟨skipUsed_onColor hi.1 hr, skipUsed_le ht hi.2 hcolor (.inr hfree) hr⟩
  · intro _ _ i next found hi hc
    obtain ⟨-, hnext, -, hall, -, -⟩ := countFree_counts (Nat.zero_le n) hi.1 hc
    refine ⟨hnext, Nat.le_of_not_lt fun hpast => ?_⟩
    have := (hall t hi.2 hpast hcolor).2.1
    omega

theorem skipUsed_lt {cf limit fuel index r : Nat} (hindex : index < M.wordCount)
    (h : pool.skipUsed m colors cf limit fuel index = some r) : r < M.wordCount := by
  induction fuel generalizing index with
  | zero => cases h
  | succ fuel ih =>
    rw [skipUsed] at h
    by_cases hgo : index < limit ∧ bitmapGet m pool.bitmap index
    · rw [if_pos hgo] at h
      cases hnext : ppNextClr M pool.base colors cf ((index + 1) % M.wordCount) with
      | none =>
        rw [hnext] at h
        cases h
      | some i =>
        rw [hnext] at h
        exact ih (ppNextClr_lt (Nat.mod_lt _ (Nat.two_pow_pos _)) hnext) h
    · rw [if_neg hgo] at h
      obtain rfl := Option.some.inj h
      exact hindex

theorem countFree_lt {cf fuel index allocated next found : Nat} (hindex : index < M.wordCount)
    (h : pool.countFree m colors cf n fuel index allocated = some (next, found)) :
    next < M.wordCount := by
  induction fuel generalizing index allocated with
  | zero => cases h
  | succ fuel ih =>
    rw [countFree] at h
    split at h
    · cases hnext : ppNextClr M pool.base colors cf ((index + 1) % M.wordCount) with
      | none =>
        rw [hnext] at h
        cases h
      | some i =>
        rw [hnext] at h
        exact ih (ppNextClr_lt (Nat.mod_lt _ (Nat.two_pow_pos _)) hnext) h
    · obtain ⟨rfl, rfl⟩ : index = next ∧ allocated = found := by simpa using h
      exact hindex

/-- Without a run and without a page of the colours from the bound on the round goes
round the address space for ever. -/
theorem clrPass_wraps {limit cf fuel index allocated firstIndex : Nat} (hcf : cf ≠ 0)
    (hno : ¬ pool.HoldsRun m n colors) (hon : onColor M pool.base index colors = true)
    (hindex : index < M.wordCount)
    (hout : ∀ t, limit ≤ t → t < M.wordCount → onColor M pool.base t colors = false)
    (hshort : allocated < n) :
    pool.clrPass m colors cf n limit fuel index allocated firstIndex = none := by
  apply clrPass_never (fun i => onColor M pool.base i colors = true ∧ i < M.wordCount) _ _ _ hno
    hcf ⟨hon, hindex⟩ hshort
  · intro i hi
    refine ⟨hi.1, Nat.lt_of_not_le fun hge => ?_⟩
    rw [hout i hge hi.2] at hi
    cases hi.1
  · exact fun _ _ i r hi hr => ⟨skipUsed_onColor hi.1 hr, skipUsed_lt hi.2 hr⟩
  · exact fun _ _ i next found hi hc =>
      ⟨(countFree_counts (Nat.zero_le n) hi.1 hc).2.1, countFree_lt hi.2 hc⟩

theorem holdsRun_of_clrPass {cf fuel limit index allocated firstIndex start : Nat} (hcf : cf ≠ 0)
    (hon : onColor M pool.base index colors = true) (hshort : allocated < n)
    (h : pool.clrPass m colors cf n limit fuel index allocated firstIndex = some (start, n)) :
    pool.HoldsRun m n colors := by
  obtain ⟨l, hl, hfree, -⟩ := clrPass_pages hcf hon (fun heq => absurd heq (by omega)) h
  exact ⟨cf, start, l, hl, hfree⟩

/-- What `pp_alloc_clr` returns is as it should be, once it finds each run. -/
theorem ClrAllocFine.of_result {out out' : Ppages} {fuel : Nat} {ok : Bool} {m' : Store}
    {pool' : PagePool M}
    (h : pool.ppAllocClr m n colors fuel out = some (ok, out', m', pool'))
    (hfound : pool.HoldsRun m n colors → ok = true) : pool.ClrAllocFine m n colors out := by
  refine ⟨fuel, ok, out', m', pool', h, fun hok => ?_, fun hok => ?_, hfound⟩
  · rcases ppAllocClr_cases h with ⟨-, htakes⟩ | ⟨hno, -⟩
    · exact htakes
    · rw [hok] at hno
      cases hno
  · rcases ppAllocClr_cases h with ⟨hyes, -⟩ | ⟨-, -, hm, hpool⟩
    · rw [hok] at hyes
      cases hyes
    · exact ⟨hm, hpool⟩

theorem clrPass_le {cf fuel limit index allocated firstIndex start found : Nat}
    (hon : onColor M pool.base index colors = true) (hle : allocated ≤ n)
    (h : pool.clrPass m colors cf n limit fuel index allocated firstIndex = some (start, found)) :
    found ≤ n := by
  induction fuel generalizing index allocated firstIndex with
  | zero => cases h
  | succ fuel ih =>
    rw [clrPass] at h
    split at h
    · cases hr : pool.skipUsed m colors cf limit fuel index with
      | none =>
        rw [hr] at h
        cases h
      | some r =>
        have hon' := skipUsed_onColor hon hr
        rw [hr] at h
        simp only at h
        split at h
        · obtain ⟨-, rfl⟩ : firstIndex = start ∧ 0 = found := by simpa using h
          exact Nat.zero_le n
        · cases hc : pool.countFree m colors cf n fuel r 0 with
          | none =>
            rw [hc] at h
            cases h
          | some result =>
            obtain ⟨next, a⟩ := result
            rw [hc] at h
            obtain ⟨-, hnext, ha, -⟩ := countFree_counts (Nat.zero_le n) hon' hc
            exact ih hnext ha h
    · obtain ⟨-, rfl⟩ : firstIndex = start ∧ allocated = found := by simpa using h
      exact hle

/-- **Where the second round is held** `pp_alloc_clr` does not return. -/
theorem ClrAllocFine.ends {out : Ppages} (hn : 0 < n) (hlast : pool.last < M.wordCount)
    (h : pool.ClrAllocFine m n colors out) : pool.ClrSearchEnds m n colors := by
  apply Classical.byContradiction
  intro hbad
  unfold ClrSearchEnds at hbad
  simp only [not_or] at hbad
  obtain ⟨hpool, hno, hheld⟩ := hbad
  obtain ⟨fuel, ok, out', m', pool', hrun, -⟩ := h
  rw [ppAllocClr] at hrun
  cases hstart : ppNextClr M pool.base colors fuel pool.last with
  | none =>
    rw [hstart] at hrun
    cases hrun
  | some index =>
    have hfuel : fuel ≠ 0 := by
      rintro rfl
      cases hstart
    have hon := ppNextClr_onColor hstart
    rw [hstart] at hrun
    cases hpass : pool.clrPass m colors fuel n pool.numPages fuel index 0 0 with
    | none =>
      simp only [hpass] at hrun
      cases hrun
    | some result =>
      obtain ⟨first, found⟩ := result
      simp only [hpass] at hrun
      have hle := clrPass_le hon (Nat.zero_le n) hpass
      by_cases hall : found = n
      · rw [hall] at hpass
        exact hno (holdsRun_of_clrPass hfuel hon hn hpass)
      · rw [if_neg hall] at hrun
        cases hagain : ppNextClr M pool.base colors fuel 0 with
        | none =>
          rw [hagain] at hrun
          cases hrun
        | some index2 =>
          have hon2 := ppNextClr_onColor hagain
          have hnever : pool.clrPass m colors fuel n pool.last fuel index2 found first = none := by
            by_cases hclear : ∀ k, pool.numPages ≤ k → k < pool.last →
                onColor M pool.base k colors = true → m (pool.bitmap + k) = true
            · apply clrPass_wraps hfuel hno hon2 (ppNextClr_lt (Nat.two_pow_pos _) hagain) _
                (by omega)
              intro t hge ht
              rw [Bool.eq_false_iff]
              exact fun hcolor => hheld ⟨hclear, t, hge, ht, hcolor⟩
            · simp only [Classical.not_forall, Bool.not_eq_true] at hclear
              obtain ⟨t, hge, hlt, hcolor, hfree⟩ := hclear
              have hle2 := (ppNextClr_between (by omega) (Nat.zero_le t) hcolor hagain).2
              exact clrPass_held hfuel hno hon2 (by omega) hle2 hlt hge hcolor hfree (by omega)
          rw [hagain] at hrun
          simp only [hnever] at hrun
          cases hrun

theorem takeClr_ends (m : Store) (pool : PagePool M) (hclr : HasColor M colors) (n first : Nat) :
    ∃ least out m' pool', ∀ cf, least ≤ cf →
      pool.takeClr m n colors cf first = some (true, out, m', pool') := by
  obtain ⟨least, m', last, hmark⟩ := markClr_ends m pool hclr n first
  refine ⟨least, { base := pool.base + first * M.pageSize, numPages := n, colors := colors }, m',
    { pool with free := (pool.free + (M.wordCount - n)) % M.wordCount, last := last },
    fun cf hcf => ?_⟩
  rw [takeClr, hmark cf hcf]

/-- `pp_alloc_clr` where the first round ends. -/
theorem ppAllocClr_of_first {out : Ppages} (least : Nat) {index start found : Nat}
    (hclr : HasColor M colors)
    (hnext : ∀ cf, least ≤ cf → ppNextClr M pool.base colors cf pool.last = some index)
    (hpass : ∀ cf f, least ≤ cf → least ≤ f →
      pool.clrPass m colors cf n pool.numPages f index 0 0 = some (start, found))
    (hsecond : found ≠ n → ∃ least2 index2 start2 found2,
      (∀ cf, least2 ≤ cf → ppNextClr M pool.base colors cf 0 = some index2) ∧
      (∀ cf f, least2 ≤ cf → least2 ≤ f →
        pool.clrPass m colors cf n pool.last f index2 found start = some (start2, found2)) ∧
      (pool.HoldsRun m n colors → found2 = n)) :
    pool.ClrAllocFine m n colors out := by
  by_cases hall : found = n
  · obtain ⟨least3, out', m', pool', htake⟩ := takeClr_ends m pool hclr n start
    have hrun : pool.ppAllocClr m n colors (max least least3) out =
        some (true, out', m', pool') := by
      rw [ppAllocClr, hnext _ (by omega)]
      simp only [hpass _ _ (Nat.le_max_left least least3) (Nat.le_max_left least least3)]
      rw [if_pos hall]
      exact htake _ (by omega)
    exact .of_result hrun fun _ => rfl
  · obtain ⟨least2, index2, start2, found2, hnext2, hpass2, hfinds⟩ := hsecond hall
    obtain ⟨least3, out', m', pool', htake⟩ := takeClr_ends m pool hclr n start2
    let fuel := max least (max least2 least3)
    have hrun : pool.ppAllocClr m n colors fuel out =
        if found2 = n then pool.takeClr m n colors fuel start2
        else some (false, { out with colors := colors, numPages := 0 }, m, pool) := by
      rw [ppAllocClr, hnext fuel (by omega)]
      simp only [hpass fuel fuel (by omega) (by omega)]
      rw [if_neg hall, hnext2 fuel (by omega)]
      simp only [hpass2 fuel fuel (by omega) (by omega)]
    by_cases hall2 : found2 = n
    · rw [if_pos hall2, htake fuel (by omega)] at hrun
      exact .of_result hrun fun _ => rfl
    · rw [if_neg hall2] at hrun
      exact .of_result hrun fun hholds => absurd (hfinds hholds) hall2

theorem exists_next (hclr : HasColor M colors) (base index : Nat) :
    ∃ least r, onColor M base r colors = true ∧
      ∀ cf, least ≤ cf → ppNextClr M base colors cf index = some r := by
  obtain ⟨fuel, r, hr⟩ := ppNextClr_total hclr base index
  exact ⟨fuel, r, ppNextClr_onColor hr, fun cf hcf => ppNextClr_mono hcf hr⟩

/-- **Coloured allocation is sound, complete and ends** under the condition. -/
theorem ClrSearchEnds.fine {out : Ppages} (hclr : HasColor M colors) (hn : 0 < n)
    (h : pool.ClrSearchEnds m n colors) : pool.ClrAllocFine m n colors out := by
  have hpool := pool.numPages_lt
  have hword := M.four_pageCount_le_wordCount
  have hperiod := M.colorPeriod_le
  obtain ⟨t, htlo, hthi, hcolor⟩ := exists_onColor pool.base pool.numPages hclr (by omega)
  obtain ⟨least1, index1, hon1, hnext1⟩ := exists_next hclr pool.base pool.last
  obtain ⟨least2, index2, hon2, hnext2⟩ := exists_next hclr pool.base 0
  -- the first round ends in any case
  obtain ⟨least3, start, found, hle, hpass⟩ := clrPass_ends (n := n) m 0 hclr
    (show t < M.wordCount by omega) htlo hcolor (fun k hlo hhi => absurd hhi (by omega)) hon1
    (Nat.zero_le n)
  by_cases hholds : pool.HoldsRun m n colors
  · obtain ⟨first, past, hrun⟩ := hholds.runFrom hn
    have hfirst := hrun.start.2.1
    rcases Nat.lt_or_ge first index1 with hbelow | hge
    · -- the run starts below the first round's start, so in the second one's bound
      have hbound : first < pool.last := by
        apply Nat.lt_of_not_le
        intro hle'
        have := (ppNextClr_between (by omega) hle' hrun.start.1 (hnext1 least1 (Nat.le_refl _))).2
        omega
      have hstart2 := (ppNextClr_between (by omega) (Nat.zero_le first) hrun.start.1
        (hnext2 least2 (Nat.le_refl _))).2
      refine ppAllocClr_of_first (max least1 least3) hclr
        (fun cf hcf => hnext1 cf (by omega)) (fun cf f hcf hf => hpass cf f (by omega) (by omega))
        fun hne => ?_
      obtain ⟨least4, start2, hpass2⟩ := hrun.found start hclr hstart2 hbound hon2
        (Nat.lt_of_le_of_ne hle hne)
      exact ⟨max least2 least4, index2, start2, n, fun cf hcf => hnext2 cf (by omega),
        fun cf f hcf hf => hpass2 cf f (by omega) (by omega), fun _ => rfl⟩
    · obtain ⟨least4, start1, hpass1⟩ := hrun.found 0 hclr hge hfirst hon1 hn
      exact ppAllocClr_of_first (max least1 least4) hclr
        (fun cf hcf => hnext1 cf (by omega)) (fun cf f hcf hf => hpass1 cf f (by omega) (by omega))
        fun hne => absurd rfl hne
  · refine ppAllocClr_of_first (max least1 least3) hclr
      (fun cf hcf => hnext1 cf (by omega)) (fun cf f hcf hf => hpass cf f (by omega) (by omega))
      fun hne => ?_
    -- the second round ends as well
    have hbound : ∃ t, pool.last ≤ t ∧ t < M.wordCount ∧ onColor M pool.base t colors = true := by
      rcases h with hin | hyes | ⟨-, hout⟩
      · exact ⟨t, by omega, by omega, hcolor⟩
      · exact absurd hyes hholds
      · exact hout
    have hclear : ∀ k, pool.numPages ≤ k → k < pool.last → onColor M pool.base k colors = true →
        m (pool.bitmap + k) = true := by
      rcases h with hin | hyes | ⟨hall, -⟩
      · exact fun k hlo hhi => absurd hhi (by omega)
      · exact absurd hyes hholds
      · exact hall
    obtain ⟨t2, hlo2, hhi2, hcolor2⟩ := hbound
    obtain ⟨least4, start2, found2, -, hpass2⟩ := clrPass_ends m start hclr hhi2
      hlo2 hcolor2 hclear hon2 hle
    exact ⟨max least2 least4, index2, start2, found2, fun cf hcf => hnext2 cf (by omega),
      fun cf f hcf hf => hpass2 cf f (by omega) (by omega), fun hyes => absurd hyes hholds⟩

/-- **Coloured allocation is sound, complete and ends** exactly under the condition. -/
theorem ppAllocClr_fine_iff {out : Ppages} (hclr : HasColor M colors) (hn : 0 < n)
    (hlast : pool.last < M.wordCount) :
    pool.ClrAllocFine m n colors out ↔ pool.ClrSearchEnds m n colors :=
  ⟨fun h => h.ends hn hlast, fun h => h.fine hclr hn⟩

/-- Three pages of two of the four colours, from the sixth page of a free pool on. -/
theorem ppAllocClr_fine_sixteen :
    sixteenPages.ClrAllocFine sixteenFree.bits 3 5 noPpages :=
  (ppAllocClr_fine_iff ⟨0, by decide, by decide⟩ (by decide) (by decide)).mpr (.inl (by decide))

/-- A pool of 33 pages whose last uncoloured allocation ran over its end. -/
def overrunPool : PagePool fourColors where
  base := 0
  numPages := 33
  free := 2
  last := 34
  bitmap := 0
  aligned := by decide
  numPages_lt := by decide
  fits := by decide

/-- With all its pages taken and the bit beyond the pool clear again, a coloured request
does not come to an end. -/
theorem ppAllocClr_not_fine :
    HasColor fourColors 1 ∧ ¬ overrunPool.ClrAllocFine (fun b => b != 33) 1 1 noPpages := by
  refine ⟨⟨0, by decide, by decide⟩, fun h => ?_⟩
  rcases h.ends (by decide) (by decide) with hin | ⟨fuel, first, l, hl, hfree⟩ | ⟨hset, -⟩
  · exact absurd hin (by decide)
  · -- no page of the pool is free
    obtain ⟨k, rest, rfl⟩ := List.exists_cons_of_length_eq_add_one (clrPages_length hl)
    obtain ⟨hk, hclear⟩ := hfree.free k List.mem_cons_self
    simp only [overrunPool, Nat.zero_add, bne_eq_false_iff_eq] at hk hclear
    omega
  · exact absurd (hset 33 (by decide) (by decide) (by decide)) (by decide)

end PagePool

end Bao

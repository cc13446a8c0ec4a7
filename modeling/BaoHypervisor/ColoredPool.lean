import BaoHypervisor.PagePool

/-!
# Coloured allocation and freeing

The MMU build can restrict an allocation to pages whose cache colour is in a
colour map.  Consecutive pages of such a range are consecutive on-colour
pages of the pool.  The loops here may fail to end (no colour of the map
exists, or the search bound lies beyond the pool), so every function takes
fuel; a call returns what it returns for some fuel.
-/

namespace Bao

open BitMemory

variable {M : Machine}

/-- Page `index` of a range at `base` has a colour of the map. -/
def onColor (M : Machine) (base index colors : Nat) : Bool :=
  let clrOffset := base / M.pageSize % (M.colorNum * M.colorSize)
  colors.testBit ((index + clrOffset) % M.wordCount / M.colorSize % M.colorNum)

/-- `pp_next_clr`. -/
def ppNextClr (M : Machine) (base colors : Nat) : Nat → Nat → Option Nat
  | 0, _ => none
  | fuel + 1, index =>
      if onColor M base index colors then some index
      else ppNextClr M base colors fuel ((index + 1) % M.wordCount)

/-! ## The next page of a colour map -/

theorem ppNextClr_onColor {base colors fuel index r : Nat}
    (h : ppNextClr M base colors fuel index = some r) : onColor M base r colors = true := by
  induction fuel generalizing index with
  | zero => cases h
  | succ fuel ih =>
      rw [ppNextClr] at h
      by_cases hon : onColor M base index colors
      · rw [if_pos hon] at h
        obtain rfl := Option.some.inj h
        exact hon
      · rw [if_neg hon] at h
        exact ih h

theorem ppNextClr_self {base colors fuel index : Nat} (hfuel : fuel ≠ 0)
    (hon : onColor M base index colors = true) :
    ppNextClr M base colors fuel index = some index := by
  obtain ⟨fuel, rfl⟩ := Nat.exists_eq_succ_of_ne_zero hfuel
  rw [ppNextClr, if_pos hon]

theorem ppNextClr_between {base colors fuel index r t : Nat} (ht : t < M.wordCount)
    (hle : index ≤ t) (hon : onColor M base t colors = true)
    (h : ppNextClr M base colors fuel index = some r) : index ≤ r ∧ r ≤ t := by
  induction fuel generalizing index with
  | zero => cases h
  | succ fuel ih =>
      rw [ppNextClr] at h
      by_cases hhere : onColor M base index colors
      · rw [if_pos hhere] at h
        obtain rfl := Option.some.inj h
        exact ⟨Nat.le_refl _, hle⟩
      · rw [if_neg hhere] at h
        have hne : index ≠ t := fun heq => hhere (heq ▸ hon)
        rw [Nat.mod_eq_of_lt (by omega)] at h
        obtain ⟨h1, h2⟩ := ih (by omega) h
        exact ⟨by omega, h2⟩

theorem onColor_add_period {base index colors : Nat} (hindex : index < M.pageCount) :
    onColor M base (index + M.colorNum * M.colorSize) colors = onColor M base index colors := by
  have hperiod := M.colorPeriod_le
  have hpos := M.colorPeriod_pos
  have hoff := Nat.mod_lt (base / M.pageSize) hpos
  have hword := M.four_pageCount_le_wordCount
  unfold onColor
  simp only
  rw [Nat.mod_eq_of_lt (a := index + _) (by omega),
    Nat.mod_eq_of_lt (a := index + M.colorNum * M.colorSize + _) (by omega),
    Nat.add_right_comm, Nat.add_mul_div_right _ _ M.colorSize_pos, Nat.add_mod_right]

theorem lt_of_ppNextClr_succ {base colors fuel index r : Nat} (hindex : index < M.pageCount)
    (hon : onColor M base index colors = true)
    (h : ppNextClr M base colors fuel ((index + 1) % M.wordCount) = some r) :
    index < r ∧ ppNextClr M base colors fuel (index + 1) = some r := by
  have hperiod := M.colorPeriod_le
  have hpos := M.colorPeriod_pos
  have hword := M.four_pageCount_le_wordCount
  rw [Nat.mod_eq_of_lt (by omega)] at h
  have hnext : onColor M base (index + M.colorNum * M.colorSize) colors = true := by
    rw [onColor_add_period hindex, hon]
  obtain ⟨h1, -⟩ := ppNextClr_between (by omega) (by omega) hnext h
  exact ⟨by omega, h⟩

/-- The `n` on-colour page indices from `index` on. -/
def clrPages (M : Machine) (base colors fuel : Nat) : Nat → Nat → Option (List Nat)
  | 0, _ => some []
  | n + 1, index =>
      match ppNextClr M base colors fuel index with
      | none => none
      | some i => (clrPages M base colors fuel n (i + 1)).map (i :: ·)

theorem clrPages_of_next {base colors fuel n index i : Nat}
    (h : ppNextClr M base colors fuel index = some i) :
    clrPages M base colors fuel n i = clrPages M base colors fuel n index := by
  have hfuel : fuel ≠ 0 := by
    rintro rfl
    cases h
  cases n with
  | zero => rfl
  | succ n => rw [clrPages, clrPages, h, ppNextClr_self hfuel (ppNextClr_onColor h)]

theorem clrPages_length {base colors fuel n index : Nat} {l : List Nat}
    (h : clrPages M base colors fuel n index = some l) : l.length = n := by
  induction n generalizing index l with
  | zero =>
      obtain rfl := Option.some.inj h
      rfl
  | succ n ih =>
      rw [clrPages] at h
      cases hnext : ppNextClr M base colors fuel index with
      | none => rw [hnext] at h; cases h
      | some i =>
          rw [hnext] at h
          obtain ⟨rest, hrest, rfl⟩ := Option.map_eq_some_iff.mp h
          rw [List.length_cons, ih hrest]

namespace PagePool

/-- The loop of `mem_free_ppages` over `n` on-colour pages. -/
def freeClr (pool : PagePool M) (colors fuel : Nat) : Nat → Store → Nat → Option Store
  | 0, m, _ => some m
  | n + 1, m, index =>
      match ppNextClr M pool.base colors fuel index with
      | none => none
      | some index => freeClr pool colors fuel n (bitmapClear m pool.bitmap index) (index + 1)

/-- The body of `mem_free_ppages` for one pool (MMU build). -/
def memFreePpages (pool : PagePool M) (fuel : Nat) (ppages : Ppages) (m : Store) :
    Option Store :=
  if M.inRange ppages.base pool.base (pool.numPages * M.pageSize) then
    let index := (ppages.base - pool.base) / M.pageSize
    if M.allClrs ppages.colors then
      some (bitmapClearConsecutive m pool.bitmap index ppages.numPages)
    else freeClr pool ppages.colors fuel ppages.numPages m index
  else some m

/-- The body of `mem_free_ppages` for one pool (MPU build). -/
def memFreePpagesMpu (pool : PagePool M) (ppages : Ppages) (m : Store) : Store :=
  if M.inRange ppages.base pool.base (pool.numPages * M.pageSize) then
    bitmapClearConsecutive m pool.bitmap ((ppages.base - pool.base) / M.pageSize) ppages.numPages
  else m

/-- The loop of `pp_alloc_clr` that looks for a free page below `limit`. -/
def skipUsed (m : Store) (pool : PagePool M) (colors clrFuel limit : Nat) :
    Nat → Nat → Option Nat
  | 0, _ => none
  | fuel + 1, index =>
      if index < limit ∧ bitmapGet m pool.bitmap index then
        match ppNextClr M pool.base colors clrFuel ((index + 1) % M.wordCount) with
        | none => none
        | some index => skipUsed m pool colors clrFuel limit fuel index
      else some index

/-- The loop of `pp_alloc_clr` that counts free pages: index and count after it. -/
def countFree (m : Store) (pool : PagePool M) (colors clrFuel n : Nat) :
    Nat → Nat → Nat → Option (Nat × Nat)
  | 0, _, _ => none
  | fuel + 1, index, allocated =>
      if index < pool.numPages ∧ bitmapGet m pool.bitmap index = false ∧ allocated < n then
        match ppNextClr M pool.base colors clrFuel ((index + 1) % M.wordCount) with
        | none => none
        | some index => countFree m pool colors clrFuel n fuel index (allocated + 1)
      else some (index, allocated)

/-- One search pass of `pp_alloc_clr`: first index and count found.  The
outer loop of the source runs while the count is short and the bound is not
reached. -/
def clrPass (m : Store) (pool : PagePool M) (colors clrFuel n limit : Nat) :
    Nat → Nat → Nat → Nat → Option (Nat × Nat)
  | 0, _, _, _ => none
  | fuel + 1, index, allocated, firstIndex =>
      if allocated < n ∧ index < limit then
        match skipUsed m pool colors clrFuel limit fuel index with
        | none => none
        | some index =>
            if limit ≤ index then some (firstIndex, 0)
            else
              match countFree m pool colors clrFuel n fuel index 0 with
              | none => none
              | some (next, allocated) =>
                  clrPass m pool colors clrFuel n limit fuel next allocated index
      else some (firstIndex, allocated)

/-- The marking loop of `pp_alloc_clr`: bitmap and index after it. -/
def markClr (pool : PagePool M) (colors clrFuel : Nat) : Nat → Store → Nat → Option (Store × Nat)
  | 0, m, index => some (m, index)
  | n + 1, m, index =>
      match ppNextClr M pool.base colors clrFuel index with
      | none => none
      | some index => markClr pool colors clrFuel n (bitmapSet m pool.bitmap index) (index + 1)

/-- The end of `pp_alloc_clr` once `n` pages are found from `firstIndex` on. -/
def takeClr (m : Store) (pool : PagePool M) (n colors clrFuel firstIndex : Nat) :
    Option (Bool × Ppages × Store × PagePool M) :=
  match markClr pool colors clrFuel n m firstIndex with
  | none => none
  | some (m', index) =>
      some (true, { base := pool.base + firstIndex * M.pageSize, numPages := n, colors := colors },
        m', { pool with free := (pool.free + (M.wordCount - n)) % M.wordCount, last := index })

/-- `pp_alloc_clr`. -/
def ppAllocClr (m : Store) (pool : PagePool M) (n colors fuel : Nat) (ppages : Ppages) :
    Option (Bool × Ppages × Store × PagePool M) :=
  match ppNextClr M pool.base colors fuel pool.last with
  | none => none
  | some index =>
      match clrPass m pool colors fuel n pool.numPages fuel index 0 0 with
      | none => none
      | some (firstIndex, allocated) =>
          if allocated = n then takeClr m pool n colors fuel firstIndex
          else
            match ppNextClr M pool.base colors fuel 0 with
            | none => none
            | some index =>
                match clrPass m pool colors fuel n pool.last fuel index allocated firstIndex with
                | none => none
                | some (firstIndex, allocated) =>
                    if allocated = n then takeClr m pool n colors fuel firstIndex
                    else some (false, { ppages with colors := colors, numPages := 0 }, m, pool)

/-! ## What a coloured allocation takes -/

theorem markClr_eq {m m' : Store} {pool : PagePool M} {colors fuel n index last : Nat}
    (h : markClr pool colors fuel n m index = some (m', last)) :
    ∃ l, clrPages M pool.base colors fuel n index = some l ∧
      m' = fillAt m true pool.bitmap l := by
  induction n generalizing m index with
  | zero =>
      obtain ⟨rfl, rfl⟩ : m = m' ∧ index = last := by simpa [markClr] using h
      exact ⟨[], rfl, rfl⟩
  | succ n ih =>
      rw [markClr] at h
      cases hnext : ppNextClr M pool.base colors fuel index with
      | none => rw [hnext] at h; cases h
      | some i =>
          rw [hnext] at h
          simp only [bitmapSet_eq] at h
          obtain ⟨l, hl, rfl⟩ := ih h
          exact ⟨i :: l, by rw [clrPages, hnext]; simp only [hl, Option.map_some], rfl⟩

theorem freeClr_eq {m m' : Store} {pool : PagePool M} {colors fuel n index : Nat}
    (h : freeClr pool colors fuel n m index = some m') :
    ∃ l, clrPages M pool.base colors fuel n index = some l ∧
      m' = fillAt m false pool.bitmap l := by
  induction n generalizing m index with
  | zero =>
      obtain rfl := Option.some.inj h
      exact ⟨[], rfl, rfl⟩
  | succ n ih =>
      rw [freeClr] at h
      cases hnext : ppNextClr M pool.base colors fuel index with
      | none => rw [hnext] at h; cases h
      | some i =>
          rw [hnext] at h
          simp only [bitmapClear_eq] at h
          obtain ⟨l, hl, rfl⟩ := ih h
          exact ⟨i :: l, by rw [clrPages, hnext]; simp only [hl, Option.map_some], rfl⟩

/-- Free on-colour pages of the pool, in increasing order. -/
structure FreePages (m : Store) (pool : PagePool M) (colors : Nat) (l : List Nat) : Prop where
  increasing : l.Pairwise (· < ·)
  free : ∀ i ∈ l, i < pool.numPages ∧ m (pool.bitmap + i) = false
  colored : ∀ i ∈ l, onColor M pool.base i colors = true

theorem countFree_pages {m : Store} {pool : PagePool M} {colors clrFuel n fuel : Nat}
    {index allocated next allocated' : Nat} (hon : onColor M pool.base index colors = true)
    (h : countFree m pool colors clrFuel n fuel index allocated = some (next, allocated')) :
    onColor M pool.base next colors = true ∧ allocated ≤ allocated' ∧
      (clrFuel ≠ 0 → ∃ l, clrPages M pool.base colors clrFuel (allocated' - allocated) index =
        some l ∧ FreePages m pool colors l ∧ ∀ i ∈ l, index ≤ i) := by
  induction fuel generalizing index allocated with
  | zero => cases h
  | succ fuel ih =>
      rw [countFree, bitmapGet_eq] at h
      by_cases hgo : index < pool.numPages ∧ m (pool.bitmap + index) = false ∧ allocated < n
      · obtain ⟨hin, hfree, hshort⟩ := hgo
        rw [if_pos ⟨hin, hfree, hshort⟩] at h
        cases hnext : ppNextClr M pool.base colors clrFuel ((index + 1) % M.wordCount) with
        | none => rw [hnext] at h; cases h
        | some i =>
            rw [hnext] at h
            have hpool := pool.numPages_lt
            obtain ⟨hlt, hnext'⟩ := lt_of_ppNextClr_succ (by omega) hon hnext
            obtain ⟨hon', hle, hpages⟩ := ih (ppNextClr_onColor hnext) h
            refine ⟨hon', by omega, fun hfuel => ?_⟩
            obtain ⟨l, hl, hl', hge⟩ := hpages hfuel
            obtain ⟨k, hk⟩ : ∃ k, allocated' - allocated = k + 1 :=
              ⟨allocated' - (allocated + 1), by omega⟩
            have hk' : allocated' - (allocated + 1) = k := by omega
            rw [hk', clrPages_of_next hnext'] at hl
            refine ⟨index :: l, ?_, ⟨?_, ?_, ?_⟩, ?_⟩
            · rw [hk, clrPages, ppNextClr_self hfuel hon]
              simp only [hl, Option.map_some]
            · exact List.pairwise_cons.mpr
                ⟨fun j hj => Nat.lt_of_lt_of_le hlt (hge j hj), hl'.increasing⟩
            · exact List.forall_mem_cons.mpr ⟨⟨hin, hfree⟩, hl'.free⟩
            · exact List.forall_mem_cons.mpr ⟨hon, hl'.colored⟩
            · exact List.forall_mem_cons.mpr
                ⟨Nat.le_refl _, fun j hj => Nat.le_trans (Nat.le_of_lt hlt) (hge j hj)⟩
      · rw [if_neg hgo] at h
        obtain ⟨rfl, rfl⟩ : index = next ∧ allocated = allocated' := by simpa using h
        refine ⟨hon, Nat.le_refl _, fun _ => ⟨[], by rw [Nat.sub_self, clrPages], ?_, ?_⟩⟩
        · exact ⟨List.Pairwise.nil, fun _ hi => (List.not_mem_nil hi).elim,
            fun _ hi => (List.not_mem_nil hi).elim⟩
        · exact fun _ hi => (List.not_mem_nil hi).elim

theorem skipUsed_onColor {m : Store} {pool : PagePool M} {colors clrFuel limit fuel : Nat}
    {index r : Nat} (hon : onColor M pool.base index colors = true)
    (h : skipUsed m pool colors clrFuel limit fuel index = some r) :
    onColor M pool.base r colors = true := by
  induction fuel generalizing index with
  | zero => cases h
  | succ fuel ih =>
      rw [skipUsed] at h
      by_cases hgo : index < limit ∧ bitmapGet m pool.bitmap index
      · rw [if_pos hgo] at h
        cases hnext : ppNextClr M pool.base colors clrFuel ((index + 1) % M.wordCount) with
        | none => rw [hnext] at h; cases h
        | some i =>
            rw [hnext] at h
            exact ih (ppNextClr_onColor hnext) h
      · rw [if_neg hgo] at h
        obtain rfl := Option.some.inj h
        exact hon

/-- A pass that reaches the count it was missing stands at the first of that
many free pages. -/
theorem clrPass_pages {m : Store} {pool : PagePool M} {colors clrFuel n limit fuel : Nat}
    {index allocated firstIndex first : Nat} (hfuel : clrFuel ≠ 0)
    (hon : onColor M pool.base index colors = true)
    (hbefore : allocated = n → ∃ l, clrPages M pool.base colors clrFuel n firstIndex = some l ∧
      FreePages m pool colors l ∧ (n ≠ 0 → onColor M pool.base firstIndex colors = true))
    (h : clrPass m pool colors clrFuel n limit fuel index allocated firstIndex =
      some (first, n)) :
    ∃ l, clrPages M pool.base colors clrFuel n first = some l ∧ FreePages m pool colors l ∧
      (n ≠ 0 → onColor M pool.base first colors = true) := by
  induction fuel generalizing index allocated firstIndex with
  | zero => cases h
  | succ fuel ih =>
      rw [clrPass] at h
      by_cases hgo : allocated < n ∧ index < limit
      · rw [if_pos hgo] at h
        cases hskip : skipUsed m pool colors clrFuel limit fuel index with
        | none => rw [hskip] at h; cases h
        | some start =>
            rw [hskip] at h
            simp only at h
            have hstart := skipUsed_onColor hon hskip
            by_cases hout : limit ≤ start
            · rw [if_pos hout] at h
              obtain ⟨-, hzero⟩ : firstIndex = first ∧ 0 = n := by simpa using h
              omega
            · rw [if_neg hout] at h
              cases hcount : countFree m pool colors clrFuel n fuel start 0 with
              | none => rw [hcount] at h; cases h
              | some found =>
                  obtain ⟨next, found⟩ := found
                  rw [hcount] at h
                  obtain ⟨hnext, -, hpages⟩ := countFree_pages hstart hcount
                  refine ih hnext (fun hall => ?_) h
                  subst hall
                  obtain ⟨l, hl, hl', -⟩ := hpages hfuel
                  exact ⟨l, hl, hl', fun _ => hstart⟩
      · rw [if_neg hgo] at h
        obtain ⟨rfl, hall⟩ : firstIndex = first ∧ allocated = n := by simpa using h
        exact hbefore hall

/-- `pp_alloc_clr` takes the listed pages. -/
structure TakesClr (m m' : Store) (pool pool' : PagePool M) (n colors : Nat) (out : Ppages)
    (l : List Nat) : Prop where
  pages : FreePages m pool colors l
  length : l.length = n
  out_eq : ∃ fuel first, clrPages M pool.base colors fuel n first = some l ∧
    (n ≠ 0 → onColor M pool.base first colors = true) ∧ out = { base := pool.base + first * M.pageSize, numPages := n, colors := colors }
  bits : m' = fillAt m true pool.bitmap l
  pool_eq : ∃ last, pool' =
    { pool with free := (pool.free + (M.wordCount - n)) % M.wordCount, last := last }

theorem takeClr_takes {m m' : Store} {pool pool' : PagePool M} {n colors fuel first : Nat}
    {ok : Bool} {out : Ppages} {l : List Nat}
    (hl : clrPages M pool.base colors fuel n first = some l) (hfree : FreePages m pool colors l)
    (hon : n ≠ 0 → onColor M pool.base first colors = true)
    (h : takeClr m pool n colors fuel first = some (ok, out, m', pool')) :
    ok = true ∧ TakesClr m m' pool pool' n colors out l := by
  rw [takeClr] at h
  cases hmark : markClr pool colors fuel n m first with
  | none => rw [hmark] at h; cases h
  | some marked =>
      obtain ⟨m1, last⟩ := marked
      rw [hmark] at h
      obtain ⟨rfl, rfl, rfl, rfl⟩ : true = ok ∧ _ = out ∧ m1 = m' ∧ _ = pool' := by simpa using h
      obtain ⟨l1, hl1, rfl⟩ := markClr_eq hmark
      rw [hl] at hl1
      obtain rfl := Option.some.inj hl1
      exact ⟨rfl, hfree, clrPages_length hl, ⟨fuel, first, hl, hon, rfl⟩, rfl, last, rfl⟩

/-- **What `pp_alloc_clr` does.**  It takes `n` distinct free on-colour pages
of the pool, or it fails and changes nothing. -/
theorem ppAllocClr_cases {m m' : Store} {pool pool' : PagePool M} {n colors fuel : Nat}
    {ok : Bool} {out out' : Ppages}
    (h : pool.ppAllocClr m n colors fuel out = some (ok, out', m', pool')) :
    (ok = true ∧ ∃ l, TakesClr m m' pool pool' n colors out' l) ∨
    (ok = false ∧ out'.numPages = 0 ∧ m' = m ∧ pool' = pool) := by
  rw [ppAllocClr] at h
  cases hstart : ppNextClr M pool.base colors fuel pool.last with
  | none => rw [hstart] at h; cases h
  | some index =>
      have hfuel : fuel ≠ 0 := by
        rintro rfl
        cases hstart
      have hempty : 0 = n → ∃ l, clrPages M pool.base colors fuel n 0 = some l ∧
          FreePages m pool colors l ∧ (n ≠ 0 → onColor M pool.base 0 colors = true) := by
        rintro rfl
        exact ⟨[], rfl, ⟨List.Pairwise.nil, fun _ hi => (List.not_mem_nil hi).elim,
          fun _ hi => (List.not_mem_nil hi).elim⟩, fun hzero => (hzero rfl).elim⟩
      rw [hstart] at h
      cases hpass : clrPass m pool colors fuel n pool.numPages fuel index 0 0 with
      | none => simp only [hpass] at h; cases h
      | some found =>
          obtain ⟨first, allocated⟩ := found
          simp only [hpass] at h
          by_cases hall : allocated = n
          · rw [if_pos hall] at h
            subst hall
            obtain ⟨l, hl, hfree, hon⟩ := clrPass_pages hfuel (ppNextClr_onColor hstart) hempty hpass
            obtain ⟨hok, htakes⟩ := takeClr_takes hl hfree hon h
            exact .inl ⟨hok, l, htakes⟩
          · rw [if_neg hall] at h
            cases hagain : ppNextClr M pool.base colors fuel 0 with
            | none => rw [hagain] at h; cases h
            | some index2 =>
                rw [hagain] at h
                simp only at h
                cases hpass2 : clrPass m pool colors fuel n pool.last fuel index2 allocated first with
                | none => rw [hpass2] at h; cases h
                | some found2 =>
                    obtain ⟨first2, allocated2⟩ := found2
                    rw [hpass2] at h
                    simp only at h
                    by_cases hall2 : allocated2 = n
                    · rw [if_pos hall2] at h
                      subst hall2
                      obtain ⟨l, hl, hfree, hon⟩ := clrPass_pages hfuel (ppNextClr_onColor hagain)
                        (fun heq => (hall heq).elim) hpass2
                      obtain ⟨hok, htakes⟩ := takeClr_takes hl hfree hon h
                      exact .inl ⟨hok, l, htakes⟩
                    · rw [if_neg hall2] at h
                      obtain ⟨rfl, rfl, rfl, rfl⟩ :
                          false = ok ∧ _ = out' ∧ m = m' ∧ pool = pool' := by simpa using h
                      exact .inr ⟨rfl, rfl, rfl, rfl⟩

end PagePool

end Bao

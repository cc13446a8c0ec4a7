import BaoHypervisor.PageCopy
import BaoHypervisor.StepSystem
import BaoHypervisor.VpageScan

/-!
# Virtual pages over a run

The marks of `mem_alloc_vpage` reserve the range that the scan has found, entry by entry,
so that a call whose turns go well does what it should.  Over a run that mixes such calls
with other operations on the address space no page is granted twice: what has been
granted stays reserved or mapped until it is unmapped.  `mem_map` frees no page, and
`mem_unmap` none outside of its range.
-/

namespace Bao

open RadixTable

variable {F : Type} {M : Machine}

section

variable (A : MapSpace M F) (canAlloc : Nat → Bool)

/-- The page that an address lies in, as an index of the last level. -/
def pageIndex (a : Nat) : Nat := A.dscr.index (A.dscr.lvls - 1) a

/-- The page is one of the `n` from `v` on. -/
def InPages (v n page : Nat) : Prop := ∃ k, k < n ∧ page = pageIndex A (v + k * M.pageSize)

/-- An operation that frees none but the given pages, and under which walks still end. -/
structure FreesOnly (gone : Nat → Prop) (t t' : Table F) : Prop where
  ends : Ends A.dscr t → Ends A.dscr t'
  frees : ∀ a l, HoleAt A.dscr t' a l false →
    gone (pageIndex A a) ∨ ∃ l', HoleAt A.dscr t a l' false

end

variable {A : MapSpace M F} {canAlloc : Nat → Bool} {t t' t'' : Table F} {s s' : PtState F}
  {sec : Section} {a b i l lvl n v : Nat} {mark : Bool} {gone : Nat → Prop}

/-! ## The marks -/

/-- The walk of `mem_alloc_vpage` finds the hole that the walk for the address ends at. -/
theorem firstInvalid_eq {left : Nat} (hat : HoleAt A.dscr t a l mark) (hle : lvl ≤ l)
    (hsum : lvl + left = A.dscr.lvls) : firstInvalid A t a left lvl = some l := by
  have hlvl := hat.lvl
  induction left generalizing lvl with
  | zero => omega
  | succ left ih =>
    rw [firstInvalid, ptGetPte_eq_some.mpr ⟨by omega, reaches_of_le hle hat.reach, rfl⟩]
    dsimp only
    rcases Nat.eq_or_lt_of_le hle with rfl | hlt
    · rw [hat.entry]
      rfl
    · rw [table_above hat.reach hlt]
      exact ih hlt (by omega)

theorem markLoop_succ {fuel count : Nat} (hlt : count < n) (hat : HoleAt A.dscr s.pte a l mark) :
    markLoop A n (fuel + 1) s a count =
      markLoop A n fuel { s with pte := put s.pte l (A.dscr.index l a) (.hole true) }
        ((a + A.dscr.size l) % M.wordCount) (count + A.dscr.size l / M.pageSize) := by
  rw [markLoop, if_pos hlt, firstInvalid_eq hat (Nat.zero_le l) (Nat.zero_add _)]

theorem FreesOnly.refl : FreesOnly A gone t t where
  ends := id
  frees := fun _ l h => .inr ⟨l, h⟩

theorem FreesOnly.trans (h : FreesOnly A gone t t') (h' : FreesOnly A gone t' t'') :
    FreesOnly A gone t t'' where
  ends := fun hends => h'.ends (h.ends hends)
  frees := by
    intro a l hfree
    rcases h'.frees a l hfree with hgone | ⟨l', hfree'⟩
    · exact .inl hgone
    · exact h.frees a l' hfree'

theorem markLoop_freesOnly {fuel count : Nat} (h : markLoop A n fuel s a count = some s') :
    FreesOnly A gone s.pte s'.pte := by
  induction fuel generalizing s a count with
  | zero =>
    rw [markLoop] at h
    split at h
    · cases h
    · cases h
      exact .refl
  | succ fuel ih =>
    rw [markLoop] at h
    split at h
    · split at h
      · cases h
      · rename_i lvl hfirst
        obtain ⟨mark, hhole⟩ := firstInvalid_hole hfirst
        refine FreesOnly.trans ⟨?_, ?_⟩ (ih h)
        · intro hends
          exact hends.put hhole.lvl fun h => by cases h
        · intro a l hfree
          exact .inr ⟨l, hfree.of_put_mark⟩
    · cases h
      exact .refl

theorem markLoop_keeps {fuel addr count : Nat} (h : markLoop A n fuel s addr count = some s')
    (hat : HoleAt A.dscr s.pte a l true) : HoleAt A.dscr s'.pte a l true := by
  induction fuel generalizing s addr count with
  | zero =>
    rw [markLoop] at h
    split at h
    · cases h
    · cases h
      exact hat
  | succ fuel ih =>
    rw [markLoop] at h
    split at h
    · split at h
      · cases h
      · rename_i lvl hfirst
        obtain ⟨mark, hhole⟩ := firstInvalid_hole hfirst
        exact ih h (hat.put_true hhole.entry)
    · cases h
      exact hat

/-- **The marks** reserve a range that holes cover, and come to its end. -/
theorem markLoop_reserves {fuel y e : Nat} (count : Nat) (hcover : HoleCover A.dscr s.pte y e)
    (he : e ≤ M.wordCount) (hcount : count ≤ n) (hsum : y + (n - count) * M.pageSize = e)
    (hfuel : n - count ≤ fuel) :
    ∃ s', markLoop A n fuel s (y % M.wordCount) count = some s' ∧
      ∀ a, y ≤ a → a < e → ∃ l, HoleAt A.dscr s'.pte a l true := by
  induction fuel generalizing s count y with
  | zero =>
    have hzero : n - count = 0 := by omega
    rw [hzero, Nat.zero_mul] at hsum
    refine ⟨s, ?_, ?_⟩
    · rw [markLoop, if_neg (by omega)]
    · intro a hlo hhi
      omega
  | succ fuel ih =>
    rcases Nat.lt_or_ge count n with hlt | hge
    · have hpage : 0 < M.pageSize := M.pageSize_pos
      have hmore : 0 < (n - count) * M.pageSize := Nat.mul_pos (by omega) hpage
      obtain ⟨l, mark, hat, hal, hend, hrest⟩ := hcover.head (by omega)
      have hpages := A.pages_pos hat.lvl
      have hsize := A.size_eq hat.lvl
      have hle : A.dscr.size l / M.pageSize ≤ n - count := by
        apply Nat.le_of_mul_le_mul_right _ hpage
        rw [hsize]
        omega
      have hsum' : y + A.dscr.size l + (n - (count + A.dscr.size l / M.pageSize)) * M.pageSize =
          e := by
        rw [← Nat.sub_sub, Nat.sub_mul, hsize]
        omega
      obtain ⟨s', hloop, hreserved⟩ := ih
        (s := { s with pte := put s.pte l (A.dscr.index l y) (.hole true) }) _
        (hrest.put_mark hat.entry true) (by omega) hsum' (by omega)
      refine ⟨s', ?_, ?_⟩
      · rw [Nat.mod_eq_of_lt (by omega), markLoop_succ hlt hat]
        exact hloop
      · intro a hlo hhi
        rcases Nat.lt_or_ge a (y + A.dscr.size l) with hfirst | hlater
        · have hmarked := hat.marked.span (div_mul_of_span hal hlo hfirst).1
          exact ⟨l, markLoop_keeps hloop hmarked⟩
        · exact hreserved a hlater hhi
    · have hzero : n - count = 0 := by omega
      rw [hzero, Nat.zero_mul] at hsum
      refine ⟨s, ?_, ?_⟩
      · rw [markLoop, if_neg (by omega)]
      · intro a hlo hhi
        omega

/-! ## One call -/

theorem ScanInside.init {start : Nat} (fixed : Bool) (hends : Ends A.dscr s.pte)
    (hle : start ≤ sec.last) (hsec : sec.last < M.wordCount) (hpage : start % M.pageSize = 0)
    (n : Nat) : ScanInside A s.pte sec start n fixed start ⟨s, 0, start, 0, none⟩ where
  expands := .refl
  ends := hends
  addr := by
    rw [Nat.zero_mul, Nat.add_zero, Nat.mod_eq_of_lt (by omega)]
  last := by
    dsimp only
    omega
  word := by
    intro _
    dsimp only
    omega
  page := hpage
  beg := Nat.le_refl start
  count := Nat.zero_le n
  vpage := rfl
  cover := by
    rw [Nat.zero_mul, Nat.add_zero]
    exact .nil
  free := by
    intro a hlo hhi
    dsimp only at hhi
    omega
  atStart := fun _ => rfl
  first := fun _ hw _ _ => hw

theorem ScanResult.reserves {start fuel : Nat} {fixed : Bool}
    (h : ScanResult A t sec start n fixed (some v) s.pte) (hsec : sec.last < M.wordCount)
    (hfuel : n ≤ fuel) :
    ∃ s', markLoop A n fuel s v 0 = some s' ∧
      ∀ k, k < n → ∃ l, HoleAt A.dscr s'.pte (v + k * M.pageSize) l true := by
  obtain ⟨-, -, hlast⟩ := h.range v rfl
  obtain ⟨s', hloop, hreserved⟩ := markLoop_reserves (s := s) 0 (h.cover v rfl) (by omega)
    (Nat.zero_le n) rfl hfuel
  refine ⟨s', ?_, ?_⟩
  · by_cases hn : n = 0
    · subst hn
      cases fuel with
      | zero => simpa [markLoop] using hloop
      | succ fuel => simpa [markLoop] using hloop
    · have hpos : 0 < n * M.pageSize := Nat.mul_pos (by omega) M.pageSize_pos
      rwa [Nat.mod_eq_of_lt (by omega)] at hloop
  · intro k hk
    have hlt := Nat.mul_lt_mul_of_pos_right hk M.pageSize_pos
    exact hreserved _ (Nat.le_add_right v _) (by omega)

theorem ScanResult.freesOnly {start : Nat} {fixed : Bool} {r : Option Nat}
    (h : ScanResult A t sec start n fixed r t') : FreesOnly A gone t t' where
  ends := fun _ => h.ends
  frees := fun a l hfree => .inr (h.expands.back a l false hfree)

theorem AddrOk.beg {section_ : Nat} {at_ : Option Nat} (h : AddrOk A sec section_ at_)
    (hget : A.sections[section_]? = some sec) : sec.beg ≤ at_.getD sec.beg := by
  cases at_ with
  | none => exact Nat.le_refl _
  | some a =>
    obtain ⟨hlt, hin, -⟩ := List.findIdx?_eq_some_iff_getElem.mp (h.found a rfl)
    rw [List.getElem?_eq_getElem hlt] at hget
    rw [Option.some.inj hget] at hin
    simp only [Bool.and_eq_true, decide_eq_true_eq] at hin
    exact hin.1

/-- **A call that goes well** does what it should, and frees nothing. -/
theorem memAllocVpage_exact (gone : Nat → Prop) {section_ fuel : Nat} {at_ vpage : Option Nat}
    (hends : Ends A.dscr s.pte) (hn : 0 < n) (hget : A.sections[section_]? = some sec)
    (hfine : AllocFine A canAlloc sec s section_ at_ n)
    (h : memAllocVpage A canAlloc s section_ at_ n fuel = some (vpage, s')) :
    VpageExact A sec s.pte s'.pte at_ n vpage ∧ FreesOnly A gone s.pte s'.pte := by
  have hsec := A.sections_lt sec (List.mem_of_getElem? hget)
  rcases memAllocVpage_cases hget h with ⟨hbad, rfl, rfl⟩ | ⟨hok, s₁, hscan, hend⟩
  · have hpos : 0 < n * M.pageSize := Nat.mul_pos hn M.pageSize_pos
    refine ⟨⟨nofun, nofun, nofun, ?_, ?_⟩, .refl⟩
    · intro a hat hrun
      subst hat
      have hlast := hrun.last
      have hle : a ≤ sec.last := by omega
      refine absurd ⟨?_, hle, hrun.page⟩ hbad
      intro b hb
      cases hb
      exact hfine.found a rfl hrun.beg hle
    · intro hat hex
      subst hat
      obtain ⟨w, hrun⟩ := hex
      have hbeg := hrun.beg
      have hlast := hrun.last
      have hle : sec.beg ≤ sec.last := by omega
      exact absurd ⟨nofun, hle, hfine.beg rfl⟩ hbad
  · have hstart := ScanInside.init at_.isSome hends hok.last hsec hok.page n
    have hresult := scanLoop_result hn hsec hstart hfine.scan hscan
    rcases hend with ⟨rfl, rfl⟩ | ⟨v, rfl, hmark⟩
    · refine ⟨⟨nofun, nofun, nofun, ?_, ?_⟩, hresult.freesOnly⟩
      · intro a hat hrun
        subst hat
        exact absurd hrun (hresult.none rfl a (Nat.le_refl a) fun _ => rfl)
      · intro hat hex
        subst hat
        obtain ⟨w, hrun⟩ := hex
        exact absurd hrun (hresult.none rfl w hrun.beg nofun)
    · obtain ⟨s₂, hloop, hreserved⟩ := hresult.reserves hsec (Nat.le_max_left n fuel)
      rw [markLoop_mono (Nat.le_max_right n fuel) hmark] at hloop
      cases hloop
      obtain ⟨hlo, hsame, hlast⟩ := hresult.range v rfl
      refine ⟨⟨?_, ?_, ?_, ?_, ?_⟩, hresult.freesOnly.trans (markLoop_freesOnly hmark)⟩
      · intro v' hv
        cases hv
        exact ⟨Nat.le_trans (hok.beg hget) hlo, hlast⟩
      · intro v' hv k hk
        cases hv
        have hlt := Nat.mul_lt_mul_of_pos_right hk M.pageSize_pos
        obtain ⟨l, hat⟩ := hresult.free v rfl _ (Nat.le_add_right v (k * M.pageSize)) (by omega)
        exact hresult.expands.back _ l false hat
      · intro v' hv
        cases hv
        exact hreserved
      · intro a hat _
        subst hat
        rw [hsame rfl]
        rfl
      · intro _ _
        exact ⟨v, rfl⟩

/-- **It returns** where there is a page for every table. -/
theorem memAllocVpage_isSome {section_ : Nat} {at_ : Option Nat} (hpages : ∀ k, canAlloc k = true)
    (hends : Ends A.dscr s.pte) (hn : 0 < n) (hget : A.sections[section_]? = some sec)
    (hfine : AllocFine A canAlloc sec s section_ at_ n) :
    ∃ fuel r, memAllocVpage A canAlloc s section_ at_ n fuel = some r := by
  have hsec := A.sections_lt sec (List.mem_of_getElem? hget)
  by_cases hok : AddrOk A sec section_ at_
  · have hstart := ScanInside.init at_.isSome hends hok.last hsec hok.page n
    obtain ⟨fuel, ⟨r, s₁⟩, hscan⟩ := scanLoop_isSome hpages hsec hstart hfine.scan
      A.dscr.lvls_pos rfl
    have hresult := scanLoop_result hn hsec hstart hfine.scan hscan
    cases r with
    | none => exact ⟨fuel, _, by rw [memAllocVpage_of_ok hget hok, hscan]⟩
    | some v =>
      obtain ⟨s₂, hloop, -⟩ := hresult.reserves hsec (Nat.le_max_left n fuel)
      refine ⟨max n fuel, (some v, s₂), ?_⟩
      rw [memAllocVpage_of_ok hget hok, scanLoop_mono (Nat.le_max_right n fuel) hscan]
      dsimp only
      rw [hloop]
      rfl
  · exact ⟨0, _, memAllocVpage_of_not_ok hget hok⟩

theorem runInside_of_fixed {left addr count : Nat} (hl : lvl < A.dscr.lvls) (hcount : count ≤ n)
    (hpage : addr % M.pageSize = 0) (hlast : addr + (n - count) * M.pageSize ≤ sec.last + 1)
    (hsec : sec.last < M.wordCount) : RunInside A sec true n lvl t left i addr count := by
  induction left generalizing i addr count with
  | zero => trivial
  | succ left ih =>
    rw [RunInside]
    split
    · trivial
    · rename_i hmore
      split
      · trivial
      · split
        · rename_i hok
          obtain ⟨-, hroom⟩ := pteAllocable_spec hpage hl (by omega) hok
          have hsize := A.size_eq hl
          have hpages := pageSize_dvd_size (A := A.toPtAddrSpace) hl
          have hmul := Nat.mul_le_mul_right M.pageSize hroom
          rw [hsize] at hmul
          refine ⟨by omega, ?_, ?_⟩
          · intro hend
            have hall : (n - count) * M.pageSize ≤ A.dscr.size lvl := by omega
            rw [← hsize] at hall
            have hle := Nat.le_of_mul_le_mul_right hall M.pageSize_pos
            omega
          · apply ih (by omega)
            · rw [Nat.add_mod, hpage, Nat.mod_eq_zero_of_dvd hpages]
              exact Nat.zero_mod _
            · rw [← Nat.sub_sub, Nat.sub_mul, hsize]
              omega
        · trivial
      · trivial

/-- **A fixed request goes well** where the section goes on after its range for as many
pages again. -/
theorem allocFine_of_room {section_ : Nat} (hends : Ends A.dscr s.pte)
    (hfound : (A.sections.findIdx? fun sec => decide (sec.beg ≤ a) && decide (a ≤ sec.last)) =
      some section_) (hsec : sec.last < M.wordCount) (hpage : a % M.pageSize = 0) (hn : 0 < n)
    (hroom : a + (n + n) * M.pageSize ≤ sec.last + 1) :
    AllocFine A canAlloc sec s section_ (some a) n := by
  have hpos : 0 < n * M.pageSize := Nat.mul_pos hn M.pageSize_pos
  rw [Nat.add_mul] at hroom
  have hturn : ∀ {v : Nat} {u : ScanState F}, ScanInside A s.pte sec a n true v u → u.count < n →
      ScanTurnFine A sec true n u := by
    intro v u h hlt
    have hv := h.atStart rfl
    have haddr : u.addr = a + u.count * M.pageSize := by
      rw [h.addr, Nat.mod_eq_of_lt (h.word hlt), hv]
    have hword := h.word hlt
    have hcounted := Nat.mul_le_mul_right M.pageSize h.count
    have hrest : u.count * M.pageSize + (n - u.count) * M.pageSize = n * M.pageSize := by
      rw [← Nat.add_mul, Nat.add_sub_cancel' h.count]
    rw [hv] at hword
    constructor
    · intro hspace
      rw [haddr] at hspace
      have hend := noSpace_end hword (by omega) hsec hspace
      omega
    · intro _ i hget
      have hl := (ptGetPte_eq_some.mp hget).1
      apply runInside_of_fixed hl h.count _ (by omega) hsec
      rw [haddr, Nat.add_mul_mod_self_right]
      exact hpage
  refine ⟨nofun, ?_, ?_⟩
  · intro b hb _ _
    cases hb
    exact hfound
  · intro w hvisit hlt
    have hinside : ∃ v, ScanInside A s.pte sec a n true v w := by
      clear hlt
      induction hvisit with
      | start => exact ⟨a, ScanInside.init true hends (by omega) hsec hpage n⟩
      | turn _ hmore hspace hstep ih =>
        obtain ⟨v, h⟩ := ih
        obtain ⟨v', hnext⟩ := scanTurn_right hsec h hmore (hturn h hmore) hspace hstep
        exact ⟨v', hnext.inside⟩
    obtain ⟨v, h⟩ := hinside
    exact hturn h hlt

/-! ## Other operations -/

theorem freesOnly_put {entry : Entry F} (hl : lvl < A.dscr.lvls) (htable : entry ≠ .table)
    (hgone : entry = .hole false → ∀ a, A.dscr.index lvl a = i → gone (pageIndex A a)) :
    FreesOnly A gone t (put t lvl i entry) where
  ends := fun hends => hends.put hl htable
  frees := by
    intro a l hfree
    rcases hfree.of_put htable with ⟨-, hidx, hentry⟩ | hold
    · exact .inl (hgone hentry a hidx)
    · exact .inr ⟨l, hold⟩

/-- `mem_alloc_pt` at a hole. -/
theorem memAllocPt_freesOnly (hl : lvl + 1 < A.dscr.lvls) (hentry : s.pte lvl i = .hole mark) :
    FreesOnly A gone s.pte (memAllocPt A.toPtAddrSpace canAlloc s lvl i).2.pte := by
  rw [memAllocPt, hentry]
  split
  · refine ⟨?_, ?_⟩
    · intro hends
      change Ends A.dscr (grow A.dscr s.pte lvl i fun _ => .hole mark)
      exact hends.grow hl (by rw [hentry]; intro h; cases h) fun _ h => by cases h
    · intro a l hfree
      exact .inr (hfree.of_grow hl hentry)
  · exact .refl

theorem mapWalk_freesOnly {left vaddr paddr more lvl' : Nat}
    (h : mapWalk A canAlloc left vaddr paddr more lvl s = some (lvl', s')) :
    FreesOnly A gone s.pte s'.pte := by
  induction more generalizing lvl s with
  | zero => cases h
  | succ more ih =>
    rw [mapWalk] at h
    split at h
    · cases h
    · rename_i i hget
      split at h
      · split at h
        · cases h
          exact .refl
        · split at h
          · rename_i mark hentry
            split at h
            · rename_i hl
              exact (memAllocPt_freesOnly hl hentry).trans (ih h)
            · cases h
          · exact ih h
          · cases h
      · exact ih h

theorem mapRun_freesOnly {flags : F} {more : Nat} {u : MapState F} (hl : lvl < A.dscr.lvls) :
    FreesOnly A gone u.s.pte (mapRun A flags lvl more i u).s.pte := by
  induction more generalizing i u with
  | zero => exact .refl
  | succ more ih =>
    rw [mapRun]
    split
    · refine FreesOnly.trans ?_ ih
      exact freesOnly_put hl (fun h => by cases h) fun h => by cases h
    · exact .refl

theorem mapLoop_freesOnly {flags : F} {fuel : Nat} {u : MapState F}
    (h : mapLoop A canAlloc flags fuel u = some s') : FreesOnly A gone u.s.pte s'.pte := by
  induction fuel generalizing u with
  | zero =>
    rw [mapLoop] at h
    split at h
    · cases h
    · cases h
      exact .refl
  | succ fuel ih =>
    rw [mapLoop] at h
    split at h
    · split at h
      · cases h
      · rename_i lvl s1 hwalk
        have hl := (mapWalk_found hwalk).inside
        refine (mapWalk_freesOnly hwalk).trans (FreesOnly.trans ?_ (ih h))
        exact mapRun_freesOnly (u := { u with s := s1 }) hl
    · cases h
      exact .refl

/-- **`mem_map`** frees no page. -/
theorem memMap_freesOnly {va paddr fuel : Nat} {flags : F} {ok : Bool}
    (h : memMap A canAlloc s va paddr n flags fuel = some (ok, s')) :
    FreesOnly A gone s.pte s'.pte := by
  unfold memMap at h
  dsimp only at h
  split at h
  · obtain ⟨s1, hloop, heq⟩ := Option.map_eq_some_iff.mp h
    cases heq
    exact mapLoop_freesOnly hloop
  · cases h
    exact .refl

theorem memExpandPte_freesOnly {v : Nat} (hl : lvl < A.dscr.lvls)
    (hreach : reaches A.dscr s.pte v lvl = true)
    (h : memExpandPte A.toPtAddrSpace canAlloc s v lvl = some s') :
    FreesOnly A gone s.pte s'.pte := by
  rcases memExpandPte_cases hl hreach h with hsame | ⟨hsucc, rsv, hentry, hgrow⟩ |
    ⟨hsucc, -, base, flags, t, hentry, ht, hgrow⟩
  · rw [hsame]
    exact .refl
  · rw [hgrow]
    refine ⟨fun hends => hends.grow hsucc (by rw [hentry]; nofun) fun _ => nofun, ?_⟩
    intro a l hfree
    exact .inr (hfree.of_grow hsucc hentry)
  · rw [hgrow, ht, grow_grow]
    refine ⟨fun hends => hends.grow hsucc (by rw [hentry]; nofun) fun _ => nofun, ?_⟩
    intro a l hfree
    exact .inr ⟨l, hfree.of_grow_leaves hsucc hentry fun k => ⟨_, _, rfl⟩⟩

theorem inPages_of_entry {vaddr : Nat} (hl : lvl < A.dscr.lvls) (hv : v % M.pageSize = 0)
    (hle : v ≤ vaddr) (hal : vaddr % A.dscr.size lvl = 0)
    (hend : vaddr + A.dscr.size lvl ≤ v + n * M.pageSize)
    (hidx : A.dscr.index lvl a = A.dscr.index lvl vaddr) : InPages A v n (pageIndex A a) := by
  have hpage : 0 < M.pageSize := M.pageSize_pos
  have hlast : A.dscr.lvls - 1 < A.dscr.lvls := by omega
  have hmod : a % A.dscr.size lvl < A.dscr.size lvl := Nat.mod_lt _ Shape.size_pos
  have hvdiv := Nat.div_mul_cancel (Nat.dvd_of_mod_eq_zero hv)
  obtain ⟨d, hd⟩ : ∃ d, vaddr + a % A.dscr.size lvl = v + d :=
    ⟨_, (Nat.add_sub_cancel' (by omega)).symm⟩
  refine ⟨d / M.pageSize, ?_, ?_⟩
  · rw [Nat.div_lt_iff_lt_mul hpage]
    omega
  · have hsame : A.dscr.index (A.dscr.lvls - 1) a =
        A.dscr.index (A.dscr.lvls - 1) (vaddr + a % A.dscr.size lvl) :=
      Shape.index_below (by omega) hlast hidx hal
    have hdiv : (v + d) / M.pageSize = (v + d / M.pageSize * M.pageSize) / M.pageSize := by
      rw [Nat.add_mul_div_right _ _ hpage, ← hvdiv, Nat.mul_comm _ M.pageSize,
        Nat.mul_add_div hpage, Nat.mul_div_cancel_left _ hpage]
    rw [pageIndex, hsame, hd, pageIndex, Shape.index, Shape.index,
      pageSize_eq (A := A.toPtAddrSpace), hdiv]

/-- The inner loop of `mem_unmap` stays in the range, and frees pages of it only. -/
theorem unmapRun_freesOnly {freePpages : Bool} {left vaddr : Nat} {w : UnmapState F}
    (hl : lvl < A.dscr.lvls) (hv : v % M.pageSize = 0) (hle : v ≤ vaddr)
    (hroom : v + n * M.pageSize + A.dscr.size lvl ≤ M.wordCount)
    (hat : AtEntry A s.pte lvl left i vaddr)
    (h : unmapRun A.toPtAddrSpace canAlloc freePpages (v + n * M.pageSize) lvl left s i vaddr =
      some w) : v ≤ w.vaddr ∧ FreesOnly A (InPages A v n) s.pte w.s.pte := by
  induction left generalizing s i vaddr with
  | zero =>
    cases h
    exact ⟨hle, .refl⟩
  | succ left ih =>
    rw [unmapRun] at h
    split at h
    · cases h
      exact ⟨hle, .refl⟩
    · rename_i hlt
      have hnext := hat.next hl
      rcases hat with hzero | ⟨hreach, rfl, -⟩
      · omega
      split at h
      · cases h
        exact ⟨hle, .refl⟩
      · split at h
        · split at h
          · cases h
          · rename_i s1 hexpand
            cases h
            exact ⟨hle, memExpandPte_freesOnly hl hreach hexpand⟩
        · rename_i hcut
          obtain ⟨hal, hend⟩ := whole_of_not_cuts (A := A.toPtAddrSpace) (Nat.not_le.mp hlt) hroom
            (eq_false_of_ne_true hcut)
          have hpos : 0 < A.dscr.size lvl := Shape.size_pos
          rw [Nat.mod_eq_of_lt (by omega)] at h
          have hclear : FreesOnly A (InPages A v n) s.pte
              (unmapClear A.toPtAddrSpace freePpages s lvl (A.dscr.index lvl vaddr)).pte :=
            freesOnly_put hl (fun h => by cases h) fun _ a hidx => inPages_of_entry hl hv hle hal hend hidx
          obtain ⟨hle', hrest⟩ := ih (by omega) (hnext.put) h
          exact ⟨hle', hclear.trans hrest⟩

theorem unmapTurn_freesOnly {freePpages : Bool} {u w : UnmapState F} (hv : v % M.pageSize = 0)
    (hle : v ≤ u.vaddr) (hlt : u.vaddr < v + n * M.pageSize)
    (hroom : v + n * M.pageSize + A.dscr.size 0 ≤ M.wordCount)
    (h : unmapTurn A.toPtAddrSpace canAlloc freePpages (v + n * M.pageSize) u = some w) :
    v ≤ w.vaddr ∧ FreesOnly A (InPages A v n) u.s.pte w.s.pte := by
  unfold unmapTurn at h
  split at h
  · cases h
  · rename_i i hget
    obtain ⟨hl, hreach, hi⟩ := ptGetPte_eq_some.mp hget
    have hsize : A.dscr.size u.lvl ≤ A.dscr.size 0 :=
      Nat.pow_le_pow_right (by decide) (Shape.off_le (Nat.zero_le _) hl)
    split at h
    · cases h
      refine ⟨?_, .refl⟩
      dsimp only
      rw [Nat.mod_eq_of_lt (by omega)]
      omega
    · cases h
      exact ⟨hle, .refl⟩
    · exact unmapRun_freesOnly hl hv hle (by omega) (.inr ⟨hreach, hi, rfl⟩) h

/-- **`mem_unmap`** frees no page outside of its range. -/
theorem memUnmap_freesOnly {freePpages : Bool} {fuel : Nat} (hv : v % M.pageSize = 0)
    (hroom : v + n * M.pageSize + A.dscr.size 0 ≤ M.wordCount)
    (h : memUnmap A.toPtAddrSpace canAlloc s v n freePpages fuel = .done s') :
    FreesOnly A (InPages A v n) s.pte s'.pte := by
  have hroot : 0 < A.dscr.size 0 := Shape.size_pos
  unfold memUnmap at h
  rw [Nat.mod_eq_of_lt (by omega)] at h
  split at h
  · cases h
  · have hloop : ∀ (fuel : Nat) (u : UnmapState F), v ≤ u.vaddr →
        unmapLoop A.toPtAddrSpace canAlloc freePpages (v + n * M.pageSize) fuel u = .done s' →
        FreesOnly A (InPages A v n) u.s.pte s'.pte := by
      intro fuel
      induction fuel with
      | zero =>
        intro u _ h
        rw [unmapLoop] at h
        split at h
        · cases h
        · cases h
          exact .refl
      | succ fuel ih =>
        intro u hle h
        rw [unmapLoop] at h
        split at h
        · rename_i hlt
          split at h
          · cases h
          · rename_i u' hturn
            obtain ⟨hle', hfirst⟩ := unmapTurn_freesOnly hv hle hlt hroom hturn
            exact hfirst.trans (ih u' hle' h)
        · cases h
          exact .refl
    exact hloop fuel ⟨s, 0, v⟩ (Nat.le_refl v) h

/-! ## Runs -/

/-- An address space, with the pages that have been granted and not unmapped since. -/
structure VpageState (F : Type) where
  s : PtState F
  live : Nat → Prop

/-- A call of `mem_alloc_vpage` that has returned `vpage`, or another operation, which
frees none but the given pages. -/
inductive VpageEvent where
  | alloc (section_ : Nat) (at_ : Option Nat) (n : Nat) (vpage : Option Nat)
  | other (gone : Nat → Prop)

/-- The operations on an address space in any order, from tables whose walks end. -/
def vpageSystem (A : MapSpace M F) (canAlloc : Nat → Bool) :
    StepSystem (VpageState F) VpageEvent where
  init x := Ends A.dscr x.s.pte ∧ ∀ page, ¬ x.live page
  step x e x' :=
    match e with
    | .alloc section_ at_ n vpage =>
        0 < n ∧ (∃ fuel, memAllocVpage A canAlloc x.s section_ at_ n fuel = some (vpage, x'.s)) ∧
        ∀ page, x'.live page ↔ x.live page ∨ ∃ v, vpage = some v ∧ InPages A v n page
    | .other gone =>
        FreesOnly A gone x.s.pte x'.s.pte ∧ ∀ page, x'.live page ↔ x.live page ∧ ¬ gone page

/-- The calls of `mem_alloc_vpage` go well. -/
def CallFine (A : MapSpace M F) (canAlloc : Nat → Bool) (x : VpageState F) : VpageEvent → Prop
  | .alloc section_ at_ n _ => ∀ sec, A.sections[section_]? = some sec →
      AllocFine A canAlloc sec x.s section_ at_ n
  | .other _ => True

/-- Walks end, and what has been granted is not free. -/
structure VpageInv (A : MapSpace M F) (x : VpageState F) : Prop where
  ends : Ends A.dscr x.s.pte
  kept : ∀ a l, HoleAt A.dscr x.s.pte a l false → ¬ x.live (pageIndex A a)

variable {x x' : VpageState F}

/-- A call of `mem_map` is such an operation. -/
theorem vpageSystem_map {va paddr fuel : Nat} {flags : F} {ok : Bool}
    (h : memMap A canAlloc x.s va paddr n flags fuel = some (ok, s')) :
    (vpageSystem A canAlloc).step x (.other fun _ => False) ⟨s', x.live⟩ :=
  ⟨memMap_freesOnly h, fun _ => ⟨fun hlive => ⟨hlive, not_false⟩, fun hlive => hlive.1⟩⟩

/-- So is one of `mem_unmap` for a range with room above it for a root entry. -/
theorem vpageSystem_unmap {freePpages : Bool} {fuel : Nat} (hv : v % M.pageSize = 0)
    (hroom : v + n * M.pageSize + A.dscr.size 0 ≤ M.wordCount)
    (h : memUnmap A.toPtAddrSpace canAlloc x.s v n freePpages fuel = .done s') :
    (vpageSystem A canAlloc).step x (.other (InPages A v n))
      ⟨s', fun page => x.live page ∧ ¬ InPages A v n page⟩ :=
  ⟨memUnmap_freesOnly hv hroom h, fun _ => Iff.rfl⟩

theorem holeAt_page (h : HoleAt A.dscr t a l mark) (hpage : pageIndex A a = pageIndex A b) :
    HoleAt A.dscr t b l mark := by
  apply h.congr
  have hlvl := h.lvl
  exact Shape.index_eq_of_le (by omega) (by omega) hpage

/-- **One step**: what is granted is reserved, and only what is unmapped becomes free. -/
theorem VpageInv.step {e : VpageEvent} (h : VpageInv A x) (hfine : CallFine A canAlloc x e)
    (hstep : (vpageSystem A canAlloc).step x e x') : VpageInv A x' := by
  cases e with
  | other gone =>
    obtain ⟨hfrees, hlive⟩ := hstep
    refine ⟨hfrees.ends h.ends, ?_⟩
    intro a l hfree hin
    obtain ⟨hbefore, hkept⟩ := (hlive _).mp hin
    rcases hfrees.frees a l hfree with hgone | ⟨l', hfree'⟩
    · exact hkept hgone
    · exact h.kept a l' hfree' hbefore
  | alloc section_ at_ n vpage =>
    obtain ⟨hn, ⟨fuel, hcall⟩, hlive⟩ := hstep
    cases hget : A.sections[section_]? with
    | none =>
      rw [memAllocVpage, hget] at hcall
      cases hcall
    | some sec =>
      obtain ⟨hexact, hfrees⟩ := memAllocVpage_exact (fun _ => False) h.ends hn hget
        (hfine sec hget) hcall
      refine ⟨hfrees.ends h.ends, ?_⟩
      intro a l hfree hin
      rcases (hlive _).mp hin with hbefore | ⟨v, hv, k, hk, hpage⟩
      · obtain ⟨l', hfree'⟩ := (hfrees.frees a l hfree).resolve_left not_false
        exact h.kept a l' hfree' hbefore
      · obtain ⟨l', hreserved⟩ := hexact.reserved v hv k hk
        have hclash := (holeAt_page hfree hpage).unique hreserved
        cases hclash.2

/-- **A run** whose calls go well. -/
theorem vpageInv_reach (h : (vpageSystem A canAlloc).Reach (CallFine A canAlloc) x) :
    VpageInv A x := by
  apply StepSystem.Reach.invariant _ _ h
  · intro x hinit
    exact ⟨hinit.1, fun a _ _ => hinit.2 (pageIndex A a)⟩
  · intro x e x' hinv hfine hstep
    exact hinv.step hfine hstep

/-- All blocks of 1 GB of the last section are reserved. -/
def lastSectionFull : PtState Bool where
  pte := fun l i => if l = 0 ∧ 384 ≤ i ∧ i < 448 then .hole true else .hole false
  allocs := 0
  freed := []

end Bao

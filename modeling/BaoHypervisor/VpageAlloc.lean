import BaoHypervisor.PageTable
import BaoHypervisor.RadixEnds

/-!
# Allocating virtual pages

`mem_alloc_vpage` of the MMU build of `mem.c`.  It scans the tables of a section for
holes that are not reserved, from the root on again at the end of each table, makes
tables of the holes that it cannot take as a whole, and then walks to each hole of the
range once more to reserve it.
-/

namespace Bao

open RadixTable

variable {F : Type} {M : Machine}

/-- An address space with `lvl_term` of its descriptor.  The size of an entry is a word; the
levels that can map are the last ones. -/
structure MapSpace (M : Machine) (F : Type) extends PtAddrSpace M F where
  lvlTerm : Nat → Bool
  term_last : lvlTerm (dscr.lvls - 1) = true
  term_succ : ∀ l, lvlTerm l = true → lvlTerm (l + 1) = true
  off_le : dscr.off 0 ≤ M.wordBits

/-- The loop of `mem_alloc_vpage`; `none` is `INVALID_VA`. -/
structure ScanState (F : Type) where
  s : PtState F
  lvl : Nat
  addr : Nat
  count : Nat
  vpage : Option Nat

/-- The inner loop comes to its end, or a fixed request has failed. -/
inductive ScanEnd (F : Type) where
  | next (u : ScanState F)
  | failed (s : PtState F)

section

variable (A : MapSpace M F) (canAlloc : Nat → Bool)

/-- `pte_allocable`. -/
def pteAllocable (e : Entry F) (lvl left addr : Nat) : Bool :=
  decide (lvl = A.dscr.lvls - 1) ||
    (A.lvlTerm lvl && !pteValid e &&
      decide (A.dscr.size lvl ≤ left * M.pageSize % M.wordCount) &&
      decide (addr % A.dscr.size lvl = 0))

/-- The inner loop of `mem_alloc_vpage` over the `left` entries of the table from index
`i` on; at the end of the table `lvl` is 0 again.  `none` is the `ERROR` of a table for
which there is no page. -/
def scanRun (fixed : Bool) (n lvl : Nat) : Nat → Nat → ScanState F → Option (ScanEnd F)
  | 0, _, u => some (.next { u with lvl := 0 })
  | left + 1, i, u =>
      if n ≤ u.count then some (.next u)
      else
        let e := u.s.pte lvl i
        let addr := (u.addr + A.dscr.size lvl) % M.wordCount
        if pteRsrv e || (pteValid e && !pteTable e) then
          if fixed then some (.failed u.s)
          else scanRun fixed n lvl left (i + 1) { u with addr := addr, count := 0, vpage := none }
        else if pteValid e then some (.next { u with lvl := lvl + 1 })
        else if pteAllocable A e lvl (n - u.count) u.addr then
          scanRun fixed n lvl left (i + 1)
            { u with
              addr := addr
              count := u.count + A.dscr.size lvl / M.pageSize
              vpage := if u.count = 0 then some u.addr else u.vpage }
        else
          match memAllocPt A.toPtAddrSpace canAlloc u.s lvl i with
          | (false, _) => none
          | (true, s) => some (.next { u with s := s, lvl := lvl + 1 })

/-- The check for space in the section, which takes `n` pages from `addr` on. -/
def noSpace (sec : Section) (n addr : Nat) : Bool :=
  !(decide (addr = 0) && decide (sec.last = M.wordCount - 1)) &&
    decide ((sec.last + 1 + M.wordCount - addr) % M.wordCount / M.pageSize < n)

/-- The outer loop of `mem_alloc_vpage`, for at most `fuel` turns: `vpage`, if the loop
has not failed, and the tables. -/
def scanLoop (sec : Section) (fixed : Bool) (n : Nat) :
    Nat → ScanState F → Option (Option Nat × PtState F)
  | 0, u => if n ≤ u.count then some (u.vpage, u.s) else none
  | fuel + 1, u =>
      if n ≤ u.count then some (u.vpage, u.s)
      else if noSpace (M := M) sec n u.addr then some (none, u.s)
      else
        match ptGetPte A.toPtAddrSpace u.s.pte u.lvl u.addr with
        | none => none
        | some i =>
            match scanRun A canAlloc fixed n u.lvl
                (A.dscr.fan u.lvl - i % A.dscr.fan u.lvl) i u with
            | none => none
            | some (.failed s) => some (none, s)
            | some (.next u) => scanLoop sec fixed n fuel u

/-- The level of the first entry for the address that is not valid. -/
def firstInvalid (t : Table F) (addr : Nat) : Nat → Nat → Option Nat
  | 0, _ => none
  | left + 1, lvl =>
      match ptGetPte A.toPtAddrSpace t lvl addr with
      | none => none
      | some i => if pteValid (t lvl i) then firstInvalid t addr left (lvl + 1) else some lvl

/-- The loop that reserves the entries, for at most `fuel` turns. -/
def markLoop (n : Nat) : Nat → PtState F → Nat → Nat → Option (PtState F)
  | 0, s, _, count => if count < n then none else some s
  | fuel + 1, s, addr, count =>
      if count < n then
        match firstInvalid A s.pte addr A.dscr.lvls 0 with
        | none => none
        | some lvl =>
            markLoop n fuel { s with pte := put s.pte lvl (A.dscr.index lvl addr) (.hole true) }
              ((addr + A.dscr.size lvl) % M.wordCount) (count + A.dscr.size lvl / M.pageSize)
      else some s

/-- `mem_alloc_vpage` for `n` pages of a section of the address space, at an address or
anywhere; for at most `fuel` turns of its loops. -/
def memAllocVpage (s : PtState F) (section_ : Nat) (at_ : Option Nat) (n fuel : Nat) :
    Option (Option Nat × PtState F) :=
  match A.sections[section_]? with
  | none => none
  | some sec =>
      let found := A.sections.findIdx? fun sec =>
        decide (sec.beg ≤ at_.getD 0) && decide (at_.getD 0 ≤ sec.last)
      let addr := at_.getD sec.beg
      if (at_.isSome && found != some section_) || decide (sec.last < addr) ||
          decide (addr % M.pageSize ≠ 0) then
        some (none, s)
      else
        match scanLoop A canAlloc sec at_.isSome n fuel
            { s := s, lvl := 0, addr := addr, count := 0, vpage := none } with
        | none => none
        | some (none, s) => some (none, s)
        | some (some vpage, s) =>
            (markLoop A n fuel s vpage 0).map fun s => (some vpage, s)

/-- The page is not mapped, and the level at which its walk ends can map. -/
def PageHole (t : Table F) (a : Nat) : Prop :=
  ∃ l mark, A.lvlTerm l = true ∧ HoleAt A.dscr t a l mark

/-- Such a page that is not reserved. -/
def PageFree (t : Table F) (a : Nat) : Prop := ∃ l, A.lvlTerm l = true ∧ HoleAt A.dscr t a l false

/-- The leaves stay, the pages that are not mapped stay so, and no page becomes free. -/
structure Grown (t t' : Table F) : Prop where
  leaf : ∀ a l base flags, LeafAt A.dscr t' a l base flags ↔ LeafAt A.dscr t a l base flags
  hole : ∀ a, PageHole A t a → PageHole A t' a
  free : ∀ a l, HoleAt A.dscr t' a l false → ∃ l, HoleAt A.dscr t a l false

end

variable {A : MapSpace M F} {canAlloc : Nat → Bool} {t t' t'' : Table F} {s s' : PtState F}
  {a i l lvl n : Nat}

/-! ## Words -/

theorem MapSpace.size_dvd (hl : l < A.dscr.lvls) : A.dscr.size l ∣ M.wordCount := by
  apply Nat.pow_dvd_pow
  exact Nat.le_trans (Shape.off_le (Nat.zero_le l) hl) A.off_le

theorem MapSpace.index_word (hwdt : A.dscr.wdt 0 ≤ M.wordBits) (hl : l < A.dscr.lvls) (x : Nat) :
    A.dscr.index l (x % M.wordCount) = A.dscr.index l x := by
  have hdvd : 2 ^ A.dscr.wdt 0 ∣ M.wordCount := Nat.pow_dvd_pow 2 hwdt
  rw [← Shape.index_mod_width hl, Nat.mod_mod_of_dvd x hdvd, Shape.index_mod_width hl]

theorem MapSpace.size_eq (hl : l < A.dscr.lvls) :
    A.dscr.size l / M.pageSize * M.pageSize = A.dscr.size l :=
  Nat.div_mul_cancel (pageSize_dvd_size (A := A.toPtAddrSpace) hl)

theorem MapSpace.index_page (hl : l < A.dscr.lvls) (hal : a % A.dscr.size l = 0) {k : Nat}
    (hk : k < A.dscr.size l / M.pageSize) :
    A.dscr.index l (a + k * M.pageSize) = A.dscr.index l a := by
  have hpos : 0 < A.dscr.size l := Shape.size_pos
  have hlt : k * M.pageSize < A.dscr.size l := by
    calc k * M.pageSize < A.dscr.size l / M.pageSize * M.pageSize :=
          Nat.mul_lt_mul_of_pos_right hk M.pageSize_pos
      _ = A.dscr.size l := A.size_eq hl
  have hdiv : (a + k * M.pageSize) / A.dscr.size l = a / A.dscr.size l := by
    obtain ⟨q, rfl⟩ := Nat.dvd_of_mod_eq_zero hal
    rw [Nat.mul_add_div hpos, Nat.div_eq_of_lt hlt, Nat.mul_div_cancel_left _ hpos, Nat.add_zero]
  rw [Shape.index, Shape.index, hdiv]

/-! ## Tables that grow -/

theorem Grown.refl : Grown A t t where
  leaf := fun _ _ _ _ => Iff.rfl
  hole := fun _ h => h
  free := fun _ l h => ⟨l, h⟩

theorem Grown.trans (h : Grown A t t') (h' : Grown A t' t'') : Grown A t t'' where
  leaf := fun a l base flags => (h'.leaf a l base flags).trans (h.leaf a l base flags)
  hole := fun a hhole => h'.hole a (h.hole a hhole)
  free := by
    intro a l hfree
    obtain ⟨l', hfree'⟩ := h'.free a l hfree
    exact h.free a l' hfree'

theorem grown_grow {mark : Bool} (hl : lvl + 1 < A.dscr.lvls) (hentry : t lvl i = .hole mark) :
    Grown A t (grow A.dscr t lvl i fun _ => .hole mark) where
  leaf := fun _ _ _ _ => leafAt_grow hl hentry
  hole := by
    intro a hhole
    obtain ⟨l, mark', hterm, hat⟩ := hhole
    rcases hat.grow hl hentry with hsame | ⟨rfl, -, hnext⟩
    · exact ⟨l, mark', hterm, hsame⟩
    · exact ⟨l + 1, mark, A.term_succ l hterm, hnext⟩
  free := fun a l hfree => hfree.of_grow hl hentry

theorem PageFree.grow (h : PageFree A t a) (hl : lvl + 1 < A.dscr.lvls)
    (hentry : t lvl i = .hole false) :
    PageFree A (RadixTable.grow A.dscr t lvl i fun _ => .hole false) a := by
  obtain ⟨l, hterm, hat⟩ := h
  rcases hat.grow hl hentry with hsame | ⟨rfl, -, hnext⟩
  · exact ⟨l, hterm, hsame⟩
  · exact ⟨l + 1, A.term_succ l hterm, hnext⟩

theorem grown_mark {mark : Bool} (hentry : t lvl i = .hole mark) :
    Grown A t (put t lvl i (.hole true)) where
  leaf := fun _ _ _ _ => leafAt_put_mark hentry
  hole := by
    intro a hhole
    obtain ⟨l, mark', hterm, hat⟩ := hhole
    obtain ⟨m, hat', -⟩ := hat.put_mark hentry (m := true)
    exact ⟨l, m, hterm, hat'⟩
  free := fun a l hfree => ⟨l, hfree.of_put_mark⟩

/-- `mem_alloc_pt` at a hole. -/
theorem memAllocPt_grown {mark ok : Bool} (hl : lvl + 1 < A.dscr.lvls)
    (hentry : s.pte lvl i = .hole mark)
    (h : memAllocPt A.toPtAddrSpace canAlloc s lvl i = (ok, s')) :
    Grown A s.pte s'.pte ∧
      (ok = true → s'.pte = grow A.dscr s.pte lvl i fun _ => .hole mark) := by
  unfold memAllocPt at h
  rw [hentry] at h
  split at h
  · cases h
    exact ⟨grown_grow hl hentry, fun _ => rfl⟩
  · cases h
    exact ⟨.refl, nofun⟩

/-! ## The scan -/

/-- The scan from the tables `t`: the pages counted are the free ones from `vpage` up to
`addr`. -/
structure Scanned (A : MapSpace M F) (t : Table F) (u : ScanState F) : Prop where
  grown : Grown A t u.s.pte
  page : u.addr % M.pageSize = 0
  word : u.addr < M.wordCount
  fresh : u.vpage = none → u.count = 0
  run : ∀ v, u.vpage = some v → v < M.wordCount ∧ v % M.pageSize = 0 ∧ 0 < u.count ∧
    u.addr = (v + u.count * M.pageSize) % M.wordCount ∧
    ∀ k, k < u.count → PageFree A u.s.pte ((v + k * M.pageSize) % M.wordCount)

/-- The entry of the table that the inner loop is at. -/
def AtEntry (A : MapSpace M F) (t : Table F) (lvl left i addr : Nat) : Prop :=
  left = 0 ∨ (reaches A.dscr t addr lvl = true ∧ i = A.dscr.index lvl addr ∧
    left = A.dscr.fan lvl - i % A.dscr.fan lvl)

theorem AtEntry.next {left addr : Nat} (h : AtEntry A t lvl (left + 1) i addr)
    (hl : lvl < A.dscr.lvls) : AtEntry A t lvl left (i + 1) (addr + A.dscr.size lvl) := by
  rcases h with hzero | ⟨hreach, rfl, hleft⟩
  · omega
  · by_cases hlast : left = 0
    · exact .inl hlast
    · have hroom : A.dscr.index lvl addr % A.dscr.fan lvl + 1 < A.dscr.fan lvl := by
        omega
      have hidx := Shape.index_add_size hl hroom
      have hdiv : (A.dscr.index lvl addr + 1) / A.dscr.fan lvl =
          A.dscr.index lvl addr / A.dscr.fan lvl := by
        rw [Nat.succ_div_of_mod_ne_zero]
        rw [Nat.add_mod, Nat.mod_eq_of_lt (show 1 < A.dscr.fan lvl by omega),
          Nat.mod_eq_of_lt hroom]
        omega
      have hmod : (A.dscr.index lvl addr + 1) % A.dscr.fan lvl =
          A.dscr.index lvl addr % A.dscr.fan lvl + 1 := by
        rw [Nat.add_mod, Nat.mod_eq_of_lt (show 1 < A.dscr.fan lvl by omega),
          Nat.mod_eq_of_lt hroom]
      refine .inr ⟨?_, hidx.symm, ?_⟩
      · apply reaches_sibling hl _ hreach
        rw [hidx, hdiv]
      · rw [hmod]
        omega

theorem AtEntry.word {left addr : Nat} (h : AtEntry A t lvl left i addr)
    (hwdt : A.dscr.wdt 0 ≤ M.wordBits) (hl : lvl < A.dscr.lvls) :
    AtEntry A t lvl left i (addr % M.wordCount) := by
  rcases h with hzero | ⟨hreach, hi, hleft⟩
  · exact .inl hzero
  · have hidx := A.index_word hwdt hl addr
    exact .inr ⟨reaches_congr hl hidx.symm hreach, hi.trans hidx.symm, hleft⟩

theorem Scanned.pass {u : ScanState F} (h : Scanned A t u) (hl : lvl < A.dscr.lvls) :
    Scanned A t { u with
      addr := (u.addr + A.dscr.size lvl) % M.wordCount
      count := 0
      vpage := none } where
  grown := h.grown
  page := by
    have hsize := Nat.mod_eq_zero_of_dvd (pageSize_dvd_size (A := A.toPtAddrSpace) hl)
    have hpage := h.page
    dsimp only
    rw [Nat.mod_mod_of_dvd _ ⟨M.pageCount, M.wordCount_eq.trans (Nat.mul_comm _ _)⟩, Nat.add_mod,
      hsize, hpage]
    exact Nat.zero_mod _
  word := Nat.mod_lt _ (Nat.two_pow_pos _)
  fresh := fun _ => rfl
  run := fun _ h => nomatch h

theorem Scanned.take {u : ScanState F} {left : Nat} (h : Scanned A t u)
    (hwdt : A.dscr.wdt 0 ≤ M.wordBits) (hl : lvl < A.dscr.lvls)
    (hreach : reaches A.dscr u.s.pte u.addr lvl = true)
    (hentry : u.s.pte lvl (A.dscr.index lvl u.addr) = .hole false)
    (hok : pteAllocable A (.hole false : Entry F) lvl left u.addr = true) :
    Scanned A t { u with
      addr := (u.addr + A.dscr.size lvl) % M.wordCount
      count := u.count + A.dscr.size lvl / M.pageSize
      vpage := if u.count = 0 then some u.addr else u.vpage } := by
  have hpos : 0 < M.pageSize := M.pageSize_pos
  have hsize := A.size_eq hl
  have hpages : 0 < A.dscr.size lvl / M.pageSize := by
    apply Nat.div_pos _ hpos
    exact Nat.le_of_dvd Shape.size_pos (pageSize_dvd_size (A := A.toPtAddrSpace) hl)
  have hterm : A.lvlTerm lvl = true ∧ u.addr % A.dscr.size lvl = 0 := by
    simp only [pteAllocable, Bool.or_eq_true, Bool.and_eq_true, decide_eq_true_eq] at hok
    rcases hok with rfl | ⟨⟨⟨hterm, -⟩, -⟩, hal⟩
    · rw [pageSize_eq (A := A.toPtAddrSpace)]
      exact ⟨A.term_last, h.page⟩
    · exact ⟨hterm, hal⟩
  have hfree : ∀ k, k < A.dscr.size lvl / M.pageSize →
      PageFree A u.s.pte ((u.addr + k * M.pageSize) % M.wordCount) := by
    intro k hk
    have hidx := (A.index_word hwdt hl (u.addr + k * M.pageSize)).trans (A.index_page hl hterm.2 hk)
    exact ⟨lvl, hterm.1, HoleAt.congr ⟨hl, hreach, hentry⟩ hidx.symm⟩
  have hpage := (h.pass hl).page
  refine ⟨h.grown, hpage, Nat.mod_lt _ (Nat.two_pow_pos _), ?_, ?_⟩
  · intro hnone
    dsimp only at hnone ⊢
    by_cases hzero : u.count = 0
    · rw [if_pos hzero] at hnone
      cases hnone
    · rw [if_neg hzero] at hnone
      exact absurd (h.fresh hnone) hzero
  · intro v hv
    dsimp only at hv ⊢
    by_cases hzero : u.count = 0
    · rw [if_pos hzero] at hv
      obtain rfl := Option.some.inj hv
      rw [hzero, Nat.zero_add, hsize]
      exact ⟨h.word, h.page, hpages, rfl, hfree⟩
    · rw [if_neg hzero] at hv
      obtain ⟨hword, halign, hcount, haddr, hrun⟩ := h.run v hv
      refine ⟨hword, halign, by omega, ?_, ?_⟩
      · rw [haddr, Nat.mod_add_mod, Nat.add_mul, hsize, Nat.add_assoc]
      · intro k hk
        rcases Nat.lt_or_ge k u.count with hlt | hge
        · exact hrun k hlt
        · have hlast := hfree (k - u.count) (by omega)
          rw [haddr, Nat.mod_add_mod, Nat.add_assoc, ← Nat.add_mul,
            Nat.add_sub_cancel' hge] at hlast
          exact hlast

theorem Scanned.split {u : ScanState F} (h : Scanned A t u) (hl : lvl + 1 < A.dscr.lvls)
    (hentry : u.s.pte lvl i = .hole false)
    (halloc : memAllocPt A.toPtAddrSpace canAlloc u.s lvl i = (true, s')) (next : Nat) :
    Scanned A t { u with s := s', lvl := next } := by
  obtain ⟨hgrown, hpte⟩ := memAllocPt_grown hl hentry halloc
  refine ⟨h.grown.trans hgrown, h.page, h.word, h.fresh, ?_⟩
  intro v hv
  obtain ⟨hword, halign, hcount, haddr, hrun⟩ := h.run v hv
  refine ⟨hword, halign, hcount, haddr, ?_⟩
  intro k hk
  dsimp only
  rw [hpte rfl]
  exact (hrun k hk).grow hl hentry

theorem scanRun_succ {fixed : Bool} {left : Nat} {u : ScanState F} (hlt : u.count < n) :
    scanRun A canAlloc fixed n lvl (left + 1) i u =
      match u.s.pte lvl i with
      | .table => some (.next { u with lvl := lvl + 1 })
      | .hole false =>
          if pteAllocable A (.hole false : Entry F) lvl (n - u.count) u.addr then
            scanRun A canAlloc fixed n lvl left (i + 1)
              { u with
                addr := (u.addr + A.dscr.size lvl) % M.wordCount
                count := u.count + A.dscr.size lvl / M.pageSize
                vpage := if u.count = 0 then some u.addr else u.vpage }
          else
            match memAllocPt A.toPtAddrSpace canAlloc u.s lvl i with
            | (false, _) => none
            | (true, s) => some (.next { u with s := s, lvl := lvl + 1 })
      | _ =>
          if fixed then some (.failed u.s)
          else scanRun A canAlloc fixed n lvl left (i + 1)
            { u with
              addr := (u.addr + A.dscr.size lvl) % M.wordCount
              count := 0
              vpage := none } := by
  rw [scanRun, if_neg (Nat.not_le.mpr hlt)]
  cases he : u.s.pte lvl i with
  | table => rfl
  | leaf base flags => rfl
  | hole mark =>
    cases mark with
    | false => rfl
    | true => rfl

/-- The scan is fine at the end of the inner loop. -/
def ScanEnd.Fine (A : MapSpace M F) (t : Table F) : ScanEnd F → Prop
  | .next u => Scanned A t u
  | .failed s => Grown A t s.pte

/-- **The inner loop** keeps account of the free pages. -/
theorem scanRun_scanned {fixed : Bool} {left : Nat} {u : ScanState F} {e : ScanEnd F}
    (hwdt : A.dscr.wdt 0 ≤ M.wordBits) (hl : lvl < A.dscr.lvls)
    (hat : AtEntry A u.s.pte lvl left i u.addr) (h : Scanned A t u)
    (hrun : scanRun A canAlloc fixed n lvl left i u = some e) : e.Fine A t := by
  induction left generalizing i u with
  | zero =>
    cases hrun
    exact ⟨h.grown, h.page, h.word, h.fresh, h.run⟩
  | succ left ih =>
    by_cases hdone : n ≤ u.count
    · rw [scanRun, if_pos hdone] at hrun
      cases hrun
      exact h
    · rw [scanRun_succ (Nat.not_le.mp hdone)] at hrun
      have hnext := (hat.next hl).word hwdt hl
      rcases hat with hzero | ⟨hreach, rfl, -⟩
      · omega
      have hpass : (if fixed then some (.failed u.s)
          else scanRun A canAlloc fixed n lvl left (A.dscr.index lvl u.addr + 1)
            { u with
              addr := (u.addr + A.dscr.size lvl) % M.wordCount
              count := 0
              vpage := none }) = some e → e.Fine A t := by
        intro hrun
        split at hrun
        · cases hrun
          exact h.grown
        · exact ih hnext (h.pass hl) hrun
      cases he : u.s.pte lvl (A.dscr.index lvl u.addr) with
      | table =>
        rw [he] at hrun
        cases hrun
        exact ⟨h.grown, h.page, h.word, h.fresh, h.run⟩
      | leaf base flags =>
        rw [he] at hrun
        exact hpass hrun
      | hole mark =>
        rw [he] at hrun
        cases mark with
        | true => exact hpass hrun
        | false =>
          dsimp only at hrun
          split at hrun
          · rename_i hok
            exact ih hnext (h.take hwdt hl hreach he hok) hrun
          · rename_i hok
            have hsucc : lvl + 1 < A.dscr.lvls := by
              have hlast : lvl ≠ A.dscr.lvls - 1 := by
                intro hlast
                apply hok
                simp only [pteAllocable, hlast, decide_true, Bool.true_or]
              omega
            split at hrun
            · cases hrun
            · rename_i halloc
              cases hrun
              exact h.split hsucc he halloc (lvl + 1)

/-- **The scan** ends with free pages, or without any. -/
theorem scanLoop_scanned {sec : Section} {fixed : Bool} {fuel : Nat} {u : ScanState F}
    {vpage : Option Nat} (hwdt : A.dscr.wdt 0 ≤ M.wordBits) (h : Scanned A t u)
    (hrun : scanLoop A canAlloc sec fixed n fuel u = some (vpage, s')) :
    Grown A t s'.pte ∧ ∀ v, vpage = some v → v < M.wordCount ∧ v % M.pageSize = 0 ∧
      ∀ k, k < n → PageFree A s'.pte ((v + k * M.pageSize) % M.wordCount) := by
  have hdone : ∀ {u : ScanState F}, Scanned A t u → n ≤ u.count →
      some (u.vpage, u.s) = some (vpage, s') →
      Grown A t s'.pte ∧ ∀ v, vpage = some v → v < M.wordCount ∧ v % M.pageSize = 0 ∧
        ∀ k, k < n → PageFree A s'.pte ((v + k * M.pageSize) % M.wordCount) := by
    intro u h hle heq
    cases heq
    refine ⟨h.grown, fun v hv => ?_⟩
    obtain ⟨hword, halign, -, -, hfree⟩ := h.run v hv
    exact ⟨hword, halign, fun k hk => hfree k (by omega)⟩
  induction fuel generalizing u with
  | zero =>
    rw [scanLoop] at hrun
    split at hrun
    · next hle => exact hdone h hle hrun
    · cases hrun
  | succ fuel ih =>
    rw [scanLoop] at hrun
    split at hrun
    · next hle => exact hdone h hle hrun
    · split at hrun
      · cases hrun
        exact ⟨h.grown, nofun⟩
      · split at hrun
        · cases hrun
        · rename_i i hget
          obtain ⟨hl, hreach, hi⟩ := ptGetPte_eq_some.mp hget
          have hat : AtEntry A u.s.pte u.lvl (A.dscr.fan u.lvl - i % A.dscr.fan u.lvl) i u.addr :=
            .inr ⟨hreach, hi, rfl⟩
          split at hrun
          · cases hrun
          · rename_i hfailed
            cases hrun
            exact ⟨scanRun_scanned hwdt hl hat h hfailed, nofun⟩
          · rename_i u' hnext
            exact ih (scanRun_scanned hwdt hl hat h hnext) hrun

/-! ## The marks -/

theorem firstInvalid_hole {left : Nat} {addr lvl' : Nat}
    (h : firstInvalid A t addr left lvl = some lvl') :
    ∃ mark, HoleAt A.dscr t addr lvl' mark := by
  induction left generalizing lvl with
  | zero => cases h
  | succ left ih =>
    rw [firstInvalid] at h
    split at h
    · cases h
    · rename_i i hget
      obtain ⟨hl, hreach, rfl⟩ := ptGetPte_eq_some.mp hget
      split at h
      · exact ih h
      · rename_i hinvalid
        have hlvl := Option.some.inj h
        subst hlvl
        cases he : t lvl (A.dscr.index lvl addr) with
        | hole mark => exact ⟨mark, hl, hreach, he⟩
        | table => exact absurd (by rw [he]; rfl) hinvalid
        | leaf base flags => exact absurd (by rw [he]; rfl) hinvalid

theorem markLoop_grown {fuel addr count : Nat}
    (h : markLoop A n fuel s addr count = some s') : Grown A s.pte s'.pte := by
  induction fuel generalizing s addr count with
  | zero =>
    rw [markLoop] at h
    split at h
    · cases h
    · cases h
      exact .refl
  | succ fuel ih =>
    rw [markLoop] at h
    split at h
    · split at h
      · cases h
      · rename_i lvl hfirst
        obtain ⟨mark, hhole⟩ := firstInvalid_hole hfirst
        exact (grown_mark hhole.entry).trans (ih h)
    · cases h
      exact .refl

/-! ## The call -/

/-- The call gets to its scan: the address is in the section, by `mem_find_sec` where it is
given, and starts a page. -/
structure AddrOk (A : MapSpace M F) (sec : Section) (section_ : Nat) (at_ : Option Nat) :
    Prop where
  found : ∀ a, at_ = some a →
    (A.sections.findIdx? fun sec => decide (sec.beg ≤ a) && decide (a ≤ sec.last)) =
      some section_
  last : at_.getD sec.beg ≤ sec.last
  page : at_.getD sec.beg % M.pageSize = 0

section

variable {sec : Section} {section_ fuel : Nat} {at_ vpage : Option Nat}

/-- The condition of `mem_alloc_vpage` itself. -/
theorem addrOk_iff : AddrOk A sec section_ at_ ↔
    ((at_.isSome && (A.sections.findIdx? fun sec =>
        decide (sec.beg ≤ at_.getD 0) && decide (at_.getD 0 ≤ sec.last)) != some section_) ||
      decide (sec.last < at_.getD sec.beg) || decide (at_.getD sec.beg % M.pageSize ≠ 0)) =
      false := by
  simp only [Bool.or_eq_false_iff, Bool.and_eq_false_iff, decide_eq_false_iff_not, Nat.not_lt,
    bne_eq_false_iff_eq, ne_eq, Decidable.not_not]
  constructor
  · intro h
    refine ⟨⟨?_, h.last⟩, h.page⟩
    cases at_ with
    | none => exact .inl rfl
    | some a => exact .inr (h.found a rfl)
  · intro h
    obtain ⟨⟨hfound, hlast⟩, hpage⟩ := h
    refine ⟨?_, hlast, hpage⟩
    intro a hat
    subst hat
    exact hfound.resolve_left nofun

theorem memAllocVpage_of_not_ok (hget : A.sections[section_]? = some sec)
    (hbad : ¬ AddrOk A sec section_ at_) :
    memAllocVpage A canAlloc s section_ at_ n fuel = some (none, s) := by
  rw [addrOk_iff, Bool.not_eq_false] at hbad
  rw [memAllocVpage, hget]
  exact if_pos hbad

theorem memAllocVpage_of_ok (hget : A.sections[section_]? = some sec)
    (hok : AddrOk A sec section_ at_) :
    memAllocVpage A canAlloc s section_ at_ n fuel =
      match scanLoop A canAlloc sec at_.isSome n fuel ⟨s, 0, at_.getD sec.beg, 0, none⟩ with
      | none => none
      | some (none, s) => some (none, s)
      | some (some vpage, s) => (markLoop A n fuel s vpage 0).map fun s => (some vpage, s) := by
  rw [addrOk_iff] at hok
  rw [memAllocVpage, hget]
  exact if_neg (by rw [hok]; exact Bool.false_ne_true)

/-- What the call returns: it refuses at once, the scan fails, or the pages that the scan has
found are reserved. -/
theorem memAllocVpage_cases (hget : A.sections[section_]? = some sec)
    (h : memAllocVpage A canAlloc s section_ at_ n fuel = some (vpage, s')) :
    (¬ AddrOk A sec section_ at_ ∧ vpage = none ∧ s' = s) ∨
    (AddrOk A sec section_ at_ ∧ ∃ s₁,
      scanLoop A canAlloc sec at_.isSome n fuel ⟨s, 0, at_.getD sec.beg, 0, none⟩ =
          some (vpage, s₁) ∧
        ((vpage = none ∧ s' = s₁) ∨
          ∃ v, vpage = some v ∧ markLoop A n fuel s₁ v 0 = some s')) := by
  by_cases hok : AddrOk A sec section_ at_
  · rw [memAllocVpage_of_ok hget hok] at h
    split at h
    · cases h
    · rename_i s₁ hscan
      cases h
      exact .inr ⟨hok, s', hscan, .inl ⟨rfl, rfl⟩⟩
    · rename_i v s₁ hscan
      obtain ⟨s₂, hmark, heq⟩ := Option.map_eq_some_iff.mp h
      cases heq
      exact .inr ⟨hok, s₁, hscan, .inr ⟨v, rfl, hmark⟩⟩
  · rw [memAllocVpage_of_not_ok hget hok] at h
    cases h
    exact .inl ⟨hok, rfl, rfl⟩

/-- **What `mem_alloc_vpage` grants** is pages that were neither mapped nor reserved, in
levels that can map; no leaf comes or goes. -/
theorem memAllocVpage_grants (hwdt : A.dscr.wdt 0 ≤ M.wordBits)
    (h : memAllocVpage A canAlloc s section_ at_ n fuel = some (vpage, s')) :
    Grown A s.pte s'.pte ∧ ∀ v, vpage = some v → v < M.wordCount ∧ v % M.pageSize = 0 ∧
      ∀ k, k < n → PageHole A s'.pte ((v + k * M.pageSize) % M.wordCount) ∧
        ∃ l, HoleAt A.dscr s.pte ((v + k * M.pageSize) % M.wordCount) l false := by
  cases hget : A.sections[section_]? with
  | none =>
    rw [memAllocVpage, hget] at h
    cases h
  | some sec =>
    rcases memAllocVpage_cases hget h with ⟨-, rfl, rfl⟩ | ⟨hok, s₁, hscan, hend⟩
    · exact ⟨.refl, nofun⟩
    · have hsec := A.sections_lt sec (List.mem_of_getElem? hget)
      have hlast := hok.last
      have hstart : Scanned A s.pte ⟨s, 0, at_.getD sec.beg, 0, none⟩ :=
        ⟨.refl, hok.page, by dsimp only; omega, fun _ => rfl, nofun⟩
      obtain ⟨hgrown, hfree⟩ := scanLoop_scanned hwdt hstart hscan
      rcases hend with ⟨rfl, rfl⟩ | ⟨v, rfl, hmark⟩
      · exact ⟨hgrown, nofun⟩
      · have hmarked := markLoop_grown hmark
        refine ⟨hgrown.trans hmarked, fun v' hv => ?_⟩
        obtain ⟨hlt, halign, hpages⟩ := hfree v' hv
        refine ⟨hlt, halign, fun k hk => ?_⟩
        obtain ⟨l, hterm, hat⟩ := hpages k hk
        exact ⟨hmarked.hole _ ⟨l, false, hterm, hat⟩, hgrown.free _ l hat⟩

end

/-! ## More turns -/

theorem scanLoop_mono {sec : Section} {fixed : Bool} {fuel fuel' : Nat} {u : ScanState F}
    {r : Option Nat × PtState F} (hle : fuel ≤ fuel')
    (h : scanLoop A canAlloc sec fixed n fuel u = some r) :
    scanLoop A canAlloc sec fixed n fuel' u = some r := by
  induction fuel generalizing fuel' u with
  | zero =>
    rw [scanLoop] at h
    split at h
    · next hdone =>
      cases fuel' with
      | zero => rwa [scanLoop, if_pos hdone]
      | succ fuel' => rwa [scanLoop, if_pos hdone]
    · cases h
  | succ fuel ih =>
    obtain ⟨fuel', rfl⟩ := Nat.exists_eq_add_of_le' (show 1 ≤ fuel' by omega)
    rw [scanLoop] at h ⊢
    split
    · next hdone => rwa [if_pos hdone] at h
    · next hdone =>
      rw [if_neg hdone] at h
      split
      · next hno => rwa [if_pos hno] at h
      · next hno =>
        rw [if_neg hno] at h
        cases hget : ptGetPte A.toPtAddrSpace u.s.pte u.lvl u.addr with
        | none =>
          rw [hget] at h
          cases h
        | some i =>
          rw [hget] at h
          dsimp only at h ⊢
          cases hrun : scanRun A canAlloc fixed n u.lvl
              (A.dscr.fan u.lvl - i % A.dscr.fan u.lvl) i u with
          | none =>
            rw [hrun] at h
            cases h
          | some e =>
            rw [hrun] at h
            cases e with
            | failed s => exact h
            | next u => exact ih (by omega) h

theorem markLoop_mono {fuel fuel' addr count : Nat} (hle : fuel ≤ fuel')
    (h : markLoop A n fuel s addr count = some s') :
    markLoop A n fuel' s addr count = some s' := by
  induction fuel generalizing fuel' s addr count with
  | zero =>
    rw [markLoop] at h
    split at h
    · cases h
    · next hdone =>
      cases fuel' with
      | zero => rwa [markLoop, if_neg hdone]
      | succ fuel' => rwa [markLoop, if_neg hdone]
  | succ fuel ih =>
    obtain ⟨fuel', rfl⟩ := Nat.exists_eq_add_of_le' (show 1 ≤ fuel' by omega)
    rw [markLoop] at h ⊢
    split
    · next hmore =>
      rw [if_pos hmore] at h
      cases hfirst : firstInvalid A s.pte addr A.dscr.lvls 0 with
      | none =>
        rw [hfirst] at h
        cases h
      | some lvl =>
        rw [hfirst] at h
        exact ih (by omega) h
    · next hdone => rwa [if_neg hdone] at h

theorem memAllocVpage_mono {section_ fuel fuel' : Nat} {at_ : Option Nat}
    {r : Option Nat × PtState F} (hle : fuel ≤ fuel')
    (h : memAllocVpage A canAlloc s section_ at_ n fuel = some r) :
    memAllocVpage A canAlloc s section_ at_ n fuel' = some r := by
  cases hget : A.sections[section_]? with
  | none =>
    rw [memAllocVpage, hget] at h
    cases h
  | some sec =>
    rcases memAllocVpage_cases hget h with ⟨hbad, hnone, hsame⟩ | ⟨hok, s₁, hscan, hend⟩
    · rw [memAllocVpage_of_not_ok hget hbad, ← hnone, ← hsame]
    · rw [memAllocVpage_of_ok hget hok, scanLoop_mono hle hscan]
      obtain ⟨vpage, s'⟩ := r
      rcases hend with ⟨rfl, rfl⟩ | ⟨v, rfl, hmark⟩
      · rfl
      · dsimp only
        rw [markLoop_mono hle hmark]
        rfl

theorem memAllocVpage_unique {section_ fuel fuel' : Nat} {at_ : Option Nat}
    {r r' : Option Nat × PtState F}
    (h : memAllocVpage A canAlloc s section_ at_ n fuel = some r)
    (h' : memAllocVpage A canAlloc s section_ at_ n fuel' = some r') : r = r' := by
  have h1 := memAllocVpage_mono (Nat.le_max_left fuel fuel') h
  have h2 := memAllocVpage_mono (Nat.le_max_right fuel fuel') h'
  exact Option.some.inj (h1.symm.trans h2)

end Bao

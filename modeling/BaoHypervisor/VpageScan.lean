import BaoHypervisor.RadixCover
import BaoHypervisor.VpageAlloc

/-!
# When virtual pages are allocated as asked

The scan of `mem_alloc_vpage` compares what is left of the section with all the pages it
is asked for, although some of them may have been counted already, and its inner loop
goes from one entry of a table to the next without another look at the end of the
section.  Where neither matters the scan is exact: the free pages that it has counted are
covered by whole entries, and start no later than any range that it could grant.  The
entries of that range are then reserved one after the other.
-/

namespace Bao

open RadixTable

variable {F : Type} {M : Machine}

section

variable (A : MapSpace M F) (canAlloc : Nat → Bool)

/-- The `n` pages from `w` on lie in the section and are wholly free: no walk ends at a
leaf or at a reserved entry. -/
structure FreeRun (t : Table F) (sec : Section) (n w : Nat) : Prop where
  page : w % M.pageSize = 0
  beg : sec.beg ≤ w
  last : w + n * M.pageSize ≤ sec.last + 1
  free : ∀ k, k < n → ∃ l, HoleAt A.dscr t (w + k * M.pageSize) l false

/-- The inner loop stays inside the section: the entries that it takes or passes end
there, those that it passes start at the address, and only with the last page does it
come to the end of the address space. -/
def RunInside (sec : Section) (fixed : Bool) (n lvl : Nat) (t : Table F) :
    Nat → Nat → Nat → Nat → Prop
  | 0, _, _, _ => True
  | left + 1, i, addr, count =>
      if n ≤ count then True
      else
        match t lvl i with
        | .table => True
        | .hole false =>
            if pteAllocable A (.hole false : Entry F) lvl (n - count) addr then
              addr + A.dscr.size lvl ≤ sec.last + 1 ∧
              (addr + A.dscr.size lvl = M.wordCount → n ≤ count + A.dscr.size lvl / M.pageSize) ∧
              RunInside sec fixed n lvl t left (i + 1) (addr + A.dscr.size lvl)
                (count + A.dscr.size lvl / M.pageSize)
            else True
        | _ =>
            if fixed then True
            else
              addr % A.dscr.size lvl = 0 ∧ addr + A.dscr.size lvl ≤ sec.last + 1 ∧
              addr + A.dscr.size lvl < M.wordCount ∧
              RunInside sec fixed n lvl t left (i + 1) (addr + A.dscr.size lvl) 0

/-- One turn of the outer loop of `mem_alloc_vpage`. -/
def scanTurn (fixed : Bool) (n : Nat) (u : ScanState F) : Option (ScanEnd F) :=
  match ptGetPte A.toPtAddrSpace u.s.pte u.lvl u.addr with
  | none => none
  | some i =>
      scanRun A canAlloc fixed n u.lvl (A.dscr.fan u.lvl - i % A.dscr.fan u.lvl) i u

/-- The states of the loop. -/
inductive ScanVisits (sec : Section) (fixed : Bool) (n : Nat) (u : ScanState F) :
    ScanState F → Prop
  | start : ScanVisits sec fixed n u u
  | turn {w w' : ScanState F} (h : ScanVisits sec fixed n u w) (hlt : w.count < n)
      (hspace : noSpace (M := M) sec n w.addr = false)
      (hturn : scanTurn A canAlloc fixed n w = some (.next w')) : ScanVisits sec fixed n u w'

/-- A turn goes well: the check for space refuses only where the pages that are still
missing do not fit, and the inner loop stays inside the section. -/
structure ScanTurnFine (sec : Section) (fixed : Bool) (n : Nat) (u : ScanState F) : Prop where
  space : noSpace (M := M) sec n u.addr = true →
    noSpace (M := M) sec (n - u.count) u.addr = true
  inside : noSpace (M := M) sec n u.addr = false →
    ∀ i, ptGetPte A.toPtAddrSpace u.s.pte u.lvl u.addr = some i →
      RunInside A sec fixed n u.lvl u.s.pte (A.dscr.fan u.lvl - i % A.dscr.fan u.lvl) i u.addr
        u.count

/-- All turns go well. -/
def ScanFine (sec : Section) (fixed : Bool) (n : Nat) (u : ScanState F) : Prop :=
  ∀ w, ScanVisits A canAlloc sec fixed n u w → w.count < n → ScanTurnFine A sec fixed n w

/-- The call goes well: the section starts at a page, or is the one that `mem_find_sec`
finds for the address, and all turns of the scan go well. -/
structure AllocFine (sec : Section) (s : PtState F) (section_ : Nat) (at_ : Option Nat)
    (n : Nat) : Prop where
  beg : at_ = none → sec.beg % M.pageSize = 0
  found : ∀ a, at_ = some a → sec.beg ≤ a → a ≤ sec.last →
    (A.sections.findIdx? fun sec => decide (sec.beg ≤ a) && decide (a ≤ sec.last)) =
      some section_
  scan : ScanFine A canAlloc sec at_.isSome n ⟨s, 0, at_.getD sec.beg, 0, none⟩

/-- **What a call should do**: the pages granted lie in the section, were wholly free and
are reserved afterwards; a range that is wholly free is granted at its address, and some
range where there is one. -/
structure VpageExact (sec : Section) (t t' : Table F) (at_ : Option Nat) (n : Nat)
    (vpage : Option Nat) : Prop where
  inside : ∀ v, vpage = some v → sec.beg ≤ v ∧ v + n * M.pageSize ≤ sec.last + 1
  free : ∀ v, vpage = some v → ∀ k, k < n →
    ∃ l, HoleAt A.dscr t (v + k * M.pageSize) l false
  reserved : ∀ v, vpage = some v → ∀ k, k < n →
    ∃ l, HoleAt A.dscr t' (v + k * M.pageSize) l true
  fixed : ∀ a, at_ = some a → FreeRun A t sec n a → vpage = some a
  anywhere : at_ = none → (∃ w, FreeRun A t sec n w) → ∃ v, vpage = some v

/-- The scan from the tables `t` at the address `start`: the pages counted are free, start
at `v` and are covered by whole entries, and no range that could be granted starts before
them. -/
structure ScanInside (t : Table F) (sec : Section) (start n : Nat) (fixed : Bool) (v : Nat)
    (u : ScanState F) : Prop where
  expands : Expands A.dscr t u.s.pte
  ends : Ends A.dscr u.s.pte
  addr : u.addr = (v + u.count * M.pageSize) % M.wordCount
  last : v + u.count * M.pageSize ≤ sec.last + 1
  word : u.count < n → v + u.count * M.pageSize < M.wordCount
  page : v % M.pageSize = 0
  beg : start ≤ v
  count : u.count ≤ n
  vpage : u.vpage = if u.count = 0 then none else some v
  cover : HoleCover A.dscr u.s.pte v (v + u.count * M.pageSize)
  free : ∀ a, v ≤ a → a < v + u.count * M.pageSize → ∃ l, HoleAt A.dscr u.s.pte a l false
  atStart : fixed = true → v = start
  first : ∀ w, start ≤ w → (fixed = true → w = start) → FreeRun A t sec n w → v ≤ w

/-- What is left of the section and, below an address, of the levels. -/
def scanLeft (sec : Section) (addr lvl : Nat) : Nat :=
  (sec.last + 1 - addr) * (A.dscr.lvls + 1) + (A.dscr.lvls - lvl)

end

variable {A : MapSpace M F} {canAlloc : Nat → Bool} {t t' : Table F} {s s' : PtState F}
  {sec : Section} {fixed : Bool} {a i l lvl n v x start left : Nat} {u u' : ScanState F}

/-! ## Space -/

theorem noSpace_end (hx : x < M.wordCount) (hle : x ≤ sec.last + 1)
    (hlast : sec.last < M.wordCount) (h : noSpace (M := M) sec n x = true) :
    sec.last + 1 < x + n * M.pageSize := by
  simp only [noSpace, Bool.and_eq_true, Bool.not_eq_true', Bool.and_eq_false_iff,
    decide_eq_true_eq, decide_eq_false_iff_not] at h
  obtain ⟨hfull, hspace⟩ := h
  have hrest : (sec.last + 1 + M.wordCount - x) % M.wordCount = sec.last + 1 - x := by
    have hsum : sec.last + 1 + M.wordCount - x = sec.last + 1 - x + M.wordCount := by omega
    rw [hsum, Nat.add_mod_right]
    apply Nat.mod_eq_of_lt
    rcases hfull with hzero | htop
    · omega
    · omega
  rw [hrest, Nat.div_lt_iff_lt_mul M.pageSize_pos] at hspace
  omega

theorem MapSpace.pages_pos (hl : lvl < A.dscr.lvls) : 0 < A.dscr.size lvl / M.pageSize := by
  apply Nat.div_pos _ M.pageSize_pos
  exact Nat.le_of_dvd Shape.size_pos (pageSize_dvd_size (A := A.toPtAddrSpace) hl)

/-- An entry that is taken starts at the address, and there is no more in it than is
missing. -/
theorem pteAllocable_spec {e : Entry F} (hpage : x % M.pageSize = 0) (hl : lvl < A.dscr.lvls)
    (hleft : 0 < left) (h : pteAllocable A e lvl left x = true) :
    x % A.dscr.size lvl = 0 ∧ A.dscr.size lvl / M.pageSize ≤ left := by
  simp only [pteAllocable, Bool.or_eq_true, Bool.and_eq_true, decide_eq_true_eq] at h
  rcases h with rfl | ⟨⟨-, hroom⟩, hal⟩
  · rw [pageSize_eq (A := A.toPtAddrSpace), Nat.div_self M.pageSize_pos]
    exact ⟨hpage, hleft⟩
  · refine ⟨hal, ?_⟩
    apply Nat.div_le_of_le_mul
    rw [Nat.mul_comm]
    exact Nat.le_trans hroom (Nat.mod_le _ _)

theorem succ_lt_of_not_allocable {e : Entry F} (hl : lvl < A.dscr.lvls)
    (h : ¬ pteAllocable A e lvl left x = true) : lvl + 1 < A.dscr.lvls := by
  have hlast : lvl ≠ A.dscr.lvls - 1 := by
    intro hlast
    apply h
    simp only [pteAllocable, hlast, decide_true, Bool.true_or]
  omega

/-! ## Steps of the scan -/

theorem exists_pages {w : Nat} (hw : w % M.pageSize = 0) (hx : x % M.pageSize = 0) (hle : w ≤ x) :
    ∃ k, x = w + k * M.pageSize := by
  refine ⟨x / M.pageSize - w / M.pageSize, ?_⟩
  have hxdiv := Nat.div_mul_cancel (Nat.dvd_of_mod_eq_zero hx)
  have hwdiv := Nat.div_mul_cancel (Nat.dvd_of_mod_eq_zero hw)
  rw [Nat.sub_mul, hxdiv, hwdiv]
  omega

theorem ScanInside.expand (h : ScanInside A t sec start n fixed v u)
    (hexp : Expands A.dscr u.s.pte s'.pte) (hends : Ends A.dscr s'.pte) (next : Nat) :
    ScanInside A t sec start n fixed v { u with s := s', lvl := next } where
  expands := h.expands.trans hexp
  ends := hends
  addr := h.addr
  last := h.last
  word := h.word
  page := h.page
  beg := h.beg
  count := h.count
  vpage := h.vpage
  cover := h.cover.expands hexp
  free := by
    intro a hlo hhi
    obtain ⟨l, hat⟩ := h.free a hlo hhi
    obtain ⟨l', -, hat'⟩ := hexp.hole a l false hat
    exact ⟨l', hat'⟩
  atStart := h.atStart
  first := h.first

/-- **A hole taken** as a whole. -/
theorem ScanInside.take (h : ScanInside A t sec start n fixed v u) (hl : lvl < A.dscr.lvls)
    (hlt : u.count < n) (hat : HoleAt A.dscr u.s.pte (v + u.count * M.pageSize) lvl false)
    (hok : pteAllocable A (.hole false : Entry F) lvl (n - u.count) u.addr = true)
    (hlast : v + u.count * M.pageSize + A.dscr.size lvl ≤ sec.last + 1)
    (hsec : sec.last < M.wordCount)
    (hend : v + u.count * M.pageSize + A.dscr.size lvl = M.wordCount →
      n ≤ u.count + A.dscr.size lvl / M.pageSize) :
    ScanInside A t sec start n fixed v { u with
      addr := (u.addr + A.dscr.size lvl) % M.wordCount
      count := u.count + A.dscr.size lvl / M.pageSize
      vpage := if u.count = 0 then some u.addr else u.vpage } := by
  have hword := h.word hlt
  have haddr : u.addr = v + u.count * M.pageSize := by
    rw [h.addr, Nat.mod_eq_of_lt hword]
  have hpage : (v + u.count * M.pageSize) % M.pageSize = 0 := by
    rw [Nat.add_mul_mod_self_right]
    exact h.page
  rw [haddr] at hok
  obtain ⟨hal, hroom⟩ := pteAllocable_spec hpage hl (by omega) hok
  have hpages := A.pages_pos hl
  have hsum : v + (u.count + A.dscr.size lvl / M.pageSize) * M.pageSize =
      v + u.count * M.pageSize + A.dscr.size lvl := by
    rw [Nat.add_mul, A.size_eq hl, Nat.add_assoc]
  refine ⟨h.expands, h.ends, ?_, ?_, ?_, h.page, h.beg, ?_, ?_, ?_, ?_, h.atStart, h.first⟩
  · dsimp only
    rw [hsum, haddr]
  · dsimp only
    rw [hsum]
    exact hlast
  · intro hmore
    dsimp only at hmore ⊢
    rw [hsum]
    have hne : v + u.count * M.pageSize + A.dscr.size lvl ≠ M.wordCount := by
      intro heq
      have hall := hend heq
      omega
    omega
  · dsimp only
    omega
  · dsimp only
    rw [if_neg (show ¬ u.count + A.dscr.size lvl / M.pageSize = 0 by omega)]
    by_cases hzero : u.count = 0
    · rw [if_pos hzero, haddr, hzero, Nat.zero_mul, Nat.add_zero]
    · rw [if_neg hzero, h.vpage, if_neg hzero]
  · dsimp only
    rw [hsum]
    exact h.cover.snoc (Nat.le_add_right v _) hat hal
  · intro a hlo hhi
    dsimp only at hhi ⊢
    rw [hsum] at hhi
    rcases Nat.lt_or_ge a (v + u.count * M.pageSize) with hbefore | hge
    · exact h.free a hlo hbefore
    · exact ⟨lvl, hat.span (div_mul_of_span hal hge hhi).1⟩

/-- **An entry passed**: no range that could be granted starts before its end. -/
theorem ScanInside.pass (h : ScanInside A t sec start n false v u) (hl : lvl < A.dscr.lvls)
    (hlt : u.count < n)
    (htaken : ∀ a, v + u.count * M.pageSize ≤ a →
      a < v + u.count * M.pageSize + A.dscr.size lvl → ∀ l, ¬ HoleAt A.dscr u.s.pte a l false)
    (hlast : v + u.count * M.pageSize + A.dscr.size lvl ≤ sec.last + 1)
    (hend : v + u.count * M.pageSize + A.dscr.size lvl < M.wordCount) :
    ScanInside A t sec start n false (v + u.count * M.pageSize + A.dscr.size lvl) { u with
      addr := (u.addr + A.dscr.size lvl) % M.wordCount
      count := 0
      vpage := none } := by
  have hpos : 0 < A.dscr.size lvl := Shape.size_pos
  have haddr : u.addr = v + u.count * M.pageSize := by
    rw [h.addr, Nat.mod_eq_of_lt (h.word hlt)]
  have hpage : (v + u.count * M.pageSize) % M.pageSize = 0 := by
    rw [Nat.add_mul_mod_self_right]
    exact h.page
  have hsize := Nat.mod_eq_zero_of_dvd (pageSize_dvd_size (A := A.toPtAddrSpace) hl)
  have hstart := h.beg
  have hzero : ∀ y, y + 0 * M.pageSize = y := by
    intro y
    rw [Nat.zero_mul, Nat.add_zero]
  refine ⟨h.expands, h.ends, ?_, ?_, ?_, ?_, by omega, Nat.zero_le n, rfl, ?_, ?_, nofun, ?_⟩
  · dsimp only
    rw [hzero, haddr]
  · dsimp only
    rw [hzero]
    exact hlast
  · intro _
    dsimp only
    rw [hzero]
    exact hend
  · rw [Nat.add_mod, hpage, hsize]
    exact Nat.zero_mod _
  · dsimp only
    rw [hzero]
    exact .nil
  · intro a hlo hhi
    dsimp only at hhi
    rw [hzero] at hhi
    omega
  · intro w hw hfixed hrun
    have hvw := h.first w hw hfixed hrun
    apply Nat.le_of_not_lt
    intro hinside
    rcases Nat.lt_or_ge w (v + u.count * M.pageSize) with hbefore | hge
    · -- the range goes through the start of the entry
      obtain ⟨k, hk⟩ := exists_pages hrun.page hpage (Nat.le_of_lt hbefore)
      have hkn : k < n := by
        have hmul : k * M.pageSize ≤ u.count * M.pageSize := by omega
        have hkle := Nat.le_of_mul_le_mul_right hmul M.pageSize_pos
        omega
      obtain ⟨l, hat⟩ := hrun.free k hkn
      rw [← hk] at hat
      obtain ⟨l', -, hat'⟩ := h.expands.hole _ l false hat
      exact htaken _ (Nat.le_refl _) (by omega) l' hat'
    · obtain ⟨l, hat⟩ := hrun.free 0 (by omega)
      rw [hzero] at hat
      obtain ⟨l', -, hat'⟩ := h.expands.hole w l false hat
      exact htaken w hge hinside l' hat'

theorem ScanInside.no_run {w : Nat} (h : ScanInside A t sec start n true v u) (hlt : u.count < n)
    (htaken : ∀ l, ¬ HoleAt A.dscr u.s.pte (v + u.count * M.pageSize) l false) (hw : w = start) :
    ¬ FreeRun A t sec n w := by
  intro hrun
  have hv := h.atStart rfl
  obtain ⟨l, hat⟩ := hrun.free u.count hlt
  rw [hw, ← hv] at hat
  obtain ⟨l', -, hat'⟩ := h.expands.hole _ l false hat
  exact htaken l' hat'

/-! ## The inner loop -/

/-- No range can be granted, and the tables have only been expanded. -/
structure NoRange (A : MapSpace M F) (t : Table F) (sec : Section) (start n : Nat) (fixed : Bool)
    (t' : Table F) : Prop where
  expands : Expands A.dscr t t'
  ends : Ends A.dscr t'
  none : ∀ w, start ≤ w → (fixed = true → w = start) → ¬ FreeRun A t sec n w

/-- All pages are counted, or the next turn is at an entry that is reached, with less left
than `bound`. -/
structure ScanNext (A : MapSpace M F) (t : Table F) (sec : Section) (start n : Nat)
    (fixed : Bool) (bound v : Nat) (u : ScanState F) : Prop where
  inside : ScanInside A t sec start n fixed v u
  ahead : n ≤ u.count ∨ (u.lvl < A.dscr.lvls ∧ reaches A.dscr u.s.pte u.addr u.lvl = true ∧
    scanLeft A sec (v + u.count * M.pageSize) u.lvl < bound)

/-- The scan is right at the end of the inner loop. -/
def ScanEnd.Right (A : MapSpace M F) (t : Table F) (sec : Section) (start n : Nat) (fixed : Bool)
    (bound : Nat) : ScanEnd F → Prop
  | .next u => ∃ v, ScanNext A t sec start n fixed bound v u
  | .failed s => NoRange A t sec start n fixed s.pte

theorem scanLeft_lt (hlt : x < a) (hle : a ≤ sec.last + 1) (l lvl : Nat) :
    scanLeft A sec a l < scanLeft A sec x lvl := by
  have hstep : sec.last + 1 - a + 1 ≤ sec.last + 1 - x := by omega
  have hmul := Nat.mul_le_mul_right (A.dscr.lvls + 1) hstep
  rw [Nat.succ_mul] at hmul
  unfold scanLeft
  omega

theorem scanLeft_succ (hle : x ≤ a) (hl : lvl < A.dscr.lvls) :
    scanLeft A sec a (lvl + 1) < scanLeft A sec x lvl := by
  have hstep : sec.last + 1 - a ≤ sec.last + 1 - x := by omega
  have hmul := Nat.mul_le_mul_right (A.dscr.lvls + 1) hstep
  unfold scanLeft
  omega

/-- **The inner loop** is right as long as it stays inside the section. -/
theorem scanRun_right {e : ScanEnd F} {y : Nat} (hl : lvl < A.dscr.lvls)
    (hsec : sec.last < M.wordCount) (h : ScanInside A t sec start n fixed v u)
    (hy : v + u.count * M.pageSize = y) (hxy : x ≤ y) (hleft : left = 0 → x < y)
    (hat : AtEntry A u.s.pte lvl left i y)
    (hin : RunInside A sec fixed n lvl u.s.pte left i y u.count)
    (hrun : scanRun A canAlloc fixed n lvl left i u = some e) :
    e.Right A t sec start n fixed (scanLeft A sec x lvl) := by
  induction left generalizing i u v y with
  | zero =>
    cases hrun
    have hlast := h.last
    refine ⟨v, h.expand .refl h.ends 0, .inr ⟨A.dscr.lvls_pos, rfl, ?_⟩⟩
    exact scanLeft_lt (by rw [hy]; exact hleft rfl) hlast 0 lvl
  | succ left ih =>
    by_cases hdone : n ≤ u.count
    · rw [scanRun, if_pos hdone] at hrun
      cases hrun
      exact ⟨v, h, .inl hdone⟩
    · have hlt := Nat.not_le.mp hdone
      have hpos : 0 < A.dscr.size lvl := Shape.size_pos
      rw [scanRun_succ hlt] at hrun
      rw [RunInside, if_neg hdone] at hin
      have hnext := hat.next hl
      rcases hat with hzero | ⟨hreach, rfl, -⟩
      · omega
      have haddr : u.addr = y := by
        rw [h.addr, Nat.mod_eq_of_lt (h.word hlt), hy]
      subst haddr
      -- an entry that is no hole to be taken is the end of a fixed request
      have hpass : ∀ entry, u.s.pte lvl (A.dscr.index lvl u.addr) = entry → entry ≠ .table →
          entry ≠ .hole false →
          (fixed = false → u.addr % A.dscr.size lvl = 0 ∧
            u.addr + A.dscr.size lvl ≤ sec.last + 1 ∧ u.addr + A.dscr.size lvl < M.wordCount ∧
            RunInside A sec fixed n lvl u.s.pte left (A.dscr.index lvl u.addr + 1)
              (u.addr + A.dscr.size lvl) 0) →
          (if fixed then some (.failed u.s)
            else scanRun A canAlloc fixed n lvl left (A.dscr.index lvl u.addr + 1)
              { u with
                addr := (u.addr + A.dscr.size lvl) % M.wordCount
                count := 0
                vpage := none }) = some e →
          e.Right A t sec start n fixed (scanLeft A sec x lvl) := by
        intro entry hentry htable hhole hin hrun
        cases fixed with
        | true =>
          cases hrun
          refine ⟨h.expands, h.ends, fun w hw hstart => ?_⟩
          apply h.no_run hlt _ (hstart rfl)
          intro l
          rw [hy]
          exact not_free_of_entry hreach hentry htable hhole
        | false =>
          obtain ⟨hal, hlast, hend, hrest⟩ := hin rfl
          have htaken := not_free_of_span hl hreach hentry htable hhole hal
          rw [← hy] at htaken hlast hend
          refine ih (h.pass hl hlt htaken hlast hend) ?_ (by omega) (by omega) hnext hrest hrun
          dsimp only
          rw [Nat.zero_mul, Nat.add_zero, hy]
      cases he : u.s.pte lvl (A.dscr.index lvl u.addr) with
      | table =>
        rw [he] at hrun
        cases hrun
        have hsucc := h.ends.table hl hreach he
        refine ⟨v, h.expand .refl h.ends (lvl + 1), .inr ⟨hsucc, ?_, ?_⟩⟩
        · exact reaches_succ.mpr ⟨hreach, he⟩
        · dsimp only
          rw [hy]
          exact scanLeft_succ hxy hl
      | leaf base flags =>
        rw [he] at hrun hin
        refine hpass _ he (fun h => by cases h) (fun h => by cases h) ?_ hrun
        intro hfixed
        rwa [hfixed] at hin ⊢
      | hole mark =>
        rw [he] at hrun hin
        cases mark with
        | true =>
          refine hpass _ he (fun h => by cases h) (fun h => by cases h) ?_ hrun
          intro hfixed
          rwa [hfixed] at hin ⊢
        | false =>
          dsimp only at hrun hin
          split at hrun
          · rename_i hok
            rw [if_pos hok] at hin
            obtain ⟨hlast, hend, hrest⟩ := hin
            have htake := h.take hl hlt (by rw [hy]; exact ⟨hl, hreach, he⟩)
              hok (by rw [hy]; exact hlast) hsec (by rw [hy]; exact hend)
            refine ih htake ?_ (by omega) (by omega) hnext hrest hrun
            dsimp only
            rw [Nat.add_mul, A.size_eq hl, ← Nat.add_assoc, hy]
          · rename_i hno
            have hsucc := succ_lt_of_not_allocable hl hno
            split at hrun
            · cases hrun
            · rename_i s' halloc
              cases hrun
              have hpte := (memAllocPt_grown hsucc he halloc).2 rfl
              have hexp : Expands A.dscr u.s.pte s'.pte := by
                rw [hpte]
                exact expands_grow hsucc he
              have hends : Ends A.dscr s'.pte := by
                rw [hpte]
                exact h.ends.grow hsucc (by rw [he]; intro h; cases h) fun _ h => by cases h
              refine ⟨v, h.expand hexp hends (lvl + 1), .inr ⟨hsucc, ?_, ?_⟩⟩
              · dsimp only
                rw [hpte]
                exact reaches_grow_succ hreach rfl
              · dsimp only
                rw [hy]
                exact scanLeft_succ hxy hl

theorem scanRun_isSome (hpages : ∀ k, canAlloc k = true) :
    ∃ e, scanRun A canAlloc fixed n lvl left i u = some e := by
  induction left generalizing i u with
  | zero => exact ⟨_, rfl⟩
  | succ left ih =>
    by_cases hdone : n ≤ u.count
    · rw [scanRun, if_pos hdone]
      exact ⟨_, rfl⟩
    · rw [scanRun_succ (Nat.not_le.mp hdone)]
      split
      · exact ⟨_, rfl⟩
      · split
        · exact ih
        · rw [memAllocPt, if_pos (hpages u.s.allocs)]
          exact ⟨_, rfl⟩
      · split
        · exact ⟨_, rfl⟩
        · exact ih

/-! ## The outer loop -/

theorem scanTurn_right {e : ScanEnd F} (hsec : sec.last < M.wordCount)
    (h : ScanInside A t sec start n fixed v u) (hlt : u.count < n)
    (hfine : ScanTurnFine A sec fixed n u) (hspace : noSpace (M := M) sec n u.addr = false)
    (hturn : scanTurn A canAlloc fixed n u = some e) :
    e.Right A t sec start n fixed (scanLeft A sec (v + u.count * M.pageSize) u.lvl) := by
  unfold scanTurn at hturn
  split at hturn
  · cases hturn
  · rename_i i hget
    obtain ⟨hl, hreach, hi⟩ := ptGetPte_eq_some.mp hget
    have haddr : u.addr = v + u.count * M.pageSize := by
      rw [h.addr, Nat.mod_eq_of_lt (h.word hlt)]
    have hin := hfine.inside hspace i hget
    rw [haddr] at hreach hi hin
    have hroom : i % A.dscr.fan u.lvl < A.dscr.fan u.lvl := Nat.mod_lt _ Shape.fan_pos
    exact scanRun_right hl hsec h rfl (Nat.le_refl _) (by omega) (.inr ⟨hreach, hi, rfl⟩) hin hturn

theorem scanLoop_succ {fuel : Nat} (hlt : u.count < n)
    (hspace : noSpace (M := M) sec n u.addr = false) :
    scanLoop A canAlloc sec fixed n (fuel + 1) u =
      match scanTurn A canAlloc fixed n u with
      | none => none
      | some (.failed s) => some (none, s)
      | some (.next u) => scanLoop A canAlloc sec fixed n fuel u := by
  rw [scanLoop, if_neg (Nat.not_le.mpr hlt), hspace, if_neg Bool.false_ne_true, scanTurn]
  cases ptGetPte A.toPtAddrSpace u.s.pte u.lvl u.addr with
  | none => rfl
  | some i => rfl

theorem ScanVisits.of_turn {w : ScanState F} (hlt : u.count < n)
    (hspace : noSpace (M := M) sec n u.addr = false)
    (hturn : scanTurn A canAlloc fixed n u = some (.next u'))
    (h : ScanVisits A canAlloc sec fixed n u' w) : ScanVisits A canAlloc sec fixed n u w := by
  induction h with
  | start => exact .turn .start hlt hspace hturn
  | turn _ hlt' hspace' hturn' ih => exact .turn ih hlt' hspace' hturn'

theorem ScanFine.next (h : ScanFine A canAlloc sec fixed n u) (hlt : u.count < n)
    (hspace : noSpace (M := M) sec n u.addr = false)
    (hturn : scanTurn A canAlloc fixed n u = some (.next u')) :
    ScanFine A canAlloc sec fixed n u' :=
  fun w hvisit hmore => h w (hvisit.of_turn hlt hspace hturn) hmore

/-- What the scan should find from the tables `t`: free pages that are covered by whole
entries, or no range that could be granted. -/
structure ScanResult (A : MapSpace M F) (t : Table F) (sec : Section) (start n : Nat)
    (fixed : Bool) (r : Option Nat) (t' : Table F) : Prop where
  expands : Expands A.dscr t t'
  ends : Ends A.dscr t'
  range : ∀ v, r = some v → start ≤ v ∧ (fixed = true → v = start) ∧
    v + n * M.pageSize ≤ sec.last + 1
  cover : ∀ v, r = some v → HoleCover A.dscr t' v (v + n * M.pageSize)
  free : ∀ v, r = some v → ∀ a, v ≤ a → a < v + n * M.pageSize →
    ∃ l, HoleAt A.dscr t' a l false
  none : r = none → ∀ w, start ≤ w → (fixed = true → w = start) → ¬ FreeRun A t sec n w

theorem NoRange.result (h : NoRange A t sec start n fixed t') :
    ScanResult A t sec start n fixed Option.none t' where
  expands := h.expands
  ends := h.ends
  range := nofun
  cover := nofun
  free := nofun
  none := fun _ => h.none

theorem ScanInside.result (h : ScanInside A t sec start n fixed v u) (hn : 0 < n)
    (hdone : n ≤ u.count) : ScanResult A t sec start n fixed u.vpage u.s.pte := by
  have hcount : u.count = n := Nat.le_antisymm h.count hdone
  have hvpage : u.vpage = some v := by
    rw [h.vpage, if_neg (by omega)]
  have hlast := h.last
  have hcover := h.cover
  have hfree := h.free
  rw [hcount] at hlast hcover hfree
  rw [hvpage]
  refine ⟨h.expands, h.ends, ?_, ?_, ?_, nofun⟩
  · intro v' hv
    cases hv
    exact ⟨h.beg, h.atStart, hlast⟩
  · intro v' hv
    cases hv
    exact hcover
  · intro v' hv
    cases hv
    exact hfree

theorem ScanInside.noRange (h : ScanInside A t sec start n fixed v u) (hlt : u.count < n)
    (hsec : sec.last < M.wordCount) (hfine : ScanTurnFine A sec fixed n u)
    (hspace : noSpace (M := M) sec n u.addr = true) : NoRange A t sec start n fixed u.s.pte := by
  refine ⟨h.expands, h.ends, fun w hw hfixed hrun => ?_⟩
  have hrest := hfine.space hspace
  rw [h.addr, Nat.mod_eq_of_lt (h.word hlt)] at hrest
  have hend := noSpace_end (h.word hlt) h.last hsec hrest
  have hle := h.first w hw hfixed hrun
  have hlast := hrun.last
  have hsum : u.count * M.pageSize + (n - u.count) * M.pageSize = n * M.pageSize := by
    rw [← Nat.add_mul, Nat.add_sub_cancel' (Nat.le_of_lt hlt)]
  omega

/-- **The scan** whose turns all go well finds what it should. -/
theorem scanLoop_result {fuel : Nat} {r : Option Nat} (hn : 0 < n) (hsec : sec.last < M.wordCount)
    (h : ScanInside A t sec start n fixed v u) (hfine : ScanFine A canAlloc sec fixed n u)
    (hrun : scanLoop A canAlloc sec fixed n fuel u = some (r, s')) :
    ScanResult A t sec start n fixed r s'.pte := by
  induction fuel generalizing u v with
  | zero =>
    rw [scanLoop] at hrun
    split at hrun
    · rename_i hdone
      cases hrun
      exact h.result hn hdone
    · cases hrun
  | succ fuel ih =>
    by_cases hdone : n ≤ u.count
    · rw [scanLoop, if_pos hdone] at hrun
      cases hrun
      exact h.result hn hdone
    · have hlt := Nat.not_le.mp hdone
      have hturnFine := hfine u .start hlt
      cases hspace : noSpace (M := M) sec n u.addr with
      | true =>
        rw [scanLoop, if_neg hdone, hspace, if_pos rfl] at hrun
        cases hrun
        exact (h.noRange hlt hsec hturnFine hspace).result
      | false =>
        rw [scanLoop_succ hlt hspace] at hrun
        cases hturn : scanTurn A canAlloc fixed n u with
        | none =>
          rw [hturn] at hrun
          cases hrun
        | some e =>
          rw [hturn] at hrun
          have hright := scanTurn_right hsec h hlt hturnFine hspace hturn
          cases e with
          | failed s =>
            cases hrun
            exact hright.result
          | next u' =>
            obtain ⟨v', hnext⟩ := hright
            exact ih hnext.inside (hfine.next hlt hspace hturn) hrun

/-- **It comes to its end** where there is a page for every table. -/
theorem scanLoop_isSome (hpages : ∀ k, canAlloc k = true) (hsec : sec.last < M.wordCount)
    (h : ScanInside A t sec start n fixed v u) (hfine : ScanFine A canAlloc sec fixed n u)
    (hl : u.lvl < A.dscr.lvls) (hreach : reaches A.dscr u.s.pte u.addr u.lvl = true) :
    ∃ fuel r, scanLoop A canAlloc sec fixed n fuel u = some r := by
  induction hleft : scanLeft A sec (v + u.count * M.pageSize) u.lvl using Nat.strongRecOn
    generalizing u v with
  | ind bound ih =>
    by_cases hdone : n ≤ u.count
    · exact ⟨0, _, by rw [scanLoop, if_pos hdone]⟩
    · have hlt := Nat.not_le.mp hdone
      cases hspace : noSpace (M := M) sec n u.addr with
      | true => exact ⟨1, _, by rw [scanLoop, if_neg hdone, hspace, if_pos rfl]⟩
      | false =>
        have hturn : ∃ e, scanTurn A canAlloc fixed n u = some e := by
          rw [scanTurn, ptGetPte_eq_some.mpr ⟨hl, hreach, rfl⟩]
          exact scanRun_isSome hpages
        obtain ⟨e, hturn⟩ := hturn
        have hright := scanTurn_right hsec h hlt (hfine u .start hlt) hspace hturn
        cases e with
        | failed s => exact ⟨1, _, by rw [scanLoop_succ hlt hspace, hturn]⟩
        | next u' =>
          obtain ⟨v', hnext⟩ := hright
          have hrest : ∃ fuel r, scanLoop A canAlloc sec fixed n fuel u' = some r := by
            rcases hnext.ahead with hend | ⟨hl', hreach', hless⟩
            · exact ⟨0, _, by rw [scanLoop, if_pos hend]⟩
            · exact ih _ (hleft ▸ hless) hnext.inside (hfine.next hlt hspace hturn) hl' hreach' rfl
          obtain ⟨fuel, r, hrest⟩ := hrest
          exact ⟨fuel + 1, r, by rw [scanLoop_succ hlt hspace, hturn]; exact hrest⟩

end Bao

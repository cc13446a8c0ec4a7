import BaoHypervisor.PagePool
import Mathlib.Data.Nat.ModEq

/-!
# Completeness of the page search

`bitmap_find_consec` finds the first run of free pages that is long enough.
For an aligned request `pp_alloc` steps from a misaligned hit by the hit's own
remainder, so inside one run of free pages the remainder doubles at each step
and aligned pages are stepped over.  The search is complete without alignment;
with alignment it succeeds exactly where this doubling ends at a remainder of
zero before the run does.
-/

namespace Bao

open BitMemory

variable {M : Machine} {m : Store} {map size n c e i : Nat} {set : Bool}

/-! ## The positions where a search counts -/

/-- Where a search from `c` can begin to count: at `c`, or at the first bit of
a later run. -/
structure Enters (m : Store) (map size c : Nat) (set : Bool) (e : Nat) : Prop where
  le : c ≤ e
  lt : e < size
  bit : m (map + e) = set
  first : e = c ∨ m (map + (e - 1)) ≠ set

/-- From position `i` at least `n` bits are counted. -/
def Counted (m : Store) (map size n i : Nat) : Prop :=
  n ≤ bitmapCountConsecutive m map size i n

theorem Counted.uniform (h : Counted m map size n i) (hi : i < size) (hn : 1 ≤ n) {j : Nat}
    (hj : j < n) : m (map + (i + j)) = m (map + i) := by
  have huniform := (bitmapCountConsecutive_spec m map hi hn).uniform
  rw [← Nat.add_assoc]
  exact huniform j (by unfold Counted at h; omega)

theorem counted_of_uniform (hn : 1 ≤ n) (hfit : i + n ≤ size)
    (hrun : ∀ j, j < n → m (map + (i + j)) = m (map + i)) : Counted m map size n i := by
  have hspec := bitmapCountConsecutive_spec m map (show i < size by omega) hn
  apply Nat.le_of_not_lt
  intro hshort
  rcases hspec.stop hshort with hend | hother
  · omega
  · exact hother (hrun _ hshort)

/-- **The search loop** leaves out only positions from which too few bits are
counted, and stops at one from which enough are. -/
theorem findConsecLoop_enters (fuel : Nat) (hn : 1 ≤ n) (hword : n < 2 ^ (M.wordBits - 1))
    (hsize : size ≤ M.pageCount) (hfuel : size - i ≤ fuel) (hbit : i < size → m (map + i) = set) :
    (findConsecLoop M m map size n fuel i < size →
      Enters m map size i set (findConsecLoop M m map size n fuel i) ∧
        Counted m map size n (findConsecLoop M m map size n fuel i)) ∧
      ∀ e, Enters m map size i set e → e < findConsecLoop M m map size n fuel i →
        ¬ Counted m map size n e := by
  induction fuel generalizing i with
  | zero =>
      rw [findConsecLoop]
      exact ⟨fun hlt => by omega, fun e he hlt => by have := he.le; omega⟩
  | succ fuel ih =>
      rw [findConsecLoop]
      by_cases hlt : i < size
      · have hwordCount : n < M.wordCount := Nat.lt_trans hword M.signBit_lt_wordCount
        have hshort := @count_short_iff M map size i n m hsize hlt hn hwordCount
        rw [if_pos hlt]
        simp only
        by_cases hcount : M.ssize (bitmapCountConsecutive m map size i n) < M.ssize n
        · rw [if_pos hcount]
          have hfew := (hshort.mp hcount).1
          have hskip := skip_spec M hn hsize hlt (hbit hlt) hfew
          have hpos := hskip.pos
          have hnot : ¬ Counted m map size n i := Nat.not_le_of_lt hfew
          generalize bitmapCountConsecutive m map size i n = count at *
          generalize bitmapCountConsecutive m map size (i + count) M.sizeMax = skip at *
          obtain ⟨hfound, hbefore⟩ := ih (by omega) hskip.next
          refine ⟨fun hin => ?_, fun e he hei => ?_⟩
          · obtain ⟨henter, hcounted⟩ := hfound hin
            have hle := henter.le
            refine ⟨⟨by omega, henter.lt, henter.bit, .inr ?_⟩, hcounted⟩
            rcases henter.first with heq | hne
            · -- the first bit behind the two runs
              have hmid : i + count < size := by omega
              have hposSkip := hskip.posSkip hmid
              have hlast := hskip.other hmid (skip - 1) (by omega)
              rwa [heq, show i + count + skip - 1 = i + count + (skip - 1) by omega]
            · exact hne
          · have hle := he.le
            have hin := he.lt
            by_cases hei' : e = i
            · rw [hei']
              exact hnot
            · have hne := he.first.resolve_left hei'
              have hout : i + count ≤ e - 1 := by
                apply Nat.le_of_not_lt
                intro hinRun
                have hsame := hskip.run (e - 1 - i) (by omega)
                rw [show i + (e - 1 - i) = e - 1 by omega] at hsame
                exact hne hsame
              have hout' : i + count + skip ≤ e := by
                apply Nat.le_of_not_lt
                intro hinSkip
                have hother := hskip.other (by omega) (e - (i + count)) (by omega)
                rw [show i + count + (e - (i + count)) = e by omega] at hother
                exact hother he.bit
              exact hbefore e ⟨hout', hin, he.bit, .inr hne⟩ hei
        · rw [if_neg hcount]
          refine ⟨fun _ => ⟨⟨Nat.le_refl i, hlt, hbit hlt, .inl rfl⟩, ?_⟩, fun e he hei => ?_⟩
          · unfold Counted
            omega
          · have := he.le
            omega
      · rw [if_neg hlt]
        exact ⟨fun h => absurd h hlt, fun e he hei => by have := he.le; omega⟩

/-- A search from `c` counts where one from the first bit found does. -/
theorem enters_iff {r : Nat} (hfind : bitmapFindNth m map size 1 c set = some r) :
    Enters m map size c set e ↔ Enters m map size r set e := by
  obtain ⟨hle, -, hbit, hbefore⟩ := bitmapFindNth_one_some hfind
  constructor
  · intro he
    have hre : r ≤ e := by
      apply Nat.le_of_not_lt
      intro hlt
      exact hbefore e he.le hlt he.bit
    refine ⟨hre, he.lt, he.bit, ?_⟩
    rcases he.first with heq | hne
    · exact .inl (by omega)
    · exact .inr hne
  · intro he
    refine ⟨Nat.le_trans hle he.le, he.lt, he.bit, ?_⟩
    rcases he.first with heq | hne
    · rw [heq]
      by_cases hcr : c = r
      · exact .inl hcr.symm
      · exact .inr (hbefore (r - 1) (by omega) (by omega))
    · exact .inr hne

/-- **A search that finds a position** finds the first from which enough bits
are counted. -/
theorem bitmapFindConsec_enters {r : Nat} (hn : 1 ≤ n) (hword : n < 2 ^ (M.wordBits - 1))
    (hsize : size ≤ M.pageCount) (h : bitmapFindConsec M m map size c n set = some r) :
    Enters m map size c set r ∧ Counted m map size n r ∧
      ∀ e, Enters m map size c set e → e < r → ¬ Counted m map size n e := by
  rw [bitmapFindConsec] at h
  cases hfind : bitmapFindNth m map size 1 c set with
  | none =>
      rw [hfind] at h
      cases h
  | some i =>
      rw [hfind] at h
      simp only at h
      obtain ⟨-, -, hbit, -⟩ := bitmapFindNth_one_some hfind
      obtain ⟨hfound, hbefore⟩ := findConsecLoop_enters (M := M) size hn hword hsize
        (Nat.sub_le _ _) fun _ => hbit
      split at h
      · cases h
      · obtain rfl := Option.some.inj h
        obtain ⟨henter, hcounted⟩ := hfound (by omega)
        exact ⟨(enters_iff hfind).mpr henter, hcounted,
          fun e he hlt => hbefore e ((enters_iff hfind).mp he) hlt⟩

theorem bitmapFindConsec_none (hn : 1 ≤ n) (hword : n < 2 ^ (M.wordBits - 1))
    (hsize : size ≤ M.pageCount) (h : bitmapFindConsec M m map size c n set = none) :
    ∀ e, Enters m map size c set e → ¬ Counted m map size n e := by
  intro e he
  rw [bitmapFindConsec] at h
  cases hfind : bitmapFindNth m map size 1 c set with
  | none => exact absurd he.bit (bitmapFindNth_one_none hfind e he.le he.lt)
  | some i =>
      rw [hfind] at h
      simp only at h
      obtain ⟨-, -, hbit, -⟩ := bitmapFindNth_one_some hfind
      obtain ⟨-, hbefore⟩ := findConsecLoop_enters (M := M) size hn hword hsize
        (Nat.sub_le _ _) fun _ => hbit
      split at h
      · have hlt := he.lt
        exact hbefore e ((enters_iff hfind).mp he) (by omega)
      · cases h

/-! ## Steps inside a run -/

/-- The positions that an aligned search tries from `e` on: each is misaligned
by twice the remainder of the one before. -/
def hop (n start e : Nat) : Nat → Nat
  | 0 => e
  | k + 1 => hop n start e k + 2 ^ k * (e + start) % n

/-- **The remainder doubles.** -/
theorem hop_mod (n start e k : Nat) : (hop n start e k + start) % n = 2 ^ k * (e + start) % n := by
  induction k with
  | zero => rw [hop, Nat.pow_zero, Nat.one_mul]
  | succ k ih =>
      have hmod : 2 ^ k * (e + start) % n ≡ hop n start e k + start [MOD n] := by
        rw [← ih]
        exact Nat.mod_modEq _ _
      have hsame : hop n start e k + start ≡ 2 ^ k * (e + start) [MOD n] := ih
      have hsum := hsame.add (hmod.trans hsame)
      rw [hop, Nat.add_right_comm, Nat.pow_succ, Nat.mul_right_comm, Nat.mul_two]
      exact hsum

theorem hop_succ (n start e k : Nat) :
    hop n start e (k + 1) = hop n start e k + (hop n start e k + start) % n := by
  rw [hop, hop_mod]

theorem hop_shift (n start e k : Nat) :
    hop n start e (k + 1) = hop n start (e + (e + start) % n) k := by
  induction k with
  | zero => rw [hop_succ, hop, hop]
  | succ k ih => rw [hop_succ, ih, hop_succ]

/-- From the position `c`, or from the first free page of a later run, the
steps reach an aligned page before they leave the run. -/
def StepsToAligned (m : Store) (map size n start c : Nat) : Prop :=
  ∃ e, Enters m map size c false e ∧ ∃ k, n ∣ 2 ^ k * (e + start) ∧
    ∀ j, j ≤ k → hop n start e j < size ∧ m (map + hop n start e j) = false ∧
      Counted m map size n (hop n start e j)

theorem StepsToAligned.of_aligned {start b : Nat} (henter : Enters m map size c false b)
    (hcounted : Counted m map size n b) (haligned : (b + start) % n = 0) :
    StepsToAligned m map size n start c := by
  refine ⟨b, henter, 0, ?_, fun j hj => ?_⟩
  · rw [Nat.pow_zero, Nat.one_mul]
    exact Nat.dvd_of_mod_eq_zero haligned
  · rw [Nat.le_zero.mp hj]
    exact ⟨henter.lt, henter.bit, hcounted⟩

/-- **One step.**  From a first hit that is misaligned the steps reach an
aligned page where they do from the next position. -/
theorem stepsToAligned_step {start b : Nat} (hn : 1 ≤ n) (henter : Enters m map size c false b)
    (hcounted : Counted m map size n b)
    (hbefore : ∀ e, Enters m map size c false e → e < b → ¬ Counted m map size n e)
    (hmis : (b + start) % n ≠ 0) :
    StepsToAligned m map size n start c ↔
      StepsToAligned m map size n start (b + (b + start) % n) := by
  have hcb := henter.le
  have hmod := Nat.mod_lt (b + start) hn
  constructor
  · intro hsteps
    obtain ⟨e, he, k, hdvd, hall⟩ := hsteps
    obtain ⟨-, -, hcount0⟩ := hall 0 (Nat.zero_le k)
    rcases Nat.lt_trichotomy e b with hlt | heq | hgt
    · exact absurd hcount0 (hbefore e he hlt)
    · -- the run of the hit: the rest of its steps
      rw [heq] at hdvd hall
      cases k with
      | zero =>
          rw [Nat.pow_zero, Nat.one_mul] at hdvd
          exact absurd (Nat.mod_eq_zero_of_dvd hdvd) hmis
      | succ k =>
          have hone := hall 1 (by omega)
          rw [hop_shift, hop] at hone
          refine ⟨_, ⟨Nat.le_refl _, hone.1, hone.2.1, .inl rfl⟩, k, ?_, fun j hj => ?_⟩
          · apply Nat.dvd_of_mod_eq_zero
            rw [← hop_mod, ← hop_shift, hop_mod]
            exact Nat.mod_eq_zero_of_dvd hdvd
          · rw [← hop_shift]
            exact hall (j + 1) (by omega)
    · -- a later run begins behind all that was counted from the hit
      have hne := he.first.resolve_left (by omega)
      have hbehind : b + n ≤ e - 1 := by
        apply Nat.le_of_not_lt
        intro hlt
        have hsame := hcounted.uniform henter.lt hn (show e - 1 - b < n by omega)
        rw [show b + (e - 1 - b) = e - 1 by omega, henter.bit] at hsame
        exact hne hsame
      exact ⟨e, ⟨by omega, he.lt, he.bit, .inr hne⟩, k, hdvd, hall⟩
  · intro hsteps
    obtain ⟨e, he, k, hdvd, hall⟩ := hsteps
    rcases he.first with heq | hne
    · rw [heq] at hdvd hall
      refine ⟨b, henter, k + 1, ?_, fun j hj => ?_⟩
      · apply Nat.dvd_of_mod_eq_zero
        rw [← hop_mod, hop_shift, hop_mod]
        exact Nat.mod_eq_zero_of_dvd hdvd
      · cases j with
        | zero => exact ⟨henter.lt, henter.bit, hcounted⟩
        | succ j =>
            rw [hop_shift]
            exact hall j (by omega)
    · have hle := he.le
      exact ⟨e, ⟨by omega, he.lt, he.bit, .inr hne⟩, k, hdvd, hall⟩

namespace PagePool

variable {pool : PagePool M} {start fuel : Nat}

/-- **An aligned pass** ends, and finds pages if and only if the steps reach an
aligned page. -/
theorem allocPass_aligned (hfree : pool.free ≠ 0) (hn : 1 ≤ n)
    (hword : n < 2 ^ (M.wordBits - 1)) (hstart : start < n) (hfuel : pool.numPages - c < fuel) :
    (StepsToAligned m pool.bitmap pool.numPages n start c ∧
        ∃ bit, pool.allocPass m n true start fuel c = some (some bit)) ∨
      (¬ StepsToAligned m pool.bitmap pool.numPages n start c ∧
        pool.allocPass m n true start fuel c = some none) := by
  have hsize := Nat.le_of_lt pool.numPages_lt
  induction fuel generalizing c with
  | zero => exact absurd hfuel (Nat.not_lt_zero _)
  | succ fuel ih =>
      rw [allocPass, if_neg hfree]
      cases hfind : bitmapFindConsec M m pool.bitmap pool.numPages c n false with
      | none =>
          have hnone := bitmapFindConsec_none hn hword hsize hfind
          refine .inr ⟨fun hsteps => ?_, rfl⟩
          obtain ⟨e, he, k, -, hall⟩ := hsteps
          exact hnone e he (hall 0 (Nat.zero_le k)).2.2
      | some b =>
          obtain ⟨henter, hcounted, hbefore⟩ := bitmapFindConsec_enters hn hword hsize hfind
          have hlt := henter.lt
          have hcb := henter.le
          have hpages := M.two_pageCount_le_signBit
          have hsign := M.signBit_lt_wordCount
          have hdouble : 2 ^ (M.wordBits - 1) + 2 ^ (M.wordBits - 1) = M.wordCount := by
            have hroom := M.pageBits_room
            rw [← Nat.two_mul, ← Nat.pow_succ', Nat.succ_eq_add_one, Nat.sub_add_cancel (by omega)]
          have hmod := Nat.mod_lt (b + start) hn
          simp only [Bool.true_and]
          rw [Nat.mod_eq_of_lt (show b + start < M.wordCount by omega),
            Nat.mod_eq_of_lt (show b + (b + start) % n < M.wordCount by omega)]
          by_cases hzero : (b + start) % n = 0
          · rw [if_neg (by simp [hzero])]
            exact .inl ⟨.of_aligned henter hcounted hzero, b, rfl⟩
          · rw [if_pos (by simpa using hzero), stepsToAligned_step hn henter hcounted hbefore hzero]
            exact ih (by omega)

theorem allocPass_unaligned (hfree : pool.free ≠ 0) :
    pool.allocPass m n false start (fuel + 1) c =
      some (bitmapFindConsec M m pool.bitmap pool.numPages c n false) := by
  rw [allocPass, if_neg hfree]
  cases bitmapFindConsec M m pool.bitmap pool.numPages c n false with
  | none => rfl
  | some b => rfl

/-- `n` free pages of the pool from page `p` on, at a page number that `n`
divides where alignment is asked for. -/
structure FreeSlot (m : Store) (pool : PagePool M) (n : Nat) (aligned : Bool) (p : Nat) : Prop where
  le : p + n ≤ pool.numPages
  clear : pool.Clear m p n
  aligned : aligned = true → n ∣ pool.base / M.pageSize + p

/-- The free page `p` is in a run that begins at `u`. -/
theorem exists_runStart {p : Nat} (hp : m (map + p) = false) :
    ∃ u, u ≤ p ∧ (u = 0 ∨ m (map + (u - 1)) ≠ false) ∧
      ∀ j, u ≤ j → j ≤ p → m (map + j) = false := by
  induction p with
  | zero =>
      refine ⟨0, Nat.le_refl 0, .inl rfl, fun j _ hj => ?_⟩
      rw [Nat.le_zero.mp hj]
      exact hp
  | succ p ih =>
      by_cases hprev : m (map + p) = false
      · obtain ⟨u, hle, hfirst, hall⟩ := ih hprev
        refine ⟨u, by omega, hfirst, fun j hj hj' => ?_⟩
        by_cases hlast : j = p + 1
        · rw [hlast]
          exact hp
        · exact hall j hj (by omega)
      · refine ⟨p + 1, Nat.le_refl _, .inr hprev, fun j hj hj' => ?_⟩
        rw [Nat.le_antisymm hj' hj]
        exact hp

theorem FreeSlot.found {aligned : Bool} {p : Nat} (h : pool.FreeSlot m n aligned p) (hn : 1 ≤ n) :
    ∃ e, Enters m pool.bitmap pool.numPages 0 false e ∧ Counted m pool.bitmap pool.numPages n e := by
  have hle := h.le
  have hp : m (pool.bitmap + p) = false := h.clear 0 (by omega)
  obtain ⟨u, hup, hfirst, hall⟩ := exists_runStart hp
  have hbit : ∀ j, j < n → m (pool.bitmap + (u + j)) = false := by
    intro j hj
    by_cases hbefore : u + j ≤ p
    · exact hall _ (Nat.le_add_right u j) hbefore
    · have hin := h.clear (u + j - p) (by omega)
      rwa [Nat.add_assoc, show p + (u + j - p) = u + j by omega] at hin
  have hu := hbit 0 (by omega)
  refine ⟨u, ⟨Nat.zero_le u, by omega, hu, hfirst⟩, counted_of_uniform hn (by omega) ?_⟩
  intro j hj
  rw [hbit j hj]
  exact hu.symm

/-- `pp_alloc` succeeds where one of its two passes finds pages. -/
theorem ppAlloc_true_iff {aligned : Bool} {out : Ppages} (hn : 1 ≤ n) :
    (∃ out' m' pool', pool.ppAlloc m n aligned out = some (true, out', m', pool')) ↔
      let start := if aligned then pool.base / M.pageSize % n else 0
      let pass := fun c => pool.allocPass m n aligned start (pool.numPages + 1) c
      let curr :=
        if aligned then (pool.last + (pool.last + start) % M.wordCount % n) % M.wordCount
        else pool.last
      let nextAligned := if aligned then (n - pool.base / M.pageSize % n) % n else 0
      (∃ bit, pass curr = some (some bit)) ∨
        (pass curr = some none ∧ ∃ bit, pass nextAligned = some (some bit)) := by
  rw [ppAlloc, if_neg (by omega)]
  dsimp only
  split
  · rename_i hpass
    simp [hpass]
  · rename_i bit hpass
    simp [hpass, take]
  · rename_i hpass
    split
    · rename_i hpass2
      simp [hpass, hpass2]
    · rename_i bit hpass2
      simp [hpass, hpass2, take]
    · rename_i hpass2
      simp [hpass, hpass2]

/-- **Completeness of `pp_alloc`.**  With free pages counted and `last` in the
pool, a request that a free slot meets succeeds if and only if no alignment is
asked for, or, from the last position or from the first aligned page, the steps
inside some run of free pages reach an aligned page. -/
theorem ppAlloc_complete_iff {aligned : Bool} {out : Ppages} (hn : 1 ≤ n) (hfree : pool.free ≠ 0)
    (hlast : pool.last ≤ pool.numPages) :
    ((∃ p, pool.FreeSlot m n aligned p) →
        ∃ out' m' pool', pool.ppAlloc m n aligned out = some (true, out', m', pool')) ↔
      aligned = false ∨ (∀ p, ¬ pool.FreeSlot m n aligned p) ∨
        let start := pool.base / M.pageSize % n
        StepsToAligned m pool.bitmap pool.numPages n start
            (pool.last + (pool.last + start) % n) ∨
          StepsToAligned m pool.bitmap pool.numPages n start ((n - start) % n) := by
  by_cases hslot : ∃ p, pool.FreeSlot m n aligned p
  · obtain ⟨p, hp⟩ := hslot
    have hnone : ¬ ∀ p, ¬ pool.FreeSlot m n aligned p := fun hno => hno p hp
    have hle := hp.le
    have hpages := pool.numPages_lt
    have hsign := M.two_pageCount_le_signBit
    have hfour := M.four_pageCount_le_wordCount
    rw [ppAlloc_true_iff hn]
    cases aligned with
    | false =>
        refine iff_of_true (fun _ => ?_) (.inl rfl)
        obtain ⟨e, he, hcounted⟩ := hp.found hn
        simp only [Bool.false_eq_true, if_false]
        rw [allocPass_unaligned hfree, allocPass_unaligned hfree]
        cases bitmapFindConsec M m pool.bitmap pool.numPages pool.last n false with
        | some b => exact .inl ⟨b, rfl⟩
        | none =>
            refine .inr ⟨rfl, ?_⟩
            cases hfind : bitmapFindConsec M m pool.bitmap pool.numPages 0 n false with
            | some b => exact ⟨b, rfl⟩
            | none =>
                have hsize := Nat.le_of_lt hpages
                exact absurd hcounted (bitmapFindConsec_none hn (by omega) hsize hfind e he)
    | true =>
        have hstart := Nat.mod_lt (pool.base / M.pageSize) hn
        have hmod := Nat.mod_lt (pool.last + pool.base / M.pageSize % n) hn
        simp only [if_true, hnone, false_or, Bool.true_eq_false]
        rw [Nat.mod_eq_of_lt (show pool.last + pool.base / M.pageSize % n < M.wordCount by omega),
          Nat.mod_eq_of_lt (show pool.last + (pool.last + pool.base / M.pageSize % n) % n <
            M.wordCount by omega)]
        have hpass : ∀ c, pool.numPages - c < pool.numPages + 1 := fun c => by omega
        have hfirst := allocPass_aligned (m := m) hfree hn (by omega) hstart
          (hpass (pool.last + (pool.last + pool.base / M.pageSize % n) % n))
        have hsecond := allocPass_aligned (m := m) hfree hn (by omega) hstart
          (hpass ((n - pool.base / M.pageSize % n) % n))
        constructor
        · intro hcomplete
          rcases hcomplete ⟨p, hp⟩ with ⟨bit, hbit⟩ | ⟨-, bit, hbit⟩
          · left
            rcases hfirst with ⟨hsteps, -⟩ | ⟨-, hno⟩
            · exact hsteps
            · rw [hno] at hbit
              cases hbit
          · right
            rcases hsecond with ⟨hsteps, -⟩ | ⟨-, hno⟩
            · exact hsteps
            · rw [hno] at hbit
              cases hbit
        · intro hsteps _
          rcases hfirst with ⟨-, hfound⟩ | ⟨hno, hnothing⟩
          · exact .inl hfound
          · rcases hsecond with ⟨-, hfound⟩ | ⟨hno2, -⟩
            · exact .inr ⟨hnothing, hfound⟩
            · exact absurd hsteps (not_or.mpr ⟨hno, hno2⟩)
  · refine iff_of_true (fun h => absurd h hslot) (.inr (.inl fun p hp => hslot ⟨p, hp⟩))

/-- A pool of eight pages, at an address whose page number eight divides, with
five pages free. -/
def eightPages : PagePool Machine.mmu64 where
  base := 0x80000000
  numPages := 8
  free := 5
  last := 0
  bitmap := 0
  aligned := by decide
  numPages_lt := by decide
  fits := by decide

/-- The bitmap with the first three pages taken. -/
def threeTaken : Store := fun b => decide (b < 3)

/-- A request of two pages at an even page number. -/
theorem ppAlloc_complete_iff_two :
    ((∃ p, eightPages.FreeSlot threeTaken 2 true p) →
        ∃ out' m' pool', eightPages.ppAlloc threeTaken 2 true ⟨0, 0, 0⟩ =
          some (true, out', m', pool')) ↔
      true = false ∨ (∀ p, ¬ eightPages.FreeSlot threeTaken 2 true p) ∨
        let start := eightPages.base / Machine.mmu64.pageSize % 2
        StepsToAligned threeTaken 0 8 2 start (0 + (0 + start) % 2) ∨
          StepsToAligned threeTaken 0 8 2 start ((2 - start) % 2) :=
  ppAlloc_complete_iff (by decide) (by decide) (by decide)

/-- **A free aligned slot is stepped over**: of the free pages three to seven,
pages four to seven start at a multiple of four, and a request of four aligned
pages fails. -/
theorem eightPages_misses :
    eightPages.free ≠ 0 ∧ eightPages.last ≤ eightPages.numPages ∧
      eightPages.FreeSlot threeTaken 4 true 4 ∧
      (eightPages.ppAlloc threeTaken 4 true ⟨0, 0, 0⟩).map (fun answer => answer.1) =
        some false := by
  refine ⟨by decide, by decide, ⟨by decide, fun j hj => ?_, fun _ => by decide⟩, by decide⟩
  have hout : ¬ (0 + 4 + j < 3) := by omega
  exact decide_eq_false hout

end PagePool

end Bao

import BaoHypervisor.MemUnmap

/-!
# When unmapping is exact

The loop of `mem_unmap` keeps an invariant as long as its turns go well, and every
good turn goes on in the range or down one level.  A turn that does not go well
leaves something wrong that no later turn repairs: they leave alone what has been
passed and what lies above the range.
-/

namespace Bao

open RadixTable

variable {F : Type} {M : Machine} {A : PtAddrSpace M F} {canAlloc : Nat → Bool} {freePpages : Bool}
variable {t : Table F} {s s1 : PtState F} {u u' w w' : UnmapState F}
variable {top lvl left i va v : Nat}

/-! ## The inner loop -/

/-- What the inner loop does: the first `k` entries of the rest of the table are
cleared, which leads to `s1`, and there it stops or expands an entry that is cut. -/
structure RunStops (A : PtAddrSpace M F) (canAlloc : Nat → Bool) (s : PtState F)
    (top lvl left i v : Nat) (r : Option (UnmapState F)) (k : Nat) (s1 : PtState F) : Prop where
  le : k ≤ left
  allocs : s1.allocs = s.allocs
  translates : ∀ va, memTranslates A s1.pte va =
    if v ≤ va ∧ va < v + k * A.dscr.size lvl then none else memTranslates A s.pte va
  within : 0 < k → v + k * A.dscr.size lvl ≤ top
  later : ∀ j, i + k ≤ j → s1.pte lvl j = s.pte lvl j
  reach : ∀ va, reaches A.dscr s1.pte va lvl = reaches A.dscr s.pte va lvl
  stop : (∃ lvl', r = some ⟨s1, lvl', v + k * A.dscr.size lvl⟩ ∧
      (k = 0 → left = 0 ∨ top ≤ v ∨ s.pte lvl i = .table) ∧
      RunFine A s.pte (canAlloc s.allocs) top lvl left i v) ∨
    (v + k * A.dscr.size lvl < top ∧ k < left ∧
      s.pte lvl (i + k) ≠ .table ∧ i + k = A.dscr.index lvl (v + k * A.dscr.size lvl) ∧
      reaches A.dscr s.pte (v + k * A.dscr.size lvl) lvl = true ∧
      unmapCuts A top lvl (v + k * A.dscr.size lvl) = true ∧
      r = (memExpandPte A canAlloc s1 (v + k * A.dscr.size lvl) lvl).map (fun s2 =>
        ⟨s2, lvl + 1, v + k * A.dscr.size lvl⟩) ∧
      (RunFine A s.pte (canAlloc s.allocs) top lvl left i v ↔ canAlloc s.allocs = true ∧
        ∀ base flags, s.pte lvl (i + k) = .leaf base flags → flags = A.flags))

theorem whole_of_not_cuts (hlt : v < top) (hroom : top + A.dscr.size lvl ≤ M.wordCount)
    (h : unmapCuts A top lvl v = false) :
    v % A.dscr.size lvl = 0 ∧ v + A.dscr.size lvl ≤ top := by
  simp only [unmapCuts, Bool.or_eq_false_iff, decide_eq_false_iff_not, Nat.not_lt] at h
  have hv := Nat.div_add_mod v (A.dscr.size lvl)
  rw [Nat.mul_comm] at hv
  have hal : v % A.dscr.size lvl = 0 := by omega
  have hbase : v / A.dscr.size lvl * A.dscr.size lvl = v := by omega
  refine ⟨hal, ?_⟩
  have hend := h.2
  rw [hbase, Nat.mod_eq_of_lt (by omega)] at hend
  exact hend

theorem runFine_put {ok : Bool} {e : Entry F} {j : Nat} (hj : j < i) :
    RunFine A (put t lvl j e) ok top lvl left i v ↔ RunFine A t ok top lvl left i v := by
  induction left generalizing i v with
  | zero => exact Iff.rfl
  | succ left ih =>
    have hsame : put t lvl j e lvl i = t lvl i := put_other (.inr (by omega))
    unfold RunFine
    rw [hsame, ih (by omega)]

theorem RunStops.at_once {r : Option (UnmapState F)} {lvl' : Nat} (hr : r = some ⟨s, lvl', v⟩)
    (hwhy : left = 0 ∨ top ≤ v ∨ s.pte lvl i = .table)
    (hfine : RunFine A s.pte (canAlloc s.allocs) top lvl left i v) :
    RunStops A canAlloc s top lvl left i v r 0 s := by
  refine ⟨Nat.zero_le left, rfl, fun va => ?_, fun h => absurd h (by decide), fun _ _ => rfl,
    fun _ => rfl, .inl ⟨lvl', ?_, fun _ => hwhy, hfine⟩⟩
  · have hno : ¬ (v ≤ va ∧ va < v + 0 * A.dscr.size lvl) := by omega
    rw [if_neg hno]
  · rw [Nat.zero_mul, Nat.add_zero]
    exact hr

theorem pteTable_iff {e : Entry F} : pteTable e = true ↔ e = .table := by
  cases e with
  | hole mark => exact ⟨nofun, nofun⟩
  | table => exact ⟨fun _ => rfl, fun _ => rfl⟩
  | leaf base flags => exact ⟨nofun, nofun⟩

/-- **The inner loop**, by the entries left in the table. -/
theorem unmapRun_stops (canAlloc : Nat → Bool) (freePpages : Bool) (hl : lvl < A.dscr.lvls)
    (hroom : top + A.dscr.size lvl ≤ M.wordCount)
    (hleft : left ≠ 0 → i % A.dscr.fan lvl + left = A.dscr.fan lvl ∧
      i = A.dscr.index lvl v ∧ reaches A.dscr s.pte v lvl = true ∧
      v / 2 ^ A.dscr.wdt 0 = A.vaHigh) :
    ∃ k s1, RunStops A canAlloc s top lvl left i v
      (unmapRun A canAlloc freePpages top lvl left s i v) k s1 := by
  induction left generalizing s i v with
  | zero => exact ⟨0, s, .at_once rfl (.inl rfl) trivial⟩
  | succ left ih =>
    obtain ⟨hfan, hidx, hreach, hhigh⟩ := hleft (Nat.succ_ne_zero left)
    unfold unmapRun
    by_cases htop : top ≤ v
    · rw [if_pos htop]
      exact ⟨0, s, .at_once rfl (.inr (.inl htop)) (by rw [RunFine, if_pos htop]; trivial)⟩
    · rw [if_neg htop]
      by_cases htable : s.pte lvl i = .table
      · have hmatch := pteTable_iff.mpr htable
        rw [if_pos hmatch]
        refine ⟨0, s, .at_once rfl (.inr (.inr htable)) ?_⟩
        rw [RunFine, if_neg htop, if_pos hmatch]
        trivial
      · have hmatch : ¬ pteTable (s.pte lvl i) = true := fun h => htable (pteTable_iff.mp h)
        rw [if_neg hmatch]
        have hfine : RunFine A s.pte (canAlloc s.allocs) top lvl (left + 1) i v ↔
            if unmapCuts A top lvl v = true then canAlloc s.allocs = true ∧
              ∀ base flags, s.pte lvl i = .leaf base flags → flags = A.flags
            else RunFine A s.pte (canAlloc s.allocs) top lvl left (i + 1)
              ((v + A.dscr.size lvl) % M.wordCount) := by
          rw [RunFine, if_neg htop, if_neg hmatch]
        cases hcut : unmapCuts A top lvl v with
        | true =>
          -- the entry is expanded
          rw [if_pos rfl]
          rw [hcut, if_pos rfl] at hfine
          refine ⟨0, s, ⟨Nat.zero_le _, rfl, fun va => ?_, fun h => absurd h (by decide),
            fun _ _ => rfl, fun _ => rfl, .inr ?_⟩⟩
          · have hno : ¬ (v ≤ va ∧ va < v + 0 * A.dscr.size lvl) := by omega
            rw [if_neg hno]
          · rw [Nat.zero_mul, Nat.add_zero, Nat.add_zero]
            refine ⟨by omega, by omega, htable, hidx, hreach, hcut, ?_, hfine⟩
            cases memExpandPte A canAlloc s v lvl with
            | none => rfl
            | some s2 => rfl
        | false =>
          -- the entry is cleared and the run goes on
          rw [if_neg nofun]
          rw [hcut, if_neg nofun] at hfine
          obtain ⟨hal, hwhole⟩ := whole_of_not_cuts (by omega) hroom hcut
          have hpos : 0 < A.dscr.size lvl := Shape.size_pos
          have hmod : (v + A.dscr.size lvl) % M.wordCount = v + A.dscr.size lvl :=
            Nat.mod_eq_of_lt (by omega)
          rw [hmod] at hfine ⊢
          have hnext : left ≠ 0 → (i + 1) % A.dscr.fan lvl + left = A.dscr.fan lvl ∧
              i + 1 = A.dscr.index lvl (v + A.dscr.size lvl) ∧
              reaches A.dscr (put s.pte lvl i (.hole false)) (v + A.dscr.size lvl) lvl = true ∧
              (v + A.dscr.size lvl) / 2 ^ A.dscr.wdt 0 = A.vaHigh := by
            intro hne
            have hlt : A.dscr.index lvl v % A.dscr.fan lvl + 1 < A.dscr.fan lvl := by
              rw [← hidx]
              omega
            have hsucc := Shape.index_add_size hl hlt
            have hmodsucc : (i + 1) % A.dscr.fan lvl = i % A.dscr.fan lvl + 1 := by
              rw [Nat.add_mod, Nat.mod_eq_of_lt (a := 1) (by omega)]
              exact Nat.mod_eq_of_lt (by omega)
            refine ⟨by omega, by rw [hsucc, hidx], ?_, ?_⟩
            · rw [reaches_put (Nat.le_refl lvl)]
              refine reaches_sibling hl ?_ hreach
              rw [hsucc, ← hidx]
              have hfpos : 0 < A.dscr.fan lvl := Shape.fan_pos
              have hi := Nat.div_add_mod i (A.dscr.fan lvl)
              have hi' := Nat.div_add_mod (i + 1) (A.dscr.fan lvl)
              rw [hmodsucc] at hi'
              exact Nat.eq_of_mul_eq_mul_left hfpos (by omega)
            · rw [Shape.high_add_size hl hlt, hhigh]
          obtain ⟨k, s1, hs⟩ := ih (s := unmapClear A freePpages s lvl i) hnext
          refine ⟨k + 1, s1, ?_⟩
          have hspan : v + (k + 1) * A.dscr.size lvl =
              v + A.dscr.size lvl + k * A.dscr.size lvl := by
            rw [Nat.succ_mul]
            omega
          have hcleared := memTranslates_clear hl hreach hhigh hal false
          rw [← hidx] at hcleared
          have hlater : ∀ j, i + 1 ≤ j → put s.pte lvl i (.hole false) lvl j = s.pte lvl j :=
            fun j hj => put_other (.inr (by omega))
          refine ⟨by have := hs.le; omega, hs.allocs, fun va => ?_, fun _ => ?_, fun j hj => ?_,
            fun va => ?_, ?_⟩
          · rw [hs.translates va]
            change (if _ then none else memTranslates A (put s.pte lvl i (.hole false)) va) = _
            rw [hcleared va, hspan]
            by_cases hin : v ≤ va ∧ va < v + A.dscr.size lvl + k * A.dscr.size lvl
            · rw [if_pos hin]
              split
              · rfl
              · rw [if_pos (by omega)]
            · rw [if_neg hin, if_neg (by omega), if_neg (by omega)]
          · rw [hspan]
            rcases Nat.eq_zero_or_pos k with hzero | hkpos
            · rw [hzero, Nat.zero_mul]
              exact hwhole
            · exact hs.within hkpos
          · rw [hs.later j (by omega)]
            exact hlater j (by omega)
          · rw [hs.reach va]
            exact reaches_put (Nat.le_refl lvl)
          · rw [hspan]
            rcases hs.stop with ⟨lvl', hr, -, hf⟩ | ⟨hlt, hk, hne, hik, hreach', hcut', hr, hf⟩
            · refine .inl ⟨lvl', hr, nofun, hfine.mpr ?_⟩
              exact (runFine_put (Nat.lt_succ_self i)).mp hf
            · have hsame := hlater (i + 1 + k) (by omega)
              have hadd : i + (k + 1) = i + 1 + k := by omega
              rw [hadd]
              refine .inr ⟨hlt, by omega, ?_, hik, ?_, hcut', hr, ?_⟩
              · rwa [← hsame]
              · rw [← reaches_put (e := .hole false) (i := i) (Nat.le_refl lvl)]
                exact hreach'
              · rw [hfine, ← hsame, ← runFine_put (e := .hole false) (Nat.lt_succ_self i)]
                exact hf

/-! ## One turn -/

/-- After some turns: what has been passed of the range does not translate, and
outside of it everything translates as in `t`. -/
structure UnmapInv (A : PtAddrSpace M F) (t : Table F) (vaddr top : Nat) (u : UnmapState F) :
    Prop where
  page : u.vaddr % M.pageSize = 0
  le : vaddr ≤ u.vaddr
  gone : ∀ va, vaddr ≤ va → va < u.vaddr → va < top → memTranslates A u.s.pte va = none
  kept : ∀ va, va < vaddr ∨ top ≤ va → memTranslates A u.s.pte va = memTranslates A t va

variable {vaddr : Nat}

theorem succ_lt_of_cuts (hl : lvl < A.dscr.lvls) (hlt : v < top) (hroom : top + A.dscr.size lvl ≤
    M.wordCount) (hpage : v % M.pageSize = 0) (htop : top % M.pageSize = 0)
    (h : unmapCuts A top lvl v = true) : lvl + 1 < A.dscr.lvls := by
  rcases Nat.lt_or_ge (lvl + 1) A.dscr.lvls with hlt' | hge
  · exact hlt'
  · exfalso
    have hlast : lvl = A.dscr.lvls - 1 := by omega
    have hsize : A.dscr.size lvl = M.pageSize := by
      rw [hlast]
      exact pageSize_eq
    have hpos : 0 < M.pageSize := Nat.two_pow_pos _
    simp only [unmapCuts, hsize, Bool.or_eq_true, decide_eq_true_eq] at h
    rw [hsize] at hroom
    have hv := Nat.div_add_mod v M.pageSize
    have ht := Nat.div_add_mod top M.pageSize
    rw [Nat.mul_comm] at hv ht
    have hbase : v / M.pageSize * M.pageSize = v := by omega
    rw [hbase, Nat.mod_eq_of_lt (by omega)] at h
    -- both are multiples of a page
    have hdiv : v / M.pageSize < top / M.pageSize := by
      apply Nat.lt_of_mul_lt_mul_right (a := M.pageSize)
      omega
    have hmul := Nat.mul_le_mul_right M.pageSize hdiv
    rw [Nat.succ_mul] at hmul
    omega

/-- What is left of the table from the entry on. -/
def restOfTable (A : PtAddrSpace M F) (lvl i : Nat) : Nat := A.dscr.fan lvl - i % A.dscr.fan lvl

theorem unmapTurn_leaf (canAlloc : Nat → Bool) (freePpages : Bool) {base : Nat} {flags : F}
    (hget : ptGetPte A u.s.pte u.lvl u.vaddr = some i) (hentry : u.s.pte u.lvl i = .leaf base flags)
    (hroom : top + A.dscr.size u.lvl ≤ M.wordCount)
    (hhigh : u.vaddr / 2 ^ A.dscr.wdt 0 = A.vaHigh) :
    ∃ k s1, RunStops A canAlloc u.s top u.lvl (restOfTable A u.lvl i) i u.vaddr
      (unmapTurn A canAlloc freePpages top u) k s1 := by
  obtain ⟨hl, hreach, hi⟩ := ptGetPte_eq_some.mp hget
  have hfpos : 0 < A.dscr.fan u.lvl := Shape.fan_pos
  have hilt := Nat.mod_lt i hfpos
  have hrun := unmapRun_stops (s := u.s) (i := i) (v := u.vaddr) canAlloc freePpages hl hroom
    (fun (_ : restOfTable A u.lvl i ≠ 0) => ⟨by unfold restOfTable; omega, hi, hreach, hhigh⟩)
  unfold unmapTurn
  rw [hget]
  simp only [hentry]
  exact hrun

/-- The turn ahead, where it goes well: it keeps the invariant, and it goes on in the
range or down one level. -/
theorem UnmapInv.turn (freePpages : Bool) (hinv : UnmapInv A t vaddr top u) (hlt : u.vaddr < top)
    (hfine : TurnFine A canAlloc top u) :
    ∃ u', unmapTurn A canAlloc freePpages top u = some u' ∧ UnmapInv A t vaddr top u' ∧
      u.lvl < A.dscr.lvls ∧
      (u.vaddr < u'.vaddr ∨ (u'.vaddr = u.vaddr ∧ u'.lvl = u.lvl + 1)) := by
  unfold TurnFine at hfine
  cases hget : ptGetPte A u.s.pte u.lvl u.vaddr with
  | none =>
    rw [hget] at hfine
    exact hfine.elim
  | some i =>
    obtain ⟨hl, hreach, hi⟩ := ptGetPte_eq_some.mp hget
    have hpos : 0 < A.dscr.size u.lvl := Shape.size_pos
    have hdvd : A.dscr.size u.lvl % M.pageSize = 0 :=
      Nat.mod_eq_zero_of_dvd (pageSize_dvd_size hl)
    rw [hget] at hfine
    simp only at hfine
    cases hentry : u.s.pte u.lvl i with
    | table =>
      refine ⟨{ u with lvl := u.lvl + 1 }, ?_, ⟨hinv.page, hinv.le, hinv.gone, hinv.kept⟩, hl,
        .inr ⟨rfl, rfl⟩⟩
      simp only [unmapTurn, hget, hentry]
    | hole rsv =>
      rw [hentry] at hfine
      obtain ⟨hroom, hskip⟩ := hfine
      have hmod : (u.vaddr + A.dscr.size u.lvl) % M.wordCount = u.vaddr + A.dscr.size u.lvl :=
        Nat.mod_eq_of_lt (by omega)
      refine ⟨{ u with vaddr := u.vaddr + A.dscr.size u.lvl }, ?_, ⟨?_, ?_, ?_, hinv.kept⟩, hl,
        .inl (Nat.lt_add_of_pos_right hpos)⟩
      · simp only [unmapTurn, hget, hentry, hmod]
      · simp only
        rw [Nat.add_mod, hinv.page, hdvd]
        exact Nat.zero_mod _
      · exact Nat.le_add_right_of_le hinv.le
      · intro va hlo hhi hva
        simp only at hhi ⊢
        rcases Nat.lt_or_ge va u.vaddr with hpast | hge
        · exact hinv.gone va hlo hpast hva
        · rcases Nat.lt_or_ge va ((u.vaddr / A.dscr.size u.lvl + 1) * A.dscr.size u.lvl) with
            hin | hout
          · rw [hi] at hentry
            apply memTranslates_hole hl hreach hentry
            apply Nat.le_antisymm
            · exact Nat.lt_succ_iff.mp (Nat.div_lt_of_lt_mul (by rwa [Nat.mul_comm]))
            · exact Nat.div_le_div_right hge
          · exact hskip va hout hhi hva
    | leaf base flags =>
      rw [hentry] at hfine
      obtain ⟨hroom, hhigh, hrun⟩ := hfine
      obtain ⟨k, s1, hs⟩ := unmapTurn_leaf canAlloc freePpages hget hentry hroom hhigh
      have hpage : (u.vaddr + k * A.dscr.size u.lvl) % M.pageSize = 0 := by
        rw [Nat.add_mod, hinv.page, Nat.mul_mod, hdvd, Nat.mul_zero, Nat.zero_mod, Nat.zero_add]
        exact Nat.zero_mod _
      -- what has been cleared does not translate
      have hgone : ∀ va, vaddr ≤ va → va < u.vaddr + k * A.dscr.size u.lvl → va < top →
          memTranslates A s1.pte va = none := by
        intro va hlo hhi hva
        rw [hs.translates va]
        split
        · rfl
        · exact hinv.gone va hlo (by omega) hva
      have hkept : ∀ va, va < vaddr ∨ top ≤ va →
          memTranslates A s1.pte va = memTranslates A t va := by
        intro va hva
        rw [hs.translates va, if_neg ?_]
        · exact hinv.kept va hva
        · have := hinv.le
          have := hs.within
          rcases Nat.eq_zero_or_pos k with hzero | hk
          · rw [hzero]
            omega
          · have := hs.within hk
            omega
      rcases hs.stop with ⟨lvl', hr, hwhy, -⟩ | ⟨hvlt, -, -, hik, hreach', hcut, hr, hiff⟩
      · refine ⟨_, hr, ⟨hpage, Nat.le_add_right_of_le hinv.le, hgone, hkept⟩, hl, .inl ?_⟩
        have hk : k ≠ 0 := by
          intro hzero
          have hilt := Nat.mod_lt i (Shape.fan_pos (S := A.dscr) (l := u.lvl))
          rcases hwhy hzero with hleft | hge | htable
          · unfold restOfTable at hleft
            omega
          · omega
          · rw [htable] at hentry
            cases hentry
        exact Nat.lt_add_of_pos_right (Nat.mul_pos (Nat.pos_of_ne_zero hk) hpos)
      · obtain ⟨hok, hflags⟩ := hiff.mp hrun
        rw [← hs.allocs] at hok
        have hreach1 : reaches A.dscr s1.pte (u.vaddr + k * A.dscr.size u.lvl) u.lvl = true := by
          rwa [hs.reach]
        obtain ⟨s2, hs2⟩ := memExpandPte_isSome hl hreach1 hok
        rw [hs2] at hr
        -- the entry that is expanded keeps its flags
        have hsame : ∀ va, memTranslates A s2.pte va = memTranslates A s1.pte va := by
          intro va
          rcases memExpandPte_translates hl hreach1 hs2 va with hsame | ⟨-, -, b, f, he, hold, hnew⟩
          · exact hsame
          · rw [← hik, hs.later _ (Nat.le_refl _)] at he
            rw [hold, hnew, hflags b f he]
        refine ⟨_, hr, ⟨hpage, Nat.le_add_right_of_le hinv.le, fun va hlo hhi hva => ?_,
          fun va hva => ?_⟩, hl, ?_⟩
        · exact (hsame va).trans (hgone va hlo hhi hva)
        · exact (hsame va).trans (hkept va hva)
        · rcases Nat.eq_zero_or_pos k with hzero | hk
          · refine .inr ⟨?_, rfl⟩
            simp only
            rw [hzero, Nat.zero_mul, Nat.add_zero]
          · exact .inl (Nat.lt_add_of_pos_right (Nat.mul_pos hk hpos))

/-! ## What a turn leaves alone -/

/-- The translation is the same, or it has only lost its flags. -/
def SameAddr (A : PtAddrSpace M F) (x y : Option (Nat × F)) : Prop :=
  y = x ∨ ∃ pa flags, x = some (pa, flags) ∧ y = some (pa, A.flags)

theorem SameAddr.trans {x y z : Option (Nat × F)} (h : SameAddr A x y) (h' : SameAddr A y z) :
    SameAddr A x z := by
  rcases h with rfl | ⟨pa, flags, rfl, rfl⟩
  · exact h'
  · rcases h' with rfl | ⟨pa', flags', heq, rfl⟩
    · exact .inr ⟨pa, flags, rfl, rfl⟩
    · cases heq
      exact .inr ⟨pa, flags, rfl, rfl⟩

theorem SameAddr.isSome {x y : Option (Nat × F)} (h : SameAddr A x y) (hy : y = none) :
    x = none := by
  rcases h with rfl | ⟨pa, flags, rfl, rfl⟩
  · exact hy
  · cases hy

/-- The range lies in what the hardware translates, with room above it. -/
structure RoomAbove (A : PtAddrSpace M F) (vaddr top : Nat) : Prop where
  lo : A.vaHigh * 2 ^ A.dscr.wdt 0 ≤ vaddr
  hi : top ≤ (A.vaHigh + 1) * 2 ^ A.dscr.wdt 0
  room : top + A.dscr.size 0 ≤ M.wordCount

theorem RoomAbove.size (hr : RoomAbove A vaddr top) (hl : lvl < A.dscr.lvls) :
    top + A.dscr.size lvl ≤ M.wordCount := by
  have := Nat.le_of_dvd Shape.size_pos (Shape.size_dvd (S := A.dscr) (Nat.zero_le lvl) hl)
  have := hr.room
  omega

theorem RoomAbove.high (hr : RoomAbove A vaddr top) (hlo : vaddr ≤ v) (hhi : v < top) :
    v / 2 ^ A.dscr.wdt 0 = A.vaHigh := by
  apply (Nat.div_eq_iff (Nat.two_pow_pos _)).mpr
  have := hr.lo
  have := hr.hi
  rw [Nat.succ_mul] at this
  omega

/-- **A turn leaves alone** what it has passed and what lies above the range. -/
theorem unmapTurn_leaves (hr : RoomAbove A vaddr top) (hle : vaddr ≤ u.vaddr) (hlt : u.vaddr < top)
    (h : unmapTurn A canAlloc freePpages top u = some u') :
    u.vaddr ≤ u'.vaddr ∧ ∀ va, va < u.vaddr ∨ top ≤ va →
      SameAddr A (memTranslates A u.s.pte va) (memTranslates A u'.s.pte va) := by
  have hhigh := hr.high hle hlt
  cases hget : ptGetPte A u.s.pte u.lvl u.vaddr with
  | none =>
    simp only [unmapTurn, hget] at h
    cases h
  | some i =>
    obtain ⟨hl, hreach, hi⟩ := ptGetPte_eq_some.mp hget
    have hroom := hr.size hl
    cases hentry : u.s.pte u.lvl i with
    | table =>
      simp only [unmapTurn, hget, hentry] at h
      cases h
      exact ⟨Nat.le_refl _, fun _ _ => .inl rfl⟩
    | hole rsv =>
      simp only [unmapTurn, hget, hentry] at h
      cases h
      refine ⟨?_, fun _ _ => .inl rfl⟩
      simp only
      rw [Nat.mod_eq_of_lt (by omega)]
      exact Nat.le_add_right _ _
    | leaf base flags =>
      obtain ⟨k, s1, hs⟩ := unmapTurn_leaf canAlloc freePpages hget hentry hroom hhigh
      have hpast : ∀ va, va < u.vaddr ∨ top ≤ va →
          memTranslates A s1.pte va = memTranslates A u.s.pte va := by
        intro va hva
        rw [hs.translates va, if_neg ?_]
        rcases Nat.eq_zero_or_pos k with hzero | hk
        · rw [hzero]
          omega
        · have := hs.within hk
          omega
      rcases hs.stop with ⟨lvl', hr', -, -⟩ | ⟨-, -, -, -, hreach', -, hr', -⟩
      · rw [hr'] at h
        cases h
        exact ⟨Nat.le_add_right _ _, fun va hva => .inl (hpast va hva)⟩
      · rw [hr'] at h
        obtain ⟨s2, hs2, rfl⟩ := Option.map_eq_some_iff.mp h
        refine ⟨Nat.le_add_right _ _, fun va hva => ?_⟩
        rw [← hs.reach] at hreach'
        have hold := hpast va hva
        rcases memExpandPte_translates hl hreach' hs2 va with
          hsame | ⟨-, -, b, f, -, hbefore, hafter⟩
        · exact .inl (hsame.trans hold)
        · rw [hold] at hbefore
          exact .inr ⟨_, f, hbefore, hafter⟩

theorem unmapLoop_leaves {fuel : Nat} (hr : RoomAbove A vaddr top) (hle : vaddr ≤ u.vaddr)
    (h : unmapLoop A canAlloc freePpages top fuel u = .done s1) (hva : va < u.vaddr ∨ top ≤ va) :
    SameAddr A (memTranslates A u.s.pte va) (memTranslates A s1.pte va) := by
  induction fuel generalizing u with
  | zero =>
    unfold unmapLoop at h
    split at h
    · cases h
    · cases h
      exact .inl rfl
  | succ fuel ih =>
    unfold unmapLoop at h
    split at h
    · next hlt =>
      cases hturn : unmapTurn A canAlloc freePpages top u with
      | none =>
        rw [hturn] at h
        cases h
      | some u1 =>
        rw [hturn] at h
        obtain ⟨hle1, hsame⟩ := unmapTurn_leaves hr hle hlt hturn
        exact (hsame va hva).trans (ih (by omega) h (by omega))
    · cases h
      exact .inl rfl

/-! ## A turn that does not go well -/

theorem unmapLoop_below {fuel : Nat} {s2 : PtState F}
    (hentry : s.pte lvl (A.dscr.index lvl v) ≠ .table) (hlt : v < top)
    (h : unmapLoop A canAlloc freePpages top fuel ⟨s, lvl + 1, v⟩ = .done s2) : False := by
  have hget : ptGetPte A s.pte (lvl + 1) v = none := by
    unfold ptGetPte
    split
    · next hin => exact (hentry (reaches_succ.mp hin.2).2).elim
    · rfl
  cases fuel with
  | zero =>
    simp only [unmapLoop, if_pos hlt] at h
    cases h
  | succ fuel =>
    simp only [unmapLoop, if_pos hlt, unmapTurn, hget] at h
    cases h

theorem exists_cut_off (hlt : v < top) (hroom : top + A.dscr.size lvl ≤ M.wordCount)
    (h : unmapCuts A top lvl v = true) :
    ∃ va, va / A.dscr.size lvl = v / A.dscr.size lvl ∧ va < M.wordCount ∧ (va < v ∨ top ≤ va) := by
  have hpos : 0 < A.dscr.size lvl := Shape.size_pos
  have hdiv := Nat.div_add_mod v (A.dscr.size lvl)
  have hmod := Nat.mod_lt v hpos
  rw [Nat.mul_comm] at hdiv
  simp only [unmapCuts, Bool.or_eq_true, decide_eq_true_eq] at h
  rcases h with hleft | hright
  · refine ⟨v - 1, ?_, by omega, .inl (by omega)⟩
    exact (Nat.div_eq_iff hpos).mpr (by omega)
  · rw [Nat.mod_eq_of_lt (by omega)] at hright
    refine ⟨top, ?_, by omega, .inr (Nat.le_refl top)⟩
    exact (Nat.div_eq_iff hpos).mpr (by omega)

/-- **A leaf that is expanded** and whose span the loop then leaves in part alone had
the flags it got. -/
theorem flags_of_expanded {fuel : Nat} {base : Nat} {flags : F} {s2 s3 : PtState F}
    (hr : RoomAbove A vaddr top) (hle : vaddr ≤ v) (hlt : v < top) (hl : lvl + 1 < A.dscr.lvls)
    (hreach : reaches A.dscr s.pte v lvl = true)
    (hentry : s.pte lvl (A.dscr.index lvl v) = .leaf base flags)
    (hexp : memExpandPte A canAlloc s v lvl = some s2)
    (h : unmapLoop A canAlloc freePpages top fuel ⟨s2, lvl + 1, v⟩ = .done s3)
    (hspan : va / A.dscr.size lvl = v / A.dscr.size lvl) (hva : va < v ∨ top ≤ va)
    (hkept : memTranslates A s3.pte va = memTranslates A s.pte va) : flags = A.flags := by
  have hl' : lvl < A.dscr.lvls := by omega
  have hhigh := hr.high hle hlt
  have hold := memTranslates_leaf hl' hreach hentry hhigh hspan
  have hnew : memTranslates A s2.pte va = some (base + va % A.dscr.size lvl, A.flags) := by
    rcases memExpandPte_cases hl' hreach hexp with
      hpte | ⟨-, rsv, hhole, -⟩ | ⟨-, -, b', f', t', hleaf, ht', hgrow⟩
    · -- the entry has become a table
      refine (unmapLoop_below (s := s2) ?_ hlt h).elim
      rw [hpte, hentry]
      exact nofun
    · rw [hentry] at hhole
      cases hhole
    · rw [hentry] at hleaf
      cases hleaf
      have hidx := (Shape.index_eq_iff hl' (high_eq_of_span hl' hspan)).mpr hspan
      rw [memTranslates, if_pos ((high_eq_of_span hl' hspan).trans hhigh), hgrow]
      apply translate_grow_leaves hl _ hidx
      rw [ht', reaches_grow (Nat.le_refl lvl)]
      exact reaches_congr hl' hidx.symm hreach
  have hend := unmapLoop_leaves (u := ⟨s2, lvl + 1, v⟩) hr hle h hva
  simp only [hkept, hnew, hold] at hend
  rcases hend with heq | ⟨pa, f', heq, heq'⟩
  · cases heq
    rfl
  · cases heq'
    rfl

/-- **Only good turns** lead to an exact result. -/
theorem UnmapInv.turnFine {fuel : Nat} (hinv : UnmapInv A t vaddr top u)
    (hr : RoomAbove A vaddr top) (htop : top % M.pageSize = 0) (hlt : u.vaddr < top)
    (h : unmapLoop A canAlloc freePpages top fuel u = .done s1)
    (hgone : ∀ va, vaddr ≤ va → va < top → memTranslates A s1.pte va = none)
    (hkept : ∀ va, va < M.wordCount → va < vaddr ∨ top ≤ va →
      memTranslates A s1.pte va = memTranslates A t va) :
    TurnFine A canAlloc top u := by
  have hhigh := hr.high hinv.le hlt
  obtain ⟨fuel, rfl⟩ : ∃ f, fuel = f + 1 := by
    cases fuel with
    | zero =>
      simp only [unmapLoop, if_pos hlt] at h
      cases h
    | succ fuel => exact ⟨fuel, rfl⟩
  rw [unmapLoop, if_pos hlt] at h
  unfold TurnFine
  cases hget : ptGetPte A u.s.pte u.lvl u.vaddr with
  | none =>
    simp only [unmapTurn, hget] at h
    cases h
  | some i =>
    obtain ⟨hl, hreach, hi⟩ := ptGetPte_eq_some.mp hget
    have hroom := hr.size hl
    simp only
    cases hentry : u.s.pte u.lvl i with
    | table => trivial
    | hole rsv =>
      refine ⟨hroom, fun va hlo hhi hva => ?_⟩
      simp only [unmapTurn, hget, hentry] at h
      have hmod : (u.vaddr + A.dscr.size u.lvl) % M.wordCount = u.vaddr + A.dscr.size u.lvl :=
        Nat.mod_eq_of_lt (by omega)
      rw [hmod] at h
      have hle := hinv.le
      have hspan := Nat.lt_div_mul_add (a := u.vaddr) (b := A.dscr.size u.lvl) Shape.size_pos
      rw [Nat.succ_mul] at hlo
      -- what was stepped over is left as it is
      have hsame := unmapLoop_leaves (u := ⟨u.s, u.lvl, u.vaddr + A.dscr.size u.lvl⟩) hr
        (by simp only; omega) h (.inl hhi)
      exact hsame.isSome (hgone va (by omega) hva)
    | leaf base flags =>
      obtain ⟨k, s2, hs⟩ := unmapTurn_leaf canAlloc freePpages hget hentry hroom hhigh
      refine ⟨hroom, hhigh, ?_⟩
      change RunFine A u.s.pte (canAlloc u.s.allocs) top u.lvl (restOfTable A u.lvl i) i u.vaddr
      rcases hs.stop with ⟨-, -, -, hfine⟩ | ⟨hvlt, -, htable, hik, hreach', hcut, hturn, hiff⟩
      · exact hfine
      · generalize hw : u.vaddr + k * A.dscr.size u.lvl = w at *
        have hdvd : A.dscr.size u.lvl % M.pageSize = 0 :=
          Nat.mod_eq_zero_of_dvd (pageSize_dvd_size hl)
        have hpage : w % M.pageSize = 0 := by
          rw [← hw, Nat.add_mod, hinv.page, Nat.mul_mod, hdvd, Nat.mul_zero, Nat.zero_mod,
            Nat.zero_add]
          exact Nat.zero_mod _
        have hsucc := succ_lt_of_cuts hl hvlt hroom hpage htop hcut
        have hreach2 : reaches A.dscr s2.pte w u.lvl = true := by rwa [hs.reach]
        have hsame : s2.pte u.lvl (A.dscr.index u.lvl w) = u.s.pte u.lvl (i + k) := by
          rw [← hik]
          exact hs.later _ (Nat.le_refl _)
        cases hexp : memExpandPte A canAlloc s2 w u.lvl with
        | none =>
          rw [hturn, hexp] at h
          cases h
        | some s3 =>
          rw [hturn, hexp] at h
          have hpast : ∀ va, va < vaddr ∨ top ≤ va →
              memTranslates A s2.pte va = memTranslates A t va := by
            intro va hva
            rw [hs.translates va, if_neg ?_]
            · exact hinv.kept va hva
            · have := hinv.le
              rcases Nat.eq_zero_or_pos k with hzero | hk
              · rw [hzero]
                omega
              · have := hs.within hk
                omega
          refine hiff.mpr ⟨?_, fun b f he => ?_⟩
          · cases hok : canAlloc u.s.allocs with
            | true => rfl
            | false =>
              have hno : canAlloc s2.allocs = false := by rwa [hs.allocs]
              have hne : s2.pte u.lvl (A.dscr.index u.lvl w) ≠ .table := by rwa [hsame]
              have hpte := memExpandPte_noPage hsucc hreach2 hne hno hexp
              refine (unmapLoop_below (s := s3) ?_ hvlt h).elim
              rwa [hpte]
          · -- some address of the entry lies outside of the range
            rw [← hsame] at he
            obtain ⟨va, hspan, hword, hva⟩ := exists_cut_off hvlt hroom hcut
            have hle : vaddr ≤ w := by
              have := hinv.le
              omega
            have hoff : va < vaddr ∨ top ≤ va := by
              rcases hva with hbelow | habove
              · rcases Nat.lt_or_ge va vaddr with hlo | hge
                · exact .inl hlo
                · -- what has been passed does not translate
                  have hnone : memTranslates A s2.pte va = none := by
                    rw [hs.translates]
                    split
                    · rfl
                    · exact hinv.gone va hge (by omega) (by omega)
                  rw [memTranslates_leaf hl hreach2 he (hr.high hle hvlt) hspan] at hnone
                  cases hnone
              · exact .inr habove
            refine flags_of_expanded hr hle hvlt hsucc hreach2 he hexp h hspan hva ?_
            rw [hkept va hword hoff, hpast va hoff]

/-! ## Whole runs -/

theorem UnmapVisits.of_turn (hlt : u.vaddr < top)
    (hturn : unmapTurn A canAlloc freePpages top u = some u')
    (h : UnmapVisits A canAlloc freePpages top u' w) :
    UnmapVisits A canAlloc freePpages top u w := by
  induction h with
  | start => exact .turn .start hlt hturn
  | turn _ hlt' hturn' ih => exact .turn ih hlt' hturn'

/-- The rest of the range and, below it, the levels left. -/
def unmapLeft (A : PtAddrSpace M F) (top : Nat) (u : UnmapState F) : Nat :=
  (top - u.vaddr) * (A.dscr.lvls + 1) + (A.dscr.lvls - u.lvl)

/-- **Good turns come to an end.** -/
theorem UnmapInv.ends (hinv : UnmapInv A t vaddr top u)
    (hfine : ∀ w, UnmapVisits A canAlloc freePpages top u w → w.vaddr < top →
      TurnFine A canAlloc top w) :
    ∃ fuel u', unmapLoop A canAlloc freePpages top fuel u = .done u'.s ∧
      UnmapInv A t vaddr top u' ∧ top ≤ u'.vaddr := by
  induction hn : unmapLeft A top u using Nat.strongRecOn generalizing u with
  | ind n ih =>
    rcases Nat.lt_or_ge u.vaddr top with hlt | hge
    · obtain ⟨u1, hturn, hinv1, hl, hprog⟩ :=
        hinv.turn freePpages hlt (hfine u .start hlt)
      have hless : unmapLeft A top u1 < n := by
        rw [← hn]
        unfold unmapLeft
        rcases hprog with hup | ⟨hsame, hdown⟩
        · have hsub : top - u1.vaddr + 1 ≤ top - u.vaddr := by omega
          have hmul := Nat.mul_le_mul_right (A.dscr.lvls + 1) hsub
          rw [Nat.succ_mul] at hmul
          omega
        · rw [hsame, hdown]
          omega
      obtain ⟨fuel, u2, hdone, hrest⟩ := ih _ hless hinv1
        (fun w hw hwlt => hfine w (.of_turn hlt hturn hw) hwlt) rfl
      refine ⟨fuel + 1, u2, ?_, hrest⟩
      rw [unmapLoop, if_pos hlt, hturn]
      exact hdone
    · refine ⟨0, u, ?_, hinv, hge⟩
      rw [unmapLoop, if_neg (by omega)]

/-- **An exact result** comes from good turns only. -/
theorem UnmapInv.visits {fuel : Nat} (hinv : UnmapInv A t vaddr top u)
    (hr : RoomAbove A vaddr top) (htop : top % M.pageSize = 0)
    (h : unmapLoop A canAlloc freePpages top fuel u = .done s1)
    (hgone : ∀ va, vaddr ≤ va → va < top → memTranslates A s1.pte va = none)
    (hkept : ∀ va, va < M.wordCount → va < vaddr ∨ top ≤ va →
      memTranslates A s1.pte va = memTranslates A t va)
    (hw : UnmapVisits A canAlloc freePpages top u w) :
    UnmapInv A t vaddr top w ∧
      ∃ fuel, unmapLoop A canAlloc freePpages top fuel w = .done s1 := by
  induction hw with
  | start => exact ⟨hinv, fuel, h⟩
  | @turn w w' _ hlt hturn ih =>
    obtain ⟨hinvw, f, hf⟩ := ih
    have hfine := hinvw.turnFine hr htop hlt hf hgone hkept
    obtain ⟨w1, hturn1, hinv1, -, -⟩ := hinvw.turn freePpages hlt hfine
    rw [hturn] at hturn1
    cases hturn1
    refine ⟨hinv1, ?_⟩
    cases f with
    | zero =>
      simp only [unmapLoop, if_pos hlt] at hf
      cases hf
    | succ f =>
      rw [unmapLoop, if_pos hlt, hturn] at hf
      exact ⟨f, hf⟩

theorem unmapLoop_end {fuel : Nat} (h : ¬ u.vaddr < top) :
    unmapLoop A canAlloc freePpages top fuel u = .done u.s := by
  cases fuel with
  | zero => exact if_neg h
  | succ fuel => exact if_neg h

theorem unmapLoop_unique {fuel fuel' : Nat} {s' : PtState F}
    (h : unmapLoop A canAlloc freePpages top fuel u = .done s1)
    (h' : unmapLoop A canAlloc freePpages top fuel' u = .done s') : s1 = s' := by
  induction fuel generalizing u fuel' with
  | zero =>
    by_cases hlt : u.vaddr < top
    · rw [unmapLoop, if_pos hlt] at h
      cases h
    · rw [unmapLoop_end hlt] at h h'
      exact UnmapOutcome.done.inj (h.symm.trans h')
  | succ fuel ih =>
    by_cases hlt : u.vaddr < top
    · rw [unmapLoop, if_pos hlt] at h
      cases fuel' with
      | zero =>
        rw [unmapLoop, if_pos hlt] at h'
        cases h'
      | succ fuel' =>
        rw [unmapLoop, if_pos hlt] at h'
        cases hturn : unmapTurn A canAlloc freePpages top u with
        | none =>
          rw [hturn] at h
          cases h
        | some u1 =>
          rw [hturn] at h h'
          exact ih h h'
    · rw [unmapLoop_end hlt] at h h'
      exact UnmapOutcome.done.inj (h.symm.trans h')

theorem UnmapVisits.eq_or (h : UnmapVisits A canAlloc freePpages top u w) :
    w = u ∨ (u.vaddr < top ∧ ∃ u1, unmapTurn A canAlloc freePpages top u = some u1 ∧
      UnmapVisits A canAlloc freePpages top u1 w) := by
  induction h with
  | start => exact .inl rfl
  | turn _ hlt hturn ih =>
    rcases ih with rfl | ⟨hlt1, u1, hfirst, hrest⟩
    · exact .inr ⟨hlt, _, hturn, .start⟩
    · exact .inr ⟨hlt1, u1, hfirst, .turn hrest hlt hturn⟩

theorem UnmapVisits.step (u' : UnmapState F)
    (hturn : unmapTurn A canAlloc freePpages top u = some u')
    (hfine : TurnFine A canAlloc top u)
    (h : ∀ w, UnmapVisits A canAlloc freePpages top u' w → w.vaddr < top →
      TurnFine A canAlloc top w) :
    ∀ w, UnmapVisits A canAlloc freePpages top u w → w.vaddr < top →
      TurnFine A canAlloc top w := by
  intro w hw hlt
  rcases hw.eq_or with rfl | ⟨-, u1, hfirst, hrest⟩
  · exact hfine
  · rw [hturn] at hfirst
    cases hfirst
    exact h w hrest hlt

theorem UnmapVisits.last (h : ¬ u.vaddr < top) :
    ∀ w, UnmapVisits A canAlloc freePpages top u w → w.vaddr < top →
      TurnFine A canAlloc top w := by
  intro w hw hlt
  rcases hw.eq_or with rfl | ⟨hlt', -⟩
  · exact (h hlt).elim
  · exact (h hlt').elim

/-! ## The range -/

theorem sec_lt (h : memFindSec A.sections va = some sec) : sec.last < M.wordCount :=
  A.sections_lt sec (List.mem_of_find?_eq_some h)

theorem UnmapInv.start (hpage : vaddr % M.pageSize = 0) :
    UnmapInv A s.pte vaddr top ⟨s, 0, vaddr⟩ :=
  ⟨hpage, Nat.le_refl vaddr, fun _ hlo hhi _ => absurd hhi (Nat.not_lt.mpr hlo), fun _ _ => rfl⟩

variable {numPages : Nat} {sec : Section}

theorem UnmapFine.exact (hpage : vaddr % M.pageSize = 0)
    (hsec : memFindSec A.sections vaddr = some sec)
    (hend : vaddr + numPages * M.pageSize ≤ sec.last + 1)
    (h : UnmapFine A canAlloc s vaddr numPages freePpages) :
    UnmapsExactly A canAlloc s vaddr numPages freePpages := by
  have hword := sec_lt hsec
  obtain ⟨hwrap, hturns⟩ := h
  unfold UnmapsExactly
  simp only [memUnmap, hsec]
  rcases Nat.lt_or_ge (vaddr + numPages * M.pageSize) M.wordCount with hlt | hge
  · rw [Nat.mod_eq_of_lt hlt] at hturns ⊢
    obtain ⟨fuel, u, hdone, hinv, htop⟩ := (UnmapInv.start hpage).ends hturns
    refine ⟨fuel, u.s, hdone, fun va hlo hhi => ?_, fun va _ hva => hinv.kept va hva⟩
    exact hinv.gone va hlo (by omega) hhi
  · -- the range ends with the address space, and the loop does not start
    have heq : vaddr + numPages * M.pageSize = M.wordCount := by omega
    refine ⟨0, s, ?_, fun va hlo hhi => hwrap heq va hlo (by omega), fun _ _ _ => rfl⟩
    rw [heq, Nat.mod_self]
    exact if_neg (Nat.not_lt_zero _)

theorem UnmapsExactly.fine (hpage : vaddr % M.pageSize = 0)
    (hsec : memFindSec A.sections vaddr = some sec) (hin : InsideInput A vaddr numPages)
    (h : UnmapsExactly A canAlloc s vaddr numPages freePpages) :
    UnmapFine A canAlloc s vaddr numPages freePpages := by
  obtain ⟨hlo, hhi, hroom⟩ := hin
  have hpos : 0 < A.dscr.size 0 := Shape.size_pos
  have hlt : vaddr + numPages * M.pageSize < M.wordCount := by omega
  obtain ⟨fuel, s', hdone, hgone, hkept⟩ := h
  simp only [memUnmap, hsec] at hdone
  refine ⟨fun heq => absurd heq (Nat.ne_of_lt hlt), ?_⟩
  rw [Nat.mod_eq_of_lt hlt] at hdone ⊢
  have htop : (vaddr + numPages * M.pageSize) % M.pageSize = 0 := by
    rw [Nat.add_mul_mod_self_right]
    exact hpage
  have hr : RoomAbove A vaddr (vaddr + numPages * M.pageSize) := ⟨hlo, hhi, hroom⟩
  intro w hw hwlt
  obtain ⟨hinv, fuel', hdone'⟩ := (UnmapInv.start hpage).visits hr htop hdone hgone hkept hw
  exact hinv.turnFine hr htop hwlt hdone' hgone hkept

end Bao

import BaoHypervisor.VmpuRefusal
import BaoHypervisor.VmpuUnmap

/-!
# Copying a mapping between two vMPUs

`mem_map_cpy` looks the source address up, but then it maps from the base of the
region that it found, with the length asked for, and answers the source address.
So a copy that starts inside a region maps addresses below the ones it promises,
and an address that is not mapped is a null entry.  What is mapped after a call
follows from a weak invariant of the destination that needs no disjoint regions:
merging neighbours changes no mapped address.
-/

namespace Bao

open RangeList

namespace AddrSpace

/-- The address `a` is in a valid entry. -/
def Mapped (as : AddrSpace) (a : Nat) : Prop := ∃ i, as.Valid i ∧ as.Covers i a

/-- The list has exactly the valid entries, each once, and their regions end
below the end of the address space; they may overlap. -/
structure Linked (M : Machine) (as : AddrSpace) : Prop where
  listed : ∀ i, i ∈ as.orderedList ↔ as.Valid i
  nodup : as.orderedList.Nodup
  fits : ∀ i, as.Valid i → as.limit i < M.wordCount

theorem Wf.linked {M : Machine} {as : AddrSpace} (h : as.Wf M) : as.Linked M where
  listed := h.listed
  nodup := h.nodup
  fits := h.fits

namespace Linked

variable {M : Machine} {as as' : AddrSpace} {i : Mpid}

theorem allocateEntry (h : as.Linked M) (halloc : as.memVmpuAllocateEntry = some (i, as')) :
    as'.Linked M ∧ ¬ as'.Valid i ∧ ∀ a, as'.Mapped a ↔ as.Mapped a := by
  obtain ⟨hfree, has⟩ := memVmpuAllocateEntry_some halloc
  have hnot : ¬ as.Valid i := by
    intro hvalid
    rw [Valid, hfree] at hvalid
    cases hvalid
  have hnot' : ¬ as'.Valid i := by
    rw [has, Valid, setNode_node_same]
    intro hvalid
    cases hvalid
  have hback : ∀ j, as.Valid j → as'.Valid j ∧ as'.node j = as.node j := by
    intro j hj
    have hji : j ≠ i := fun heq => hnot (heq ▸ hj)
    have hnode : as'.node j = as.node j := by
      rw [has, setNode_node_other _ _ hji]
    refine ⟨?_, hnode⟩
    rw [Valid, hnode]
    exact hj
  have hvalid : ∀ j, as'.Valid j ↔ as.Valid j := by
    intro j
    constructor
    · intro hj
      exact (allocateEntry_node halloc hj).1
    · intro hj
      exact (hback j hj).1
  refine ⟨⟨?_, ?_, ?_⟩, hnot', ?_⟩
  · intro j
    rw [hvalid, ← h.listed, has]
    rfl
  · rw [has]
    exact h.nodup
  · intro j hj
    obtain ⟨hj, hnode⟩ := allocateEntry_node halloc hj
    rw [limit, base, hnode]
    exact h.fits j hj
  · intro a
    constructor
    · intro hmapped
      obtain ⟨j, hj, hcovers⟩ := hmapped
      obtain ⟨hj, hnode⟩ := allocateEntry_node halloc hj
      rw [Covers, limit, base, hnode] at hcovers
      exact ⟨j, hj, hcovers⟩
    · intro hmapped
      obtain ⟨j, hj, hcovers⟩ := hmapped
      obtain ⟨hj', hnode⟩ := hback j hj
      refine ⟨j, hj', ?_⟩
      rw [Covers, limit, base, hnode]
      exact hcovers

/-- **A new entry** maps its region, also where it meets others. -/
theorem setEntry (h : as.Linked M) (hi : ¬ as.Valid i) (mpr : MpRegion) (lock : Bool)
    (hfit : mpr.base + mpr.size < M.wordCount) :
    (as.memVmpuSetEntry i mpr lock).Linked M ∧ ∀ a, (as.memVmpuSetEntry i mpr lock).Mapped a ↔
      as.Mapped a ∨ (mpr.base ≤ a ∧ a < mpr.base + mpr.size) := by
  have hsame : (as.memVmpuSetEntry i mpr lock).node i = ⟨.valid, lock, mpr⟩ := by
    simp
  have hother : ∀ j, j ≠ i → (as.memVmpuSetEntry i mpr lock).node j = as.node j := by
    intro j hj
    exact setNode_node_other _ _ hj
  have hvalidI : (as.memVmpuSetEntry i mpr lock).Valid i := by
    rw [Valid, hsame]
  have hvalid : ∀ j, j ≠ i → ((as.memVmpuSetEntry i mpr lock).Valid j ↔ as.Valid j) := by
    intro j hj
    rw [Valid, hother j hj, Valid]
  refine ⟨⟨?_, ?_, ?_⟩, ?_⟩
  · intro j
    show j ∈ insertOrdered _ i as.orderedList ↔ _
    rw [mem_insertOrdered]
    by_cases hji : j = i
    · rw [hji]
      exact iff_of_true (.inl rfl) hvalidI
    · rw [hvalid j hji, ← h.listed]
      exact or_iff_right hji
  · show (insertOrdered _ i as.orderedList).Nodup
    apply (insertOrdered_perm _ i as.orderedList).nodup_iff.mpr
    apply List.nodup_cons.mpr
    refine ⟨?_, h.nodup⟩
    intro hlisted
    exact hi ((h.listed i).mp hlisted)
  · intro j hj
    by_cases hji : j = i
    · rw [hji, limit, base, hsame]
      exact hfit
    · rw [limit, base, hother j hji]
      exact h.fits j ((hvalid j hji).mp hj)
  · intro a
    constructor
    · intro hmapped
      obtain ⟨j, hj, hcovers⟩ := hmapped
      by_cases hji : j = i
      · rw [hji, Covers, limit, base, hsame] at hcovers
        exact .inr hcovers
      · rw [Covers, limit, base, hother j hji] at hcovers
        exact .inl ⟨j, (hvalid j hji).mp hj, hcovers⟩
    · intro hmapped
      rcases hmapped with ⟨j, hj, hcovers⟩ | hnew
      · have hji : j ≠ i := fun heq => hi (heq ▸ hj)
        refine ⟨j, (hvalid j hji).mpr hj, ?_⟩
        rw [Covers, limit, base, hother j hji]
        exact hcovers
      · refine ⟨i, hvalidI, ?_⟩
        rw [Covers, limit, base, hsame]
        exact hnew

/-- **Merging** an entry with one that starts at its end, of which the second is
freed, changes no mapped address. -/
theorem merge {prev cur : Mpid} (h : as.Linked M) (mpr : MpRegion) (hprev : as.Valid prev)
    (hcur : as.Valid cur) (hne : prev ≠ cur) (hmeets : as.limit prev = as.base cur)
    (hbase : mpr.base = as.base prev) (hlimit : mpr.base + mpr.size = as.limit cur)
    (pteInvalid : Nat) :
    ((as.setNode prev { as.node prev with region := mpr }).memVmpuFreeEntry pteInvalid
        cur).Linked M ∧
      ∀ a, ((as.setNode prev { as.node prev with region := mpr }).memVmpuFreeEntry pteInvalid
        cur).Mapped a ↔ as.Mapped a := by
  generalize hnew : (as.setNode prev { as.node prev with region := mpr }).memVmpuFreeEntry
    pteInvalid cur = new
  have hnodePrev : new.node prev = { as.node prev with region := mpr } := by
    rw [← hnew, memVmpuFreeEntry_node_other _ hne, setNode_node_same]
  have hnodeOther : ∀ j, j ≠ prev → j ≠ cur → new.node j = as.node j := by
    intro j hjp hjc
    rw [← hnew, memVmpuFreeEntry_node_other _ hjc, setNode_node_other _ _ hjp]
  have hvalid : ∀ j, new.Valid j ↔ as.Valid j ∧ j ≠ cur := by
    intro j
    rw [← hnew, memVmpuFreeEntry_valid]
    by_cases hj : j = prev
    · rw [hj, Valid, setNode_node_same, Valid]
    · rw [Valid, setNode_node_other _ _ hj, Valid]
  have hcovPrev : ∀ a, new.Covers prev a ↔ as.base prev ≤ a ∧ a < as.limit cur := by
    intro a
    rw [Covers, limit, base, hnodePrev]
    dsimp only
    rw [hlimit, hbase]
  have hcovOther : ∀ j a, j ≠ prev → j ≠ cur → (new.Covers j a ↔ as.Covers j a) := by
    intro j a hjp hjc
    rw [Covers, limit, base, hnodeOther j hjp hjc]
    rfl
  have hle : as.base prev ≤ as.limit prev := Nat.le_add_right _ _
  have hle' : as.base cur ≤ as.limit cur := Nat.le_add_right _ _
  refine ⟨⟨?_, ?_, ?_⟩, ?_⟩
  · intro j
    rw [hvalid, ← h.listed, ← hnew]
    simp only [memVmpuFreeEntry_orderedList, setNode_orderedList]
    rw [h.nodup.mem_erase_iff, and_comm]
  · rw [← hnew]
    exact h.nodup.erase cur
  · intro j hj
    obtain ⟨hjv, hjc⟩ := (hvalid j).mp hj
    by_cases hjp : j = prev
    · rw [hjp, limit, base, hnodePrev]
      dsimp only
      rw [hlimit]
      exact h.fits cur hcur
    · rw [limit, base, hnodeOther j hjp hjc]
      exact h.fits j hjv
  · intro a
    constructor
    · intro hmapped
      obtain ⟨j, hj, hcovers⟩ := hmapped
      obtain ⟨hjv, hjc⟩ := (hvalid j).mp hj
      by_cases hjp : j = prev
      · rw [hjp] at hcovers
        obtain ⟨hlow, hhigh⟩ := (hcovPrev a).mp hcovers
        by_cases hfirst : a < as.limit prev
        · exact ⟨prev, hprev, hlow, hfirst⟩
        · exact ⟨cur, hcur, by omega, hhigh⟩
      · exact ⟨j, hjv, (hcovOther j a hjp hjc).mp hcovers⟩
    · intro hmapped
      obtain ⟨j, hj, hcovers⟩ := hmapped
      have hprevNew : new.Valid prev := (hvalid prev).mpr ⟨hprev, hne⟩
      by_cases hjp : j = prev
      · rw [hjp] at hcovers
        obtain ⟨hlow, hhigh⟩ := hcovers
        exact ⟨prev, hprevNew, (hcovPrev a).mpr ⟨hlow, by omega⟩⟩
      · by_cases hjc : j = cur
        · rw [hjc] at hcovers
          obtain ⟨hlow, hhigh⟩ := hcovers
          exact ⟨prev, hprevNew, (hcovPrev a).mpr ⟨by omega, hhigh⟩⟩
        · exact ⟨j, (hvalid j).mpr ⟨hj, hjc⟩, (hcovOther j a hjp hjc).mpr hcovers⟩

end Linked

end AddrSpace

namespace VmpuCpu

open AddrSpace

variable {σ : Type}

/-- `mem_map` maps a region: it is empty, or contained in no entry and accepted
by the MPU. -/
def MapAccepts (C : VmpuCpu σ) (st : VmpuState σ) (mpr : MpRegion) : Prop :=
  mpr.size = 0 ∨ (memVmpuFindOverlappingRegion C.machine st.as mpr = none ∧
    ¬ C.Refuses st.as st.mpu mpr false)

/-- `mem_map` answers that it did not map a region: an entry contains it, or the
MPU refuses. -/
def MapRejects (C : VmpuCpu σ) (st : VmpuState σ) (mpr : MpRegion) : Prop :=
  mpr.size ≠ 0 ∧ mpr.size % C.arch.mpuGranularity = 0 ∧
    (memVmpuFindOverlappingRegion C.machine st.as mpr ≠ none ∨ C.Refuses st.as st.mpu mpr false)

/-- The `size_t` value of `num_pages * PAGE_SIZE`. -/
def cpySize (C : VmpuCpu σ) (numPages : Nat) : Nat :=
  numPages * C.machine.pageSize % C.machine.wordCount

/-- The region that `mem_map_cpy` maps for the source entry `src`. -/
def cpyRegion (C : VmpuCpu σ) (ass : AddrSpace) (src : Mpid) (asdSection : AsSec)
    (numPages : Nat) : MpRegion :=
  { (ass.node src).region with asSec := asdSection, size := C.cpySize numPages }

/-- The guard of `mem_map_cpy` on its two address spaces and addresses. -/
def CpyEnters (C : VmpuCpu σ) (same : Bool) (vas vad : Nat) : Prop :=
  same = false ∧ (vad = C.machine.sizeMax ∨ vad = vas)

/-- Every address of the source range is mapped. -/
def SourceMapped (C : VmpuCpu σ) (ass : AddrSpace) (vas numPages : Nat) : Prop :=
  ∀ a, vas ≤ a → a < vas + numPages * C.machine.pageSize → ass.Mapped a

/-- An answer other than `INVALID_VA` is an address from which all pages are
mapped, in the destination and in the source; and it is `INVALID_VA` where the
source range is not mapped. -/
def CpySound (C : VmpuCpu σ) (ass asd : AddrSpace) (vas numPages va : Nat) : Prop :=
  (va ≠ C.machine.sizeMax → ∀ a, va ≤ a → a < va + numPages * C.machine.pageSize →
      asd.Mapped a ∧ ass.Mapped a) ∧
    (¬ C.SourceMapped ass vas numPages → va = C.machine.sizeMax)

/-- The call does not enter, or the entry found is too small, or its region is
not mapped, or it lies in the source with the rest in the destination. -/
def CpyFits (C : VmpuCpu σ) (ass : AddrSpace) (same : Bool) (st : VmpuState σ)
    (asdSection : AsSec) (vas vad numPages : Nat) : Prop :=
  C.CpyEnters same vas vad → ∃ src, ass.memVmpuGetEntryByAddr C.machine vas = some src ∧
    (C.cpySize numPages ≤ (ass.node src).region.size →
      C.MapAccepts st (C.cpyRegion ass src asdSection numPages) →
      C.SourceMapped ass vas numPages ∧
        ∀ a, vas ≤ a → a < vas + numPages * C.machine.pageSize → st.as.Mapped a ∨
          ((ass.node src).region.base ≤ a ∧ a < (ass.node src).region.base + C.cpySize numPages))

/-- The call does not enter, or it finds an entry that is too small or whose
region is not mapped. -/
def CpyDeclines (C : VmpuCpu σ) (ass : AddrSpace) (same : Bool) (st : VmpuState σ)
    (asdSection : AsSec) (vas vad numPages : Nat) : Prop :=
  C.CpyEnters same vas vad → ∃ src, ass.memVmpuGetEntryByAddr C.machine vas = some src ∧
    ((ass.node src).region.size < C.cpySize numPages ∨
      C.MapRejects st (C.cpyRegion ass src asdSection numPages))

variable {C : VmpuCpu σ} {st st' : VmpuState σ} {mpr : MpRegion} {broadcast locked ok same : Bool}
  {ass : AddrSpace} {asdSection : AsSec} {vas vad numPages : Nat}

/-- **Coalescing** changes no mapped address, whatever regions overlap. -/
theorem memVmpuCoalesceContiguous_mapped {fuel : Nat} (hlinked : st.as.Linked C.machine)
    (h : C.memVmpuCoalesceContiguous broadcast fuel st = some st') :
    st'.as.Linked C.machine ∧ ∀ a, st'.as.Mapped a ↔ st.as.Mapped a := by
  induction fuel generalizing st with
  | zero => cases h
  | succ fuel ih =>
      rw [memVmpuCoalesceContiguous] at h
      split at h
      · cases h
        exact ⟨hlinked, fun _ => Iff.rfl⟩
      · rename_i prev cur hfind
        obtain ⟨hcan, pre, post, hlist⟩ := findMerge_some hfind
        obtain ⟨⟨merged, st1⟩, hupdate, h⟩ := Option.bind_eq_some_iff.mp h
        dsimp only at h
        rcases memVmpuUpdateRegion_as hupdate with ⟨hno, has1⟩ | ⟨hyes, has1⟩
        · rw [hno, if_neg Bool.false_ne_true] at h
          have hlinked1 : st1.as.Linked C.machine := by
            rw [has1]
            exact hlinked
          obtain ⟨hlinked', hmapped⟩ := ih hlinked1 h
          refine ⟨hlinked', fun a => ?_⟩
          rw [hmapped, has1]
        · rw [hyes, if_pos rfl] at h
          obtain ⟨⟨removed, st2⟩, hremove, h⟩ := Option.bind_eq_some_iff.mp h
          have hprev : st.as.Valid prev := by
            apply (hlinked.listed prev).mp
            rw [hlist]
            simp
          have hcur : st.as.Valid cur := by
            apply (hlinked.listed cur).mp
            rw [hlist]
            simp
          have hne : prev ≠ cur := by
            have hnodup := hlinked.nodup
            rw [hlist] at hnodup
            have hrest := (List.nodup_append.mp hnodup).2.1
            intro heq
            exact (List.nodup_cons.mp hrest).1 (heq ▸ List.mem_cons_self)
          have hfitPrev := hlinked.fits prev hprev
          have hfitCur := hlinked.fits cur hcur
          have hmeets : st.as.limit prev = st.as.base cur := by
            simp only [canMerge, Bool.and_eq_true, decide_eq_true_eq] at hcan
            have hcontiguous := hcan.1.1
            exact (Nat.mod_eq_of_lt hfitPrev).symm.trans hcontiguous
          have hsum : (st.as.node prev).region.base +
              ((st.as.node prev).region.size + (st.as.node cur).region.size) =
                st.as.limit cur := by
            have h1 : (st.as.node prev).region.base + (st.as.node prev).region.size =
                st.as.limit prev := rfl
            have h2 : st.as.base cur + (st.as.node cur).region.size = st.as.limit cur := rfl
            omega
          have hmod : ((st.as.node prev).region.size + (st.as.node cur).region.size) %
              C.machine.wordCount =
                (st.as.node prev).region.size + (st.as.node cur).region.size := by
            apply Nat.mod_eq_of_lt
            omega
          have hcur1 : st1.as.Valid cur := by
            rw [has1, Valid, setNode_node_other _ _ (Ne.symm hne)]
            exact hcur
          obtain ⟨-, has2⟩ := memVmpuRemoveRegion_as hremove hcur1
          rw [has1] at has2
          obtain ⟨hlinked2, hmapped2⟩ := hlinked.merge
            { base := (st.as.node prev).region.base
              size := ((st.as.node prev).region.size + (st.as.node cur).region.size) %
                C.machine.wordCount
              memFlags := (st.as.node cur).region.memFlags
              asSec := .hypGlobal } hprev hcur hne hmeets rfl (by rw [hmod]; exact hsum)
            C.arch.pteInvalid
          rw [← has2] at hlinked2 hmapped2
          obtain ⟨hlinked', hmapped⟩ := ih hlinked2 h
          refine ⟨hlinked', fun a => ?_⟩
          rw [hmapped, hmapped2]

/-- **What is mapped after `mem_map`** of a region that does not wrap, whether
it meets other entries or not. -/
theorem memMap_mapped {fuel : Nat} (hlinked : st.as.Linked C.machine)
    (hfit : mpr.base + mpr.size < C.machine.wordCount)
    (h : C.memMap fuel st mpr broadcast locked = some (true, st')) :
    st'.as.Linked C.machine ∧ ∀ a, st'.as.Mapped a ↔
      st.as.Mapped a ∨ (mpr.base ≤ a ∧ a < mpr.base + mpr.size) := by
  rcases memMap_cases h with ⟨hsize, -, hst⟩ | ⟨-, hok, -⟩ |
    ⟨-, -, i, as1, st1, halloc, hinsert, hend⟩
  · rw [hst]
    refine ⟨hlinked, fun a => ?_⟩
    constructor
    · exact .inl
    · intro hmapped
      rcases hmapped with hmapped | hrange
      · exact hmapped
      · omega
  · cases hok
  · obtain ⟨hlinked1, hnot, hmapped1⟩ := hlinked.allocateEntry halloc
    rcases memVmpuInsertRegion_as hinsert with ⟨hok, -⟩ | ⟨-, has⟩
    · cases hok
    · dsimp only at has
      obtain ⟨hlinked2, hmapped2⟩ := hlinked1.setEntry hnot { mpr with
        memFlags := (C.arch.mpuMap st.mpu as1 mpr (memCheckForcedLocked mpr locked)).2.1 }
        (memCheckForcedLocked mpr locked) hfit
      rw [← has] at hlinked2 hmapped2
      have hafter : ∀ a, st1.as.Mapped a ↔
          st.as.Mapped a ∨ (mpr.base ≤ a ∧ a < mpr.base + mpr.size) := by
        intro a
        rw [hmapped2, hmapped1]
      split at hend
      · obtain ⟨hlinked3, hmapped3⟩ := memVmpuCoalesceContiguous_mapped hlinked2 hend
        refine ⟨hlinked3, fun a => ?_⟩
        rw [hmapped3, hafter]
      · rw [hend]
        exact ⟨hlinked2, hafter⟩

/-- The answer of a `mem_map` that returns. -/
theorem memMap_answer {fuel : Nat}
    (h : C.memMap fuel st mpr broadcast false = some (ok, st')) :
    ok = true ↔ C.MapAccepts st mpr := by
  rcases memMap_cases h with ⟨hsize, hok, -⟩ | ⟨⟨i, hfind⟩, hok, -⟩ |
    ⟨hsize, hfind, i, as1, st1, halloc, hinsert, -⟩
  · exact iff_of_true hok (.inl hsize)
  · have hnonempty : mpr.size ≠ 0 := by
      intro hzero
      rw [memMap, if_pos hzero] at h
      cases h
      cases hok
    apply iff_of_false
    · rw [hok]
      exact Bool.false_ne_true
    · intro haccepts
      rcases haccepts with hzero | ⟨hnone, -⟩
      · exact hnonempty hzero
      · rw [hfind] at hnone
        cases hnone
  · rcases memVmpuInsertRegion_cases hinsert with ⟨hanswer, hok, -⟩ | ⟨hanswer, hok, -⟩
    · apply iff_of_false
      · rw [hok]
        exact Bool.false_ne_true
      · intro haccepts
        rcases haccepts with hzero | ⟨-, hnot⟩
        · exact hsize hzero
        · exact hnot ⟨i, as1, halloc, hanswer⟩
    · apply iff_of_true hok
      refine .inr ⟨hfind, ?_⟩
      intro hrefuses
      obtain ⟨j, as2, halloc2, hno⟩ := hrefuses
      rw [halloc] at halloc2
      obtain ⟨rfl, rfl⟩ := Prod.mk.inj (Option.some.inj halloc2)
      rw [hno] at hanswer
      cases hanswer

theorem getEntryByAddr_some {M : Machine} {as : AddrSpace} {i : Mpid} {addr : Nat}
    (hword : (as.node i).region.size < M.wordCount)
    (h : as.memVmpuGetEntryByAddr M addr = some i) :
    (as.node i).region.base ≤ addr ∧ addr < M.sizeMax ∧
      (as.node i).region.base + (as.node i).region.size < M.wordCount := by
  have hsat := List.find?_some h
  simp only [decide_eq_true_eq] at hsat
  obtain ⟨-, hlow, hhigh⟩ := hsat
  have hpos : 0 < M.wordCount := Nat.two_pow_pos M.wordBits
  have hmod := Nat.mod_lt ((as.node i).region.base + (as.node i).region.size) hpos
  have hbase : (as.node i).region.base < M.wordCount :=
    Nat.lt_of_le_of_lt hlow (Nat.lt_trans hhigh hmod)
  have hfit : (as.node i).region.base + (as.node i).region.size < M.wordCount := by
    by_cases hwrap : (as.node i).region.base + (as.node i).region.size < M.wordCount
    · exact hwrap
    · have hsub : ((as.node i).region.base + (as.node i).region.size) % M.wordCount =
          (as.node i).region.base + (as.node i).region.size - M.wordCount := by
        rw [Nat.mod_eq_sub_mod (by omega), Nat.mod_eq_of_lt (by omega)]
      omega
  refine ⟨hlow, ?_, hfit⟩
  unfold Machine.sizeMax
  omega

/-- **What `mem_map_cpy` does.**  It answers `INVALID_VA` where it does not
enter; else it finds an entry, and answers `INVALID_VA` if that is too small or
its region is not mapped. -/
theorem memMapCpy_cases {fuel va : Nat}
    (h : C.memMapCpy fuel ass same st asdSection vas vad numPages = some (va, st')) :
    (¬ C.CpyEnters same vas vad ∧ va = C.machine.sizeMax) ∨
      (C.CpyEnters same vas vad ∧ ∃ src, ass.memVmpuGetEntryByAddr C.machine vas = some src ∧
        (((ass.node src).region.size < C.cpySize numPages ∧ va = C.machine.sizeMax) ∨
          (C.cpySize numPages ≤ (ass.node src).region.size ∧ ∃ broadcast mapped,
            C.memMap fuel st (C.cpyRegion ass src asdSection numPages) broadcast false =
              some (mapped, st') ∧ va = if mapped then vas else C.machine.sizeMax))) := by
  rw [memMapCpy] at h
  dsimp only at h
  by_cases henters : C.CpyEnters same vas vad
  · obtain ⟨hsame, hvad⟩ := henters
    refine .inr ⟨⟨hsame, hvad⟩, ?_⟩
    have hguard : (!same && (decide (vad = C.machine.sizeMax) || decide (vad = vas))) = true := by
      simp [hsame, hvad]
    rw [if_pos hguard] at h
    split at h
    · cases h
    · split at h
      · cases h
      · rename_i src hsrc
        refine ⟨src, hsrc, ?_⟩
        split at h
        · rename_i hsmall
          cases h
          exact .inl ⟨hsmall, rfl⟩
        · rename_i hlarge
          obtain ⟨⟨mapped, st1⟩, hmap, h⟩ := Option.bind_eq_some_iff.mp h
          cases h
          exact .inr ⟨Nat.le_of_not_lt hlarge, _, mapped, hmap, rfl⟩
  · have hguard : ¬ (!same && (decide (vad = C.machine.sizeMax) || decide (vad = vas))) = true := by
      intro hguard
      apply henters
      simpa [CpyEnters] using hguard
    rw [if_neg hguard] at h
    cases h
    exact .inl ⟨henters, rfl⟩

theorem cpySound_invalid {asd : AddrSpace} :
    C.CpySound ass asd vas numPages C.machine.sizeMax :=
  ⟨fun hne => absurd rfl hne, fun _ => rfl⟩

theorem memMapCpy_sound_iff_fits {fuel va : Nat} (hlinked : st.as.Linked C.machine)
    (hword : ∀ i, (ass.node i).region.size < C.machine.wordCount)
    (h : C.memMapCpy fuel ass same st asdSection vas vad numPages = some (va, st')) :
    C.CpySound ass st'.as vas numPages va ↔
      C.CpyFits ass same st asdSection vas vad numPages := by
  rcases memMapCpy_cases h with ⟨hnot, rfl⟩ | ⟨henters, src, hsrc, hcase⟩
  · exact iff_of_true cpySound_invalid fun henters => absurd henters hnot
  · obtain ⟨hlow, hvas, hfitSrc⟩ := getEntryByAddr_some (hword src) hsrc
    have hsame : ∀ src', ass.memVmpuGetEntryByAddr C.machine vas = some src' → src' = src := by
      intro src' hsrc'
      rw [hsrc] at hsrc'
      exact (Option.some.inj hsrc').symm
    rcases hcase with ⟨hsmall, rfl⟩ | ⟨hlarge, broadcast, mapped, hmap, hva⟩
    · apply iff_of_true cpySound_invalid
      intro _
      refine ⟨src, hsrc, ?_⟩
      intro hle
      exact absurd hle (Nat.not_le_of_lt hsmall)
    · have hanswer := memMap_answer hmap
      cases mapped with
      | false =>
          rw [hva, if_neg Bool.false_ne_true]
          apply iff_of_true cpySound_invalid
          intro _
          refine ⟨src, hsrc, ?_⟩
          intro _ haccepts
          exact absurd (hanswer.mpr haccepts) Bool.false_ne_true
      | true =>
          rw [if_pos rfl] at hva
          subst hva
          have hne : va ≠ C.machine.sizeMax := Nat.ne_of_lt hvas
          have hfit : (C.cpyRegion ass src asdSection numPages).base +
              (C.cpyRegion ass src asdSection numPages).size < C.machine.wordCount := by
            show (ass.node src).region.base + C.cpySize numPages < C.machine.wordCount
            omega
          obtain ⟨-, hmapped⟩ := memMap_mapped hlinked hfit hmap
          constructor
          · intro hsound _
            refine ⟨src, hsrc, ?_⟩
            intro _ _
            constructor
            · intro a ha ha'
              exact (hsound.1 hne a ha ha').2
            · intro a ha ha'
              exact (hmapped a).mp (hsound.1 hne a ha ha').1
          · intro hfits
            obtain ⟨src', hsrc', hkeeps⟩ := hfits henters
            rw [hsame src' hsrc'] at hkeeps
            obtain ⟨hsource, hdest⟩ := hkeeps hlarge (hanswer.mp rfl)
            constructor
            · intro _ a ha ha'
              exact ⟨(hmapped a).mpr (hdest a ha ha'), hsource a ha ha'⟩
            · intro hnot
              exact absurd hsource hnot

theorem memMap_rejects {fuel : Nat} (broadcast : Bool) (hlock : st.as.lock = false)
    (h : C.MapRejects st mpr) :
    ∃ st', C.memMap fuel st mpr broadcast false = some (false, st') := by
  obtain ⟨hsize, hgranularity, hreason⟩ := h
  rw [memMap, if_neg hsize, if_neg (fun hne => hne hgranularity), hlock,
    if_neg Bool.false_ne_true]
  cases hfind : memVmpuFindOverlappingRegion C.machine st.as mpr with
  | some i => exact ⟨st, rfl⟩
  | none =>
      rcases hreason with hfound | ⟨i, as1, halloc, hno⟩
      · exact absurd hfind hfound
      · simp only [halloc, Option.bind_eq_bind, Option.bind_some, memVmpuInsertRegion, hno,
          Bool.false_eq_true, if_false, Bool.false_and]
        exact ⟨_, rfl⟩

theorem rejects_of_memMap {fuel : Nat}
    (h : C.memMap fuel st mpr broadcast false = some (false, st')) : C.MapRejects st mpr := by
  have hsize : mpr.size ≠ 0 := by
    intro hzero
    rw [memMap, if_pos hzero] at h
    cases h
  have hgranularity : mpr.size % C.arch.mpuGranularity = 0 := by
    by_cases hzero : mpr.size % C.arch.mpuGranularity = 0
    · exact hzero
    · rw [memMap, if_neg hsize, if_pos hzero] at h
      cases h
  have hnot := (not_congr (memMap_answer h)).mp Bool.false_ne_true
  refine ⟨hsize, hgranularity, ?_⟩
  by_cases hfind : memVmpuFindOverlappingRegion C.machine st.as mpr = none
  · right
    apply Classical.byContradiction
    intro hrefuses
    exact hnot (.inr ⟨hfind, hrefuses⟩)
  · exact .inl hfind

/-- The calls that answer `INVALID_VA`. -/
theorem memMapCpy_declines_iff {fuel : Nat} (hsrcLock : ass.lock = false)
    (hlock : st.as.lock = false)
    (hword : ∀ i, (ass.node i).region.size < C.machine.wordCount) :
    (∃ st', C.memMapCpy fuel ass same st asdSection vas vad numPages =
      some (C.machine.sizeMax, st')) ↔ C.CpyDeclines ass same st asdSection vas vad numPages := by
  constructor
  · intro hcall henters
    obtain ⟨st', h⟩ := hcall
    rcases memMapCpy_cases h with ⟨hnot, -⟩ | ⟨-, src, hsrc, hcase⟩
    · exact absurd henters hnot
    · obtain ⟨-, hvas, -⟩ := getEntryByAddr_some (hword src) hsrc
      refine ⟨src, hsrc, ?_⟩
      rcases hcase with ⟨hsmall, -⟩ | ⟨-, broadcast, mapped, hmap, hva⟩
      · exact .inl hsmall
      · right
        cases mapped with
        | false => exact rejects_of_memMap hmap
        | true =>
            rw [if_pos rfl] at hva
            omega
  · intro hdeclines
    rw [memMapCpy]
    dsimp only
    by_cases henters : C.CpyEnters same vas vad
    · obtain ⟨src, hsrc, hreason⟩ := hdeclines henters
      obtain ⟨hsame, hvad⟩ := henters
      have hguard : (!same && (decide (vad = C.machine.sizeMax) || decide (vad = vas))) =
          true := by
        simp [hsame, hvad]
      rw [if_pos hguard, hsrcLock, if_neg Bool.false_ne_true, hsrc]
      dsimp only
      by_cases hsmall : numPages * C.machine.pageSize % C.machine.wordCount >
          (ass.node src).region.size
      · rw [if_pos hsmall]
        exact ⟨st, rfl⟩
      · rw [if_neg hsmall]
        obtain ⟨st', hmap⟩ := memMap_rejects (memBroadcast st.as
          (C.cpyRegion ass src asdSection numPages) true) hlock (hreason.resolve_left hsmall)
        refine ⟨st', ?_⟩
        show (C.memMap fuel st (C.cpyRegion ass src asdSection numPages)
            (memBroadcast st.as (C.cpyRegion ass src asdSection numPages) true) false).bind _ = _
        rw [hmap]
        rfl
    · have hguard : ¬ (!same && (decide (vad = C.machine.sizeMax) || decide (vad = vas))) =
          true := by
        intro hguard
        apply henters
        simpa [CpyEnters] using hguard
      rw [if_neg hguard]
      exact ⟨st, rfl⟩

/-- **Copies.**  A call that returns keeps its promise if and only if the
address does not lie in an entry whose region would be mapped with a part of the
promised range left out; and a source range that is not mapped is answered
`INVALID_VA` if and only if the call does not come to a missing entry or to an
entry that it maps in spite of it. -/
theorem memMapCpy_sound_iff (hlinked : st.as.Linked C.machine) (hsrcLock : ass.lock = false)
    (hlock : st.as.lock = false)
    (hword : ∀ i, (ass.node i).region.size < C.machine.wordCount) :
    (∀ fuel va st', C.memMapCpy fuel ass same st asdSection vas vad numPages = some (va, st') →
      (C.CpySound ass st'.as vas numPages va ↔
        C.CpyFits ass same st asdSection vas vad numPages)) ∧
    ∀ fuel, (¬ C.SourceMapped ass vas numPages →
        ∃ st', C.memMapCpy fuel ass same st asdSection vas vad numPages =
          some (C.machine.sizeMax, st')) ↔
      C.SourceMapped ass vas numPages ∨
        C.CpyDeclines ass same st asdSection vas vad numPages := by
  constructor
  · intro fuel va st' h
    exact memMapCpy_sound_iff_fits hlinked hword h
  · intro fuel
    rw [memMapCpy_declines_iff hsrcLock hlock hword]
    exact or_iff_not_imp_left.symm

/-! ## A region of four pages -/

/-- An address space with a region of four pages at 0x10000. -/
def fourPageSpace : AddrSpace :=
  noRegions.memVmpuSetEntry 0 ⟨0x10000, 0x4000, 1, .hypGlobal⟩ false

/-- An address space with no region. -/
def emptySpace : VmpuState Unit := ⟨noRegions, (), 0, []⟩

theorem fourPageSpace_words (i : Mpid) :
    (fourPageSpace.node i).region.size < openCpu.machine.wordCount := by
  by_cases hi : i = 0
  · rw [hi]
    decide
  · rw [fourPageSpace, memVmpuSetEntry_node, setNode_node_other _ _ hi]
    exact Nat.two_pow_pos 64

/-- Copying the first two pages. -/
theorem memMapCpy_sound_iff_twoPages :
    (∀ fuel va st', openCpu.memMapCpy fuel fourPageSpace false emptySpace .hypGlobal 0x10000
        0x10000 2 = some (va, st') →
      (openCpu.CpySound fourPageSpace st'.as 0x10000 2 va ↔
        openCpu.CpyFits fourPageSpace false emptySpace .hypGlobal 0x10000 0x10000 2)) ∧
    ∀ fuel, (¬ openCpu.SourceMapped fourPageSpace 0x10000 2 →
        ∃ st', openCpu.memMapCpy fuel fourPageSpace false emptySpace .hypGlobal 0x10000 0x10000 2 =
          some (openCpu.machine.sizeMax, st')) ↔
      openCpu.SourceMapped fourPageSpace 0x10000 2 ∨
        openCpu.CpyDeclines fourPageSpace false emptySpace .hypGlobal 0x10000 0x10000 2 :=
  memMapCpy_sound_iff noRegions_wf.linked rfl rfl fourPageSpace_words

/-- **The third and the fourth page** are mapped in the source, but a copy of
them maps the first two and answers the address of the third; and a copy of a
page that is not mapped goes through a missing entry. -/
theorem memMapCpy_not_sound :
    (∃ st', openCpu.memMapCpy 1 fourPageSpace false emptySpace .hypGlobal 0x12000 0x12000 2 =
        some (0x12000, st') ∧ ¬ st'.as.Mapped 0x12000 ∧
      ¬ openCpu.CpySound fourPageSpace st'.as 0x12000 2 0x12000) ∧
    ¬ openCpu.SourceMapped fourPageSpace 0x20000 1 ∧
    ∀ fuel, openCpu.memMapCpy fuel fourPageSpace false emptySpace .hypGlobal 0x20000 0x20000 1 =
      none := by
  refine ⟨?_, ?_, fun fuel => rfl⟩
  · have hrun : (openCpu.memMapCpy 1 fourPageSpace false emptySpace .hypGlobal 0x12000 0x12000
        2).map (fun r => (r.1, decide (∃ i, (r.2.as.node i).state = .valid ∧
          (r.2.as.node i).region.base ≤ 0x12000 ∧
            0x12000 < (r.2.as.node i).region.base + (r.2.as.node i).region.size))) =
        some (0x12000, false) := by
      decide +kernel
    obtain ⟨⟨va, st'⟩, hcall, hvalues⟩ := Option.map_eq_some_iff.mp hrun
    obtain ⟨rfl, hnone⟩ := Prod.mk.inj hvalues
    have hnot := of_decide_eq_false hnone
    have hunmapped : ¬ st'.as.Mapped 0x12000 := hnot
    refine ⟨st', hcall, hunmapped, ?_⟩
    intro hsound
    exact hunmapped (hsound.1 (by decide) 0x12000 (Nat.le_refl _) (by decide)).1
  · intro hsource
    have hunmapped : ¬ fourPageSpace.Mapped 0x20000 := by
      have hnone : ¬ ∃ i : Mpid, (fourPageSpace.node i).state = .valid ∧
          (fourPageSpace.node i).region.base ≤ 0x20000 ∧
            0x20000 < (fourPageSpace.node i).region.base + (fourPageSpace.node i).region.size := by
        decide +kernel
      exact hnone
    exact hunmapped (hsource 0x20000 (Nat.le_refl _) (by decide))

end VmpuCpu

end Bao

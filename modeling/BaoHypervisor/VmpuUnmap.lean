import BaoHypervisor.VmpuSystem

/-!
# When unmapping a range is exact

`mem_unmap_range` looks for an entry that overlaps the range, but the search
tests whether an entry contains it.  So the loop cuts one entry, which leaves
nothing of the range, or it finds none and changes nothing.  Unmapping is
exact if and only if the range is empty, meets no entry, or lies in one whose
attributes the rests keep.
-/

namespace Bao

open RangeList AddrSpace

variable {M : Machine}

/-- What an entry says about its addresses. -/
structure MpeAttrs where
  memFlags : Nat
  asSec : AsSec
  lock : Bool
deriving DecidableEq, Repr

namespace AddrSpace

variable {as as' : AddrSpace} {i j : Mpid} {mpr : MpRegion}

/-- The attributes of entry `i`. -/
def attrs (as : AddrSpace) (i : Mpid) : MpeAttrs :=
  ⟨(as.node i).region.memFlags, (as.node i).region.asSec, (as.node i).lock⟩

/-- The attributes that a rest of entry `i` gets, where `norm` is what the MPU
does to flags. -/
def restAttrs (as : AddrSpace) (norm : AsType → Nat → Nat) (i : Mpid) : MpeAttrs :=
  ⟨norm as.type (as.node i).region.memFlags, (as.node i).region.asSec,
    memCheckForcedLocked (as.node i).region (as.node i).lock⟩

/-- Address `a` is mapped with the attributes. -/
def Maps (as : AddrSpace) (a : Nat) (t : MpeAttrs) : Prop :=
  ∃ i, as.Valid i ∧ as.Covers i a ∧ as.attrs i = t

/-- Entry `i` is in state `MPE_S_FREE`. -/
def Free (as : AddrSpace) (i : Mpid) : Prop := (as.node i).state = .free

theorem memVmpuAllocateEntry_of_free (h : as.Free j) :
    ∃ i as', as.memVmpuAllocateEntry = some (i, as') ∧ as'.type = as.type := by
  rw [memVmpuAllocateEntry]
  cases hfind : (List.finRange vmpuNumEntries).find? (fun i => (as.node i).state = .free) with
  | none =>
      have hnone := List.find?_eq_none.mp hfind j (List.mem_finRange j)
      have hstate : (as.node j).state = .free := h
      exact absurd (decide_eq_true hstate) hnone
  | some i => exact ⟨i, _, rfl, rfl⟩

theorem maps_allocate (h : as.memVmpuAllocateEntry = some (i, as')) {a : Nat} {t : MpeAttrs} :
    as'.Maps a t ↔ as.Maps a t := by
  constructor
  · intro hmaps
    obtain ⟨j, hj, hcov, hattrs⟩ := hmaps
    obtain ⟨hvalid, hnode⟩ := allocateEntry_node h hj
    refine ⟨j, hvalid, ?_, ?_⟩
    · simpa only [Covers, limit, base, hnode] using hcov
    · simpa only [attrs, hnode] using hattrs
  · intro hmaps
    obtain ⟨j, hj, hcov, hattrs⟩ := hmaps
    obtain ⟨hfree, rfl⟩ := memVmpuAllocateEntry_some h
    have hji : j ≠ i := by
      intro heq
      rw [heq, Valid, hfree] at hj
      cases hj
    have hnode := setNode_node_other as { as.node i with state := .invalid } hji
    refine ⟨j, ?_, ?_, ?_⟩
    · simpa only [Valid, hnode] using hj
    · simpa only [Covers, limit, base, hnode] using hcov
    · simpa only [attrs, hnode] using hattrs

theorem maps_setEntry {lock : Bool} (hi : ¬ as.Valid i) {a : Nat} {t : MpeAttrs} :
    (as.memVmpuSetEntry i mpr lock).Maps a t ↔
      as.Maps a t ∨
        (mpr.base ≤ a ∧ a < mpr.base + mpr.size ∧ t = ⟨mpr.memFlags, mpr.asSec, lock⟩) := by
  have hsame : (as.memVmpuSetEntry i mpr lock).node i = ⟨.valid, lock, mpr⟩ :=
    setNode_node_same as i _
  have hother : ∀ j, j ≠ i → (as.memVmpuSetEntry i mpr lock).node j = as.node j :=
    fun j hj => setNode_node_other as _ hj
  constructor
  · intro hmaps
    obtain ⟨j, hj, hcov, hattrs⟩ := hmaps
    by_cases hji : j = i
    · subst hji
      simp only [Covers, limit, base, attrs, hsame] at hcov hattrs
      exact .inr ⟨hcov.1, hcov.2, hattrs.symm⟩
    · simp only [Valid, Covers, limit, base, attrs, hother j hji] at hj hcov hattrs
      exact .inl ⟨j, hj, hcov, hattrs⟩
  · intro hmaps
    rcases hmaps with ⟨j, hj, hcov, hattrs⟩ | ⟨hlow, hhigh, rfl⟩
    · have hji : j ≠ i := fun heq => hi (heq ▸ hj)
      refine ⟨j, ?_, ?_, ?_⟩
      · simpa only [Valid, hother j hji] using hj
      · simpa only [Covers, limit, base, hother j hji] using hcov
      · simpa only [attrs, hother j hji] using hattrs
    · refine ⟨i, ?_, ?_, ?_⟩
      · rw [Valid, hsame]
      · simp only [Covers, limit, base, hsame]
        exact ⟨hlow, hhigh⟩
      · simp only [attrs, hsame]

theorem maps_freeEntry (hwf : as.Wf M) (pteInvalid : Nat) (hi : as.Valid i) {a : Nat}
    {t : MpeAttrs} :
    (as.memVmpuFreeEntry pteInvalid i).Maps a t ↔ as.Maps a t ∧ ¬ as.Covers i a := by
  constructor
  · intro hmaps
    obtain ⟨j, hj, hcov, hattrs⟩ := hmaps
    obtain ⟨hvalid, hji⟩ := memVmpuFreeEntry_valid.mp hj
    simp only [Covers, limit, base, attrs, memVmpuFreeEntry_node_other as hji] at hcov hattrs
    exact ⟨⟨j, hvalid, hcov, hattrs⟩, fun hcovi => hji (hwf.covers_unique hvalid hi hcov hcovi)⟩
  · intro hmaps
    obtain ⟨⟨j, hj, hcov, hattrs⟩, hnot⟩ := hmaps
    have hji : j ≠ i := fun heq => hnot (heq ▸ hcov)
    refine ⟨j, memVmpuFreeEntry_valid.mpr ⟨hj, hji⟩, ?_, ?_⟩
    · simpa only [Covers, limit, base, memVmpuFreeEntry_node_other as hji] using hcov
    · simpa only [attrs, memVmpuFreeEntry_node_other as hji] using hattrs

end AddrSpace

namespace VmpuCpu

variable {σ : Type} {C : VmpuCpu σ} {st st' : VmpuState σ} {mpr : MpRegion}
  {broadcast locked ok : Bool}

/-- `mpu_map` always succeeds, and leaves in a region the flags that `norm`
gives for the type of the address space. -/
def MapsAll (C : VmpuCpu σ) (norm : AsType → Nat → Nat) : Prop :=
  ∀ mpu as mpr lock, (C.arch.mpuMap mpu as mpr lock).1 = true ∧
    (C.arch.mpuMap mpu as mpr lock).2.1 = norm as.type mpr.memFlags

/-- There are shared regions for `n` more broadcasts, or nothing is broadcast. -/
def Room (C : VmpuCpu σ) (st : VmpuState σ) (broadcast : Bool) (n : Nat) : Prop :=
  broadcast = false ∨ ((st.as.type = .hyp ∨ C.vcpuVmCpus ≠ none) ∧
    st.shared + n * C.cpuNum ≤ C.sharedRegionPoolSize)

theorem broadcastRegion_returns {n : Nat} {op : MemEvent} (hroom : C.Room st broadcast (n + 1)) :
    ∃ st1, C.broadcastRegion st mpr op broadcast locked = some st1 ∧ st1.as = st.as ∧
      C.Room st1 broadcast n := by
  rw [broadcastRegion]
  by_cases hsend : memBroadcast st.as mpr broadcast = true
  · rw [if_pos hsend]
    have hbroadcast : broadcast = true := by
      cases broadcast with
      | true => rfl
      | false =>
          rw [memBroadcast] at hsend
          split at hsend <;> cases hsend
    rcases hroom with hquiet | ⟨htype, hpool⟩
    · rw [hbroadcast] at hquiet
      cases hquiet
    · have hcpus : ∃ cpus, C.memSectionSharedCpus st.as mpr.asSec = some cpus := by
        rw [memSectionSharedCpus]
        by_cases hhyp : st.as.type = .hyp
        · rw [if_pos hhyp]
          split
          · exact ⟨_, rfl⟩
          · split <;> exact ⟨_, rfl⟩
        · rw [if_neg hhyp]
          exact Option.ne_none_iff_exists'.mp (htype.resolve_left hhyp)
      obtain ⟨cpus, hcpus⟩ := hcpus
      have hlen : ((List.range C.cpuNum).filter fun c => c ≠ C.id ∧ cpus.testBit c).length ≤
          C.cpuNum := by
        have hle := List.length_filter_le (fun c => decide (c ≠ C.id ∧ cpus.testBit c))
          (List.range C.cpuNum)
        rwa [List.length_range] at hle
      have hsum : (n + 1) * C.cpuNum = n * C.cpuNum + C.cpuNum := Nat.succ_mul n C.cpuNum
      simp only [memRegionBroadcast, hcpus]
      rw [if_pos (by omega)]
      exact ⟨_, rfl, rfl, .inr ⟨htype, by dsimp only; omega⟩⟩
  · rw [if_neg hsend]
    refine ⟨st, rfl, rfl, ?_⟩
    rcases hroom with hquiet | ⟨htype, hpool⟩
    · exact .inl hquiet
    · have hsum : (n + 1) * C.cpuNum = n * C.cpuNum + C.cpuNum := Nat.succ_mul n C.cpuNum
      exact .inr ⟨htype, by omega⟩

/-- A rest that is put back maps its addresses and nothing else, and fails
never. -/
theorem insertRest_maps {norm : AsType → Nat → Nat} (hmap : C.MapsAll norm)
    (h : C.insertRest st mpr broadcast locked = some (ok, st')) :
    ok = true ∧ st'.as.type = st.as.type ∧ ∀ a t, st'.as.Maps a t ↔
      st.as.Maps a t ∨ (mpr.base ≤ a ∧ a < mpr.base + mpr.size ∧
        t = ⟨norm st.as.type mpr.memFlags, mpr.asSec, memCheckForcedLocked mpr locked⟩) := by
  rw [insertRest] at h
  split at h
  · obtain ⟨⟨i, as1⟩, halloc, h⟩ := Option.bind_eq_some_iff.mp h
    obtain ⟨hfree, has1⟩ := memVmpuAllocateEntry_some halloc
    have htype : as1.type = st.as.type := by rw [has1]; rfl
    have hnot : ¬ as1.Valid i := by
      rw [has1, Valid, setNode_node_same]
      intro hinvalid
      cases hinvalid
    obtain ⟨hyes, hflags⟩ := hmap st.mpu as1 mpr (memCheckForcedLocked mpr locked)
    rcases memVmpuInsertRegion_cases h with ⟨hno, -, -⟩ | ⟨-, hok, hsend⟩
    · exact absurd (hyes.symm.trans hno) (by decide)
    · have has := (broadcastRegion_as hsend).1
      dsimp only at has
      rw [hflags, htype] at has
      refine ⟨hok, by rw [has]; exact htype, fun a t => ?_⟩
      rw [has, maps_setEntry hnot, maps_allocate halloc]
  · rename_i hempty
    obtain ⟨rfl, rfl⟩ := Prod.mk.inj (Option.some.inj h)
    refine ⟨rfl, rfl, fun a t => ?_⟩
    constructor
    · exact .inl
    · intro hmaps
      rcases hmaps with hold | ⟨hlow, hhigh, -⟩
      · exact hold
      · omega

/-- **What splitting maps**: the addresses outside the entry as before, those
of the entry outside the range with the attributes of the rests. -/
theorem unmapEntry_maps {norm : AsType → Nat → Nat} {i : Mpid} {vaddr size : Nat}
    {overlap : Option Nat} (hmap : C.MapsAll norm) (hwf : st.as.Wf C.machine)
    (hfit : vaddr + size < C.machine.wordCount)
    (hi : Contains st.as i ⟨vaddr, size, 0, .unknown⟩)
    (h : C.unmapEntry st i vaddr size broadcast = some (overlap, st')) :
    overlap = some size ∧ ∀ a t, st'.as.Maps a t ↔
      (st.as.Maps a t ∧ ¬ st.as.Covers i a) ∨
        (st.as.Covers i a ∧ (a < vaddr ∨ vaddr + size ≤ a) ∧ t = st.as.restAttrs norm i) := by
  obtain ⟨removed, okTop, st1, st2, hremove, htop, hend⟩ := unmapEntry_cases hwf hfit hi h
  obtain ⟨hvalid, hlow, hhigh⟩ := hi
  dsimp only at hlow hhigh
  have has1 := (memVmpuRemoveRegion_as hremove hvalid).2
  have htype1 : st1.as.type = st.as.type := by rw [has1]; rfl
  obtain ⟨hokTop, htype2, hmaps2⟩ := insertRest_maps hmap htop
  rcases hend with ⟨hno, -, -⟩ | ⟨-, okBottom, hbottom, hoverlap⟩
  · exact absurd (hokTop.symm.trans hno) (by decide)
  · obtain ⟨hokBottom, -, hmaps3⟩ := insertRest_maps hmap hbottom
    rw [hokBottom] at hoverlap
    refine ⟨hoverlap, fun a t => ?_⟩
    have hrest : ∀ b s, memCheckForcedLocked
        { (st.as.node i).region with base := b, size := s } (st.as.node i).lock =
          memCheckForcedLocked (st.as.node i).region (st.as.node i).lock := fun _ _ => rfl
    have hbase : (st.as.node i).region.base = st.as.base i := rfl
    rw [hmaps3, hmaps2, htype2, htype1, has1, maps_freeEntry hwf _ hvalid]
    simp only [hrest, hbase, Covers, restAttrs]
    constructor
    · intro hold
      rcases hold with (hold | ⟨h1, h2, rfl⟩) | ⟨h1, h2, rfl⟩
      · exact .inl hold
      · exact .inr ⟨⟨by omega, by omega⟩, .inr h1, rfl⟩
      · exact .inr ⟨⟨by omega, by omega⟩, .inl (by omega), rfl⟩
    · intro hnew
      rcases hnew with hold | ⟨⟨h1, h2⟩, hbelow | habove, rfl⟩
      · exact .inl (.inl hold)
      · exact .inr ⟨h1, by omega, rfl⟩
      · exact .inl (.inr ⟨habove, by omega, rfl⟩)

/-- **Unmapping is exact**: the addresses mapped afterwards are those mapped
before outside the range, with the same attributes, and the answer says
whether all of the range was mapped. -/
def UnmapExact (as as' : AddrSpace) (vaddr size : Nat) (ok : Bool) : Prop :=
  (∀ a t, as'.Maps a t ↔ as.Maps a t ∧ ¬ (vaddr ≤ a ∧ a < vaddr + size)) ∧
    (ok = true ↔ ∀ a, vaddr ≤ a → a < vaddr + size → ∃ t, as.Maps a t)

/-- The range is empty, meets no entry, or lies in one that has no rest or
whose rests keep its attributes. -/
def UnmapFits (norm : AsType → Nat → Nat) (as : AddrSpace) (vaddr size : Nat) : Prop :=
  size = 0 ∨ MeetsNone as ⟨vaddr, size, 0, .unknown⟩ ∨
    ∃ i, Contains as i ⟨vaddr, size, 0, .unknown⟩ ∧
      ((as.base i = vaddr ∧ as.limit i = vaddr + size) ∨ as.restAttrs norm i = as.attrs i)

theorem maps_of_covers {as : AddrSpace} {M : Machine} {i : Mpid} {a : Nat} {t : MpeAttrs}
    (hwf : as.Wf M) (hvalid : as.Valid i) (hcov : as.Covers i a) :
    as.Maps a t ↔ t = as.attrs i := by
  constructor
  · intro hmaps
    obtain ⟨j, hj, hcovj, hattrs⟩ := hmaps
    have hji := hwf.covers_unique hj hvalid hcovj hcov
    rw [← hattrs, hji]
  · intro hattrs
    exact ⟨i, hvalid, hcov, hattrs.symm⟩

/-- A call that finds no entry for a range is exact if and only if the range
meets none. -/
theorem unmapExact_of_unfound {as : AddrSpace} {vaddr size : Nat} (hwf : as.Wf C.machine)
    (hpos : 0 < size) :
    UnmapExact as as vaddr size false ↔ MeetsNone as ⟨vaddr, size, 0, .unknown⟩ := by
  constructor
  · intro hexact i hvalid
    dsimp only
    by_contra hmeets
    have hne := hwf.nonempty i hvalid
    have hcov : as.Covers i (max vaddr (as.base i)) := ⟨by omega, by omega⟩
    have hmaps := (maps_of_covers hwf hvalid hcov).mpr rfl
    obtain ⟨-, hout⟩ := (hexact.1 _ _).mp hmaps
    exact hout ⟨by omega, by omega⟩
  · intro hmeets
    refine ⟨fun a t => ⟨fun hmaps => ⟨hmaps, ?_⟩, fun hmaps => hmaps.1⟩, ?_⟩
    · intro hin
      obtain ⟨i, hvalid, hcov, -⟩ := hmaps
      have hapart := hmeets i hvalid
      obtain ⟨hlow, hhigh⟩ := hcov
      dsimp only at hapart
      omega
    · refine iff_of_false Bool.false_ne_true fun hall => ?_
      obtain ⟨t, i, hvalid, ⟨hlow, hhigh⟩, -⟩ := hall vaddr (Nat.le_refl _) (by omega)
      have hapart := hmeets i hvalid
      dsimp only at hapart
      omega

/-- A call that cuts the entry that contains the range is exact if and only if
nothing is left of the entry or the rests keep its attributes. -/
theorem unmapExact_of_cut {norm : AsType → Nat → Nat} {as as' : AddrSpace} {i : Mpid}
    {vaddr size : Nat} (hwf : as.Wf C.machine) (hi : Contains as i ⟨vaddr, size, 0, .unknown⟩)
    (hmaps : ∀ a t, as'.Maps a t ↔ (as.Maps a t ∧ ¬ as.Covers i a) ∨
      (as.Covers i a ∧ (a < vaddr ∨ vaddr + size ≤ a) ∧ t = as.restAttrs norm i)) :
    UnmapExact as as' vaddr size true ↔
      (as.base i = vaddr ∧ as.limit i = vaddr + size) ∨ as.restAttrs norm i = as.attrs i := by
  obtain ⟨hvalid, hlow, hhigh⟩ := hi
  dsimp only at hlow hhigh
  constructor
  · intro hexact
    by_cases hwhole : as.base i = vaddr ∧ as.limit i = vaddr + size
    · exact .inl hwhole
    · right
      -- an address of the entry below the range, or else one above it
      have hleft : ∃ a, as.Covers i a ∧ (a < vaddr ∨ vaddr + size ≤ a) := by
        by_cases hbelow : as.base i < vaddr
        · exact ⟨as.base i, ⟨Nat.le_refl _, hwf.nonempty i hvalid⟩, .inl hbelow⟩
        · exact ⟨vaddr + size, ⟨by omega, by omega⟩, .inr (Nat.le_refl _)⟩
      obtain ⟨a, hcov, hout⟩ := hleft
      have hafter := (hmaps a _).mpr (.inr ⟨hcov, hout, rfl⟩)
      exact (maps_of_covers hwf hvalid hcov).mp ((hexact.1 a _).mp hafter).1
  · intro hkept
    refine ⟨fun a t => ?_, iff_of_true rfl fun a ha ha' => ?_⟩
    · rw [hmaps]
      by_cases hcov : as.Covers i a
      · have hattrs := @maps_of_covers as _ i a t hwf hvalid hcov
        obtain ⟨h1, h2⟩ := hcov
        rcases hkept with ⟨hb, hl⟩ | hsame
        · constructor
          · intro hnew
            rcases hnew with ⟨-, hnot⟩ | ⟨-, hout, -⟩
            · exact absurd ⟨h1, h2⟩ hnot
            · omega
          · intro hold
            exact absurd ⟨by omega, by omega⟩ hold.2
        · rw [hattrs, hsame]
          constructor
          · intro hnew
            rcases hnew with ⟨-, hnot⟩ | ⟨-, hout, ht⟩
            · exact absurd ⟨h1, h2⟩ hnot
            · exact ⟨ht, by omega⟩
          · intro hold
            obtain ⟨ht, hnot⟩ := hold
            exact .inr ⟨⟨h1, h2⟩, by omega, ht⟩
      · constructor
        · intro hnew
          rcases hnew with ⟨hold, -⟩ | ⟨hin, -⟩
          · exact ⟨hold, fun hrange => hcov ⟨by omega, by omega⟩⟩
          · exact absurd hin hcov
        · intro hold
          exact .inl ⟨hold.1, hcov⟩
    · exact ⟨_, (maps_of_covers hwf hvalid ⟨by omega, by omega⟩).mpr rfl⟩

/-- Where the MPU maps everything, inserting a region returns with room for its
broadcast. -/
theorem memVmpuInsertRegion_returns {norm : AsType → Nat → Nat} {i : Mpid} {n : Nat}
    (hmap : C.MapsAll norm) (hroom : C.Room st broadcast (n + 1)) :
    ∃ st', C.memVmpuInsertRegion st i mpr broadcast locked = some (true, st') ∧
      C.Room st' broadcast n ∧ ∀ j, j ≠ i → st'.as.node j = st.as.node j := by
  obtain ⟨hyes, -⟩ := hmap st.mpu st.as mpr (memCheckForcedLocked mpr locked)
  rw [memVmpuInsertRegion]
  dsimp only
  rw [if_pos hyes]
  generalize (C.arch.mpuMap st.mpu st.as mpr (memCheckForcedLocked mpr locked)).2 = answer
  generalize memCheckForcedLocked mpr locked = lock
  have hroom1 : C.Room ⟨st.as.memVmpuSetEntry i { mpr with memFlags := answer.1 } lock,
      answer.2, st.shared, st.sent⟩ broadcast (n + 1) := hroom
  obtain ⟨st1, hsend, has, hroom2⟩ := @broadcastRegion_returns _ C _
    { mpr with memFlags := answer.1 } broadcast lock n .insert hroom1
  refine ⟨st1, by rw [hsend]; rfl, hroom2, fun j hj => ?_⟩
  rw [has]
  exact setNode_node_other _ _ hj

/-- With a free entry and room for its broadcast, a rest is put back; it takes
one free entry at most. -/
theorem insertRest_returns {norm : AsType → Nat → Nat} {n : Nat} (hmap : C.MapsAll norm)
    (hroom : C.Room st broadcast (n + 1)) (hfree : ∃ j, st.as.Free j) :
    ∃ st', C.insertRest st mpr broadcast locked = some (true, st') ∧ C.Room st' broadcast n ∧
      ∀ j k, j ≠ k → st.as.Free j → st.as.Free k → ∃ l, st'.as.Free l := by
  rw [insertRest]
  by_cases hsize : 0 < mpr.size
  · rw [if_pos hsize]
    obtain ⟨j, hj⟩ := hfree
    obtain ⟨i, as1, halloc, htype⟩ := memVmpuAllocateEntry_of_free hj
    obtain ⟨-, has1⟩ := memVmpuAllocateEntry_some halloc
    have hroom1 : C.Room { st with as := as1 } broadcast (n + 1) := by
      rw [Room]
      dsimp only
      rw [htype]
      exact hroom
    obtain ⟨st1, hinsert, hroom2, hothers⟩ :=
      @memVmpuInsertRegion_returns _ C _ mpr broadcast locked norm i n hmap hroom1
    rw [halloc]
    refine ⟨st1, hinsert, hroom2, fun j k hjk hfreej hfreek => ?_⟩
    have hkeep : ∀ l, l ≠ i → st.as.Free l → st1.as.Free l := by
      intro l hl hfreel
      rw [Free, hothers l hl]
      dsimp only
      rw [has1, setNode_node_other _ _ hl]
      exact hfreel
    by_cases hji : j = i
    · have hki : k ≠ i := fun heq => hjk (hji.trans heq.symm)
      exact ⟨k, hkeep k hki hfreek⟩
    · exact ⟨j, hkeep j hji hfreej⟩
  · rw [if_neg hsize]
    refine ⟨st, rfl, ?_, fun j _ _ hfreej _ => ⟨j, hfreej⟩⟩
    have hsum : (n + 1) * C.cpuNum = n * C.cpuNum + C.cpuNum := Nat.succ_mul n C.cpuNum
    rcases hroom with hquiet | ⟨hcpus, hpool⟩
    · exact .inl hquiet
    · exact .inr ⟨hcpus, by omega⟩

/-- Removing a valid entry returns with room for its broadcast, and the entry
is free afterwards. -/
theorem memVmpuRemoveRegion_returns {i : Mpid} {n : Nat} (hvalid : st.as.Valid i)
    (hroom : C.Room st broadcast (n + 1)) :
    ∃ st', C.memVmpuRemoveRegion st i broadcast = some (true, st') ∧ C.Room st' broadcast n ∧
      st'.as.Free i ∧ ∀ j, st.as.Free j → j ≠ i ∧ st'.as.Free j := by
  obtain ⟨st1, hsend, has, hroom1⟩ := @broadcastRegion_returns _ C st (st.as.node i).region
    broadcast (st.as.node i).lock n .remove hroom
  have hstate : (st.as.node i).state = .valid := hvalid
  simp only [memVmpuRemoveRegion, if_pos hstate, hsend, Option.bind_eq_bind, Option.bind_some]
  refine ⟨_, rfl, hroom1, memVmpuFreeEntry_node_same _ _ _, fun j hj => ?_⟩
  have hji : j ≠ i := by
    intro heq
    rw [heq, Free, hstate] at hj
    cases hj
  refine ⟨hji, ?_⟩
  dsimp only
  rw [Free, memVmpuFreeEntry_node_other _ hji, has]
  exact hj

theorem unmapEntry_returns {norm : AsType → Nat → Nat} {i : Mpid} {vaddr size : Nat}
    (hmap : C.MapsAll norm) (hvalid : st.as.Valid i) (hfree : ∃ j, st.as.Free j)
    (hroom : C.Room st broadcast 3) :
    ∃ answer, C.unmapEntry st i vaddr size broadcast = some answer := by
  obtain ⟨j, hj⟩ := hfree
  obtain ⟨st1, hremove, hroom1, hi1, hfree1⟩ := memVmpuRemoveRegion_returns hvalid hroom
  obtain ⟨hji, hj1⟩ := hfree1 j hj
  rw [unmapEntry]
  simp only [hremove, Option.bind_eq_bind, Option.bind_some]
  obtain ⟨st2, htop, hroom2, hfree2⟩ := @insertRest_returns _ C st1
    { (st.as.node i).region with
      base := (vaddr + size) % C.machine.wordCount
      size := if ((st.as.node i).region.base + (st.as.node i).region.size) % C.machine.wordCount ≤
          (vaddr + size) % C.machine.wordCount then 0
        else ((st.as.node i).region.base + (st.as.node i).region.size) % C.machine.wordCount -
          (vaddr + size) % C.machine.wordCount }
    broadcast (st.as.node i).lock norm 1 hmap hroom1 ⟨j, hj1⟩
  obtain ⟨st3, hbottom, -, -⟩ := @insertRest_returns _ C st2
    { (st.as.node i).region with
      size := if vaddr ≤ (st.as.node i).region.base then 0
        else vaddr - (st.as.node i).region.base }
    broadcast (st.as.node i).lock norm 0 hmap hroom2 (hfree2 j i hji hj1 hi1)
  simp only [htop, Option.bind_some, if_true, hbottom]
  exact ⟨_, rfl⟩

theorem memUnmapRange_returns {norm : AsType → Nat → Nat} {vaddr size fuel : Nat}
    (hmap : C.MapsAll norm) (hwf : st.as.Wf C.machine) (hlock : st.as.lock = false)
    (hfit : vaddr + size < C.machine.wordCount) (hfree : ∃ j, st.as.Free j)
    (hroom : C.Room st broadcast 3) :
    ∃ answer, C.memUnmapRange (fuel + 2) st vaddr size broadcast = some answer := by
  rw [memUnmapRange, hlock, if_neg Bool.false_ne_true, unmapLoop]
  split
  · exact ⟨_, rfl⟩
  · split
    · exact ⟨_, rfl⟩
    · rename_i i hfind
      have hi := find_some hwf hfit hfind
      obtain ⟨⟨overlap, st1⟩, hentry⟩ :=
        @unmapEntry_returns _ C st broadcast norm i vaddr size hmap hi.1 hfree hroom
      obtain ⟨hoverlap, -⟩ := unmapEntry_maps hmap hwf hfit hi hentry
      have hzero : C.sub size size = 0 := by
        rw [sub, Nat.add_sub_cancel_left, Nat.mod_self]
      simp only [hentry, hoverlap, hzero, unmapLoop, if_true]
      exact ⟨_, rfl⟩

/-- **Exact unmapping.**  Where the MPU accepts every region and an entry is
free, unmapping a range is exact if and only if the range is empty, meets no
entry, or lies in one whose rests keep its attributes; and it returns where
the broadcasts find shared regions. -/
theorem memUnmapRange_exact_iff {norm : AsType → Nat → Nat} {vaddr size : Nat}
    (hmap : C.MapsAll norm) (hwf : st.as.Wf C.machine) (hlock : st.as.lock = false)
    (hfit : vaddr + size < C.machine.wordCount) (hfree : ∃ j, st.as.Free j) :
    (∀ fuel ok st', C.memUnmapRange fuel st vaddr size broadcast = some (ok, st') →
      (UnmapExact st.as st'.as vaddr size ok ↔ UnmapFits norm st.as vaddr size)) ∧
    (C.Room st broadcast 3 → ∀ fuel, ∃ answer,
      C.memUnmapRange (fuel + 2) st vaddr size broadcast = some answer) := by
  refine ⟨fun fuel ok st' h => ?_,
    fun hroom fuel => memUnmapRange_returns hmap hwf hlock hfit hfree hroom⟩
  rcases memUnmapRange_cases hwf hfit h with ⟨rfl, ⟨hzero, hok⟩ | ⟨hpos, hok, hnone⟩⟩ |
    ⟨i, overlap, st1, hpos, hfind, hentry, hend⟩
  · refine iff_of_true ⟨fun a t => ?_, ?_⟩ (.inl hzero)
    · rw [and_iff_left]
      omega
    · exact iff_of_true hok fun a ha ha' => by omega
  · rw [hok, unmapExact_of_unfound hwf hpos]
    constructor
    · exact fun hmeets => .inr (.inl hmeets)
    · intro hfits
      rcases hfits with hz | hmeets | ⟨i, hi, -⟩
      · omega
      · exact hmeets
      · exact absurd hi (find_none hwf hfit hnone i)
  · have hi := find_some hwf hfit hfind
    obtain ⟨hoverlap, hmaps⟩ := unmapEntry_maps hmap hwf hfit hi hentry
    rcases hend with ⟨hnone, -, -⟩ | ⟨-, hok, rfl⟩
    · rw [hnone] at hoverlap
      cases hoverlap
    · rw [hok, unmapExact_of_cut hwf hi hmaps]
      constructor
      · exact fun hkept => .inr (.inr ⟨i, hi, hkept⟩)
      · intro hfits
        obtain ⟨hvalid, hlow, hhigh⟩ := hi
        dsimp only at hlow hhigh
        rcases hfits with hz | hmeets | ⟨j, ⟨hj, hjlow, hjhigh⟩, hkept⟩
        · omega
        · have hapart := hmeets i hvalid
          have hne := hwf.nonempty i hvalid
          dsimp only at hapart
          omega
        · dsimp only at hjlow hjhigh
          have hji := hwf.covers_unique hj hvalid (a := vaddr) ⟨hjlow, by omega⟩
            ⟨hlow, by omega⟩
          rwa [hji] at hkept

theorem openCpu_mapsAll : openCpu.MapsAll fun _ flags => flags := fun _ _ _ _ => ⟨rfl, rfl⟩

theorem noRegions_wf : noRegions.Wf openCpu.machine := by
  have hwf := asInit_wf openCpu.machine 0 noRegions .hyp 0
  rwa [asInit_eq] at hwf

/-- Unmapping the only page. -/
theorem memUnmapRange_exact_iff_onePage :
    (∀ fuel ok st', openCpu.memUnmapRange fuel (onePageHeap.view 0) 0 4096 true = some (ok, st') →
      (UnmapExact (onePageHeap.view 0).as st'.as 0 4096 ok ↔
        UnmapFits (fun _ flags => flags) (onePageHeap.view 0).as 0 4096)) ∧
    (openCpu.Room (onePageHeap.view 0) true 3 → ∀ fuel, ∃ answer,
      openCpu.memUnmapRange (fuel + 2) (onePageHeap.view 0) 0 4096 true = some answer) :=
  memUnmapRange_exact_iff openCpu_mapsAll
    (vmpuStep_wf (fun _ => noRegions_wf) (lowPages_fits 1 (by decide)) onePage_mapped 0)
    rfl (by decide) ⟨1, rfl⟩

/-- Two adjacent pages in entries of their own, the second read-only. -/
def twoRegions : VmpuState Unit where
  as := (noRegions.memVmpuSetEntry 0 ⟨0, 4096, 1, .hypGlobal⟩ false).memVmpuSetEntry 1
    ⟨4096, 4096, 2, .hypGlobal⟩ false
  mpu := ()
  shared := 0
  sent := []

theorem twoRegions_wf : twoRegions.as.Wf openCpu.machine := by
  have hone : (noRegions.memVmpuSetEntry 0 ⟨0, 4096, 1, .hypGlobal⟩ false).Wf openCpu.machine := by
    apply noRegions_wf.setEntry
    · intro hvalid
      cases hvalid
    · decide
    · decide
    · intro j hj
      cases hj
  apply hone.setEntry
  · intro hvalid
    cases hvalid
  · decide
  · decide
  · intro j hj
    by_cases hj0 : j = 0
    · right
      rw [hj0]
      decide
    · rw [Valid, memVmpuSetEntry_node, setNode_node_other _ _ hj0] at hj
      cases hj

/-- **A range over two entries** stays mapped: no entry contains it, so the
call changes nothing and answers that it was not mapped. -/
theorem twoRegions_not_unmapped :
    twoRegions.as.Wf openCpu.machine ∧ openCpu.MapsAll (fun _ flags => flags) ∧
      (∃ j, twoRegions.as.Free j) ∧
      openCpu.memUnmapRange 2 twoRegions 0 8192 true = some (false, twoRegions) ∧
      ¬ UnmapExact twoRegions.as twoRegions.as 0 8192 false := by
  refine ⟨twoRegions_wf, openCpu_mapsAll, ⟨2, rfl⟩, rfl, fun hexact => ?_⟩
  have hmapped : twoRegions.as.Maps 0 ⟨1, .hypGlobal, false⟩ :=
    ⟨0, rfl, ⟨Nat.le_refl 0, by decide⟩, rfl⟩
  have hout := ((hexact.1 _ _).mp hmapped).2
  exact hout ⟨Nat.le_refl 0, by decide⟩

end VmpuCpu

end Bao

import BaoHypervisor.VmpuSystem
import BaoHypervisor.Rh850Mpu

/-!
# A mapping that the MPU refuses

`mem_map` takes a free entry before it asks the MPU, and `mem_unmap_range`
removes the entry that it splits before it puts the two parts back.  If
`mpu_map` refuses, `mem_map` answers false and keeps the entry: neither free nor
valid, it is lost.  `mem_unmap_range` returns from within its loop and keeps the
lock.  On every other exit nothing is lost: a failed `mem_map` changes nothing,
and both release the lock.
-/

namespace Bao

open AddrSpace

namespace VmpuCpu

variable {σ : Type}

/-- `mpu_map` refuses a region for which the first free entry was taken. -/
def Refuses (C : VmpuCpu σ) (as : AddrSpace) (mpu : σ) (mpr : MpRegion) (locked : Bool) : Prop :=
  ∃ i as1, as.memVmpuAllocateEntry = some (i, as1) ∧
    (C.arch.mpuMap mpu as1 mpr (memCheckForcedLocked mpr locked)).1 = false

/-- `mem_map` comes to ask the MPU, and the MPU refuses. -/
def MapRefused (C : VmpuCpu σ) (st : VmpuState σ) (mpr : MpRegion) (locked : Bool) : Prop :=
  mpr.size ≠ 0 ∧ memVmpuFindOverlappingRegion C.machine st.as mpr = none ∧
    C.Refuses st.as st.mpu mpr locked

/-- A failed call changed neither the vMPU nor the MPU, and the lock is free. -/
def MapUndone (st st' : VmpuState σ) (ok : Bool) : Prop :=
  (ok = false → st'.as = st.as ∧ st'.mpu = st.mpu) ∧ st'.as.lock = false

/-- `top` of `mem_unmap_range`: what a region has above the range. -/
def topPart (C : VmpuCpu σ) (reg : MpRegion) (vaddr size : Nat) : MpRegion :=
  let limit := (vaddr + size) % C.machine.wordCount
  let rLimit := (reg.base + reg.size) % C.machine.wordCount
  { reg with base := limit, size := if rLimit ≤ limit then 0 else rLimit - limit }

/-- `bottom` of `mem_unmap_range`: what a region has below the range. -/
def bottomPart (reg : MpRegion) (vaddr : Nat) : MpRegion :=
  { reg with size := if vaddr ≤ reg.base then 0 else vaddr - reg.base }

/-- The MPU refuses a part that is not empty. -/
def PartRefused (C : VmpuCpu σ) (as : AddrSpace) (mpu : σ) (part : MpRegion) (locked : Bool) :
    Prop :=
  0 < part.size ∧ C.Refuses as mpu part locked

/-- The vMPU and the MPU once a part is put back. -/
def withPart (C : VmpuCpu σ) (as : AddrSpace) (mpu : σ) (part : MpRegion) (locked : Bool) :
    AddrSpace × σ :=
  if 0 < part.size then
    match as.memVmpuAllocateEntry with
    | none => (as, mpu)
    | some (i, as1) =>
        let lock := memCheckForcedLocked part locked
        let answer := C.arch.mpuMap mpu as1 part lock
        (as1.memVmpuSetEntry i { part with memFlags := answer.2.1 } lock, answer.2.2)
  else (as, mpu)

/-- With entry `i` removed, the MPU refuses neither of its parts. -/
def PartsAccepted (C : VmpuCpu σ) (st : VmpuState σ) (i : Mpid) (vaddr size : Nat) : Prop :=
  let reg := (st.as.node i).region
  let locked := (st.as.node i).lock
  let as := st.as.memVmpuFreeEntry C.arch.pteInvalid i
  let mpu := (C.arch.mpuUnmap st.mpu st.as reg).2
  let after := C.withPart as mpu (C.topPart reg vaddr size) locked
  ¬ C.PartRefused as mpu (C.topPart reg vaddr size) locked ∧
    ¬ C.PartRefused after.1 after.2 (bottomPart reg vaddr) locked

/-- From a turn of its loop with `left` bytes to go, `mem_unmap_range` comes to
another turn. -/
inductive UnmapTurn (C : VmpuCpu σ) (vaddr size : Nat) (broadcast : Bool) :
    VmpuState σ → Nat → VmpuState σ → Nat → Prop
  | here {st : VmpuState σ} {left : Nat} : UnmapTurn C vaddr size broadcast st left st left
  | next {st st1 st2 : VmpuState σ} {left left2 overlap : Nat} {i : Mpid} (hleft : left ≠ 0)
      (hfind : memVmpuFindOverlappingRegion C.machine st.as ⟨vaddr, size, 0, .unknown⟩ = some i)
      (hentry : C.unmapEntry st i vaddr size broadcast = some (some overlap, st1))
      (hrest : UnmapTurn C vaddr size broadcast st1 (C.sub left overlap) st2 left2) :
      UnmapTurn C vaddr size broadcast st left st2 left2

/-- In every turn from here on, the entry to split has parts that the MPU
accepts. -/
def UnmapAccepted (C : VmpuCpu σ) (st : VmpuState σ) (vaddr size left : Nat) (broadcast : Bool) :
    Prop :=
  ∀ st1 left1 i, UnmapTurn C vaddr size broadcast st left st1 left1 → left1 ≠ 0 →
    memVmpuFindOverlappingRegion C.machine st1.as ⟨vaddr, size, 0, .unknown⟩ = some i →
    C.PartsAccepted st1 i vaddr size

variable {C : VmpuCpu σ} {st st' : VmpuState σ} {mpr : MpRegion} {broadcast locked ok : Bool}

/-- A removed entry leaves the lock, the vMPU and the MPU as the two functions
below it do. -/
theorem memVmpuRemoveRegion_state {i : Mpid} (hvalid : st.as.Valid i)
    (h : C.memVmpuRemoveRegion st i broadcast = some (ok, st')) :
    st'.as = st.as.memVmpuFreeEntry C.arch.pteInvalid i ∧
      st'.mpu = (C.arch.mpuUnmap st.mpu st.as (st.as.node i).region).2 := by
  rw [memVmpuRemoveRegion] at h
  dsimp only at h
  have hstate : (st.as.node i).state = .valid := hvalid
  rw [if_pos hstate] at h
  obtain ⟨st1, hsend, hst⟩ := Option.bind_eq_some_iff.mp h
  obtain ⟨-, rfl⟩ := Prod.mk.inj (Option.some.inj hst)
  obtain ⟨has, hmpu⟩ := broadcastRegion_as hsend
  rw [has, hmpu]
  exact ⟨rfl, rfl⟩

theorem memVmpuRemoveRegion_lock {i : Mpid}
    (h : C.memVmpuRemoveRegion st i broadcast = some (ok, st')) : st'.as.lock = st.as.lock := by
  by_cases hvalid : st.as.Valid i
  · rw [(memVmpuRemoveRegion_state hvalid h).1]
    rfl
  · rw [memVmpuRemoveRegion] at h
    dsimp only at h
    have hstate : ¬ (st.as.node i).state = .valid := hvalid
    rw [if_neg hstate] at h
    cases h
    rfl

theorem memVmpuInsertRegion_lock {i : Mpid}
    (h : C.memVmpuInsertRegion st i mpr broadcast locked = some (ok, st')) :
    st'.as.lock = st.as.lock := by
  rcases memVmpuInsertRegion_as h with ⟨-, has⟩ | ⟨-, has⟩
  · rw [has]
  · rw [has]
    rfl

theorem memVmpuUpdateRegion_lock {i : Mpid}
    (h : C.memVmpuUpdateRegion st i mpr broadcast locked = some (ok, st')) :
    st'.as.lock = st.as.lock := by
  rcases memVmpuUpdateRegion_as h with ⟨-, has⟩ | ⟨-, has⟩
  · rw [has]
  · rw [has]
    rfl

theorem memVmpuCoalesceContiguous_lock {fuel : Nat}
    (h : C.memVmpuCoalesceContiguous broadcast fuel st = some st') :
    st'.as.lock = st.as.lock := by
  induction fuel generalizing st with
  | zero => cases h
  | succ fuel ih =>
      rw [memVmpuCoalesceContiguous] at h
      split at h
      · cases h
        rfl
      · obtain ⟨⟨merged, st1⟩, hupdate, h⟩ := Option.bind_eq_some_iff.mp h
        have hlock1 := memVmpuUpdateRegion_lock hupdate
        dsimp only at h
        split at h
        · obtain ⟨⟨removed, st2⟩, hremove, h⟩ := Option.bind_eq_some_iff.mp h
          have hlock2 := memVmpuRemoveRegion_lock hremove
          rw [ih h, hlock2, hlock1]
        · rw [ih h, hlock1]

theorem allocate_ne {as as1 : AddrSpace} {i : Mpid}
    (h : as.memVmpuAllocateEntry = some (i, as1)) : as1 ≠ as := by
  obtain ⟨hfree, has1⟩ := memVmpuAllocateEntry_some h
  intro heq
  have hstate : (as1.node i).state = .invalid := by
    rw [has1, setNode_node_same]
  rw [heq, hfree] at hstate
  cases hstate

/-- `mem_map` fails without a trace, or keeps the entry that it took. -/
theorem memMap_undone_iff {fuel : Nat} (hlock : st.as.lock = false)
    (h : C.memMap fuel st mpr broadcast locked = some (ok, st')) :
    MapUndone st st' ok ↔ ¬ C.MapRefused st mpr locked := by
  rcases memMap_cases h with ⟨hsize, hok, rfl⟩ | ⟨⟨i, hfind⟩, -, rfl⟩ |
    ⟨hsize, hfind, i, as1, st1, halloc, hinsert, hend⟩
  · apply iff_of_true
    · exact ⟨fun _ => ⟨rfl, rfl⟩, hlock⟩
    · intro hrefused
      exact hrefused.1 hsize
  · apply iff_of_true
    · exact ⟨fun _ => ⟨rfl, rfl⟩, hlock⟩
    · intro hrefused
      have hnone := hrefused.2.1
      rw [hfind] at hnone
      cases hnone
  · have hlock1 : st1.as.lock = false := by
      rw [memVmpuInsertRegion_lock hinsert]
      dsimp only
      rw [(memVmpuAllocateEntry_some halloc).2]
      exact hlock
    rcases memVmpuInsertRegion_cases hinsert with ⟨hanswer, hok, hst1⟩ | ⟨hanswer, hok, -⟩
    · apply iff_of_false
      · intro hundone
        have hsame := (hundone.1 hok).1
        rw [hok] at hend
        simp only [Bool.false_and, Bool.false_eq_true, if_false] at hend
        rw [hend, hst1] at hsame
        exact allocate_ne halloc hsame
      · intro hnot
        exact hnot ⟨hsize, hfind, i, as1, halloc, hanswer⟩
    · apply iff_of_true
      · constructor
        · intro hno
          rw [hok] at hno
          cases hno
        · split at hend
          · rw [memVmpuCoalesceContiguous_lock hend, hlock1]
          · rw [hend, hlock1]
      · intro hrefused
        obtain ⟨-, -, j, as2, halloc2, hno⟩ := hrefused
        rw [halloc] at halloc2
        obtain ⟨rfl, rfl⟩ := Prod.mk.inj (Option.some.inj halloc2)
        rw [hno] at hanswer
        cases hanswer

/-- **Putting back a part** fails where the MPU refuses it. -/
theorem insertRest_part {part : MpRegion}
    (h : C.insertRest st part broadcast locked = some (ok, st')) :
    (ok = true ↔ ¬ C.PartRefused st.as st.mpu part locked) ∧ st'.as.lock = st.as.lock ∧
      (ok = true → (st'.as, st'.mpu) = C.withPart st.as st.mpu part locked) := by
  rw [insertRest] at h
  by_cases hsize : 0 < part.size
  · rw [if_pos hsize] at h
    obtain ⟨⟨i, as1⟩, halloc, h⟩ := Option.bind_eq_some_iff.mp h
    have hlock : st'.as.lock = st.as.lock := by
      rw [memVmpuInsertRegion_lock h]
      dsimp only
      rw [(memVmpuAllocateEntry_some halloc).2]
      rfl
    rcases memVmpuInsertRegion_cases h with ⟨hanswer, hok, -⟩ | ⟨hanswer, hok, hsend⟩
    · refine ⟨?_, hlock, ?_⟩
      · apply iff_of_false
        · rw [hok]
          exact Bool.false_ne_true
        · intro hnot
          exact hnot ⟨hsize, i, as1, halloc, hanswer⟩
      · intro hyes
        rw [hok] at hyes
        cases hyes
    · refine ⟨?_, hlock, ?_⟩
      · apply iff_of_true hok
        intro hrefused
        obtain ⟨-, j, as2, halloc2, hno⟩ := hrefused
        rw [halloc] at halloc2
        obtain ⟨rfl, rfl⟩ := Prod.mk.inj (Option.some.inj halloc2)
        dsimp only at hanswer
        rw [hno] at hanswer
        cases hanswer
      · intro _
        obtain ⟨has, hmpu⟩ := broadcastRegion_as hsend
        simp only [withPart, if_pos hsize, halloc, has, hmpu]
  · rw [if_neg hsize] at h
    cases h
    refine ⟨?_, rfl, ?_⟩
    · apply iff_of_true rfl
      intro hrefused
      exact hsize hrefused.1
    · intro _
      rw [withPart, if_neg hsize]

/-- **Splitting an entry** comes to its end where the MPU accepts its parts. -/
theorem unmapEntry_parts {i : Mpid} {vaddr size : Nat} {overlap : Option Nat}
    (hvalid : st.as.Valid i) (h : C.unmapEntry st i vaddr size broadcast = some (overlap, st')) :
    (overlap ≠ none ↔ C.PartsAccepted st i vaddr size) ∧ st'.as.lock = st.as.lock := by
  rw [unmapEntry] at h
  dsimp only at h
  obtain ⟨⟨removed, st1⟩, hremove, h⟩ := Option.bind_eq_some_iff.mp h
  obtain ⟨⟨okTop, st2⟩, htop, h⟩ := Option.bind_eq_some_iff.mp h
  obtain ⟨has1, hmpu1⟩ := memVmpuRemoveRegion_state hvalid hremove
  have hlock1 := memVmpuRemoveRegion_lock hremove
  obtain ⟨htopIff, hlock2, hwith⟩ := insertRest_part htop
  rw [has1, hmpu1] at htopIff hwith
  dsimp only at h
  split at h
  · rename_i hokTop
    obtain ⟨⟨okBottom, st3⟩, hbottom, h⟩ := Option.bind_eq_some_iff.mp h
    obtain ⟨hbottomIff, hlock3, -⟩ := insertRest_part hbottom
    obtain ⟨has2, hmpu2⟩ := Prod.mk.inj (hwith hokTop)
    rw [has2, hmpu2] at hbottomIff
    have hparts : C.PartsAccepted st i vaddr size ↔ okBottom = true := by
      rw [hbottomIff]
      exact and_iff_right (htopIff.mp hokTop)
    rw [hparts]
    dsimp only at h
    split at h
    · rename_i hokBottom
      cases h
      exact ⟨iff_of_true (Option.some_ne_none _) hokBottom, by rw [hlock3, hlock2, hlock1]⟩
    · rename_i hokBottom
      cases h
      exact ⟨iff_of_false (fun hne => hne rfl) hokBottom, by rw [hlock3, hlock2, hlock1]⟩
  · rename_i hokTop
    cases h
    refine ⟨iff_of_false (fun hne => hne rfl) ?_, by rw [hlock2, hlock1]⟩
    intro hparts
    exact hokTop (htopIff.mpr hparts.1)

theorem find_valid {M : Machine} {as : AddrSpace} {i : Mpid}
    (h : memVmpuFindOverlappingRegion M as mpr = some i) : as.Valid i := by
  have hsat := List.find?_some h
  simp only [decide_eq_true_eq] at hsat
  exact hsat.1

/-- **A run of the loop** releases the lock where the MPU accepts the parts in
every turn, and only there. -/
theorem unmapLoop_released_iff {vaddr size left fuel : Nat} (hlock : st.as.lock = false)
    (h : C.unmapLoop vaddr size broadcast fuel st left = some (ok, st')) :
    st'.as.lock = false ↔ C.UnmapAccepted st vaddr size left broadcast := by
  induction fuel generalizing st left with
  | zero => cases h
  | succ fuel ih =>
      rw [unmapLoop] at h
      split at h
      · rename_i hzero
        cases h
        apply iff_of_true hlock
        intro st1 left1 i hturn hleft1 _
        cases hturn with
        | here => exact absurd hzero hleft1
        | next hleft => exact absurd hzero hleft
      · rename_i hleft
        split at h
        · rename_i hnone
          cases h
          apply iff_of_true hlock
          intro st1 left1 i hturn _ hfind
          cases hturn with
          | here =>
              rw [hnone] at hfind
              cases hfind
          | next _ hfind1 =>
              rw [hnone] at hfind1
              cases hfind1
        · rename_i i hfind
          have hvalid := find_valid hfind
          split at h
          · cases h
          · rename_i st1 hentry
            obtain ⟨hparts, -⟩ := unmapEntry_parts hvalid hentry
            cases h
            apply iff_of_false
            · intro hheld
              cases hheld
            · intro haccepted
              exact hparts.mpr (haccepted st left i .here hleft hfind) rfl
          · rename_i overlap st1 hentry
            obtain ⟨hparts, hlock1⟩ := unmapEntry_parts hvalid hentry
            have hok := hparts.mp (Option.some_ne_none _)
            rw [ih (hlock1.trans hlock) h]
            constructor
            · intro haccepted st2 left2 j hturn hleft2 hfind2
              cases hturn with
              | here =>
                  rw [hfind] at hfind2
                  cases hfind2
                  exact hok
              | next _ hfind1 hentry1 hrest =>
                  rw [hfind] at hfind1
                  cases hfind1
                  rw [hentry] at hentry1
                  cases hentry1
                  exact haccepted st2 left2 j hrest hleft2 hfind2
            · intro haccepted st2 left2 j hturn hleft2 hfind2
              exact haccepted st2 left2 j (.next hleft hfind hentry hturn) hleft2 hfind2

/-- A CPU with an RH850 MPU. -/
def rh850Cpu : VmpuCpu Rh850Mpu where
  machine := Machine.mpu32
  arch := rh850Arch
  cpuNum := 1
  sharedRegionPoolSize := 128
  id := 0
  vcpuVmCpus := none

/-- Three pages with `PTE_HYP_FLAGS`. -/
def threePages (k : Nat) : MpRegion := ⟨0x10000 * (k + 1), 192, 0x8080009B, .hypGlobal⟩

/-- The empty vMPU over an MPU of four entries. -/
def fourEntriesFree : VmpuState Rh850Mpu where
  as := noRegions
  mpu := ⟨fun _ => false, fun _ => ⟨0, 0, 0⟩, 3⟩
  shared := 0
  sent := []

/-- Map a number of regions that do not touch. -/
def mapped : Nat → Option (VmpuState Rh850Mpu)
  | 0 => some fourEntriesFree
  | n + 1 => do
      let st ← mapped n
      let (_, st) ← rh850Cpu.memMap 1 st (threePages n) false false
      some st

end VmpuCpu

end Bao

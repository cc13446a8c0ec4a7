import BaoHypervisor.Armv8rMpu
import BaoHypervisor.PageAlloc
import BaoHypervisor.VmpuCopy
import BaoHypervisor.VmpuMerges

/-!
# Whether `mem_alloc_map` reports failure

On the MPU build `mem_alloc_map` and `mem_alloc_map_dev` call `mem_map` and answer
the address they were going to map, whatever `mem_map` answered.  So an answer is
worth what the caller knows beforehand: it is right if and only if the region meets
no entry, the MPU accepts it, the range ends inside the address space, and the
merges that follow leave the region its permissions.  What the MPU of a CPU holds is
a view of its state that follows its answers.
-/

namespace Bao

open AddrSpace VmpuCpu

/-- What an MPU holds for each address space, by the bases of the regions: a true
answer registers a region, extends it or takes it away, a false one changes
nothing.  `perms` is the part of the flags that `mpu_map` leaves as it is. -/
structure MpuView {σ : Type} (A : MpuArch σ) where
  registered : σ → Nat → Nat → Option (Nat × Nat)
  perms : Nat → Nat
  flags : ∀ mpu as mpr lock, perms (A.mpuMap mpu as mpr lock).2.1 = perms mpr.memFlags
  map : ∀ mpu as mpr lock asid base, registered (A.mpuMap mpu as mpr lock).2.2 asid base =
    if (A.mpuMap mpu as mpr lock).1 = true ∧ asid = as.id ∧ base = mpr.base then
      some (mpr.size, (A.mpuMap mpu as mpr lock).2.1)
    else registered mpu asid base
  update : ∀ mpu as mpr asid base, registered (A.mpuUpdate mpu as mpr).2 asid base =
    if (A.mpuUpdate mpu as mpr).1 = true ∧ asid = as.id ∧ base = mpr.base then
      some (mpr.size, mpr.memFlags)
    else registered mpu asid base
  unmap : ∀ mpu as mpr asid base, registered (A.mpuUnmap mpu as mpr).2 asid base =
    if (A.mpuUnmap mpu as mpr).1 = true ∧ asid = as.id ∧ base = mpr.base then none
    else registered mpu asid base

/-- An MPU beside a record of what it accepted. -/
def MpuArch.recorded {σ : Type} (A : MpuArch σ) :
    MpuArch (σ × (Nat → Nat → Option (Nat × Nat))) where
  pteInvalid := A.pteInvalid
  mpuGranularity := A.mpuGranularity
  mpuPermsCompatible := A.mpuPermsCompatible
  mpuMap := fun s as mpr lock =>
    let answer := A.mpuMap s.1 as mpr lock
    (answer.1, answer.2.1, answer.2.2, fun asid base =>
      if answer.1 = true ∧ asid = as.id ∧ base = mpr.base then some (mpr.size, answer.2.1)
      else s.2 asid base)
  mpuUpdate := fun s as mpr =>
    let answer := A.mpuUpdate s.1 as mpr
    (answer.1, answer.2, fun asid base =>
      if answer.1 = true ∧ asid = as.id ∧ base = mpr.base then some (mpr.size, mpr.memFlags)
      else s.2 asid base)
  mpuUnmap := fun s as mpr =>
    let answer := A.mpuUnmap s.1 as mpr
    (answer.1, answer.2, fun asid base =>
      if answer.1 = true ∧ asid = as.id ∧ base = mpr.base then none else s.2 asid base)

/-- **Every MPU has a view**, by such a record. -/
def MpuArch.recordedView {σ : Type} (A : MpuArch σ) (perms : Nat → Nat)
    (hflags : ∀ mpu as mpr lock, perms (A.mpuMap mpu as mpr lock).2.1 = perms mpr.memFlags) :
    MpuView A.recorded where
  registered := fun s => s.2
  perms := perms
  flags := fun s as mpr lock => hflags s.1 as mpr lock
  map := fun _ _ _ _ _ _ => rfl
  update := fun _ _ _ _ _ => rfl
  unmap := fun _ _ _ _ _ => rfl

namespace VmpuCpu

variable {σ : Type} (C : VmpuCpu σ)

/-- The region that `mem_alloc_map` maps. -/
def allocRegion (section_ : AsSec) (base numPages flags : Nat) : MpRegion where
  base := base
  size := numPages * C.machine.pageSize % C.machine.wordCount
  memFlags := flags
  asSec := section_

/-- `mem_alloc_map` of the MPU build. -/
def memAllocMap (fuel : Nat) (st : VmpuState σ) (section_ : AsSec) (ppages : Option Ppages)
    (at_ numPages flags : Nat) : Option (Nat × VmpuState σ) :=
  let invalidVa := C.machine.sizeMax
  match ppages with
  | none =>
      if at_ = invalidVa then none
      else do
        let ppages := memPpagesGet at_ numPages
        let (_, st) ← C.memMap fuel st (C.allocRegion section_ ppages.base numPages flags) true false
        some (at_, st)
  | some ppages =>
      if at_ ≠ invalidVa ∧ at_ ≠ ppages.base then none
      else do
        let at_ := if at_ = invalidVa then ppages.base else at_
        let (_, st) ← C.memMap fuel st (C.allocRegion section_ ppages.base numPages flags) true false
        some (at_, st)

/-- `mem_alloc_map_dev` of the MPU build, with the `PTE_HYP_DEV_FLAGS` and
`PTE_VM_DEV_FLAGS` of the architecture. -/
def memAllocMapDev (pteHypDevFlags pteVmDevFlags fuel : Nat) (st : VmpuState σ)
    (section_ : AsSec) (at_ pa numPages : Nat) : Option (Nat × VmpuState σ) :=
  C.memAllocMap fuel st section_ (some (memPpagesGet pa numPages)) at_ numPages
    (if st.as.type = .hyp then pteHypDevFlags else pteVmDevFlags)

/-- Every entry is registered in the MPU. -/
def InStep (V : MpuView C.arch) (st : VmpuState σ) : Prop :=
  ∀ i, st.as.Valid i → V.registered st.mpu st.as.id (st.as.base i) =
    some ((st.as.node i).region.size, (st.as.node i).region.memFlags)

/-- The address `a` is mapped with permissions in the vMPU, where
`mem_vmpu_get_entry_by_addr` looks for it, and the entry is registered in the MPU. -/
def MappedBoth (V : MpuView C.arch) (st : VmpuState σ) (flags a : Nat) : Prop :=
  ∃ i, st.as.Valid i ∧ st.as.base i ≤ a ∧ a < st.as.limit i % C.machine.wordCount ∧
    V.perms (st.as.node i).region.memFlags = V.perms flags ∧
    V.registered st.mpu st.as.id (st.as.base i) =
      some ((st.as.node i).region.size, (st.as.node i).region.memFlags)

/-- A valid entry and a range of addresses share one. -/
def Overlaps (as : AddrSpace) (base size : Nat) : Prop :=
  ∃ i, as.Valid i ∧ ∃ a, as.Covers i a ∧ base ≤ a ∧ a < base + size

/-- **What an answer promises**: an address from which all pages are mapped with the
flags asked for, and `INVALID_VA` where the range meets an entry or `mem_map`
fails. -/
def AllocReported (V : MpuView C.arch) (fuel : Nat) (st st' : VmpuState σ) (section_ : AsSec)
    (numPages flags va : Nat) : Prop :=
  (va ≠ C.machine.sizeMax → ∀ a, va ≤ a → a < va + numPages * C.machine.pageSize →
      C.MappedBoth V st' flags a) ∧
    (Overlaps st.as va (numPages * C.machine.pageSize) ∨
        C.memMap fuel st (C.allocRegion section_ va numPages flags) true false = some (false, st') →
      va = C.machine.sizeMax)

/-- The table after `mem_map` set the entry and before it merges. -/
def insertedSpace (st : VmpuState σ) (mpr : MpRegion) : AddrSpace :=
  match st.as.memVmpuAllocateEntry with
  | none => st.as
  | some (i, as) =>
      let lock := memCheckForcedLocked mpr false
      as.memVmpuSetEntry i { mpr with memFlags := (C.arch.mpuMap st.mpu as mpr lock).2.1 } lock

/-- The merges of the new table leave an address with the permissions asked for. -/
def MergesKeep (V : MpuView C.arch) (st : VmpuState σ) (mpr : MpRegion) : Prop :=
  ∃ i, (C.mergedSpace (C.insertedSpace st mpr)).Valid i ∧
    (C.mergedSpace (C.insertedSpace st mpr)).Covers i mpr.base ∧
    V.perms ((C.mergedSpace (C.insertedSpace st mpr)).node i).region.memFlags = V.perms mpr.memFlags

/-- **The condition on a call**: no pages or no address are asked for, or the range
ends inside the address space and meets no entry, the MPU does not refuse the
region, and the merges leave it its permissions. -/
def AllocFits (V : MpuView C.arch) (st : VmpuState σ) (section_ : AsSec)
    (numPages flags va : Nat) : Prop :=
  numPages = 0 ∨ va = C.machine.sizeMax ∨
    (va + numPages * C.machine.pageSize < C.machine.wordCount ∧
      ¬ Overlaps st.as va (numPages * C.machine.pageSize) ∧
      ¬ C.Refuses st.as st.mpu (C.allocRegion section_ va numPages flags) false ∧
      C.MergesKeep V st (C.allocRegion section_ va numPages flags))

variable {C} {V : MpuView C.arch} {st st' : VmpuState σ} {mpr : MpRegion} {broadcast : Bool}

/-! ## The MPU through the merges -/

theorem base_ne_of_wf {as : AddrSpace} {i j : Mpid} (hwf : as.Wf C.machine) (hi : as.Valid i)
    (hj : as.Valid j) (hij : i ≠ j) : as.base i ≠ as.base j := by
  have hcases := hwf.disjoint hi hj hij
  have hposi := hwf.nonempty i hi
  have hposj := hwf.nonempty j hj
  omega

/-- **A merge keeps the MPU in step**: the first entry is extended in both, and the
MPU gives up no base but that of the second one. -/
theorem InStep.merge {st1 : VmpuState σ} {prev cur : Mpid} {as : AddrSpace}
    (hstep : C.InStep V st) (hwf : st.as.Wf C.machine)
    (hmerged : Merged C st.as (C.mergeSpace st.as prev cur) prev cur)
    (hyes : (C.arch.mpuUpdate st.mpu st.as (C.mergedReg st.as prev cur)).1 = true)
    (has : st1.as = C.mergeSpace st.as prev cur)
    (hmpu : st1.mpu = (C.arch.mpuUnmap
      (C.arch.mpuUpdate st.mpu st.as (C.mergedReg st.as prev cur)).2 as
      (st.as.node cur).region).2) : C.InStep V st1 := by
  have hnodePrev : ((C.mergeSpace st.as prev cur).node prev).region =
      C.mergedReg st.as prev cur := by
    unfold mergeSpace
    rw [memVmpuFreeEntry_node_other _ hmerged.ne, setNode_node_same]
  -- what is registered at the base of an entry other than `cur`
  have hkept : ∀ j, st.as.Valid j → j ≠ cur → V.registered st1.mpu st.as.id (st.as.base j) =
      V.registered (C.arch.mpuUpdate st.mpu st.as (C.mergedReg st.as prev cur)).2 st.as.id
        (st.as.base j) := by
    intro j hj hjc
    have hne : ¬ st.as.base j = (st.as.node cur).region.base :=
      base_ne_of_wf hwf hj hmerged.validCur hjc
    rw [hmpu, V.unmap, if_neg (fun hboth => hne hboth.2.2)]
  intro j hj
  have hid1 : st1.as.id = st.as.id := by
    rw [has]
    rfl
  rw [has] at hj
  obtain ⟨hjv, hjc⟩ := (hmerged.valid j).mp hj
  rw [hid1, has]
  by_cases hjp : j = prev
  · rw [hjp, hmerged.basePrev, hnodePrev, hkept prev hmerged.validPrev hmerged.ne, V.update,
      if_pos ⟨hyes, rfl, rfl⟩]
  · have hnode := hmerged.other j hjp hjc
    have hbase : (C.mergeSpace st.as prev cur).base j = st.as.base j := by
      rw [base, hnode, base]
    have hne : ¬ st.as.base j = (C.mergedReg st.as prev cur).base :=
      base_ne_of_wf hwf hjv hmerged.validPrev hjp
    rw [hbase, hnode, hkept j hjv hjc, V.update, if_neg (fun hboth => hne hboth.2.2)]
    exact hstep j hjv

/-- **A run of the loop** coalesces, and keeps the MPU in step. -/
theorem coalesce_inStep {as : AddrSpace} {fuel : Nat} (hwf : st.as.Wf C.machine)
    (hstep : C.InStep V st) (hc : as.Coalesced st.as)
    (h : C.memVmpuCoalesceContiguous broadcast fuel st = some st') :
    C.InStep V st' ∧ st'.as.Wf C.machine ∧ as.Coalesced st'.as := by
  induction fuel generalizing st with
  | zero => cases h
  | succ fuel ih =>
      rcases coalesce_pass hwf h with
        ⟨-, rfl⟩ | ⟨prev, cur, st1, hfind, h, ⟨hno, has, hmpu⟩ | ⟨hyes, has, bs, hmpu⟩⟩
      · exact ⟨hstep, hwf, hc⟩
      · refine ih (by rw [has]; exact hwf) ?_ (by rw [has]; exact hc) h
        intro i hi
        rw [has] at hi
        rw [has, hmpu, V.update, if_neg]
        · exact hstep i hi
        · intro hboth
          rw [hno] at hboth
          exact Bool.false_ne_true hboth.1
      · have hmerged := mergeSpace_merged hwf hfind
        refine ih (by rw [has]; exact hmerged.wf) ?_ (by rw [has]; exact hc.merge hmerged hwf) h
        exact hstep.merge hwf hmerged hyes has hmpu

theorem InStep.allocate {as1 : AddrSpace} {i : Mpid} (hstep : C.InStep V st)
    (halloc : st.as.memVmpuAllocateEntry = some (i, as1)) : C.InStep V { st with as := as1 } := by
  intro j hj
  obtain ⟨hvalid, hnode⟩ := allocateEntry_node halloc hj
  have hid : as1.id = st.as.id := by
    rw [(memVmpuAllocateEntry_some halloc).2]
    rfl
  show V.registered st.mpu as1.id (as1.base j) = some ((as1.node j).region.size, _)
  rw [hid, base, hnode]
  exact hstep j hvalid

/-- **A new entry** that meets no other one is registered with the others. -/
theorem InStep.insert {i : Mpid} {lock : Bool} (hstep : C.InStep V st)
    (hwf : st.as.Wf C.machine) (hsize : 0 < mpr.size) (hmeets : MeetsNone st.as mpr)
    (hyes : (C.arch.mpuMap st.mpu st.as mpr lock).1 = true) {st1 : VmpuState σ}
    (has : st1.as = st.as.memVmpuSetEntry i
      { mpr with memFlags := (C.arch.mpuMap st.mpu st.as mpr lock).2.1 } lock)
    (hmpu : st1.mpu = (C.arch.mpuMap st.mpu st.as mpr lock).2.2) : C.InStep V st1 := by
  intro j hj
  have hid : st1.as.id = st.as.id := by
    rw [has]
    rfl
  rw [hid, hmpu, V.map]
  by_cases hji : j = i
  · have hnode : st1.as.node j = ⟨.valid, lock,
        { mpr with memFlags := (C.arch.mpuMap st.mpu st.as mpr lock).2.1 }⟩ := by
      rw [has, hji, memVmpuSetEntry_node, setNode_node_same]
    have hbase : st1.as.base j = mpr.base := by
      rw [base, hnode]
    rw [if_pos ⟨hyes, rfl, hbase⟩, hnode]
  · have hnode : st1.as.node j = st.as.node j := by
      rw [has, memVmpuSetEntry_node, setNode_node_other _ _ hji]
    have hvalid : st.as.Valid j := by
      rw [Valid, ← hnode]
      exact hj
    have hbase : st1.as.base j = st.as.base j := by
      rw [base, hnode, base]
    have hne : ¬ st.as.base j = mpr.base := by
      have hapart := hmeets j hvalid
      have hpos := hwf.nonempty j hvalid
      omega
    rw [hbase, hnode, if_neg (fun hboth => hne hboth.2.2)]
    exact hstep j hvalid

/-! ## The answers -/

theorem meetsNone_of_not_overlaps {as : AddrSpace} (hwf : as.Wf C.machine) (hsize : 0 < mpr.size)
    (h : ¬ Overlaps as mpr.base mpr.size) : MeetsNone as mpr := by
  intro i hi
  have hpos := hwf.nonempty i hi
  by_cases hlow : mpr.base + mpr.size ≤ as.base i
  · exact .inl hlow
  · right
    apply Nat.le_of_not_lt
    intro hhigh
    refine h ⟨i, hi, max (as.base i) mpr.base, ⟨Nat.le_max_left _ _, ?_⟩, Nat.le_max_right _ _, ?_⟩
    · omega
    · omega

theorem find_none_of_meetsNone {as : AddrSpace} (hwf : as.Wf C.machine)
    (hfit : mpr.base + mpr.size < C.machine.wordCount) (hsize : 0 < mpr.size)
    (hmeets : MeetsNone as mpr) : memVmpuFindOverlappingRegion C.machine as mpr = none := by
  cases hfind : memVmpuFindOverlappingRegion C.machine as mpr with
  | none => rfl
  | some i =>
      obtain ⟨hi, hlow, hhigh⟩ := find_some hwf hfit hfind
      have hapart := hmeets i hi
      omega

/-- **A region that is mapped** is, at each of its addresses, in one entry of the
vMPU that the MPU has too: the one that covers its base after the merges. -/
theorem memMap_both {fuel : Nat} (hwf : st.as.Wf C.machine) (hstep : C.InStep V st)
    (hsize : 0 < mpr.size) (hfit : mpr.base + mpr.size < C.machine.wordCount)
    (hmeets : MeetsNone st.as mpr)
    (h : C.memMap fuel st mpr broadcast false = some (true, st')) :
    C.InStep V st' ∧ st'.as.Wf C.machine ∧ st'.as = C.mergedSpace (C.insertedSpace st mpr) ∧
      ∃ k, st'.as.Valid k ∧ st'.as.base k ≤ mpr.base ∧ mpr.base + mpr.size ≤ st'.as.limit k := by
  rcases memMap_cases h with ⟨hzero, -, -⟩ | ⟨-, hok, -⟩ |
    ⟨-, -, i, as1, st1, halloc, hinsert, hend⟩
  · omega
  · cases hok
  · rw [Bool.not_false, Bool.and_true, if_pos rfl] at hend
    obtain ⟨hwf1, hnot⟩ := hwf.allocateEntry halloc
    rcases memVmpuInsertRegion_cases hinsert with ⟨-, hok, -⟩ | ⟨hyes, -, hsend⟩
    · cases hok
    · obtain ⟨has, hmpu⟩ := broadcastRegion_as hsend
      dsimp only at hyes has hmpu
      have hmeets1 := hmeets.allocate halloc
      have hstep1 : C.InStep V st1 :=
        (hstep.allocate halloc).insert hwf1 hsize hmeets1 hyes has hmpu
      have hwf2 : st1.as.Wf C.machine := by
        rw [has]
        exact hwf1.setEntry hnot hsize hfit hmeets1
      have hinserted : st1.as = C.insertedSpace st mpr := by
        rw [has, insertedSpace, halloc]
      have hnode : st1.as.node i = ⟨.valid, memCheckForcedLocked mpr false, { mpr with
          memFlags := (C.arch.mpuMap st.mpu as1 mpr (memCheckForcedLocked mpr false)).2.1 }⟩ := by
        rw [has, memVmpuSetEntry_node, setNode_node_same]
      have hvalid : st1.as.Valid i := by
        rw [Valid, hnode]
      obtain ⟨hstep', hwf', hc⟩ := coalesce_inStep hwf2 hstep1 (Coalesced.refl st1.as) hend
      obtain ⟨k, hk, ⟨hlow, hhigh⟩, -⟩ := hc.inside hvalid
      have hbase : st1.as.base i = mpr.base := by
        rw [base, hnode]
      have hlimit : st1.as.limit i = mpr.base + mpr.size := by
        rw [limit, base, hnode]
      rw [hbase] at hlow
      rw [hlimit] at hhigh
      exact ⟨hstep', hwf', by rw [coalesce_mergedSpace hwf2 hend, hinserted], k, hk, hlow, hhigh⟩

/-- **The answer of one call** that maps the region at `va` keeps its promise if and
only if the call fits. -/
theorem allocReported_iff {fuel numPages flags va : Nat} {section_ : AsSec} {ok : Bool}
    (hwf : st.as.Wf C.machine) (hstep : C.InStep V st)
    (h : C.memMap fuel st (C.allocRegion section_ va numPages flags) true false =
      some (ok, st')) :
    C.AllocReported V fuel st st' section_ numPages flags va ↔
      C.AllocFits V st section_ numPages flags va := by
  have hpage := C.machine.pageSize_pos
  have hanswer := memMap_answer h
  by_cases hnone : numPages = 0
  · refine iff_of_true ⟨fun _ a hlow hhigh => ?_, fun hfails => ?_⟩ (.inl hnone)
    · rw [hnone, Nat.zero_mul] at hhigh
      omega
    · rcases hfails with hoverlaps | hno
      · obtain ⟨i, -, a, -, hlow, hhigh⟩ := hoverlaps
        rw [hnone, Nat.zero_mul] at hhigh
        omega
      · have hsize : (C.allocRegion section_ va numPages flags).size = 0 := by
          show numPages * C.machine.pageSize % C.machine.wordCount = 0
          rw [hnone, Nat.zero_mul, Nat.zero_mod]
        rw [memMap, if_pos hsize] at hno
        cases hno
  · by_cases hva : va = C.machine.sizeMax
    · exact iff_of_true ⟨fun hne => absurd hva hne, fun _ => hva⟩ (.inr (.inl hva))
    · have hbytes : 0 < numPages * C.machine.pageSize :=
        Nat.mul_pos (Nat.pos_of_ne_zero hnone) hpage
      -- within the address space the region has the size of the range
      have hregion : va + numPages * C.machine.pageSize < C.machine.wordCount →
          (C.allocRegion section_ va numPages flags).size = numPages * C.machine.pageSize := by
        intro hfit
        exact Nat.mod_eq_of_lt (by omega)
      constructor
      · intro hreported
        obtain ⟨hmapped, hfails⟩ := hreported
        have hfit : va + numPages * C.machine.pageSize < C.machine.wordCount := by
          apply Nat.lt_of_not_le
          intro hwraps
          obtain ⟨i, -, -, hlast, -⟩ := hmapped hva (max va (C.machine.wordCount - 1))
            (Nat.le_max_left _ _) (by omega)
          have hword := Nat.mod_lt (st'.as.limit i) (Nat.two_pow_pos C.machine.wordBits)
          have hword' : st'.as.limit i % C.machine.wordCount < C.machine.wordCount := hword
          omega
        have hok : ok = true := by
          cases ok with
          | true => rfl
          | false => exact absurd (hfails (.inr h)) hva
        have hnot : ¬ Overlaps st.as va (numPages * C.machine.pageSize) :=
          fun hoverlaps => hva (hfails (.inl hoverlaps))
        have hsize := hregion hfit
        have hmeets : MeetsNone st.as (C.allocRegion section_ va numPages flags) := by
          apply meetsNone_of_not_overlaps hwf
          · rw [hsize]
            exact hbytes
          · rw [hsize]
            exact hnot
        rw [hok] at h
        obtain ⟨-, hwf', hmerges, -⟩ := memMap_both hwf hstep (by rw [hsize]; exact hbytes)
          (by rw [hsize]; exact hfit) hmeets h
        refine .inr (.inr ⟨hfit, hnot, ?_, ?_⟩)
        · rcases hanswer.mp hok with hzero | ⟨-, haccepts⟩
          · omega
          · exact haccepts
        · obtain ⟨i, hi, hlow, hhigh, hperms, -⟩ := hmapped hva va (Nat.le_refl _) (by omega)
          rw [Nat.mod_eq_of_lt (hwf'.fits i hi)] at hhigh
          rw [MergesKeep, ← hmerges]
          exact ⟨i, hi, ⟨hlow, hhigh⟩, hperms⟩
      · intro hfits
        obtain ⟨hfit, hnot, haccepts, i, hi, hcovers, hperms⟩ :=
          (hfits.resolve_left hnone).resolve_left hva
        have hsize := hregion hfit
        have hpos : 0 < (C.allocRegion section_ va numPages flags).size := by
          rw [hsize]
          exact hbytes
        have hend : (C.allocRegion section_ va numPages flags).base +
            (C.allocRegion section_ va numPages flags).size < C.machine.wordCount := by
          rw [hsize]
          exact hfit
        have hmeets : MeetsNone st.as (C.allocRegion section_ va numPages flags) := by
          apply meetsNone_of_not_overlaps hwf hpos
          rw [hsize]
          exact hnot
        have hok : ok = true :=
          hanswer.mpr (.inr ⟨find_none_of_meetsNone hwf hend hpos hmeets, haccepts⟩)
        rw [hok] at h
        obtain ⟨hstep', hwf', hmerges, k, hk, hlow, hhigh⟩ :=
          memMap_both hwf hstep hpos hend hmeets h
        rw [← hmerges] at hi hcovers hperms
        rw [hsize] at hhigh
        have hki : k = i := by
          refine hwf'.covers_unique hk hi ⟨hlow, ?_⟩ hcovers
          have hbase : (C.allocRegion section_ va numPages flags).base = va := rfl
          omega
        subst hki
        constructor
        · intro _ a ha ha'
          have hbase : (C.allocRegion section_ va numPages flags).base = va := rfl
          refine ⟨k, hk, by omega, ?_, hperms, hstep' k hk⟩
          rw [Nat.mod_eq_of_lt (hwf'.fits k hk)]
          omega
        · intro hfails
          rcases hfails with hoverlaps | hno
          · exact absurd hoverlaps hnot
          · rw [h] at hno
            cases hno

/-- A call of `mem_alloc_map` that returns asked `mem_map` for the region at the
address that it answers. -/
theorem memAllocMap_maps {fuel at_ numPages flags va : Nat} {section_ : AsSec}
    {ppages : Option Ppages}
    (h : C.memAllocMap fuel st section_ ppages at_ numPages flags = some (va, st')) :
    ∃ ok, C.memMap fuel st (C.allocRegion section_ va numPages flags) true false =
      some (ok, st') := by
  unfold memAllocMap at h
  dsimp only at h
  split at h
  · split at h
    · cases h
    · obtain ⟨⟨ok, st1⟩, hmap, h⟩ := Option.bind_eq_some_iff.mp h
      cases h
      exact ⟨ok, hmap⟩
  · rename_i p
    split at h
    · cases h
    · rename_i hsame
      obtain ⟨⟨ok, st1⟩, hmap, h⟩ := Option.bind_eq_some_iff.mp h
      cases h
      refine ⟨ok, ?_⟩
      have haddr : (if at_ = C.machine.sizeMax then p.base else at_) = p.base := by
        by_cases hinvalid : at_ = C.machine.sizeMax
        · rw [if_pos hinvalid]
        · rw [if_neg hinvalid]
          apply Classical.byContradiction
          intro hne
          exact hsame ⟨hinvalid, hne⟩
      rw [haddr]
      exact hmap

end VmpuCpu

/-! ## An Armv8-R CPU -/

/-- The permissions in Armv8-R flags: all but the bit that enables the entry. -/
def armv8rPerms (raw : Nat) : Nat := enableFlags .vm raw

theorem armv8rPerms_enable (type : AsType) (raw : Nat) :
    armv8rPerms (enableFlags type raw) = armv8rPerms raw := by
  have hpow : (2 : Nat) ^ 16 = 65536 ∧ (2 : Nat) ^ 32 = 4294967296 := by decide
  cases type with
  | vm =>
      simp only [armv8rPerms, enableFlags, withPrlar, flagsPrbar, flagsPrlar, hpow.1, hpow.2]
      omega
  | hyp =>
      simp only [armv8rPerms, enableFlags, withPrlar, flagsPrbar, flagsPrlar, hpow.1, hpow.2]
      omega
  | hypCpy =>
      simp only [armv8rPerms, enableFlags, withPrlar, flagsPrbar, flagsPrlar, hpow.1, hpow.2]
      omega

/-- `mpu_map` leaves the permissions as they are, whatever it answers. -/
theorem armv8r_map_perms (A : Armv8rCpu) (m : Armv8rMpu) (as : AddrSpace) (mpr : MpRegion)
    (lock : Bool) :
    armv8rPerms ((armv8rArch A).mpuMap m as mpr lock).2.1 = armv8rPerms mpr.memFlags := by
  show armv8rPerms ((m.mpuMap A as mpr lock).getD (false, mpr.memFlags, m)).2.1 = _
  unfold Armv8rMpu.mpuMap
  split
  · rfl
  · dsimp only
    split
    · split
      · rfl
      · rfl
      · exact armv8rPerms_enable as.type mpr.memFlags
    · rfl

/-- A CPU whose own address space has the id 0, with an Armv8-R MPU and a record of
what that accepted. -/
def armv8rVmpuCpu : VmpuCpu (Armv8rMpu × (Nat → Nat → Option (Nat × Nat))) where
  machine := Machine.mmu64
  arch := (armv8rArch ⟨Machine.mmu64, 0, some 1⟩).recorded
  cpuNum := 1
  sharedRegionPoolSize := 128
  id := 0
  vcpuVmCpus := none

/-- Its view. -/
def armv8rView : MpuView armv8rVmpuCpu.arch :=
  (armv8rArch ⟨Machine.mmu64, 0, some 1⟩).recordedView armv8rPerms (armv8r_map_perms _)

/-- An address space with the id `asid` and no entries, after `mpu_init`. -/
def freshArmv8r (asid : Nat) : VmpuState (Armv8rMpu × (Nat → Nat → Option (Nat × Nat))) where
  as := { noRegions with id := asid }
  mpu :=
    (Armv8rMpu.mpuInit ⟨Machine.mmu64, 0, some 1⟩
      ⟨fun _ => false, fun _ => false, fun _ => 0, fun _ _ => false, fun _ => ⟨0, 0⟩⟩,
      fun _ _ => none)
  shared := 0
  sent := []

theorem freshArmv8r_inStep (asid : Nat) : armv8rVmpuCpu.InStep armv8rView (freshArmv8r asid) := by
  intro i hi
  cases hi

theorem freshArmv8r_wf (asid : Nat) : (freshArmv8r asid).as.Wf armv8rVmpuCpu.machine := by
  have hlist : (freshArmv8r asid).as.orderedList = noRegions.orderedList := rfl
  exact noRegions_wf.congr hlist (fun _ => Iff.rfl) fun _ _ => rfl

end Bao

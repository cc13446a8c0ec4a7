import BaoHypervisor.RangeList
import BaoHypervisor.PagePool
import Mathlib.Algebra.GroupWithZero.Nat

/-!
# The virtual MPU

On targets without an MMU an address space is a table of 64 region entries,
the vMPU, with the valid entries linked in order of their base.  Mapping adds
an entry and then merges neighbours; unmapping removes the entry that holds
the range and puts back what is left of it on either side.  Changes of shared
sections are sent to the other CPUs.  This file has the functions of
`core/mpu/mem.c`; the physical MPU below them is a parameter.
-/

namespace Bao

open RangeList

/-- `enum AS_TYPE`. -/
inductive AsType
  | hyp
  | vm
  | hypCpy
deriving DecidableEq, Repr

/-- `as_sec_t`. -/
inductive AsSec
  | hypGlobal
  | hypImage
  | hypPrivate
  | hypVm
  | hypAny
  | unknown
deriving DecidableEq, Repr

/-- `SEC_VM_ANY` has the value of `SEC_HYP_GLOBAL`. -/
abbrev AsSec.vmAny : AsSec := .hypGlobal

/-- `struct mp_region`. -/
structure MpRegion where
  base : Nat
  size : Nat
  memFlags : Nat
  asSec : AsSec
deriving DecidableEq, Repr

/-- The state of `struct mpe`. -/
inductive MpeState
  | free
  | invalid
  | valid
deriving DecidableEq, Repr

/-- `struct mpe`.  Its id is its index and its list node is kept by the list. -/
structure Mpe where
  state : MpeState
  lock : Bool
  region : MpRegion
deriving DecidableEq, Repr

/-- `VMPU_NUM_ENTRIES`. -/
abbrev vmpuNumEntries : Nat := 64

/-- A valid `mpid_t`; `INVALID_MPID` is `none` where it can occur. -/
abbrev Mpid : Type := Fin vmpuNumEntries

@[instance] theorem vmpuNumEntries_neZero : NeZero vmpuNumEntries := ⟨by decide⟩

/-- `struct addr_space` of the MPU build.  `lock` is set while an operation
that has returned still holds the spinlock. -/
structure AddrSpace where
  id : Nat
  type : AsType
  colors : Nat
  orderedList : List Mpid
  node : Mpid → Mpe
  lock : Bool

/-- The events of a `MEM_PROT_SYNC` message. -/
inductive MemEvent
  | insert
  | remove
  | update
deriving DecidableEq, Repr

/-- A `MEM_PROT_SYNC` message: the event and the shared region it points to. -/
structure SharedRegion where
  event : MemEvent
  asType : AsType
  asid : Nat
  region : MpRegion
  lock : Bool
deriving DecidableEq, Repr

/-- The physical MPU and the flags of the architecture, over the state `σ` of
the MPU of one CPU.  `mpuMap` answers whether it mapped and which flags it
left in the region. -/
structure MpuArch (σ : Type) where
  pteInvalid : Nat
  mpuGranularity : Nat
  mpuPermsCompatible : Nat → Nat → Bool
  mpuMap : σ → AddrSpace → MpRegion → Bool → Bool × Nat × σ
  mpuUpdate : σ → AddrSpace → MpRegion → Bool × σ
  mpuUnmap : σ → AddrSpace → MpRegion → Bool × σ

/-- The platform, the CPU an operation runs on and the CPUs of the VM of its
vCPU, if it has one. -/
structure VmpuCpu (σ : Type) where
  machine : Machine
  arch : MpuArch σ
  cpuNum : Nat
  sharedRegionPoolSize : Nat
  id : Nat
  vcpuVmCpus : Option Nat

/-- What an operation changes: its address space, the MPU of its CPU, the
number of shared regions in use and the messages sent, each with its target. -/
structure VmpuState (σ : Type) where
  as : AddrSpace
  mpu : σ
  shared : Nat
  sent : List (Nat × SharedRegion)

namespace AddrSpace

/-- Replace entry `i`. -/
def setNode (as : AddrSpace) (i : Mpid) (mpe : Mpe) : AddrSpace :=
  { as with node := fun k => if k = i then mpe else as.node k }

/-- `vmpu_node_cmp`. -/
def vmpuNodeCmp (as : AddrSpace) (n1 n2 : Mpid) : Int :=
  if (as.node n1).region.base > (as.node n2).region.base then 1
  else if (as.node n1).region.base < (as.node n2).region.base then -1
  else 0

/-- `mem_vmpu_set_entry`. -/
def memVmpuSetEntry (as : AddrSpace) (mpid : Mpid) (mpr : MpRegion) (locked : Bool) : AddrSpace :=
  let as := as.setNode mpid { state := .valid, lock := locked, region := mpr }
  { as with orderedList := insertOrdered as.vmpuNodeCmp mpid as.orderedList }

/-- A cleared entry. -/
def clearMpe (pteInvalid : Nat) (state : MpeState) : Mpe where
  state := state
  lock := false
  region := { base := 0, size := 0, memFlags := pteInvalid, asSec := .unknown }

/-- `mem_vmpu_clear_entry`. -/
def memVmpuClearEntry (pteInvalid : Nat) (as : AddrSpace) (mpid : Mpid) : AddrSpace :=
  as.setNode mpid (clearMpe pteInvalid .invalid)

/-- `mem_vmpu_free_entry`. -/
def memVmpuFreeEntry (pteInvalid : Nat) (as : AddrSpace) (mpid : Mpid) : AddrSpace :=
  let as := as.memVmpuClearEntry pteInvalid mpid
  let as := as.setNode mpid { as.node mpid with state := .free }
  { as with orderedList := as.orderedList.erase mpid }

/-- `mem_vmpu_allocate_entry`: the first free entry becomes invalid.  With no
free entry it stops in `ERROR`, so its callers never see `INVALID_MPID`. -/
def memVmpuAllocateEntry (as : AddrSpace) : Option (Mpid × AddrSpace) :=
  match (List.finRange vmpuNumEntries).find? (fun i => (as.node i).state = .free) with
  | none => none
  | some mpid => some (mpid, as.setNode mpid { as.node mpid with state := .invalid })

/-- `mem_vmpu_get_entry_by_addr`. -/
def memVmpuGetEntryByAddr (M : Machine) (as : AddrSpace) (addr : Nat) : Option Mpid :=
  (List.finRange vmpuNumEntries).find? fun i =>
    let mpe := as.node i
    let limitAddr := (mpe.region.base + mpe.region.size) % M.wordCount
    mpe.state = .valid ∧ mpe.region.base ≤ addr ∧ addr < limitAddr

/-- `as_init` over whatever the memory held before, with the id of
`as_id_alloc`. -/
def asInit (pteInvalid : Nat) (as : AddrSpace) (type : AsType) (id : Nat) : AddrSpace :=
  let as := { as with type := type, colors := 0, id := id, lock := false, orderedList := [] }
  (List.finRange vmpuNumEntries).foldl (memVmpuFreeEntry pteInvalid) as

end AddrSpace

/-- `mem_regions_overlap`. -/
def memRegionsOverlap (M : Machine) (reg1 reg2 : MpRegion) : Bool :=
  M.rangeInRange reg1.base reg1.size reg2.base reg2.size

/-- `mem_vmpu_find_overlapping_region`. -/
def memVmpuFindOverlappingRegion (M : Machine) (as : AddrSpace) (region : MpRegion) :
    Option Mpid :=
  (List.finRange vmpuNumEntries).find? fun i =>
    (as.node i).state = .valid ∧ memRegionsOverlap M region (as.node i).region = true

/-- `mem_broadcast`. -/
def memBroadcast (as : AddrSpace) (mpr : MpRegion) (broadcast : Bool) : Bool :=
  if as.type = .hyp ∧ mpr.asSec = .hypPrivate then false else broadcast

/-- `mem_check_forced_locked`. -/
def memCheckForcedLocked (mpr : MpRegion) (locked : Bool) : Bool :=
  if mpr.asSec = .hypPrivate ∨ mpr.asSec = .hypVm ∨ mpr.asSec = .hypImage then true else locked

namespace VmpuCpu

variable {σ : Type} (C : VmpuCpu σ)

/-- `mem_section_shared_cpus`.  An address space of a VM has no answer on a
CPU without a vCPU: the pointer is null. -/
def memSectionSharedCpus (as : AddrSpace) (section_ : AsSec) : Option Nat :=
  if as.type = .hyp then
    if section_ = .hypGlobal ∨ section_ = .hypImage then some (2 ^ C.cpuNum - 1)
    else if section_ = .hypVm then some (C.vcpuVmCpus.getD 0)
    else some 0
  else C.vcpuVmCpus

/-- `mem_region_broadcast`.  It stops in `ERROR` when the pool of shared
regions runs out. -/
def memRegionBroadcast (st : VmpuState σ) (mpr : MpRegion) (op : MemEvent) (locked : Bool) :
    Option (VmpuState σ) :=
  match C.memSectionSharedCpus st.as mpr.asSec with
  | none => none
  | some sharedCpus =>
      let node : SharedRegion :=
        { event := op, asType := st.as.type, asid := st.as.id, region := mpr, lock := locked }
      let targets := (List.range C.cpuNum).filter fun c => c ≠ C.id ∧ sharedCpus.testBit c
      if st.shared + targets.length ≤ C.sharedRegionPoolSize then
        some { st with shared := st.shared + targets.length
                       sent := st.sent ++ targets.map fun c => (c, node) }
      else none

/-- The guarded call of `mem_region_broadcast` in the three functions below. -/
def broadcastRegion (st : VmpuState σ) (mpr : MpRegion) (op : MemEvent) (broadcast locked : Bool) :
    Option (VmpuState σ) :=
  if memBroadcast st.as mpr broadcast then C.memRegionBroadcast st mpr op locked else some st

/-- `mem_vmpu_insert_region`. -/
def memVmpuInsertRegion (st : VmpuState σ) (mpid : Mpid) (mpr : MpRegion)
    (broadcast locked : Bool) : Option (Bool × VmpuState σ) :=
  let lock := memCheckForcedLocked mpr locked
  let answer := C.arch.mpuMap st.mpu st.as mpr lock
  let mpr := { mpr with memFlags := answer.2.1 }
  let st := { st with mpu := answer.2.2 }
  if answer.1 then do
    let st := { st with as := st.as.memVmpuSetEntry mpid mpr lock }
    let st ← C.broadcastRegion st mpr .insert broadcast lock
    some (true, st)
  else some (false, st)

/-- `mem_vmpu_update_region`. -/
def memVmpuUpdateRegion (st : VmpuState σ) (mpid : Mpid) (mergeReg : MpRegion)
    (broadcast locked : Bool) : Option (Bool × VmpuState σ) :=
  let answer := C.arch.mpuUpdate st.mpu st.as mergeReg
  let st := { st with mpu := answer.2 }
  if answer.1 then do
    let st := { st with as := st.as.setNode mpid { st.as.node mpid with region := mergeReg } }
    let st ← C.broadcastRegion st mergeReg .update broadcast locked
    some (true, st)
  else some (false, st)

/-- `mem_vmpu_remove_region` of an entry. -/
def memVmpuRemoveRegion (st : VmpuState σ) (mpid : Mpid) (broadcast : Bool) :
    Option (Bool × VmpuState σ) :=
  let mpe := st.as.node mpid
  if mpe.state = .valid then do
    let st ← C.broadcastRegion st mpe.region .remove broadcast mpe.lock
    let answer := C.arch.mpuUnmap st.mpu st.as mpe.region
    some (true, { st with mpu := answer.2
                          as := st.as.memVmpuFreeEntry C.arch.pteInvalid mpid })
  else some (false, st)

/-- The test of `mem_vmpu_coalesce_contiguous` on two neighbours. -/
def canMerge (as : AddrSpace) (prev cur : Mpid) : Bool :=
  let prevReg := as.node prev
  let curReg := as.node cur
  decide ((prevReg.region.base + prevReg.region.size) % C.machine.wordCount = curReg.region.base) &&
    C.arch.mpuPermsCompatible prevReg.region.memFlags curReg.region.memFlags &&
    (!prevReg.lock && !curReg.lock)

/-- The first pair of neighbours of the ordered list that can merge. -/
def findMerge (as : AddrSpace) : List Mpid → Option (Mpid × Mpid)
  | prev :: cur :: rest =>
      if C.canMerge as prev cur then some (prev, cur) else findMerge as (cur :: rest)
  | _ => none

/-- `mem_vmpu_coalesce_contiguous`.  The section of a merged region is not
set, so it is zero. -/
def memVmpuCoalesceContiguous (broadcast : Bool) :
    Nat → VmpuState σ → Option (VmpuState σ)
  | 0, _ => none
  | fuel + 1, st =>
      match C.findMerge st.as st.as.orderedList with
      | none => some st
      | some (prev, cur) => do
          let prevReg := st.as.node prev
          let curReg := st.as.node cur
          let mergedReg : MpRegion :=
            { base := prevReg.region.base
              size := (prevReg.region.size + curReg.region.size) % C.machine.wordCount
              memFlags := curReg.region.memFlags
              asSec := .hypGlobal }
          let (merged, st) ← C.memVmpuUpdateRegion st prev mergedReg broadcast prevReg.lock
          if merged then
            let (_, st) ← C.memVmpuRemoveRegion st cur broadcast
            memVmpuCoalesceContiguous broadcast fuel st
          else memVmpuCoalesceContiguous broadcast fuel st

/-- `mem_map` of the MPU build. -/
def memMap (fuel : Nat) (st : VmpuState σ) (mpr : MpRegion) (broadcast locked : Bool) :
    Option (Bool × VmpuState σ) :=
  if mpr.size = 0 then some (true, st)
  else if mpr.size % C.arch.mpuGranularity ≠ 0 then none
  else if st.as.lock then none
  else match memVmpuFindOverlappingRegion C.machine st.as mpr with
    | some _ => some (false, st)
    | none => do
        let (mpid, as) ← st.as.memVmpuAllocateEntry
        let (mapped, st) ← C.memVmpuInsertRegion { st with as := as } mpid mpr broadcast locked
        if mapped && !locked then
          let st ← C.memVmpuCoalesceContiguous broadcast fuel st
          some (mapped, st)
        else some (mapped, st)

/-- Put back a part of a region that `mem_unmap_range` removed, unless it is
empty. -/
def insertRest (st : VmpuState σ) (rest : MpRegion) (broadcast locked : Bool) :
    Option (Bool × VmpuState σ) :=
  if 0 < rest.size then do
    let (mpid, as) ← st.as.memVmpuAllocateEntry
    C.memVmpuInsertRegion { st with as := as } mpid rest broadcast locked
  else some (true, st)

/-- Subtraction of `size_t`. -/
def sub (a b : Nat) : Nat := (a + C.machine.wordCount - b) % C.machine.wordCount

/-- The body of the loop of `mem_unmap_range` for the entry that it found: the
number of bytes unmapped, or `none` where a part could not be put back. -/
def unmapEntry (st : VmpuState σ) (mpid : Mpid) (vaddr size : Nat) (broadcast : Bool) :
    Option (Option Nat × VmpuState σ) := do
  let reg := (st.as.node mpid).region
  let locked := (st.as.node mpid).lock
  let limit := (vaddr + size) % C.machine.wordCount
  let rLimit := (reg.base + reg.size) % C.machine.wordCount
  let topSize := if rLimit ≤ limit then 0 else rLimit - limit
  let bottomSize := if vaddr ≤ reg.base then 0 else vaddr - reg.base
  let (_, st) ← C.memVmpuRemoveRegion st mpid broadcast
  let (okTop, st) ← C.insertRest st { reg with base := limit, size := topSize } broadcast locked
  if okTop then
    let (okBottom, st) ← C.insertRest st { reg with size := bottomSize } broadcast locked
    if okBottom then some (some (C.sub (C.sub reg.size topSize) bottomSize), st)
    else some (none, st)
  else some (none, st)

/-- The loop of `mem_unmap_range`.  Where a part cannot be put back the
function returns with the lock held. -/
def unmapLoop (vaddr size : Nat) (broadcast : Bool) :
    Nat → VmpuState σ → Nat → Option (Bool × VmpuState σ)
  | 0, _, _ => none
  | fuel + 1, st, sizeLeft =>
      if sizeLeft = 0 then some (true, st)
      else
        -- of `reg` only base and size are set, and no other field is read
        match memVmpuFindOverlappingRegion C.machine st.as ⟨vaddr, size, 0, .unknown⟩ with
        | none => some (false, st)
        | some mpid =>
            match C.unmapEntry st mpid vaddr size broadcast with
            | none => none
            | some (none, st) => some (false, { st with as := { st.as with lock := true } })
            | some (some overlapSize, st) =>
                unmapLoop vaddr size broadcast fuel st (C.sub sizeLeft overlapSize)

/-- `mem_unmap_range`. -/
def memUnmapRange (fuel : Nat) (st : VmpuState σ) (vaddr size : Nat) (broadcast : Bool) :
    Option (Bool × VmpuState σ) :=
  if st.as.lock then none else C.unmapLoop vaddr size broadcast fuel st size

/-- `mem_unmap`, with the pages that it then gives to `mem_free_ppages`. -/
def memUnmap (fuel : Nat) (st : VmpuState σ) (at_ numPages : Nat) (freePpages : Bool) :
    Option (Option Ppages × VmpuState σ) := do
  let size := numPages * C.machine.pageSize % C.machine.wordCount
  let (unmapped, st) ← C.memUnmapRange fuel st at_ size true
  some (if unmapped && freePpages then some ⟨at_, numPages, 0⟩ else none, st)

/-- `mem_update`. -/
def memUpdate (st : VmpuState σ) (mpr : MpRegion) (broadcast locked : Bool) :
    Option (Bool × VmpuState σ) :=
  match st.as.orderedList.find? fun i =>
      (st.as.node i).region.base = mpr.base ∧ (st.as.node i).region.size ≠ mpr.size with
  | some updateMpid => C.memVmpuUpdateRegion st updateMpid mpr broadcast locked
  | none => some (false, st)

/-- `mem_handle_broadcast_region`, with the handlers of the three events, on a
CPU whose own address space is that of `st`; `vmAs` is the address space of
the VM of its vCPU.  A region of a VM only reaches the MPU, because the vMPU
of a VM is shared.  The shared region is freed at the end. -/
def memHandleBroadcastRegion (fuel : Nat) (st : VmpuState σ) (vmAs : Option AddrSpace)
    (msg : SharedRegion) : Option (VmpuState σ) := do
  let st ← if msg.asType = .hyp then
      match msg.event with
      | .insert => do
          let (_, st) ← C.memMap fuel st msg.region false msg.lock
          some st
      | .remove => do
          let (_, st) ← C.memUnmapRange fuel st msg.region.base msg.region.size false
          some st
      | .update => do
          let (_, st) ← C.memUpdate st msg.region false msg.lock
          some st
    else
      match vmAs with
      | none => none
      | some as =>
          if as.id ≠ msg.asid then none
          else match msg.event with
            | .insert => some { st with mpu := (C.arch.mpuMap st.mpu as msg.region msg.lock).2.2 }
            | .remove => some { st with mpu := (C.arch.mpuUnmap st.mpu as msg.region).2 }
            | .update => some { st with mpu := (C.arch.mpuUpdate st.mpu as msg.region).2 }
  some { st with shared := st.shared - 1 }

/-- `mem_map_cpy` into the address space of `st`; `ass` is the source and
`same` whether both are one.  An unmapped source address is a null entry. -/
def memMapCpy (fuel : Nat) (ass : AddrSpace) (same : Bool) (st : VmpuState σ) (asdSection : AsSec)
    (vas vad numPages : Nat) : Option (Nat × VmpuState σ) :=
  let invalidVa := C.machine.sizeMax
  if !same && (decide (vad = invalidVa) || decide (vad = vas)) then
    if ass.lock then none
    else match ass.memVmpuGetEntryByAddr C.machine vas with
      | none => none
      | some src => do
          let mpr := { (ass.node src).region with asSec := asdSection }
          let size := numPages * C.machine.pageSize % C.machine.wordCount
          if size > mpr.size then some (invalidVa, st)
          else
            let mpr := { mpr with size := size }
            let (mapped, st) ← C.memMap fuel st mpr (memBroadcast st.as mpr true) false
            some (if mapped then vas else invalidVa, st)
  else some (invalidVa, st)

end VmpuCpu

end Bao

import BaoHypervisor.Vmpu
import Mathlib.Logic.Function.Basic

/-!
# The MPU of an Armv8-R CPU

`arch/armv8/armv8-r/mpu.c`.  A CPU has 64 entries, which the hypervisor shares
with the VM that runs on it.  Bitmaps record which entries are allocated and which
are locked, an array the address space of each, and two masks the entries that are
enabled in the hypervisor and in the VM.  The arrays are functions on all indices;
what lies beyond the last entry is the memory behind the array, which the code
writes when it uses `INVALID_MPID` as an index.
-/

namespace Bao

/-- The registers of one entry, which `PRSELR` selects. -/
structure Armv8rEntry where
  prbar : Nat
  prlar : Nat
deriving DecidableEq, Repr

/-- The masks of enabled entries: that of the CPU and that of its vCPU. -/
inductive MpuMask
  | cpu
  | vcpu
deriving DecidableEq, Repr

/-- `struct mpu_arch` of a CPU with the mask of its vCPU, and the entries. -/
structure Armv8rMpu where
  allocatedEntries : Nat → Bool
  lockedEntries : Nat → Bool
  entryAsid : Nat → Nat
  mpuEntryMask : MpuMask → Nat → Bool
  entry : Nat → Armv8rEntry

/-- What the functions take from the CPU: the ids of its address space and of that
of the VM of its vCPU, if it has one. -/
structure Armv8rCpu where
  machine : Machine
  asId : Nat
  vcpuVmAsId : Option Nat

/-- `MPU_ARCH_MAX_NUM_ENTRIES`. -/
abbrev mpuArchMaxNumEntries : Nat := 64

/-- `PRBAR_BASE`. -/
def prbarBase (prbar : Nat) : Nat := prbar / 64 * 64

/-- `PRLAR_LIMIT`. -/
def prlarLimit (prlar : Nat) : Nat := prlar / 64 * 64 + 63

/-- `PRBAR_FLAGS` and `PRLAR_FLAGS`. -/
def regFlags (reg : Nat) : Nat := reg % 64

/-- `mem_flags.prbar`. -/
def flagsPrbar (raw : Nat) : Nat := raw % 2 ^ 16

/-- `mem_flags.prlar`. -/
def flagsPrlar (raw : Nat) : Nat := raw / 2 ^ 16 % 2 ^ 16

/-- Set `mem_flags.prlar`. -/
def withPrlar (raw prlar : Nat) : Nat := raw / 2 ^ 32 * 2 ^ 32 + prlar * 2 ^ 16 + flagsPrbar raw

/-- The flags that `mpu_map` leaves in a region: `PRLAR_EN` is cleared for a VM and
set for the hypervisor. -/
def enableFlags (type : AsType) (raw : Nat) : Nat :=
  let prlar := flagsPrlar raw
  match type with
  | .vm => withPrlar raw (prlar / 2 * 2)
  | .hyp | .hypCpy => withPrlar raw (prlar / 2 * 2 + 1)

/-- The value written to `PRBAR`. -/
def prbarOf (mpr : MpRegion) : Nat := mpr.base / 64 * 64 ||| flagsPrbar mpr.memFlags

namespace Armv8rCpu

variable (C : Armv8rCpu)

/-- `INVALID_MPID`. -/
abbrev invalidMpid : Nat := C.machine.sizeMax

/-- `INVALID_ASID`. -/
abbrev invalidAsid : Nat := C.machine.sizeMax

/-- The limit `lim` of `mpu_entry_set` and `mpu_entry_update_limit`. -/
def lim (mpr : MpRegion) : Nat :=
  (mpr.base + mpr.size + C.machine.wordCount - 1) % C.machine.wordCount

/-- The value written to `PRLAR`. -/
def prlarOf (mpr : MpRegion) : Nat := C.lim mpr / 64 * 64 ||| flagsPrlar mpr.memFlags

/-- `find_mpu_mask_by_asid`.  A CPU without a vCPU reads through a null pointer
when the id is not that of its own address space: no answer. -/
def findMpuMaskByAsid (id : Nat) : Option (Option MpuMask) :=
  if C.asId = id then some (some .cpu)
  else match C.vcpuVmAsId with
    | none => none
    | some vmAsId => if vmAsId = id then some (some .vcpu) else some none

end Armv8rCpu

namespace Armv8rMpu

variable (C : Armv8rCpu) (m : Armv8rMpu)

/-- `mpu_get_region_base`. -/
def mpuGetRegionBase (mpid : Nat) : Nat := prbarBase (m.entry mpid).prbar

/-- `mpu_find_region`; `none` stands for `INVALID_MPID`. -/
def mpuFindRegion (mpr : MpRegion) (asid : Nat) : Option Nat :=
  (List.range mpuArchMaxNumEntries).find? fun i =>
    m.allocatedEntries i && decide (m.mpuGetRegionBase i = mpr.base ∧ m.entryAsid i = asid)

/-- The first entry that is not allocated. -/
def firstFree : Option Nat :=
  (List.range mpuArchMaxNumEntries).find? fun i => !m.allocatedEntries i

/-- `mpu_entry_allocate`.  With no free entry the index is `INVALID_MPID`, and both
arrays are written there. -/
def mpuEntryAllocate (asid : Nat) : Nat × Armv8rMpu :=
  let regNum := m.firstFree.getD C.invalidMpid
  (regNum, { m with allocatedEntries := Function.update m.allocatedEntries regNum true
                    entryAsid := Function.update m.entryAsid regNum asid })

/-- `mpu_entry_deallocate`. -/
def mpuEntryDeallocate (mpid : Nat) : Armv8rMpu :=
  { m with allocatedEntries := Function.update m.allocatedEntries mpid false
           entryAsid := Function.update m.entryAsid mpid C.invalidAsid }

/-- `mpu_entry_lock`. -/
def mpuEntryLock (mpid : Nat) : Armv8rMpu :=
  { m with lockedEntries := Function.update m.lockedEntries mpid true }

/-- `mpu_entry_unlock`. -/
def mpuEntryUnlock (mpid : Nat) : Armv8rMpu :=
  { m with lockedEntries := Function.update m.lockedEntries mpid false }

/-- `mpu_entry_set`. -/
def mpuEntrySet (mpid : Nat) (mpr : MpRegion) : Armv8rMpu :=
  { m with entry := Function.update m.entry mpid ⟨prbarOf mpr, C.prlarOf mpr⟩ }

/-- `mpu_entry_update_limit`. -/
def mpuEntryUpdateLimit (mpid : Nat) (mpr : MpRegion) : Armv8rMpu :=
  { m with entry := Function.update m.entry mpid { m.entry mpid with prlar := C.prlarOf mpr } }

/-- `mpu_entry_clear`. -/
def mpuEntryClear (mpid : Nat) : Armv8rMpu :=
  { m with entry := Function.update m.entry mpid ⟨0, 0⟩ }

/-- `bitmap_set` and `bitmap_clear` of a mask. -/
def setMaskBit (mask : MpuMask) (mpid : Nat) (b : Bool) : Armv8rMpu :=
  { m with mpuEntryMask :=
      Function.update m.mpuEntryMask mask (Function.update (m.mpuEntryMask mask) mpid b) }

/-- `mpu_map`: the answer, the flags left in the region, and the MPU. -/
def mpuMap (as : AddrSpace) (mpr : MpRegion) (locked : Bool) : Option (Bool × Nat × Armv8rMpu) :=
  if mpr.size = 0 then some (false, mpr.memFlags, m)
  else
    let (mpid, m) := m.mpuEntryAllocate C as.id
    if mpid ≠ C.invalidMpid then
      let m := if locked then m.mpuEntryLock mpid else m
      match C.findMpuMaskByAsid as.id with
      | none => none
      | some none => some (false, mpr.memFlags, m)
      | some (some mask) =>
          let m := m.setMaskBit mask mpid true
          let mpr := { mpr with memFlags := enableFlags as.type mpr.memFlags }
          some (true, mpr.memFlags, m.mpuEntrySet C mpid mpr)
    else some (true, mpr.memFlags, m)

/-- `mpu_unmap`. -/
def mpuUnmap (as : AddrSpace) (mpr : MpRegion) : Option (Bool × Armv8rMpu) :=
  match m.mpuFindRegion mpr as.id with
  | none => some (true, m)
  | some mpid =>
      let m := ((m.mpuEntryDeallocate C mpid).mpuEntryUnlock mpid).mpuEntryClear mpid
      match C.findMpuMaskByAsid as.id with
      | none => none
      | some none => some (false, m)
      | some (some mask) => some (true, m.setMaskBit mask mpid false)

/-- `mpu_update`. -/
def mpuUpdate (as : AddrSpace) (mpr : MpRegion) : Bool × Armv8rMpu :=
  match m.mpuFindRegion mpr as.id with
  | none => (false, m)
  | some mpid => (true, m.mpuEntryUpdateLimit C mpid mpr)

/-- `mpu_init`. -/
def mpuInit : Armv8rMpu :=
  { m with
    allocatedEntries := fun i => if i < mpuArchMaxNumEntries then false else m.allocatedEntries i
    lockedEntries := fun i => if i < mpuArchMaxNumEntries then false else m.lockedEntries i
    entryAsid := fun i => if i < mpuArchMaxNumEntries then C.invalidAsid else m.entryAsid i }

end Armv8rMpu

/-- `mpu_perms_compatible` of Armv8-R. -/
def armv8rPermsCompatible (perms1 perms2 : Nat) : Bool := perms1 == perms2

/-- The interface of an Armv8-R CPU.  A call that reads through a null pointer counts
as one that answers false. -/
def armv8rArch (C : Armv8rCpu) : MpuArch Armv8rMpu where
  pteInvalid := 0
  mpuGranularity := C.machine.pageSize
  mpuPermsCompatible := armv8rPermsCompatible
  mpuMap := fun m as mpr locked => (m.mpuMap C as mpr locked).getD (false, mpr.memFlags, m)
  mpuUpdate := fun m as mpr => m.mpuUpdate C as mpr
  mpuUnmap := fun m as mpr => (m.mpuUnmap C as mpr).getD (false, m)

end Bao

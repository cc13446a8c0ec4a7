import BaoHypervisor.Vmpu
import Mathlib.Logic.Function.Basic

/-!
# The MPU of an RH850 CPU

`arch/rh850/mpu.c` and the `mpu_` functions of `arch/rh850/mem.c`.  One table of
entries serves the hypervisor and the VM on the CPU; whose an entry is can be told
from its permission bits only.  Entries are taken from the top down, and the entry
with the lowest index is the boundary `HBE` of the hypervisor's part of the table.
-/

namespace Bao

/-- The registers of one entry, which `MPIDX` selects. -/
structure Rh850Entry where
  mpla : BitVec 32
  mpua : BitVec 32
  mpat : BitVec 32
deriving DecidableEq

/-- The MPU of a CPU: `mpu_hyp.bitmap`, the entries, and `MPCFG`. -/
structure Rh850Mpu where
  bitmap : Nat → Bool
  entry : Nat → Rh850Entry
  mpcfg : BitVec 32

/-- `MPLA_MASK` and `MPUA_MASK`. -/
def mplaMask : BitVec 32 := 0xFFFFFFFC

/-- `MPCFG_NMPUE_MASK`. -/
def mpcfgNmpueMask : BitVec 32 := 0x1F

/-- `MPCFG_HBE_MASK`. -/
def mpcfgHbeMask : BitVec 32 := 0x3F00

/-- The registers that `mpu_entry_set` writes for a region. -/
def mpuEntryRegs (mpr : MpRegion) : Rh850Entry :=
  let lim := BitVec.ofNat 32 mpr.base + BitVec.ofNat 32 mpr.size - 4
  { mpla := BitVec.ofNat 32 mpr.base &&& mplaMask
    mpua := lim &&& mplaMask
    mpat := BitVec.ofNat 32 mpr.memFlags }

/-- `mpu_entry_get_region` on the registers of an entry. -/
def mpuEntryGetRegion (e : Rh850Entry) : MpRegion where
  base := e.mpla.toNat
  size := (e.mpua - e.mpla + 4).toNat
  memFlags := e.mpat.toNat
  asSec := .unknown

/-- The owner test of `mpu_entry_get_region_id`: `rmpid7` and `wmpid7` for the
hypervisor's address space, `rmpid6` and `wmpid6` for another one. -/
def mpuOwnedBy (type : AsType) (memFlags : Nat) : Bool :=
  if type ≠ .hyp then memFlags.testBit 30 || memFlags.testBit 22
  else memFlags.testBit 31 || memFlags.testBit 23

namespace Rh850Mpu

variable (m : Rh850Mpu)

/-- `mpu_num_entries`. -/
def numEntries : Nat := (m.mpcfg &&& mpcfgNmpueMask).toNat + 1

/-- The field `HBE` of `MPCFG`. -/
def hbe : Nat := ((m.mpcfg &&& mpcfgHbeMask) >>> 8).toNat

/-- The region in an entry. -/
def region (i : Nat) : MpRegion := mpuEntryGetRegion (m.entry i)

/-- The indices of the entries, from 0 on. -/
def indices : List Nat := List.range m.numEntries

/-- `mpu_entry_set`. -/
def entrySet (mpid : Nat) (mpr : MpRegion) : Rh850Mpu :=
  { m with entry := Function.update m.entry mpid (mpuEntryRegs mpr) }

/-- `mpu_entry_clear`. -/
def entryClear (mpid : Nat) : Rh850Mpu := { m with entry := Function.update m.entry mpid ⟨0, 0, 0⟩ }

/-- `mpu_entry_allocate_hyp`; `none` stands for `INVALID_MPID`. -/
def entryAllocateHyp : Option Nat × Rh850Mpu :=
  match m.indices.reverse.find? fun idx => !m.bitmap idx with
  | some idx => (some idx, { m with bitmap := Function.update m.bitmap idx true })
  | none => (none, m)

/-- `mpu_set_hbe`. -/
def setHbe (hbe : BitVec 32) : Rh850Mpu :=
  { m with mpcfg := m.mpcfg &&& ~~~mpcfgHbeMask ||| hbe <<< 8 }

/-- `update_hbe`: `bitmap_find_nth` returns -1 if no entry is allocated. -/
def updateHbe : Rh850Mpu :=
  match m.indices.find? m.bitmap with
  | some mpid => m.setHbe (BitVec.ofNat 32 mpid)
  | none => m.setHbe (BitVec.allOnes 32)

/-- `mpu_add_region`. -/
def addRegion (reg : MpRegion) : Bool × Rh850Mpu :=
  if 0 < reg.size then
    match m.entryAllocateHyp with
    | (some mpid, m) => (true, (m.entrySet mpid reg).updateHbe)
    | (none, m) => (false, m.updateHbe)
  else (false, m)

/-- The first allocated entry with the base and the size of a region. -/
def firstAt (mem : MpRegion) : Option Nat :=
  m.indices.find? fun i =>
    m.bitmap i && decide ((m.region i).base = mem.base ∧ (m.region i).size = mem.size)

/-- `mpu_entry_get_region_id`: the search ends at the first entry with the base
and the size, whoever owns it. -/
def entryGetRegionId (type : AsType) (mem : MpRegion) : Option Nat :=
  match m.firstAt mem with
  | some i => if mpuOwnedBy type (m.region i).memFlags then some i else none
  | none => none

/-- `mpu_entry_free`. -/
def entryFree (mpid : Nat) : Rh850Mpu :=
  { m.entryClear mpid with bitmap := Function.update m.bitmap mpid false }

/-- `mpu_remove_region`. -/
def removeRegion (type : AsType) (mem : MpRegion) : Bool × Rh850Mpu :=
  if 0 < mem.size then
    match m.entryGetRegionId type mem with
    | some mpid => (true, (m.entryFree mpid).updateHbe)
    | none => (false, m)
  else (false, m)

/-- The first allocated entry with the base of a region. -/
def firstBase (mpr : MpRegion) : Option Nat :=
  m.indices.find? fun mpid => m.bitmap mpid && decide ((m.region mpid).base = mpr.base)

/-- `mpu_update_region`. -/
def updateRegion (mpr : MpRegion) : Bool × Rh850Mpu :=
  match m.firstBase mpr with
  | some mpid => (true, (m.entrySet mpid mpr).updateHbe)
  | none => (false, m)

/-- `mpu_arch_init`: the entries that are valid count as allocated. -/
def archInit : Rh850Mpu :=
  { m with bitmap := fun i =>
      if i < m.numEntries then (m.entry i).mpat.getLsbD 7 else m.bitmap i }.setHbe
    (BitVec.ofNat 32 m.numEntries)

end Rh850Mpu

/-- The physical MPU of the RH850: `mpu_map`, `mpu_update` and `mpu_unmap` of
`mem.c`, and `mpu_perms_compatible`.  Only `mpu_unmap` looks at the address
space. -/
def rh850Arch : MpuArch Rh850Mpu where
  pteInvalid := 0
  mpuGranularity := 64
  mpuPermsCompatible := fun perms1 perms2 => perms1 == perms2
  mpuMap := fun m _ mem _ => ((m.addRegion mem).1, mem.memFlags, (m.addRegion mem).2)
  mpuUpdate := fun m _ mpr => m.updateRegion mpr
  mpuUnmap := fun m as mem => m.removeRegion as.type mem

end Bao

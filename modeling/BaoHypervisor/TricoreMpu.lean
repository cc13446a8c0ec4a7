import BaoHypervisor.Vmpu
import Mathlib.Logic.Function.Basic

/-!
# The MPU of a TriCore CPU

`arch/tricore/mpu.c`.  A CPU has two tables of ranges, one for data and one for
code, and eight protection sets.  A set has one enable bit for each entry and kind
of access, so that several sets can use one entry; an address space uses the set
with its id.  The nodes of `struct mpu_arch` count the users of each entry.
-/

namespace Bao

/-- `MPU_DATA_MAX_NUM_ENTRIES`. -/
def mpuDataMaxNumEntries : Nat := 24

/-- `MPU_CODE_MAX_NUM_ENTRIES`. -/
def mpuCodeMaxNumEntries : Nat := 16

/-- The raw value of `PTE_PERM_RW`: bit 0 is `write`, bit 1 is `read`. -/
def ptePermRw : Nat := 3

/-- The raw value of `PTE_PERM_X`: bit 2 is `exec`. -/
def ptePermX : Nat := 4

/-- `struct mpu_node`; no link stands for `INVALID_MPID`. -/
structure MpuNode where
  link : Option Nat
  perms : Nat
  refCounter : Nat
deriving DecidableEq

/-- A table of ranges: its bitmap, its registers and its nodes. -/
structure MpuTable where
  bitmap : Nat → Bool
  lower : Nat → BitVec 32
  upper : Nat → BitVec 32
  node : Nat → MpuNode

/-- The MPU of a CPU, with the enable registers of the protection sets. -/
structure TricoreMpu where
  data : MpuTable
  code : MpuTable
  dpre : Nat → BitVec 32
  dpwe : Nat → BitVec 32
  cpxe : Nat → BitVec 32

/-! ## The enable bits -/

/-- `get_dpre_bit` and its siblings: a set that does not exist reads as 0. -/
def getPsBit (reg : Nat → BitVec 32) (psid mpid : Nat) : Bool :=
  decide (psid < 8) && (reg psid).getLsbD mpid

/-- `set_dpre_bit` and its siblings: a write to a set that does not exist is
dropped. -/
def setPsBit (reg : Nat → BitVec 32) (psid mpid : Nat) (b : Bool) : Nat → BitVec 32 :=
  if psid < 8 then
    Function.update reg psid
      (if b then reg psid ||| 1#32 <<< mpid else reg psid &&& ~~~(1#32 <<< mpid))
  else reg

/-! ## One table -/

namespace MpuTable

variable (t : MpuTable)

/-- Take the first free entry. -/
def entryAllocate (max : Nat) : Option Nat × MpuTable :=
  match (List.range max).find? fun i => !t.bitmap i with
  | some i => (some i, { t with bitmap := Function.update t.bitmap i true })
  | none => (none, t)

/-- The first entry in use with the bounds of a region. -/
def findRegion (max : Nat) (mpr : MpRegion) : Option Nat :=
  (List.range max).find? fun i => t.bitmap i &&
    decide (t.lower i = BitVec.ofNat 32 mpr.base ∧
      t.upper i = BitVec.ofNat 32 (mpr.base + mpr.size))

/-- Write the bounds of a region to an entry. -/
def insertEntry (mpr : MpRegion) (mpid : Nat) : MpuTable :=
  { t with
    lower := Function.update t.lower mpid (BitVec.ofNat 32 mpr.base)
    upper := Function.update t.upper mpid (BitVec.ofNat 32 (mpr.base + mpr.size)) }

/-- Replace the node of an entry. -/
def setNode (mpid : Nat) (node : MpuNode) : MpuTable :=
  { t with node := Function.update t.node mpid node }

/-- One more user of an entry. -/
def addUser (mpid : Nat) : MpuTable :=
  t.setNode mpid { t.node mpid with refCounter := (t.node mpid).refCounter + 1 }

/-- More flags in the node of an entry. -/
def addPerms (mpid : Nat) (perms : Nat) : MpuTable :=
  t.setNode mpid { t.node mpid with perms := (t.node mpid).perms ||| perms }

/-- Set the link of an entry. -/
def setLink (mpid : Nat) (link : Option Nat) : MpuTable :=
  t.setNode mpid { t.node mpid with link := link }

/-- The first entry in use with the base of a region. -/
def firstBase (max : Nat) (mpr : MpRegion) : Option Nat :=
  (List.range max).find? fun i => t.bitmap i && decide (t.lower i = BitVec.ofNat 32 mpr.base)

/-- The loop of `mpu_update` over one table. -/
def updateUpper (max : Nat) (mpr : MpRegion) : MpuTable :=
  match t.firstBase max mpr with
  | some i =>
    { t with upper := Function.update t.upper i (BitVec.ofNat 32 (mpr.base + mpr.size)) }
  | none => t

/-- What `mpu_unmap` does to an entry it found: the last user frees it. -/
def dropUser (mpid : Nat) : MpuTable :=
  let t :=
    if (t.node mpid).refCounter = 1 then
      { t with
        upper := Function.update t.upper mpid 0
        lower := Function.update t.lower mpid 0
        bitmap := Function.update t.bitmap mpid false }
    else t
  t.setNode mpid
    { t.node mpid with refCounter := (t.node mpid).refCounter - 1, link := none }

end MpuTable

namespace TricoreMpu

variable (m : TricoreMpu)

/-- `mpu_data_entry_allocate`. -/
def dataEntryAllocate : Option Nat × TricoreMpu :=
  ((m.data.entryAllocate mpuDataMaxNumEntries).1,
    { m with data := (m.data.entryAllocate mpuDataMaxNumEntries).2 })

/-- `mpu_code_entry_allocate`. -/
def codeEntryAllocate : Option Nat × TricoreMpu :=
  ((m.code.entryAllocate mpuCodeMaxNumEntries).1,
    { m with code := (m.code.entryAllocate mpuCodeMaxNumEntries).2 })

/-- `mpu_data_find_region`. -/
def dataFindRegion (mpr : MpRegion) : Option Nat := m.data.findRegion mpuDataMaxNumEntries mpr

/-- `mpu_code_find_region`. -/
def codeFindRegion (mpr : MpRegion) : Option Nat := m.code.findRegion mpuCodeMaxNumEntries mpr

/-- `mpu_insert_data_entry`. -/
def insertDataEntry (mpr : MpRegion) (mpid : Nat) : TricoreMpu :=
  { m with data := m.data.insertEntry mpr mpid }

/-- `mpu_insert_code_entry`. -/
def insertCodeEntry (mpr : MpRegion) (mpid : Nat) : TricoreMpu :=
  { m with code := m.code.insertEntry mpr mpid }

/-- `mpu_prs_update_perm`: an entry of both tables if the flags name both. -/
def prsUpdatePerm (prs mpid perm : Nat) (val : Bool) : TricoreMpu :=
  { m with
    dpwe := if perm.testBit 0 then setPsBit m.dpwe prs mpid val else m.dpwe
    dpre := if perm.testBit 1 then setPsBit m.dpre prs mpid val else m.dpre
    cpxe := if perm.testBit 2 then setPsBit m.cpxe prs mpid val else m.cpxe }

/-- `mpu_prs_set_perm`. -/
def prsSetPerm (prs mpid perm : Nat) : TricoreMpu := m.prsUpdatePerm prs mpid perm true

/-- `mpu_prs_clr_perm`. -/
def prsClrPerm (prs mpid perm : Nat) : TricoreMpu := m.prsUpdatePerm prs mpid perm false

/-- The data part of `mpu_map`.  It answers the entry, if there is one: then
`data_entry_set` is true. -/
def mapData (prs : Nat) (mpr : MpRegion) (existingData : Option Nat) : Option Nat × TricoreMpu :=
  match existingData with
  | some i =>
    (some i, { m with data := m.data.addUser i }.prsSetPerm prs i mpr.memFlags)
  | none =>
    match m.dataEntryAllocate with
    | (some i, m) =>
      let m := (m.insertDataEntry mpr i).prsSetPerm prs i (mpr.memFlags &&& ptePermRw)
      (some i, { m with data := (m.data.addUser i).addPerms i mpr.memFlags })
    | (none, m) => (none, m)

/-- Link the entries of a region in the two tables. -/
def linkEntries (dataMpid : Option Nat) (codeMpid : Nat) : TricoreMpu :=
  match dataMpid with
  | some i =>
    { m with
      code := m.code.setLink codeMpid (some i)
      data := m.data.setLink i (some codeMpid) }
  | none => m

/-- The code part of `mpu_map`. -/
def mapCode (prs : Nat) (mpr : MpRegion) (existingCode dataMpid : Option Nat) : TricoreMpu :=
  match existingCode with
  | some i => { m with code := m.code.addUser i }.linkEntries dataMpid i
  | none =>
    match m.codeEntryAllocate with
    | (some i, m) =>
      let m := (m.insertCodeEntry mpr i).prsSetPerm prs i ptePermX
      { m with code := (m.code.addUser i).addPerms i ptePermX }.linkEntries dataMpid i
    | (none, m) => m

/-- `mpu_map` for the protection set of an address space. -/
def mpuMap (prs : Nat) (mpr : MpRegion) : Bool × TricoreMpu :=
  let existingData := m.dataFindRegion mpr
  let existingCode := m.codeFindRegion mpr
  if mpr.size = 0 then (false, m)
  else
    let (dataMpid, m) :=
      if mpr.memFlags.testBit 0 || mpr.memFlags.testBit 1 then m.mapData prs mpr existingData
      else (none, m)
    (true, if mpr.memFlags.testBit 2 then m.mapCode prs mpr existingCode dataMpid else m)

/-- `mpu_update`, which does not look at the address space. -/
def mpuUpdate (mpr : MpRegion) : Bool × TricoreMpu :=
  (true, { m with
    data := m.data.updateUpper mpuDataMaxNumEntries mpr
    code := m.code.updateUpper mpuCodeMaxNumEntries mpr })

/-- The data part of `mpu_unmap`. -/
def unmapData (prs : Nat) (dataEntry : Option Nat) : TricoreMpu :=
  match dataEntry with
  | some i => { m with data := m.data.dropUser i }.prsClrPerm prs i ptePermRw
  | none => m

/-- The code part of `mpu_unmap`. -/
def unmapCode (prs : Nat) (codeEntry : Option Nat) : TricoreMpu :=
  match codeEntry with
  | some i => { m with code := m.code.dropUser i }.prsClrPerm prs i ptePermX
  | none => m

/-- `mpu_unmap` for the protection set of an address space. -/
def mpuUnmap (prs : Nat) (mpr : MpRegion) : Bool × TricoreMpu :=
  let codeEntry := m.codeFindRegion mpr
  let dataEntry := m.dataFindRegion mpr
  (dataEntry.isSome || codeEntry.isSome,
    (m.unmapData prs dataEntry).unmapCode prs codeEntry)

/-- `mpu_init`; the registers are not written. -/
def mpuInit : TricoreMpu :=
  { m with
    data := { m.data with
      bitmap := fun i => if i < mpuDataMaxNumEntries then false else m.data.bitmap i
      node := fun i => if i < mpuDataMaxNumEntries then ⟨none, 0, 0⟩ else m.data.node i }
    code := { m.code with
      bitmap := fun i => if i < mpuCodeMaxNumEntries then false else m.code.bitmap i
      node := fun i => if i < mpuCodeMaxNumEntries then ⟨none, 0, 0⟩ else m.code.node i } }

end TricoreMpu

/-- `mpu_perms_compatible`: flags agree on `exec`, or both name data. -/
def tricorePermsCompatible (perms1 perms2 : Nat) : Bool :=
  perms1.testBit 2 == perms2.testBit 2 ||
    (perms1.testBit 1 || perms1.testBit 0) && (perms2.testBit 1 || perms2.testBit 0)

/-- The physical MPU of the TriCore. -/
def tricoreArch : MpuArch TricoreMpu where
  pteInvalid := 0
  mpuGranularity := 64
  mpuPermsCompatible := tricorePermsCompatible
  mpuMap := fun m as mpr _ => ((m.mpuMap as.id mpr).1, mpr.memFlags, (m.mpuMap as.id mpr).2)
  mpuUpdate := fun m _ mpr => m.mpuUpdate mpr
  mpuUnmap := fun m as mpr => m.mpuUnmap as.id mpr

end Bao

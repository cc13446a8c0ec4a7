import BaoHypervisor.CpuMessages
import BaoHypervisor.PriorityScan
import BaoHypervisor.WordRegs

/-!
# The virtual APLIC of a VM

`arch/riscv/irqc/aia/vaplic.c`, for both builds: direct delivery, where every
hart has a `topi` register and an interrupt line (`IRQC` is `APLIC`), and
delivery by message-signalled interrupts (`AIA`).  Every operation runs on one
physical CPU for the vCPU `v` on it, under the vAPLIC's lock.  What the physical
APLIC answers when an operation reads it is given with the operation.
-/

namespace Bao

open WordRegs (bit put setBit clearBit)

/-- `IRQC`, of the two that have an APLIC. -/
inductive Irqc
  | aplic
  | aia
deriving DecidableEq

/-- `APLIC_MAX_INTERRUPTS`. -/
def aplicMaxInterrupts : Nat := 1024

/-- `APLIC_NUM_SETIx_REGS` and `APLIC_NUM_CLRIx_REGS`. -/
def aplicNumSetixRegs : Nat := aplicMaxInterrupts / 32

/-- `APLIC_MIN_PRIO`. -/
def aplicMinPrio : Nat := 0xFF

/-- What is fixed once the VM is set up: the build, `APLIC_IPRIO_MASK`, which
`aplic_init` finds out, `idc_num`, which is the VM's `cpu_num` and fits the hart
index field, the physical CPU of each vCPU, and the sources `vaplic_set_hw`
marked. -/
structure VaplicPlat where
  irqc : Irqc
  iprioMask : BitVec 8
  idcNum : Nat
  physId : Nat → Nat
  hw : Nat → BitVec 32
  idcNum_le : idcNum ≤ 2 ^ 14
  physId_inj : Function.Injective physId

/-- The registers of `struct vaplic`. -/
structure Vaplic where
  domaincfg : BitVec 32
  srccfg : Nat → BitVec 32
  active : Nat → BitVec 32
  ip : Nat → BitVec 32
  ie : Nat → BitVec 32
  target : Nat → BitVec 32
  idelivery : Nat → Bool
  iforce : Nat → Bool
  ithreshold : Nat → BitVec 32
  topiClaimi : Nat → BitVec 32

/-- What the physical APLIC answers: its pending and rectified input registers,
and the fields read back after they were written. -/
structure AplicReads where
  pend : Nat → BitVec 32
  inclrip : Nat → BitVec 32
  sourcecfg : BitVec 32
  targetPrio : BitVec 8
  targetEiid : BitVec 11

/-- The vAPLIC of a VM; `line` is `VSEIP` of each physical CPU, `inbox` the
harts of the `UPDATE_HART_LINE` messages on their way to it, and `msis` the
message-signalled interrupts sent: physical CPU and identity, the latest first. -/
structure VaplicState where
  regs : Vaplic
  line : Nat → Bool
  inbox : Nat → List Nat
  msis : List (Nat × Nat)

/-- `vaplic_intp_valid`. -/
def vaplicIntpValid (intpId : Nat) : Bool := decide (intpId ≠ 0 ∧ intpId < aplicMaxInterrupts)

namespace Vaplic

/-- `vaplic_get_target`. -/
def getTarget (r : Vaplic) (intpId : Nat) : BitVec 32 :=
  if vaplicIntpValid intpId then r.target intpId else 0

/-- `vaplic_get_hart_index`. -/
def hartIndex (r : Vaplic) (intpId : Nat) : Nat := (r.getTarget intpId).toNat / 2 ^ 18 % 2 ^ 14

/-- The field `IPRIO` of a target. -/
def iprio (r : Vaplic) (intpId : Nat) : Nat := (r.getTarget intpId).toNat % 2 ^ 8

/-- `vaplic_get_eeid`. -/
def eeid (r : Vaplic) (intpId : Nat) : Nat := (r.getTarget intpId).toNat % 2 ^ 11

/-- `vaplic_get_pend`. -/
def getPend (r : Vaplic) (intpId : Nat) : Bool := vaplicIntpValid intpId && bit r.ip intpId

/-- `vaplic_get_enbl`. -/
def getEnbl (r : Vaplic) (intpId : Nat) : Bool := vaplicIntpValid intpId && bit r.ie intpId

/-- `vaplic_get_active`. -/
def getActive (r : Vaplic) (intpId : Nat) : Bool := vaplicIntpValid intpId && bit r.active intpId

/-- The bit `IE` of `domaincfg`. -/
def domainEnbl (r : Vaplic) : Bool := r.domaincfg.getLsbD 8

/-- A source that the search of `vaplic_update_topi` looks at. -/
def eligible (r : Vaplic) (hart i : Nat) : Bool :=
  decide (r.hartIndex i = hart) && r.getPend i && r.getEnbl i

/-- `topi` for an interrupt and its priority. -/
def topiOf (intpId prio : Nat) : BitVec 32 := BitVec.ofNat 32 (intpId * 2 ^ 16 + prio)

/-- The search of `vaplic_update_topi`: the lowest priority number and the first
source that has it, or where the search starts from. -/
def search (r : Vaplic) (hart : Nat) : Nat × Nat :=
  let best := @PriorityScan.scan Nat Natᵒᵈ _ (r.eligible hart)
    (fun i => OrderDual.toDual (r.iprio i))
    (OrderDual.toDual aplicMinPrio, aplicMaxInterrupts) (List.range' 1 (aplicMaxInterrupts - 1))
  (OrderDual.ofDual best.1, best.2)

/-- The register and the result that `vaplic_update_topi` computes for a
hart. -/
def topi (r : Vaplic) (hart : Nat) : BitVec 32 × Bool :=
  let best := r.search hart
  let threshold := (r.ithreshold hart).toNat
  if best.2 ≠ aplicMaxInterrupts ∧ (best.1 < threshold ∨ threshold = 0) ∧
      r.idelivery hart = true ∧ r.domainEnbl = true then
    (topiOf best.2 best.1, true)
  else (0, r.iforce hart && r.idelivery hart && r.domainEnbl)

end Vaplic

namespace VaplicState

/-- The registers changed. -/
def updRegs (s : VaplicState) (f : Vaplic → Vaplic) : VaplicState := { s with regs := f s.regs }

theorem updRegs_regs (s : VaplicState) (f : Vaplic → Vaplic) : (s.updRegs f).regs = f s.regs := rfl

/-- `vaplic_update_topi` and the line that its caller sets after it. -/
def setTopi (s : VaplicState) (hart cpu : Nat) : VaplicState :=
  { s with
    regs := { s.regs with topiClaimi := atCpu s.regs.topiClaimi hart (s.regs.topi hart).1 }
    line := atCpu s.line cpu (s.regs.topi hart).2 }

/-- `cpu_send_msg` of `UPDATE_HART_LINE`. -/
def sendMsg (s : VaplicState) (cpu hart : Nat) : VaplicState :=
  { s with inbox := atCpu s.inbox cpu (s.inbox cpu ++ [hart]) }

end VaplicState

variable (P : VaplicPlat)

/-- `vaplic_get_hw`. -/
def vaplicGetHw (intpId : Nat) : Bool := vaplicIntpValid intpId && bit P.hw intpId

/-- `vm_translate_to_pcpuid`. -/
def vaplicVcpuidToPcpuid (vhart : Nat) : Option Nat :=
  if vhart < P.idcNum then some (P.physId vhart) else none

/-- `vaplic_update_hart_line`; its callers make sure that the hart exists. -/
def vaplicUpdateHartLine (v vhart : Nat) (s : VaplicState) : VaplicState :=
  match vaplicVcpuidToPcpuid P vhart with
  | some cpu => if cpu = P.physId v then s.setTopi v cpu else s.sendMsg cpu vhart
  | none => s

/-- `vaplic_forward_by_msi`. -/
def vaplicForwardByMsi (irqId : Nat) (s : VaplicState) : VaplicState :=
  if s.regs.getEnbl irqId && s.regs.getPend irqId then
    { s with
      regs := { s.regs with ip := clearBit s.regs.ip irqId }
      msis := (P.physId (s.regs.hartIndex irqId), s.regs.eeid irqId) :: s.msis }
  else s

/-- `vaplic_update_hart` of the build; `none` stands for `UPDATE_ALL_HARTS` and
for `INVALID_IRQID`. -/
def vaplicUpdateHart (v : Nat) (vhart irqId : Option Nat) (s : VaplicState) : VaplicState :=
  match P.irqc with
  | .aplic =>
      match vhart with
      | none => (List.range P.idcNum).foldl (fun s i => vaplicUpdateHartLine P v i s) s
      | some vhart =>
          if vhart % 2 ^ 16 < P.idcNum then vaplicUpdateHartLine P v vhart s else s
  | .aia =>
      if s.regs.domainEnbl then
        match irqId with
        | none => (List.range' 1 (aplicMaxInterrupts - 1)).foldl
            (fun s i => vaplicForwardByMsi P i s) s
        | some irqId => vaplicForwardByMsi P irqId s
      else s

/-- The update of the hart a source is targeted at. -/
def vaplicUpdateIntp (v intpId : Nat) (s : VaplicState) : VaplicState :=
  vaplicUpdateHart P v (some (s.regs.hartIndex intpId)) (some intpId) s

/-- The loop at the end of a write to a word register: the update of the hart of
each source in `updateIntps`. -/
def vaplicUpdateIntps (v reg : Nat) (updateIntps : BitVec 32) (s : VaplicState) : VaplicState :=
  ((List.range' (reg * 32) 32).filter fun i => updateIntps.getLsbD (i % 32)).foldl
    (fun s i => vaplicUpdateIntp P v i s) s

/-- `vaplic_set_domaincfg`. -/
def vaplicSetDomaincfg (v : Nat) (newVal : BitVec 32) (s : VaplicState) : VaplicState :=
  let dm : BitVec 32 := if P.irqc = .aia then 1#32 <<< 2 else 0
  let newVal := newVal &&& 1#32 <<< 8 ||| dm
  vaplicUpdateHart P v none none
    (s.updRegs fun r => { r with domaincfg := newVal ||| 0x80#32 <<< 24 })

/-- The source mode `vaplic_set_sourcecfg` makes of a value. -/
def sourceMode (newVal : BitVec 32) : BitVec 32 :=
  let newVal := newVal &&& (if newVal.getLsbD 10 then 0 else 7)
  if newVal = 2 ∨ newVal = 3 then 0 else newVal

/-- The source mode once the physical APLIC has had its say. -/
def newSourcecfg (a : AplicReads) (intpId : Nat) (newVal : BitVec 32) : BitVec 32 :=
  if vaplicGetHw P intpId then a.sourcecfg else sourceMode newVal

/-- What `vaplic_set_sourcecfg` does to the registers. -/
def applySourcecfg (intpId : Nat) (newVal : BitVec 32) (r : Vaplic) : Vaplic :=
  let r := { r with srccfg := atCpu r.srccfg intpId newVal }
  if newVal = 0 then
    { r with
      active := clearBit r.active intpId
      ip := clearBit r.ip intpId
      ie := clearBit r.ie intpId
      target := atCpu r.target intpId 0 }
  else { r with active := setBit r.active intpId }

/-- `vaplic_set_sourcecfg`. -/
def vaplicSetSourcecfg (v : Nat) (a : AplicReads) (intpId : Nat) (newVal : BitVec 32)
    (s : VaplicState) : VaplicState :=
  if vaplicIntpValid intpId = true ∧ s.regs.srccfg intpId ≠ newVal then
    vaplicUpdateIntp P v intpId (s.updRegs (applySourcecfg intpId (newSourcecfg P a intpId newVal)))
  else s

/-- `vaplic_set_setip`. -/
def vaplicSetSetip (v reg : Nat) (newVal : BitVec 32) (s : VaplicState) : VaplicState :=
  if reg < aplicNumSetixRegs then
    let newVal := newVal &&& s.regs.active reg
    let updateIntps := ~~~(s.regs.ip reg) &&& newVal
    vaplicUpdateIntps P v reg updateIntps
      (s.updRegs fun r => { r with ip := put r.ip reg (r.ip reg ||| newVal) })
  else s

/-- `vaplic_set_pend` where the interrupt was set pending. -/
def vaplicCanPend (intpId : Nat) (r : Vaplic) : Bool :=
  vaplicIntpValid intpId && !r.getPend intpId && r.getActive intpId

/-- `vaplic_inject`, and `vaplic_set_setipnum`, which does the same. -/
def vaplicInject (v intpId : Nat) (s : VaplicState) : VaplicState :=
  if vaplicCanPend intpId s.regs then
    vaplicUpdateIntp P v intpId (s.updRegs fun r => { r with ip := setBit r.ip intpId })
  else s

/-- `vaplic_set_setipnum`. -/
def vaplicSetSetipnum (v : Nat) (newVal : BitVec 32) (s : VaplicState) : VaplicState :=
  vaplicInject P v newVal.toNat s

/-- The word `ip` after `vaplic_set_in_clrip`. -/
def clearedIp (a : AplicReads) (reg : Nat) (newVal : BitVec 32) (r : Vaplic) : BitVec 32 :=
  r.ip reg &&& ~~~(newVal &&& r.active reg) ||| a.pend reg

/-- `vaplic_set_in_clrip`. -/
def vaplicSetInClrip (v : Nat) (a : AplicReads) (reg : Nat) (newVal : BitVec 32)
    (s : VaplicState) : VaplicState :=
  if reg < aplicNumSetixRegs then
    let ip := clearedIp a reg newVal s.regs
    let updateIntps := s.regs.ip reg &&& ~~~ip
    vaplicUpdateIntps P v reg updateIntps (s.updRegs fun r => { r with ip := put r.ip reg ip })
  else s

/-- `vaplic_set_clripnum`. -/
def vaplicSetClripnum (v : Nat) (a : AplicReads) (newVal : BitVec 32) (s : VaplicState) :
    VaplicState :=
  let intpId := newVal.toNat
  if s.regs.getActive intpId && s.regs.getPend intpId then
    vaplicUpdateIntp P v intpId
      (if vaplicGetHw P intpId && bit a.pend intpId then s
      else s.updRegs fun r => { r with ip := clearBit r.ip intpId })
  else s

/-- `vaplic_set_setie`. -/
def vaplicSetSetie (v reg : Nat) (newVal : BitVec 32) (s : VaplicState) : VaplicState :=
  if reg < aplicNumSetixRegs ∧ s.regs.ie reg ≠ newVal then
    let newVal := newVal &&& s.regs.active reg
    let updateIntps := ~~~(s.regs.ie reg) &&& newVal
    vaplicUpdateIntps P v reg updateIntps
      (s.updRegs fun r => { r with ie := put r.ie reg (r.ie reg ||| newVal) })
  else s

/-- `vaplic_set_setienum`. -/
def vaplicSetSetienum (v : Nat) (newVal : BitVec 32) (s : VaplicState) : VaplicState :=
  let intpId := newVal.toNat
  if s.regs.getActive intpId && !s.regs.getEnbl intpId then
    vaplicUpdateIntp P v intpId (s.updRegs fun r => { r with ie := setBit r.ie intpId })
  else s

/-- `vaplic_set_clrie`. -/
def vaplicSetClrie (v reg : Nat) (newVal : BitVec 32) (s : VaplicState) : VaplicState :=
  if reg < aplicNumSetixRegs then
    let newVal := newVal &&& s.regs.active reg
    let updateIntps := s.regs.ip reg &&& ~~~newVal
    vaplicUpdateIntps P v reg updateIntps
      (s.updRegs fun r => { r with ie := put r.ie reg (r.ie reg &&& ~~~newVal) })
  else s

/-- `vaplic_set_clrienum`. -/
def vaplicSetClrienum (v : Nat) (newVal : BitVec 32) (s : VaplicState) : VaplicState :=
  let intpId := newVal.toNat
  if s.regs.getActive intpId && s.regs.getEnbl intpId then
    vaplicUpdateIntp P v intpId (s.updRegs fun r => { r with ie := clearBit r.ie intpId })
  else s

/-- The hart index of a target written: hart 0 if there is no such hart. -/
def targetHart (newVal : BitVec 32) : Nat :=
  let hartIndex := newVal.toNat / 2 ^ 18 % 2 ^ 14
  if hartIndex < P.idcNum then hartIndex else 0

/-- A target written, as far as the build has fields for it; the priority number
0 becomes `APLIC_TARGET_MAX_PRIO`. -/
def maskTarget (newVal : BitVec 32) : BitVec 32 :=
  match P.irqc with
  | .aia => newVal &&& 0xFFFFF7FF
  | .aplic =>
      let masked := newVal &&& (0xFFFC0000 ||| P.iprioMask.setWidth 32)
      if newVal.setWidth 8 &&& P.iprioMask = 0 then masked ||| 1 else masked

/-- The priority number of a target written, which the physical APLIC has the
last word about. -/
def targetPrio (a : AplicReads) (intpId : Nat) (newVal : BitVec 32) : BitVec 8 :=
  if vaplicGetHw P intpId then a.targetPrio
  else if newVal.setWidth 8 &&& P.iprioMask = 0 then 1 else newVal.setWidth 8 &&& P.iprioMask

/-- The target that `vaplic_set_target` stores. -/
def newTarget (a : AplicReads) (intpId : Nat) (newVal : BitVec 32) : BitVec 32 :=
  match P.irqc with
  | .aplic =>
      BitVec.ofNat 32 (targetHart P newVal * 2 ^ 18 + (targetPrio P a intpId newVal).toNat)
  | .aia =>
      let guestIndex := (maskTarget P newVal).toNat / 2 ^ 12 % 2 ^ 6
      let eiid := if vaplicGetHw P intpId then a.targetEiid.toNat else newVal.toNat % 2 ^ 11
      BitVec.ofNat 32 (targetHart P newVal * 2 ^ 18 + guestIndex * 2 ^ 12 + eiid)

/-- `vaplic_set_target`. -/
def vaplicSetTarget (v : Nat) (a : AplicReads) (intpId : Nat) (newVal : BitVec 32)
    (s : VaplicState) : VaplicState :=
  if s.regs.getActive intpId = true ∧ s.regs.getTarget intpId ≠ maskTarget P newVal then
    let prevHartIndex := s.regs.hartIndex intpId
    let target := newTarget P a intpId newVal
    let s := s.updRegs fun r => { r with target := atCpu r.target intpId target }
    vaplicUpdateIntp P v intpId
      (if prevHartIndex ≠ targetHart P newVal then
        vaplicUpdateHart P v (some prevHartIndex) (some intpId) s
      else s)
  else s

/-- A register of one hart written by `f`, if there is such a hart, and the
update of the hart. -/
def vaplicSetIdc (v idcId : Nat) (f : Vaplic → Vaplic) (s : VaplicState) : VaplicState :=
  vaplicUpdateHart P v (some idcId) none (if idcId < P.idcNum then s.updRegs f else s)

/-- `vaplic_set_idelivery`. -/
def vaplicSetIdelivery (v idcId : Nat) (newVal : BitVec 32) : VaplicState → VaplicState :=
  vaplicSetIdc P v idcId fun r =>
    { r with idelivery := atCpu r.idelivery idcId (newVal.getLsbD 0) }

/-- `vaplic_set_iforce`. -/
def vaplicSetIforce (v idcId : Nat) (newVal : BitVec 32) : VaplicState → VaplicState :=
  vaplicSetIdc P v idcId fun r => { r with iforce := atCpu r.iforce idcId (newVal.getLsbD 0) }

/-- `vaplic_set_ithreshold`. -/
def vaplicSetIthreshold (v idcId : Nat) (newVal : BitVec 32) : VaplicState → VaplicState :=
  vaplicSetIdc P v idcId fun r =>
    { r with ithreshold := atCpu r.ithreshold idcId (newVal &&& P.iprioMask.setWidth 32) }

/-- `vaplic_get_topi`. -/
def vaplicGetTopi (idcId : Nat) (s : VaplicState) : BitVec 32 :=
  if idcId < P.idcNum then s.regs.topiClaimi idcId else 0

/-- The source a `topi` value names. -/
def claimedIntp (topi : BitVec 32) : Nat := (topi >>> 16).toNat

/-- What `vaplic_get_claimi` does to the registers. -/
def applyClaim (idcId : Nat) (r : Vaplic) : Vaplic :=
  let ret := r.topiClaimi idcId
  let r := { r with ip := clearBit r.ip (claimedIntp ret) }
  if ret = 0 then { r with iforce := atCpu r.iforce idcId false } else r

/-- `vaplic_get_claimi`, which returns what `vaplic_get_topi` would. -/
def vaplicGetClaimi (v idcId : Nat) (s : VaplicState) : BitVec 32 × VaplicState :=
  (vaplicGetTopi P idcId s,
    if idcId < P.idcNum then
      vaplicUpdateHart P v (some idcId) none (s.updRegs (applyClaim idcId))
    else s)

/-- `vaplic_get_setip`. -/
def vaplicGetSetip (a : AplicReads) (reg : Nat) (r : Vaplic) : BitVec 32 :=
  if reg < aplicNumSetixRegs then r.ip reg ||| a.pend reg &&& P.hw reg else 0

/-- `vaplic_get_in_clrip`. -/
def vaplicGetInClrip (a : AplicReads) (reg : Nat) : BitVec 32 :=
  if reg < aplicNumSetixRegs then a.inclrip reg &&& P.hw reg else 0

/-- `vaplic_get_setie`. -/
def vaplicGetSetie (reg : Nat) (r : Vaplic) : BitVec 32 :=
  if reg < aplicNumSetixRegs then r.ie reg else 0

/-- `vaplic_ipi_handler` for the `i`-th message on its way to the CPU. -/
def vaplicIpiHandler (v i : Nat) (s : VaplicState) : VaplicState :=
  match (s.inbox (P.physId v))[i]? with
  | some hart =>
      vaplicUpdateHart P v (some hart) none
        { s with inbox := atCpu s.inbox (P.physId v) ((s.inbox (P.physId v)).eraseIdx i) }
  | none => s

end Bao

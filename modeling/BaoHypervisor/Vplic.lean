import BaoHypervisor.CpuMessages
import BaoHypervisor.PriorityScan

/-!
# The virtual PLIC of a VM

`arch/riscv/irqc/plic/vplic.c`: the emulated registers, the injection of
interrupts, and the line of each hart that follows from them.  Every operation
runs on one physical CPU for the vCPU `v` on it, under the vPLIC's lock.  The
physical PLIC, which the operations also program, is not part of the state.
-/

namespace Bao

/-- `PLIC_MAX_INTERRUPTS`. -/
def plicMaxInterrupts : Nat := 1024

/-- The modes of a `struct plic_cntxt`. -/
inductive PrivMode
  | m
  | s
  | u
deriving DecidableEq

/-- `struct plic_cntxt`; an invalid hart is `none`. -/
structure PlicCntxt where
  hartId : Option Nat
  mode : PrivMode
deriving DecidableEq

/-- What is fixed once the VM is set up: `PLAT_CPU_NUM`, the VM's `cpu_num`,
the physical CPU of each vCPU, and the interrupts `vplic_set_hw` marked. -/
structure VplicPlat where
  cpuNum : Nat
  vcpuNum : Nat
  physId : Nat → Nat
  hw : Nat → Bool
  vcpuNum_le : vcpuNum ≤ cpuNum
  physId_lt : ∀ v, v < vcpuNum → physId v < cpuNum
  physId_inj : Function.Injective physId

/-- The registers of `struct vplic`. -/
structure Vplic where
  pend : Nat → Bool
  act : Nat → Bool
  prio : Nat → BitVec 32
  enbl : Nat → Nat → Bool
  threshold : Nat → BitVec 32

/-- The vPLIC of a VM; `line` is `VSEIP` of each physical CPU, and `inbox` the
contexts of the `UPDATE_HART_LINE` messages on their way to it. -/
structure VplicState where
  regs : Vplic
  line : Nat → Bool
  inbox : Nat → List Nat

variable (P : VplicPlat)

/-- `PLIC_PLAT_CNTXT_NUM`. -/
def plicPlatCntxtNum : Nat := 2 * P.cpuNum

/-- `vplic->cntxt_num`. -/
def cntxtNum : Nat := 2 * P.vcpuNum

/-- `plic_plat_id_to_cntxt`. -/
def plicPlatIdToCntxt (id : Nat) : PlicCntxt :=
  if id < plicPlatCntxtNum P then ⟨some (id / 2), if id % 2 = 0 then .m else .s⟩
  else ⟨none, .u⟩

/-- `plic_plat_cntxt_to_id`. -/
def plicPlatCntxtToId (cntxt : PlicCntxt) : Option Nat :=
  match cntxt.hartId, cntxt.mode with
  | some hart, .m => some (hart * 2)
  | some hart, .s => some (hart * 2 + 1)
  | _, _ => none

/-- `vplic_vcntxt_to_pcntxt`. -/
def vplicVcntxtToPcntxt (vcntxtId : Nat) : Option Nat :=
  let vcntxt := plicPlatIdToCntxt P vcntxtId
  match vcntxt.hartId with
  | some hart =>
      if hart < P.vcpuNum then plicPlatCntxtToId ⟨some (P.physId hart), vcntxt.mode⟩ else none
  | none => none

/-- `vplic_vcntxt_valid`: `PRIV_M` is the one mode above `PRIV_S`. -/
def vplicVcntxtValid (vcntxtId : Nat) : Prop :=
  vcntxtId < cntxtNum P ∧ (plicPlatIdToCntxt P vcntxtId).mode ≠ .m

instance (vcntxtId : Nat) : Decidable (vplicVcntxtValid P vcntxtId) :=
  inferInstanceAs (Decidable (_ ∧ _))

/-- The CPU whose line a virtual context is. -/
def vcntxtCpu (vcntxtId : Nat) : Option Nat :=
  (vplicVcntxtToPcntxt P vcntxtId).bind fun id => (plicPlatIdToCntxt P id).hartId

namespace Vplic

/-- The test of `vplic_next_pending`. -/
def ready (r : Vplic) (vcntxt i : Nat) : Bool := r.pend i && !r.act i && r.enbl vcntxt i

/-- The register `prio` written. -/
def setPrio (r : Vplic) (id : Nat) (prio : BitVec 32) : Vplic :=
  { r with prio := atCpu r.prio id prio }

/-- A bit of `enbl` written. -/
def setEnbl (r : Vplic) (vcntxt id : Nat) (set : Bool) : Vplic :=
  { r with enbl := atCpu r.enbl vcntxt (atCpu (r.enbl vcntxt) id set) }

/-- The register `threshold` written. -/
def setThreshold (r : Vplic) (vcntxt : Nat) (threshold : BitVec 32) : Vplic :=
  { r with threshold := atCpu r.threshold vcntxt threshold }

/-- A bit of `pend` written. -/
def setPend (r : Vplic) (id : Nat) (set : Bool) : Vplic :=
  { r with pend := atCpu r.pend id set }

/-- A bit of `act` written. -/
def setAct (r : Vplic) (id : Nat) (set : Bool) : Vplic :=
  { r with act := atCpu r.act id set }

end Vplic

/-- `vplic_next_pending`. -/
def vplicNextPending (vcntxt : Nat) (r : Vplic) : Nat :=
  let best := PriorityScan.scan (r.ready vcntxt) (fun i => (r.prio i).toNat) (0, 0)
    (List.range plicMaxInterrupts)
  if best.1 > (r.threshold vcntxt).toNat then best.2 else 0

/-- `bitmap_clear(vplic->act, id)`.  An id past the end of `act` reaches the
words of the fields behind it in `struct vplic`: `prio`, `enbl` and
`threshold`. -/
def clearAct (id : Nat) (r : Vplic) : Vplic :=
  if id < plicMaxInterrupts then r.setAct id false
  else
    let enblRegs := plicMaxInterrupts / 32
    let word := id / 32 - enblRegs
    let enblWord := word - plicMaxInterrupts
    let thresholdWord := enblWord - enblRegs * plicPlatCntxtNum P
    let mask := ~~~(1#32 <<< (id % 32))
    if word < plicMaxInterrupts then r.setPrio word (r.prio word &&& mask)
    else if enblWord < enblRegs * plicPlatCntxtNum P then
      r.setEnbl (enblWord / enblRegs) (enblWord % enblRegs * 32 + id % 32) false
    else if thresholdWord < plicPlatCntxtNum P then
      r.setThreshold thresholdWord (r.threshold thresholdWord &&& mask)
    else r

namespace VplicState

/-- The registers changed. -/
def updRegs (s : VplicState) (f : Vplic → Vplic) : VplicState := { s with regs := f s.regs }

/-- `csrs_hvip_set` and `csrs_hvip_clear`. -/
def setLine (s : VplicState) (cpu : Nat) (raised : Bool) : VplicState :=
  { s with line := atCpu s.line cpu raised }

/-- `cpu_send_msg` of `UPDATE_HART_LINE`. -/
def sendMsg (s : VplicState) (cpu vcntxt : Nat) : VplicState :=
  { s with inbox := atCpu s.inbox cpu (s.inbox cpu ++ [vcntxt]) }

end VplicState

/-- `vplic_update_hart_line`; a valid context has a CPU. -/
def vplicUpdateHartLine (v vcntxt : Nat) (s : VplicState) : VplicState :=
  match vcntxtCpu P vcntxt with
  | some cpu =>
      if cpu = P.physId v then s.setLine cpu (decide (vplicNextPending vcntxt s.regs ≠ 0))
      else s.sendMsg cpu vcntxt
  | none => s

/-- `vplic_set_threshold`. -/
def vplicSetThreshold (v vcntxt : Nat) (threshold : BitVec 32) (s : VplicState) : VplicState :=
  vplicUpdateHartLine P v vcntxt (s.updRegs fun r => r.setThreshold vcntxt threshold)

/-- `vplic_set_enbl`. -/
def vplicSetEnbl (v vcntxt id : Nat) (set : Bool) (s : VplicState) : VplicState :=
  if id < plicMaxInterrupts ∧ s.regs.enbl vcntxt id ≠ set then
    let s := s.updRegs fun r => r.setEnbl vcntxt id set
    if P.hw id then s else vplicUpdateHartLine P v vcntxt s
  else s

/-- The contexts that the loops of `vplic_set_prio` and `vplic_inject` look
at. -/
def supervisorCntxts : List Nat :=
  (List.range (cntxtNum P)).filter fun i => decide ((plicPlatIdToCntxt P i).mode = .s)

/-- `vplic_set_prio`. -/
def vplicSetPrio (v id : Nat) (prio : BitVec 32) (s : VplicState) : VplicState :=
  if id < plicMaxInterrupts ∧ s.regs.prio id ≠ prio then
    let s := s.updRegs fun r => r.setPrio id prio
    if P.hw id then s
    else ((supervisorCntxts P).filter fun i => s.regs.enbl i id).foldl
      (fun s i => vplicUpdateHartLine P v i s) s
  else s

/-- `vplic_claim`. -/
def vplicClaim (v vcntxt : Nat) (s : VplicState) : Nat × VplicState :=
  let intId := vplicNextPending vcntxt s.regs
  (intId, vplicUpdateHartLine P v vcntxt
    (s.updRegs fun r => (r.setPend intId false).setAct intId true))

/-- `vplic_complete`. -/
def vplicComplete (v vcntxt intId : Nat) (s : VplicState) : VplicState :=
  vplicUpdateHartLine P v vcntxt (s.updRegs (clearAct P intId))

/-- `vplic_inject`. -/
def vplicInject (v id : Nat) (s : VplicState) : VplicState :=
  if 0 < id ∧ id < plicMaxInterrupts ∧ s.regs.pend id = false then
    let s := s.updRegs fun r => r.setPend id true
    if P.hw id then
      match plicPlatCntxtToId ⟨some v, .s⟩ with
      | some vcntxtId => vplicUpdateHartLine P v vcntxtId s
      | none => s
    else ((supervisorCntxts P).filter fun i =>
        s.regs.enbl i id && decide ((s.regs.prio id).toNat > (s.regs.threshold i).toNat)).foldl
      (fun s i => vplicUpdateHartLine P v i s) s
  else s

/-- `vplic_ipi_handler` for the `i`-th message on its way to the CPU. -/
def vplicIpiHandler (v i : Nat) (s : VplicState) : VplicState :=
  match (s.inbox (P.physId v))[i]? with
  | some vcntxt =>
      vplicUpdateHartLine P v vcntxt
        { s with inbox := atCpu s.inbox (P.physId v) ((s.inbox (P.physId v)).eraseIdx i) }
  | none => s

/-- What a hart of the VM can make its CPU do. -/
inductive VplicOp
  | setPrio (id : Nat) (prio : BitVec 32)
  | setEnbl (vcntxt id : Nat) (set : Bool)
  | setThreshold (vcntxt : Nat) (threshold : BitVec 32)
  | claim (vcntxt : Nat)
  | complete (vcntxt : Nat) (intId : BitVec 32)
  | inject (id : Nat)
  | deliver (i : Nat)
deriving DecidableEq

/-- An operation by a vCPU. -/
structure VplicEvent where
  vcpu : Nat
  op : VplicOp
deriving DecidableEq

/-- When a vCPU can do it: register accesses name an interrupt and a valid
context, as their handlers make sure, and messages are delivered in any
order. -/
def VplicEvent.enabled (e : VplicEvent) (s : VplicState) : Prop :=
  e.vcpu < P.vcpuNum ∧
    match e.op with
    | .setPrio id _ => id < plicMaxInterrupts
    | .setEnbl vcntxt id _ => vplicVcntxtValid P vcntxt ∧ id < plicMaxInterrupts
    | .setThreshold vcntxt _ => vplicVcntxtValid P vcntxt
    | .claim vcntxt => vplicVcntxtValid P vcntxt
    | .complete vcntxt _ => vplicVcntxtValid P vcntxt
    | .inject _ => True
    | .deliver i => i < (s.inbox (P.physId e.vcpu)).length

instance VplicEvent.decidableEnabled (e : VplicEvent) (s : VplicState) : Decidable (e.enabled P s) := by
  obtain ⟨v, op⟩ := e
  unfold VplicEvent.enabled
  rcases op with _ | _ <;> infer_instance

/-- The state after an operation. -/
def VplicEvent.next (e : VplicEvent) (s : VplicState) : VplicState :=
  match e.op with
  | .setPrio id prio => vplicSetPrio P e.vcpu id prio s
  | .setEnbl vcntxt id set => vplicSetEnbl P e.vcpu vcntxt id set s
  | .setThreshold vcntxt threshold => vplicSetThreshold P e.vcpu vcntxt threshold s
  | .claim vcntxt => (vplicClaim P e.vcpu vcntxt s).2
  | .complete vcntxt intId => vplicComplete P e.vcpu vcntxt intId.toNat s
  | .inject id => vplicInject P e.vcpu id s
  | .deliver i => vplicIpiHandler P e.vcpu i s

/-- The vPLIC of a VM whose memory was just zeroed. -/
def vplicBoot : VplicState :=
  { regs :=
      { pend := fun _ => false
        act := fun _ => false
        prio := fun _ => 0
        enbl := fun _ _ => false
        threshold := fun _ => 0 }
    line := fun _ => false
    inbox := fun _ => [] }

/-- The vPLIC of a VM with all its harts. -/
def vplicSystem : StepSystem VplicState VplicEvent :=
  .ofNext (· = vplicBoot) (VplicEvent.enabled P) (VplicEvent.next P)

/-! ## What an operation changes -/

variable {P} {v vcntxt : Nat} {s : VplicState}

@[simp] theorem vplicUpdateHartLine_regs : (vplicUpdateHartLine P v vcntxt s).regs = s.regs := by
  unfold vplicUpdateHartLine
  split
  · split <;> rfl
  · rfl

@[simp] theorem foldl_vplicUpdateHartLine_regs (l : List Nat) :
    (l.foldl (fun s i => vplicUpdateHartLine P v i s) s).regs = s.regs := by
  induction l generalizing s with
  | nil => rfl
  | cons i l ih => rw [List.foldl_cons, ih, vplicUpdateHartLine_regs]

theorem vplicSetThreshold_regs (threshold : BitVec 32) :
    (vplicSetThreshold P v vcntxt threshold s).regs = s.regs.setThreshold vcntxt threshold := by
  unfold vplicSetThreshold
  rw [vplicUpdateHartLine_regs]
  rfl

theorem vplicSetEnbl_regs (id : Nat) (set : Bool) :
    (vplicSetEnbl P v vcntxt id set s).regs =
      if id < plicMaxInterrupts ∧ s.regs.enbl vcntxt id ≠ set then s.regs.setEnbl vcntxt id set
      else s.regs := by
  unfold vplicSetEnbl
  split
  · dsimp only
    split
    · rfl
    · rw [vplicUpdateHartLine_regs]
      rfl
  · rfl

theorem vplicSetPrio_regs (id : Nat) (prio : BitVec 32) :
    (vplicSetPrio P v id prio s).regs =
      if id < plicMaxInterrupts ∧ s.regs.prio id ≠ prio then s.regs.setPrio id prio
      else s.regs := by
  unfold vplicSetPrio
  split
  · dsimp only
    split
    · rfl
    · rw [foldl_vplicUpdateHartLine_regs]
      rfl
  · rfl

theorem vplicClaim_fst : (vplicClaim P v vcntxt s).1 = vplicNextPending vcntxt s.regs := by
  unfold vplicClaim
  dsimp only

theorem vplicClaim_regs :
    (vplicClaim P v vcntxt s).2.regs =
      (s.regs.setPend (vplicNextPending vcntxt s.regs) false).setAct
        (vplicNextPending vcntxt s.regs) true := by
  unfold vplicClaim
  rw [vplicUpdateHartLine_regs]
  rfl

theorem vplicComplete_regs (intId : Nat) :
    (vplicComplete P v vcntxt intId s).regs = clearAct P intId s.regs := by
  unfold vplicComplete
  rw [vplicUpdateHartLine_regs]
  rfl

theorem vplicInject_regs (id : Nat) :
    (vplicInject P v id s).regs =
      if 0 < id ∧ id < plicMaxInterrupts ∧ s.regs.pend id = false then s.regs.setPend id true
      else s.regs := by
  unfold vplicInject
  split
  · dsimp only
    split
    · split
      · rw [vplicUpdateHartLine_regs]
        rfl
      · rfl
    · rw [foldl_vplicUpdateHartLine_regs]
      rfl
  · rfl

theorem vplicIpiHandler_regs (i : Nat) : (vplicIpiHandler P v i s).regs = s.regs := by
  unfold vplicIpiHandler
  split
  · rw [vplicUpdateHartLine_regs]
  · rfl

theorem clearAct_past {id : Nat} (hid : ¬ id < plicMaxInterrupts) (r : Vplic) :
    (clearAct P id r).pend = r.pend ∧ (clearAct P id r).act = r.act := by
  unfold clearAct
  rw [if_neg hid]
  dsimp only
  split
  · exact ⟨rfl, rfl⟩
  · split
    · exact ⟨rfl, rfl⟩
    · split <;> exact ⟨rfl, rfl⟩

end Bao

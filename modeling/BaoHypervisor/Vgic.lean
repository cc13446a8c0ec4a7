import BaoHypervisor.CpuMessages
import BaoHypervisor.Interrupts

/-!
# The virtual GIC of a VM

`struct vgic_int` and the functions of `arch/armv8/vgic.c` that move an
interrupt between its structure, the list registers of the CPUs and the lists
of spilled interrupts, for both GIC versions.  Every function is run by one
vCPU `v` on its own physical CPU.  The locks are left out here: each operation
runs while it holds the interrupt's lock.  The physical distributor, which
`update_hw` programs, is not part of the state.
-/

namespace Bao

/-- `GIC_VERSION`. -/
inductive GicVersion
  | gicv2
  | gicv3
deriving DecidableEq

/-- `enum int_state`, whose values are used as two flags. -/
structure IntState where
  pending : Bool
  active : Bool
deriving DecidableEq

namespace IntState

/-- `INV`. -/
def inv : IntState := ⟨false, false⟩

/-- `PEND`. -/
def pend : IntState := ⟨true, false⟩

/-- `ACT`. -/
def act : IntState := ⟨false, true⟩

/-- `PENDACT`. -/
def pendact : IntState := ⟨true, true⟩

/-- `a | b`. -/
def or (a b : IntState) : IntState := ⟨a.pending || b.pending, a.active || b.active⟩

/-- `a & PEND`. -/
def onlyPend (a : IntState) : IntState := ⟨a.pending, false⟩

/-- `a & ~PEND`. -/
def stripPend (a : IntState) : IntState := ⟨false, a.active⟩

/-- `(a & flags) != 0`. -/
def meets (a flags : IntState) : Bool :=
  (a.pending && flags.pending) || (a.active && flags.active)

end IntState

/-- Where a `struct vgic_int` lives: in the private table of a vCPU, or in the
VM's distributor. -/
inductive IntKey
  | priv (vcpu id : Nat)
  | shared (id : Nat)
deriving DecidableEq

/-- The field `id`. -/
def IntKey.id : IntKey → Nat
  | .priv _ id => id
  | .shared id => id

/-- `GIC_MAX_SGIS`. -/
def gicMaxSgis : Nat := 16

/-- `GICD_IROUTER_INV`. -/
def gicdIrouterInv : Nat := 0xffff0000

/-- `GIC_LOWEST_PRIO`. -/
def gicLowestPrio : Nat := 0xff

/-- `GIC_MAX_VALID_INTERRUPTS`. -/
def gicMaxValidInterrupts : Nat := 1020

/-- `gic_is_priv`. -/
def gicIsPriv (id : Nat) : Bool := id < gicCpuPriv

/-- `gic_is_sgi`. -/
def gicIsSgi (id : Nat) : Bool := id < gicMaxSgis

/-- What is fixed once the VM is set up: the GIC, `NUM_LRS`,
`platform.cpu_num`, the VM's `cpu_num` and `vgicd.int_num`, the physical CPU of
each vCPU, the affinities of physical and of virtual CPUs, and the interrupts
`vgic_set_hw` marked. -/
structure VgicPlat where
  ver : GicVersion
  numLrs : Nat
  cpuNum : Nat
  vcpuNum : Nat
  intNum : Nat
  physId : Nat → Nat
  mpidr : Nat → Nat
  vmpidr : Nat → Nat
  hw : IntKey → Bool
  physId_inj : Function.Injective physId

/-- `struct vgic_int`; `physRoute` is the union `phys`. -/
structure VgicInt where
  owner : Option Nat
  route : Nat
  physRoute : Nat
  state : IntState
  prio : Nat
  cfg : Nat
  lr : Nat
  targets : Nat
  sgiAct : Nat
  sgiPend : BitVec 8
  inLr : Bool
  inSpilled : Bool
  enabled : Bool
deriving DecidableEq

/-- A list register; `prio` is the field as the register has it. -/
structure ListReg where
  vid : Nat
  prio : Nat
  state : IntState
  hw : Bool
  eoi : Bool
  cpuid : Nat
deriving DecidableEq

/-- The list register written with 0. -/
def ListReg.zero : ListReg := ⟨0, 0, .inv, false, false, 0⟩

/-- The fields of `GICH_HCR` that the code uses. -/
structure Hcr where
  en : Bool
  uie : Bool
  lrenpie : Bool
  npie : Bool
  eoiCount : Nat
deriving DecidableEq

/-- The fields of `GICH_MISR` that the code tests. -/
structure Misr where
  eoi : Bool
  u : Bool
  lrenp : Bool
  np : Bool
deriving DecidableEq

/-- How far a CPU is in `gic_maintenance_handler`; `guest` is outside it. -/
inductive VgicPc
  | guest
  | eoir (misr : Misr) (lrInd : Nat)
  | refill (misr : Misr) (flags : IntState) (lrInd : Nat)
  | lrenp (hcr : Hcr)
deriving DecidableEq

/-- `enum vgic_reg_handler_info_id`. -/
inductive VgicReg
  | isenabler
  | ispendr
  | isactiver
  | icenabler
  | icpendr
  | icactiver
  | icfgr
  | irouter
  | ipriorityr
  | itargetsr
deriving DecidableEq

/-- Which guest write a register update comes from: the vCPU that issued it
and its number.  No function reads it. -/
structure WriteTag where
  writer : Nat
  num : Nat
deriving DecidableEq

/-- `enum VGIC_EVENTS` with the parts of `union vgic_msg_data` each uses. -/
inductive VgicMsg
  | updateEnable
  | route (vgicrId intId : Nat)
  | inject (intId val : Nat)
  | setReg (vgicrId intId : Nat) (reg : VgicReg) (val : Nat) (tag : Option WriteTag)
deriving DecidableEq

/-- What a vCPU has of its own: the list registers and `GICH_HCR` of its CPU,
`curr_lrs`, its private spilled list, and where it is. -/
structure VgicCpu where
  lrs : Nat → ListReg
  currLrs : Nat → Nat
  hcr : Hcr
  spilled : List IntKey
  pc : VgicPc

/-- One `gich_write_lr` of an interrupt by `vgic_write_lr`, with the interrupt
as it was at that moment. -/
structure LrWrite where
  vcpu : Nat
  key : IntKey
  int : VgicInt
  lr : ListReg

/-- One register update that took effect on an interrupt. -/
structure AppliedWrite where
  key : IntKey
  reg : VgicReg
  data : Nat
  tag : Option WriteTag
deriving DecidableEq

/-- The vGIC of a VM.  `inbox` are the `VGIC_IPI_ID` messages queued at each
physical CPU; `lrWrites`, `issued` and `applied` record what happened and are
read by no function. -/
structure VgicState where
  ints : IntKey → VgicInt
  cpus : Nat → VgicCpu
  spilled : List IntKey
  inbox : Nat → List VgicMsg
  ctlr : Bool
  lrWrites : List LrWrite
  issued : Nat
  applied : List AppliedWrite

namespace VgicState

/-- An interrupt's structure changed. -/
def updInt (s : VgicState) (k : IntKey) (f : VgicInt → VgicInt) : VgicState :=
  { s with ints := fun k' => if k' = k then f (s.ints k') else s.ints k' }

/-- A vCPU's part changed. -/
def updCpu (s : VgicState) (v : Nat) (f : VgicCpu → VgicCpu) : VgicState :=
  { s with cpus := atCpu s.cpus v (f (s.cpus v)) }

/-- `gich_set_hcr`. -/
def gichSetHcr (s : VgicState) (v : Nat) (hcr : Hcr) : VgicState :=
  s.updCpu v fun c => { c with hcr := hcr }

/-- `gich_write_lr`. -/
def gichWriteLr (s : VgicState) (v i : Nat) (lr : ListReg) : VgicState :=
  s.updCpu v fun c => { c with lrs := atCpu c.lrs i lr }

/-- `cpu_send_msg`. -/
def sendMsg (s : VgicState) (msg : VgicMsg) (cpu : Nat) : VgicState :=
  { s with inbox := atCpu s.inbox cpu (s.inbox cpu ++ [msg]) }

@[simp] theorem updInt_ints_same (s : VgicState) (k : IntKey) (f : VgicInt → VgicInt) :
    (s.updInt k f).ints k = f (s.ints k) := if_pos rfl

theorem updInt_ints_ne (s : VgicState) {k k' : IntKey} (f : VgicInt → VgicInt) (h : k' ≠ k) :
    (s.updInt k f).ints k' = s.ints k' := if_neg h

@[simp] theorem updInt_cpus (s : VgicState) (k : IntKey) (f : VgicInt → VgicInt) :
    (s.updInt k f).cpus = s.cpus := rfl

@[simp] theorem updInt_spilled (s : VgicState) (k : IntKey) (f : VgicInt → VgicInt) :
    (s.updInt k f).spilled = s.spilled := rfl

@[simp] theorem updInt_inbox (s : VgicState) (k : IntKey) (f : VgicInt → VgicInt) :
    (s.updInt k f).inbox = s.inbox := rfl

@[simp] theorem updInt_lrWrites (s : VgicState) (k : IntKey) (f : VgicInt → VgicInt) :
    (s.updInt k f).lrWrites = s.lrWrites := rfl

@[simp] theorem updCpu_ints (s : VgicState) (v : Nat) (f : VgicCpu → VgicCpu) :
    (s.updCpu v f).ints = s.ints := rfl

@[simp] theorem updCpu_cpus_same (s : VgicState) (v : Nat) (f : VgicCpu → VgicCpu) :
    (s.updCpu v f).cpus v = f (s.cpus v) := atCpu_same _ _ _

theorem updCpu_cpus_ne (s : VgicState) {v w : Nat} (f : VgicCpu → VgicCpu) (h : w ≠ v) :
    (s.updCpu v f).cpus w = s.cpus w := atCpu_other _ _ h

@[simp] theorem updCpu_spilled (s : VgicState) (v : Nat) (f : VgicCpu → VgicCpu) :
    (s.updCpu v f).spilled = s.spilled := rfl

@[simp] theorem updCpu_inbox (s : VgicState) (v : Nat) (f : VgicCpu → VgicCpu) :
    (s.updCpu v f).inbox = s.inbox := rfl

@[simp] theorem updCpu_lrWrites (s : VgicState) (v : Nat) (f : VgicCpu → VgicCpu) :
    (s.updCpu v f).lrWrites = s.lrWrites := rfl

end VgicState

variable (P : VgicPlat)

/-- `vgic_get_int`. -/
def vgicGetInt (intId vgicrId : Nat) : Option IntKey :=
  if intId < gicCpuPriv then some (.priv vgicrId intId)
  else if intId < P.intNum then some (.shared intId)
  else none

/-- `vgic_int_is_hw`. -/
def vgicIntIsHw (k : IntKey) : Bool := !gicIsSgi k.id && P.hw k

/-- `gich_get_lr`: the list register that holds the interrupt on this CPU. -/
def gichGetLr (v : Nat) (k : IntKey) (s : VgicState) : Option (Nat × ListReg) :=
  let i := s.ints k
  if i.inLr && decide (i.owner.map P.physId = some (P.physId v)) then
    let lr := (s.cpus v).lrs i.lr
    if lr.vid = k.id ∧ lr.state ≠ .inv then some (i.lr, lr) else none
  else none

/-- A GICv2 SGI, which is pending once for each source CPU. -/
def isV2Sgi (k : IntKey) : Bool := decide (P.ver = .gicv2) && gicIsSgi k.id

/-- `vgic_get_state`. -/
def vgicGetState (v : Nat) (k : IntKey) (s : VgicState) : IntState :=
  let state := match gichGetLr P v k s with
    | some held => held.2.state
    | none => (s.ints k).state
  if isV2Sgi P k && decide ((s.ints k).sgiPend ≠ 0#8) then state.or .pend else state

/-- `vgic_get_ownership`. -/
def vgicGetOwnership (v : Nat) (k : IntKey) (s : VgicState) : Bool × VgicState :=
  if (s.ints k).owner = some v then (true, s)
  else if (s.ints k).owner = none then (true, s.updInt k fun i => { i with owner := some v })
  else (false, s)

/-- `vgic_owns`. -/
def vgicOwns (v : Nat) (i : VgicInt) : Bool := decide (i.owner = some v)

/-- `vgic_yield_ownership`. -/
def vgicYieldOwnership (v : Nat) (k : IntKey) (s : VgicState) : VgicState :=
  if gicIsPriv k.id || !vgicOwns v (s.ints k) || (s.ints k).inLr || (vgicGetState P v k s).active then s
  else s.updInt k fun i => { i with owner := none }

/-- `list_push` on the vCPU's own list or the VM's. -/
def pushSpilled (v : Nat) (k : IntKey) (s : VgicState) : VgicState :=
  if gicIsPriv k.id then s.updCpu v fun c => { c with spilled := c.spilled ++ [k] }
  else { s with spilled := s.spilled ++ [k] }

/-- `vgic_add_spilled`. -/
def vgicAddSpilled (v : Nat) (k : IntKey) (s : VgicState) : VgicState :=
  if (s.ints k).inLr || (s.ints k).inSpilled then s
  else
    let s := (pushSpilled v k s).updInt k fun i => { i with inSpilled := true }
    s.gichSetHcr v { (s.cpus v).hcr with npie := true }

/-- `list_rm` on the vCPU's own list or the VM's. -/
def rmSpilled (v : Nat) (k : IntKey) (s : VgicState) : VgicState :=
  if gicIsPriv k.id then s.updCpu v fun c => { c with spilled := c.spilled.erase k }
  else { s with spilled := s.spilled.erase k }

/-- `vgic_remove_spilled`. -/
def vgicRemoveSpilled (v : Nat) (k : IntKey) (s : VgicState) : VgicState :=
  (rmSpilled v k s).updInt k fun i => { i with inSpilled := false }

/-- The first part of `vgic_write_lr`: the interrupt that `curr_lrs` names in
the register loses it. -/
def releaseOccupant (v : Nat) (k : IntKey) (lrInd : Nat) (s : VgicState) : VgicState :=
  let prev := (s.cpus v).currLrs lrInd
  if prev = k.id ∨ gicIsPriv prev then s
  else match vgicGetInt P prev v with
    | none => s
    | some k' =>
        if vgicOwns v (s.ints k') ∧ (s.ints k').inLr ∧ (s.ints k').lr = lrInd then
          vgicYieldOwnership P v k' (s.updInt k' fun i => { i with inLr := false })
        else s

/-- The highest source CPU a GICv2 SGI is pending from. -/
def highestSource (pend : BitVec 8) : Option Nat :=
  [7, 6, 5, 4, 3, 2, 1, 0].find? fun i => pend.getLsbD i

/-- The list register value of `vgic_write_lr`, and `sgi.pend` after it. -/
def lrValue (state : IntState) (k : IntKey) (i : VgicInt) : ListReg × BitVec 8 :=
  let lr : ListReg :=
    { ListReg.zero with
      vid := k.id
      prio := if P.ver = .gicv2 then i.prio / 8 else i.prio }
  if vgicIntIsHw P k then
    ({ lr with hw := true, state := if state = .pendact then .act else state }, i.sgiPend)
  else if isV2Sgi P k then
    if state.active then
      ({ lr with cpuid := i.sgiAct, state := .act, eoi := decide (i.sgiPend ≠ 0#8) }, i.sgiPend)
    else match highestSource i.sgiPend with
      | some src =>
          let pend := i.sgiPend &&& ~~~(1#8 <<< src)
          ({ lr with cpuid := src, state := .pend, eoi := decide (pend ≠ 0#8) }, pend)
      | none => ({ lr with eoi := decide (i.sgiPend ≠ 0#8) }, i.sgiPend)
  else
    ({ lr with
        eoi := !gicIsPriv k.id
        state := if i.enabled then state else state.stripPend }, i.sgiPend)

/-- The second part of `vgic_write_lr`. -/
def fillLr (v : Nat) (k : IntKey) (lrInd : Nat) (s : VgicState) : VgicState :=
  let i := s.ints k
  let state := vgicGetState P v k s
  let value := lrValue P state k i
  let s := s.updInt k fun i =>
    { i with
      sgiPend := value.2
      state := if i.enabled then .inv else state.onlyPend
      inLr := true
      lr := lrInd }
  let s := s.updCpu v fun c => { c with currLrs := atCpu c.currLrs lrInd k.id }
  { s.gichWriteLr v lrInd value.1 with lrWrites := ⟨v, k, i, value.1⟩ :: s.lrWrites }

/-- `vgic_write_lr`. -/
def vgicWriteLr (v : Nat) (k : IntKey) (lrInd : Nat) (s : VgicState) : VgicState :=
  fillLr P v k lrInd (releaseOccupant P v k lrInd s)

/-- What `vgic_remove_lr` does with the state a list register had. -/
def takeLrState (v : Nat) (k : IntKey) (lr : ListReg) (s : VgicState) : VgicState :=
  let state := lr.state.or (s.ints k).state.onlyPend
  let s := s.updInt k fun i =>
    { i with
      state := state
      sgiAct := if isV2Sgi P k ∧ state.active then lr.cpuid else i.sgiAct
      sgiPend :=
        if isV2Sgi P k ∧ ¬ state.active ∧ state.pending then i.sgiPend ||| 1#8 <<< lr.cpuid
        else i.sgiPend }
  let hcr := (s.cpus v).hcr
  s.gichSetHcr v
    { hcr with uie := true, npie := hcr.npie || (state.pending && (s.ints k).enabled) }

/-- `vgic_remove_lr`. -/
def vgicRemoveLr (v : Nat) (k : IntKey) (s : VgicState) : VgicState :=
  if !vgicOwns v (s.ints k) || !(s.ints k).inLr then s
  else match gichGetLr P v k s with
    | none => s.updInt k fun i => { i with inLr := false }
    | some (lrInd, lr) =>
        takeLrState P v k lr
          ((s.gichWriteLr v lrInd .zero).updInt k fun i => { i with inLr := false })

/-- What `vgic_spill_lr` does with the interrupt it found in the register. -/
def spillInt (v : Nat) (k : IntKey) (s : VgicState) : VgicState :=
  vgicYieldOwnership P v k (vgicAddSpilled v k (vgicRemoveLr P v k s))

/-- `vgic_spill_lr`. -/
def vgicSpillLr (v lrInd : Nat) (s : VgicState) : VgicState :=
  match vgicGetInt P ((s.cpus v).lrs lrInd).vid v with
  | none => s
  | some k => spillInt P v k s

/-- A bit of `GICH_ELRSR`: the register is empty and waits for no EOI
maintenance interrupt. -/
def elrsr (lr : ListReg) : Bool := decide (lr.state = .inv) && (lr.hw || !lr.eoi)

/-- A bit of `GICH_EISR`: the register signals an EOI maintenance interrupt. -/
def eisr (lr : ListReg) : Bool := decide (lr.state = .inv) && !lr.hw && lr.eoi

/-- The first list register of which a test holds. -/
def firstLr (v : Nat) (test : ListReg → Bool) (s : VgicState) : Option Nat :=
  (List.range P.numLrs).find? fun i => test ((s.cpus v).lrs i)

/-- The variables of the search of `vgic_add_lr` for a register to spill. -/
structure VictimScan where
  minPrioPend : Nat
  minPrioAct : Nat
  minIdAct : Nat
  minIdPend : Nat
  pendFound : Nat
  pendInd : Option Nat
  actInd : Option Nat

/-- The priority that search compares. -/
def lrPrio (lr : ListReg) : Nat := if P.ver = .gicv2 then lr.prio * 8 else lr.prio

/-- One round of that search. -/
def victimStep (lrs : Nat → ListReg) (scan : VictimScan) (i : Nat) : VictimScan :=
  let id := (lrs i).vid
  let prio := lrPrio P (lrs i)
  if (lrs i).state.active then
    if prio > scan.minPrioAct ∨ (prio = scan.minPrioAct ∧ id > scan.minIdAct) then
      { scan with minIdAct := id, minPrioAct := prio, actInd := some i }
    else scan
  else if (lrs i).state.pending then
    if prio > scan.minPrioPend ∨ (prio = scan.minPrioPend ∧ id > scan.minIdPend) then
      { scan with
        minIdPend := id
        minPrioPend := prio
        pendInd := some i
        pendFound := scan.pendFound + 1 }
    else { scan with pendFound := scan.pendFound + 1 }
  else scan

/-- The list register `vgic_add_lr` spills when none is empty. -/
def victimLr (v : Nat) (k : IntKey) (s : VgicState) : Option Nat :=
  let i := s.ints k
  let scan := (List.range P.numLrs).foldl (victimStep P (s.cpus v).lrs)
    ⟨i.prio, i.prio, k.id, k.id, 0, none, none⟩
  if scan.pendFound > 1 ∧ scan.pendInd.isSome then scan.pendInd else scan.actInd

/-- The end of `vgic_add_lr`, with a register chosen. -/
def placeInLr (v : Nat) (k : IntKey) (lrInd : Nat) (s : VgicState) : VgicState :=
  vgicWriteLr P v k lrInd (if (s.ints k).inSpilled then vgicRemoveSpilled v k s else s)

/-- `vgic_add_lr`. -/
def vgicAddLr (v : Nat) (k : IntKey) (s : VgicState) : VgicState :=
  if (!(s.ints k).enabled && !(s.ints k).state.active) || (s.ints k).inLr then s
  else match firstLr P v elrsr s with
    | some lrInd => placeInLr P v k lrInd s
    | none => match victimLr P v k s with
      | some lrInd => placeInLr P v k lrInd (vgicSpillLr P v lrInd s)
      | none => vgicAddSpilled v k s

/-- `vgic_broadcast`. -/
def vgicBroadcast (i : VgicInt) : Bool := i.route.testBit 31

/-- `vgic_int_vcpu_is_target` of the GIC version. -/
def vgicIntVcpuIsTarget (v : Nat) (k : IntKey) (i : VgicInt) : Bool :=
  match P.ver with
  | .gicv2 => gicIsPriv k.id || i.targets.testBit (P.physId v)
  | .gicv3 =>
      let priv := gicIsPriv k.id
      (priv && decide (i.physRoute = P.physId v))
        || (!priv && decide (i.physRoute = P.mpidr (P.physId v))) || (!priv && vgicBroadcast i)

/-- `vgic_int_has_other_target` of the GIC version. -/
def vgicIntHasOtherTarget (v : Nat) (k : IntKey) (i : VgicInt) : Bool :=
  let priv := gicIsPriv k.id
  match P.ver with
  | .gicv2 => !priv && (List.range 8).any fun c => i.targets.testBit c && decide (c ≠ P.physId v)
  | .gicv3 =>
      let routedHere := !priv && decide (i.physRoute = P.mpidr (P.physId v))
      (!priv && vgicBroadcast i) || (!routedHere && decide (i.physRoute ≠ gicdIrouterInv))

/-- The CPUs of the VM. -/
def vmCpus : List Nat := (List.range P.vcpuNum).map P.physId

/-- A bit of `vgic_int_ptarget_mask` of the GIC version, which has eight. -/
def vgicIntPtargetMask (v : Nat) (i : VgicInt) (cpu : Nat) : Bool :=
  match P.ver with
  | .gicv2 => decide (cpu < 8) && i.targets.testBit cpu
  | .gicv3 =>
      decide (cpu < 8) &&
        if vgicBroadcast i then decide (cpu ∈ vmCpus P) && decide (cpu ≠ P.physId v)
        else decide (cpu = i.physRoute)

/-- The CPUs `vgic_route` forwards to. -/
def routeTargets (v : Nat) (i : VgicInt) : List Nat :=
  (List.range P.cpuNum).filter fun c => vgicIntPtargetMask P v i c && decide (c ≠ P.physId v)

/-- The forwarding part of `vgic_route`. -/
def forwardRoute (v : Nat) (k : IntKey) (s : VgicState) : VgicState :=
  (routeTargets P v (s.ints k)).foldl (VgicState.sendMsg · (.route v k.id))
    (vgicYieldOwnership P v k s)

/-- `vgic_route` once `vgic_add_lr` has been tried. -/
def routeElsewhere (v : Nat) (k : IntKey) (s : VgicState) : VgicState :=
  let i := s.ints k
  let forward := !i.inLr && !i.state.active && vgicIntHasOtherTarget P v k i
  let forwarded := forward && !(routeTargets P v i).isEmpty
  let s := if forward then forwardRoute P v k s else s
  if !(s.ints k).inLr && !forwarded then vgicAddSpilled v k s else s

/-- `vgic_route`. -/
def vgicRoute (v : Nat) (k : IntKey) (s : VgicState) : VgicState :=
  let i := s.ints k
  if i.state = .inv then s
  else if !i.enabled && !i.state.active then s
  else routeElsewhere P v k (if vgicIntVcpuIsTarget P v k i then vgicAddLr P v k s else s)

end Bao

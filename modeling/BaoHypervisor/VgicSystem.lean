import BaoHypervisor.Vgic

/-!
# The vGIC as a system

The entry points of `vgic.c`, `vgicv2.c` and `vgicv3.c`: emulated register
accesses, injections, messages between CPUs and the maintenance interrupt.  A
step is one of them run by one vCPU, or what the guest does to a list register
by acknowledging and deactivating.  The maintenance handler is split at each
turn of its loops, which take their locks anew, so that other CPUs run between
two turns.
-/

namespace Bao

variable (P : VgicPlat)

/-- `vm_translate_to_pcpu_mask`, in the eight bits a target field has. -/
def vmTranslateToPcpuMask (mask : Nat) : Nat :=
  ((List.range 8).filter fun i => mask.testBit i && decide (i < P.vcpuNum)).foldl
    (fun pmask i => pmask ||| 1 <<< P.physId i) 0 % 256

/-- `update_field` of a register handler; the IROUTER handler has no field
update of its own here. -/
def updateField (reg : VgicReg) (k : IntKey) (data : Nat) (i : VgicInt) : VgicInt :=
  match reg with
  | .isenabler => if data = 0 ∨ isV2Sgi P k then i else { i with enabled := true }
  | .icenabler => if data = 0 ∨ isV2Sgi P k then i else { i with enabled := false }
  | .ispendr =>
      if data = 0 ∨ isV2Sgi P k then i else { i with state := { i.state with pending := true } }
  | .icpendr =>
      if data = 0 ∨ isV2Sgi P k then i else { i with state := { i.state with pending := false } }
  | .isactiver => if data = 0 then i else { i with state := { i.state with active := true } }
  | .icactiver => if data = 0 then i else { i with state := { i.state with active := false } }
  | .icfgr => { i with cfg := data }
  | .ipriorityr => { i with prio := if P.ver = .gicv2 then data % 256 / 8 * 8 else data % 256 }
  | .itargetsr =>
      if gicIsPriv k.id then i else { i with targets := vmTranslateToPcpuMask P data }
  | .irouter => i

/-- The update of `vgic_int_set_field` by a vCPU that owns the interrupt. -/
def applyField (reg : VgicReg) (k : IntKey) (data : Nat) (tag : Option WriteTag)
    (s : VgicState) : VgicState :=
  { s.updInt k (updateField P reg k data) with applied := ⟨k, reg, data, tag⟩ :: s.applied }

/-- `VGIC_SET_REG` sent to the owner. -/
def forwardToOwner (k : IntKey) (msg : VgicMsg) (s : VgicState) : VgicState :=
  match (s.ints k).owner with
  | some w => s.sendMsg msg (P.physId w)
  | none => s

/-- `vgic_int_set_field`. -/
def vgicIntSetField (v : Nat) (reg : VgicReg) (k : IntKey) (vgicrId data : Nat)
    (tag : Option WriteTag) (s : VgicState) : VgicState :=
  let got := vgicGetOwnership v k s
  if got.1 then
    vgicYieldOwnership P v k (vgicRoute P v k
      (applyField P reg k data tag (vgicRemoveLr P v k got.2)))
  else forwardToOwner P k (.setReg vgicrId k.id reg data tag) got.2

/-- `vgic_int_reroute`. -/
def vgicIntReroute (v : Nat) (k : IntKey) (tag : Option WriteTag) (s : VgicState) : VgicState :=
  let got := vgicGetOwnership v k s
  if got.1 then
    vgicYieldOwnership P v k (vgicRoute P v k (vgicRemoveLr P v k got.2))
  else forwardToOwner P k (.setReg 0 k.id .irouter 0 tag) got.2

/-- The part of the route register a guest write covers. -/
inductive RouterAccess
  | top
  | word
  | full
deriving DecidableEq

/-- The route register once a guest write is merged into it. -/
def mergeRoute (access : RouterAccess) (route val : Nat) : Nat :=
  match access with
  | .top => route % 2 ^ 32 + val % 2 ^ 32 * 2 ^ 32
  | .word => route / 2 ^ 32 * 2 ^ 32 + val % 2 ^ 32
  | .full => val

/-- `vm_get_vcpu_by_mpidr`. -/
def vmGetVcpuByMpidr (mpidr : Nat) : Option Nat :=
  (List.range P.vcpuNum).find? fun w => decide (P.vmpidr w % 2 ^ 24 = mpidr % 2 ^ 24)

/-- `vgic_int_set_route`. -/
def vgicIntSetRoute (v : Nat) (k : IntKey) (route : Nat) (s : VgicState) : VgicState :=
  if gicIsPriv k.id then s
  else
    let physRoute :=
      if route.testBit 31 then P.mpidr (P.physId v)
      else match vmGetVcpuByMpidr P route with
        | some w => P.mpidr (P.physId w)
        | none => gicdIrouterInv
    s.updInt k fun i => { i with physRoute := physRoute, route := route % 2 ^ 40 }

/-- `vgicd_emul_router_access` for a write; `vgic_int_get_route` reads a
private interrupt's route as 0. -/
def vgicdEmulRouterAccess (v : Nat) (k : IntKey) (access : RouterAccess) (val : Nat)
    (s : VgicState) : VgicState :=
  let route := if gicIsPriv k.id then 0 else (s.ints k).route
  vgicIntReroute P v k none (vgicIntSetRoute P v k (mergeRoute access route val) s)

/-- `vgic_update_enable`. -/
def vgicUpdateEnable (v : Nat) (s : VgicState) : VgicState :=
  s.gichSetHcr v { (s.cpus v).hcr with en := s.ctlr }

/-- The `CTLR` write of `vgicd_emul_misc_access`, with `vm_msg_broadcast`. -/
def vgicdWriteCtlr (v : Nat) (enable : Bool) (s : VgicState) : VgicState :=
  if s.ctlr = enable then s
  else
    ((vmCpus P).filter fun c => decide (c ≠ P.physId v)).foldl (VgicState.sendMsg · .updateEnable)
      (vgicUpdateEnable v { s with ctlr := enable })

/-- `vgic_send_sgi_msg`. -/
def vgicSendSgiMsg (v : Nat) (pcpuMask intId : Nat) (s : VgicState) : VgicState :=
  ((List.range P.cpuNum).filter fun c => pcpuMask.testBit c).foldl
    (VgicState.sendMsg · (.inject intId v)) s

/-- The start of `vgic_inject_hw`. -/
def takeHw (v : Nat) (k : IntKey) (s : VgicState) : VgicState :=
  s.updInt k fun i => { i with owner := some v, state := .pend, inLr := false }

/-- `vgic_inject_hw`. -/
def vgicInjectHw (v : Nat) (k : IntKey) (s : VgicState) : VgicState :=
  vgicAddLr P v k (takeHw v k s)

/-- The update of `vgic_inject_sgi` when the source is new. -/
def addSource (k : IntKey) (source : Nat) (s : VgicState) : VgicState :=
  s.updInt k fun i =>
    { i with sgiPend := i.sgiPend ||| 1#8 <<< source, state := { i.state with pending := true } }

/-- `vgic_inject_sgi`. -/
def vgicInjectSgi (v : Nat) (k : IntKey) (source : Nat) (s : VgicState) : VgicState :=
  let s := vgicRemoveLr P v k s
  if (s.ints k).sgiPend = (s.ints k).sgiPend ||| 1#8 <<< source then s
  else vgicAddLr P v k (addSource k source s)

/-- `vgic_inject`. -/
def vgicInject (v id source : Nat) (s : VgicState) : VgicState :=
  match vgicGetInt P id v with
  | none => s
  | some k =>
      if vgicIntIsHw P k then vgicInjectHw P v k s
      else if isV2Sgi P k then vgicInjectSgi P v k source s
      else vgicIntSetField P v .ispendr k v 1 none s

/-- The `VGIC_ROUTE` case of `vgic_ipi_handler`. -/
def handleRoute (v : Nat) (k : IntKey) (s : VgicState) : VgicState :=
  let got := vgicGetOwnership v k s
  if got.1 then
    vgicYieldOwnership P v k
      (if vgicIntVcpuIsTarget P v k (got.2.ints k) then vgicAddLr P v k got.2 else got.2)
  else got.2

/-- `vgic_ipi_handler`. -/
def vgicIpiHandler (v : Nat) (msg : VgicMsg) (s : VgicState) : VgicState :=
  match msg with
  | .updateEnable => vgicUpdateEnable v s
  | .route _ intId =>
      match vgicGetInt P intId v with
      | none => s
      | some k => handleRoute P v k s
  | .inject intId val => vgicInject P v intId val s
  | .setReg vgicrId intId reg val tag =>
      match vgicGetInt P intId vgicrId with
      | none => s
      | some k =>
          if reg = .irouter then vgicIntReroute P v k tag s
          else vgicIntSetField P v reg k vgicrId val tag s

/-- One round of `vgic_highest_prio_spilled`. -/
def higherPrio (v : Nat) (flags : IntState) (s : VgicState) (irq : Option IntKey) (k : IntKey) :
    Option IntKey :=
  if (vgicGetState P v k s).meets flags then
    let irqPrio := (irq.map fun k => (s.ints k).prio).getD gicLowestPrio
    let irqId := (irq.map IntKey.id).getD gicMaxValidInterrupts
    if (s.ints k).prio < irqPrio ∨ ((s.ints k).prio = irqPrio ∧ k.id < irqId) then some k else irq
  else irq

/-- `vgic_highest_prio_spilled`. -/
def vgicHighestPrioSpilled (v : Nat) (flags : IntState) (s : VgicState) : Option IntKey :=
  ((s.cpus v).spilled ++ s.spilled).foldl (higherPrio P v flags s) none

/-- The maintenance handler goes on at `pc`. -/
def goTo (v : Nat) (pc : VgicPc) (s : VgicState) : VgicState :=
  s.updCpu v fun c => { c with pc := pc }

/-- The end of `gic_maintenance_handler`. -/
def startLrenp (v : Nat) (misr : Misr) (s : VgicState) : VgicState :=
  goTo v (if misr.lrenp then .lrenp (s.cpus v).hcr else .guest) s

/-- The second test of `gic_maintenance_handler` and the start of
`vgic_refill_lrs`. -/
def startRefill (v : Nat) (misr : Misr) (s : VgicState) : VgicState :=
  if misr.np || misr.u then
    match firstLr P v elrsr s with
    | some lrInd => goTo v (.refill misr (if misr.np then .pend else .pendact) lrInd) s
    | none => startLrenp v misr s
  else startLrenp v misr s

/-- `GICH_MISR`: EOIs to report, underflow, EOIs of interrupts in no list
register, and no pending interrupt in one. -/
def gichGetMisr (v : Nat) (s : VgicState) : Misr :=
  let lrs := (List.range P.numLrs).map (s.cpus v).lrs
  let hcr := (s.cpus v).hcr
  { eoi := lrs.any eisr
    u := hcr.uie && decide ((lrs.filter fun lr => decide (lr.state ≠ .inv)).length ≤ 1)
    lrenp := hcr.lrenpie && decide (hcr.eoiCount ≠ 0)
    np := hcr.npie && !lrs.any fun lr => decide (lr.state = .pend) }

/-- The start of `gic_maintenance_handler`. -/
def startMaintenance (v : Nat) (s : VgicState) : VgicState :=
  let misr := gichGetMisr P v s
  if misr.eoi then
    match firstLr P v eisr s with
    | some lrInd => goTo v (.eoir misr lrInd) s
    | none => startRefill P v misr s
  else startRefill P v misr s

/-- `gic_lr_t` of GICv2 as a word, which `vgic_handle_trapped_eoir` takes for
an interrupt id; in GICv3 the conversion leaves the id. -/
def lrIrqId (lr : ListReg) : Nat :=
  match P.ver with
  | .gicv3 => lr.vid
  | .gicv2 =>
      lr.vid + lr.cpuid * 2 ^ 10 + lr.eoi.toNat * 2 ^ 19 + lr.prio * 2 ^ 23
        + (lr.state.pending.toNat + 2 * lr.state.active.toNat) * 2 ^ 28 + lr.hw.toNat * 2 ^ 31

/-- What `vgic_handle_trapped_eoir` does with the interrupt. -/
def trappedEoi (v : Nat) (k : IntKey) (s : VgicState) : VgicState :=
  let s := s.updInt k fun i => { i with inLr := false }
  if gicIsSgi k.id then vgicAddLr P v k s else vgicYieldOwnership P v k s

/-- One turn of the loop of `vgic_handle_trapped_eoir`.  Without an interrupt
it goes on with the same register. -/
def eoirTurn (v : Nat) (misr : Misr) (lrInd : Nat) (s : VgicState) : VgicState :=
  let k := vgicGetInt P (lrIrqId P ((s.cpus v).lrs lrInd)) v
  let s := s.gichWriteLr v lrInd .zero
  match k with
  | none => s
  | some k =>
      let s := trappedEoi P v k s
      match firstLr P v eisr s with
      | some lrInd => goTo v (.eoir misr lrInd) s
      | none => startRefill P v misr s

/-- What a turn of `vgic_refill_lrs` does once it owns its candidate. -/
def refillLr (v : Nat) (k : IntKey) (lrInd : Nat) (s : VgicState) : VgicState :=
  vgicWriteLr P v k lrInd (vgicRemoveSpilled v k s)

/-- The end of `vgic_refill_lrs` when nothing is left to bring in. -/
def refillDone (v : Nat) (s : VgicState) : VgicState :=
  s.gichSetHcr v { (s.cpus v).hcr with npie := false, uie := false }

/-- One turn of the loop of `vgic_refill_lrs`. -/
def refillTurn (v : Nat) (misr : Misr) (flags : IntState) (lrInd : Nat) (s : VgicState) :
    VgicState :=
  match vgicHighestPrioSpilled P v flags s with
  | none => startLrenp v misr (refillDone v s)
  | some k =>
      if (s.ints k).inSpilled && (vgicGetState P v k s).meets flags then
        let got := vgicGetOwnership v k s
        if got.1 then
          let s := refillLr P v k lrInd got.2
          match firstLr P v elrsr s with
          | some lrInd => goTo v (.refill misr .pendact lrInd) s
          | none => startLrenp v misr s
        else got.2
      else s

/-- What `vgic_eoir_highest_spilled_active` does once it owns its candidate. -/
def eoiSpilled (v : Nat) (k : IntKey) (s : VgicState) : VgicState :=
  let s := (vgicRemoveSpilled v k s).updInt k fun i =>
    { i with state := { i.state with active := false } }
  if vgicIntIsHw P k then s
  else if (s.ints k).state.pending then vgicAddLr P v k s
  else s

/-- `vgic_eoir_highest_spilled_active`, whose candidate is still listed when
nothing runs between the search and its locks. -/
def vgicEoirHighestSpilledActive (v : Nat) (s : VgicState) : VgicState :=
  match vgicHighestPrioSpilled P v .act s with
  | none => s
  | some k =>
      if (s.ints k).inSpilled && (vgicGetState P v k s).active then
        let got := vgicGetOwnership v k s
        if got.1 then eoiSpilled P v k got.2 else got.2
      else s

/-- One turn of the last loop of `gic_maintenance_handler`, which writes back
the `GICH_HCR` it read before the call. -/
def lrenpTurn (v : Nat) (hcr : Hcr) (s : VgicState) : VgicState :=
  if hcr.eoiCount = 0 then goTo v .guest s
  else
    let hcr := { hcr with eoiCount := hcr.eoiCount - 1 }
    goTo v (.lrenp hcr) ((vgicEoirHighestSpilledActive P v s).gichSetHcr v hcr)

/-- A turn of `gic_maintenance_handler` from where the CPU is in it. -/
def gicMaintenanceTurn (v : Nat) (s : VgicState) : VgicState :=
  match (s.cpus v).pc with
  | .guest => startMaintenance P v s
  | .eoir misr lrInd => eoirTurn P v misr lrInd s
  | .refill misr flags lrInd => refillTurn P v misr flags lrInd s
  | .lrenp hcr => lrenpTurn P v hcr s

/-- What a vCPU or its guest does in one step. -/
inductive VgicOp
  | writeField (reg : VgicReg) (intId vgicrId data : Nat)
  | writeRoute (intId : Nat) (access : RouterAccess) (val : Nat)
  | writeCtlr (enable : Bool)
  | sendSgi (pcpuMask intId : Nat)
  | inject (id source : Nat)
  | injectHw (id : Nat)
  | deliver
  | maintain
  | ackLr (lrInd : Nat)
  | deactLr (lrInd : Nat)
  | countEoi
deriving DecidableEq

/-- A step of a vCPU. -/
structure VgicEvent where
  vcpu : Nat
  op : VgicOp

/-- `field_width` of the register handlers. -/
def VgicReg.fieldWidth : VgicReg → Nat
  | .icfgr => 2
  | .ipriorityr => 8
  | .itargetsr => 8
  | .irouter => 64
  | _ => 1

/-- The registers each version emulates with `vgic_emul_generic_access`. -/
def VgicReg.emulated (reg : VgicReg) : Bool :=
  match reg with
  | .irouter => false
  | .itargetsr => decide (P.ver = .gicv2)
  | _ => true

/-- When a vCPU can take a step: outside the maintenance handler, with the
arguments its caller ensures. -/
def VgicEvent.enabled (e : VgicEvent) (s : VgicState) : Prop :=
  e.vcpu < P.vcpuNum ∧
    match e.op with
    | .maintain => True
    | op =>
        (s.cpus e.vcpu).pc = .guest ∧
          match op with
          | .writeField reg intId vgicrId data =>
              reg.emulated P ∧ vgicrId < P.vcpuNum ∧
                (vgicrId = e.vcpu ∨ P.ver = .gicv3 ∧ gicIsPriv intId) ∧
                data < 2 ^ reg.fieldWidth ∧ (vgicGetInt P intId vgicrId).isSome
          | .writeRoute intId _ _ => P.ver = .gicv3 ∧ (vgicGetInt P intId e.vcpu).isSome
          | .sendSgi _ intId => intId < gicMaxSgis
          | .injectHw id => ∃ k, vgicGetInt P id e.vcpu = some k ∧ vgicIntIsHw P k
          | .deliver => s.inbox (P.physId e.vcpu) ≠ []
          | .ackLr lrInd => lrInd < P.numLrs ∧ ((s.cpus e.vcpu).lrs lrInd).state = .pend
          | .deactLr lrInd => lrInd < P.numLrs ∧ ((s.cpus e.vcpu).lrs lrInd).state.active
          | _ => True

/-- The guest changes the state of a list register. -/
def guestLr (v lrInd : Nat) (f : IntState → IntState) (s : VgicState) : VgicState :=
  let lr := (s.cpus v).lrs lrInd
  s.gichWriteLr v lrInd { lr with state := f lr.state }

/-- The state after a step.  A guest write gets the next number. -/
def VgicEvent.next (e : VgicEvent) (s : VgicState) : VgicState :=
  let v := e.vcpu
  match e.op with
  | .writeField reg intId vgicrId data =>
      match vgicGetInt P intId vgicrId with
      | none => s
      | some k =>
          vgicIntSetField P v reg k vgicrId data (some ⟨v, s.issued⟩)
            { s with issued := s.issued + 1 }
  | .writeRoute intId access val =>
      match vgicGetInt P intId v with
      | none => s
      | some k => vgicdEmulRouterAccess P v k access val s
  | .writeCtlr enable => vgicdWriteCtlr P v enable s
  | .sendSgi pcpuMask intId => vgicSendSgiMsg P v pcpuMask intId s
  | .inject id source => vgicInject P v id source s
  | .injectHw id =>
      match vgicGetInt P id v with
      | none => s
      | some k => vgicInjectHw P v k s
  | .deliver =>
      match s.inbox (P.physId v) with
      | [] => s
      | msg :: rest => vgicIpiHandler P v msg { s with inbox := atCpu s.inbox (P.physId v) rest }
  | .maintain => gicMaintenanceTurn P v s
  | .ackLr lrInd => guestLr v lrInd (fun _ => .act) s
  | .deactLr lrInd => guestLr v lrInd (fun state => state.onlyPend) s
  | .countEoi =>
      let hcr := (s.cpus v).hcr
      s.gichSetHcr v { hcr with eoiCount := (hcr.eoiCount + 1) % 32 }

/-- The interrupt structures as `vgic_init` and `vgic_cpu_init` leave them;
they do not set `lr`, nor `in_spilled` of a shared interrupt. -/
def initInt (k : IntKey) (lr : Nat) (inSpilled : Bool) : VgicInt :=
  { owner := match k with
      | .priv v _ => some v
      | .shared _ => none
    route := gicdIrouterInv
    physRoute := match k with
      | .priv v _ => P.physId v
      | .shared _ => gicdIrouterInv
    state := .inv
    prio := gicLowestPrio
    cfg := if P.ver = .gicv3 ∧ gicIsSgi k.id then 2 else 0
    lr := lr
    targets := 0
    sgiAct := 0
    sgiPend := 0#8
    inLr := false
    inSpilled := inSpilled
    enabled := isV2Sgi P k }

/-- A vCPU's part after `gic_cpu_init` and `vgic_cpu_init`. -/
def initVgicCpu : VgicCpu :=
  { lrs := fun _ => .zero
    currLrs := fun _ => 0
    hcr := ⟨false, false, true, false, 0⟩
    spilled := []
    pc := .guest }

/-- The vGIC of a VM that was just created. -/
structure VgicInit (s : VgicState) : Prop where
  ints : ∀ k, ∃ lr inSpilled, s.ints k = initInt P k lr inSpilled
  priv : ∀ v id, (s.ints (.priv v id)).inSpilled = false
  cpus : ∀ v, s.cpus v = initVgicCpu
  spilled : s.spilled = []
  inbox : ∀ c, s.inbox c = []
  ctlr : s.ctlr = false
  history : s.lrWrites = [] ∧ s.applied = [] ∧ s.issued = 0

/-- The vGIC of a VM with all its vCPUs. -/
def vgicSystem : StepSystem VgicState VgicEvent where
  init := VgicInit P
  step s e s' := e.enabled P s ∧ s' = e.next P s

/-! ## Runs given by their steps -/

theorem any_vgicIntIsHw (found : Option IntKey) :
    found.any (vgicIntIsHw P) = true ↔ ∃ k, found = some k ∧ vgicIntIsHw P k = true := by
  cases found <;> simp

instance decidableFoundHw (found : Option IntKey) :
    Decidable (∃ k, found = some k ∧ vgicIntIsHw P k = true) :=
  decidable_of_iff _ (any_vgicIntIsHw P found)

instance (e : VgicEvent) (s : VgicState) : Decidable (e.enabled P s) := by
  obtain ⟨v, op⟩ := e
  unfold VgicEvent.enabled
  rcases op with _ | _ <;> infer_instance

/-- The state after steps taken one after the other. -/
def vgicRun (es : List VgicEvent) (s : VgicState) : VgicState :=
  es.foldl (fun s e => e.next P s) s

/-- Every step can be taken where it comes up, and meets `ok` there. -/
def RunMeets (ok : VgicState → VgicEvent → Prop) : List VgicEvent → VgicState → Prop
  | [], _ => True
  | e :: es, s => e.enabled P s ∧ ok s e ∧ RunMeets ok es (e.next P s)

instance (ok : VgicState → VgicEvent → Prop) [∀ s e, Decidable (ok s e)] :
    ∀ (es : List VgicEvent) (s : VgicState), Decidable (RunMeets P ok es s)
  | [], _ => .isTrue trivial
  | e :: es, s =>
      have := instDecidableRunMeets ok es (e.next P s)
      inferInstanceAs (Decidable (e.enabled P s ∧ ok s e ∧ RunMeets P ok es (e.next P s)))

theorem RunMeets.reach {P : VgicPlat} {ok : VgicState → VgicEvent → Prop} {es : List VgicEvent}
    {s : VgicState} (hs : (vgicSystem P).Reach ok s) (h : RunMeets P ok es s) :
    (vgicSystem P).Reach ok (vgicRun P es s) := by
  induction es generalizing s with
  | nil => exact hs
  | cons e es ih => exact ih (.step hs h.2.1 ⟨h.1, rfl⟩) h.2.2

/-- A vGIC just created on pages that were zero. -/
def vgicBoot : VgicState :=
  { ints := fun k => initInt P k 0 false
    cpus := fun _ => initVgicCpu
    spilled := []
    inbox := fun _ => []
    ctlr := false
    lrWrites := []
    issued := 0
    applied := [] }

theorem vgicBoot_init : VgicInit P (vgicBoot P) where
  ints _ := ⟨0, false, rfl⟩
  priv _ _ := rfl
  cpus _ := rfl
  spilled := rfl
  inbox _ := rfl
  ctlr := rfl
  history := ⟨rfl, rfl, rfl⟩

theorem RunMeets.fromBoot {P : VgicPlat} {ok : VgicState → VgicEvent → Prop}
    {es : List VgicEvent} (h : RunMeets P ok es (vgicBoot P)) :
    (vgicSystem P).Reach ok (vgicRun P es (vgicBoot P)) :=
  RunMeets.reach (.init (vgicBoot_init P)) h

/-- A VM with two vCPUs on the CPUs of their numbers. -/
def twoCpuGic (ver : GicVersion) (numLrs : Nat) (hw : Nat → Bool) : VgicPlat where
  ver := ver
  numLrs := numLrs
  cpuNum := 2
  vcpuNum := 2
  intNum := 64
  physId := id
  mpidr := id
  vmpidr := id
  hw k := hw k.id
  physId_inj _ _ h := h

end Bao

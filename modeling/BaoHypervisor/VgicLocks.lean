import BaoHypervisor.LockProgram
import BaoHypervisor.VgicSpilled

/-!
# The locks of the vGIC

The functions of `vgic.c`, `vgicv2.c` and `vgicv3.c` again, as programs that
take the lock of the distributor or of a redistributor, of an interrupt and of
the spilled lists where the source does.  What runs between two lock operations
is taken from `Vgic` and `VgicSystem`.  The locks of the CPUs' message queues
are taken last and held for one push or pop only; they are left out.
-/

namespace Bao

open LockProgram (Prog)
open LockProgram.Prog (get modify locked)

/-- `vgicd.lock`, `vgicr.lock` of a vCPU, the lock of an interrupt, and
`vgic_spilled_lock`. -/
inductive VgicLock
  | dist
  | redist (vcpu : Nat)
  | int (k : IntKey)
  | spilled
deriving DecidableEq

/-- The canonical order: distributor, interrupt, spilled lists.  An interrupt's
lock is also asked for under another one. -/
def vgicRanking : LockProgram.Ranking VgicLock where
  rank
    | .dist => 2
    | .redist _ => 2
    | .int _ => 1
    | .spilled => 0
  nests
    | .int _ => true
    | _ => false

/-- A program of the vGIC. -/
abbrev VgicProg := Prog VgicState VgicLock

variable (P : VgicPlat)

namespace Locked

/-- `vgic_add_spilled`. -/
def vgicAddSpilled (v : Nat) (k : IntKey) : VgicProg Unit :=
  locked .spilled (modify (Bao.vgicAddSpilled v k))

/-- What `vgic_write_lr` does with the previous occupant under its lock. -/
def dropRecord (v : Nat) (k : IntKey) (lrInd : Nat) (s : VgicState) : VgicState :=
  if vgicOwns v (s.ints k) ∧ (s.ints k).inLr ∧ (s.ints k).lr = lrInd then
    vgicYieldOwnership P v k (s.updInt k fun i => { i with inLr := false })
  else s

/-- The first part of `vgic_write_lr`. -/
def releaseOccupant (v : Nat) (k : IntKey) (lrInd : Nat) : VgicProg Unit := do
  let s ← get
  let prev := (s.cpus v).currLrs lrInd
  if prev = k.id ∨ gicIsPriv prev then pure ()
  else match vgicGetInt P prev v with
    | none => pure ()
    | some k' => locked (.int k') (modify (dropRecord P v k' lrInd))

/-- `vgic_write_lr`. -/
def vgicWriteLr (v : Nat) (k : IntKey) (lrInd : Nat) : VgicProg Unit := do
  releaseOccupant P v k lrInd
  modify (fillLr P v k lrInd)

/-- What `vgic_spill_lr` does with the interrupt it found in the register. -/
def spillInt (v : Nat) (k : IntKey) : VgicProg Unit :=
  locked (.int k) (do
    modify (vgicRemoveLr P v k)
    vgicAddSpilled v k
    modify (vgicYieldOwnership P v k))

/-- `vgic_spill_lr`. -/
def vgicSpillLr (v lrInd : Nat) : VgicProg Unit := do
  let s ← get
  match vgicGetInt P ((s.cpus v).lrs lrInd).vid v with
  | none => pure ()
  | some k => spillInt P v k

/-- The end of `vgic_add_lr`, with a register chosen. -/
def placeInLr (v : Nat) (k : IntKey) (lrInd : Nat) : VgicProg Unit := do
  let s ← get
  if (s.ints k).inSpilled then locked .spilled (modify (vgicRemoveSpilled v k)) else pure ()
  vgicWriteLr P v k lrInd

/-- `vgic_add_lr`. -/
def vgicAddLr (v : Nat) (k : IntKey) : VgicProg Unit := do
  let s ← get
  if (!(s.ints k).enabled && !(s.ints k).state.active) || (s.ints k).inLr then pure ()
  else match firstLr P v elrsr s with
    | some lrInd => placeInLr P v k lrInd
    | none => match victimLr P v k s with
      | some lrInd => do
          vgicSpillLr P v lrInd
          placeInLr P v k lrInd
      | none => vgicAddSpilled v k

/-- `vgic_route` once `vgic_add_lr` has been tried. -/
def routeElsewhere (v : Nat) (k : IntKey) : VgicProg Unit := do
  let s ← get
  let i := s.ints k
  let forward := !i.inLr && !i.state.active && vgicIntHasOtherTarget P v k i
  let forwarded := forward && !(routeTargets P v i).isEmpty
  if forward then modify (forwardRoute P v k) else pure ()
  let s ← get
  if !(s.ints k).inLr && !forwarded then vgicAddSpilled v k else pure ()

/-- `vgic_route`. -/
def vgicRoute (v : Nat) (k : IntKey) : VgicProg Unit := do
  let s ← get
  let i := s.ints k
  if i.state = .inv then pure ()
  else if !i.enabled && !i.state.active then pure ()
  else do
    if vgicIntVcpuIsTarget P v k i then vgicAddLr P v k else pure ()
    routeElsewhere P v k

/-- `vgic_get_ownership`. -/
def vgicGetOwnership (v : Nat) (k : IntKey) : VgicProg Bool := do
  let s ← get
  modify fun s => (Bao.vgicGetOwnership v k s).2
  pure (Bao.vgicGetOwnership v k s).1

/-- `vgic_int_set_field`. -/
def vgicIntSetField (v : Nat) (reg : VgicReg) (k : IntKey) (vgicrId data : Nat)
    (tag : Option WriteTag) : VgicProg Unit :=
  locked (.int k) (do
    let got ← vgicGetOwnership v k
    if got then do
      modify (vgicRemoveLr P v k)
      modify (applyField P reg k data tag)
      vgicRoute P v k
      modify (vgicYieldOwnership P v k)
    else modify (forwardToOwner P k (.setReg vgicrId k.id reg data tag)))

/-- `vgic_int_reroute`. -/
def vgicIntReroute (v : Nat) (k : IntKey) (tag : Option WriteTag) : VgicProg Unit :=
  locked (.int k) (do
    let got ← vgicGetOwnership v k
    if got then do
      modify (vgicRemoveLr P v k)
      vgicRoute P v k
      modify (vgicYieldOwnership P v k)
    else modify (forwardToOwner P k (.setReg 0 k.id .irouter 0 tag)))

/-- What `vgicd_emul_router_access` does under the interrupt's lock. -/
def mergeSetRoute (v : Nat) (k : IntKey) (access : RouterAccess) (val : Nat) (s : VgicState) :
    VgicState :=
  let route := if gicIsPriv k.id then 0 else (s.ints k).route
  vgicIntSetRoute P v k (mergeRoute access route val) s

/-- `vgicd_emul_router_access` for a write. -/
def vgicdEmulRouterAccess (v : Nat) (k : IntKey) (access : RouterAccess) (val : Nat) :
    VgicProg Unit := do
  locked (.int k) (modify (mergeSetRoute P v k access val))
  vgicIntReroute P v k none

/-- The loop of `vgic_emul_generic_access` for a write, from an interrupt on,
with the values of the fields. -/
def writeFields (v : Nat) (reg : VgicReg) (vgicrId : Nat) : Nat → List Nat → VgicProg Unit
  | _, [] => pure ()
  | intId, data :: rest =>
      match vgicGetInt P intId vgicrId with
      | none => pure ()
      | some k => do
          let s ← get
          modify fun s => { s with issued := s.issued + 1 }
          vgicIntSetField P v reg k vgicrId data (some ⟨v, s.issued⟩)
          writeFields v reg vgicrId (intId + 1) rest

/-- `vgic_inject_hw`. -/
def vgicInjectHw (v : Nat) (k : IntKey) : VgicProg Unit :=
  locked (.int k) (do
    modify (takeHw v k)
    vgicAddLr P v k)

/-- `vgic_inject_sgi`. -/
def vgicInjectSgi (v : Nat) (k : IntKey) (source : Nat) : VgicProg Unit :=
  locked (.int k) (do
    modify (vgicRemoveLr P v k)
    let s ← get
    if (s.ints k).sgiPend = (s.ints k).sgiPend ||| 1#8 <<< source then pure ()
    else do
      modify (addSource k source)
      vgicAddLr P v k)

/-- `vgic_inject`. -/
def vgicInject (v id source : Nat) : VgicProg Unit :=
  match vgicGetInt P id v with
  | none => pure ()
  | some k =>
      if vgicIntIsHw P k then vgicInjectHw P v k
      else if isV2Sgi P k then vgicInjectSgi P v k source
      else vgicIntSetField P v .ispendr k v 1 none

/-- The `VGIC_ROUTE` case of `vgic_ipi_handler`. -/
def handleRoute (v : Nat) (k : IntKey) : VgicProg Unit :=
  locked (.int k) (do
    let got ← vgicGetOwnership v k
    if got then do
      let s ← get
      if vgicIntVcpuIsTarget P v k (s.ints k) then vgicAddLr P v k else pure ()
      modify (vgicYieldOwnership P v k)
    else pure ())

/-- `vgic_ipi_handler`. -/
def vgicIpiHandler (v : Nat) (msg : VgicMsg) : VgicProg Unit :=
  match msg with
  | .updateEnable => modify (vgicUpdateEnable v)
  | .route _ intId =>
      match vgicGetInt P intId v with
      | none => pure ()
      | some k => handleRoute P v k
  | .inject intId val => vgicInject P v intId val
  | .setReg vgicrId intId reg val tag =>
      match vgicGetInt P intId vgicrId with
      | none => pure ()
      | some k =>
          if reg = .irouter then vgicIntReroute P v k tag
          else vgicIntSetField P v reg k vgicrId val tag

/-- The end of a turn of `vgic_handle_trapped_eoir`. -/
def nextEoir (v : Nat) (misr : Misr) (s : VgicState) : VgicState :=
  match firstLr P v eisr s with
  | some lrInd => goTo v (.eoir misr lrInd) s
  | none => startRefill P v misr s

/-- What `vgic_handle_trapped_eoir` does with the interrupt. -/
def trappedEoi (v : Nat) (k : IntKey) : VgicProg Unit :=
  locked (.int k) (do
    modify fun s => s.updInt k fun i => { i with inLr := false }
    if gicIsSgi k.id then vgicAddLr P v k else modify (vgicYieldOwnership P v k))

/-- One turn of the loop of `vgic_handle_trapped_eoir`. -/
def eoirTurn (v : Nat) (misr : Misr) (lrInd : Nat) : VgicProg Unit := do
  let s ← get
  modify fun s => s.gichWriteLr v lrInd .zero
  match vgicGetInt P (lrIrqId P ((s.cpus v).lrs lrInd)) v with
  | none => pure ()
  | some k => do
      trappedEoi P v k
      modify (nextEoir P v misr)

/-- The search of `vgic_refill_lrs`, which ends the refilling when it finds
nothing. -/
def refillSearch (v : Nat) (flags : IntState) : VgicProg (Option IntKey) :=
  locked .spilled (do
    let s ← get
    match vgicHighestPrioSpilled P v flags s with
    | none => do
        modify (refillDone v)
        pure none
    | some k => pure (some k))

/-- The second look at a candidate, under both locks: whether it is listed with
a state that counts, and whether the vCPU took it off the list. -/
def takeCandidate (v : Nat) (flags : IntState) (k : IntKey) : VgicProg (Bool × Bool) :=
  locked .spilled (do
    let s ← get
    if (s.ints k).inSpilled && (vgicGetState P v k s).meets flags then do
      let got ← vgicGetOwnership v k
      if got then modify (vgicRemoveSpilled v k) else pure ()
      pure (true, got)
    else pure (false, false))

/-- The end of a turn of `vgic_refill_lrs` that filled a register. -/
def nextRefill (v : Nat) (misr : Misr) (s : VgicState) : VgicState :=
  match firstLr P v elrsr s with
  | some lrInd => goTo v (.refill misr .pendact lrInd) s
  | none => startLrenp v misr s

/-- One turn of the loop of `vgic_refill_lrs`. -/
def refillTurn (v : Nat) (misr : Misr) (flags : IntState) (lrInd : Nat) : VgicProg Unit := do
  let candidate ← refillSearch P v flags
  match candidate with
  | none => modify (startLrenp v misr)
  | some k =>
      locked (.int k) (do
        let taken ← takeCandidate P v flags k
        if taken.2 then do
          vgicWriteLr P v k lrInd
          modify (nextRefill P v misr)
        else pure ())

/-- What `vgic_eoir_highest_spilled_active` does once it owns its
candidate. -/
def eoiSpilled (v : Nat) (k : IntKey) : VgicProg Unit := do
  modify fun s => s.updInt k fun i => { i with state := { i.state with active := false } }
  let s ← get
  if vgicIntIsHw P k then pure ()
  else if (s.ints k).state.pending then vgicAddLr P v k
  else pure ()

/-- One turn of the loop of `vgic_eoir_highest_spilled_active`; the result is
`done`. -/
def vgicEoirHighestSpilledActive (v : Nat) : VgicProg Bool := do
  let candidate ← locked .spilled (do
    let s ← get
    pure (vgicHighestPrioSpilled P v .act s))
  match candidate with
  | none => pure true
  | some k =>
      locked (.int k) (do
        let taken ← takeCandidate P v .act k
        if taken.2 then eoiSpilled P v k else pure ()
        pure taken.1)

/-- The end of a turn of the last loop of `gic_maintenance_handler`. -/
def nextLrenp (v : Nat) (hcr : Hcr) (s : VgicState) : VgicState :=
  let hcr := { hcr with eoiCount := hcr.eoiCount - 1 }
  goTo v (.lrenp hcr) (s.gichSetHcr v hcr)

/-- One turn of the last loop of `gic_maintenance_handler`, or of the loop
inside it when the candidate was gone. -/
def lrenpTurn (v : Nat) (hcr : Hcr) : VgicProg Unit :=
  if hcr.eoiCount = 0 then modify (goTo v .guest)
  else do
    let done ← vgicEoirHighestSpilledActive P v
    if done then modify (nextLrenp v hcr) else pure ()

/-- A turn of `gic_maintenance_handler` from where the CPU is in it. -/
def gicMaintenanceTurn (v : Nat) : VgicProg Unit := do
  let s ← get
  match (s.cpus v).pc with
  | .guest => modify (startMaintenance P v)
  | .eoir misr lrInd => eoirTurn P v misr lrInd
  | .refill misr flags lrInd => refillTurn P v misr flags lrInd
  | .lrenp hcr => lrenpTurn P v hcr

end Locked

/-- What a CPU of the VM can be made to do: an access to a register of the
distributor or of a redistributor, an injection, a message, a turn of the
maintenance handler, or the guest's own use of its list registers. -/
inductive VgicCall
  | writeFields (gicr : Bool) (reg : VgicReg) (first vgicrId : Nat) (data : List Nat)
  | otherAccess (gicr : Bool) (vgicrId : Nat)
  | writeRoute (intId : Nat) (access : RouterAccess) (val : Nat)
  | writeCtlr (enable : Bool)
  | sendSgi (pcpuMask intId : Nat)
  | inject (id source : Nat)
  | injectHw (id : Nat)
  | deliver
  | maintain
  | ackLr (lrInd : Nat)
  | deactLr (lrInd : Nat)
  | countEoi
deriving DecidableEq

/-- The lock of a register access. -/
def accessLock (gicr : Bool) (vgicrId : Nat) : VgicLock :=
  if gicr then .redist vgicrId else .dist

/-- The program of a call. -/
def VgicCall.body (v : Nat) : VgicCall → VgicProg Unit
  | .writeFields gicr reg first vgicrId data =>
      locked (accessLock gicr vgicrId)
        (if P.ver = .gicv2 ∨ gicr = gicIsPriv first then
          Locked.writeFields P v reg vgicrId first data
        else pure ())
  | .otherAccess gicr vgicrId => locked (accessLock gicr vgicrId) (pure ())
  | .writeRoute intId access val =>
      locked .dist
        (match vgicGetInt P intId v with
        | none => pure ()
        | some k => Locked.vgicdEmulRouterAccess P v k access val)
  | .writeCtlr enable => locked .dist (modify (vgicdWriteCtlr P v enable))
  | .sendSgi pcpuMask intId =>
      if P.ver = .gicv2 then locked .dist (modify (vgicSendSgiMsg P v pcpuMask intId))
      else modify (vgicSendSgiMsg P v pcpuMask intId)
  | .inject id source => Locked.vgicInject P v id source
  | .injectHw id =>
      match vgicGetInt P id v with
      | none => pure ()
      | some k => Locked.vgicInjectHw P v k
  | .deliver => do
      let s ← get
      match s.inbox (P.physId v) with
      | [] => pure ()
      | msg :: _ => do
          modify fun s =>
            { s with inbox := atCpu s.inbox (P.physId v) (s.inbox (P.physId v)).tail }
          Locked.vgicIpiHandler P v msg
  | .maintain => Locked.gicMaintenanceTurn P v
  | .ackLr lrInd => modify (guestLr v lrInd fun _ => .act)
  | .deactLr lrInd => modify (guestLr v lrInd fun state => state.onlyPend)
  | .countEoi => modify fun s =>
      let hcr := (s.cpus v).hcr
      s.gichSetHcr v { hcr with eoiCount := (hcr.eoiCount + 1) % 32 }

/-- When a CPU can make a call: outside the maintenance handler, with the
arguments its caller ensures. -/
def VgicCall.ready (v : Nat) (call : VgicCall) (s : VgicState) : Prop :=
  match call with
  | .maintain => True
  | call =>
      (s.cpus v).pc = .guest ∧
        match call with
        | .writeFields gicr reg _ vgicrId data =>
            reg.emulated P ∧ vgicrId < P.vcpuNum ∧ (gicr = true → P.ver = .gicv3) ∧
              (gicr = false → vgicrId = v) ∧ ∀ d ∈ data, d < 2 ^ reg.fieldWidth
        | .otherAccess gicr vgicrId =>
            vgicrId < P.vcpuNum ∧ (gicr = true → P.ver = .gicv3) ∧ (gicr = false → vgicrId = v)
        | .writeRoute intId _ _ => P.ver = .gicv3 ∧ (vgicGetInt P intId v).isSome
        | .sendSgi _ intId => intId < gicMaxSgis
        | .injectHw id => ∃ k, vgicGetInt P id v = some k ∧ vgicIntIsHw P k
        | .deliver => s.inbox (P.physId v) ≠ []
        | .ackLr lrInd => lrInd < P.numLrs ∧ ((s.cpus v).lrs lrInd).state = .pend
        | .deactLr lrInd => lrInd < P.numLrs ∧ ((s.cpus v).lrs lrInd).state.active
        | _ => True

instance (v : Nat) (call : VgicCall) (s : VgicState) : Decidable (call.ready P v s) := by
  unfold VgicCall.ready
  rcases call with _ | _ <;> infer_instance

/-- The CPUs of a VM and what they do with its vGIC, lock by lock. -/
def vgicWorkload : LockProgram.Workload VgicState VgicLock VgicCall where
  init := VgicInit P
  cpus := P.vcpuNum
  ready v call s := call.ready P v s
  body v call := call.body P v

instance (v : Nat) (call : VgicCall) (s : VgicState) :
    Decidable ((vgicWorkload P).ready v call s) :=
  inferInstanceAs (Decidable (call.ready P v s))

end Bao

import BaoHypervisor.RemioSetup
import BaoHypervisor.RemioSlots

/-!
# Where Remote I/O messages go

The CPU id of each side of a device starts as `(cpuid_t)-1` and is filled in
when the VM of that side assigns its CPUs.  An access of the frontend waits for
both sides; a notification does not, and when one VM has both roles the
`else if` of `remio_assign_vm_cpus` never fills in its frontend.  The theorem
below says that in every run of a configuration whose keys pair two VMs, and in
which no notification comes before its frontend VM was initialised, every
message goes to a CPU of the VM it is meant for.
-/

namespace Bao

variable {p : RemioPlatform} {s s' : RemioState}

/-- What a message is for. -/
inductive RemioPurpose
  | request
  | notify
  | completion (requestId : Nat)
deriving DecidableEq, Repr

/-- A call of `remio_cpu_send_msg`: what for, about the device with which key,
and the target CPU. -/
structure RemioSend where
  purpose : RemioPurpose
  bindKey : Nat
  targetCpu : Nat
deriving DecidableEq, Repr

/-- The call of `remio_cpu_send_msg` in a write or read on device `d`. -/
def remioHypercallRwSend (p : RemioPlatform) (s : RemioState) (cpu : Nat) (args : RemioArgs)
    (d : Nat) : Option RemioSend :=
  let requestId := p.machine.ssize args.requestId
  match remioHandleRw s args.value requestId d with
  | (false, _) => none
  | (true, s') =>
      match remioGetRequest s' d requestId with
      | (none, _) => none
      | (some r, s'') =>
          some ⟨.completion r, remioHypercallKey p cpu args, (s''.requests.objs r).cpuId⟩

/-- The call of `remio_cpu_send_msg` in a step, if it makes one. -/
def RemioEvent.send (p : RemioPlatform) (s : RemioState) : RemioEvent → Option RemioSend
  | .mmio cpu acc =>
      match remioFindVmDevByAddr p s.devices (p.vmOf cpu) acc.addr with
      | none => none
      | some d => s.devices[d]?.map fun dev => ⟨.request, dev.bindKey, dev.backend.cpuId⟩
  | .hypercall cpu args _ _ =>
      match remioHypercallDevice p s cpu args with
      | .error _ => none
      | .ok d =>
          if args.op = hypWrite ∨ args.op = hypRead then remioHypercallRwSend p s cpu args d
          else if args.op = hypNotify then
            s.devices[d]?.map fun dev => ⟨.notify, dev.bindKey, dev.frontend.cpuId⟩
          else none
  | _ => none

/-- What an observer knows: which VMs were initialised, and which CPU made the
access that each request slot was taken for. -/
structure RemioSeen where
  started : Nat → Bool
  requester : Nat → Option Nat

/-- VM `vm` has initialised its Remote I/O. -/
def RemioSeen.start (t : RemioSeen) (vm : Nat) : RemioSeen :=
  { t with started := fun v => if v = vm then true else t.started v }

/-- Slot `id` was taken for an access of `cpu`. -/
def RemioSeen.ask (t : RemioSeen) (id cpu : Nat) : RemioSeen :=
  { t with requester := fun r => if r = id then some cpu else t.requester r }

/-- What the observer learns from a step. -/
def remioObserve (p : RemioPlatform) (s : RemioState) : RemioEvent → RemioSeen → RemioSeen
  | .assign cpu, t => t.start (p.vmOf cpu)
  | .mmio cpu _, t =>
      match s.requests.objpoolAllocWithId with
      | none => t
      | some (id, _) => t.ask id cpu
  | _, t => t

/-- The Remote I/O system with the observer. -/
def remioWatched (p : RemioPlatform) : StepSystem (RemioState × RemioSeen) RemioEvent :=
  (remioSystem p).watch ⟨fun _ => false, fun _ => none⟩ (remioObserve p)

/-- Steps are made by CPUs of the platform, and guest code runs once its VM was
initialised. -/
def RemioGuest (p : RemioPlatform) (t : RemioSeen) : RemioEvent → Prop
  | .assign cpu => cpu < p.cpuNum
  | .mmio cpu _ => cpu < p.cpuNum ∧ t.started (p.vmOf cpu) = true
  | .mmioRefused cpu _ => cpu < p.cpuNum ∧ t.started (p.vmOf cpu) = true
  | .hypercall cpu _ _ _ => cpu < p.cpuNum ∧ t.started (p.vmOf cpu) = true
  | .deliver _ _ => True

/-- A notification comes after the frontend VM of its device was initialised. -/
def RemioNotifyOk (p : RemioPlatform) (t : RemioSeen) : RemioEvent → Prop
  | .hypercall cpu args _ _ => args.op = hypNotify →
      ∀ vm, p.Has vm .frontend (remioHypercallKey p cpu args) → t.started vm = true
  | _ => True

/-- CPU `cpu` is a CPU of the platform, and runs the VM with the role `type`
for the device with the key. -/
def RemioPlatform.RunsOn (p : RemioPlatform) (type : RemioDevType) (bindKey cpu : Nat) : Prop :=
  cpu < p.cpuNum ∧ p.Has (p.vmOf cpu) type bindKey ∧
    ∀ vm, p.Has vm type bindKey → vm = p.vmOf cpu

/-- **The right target**: the backend VM for a request, the frontend VM for a
notification, the CPU that made the access for a completion. -/
def RemioSend.Right (p : RemioPlatform) (t : RemioSeen) (send : RemioSend) : Prop :=
  match send.purpose with
  | .request => p.RunsOn .backend send.bindKey send.targetCpu
  | .notify => p.RunsOn .frontend send.bindKey send.targetCpu
  | .completion r => send.targetCpu < p.cpuNum ∧ t.requester r = some send.targetCpu

/-- The queues after a step: a delivery takes a message, any other step appends
that of its `remio_cpu_send_msg` to the queue of the target, or loses it, or
makes no such call. -/
def RemioQueues (p : RemioPlatform) (s : RemioState) (e : RemioEvent) (s' : RemioState) : Prop :=
  match e with
  | .deliver cpu msg => s.msgs cpu = msg :: s'.msgs cpu ∧ ∀ c, c ≠ cpu → s'.msgs c = s.msgs c
  | e =>
      match e.send p s with
      | none => s'.msgs = s.msgs
      | some send => ∃ queued msg, s'.msgs = (remioCpuSendMsg s queued send.targetCpu msg).msgs

/-! ## What does not change -/

/-- A device without its list. -/
def RemioDevice.unlisted (dev : RemioDevice) : RemioDevice := { dev with pending := [] }

/-- The devices are the same but for their lists. -/
def SameSides (s s' : RemioState) : Prop :=
  s'.devices.map RemioDevice.unlisted = s.devices.map RemioDevice.unlisted

theorem SameSides.of_devices (h : s'.devices = s.devices) : SameSides s s' := by
  rw [SameSides, h]

theorem SameSides.set {d : Nat} {dev : RemioDevice} {pending : List Nat} (hdev : s.DeviceAt d dev)
    (h : s'.devices = s.devices.set d { dev with pending := pending }) : SameSides s s' := by
  obtain ⟨hlt, rfl⟩ := List.getElem?_eq_some_iff.mp hdev
  have hlt' : d < (s.devices.map RemioDevice.unlisted).length := by
    rw [List.length_map]
    exact hlt
  have hsame : ({ s.devices[d] with pending := pending } : RemioDevice).unlisted =
      (s.devices.map RemioDevice.unlisted)[d] := by
    rw [List.getElem_map]
    rfl
  rw [SameSides, h, List.map_set, hsame]
  exact List.set_getElem_self _

theorem SameSides.device (h : SameSides s s') {d : Nat} {dev' : RemioDevice}
    (hdev' : s'.DeviceAt d dev') :
    ∃ dev, s.DeviceAt d dev ∧ dev'.unlisted = dev.unlisted := by
  have hget : (s.devices.map RemioDevice.unlisted)[d]? = some dev'.unlisted := by
    rw [← h, List.getElem?_map, hdev']
    rfl
  rw [List.getElem?_map, Option.map_eq_some_iff] at hget
  obtain ⟨dev, hdev, heq⟩ := hget
  exact ⟨dev, hdev, heq.symm⟩

/-- **A hypercall** changes no side of a device, and its message is the one
that `send` says. -/
theorem remioHypercall_sends {queued : Bool} {cpu : Nat} {args : RemioArgs} {ret : Int}
    {regs : List Nat} (hl : RemioListed p s) (hword : args.requestId < p.machine.wordCount)
    (h : remioHypercall p s queued cpu args = (ret, regs, s')) :
    SameSides s s' ∧ RemioQueues p s (.hypercall cpu args ret regs) s' := by
  unfold RemioQueues
  simp only [RemioEvent.send]
  rw [remioHypercall] at h
  cases hd : remioHypercallDevice p s cpu args with
  | error code =>
      simp only [hd] at h ⊢
      cases h
      exact ⟨.of_devices rfl, rfl⟩
  | ok d =>
      simp only [hd] at h ⊢
      by_cases hrw : args.op = hypWrite ∨ args.op = hypRead
      · rw [if_pos hrw] at h
        rw [if_pos hrw, remioHypercallRwSend]
        simp only [remioHypercallRw] at h
        cases hhandle : remioHandleRw s args.value (p.machine.ssize args.requestId) d with
        | mk ok s1 =>
            rw [hhandle] at h
            rcases remioHandleRw_cases hl hword hhandle with ⟨rfl, rfl, _⟩ |
              ⟨rfl, _, dev, r, rest, hdev, _, rfl⟩ | ⟨rfl, dev, hdev, _, _, _, rfl, hagain⟩
            · cases h
              exact ⟨.of_devices rfl, rfl⟩
            · cases h
              exact ⟨.set hdev rfl, rfl⟩
            · simp only [hagain] at h ⊢
              cases h
              refine ⟨?_, queued, remioMsg (if args.op = hypWrite then .write else .read)
                (remioHypercallKey p cpu args) args.requestId 0, ?_⟩
              · cases queued <;> exact .of_devices rfl
              · cases queued <;> rfl
      · rw [if_neg hrw] at h
        rw [if_neg hrw]
        by_cases hask : args.op = hypAsk
        · rw [if_pos hask] at h
          rw [if_neg (by rw [hask]; decide)]
          rcases remioHandleAsk_cases hl h with ⟨_, _, rfl, _⟩ |
            ⟨_, _, _, _, dev, r, rest, hdev, _, rfl⟩
          · exact ⟨.of_devices rfl, rfl⟩
          · exact ⟨.set hdev rfl, rfl⟩
        · rw [if_neg hask] at h
          by_cases hnotify : args.op = hypNotify
          · rw [if_pos hnotify] at h
            rw [if_pos hnotify]
            cases hdev : s.devices[d]? with
            | none =>
                simp only [hdev] at h
                cases h
                exact ⟨.of_devices rfl, rfl⟩
            | some dev =>
                simp only [hdev] at h
                cases h
                refine ⟨?_, queued, _, rfl⟩
                cases queued <;> exact .of_devices rfl
          · rw [if_neg hnotify] at h
            rw [if_neg hnotify]
            cases h
            exact ⟨.of_devices rfl, rfl⟩

theorem remioCpuMsgHandler_msgs (s : RemioState) (cpu : Nat) (msg : RemioMsg) :
    (remioCpuMsgHandler s cpu msg).msgs = s.msgs := by
  by_cases hnotify : msg.event = .notify
  · rw [remioCpuMsgHandler, hnotify]
  · rcases remioCpuMsgHandler_work s cpu hnotify with hfail | hfree
    · rw [hfail]
    · rw [hfree]

/-- **The queues of every step** are as `send` says. -/
theorem remioStep_queues (hl : RemioListed p s) {e : RemioEvent} (hstep : RemioStep p s e s') :
    RemioQueues p s e s' := by
  cases hstep with
  | assign => exact rfl
  | @mmio _ cpu d acc dev queued _ hfind hdev _ h =>
      obtain ⟨id, _, dev', _, hdev', _, hmsgs, _⟩ := remioMmioEmulHandler_some h
      unfold RemioQueues
      simp only [RemioEvent.send, hfind, hdev, Option.map_some]
      obtain rfl := Option.some.inj (hdev.symm.trans hdev')
      exact ⟨queued, _, hmsgs⟩
  | mmioRefused => exact rfl
  | mmioNoDevice => exact rfl
  | hypercall _ hword h => exact (remioHypercall_sends hl hword h).2
  | @deliver cpu msg rest _ hmsgs =>
      unfold RemioQueues
      rw [remioCpuMsgHandler_msgs]
      refine ⟨?_, fun c hc => if_neg hc⟩
      simp only [hmsgs, if_true]

/-! ## The invariant -/

/-- A side of a device: its VM has the role, and it is ready once that VM was
initialised; its CPU is then one of that VM, and `(cpuid_t)-1` before. -/
structure RemioSideOk (p : RemioPlatform) (t : RemioSeen) (bindKey : Nat) (type : RemioDevType)
    (side : RemioEndpoint) : Prop where
  role : p.Has side.vmId type bindKey
  ready : side.ready = t.started side.vmId
  assigned : side.ready = true → side.cpuId < p.cpuNum ∧ p.vmOf side.cpuId = side.vmId
  waiting : side.ready = false → side.cpuId = p.machine.sizeMax

/-- Both sides are right, and the device is ready when both are. -/
structure RemioDeviceOk (p : RemioPlatform) (t : RemioSeen) (dev : RemioDevice) : Prop where
  side : ∀ type, RemioSideOk p t dev.bindKey type (dev.side type)
  ready : dev.ready = (dev.backend.ready && dev.frontend.ready)

/-- **The invariant**: the lists are right, every device is, and every request
slot in use has the CPU that made its access. -/
structure RemioTargets (p : RemioPlatform) (w : RemioState × RemioSeen) : Prop where
  listed : RemioListed p w.1
  device : ∀ d dev, w.1.DeviceAt d dev → RemioDeviceOk p w.2 dev
  requester : ∀ r cpu, w.1.RequestOf r cpu → cpu < p.cpuNum ∧ w.2.requester r = some cpu
  single : ∀ vm vm' type key, p.Has vm type key → p.Has vm' type key → vm = vm'

theorem RemioDeviceOk.congr {t : RemioSeen} {dev dev' : RemioDevice} (h : RemioDeviceOk p t dev)
    (hsame : dev'.unlisted = dev.unlisted) : RemioDeviceOk p t dev' := by
  have hun : RemioDeviceOk p t dev'.unlisted := by
    rw [hsame]
    exact ⟨fun type => by cases type <;> [exact h.side .frontend; exact h.side .backend], h.ready⟩
  exact ⟨fun type => by cases type <;> [exact hun.side .frontend; exact hun.side .backend],
    hun.ready⟩

theorem RemioDeviceOk.started_congr {t t' : RemioSeen} {dev : RemioDevice}
    (h : RemioDeviceOk p t dev) (hsame : t'.started = t.started) : RemioDeviceOk p t' dev := by
  refine ⟨fun type => ?_, h.ready⟩
  have hside := h.side type
  exact ⟨hside.role, by rw [hsame]; exact hside.ready, hside.assigned, hside.waiting⟩

theorem min_sizeMax {cpu : Nat} (hcpu : cpu < p.cpuNum) : min p.machine.sizeMax cpu = cpu := by
  have hcount := p.machine.sixtyFour_le_pageCount
  have hword := p.machine.two_pageCount_le_signBit
  have hsign := p.machine.signBit_lt_wordCount
  have hnum := p.cpuNum_le
  unfold Machine.sizeMax
  omega

theorem RemioSideOk.assign {t : RemioSeen} {key cpu : Nat} {type : RemioDevType}
    {side : RemioEndpoint} (h : RemioSideOk p t key type side) (hcpu : cpu < p.cpuNum)
    (hvm : p.vmOf cpu = side.vmId) :
    RemioSideOk p (t.start (p.vmOf cpu)) key type
      { side with cpuId := min side.cpuId cpu, ready := true } := by
  refine ⟨h.role, ?_, fun _ => ?_, fun hready => Bool.noConfusion hready⟩
  · simp only [RemioSeen.start, hvm, if_true]
  · cases hready : side.ready with
    | false =>
        simp only [h.waiting hready, min_sizeMax hcpu]
        exact ⟨hcpu, hvm⟩
    | true =>
        obtain ⟨hlt, hown⟩ := h.assigned hready
        rcases Nat.le_total side.cpuId cpu with hle | hle
        · simp only [Nat.min_eq_left hle]
          exact ⟨hlt, hown⟩
        · simp only [Nat.min_eq_right hle]
          exact ⟨hcpu, hvm⟩

theorem RemioSideOk.assign_other {t : RemioSeen} {key cpu : Nat} {type : RemioDevType}
    {side : RemioEndpoint} (h : RemioSideOk p t key type side) (hvm : p.vmOf cpu ≠ side.vmId) :
    RemioSideOk p (t.start (p.vmOf cpu)) key type side := by
  refine ⟨h.role, ?_, h.assigned, h.waiting⟩
  have hne : side.vmId ≠ p.vmOf cpu := fun heq => hvm heq.symm
  simp only [RemioSeen.start, if_neg hne]
  exact h.ready

/-- **One assignment.**  As no VM has both sides of a device, the side that
`assignDevice` picks is the one of the VM. -/
theorem RemioDeviceOk.assign {t : RemioSeen} {dev : RemioDevice} {cpu : Nat} (hp : p.Paired)
    (h : RemioDeviceOk p t dev) (hcpu : cpu < p.cpuNum) :
    RemioDeviceOk p (t.start (p.vmOf cpu)) (assignDevice (p.vmOf cpu) cpu dev) := by
  have hback : RemioSideOk p t dev.bindKey .backend dev.backend := h.side .backend
  have hfront : RemioSideOk p t dev.bindKey .frontend dev.frontend := h.side .frontend
  have hne : dev.backend.vmId ≠ dev.frontend.vmId := by
    intro heq
    exact hp.apart _ .backend _ hback.role (heq ▸ hfront.role)
  unfold assignDevice
  by_cases hvm : p.vmOf cpu = dev.backend.vmId
  · simp only [if_pos hvm]
    have hother : p.vmOf cpu ≠ dev.frontend.vmId := fun heq => hne (hvm.symm.trans heq)
    refine ⟨fun type => ?_, rfl⟩
    cases type with
    | backend => exact hback.assign hcpu hvm
    | frontend => exact hfront.assign_other hother
  · simp only [if_neg hvm]
    by_cases hvm' : p.vmOf cpu = dev.frontend.vmId
    · simp only [if_pos hvm']
      refine ⟨fun type => ?_, rfl⟩
      cases type with
      | backend => exact hback.assign_other hvm
      | frontend => exact hfront.assign hcpu hvm'
    · simp only [if_neg hvm']
      refine ⟨fun type => ?_, rfl⟩
      cases type with
      | backend => exact hback.assign_other hvm
      | frontend => exact hfront.assign_other hvm'

theorem RemioTargets.initial (hp : p.Paired) (h : RemioInitial p s) :
    RemioTargets p (s, ⟨fun _ => false, fun _ => none⟩) := by
  have hsetup := remioInit_setup hp h.1
  refine ⟨(remio_initial h).1, fun d dev hdev => ?_, fun r cpu hr => ?_,
    fun vm vm' type key => remioInit_unique hp h.1⟩
  · have hmem := List.mem_of_getElem? hdev
    obtain ⟨hidle, hsides⟩ := hsetup.idle dev hmem
    refine ⟨fun type => ?_, ?_⟩
    · refine ⟨hsetup.role dev hmem type, hsides type, fun hready => ?_,
        fun _ => hsetup.unassigned dev hmem type⟩
      rw [hsides type] at hready
      cases hready
    · have hback : dev.backend.ready = false := hsides .backend
      rw [hidle, hback]
      rfl
  · have hbit := hr.1.2
    rw [h.2.1] at hbit
    cases hbit

/-- **One step** keeps the targets right. -/
theorem RemioTargets.step {t : RemioSeen} {e : RemioEvent} (hp : p.Paired)
    (h : RemioTargets p (s, t)) (hguest : RemioGuest p t e) (hstep : RemioStep p s e s') :
    RemioTargets p (s', remioObserve p s e t) := by
  have hlisted := (remio_step h.listed hstep).1
  -- devices that keep their sides
  have hdevices : ∀ {t' : RemioSeen}, SameSides s s' → t'.started = t.started →
      ∀ d dev, s'.DeviceAt d dev → RemioDeviceOk p t' dev := by
    intro t' hsides hstarted d dev hdev
    obtain ⟨old, hold, hsame⟩ := hsides.device hdev
    exact ((h.device d old hold).congr hsame).started_congr hstarted
  cases hstep with
  | @assign cpu =>
      refine ⟨hlisted, fun d dev hdev => ?_, fun r c hr => h.requester r c hr, h.single⟩
      simp only [RemioState.DeviceAt, remioAssignVmCpus, List.getElem?_map,
        Option.map_eq_some_iff] at hdev
      obtain ⟨old, hold, rfl⟩ := hdev
      exact (h.device d old hold).assign hp hguest
  | @mmio _ cpu d acc dev queued _ _ _ _ hmmio =>
      obtain ⟨id, requests, dev', halloc, hdev', hset, _, hrequestOf, _⟩ :=
        remioMmioEmulHandler_some hmmio
      simp only [remioObserve, halloc]
      refine ⟨hlisted, hdevices (.set hdev' hset) rfl, fun r c hr => ?_, h.single⟩
      obtain ⟨_, hfree, _⟩ := ObjPool.objpoolAllocWithId_some halloc
      rcases (hrequestOf r c).mp hr with ⟨rfl, rfl⟩ | hr
      · exact ⟨hguest.1, if_pos rfl⟩
      · obtain ⟨hlt, hseen⟩ := h.requester r c hr
        have hne : r ≠ id := fun heq => hfree (heq ▸ hr.1)
        exact ⟨hlt, by simp only [RemioSeen.ask, if_neg hne]; exact hseen⟩
  | mmioRefused => exact h
  | mmioNoDevice => exact h
  | hypercall _ hword hcall =>
      obtain ⟨hsides, _⟩ := remioHypercall_sends h.listed hword hcall
      refine ⟨hlisted, hdevices hsides rfl, fun r c hr => ?_, h.single⟩
      exact h.requester r c (((SameOwners.hypercall hcall).requestOf r c).mp hr)
  | deliver _ hmsgs =>
      obtain ⟨hkept, howners⟩ := remioCpuMsgHandler_cases h.listed hmsgs rfl
      refine ⟨hlisted, hdevices (.of_devices hkept) rfl, fun r c hr => ?_, h.single⟩
      rcases howners with hsame | ⟨id, _, hrequestOf, _⟩
      · exact h.requester r c ((hsame.requestOf r c).mp hr)
      · exact h.requester r c ((hrequestOf r c).mp hr).1

/-! ## The targets -/

theorem RemioTargets.runsOn {t : RemioSeen} (h : RemioTargets p (s, t)) {d : Nat}
    {dev : RemioDevice} (hdev : s.DeviceAt d dev) (type : RemioDevType)
    (hready : (dev.side type).ready = true) :
    p.RunsOn type dev.bindKey (dev.side type).cpuId := by
  have hside := (h.device d dev hdev).side type
  obtain ⟨hlt, hvm⟩ := hside.assigned hready
  rw [RemioPlatform.RunsOn, hvm]
  exact ⟨hlt, hside.role, fun vm hhas => h.single vm _ type _ hhas hside.role⟩

theorem remioHypercallDevice_key {cpu d : Nat} {args : RemioArgs}
    (h : remioHypercallDevice p s cpu args = .ok d) :
    ∃ dev, s.DeviceAt d dev ∧ dev.bindKey = remioHypercallKey p cpu args := by
  rw [remioHypercallDevice] at h
  rw [remioHypercallKey]
  cases hentry : (p.remioDevs (p.vmOf cpu))[args.dmId]? with
  | none =>
      simp only [hentry] at h
      cases h
  | some entry =>
      simp only [hentry] at h ⊢
      cases hfind : remioFindVmDevByBindKey p s.devices (p.vmOf cpu) entry.bindKey with
      | none =>
          rw [hfind] at h
          cases h
      | some d' =>
          rw [hfind] at h
          obtain rfl := Except.ok.inj h
          exact remioFindDevByBindKey_some (remioFindVmDevByBindKey_some hfind).1

theorem RemioTargets.completion_right {t : RemioSeen} (h : RemioTargets p (s, t)) {cpu d : Nat}
    {args : RemioArgs} {send : RemioSend} (hword : args.requestId < p.machine.wordCount)
    (hsend : remioHypercallRwSend p s cpu args d = some send) : send.Right p t := by
  simp only [remioHypercallRwSend] at hsend
  cases hhandle : remioHandleRw s args.value (p.machine.ssize args.requestId) d with
  | mk ok s1 =>
      rw [hhandle] at hsend
      rcases remioHandleRw_cases h.listed hword hhandle with ⟨rfl, _⟩ | ⟨rfl, _⟩ |
        ⟨rfl, dev, _, hlt, _, hstate, rfl, hagain⟩
      · cases hsend
      · cases hsend
      · simp only [hagain] at hsend
        obtain rfl := Option.some.inj hsend
        have hused : s.requests.Used args.requestId :=
          (h.listed.inUse _ hlt).mpr (by rw [hstate]; exact RemioReqState.noConfusion)
        have hreq := h.requester args.requestId _ ⟨hused, rfl⟩
        simpa only [RemioSend.Right, RemioState.setRequest, ObjPool.setObj_same, answered] using hreq

/-- **The target of every message is right.** -/
theorem RemioTargets.send_right {t : RemioSeen} (h : RemioTargets p (s, t)) {e : RemioEvent}
    (hnotify : RemioNotifyOk p t e) (hstep : RemioStep p s e s') {send : RemioSend}
    (hsend : e.send p s = some send) : send.Right p t := by
  cases hstep with
  | assign => cases hsend
  | @mmio _ cpu d acc dev queued _ hfind hdev hready _ =>
      simp only [RemioEvent.send, hfind, hdev, Option.map_some] at hsend
      obtain rfl := Option.some.inj hsend
      rw [(h.device d dev hdev).ready, Bool.and_eq_true] at hready
      exact h.runsOn hdev .backend hready.1
  | mmioRefused => cases hsend
  | mmioNoDevice => cases hsend
  | @hypercall _ cpu args queued ret regs _ hword _ =>
      simp only [RemioEvent.send] at hsend
      cases hd : remioHypercallDevice p s cpu args with
      | error code =>
          rw [hd] at hsend
          cases hsend
      | ok d =>
          simp only [hd] at hsend
          by_cases hrw : args.op = hypWrite ∨ args.op = hypRead
          · rw [if_pos hrw] at hsend
            exact h.completion_right hword hsend
          · rw [if_neg hrw] at hsend
            by_cases hop : args.op = hypNotify
            · rw [if_pos hop] at hsend
              obtain ⟨dev, hdev, hkey⟩ := remioHypercallDevice_key hd
              rw [hdev, Option.map_some] at hsend
              obtain rfl := Option.some.inj hsend
              -- the frontend VM was initialised, so its CPU is known
              have hside := (h.device d dev hdev).side .frontend
              have hstarted := hnotify hop _ (hkey ▸ hside.role)
              exact h.runsOn hdev .frontend (hside.ready.trans hstarted)
            · rw [if_neg hop] at hsend
              cases hsend
  | deliver => cases hsend

theorem RemioTargets.ready_of_started {t : RemioSeen} (h : RemioTargets p (s, t)) {d : Nat}
    {dev : RemioDevice} (hdev : s.DeviceAt d dev)
    (hstarted : ∀ type, ∃ vm, p.Has vm type dev.bindKey ∧ t.started vm = true) :
    dev.ready = true := by
  have hside : ∀ type, (dev.side type).ready = true := by
    intro type
    have hok := (h.device d dev hdev).side type
    obtain ⟨vm, hhas, hvm⟩ := hstarted type
    rw [hok.ready, h.single _ _ type _ hok.role hhas]
    exact hvm
  have hback : dev.backend.ready = true := hside .backend
  have hfront : dev.frontend.ready = true := hside .frontend
  rw [(h.device d dev hdev).ready, hback, hfront]
  rfl

theorem remioTargets_reach (hp : p.Paired) {w : RemioState × RemioSeen}
    (h : (remioWatched p).Reach (fun w e => RemioGuest p w.2 e ∧ RemioNotifyOk p w.2 e) w) :
    RemioTargets p w := by
  have hinit : ∀ w, (remioWatched p).init w → RemioTargets p w := by
    intro w hw
    obtain ⟨s, t⟩ := w
    obtain ⟨hs, rfl⟩ := hw
    exact .initial hp hs
  have hstep : ∀ w e w', RemioTargets p w → RemioGuest p w.2 e ∧ RemioNotifyOk p w.2 e →
      (remioWatched p).step w e w' → RemioTargets p w' := by
    intro w e w' hw hok hstep
    obtain ⟨s, t⟩ := w
    obtain ⟨s', t'⟩ := w'
    obtain ⟨hstep, rfl⟩ := hstep
    exact hw.step hp hok.1 hstep
  exact h.invariant hinit hstep

/-- **Every Remote I/O message goes to a CPU of the right VM**, when the keys of
the configuration pair two VMs each and notifications come after their frontend
VM was initialised; and a device is ready once both its VMs were initialised. -/
theorem remio_targets_right (hp : p.Paired) {w : RemioState × RemioSeen}
    (h : (remioWatched p).Reach (fun w e => RemioGuest p w.2 e ∧ RemioNotifyOk p w.2 e) w) :
    (∀ e s', RemioGuest p w.2 e → RemioNotifyOk p w.2 e → RemioStep p w.1 e s' →
      RemioQueues p w.1 e s' ∧ ∀ send, e.send p w.1 = some send → send.Right p w.2) ∧
    ∀ d dev, w.1.DeviceAt d dev →
      (∀ type, ∃ vm, p.Has vm type dev.bindKey ∧ w.2.started vm = true) → dev.ready = true := by
  obtain ⟨s, t⟩ := w
  have hinv := remioTargets_reach hp h
  refine ⟨fun e s' _ hnotify hstep => ?_, fun d dev hdev hstarted => ?_⟩
  · exact ⟨remioStep_queues hinv.listed hstep, fun send hsend => hinv.send_right hnotify hstep hsend⟩
  · exact hinv.ready_of_started hdev hstarted

theorem remioWatched_assign {ok : RemioState × RemioSeen → RemioEvent → Prop} {t : RemioSeen}
    {cpu : Nat} (h : (remioWatched p).Reach ok (s, t)) (hok : ok (s, t) (.assign cpu))
    (hcpu : s.halted cpu = false) :
    (remioWatched p).Reach ok (remioAssignVmCpus p s cpu, t.start (p.vmOf cpu)) := by
  refine .step (e := .assign cpu) h hok ⟨?_, rfl⟩
  exact RemioStep.assign hcpu

/-- The observer of the pair once both VMs were initialised. -/
def pairSeen : RemioSeen :=
  ((⟨fun _ => false, fun _ => none⟩ : RemioSeen).start 0).start 1

theorem pairPlatform_has {vm key : Nat} {type : RemioDevType}
    (h : pairPlatform.Has vm type key) :
    key = 7 ∧ ((vm = 0 ∧ type = .backend) ∨ (vm = 1 ∧ type = .frontend)) := by
  obtain ⟨dev, hdev, rfl, rfl⟩ := h
  match vm, hdev with
  | 0, hdev =>
      obtain rfl := List.mem_singleton.mp hdev
      exact ⟨rfl, .inl ⟨rfl, rfl⟩⟩
  | 1, hdev =>
      obtain rfl := List.mem_singleton.mp hdev
      exact ⟨rfl, .inr ⟨rfl, rfl⟩⟩

theorem pairPlatform_paired : pairPlatform.Paired := by
  refine ⟨fun vm type key h => ?_, fun vm type key h => ?_, fun vm type key h h' => ?_⟩
  · rw [(pairPlatform_has h).1]
    decide
  · obtain ⟨rfl, ⟨_, rfl⟩ | ⟨_, rfl⟩⟩ := pairPlatform_has h
    · exact ⟨1, _, List.mem_singleton.mpr rfl, rfl, rfl⟩
    · exact ⟨0, _, List.mem_singleton.mpr rfl, rfl, rfl⟩
  · obtain ⟨_, hrole⟩ := pairPlatform_has h
    obtain ⟨_, hrole'⟩ := pairPlatform_has h'
    rcases hrole with ⟨rfl, rfl⟩ | ⟨rfl, rfl⟩
    · rcases hrole' with ⟨_, h⟩ | ⟨h, _⟩ <;> cases h
    · rcases hrole' with ⟨h, _⟩ | ⟨_, h⟩ <;> cases h

/-- The pair with both VMs initialised: a notification of the backend goes to
the frontend's CPU, and the device is ready. -/
theorem remio_targets_right_pair :
    (⟨.notify, 7, 1⟩ : RemioSend).Right pairPlatform pairSeen ∧
      ∀ dev, pairReady.DeviceAt 0 dev → dev.ready = true := by
  have hstart : (remioWatched pairPlatform).init
      (pairStart, ⟨fun _ => false, fun _ => none⟩) :=
    ⟨⟨rfl, rfl, fun _ => rfl, fun _ => rfl⟩, rfl⟩
  have hready : (remioWatched pairPlatform).Reach
      (fun w e => RemioGuest pairPlatform w.2 e ∧ RemioNotifyOk pairPlatform w.2 e)
      (pairReady, pairSeen) :=
    remioWatched_assign
      (remioWatched_assign (.init hstart) ⟨(by decide : 0 < 2), trivial⟩ rfl)
      ⟨(by decide : 1 < 2), trivial⟩ rfl
  obtain ⟨hsend, hdevice⟩ := remio_targets_right pairPlatform_paired hready
  have hstep : RemioStep pairPlatform pairReady
      (.hypercall 0 (pairCall hypNotify 0) hcSuccess [])
      (remioHypercall pairPlatform pairReady true 0 (pairCall hypNotify 0)).2.2 :=
    @RemioStep.hypercall _ _ _ _ _ true _ _ rfl (by decide) rfl
  constructor
  · refine (hsend (.hypercall 0 (pairCall hypNotify 0) hcSuccess []) _
      ⟨(by decide : 0 < 2), rfl⟩ (fun _ vm hvm => ?_) hstep).2 _ rfl
    obtain ⟨_, ⟨_, h⟩ | ⟨rfl, _⟩⟩ := pairPlatform_has hvm
    · cases h
    · rfl
  · intro dev hdev
    have hkey : dev.bindKey = 7 := by
      obtain rfl := Option.some.inj hdev
      rfl
    refine hdevice 0 dev hdev fun type => ?_
    rw [hkey]
    cases type with
    | backend => exact ⟨0, ⟨_, List.mem_singleton.mpr rfl, rfl, rfl⟩, rfl⟩
    | frontend => exact ⟨1, ⟨_, List.mem_singleton.mpr rfl, rfl, rfl⟩, rfl⟩

/-! ## Messages that go astray -/

/-- One VM on one CPU with both sides of a device. -/
def selfPlatform : RemioPlatform where
  machine := Machine.mmu64
  cpuNum := 1
  cpuNum_le := by decide
  vmOf := fun _ => 0
  devNum := 1
  vmlist :=
    [[{ va := 0, size := 0, interrupt := 50, bindKey := 7, type := .backend
        shmem := ⟨0, 0, 0⟩ },
      { va := 0x1000, size := 0x200, interrupt := 60, bindKey := 7, type := .frontend
        shmem := ⟨0, 0, 0⟩ }]]

/-- Two VMs with one side of a device each, under different keys. -/
def splitPlatform : RemioPlatform where
  machine := Machine.mmu64
  cpuNum := 2
  cpuNum_le := pairPlatform.cpuNum_le
  vmOf := id
  devNum := 2
  vmlist :=
    [[{ va := 0, size := 0, interrupt := 50, bindKey := 1, type := .backend
        shmem := ⟨0, 0, 0⟩ }],
      [{ va := 0x1000, size := 0x200, interrupt := 60, bindKey := 2, type := .frontend
         shmem := ⟨0, 0, 0⟩ }]]

/-- The state after `remio_init` of a platform on the 64-bit machine. -/
def startOf (p : RemioPlatform) : RemioState where
  devices := (remioInit Machine.mmu64 p.devNum p.vmlist).getD []
  requests := .objpoolInit p.cpuNum .zero
  msgs := fun _ => []
  active := fun _ => true
  halted := fun _ => false

/-- The state and the observer once CPU 0 has initialised its VM. -/
def startedOf (p : RemioPlatform) : RemioState × RemioSeen :=
  (remioAssignVmCpus p (startOf p) 0, RemioSeen.start ⟨fun _ => false, fun _ => none⟩ (p.vmOf 0))

theorem startedOf_reach {p : RemioPlatform} (hinit : RemioInitial p (startOf p))
    (hnum : 0 < p.cpuNum) :
    (remioWatched p).Reach (fun w e => RemioGuest p w.2 e) (startedOf p) := by
  have hstart : (remioWatched p).init (startOf p, ⟨fun _ => false, fun _ => none⟩) := ⟨hinit, rfl⟩
  exact remioWatched_assign (.init hstart) hnum rfl

/-- **Three ways astray**, each right after CPU 0 has initialised its VM.  The
backend of the pair notifies a frontend VM that was not initialised: the target
is CPU `(cpuid_t)-1`.  A VM with both sides of a device: the device is not
ready.  Sides with different keys are accepted: a notification goes to CPU 0,
which runs no frontend. -/
theorem remio_targets_astray :
    (∃ s', (remioWatched pairPlatform).Reach (fun w e => RemioGuest pairPlatform w.2 e)
        (startedOf pairPlatform) ∧
      RemioStep pairPlatform (startedOf pairPlatform).1
        (.hypercall 0 (pairCall hypNotify 0) hcSuccess []) s' ∧
      RemioGuest pairPlatform (startedOf pairPlatform).2
        (.hypercall 0 (pairCall hypNotify 0) hcSuccess []) ∧
      (RemioEvent.hypercall 0 (pairCall hypNotify 0) hcSuccess []).send pairPlatform
        (startedOf pairPlatform).1 = some ⟨.notify, 7, 2 ^ 64 - 1⟩ ∧
      ¬ (⟨.notify, 7, 2 ^ 64 - 1⟩ : RemioSend).Right pairPlatform (startedOf pairPlatform).2) ∧
    (∃ dev, (remioWatched selfPlatform).Reach (fun w e => RemioGuest selfPlatform w.2 e)
        (startedOf selfPlatform) ∧
      (startedOf selfPlatform).1.DeviceAt 0 dev ∧
      (∀ type, ∃ vm, selfPlatform.Has vm type dev.bindKey ∧
        (startedOf selfPlatform).2.started vm = true) ∧ dev.ready = false) ∧
    ∃ s', (remioWatched splitPlatform).Reach (fun w e => RemioGuest splitPlatform w.2 e)
        (startedOf splitPlatform) ∧
      RemioStep splitPlatform (startedOf splitPlatform).1
        (.hypercall 0 (pairCall hypNotify 0) hcSuccess []) s' ∧
      (RemioEvent.hypercall 0 (pairCall hypNotify 0) hcSuccess []).send splitPlatform
        (startedOf splitPlatform).1 = some ⟨.notify, 1, 0⟩ ∧
      ¬ (⟨.notify, 1, 0⟩ : RemioSend).Right splitPlatform (startedOf splitPlatform).2 := by
  refine ⟨⟨(remioHypercall pairPlatform (startedOf pairPlatform).1 true 0
    (pairCall hypNotify 0)).2.2, ?_, ?_, ⟨(by decide : 0 < 2), rfl⟩, rfl, ?_⟩,
    ⟨(startedOf selfPlatform).1.devices[0], ?_, rfl, fun type => ⟨0, ?_, rfl⟩, rfl⟩,
    ⟨(remioHypercall splitPlatform (startedOf splitPlatform).1 true 0
      (pairCall hypNotify 0)).2.2, ?_, ?_, rfl, ?_⟩⟩
  · exact startedOf_reach ⟨rfl, rfl, fun _ => rfl, fun _ => rfl⟩ (by decide)
  · exact @RemioStep.hypercall _ _ _ _ _ true _ _ rfl (by decide) rfl
  · rintro ⟨hlt, _⟩
    exact absurd hlt (by decide)
  · exact startedOf_reach ⟨rfl, rfl, fun _ => rfl, fun _ => rfl⟩ (by decide)
  · cases type with
    | backend => exact ⟨_, List.mem_cons_self, rfl, rfl⟩
    | frontend => exact ⟨_, List.mem_cons_of_mem _ List.mem_cons_self, rfl, rfl⟩
  · exact startedOf_reach ⟨rfl, rfl, fun _ => rfl, fun _ => rfl⟩ (by decide)
  · exact @RemioStep.hypercall _ _ _ _ _ true _ _ rfl (by decide) rfl
  · rintro ⟨_, ⟨dev, hdev, htype, _⟩, _⟩
    obtain rfl := List.mem_singleton.mp hdev
    cases htype

end Bao

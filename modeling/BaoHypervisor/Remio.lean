import BaoHypervisor.ObjPool
import BaoHypervisor.Machine
import BaoHypervisor.StepSystem

/-!
# Remote I/O

Remote I/O connects a frontend VM, whose accesses to a device window trap,
with a backend VM that serves them by hypercalls.  A trapped access becomes a
request in a pool shared by all devices, queued on its device; the backend
asks for it, answers it, and a CPU message completes it on the frontend's
CPU.  This file has the functions of `remio.c` and the system in which
accesses, hypercalls and message deliveries of all CPUs interleave, each
executed atomically.
-/

namespace Bao

/-- `enum REMIO_STATE`. -/
inductive RemioReqState
  | free
  | pending
  | processing
  | complete
deriving DecidableEq, Repr

/-- `enum REMIO_CPU_MSG_EVENT`. -/
inductive RemioMsgEvent
  | write
  | read
  | notify
deriving DecidableEq, Repr

/-- `union remio_cpu_msg_data` with the event of the message.  Bind key and
request id are truncated to eight bits. -/
structure RemioMsg where
  event : RemioMsgEvent
  remioBindKey : Nat
  requestId : Nat
  interrupt : Nat
deriving DecidableEq, Repr

/-- `struct remio_request`.  Its list node is kept by the list it is on. -/
structure RemioRequest where
  id : Nat
  bindKey : Nat
  addr : Nat
  accessWidth : Nat
  op : Nat
  value : Nat
  reg : Nat
  cpuId : Nat
  state : RemioReqState
deriving DecidableEq, Repr

/-- A request slot after `objpool_init`. -/
def RemioRequest.zero : RemioRequest where
  id := 0
  bindKey := 0
  addr := 0
  accessWidth := 0
  op := 0
  value := 0
  reg := 0
  cpuId := 0
  state := .free

/-- `enum REMIO_DEV_TYPE`. -/
inductive RemioDevType
  | frontend
  | backend
deriving DecidableEq, Repr

/-- `struct remio_shmem`. -/
structure RemioShmem where
  base : Nat
  size : Nat
  shmemId : Nat
deriving DecidableEq, Repr

/-- `struct remio_dev`: a VM's view of a device. -/
structure RemioDev where
  va : Nat
  size : Nat
  interrupt : Nat
  bindKey : Nat
  type : RemioDevType
  shmem : RemioShmem
deriving DecidableEq, Repr

/-- One side of `struct remio_device_config`. -/
structure RemioEndpoint where
  bindKey : Nat
  cpuId : Nat
  vmId : Nat
  interrupt : Nat
  shmem : RemioShmem
  ready : Bool
deriving DecidableEq, Repr

/-- `struct remio_device`, with the ids of its pending requests in list order. -/
structure RemioDevice where
  ready : Bool
  bindKey : Nat
  backend : RemioEndpoint
  frontend : RemioEndpoint
  pending : List Nat
deriving DecidableEq, Repr

/-- What does not change while VMs run: the machine, the number of CPUs, the
VM that each CPU runs, `CONFIG_REMIO_DEV_NUM` and the devices in each VM's
configuration. -/
structure RemioPlatform where
  machine : Machine
  cpuNum : Nat
  cpuNum_le : cpuNum ≤ 64
  vmOf : Nat → Nat
  devNum : Nat
  vmlist : List (List RemioDev)

/-- `vm->remio_devs`. -/
def RemioPlatform.remioDevs (p : RemioPlatform) (vm : Nat) : List RemioDev :=
  p.vmlist.getD vm []

/-- The operation codes of the hypercall (`enum REMIO_HYP_EVENT`). -/
abbrev hypWrite : Nat := 0
abbrev hypRead : Nat := 1
abbrev hypAsk : Nat := 2
abbrev hypNotify : Nat := 3

/-- The result codes of a hypercall. -/
abbrev hcSuccess : Int := 0
abbrev hcFailure : Int := 1
abbrev hcInvalArgs : Int := 3

/-- Devices, requests, and per CPU its message queue, whether its vCPU is
active and whether it stopped in `ERROR`. -/
structure RemioState where
  devices : List RemioDevice
  requests : ObjPool RemioRequest
  msgs : Nat → List RemioMsg
  active : Nat → Bool
  halted : Nat → Bool

namespace RemioState

/-- Write device `d` back. -/
def setDevice (s : RemioState) (d : Nat) (dev : RemioDevice) : RemioState :=
  { s with devices := s.devices.set d dev }

/-- Write the request in slot `r` back. -/
def setRequest (s : RemioState) (r : Nat) (req : RemioRequest) : RemioState :=
  { s with requests := s.requests.setObj r req }

/-- Append a message to the queue of a CPU. -/
def pushMsg (s : RemioState) (cpu : Nat) (msg : RemioMsg) : RemioState :=
  { s with msgs := fun c => if c = cpu then s.msgs c ++ [msg] else s.msgs c }

end RemioState

/-- `remio_find_dev_by_bind_key`: the index of the first device with the key. -/
def remioFindDevByBindKey (devices : List RemioDevice) (bindKey : Nat) : Option Nat :=
  devices.findIdx? (fun dev => dev.bindKey == bindKey)

/-- The VM's device that `remio_find_vm_dev_by_bind_key` stops at: the first
one with the key, else the last one. -/
def vmDevAtKey (devs : List RemioDev) (bindKey : Nat) : Option RemioDev :=
  match devs.find? (fun dev => dev.bindKey == bindKey) with
  | some dev => some dev
  | none => devs.getLast?

/-- `remio_find_vm_dev_by_bind_key`. -/
def remioFindVmDevByBindKey (p : RemioPlatform) (devices : List RemioDevice) (vm bindKey : Nat) :
    Option Nat :=
  match vmDevAtKey (p.remioDevs vm) bindKey with
  | none => none
  | some dev =>
      match remioFindDevByBindKey devices bindKey with
      | none => none
      | some d =>
          match devices[d]? with
          | none => none
          | some device =>
              if (dev.type = .backend ∧ vm = device.backend.vmId) ∨
                  (dev.type = .frontend ∧ vm = device.frontend.vmId) then some d
              else none

/-- `remio_find_vm_dev_by_addr`. -/
def remioFindVmDevByAddr (p : RemioPlatform) (devices : List RemioDevice) (vm addr : Nat) :
    Option Nat :=
  match (p.remioDevs vm).find? (fun dev => p.machine.inRange addr dev.va dev.size) with
  | none => none
  | some dev => remioFindVmDevByBindKey p devices vm dev.bindKey

/-- `remio_get_request` on device `d`: -1 pops the next pending request, any
other id that is not negative indexes the pool. -/
def remioGetRequest (s : RemioState) (d : Nat) (id : Int) : Option Nat × RemioState :=
  match s.devices[d]? with
  | none => (none, s)
  | some dev =>
      let (request, s') :=
        if id = -1 then
          match dev.pending with
          | [] => (none, s)
          | r :: rest => (some r, s.setDevice d { dev with pending := rest })
        else if 0 ≤ id then (s.requests.objpoolGetById id.toNat, s)
        else (none, s)
      match request with
      | none => (none, s')
      | some r => if (s'.requests.objs r).bindKey = dev.bindKey then (some r, s') else (none, s')

/-- `struct emul_access`, with the value of its register. -/
structure RemioAccess where
  addr : Nat
  write : Bool
  width : Nat
  reg : Nat
  value : Nat
deriving DecidableEq, Repr

/-- The request that `remio_create_request` writes. -/
def newRequest (cpu id bindKey : Nat) (acc : RemioAccess) : RemioRequest where
  id := id
  bindKey := bindKey
  addr := acc.addr
  accessWidth := acc.width
  op := if acc.write then hypWrite else hypRead
  value := if acc.write then acc.value else 0
  reg := acc.reg
  cpuId := cpu
  state := .pending

/-- `remio_create_request` by a CPU on device `d`. -/
def remioCreateRequest (s : RemioState) (cpu d : Nat) (acc : RemioAccess) : Option RemioState :=
  match s.devices[d]? with
  | none => none
  | some dev =>
      match s.requests.objpoolAllocWithId with
      | none => none
      | some (id, requests) =>
          some (({ s with requests := requests }.setRequest id
            (newRequest cpu id dev.bindKey acc)).setDevice d
              { dev with pending := dev.pending ++ [id] })

/-- The message of `remio_cpu_send_msg`. -/
def remioMsg (event : RemioMsgEvent) (remioBindKey requestId interrupt : Nat) : RemioMsg where
  event := event
  remioBindKey := remioBindKey % 256
  requestId := requestId % 256
  interrupt := interrupt

/-- `remio_cpu_send_msg`: when the target's queue is full the message is dropped. -/
def remioCpuSendMsg (s : RemioState) (queued : Bool) (targetCpu : Nat) (msg : RemioMsg) :
    RemioState :=
  if queued then s.pushMsg targetCpu msg else s

/-- `remio_handle_ask`: result code and the values written to the caller's registers. -/
def remioHandleAsk (s : RemioState) (addr value d : Nat) : Int × List Nat × RemioState :=
  if addr ≠ 0 ∨ value ≠ 0 then (hcFailure, [], s)
  else
    match remioGetRequest s d (-1) with
    | (none, s') => (hcFailure, [], s')
    | (some r, s') =>
        let request := s'.requests.objs r
        if request.state = .pending then
          let hasPending := match s'.devices[d]? with
            | some dev => !dev.pending.isEmpty
            | none => false
          (hcSuccess, [request.addr, request.op, request.value, request.accessWidth, request.id,
            hasPending.toNat], s'.setRequest r { request with state := .processing })
        else (hcFailure, [], s')

/-- `remio_handle_rw`. -/
def remioHandleRw (s : RemioState) (value : Nat) (requestId : Int) (d : Nat) :
    Bool × RemioState :=
  match remioGetRequest s d requestId with
  | (none, s') => (false, s')
  | (some r, s') =>
      let request := s'.requests.objs r
      if request.state = .processing then
        (true, s'.setRequest r { request with value := value, state := .complete })
      else (false, s')

/-- The arguments of `remio_hypercall`, all machine words. -/
structure RemioArgs where
  dmId : Nat
  addr : Nat
  op : Nat
  value : Nat
  requestId : Nat
deriving DecidableEq, Repr

/-- The device a hypercall is about: an error code or the index of the device. -/
def remioHypercallDevice (p : RemioPlatform) (s : RemioState) (cpu : Nat) (args : RemioArgs) :
    Except Int Nat :=
  match (p.remioDevs (p.vmOf cpu))[args.dmId]? with
  | none => .error (-hcInvalArgs)
  | some dev =>
      match remioFindVmDevByBindKey p s.devices (p.vmOf cpu) dev.bindKey with
      | none => .error (-hcFailure)
      | some d => .ok d

/-- The key in the caller's configuration, sent in the message of a completion. -/
def remioHypercallKey (p : RemioPlatform) (cpu : Nat) (args : RemioArgs) : Nat :=
  match (p.remioDevs (p.vmOf cpu))[args.dmId]? with
  | none => 0
  | some dev => dev.bindKey

/-- The write and read operations of `remio_hypercall`. -/
def remioHypercallRw (p : RemioPlatform) (s : RemioState) (queued : Bool) (cpu : Nat)
    (args : RemioArgs) (d : Nat) : Int × RemioState :=
  let requestId := p.machine.ssize args.requestId
  match remioHandleRw s args.value requestId d with
  | (false, s') => (-hcFailure, s')
  | (true, s') =>
      match remioGetRequest s' d requestId with
      | (none, s'') => (-hcFailure, s'')
      | (some r, s'') =>
          (hcSuccess, remioCpuSendMsg s'' queued (s''.requests.objs r).cpuId
            (remioMsg (if args.op = hypWrite then .write else .read)
              (remioHypercallKey p cpu args) args.requestId 0))

/-- `remio_hypercall`: result code, register values written and new state. -/
def remioHypercall (p : RemioPlatform) (s : RemioState) (queued : Bool) (cpu : Nat)
    (args : RemioArgs) : Int × List Nat × RemioState :=
  match remioHypercallDevice p s cpu args with
  | .error code => (code, [], s)
  | .ok d =>
      if args.op = hypWrite ∨ args.op = hypRead then
        let (ret, s') := remioHypercallRw p s queued cpu args d
        (ret, [], s')
      else if args.op = hypAsk then remioHandleAsk s args.addr args.value d
      else if args.op = hypNotify then
        match s.devices[d]? with
        | none => (hcSuccess, [], s)
        | some dev =>
            (hcSuccess, [], remioCpuSendMsg s queued dev.frontend.cpuId
              (remioMsg .notify 0 0 dev.frontend.interrupt))
      else (-hcInvalArgs, [], s)

/-- `remio_mmio_emul_handler` on a ready device; `none` is an access that is
not handled.  The wait for the device to become ready is in the step relation. -/
def remioMmioEmulHandler (s : RemioState) (queued : Bool) (cpu d : Nat) (acc : RemioAccess) :
    Option RemioState :=
  match remioCreateRequest s cpu d acc with
  | none => none
  | some s' =>
      match s'.devices[d]? with
      | none => none
      | some dev =>
          some { remioCpuSendMsg s' queued dev.backend.cpuId
              (remioMsg .notify 0 0 dev.backend.interrupt) with
            active := fun c => if c = cpu then false else s'.active c }

/-- `remio_cpu_post_work` on a CPU: the register write of a read, and the new state. -/
def remioCpuPostWork (s : RemioState) (cpu : Nat) (event : RemioMsgEvent)
    (remioBindKey requestId : Nat) : Option (Option (Nat × Nat) × RemioState) :=
  match remioFindDevByBindKey s.devices remioBindKey with
  | none => none
  | some d =>
      match remioGetRequest s d requestId with
      | (none, _) => none
      | (some r, s') =>
          let request := s'.requests.objs r
          some (if event = .read then some (request.reg, request.value) else none,
            { s' with
              requests := (s'.requests.setObj r { request with state := .free }).objpoolFree r
              active := fun c => if c = cpu then true else s'.active c })

/-- `remio_cpu_msg_handler` on a CPU; a failed completion ends in `ERROR`. -/
def remioCpuMsgHandler (s : RemioState) (cpu : Nat) (msg : RemioMsg) : RemioState :=
  match msg.event with
  | .notify => s
  | event =>
      match remioCpuPostWork s cpu event msg.remioBindKey msg.requestId with
      | none => { s with halted := fun c => if c = cpu then true else s.halted c }
      | some (_, s') => s'

/-! ## Initialisation -/

/-- The search of `remio_init` for the device a VM's device belongs to:
`none` is `ERROR`, else the index of the opposite side's device if there is one. -/
def remioLink (dev : RemioDev) : List RemioDevice → Nat → Option (Option Nat)
  | [], _ => some none
  | device :: rest, d =>
      if (dev.bindKey = device.backend.bindKey ∧ dev.type = .backend) ∨
          (dev.bindKey = device.frontend.bindKey ∧ dev.type = .frontend) then none
      else if (dev.type = .backend ∧ dev.bindKey = device.frontend.bindKey) ∨
          (dev.type = .frontend ∧ dev.bindKey = device.backend.bindKey) then some (some d)
      else remioLink dev rest (d + 1)

/-- A zeroed side of a device with the key `(remio_bind_key_t)-1`. -/
def unlinkedEndpoint (M : Machine) : RemioEndpoint where
  bindKey := M.sizeMax
  cpuId := 0
  vmId := 0
  interrupt := 0
  shmem := ⟨0, 0, 0⟩
  ready := false

/-- A device that `remio_init` has just created. -/
def newRemioDevice (M : Machine) (bindKey : Nat) : RemioDevice where
  ready := false
  bindKey := bindKey
  backend := unlinkedEndpoint M
  frontend := unlinkedEndpoint M
  pending := []

/-- Enter a VM's device as one side of a device. -/
def linkEndpoint (dev : RemioDev) (device : RemioDevice) : RemioDevice :=
  match dev.type with
  | .backend =>
      { device with
        backend := { device.backend with
          bindKey := dev.bindKey, shmem := dev.shmem, ready := false } }
  | .frontend =>
      { device with
        frontend := { device.frontend with
          bindKey := dev.bindKey, shmem := dev.shmem, ready := false } }

/-- The first loop body of `remio_init` for one device of a VM. -/
def remioAddDev (M : Machine) (devNum : Nat) (devices : List RemioDevice) (dev : RemioDev) :
    Option (List RemioDevice) :=
  match remioLink dev devices 0 with
  | none => none
  | some (some d) => some (devices.modify d (linkEndpoint dev))
  | some none =>
      if devices.length < (if devNum = 0 then 1 else devNum) then
        some (devices ++ [linkEndpoint dev (newRemioDevice M dev.bindKey)])
      else none

/-- The last loop body of `remio_init` for one device of VM `vmId`. -/
def remioConfigDev (M : Machine) (vmId : Nat) (devices : List RemioDevice) (dev : RemioDev) :
    Option (List RemioDevice) :=
  match remioFindDevByBindKey devices dev.bindKey with
  | none => none
  | some d =>
      some (devices.modify d (fun device =>
        match dev.type with
        | .backend =>
            { device with
              backend := { device.backend with
                vmId := vmId, interrupt := dev.interrupt, cpuId := M.sizeMax } }
        | .frontend =>
            { device with
              frontend := { device.frontend with
                vmId := vmId, interrupt := dev.interrupt, cpuId := M.sizeMax } }))

/-- All devices of all VMs, with the VM's id, in configuration order. -/
def allRemioDevs (vmlist : List (List RemioDev)) : List (Nat × RemioDev) :=
  vmlist.zipIdx.flatMap (fun vm => vm.1.map (fun dev => (vm.2, dev)))

/-- `remio_init`: the device list, or `none` for `ERROR`. -/
def remioInit (M : Machine) (devNum : Nat) (vmlist : List (List RemioDev)) :
    Option (List RemioDevice) := do
  let devs := allRemioDevs vmlist
  let devices ← devs.foldlM (fun devices dev => remioAddDev M devNum devices dev.2) []
  if devs.countP (fun dev => dev.2.type = .frontend) ≠
      devs.countP (fun dev => dev.2.type = .backend) then none
  else if devices.any (fun dev => dev.backend.shmem ≠ dev.frontend.shmem) then none
  else devs.foldlM (fun devices dev => remioConfigDev M dev.1 devices dev.2) devices

/-- The loop body of `remio_assign_vm_cpus` on a CPU. -/
def assignDevice (vm cpu : Nat) (dev : RemioDevice) : RemioDevice :=
  let dev :=
    if vm = dev.backend.vmId then
      { dev with backend := { dev.backend with cpuId := min dev.backend.cpuId cpu, ready := true } }
    else if vm = dev.frontend.vmId then
      { dev with
        frontend := { dev.frontend with cpuId := min dev.frontend.cpuId cpu, ready := true } }
    else dev
  { dev with ready := dev.backend.ready && dev.frontend.ready }

/-- `remio_assign_vm_cpus`. -/
def remioAssignVmCpus (p : RemioPlatform) (s : RemioState) (cpu : Nat) : RemioState :=
  { s with devices := s.devices.map (assignDevice (p.vmOf cpu) cpu) }

/-! ## The interleaving system -/

/-- One atomic step of a CPU with its arguments and results. -/
inductive RemioEvent
  | assign (cpu : Nat)
  | mmio (cpu : Nat) (acc : RemioAccess)
  | mmioRefused (cpu : Nat) (acc : RemioAccess)
  | hypercall (cpu : Nat) (args : RemioArgs) (ret : Int) (regs : List Nat)
  | deliver (cpu : Nat) (msg : RemioMsg)

/-- The steps.  An access to a device that is not ready waits; a CPU that
stopped in `ERROR` makes no step. -/
inductive RemioStep (p : RemioPlatform) : RemioState → RemioEvent → RemioState → Prop
  | assign {s : RemioState} {cpu : Nat} (hcpu : s.halted cpu = false) :
      RemioStep p s (.assign cpu) (remioAssignVmCpus p s cpu)
  | mmio {s s' : RemioState} {cpu d : Nat} {acc : RemioAccess} {dev : RemioDevice} {queued : Bool}
      (hcpu : s.halted cpu = false)
      (hfind : remioFindVmDevByAddr p s.devices (p.vmOf cpu) acc.addr = some d)
      (hdev : s.devices[d]? = some dev) (hready : dev.ready = true)
      (h : remioMmioEmulHandler s queued cpu d acc = some s') :
      RemioStep p s (.mmio cpu acc) s'
  | mmioRefused {s : RemioState} {cpu d : Nat} {acc : RemioAccess} {dev : RemioDevice}
      (hcpu : s.halted cpu = false)
      (hfind : remioFindVmDevByAddr p s.devices (p.vmOf cpu) acc.addr = some d)
      (hdev : s.devices[d]? = some dev) (hready : dev.ready = true)
      (h : remioMmioEmulHandler s true cpu d acc = none) :
      RemioStep p s (.mmioRefused cpu acc) s
  | mmioNoDevice {s : RemioState} {cpu : Nat} {acc : RemioAccess} (hcpu : s.halted cpu = false)
      (hfind : remioFindVmDevByAddr p s.devices (p.vmOf cpu) acc.addr = none) :
      RemioStep p s (.mmioRefused cpu acc) s
  | hypercall {s s' : RemioState} {cpu : Nat} {args : RemioArgs} {queued : Bool} {ret : Int}
      {regs : List Nat} (hcpu : s.halted cpu = false)
      (hword : args.requestId < p.machine.wordCount)
      (h : remioHypercall p s queued cpu args = (ret, regs, s')) :
      RemioStep p s (.hypercall cpu args ret regs) s'
  | deliver {s : RemioState} {cpu : Nat} {msg : RemioMsg} {rest : List RemioMsg}
      (hcpu : s.halted cpu = false) (hmsgs : s.msgs cpu = msg :: rest) :
      RemioStep p s (.deliver cpu msg)
        (remioCpuMsgHandler { s with msgs := fun c => if c = cpu then rest else s.msgs c } cpu msg)

/-- After `remio_init`: devices without requests, every slot free, no message. -/
def RemioInitial (p : RemioPlatform) (s : RemioState) : Prop :=
  remioInit p.machine p.devNum p.vmlist = some s.devices ∧
    s.requests = ObjPool.objpoolInit p.cpuNum RemioRequest.zero ∧
    (∀ cpu, s.msgs cpu = []) ∧ ∀ cpu, s.halted cpu = false

/-- The Remote I/O system. -/
def remioSystem (p : RemioPlatform) : StepSystem RemioState RemioEvent where
  init := RemioInitial p
  step := RemioStep p

end Bao

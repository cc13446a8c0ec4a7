import BaoHypervisor.CpuMessages
import BaoHypervisor.Machine
import BaoHypervisor.WordRegs
import Mathlib.Data.List.Nodup

/-!
# Notifications between VMs

`ipc_hypercall` sends a message to the master CPUs that are registered with a shared memory,
except those of the caller's VM.  The message has 32 bits for the shared memory and 32 for
the event; the receiver looks up its own IPC object for the shared memory and injects the
interrupt of the event.
-/

namespace Bao

variable {W : LongWidth}

/-- `struct ipc`, as far as notifications are concerned. -/
structure IpcObj where
  shmemId : Nat
  interruptNum : Nat
  interrupts : Nat → Nat

/-- A VM: its CPUs, its master, its IPC objects, and the shared memories of its remote I/O
devices. -/
structure IpcVm (W : LongWidth) where
  cpus : BitVec W.bits
  master : Nat
  ipcs : List IpcObj
  remioShmems : List Nat

/-- The VMs and the number of shared memories and CPUs.  No CPU is in two VMs. -/
structure IpcConfig (W : LongWidth) where
  vmlist : List (IpcVm W)
  shmemlistSize : Nat
  cpuNum : Nat
  ipcCpumsgId : Nat
  master_lt : ∀ vm ∈ vmlist, vm.master < cpuNum
  master_mem : ∀ vm ∈ vmlist, vm.cpus.getLsbD vm.master = true
  apart : ∀ (i j : Nat) (vm vm' : IpcVm W), vmlist[i]? = some vm → vmlist[j]? = some vm' →
    ∀ c, vm.cpus.getLsbD c = true → vm'.cpus.getLsbD c = true → i = j

/-- `cpu_masters` of each shared memory, and how many IPC objects and devices each VM's
master has initialised. -/
structure IpcState (W : LongWidth) where
  cpuMasters : Nat → BitVec W.bits
  ipcsDone : Nat → Nat
  remioDone : Nat → Nat

/-- `shmem_get`; `none` is the null pointer. -/
def IpcConfig.shmemGet (cfg : IpcConfig W) (shmemId : Nat) : Option Nat :=
  if shmemId < cfg.shmemlistSize then some shmemId else none

/-- `shmem->cpu_masters |= (1UL << cpu()->id)`. -/
def IpcState.addMaster (s : IpcState W) (shmem cpu : Nat) : IpcState W :=
  { s with
    cpuMasters :=
      Function.update s.cpuMasters shmem (s.cpuMasters shmem ||| 1#W.bits <<< cpu) }

/-- A turn of `vm_init_ipc` on the master of the `i`-th VM. -/
def vmInitIpc (cfg : IpcConfig W) (s : IpcState W) (i : Nat) (vm : IpcVm W) (ipc : IpcObj) :
    IpcState W :=
  let s := { s with ipcsDone := Function.update s.ipcsDone i (s.ipcsDone i + 1) }
  match cfg.shmemGet ipc.shmemId with
  | none => s
  | some shmem => s.addMaster shmem vm.master

/-- `vm_init_remio_dev` on the master of the `i`-th VM; `none` is its `ERROR`. -/
def vmInitRemioDev (cfg : IpcConfig W) (s : IpcState W) (i : Nat) (vm : IpcVm W)
    (shmemId : Nat) : Option (IpcState W) :=
  let s := { s with remioDone := Function.update s.remioDone i (s.remioDone i + 1) }
  (cfg.shmemGet shmemId).map fun shmem => s.addMaster shmem vm.master

/-- The masters of all VMs at start-up, in any order. -/
inductive IpcStep (cfg : IpcConfig W) : IpcState W → Nat → IpcState W → Prop where
  | ipc {s : IpcState W} {i : Nat} {vm : IpcVm W} {ipc : IpcObj} (hvm : cfg.vmlist[i]? = some vm)
      (hipc : vm.ipcs[s.ipcsDone i]? = some ipc) : IpcStep cfg s i (vmInitIpc cfg s i vm ipc)
  | remio {s s' : IpcState W} {i shmemId : Nat} {vm : IpcVm W} (hvm : cfg.vmlist[i]? = some vm)
      (hipcs : s.ipcsDone i = vm.ipcs.length) (hdev : vm.remioShmems[s.remioDone i]? = some shmemId)
      (hinit : vmInitRemioDev cfg s i vm shmemId = some s') : IpcStep cfg s i s'

def ipcSystem (cfg : IpcConfig W) : StepSystem (IpcState W) Nat where
  init s := (∀ k, s.cpuMasters k = 0#W.bits) ∧ (∀ i, s.ipcsDone i = 0) ∧ ∀ i, s.remioDone i = 0
  step := IpcStep cfg

/-! ## Sending and receiving -/

/-- `union ipc_msg_data`, with `shmem_id` in the low half. -/
def ipcMsgData (shmemId eventId : Nat) : Nat := shmemId % 2 ^ 32 + 2 ^ 32 * (eventId % 2 ^ 32)

/-- `ipc_find_by_shmemid`. -/
def ipcFindByShmemid (vm : IpcVm W) (shmemId : Nat) : Option IpcObj :=
  vm.ipcs.find? fun ipc => ipc.shmemId == shmemId

/-- `ipc_notify`: the interrupts that it injects. -/
def ipcNotify (vm : IpcVm W) (shmemId eventId : Nat) : List Nat :=
  match ipcFindByShmemid vm shmemId with
  | none => []
  | some ipcObj => if eventId < ipcObj.interruptNum then [ipcObj.interrupts eventId] else []

/-- `IPC_NOTIFY`. -/
def ipcNotifyEvent : Nat := 0

/-- `ipc_handler`, on a CPU of the VM. -/
def ipcHandler (vm : IpcVm W) (event data : Nat) : List Nat :=
  if event = ipcNotifyEvent then ipcNotify vm (data % 2 ^ 32) (data / 2 ^ 32 % 2 ^ 32) else []

/-- `HC_E_INVAL_ARGS`. -/
def hcEInvalArgs : Int := 3

/-- `ipc_hypercall` by a vCPU of the VM: what it returns, and its calls of `cpu_send_msg`. -/
def ipcHypercall (cfg : IpcConfig W) (s : IpcState W) (vm : IpcVm W)
    (ipcId ipcEvent : BitVec W.bits) : Int × List (Nat × CpuMsg) :=
  match vm.ipcs[ipcId.toNat]? with
  | none => (-hcEInvalArgs, [])
  | some ipc =>
      match cfg.shmemGet ipc.shmemId with
      | none => (-hcEInvalArgs, [])
      | some shmem =>
          let ipcCpuMasters := s.cpuMasters shmem &&& ~~~vm.cpus
          let msg : CpuMsg :=
            ⟨cfg.ipcCpumsgId % 2 ^ 32, ipcNotifyEvent, ipcMsgData ipc.shmemId ipcEvent.toNat⟩
          (0, ((List.range cfg.cpuNum).filter ipcCpuMasters.getLsbD).map fun i => (i, msg))

/-! ## What a notification means -/

/-- The VM has registered its master with the shared memory. -/
def IpcConfig.Attached (cfg : IpcConfig W) (s : IpcState W) (i k : Nat) : Prop :=
  k < cfg.shmemlistSize ∧ ∃ vm, cfg.vmlist[i]? = some vm ∧
    ((∃ j, j < s.ipcsDone i ∧ ∃ ipc, vm.ipcs[j]? = some ipc ∧ ipc.shmemId = k) ∨
      ∃ j, j < s.remioDone i ∧ vm.remioShmems[j]? = some k)

/-- The first IPC object of the VM for the shared memory. -/
def IpcVm.First (vm : IpcVm W) (k : Nat) (ipc : IpcObj) : Prop :=
  ipc.shmemId = k ∧ ∃ before after, vm.ipcs = before ++ ipc :: after ∧
    ∀ other ∈ before, other.shmemId ≠ k

/-- The id is out of range, or its shared memory does not exist. -/
def IpcConfig.Invalid (cfg : IpcConfig W) (vm : IpcVm W) (ipcId : Nat) : Prop :=
  ∀ ipc, vm.ipcs[ipcId]? = some ipc → cfg.shmemlistSize ≤ ipc.shmemId

/-- **A call of the `i`-th VM is delivered** to its peers and only to them. -/
structure Delivered (cfg : IpcConfig W) (s : IpcState W) (i : Nat) (vm : IpcVm W)
    (ipcId ipcEvent : BitVec W.bits) : Prop where
  refused : (ipcHypercall cfg s vm ipcId ipcEvent).1 ≠ 0 ↔ cfg.Invalid vm ipcId.toNat
  silent : cfg.Invalid vm ipcId.toNat → (ipcHypercall cfg s vm ipcId ipcEvent).2 = []
  sent : ∀ ipc, vm.ipcs[ipcId.toNat]? = some ipc → ipc.shmemId < cfg.shmemlistSize →
    ∀ c, (((ipcHypercall cfg s vm ipcId ipcEvent).2.map Prod.fst).count c = 1 ↔
        ∃ (j : Nat) (peer : IpcVm W), cfg.vmlist[j]? = some peer ∧ j ≠ i ∧ peer.master = c ∧
          cfg.Attached s j ipc.shmemId) ∧
      ((ipcHypercall cfg s vm ipcId ipcEvent).2.map Prod.fst).count c ≤ 1 ∧
      (vm.cpus.getLsbD c = true → c ∉ (ipcHypercall cfg s vm ipcId ipcEvent).2.map Prod.fst)
  arrives : ∀ ipc, vm.ipcs[ipcId.toNat]? = some ipc → ipc.shmemId < cfg.shmemlistSize →
    ∀ c msg, (c, msg) ∈ (ipcHypercall cfg s vm ipcId ipcEvent).2 →
    ∀ (j : Nat) (peer : IpcVm W), cfg.vmlist[j]? = some peer → peer.cpus.getLsbD c = true →
      msg.handler = cfg.ipcCpumsgId % 2 ^ 32 ∧
      (∀ first, peer.First ipc.shmemId first → ipcEvent.toNat < first.interruptNum →
        ipcHandler peer msg.event msg.data = [first.interrupts ipcEvent.toNat]) ∧
      ((∀ first, peer.First ipc.shmemId first → first.interruptNum ≤ ipcEvent.toNat) →
        ipcHandler peer msg.event msg.data = [])

/-- The shared memory's id has 32 bits, and so has the event, or its low 32 bits name no
interrupt of a peer either. -/
def Fits (cfg : IpcConfig W) (s : IpcState W) (i : Nat) (vm : IpcVm W)
    (ipcId ipcEvent : BitVec W.bits) : Prop :=
  ∀ ipc, vm.ipcs[ipcId.toNat]? = some ipc → ipc.shmemId < cfg.shmemlistSize →
    ipc.shmemId < 2 ^ 32 ∧ (ipcEvent.toNat < 2 ^ 32 ∨
      ∀ (j : Nat) (peer : IpcVm W), cfg.vmlist[j]? = some peer → j ≠ i →
        cfg.Attached s j ipc.shmemId → ∀ first, peer.First ipc.shmemId first →
        first.interruptNum ≤ ipcEvent.toNat % 2 ^ 32)

/-- There are at most 2^32 shared memories and interrupts of an IPC object. -/
def IpcConfig.Small (cfg : IpcConfig W) : Prop :=
  cfg.shmemlistSize ≤ 2 ^ 32 ∧ ∀ vm ∈ cfg.vmlist, ∀ ipc ∈ vm.ipcs, ipc.interruptNum ≤ 2 ^ 32

/-! ## The registered masters -/

namespace IpcConfig

variable {cfg : IpcConfig W} {s s' : IpcState W} {i j k c : Nat} {vm peer : IpcVm W}

theorem shmemGet_eq_some {shmemId shmem : Nat} :
    cfg.shmemGet shmemId = some shmem ↔ shmemId < cfg.shmemlistSize ∧ shmem = shmemId := by
  unfold shmemGet
  split
  · rename_i hlt
    rw [Option.some.injEq]
    exact ⟨fun h => ⟨hlt, h.symm⟩, fun h => h.2.symm⟩
  · rename_i hge
    exact ⟨fun h => (nomatch h), fun h => absurd h.1 hge⟩

theorem shmemGet_eq_none {shmemId : Nat} :
    cfg.shmemGet shmemId = none ↔ cfg.shmemlistSize ≤ shmemId := by
  unfold shmemGet
  split
  · rename_i hlt
    exact ⟨fun h => (nomatch h), fun h => absurd hlt (Nat.not_lt_of_le h)⟩
  · rename_i hge
    exact ⟨fun _ => Nat.le_of_not_lt hge, fun _ => rfl⟩

/-- The mask of a shared memory has the masters of the VMs attached to it. -/
def Registered (cfg : IpcConfig W) (s : IpcState W) : Prop :=
  ∀ k, k < cfg.shmemlistSize → ∀ c, (s.cpuMasters k).getLsbD c = true ↔
    ∃ (j : Nat) (peer : IpcVm W), cfg.vmlist[j]? = some peer ∧ peer.master = c ∧ cfg.Attached s j k

theorem master_lt_bits (hvm : cfg.vmlist[i]? = some vm) : vm.master < W.bits :=
  BitVec.lt_of_getLsbD (cfg.master_mem vm (List.mem_of_getElem? hvm))

theorem getLsbD_addMaster (hvm : cfg.vmlist[i]? = some vm) (s : IpcState W) (shmem k c : Nat) :
    ((s.addMaster shmem vm.master).cpuMasters k).getLsbD c = true ↔
      (s.cpuMasters k).getLsbD c = true ∨ k = shmem ∧ c = vm.master := by
  dsimp only [IpcState.addMaster]
  by_cases hk : k = shmem
  · subst hk
    rw [Function.update_self, BitVec.getLsbD_or, Bool.or_eq_true]
    by_cases hc : c < W.bits
    · rw [WordRegs.getLsbD_mask hc, decide_eq_true_eq]
      exact ⟨fun h => h.imp_right fun heq => ⟨rfl, heq⟩, fun h => h.imp_right And.right⟩
    · have hne : c ≠ vm.master := fun heq => hc (heq ▸ master_lt_bits hvm)
      rw [BitVec.getLsbD_of_ge (1#W.bits <<< vm.master) c (Nat.le_of_not_lt hc)]
      exact ⟨fun h => h.imp_right fun hfalse => absurd hfalse Bool.false_ne_true,
        fun h => h.imp_right fun heq => absurd heq.2 hne⟩
  · rw [Function.update_of_ne hk]
    exact ⟨Or.inl, fun h => h.resolve_right fun heq => hk heq.1⟩

/-- A turn of `vm_init_ipc` attaches its VM to the shared memory of the IPC object. -/
theorem attached_ipc {ipc : IpcObj} (hvm : cfg.vmlist[i]? = some vm)
    (hipc : vm.ipcs[s.ipcsDone i]? = some ipc)
    (hipcs : s'.ipcsDone = Function.update s.ipcsDone i (s.ipcsDone i + 1))
    (hremio : s'.remioDone = s.remioDone) (hk : k < cfg.shmemlistSize) :
    cfg.Attached s' j k ↔ cfg.Attached s j k ∨ j = i ∧ k = ipc.shmemId := by
  unfold Attached
  rw [hipcs, hremio]
  by_cases hj : j = i
  · subst hj
    rw [Function.update_self]
    constructor
    · rintro ⟨_, vm', hvm', ⟨n, hn, ipc', hipc', rfl⟩ | hdev⟩
      · by_cases hlast : n = s.ipcsDone j
        · subst hlast
          obtain rfl := Option.some.inj (hvm.symm.trans hvm')
          obtain rfl := Option.some.inj (hipc.symm.trans hipc')
          exact Or.inr ⟨rfl, rfl⟩
        · exact Or.inl ⟨hk, vm', hvm', Or.inl ⟨n, by omega, ipc', hipc', rfl⟩⟩
      · exact Or.inl ⟨hk, vm', hvm', Or.inr hdev⟩
    · rintro (⟨_, vm', hvm', ⟨n, hn, hmem⟩ | hdev⟩ | ⟨_, rfl⟩)
      · exact ⟨hk, vm', hvm', Or.inl ⟨n, by omega, hmem⟩⟩
      · exact ⟨hk, vm', hvm', Or.inr hdev⟩
      · exact ⟨hk, vm, hvm, Or.inl ⟨s.ipcsDone j, Nat.lt_succ_self _, ipc, hipc, rfl⟩⟩
  · rw [Function.update_of_ne hj]
    exact ⟨Or.inl, fun h => h.resolve_right fun heq => hj heq.1⟩

/-- `vm_init_remio_dev` attaches its VM to the shared memory of the device. -/
theorem attached_remio {shmemId : Nat} (hvm : cfg.vmlist[i]? = some vm)
    (hdev : vm.remioShmems[s.remioDone i]? = some shmemId) (hipcs : s'.ipcsDone = s.ipcsDone)
    (hremio : s'.remioDone = Function.update s.remioDone i (s.remioDone i + 1))
    (hk : k < cfg.shmemlistSize) :
    cfg.Attached s' j k ↔ cfg.Attached s j k ∨ j = i ∧ k = shmemId := by
  unfold Attached
  rw [hipcs, hremio]
  by_cases hj : j = i
  · subst hj
    rw [Function.update_self]
    constructor
    · rintro ⟨_, vm', hvm', hipc | ⟨n, hn, hdev'⟩⟩
      · exact Or.inl ⟨hk, vm', hvm', Or.inl hipc⟩
      · by_cases hlast : n = s.remioDone j
        · subst hlast
          obtain rfl := Option.some.inj (hvm.symm.trans hvm')
          exact Or.inr ⟨rfl, Option.some.inj (hdev'.symm.trans hdev)⟩
        · exact Or.inl ⟨hk, vm', hvm', Or.inr ⟨n, by omega, hdev'⟩⟩
    · rintro (⟨_, vm', hvm', hipc | ⟨n, hn, hmem⟩⟩ | ⟨_, rfl⟩)
      · exact ⟨hk, vm', hvm', Or.inl hipc⟩
      · exact ⟨hk, vm', hvm', Or.inr ⟨n, by omega, hmem⟩⟩
      · exact ⟨hk, vm, hvm, Or.inr ⟨s.remioDone j, Nat.lt_succ_self _, hdev⟩⟩
  · rw [Function.update_of_ne hj]
    exact ⟨Or.inl, fun h => h.resolve_right fun heq => hj heq.1⟩

theorem Registered.attach {shmem : Nat} (h : cfg.Registered s) (hvm : cfg.vmlist[i]? = some vm)
    (hmasters : ∀ k, k < cfg.shmemlistSize → ∀ c, (s'.cpuMasters k).getLsbD c = true ↔
      (s.cpuMasters k).getLsbD c = true ∨ k = shmem ∧ c = vm.master)
    (hattached : ∀ k, k < cfg.shmemlistSize → ∀ j,
      (cfg.Attached s' j k ↔ cfg.Attached s j k ∨ j = i ∧ k = shmem)) : cfg.Registered s' := by
  intro k hk c
  rw [hmasters k hk, h k hk]
  constructor
  · rintro (⟨j, peer, hpeer, hmaster, hatt⟩ | ⟨rfl, rfl⟩)
    · exact ⟨j, peer, hpeer, hmaster, (hattached k hk j).mpr (Or.inl hatt)⟩
    · exact ⟨i, vm, hvm, rfl, (hattached k hk i).mpr (Or.inr ⟨rfl, rfl⟩)⟩
  · rintro ⟨j, peer, hpeer, hmaster, hatt⟩
    rcases (hattached k hk j).mp hatt with hold | ⟨rfl, rfl⟩
    · exact Or.inl ⟨j, peer, hpeer, hmaster, hold⟩
    · obtain rfl := Option.some.inj (hvm.symm.trans hpeer)
      exact Or.inr ⟨rfl, hmaster.symm⟩

/-- **One step of a master.** -/
theorem Registered.step (h : cfg.Registered s) (hstep : IpcStep cfg s i s') :
    cfg.Registered s' := by
  cases hstep with
  | @ipc _ vm ipc hvm hipc =>
      cases hget : cfg.shmemGet ipc.shmemId with
      | none =>
          -- the id names no shared memory, so the step attaches the VM to none
          have hge := shmemGet_eq_none.mp hget
          simp only [vmInitIpc, hget]
          refine @Registered.attach _ _ _ _ _ _ ipc.shmemId h hvm (fun k hk c => ?_) fun k hk j =>
            attached_ipc hvm hipc rfl rfl hk
          exact ⟨Or.inl, fun hor => hor.resolve_right fun heq => by omega⟩
      | some shmem =>
          obtain ⟨_, rfl⟩ := shmemGet_eq_some.mp hget
          simp only [vmInitIpc, hget]
          exact h.attach hvm (fun k _ c => getLsbD_addMaster hvm _ _ k c) fun k hk j =>
            attached_ipc hvm hipc rfl rfl hk
  | @remio _ _ shmemId vm hvm hipcs hdev hinit =>
      obtain ⟨shmem, hget, rfl⟩ := Option.map_eq_some_iff.mp hinit
      obtain ⟨_, rfl⟩ := shmemGet_eq_some.mp hget
      exact h.attach hvm (fun k _ c => getLsbD_addMaster hvm _ _ k c) fun k hk j =>
        attached_remio hvm hdev rfl rfl hk

theorem registered_reachable (h : (ipcSystem cfg).Reachable s) : cfg.Registered s := by
  have hinit : ∀ s, (ipcSystem cfg).init s → cfg.Registered s := by
    rintro s ⟨hmasters, hipcs, hremio⟩ k _ c
    rw [hmasters, BitVec.getLsbD_zero]
    constructor
    · intro hfalse
      cases hfalse
    · rintro ⟨j, _, _, _, _, _, _, ⟨n, hn, _⟩ | ⟨n, hn, _⟩⟩
      · rw [hipcs] at hn
        cases hn
      · rw [hremio] at hn
        cases hn
  exact h.invariant hinit fun s i s' hs _ hstep => hs.step hstep

end IpcConfig

/-! ## One message -/

section Message

variable {vm peer : IpcVm W} {k : Nat} {ipc : IpcObj}

theorem ipcFindByShmemid_eq_some : ipcFindByShmemid vm k = some ipc ↔ vm.First k ipc := by
  unfold ipcFindByShmemid IpcVm.First
  rw [List.find?_eq_some_iff_append, beq_iff_eq]
  simp only [Bool.not_eq_true', beq_eq_false_iff_ne]

theorem IpcVm.First.unique {ipc' : IpcObj} (h : vm.First k ipc) (h' : vm.First k ipc') :
    ipc = ipc' :=
  Option.some.inj ((ipcFindByShmemid_eq_some.mpr h).symm.trans (ipcFindByShmemid_eq_some.mpr h'))

theorem ipcNotify_of_first {eventId : Nat} (h : vm.First k ipc)
    (hlt : eventId < ipc.interruptNum) : ipcNotify vm k eventId = [ipc.interrupts eventId] := by
  rw [ipcNotify, ipcFindByShmemid_eq_some.mpr h]
  exact if_pos hlt

theorem ipcNotify_eq_nil {eventId : Nat}
    (h : ∀ first, vm.First k first → first.interruptNum ≤ eventId) :
    ipcNotify vm k eventId = [] := by
  unfold ipcNotify
  cases hfind : ipcFindByShmemid vm k with
  | none => rfl
  | some first => exact if_neg (Nat.not_lt_of_le (h first (ipcFindByShmemid_eq_some.mp hfind)))

theorem ipcHandler_ipcMsgData (shmemId eventId : Nat) :
    ipcHandler vm ipcNotifyEvent (ipcMsgData shmemId eventId) =
      ipcNotify vm (shmemId % 2 ^ 32) (eventId % 2 ^ 32) := by
  have hlow : ipcMsgData shmemId eventId % 2 ^ 32 = shmemId % 2 ^ 32 := by
    unfold ipcMsgData
    omega
  have hhigh : ipcMsgData shmemId eventId / 2 ^ 32 % 2 ^ 32 = eventId % 2 ^ 32 := by
    unfold ipcMsgData
    omega
  rw [ipcHandler, if_pos rfl, hlow, hhigh]

end Message

/-! ## The call -/

section Call

variable {cfg : IpcConfig W} {s : IpcState W} {i : Nat} {vm : IpcVm W}
  {ipcId ipcEvent : BitVec W.bits} {ipc : IpcObj}

/-- The CPUs that a call sends a message to. -/
def IpcConfig.targets (cfg : IpcConfig W) (s : IpcState W) (vm : IpcVm W) (shmem : Nat) :
    List Nat :=
  (List.range cfg.cpuNum).filter (s.cpuMasters shmem &&& ~~~vm.cpus).getLsbD

theorem ipcHypercall_invalid (h : cfg.Invalid vm ipcId.toNat) :
    ipcHypercall cfg s vm ipcId ipcEvent = (-hcEInvalArgs, []) := by
  unfold ipcHypercall
  cases hipc : vm.ipcs[ipcId.toNat]? with
  | none => rfl
  | some ipc =>
      dsimp only
      rw [IpcConfig.shmemGet_eq_none.mpr (h ipc hipc)]

theorem ipcHypercall_valid (hipc : vm.ipcs[ipcId.toNat]? = some ipc)
    (hlt : ipc.shmemId < cfg.shmemlistSize) :
    ipcHypercall cfg s vm ipcId ipcEvent =
      (0, (cfg.targets s vm ipc.shmemId).map fun c =>
        (c, ⟨cfg.ipcCpumsgId % 2 ^ 32, ipcNotifyEvent,
          ipcMsgData ipc.shmemId ipcEvent.toNat⟩)) := by
  have hget : cfg.shmemGet ipc.shmemId = some ipc.shmemId :=
    IpcConfig.shmemGet_eq_some.mpr ⟨hlt, rfl⟩
  unfold ipcHypercall
  rw [hipc]
  dsimp only
  rw [hget]
  rfl

theorem IpcConfig.mem_targets (h : cfg.Registered s) (hvm : cfg.vmlist[i]? = some vm) {shmem : Nat}
    (hlt : shmem < cfg.shmemlistSize) {c : Nat} :
    c ∈ cfg.targets s vm shmem ↔
      ∃ (j : Nat) (peer : IpcVm W), cfg.vmlist[j]? = some peer ∧ j ≠ i ∧ peer.master = c ∧
        cfg.Attached s j shmem := by
  rw [targets, List.mem_filter, List.mem_range, BitVec.getLsbD_and, Bool.and_eq_true,
    h shmem hlt, BitVec.getLsbD_not, Bool.and_eq_true, decide_eq_true_eq, Bool.not_eq_true']
  constructor
  · rintro ⟨_, ⟨j, peer, hpeer, rfl, hatt⟩, _, hcpus⟩
    refine ⟨j, peer, hpeer, ?_, rfl, hatt⟩
    rintro rfl
    obtain rfl := Option.some.inj (hvm.symm.trans hpeer)
    rw [cfg.master_mem vm (List.mem_of_getElem? hvm)] at hcpus
    cases hcpus
  · rintro ⟨j, peer, hpeer, hne, rfl, hatt⟩
    have hmaster := cfg.master_mem peer (List.mem_of_getElem? hpeer)
    refine ⟨cfg.master_lt peer (List.mem_of_getElem? hpeer), ⟨j, peer, hpeer, rfl, hatt⟩,
      master_lt_bits hpeer, ?_⟩
    rw [← Bool.not_eq_true]
    exact fun hcpus => hne (cfg.apart j i peer vm hpeer hvm _ hmaster hcpus)

theorem IpcConfig.nodup_targets {shmem : Nat} : (cfg.targets s vm shmem).Nodup :=
  List.nodup_range.filter _

theorem refused_iff :
    (ipcHypercall cfg s vm ipcId ipcEvent).1 ≠ 0 ↔ cfg.Invalid vm ipcId.toNat := by
  constructor
  · intro hne ipc hipc
    by_contra hlt
    rw [ipcHypercall_valid hipc (Nat.lt_of_not_le hlt)] at hne
    exact hne rfl
  · intro hinvalid
    rw [ipcHypercall_invalid hinvalid]
    decide

theorem map_fst_ipcHypercall (ipcEvent : BitVec W.bits)
    (hipc : vm.ipcs[ipcId.toNat]? = some ipc) (hlt : ipc.shmemId < cfg.shmemlistSize) :
    (ipcHypercall cfg s vm ipcId ipcEvent).2.map Prod.fst = cfg.targets s vm ipc.shmemId := by
  rw [ipcHypercall_valid hipc hlt, List.map_map]
  exact List.map_id _

theorem ipcHypercall_sent (h : cfg.Registered s) (hvm : cfg.vmlist[i]? = some vm)
    (hipc : vm.ipcs[ipcId.toNat]? = some ipc) (hlt : ipc.shmemId < cfg.shmemlistSize) (c : Nat) :
    (((ipcHypercall cfg s vm ipcId ipcEvent).2.map Prod.fst).count c = 1 ↔
      ∃ (j : Nat) (peer : IpcVm W), cfg.vmlist[j]? = some peer ∧ j ≠ i ∧ peer.master = c ∧
        cfg.Attached s j ipc.shmemId) ∧
    ((ipcHypercall cfg s vm ipcId ipcEvent).2.map Prod.fst).count c ≤ 1 ∧
    (vm.cpus.getLsbD c = true → c ∉ (ipcHypercall cfg s vm ipcId ipcEvent).2.map Prod.fst) := by
  have hnodup : (cfg.targets s vm ipc.shmemId).Nodup := IpcConfig.nodup_targets
  rw [map_fst_ipcHypercall ipcEvent hipc hlt]
  refine ⟨?_, List.nodup_iff_count_le_one.mp hnodup c, fun hcpu hmem => ?_⟩
  · rw [← IpcConfig.mem_targets h hvm hlt]
    constructor
    · intro hone
      exact List.count_pos_iff.mp (by omega)
    · exact List.nodup_iff_count_eq_one.mp hnodup c
  · rw [IpcConfig.targets, List.mem_filter, BitVec.getLsbD_and, BitVec.getLsbD_not, hcpu] at hmem
    simp at hmem

theorem attached_of_sent (h : cfg.Registered s) (hvm : cfg.vmlist[i]? = some vm)
    (hipc : vm.ipcs[ipcId.toNat]? = some ipc) (hlt : ipc.shmemId < cfg.shmemlistSize)
    {c : Nat} {msg : CpuMsg} (hmsg : (c, msg) ∈ (ipcHypercall cfg s vm ipcId ipcEvent).2)
    {j : Nat} {peer : IpcVm W} (hpeer : cfg.vmlist[j]? = some peer)
    (hcpu : peer.cpus.getLsbD c = true) :
    j ≠ i ∧ cfg.Attached s j ipc.shmemId ∧
      msg = ⟨cfg.ipcCpumsgId % 2 ^ 32, ipcNotifyEvent, ipcMsgData ipc.shmemId ipcEvent.toNat⟩ := by
  rw [ipcHypercall_valid hipc hlt] at hmsg
  obtain ⟨c', hmem, heq⟩ := List.mem_map.mp hmsg
  cases heq
  obtain ⟨j', peer', hpeer', hne, rfl, hatt⟩ := (IpcConfig.mem_targets h hvm hlt).mp hmem
  have hmaster := cfg.master_mem peer' (List.mem_of_getElem? hpeer')
  obtain rfl := cfg.apart j j' peer peer' hpeer hpeer' _ hcpu hmaster
  exact ⟨hne, hatt, rfl⟩

/-- **The call is delivered where the truncated ids fit.** -/
theorem delivered_of_fits (h : cfg.Registered s) (hvm : cfg.vmlist[i]? = some vm)
    (hfits : Fits cfg s i vm ipcId ipcEvent) : Delivered cfg s i vm ipcId ipcEvent where
  refused := refused_iff
  silent hinvalid := by rw [ipcHypercall_invalid hinvalid]
  sent ipc hipc hlt := ipcHypercall_sent h hvm hipc hlt
  arrives ipc hipc hlt c msg hmsg j peer hpeer hcpu := by
    obtain ⟨hne, hatt, rfl⟩ := attached_of_sent h hvm hipc hlt hmsg hpeer hcpu
    obtain ⟨hid, hevent⟩ := hfits ipc hipc hlt
    refine ⟨rfl, fun first hfirst hbelow => ?_, fun habove => ?_⟩
    · have hsmall : ipcEvent.toNat < 2 ^ 32 := by
        rcases hevent with hsmall | hnone
        · exact hsmall
        · have := hnone j peer hpeer hne hatt first hfirst
          have := Nat.mod_le ipcEvent.toNat (2 ^ 32)
          omega
      rw [ipcHandler_ipcMsgData, Nat.mod_eq_of_lt hid, Nat.mod_eq_of_lt hsmall]
      exact ipcNotify_of_first hfirst hbelow
    · rw [ipcHandler_ipcMsgData, Nat.mod_eq_of_lt hid]
      refine ipcNotify_eq_nil fun first hfirst => ?_
      rcases hevent with hsmall | hnone
      · rw [Nat.mod_eq_of_lt hsmall]
        exact habove first hfirst
      · exact hnone j peer hpeer hne hatt first hfirst

theorem fits_of_delivered (h : cfg.Registered s) (hvm : cfg.vmlist[i]? = some vm)
    (hsmall : cfg.Small) (hdel : Delivered cfg s i vm ipcId ipcEvent) :
    Fits cfg s i vm ipcId ipcEvent := by
  intro ipc hipc hlt
  have hid : ipc.shmemId < 2 ^ 32 := Nat.lt_of_lt_of_le hlt hsmall.1
  refine ⟨hid, Classical.or_iff_not_imp_left.mpr fun hlarge j peer hpeer hne hatt first hfirst => ?_⟩
  have hmaster := cfg.master_mem peer (List.mem_of_getElem? hpeer)
  have hsent : peer.master ∈ cfg.targets s vm ipc.shmemId :=
    (IpcConfig.mem_targets h hvm hlt).mpr ⟨j, peer, hpeer, hne, rfl, hatt⟩
  rw [← map_fst_ipcHypercall ipcEvent hipc hlt] at hsent
  obtain ⟨⟨c, msg⟩, hmsg, rfl⟩ := List.mem_map.mp hsent
  obtain ⟨_, _, hnone⟩ := hdel.arrives ipc hipc hlt peer.master msg hmsg j peer hpeer hmaster
  obtain ⟨_, _, rfl⟩ := attached_of_sent h hvm hipc hlt hmsg hpeer hmaster
  have hnum : first.interruptNum ≤ 2 ^ 32 := by
    have hmem : first ∈ peer.ipcs := by
      obtain ⟨_, before, after, hlist, _⟩ := hfirst
      rw [hlist]
      exact List.mem_append_cons_self
    exact hsmall.2 peer (List.mem_of_getElem? hpeer) first hmem
  have hnil := hnone fun first' hfirst' => by
    rw [hfirst'.unique hfirst]
    omega
  rw [ipcHandler_ipcMsgData, Nat.mod_eq_of_lt hid] at hnil
  by_contra hbelow
  rw [ipcNotify_of_first hfirst (Nat.lt_of_not_le hbelow)] at hnil
  cases hnil

/-- **When a notification is delivered to the peers and only to them.** -/
theorem ipc_delivered_iff (h : (ipcSystem cfg).Reachable s) (hvm : cfg.vmlist[i]? = some vm) :
    (Fits cfg s i vm ipcId ipcEvent → Delivered cfg s i vm ipcId ipcEvent) ∧
    (cfg.Small →
      (Delivered cfg s i vm ipcId ipcEvent ↔ Fits cfg s i vm ipcId ipcEvent)) :=
  have hreg := IpcConfig.registered_reachable h
  ⟨delivered_of_fits hreg hvm, fun hsmall =>
    ⟨fits_of_delivered hreg hvm hsmall, delivered_of_fits hreg hvm⟩⟩

end Call

/-- The `i`-th of two VMs with a CPU each, which share a memory and have an interrupt for it. -/
def pairVm (i : Nat) : IpcVm LongWidth.w64 := ⟨1#64 <<< i, i, [⟨0, 1, fun _ => 7⟩], []⟩

theorem pairVm_of_getElem? {i : Nat} {vm : IpcVm LongWidth.w64}
    (h : [pairVm 0, pairVm 1][i]? = some vm) : i < 2 ∧ vm = pairVm i := by
  match i, h with
  | 0, h => exact ⟨by decide, (Option.some.inj h).symm⟩
  | 1, h => exact ⟨by decide, (Option.some.inj h).symm⟩

/-- The configuration of the two. -/
def pairConfig : IpcConfig LongWidth.w64 where
  vmlist := [pairVm 0, pairVm 1]
  shmemlistSize := 1
  cpuNum := 2
  ipcCpumsgId := 0
  master_lt := by
    intro vm hvm
    obtain ⟨i, hi⟩ := List.getElem?_of_mem hvm
    obtain ⟨hlt, rfl⟩ := pairVm_of_getElem? hi
    exact hlt
  master_mem := by
    intro vm hvm
    obtain ⟨i, hi⟩ := List.getElem?_of_mem hvm
    obtain ⟨hlt, rfl⟩ := pairVm_of_getElem? hi
    exact (WordRegs.getLsbD_mask (show i < 64 by omega)).trans (decide_eq_true rfl)
  apart := by
    intro i j vm vm' hvm hvm' c hc hc'
    obtain ⟨_, rfl⟩ := pairVm_of_getElem? hvm
    obtain ⟨_, rfl⟩ := pairVm_of_getElem? hvm'
    have hlt : c < 64 := BitVec.lt_of_getLsbD hc
    have hi : c = i := of_decide_eq_true ((WordRegs.getLsbD_mask hlt).symm.trans hc)
    have hj : c = j := of_decide_eq_true ((WordRegs.getLsbD_mask hlt).symm.trans hc')
    exact hi.symm.trans hj

/-- Both masters have registered. -/
def pairState : IpcState LongWidth.w64 :=
  vmInitIpc pairConfig (vmInitIpc pairConfig ⟨fun _ => 0#64, fun _ => 0, fun _ => 0⟩ 0 (pairVm 0)
    ⟨0, 1, fun _ => 7⟩) 1 (pairVm 1) ⟨0, 1, fun _ => 7⟩

theorem pairState_reachable : (ipcSystem pairConfig).Reachable pairState := by
  have hstart : (ipcSystem pairConfig).Reachable ⟨fun _ => 0#64, fun _ => 0, fun _ => 0⟩ :=
    .init ⟨fun _ => rfl, fun _ => rfl, fun _ => rfl⟩
  have hfirst := hstart.step trivial (@IpcStep.ipc _ pairConfig _ 0 (pairVm 0) _ rfl rfl)
  exact hfirst.step trivial (@IpcStep.ipc _ pairConfig _ 1 (pairVm 1) _ rfl rfl)

/-- Event 1 is delivered: the other VM has no such interrupt. -/
theorem ipc_delivered_pair : Delivered pairConfig pairState 0 (pairVm 0) 0#64 1#64 := by
  have hsmall : pairConfig.Small := by
    refine ⟨by decide, fun vm hvm ipc hipc => ?_⟩
    obtain ⟨i, hi⟩ := List.getElem?_of_mem hvm
    obtain ⟨_, rfl⟩ := pairVm_of_getElem? hi
    obtain rfl := List.mem_singleton.mp hipc
    exact Nat.one_le_two_pow
  refine ((ipc_delivered_iff pairState_reachable rfl).2 hsmall).mpr fun ipc hipc _ => ?_
  obtain rfl := Option.some.inj hipc
  exact ⟨by decide, Or.inl (by decide)⟩

/-- Event 2^32 arrives as event 0, and the other VM gets an interrupt for it. -/
theorem ipc_delivers_wrong_event : (ipcSystem pairConfig).Reachable pairState ∧
    pairConfig.vmlist[0]? = some (pairVm 0) ∧
    ¬ Delivered pairConfig pairState 0 (pairVm 0) 0#64 (BitVec.ofNat 64 (2 ^ 32)) := by
  refine ⟨pairState_reachable, rfl, fun hdel => ?_⟩
  have hfirst : (pairVm 1).First 0 ⟨0, 1, fun _ => 7⟩ :=
    ⟨rfl, [], [], rfl, fun other hother => absurd hother List.not_mem_nil⟩
  obtain ⟨_, _, hnone⟩ := hdel.arrives _ rfl (by decide) 1 ⟨0, 0, 0⟩ (by decide) 1 (pairVm 1) rfl
    (by decide)
  have hnil := hnone fun first hfirst' => by
    rw [hfirst'.unique hfirst]
    decide
  revert hnil
  decide

end Bao

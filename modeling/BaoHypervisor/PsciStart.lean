import BaoHypervisor.BoundedFifo
import BaoHypervisor.CpuMessages
import BaoHypervisor.StartCell
import Mathlib.Data.Nat.Bitwise

/-!
# Starting vCPUs with PSCI

`psci.c` of `armv8`, with what the wake-up path of `armv8-a/psci.c`,
`core/cpu.c` and `vcpu_run` add to it.  A step is one locked section, one
access outside the lock, one message pushed or handled, or one decision of
`vcpu_run`; the steps of the vCPUs of a VM interleave freely.  The log of a
vCPU records what was called on it and what became of it.
-/

namespace Bao

open StartCell

/-- `MPIDR_AFF_MSK`, `MPIDR_RES1` and `MPIDR_U_BIT`. -/
def mpidrAffMsk : Nat := 0xffffff
def mpidrRes1 : Nat := 0x80000000
def mpidrUBit : Nat := 2 ^ 30

/-- The return codes used. -/
def psciESuccess : Int := 0
def psciEInvalidParams : Int := -2
def psciEAlreadyOn : Int := -4

/-- The VM, whose vCPUs run on cores of their own, and of the platform whether
a power-down loses the core's state, the bit of the power state that asks for
one and the length of the message queues. -/
structure PsciVm where
  cpuNum : Nat
  cpuNum_le : cpuNum ≤ 64
  physId : Nat → Nat
  physId_inj : ∀ i j, i < cpuNum → j < cpuNum → physId i = physId j → i = j
  losesState : Bool
  stateTypeBit : Nat
  ipiMaxEvents : IpiMaxEvents

/-- The states of `struct psci_ctx`. -/
inductive PsciState where
  | on
  | off
  | onPending
  deriving DecidableEq, Repr

/-- What the core of a vCPU does: it runs the guest, is about to send the start
message to vCPU `target`, is powered down by CPU_OFF or by CPU_SUSPEND, resets
the vCPU after a power-down that lost its state, or is awake in
`cpu_powerdown_wakeup`. -/
inductive PsciPhase where
  | guest
  | sending (target : Nat)
  | down
  | suspended
  | resetting
  | woken
  deriving DecidableEq, Repr

/-- A vCPU: its `psci_ctx`, what its core does, its registers `pc` and `x0`,
and what its last call returned. -/
structure PsciVcpu where
  state : PsciState
  entrypoint : Nat
  contextId : Nat
  phase : PsciPhase
  pc : Nat
  x0 : Nat
  ret : Option Int

/-- The vCPUs, the message queues of the cores, and the log of each vCPU. -/
structure PsciMachine where
  vcpu : Nat → PsciVcpu
  msgs : Nat → List CpuMsg
  log : Nat → List (Event (Nat × Nat))

/-- A vCPU is changed. -/
def PsciMachine.upd (s : PsciMachine) (i : Nat) (f : PsciVcpu → PsciVcpu) : PsciMachine :=
  { s with vcpu := atCpu s.vcpu i (f (s.vcpu i)) }

/-- An event of a vCPU is recorded. -/
def PsciMachine.record (s : PsciMachine) (i : Nat) (e : Event (Nat × Nat)) : PsciMachine :=
  { s with log := atCpu s.log i (s.log i ++ [e]) }

variable {vm : PsciVm}

/-- `vm_cpuid_to_mpidr`. -/
def PsciVm.cpuidToMpidr (vm : PsciVm) (cpuid : Nat) : Nat :=
  let mpidr := cpuid ||| mpidrRes1
  if vm.cpuNum = 1 then mpidr ||| mpidrUBit else mpidr

/-- `vm_get_vcpu_by_mpidr`. -/
def PsciVm.getVcpuByMpidr (vm : PsciVm) (mpidr : Nat) : Option Nat :=
  (List.range vm.cpuNum).find? fun vcpuid =>
    vm.cpuidToMpidr vcpuid &&& mpidrAffMsk == mpidr &&& mpidrAffMsk

/-- `vm_translate_to_pcpuid`. -/
def PsciVm.translateToPcpuid (vm : PsciVm) (vcpuid : Nat) : Option Nat :=
  if vcpuid < vm.cpuNum then some (vm.physId vcpuid) else none

/-- The start message; `PSCI_MSG_ON` is 0. -/
def psciMsgOn (psciCpumsgId : Nat) : CpuMsg := ⟨psciCpumsgId, 0, 0⟩

/-- `psci_cpu_on_handler` up to where it returns or sends the message. -/
def psciCpuOnHandler (vm : PsciVm) (cpu targetCpu entrypoint contextId : Nat) (s : PsciMachine) :
    PsciMachine :=
  match vm.getVcpuByMpidr targetCpu with
  | none => s.upd cpu fun v => { v with ret := some psciEInvalidParams }
  | some target =>
      if (s.vcpu target).state = .off then
        ((s.upd target fun v =>
          { v with state := .onPending, entrypoint := entrypoint, contextId := contextId }).upd cpu
            fun v => { v with phase := .sending target, ret := none }).record target
              (.call (entrypoint, contextId) true)
      else
        (s.upd cpu fun v => { v with ret := some psciEAlreadyOn }).record target
          (.call (entrypoint, contextId) false)

/-- The rest of it: `cpu_send_msg` and the return. -/
def psciSendOn (vm : PsciVm) (cpu : Nat) (s : PsciMachine) : PsciMachine :=
  match (s.vcpu cpu).phase with
  | .sending target =>
      match vm.translateToPcpuid target with
      | none => s.upd cpu fun v => { v with phase := .guest, ret := some psciEInvalidParams }
      | some pcpuid =>
          { s.upd cpu fun v => { v with phase := .guest, ret := some psciESuccess } with
            msgs := atCpu s.msgs pcpuid
              (BoundedFifo.push vm.ipiMaxEvents.val (s.msgs pcpuid) (psciMsgOn 0)).2 }
  | _ => s

/-- `psci_cpu_off_handler` up to `cpu_powerdown`, which does not return. -/
def psciCpuOffHandler (cpu : Nat) (s : PsciMachine) : PsciMachine :=
  (s.upd cpu fun v => { v with state := .off, phase := .down }).record cpu .stop

/-- `psci_cpu_suspend_handler`; the result of the firmware is `none` where the
core is powered down and its state lost, or what the call returns. -/
def psciCpuSuspendHandler (vm : PsciVm) (cpu powerState entrypoint contextId : Nat)
    (result : Option Int) (s : PsciMachine) : PsciMachine :=
  if powerState &&& vm.stateTypeBit ≠ 0 then
    let s := s.upd cpu fun v => { v with entrypoint := entrypoint, contextId := contextId }
    match result with
    | none =>
        (s.upd cpu fun v => { v with phase := .suspended }).record cpu
          (.suspend (entrypoint, contextId))
    | some ret => s.upd cpu fun v => { v with ret := some ret }
  else s.upd cpu fun v => { v with ret := result }

/-- A core that is powered down wakes up.  Where the state was lost, its first
step is that of `psci_wake_from_powerdown`, `vcpu_arch_reset`, outside the
lock. -/
def psciWake (cpu : Nat) (lost : Bool) (s : PsciMachine) : PsciMachine :=
  if lost then
    (s.upd cpu fun v => { v with pc := v.entrypoint, x0 := 0, phase := .resetting }).record cpu
      .reset
  else s.upd cpu fun v => { v with phase := .woken }

/-- The second step of `psci_wake_from_powerdown`, `vcpu_writereg`. -/
def psciWakeArg (cpu : Nat) (s : PsciMachine) : PsciMachine :=
  s.upd cpu fun v => { v with x0 := v.contextId, phase := .woken }

/-- `psci_wake_from_off`. -/
def psciWakeFromOff (cpu : Nat) (s : PsciMachine) : PsciMachine :=
  if (s.vcpu cpu).state = .onPending then
    let s := s.upd cpu fun v => { v with pc := v.entrypoint, state := .on, x0 := v.contextId }
    s.record cpu (.start ((s.vcpu cpu).pc, (s.vcpu cpu).x0))
  else s

/-- `psci_cpumsg_handler`. -/
def psciCpumsgHandler (cpu event : Nat) (s : PsciMachine) : PsciMachine :=
  if event = 0 then psciWakeFromOff cpu s else s

/-- One turn of `cpu_msg_handler`. -/
def psciDeliver (vm : PsciVm) (cpu : Nat) (s : PsciMachine) : PsciMachine :=
  match s.msgs (vm.physId cpu) with
  | [] => s
  | msg :: rest =>
      psciCpumsgHandler cpu msg.event { s with msgs := atCpu s.msgs (vm.physId cpu) rest }

/-- `vcpu_run` at the end of the wake-up. -/
def psciVcpuRun (cpu : Nat) (s : PsciMachine) : PsciMachine :=
  if (s.vcpu cpu).state = .on then
    (s.upd cpu fun v => { v with phase := .guest }).record cpu
      (.enter ((s.vcpu cpu).pc, (s.vcpu cpu).x0))
  else s.upd cpu fun v => { v with phase := .down }

/-- The steps of vCPU `cpu`. -/
inductive PsciEvent where
  | cpuOn (cpu targetCpu entrypoint contextId : Nat)
  | sendOn (cpu : Nat)
  | cpuOff (cpu : Nat)
  | cpuSuspend (cpu powerState entrypoint contextId : Nat) (result : Option Int)
  | wake (cpu : Nat) (lost : Bool)
  | wakeArg (cpu : Nat)
  | deliver (cpu : Nat)
  | vcpuRun (cpu : Nat)
  deriving DecidableEq

/-- The vCPU of a step. -/
def PsciEvent.cpu : PsciEvent → Nat
  | .cpuOn cpu .. | .sendOn cpu | .cpuOff cpu | .cpuSuspend cpu .. | .wake cpu _ | .wakeArg cpu
  | .deliver cpu | .vcpuRun cpu => cpu

/-- A step is possible.  The guest makes calls and is interrupted by messages;
a core that lost its state wakes up with a reset. -/
def psciEnabled (vm : PsciVm) (e : PsciEvent) (s : PsciMachine) : Prop :=
  e.cpu < vm.cpuNum ∧
    match e with
    | .cpuOn cpu .. => (s.vcpu cpu).phase = .guest
    | .sendOn cpu => ∃ target, (s.vcpu cpu).phase = .sending target
    | .cpuOff cpu => (s.vcpu cpu).phase = .guest
    | .cpuSuspend cpu powerState _ _ result => (s.vcpu cpu).phase = .guest ∧
        (result = none → vm.losesState = true ∧ powerState &&& vm.stateTypeBit ≠ 0)
    | .wake cpu lost => (lost = true → vm.losesState = true) ∧
        ((s.vcpu cpu).phase = .down ∨ ((s.vcpu cpu).phase = .suspended ∧ lost = true))
    | .wakeArg cpu => (s.vcpu cpu).phase = .resetting
    | .deliver cpu => (s.vcpu cpu).phase = .guest ∨ (s.vcpu cpu).phase = .woken
    | .vcpuRun cpu => (s.vcpu cpu).phase = .woken

/-- What a step does. -/
def psciNext (vm : PsciVm) : PsciEvent → PsciMachine → PsciMachine
  | .cpuOn cpu targetCpu entrypoint contextId =>
      psciCpuOnHandler vm cpu targetCpu entrypoint contextId
  | .sendOn cpu => psciSendOn vm cpu
  | .cpuOff cpu => psciCpuOffHandler cpu
  | .cpuSuspend cpu powerState entrypoint contextId result =>
      psciCpuSuspendHandler vm cpu powerState entrypoint contextId result
  | .wake cpu lost => psciWake cpu lost
  | .wakeArg cpu => psciWakeArg cpu
  | .deliver cpu => psciDeliver vm cpu
  | .vcpuRun cpu => psciVcpuRun cpu

/-- The first vCPU runs, the others are off and about to power down. -/
structure PsciInit (s : PsciMachine) : Prop where
  state : ∀ i, (s.vcpu i).state = if i = 0 then .on else .off
  phase : ∀ i, (s.vcpu i).phase = if i = 0 then .guest else .woken
  msgs : ∀ c, s.msgs c = []
  log : ∀ i, s.log i = []

/-- The vCPUs of a VM and their PSCI calls. -/
def psciSystem (vm : PsciVm) : StepSystem PsciMachine PsciEvent :=
  .ofNext PsciInit (psciEnabled vm) (psciNext vm)

/-! ## What the parts of the state are after a change -/

@[simp] theorem PsciMachine.upd_same (s : PsciMachine) (i : Nat) (f : PsciVcpu → PsciVcpu) :
    (s.upd i f).vcpu i = f (s.vcpu i) := atCpu_same _ _ _

theorem PsciMachine.upd_ne (s : PsciMachine) {i j : Nat} (f : PsciVcpu → PsciVcpu) (h : j ≠ i) :
    (s.upd i f).vcpu j = s.vcpu j := atCpu_other _ _ h

@[simp] theorem PsciMachine.upd_msgs (s : PsciMachine) (i : Nat) (f : PsciVcpu → PsciVcpu) :
    (s.upd i f).msgs = s.msgs := rfl

@[simp] theorem PsciMachine.record_vcpu (s : PsciMachine) (i : Nat) (e : Event (Nat × Nat)) :
    (s.record i e).vcpu = s.vcpu := rfl

@[simp] theorem PsciMachine.record_msgs (s : PsciMachine) (i : Nat) (e : Event (Nat × Nat)) :
    (s.record i e).msgs = s.msgs := rfl

@[simp] theorem PsciMachine.record_log_same (s : PsciMachine) (i : Nat) (e : Event (Nat × Nat)) :
    (s.record i e).log i = s.log i ++ [e] := atCpu_same _ _ _

theorem PsciMachine.record_log_ne (s : PsciMachine) {i j : Nat} (e : Event (Nat × Nat))
    (h : j ≠ i) : (s.record i e).log j = s.log j := atCpu_other _ _ h

/-- **Which ids name a vCPU**: three affinity levels are compared. -/
theorem PsciVm.getVcpuByMpidr_iff {mpidr t : Nat} :
    vm.getVcpuByMpidr mpidr = some t ↔ t < vm.cpuNum ∧ mpidr % 2 ^ 24 = t := by
  have hmask : ∀ n, n &&& mpidrAffMsk = n % 2 ^ 24 := fun n => Nat.and_two_pow_sub_one_eq_mod n 24
  have hres : ∀ c, (c ||| mpidrRes1) % 2 ^ 24 = c % 2 ^ 24 := by
    intro c
    rw [← hmask, ← hmask, Nat.and_or_distrib_right]
    exact Nat.or_zero _
  have hid : ∀ c, vm.cpuidToMpidr c % 2 ^ 24 = c % 2 ^ 24 := by
    intro c
    unfold PsciVm.cpuidToMpidr
    dsimp only
    split
    · rw [← hres c, ← hmask, ← hmask, Nat.and_or_distrib_right]
      exact Nat.or_zero _
    · exact hres c
  have hsmall : ∀ c, c < vm.cpuNum → c % 2 ^ 24 = c := by
    intro c hc
    have hle := vm.cpuNum_le
    exact Nat.mod_eq_of_lt (by omega)
  have hmatch : ∀ c, (vm.cpuidToMpidr c &&& mpidrAffMsk == mpidr &&& mpidrAffMsk) = true ↔
      c % 2 ^ 24 = mpidr % 2 ^ 24 := by
    intro c
    rw [beq_iff_eq, hmask, hmask, hid]
  unfold PsciVm.getVcpuByMpidr
  rw [List.find?_range_eq_some]
  simp only [hmatch, Bool.not_eq_true', ← Bool.not_eq_true, List.mem_range]
  constructor
  · rintro ⟨heq, hlt, _⟩
    exact ⟨hlt, by rw [← heq, hsmall t hlt]⟩
  · rintro ⟨hlt, heq⟩
    refine ⟨by rw [hsmall t hlt, heq], hlt, fun c hc hceq => ?_⟩
    rw [hsmall c (Nat.lt_trans hc hlt), heq] at hceq
    omega

variable {s s' : PsciMachine}

/-! ## The invariant -/

/-- The core is on its way through a power-down or a wake-up. -/
def PsciPhase.Idle (p : PsciPhase) : Prop := p = .down ∨ p = .resetting ∨ p = .woken

/-- A vCPU in a state of the start automaton. -/
def PsciCell (v : PsciVcpu) : Power (Nat × Nat) → Prop
  | .running => v.state = .on ∧ (v.phase = .guest ∨ ∃ t, v.phase = .sending t)
  | .off => v.state = .off ∧ v.phase.Idle
  | .pending x => v.state = .onPending ∧ v.phase.Idle ∧ (v.entrypoint, v.contextId) = x
  | .ready x => v.state = .on ∧
      ((v.phase = .woken ∧ (v.pc, v.x0) = x) ∨
        (v.phase = .suspended ∧ (v.entrypoint, v.contextId) = x) ∨
        (v.phase = .resetting ∧ (v.pc, v.contextId) = x))

/-- The first vCPU runs from the start. -/
def psciPower (t : Nat) : Power (Nat × Nat) := if t = 0 then .running else .off

/-- Nobody is about to send the start message to vCPU `t`. -/
def NoSender (vm : PsciVm) (s : PsciMachine) (t : Nat) : Prop :=
  ∀ j, j < vm.cpuNum → (s.vcpu j).phase ≠ .sending t

/-- One vCPU is about to send it. -/
def OneSender (vm : PsciVm) (s : PsciMachine) (t : Nat) : Prop :=
  ∃ j, j < vm.cpuNum ∧ (s.vcpu j).phase = .sending t ∧
    ∀ i, i < vm.cpuNum → (s.vcpu i).phase = .sending t → i = j

/-- **The start message on its way**: one for a vCPU that is to be started, and
none for any other. -/
structure InFlight (vm : PsciVm) (s : PsciMachine) (t : Nat) : Prop where
  one : (s.vcpu t).state = .onPending →
    (s.msgs (vm.physId t) = [psciMsgOn 0] ∧ NoSender vm s t) ∨
      (s.msgs (vm.physId t) = [] ∧ OneSender vm s t)
  none : (s.vcpu t).state ≠ .onPending → s.msgs (vm.physId t) = [] ∧ NoSender vm s t

/-- What holds in every reachable state. -/
structure PsciInv (vm : PsciVm) (s : PsciMachine) : Prop where
  cell : ∀ t, t < vm.cpuNum →
    ∃ p, replay (psciPower t) (s.log t) = some p ∧ PsciCell (s.vcpu t) p
  flight : ∀ t, t < vm.cpuNum → InFlight vm s t
  target : ∀ j t, j < vm.cpuNum → (s.vcpu j).phase = .sending t → t < vm.cpuNum

theorem PsciInv.init (h : PsciInit s) : PsciInv vm s where
  cell t _ := by
    refine ⟨psciPower t, by rw [h.log]; rfl, ?_⟩
    have hstate := h.state t
    have hphase := h.phase t
    unfold psciPower
    by_cases ht : t = 0
    · rw [if_pos ht] at hstate hphase ⊢
      exact ⟨hstate, Or.inl hphase⟩
    · rw [if_neg ht] at hstate hphase ⊢
      exact ⟨hstate, Or.inr (Or.inr hphase)⟩
  flight t _ := by
    have hno : NoSender vm s t := by
      intro j _ hphase
      rw [h.phase j] at hphase
      split at hphase
      · cases hphase
      · cases hphase
    constructor
    · intro hpend
      rw [h.state t] at hpend
      split at hpend
      · cases hpend
      · cases hpend
    · intro _
      exact ⟨h.msgs _, hno⟩
  target j t _ hphase := by
    rw [h.phase j] at hphase
    split at hphase
    · cases hphase
    · cases hphase

/-- Nothing about the start message of vCPU `t` changed. -/
theorem InFlight.congr {t : Nat} (h : InFlight vm s t)
    (hmsgs : s'.msgs (vm.physId t) = s.msgs (vm.physId t))
    (hstate : (s'.vcpu t).state = .onPending ↔ (s.vcpu t).state = .onPending)
    (hphase : ∀ i, i < vm.cpuNum →
      ((s'.vcpu i).phase = .sending t ↔ (s.vcpu i).phase = .sending t)) :
    InFlight vm s' t := by
  have hno : NoSender vm s t → NoSender vm s' t :=
    fun hs i hi hsend => hs i hi ((hphase i hi).mp hsend)
  constructor
  · intro hpend
    rw [hmsgs]
    rcases h.one (hstate.mp hpend) with ⟨hmsg, hs⟩ | ⟨hmsg, j, hj, hsend, honly⟩
    · exact Or.inl ⟨hmsg, hno hs⟩
    · right
      refine ⟨hmsg, j, hj, (hphase j hj).mpr hsend, ?_⟩
      intro i hi hi'
      exact honly i hi ((hphase i hi).mp hi')
  · intro hnot
    rw [hmsgs]
    obtain ⟨hmsg, hs⟩ := h.none (fun hpend => hnot (hstate.mpr hpend))
    exact ⟨hmsg, hno hs⟩

theorem PsciInv.congr (h : PsciInv vm s) (hmsgs : s'.msgs = s.msgs)
    (hstate : ∀ i, (s'.vcpu i).state = .onPending ↔ (s.vcpu i).state = .onPending)
    (hphase : ∀ i t, (s'.vcpu i).phase = .sending t ↔ (s.vcpu i).phase = .sending t)
    (hcell : ∀ t, t < vm.cpuNum →
      ∃ p, replay (psciPower t) (s'.log t) = some p ∧ PsciCell (s'.vcpu t) p) : PsciInv vm s' where
  cell := hcell
  flight t ht := (h.flight t ht).congr (by rw [hmsgs]) (hstate t) fun i _ => hphase i t
  target j t hj hp := h.target j t hj ((hphase j t).mp hp)

theorem PsciInv.record {t : Nat} {e : Event (Nat × Nat)} (h : PsciInv vm s)
    (hcell : ∀ p, PsciCell (s.vcpu t) p → next p e = some p) : PsciInv vm (s.record t e) := by
  apply h.congr (PsciMachine.record_msgs _ _ _) (fun _ => Iff.rfl) (fun _ _ => Iff.rfl)
  intro i hi
  obtain ⟨p, hp, hpcell⟩ := h.cell i hi
  by_cases hit : i = t
  · rw [hit] at hp hpcell ⊢
    rw [PsciMachine.record_log_same]
    exact ⟨p, replay_concat hp (hcell p hpcell), hpcell⟩
  · rw [PsciMachine.record_log_ne _ _ hit]
    exact ⟨p, hp, hpcell⟩

theorem PsciInv.upd {j : Nat} {f : PsciVcpu → PsciVcpu} (h : PsciInv vm s)
    (hstate : (f (s.vcpu j)).state = .onPending ↔ (s.vcpu j).state = .onPending)
    (hphase : ∀ t, (f (s.vcpu j)).phase = .sending t ↔ (s.vcpu j).phase = .sending t)
    (hcell : ∀ p, PsciCell (s.vcpu j) p → PsciCell (f (s.vcpu j)) p) :
    PsciInv vm (s.upd j f) := by
  apply h.congr (PsciMachine.upd_msgs _ _ _)
  · intro i
    by_cases hij : i = j
    · rw [hij, PsciMachine.upd_same]
      exact hstate
    · rw [PsciMachine.upd_ne _ _ hij]
  · intro i t
    by_cases hij : i = j
    · rw [hij, PsciMachine.upd_same]
      exact hphase t
    · rw [PsciMachine.upd_ne _ _ hij]
  · intro i hi
    obtain ⟨p, hp, hpcell⟩ := h.cell i hi
    by_cases hij : i = j
    · rw [hij] at hp hpcell ⊢
      rw [PsciMachine.upd_same]
      exact ⟨p, hp, hcell p hpcell⟩
    · rw [PsciMachine.upd_ne _ _ hij]
      exact ⟨p, hp, hpcell⟩

theorem PsciInv.updRecord {j : Nat} {f : PsciVcpu → PsciVcpu} {e : Event (Nat × Nat)}
    (h : PsciInv vm s) (hstate : (f (s.vcpu j)).state = .onPending ↔ (s.vcpu j).state = .onPending)
    (hphase : ∀ t, (f (s.vcpu j)).phase = .sending t ↔ (s.vcpu j).phase = .sending t)
    (hcell : ∀ p, PsciCell (s.vcpu j) p →
      ∃ p', next p e = some p' ∧ PsciCell (f (s.vcpu j)) p') :
    PsciInv vm ((s.upd j f).record j e) := by
  have hmsgs : ((s.upd j f).record j e).msgs = s.msgs := rfl
  apply h.congr hmsgs
  · intro i
    rw [PsciMachine.record_vcpu]
    by_cases hij : i = j
    · rw [hij, PsciMachine.upd_same]
      exact hstate
    · rw [PsciMachine.upd_ne _ _ hij]
  · intro i t
    rw [PsciMachine.record_vcpu]
    by_cases hij : i = j
    · rw [hij, PsciMachine.upd_same]
      exact hphase t
    · rw [PsciMachine.upd_ne _ _ hij]
  · intro i hi
    obtain ⟨p, hp, hpcell⟩ := h.cell i hi
    rw [PsciMachine.record_vcpu]
    by_cases hij : i = j
    · rw [hij] at hp hpcell ⊢
      obtain ⟨p', hnext, hcell'⟩ := hcell p hpcell
      rw [PsciMachine.record_log_same, PsciMachine.upd_same]
      exact ⟨p', replay_concat hp hnext, hcell'⟩
    · rw [PsciMachine.record_log_ne _ _ hij, PsciMachine.upd_ne _ _ hij]
      exact ⟨p, hp, hpcell⟩

theorem PsciCell.ret {v : PsciVcpu} {p : Power (Nat × Nat)} (h : PsciCell v p)
    (ret : Option Int) : PsciCell { v with ret := ret } p := by
  cases p <;> exact h

theorem PsciCell.of_guest {v : PsciVcpu} {p : Power (Nat × Nat)} (h : PsciCell v p)
    (hguest : v.phase = .guest) : p = .running := by
  cases p with
  | running => rfl
  | off => rcases h.2 with hp | hp | hp <;> rw [hguest] at hp <;> cases hp
  | pending x => rcases h.2.1 with hp | hp | hp <;> rw [hguest] at hp <;> cases hp
  | ready x => rcases h.2 with hp | hp | hp <;> have hp := hp.1 <;> rw [hguest] at hp <;> cases hp

theorem PsciCell.of_off {v : PsciVcpu} {p : Power (Nat × Nat)} (h : PsciCell v p)
    (hoff : v.state = .off) : p = .off := by
  cases p with
  | off => rfl
  | running => exact absurd (hoff.symm.trans h.1) (by decide)
  | pending x => exact absurd (hoff.symm.trans h.1) (by decide)
  | ready x => exact absurd (hoff.symm.trans h.1) (by decide)

theorem PsciCell.of_pending {v : PsciVcpu} {p : Power (Nat × Nat)} (h : PsciCell v p)
    (hpend : v.state = .onPending) : p = .pending (v.entrypoint, v.contextId) ∧ v.phase.Idle := by
  cases p with
  | pending x => exact ⟨congrArg Power.pending h.2.2.symm, h.2.1⟩
  | running => exact absurd (hpend.symm.trans h.1) (by decide)
  | off => exact absurd (hpend.symm.trans h.1) (by decide)
  | ready x => exact absurd (hpend.symm.trans h.1) (by decide)

theorem next_refused {p : Power (Nat × Nat)} {x : Nat × Nat} (h : p ≠ .off) :
    next p (.call x false) = some p := by
  cases p with
  | off => exact absurd rfl h
  | running => rfl
  | pending y => rfl
  | ready y => rfl

/-- **A call that is accepted** makes the vCPU pending, with its message still
to be sent by the caller. -/
theorem PsciInv.accept {cpu t entrypoint contextId : Nat} (h : PsciInv vm s)
    (hcpu : cpu < vm.cpuNum) (hguest : (s.vcpu cpu).phase = .guest) (ht : t < vm.cpuNum)
    (hoff : (s.vcpu t).state = .off) :
    PsciInv vm (((s.upd t fun v =>
      { v with state := .onPending, entrypoint := entrypoint, contextId := contextId }).upd cpu
        fun v => { v with phase := .sending t, ret := none }).record t
          (.call (entrypoint, contextId) true)) := by
  obtain ⟨p, hp, hpcell⟩ := h.cell t ht
  have hpoff := hpcell.of_off hoff
  obtain ⟨q, hq, hqcell⟩ := h.cell cpu hcpu
  have hqrun := hqcell.of_guest hguest
  rw [hpoff] at hp hpcell
  rw [hqrun] at hq hqcell
  have hne : t ≠ cpu := by
    intro heq
    rw [heq] at hoff
    exact absurd (hoff.symm.trans hqcell.1) (by decide)
  generalize hs' : ((s.upd t fun v =>
      { v with state := .onPending, entrypoint := entrypoint, contextId := contextId }).upd cpu
        fun v => { v with phase := .sending t, ret := none }).record t
          (.call (entrypoint, contextId) true) = s'
  have htarget : s'.vcpu t = { s.vcpu t with
      state := .onPending, entrypoint := entrypoint, contextId := contextId } := by
    rw [← hs', PsciMachine.record_vcpu, PsciMachine.upd_ne _ _ hne, PsciMachine.upd_same]
  have hcaller : s'.vcpu cpu = { s.vcpu cpu with phase := .sending t, ret := none } := by
    rw [← hs', PsciMachine.record_vcpu, PsciMachine.upd_same, PsciMachine.upd_ne _ _ hne.symm]
  have hother : ∀ i, i ≠ t → i ≠ cpu → s'.vcpu i = s.vcpu i := by
    intro i hit hic
    rw [← hs', PsciMachine.record_vcpu, PsciMachine.upd_ne _ _ hic, PsciMachine.upd_ne _ _ hit]
  have hlogTarget : s'.log t = s.log t ++ [.call (entrypoint, contextId) true] := by
    rw [← hs', PsciMachine.record_log_same]
    rfl
  have hlog : ∀ i, i ≠ t → s'.log i = s.log i := by
    intro i hit
    rw [← hs', PsciMachine.record_log_ne _ _ hit]
    rfl
  have hmsgs : s'.msgs = s.msgs := by rw [← hs']; rfl
  have hphase : ∀ i u, (s'.vcpu i).phase = .sending u ↔
      (s.vcpu i).phase = .sending u ∨ (i = cpu ∧ u = t) := by
    intro i u
    by_cases hic : i = cpu
    · rw [hic, hcaller, hguest]
      constructor
      · intro heq
        exact Or.inr ⟨rfl, (PsciPhase.sending.inj heq).symm⟩
      · rintro (heq | ⟨_, hu⟩)
        · cases heq
        · rw [hu]
    · have hsame : (s'.vcpu i).phase = (s.vcpu i).phase := by
        by_cases hit : i = t
        · rw [hit, htarget]
        · rw [hother i hit hic]
      rw [hsame]
      constructor
      · exact Or.inl
      · rintro (heq | ⟨hi, _⟩)
        · exact heq
        · exact absurd hi hic
  constructor
  · intro i hi
    by_cases hit : i = t
    · rw [hit, htarget, hlogTarget]
      exact ⟨_, replay_concat hp rfl, rfl, hpcell.2, rfl⟩
    · rw [hlog i hit]
      by_cases hic : i = cpu
      · rw [hic, hcaller]
        exact ⟨_, hq, hqcell.1, Or.inr ⟨t, rfl⟩⟩
      · rw [hother i hit hic]
        exact h.cell i hi
  · intro u hu
    by_cases hut : u = t
    · rw [hut]
      obtain ⟨hempty, hno⟩ := (h.flight t ht).none (fun hpend => by rw [hoff] at hpend; cases hpend)
      constructor
      · intro _
        right
        refine ⟨by rw [hmsgs]; exact hempty, cpu, hcpu, (hphase cpu t).mpr (Or.inr ⟨rfl, rfl⟩), ?_⟩
        intro i hi hsend
        rcases (hphase i t).mp hsend with hold | ⟨hic, _⟩
        · exact absurd hold (hno i hi)
        · exact hic
      · intro hnot
        rw [htarget] at hnot
        exact absurd rfl hnot
    · have hstate : (s'.vcpu u).state = (s.vcpu u).state := by
        by_cases huc : u = cpu
        · rw [huc, hcaller]
        · rw [hother u hut huc]
      apply (h.flight u hu).congr (by rw [hmsgs]) (by rw [hstate])
      intro i _
      rw [hphase i u]
      constructor
      · rintro (hold | ⟨_, heq⟩)
        · exact hold
        · exact absurd heq hut
      · exact Or.inl
  · intro j u hj hsend
    rcases (hphase j u).mp hsend with hold | ⟨_, hut⟩
    · exact h.target j u hj hold
    · rw [hut]
      exact ht


/-- **CPU_ON** up to where it returns or sends. -/
theorem PsciInv.cpuOn {cpu targetCpu entrypoint contextId : Nat} (h : PsciInv vm s)
    (hcpu : cpu < vm.cpuNum) (hguest : (s.vcpu cpu).phase = .guest) :
    PsciInv vm (psciCpuOnHandler vm cpu targetCpu entrypoint contextId s) := by
  unfold psciCpuOnHandler
  cases hfind : vm.getVcpuByMpidr targetCpu with
  | none =>
      dsimp only
      exact h.upd Iff.rfl (fun _ => Iff.rfl) fun p hp => hp.ret _
  | some target =>
      have htarget : target < vm.cpuNum := (PsciVm.getVcpuByMpidr_iff.mp hfind).1
      dsimp only
      by_cases hoff : (s.vcpu target).state = .off
      · rw [if_pos hoff]
        exact h.accept hcpu hguest htarget hoff
      · rw [if_neg hoff]
        have hret : PsciInv vm (s.upd cpu fun v => { v with ret := some psciEAlreadyOn }) :=
          h.upd Iff.rfl (fun _ => Iff.rfl) fun p hp => hp.ret _
        apply hret.record
        intro p hp
        apply next_refused
        intro hpoff
        rw [hpoff] at hp
        apply hoff
        by_cases htc : target = cpu
        · rw [htc, PsciMachine.upd_same] at hp
          rw [htc]
          exact hp.1
        · rw [PsciMachine.upd_ne _ _ htc] at hp
          exact hp.1

/-- **The message is sent**, and finds room. -/
theorem PsciInv.sendOn {cpu target : Nat} (h : PsciInv vm s) (hcpu : cpu < vm.cpuNum)
    (hsend : (s.vcpu cpu).phase = .sending target) :
    PsciInv vm (psciSendOn vm cpu s) ∧
      ((psciSendOn vm cpu s).vcpu cpu).ret = some psciESuccess ∧
      (psciSendOn vm cpu s).msgs (vm.physId target) = [psciMsgOn 0] := by
  have htarget := h.target cpu target hcpu hsend
  have hpend : (s.vcpu target).state = .onPending := by
    apply Decidable.byContradiction
    intro hnot
    exact ((h.flight target htarget).none hnot).2 cpu hcpu hsend
  obtain ⟨hempty, j, _, _, honly⟩ : s.msgs (vm.physId target) = [] ∧ OneSender vm s target := by
    rcases (h.flight target htarget).one hpend with ⟨_, hno⟩ | hone
    · exact absurd hsend (hno cpu hcpu)
    · exact hone
  have hlone : ∀ i, i < vm.cpuNum → (s.vcpu i).phase = .sending target → i = cpu := by
    intro i hi hi'
    rw [honly i hi hi', honly cpu hcpu hsend]
  have hpush : (BoundedFifo.push vm.ipiMaxEvents.val [] (psciMsgOn 0)).2 = [psciMsgOn 0] := by
    rw [BoundedFifo.push_of_room _ vm.ipiMaxEvents.pos]
    rfl
  have hdef : psciSendOn vm cpu s =
      { s.upd cpu fun v => { v with phase := .guest, ret := some psciESuccess } with
        msgs := atCpu s.msgs (vm.physId target) [psciMsgOn 0] } := by
    unfold psciSendOn PsciVm.translateToPcpuid
    rw [hsend]
    dsimp only
    rw [if_pos htarget]
    dsimp only
    rw [hempty, hpush]
  generalize hs' : psciSendOn vm cpu s = s' at hdef
  have hcaller : s'.vcpu cpu =
      { s.vcpu cpu with phase := .guest, ret := some psciESuccess } := by
    rw [hdef]
    exact atCpu_same _ _ _
  have hother : ∀ i, i ≠ cpu → s'.vcpu i = s.vcpu i := by
    intro i hi
    rw [hdef]
    exact atCpu_other _ _ hi
  have hstate : ∀ i, (s'.vcpu i).state = (s.vcpu i).state := by
    intro i
    by_cases hi : i = cpu
    · rw [hi, hcaller]
    · rw [hother i hi]
  have hphase : ∀ i u, (s'.vcpu i).phase = .sending u ↔
      (s.vcpu i).phase = .sending u ∧ i ≠ cpu := by
    intro i u
    by_cases hi : i = cpu
    · rw [hi, hcaller]
      constructor
      · intro heq
        cases heq
      · intro hboth
        exact absurd rfl hboth.2
    · rw [hother i hi]
      exact ⟨fun heq => ⟨heq, hi⟩, fun hboth => hboth.1⟩
  have hmsgs : s'.msgs (vm.physId target) = [psciMsgOn 0] := by
    rw [hdef]
    exact atCpu_same _ _ _
  refine ⟨⟨?_, ?_, ?_⟩, by rw [hcaller], hmsgs⟩
  · intro t ht
    obtain ⟨p, hp, hpcell⟩ := h.cell t ht
    have hlog : s'.log t = s.log t := by rw [hdef]; rfl
    rw [hlog]
    refine ⟨p, hp, ?_⟩
    by_cases htc : t = cpu
    · rw [htc] at hpcell ⊢
      rw [hcaller]
      cases p with
      | running => exact ⟨hpcell.1, Or.inl rfl⟩
      | off => rcases hpcell.2 with hp' | hp' | hp' <;> rw [hsend] at hp' <;> cases hp'
      | pending x => rcases hpcell.2.1 with hp' | hp' | hp' <;> rw [hsend] at hp' <;> cases hp'
      | ready x =>
          rcases hpcell.2 with hp' | hp' | hp' <;> have hp' := hp'.1 <;> rw [hsend] at hp' <;>
            cases hp'
    · rw [hother t htc]
      exact hpcell
  · intro t ht
    by_cases htt : t = target
    · rw [htt]
      constructor
      · intro _
        left
        refine ⟨hmsgs, ?_⟩
        intro i hi hi'
        obtain ⟨hold, hne⟩ := (hphase i target).mp hi'
        exact hne (hlone i hi hold)
      · intro hnot
        rw [hstate] at hnot
        exact absurd hpend hnot
    · have hcore : vm.physId t ≠ vm.physId target :=
        fun heq => htt (vm.physId_inj t target ht htarget heq)
      have hsame : s'.msgs (vm.physId t) = s.msgs (vm.physId t) := by
        rw [hdef]
        exact atCpu_other _ _ hcore
      apply (h.flight t ht).congr hsame (by rw [hstate])
      intro i _
      rw [hphase i t]
      constructor
      · exact And.left
      · intro hi'
        refine ⟨hi', fun hic => ?_⟩
        rw [hic, hsend] at hi'
        exact htt (PsciPhase.sending.inj hi').symm
  · intro i t hi hi'
    exact h.target i t hi ((hphase i t).mp hi').1

/-- **CPU_OFF.** -/
theorem PsciInv.cpuOff {cpu : Nat} (h : PsciInv vm s) (hcpu : cpu < vm.cpuNum)
    (hguest : (s.vcpu cpu).phase = .guest) : PsciInv vm (psciCpuOffHandler cpu s) := by
  obtain ⟨q, _, hq⟩ := h.cell cpu hcpu
  have hon : (s.vcpu cpu).state = .on := by
    rw [hq.of_guest hguest] at hq
    exact hq.1
  apply h.updRecord
  · rw [hon]
    exact ⟨nofun, nofun⟩
  · intro t
    rw [hguest]
    exact ⟨nofun, nofun⟩
  · intro p hp
    rw [hp.of_guest hguest]
    exact ⟨.off, rfl, rfl, Or.inl rfl⟩

/-- **CPU_SUSPEND**: the context is overwritten only while the vCPU is on. -/
theorem PsciInv.cpuSuspend {cpu powerState entrypoint contextId : Nat} {result : Option Int}
    (h : PsciInv vm s) (hguest : (s.vcpu cpu).phase = .guest) :
    PsciInv vm (psciCpuSuspendHandler vm cpu powerState entrypoint contextId result s) := by
  unfold psciCpuSuspendHandler
  by_cases htype : powerState &&& vm.stateTypeBit ≠ 0
  · rw [if_pos htype]
    have hctx : PsciInv vm (s.upd cpu fun v =>
        { v with entrypoint := entrypoint, contextId := contextId }) := by
      apply h.upd Iff.rfl (fun _ => Iff.rfl)
      intro p hp
      have hrun := hp.of_guest hguest
      rw [hrun] at hp ⊢
      exact hp
    have hguest' : ((s.upd cpu fun v =>
        { v with entrypoint := entrypoint, contextId := contextId }).vcpu cpu).phase = .guest := by
      rw [PsciMachine.upd_same]
      exact hguest
    cases result with
    | some ret =>
        dsimp only
        exact hctx.upd Iff.rfl (fun _ => Iff.rfl) fun p hp => hp.ret _
    | none =>
        dsimp only
        apply hctx.updRecord Iff.rfl
        · intro t
          rw [hguest']
          exact ⟨nofun, nofun⟩
        · intro p hp
          have hrun := hp.of_guest hguest'
          rw [hrun] at hp ⊢
          refine ⟨.ready (entrypoint, contextId), rfl, hp.1, Or.inr (Or.inl ⟨rfl, ?_⟩)⟩
          rw [PsciMachine.upd_same]
  · rw [if_neg htype]
    exact h.upd Iff.rfl (fun _ => Iff.rfl) fun p hp => hp.ret _

theorem PsciCell.of_down {v : PsciVcpu} {p : Power (Nat × Nat)} (h : PsciCell v p)
    (hdown : v.phase = .down) : p = .off ∨ ∃ x, p = .pending x := by
  cases p with
  | off => exact Or.inl rfl
  | pending x => exact Or.inr ⟨x, rfl⟩
  | running =>
      rcases h.2 with hp | ⟨t, hp⟩
      · rw [hdown] at hp
        cases hp
      · rw [hdown] at hp
        cases hp
  | ready x => rcases h.2 with hp | hp | hp <;> have hp := hp.1 <;> rw [hdown] at hp <;> cases hp

theorem PsciCell.of_suspended {v : PsciVcpu} {p : Power (Nat × Nat)} (h : PsciCell v p)
    (hsusp : v.phase = .suspended) : p = .ready (v.entrypoint, v.contextId) := by
  cases p with
  | off => rcases h.2 with hp | hp | hp <;> rw [hsusp] at hp <;> cases hp
  | pending x => rcases h.2.1 with hp | hp | hp <;> rw [hsusp] at hp <;> cases hp
  | running =>
      rcases h.2 with hp | ⟨t, hp⟩
      · rw [hsusp] at hp
        cases hp
      · rw [hsusp] at hp
        cases hp
  | ready x =>
      rcases h.2 with hp | hp | hp
      · rw [hsusp] at hp
        cases hp.1
      · rw [hp.2]
      · rw [hsusp] at hp
        cases hp.1

/-- **A core wakes up**, with or without a reset of its vCPU. -/
theorem PsciInv.wake {cpu : Nat} {lost : Bool} (h : PsciInv vm s)
    (hdown : (s.vcpu cpu).phase = .down ∨ ((s.vcpu cpu).phase = .suspended ∧ lost = true)) :
    PsciInv vm (psciWake cpu lost s) := by
  have hnoSend : ∀ t, (s.vcpu cpu).phase ≠ .sending t := by
    intro t hsend
    rcases hdown with hp | ⟨hp, _⟩
    · rw [hp] at hsend
      cases hsend
    · rw [hp] at hsend
      cases hsend
  unfold psciWake
  cases lost with
  | true =>
      rw [if_pos rfl]
      apply h.updRecord Iff.rfl
      · intro t
        exact ⟨nofun, fun heq => absurd heq (hnoSend t)⟩
      · intro p hp
        rcases hdown with hd | ⟨hd, _⟩
        · rcases hp.of_down hd with hoff | ⟨x, hpend⟩
          · rw [hoff] at hp ⊢
            exact ⟨.off, rfl, hp.1, Or.inr (Or.inl rfl)⟩
          · rw [hpend] at hp ⊢
            exact ⟨.pending x, rfl, hp.1, Or.inr (Or.inl rfl), hp.2.2⟩
        · have hready := hp.of_suspended hd
          rw [hready] at hp ⊢
          exact ⟨_, rfl, hp.1, Or.inr (Or.inr ⟨rfl, rfl⟩)⟩
  | false =>
      rw [if_neg Bool.false_ne_true]
      have hd : (s.vcpu cpu).phase = .down :=
        hdown.resolve_right fun hboth => Bool.false_ne_true hboth.2
      apply h.upd Iff.rfl
      · intro t
        exact ⟨nofun, fun heq => absurd heq (hnoSend t)⟩
      · intro p hp
        rcases hp.of_down hd with hoff | ⟨x, hpend⟩
        · rw [hoff] at hp ⊢
          exact ⟨hp.1, Or.inr (Or.inr rfl)⟩
        · rw [hpend] at hp ⊢
          exact ⟨hp.1, Or.inr (Or.inr rfl), hp.2.2⟩

theorem PsciInv.wakeArg {cpu : Nat} (h : PsciInv vm s)
    (hreset : (s.vcpu cpu).phase = .resetting) : PsciInv vm (psciWakeArg cpu s) := by
  apply h.upd Iff.rfl
  · intro t
    rw [hreset]
    exact ⟨nofun, nofun⟩
  · intro p hp
    cases p with
    | off => exact ⟨hp.1, Or.inr (Or.inr rfl)⟩
    | pending x => exact ⟨hp.1, Or.inr (Or.inr rfl), hp.2.2⟩
    | running =>
        rcases hp.2 with hp' | ⟨t, hp'⟩
        · rw [hreset] at hp'
          cases hp'
        · rw [hreset] at hp'
          cases hp'
    | ready x =>
        rcases hp.2 with hp' | hp' | hp'
        · rw [hreset] at hp'
          cases hp'.1
        · rw [hreset] at hp'
          cases hp'.1
        · exact ⟨hp.1, Or.inl ⟨rfl, hp'.2⟩⟩

/-- **`vcpu_run`**: a vCPU that is on enters where the automaton says. -/
theorem PsciInv.vcpuRun {cpu : Nat} (h : PsciInv vm s) (hwoken : (s.vcpu cpu).phase = .woken) :
    PsciInv vm (psciVcpuRun cpu s) := by
  unfold psciVcpuRun
  by_cases hon : (s.vcpu cpu).state = .on
  · rw [if_pos hon]
    apply h.updRecord Iff.rfl
    · intro t
      rw [hwoken]
      exact ⟨(fun h => by cases h), (fun h => by cases h)⟩
    · intro p hp
      cases p with
      | off => exact absurd (hon.symm.trans hp.1) (by decide)
      | pending x => exact absurd (hon.symm.trans hp.1) (by decide)
      | running =>
          rcases hp.2 with hp' | ⟨t, hp'⟩
          · rw [hwoken] at hp'
            cases hp'
          · rw [hwoken] at hp'
            cases hp'
      | ready x =>
          refine ⟨.running, ?_, hon, Or.inl rfl⟩
          rcases hp.2 with hp' | hp' | hp'
          · rw [next, if_pos hp'.2.symm]
          · rw [hwoken] at hp'
            cases hp'.1
          · rw [hwoken] at hp'
            cases hp'.1
  · rw [if_neg hon]
    apply h.upd Iff.rfl
    · intro t
      rw [hwoken]
      exact ⟨(fun h => by cases h), (fun h => by cases h)⟩
    · intro p hp
      cases p with
      | off => exact ⟨hp.1, Or.inl rfl⟩
      | pending x => exact ⟨hp.1, Or.inl rfl, hp.2.2⟩
      | running => exact absurd hp.1 hon
      | ready x => exact absurd hp.1 hon

/-- **A message is handled**: the only ones are start messages, for vCPUs that
are to be started. -/
theorem PsciInv.deliver {cpu : Nat} (h : PsciInv vm s) (hcpu : cpu < vm.cpuNum)
    (hphase : (s.vcpu cpu).phase = .guest ∨ (s.vcpu cpu).phase = .woken) :
    PsciInv vm (psciDeliver vm cpu s) := by
  have hflight := h.flight cpu hcpu
  unfold psciDeliver
  cases hmsgs : s.msgs (vm.physId cpu) with
  | nil => exact h
  | cons msg rest =>
      have hpend : (s.vcpu cpu).state = .onPending := by
        apply Decidable.byContradiction
        intro hnot
        rw [(hflight.none hnot).1] at hmsgs
        cases hmsgs
      obtain ⟨hone, hno⟩ : s.msgs (vm.physId cpu) = [psciMsgOn 0] ∧ NoSender vm s cpu := by
        rcases hflight.one hpend with hmsg | ⟨hempty, _⟩
        · exact hmsg
        · rw [hempty] at hmsgs
          cases hmsgs
      rw [hmsgs] at hone
      obtain ⟨hmsg, hrest⟩ := List.cons.inj hone
      obtain ⟨p, hp, hpcell⟩ := h.cell cpu hcpu
      obtain ⟨hppend, hidle⟩ := hpcell.of_pending hpend
      have hwoken : (s.vcpu cpu).phase = .woken := by
        rcases hphase with hg | hw
        · rcases hidle with hi | hi | hi <;> rw [hg] at hi <;> cases hi
        · exact hw
      dsimp only
      rw [hmsg, hrest, psciCpumsgHandler, if_pos (show (psciMsgOn 0).event = 0 from rfl),
        psciWakeFromOff, if_pos hpend]
      dsimp only
      generalize hs' : PsciMachine.record _ cpu _ = s'
      have htarget : s'.vcpu cpu = { s.vcpu cpu with
          pc := (s.vcpu cpu).entrypoint, state := .on, x0 := (s.vcpu cpu).contextId } := by
        rw [← hs']
        exact atCpu_same _ _ _
      have hother : ∀ i, i ≠ cpu → s'.vcpu i = s.vcpu i := by
        intro i hi
        rw [← hs']
        exact atCpu_other _ _ hi
      have hphases : ∀ i, (s'.vcpu i).phase = (s.vcpu i).phase := by
        intro i
        by_cases hi : i = cpu
        · rw [hi, htarget]
        · rw [hother i hi]
      have hlog : s'.log cpu = s.log cpu ++
          [.start ((s.vcpu cpu).entrypoint, (s.vcpu cpu).contextId)] := by
        rw [← hs', PsciMachine.record_log_same, PsciMachine.upd_same]
        rfl
      have hlogs : ∀ i, i ≠ cpu → s'.log i = s.log i := by
        intro i hi
        rw [← hs', PsciMachine.record_log_ne _ _ hi]
        rfl
      have hempty : s'.msgs (vm.physId cpu) = [] := by
        rw [← hs']
        exact atCpu_same _ _ _
      constructor
      · intro t ht
        by_cases htc : t = cpu
        · rw [htc, htarget, hlog]
          rw [hppend] at hp
          refine ⟨_, replay_concat hp (if_pos rfl), rfl, Or.inl ⟨hwoken, rfl⟩⟩
        · rw [hother t htc, hlogs t htc]
          exact h.cell t ht
      · intro t ht
        by_cases htc : t = cpu
        · rw [htc]
          constructor
          · intro hon
            rw [htarget] at hon
            cases hon
          · intro _
            refine ⟨hempty, fun i hi hsend => ?_⟩
            rw [hphases i] at hsend
            exact hno i hi hsend
        · have hcore : vm.physId t ≠ vm.physId cpu :=
            fun heq => htc (vm.physId_inj t cpu ht hcpu heq)
          have hsame : s'.msgs (vm.physId t) = s.msgs (vm.physId t) := by
            rw [← hs']
            exact atCpu_other _ _ hcore
          apply (h.flight t ht).congr hsame (by rw [hother t htc])
          intro i _
          rw [hphases i]
      · intro i t hi hsend
        rw [hphases i] at hsend
        exact h.target i t hi hsend

/-- **Every step keeps the invariant.** -/
theorem PsciInv.step {e : PsciEvent} (h : PsciInv vm s) (hen : psciEnabled vm e s) :
    PsciInv vm (psciNext vm e s) := by
  obtain ⟨hcpu, hen⟩ := hen
  cases e with
  | cpuOn cpu targetCpu entrypoint contextId => exact h.cpuOn hcpu hen
  | sendOn cpu =>
      obtain ⟨target, hsend⟩ := hen
      exact (h.sendOn hcpu hsend).1
  | cpuOff cpu => exact h.cpuOff hcpu hen
  | cpuSuspend cpu powerState entrypoint contextId result => exact h.cpuSuspend hen.1
  | wake cpu lost => exact h.wake hen.2
  | wakeArg cpu => exact h.wakeArg hen
  | deliver cpu => exact h.deliver hcpu hen
  | vcpuRun cpu => exact h.vcpuRun hen

theorem psciInv_reachable (h : (psciSystem vm).Reachable s) : PsciInv vm s := by
  apply h.invariant
  · intro s hinit
    exact PsciInv.init hinit
  · rintro s e s' hinv - ⟨hen, rfl⟩
    exact hinv.step hen

end Bao

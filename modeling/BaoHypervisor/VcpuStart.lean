import BaoHypervisor.SbiStart

/-!
# Each vCPU is started once for each accepted call

The two firmware interfaces by which the vCPUs of a VM start each other, PSCI
and SBI, keep the same contract: whatever the order of the steps, an accepted
call is answered by one start with its own entry point and argument, and
refused calls leave no trace.
-/

namespace Bao

open StartCell

/-- **What the log of a vCPU shows**, `pending` being what it is to be started
with: every accepted call was followed by one start with what it gave, in
order, and between two accepted calls the vCPU was started and stopped. -/
structure StartedOnce (p₀ : Power (Nat × Nat)) (log : List (Event (Nat × Nat)))
    (pending : List (Nat × Nat)) : Prop where
  allowed : (replay p₀ log).map Power.pendings = some pending
  once : accepted log = starts log ++ pending
  cycle : ∀ l₁ x l₂ y l₃, log = l₁ ++ .call x true :: l₂ ++ .call y true :: l₃ →
    starts l₂ = x :: accepted l₂ ∧ Event.stop ∈ l₂

theorem StartedOnce.of_replay {t : Nat} {p : Power (Nat × Nat)} {log : List (Event (Nat × Nat))}
    (h : replay (psciPower t) log = some p) : StartedOnce (psciPower t) log p.pendings where
  allowed := by rw [h, Option.map_some]
  once := by
    have hacc := replay_accepted h
    have hnone : (psciPower t).pendings = [] := by
      unfold psciPower
      split <;> rfl
    rw [hnone, List.nil_append] at hacc
    exact hacc
  cycle l₁ x l₂ y l₃ hlog := by
    rw [hlog] at h
    exact replay_between h

/-- One more event at the log of vCPU `i`. -/
theorem not_mem_record {log : Nat → List (Event (Nat × Nat))} {t i : Nat}
    {e e' : Event (Nat × Nat)} (he : e ≠ e') (hno : e' ∉ log t) :
    e' ∉ atCpu log i (log i ++ [e]) t := by
  by_cases hti : t = i
  · rw [hti] at hno ⊢
    rw [atCpu_same, List.mem_append, List.mem_singleton]
    rintro (hold | hnew)
    · exact hno hold
    · exact he hnew.symm
  · rw [atCpu_other _ _ hti]
    exact hno

/-! ## PSCI -/

section Psci

variable {vm : PsciVm} {s : PsciMachine}

/-- What a vCPU is to be started with. -/
def PsciVcpu.pendings (v : PsciVcpu) : List (Nat × Nat) :=
  if v.state = .onPending then [(v.entrypoint, v.contextId)] else []

theorem PsciCell.pendings {v : PsciVcpu} {p : Power (Nat × Nat)} (h : PsciCell v p) :
    p.pendings = v.pendings := by
  unfold PsciVcpu.pendings
  cases p with
  | running => rw [h.1, if_neg (by decide)]; rfl
  | off => rw [h.1, if_neg (by decide)]; rfl
  | pending x => rw [h.1, if_pos rfl, h.2.2]; rfl
  | ready x => rw [h.1, if_neg (by decide)]; rfl

theorem psciNoReset_reachable (hkeep : vm.losesState = false)
    (h : (psciSystem vm).Reachable s) (t : Nat) : Event.reset ∉ s.log t := by
  have hadd : ∀ (s : PsciMachine) (i : Nat) (e : Event (Nat × Nat)), e ≠ .reset →
      .reset ∉ s.log t → .reset ∉ (s.record i e).log t :=
    fun s i e he hno => not_mem_record he hno
  have hinit : ∀ s, (psciSystem vm).init s → Event.reset ∉ s.log t := by
    intro s hinit
    rw [hinit.log t]
    exact List.not_mem_nil
  have hstep : ∀ s e s', Event.reset ∉ s.log t → True → (psciSystem vm).step s e s' →
      Event.reset ∉ s'.log t := by
    rintro s e s' hno - ⟨hen, rfl⟩
    cases e with
    | cpuOn cpu targetCpu entrypoint contextId =>
        change Event.reset ∉ (psciCpuOnHandler vm cpu targetCpu entrypoint contextId s).log t
        unfold psciCpuOnHandler
        split
        · exact hno
        · split
          · exact hadd _ _ _ nofun hno
          · exact hadd _ _ _ nofun hno
    | sendOn cpu =>
        change Event.reset ∉ (psciSendOn vm cpu s).log t
        unfold psciSendOn
        split
        · split
          · exact hno
          · exact hno
        · exact hno
    | cpuOff cpu => exact hadd _ _ _ nofun hno
    | cpuSuspend cpu powerState entrypoint contextId result =>
        change Event.reset ∉
          (psciCpuSuspendHandler vm cpu powerState entrypoint contextId result s).log t
        unfold psciCpuSuspendHandler
        split
        · cases result with
          | none => exact hadd _ _ _ nofun hno
          | some ret => exact hno
        · exact hno
    | wake cpu lost =>
        have hlost : lost = false := by
          cases lost with
          | false => rfl
          | true => exact absurd (hen.2.1 rfl) (by rw [hkeep]; decide)
        rw [hlost]
        exact hno
    | wakeArg cpu => exact hno
    | deliver cpu =>
        change Event.reset ∉ (psciDeliver vm cpu s).log t
        unfold psciDeliver psciCpumsgHandler psciWakeFromOff
        split
        · exact hno
        · split
          · split
            · exact hadd _ _ _ nofun hno
            · exact hno
          · exact hno
    | vcpuRun cpu =>
        change Event.reset ∉ (psciVcpuRun cpu s).log t
        unfold psciVcpuRun
        split
        · exact hadd _ _ _ nofun hno
        · exact hno
  exact h.invariant hinit hstep

/-- **The start message starts the vCPU** with what the call gave. -/
theorem psciDeliver_starts {t : Nat} (hpend : (s.vcpu t).state = .onPending)
    (hmsgs : s.msgs (vm.physId t) = [psciMsgOn 0]) :
    (psciDeliver vm t s).log t =
        s.log t ++ [.start ((s.vcpu t).entrypoint, (s.vcpu t).contextId)] ∧
      ((psciDeliver vm t s).vcpu t).state = .on := by
  unfold psciDeliver
  rw [hmsgs]
  dsimp only
  rw [psciCpumsgHandler, if_pos (show (psciMsgOn 0).event = 0 from rfl), psciWakeFromOff,
    if_pos hpend]
  dsimp only
  rw [PsciMachine.record_log_same, PsciMachine.record_vcpu, PsciMachine.upd_same]
  exact ⟨rfl, rfl⟩

/-- **Starting vCPUs with PSCI**, in a state that is reached. -/
structure PsciStartSafe (vm : PsciVm) (s : PsciMachine) : Prop where
  log : ∀ t, t < vm.cpuNum → StartedOnce (psciPower t) (s.log t) (s.vcpu t).pendings
  flight : ∀ t, t < vm.cpuNum → InFlight vm s t
  starts : ∀ t, (s.vcpu t).state = .onPending → s.msgs (vm.physId t) = [psciMsgOn 0] →
    (psciDeliver vm t s).log t =
        s.log t ++ [.start ((s.vcpu t).entrypoint, (s.vcpu t).contextId)] ∧
      ((psciDeliver vm t s).vcpu t).state = .on
  sent : ∀ cpu t, cpu < vm.cpuNum → (s.vcpu cpu).phase = .sending t →
    ((psciSendOn vm cpu s).vcpu cpu).ret = some psciESuccess ∧
      (psciSendOn vm cpu s).msgs (vm.physId t) = [psciMsgOn 0]
  refused : ∀ cpu targetCpu entrypoint contextId t,
    vm.getVcpuByMpidr targetCpu = some t → (s.vcpu t).state ≠ .off →
    psciCpuOnHandler vm cpu targetCpu entrypoint contextId s =
      (s.upd cpu fun v => { v with ret := some psciEAlreadyOn }).record t
        (.call (entrypoint, contextId) false)
  outside : ∀ cpu targetCpu entrypoint contextId,
    (∀ t, t < vm.cpuNum → targetCpu % 2 ^ 24 ≠ t) →
    psciCpuOnHandler vm cpu targetCpu entrypoint contextId s =
      s.upd cpu fun v => { v with ret := some psciEInvalidParams }
  resets : vm.losesState = false → ∀ t, Event.reset ∉ s.log t

theorem psciStart_safe (h : (psciSystem vm).Reachable s) : PsciStartSafe vm s where
  log t ht := by
    obtain ⟨p, hp, hpcell⟩ := (psciInv_reachable h).cell t ht
    rw [← hpcell.pendings]
    exact .of_replay hp
  flight := (psciInv_reachable h).flight
  starts t hpend hmsgs := psciDeliver_starts hpend hmsgs
  sent cpu t hcpu hsend := ((psciInv_reachable h).sendOn hcpu hsend).2
  refused cpu targetCpu entrypoint contextId t hfind hoff := by
    rw [psciCpuOnHandler, hfind]
    dsimp only
    rw [if_neg hoff]
  outside cpu targetCpu entrypoint contextId hout := by
    have hfind : vm.getVcpuByMpidr targetCpu = none := by
      cases hfind : vm.getVcpuByMpidr targetCpu with
      | none => rfl
      | some t =>
          obtain ⟨ht, heq⟩ := PsciVm.getVcpuByMpidr_iff.mp hfind
          exact absurd heq (hout t ht)
    rw [psciCpuOnHandler, hfind]
  resets hkeep := psciNoReset_reachable hkeep h

end Psci

/-! ## SBI -/

section Sbi

variable {vm : SbiVm} {s : SbiMachine}

/-- What a vCPU is to be started with. -/
def SbiVcpu.pendings (v : SbiVcpu) : List (Nat × Nat) :=
  if v.state = .startPending then [(v.startAddr, v.priv)] else []

theorem SbiCell.pendings {v : SbiVcpu} {p : Power (Nat × Nat)} (h : SbiCell v p) :
    p.pendings = v.pendings := by
  unfold SbiVcpu.pendings
  cases p with
  | running => rw [h.1, if_neg (by decide)]; rfl
  | off => rw [h.1, if_neg (by decide)]; rfl
  | pending x => rw [h.1, if_pos rfl, h.2.2]; rfl
  | ready x => rw [h.1, if_neg (by decide)]; rfl

/-- **The start message starts the vCPU** with what the call gave. -/
theorem sbiDeliver_starts {t : Nat} (hpend : (s.vcpu t).state = .startPending)
    (hmsgs : s.msgs (vm.physId t) = [sbiMsgStart 0]) :
    (sbiDeliver vm t s).log t = s.log t ++ [.start ((s.vcpu t).startAddr, (s.vcpu t).priv)] ∧
      ((sbiDeliver vm t s).vcpu t).state = .started := by
  unfold sbiDeliver
  rw [hmsgs]
  dsimp only
  rw [sbiMsgHandler, if_pos (show (sbiMsgStart 0).event = 1 from rfl), if_pos hpend]
  dsimp only
  rw [SbiMachine.record_log_same, SbiMachine.record_vcpu, SbiMachine.upd_same]
  exact ⟨rfl, rfl⟩

/-- **Starting vCPUs with SBI**, in a state that is reached. -/
structure SbiStartSafe (vm : SbiVm) (s : SbiMachine) : Prop where
  log : ∀ t, t < vm.cpuNum → StartedOnce (psciPower t) (s.log t) (s.vcpu t).pendings
  queued : ∀ t, t < vm.cpuNum → SbiQueued vm s t
  starts : ∀ t, (s.vcpu t).state = .startPending → s.msgs (vm.physId t) = [sbiMsgStart 0] →
    (sbiDeliver vm t s).log t = s.log t ++ [.start ((s.vcpu t).startAddr, (s.vcpu t).priv)] ∧
      ((sbiDeliver vm t s).vcpu t).state = .started
  refused : ∀ cpu vhartId startAddr priv, cpu < vm.cpuNum → (s.vcpu cpu).phase = .guest →
    vhartId < vm.cpuNum → (s.vcpu vhartId).state ≠ .stopped →
    ∃ error, error ≠ sbiSuccess ∧ sbiHsmStartHandler vm cpu vhartId startAddr priv s =
      (s.upd cpu fun v => { v with error := some error }).record vhartId
        (.call (startAddr, priv) false)
  outside : ∀ cpu vhartId startAddr priv, cpu < vm.cpuNum → ¬ vhartId < vm.cpuNum →
    sbiHsmStartHandler vm cpu vhartId startAddr priv s =
      s.upd cpu fun v => { v with error := some sbiErrInvalidParam }
  resets : ∀ t, t < vm.cpuNum → Event.reset ∉ s.log t

theorem sbiNoReset_reachable (h : (sbiSystem vm).Reachable s) (t : Nat) :
    Event.reset ∉ s.log t := by
  have hinit : ∀ s, (sbiSystem vm).init s → Event.reset ∉ s.log t := by
    intro s hinit
    rw [hinit.log t]
    exact List.not_mem_nil
  have hstep : ∀ s e s', Event.reset ∉ s.log t → True → (sbiSystem vm).step s e s' →
      Event.reset ∉ s'.log t := by
    rintro s e s' hno - ⟨-, rfl⟩
    cases e with
    | hartStart cpu vhartId startAddr priv =>
        change Event.reset ∉ (sbiHsmStartHandler vm cpu vhartId startAddr priv s).log t
        unfold sbiHsmStartHandler
        split
        · exact not_mem_record nofun hno
        · split
          · split
            · exact not_mem_record nofun hno
            · split
              · exact not_mem_record nofun hno
              · exact not_mem_record nofun hno
          · exact hno
    | wake cpu => exact hno
    | deliver cpu =>
        change Event.reset ∉ (sbiDeliver vm cpu s).log t
        unfold sbiDeliver sbiMsgHandler
        split
        · exact hno
        · split
          · split
            · exact not_mem_record nofun hno
            · exact hno
          · exact hno
    | vcpuRun cpu =>
        change Event.reset ∉ (sbiVcpuRun cpu s).log t
        unfold sbiVcpuRun
        split
        · exact not_mem_record nofun hno
        · exact hno
  exact h.invariant hinit hstep

theorem sbiStart_safe (h : (sbiSystem vm).Reachable s) : SbiStartSafe vm s where
  log t ht := by
    obtain ⟨p, hp, hpcell⟩ := (sbiInv_reachable h t ht).cell
    rw [← hpcell.pendings]
    exact .of_replay hp
  queued t ht := (sbiInv_reachable h t ht).queued
  starts t hpend hmsgs := sbiDeliver_starts hpend hmsgs
  refused cpu vhartId startAddr priv hcpu hguest hin hnot := by
    unfold sbiHsmStartHandler
    by_cases hvc : vhartId = cpu
    · rw [if_pos hvc]
      exact ⟨_, by decide, rfl⟩
    · rw [if_neg hvc, if_pos hin]
      split
      · exact ⟨_, by decide, rfl⟩
      · exact ⟨_, by decide, rfl⟩
  outside cpu vhartId startAddr priv hcpu hout := by
    have hvc : vhartId ≠ cpu := fun heq => hout (heq ▸ hcpu)
    rw [sbiHsmStartHandler, if_neg hvc, if_neg hout]
  resets t _ := sbiNoReset_reachable h t

end Sbi

/-! ## Both -/

/-- **Starting vCPUs is safe**, with PSCI and with SBI, in every state reached
by any interleaving of calls, power-downs, wake-ups and deliveries. -/
theorem vcpuStart_safe :
    (∀ (vm : PsciVm) (s : PsciMachine), (psciSystem vm).Reachable s → PsciStartSafe vm s) ∧
    ∀ (vm : SbiVm) (s : SbiMachine), (sbiSystem vm).Reachable s → SbiStartSafe vm s :=
  ⟨fun _ _ h => psciStart_safe h, fun _ _ h => sbiStart_safe h⟩

theorem two_le_cpuNumMax : 2 ≤ 64 := by decide

/-- Two vCPUs on cores 4 and 5, where a power-down loses the core's state. -/
def twoVcpuPsci : PsciVm where
  cpuNum := 2
  cpuNum_le := two_le_cpuNumMax
  physId := (4 + ·)
  physId_inj _ _ _ _ h := Nat.add_left_cancel h
  losesState := true
  stateTypeBit := 2 ^ 30
  ipiMaxEvents := ⟨8, by decide, by decide⟩

/-- The vCPUs right after the boot. -/
def psciBoot : PsciMachine where
  vcpu i := ⟨if i = 0 then .on else .off, 0, 0, if i = 0 then .guest else .woken, 0, 0, none⟩
  msgs _ := []
  log _ := []

theorem psciBoot_init : PsciInit psciBoot := ⟨fun _ => rfl, fun _ => rfl, fun _ => rfl, fun _ => rfl⟩

/-- The first vCPU starts the second one, which is powered down, by the id
`targetCpu`. -/
def startSecond (targetCpu : Nat) : List PsciEvent :=
  [.vcpuRun 1, .cpuOn 0 targetCpu 7 9, .sendOn 0, .wake 1 true, .wakeArg 1, .deliver 1, .vcpuRun 1]

/-- The state after that. -/
def secondStarted (targetCpu : Nat) : PsciMachine :=
  StepSystem.runBy (psciNext twoVcpuPsci) (startSecond targetCpu) psciBoot

instance decidableSending : ∀ p : PsciPhase, Decidable (∃ t, p = .sending t)
  | .sending t => .isTrue ⟨t, rfl⟩
  | .guest => .isFalse nofun
  | .down => .isFalse nofun
  | .suspended => .isFalse nofun
  | .resetting => .isFalse nofun
  | .woken => .isFalse nofun

instance decidablePsciEnabled (vm : PsciVm) :
    ∀ (e : PsciEvent) (s : PsciMachine), Decidable (psciEnabled vm e s)
  | .cpuOn .., _ => inferInstanceAs (Decidable (_ ∧ _))
  | .sendOn _, _ => inferInstanceAs (Decidable (_ ∧ ∃ _, _))
  | .cpuOff _, _ => inferInstanceAs (Decidable (_ ∧ _))
  | .cpuSuspend .., _ => inferInstanceAs (Decidable (_ ∧ _ ∧ (_ → _)))
  | .wake .., _ => inferInstanceAs (Decidable (_ ∧ (_ → _) ∧ _))
  | .wakeArg _, _ => inferInstanceAs (Decidable (_ ∧ _))
  | .deliver _, _ => inferInstanceAs (Decidable (_ ∧ _))
  | .vcpuRun _, _ => inferInstanceAs (Decidable (_ ∧ _))

/-- Both interfaces at work: the second vCPU is started with PSCI, and nothing
happened yet with SBI. -/
theorem vcpuStart_safe_second :
    PsciStartSafe twoVcpuPsci (secondStarted 1) ∧
    SbiStartSafe ⟨2, id, fun _ _ _ _ h => h, twoVcpuPsci.ipiMaxEvents⟩
      ⟨fun i => ⟨if i = 0 then .started else .stopped, 0, 0, if i = 0 then .guest else .woken,
        0, 0, 0, none⟩, fun _ => [], fun _ => []⟩ :=
  ⟨vcpuStart_safe.1 _ _ (StepSystem.Meets.fromInit psciBoot_init (by decide +kernel)),
    vcpuStart_safe.2 _ _ (.init ⟨fun _ => rfl, fun _ => rfl, fun _ => rfl, fun _ => rfl⟩)⟩

/-- **What the interfaces do beyond the contract.**  An id with a fourth
affinity level, which no vCPU of the VM has among its four, names the second
vCPU; and the wake-up of a core that lost its state resets the vCPU a second time for the
one call. -/
theorem vcpuStart_beyond :
    (StepSystem.Meets (psciEnabled twoVcpuPsci) (psciNext twoVcpuPsci) (fun _ _ => True)
        (startSecond (2 ^ 32 + 1)) psciBoot ∧
      twoVcpuPsci.cpuidToMpidr 0 &&& 0xff00ffffff ≠ 2 ^ 32 + 1 ∧
      twoVcpuPsci.cpuidToMpidr 1 &&& 0xff00ffffff ≠ 2 ^ 32 + 1 ∧
      ((secondStarted (2 ^ 32 + 1)).vcpu 0).ret = some psciESuccess ∧
      ((secondStarted (2 ^ 32 + 1)).vcpu 1).state = .on) ∧
    (StepSystem.Meets (psciEnabled twoVcpuPsci) (psciNext twoVcpuPsci) (fun _ _ => True)
        (startSecond 1) psciBoot ∧
      (secondStarted 1).log 1 =
        [.call (7, 9) true, .reset, .start (7, 9), .enter (7, 9)]) := by
  decide +kernel

end Bao

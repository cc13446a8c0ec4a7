import BaoHypervisor.PsciStart

/-!
# Starting vCPUs with SBI

HART_START of `sbi.c`.  It differs from PSCI in that the message is sent within
the locked section, that nothing stops a hart again, and that a powered-down
core only waits for an interrupt, so it never loses its state.
-/

namespace Bao

open StartCell

/-- The error codes used. -/
def sbiSuccess : Int := 0
def sbiErrFailure : Int := -1
def sbiErrInvalidParam : Int := -3
def sbiErrAlreadyAvailable : Int := -6

/-- The VM, whose vCPUs run on cores of their own, and the length of the message
queues. -/
structure SbiVm where
  cpuNum : Nat
  physId : Nat → Nat
  physId_inj : ∀ i j, i < cpuNum → j < cpuNum → physId i = physId j → i = j
  ipiMaxEvents : IpiMaxEvents

/-- The states of `struct sbi_hsm`. -/
inductive SbiState where
  | started
  | stopped
  | startPending
  | stopPending
  deriving DecidableEq, Repr

/-- What the core of a vCPU does: it runs the guest, is powered down, or is
awake in `cpu_powerdown_wakeup`. -/
inductive SbiPhase where
  | guest
  | down
  | woken
  deriving DecidableEq, Repr

/-- A vCPU: its `sbi_ctx`, what its core does, its registers `sepc`, `a0` and
`a1`, and the error of its last call. -/
structure SbiVcpu where
  state : SbiState
  startAddr : Nat
  priv : Nat
  phase : SbiPhase
  sepc : Nat
  a0 : Nat
  a1 : Nat
  error : Option Int

/-- The vCPUs, the message queues of the cores, and the log of each vCPU. -/
structure SbiMachine where
  vcpu : Nat → SbiVcpu
  msgs : Nat → List CpuMsg
  log : Nat → List (Event (Nat × Nat))

/-- A vCPU is changed. -/
def SbiMachine.upd (s : SbiMachine) (i : Nat) (f : SbiVcpu → SbiVcpu) : SbiMachine :=
  { s with vcpu := atCpu s.vcpu i (f (s.vcpu i)) }

/-- An event of a vCPU is recorded. -/
def SbiMachine.record (s : SbiMachine) (i : Nat) (e : Event (Nat × Nat)) : SbiMachine :=
  { s with log := atCpu s.log i (s.log i ++ [e]) }

variable {vm : SbiVm}

/-- The start message; `HART_START` is 1. -/
def sbiMsgStart (sbiMsgId : Nat) : CpuMsg := ⟨sbiMsgId, 1, 0xdeadbeef⟩

/-- `sbi_hsm_start_handler`. -/
def sbiHsmStartHandler (vm : SbiVm) (cpu vhartId startAddr priv : Nat) (s : SbiMachine) :
    SbiMachine :=
  if vhartId = cpu then
    (s.upd cpu fun v => { v with error := some sbiErrAlreadyAvailable }).record vhartId
      (.call (startAddr, priv) false)
  else if vhartId < vm.cpuNum then
    if (s.vcpu vhartId).state = .started then
      (s.upd cpu fun v => { v with error := some sbiErrAlreadyAvailable }).record vhartId
        (.call (startAddr, priv) false)
    else if (s.vcpu vhartId).state ≠ .stopped then
      (s.upd cpu fun v => { v with error := some sbiErrFailure }).record vhartId
        (.call (startAddr, priv) false)
    else
      let s := s.upd vhartId fun v =>
        { v with state := .startPending, startAddr := startAddr, priv := priv }
      let s := { s with
        msgs := atCpu s.msgs (vm.physId vhartId)
          (BoundedFifo.push vm.ipiMaxEvents.val (s.msgs (vm.physId vhartId)) (sbiMsgStart 0)).2 }
      (s.upd cpu fun v => { v with error := some sbiSuccess }).record vhartId
        (.call (startAddr, priv) true)
  else s.upd cpu fun v => { v with error := some sbiErrInvalidParam }

/-- `vcpu_arch_reset`: what it does to the registers modelled. -/
def SbiVcpu.reset (v : SbiVcpu) (id entry : Nat) : SbiVcpu :=
  { v with sepc := entry, a0 := id, a1 := 0 }

/-- `sbi_msg_handler`; `SEND_IPI` raises an interrupt line. -/
def sbiMsgHandler (cpu event : Nat) (s : SbiMachine) : SbiMachine :=
  if event = 1 then
    if (s.vcpu cpu).state = .startPending then
      let s := s.upd cpu fun v => { v.reset cpu v.startAddr with a1 := v.priv, state := .started }
      s.record cpu (.start ((s.vcpu cpu).sepc, (s.vcpu cpu).a1))
    else s
  else s

/-- One turn of `cpu_msg_handler`. -/
def sbiDeliver (vm : SbiVm) (cpu : Nat) (s : SbiMachine) : SbiMachine :=
  match s.msgs (vm.physId cpu) with
  | [] => s
  | msg :: rest => sbiMsgHandler cpu msg.event { s with msgs := atCpu s.msgs (vm.physId cpu) rest }

/-- `vcpu_run` at the end of the wake-up. -/
def sbiVcpuRun (cpu : Nat) (s : SbiMachine) : SbiMachine :=
  if (s.vcpu cpu).state = .started then
    (s.upd cpu fun v => { v with phase := .guest }).record cpu
      (.enter ((s.vcpu cpu).sepc, (s.vcpu cpu).a1))
  else s.upd cpu fun v => { v with phase := .down }

/-- The steps of vCPU `cpu`. -/
inductive SbiEvent where
  | hartStart (cpu vhartId startAddr priv : Nat)
  | wake (cpu : Nat)
  | deliver (cpu : Nat)
  | vcpuRun (cpu : Nat)
  deriving DecidableEq

/-- A step is possible. -/
def sbiEnabled (vm : SbiVm) (e : SbiEvent) (s : SbiMachine) : Prop :=
  match e with
  | .hartStart cpu .. => cpu < vm.cpuNum ∧ (s.vcpu cpu).phase = .guest
  | .wake cpu => cpu < vm.cpuNum ∧ (s.vcpu cpu).phase = .down
  | .deliver cpu => cpu < vm.cpuNum ∧ ((s.vcpu cpu).phase = .guest ∨ (s.vcpu cpu).phase = .woken)
  | .vcpuRun cpu => cpu < vm.cpuNum ∧ (s.vcpu cpu).phase = .woken

/-- What a step does. -/
def sbiNext (vm : SbiVm) : SbiEvent → SbiMachine → SbiMachine
  | .hartStart cpu vhartId startAddr priv => sbiHsmStartHandler vm cpu vhartId startAddr priv
  | .wake cpu => fun s => s.upd cpu fun v => { v with phase := .woken }
  | .deliver cpu => sbiDeliver vm cpu
  | .vcpuRun cpu => sbiVcpuRun cpu

/-- The first vCPU runs, the others are stopped and about to power down. -/
structure SbiInit (s : SbiMachine) : Prop where
  state : ∀ i, (s.vcpu i).state = if i = 0 then .started else .stopped
  phase : ∀ i, (s.vcpu i).phase = if i = 0 then .guest else .woken
  msgs : ∀ c, s.msgs c = []
  log : ∀ i, s.log i = []

/-- The vCPUs of a VM and their SBI calls. -/
def sbiSystem (vm : SbiVm) : StepSystem SbiMachine SbiEvent :=
  .ofNext SbiInit (sbiEnabled vm) (sbiNext vm)

/-! ## What the parts of the state are after a change -/

@[simp] theorem SbiMachine.upd_same (s : SbiMachine) (i : Nat) (f : SbiVcpu → SbiVcpu) :
    (s.upd i f).vcpu i = f (s.vcpu i) := atCpu_same _ _ _

theorem SbiMachine.upd_ne (s : SbiMachine) {i j : Nat} (f : SbiVcpu → SbiVcpu) (h : j ≠ i) :
    (s.upd i f).vcpu j = s.vcpu j := atCpu_other _ _ h

@[simp] theorem SbiMachine.record_vcpu (s : SbiMachine) (i : Nat) (e : Event (Nat × Nat)) :
    (s.record i e).vcpu = s.vcpu := rfl

@[simp] theorem SbiMachine.record_log_same (s : SbiMachine) (i : Nat) (e : Event (Nat × Nat)) :
    (s.record i e).log i = s.log i ++ [e] := atCpu_same _ _ _

theorem SbiMachine.record_log_ne (s : SbiMachine) {i j : Nat} (e : Event (Nat × Nat))
    (h : j ≠ i) : (s.record i e).log j = s.log j := atCpu_other _ _ h

/-! ## The invariant -/

/-- A vCPU in a state of the start automaton. -/
def SbiCell (v : SbiVcpu) : Power (Nat × Nat) → Prop
  | .running => v.state = .started ∧ v.phase = .guest
  | .off => v.state = .stopped ∧ v.phase ≠ .guest
  | .pending x => v.state = .startPending ∧ v.phase ≠ .guest ∧ (v.startAddr, v.priv) = x
  | .ready x => v.state = .started ∧ v.phase = .woken ∧ (v.sepc, v.a1) = x

/-- A start message is queued exactly for the vCPUs that are to be started. -/
def SbiQueued (vm : SbiVm) (s : SbiMachine) (t : Nat) : Prop :=
  s.msgs (vm.physId t) = if (s.vcpu t).state = .startPending then [sbiMsgStart 0] else []

/-- What holds of vCPU `t` in every reachable state. -/
structure SbiVcpuInv (vm : SbiVm) (s : SbiMachine) (t : Nat) : Prop where
  cell : ∃ p, replay (psciPower t) (s.log t) = some p ∧ SbiCell (s.vcpu t) p
  queued : SbiQueued vm s t

variable {s s' : SbiMachine}

theorem SbiVcpuInv.init (h : SbiInit s) (t : Nat) : SbiVcpuInv vm s t where
  cell := by
    refine ⟨psciPower t, by rw [h.log]; rfl, ?_⟩
    have hstate := h.state t
    have hphase := h.phase t
    unfold psciPower
    by_cases ht : t = 0
    · rw [if_pos ht] at hstate hphase ⊢
      exact ⟨hstate, hphase⟩
    · rw [if_neg ht] at hstate hphase ⊢
      refine ⟨hstate, ?_⟩
      rw [hphase]
      exact nofun
  queued := by
    have hnot : (s.vcpu t).state ≠ .startPending := by
      rw [h.state t]
      split
      · exact nofun
      · exact nofun
    rw [SbiQueued, h.msgs, if_neg hnot]

/-- Nothing about vCPU `t` changed but the result of a call. -/
theorem SbiVcpuInv.congr {t : Nat} (h : SbiVcpuInv vm s t)
    (hvcpu : ∃ error, s'.vcpu t = { s.vcpu t with error := error }) (hlog : s'.log t = s.log t)
    (hmsgs : s'.msgs (vm.physId t) = s.msgs (vm.physId t)) : SbiVcpuInv vm s' t := by
  obtain ⟨error, hvcpu⟩ := hvcpu
  obtain ⟨p, hp, hpcell⟩ := h.cell
  have hqueued := h.queued
  constructor
  · refine ⟨p, by rw [hlog]; exact hp, ?_⟩
    rw [hvcpu]
    cases p <;> exact hpcell
  · rw [SbiQueued, hmsgs, hvcpu]
    exact hqueued

theorem SbiVcpuInv.error {t cpu : Nat} (h : SbiVcpuInv vm s t) (error : Option Int) :
    SbiVcpuInv vm (s.upd cpu fun v => { v with error := error }) t := by
  have hvcpu : ∃ error', (s.upd cpu fun v => { v with error := error }).vcpu t =
      { s.vcpu t with error := error' } := by
    by_cases htc : t = cpu
    · rw [htc]
      exact ⟨error, atCpu_same _ _ _⟩
    · exact ⟨(s.vcpu t).error, atCpu_other _ _ htc⟩
  have hmsgs : (s.upd cpu fun v => { v with error := error }).msgs = s.msgs := rfl
  exact h.congr hvcpu rfl (by rw [hmsgs])

/-- An event of another vCPU, or one that leaves the state of the automaton
alone. -/
theorem SbiVcpuInv.record {t i : Nat} {e : Event (Nat × Nat)} (h : SbiVcpuInv vm s t)
    (he : t = i → ∀ p, SbiCell (s.vcpu t) p → next p e = some p) :
    SbiVcpuInv vm (s.record i e) t := by
  obtain ⟨p, hp, hpcell⟩ := h.cell
  refine ⟨⟨p, ?_, hpcell⟩, h.queued⟩
  by_cases hti : t = i
  · rw [hti] at hp ⊢
    rw [SbiMachine.record_log_same]
    exact replay_concat hp (he hti p hpcell)
  · rw [SbiMachine.record_log_ne _ _ hti]
    exact hp

theorem SbiVcpuInv.refuse {t cpu vhartId : Nat} {x : Nat × Nat} {error : Option Int}
    (h : SbiVcpuInv vm s t) (hnot : t = vhartId → (s.vcpu t).state ≠ .stopped) :
    SbiVcpuInv vm ((s.upd cpu fun v => { v with error := error }).record vhartId (.call x false))
      t := by
  apply (h.error error).record
  intro htv p hp
  apply next_refused
  intro hoff
  rw [hoff] at hp
  apply hnot htv
  by_cases htc : t = cpu
  · rw [htc, SbiMachine.upd_same] at hp
    rw [htc]
    exact hp.1
  · rw [SbiMachine.upd_ne _ _ htc] at hp
    exact hp.1

/-- **HART_START.** -/
theorem SbiVcpuInv.hartStart {cpu vhartId startAddr priv : Nat}
    (h : ∀ t, t < vm.cpuNum → SbiVcpuInv vm s t) (hcpu : cpu < vm.cpuNum)
    (hguest : (s.vcpu cpu).phase = .guest) {t : Nat} (ht : t < vm.cpuNum) :
    SbiVcpuInv vm (sbiHsmStartHandler vm cpu vhartId startAddr priv s) t := by
  have hself : (s.vcpu cpu).state ≠ .stopped := by
    obtain ⟨p, _, hpcell⟩ := (h cpu hcpu).cell
    intro hstop
    cases p with
    | off => exact hpcell.2 hguest
    | running => exact absurd (hstop.symm.trans hpcell.1) (by decide)
    | pending x => exact absurd (hstop.symm.trans hpcell.1) (by decide)
    | ready x => exact absurd (hstop.symm.trans hpcell.1) (by decide)
  unfold sbiHsmStartHandler
  by_cases hvc : vhartId = cpu
  · rw [if_pos hvc]
    exact (h t ht).refuse fun htv => by rw [htv, hvc]; exact hself
  · rw [if_neg hvc]
    by_cases hin : vhartId < vm.cpuNum
    · rw [if_pos hin]
      by_cases hstarted : (s.vcpu vhartId).state = .started
      · rw [if_pos hstarted]
        exact (h t ht).refuse fun htv => by rw [htv, hstarted]; exact nofun
      · rw [if_neg hstarted]
        by_cases hstop : (s.vcpu vhartId).state = .stopped
        · rw [if_neg (not_not_intro hstop)]
          have hempty : s.msgs (vm.physId vhartId) = [] := by
            have hqueued := (h vhartId hin).queued
            rw [SbiQueued, hstop, if_neg (by decide)] at hqueued
            exact hqueued
          have hpush : (BoundedFifo.push vm.ipiMaxEvents.val [] (sbiMsgStart 0)).2 =
              [sbiMsgStart 0] := by
            rw [BoundedFifo.push_of_room _ vm.ipiMaxEvents.pos]
            rfl
          dsimp only
          generalize hs' : SbiMachine.record _ vhartId _ = s'
          by_cases htv : t = vhartId
          · obtain ⟨p, hp, hpcell⟩ := (h vhartId hin).cell
            have hvcpu : s'.vcpu vhartId = { s.vcpu vhartId with
                state := .startPending, startAddr := startAddr, priv := priv } := by
              rw [← hs', SbiMachine.record_vcpu, SbiMachine.upd_ne _ _ hvc]
              exact atCpu_same _ _ _
            have hmsgs : s'.msgs (vm.physId vhartId) = [sbiMsgStart 0] := by
              rw [← hs', ← hpush, ← hempty]
              exact atCpu_same _ _ _
            have hlog : s'.log vhartId = s.log vhartId ++ [.call (startAddr, priv) true] := by
              rw [← hs', SbiMachine.record_log_same]
              rfl
            rw [htv]
            constructor
            · rw [hlog, hvcpu]
              cases p with
              | off => exact ⟨_, replay_concat hp rfl, rfl, hpcell.2, rfl⟩
              | running => exact absurd hpcell.1 hstarted
              | pending x => exact absurd (hstop.symm.trans hpcell.1) (by decide)
              | ready x => exact absurd hpcell.1 hstarted
            · rw [SbiQueued, hmsgs, hvcpu, if_pos rfl]
          · apply (h t ht).congr
            · rw [← hs', SbiMachine.record_vcpu]
              by_cases htc : t = cpu
              · rw [htc, SbiMachine.upd_same]
                refine ⟨some sbiSuccess, ?_⟩
                have hkeep : (s.upd vhartId fun v =>
                    { v with state := .startPending, startAddr := startAddr,
                             priv := priv }).vcpu cpu = s.vcpu cpu :=
                  SbiMachine.upd_ne _ _ (fun heq => hvc heq.symm)
                dsimp only
                rw [hkeep]
              · refine ⟨(s.vcpu t).error, ?_⟩
                rw [SbiMachine.upd_ne _ _ htc]
                exact atCpu_other _ _ htv
            · rw [← hs', SbiMachine.record_log_ne _ _ htv]
              rfl
            · rw [← hs']
              exact atCpu_other _ _ fun heq => htv (vm.physId_inj t vhartId ht hin heq)
        · rw [if_pos hstop]
          exact (h t ht).refuse fun htv => by rw [htv]; exact hstop
    · rw [if_neg hin]
      exact (h t ht).error _

theorem SbiVcpuInv.other {t cpu : Nat} {f : SbiVcpu → SbiVcpu} (h : SbiVcpuInv vm s t)
    (htc : t ≠ cpu) : SbiVcpuInv vm (s.upd cpu f) t :=
  h.congr ⟨(s.vcpu t).error, SbiMachine.upd_ne _ _ htc⟩ rfl rfl

theorem SbiVcpuInv.wake {t cpu : Nat} (h : SbiVcpuInv vm s t)
    (hdown : (s.vcpu cpu).phase = .down) :
    SbiVcpuInv vm (s.upd cpu fun v => { v with phase := .woken }) t := by
  by_cases htc : t = cpu
  · rw [htc] at h ⊢
    obtain ⟨p, hp, hpcell⟩ := h.cell
    have hqueued := h.queued
    constructor
    · rw [SbiMachine.upd_same]
      refine ⟨p, hp, ?_⟩
      cases p with
      | off => exact ⟨hpcell.1, nofun⟩
      | pending x => exact ⟨hpcell.1, nofun, hpcell.2.2⟩
      | running => exact absurd (hdown.symm.trans hpcell.2) (by decide)
      | ready x => exact absurd (hdown.symm.trans hpcell.2.1) (by decide)
    · rw [SbiQueued, SbiMachine.upd_same]
      exact hqueued
  · exact h.other htc

/-- **`vcpu_run`**: a vCPU that is started enters where the automaton says. -/
theorem SbiVcpuInv.vcpuRun {t cpu : Nat} (h : SbiVcpuInv vm s t)
    (hwoken : (s.vcpu cpu).phase = .woken) : SbiVcpuInv vm (sbiVcpuRun cpu s) t := by
  unfold sbiVcpuRun
  by_cases htc : t = cpu
  · rw [htc] at h ⊢
    obtain ⟨p, hp, hpcell⟩ := h.cell
    have hqueued := h.queued
    by_cases hon : (s.vcpu cpu).state = .started
    · rw [if_pos hon]
      constructor
      · rw [SbiMachine.record_vcpu, SbiMachine.upd_same, SbiMachine.record_log_same]
        cases p with
        | ready x =>
            refine ⟨.running, replay_concat hp ?_, hon, rfl⟩
            rw [next, if_pos hpcell.2.2.symm]
        | running => exact absurd (hwoken.symm.trans hpcell.2) (by decide)
        | off => exact absurd (hon.symm.trans hpcell.1) (by decide)
        | pending x => exact absurd (hon.symm.trans hpcell.1) (by decide)
      · rw [SbiQueued, SbiMachine.record_vcpu, SbiMachine.upd_same]
        exact hqueued
    · rw [if_neg hon]
      constructor
      · rw [SbiMachine.upd_same]
        refine ⟨p, hp, ?_⟩
        cases p with
        | off => exact ⟨hpcell.1, fun h => by cases h⟩
        | pending x => exact ⟨hpcell.1, (fun h => by cases h), hpcell.2.2⟩
        | running => exact absurd hpcell.1 hon
        | ready x => exact absurd hpcell.1 hon
      · rw [SbiQueued, SbiMachine.upd_same]
        exact hqueued
  · split
    · apply (h.other htc).record
      intro heq
      exact absurd heq htc
    · exact h.other htc

/-- **A message is handled.** -/
theorem SbiVcpuInv.deliver {t cpu : Nat} (h : SbiVcpuInv vm s t) (hself : SbiVcpuInv vm s cpu)
    (hcpu : cpu < vm.cpuNum) (ht : t < vm.cpuNum)
    (hphase : (s.vcpu cpu).phase = .guest ∨ (s.vcpu cpu).phase = .woken) :
    SbiVcpuInv vm (sbiDeliver vm cpu s) t := by
  unfold sbiDeliver
  cases hmsgs : s.msgs (vm.physId cpu) with
  | nil => exact h
  | cons msg rest =>
      have hqueued := hself.queued
      have hpend : (s.vcpu cpu).state = .startPending := by
        apply Decidable.byContradiction
        intro hnot
        rw [SbiQueued, if_neg hnot, hmsgs] at hqueued
        cases hqueued
      rw [SbiQueued, if_pos hpend, hmsgs] at hqueued
      obtain ⟨hmsg, hrest⟩ := List.cons.inj hqueued
      obtain ⟨p, hp, hpcell⟩ := hself.cell
      have hppend : p = .pending ((s.vcpu cpu).startAddr, (s.vcpu cpu).priv) ∧
          (s.vcpu cpu).phase ≠ .guest := by
        cases p with
        | pending x => exact ⟨congrArg Power.pending hpcell.2.2.symm, hpcell.2.1⟩
        | running => exact absurd (hpend.symm.trans hpcell.1) (by decide)
        | off => exact absurd (hpend.symm.trans hpcell.1) (by decide)
        | ready x => exact absurd (hpend.symm.trans hpcell.1) (by decide)
      have hwoken : (s.vcpu cpu).phase = .woken := hphase.resolve_left hppend.2
      dsimp only
      rw [hmsg, hrest, sbiMsgHandler, if_pos (show (sbiMsgStart 0).event = 1 from rfl),
        if_pos hpend]
      dsimp only
      generalize hs' : SbiMachine.record _ cpu _ = s'
      by_cases htc : t = cpu
      · rw [htc]
        have hvcpu : s'.vcpu cpu = { (s.vcpu cpu).reset cpu (s.vcpu cpu).startAddr with
            a1 := (s.vcpu cpu).priv, state := .started } := by
          rw [← hs']
          exact atCpu_same _ _ _
        have hlog : s'.log cpu = s.log cpu ++
            [.start ((s.vcpu cpu).startAddr, (s.vcpu cpu).priv)] := by
          rw [← hs', SbiMachine.record_log_same, SbiMachine.upd_same]
          rfl
        have hempty : s'.msgs (vm.physId cpu) = [] := by
          rw [← hs']
          exact atCpu_same _ _ _
        constructor
        · rw [hlog, hvcpu]
          rw [hppend.1] at hp
          exact ⟨_, replay_concat hp (if_pos rfl), rfl, hwoken, rfl⟩
        · rw [SbiQueued, hempty, hvcpu]
          rfl
      · apply h.congr
        · refine ⟨(s.vcpu t).error, ?_⟩
          rw [← hs']
          exact atCpu_other _ _ htc
        · rw [← hs', SbiMachine.record_log_ne _ _ htc]
          rfl
        · rw [← hs']
          exact atCpu_other _ _ fun heq => htc (vm.physId_inj t cpu ht hcpu heq)

theorem sbiInv_reachable (h : (sbiSystem vm).Reachable s) :
    ∀ t, t < vm.cpuNum → SbiVcpuInv vm s t := by
  apply h.invariant
  · intro s hinit t _
    exact SbiVcpuInv.init hinit t
  · rintro s e s' hinv - ⟨hen, rfl⟩ t ht
    cases e with
    | hartStart cpu vhartId startAddr priv => exact SbiVcpuInv.hartStart hinv hen.1 hen.2 ht
    | wake cpu => exact (hinv t ht).wake hen.2
    | deliver cpu => exact (hinv t ht).deliver (hinv cpu hen.1) hen.1 ht hen.2
    | vcpuRun cpu => exact (hinv t ht).vcpuRun hen.2

end Bao

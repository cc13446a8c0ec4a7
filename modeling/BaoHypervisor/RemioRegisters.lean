import BaoHypervisor.CpuMessages
import BaoHypervisor.RemioCompletions

/-!
# The registers of a completed access

The request of a trapped access records whether it reads or writes, but the
message that completes it is chosen by the operation code of the backend's
hypercall, and `remio_cpu_post_work` writes the register for a read message
only.  The guests' registers are put beside the Remote I/O system: guest code
changes those of active vCPUs at will, the hypervisor those of a paused one
only in the post work.  A completed access then has the effect it should have
if and only if the backend answered with the operation it was asked for.
-/

namespace Bao

variable {p : RemioPlatform} {s s' : RemioState} {stores : Nat → Bool}

/-- `vcpu_writereg`; `stores` tells the numbers of the registers it stores to
(0 to 30 on ARMv8, 1 to 31 on RISC-V), for any other it does nothing. -/
def vcpuWritereg (stores : Nat → Bool) (regs : Nat → Nat) (reg val : Nat) : Nat → Nat :=
  if stores reg then fun r => if r = reg then val else regs r else regs

/-- The call of `vcpu_writereg` in `remio_cpu_msg_handler`, if it makes one. -/
def remioMsgWritereg (s : RemioState) (cpu : Nat) (msg : RemioMsg) : Option (Nat × Nat) :=
  match msg.event with
  | .notify => none
  | event =>
      match remioCpuPostWork s cpu event msg.remioBindKey msg.requestId with
      | none => none
      | some (write, _) => write

/-- The registers of the vCPU of each CPU; for the statements below, those at
its last trapped access, and the calls of `vcpu_writereg` since. -/
structure GuestRegs where
  regs : Nat → Nat → Nat
  trapped : Nat → Nat → Nat
  written : Nat → List (Nat × Nat)

namespace GuestRegs

/-- A call of `vcpu_writereg` on a CPU, if there is one. -/
def write (R : GuestRegs) (stores : Nat → Bool) (cpu : Nat) : Option (Nat × Nat) → GuestRegs
  | none => R
  | some (reg, val) =>
      { R with
        regs := atCpu R.regs cpu (vcpuWritereg stores (R.regs cpu) reg val)
        written := atCpu R.written cpu (R.written cpu ++ [(reg, val)]) }

/-- The vCPU of a CPU traps. -/
def trap (R : GuestRegs) (cpu : Nat) : GuestRegs :=
  { R with
    trapped := atCpu R.trapped cpu (R.regs cpu)
    written := atCpu R.written cpu [] }

/-- Guest code and hypercall results change registers of active vCPUs only. -/
def Runs (R : GuestRegs) (s : RemioState) (regs : Nat → Nat → Nat) : Prop :=
  ∀ c, s.active c = false → regs c = R.regs c

/-- What a step makes of the registers. -/
def Step (stores : Nat → Bool) (s : RemioState) (e : RemioEvent) (R R' : GuestRegs) : Prop :=
  match e with
  | .deliver cpu msg =>
      R' = R.write stores cpu (remioMsgWritereg (s.popMsgs cpu (s.msgs cpu).tail) cpu msg)
  | .mmio cpu _ => ∃ regs, R.Runs s regs ∧ R' = { R with regs := regs }.trap cpu
  | _ => ∃ regs, R.Runs s regs ∧ R' = { R with regs := regs }

end GuestRegs

/-- The Remote I/O system with its observer and the guests' registers. -/
def remioRegs (p : RemioPlatform) (stores : Nat → Bool) :
    StepSystem ((RemioState × RemioTale) × GuestRegs) RemioEvent where
  init w := (remioTold p).init w.1
  step w e w' := (remioTold p).step w.1 e w'.1 ∧ GuestRegs.Step stores w.1.1 e w.2 w'.2

/-- Its runs in which only active vCPUs run guest code. -/
abbrev RemioRegsReach (p : RemioPlatform) (stores : Nat → Bool)
    (w : (RemioState × RemioTale) × GuestRegs) : Prop :=
  (remioRegs p stores).Reach (fun w e => GuestRuns p w.1.1 e) w

/-- The operation code of an access. -/
def RemioAccess.op (acc : RemioAccess) : Nat := if acc.write then hypWrite else hypRead

/-- **The effect that a completed access should have** on the registers of its
vCPU: a read has written the value to its register, a write has written none;
all other registers are as they were when the access trapped. -/
def GuestRegs.Completed (R : GuestRegs) (stores : Nat → Bool) (cpu : Nat) (acc : RemioAccess)
    (value : Nat) : Prop :=
  R.written cpu = (if acc.write then [] else [(acc.reg, value)]) ∧
    R.regs cpu =
      if acc.write then R.trapped cpu else vcpuWritereg stores (R.trapped cpu) acc.reg value

/-! ## The invariant -/

/-- **The invariant**: the registers of a paused vCPU are those of its access. -/
structure RemioPaused (p : RemioPlatform) (w : (RemioState × RemioTale) × GuestRegs) : Prop where
  told : RemioTold p w.1
  regs : ∀ c, w.1.1.active c = false → w.2.regs c = w.2.trapped c ∧ w.2.written c = []

theorem RemioTold.writes {t : RemioTale} (h : RemioTold p (s, t)) {cpu : Nat} {msg : RemioMsg}
    {rest : List RemioMsg} (hmsgs : s.msgs cpu = msg :: rest) (hmsg : msg.event ≠ .notify) :
    ∃ a acc, RemioInFlight s t msg a.args.requestId a ∧
      t.access a.args.requestId = some (cpu, acc) ∧ s.RequestOf a.args.requestId cpu ∧
      (((s.requests.objs a.args.requestId).bindKey < 256 ∧
        remioMsgWritereg (s.popMsgs cpu rest) cpu msg =
          (if a.event = .read then some (acc.reg, a.args.value) else none) ∧
        remioCpuMsgHandler (s.popMsgs cpu rest) cpu msg =
          (s.popMsgs cpu rest).postWork cpu a.args.requestId) ∨
      (remioMsgWritereg (s.popMsgs cpu rest) cpu msg = none ∧
        remioCpuMsgHandler (s.popMsgs cpu rest) cpu msg = (s.popMsgs cpu rest).halt cpu)) := by
  obtain ⟨a, acc, ha, hacc, hof, hsmall, hreg, _, hhandler⟩ := h.delivers hmsgs hmsg
  refine ⟨a, acc, ha, hacc, hof, ?_⟩
  have hwrite : remioMsgWritereg (s.popMsgs cpu rest) cpu msg =
      match remioCpuPostWork (s.popMsgs cpu rest) cpu msg.event msg.remioBindKey msg.requestId with
      | none => none
      | some (write, _) => write := by
    rw [remioMsgWritereg]
    cases hevent : msg.event with
    | notify => exact (hmsg hevent).elim
    | write => rfl
    | read => rfl
  by_cases hkey : (s.requests.objs a.args.requestId).bindKey < 256
  · rw [if_pos hkey] at hhandler
    refine .inl ⟨hkey, ?_, hhandler⟩
    have hfound := @remioCpuPostWork_found (s.popMsgs cpu rest) cpu a.device a
      (s.requests.objs a.args.requestId).bindKey ha.find hof.1.1 hsmall rfl hkey
    have hvalue : (s.requests.objs a.args.requestId).value = a.args.value := ha.value
    rw [hwrite, ha.msg]
    simp only [hfound]
    rw [← hreg, ← hvalue]
    rfl
  · rw [if_neg hkey] at hhandler
    refine .inr ⟨?_, hhandler⟩
    have hlost := @remioCpuPostWork_lost (s.popMsgs cpu rest) cpu a
      (s.requests.objs a.args.requestId).bindKey hsmall rfl hkey
    rw [hwrite, ha.msg]
    simp only [hlost]

theorem RemioPaused.runs {w : (RemioState × RemioTale) × GuestRegs} (h : RemioPaused p w)
    {regs : Nat → Nat → Nat} (hruns : w.2.Runs w.1.1 regs) {c : Nat}
    (hc : w.1.1.active c = false) : regs c = w.2.trapped c ∧ w.2.written c = [] := by
  rw [hruns c hc]
  exact h.regs c hc

theorem RemioPaused.step {w w' : (RemioState × RemioTale) × GuestRegs} {e : RemioEvent}
    (h : RemioPaused p w) (hok : GuestRuns p w.1.1 e) (hstep : (remioRegs p stores).step w e w') :
    RemioPaused p w' := by
  obtain ⟨⟨s, t⟩, R⟩ := w
  obtain ⟨⟨s', t'⟩, R'⟩ := w'
  obtain ⟨⟨hstep, rfl⟩, hregs⟩ := hstep
  have htold := h.told.step hok hstep
  cases hstep with
  | assign =>
      obtain ⟨regs, hruns, rfl⟩ := hregs
      exact ⟨htold, fun c hc => h.runs hruns hc⟩
  | @mmio _ cpu d acc dev queued _ _ _ _ hmmio =>
      obtain ⟨regs, hruns, rfl⟩ := hregs
      obtain ⟨_, _, _, _, _, _, _, _, hpaused⟩ := remioMmioEmulHandler_some hmmio
      refine ⟨htold, fun c hc => ?_⟩
      by_cases hcpu : c = cpu
      · subst hcpu
        exact ⟨(atCpu_same _ _ _).symm, atCpu_same _ _ _⟩
      · rw [hpaused c, if_neg hcpu] at hc
        simp only [GuestRegs.trap, atCpu_other _ _ hcpu]
        exact h.runs hruns hc
  | mmioRefused =>
      obtain ⟨regs, hruns, rfl⟩ := hregs
      exact ⟨htold, fun c hc => h.runs hruns hc⟩
  | mmioNoDevice =>
      obtain ⟨regs, hruns, rfl⟩ := hregs
      exact ⟨htold, fun c hc => h.runs hruns hc⟩
  | hypercall _ _ hcall =>
      obtain ⟨regs, hruns, rfl⟩ := hregs
      refine ⟨htold, fun c hc => ?_⟩
      have hsame : s'.active c = s.active c := congrFun (SameOwners.hypercall hcall).active c
      exact h.runs hruns (hsame.symm.trans hc)
  | @deliver cpu msg rest _ hmsgs =>
      have htail : (s.msgs cpu).tail = rest := congrArg List.tail hmsgs
      change R' = R.write stores cpu (remioMsgWritereg (s.popMsgs cpu (s.msgs cpu).tail) cpu msg)
        at hregs
      rw [htail] at hregs
      subst hregs
      refine ⟨htold, fun c hc => ?_⟩
      change (remioCpuMsgHandler (s.popMsgs cpu rest) cpu msg).active c = false at hc
      change (R.write stores cpu (remioMsgWritereg (s.popMsgs cpu rest) cpu msg)).regs c =
        (R.write stores cpu (remioMsgWritereg (s.popMsgs cpu rest) cpu msg)).trapped c ∧
        (R.write stores cpu (remioMsgWritereg (s.popMsgs cpu rest) cpu msg)).written c = []
      by_cases hmsg : msg.event = .notify
      · simp only [remioMsgWritereg, hmsg, GuestRegs.write]
        rw [remioCpuMsgHandler, hmsg] at hc
        exact h.regs c hc
      · obtain ⟨a, acc, _, _, hof, ⟨_, hwrite, hhandler⟩ | ⟨hwrite, hhandler⟩⟩ :=
          h.told.writes hmsgs hmsg
        · rw [hhandler, postWork_active] at hc
          by_cases hcpu : c = cpu
          · rw [if_pos hcpu] at hc
            cases hc
          · rw [if_neg hcpu] at hc
            have hold : s.active c = false := hc
            rw [hwrite]
            split
            · simp only [GuestRegs.write, atCpu_other _ _ hcpu]
              exact h.regs c hold
            · exact h.regs c hold
        · rw [hhandler] at hc
          rw [hwrite]
          exact h.regs c hc

theorem remioPaused_reach {w : (RemioState × RemioTale) × GuestRegs}
    (h : RemioRegsReach p stores w) : RemioPaused p w := by
  have hinit : ∀ w, (remioRegs p stores).init w → RemioPaused p w := by
    intro w hw
    obtain ⟨⟨s, t⟩, R⟩ := w
    obtain ⟨⟨hs, hactive⟩, rfl⟩ := hw
    refine ⟨.initial hs hactive, fun c hc => ?_⟩
    rw [hactive c] at hc
    cases hc
  have hstep : ∀ w e w', RemioPaused p w → GuestRuns p w.1.1 e → (remioRegs p stores).step w e w' →
      RemioPaused p w' := fun w e w' hw hok hstep => hw.step hok hstep
  exact h.invariant hinit hstep

/-! ## Completed accesses -/

/-- The post work has the effect of the answer's operation; that is the effect
of the access exactly if the operations agree. -/
theorem GuestRegs.completed_iff {R : GuestRegs} {cpu : Nat} {acc : RemioAccess} {a : RemioAnswer}
    (hop : a.args.op = hypWrite ∨ a.args.op = hypRead) (hregs : R.regs cpu = R.trapped cpu)
    (hwritten : R.written cpu = []) :
    (R.write stores cpu (if a.event = .read then some (acc.reg, a.args.value) else none)).Completed
      stores cpu acc a.args.value ↔ a.args.op = acc.op := by
  unfold RemioAccess.op
  rcases hop with hop | hop
  · have hevent : ¬ a.event = .read := by
      rw [RemioAnswer.event, if_pos hop]
      exact RemioMsgEvent.noConfusion
    rw [if_neg hevent, hop]
    cases hacc : acc.write with
    | true => simp [GuestRegs.Completed, GuestRegs.write, hacc, hregs, hwritten]
    | false => simp [GuestRegs.Completed, GuestRegs.write, hacc, hwritten]
  · have hevent : a.event = .read := by
      rw [RemioAnswer.event, if_neg (by rw [hop]; decide)]
    rw [if_pos hevent, hop]
    cases hacc : acc.write with
    | true => simp [GuestRegs.Completed, GuestRegs.write, hacc, hwritten]
    | false => simp [GuestRegs.Completed, GuestRegs.write, hacc, hregs, hwritten]

/-- **A completed access has its effect if and only if the answer had its
operation.**  Whenever a delivery resumes the vCPU of a CPU, the vCPU had
trapped on an access, and the backend had answered the request made for it; the
access has written its register exactly if it was a read, with the value of
that answer, and left all other registers alone, if and only if the hypercall
was a read for a read and a write for a write. -/
theorem remio_access_completed_iff {w w' : (RemioState × RemioTale) × GuestRegs} {cpu : Nat}
    {msg : RemioMsg} (h : RemioRegsReach p stores w)
    (hstep : (remioRegs p stores).step w (.deliver cpu msg) w')
    (hpaused : w.1.1.active cpu = false) (hresumed : w'.1.1.active cpu = true) :
    ∃ r acc a, w.1.2.access r = some (cpu, acc) ∧ w.1.2.answer r = some a ∧
      a.args.requestId = r ∧
      (w'.2.Completed stores cpu acc a.args.value ↔ a.args.op = acc.op) := by
  obtain ⟨⟨s, t⟩, R⟩ := w
  obtain ⟨⟨s', t'⟩, R'⟩ := w'
  obtain ⟨⟨hstep, _⟩, hregs⟩ := hstep
  have hinv := remioPaused_reach h
  obtain ⟨hsame, hwritten⟩ := hinv.regs cpu hpaused
  obtain ⟨_, rest, hmsgs, hhandled⟩ := RemioStep.delivered hstep
  have hs' : s' = remioCpuMsgHandler (s.popMsgs cpu rest) cpu msg := hhandled
  have hactive : s.active cpu = false := hpaused
  have hactive' : s'.active cpu = true := hresumed
  have htail : (s.msgs cpu).tail = rest := congrArg List.tail hmsgs
  have hR' : R' = R.write stores cpu (remioMsgWritereg (s.popMsgs cpu rest) cpu msg) := by
    rw [← htail]
    exact hregs
  have hmsg : msg.event ≠ .notify := by
    intro hmsg
    have hnotify : s' = s.popMsgs cpu rest := by
      rw [hs', remioCpuMsgHandler, hmsg]
    rw [hnotify] at hactive'
    exact absurd (hactive.symm.trans hactive') (by decide)
  obtain ⟨a, acc, ha, hacc, _, ⟨_, hwrite, _⟩ | ⟨_, hhandler⟩⟩ := hinv.told.writes hmsgs hmsg
  · refine ⟨a.args.requestId, acc, a, hacc, ha.answer, rfl, ?_⟩
    change R'.Completed stores cpu acc a.args.value ↔ _
    rw [hR', hwrite]
    exact GuestRegs.completed_iff ha.op hsame hwritten
  · have hhalt : s' = (s.popMsgs cpu rest).halt cpu := hs'.trans hhandler
    rw [hhalt] at hactive'
    exact absurd (hactive.symm.trans hactive') (by decide)

/-! ## Runs by their events -/

/-- The registers after an event, when no guest changes one. -/
def GuestRegs.next (stores : Nat → Bool) (s : RemioState) (e : RemioEvent) (R : GuestRegs) :
    GuestRegs :=
  match e with
  | .deliver cpu msg => R.write stores cpu (remioMsgWritereg (s.popMsgs cpu (s.msgs cpu).tail) cpu msg)
  | .mmio cpu _ => R.trap cpu
  | _ => R

theorem GuestRegs.next_step (s : RemioState) (e : RemioEvent) (R : GuestRegs) :
    GuestRegs.Step stores s e R (R.next stores s e) := by
  have hruns : R.Runs s R.regs := fun _ _ => rfl
  cases e with
  | deliver cpu msg => exact rfl
  | mmio cpu acc => exact ⟨R.regs, hruns, rfl⟩
  | assign cpu => exact ⟨R.regs, hruns, rfl⟩
  | mmioRefused cpu acc => exact ⟨R.regs, hruns, rfl⟩
  | hypercall cpu args ret regs => exact ⟨R.regs, hruns, rfl⟩

/-- State, observer and registers after events one after the other. -/
def remioRegsAfter (p : RemioPlatform) (stores : Nat → Bool) : List RemioEvent →
    (RemioState × RemioTale) × GuestRegs → (RemioState × RemioTale) × GuestRegs
  | [], w => w
  | e :: es, w =>
      remioRegsAfter p stores es
        ((remioNext p w.1.1 e, remioTell p w.1.1 e w.1.2), w.2.next stores w.1.1 e)

theorem remioRegsAfter_reach (es : List RemioEvent) {w : (RemioState × RemioTale) × GuestRegs}
    (hw : RemioRegsReach p stores w) (h : remioPlays p es w.1.1 = true) :
    RemioRegsReach p stores (remioRegsAfter p stores es w) := by
  induction es generalizing w with
  | nil => exact hw
  | cons e es ih =>
      simp only [remioPlays, Bool.and_eq_true] at h
      obtain ⟨hguest, hstep⟩ := remioEnabled_step h.1
      exact ih (.step hw hguest ⟨⟨hstep, rfl⟩, GuestRegs.next_step _ _ _⟩) h.2

theorem remioRegs_step {e : RemioEvent} (w : (RemioState × RemioTale) × GuestRegs)
    (h : remioEnabled p w.1.1 e = true) :
    (remioRegs p stores).step w e (remioRegsAfter p stores [e] w) := by
  obtain ⟨_, hstep⟩ := remioEnabled_step h
  exact ⟨⟨hstep, rfl⟩, GuestRegs.next_step _ _ _⟩

/-- The start of the pair on ARMv8, with 5 in every register. -/
def pairRegsStart : (RemioState × RemioTale) × GuestRegs :=
  (keyStart 7, ⟨fun _ _ => 5, fun _ _ => 0, fun _ => []⟩)

/-- The pair after events. -/
def pairRegsAfter (es : List RemioEvent) : (RemioState × RemioTale) × GuestRegs :=
  remioRegsAfter (keyPlatform 7) (fun reg => decide (reg ≤ 30)) es pairRegsStart

theorem pairRegsStart_reach :
    RemioRegsReach (keyPlatform 7) (fun reg => decide (reg ≤ 30)) pairRegsStart :=
  .init ⟨⟨⟨rfl, rfl, fun _ => rfl, fun _ => rfl⟩, fun _ => rfl⟩, rfl⟩

/-- Both VMs start, the frontend makes an access to its device, and the backend
asks for the request and answers with the operation. -/
def accessAnswered (acc : RemioAccess) (op : Nat) : List RemioEvent :=
  [.assign 0, .assign 1, .mmio 1 acc,
    .hypercall 0 (pairCall hypAsk 0) hcSuccess
      [0x1000, acc.op, if acc.write then acc.value else 0, 4, 0, 0],
    .hypercall 0 (pairCall op 0) hcSuccess []]

/-- The frontend has handled that answer. -/
def accessResumed (acc : RemioAccess) (op : Nat) (event : RemioMsgEvent) : List RemioEvent :=
  accessAnswered acc op ++ [.deliver 1 ⟨event, 7, 0, 0⟩]

/-- Answered by a write, the write access has its effect: no register changes. -/
theorem remio_access_completed_write :
    (pairRegsAfter (accessResumed pairAccess hypWrite .write)).2.Completed
      (fun reg => decide (reg ≤ 30)) 1 pairAccess 0 := by
  have hreach := remioRegsAfter_reach (accessAnswered pairAccess hypWrite)
    pairRegsStart_reach (by decide +kernel)
  have htale : (remioRegsAfter (keyPlatform 7) (fun reg => decide (reg ≤ 30))
      (accessAnswered pairAccess hypWrite) pairRegsStart).1.2 =
      (RemioTale.empty.ask 0 1 pairAccess).reply ⟨0, pairCall hypWrite 0⟩ := rfl
  obtain ⟨r, acc, a, hacc, hanswer, _, hiff⟩ := remio_access_completed_iff hreach
    (remioRegs_step (e := .deliver 1 ⟨.write, 7, 0, 0⟩) _ (by decide +kernel))
    (by decide +kernel) (by decide +kernel)
  rw [htale] at hacc hanswer
  simp only [RemioTale.reply, RemioTale.ask, RemioTale.empty, Option.ite_none_right_eq_some,
    Option.some.injEq, Prod.mk.injEq, true_and] at hacc
  obtain ⟨rfl, rfl⟩ := hacc
  obtain rfl : ⟨0, pairCall hypWrite 0⟩ = a := Option.some.inj hanswer
  exact hiff.mpr rfl

/-- **Answered by the other operation.**  The backend answers a write access by
a read of 0: the frontend's register 3, which held 5, is 0 when its vCPU
resumes.  It answers a read access by a write: no register is written. -/
theorem remio_access_overwritten :
    RemioRegsReach (keyPlatform 7) (fun reg => decide (reg ≤ 30))
      (pairRegsAfter (accessResumed pairAccess hypRead .read)) ∧
    (pairRegsAfter (accessAnswered pairAccess hypRead)).1.1.active 1 = false ∧
    (pairRegsAfter (accessAnswered pairAccess hypRead)).2.regs 1 3 = 5 ∧
    (pairRegsAfter (accessResumed pairAccess hypRead .read)).1.1.active 1 = true ∧
    (pairRegsAfter (accessResumed pairAccess hypRead .read)).2.regs 1 3 = 0 ∧
    RemioRegsReach (keyPlatform 7) (fun reg => decide (reg ≤ 30))
      (pairRegsAfter (accessResumed { pairAccess with write := false } hypWrite .write)) ∧
    (pairRegsAfter (accessAnswered { pairAccess with write := false } hypWrite)).1.1.active 1 =
      false ∧
    (pairRegsAfter (accessResumed { pairAccess with write := false } hypWrite .write)).1.1.active 1 =
      true ∧
    (pairRegsAfter (accessResumed { pairAccess with write := false } hypWrite .write)).2.written 1 =
      [] := by
  refine ⟨remioRegsAfter_reach _ pairRegsStart_reach (by decide +kernel), by decide +kernel,
    by decide +kernel, by decide +kernel, by decide +kernel,
    remioRegsAfter_reach _ pairRegsStart_reach (by decide +kernel), by decide +kernel,
    by decide +kernel, by decide +kernel⟩

end Bao

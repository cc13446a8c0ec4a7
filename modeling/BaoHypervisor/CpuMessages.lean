import BaoHypervisor.CircularQueue
import BaoHypervisor.StepSystem

/-!
# Messages between CPUs

`cpu_send_msg`, `cpu_get_msg` and `cpu_msg_handler` of `core/cpu.c`.  Every
CPU has a circular queue in its interface; any CPU pushes onto it, and the
owner takes the messages one by one and calls the handler registered for each.
A step is one push or one pop, which run under the queue's lock, or one call
of a handler; steps of different CPUs interleave freely.
-/

namespace Bao

/-- `struct cpu_msg`. -/
structure CpuMsg where
  handler : Nat
  event : Nat
  data : Nat
deriving DecidableEq

/-- `IPI_MAX_EVENTS`, as `cpu.h` asserts it. -/
structure IpiMaxEvents where
  val : Nat
  pos : 0 < val
  lt_intMax : val < 2 ^ 31 - 1

/-- `ipi_cpumsg_handlers` and `ipi_cpumsg_handler_num`; `F` are the functions
that can be registered. -/
structure MsgHandlers (F : Type) where
  num : Nat
  table : Nat → Option F

/-- One call of a registered handler. -/
structure HandlerCall (F : Type) where
  handler : F
  event : Nat
  data : Nat
deriving DecidableEq

variable {F : Type}

/-- What `cpu_msg_handler` calls for a message: nothing unless a handler is
registered under its id. -/
def MsgHandlers.call (H : MsgHandlers F) (msg : CpuMsg) : Option (HandlerCall F) :=
  if msg.handler < H.num then
    (H.table msg.handler).map fun handler => ⟨handler, msg.event, msg.data⟩
  else none

/-- The queues `cpu_if(cpu)->msgs`, the inter-processor interrupts sent so
far, the flags `handling_msgs`, the message each CPU took and did not deal
with yet, the calls each CPU made and, for the statements below, the messages
whose push onto its queue succeeded. -/
structure MsgState (F : Type) where
  msgs : Nat → CircularQueue CpuMsg
  ipis : List Nat
  handlingMsgs : Nat → Bool
  hand : Nat → Option CpuMsg
  calls : Nat → List (HandlerCall F)
  pushed : Nat → List CpuMsg

/-- The function `f` with `v` at `cpu`. -/
def atCpu {β : Type} (f : Nat → β) (cpu : Nat) (v : β) : Nat → β :=
  fun c => if c = cpu then v else f c

@[simp] theorem atCpu_same {β : Type} (f : Nat → β) (cpu : Nat) (v : β) :
    atCpu f cpu v cpu = v := if_pos rfl

theorem atCpu_other {β : Type} (f : Nat → β) {cpu c : Nat} (v : β) (h : c ≠ cpu) :
    atCpu f cpu v c = f c := if_neg h

@[simp] theorem atCpu_self {β : Type} (f : Nat → β) (cpu : Nat) : atCpu f cpu (f cpu) = f := by
  funext c
  by_cases hc : c = cpu
  · rw [hc, atCpu_same]
  · rw [atCpu_other f _ hc]

namespace MsgState

/-- `cpu_send_msg`. -/
def cpuSendMsg (s : MsgState F) (trgtcpu : Nat) (msg : CpuMsg) : MsgState F :=
  let pushed := (s.msgs trgtcpu).push msg
  if pushed.1 then
    { s with
      msgs := atCpu s.msgs trgtcpu pushed.2
      ipis := trgtcpu :: s.ipis
      pushed := atCpu s.pushed trgtcpu (s.pushed trgtcpu ++ [msg]) }
  else { s with msgs := atCpu s.msgs trgtcpu pushed.2 }

/-- The start of `cpu_msg_handler`. -/
def startHandling (s : MsgState F) (cpu : Nat) : MsgState F :=
  { s with handlingMsgs := atCpu s.handlingMsgs cpu true }

/-- `cpu_get_msg` in the loop of `cpu_msg_handler`, which ends when there is
no message. -/
def cpuGetMsg (s : MsgState F) (cpu : Nat) : MsgState F :=
  let popped := (s.msgs cpu).pop
  match popped.1 with
  | some msg =>
      { s with
        msgs := atCpu s.msgs cpu popped.2
        hand := atCpu s.hand cpu (some msg) }
  | none =>
      { s with
        msgs := atCpu s.msgs cpu popped.2
        handlingMsgs := atCpu s.handlingMsgs cpu false }

/-- The body of the loop of `cpu_msg_handler` on the message taken. -/
def dispatch (H : MsgHandlers F) (s : MsgState F) (cpu : Nat) (msg : CpuMsg) : MsgState F :=
  { s with
    hand := atCpu s.hand cpu none
    calls := atCpu s.calls cpu (s.calls cpu ++ (H.call msg).toList) }

end MsgState

/-- The steps of all CPUs. -/
inductive MsgEvent
  | send (sender trgtcpu : Nat) (msg : CpuMsg)
  | start (cpu : Nat)
  | get (cpu : Nat)
  | dispatch (cpu : Nat)

/-- One step.  A CPU that is handling messages takes the next one when it has
dealt with the one before; any CPU may send at any time, also from a handler. -/
inductive MsgStep (H : MsgHandlers F) : MsgState F → MsgEvent → MsgState F → Prop
  | send {s : MsgState F} {sender trgtcpu : Nat} {msg : CpuMsg} :
      MsgStep H s (.send sender trgtcpu msg) (s.cpuSendMsg trgtcpu msg)
  | start {s : MsgState F} {cpu : Nat} (hidle : s.handlingMsgs cpu = false) :
      MsgStep H s (.start cpu) (s.startHandling cpu)
  | get {s : MsgState F} {cpu : Nat} (hloop : s.handlingMsgs cpu = true)
      (hfree : s.hand cpu = none) : MsgStep H s (.get cpu) (s.cpuGetMsg cpu)
  | dispatch {s : MsgState F} {cpu : Nat} {msg : CpuMsg} (hmsg : s.hand cpu = some msg) :
      MsgStep H s (.dispatch cpu) (s.dispatch H cpu msg)

/-- After `cpu_init` every queue is fresh and nothing was sent. -/
structure MsgInit (N : IpiMaxEvents) (s : MsgState F) : Prop where
  msgs : ∀ cpu, ∃ buf, s.msgs cpu = CircularQueue.init buf N.val
  hand : ∀ cpu, s.hand cpu = none
  handlingMsgs : ∀ cpu, s.handlingMsgs cpu = false
  calls : ∀ cpu, s.calls cpu = []
  pushed : ∀ cpu, s.pushed cpu = []

/-- The CPUs and their messages. -/
def msgSystem (H : MsgHandlers F) (N : IpiMaxEvents) : StepSystem (MsgState F) MsgEvent where
  init := MsgInit N
  step := MsgStep H

/-- The CPUs right after `cpu_init`. -/
def bootMessages (F : Type) (N : IpiMaxEvents) : MsgState F where
  msgs := fun _ => CircularQueue.init (fun _ => ⟨0, 0, 0⟩) N.val
  ipis := []
  handlingMsgs := fun _ => false
  hand := fun _ => none
  calls := fun _ => []
  pushed := fun _ => []

theorem bootMessages_init (N : IpiMaxEvents) : MsgInit N (bootMessages F N) :=
  ⟨fun _ => ⟨_, rfl⟩, fun _ => rfl, fun _ => rfl, fun _ => rfl, fun _ => rfl⟩

/-! ## What becomes of a message -/

/-- Every message that was pushed onto the queue of `cpu` was dealt with, is
in the CPU's hand or is queued, in this order. -/
structure Delivery (H : MsgHandlers F) (N : IpiMaxEvents) (s : MsgState F) (cpu : Nat)
    (done q : List CpuMsg) : Prop where
  holds : (s.msgs cpu).Holds q
  capacity : (s.msgs cpu).capacity = N.val
  pushed : s.pushed cpu = done ++ (s.hand cpu).toList ++ q
  calls : s.calls cpu = done.filterMap H.call

section

variable {H : MsgHandlers F} {N : IpiMaxEvents} {s s' : MsgState F}

theorem Delivery.initial (hinit : MsgInit N s) (cpu : Nat) : Delivery H N s cpu [] [] := by
  obtain ⟨buf, hbuf⟩ := hinit.msgs cpu
  constructor
  · rw [hbuf]
    exact CircularQueue.holds_init buf N.pos
  · rw [hbuf]
    rfl
  · rw [hinit.pushed, hinit.hand]
    rfl
  · rw [hinit.calls]
    rfl

theorem Delivery.congr {cpu : Nat} {done q : List CpuMsg} (h : Delivery H N s cpu done q)
    (hmsgs : s'.msgs cpu = s.msgs cpu) (hhand : s'.hand cpu = s.hand cpu)
    (hpushed : s'.pushed cpu = s.pushed cpu) (hcalls : s'.calls cpu = s.calls cpu) :
    Delivery H N s' cpu done q :=
  ⟨hmsgs ▸ h.holds, hmsgs ▸ h.capacity, by rw [hpushed, hhand, h.pushed],
    by rw [hcalls, h.calls]⟩

theorem cpuSendMsg_failed {trgtcpu : Nat} {msg : CpuMsg}
    (h : ((s.msgs trgtcpu).push msg).1 = false) : s.cpuSendMsg trgtcpu msg = s := by
  rw [MsgState.cpuSendMsg]
  simp only [h, CircularQueue.push_failed h, atCpu_self]
  rfl

/-- A message sent to `cpu` joins the end of its queue, or is dropped when the
queue is full. -/
theorem Delivery.send {cpu : Nat} {done q : List CpuMsg} (h : Delivery H N s cpu done q)
    (trgtcpu : Nat) (msg : CpuMsg) :
    ∃ q', Delivery H N (s.cpuSendMsg trgtcpu msg) cpu done q' := by
  by_cases hok : ((s.msgs trgtcpu).push msg).1 = true
  · have hsend : s.cpuSendMsg trgtcpu msg =
        { s with
          msgs := atCpu s.msgs trgtcpu ((s.msgs trgtcpu).push msg).2
          ipis := trgtcpu :: s.ipis
          pushed := atCpu s.pushed trgtcpu (s.pushed trgtcpu ++ [msg]) } := by
      rw [MsgState.cpuSendMsg]
      simp only [hok]
      rfl
    rw [hsend]
    by_cases hcpu : cpu = trgtcpu
    · subst hcpu
      have hroom : q.length < (s.msgs cpu).capacity := by
        have hle := h.holds.length_le
        have hne : ¬ q.length = (s.msgs cpu).capacity := by
          rw [← h.holds.push_fails_iff msg, hok]
          simp
        omega
      obtain ⟨_, hnext⟩ := h.holds.pushed msg hroom
      refine ⟨q ++ [msg], ?_, ?_, ?_, h.calls⟩
      · simpa using hnext
      · simpa using h.capacity
      · simp [h.pushed]
    · exact ⟨q, h.congr (atCpu_other _ _ hcpu) rfl (atCpu_other _ _ hcpu) rfl⟩
  · rw [cpuSendMsg_failed (by simpa using hok)]
    exact ⟨q, h⟩

/-- **`cpu_get_msg` in the loop.**  The loop ends on an empty queue, and
otherwise takes the oldest message. -/
theorem Delivery.get_cases {cpu : Nat} {done q : List CpuMsg} (h : Delivery H N s cpu done q) :
    (q = [] ∧ s.cpuGetMsg cpu = { s with handlingMsgs := atCpu s.handlingMsgs cpu false }) ∨
    ∃ msg rest, q = msg :: rest ∧ (s.msgs cpu).pop.2.Holds rest ∧
      s.cpuGetMsg cpu = { s with
        msgs := atCpu s.msgs cpu (s.msgs cpu).pop.2
        hand := atCpu s.hand cpu (some msg) } := by
  cases q with
  | nil =>
      have hempty : (s.msgs cpu).pop = (none, s.msgs cpu) := by
        rw [CircularQueue.pop, if_pos (h.holds.isEmpty_iff.mpr rfl)]
      left
      refine ⟨rfl, ?_⟩
      rw [MsgState.cpuGetMsg]
      simp only [hempty, atCpu_self]
  | cons msg rest =>
      obtain ⟨hmsg, hnext⟩ := h.holds.popped
      right
      refine ⟨msg, rest, rfl, hnext, ?_⟩
      rw [MsgState.cpuGetMsg]
      simp only [hmsg]

theorem cpuGetMsg_other {cpu c : Nat} (hc : c ≠ cpu) :
    (s.cpuGetMsg cpu).msgs c = s.msgs c ∧ (s.cpuGetMsg cpu).hand c = s.hand c ∧
      (s.cpuGetMsg cpu).handlingMsgs c = s.handlingMsgs c := by
  rw [MsgState.cpuGetMsg]
  split
  · exact ⟨atCpu_other _ _ hc, atCpu_other _ _ hc, rfl⟩
  · exact ⟨atCpu_other _ _ hc, rfl, atCpu_other _ _ hc⟩

theorem cpuGetMsg_logs (cpu : Nat) :
    (s.cpuGetMsg cpu).pushed = s.pushed ∧ (s.cpuGetMsg cpu).calls = s.calls := by
  rw [MsgState.cpuGetMsg]
  split
  · exact ⟨rfl, rfl⟩
  · exact ⟨rfl, rfl⟩

theorem Delivery.get {cpu : Nat} {done q : List CpuMsg} (h : Delivery H N s cpu done q)
    {c : Nat} (hfree : s.hand c = none) :
    ∃ q', Delivery H N (s.cpuGetMsg c) cpu done q' := by
  by_cases hcpu : cpu = c
  · subst hcpu
    obtain ⟨_, hget⟩ | ⟨msg, rest, hq, hnext, hget⟩ := h.get_cases
    · rw [hget]
      exact ⟨q, h.congr rfl rfl rfl rfl⟩
    · rw [hget]
      refine ⟨rest, ?_, ?_, ?_, h.calls⟩
      · simpa using hnext
      · simpa using h.capacity
      · simp [h.pushed, hfree, hq]
  · obtain ⟨hmsgs, hhand, _⟩ := @cpuGetMsg_other _ s c cpu hcpu
    obtain ⟨hpushed, hcalls⟩ := @cpuGetMsg_logs _ s c
    exact ⟨q, h.congr hmsgs hhand (by rw [hpushed]) (by rw [hcalls])⟩

theorem Delivery.dispatch {cpu : Nat} {done q : List CpuMsg} (h : Delivery H N s cpu done q)
    {msg : CpuMsg} (hmsg : s.hand cpu = some msg) :
    Delivery H N (s.dispatch H cpu msg) cpu (done ++ [msg]) q := by
  refine ⟨h.holds, h.capacity, ?_, ?_⟩
  · simp [MsgState.dispatch, h.pushed, hmsg]
  · simp only [MsgState.dispatch, atCpu_same, h.calls, List.filterMap_append]
    cases hcall : H.call msg with
    | none => simp [hcall]
    | some call => simp [hcall]

theorem Delivery.dispatch_other {cpu : Nat} {done q : List CpuMsg}
    (h : Delivery H N s cpu done q) {c : Nat} (msg : CpuMsg) (hc : cpu ≠ c) :
    Delivery H N (s.dispatch H c msg) cpu done q :=
  h.congr rfl (atCpu_other _ _ hc) rfl (atCpu_other _ _ hc)

/-- One step of any CPU keeps the account of `cpu`. -/
theorem Delivery.step {cpu : Nat} {done q : List CpuMsg} (h : Delivery H N s cpu done q)
    {e : MsgEvent} (hstep : MsgStep H s e s') : ∃ done' q', Delivery H N s' cpu done' q' := by
  cases hstep with
  | send =>
      obtain ⟨q', h'⟩ := h.send _ _
      exact ⟨done, q', h'⟩
  | start => exact ⟨done, q, h.congr rfl rfl rfl rfl⟩
  | get _ hfree =>
      obtain ⟨q', h'⟩ := h.get hfree
      exact ⟨done, q', h'⟩
  | @dispatch c msg hmsg =>
      by_cases hc : cpu = c
      · subst hc
        exact ⟨_, q, h.dispatch hmsg⟩
      · exact ⟨done, q, h.dispatch_other msg hc⟩

theorem delivery_reachable (h : (msgSystem H N).Reachable s) (cpu : Nat) :
    ∃ done q, Delivery H N s cpu done q := by
  have hinit : ∀ s, (msgSystem H N).init s → ∃ done q, Delivery H N s cpu done q :=
    fun s hs => ⟨[], [], Delivery.initial hs cpu⟩
  have hstep : ∀ s e s', (∃ done q, Delivery H N s cpu done q) → True →
      (msgSystem H N).step s e s' → ∃ done q, Delivery H N s' cpu done q := by
    intro s e s' hs _ hstep
    obtain ⟨done, q, hs⟩ := hs
    exact hs.step hstep
  exact h.invariant hinit hstep

theorem Delivery.drained {cpu : Nat} {done q : List CpuMsg} (h : Delivery H N s cpu done q)
    (hempty : (s.msgs cpu).isEmpty = true) (hfree : s.hand cpu = none) :
    s.calls cpu = (s.pushed cpu).filterMap H.call := by
  have hq := h.holds.isEmpty_iff.mp hempty
  rw [h.calls, h.pushed, hq, hfree]
  simp

end

/-- **Messages are delivered exactly once and in order.**  On every history
the circular queue answers like a bounded queue of its capacity; in every
reachable state a push onto a CPU's queue fails exactly when that many
messages are queued, and then changes nothing; the messages pushed so far are
those dealt with, the one in the CPU's hand and those queued, in this order;
and once the CPU drained its queue, it made exactly one call for each pushed
message with a registered handler, in push order. -/
theorem cpu_messages_delivered (H : MsgHandlers F) (N : IpiMaxEvents) :
    (∀ (buf : Nat → CpuMsg) (ops : List (BoundedFifo.Op CpuMsg)),
      (CircularQueue.impl.run (CircularQueue.init buf N.val) ops).1 =
        (BoundedFifo.run N.val [] ops).1) ∧
    ∀ s, (msgSystem H N).Reachable s → ∀ cpu, ∃ done q,
      (s.msgs cpu).Holds q ∧ q.length ≤ N.val ∧
      (∀ msg, ((s.msgs cpu).push msg).1 = false ↔ q.length = N.val) ∧
      (∀ msg, ((s.msgs cpu).push msg).1 = false → s.cpuSendMsg cpu msg = s) ∧
      s.pushed cpu = done ++ (s.hand cpu).toList ++ q ∧
      s.calls cpu = done.filterMap H.call ∧
      ((s.msgs cpu).isEmpty = true → s.hand cpu = none →
        s.calls cpu = (s.pushed cpu).filterMap H.call) := by
  constructor
  · intro buf ops
    exact ((CircularQueue.simulates N.val).run
      ⟨CircularQueue.holds_init buf N.pos, rfl⟩ ops).1
  · intro s hreach cpu
    obtain ⟨done, q, h⟩ := delivery_reachable hreach cpu
    refine ⟨done, q, h.holds, ?_, ?_, fun msg hfail => cpuSendMsg_failed hfail, h.pushed,
      h.calls, h.drained⟩
    · rw [← h.capacity]
      exact h.holds.length_le
    · intro msg
      rw [h.holds.push_fails_iff msg, h.capacity]

/-- A queue of one message: the message is sent, taken and dealt with. -/
theorem cpu_messages_delivered_one :
    ∃ s : MsgState Unit, (msgSystem ⟨1, fun _ => some ()⟩ ⟨1, by decide, by decide⟩).Reachable s ∧
      s.pushed 0 = [⟨0, 5, 7⟩] ∧ s.calls 0 = (s.pushed 0).filterMap
        (MsgHandlers.call ⟨1, fun _ => some ()⟩) := by
  have hboot : (msgSystem ⟨1, fun _ => some ()⟩ ⟨1, by decide, by decide⟩).Reachable
      (bootMessages Unit ⟨1, by decide, by decide⟩) := .init (bootMessages_init _)
  have hsent := hboot.step trivial (@MsgStep.send _ _ _ 1 0 ⟨0, 5, 7⟩)
  have hstart := hsent.step trivial (@MsgStep.start _ _ _ 0 rfl)
  have hgot := hstart.step trivial (@MsgStep.get _ _ _ 0 rfl rfl)
  have hdone := hgot.step trivial (@MsgStep.dispatch _ _ _ 0 ⟨0, 5, 7⟩ rfl)
  obtain ⟨_, _, _, _, _, _, _, _, hdrained⟩ :=
    (cpu_messages_delivered ⟨1, fun _ => some ()⟩ ⟨1, by decide, by decide⟩).2 _ hdone 0
  exact ⟨_, hdone, rfl, hdrained rfl rfl⟩

end Bao

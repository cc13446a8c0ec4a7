import BaoHypervisor.CpuMessages
import BaoHypervisor.RoundBarrier

/-!
# Barriers that drain messages

`cpu_sync_init`, `cpu_sync_barrier` and `cpu_sync_and_clear_msgs` of `cpu.h`.
A CPU that enters a barrier raises the token's counter under the token's lock
and waits until it reaches the next multiple of the number of CPUs; in
`cpu_sync_and_clear_msgs` it handles messages while it waits, once more after
the wait, and then enters a second barrier.  The counter is never reset, so a
fast CPU may raise it for the next round while slow ones still compare it with
the last multiple.

All CPUs make the same sequence `prog` of calls, outside message handlers.
Sends, single steps of message handlers and single steps of the calls
interleave freely; the interrupt that starts a message handler may come at any
time.
-/

namespace Bao

open RoundBarrier

/-- `ALIGN`. -/
def alignUp (val unit : Nat) : Nat := (val + unit - 1) / unit * unit

/-- `struct cpu_synctoken`; the counter does not wrap. -/
structure SyncToken where
  n : Nat
  ready : Bool
  count : Nat

/-- `cpu_sync_init`. -/
def cpuSyncInit (n : Nat) : SyncToken := { n := n, ready := true, count := 0 }

/-- The locked part of both functions: the token and `next_count`. -/
def SyncToken.arrive (token : SyncToken) : SyncToken × Nat :=
  let count := token.count + 1
  ({ token with count := count }, alignUp count token.n)

/-- The two functions. -/
inductive SyncCall
  | barrier
  | andClearMsgs
deriving DecidableEq

/-- Where a CPU is: outside; waiting for the token in
`cpu_sync_and_clear_msgs`; at the test and in the body of its loop; after the
loop; waiting for the token in `cpu_sync_barrier`, called as such or at the
end of the other function; and in its loop. -/
inductive BarrierPc
  | idle
  | clearEnter
  | test (next : Nat)
  | body (next : Nat)
  | last
  | barrierEnter
  | barrierWait (next : Nat)

/-- The counter that a CPU in one of the loops waits for. -/
def BarrierPc.target : BarrierPc → Option Nat
  | .test next => some next
  | .body next => some next
  | .barrierWait next => some next
  | _ => none

/-- A message that was pushed, its sender, and how many calls the sender had
entered then. -/
structure SentMsg where
  msg : CpuMsg
  sender : Nat
  entered : Nat

/-- The token, the messages, where each CPU is and how many calls it entered.
For the statements: the rounds of the barrier each CPU entered, the messages
pushed onto its queue and how many of them it dealt with. -/
structure BarrierState (F : Type) where
  token : SyncToken
  msg : MsgState F
  pc : Nat → BarrierPc
  entered : Nat → Nat
  rounds : Nat → Nat
  sent : Nat → List SentMsg
  handled : Nat → Nat

variable {F : Type}

/-- `cpu` goes on at `pc`. -/
def BarrierState.goto (s : BarrierState F) (cpu : Nat) (pc : BarrierPc) : BarrierState F :=
  { s with pc := atCpu s.pc cpu pc }

/-- `cpu` raises the counter and goes on at the loop `wait`. -/
def BarrierState.arrive (s : BarrierState F) (cpu : Nat) (wait : Nat → BarrierPc) : BarrierState F :=
  { s with
    token := s.token.arrive.1
    rounds := atCpu s.rounds cpu (s.rounds cpu + 1)
    pc := atCpu s.pc cpu (wait s.token.arrive.2) }

/-- The start of a call. -/
def SyncCall.enter : SyncCall → BarrierPc
  | .barrier => .barrierEnter
  | .andClearMsgs => .clearEnter

/-- `cpu` sends a message. -/
def BarrierState.send (s : BarrierState F) (cpu trgtcpu : Nat) (msg : CpuMsg) : BarrierState F :=
  { s with
    msg := s.msg.cpuSendMsg trgtcpu msg
    sent :=
      if ((s.msg.msgs trgtcpu).push msg).1 = true then
        atCpu s.sent trgtcpu (s.sent trgtcpu ++ [⟨msg, cpu, s.entered cpu⟩])
      else s.sent }

/-- One step of one of the `n` CPUs.  A CPU goes on in a call when no message
handler runs on it. -/
inductive BarrierStep (H : MsgHandlers F) (prog : Nat → SyncCall) (n : Nat) :
    BarrierState F → Nat → BarrierState F → Prop
  | init {s : BarrierState F} {p : Nat} (hcold : s.token.ready = false) :
      BarrierStep H prog n s p { s with token := cpuSyncInit n }
  | send {s : BarrierState F} {p trgtcpu : Nat} {msg : CpuMsg} (hp : p < n) :
      BarrierStep H prog n s p (s.send p trgtcpu msg)
  | interrupt {s : BarrierState F} {p : Nat} (hfree : s.msg.handlingMsgs p = false) :
      BarrierStep H prog n s p { s with msg := s.msg.startHandling p }
  | get {s : BarrierState F} {p : Nat} (hloop : s.msg.handlingMsgs p = true)
      (hfree : s.msg.hand p = none) :
      BarrierStep H prog n s p { s with msg := s.msg.cpuGetMsg p }
  | dispatch {s : BarrierState F} {p : Nat} {msg : CpuMsg} (hmsg : s.msg.hand p = some msg) :
      BarrierStep H prog n s p
        { s with
          msg := s.msg.dispatch H p msg
          handled := atCpu s.handled p (s.handled p + 1) }
  | call {s : BarrierState F} {p : Nat} (hp : p < n) (hpc : s.pc p = .idle)
      (hfree : s.msg.handlingMsgs p = false) :
      BarrierStep H prog n s p
        ({ s with entered := atCpu s.entered p (s.entered p + 1) }.goto p
          (prog (s.entered p)).enter)
  | clearEnter {s : BarrierState F} {p : Nat} (hp : p < n) (hpc : s.pc p = .clearEnter)
      (hfree : s.msg.handlingMsgs p = false) (hready : s.token.ready = true) :
      BarrierStep H prog n s p (s.arrive p .test)
  | test {s : BarrierState F} {p next : Nat} (hp : p < n) (hpc : s.pc p = .test next)
      (hfree : s.msg.handlingMsgs p = false) :
      BarrierStep H prog n s p (s.goto p (if s.token.count < next then .body next else .last))
  | body {s : BarrierState F} {p next : Nat} (hp : p < n) (hpc : s.pc p = .body next)
      (hfree : s.msg.handlingMsgs p = false) :
      BarrierStep H prog n s p ({ s with msg := s.msg.startHandling p }.goto p (.test next))
  | last {s : BarrierState F} {p : Nat} (hp : p < n) (hpc : s.pc p = .last)
      (hfree : s.msg.handlingMsgs p = false) :
      BarrierStep H prog n s p ({ s with msg := s.msg.startHandling p }.goto p .barrierEnter)
  | barrierEnter {s : BarrierState F} {p : Nat} (hp : p < n) (hpc : s.pc p = .barrierEnter)
      (hfree : s.msg.handlingMsgs p = false) (hready : s.token.ready = true) :
      BarrierStep H prog n s p (s.arrive p .barrierWait)
  | leave {s : BarrierState F} {p next : Nat} (hp : p < n) (hpc : s.pc p = .barrierWait next)
      (hfree : s.msg.handlingMsgs p = false) (hcount : next ≤ s.token.count) :
      BarrierStep H prog n s p (s.goto p .idle)

/-- The token is not ready, no CPU is in a call and nothing was sent. -/
structure BarrierInit (N : IpiMaxEvents) (s : BarrierState F) : Prop where
  cold : s.token.ready = false
  count : s.token.count = 0
  msg : MsgInit N s.msg
  pc : ∀ p, s.pc p = .idle
  entered : ∀ p, s.entered p = 0
  rounds : ∀ p, s.rounds p = 0
  sent : ∀ p, s.sent p = []
  handled : ∀ p, s.handled p = 0

/-- `n` CPUs that make the calls `prog`. -/
def barrierSystem (H : MsgHandlers F) (N : IpiMaxEvents) (prog : Nat → SyncCall) (n : Nat) :
    StepSystem (BarrierState F) Nat where
  init := BarrierInit N
  step := BarrierStep H prog n

/-! ## The rounds of the barrier -/

/-- How many rounds of the barrier a call takes. -/
def SyncCall.rounds : SyncCall → Nat
  | .barrier => 1
  | .andClearMsgs => 2

/-- The rounds of the first `k` calls. -/
def roundsBefore (prog : Nat → SyncCall) : Nat → Nat
  | 0 => 0
  | k + 1 => roundsBefore prog k + (prog k).rounds

theorem roundsBefore_mono (prog : Nat → SyncCall) {j k : Nat} (h : j ≤ k) :
    roundsBefore prog j ≤ roundsBefore prog k := by
  induction h with
  | refl => exact Nat.le_refl _
  | step _ ih => exact Nat.le_trans ih (Nat.le_add_right _ _)

/-- Where a CPU is in its `k`-th call, and the `e` rounds it entered so far. -/
def Placed (prog : Nat → SyncCall) (k e : Nat) : BarrierPc → Prop
  | .idle => e = roundsBefore prog k
  | .clearEnter => ∃ j, k = j + 1 ∧ prog j = .andClearMsgs ∧ e = roundsBefore prog j
  | .test _ => ∃ j, k = j + 1 ∧ prog j = .andClearMsgs ∧ e = roundsBefore prog j + 1
  | .body _ => ∃ j, k = j + 1 ∧ prog j = .andClearMsgs ∧ e = roundsBefore prog j + 1
  | .last => ∃ j, k = j + 1 ∧ prog j = .andClearMsgs ∧ e = roundsBefore prog j + 1
  | .barrierEnter => ∃ j, k = j + 1 ∧ e + 1 = roundsBefore prog (j + 1)
  | .barrierWait _ => ∃ j, k = j + 1 ∧ e = roundsBefore prog (j + 1)

theorem Placed.rounds_le {prog : Nat → SyncCall} {k e : Nat} {pc : BarrierPc}
    (h : Placed prog k e pc) : e ≤ roundsBefore prog k := by
  cases pc with
  | idle => exact Nat.le_of_eq h
  | clearEnter =>
      obtain ⟨j, rfl, _, rfl⟩ := h
      exact roundsBefore_mono prog (Nat.le_succ j)
  | test next =>
      obtain ⟨j, rfl, hprog, rfl⟩ := h
      simp [roundsBefore, hprog, SyncCall.rounds]
  | body next =>
      obtain ⟨j, rfl, hprog, rfl⟩ := h
      simp [roundsBefore, hprog, SyncCall.rounds]
  | last =>
      obtain ⟨j, rfl, hprog, rfl⟩ := h
      simp [roundsBefore, hprog, SyncCall.rounds]
  | barrierEnter =>
      obtain ⟨j, rfl, heq⟩ := h
      omega
  | barrierWait next =>
      obtain ⟨j, rfl, heq⟩ := h
      exact Nat.le_of_eq heq

/-- A CPU is in one of the loops. -/
abbrev BarrierState.Waiting (s : BarrierState F) (p : Nat) : Prop := (s.pc p).target ≠ none

/-- The counter counts the rounds entered, and a CPU in a loop waits for the
end of the last round it entered. -/
structure BarrierControl (prog : Nat → SyncCall) (n : Nat) (s : BarrierState F) : Prop where
  inRounds : InRounds n s.rounds s.Waiting
  count : s.token.count = entries n s.rounds
  token_n : s.token.ready = true → s.token.n = n
  cold : s.token.ready = false → s.token.count = 0
  place : ∀ p, Placed prog (s.entered p) (s.rounds p) (s.pc p)
  target : ∀ p next, (s.pc p).target = some next → next = n * s.rounds p

section

variable {H : MsgHandlers F} {N : IpiMaxEvents} {prog : Nat → SyncCall} {n : Nat}
  {s s' : BarrierState F}

theorem BarrierControl.initial (hinit : BarrierInit N s) : BarrierControl prog n s := by
  constructor
  · exact InRounds.initial hinit.rounds
  · have hzero : s.rounds = fun _ => 0 := funext hinit.rounds
    rw [hinit.count, hzero, entries, Finset.sum_const_zero]
  · intro hready
    rw [hinit.cold] at hready
    cases hready
  · intro _
    exact hinit.count
  · intro p
    rw [hinit.pc, hinit.entered, hinit.rounds]
    rfl
  · intro p next htarget
    rw [hinit.pc] at htarget
    cases htarget

theorem BarrierControl.congr (h : BarrierControl prog n s) (htoken : s'.token = s.token)
    (hpc : s'.pc = s.pc) (hentered : s'.entered = s.entered) (hrounds : s'.rounds = s.rounds) :
    BarrierControl prog n s' := by
  have hwaiting : s'.Waiting = s.Waiting := by
    funext p
    rw [BarrierState.Waiting, hpc]
  constructor
  · rw [hrounds, hwaiting]
    exact h.inRounds
  · rw [htoken, hrounds]
    exact h.count
  · rw [htoken]
    exact h.token_n
  · rw [htoken]
    exact h.cold
  · intro p
    rw [hentered, hrounds, hpc]
    exact h.place p
  · intro p next
    rw [hpc, hrounds]
    exact h.target p next

/-- A CPU moves on without entering a round: it keeps what it waits for, or
leaves a round that is over. -/
theorem BarrierControl.move (h : BarrierControl prog n s) {p k : Nat} (pc : BarrierPc)
    (hplace : Placed prog k (s.rounds p) pc)
    (htarget : pc.target = (s.pc p).target ∨
      pc.target = none ∧ ∃ next, (s.pc p).target = some next ∧ next ≤ s.token.count)
    (htoken : s'.token = s.token) (hpc : s'.pc = atCpu s.pc p pc)
    (hentered : s'.entered = atCpu s.entered p k) (hrounds : s'.rounds = s.rounds) :
    BarrierControl prog n s' := by
  have hother : ∀ q, q ≠ p → s'.pc q = s.pc q := by
    intro q hq
    rw [hpc, atCpu_other _ _ hq]
  constructor
  · rw [hrounds]
    rcases htarget with hsame | ⟨_, next, hnext, hle⟩
    · have hwaiting : s'.Waiting = s.Waiting := by
        funext q
        by_cases hq : q = p
        · rw [BarrierState.Waiting, hpc, hq, atCpu_same, hsame]
        · rw [BarrierState.Waiting, hother q hq]
      rw [hwaiting]
      exact h.inRounds
    · have hround : n * s.rounds p ≤ entries n s.rounds := by
        rw [← h.target p next hnext, ← h.count]
        exact hle
      refine h.inRounds.leave hround fun q hq => ?_
      rw [BarrierState.Waiting, BarrierState.Waiting, hother q hq]
  · rw [htoken, hrounds]
    exact h.count
  · rw [htoken]
    exact h.token_n
  · rw [htoken]
    exact h.cold
  · intro q
    by_cases hq : q = p
    · subst hq
      rw [hentered, hrounds, hpc, atCpu_same, atCpu_same]
      exact hplace
    · rw [hentered, hrounds, hother q hq, atCpu_other _ _ hq]
      exact h.place q
  · intro q next hnext
    rw [hrounds]
    by_cases hq : q = p
    · subst hq
      rw [hpc, atCpu_same] at hnext
      rcases htarget with hsame | ⟨hnone, _⟩
      · exact h.target q next (hsame ▸ hnext)
      · rw [hnone] at hnext
        cases hnext
    · rw [hother q hq] at hnext
      exact h.target q next hnext

/-- **A CPU enters a round.**  The counter it waits for is the end of that
round. -/
theorem BarrierControl.arrive (h : BarrierControl prog n s) {p : Nat} {wait : Nat → BarrierPc}
    (hp : p < n) (hnot : ¬ s.Waiting p) (hready : s.token.ready = true)
    (hwait : ∀ next, (wait next).target = some next)
    (hplace : ∀ next, Placed prog (s.entered p) (s.rounds p + 1) (wait next)) :
    BarrierControl prog n (s.arrive p wait) := by
  have hnext : s.token.arrive.2 = n * (s.rounds p + 1) := by
    show alignUp (s.token.count + 1) s.token.n = _
    rw [alignUp, h.token_n hready, h.count]
    exact h.inRounds.target hp hnot
  have hrounds : (s.arrive p wait).rounds p = s.rounds p + 1 := atCpu_same _ _ _
  have hpc : (s.arrive p wait).pc p = wait s.token.arrive.2 := atCpu_same _ _ _
  have hother : ∀ q, q ≠ p → (s.arrive p wait).rounds q = s.rounds q ∧
      (s.arrive p wait).pc q = s.pc q :=
    fun q hq => ⟨atCpu_other _ _ hq, atCpu_other _ _ hq⟩
  constructor
  · refine h.inRounds.enter hp hnot hrounds ?_ fun q hq => ?_
    · rw [BarrierState.Waiting, hpc, hwait]
      simp
    · rw [BarrierState.Waiting, BarrierState.Waiting, (hother q hq).2]
      exact ⟨(hother q hq).1, Iff.rfl⟩
  · rw [entries_enter hp hrounds fun q hq => (hother q hq).1, ← h.count]
    rfl
  · exact h.token_n
  · intro hcold
    exact absurd (hready.symm.trans hcold) (by decide)
  · intro q
    by_cases hq : q = p
    · subst hq
      rw [hrounds, hpc]
      exact hplace _
    · rw [(hother q hq).1, (hother q hq).2]
      exact h.place q
  · intro q next htarget
    by_cases hq : q = p
    · subst hq
      rw [hpc, hwait, Option.some.injEq] at htarget
      rw [← htarget, hrounds, hnext]
    · rw [(hother q hq).2] at htarget
      rw [(hother q hq).1]
      exact h.target q next htarget

theorem BarrierControl.step (h : BarrierControl prog n s) {p : Nat} (hstep : BarrierStep H prog n s p s') :
    BarrierControl prog n s' := by
  have hplace := h.place p
  cases hstep with
  | init hcold =>
      refine ⟨h.inRounds, ?_, fun _ => rfl, fun _ => rfl, h.place, h.target⟩
      rw [← h.count, h.cold hcold]
      rfl
  | send => exact h.congr rfl rfl rfl rfl
  | interrupt => exact h.congr rfl rfl rfl rfl
  | get => exact h.congr rfl rfl rfl rfl
  | dispatch => exact h.congr rfl rfl rfl rfl
  | call _ hpc =>
      rw [hpc] at hplace
      have hdone : s.rounds p = roundsBefore prog (s.entered p) := hplace
      refine h.move (k := s.entered p + 1) (prog (s.entered p)).enter ?_ ?_ rfl rfl rfl rfl
      · cases hcall : prog (s.entered p) with
        | barrier =>
            refine ⟨s.entered p, rfl, ?_⟩
            rw [hdone, roundsBefore, hcall]
            rfl
        | andClearMsgs => exact ⟨s.entered p, rfl, hcall, hdone⟩
      · left
        rw [hpc]
        cases prog (s.entered p) with
        | barrier => rfl
        | andClearMsgs => rfl
  | clearEnter hp hpc _ hready =>
      rw [hpc] at hplace
      obtain ⟨j, hk, hprog, hrounds⟩ := hplace
      have hnot : ¬ s.Waiting p := by simp [BarrierState.Waiting, hpc, BarrierPc.target]
      exact h.arrive hp hnot hready (fun _ => rfl) fun _ => ⟨j, hk, hprog, by rw [hrounds]⟩
  | @test next _ hpc =>
      rw [hpc] at hplace
      by_cases hless : s.token.count < next
      · rw [if_pos hless]
        refine h.move (.body next) hplace ?_ rfl rfl (atCpu_self _ _).symm rfl
        left
        rw [hpc]
        rfl
      · rw [if_neg hless]
        refine h.move .last hplace ?_ rfl rfl (atCpu_self _ _).symm rfl
        right
        refine ⟨rfl, next, ?_, Nat.le_of_not_lt hless⟩
        rw [hpc]
        rfl
  | @body next _ hpc =>
      rw [hpc] at hplace
      refine h.move (.test next) hplace ?_ rfl rfl (atCpu_self _ _).symm rfl
      left
      rw [hpc]
      rfl
  | last _ hpc =>
      rw [hpc] at hplace
      obtain ⟨j, hk, hprog, hrounds⟩ := hplace
      refine h.move .barrierEnter ⟨j, hk, ?_⟩ ?_ rfl rfl (atCpu_self _ _).symm rfl
      · rw [hrounds, roundsBefore, hprog]
        rfl
      · left
        rw [hpc]
        rfl
  | barrierEnter hp hpc _ hready =>
      rw [hpc] at hplace
      obtain ⟨j, hk, hrounds⟩ := hplace
      have hnot : ¬ s.Waiting p := by simp [BarrierState.Waiting, hpc, BarrierPc.target]
      exact h.arrive hp hnot hready (fun _ => rfl) fun _ => ⟨j, hk, hrounds⟩
  | @leave next _ hpc _ hcount =>
      rw [hpc] at hplace
      obtain ⟨j, hk, hrounds⟩ := hplace
      have hidle : Placed prog (s.entered p) (s.rounds p) .idle := by
        show s.rounds p = roundsBefore prog (s.entered p)
        rw [hk, hrounds]
      refine h.move .idle hidle ?_ rfl rfl (atCpu_self _ _).symm rfl
      right
      refine ⟨rfl, next, ?_, hcount⟩
      rw [hpc]
      rfl

/-- A CPU after the loop of `cpu_sync_and_clear_msgs` knows that every CPU
entered the call. -/
theorem BarrierControl.all_entered (h : BarrierControl prog n s) {p j : Nat} (hp : p < n)
    (hj : s.entered p = j + 1) (hprog : prog j = .andClearMsgs)
    (hafter : s.pc p = .barrierEnter ∨ ∃ next, s.pc p = .barrierWait next) :
    ∀ q, q < n → s.entered p ≤ s.entered q := by
  intro q hq
  have hnext : roundsBefore prog (j + 1) = roundsBefore prog j + 2 := by
    rw [roundsBefore, hprog]
    rfl
  have hplace := h.place p
  have hmore : roundsBefore prog j < s.rounds q := by
    rcases hafter with hpc | ⟨next, hpc⟩
    · rw [hpc] at hplace
      obtain ⟨i, hi, hrounds⟩ := hplace
      obtain rfl : i = j := by omega
      have hpassed := h.inRounds.passed p q hp hq (by simp [BarrierState.Waiting, hpc, BarrierPc.target])
      omega
    · rw [hpc] at hplace
      obtain ⟨i, hi, hrounds⟩ := hplace
      obtain rfl : i = j := by omega
      have hlevel := h.inRounds.level p q hp hq
      omega
  by_cases hle : s.entered p ≤ s.entered q
  · exact hle
  · have hmono := roundsBefore_mono prog (show s.entered q ≤ j by omega)
    have hplaced := (h.place q).rounds_le
    omega

/-! ## The messages -/

/-- The messages pushed onto the queue of `p`: the first `handled p` were
dealt with. -/
structure Account (H : MsgHandlers F) (N : IpiMaxEvents) (s : BarrierState F) (p : Nat) : Prop where
  sent : s.msg.pushed p = (s.sent p).map SentMsg.msg
  le : s.handled p ≤ (s.sent p).length
  delivery : ∃ q, Delivery H N s.msg p (((s.sent p).take (s.handled p)).map SentMsg.msg) q

theorem Account.initial (hinit : BarrierInit N s) (p : Nat) : Account H N s p := by
  constructor
  · rw [hinit.msg.pushed, hinit.sent]
    rfl
  · rw [hinit.handled]
    exact Nat.zero_le _
  · rw [hinit.sent, List.take_nil]
    exact ⟨[], Delivery.initial hinit.msg p⟩

theorem Account.congr {p : Nat} (h : Account H N s p) (hmsgs : s'.msg.msgs p = s.msg.msgs p)
    (hhand : s'.msg.hand p = s.msg.hand p) (hpushed : s'.msg.pushed p = s.msg.pushed p)
    (hcalls : s'.msg.calls p = s.msg.calls p) (hsent : s'.sent p = s.sent p)
    (hhandled : s'.handled p = s.handled p) : Account H N s' p := by
  obtain ⟨q, hq⟩ := h.delivery
  refine ⟨by rw [hpushed, hsent, h.sent], by rw [hhandled, hsent]; exact h.le, q, ?_⟩
  rw [hsent, hhandled]
  exact hq.congr hmsgs hhand hpushed hcalls

theorem Account.rest {p : Nat} (h : Account H N s p) {q : List CpuMsg}
    (hq : Delivery H N s.msg p (((s.sent p).take (s.handled p)).map SentMsg.msg) q) :
    (s.sent p).length = s.handled p + (s.msg.hand p).toList.length + q.length := by
  have hlen := congrArg List.length hq.pushed
  rw [h.sent] at hlen
  simp only [List.length_map, List.length_append, List.length_take,
    Nat.min_eq_left h.le] at hlen
  exact hlen

theorem Account.send {p : Nat} (h : Account H N s p) (c trgtcpu : Nat) (msg : CpuMsg) :
    Account H N (s.send c trgtcpu msg) p := by
  obtain ⟨q, hq⟩ := h.delivery
  by_cases hok : ((s.msg.msgs trgtcpu).push msg).1 = true
  · by_cases hp : p = trgtcpu
    · subst hp
      have hsent : (s.send c p msg).sent p = s.sent p ++ [⟨msg, c, s.entered c⟩] := by
        simp [BarrierState.send, hok]
      have htake : ((s.send c p msg).sent p).take ((s.send c p msg).handled p) =
          (s.sent p).take (s.handled p) := by
        rw [hsent]
        exact List.take_append_of_le_length h.le
      obtain ⟨q', hq'⟩ := hq.send p msg
      refine ⟨?_, ?_, q', ?_⟩
      · rw [hsent, List.map_append, ← h.sent]
        simp [BarrierState.send, MsgState.cpuSendMsg, hok]
      · rw [hsent, List.length_append]
        exact Nat.le_trans h.le (Nat.le_add_right _ _)
      · rw [htake]
        exact hq'
    · apply h.congr
      all_goals simp [BarrierState.send, MsgState.cpuSendMsg, hok, atCpu_other _ _ hp]
  · have hfail : ((s.msg.msgs trgtcpu).push msg).1 = false := by simpa using hok
    apply h.congr
    all_goals simp [BarrierState.send, cpuSendMsg_failed hfail, hfail]

theorem Account.dispatch {p : Nat} (h : Account H N s p) {c : Nat} {msg : CpuMsg}
    (hmsg : s.msg.hand c = some msg) :
    Account H N
      { s with
        msg := s.msg.dispatch H c msg
        handled := atCpu s.handled c (s.handled c + 1) } p := by
  obtain ⟨q, hq⟩ := h.delivery
  by_cases hp : p = c
  · subst hp
    have hlen := h.rest hq
    rw [hmsg, Option.toList_some, List.length_singleton] at hlen
    have hnext : ((s.sent p).take (s.handled p + 1)).map SentMsg.msg =
        ((s.sent p).take (s.handled p)).map SentMsg.msg ++ [msg] := by
      have hpushed := hq.pushed
      rw [h.sent, hmsg, Option.toList_some] at hpushed
      have htake := congrArg (List.take (s.handled p + 1)) hpushed
      have hfirst : (((s.sent p).take (s.handled p)).map SentMsg.msg ++ [msg]).length =
          s.handled p + 1 := by
        simp only [List.length_append, List.length_map, List.length_take, List.length_singleton,
          Nat.min_eq_left h.le]
      rw [← List.map_take, List.take_left' hfirst] at htake
      exact htake
    refine ⟨h.sent, ?_, q, ?_⟩
    · show atCpu s.handled p (s.handled p + 1) p ≤ (s.sent p).length
      rw [atCpu_same]
      omega
    · show Delivery H N _ p (List.map SentMsg.msg
        ((s.sent p).take (atCpu s.handled p (s.handled p + 1) p))) q
      rw [atCpu_same, hnext]
      exact hq.dispatch hmsg
  · exact h.congr rfl (atCpu_other _ _ hp) rfl (atCpu_other _ _ hp) rfl (atCpu_other _ _ hp)

/-- One step of any CPU keeps the account of `p`. -/
theorem Account.step {p c : Nat} (h : Account H N s p) (hstep : BarrierStep H prog n s c s') :
    Account H N s' p := by
  cases hstep with
  | init => exact h.congr rfl rfl rfl rfl rfl rfl
  | send => exact h.send _ _ _
  | interrupt => exact h.congr rfl rfl rfl rfl rfl rfl
  | get _ hfree =>
      obtain ⟨q, hq⟩ := h.delivery
      obtain ⟨q', hq'⟩ := hq.get hfree
      obtain ⟨hpushed, _⟩ := @cpuGetMsg_logs _ s.msg c
      exact ⟨(congrFun hpushed p).trans h.sent, h.le, q', hq'⟩
  | dispatch hmsg => exact h.dispatch hmsg
  | call => exact h.congr rfl rfl rfl rfl rfl rfl
  | clearEnter => exact h.congr rfl rfl rfl rfl rfl rfl
  | test => exact h.congr rfl rfl rfl rfl rfl rfl
  | body => exact h.congr rfl rfl rfl rfl rfl rfl
  | last => exact h.congr rfl rfl rfl rfl rfl rfl
  | barrierEnter => exact h.congr rfl rfl rfl rfl rfl rfl
  | leave => exact h.congr rfl rfl rfl rfl rfl rfl

/-! ## What is handled when a call returns -/

/-- Once `p` drained its queue in its call of `cpu_sync_and_clear_msgs`, every
message whose sender had not entered that call yet was dealt with. -/
def Drained (prog : Nat → SyncCall) (s : BarrierState F) (p : Nat) : Prop :=
  ∀ j, s.entered p = j + 1 → prog j = .andClearMsgs →
    ((s.pc p = .barrierEnter ∧ s.msg.handlingMsgs p = false) ∨
      ∃ next, s.pc p = .barrierWait next) →
    ∀ i m, (s.sent p)[i]? = some m → m.entered < s.entered p → i < s.handled p

/-- `p` stays where it is, and no message to it is newly open. -/
theorem Drained.congr {p : Nat} (h : Drained prog s p) (hpc : s'.pc p = s.pc p)
    (hentered : s'.entered p = s.entered p)
    (hhandling : s'.msg.handlingMsgs p = false → s.msg.handlingMsgs p = false)
    (hsent : s'.sent p = s.sent p) (hhandled : s.handled p ≤ s'.handled p) :
    Drained prog s' p := by
  intro j hj hprog hafter i m hi hm
  rw [hentered] at hj hm
  rw [hsent] at hi
  rw [hpc] at hafter
  have hafter' : (s.pc p = .barrierEnter ∧ s.msg.handlingMsgs p = false) ∨
      ∃ next, s.pc p = .barrierWait next := by
    rcases hafter with ⟨henter, hfree⟩ | hwait
    · exact .inl ⟨henter, hhandling hfree⟩
    · exact .inr hwait
  exact Nat.lt_of_lt_of_le (h j hj hprog hafter' i m hi hm) hhandled

theorem Drained.before {p : Nat}
    (h : ¬ ((s.pc p = .barrierEnter ∧ s.msg.handlingMsgs p = false) ∨
      ∃ next, s.pc p = .barrierWait next)) : Drained prog s p :=
  fun _ _ _ hafter => (h hafter).elim

theorem Drained.send {p c trgtcpu : Nat} {msg : CpuMsg} (h : Drained prog s p)
    (hcontrol : BarrierControl prog n s) (hp : p < n) (hc : c < n) :
    Drained prog (s.send c trgtcpu msg) p := by
  have hhandling : (s.send c trgtcpu msg).msg.handlingMsgs = s.msg.handlingMsgs := by
    simp only [BarrierState.send, MsgState.cpuSendMsg]
    split <;> rfl
  by_cases hto : p = trgtcpu ∧ ((s.msg.msgs trgtcpu).push msg).1 = true
  · obtain ⟨rfl, hok⟩ := hto
    intro j hj hprog hafter i m hi hm
    rw [hhandling] at hafter
    have hlate : s.entered p ≤ s.entered c := by
      refine hcontrol.all_entered hp hj hprog ?_ c hc
      rcases hafter with ⟨henter, _⟩ | hwait
      · exact .inl henter
      · exact .inr hwait
    have hsent : (s.send c p msg).sent p = s.sent p ++ [⟨msg, c, s.entered c⟩] := by
      simp [BarrierState.send, hok]
    rw [hsent] at hi
    by_cases hold : i < (s.sent p).length
    · rw [List.getElem?_append_left hold] at hi
      exact h j hj hprog hafter i m hi hm
    · rw [List.getElem?_append_right (by omega)] at hi
      have hmem := List.mem_of_getElem? hi
      rw [List.mem_singleton] at hmem
      rw [hmem] at hm
      have hless : s.entered c < s.entered p := hm
      omega
  · refine h.congr rfl rfl (by rw [hhandling]; exact id) ?_ (Nat.le_refl _)
    simp only [BarrierState.send]
    split
    · rename_i hok
      exact atCpu_other _ _ fun heq => hto ⟨heq, hok⟩
    · rfl

theorem Drained.get {p c : Nat} (h : Drained prog s p) (haccount : Account H N s p)
    (hloop : s.msg.handlingMsgs c = true) (hfree : s.msg.hand c = none) :
    Drained prog { s with msg := s.msg.cpuGetMsg c } p := by
  by_cases hp : p = c
  · subst hp
    obtain ⟨q, hq⟩ := haccount.delivery
    obtain ⟨hnil, _⟩ | ⟨msg, rest, _, _, hget⟩ := hq.get_cases
    · intro j _ _ _ i m hi _
      have hlen := haccount.rest hq
      rw [hfree, hnil] at hlen
      obtain ⟨hlt, _⟩ := List.getElem?_eq_some_iff.mp hi
      simp only [Option.toList_none, List.length_nil, Nat.add_zero] at hlen
      exact Nat.lt_of_lt_of_eq hlt hlen
    · refine h.congr rfl rfl (fun hnot => ?_) rfl (Nat.le_refl _)
      rw [hget] at hnot
      exact hnot
  · refine h.congr rfl rfl (fun hnot => ?_) rfl (Nat.le_refl _)
    obtain ⟨_, _, hsame⟩ := @cpuGetMsg_other _ s.msg c p hp
    exact hsame ▸ hnot

theorem Drained.other {p c : Nat} (h : Drained prog s p) (hp : p ≠ c) {pc : BarrierPc}
    (hpc : s'.pc = atCpu s.pc c pc) (hentered : s'.entered p = s.entered p)
    (hhandling : s'.msg.handlingMsgs p = s.msg.handlingMsgs p)
    (hsent : s'.sent = s.sent) (hhandled : s'.handled = s.handled) : Drained prog s' p := by
  refine h.congr ?_ hentered (fun hfree => hhandling ▸ hfree) (by rw [hsent])
    (by rw [hhandled])
  rw [hpc, atCpu_other _ _ hp]

theorem Drained.step {p c : Nat} (h : Drained prog s p) (hcontrol : BarrierControl prog n s)
    (haccount : Account H N s p) (hp : p < n) (hstep : BarrierStep H prog n s c s') :
    Drained prog s' p := by
  cases hstep with
  | init => exact h
  | send hc => exact h.send hcontrol hp hc
  | interrupt =>
      refine h.congr rfl rfl (fun hfree => ?_) rfl (Nat.le_refl _)
      by_cases hpc : p = c
      · subst hpc
        simp [MsgState.startHandling] at hfree
      · simpa [MsgState.startHandling, atCpu_other _ _ hpc] using hfree
  | get hloop hfree => exact h.get haccount hloop hfree
  | dispatch =>
      refine h.congr rfl rfl id rfl ?_
      by_cases hpc : p = c
      · subst hpc
        simp
      · simp [atCpu_other _ _ hpc]
  | call =>
      by_cases hpc : p = c
      · subst hpc
        intro j hj hprog hafter
        have hthis : s.entered p = j := by
          have : (atCpu s.entered p (s.entered p + 1)) p = j + 1 := hj
          rw [atCpu_same] at this
          omega
        simp [BarrierState.goto, hthis, hprog, SyncCall.enter] at hafter
      · exact h.other hpc rfl (atCpu_other _ _ hpc) rfl rfl rfl
  | clearEnter =>
      by_cases hpc : p = c
      · subst hpc
        exact .before (by simp [BarrierState.arrive])
      · exact h.other hpc rfl rfl rfl rfl rfl
  | test =>
      by_cases hpc : p = c
      · subst hpc
        refine .before ?_
        simp only [BarrierState.goto, atCpu_same]
        split <;> simp
      · exact h.other hpc rfl rfl rfl rfl rfl
  | body =>
      by_cases hpc : p = c
      · subst hpc
        exact .before (by simp [BarrierState.goto])
      · exact h.other hpc rfl rfl (atCpu_other _ _ hpc) rfl rfl
  | last =>
      by_cases hpc : p = c
      · subst hpc
        exact .before (by simp [BarrierState.goto, MsgState.startHandling])
      · exact h.other hpc rfl rfl (atCpu_other _ _ hpc) rfl rfl
  | barrierEnter _ hat hfree =>
      by_cases hpc : p = c
      · subst hpc
        intro j hj hprog _
        exact h j hj hprog (.inl ⟨hat, hfree⟩)
      · exact h.other hpc rfl rfl rfl rfl rfl
  | leave =>
      by_cases hpc : p = c
      · subst hpc
        exact .before (by simp [BarrierState.goto])
      · exact h.other hpc rfl rfl rfl rfl rfl

/-- Everything that holds in every reachable state. -/
structure BarrierInv (H : MsgHandlers F) (N : IpiMaxEvents) (prog : Nat → SyncCall) (n : Nat)
    (s : BarrierState F) : Prop where
  control : BarrierControl prog n s
  account : ∀ p, Account H N s p
  drained : ∀ p, p < n → Drained prog s p

theorem barrierInv_reachable (h : (barrierSystem H N prog n).Reachable s) : BarrierInv H N prog n s := by
  have hinit : ∀ s, (barrierSystem H N prog n).init s → BarrierInv H N prog n s := by
    intro s hs
    refine ⟨BarrierControl.initial hs, Account.initial hs, fun p _ => .before ?_⟩
    simp [hs.pc p]
  have hstep : ∀ s c s', BarrierInv H N prog n s → True →
      (barrierSystem H N prog n).step s c s' → BarrierInv H N prog n s' := by
    intro s c s' hs _ hstep
    exact ⟨hs.control.step hstep, fun p => (hs.account p).step hstep,
      fun p hp => (hs.drained p hp).step hs.control (hs.account p) hp hstep⟩
  exact h.invariant hinit hstep

end

/-- The CPUs before the token is set up. -/
def bootBarrier (F : Type) (N : IpiMaxEvents) : BarrierState F where
  token := ⟨0, false, 0⟩
  msg := bootMessages F N
  pc := fun _ => .idle
  entered := fun _ => 0
  rounds := fun _ => 0
  sent := fun _ => []
  handled := fun _ => 0

theorem bootBarrier_init (N : IpiMaxEvents) : BarrierInit N (bootBarrier F N) :=
  ⟨rfl, rfl, bootMessages_init N, fun _ => rfl, fun _ => rfl, fun _ => rfl, fun _ => rfl,
    fun _ => rfl⟩

end Bao

import BaoHypervisor.RemioTargets

/-!
# Completions of Remote I/O

A write or read hypercall that succeeds sends the key of its device and the id
of its request to the CPU that made the access, each in eight bits of a CPU
message; `remio_cpu_post_work` looks both up again.  An observer follows which
access each slot was taken for and how it was answered.  The id always
survives the message; the key does if and only if it is below 256, and
otherwise the completion of the request ends in `ERROR`.
-/

namespace Bao

variable {p : RemioPlatform} {s s' : RemioState}

/-- A successful write or read: the device it was made on and its arguments. -/
structure RemioAnswer where
  device : Nat
  args : RemioArgs
deriving DecidableEq, Repr

/-- The event of the message that completes a request. -/
def RemioAnswer.event (a : RemioAnswer) : RemioMsgEvent :=
  if a.args.op = hypWrite then .write else .read

/-- The message that completes a request of the device with the key. -/
def RemioAnswer.msg (a : RemioAnswer) (bindKey : Nat) : RemioMsg :=
  remioMsg a.event bindKey a.args.requestId 0

/-- What is known of each request slot: the CPU and the access it was taken
for last, and the answer to that access. -/
structure RemioTale where
  access : Nat → Option (Nat × RemioAccess)
  answer : Nat → Option RemioAnswer

namespace RemioTale

/-- Nothing has happened. -/
def empty : RemioTale := ⟨fun _ => none, fun _ => none⟩

/-- Slot `id` is taken for an access of `cpu`. -/
def ask (t : RemioTale) (id cpu : Nat) (acc : RemioAccess) : RemioTale where
  access := fun r => if r = id then some (cpu, acc) else t.access r
  answer := fun r => if r = id then none else t.answer r

/-- The request that an answer names is answered. -/
def reply (t : RemioTale) (a : RemioAnswer) : RemioTale :=
  { t with answer := fun r => if r = a.args.requestId then some a else t.answer r }

@[simp] theorem ask_access_self (t : RemioTale) (id cpu : Nat) (acc : RemioAccess) :
    (t.ask id cpu acc).access id = some (cpu, acc) := if_pos rfl

theorem ask_access_other {t : RemioTale} {id cpu r : Nat} {acc : RemioAccess} (h : r ≠ id) :
    (t.ask id cpu acc).access r = t.access r := if_neg h

theorem ask_answer_other {t : RemioTale} {id cpu r : Nat} {acc : RemioAccess} (h : r ≠ id) :
    (t.ask id cpu acc).answer r = t.answer r := if_neg h

@[simp] theorem reply_answer_self (t : RemioTale) (a : RemioAnswer) :
    (t.reply a).answer a.args.requestId = some a := if_pos rfl

theorem reply_answer_other {t : RemioTale} {a : RemioAnswer} {r : Nat} (h : r ≠ a.args.requestId) :
    (t.reply a).answer r = t.answer r := if_neg h

end RemioTale

/-- The answer that a step gives: a write or read hypercall that succeeds. -/
def RemioEvent.answer (p : RemioPlatform) (s : RemioState) : RemioEvent → Option RemioAnswer
  | .hypercall cpu args ret _ =>
      if (args.op = hypWrite ∨ args.op = hypRead) ∧ ret = hcSuccess then
        match remioHypercallDevice p s cpu args with
        | .error _ => none
        | .ok d => some ⟨d, args⟩
      else none
  | _ => none

/-- What the observer learns from a step. -/
def remioTell (p : RemioPlatform) (s : RemioState) (e : RemioEvent) (t : RemioTale) : RemioTale :=
  match e with
  | .mmio cpu acc =>
      match s.requests.objpoolAllocWithId with
      | none => t
      | some (id, _) => t.ask id cpu acc
  | e =>
      match e.answer p s with
      | none => t
      | some a => t.reply a

/-- The Remote I/O system with the observer. -/
def remioTold (p : RemioPlatform) : StepSystem (RemioState × RemioTale) RemioEvent :=
  (remioStarted p).watch .empty (remioTell p)

/-! ## What steps leave alone -/

theorem SameSides.find (h : SameSides s s') (key : Nat) :
    remioFindDevByBindKey s'.devices key = remioFindDevByBindKey s.devices key := by
  apply remioFindDevByBindKey_keys
  have hkey : ∀ devices : List RemioDevice, devices.map RemioDevice.bindKey =
      (devices.map RemioDevice.unlisted).map RemioDevice.bindKey := by
    intro devices
    rw [List.map_map]
    rfl
  rw [hkey, h, ← hkey]

theorem remioAssignVmCpus_find (s : RemioState) (cpu key : Nat) :
    remioFindDevByBindKey (remioAssignVmCpus p s cpu).devices key =
      remioFindDevByBindKey s.devices key := by
  apply remioFindDevByBindKey_keys
  rw [remioAssignVmCpus, List.map_map]
  apply List.map_congr_left
  intro dev _
  simp only [Function.comp, assignDevice]
  split
  · rfl
  · split <;> rfl

theorem remioHypercallDevice_find {cpu d : Nat} {args : RemioArgs}
    (h : remioHypercallDevice p s cpu args = .ok d) :
    remioFindDevByBindKey s.devices (remioHypercallKey p cpu args) = some d := by
  rw [remioHypercallDevice] at h
  rw [remioHypercallKey]
  cases hentry : (p.remioDevs (p.vmOf cpu))[args.dmId]? with
  | none =>
      simp only [hentry] at h
      cases h
  | some entry =>
      simp only [hentry] at h ⊢
      cases hfind : remioFindVmDevByBindKey p s.devices (p.vmOf cpu) entry.bindKey with
      | none =>
          rw [hfind] at h
          cases h
      | some d' =>
          rw [hfind] at h
          obtain rfl := Except.ok.inj h
          exact (remioFindVmDevByBindKey_some hfind).1

/-- Requests keep all but their state, and no completion is sent. -/
structure Unanswered (s s' : RemioState) : Prop where
  request : ∀ r, ∃ state, s'.requests.objs r = { s.requests.objs r with state := state }
  completes : ∀ cpu msg r, msg ∈ s'.msgs cpu → msg.Completes r → msg ∈ s.msgs cpu

theorem Unanswered.of_same (hrequests : s'.requests = s.requests) (hmsgs : s'.msgs = s.msgs) :
    Unanswered s s' := by
  constructor
  · intro r
    rw [hrequests]
    exact ⟨_, rfl⟩
  · intro cpu msg r hmem _
    rwa [hmsgs] at hmem

theorem remioCpuSendMsg_requests (s : RemioState) (queued : Bool) (cpu : Nat) (msg : RemioMsg) :
    (remioCpuSendMsg s queued cpu msg).requests = s.requests := by
  cases queued <;> rfl

theorem mem_of_remioCpuSendMsg {queued : Bool} {cpu c : Nat} {m msg : RemioMsg}
    (hmem : m ∈ (remioCpuSendMsg s queued cpu msg).msgs c) : m ∈ s.msgs c ∨ m = msg := by
  cases queued with
  | false => exact .inl hmem
  | true =>
      simp only [remioCpuSendMsg, if_true, RemioState.pushMsg] at hmem
      split at hmem
      · rcases List.mem_append.mp hmem with hold | hnew
        · exact .inl hold
        · exact .inr (List.mem_singleton.mp hnew)
      · exact .inl hmem

theorem Unanswered.notify (s : RemioState) (queued : Bool) (cpu interrupt : Nat) :
    Unanswered s (remioCpuSendMsg s queued cpu (remioMsg .notify 0 0 interrupt)) := by
  constructor
  · intro r
    rw [remioCpuSendMsg_requests]
    exact ⟨_, rfl⟩
  · intro c msg r hmem hcomp
    rcases mem_of_remioCpuSendMsg hmem with hold | hnew
    · exact hold
    · exact (hcomp.1 (by rw [hnew]; rfl)).elim

/-- **What a hypercall answers.**  Either nothing, or a request of its device
that is being served: it then stores the value and sends the completion to the
CPU that made the access. -/
theorem remioHypercall_answers {queued : Bool} {cpu : Nat} {args : RemioArgs} {ret : Int}
    {regs : List Nat} (hl : RemioListed p s) (hword : args.requestId < p.machine.wordCount)
    (h : remioHypercall p s queued cpu args = (ret, regs, s')) :
    ((RemioEvent.hypercall cpu args ret regs).answer p s = none ∧ Unanswered s s') ∨
    ∃ d, (RemioEvent.hypercall cpu args ret regs).answer p s = some ⟨d, args⟩ ∧
      (args.op = hypWrite ∨ args.op = hypRead) ∧
      remioFindDevByBindKey s.devices (s.requests.objs args.requestId).bindKey = some d ∧
      args.requestId < s.requests.num ∧ (s.requests.objs args.requestId).state = .processing ∧
      s' = remioCpuSendMsg (s.setRequest args.requestId
        (answered (s.requests.objs args.requestId) args.value)) queued
        (s.requests.objs args.requestId).cpuId
        (RemioAnswer.msg ⟨d, args⟩ (s.requests.objs args.requestId).bindKey) := by
  simp only [RemioEvent.answer]
  have hfailed : -hcFailure ≠ hcSuccess := by decide
  rw [remioHypercall] at h
  cases hd : remioHypercallDevice p s cpu args with
  | error code =>
      simp only [hd] at h ⊢
      cases h
      exact .inl ⟨by split <;> rfl, .of_same rfl rfl⟩
  | ok d =>
      simp only [hd] at h ⊢
      by_cases hrw : args.op = hypWrite ∨ args.op = hypRead
      · rw [if_pos hrw] at h
        simp only [remioHypercallRw] at h
        cases hhandle : remioHandleRw s args.value (p.machine.ssize args.requestId) d with
        | mk ok s1 =>
            rw [hhandle] at h
            rcases remioHandleRw_cases hl hword hhandle with ⟨rfl, rfl, _⟩ |
              ⟨rfl, _, dev, r, rest, hdev, _, rfl⟩ |
              ⟨rfl, dev, hdev, hlt, hkey, hstate, rfl, hagain⟩
            · cases h
              exact .inl ⟨if_neg fun hok => hfailed hok.2, .of_same rfl rfl⟩
            · cases h
              exact .inl ⟨if_neg fun hok => hfailed hok.2, .of_same rfl rfl⟩
            · simp only [hagain] at h
              cases h
              obtain ⟨dev', hdev', hkey'⟩ := remioHypercallDevice_key hd
              obtain rfl := Option.some.inj (hdev.symm.trans hdev')
              have hfind := remioHypercallDevice_find hd
              have hsame : remioHypercallKey p cpu args =
                  (s.requests.objs args.requestId).bindKey := hkey'.symm.trans hkey.symm
              rw [hsame] at hfind
              refine .inr ⟨d, if_pos ⟨hrw, rfl⟩, hrw, hfind, hlt, hstate, ?_⟩
              simp only [RemioState.setRequest, ObjPool.setObj_same, answered, RemioAnswer.msg,
                RemioAnswer.event, hsame]
      · rw [if_neg hrw] at h
        refine .inl ⟨if_neg fun hok => hrw hok.1, ?_⟩
        by_cases hask : args.op = hypAsk
        · rw [if_pos hask] at h
          rcases remioHandleAsk_cases hl h with ⟨_, _, rfl, _⟩ |
            ⟨_, _, _, _, dev, r, rest, hdev, _, rfl⟩
          · exact .of_same rfl rfl
          · refine ⟨fun q => ?_, fun _ _ _ hmem _ => hmem⟩
            by_cases hq : q = r
            · exact ⟨.processing, by rw [hq]; exact ObjPool.setObj_same _ _ _⟩
            · exact ⟨_, ObjPool.setObj_other hq⟩
        · rw [if_neg hask] at h
          by_cases hnotify : args.op = hypNotify
          · rw [if_pos hnotify] at h
            split at h
            · cases h
              exact .of_same rfl rfl
            · cases h
              exact .notify s _ _ _
          · rw [if_neg hnotify] at h
            cases h
            exact .of_same rfl rfl

/-! ## The post work -/

/-- The state after `remio_cpu_post_work` on a request. -/
def RemioState.postWork (s : RemioState) (cpu r : Nat) : RemioState :=
  { s with
    requests := (s.requests.setObj r { s.requests.objs r with state := .free }).objpoolFree r
    active := fun c => if c = cpu then true else s.active c }

@[simp] theorem postWork_active (s : RemioState) (cpu r c : Nat) :
    (s.postWork cpu r).active c = if c = cpu then true else s.active c := rfl

/-- The state with the first message of a CPU taken. -/
def RemioState.popMsgs (s : RemioState) (cpu : Nat) (rest : List RemioMsg) : RemioState :=
  { s with msgs := fun c => if c = cpu then rest else s.msgs c }

theorem RemioStep.delivered {cpu : Nat} {msg : RemioMsg} (h : RemioStep p s (.deliver cpu msg) s') :
    s.halted cpu = false ∧ ∃ rest, s.msgs cpu = msg :: rest ∧
      s' = remioCpuMsgHandler (s.popMsgs cpu rest) cpu msg := by
  cases h with
  | deliver hcpu hmsgs => exact ⟨hcpu, _, hmsgs, rfl⟩

/-- The state with a CPU stopped in `ERROR`. -/
def RemioState.halt (s : RemioState) (cpu : Nat) : RemioState :=
  { s with halted := fun c => if c = cpu then true else s.halted c }

/-- **A small key survives.**  The post work finds the device and the request. -/
theorem remioCpuPostWork_found {cpu d : Nat} {a : RemioAnswer} {key : Nat}
    (hfind : remioFindDevByBindKey s.devices key = some d)
    (hlt : a.args.requestId < s.requests.num) (hid : a.args.requestId < 256)
    (hkey : (s.requests.objs a.args.requestId).bindKey = key) (hsmall : key < 256) :
    remioCpuPostWork s cpu (a.msg key).event (a.msg key).remioBindKey (a.msg key).requestId =
      some (if a.event = .read then some ((s.requests.objs a.args.requestId).reg,
        (s.requests.objs a.args.requestId).value) else none, s.postWork cpu a.args.requestId) := by
  obtain ⟨dev, hdev, hdevKey⟩ := remioFindDevByBindKey_some hfind
  have hget := remioGetRequest_of_key (s := s) hdev hlt (hkey.trans hdevKey.symm)
  have hmsgKey : (a.msg key).remioBindKey = key := Nat.mod_eq_of_lt hsmall
  have hmsgId : (a.msg key).requestId = a.args.requestId := Nat.mod_eq_of_lt hid
  rw [remioCpuPostWork, hmsgKey, hmsgId]
  simp only [hfind, hget]
  rfl

/-- **A large key is lost.**  Whatever device the eight bits name, the request
is not one of it. -/
theorem remioCpuPostWork_lost {cpu : Nat} {a : RemioAnswer} {key : Nat}
    (hid : a.args.requestId < 256) (hkey : (s.requests.objs a.args.requestId).bindKey = key)
    (hlarge : ¬ key < 256) :
    remioCpuPostWork s cpu (a.msg key).event (a.msg key).remioBindKey (a.msg key).requestId =
      none := by
  simp only [remioCpuPostWork, RemioAnswer.msg, remioMsg, Nat.mod_eq_of_lt hid]
  cases hfind : remioFindDevByBindKey s.devices (key % 256) with
  | none => rfl
  | some d =>
      obtain ⟨dev, hdev, hdevKey⟩ := remioFindDevByBindKey_some hfind
      have hdiff : key % 256 < 256 := Nat.mod_lt key (by decide)
      cases hget : remioGetRequest s d (a.args.requestId : Int) with
      | mk res s1 =>
          rcases remioGetRequest_cases hget with ⟨_, rfl, _⟩ |
            ⟨_, dev', r, hdev', heq, _, hr, _⟩ | ⟨hneg, _⟩
          · simp only [hget]
          · obtain rfl := Option.some.inj (hdev.symm.trans hdev')
            have hsame : a.args.requestId = r := by omega
            rw [← hsame, hkey, hdevKey] at hr
            omega
          · omega

theorem remioCpuMsgHandler_completion {cpu : Nat} {msg : RemioMsg} (hmsg : msg.event ≠ .notify) :
    remioCpuMsgHandler s cpu msg =
      match remioCpuPostWork s cpu msg.event msg.remioBindKey msg.requestId with
      | none => s.halt cpu
      | some (_, s') => s' := by
  rw [remioCpuMsgHandler]
  cases hevent : msg.event with
  | notify => exact (hmsg hevent).elim
  | write => rfl
  | read => rfl

/-! ## The invariant -/

/-- A completion in flight to a CPU is that of the answer to a request of it. -/
structure RemioInFlight (s : RemioState) (t : RemioTale) (msg : RemioMsg) (r : Nat)
    (a : RemioAnswer) : Prop where
  answer : t.answer r = some a
  id : a.args.requestId = r
  op : a.args.op = hypWrite ∨ a.args.op = hypRead
  find : remioFindDevByBindKey s.devices (s.requests.objs r).bindKey = some a.device
  msg : msg = a.msg (s.requests.objs r).bindKey
  value : (s.requests.objs r).value = a.args.value

/-- **The invariant**: each slot in use holds the access it was taken for, and
each completion in flight is that of the answer. -/
structure RemioTold (p : RemioPlatform) (w : RemioState × RemioTale) : Prop where
  listed : RemioListed p w.1
  slots : RemioSlots p w.1
  access : ∀ r, w.1.requests.Used r → ∃ acc, w.2.access r = some ((w.1.requests.objs r).cpuId, acc) ∧
    (w.1.requests.objs r).reg = acc.reg ∧
    (w.1.requests.objs r).op = if acc.write then hypWrite else hypRead
  inflight : ∀ cpu msg r, msg ∈ w.1.msgs cpu → msg.Completes r →
    ∃ a, RemioInFlight w.1 w.2 msg r a

theorem RemioTold.initial (hinit : RemioInitial p s) (hactive : ∀ cpu, s.active cpu = true) :
    RemioTold p (s, .empty) := by
  refine ⟨(remio_initial hinit).1, .initial hinit hactive, fun r hr => ?_, fun cpu msg r hmem => ?_⟩
  · have hbit := hr.2
    rw [hinit.2.1] at hbit
    cases hbit
  · rw [hinit.2.2.1 cpu] at hmem
    exact absurd hmem List.not_mem_nil

theorem RemioTold.used {t : RemioTale} (h : RemioTold p (s, t)) {cpu r : Nat} {msg : RemioMsg}
    (hmem : msg ∈ s.msgs cpu) (hcomp : msg.Completes r) : s.RequestOf r cpu := by
  obtain ⟨hused, _, hcpu⟩ := h.listed.inflight cpu msg r hmem hcomp
  exact ⟨hused, hcpu⟩

theorem RemioInFlight.congr {t t' : RemioTale} {msg : RemioMsg} {r : Nat} {a : RemioAnswer}
    (h : RemioInFlight s t msg r a) (hanswer : t'.answer r = t.answer r)
    (hfind : ∀ key, remioFindDevByBindKey s'.devices key = remioFindDevByBindKey s.devices key)
    (hkey : (s'.requests.objs r).bindKey = (s.requests.objs r).bindKey)
    (hvalue : (s'.requests.objs r).value = (s.requests.objs r).value) :
    RemioInFlight s' t' msg r a := by
  constructor
  · rw [hanswer]
    exact h.answer
  · exact h.id
  · exact h.op
  · rw [hfind, hkey]
    exact h.find
  · rw [hkey]
    exact h.msg
  · rw [hvalue]
    exact h.value

/-- **What an access stores.**  Its slot holds the new request, and the other
slots are left alone; only a notification is sent. -/
theorem remioMmioEmulHandler_stores {cpu d id : Nat} {requests : ObjPool RemioRequest}
    {acc : RemioAccess} {queued : Bool} (halloc : s.requests.objpoolAllocWithId = some (id, requests))
    (h : remioMmioEmulHandler s queued cpu d acc = some s') :
    (∃ key, s'.requests.objs id = newRequest cpu id key acc) ∧
    (∀ r, r ≠ id → s'.requests.objs r = s.requests.objs r) ∧
    ∀ c msg r, msg ∈ s'.msgs c → msg.Completes r → msg ∈ s.msgs c := by
  obtain ⟨_, _, _, hobjs, _⟩ := ObjPool.objpoolAllocWithId_some halloc
  rw [remioMmioEmulHandler, remioCreateRequest] at h
  cases hdev : s.devices[d]? with
  | none =>
      simp only [hdev] at h
      cases h
  | some dev =>
      simp only [hdev, halloc] at h
      split at h
      · cases h
      · rename_i dev' _
        cases h
        have hsend := Unanswered.notify (({ s with requests := requests }.setRequest id
          (newRequest cpu id dev.bindKey acc)).setDevice d
            { dev with pending := dev.pending ++ [id] }) queued dev'.backend.cpuId
            dev'.backend.interrupt
        refine ⟨⟨dev.bindKey, ?_⟩, fun r hr => ?_, fun c msg r hmem hcomp => ?_⟩
        · rw [remioCpuSendMsg_requests]
          exact ObjPool.setObj_same _ _ _
        · rw [remioCpuSendMsg_requests, ← hobjs]
          exact ObjPool.setObj_other hr
        · exact hsend.completes c msg r hmem hcomp

/-- **What a delivery does.**  A completion comes from the answer to the request
of this CPU; the post work finds it if and only if its key is below 256. -/
theorem RemioTold.delivers {t : RemioTale} (h : RemioTold p (s, t)) {cpu : Nat} {msg : RemioMsg}
    {rest : List RemioMsg} (hmsgs : s.msgs cpu = msg :: rest) (hmsg : msg.event ≠ .notify) :
    ∃ a acc, RemioInFlight s t msg a.args.requestId a ∧
      t.access a.args.requestId = some (cpu, acc) ∧ s.RequestOf a.args.requestId cpu ∧
      a.args.requestId < 256 ∧
      (s.requests.objs a.args.requestId).reg = acc.reg ∧
      (s.requests.objs a.args.requestId).op = (if acc.write then hypWrite else hypRead) ∧
      remioCpuMsgHandler (s.popMsgs cpu rest) cpu msg =
        if (s.requests.objs a.args.requestId).bindKey < 256 then
          (s.popMsgs cpu rest).postWork cpu a.args.requestId
        else (s.popMsgs cpu rest).halt cpu := by
  have hmem : msg ∈ s.msgs cpu := by
    rw [hmsgs]
    exact List.mem_cons_self
  have hcomp : msg.Completes msg.requestId := ⟨hmsg, rfl⟩
  obtain ⟨a, ha⟩ := h.inflight cpu msg _ hmem hcomp
  have hof := h.used hmem hcomp
  have hid := ha.id
  rw [← hid] at ha hof
  obtain ⟨acc, hacc, hreg, hop⟩ := h.access _ hof.1
  have hsmall : a.args.requestId < 256 := by
    have hlt : a.args.requestId < s.requests.num := hof.1.1
    have hnum : s.requests.num = p.cpuNum := h.listed.num
    have hle := p.cpuNum_le
    omega
  refine ⟨a, acc, ha, ?_, hof, hsmall, hreg, hop, ?_⟩
  · rw [hacc, hof.2]
  · rw [remioCpuMsgHandler_completion hmsg, ha.msg]
    by_cases hkey : (s.requests.objs a.args.requestId).bindKey < 256
    · rw [if_pos hkey, remioCpuPostWork_found (s := s.popMsgs cpu rest) ha.find hof.1.1 hsmall rfl
        hkey]
    · have hlost := @remioCpuPostWork_lost (s.popMsgs cpu rest) cpu a
        (s.requests.objs a.args.requestId).bindKey hsmall rfl hkey
      rw [if_neg hkey, hlost]

theorem RemioTold.mmio {t : RemioTale} (h : RemioTold p (s, t)) {cpu d : Nat} {acc : RemioAccess}
    {queued : Bool} (hmmio : remioMmioEmulHandler s queued cpu d acc = some s')
    (hlisted : RemioListed p s') (hslots : RemioSlots p s') :
    RemioTold p (s', remioTell p s (.mmio cpu acc) t) := by
  obtain ⟨id, requests, dev', halloc, hdev', hset, _, hrequestOf, _⟩ :=
    remioMmioEmulHandler_some hmmio
  obtain ⟨⟨key, hnew⟩, hother, hcompletes⟩ := remioMmioEmulHandler_stores halloc hmmio
  obtain ⟨_, hfree, _⟩ := ObjPool.objpoolAllocWithId_some halloc
  simp only [remioTell, halloc]
  refine ⟨hlisted, hslots, fun r hr => ?_, fun c msg r hmem hcomp => ?_⟩
  · by_cases hid : r = id
    · subst hid
      simp only [RemioTale.ask_access_self, hnew]
      exact ⟨acc, rfl, rfl, rfl⟩
    · have hused : s.requests.Used r := by
        rcases (hrequestOf r _).mp ⟨hr, rfl⟩ with ⟨heq, _⟩ | hold
        · exact (hid heq).elim
        · exact hold.1
      obtain ⟨old, hold⟩ := h.access r hused
      simp only [RemioTale.ask_access_other hid, hother r hid]
      exact ⟨old, hold⟩
  · have hmem' := hcompletes c msg r hmem hcomp
    have hne : r ≠ id := fun heq => hfree (heq ▸ (h.used hmem' hcomp).1)
    obtain ⟨a, ha⟩ := h.inflight c msg r hmem' hcomp
    exact ⟨a, ha.congr (RemioTale.ask_answer_other hne) (SameSides.set hdev' hset).find
      (by rw [hother r hne]) (by rw [hother r hne])⟩

theorem RemioTold.unanswered {t : RemioTale} (h : RemioTold p (s, t)) (hsame : Unanswered s s')
    (hsides : SameSides s s') (hused : ∀ r, s'.requests.Used r → s.requests.Used r)
    (hlisted : RemioListed p s') (hslots : RemioSlots p s') : RemioTold p (s', t) := by
  refine ⟨hlisted, hslots, fun r hr => ?_, fun c msg r hmem hcomp => ?_⟩
  · obtain ⟨state, hreq⟩ := hsame.request r
    simp only [hreq]
    exact h.access r (hused r hr)
  · obtain ⟨a, ha⟩ := h.inflight c msg r (hsame.completes c msg r hmem hcomp) hcomp
    obtain ⟨state, hreq⟩ := hsame.request r
    exact ⟨a, ha.congr rfl hsides.find (by rw [hreq]) (by rw [hreq])⟩

/-- An answer stores the value, and its completion is the only one in flight for
the request. -/
theorem RemioTold.answers {t : RemioTale} (h : RemioTold p (s, t)) {a : RemioAnswer}
    {queued : Bool} (hop : a.args.op = hypWrite ∨ a.args.op = hypRead)
    (hfind : remioFindDevByBindKey s.devices (s.requests.objs a.args.requestId).bindKey =
      some a.device)
    (hlt : a.args.requestId < s.requests.num)
    (hstate : (s.requests.objs a.args.requestId).state = .processing)
    (hs' : s' = remioCpuSendMsg (s.setRequest a.args.requestId
      (answered (s.requests.objs a.args.requestId) a.args.value)) queued
      (s.requests.objs a.args.requestId).cpuId
      (a.msg (s.requests.objs a.args.requestId).bindKey))
    (hsides : SameSides s s') (hused : ∀ r, s'.requests.Used r → s.requests.Used r)
    (hlisted : RemioListed p s') (hslots : RemioSlots p s') : RemioTold p (s', t.reply a) := by
  have hself : s'.requests.objs a.args.requestId =
      answered (s.requests.objs a.args.requestId) a.args.value := by
    rw [hs', remioCpuSendMsg_requests]
    exact ObjPool.setObj_same _ _ _
  have hother : ∀ r, r ≠ a.args.requestId → s'.requests.objs r = s.requests.objs r := by
    intro r hr
    rw [hs', remioCpuSendMsg_requests]
    exact ObjPool.setObj_other hr
  have hsmall : a.args.requestId < 256 := by
    have hnum : s.requests.num = p.cpuNum := h.listed.num
    have hle := p.cpuNum_le
    omega
  have hmsgs : ∀ c msg, msg ∈ s'.msgs c →
      msg ∈ s.msgs c ∨ msg = a.msg (s.requests.objs a.args.requestId).bindKey := by
    intro c msg hmem
    rw [hs'] at hmem
    exact mem_of_remioCpuSendMsg (s := s.setRequest a.args.requestId _) hmem
  refine ⟨hlisted, hslots, fun r hr => ?_, fun c msg r hmem hcomp => ?_⟩
  · obtain ⟨acc, hacc⟩ := h.access r (hused r hr)
    refine ⟨acc, ?_⟩
    dsimp only
    by_cases hr' : r = a.args.requestId
    · subst hr'
      rw [hself]
      exact hacc
    · rw [hother r hr']
      exact hacc
  · by_cases hr' : r = a.args.requestId
    · -- only the new message completes the request
      have hidle := h.listed.none_inflight (r := r)
        (by rw [hr', hstate]; exact RemioReqState.noConfusion)
      have hnew := (hmsgs c msg hmem).resolve_left fun hold => hidle c msg hold hcomp
      refine ⟨a, ?_⟩
      constructor
      · rw [hr']
        exact RemioTale.reply_answer_self t a
      · exact hr'.symm
      · exact hop
      · rw [hsides.find, hr', hself]
        exact hfind
      · rw [hr', hself]
        exact hnew
      · rw [hr', hself]
        rfl
    · have hold : msg ∈ s.msgs c := by
        refine (hmsgs c msg hmem).resolve_right fun hnew => hr' ?_
        rw [hnew] at hcomp
        exact hcomp.2.symm.trans (Nat.mod_eq_of_lt hsmall)
      obtain ⟨b, hb⟩ := h.inflight c msg r hold hcomp
      refine ⟨b, hb.congr (RemioTale.reply_answer_other hr') hsides.find ?_ ?_⟩
      · rw [hother r hr']
      · rw [hother r hr']

theorem RemioTold.inflight_pop {t : RemioTale} (h : RemioTold p (s, t)) {cpu : Nat} {msg : RemioMsg}
    {rest : List RemioMsg} (hmsgs : s.msgs cpu = msg :: rest) {c r : Nat} {m : RemioMsg}
    (hm : m ∈ (s.popMsgs cpu rest).msgs c) (hcomp : m.Completes r) :
    ∃ a, RemioInFlight (s.popMsgs cpu rest) t m r a := by
  have hsub : m ∈ s.msgs c := by
    simp only [RemioState.popMsgs] at hm
    by_cases hc : c = cpu
    · rw [if_pos hc] at hm
      rw [hc, hmsgs]
      exact List.mem_cons_of_mem _ hm
    · rwa [if_neg hc] at hm
  obtain ⟨a, ha⟩ := h.inflight c m r hsub hcomp
  exact ⟨a, ha.congr rfl (fun _ => rfl) rfl rfl⟩

theorem RemioTold.deliver {t : RemioTale} (h : RemioTold p (s, t)) {cpu : Nat} {msg : RemioMsg}
    {rest : List RemioMsg} (hmsgs : s.msgs cpu = msg :: rest)
    (hlisted : RemioListed p (remioCpuMsgHandler (s.popMsgs cpu rest) cpu msg))
    (hslots : RemioSlots p (remioCpuMsgHandler (s.popMsgs cpu rest) cpu msg)) :
    RemioTold p (remioCpuMsgHandler (s.popMsgs cpu rest) cpu msg, t) := by
  obtain ⟨_, hothers⟩ := h.listed.popMsg hmsgs rfl
  by_cases hmsg : msg.event = .notify
  · have hhandler : remioCpuMsgHandler (s.popMsgs cpu rest) cpu msg = s.popMsgs cpu rest := by
      rw [remioCpuMsgHandler, hmsg]
    rw [hhandler] at hlisted hslots ⊢
    exact ⟨hlisted, hslots, h.access, fun _ _ _ => h.inflight_pop hmsgs⟩
  · obtain ⟨a, acc, ha, _, hof, hsmall, _, _, hhandler⟩ := h.delivers hmsgs hmsg
    refine ⟨hlisted, hslots, ?_, ?_⟩
    · rw [hhandler]
      split
      · intro r hr
        simp only [RemioState.postWork, ObjPool.objpoolFree_used, ObjPool.setObj_used] at hr
        simp only [RemioState.postWork, ObjPool.objpoolFree_objs, ObjPool.setObj_other hr.2]
        exact h.access r hr.1
      · exact h.access
    · rw [hhandler]
      split
      · intro c m r hm hcomp
        obtain ⟨b, hb⟩ := h.inflight_pop hmsgs hm hcomp
        have hne : r ≠ a.args.requestId := by
          intro heq
          refine hothers r ⟨hmsg, ?_⟩ c m hm hcomp
          rw [heq, ha.msg]
          exact Nat.mod_eq_of_lt hsmall
        refine ⟨b, hb.congr rfl (fun _ => rfl) ?_ ?_⟩
        · simp only [RemioState.postWork, ObjPool.objpoolFree_objs, ObjPool.setObj_other hne]
        · simp only [RemioState.postWork, ObjPool.objpoolFree_objs, ObjPool.setObj_other hne]
      · intro c m r hm hcomp
        obtain ⟨b, hb⟩ := h.inflight_pop hmsgs hm hcomp
        exact ⟨b, hb.congr rfl (fun _ => rfl) rfl rfl⟩

theorem RemioTold.step {t : RemioTale} {e : RemioEvent} (h : RemioTold p (s, t))
    (hok : GuestRuns p s e) (hstep : RemioStep p s e s') : RemioTold p (s', remioTell p s e t) := by
  have hlisted := (remio_step h.listed hstep).1
  have hslots := h.slots.step h.listed hok hstep
  cases hstep with
  | assign =>
      refine ⟨hlisted, hslots, h.access, fun c msg r hmem hcomp => ?_⟩
      obtain ⟨a, ha⟩ := h.inflight c msg r hmem hcomp
      exact ⟨a, ha.congr rfl (remioAssignVmCpus_find s _) rfl rfl⟩
  | mmio _ _ _ _ hmmio => exact h.mmio hmmio hlisted hslots
  | mmioRefused => exact h
  | mmioNoDevice => exact h
  | @hypercall _ cpu args queued ret regs _ hword hcall =>
      obtain ⟨hsides, _⟩ := remioHypercall_sends h.listed hword hcall
      have hused : ∀ r, s'.requests.Used r → s.requests.Used r := fun r hr =>
        (((SameOwners.hypercall hcall).requestOf r _).mp ⟨hr, rfl⟩).1
      rcases remioHypercall_answers h.listed hword hcall with ⟨hnone, hsame⟩ |
        ⟨d, hsome, hop, hfind, hlt, hstate, hs'⟩
      · simp only [remioTell, hnone]
        exact h.unanswered hsame hsides hused hlisted hslots
      · simp only [remioTell, hsome]
        exact h.answers hop hfind hlt hstate hs' hsides hused hlisted hslots
  | deliver _ hmsgs => exact h.deliver hmsgs hlisted hslots

theorem remioTold_reach {w : RemioState × RemioTale}
    (h : (remioTold p).Reach (fun w e => GuestRuns p w.1 e) w) : RemioTold p w := by
  have hinit : ∀ w, (remioTold p).init w → RemioTold p w := by
    intro w hw
    obtain ⟨s, t⟩ := w
    obtain ⟨⟨hs, hactive⟩, rfl⟩ := hw
    exact .initial hs hactive
  have hstep : ∀ w e w', RemioTold p w → GuestRuns p w.1 e → (remioTold p).step w e w' →
      RemioTold p w' := by
    intro w e w' hw hok hstep
    obtain ⟨s, t⟩ := w
    obtain ⟨s', t'⟩ := w'
    obtain ⟨hstep, rfl⟩ := hstep
    exact hw.step hok hstep
  exact h.invariant hinit hstep

/-! ## Completions -/

/-- **The message reaches request `r` of device `d`**: the lookups of the post
work on `cpu` find the two, no CPU stops in `ERROR`, exactly `r` is freed, and
exactly the vCPU of `cpu` is resumed, which was paused and waited for `r`. -/
structure RemioReaches (s : RemioState) (cpu : Nat) (msg : RemioMsg) (d r : Nat) : Prop where
  device : remioFindDevByBindKey s.devices msg.remioBindKey = some d
  request : remioGetRequest s d msg.requestId = (some r, s)
  running : (remioCpuMsgHandler s cpu msg).halted = s.halted
  freed : ∀ q, (remioCpuMsgHandler s cpu msg).requests.Used q ↔ s.requests.Used q ∧ q ≠ r
  waiting : ∀ q, s.RequestOf q cpu ↔ q = r
  paused : s.active cpu = false
  resumed : ∀ c, (remioCpuMsgHandler s cpu msg).active c = if c = cpu then true else s.active c

theorem remioHypercall_answer {queued : Bool} {cpu : Nat} {args : RemioArgs} {regs : List Nat}
    (h : remioHypercall p s queued cpu args = (hcSuccess, regs, s'))
    (hop : args.op = hypWrite ∨ args.op = hypRead) :
    (RemioEvent.hypercall cpu args hcSuccess regs).answer p s ≠ none := by
  simp only [RemioEvent.answer]
  rw [if_pos ⟨hop, trivial⟩]
  cases hd : remioHypercallDevice p s cpu args with
  | ok d => exact Option.some_ne_none _
  | error code =>
      rw [remioHypercall, hd] at h
      have hcode : code = hcSuccess := by
        cases h
        rfl
      rw [hcode, remioHypercallDevice] at hd
      split at hd
      · cases hd
      · split at hd
        · cases hd
        · cases hd

/-- **A completion reaches its own request if and only if the key of the device
is below 256.**  A write or read that succeeds sends the key and the request
to the CPU that made the access; a completion that a CPU handles is that of
the answer to an access of this CPU, and the handler finds the device of the
answer and its request exactly when the key fits the eight bits of the message.
The configuration, the keys and the number of CPUs are arbitrary. -/
theorem remio_completion_reaches_iff {w : RemioState × RemioTale}
    (h : (remioTold p).Reach (fun w e => GuestRuns p w.1 e) w) :
    (∀ cpu args regs s', RemioStep p w.1 (.hypercall cpu args hcSuccess regs) s' →
      (args.op = hypWrite ∨ args.op = hypRead) →
      ∃ d dev c acc queued, w.1.DeviceAt d dev ∧ w.2.access args.requestId = some (c, acc) ∧
        (remioTell p w.1 (.hypercall cpu args hcSuccess regs) w.2).answer args.requestId =
          some ⟨d, args⟩ ∧
        s'.msgs = (remioCpuSendMsg w.1 queued c (RemioAnswer.msg ⟨d, args⟩ dev.bindKey)).msgs) ∧
    ∀ cpu msg s', RemioStep p w.1 (.deliver cpu msg) s' → msg.event ≠ .notify →
      ∃ rest a dev acc, w.1.msgs cpu = msg :: rest ∧
        s' = remioCpuMsgHandler (w.1.popMsgs cpu rest) cpu msg ∧
        w.2.access a.args.requestId = some (cpu, acc) ∧
        w.2.answer a.args.requestId = some a ∧ w.1.DeviceAt a.device dev ∧
        (RemioReaches (w.1.popMsgs cpu rest) cpu msg a.device a.args.requestId ↔
          dev.bindKey < 256) := by
  obtain ⟨s, t⟩ := w
  have hinv := remioTold_reach h
  constructor
  · intro cpu args regs s' hstep hop
    cases hstep with
    | @hypercall _ _ _ queued _ _ _ hword hcall =>
        rcases remioHypercall_answers hinv.listed hword hcall with ⟨hnone, _⟩ |
          ⟨d, hsome, _, hfind, hlt, hstate, rfl⟩
        · exact (remioHypercall_answer hcall hop hnone).elim
        · obtain ⟨dev, hdev, hkey⟩ := remioFindDevByBindKey_some hfind
          have hused : s.requests.Used args.requestId :=
            (hinv.listed.inUse _ hlt).mpr (by rw [hstate]; exact RemioReqState.noConfusion)
          obtain ⟨acc, hacc, _⟩ := hinv.access _ hused
          refine ⟨d, dev, _, acc, queued, hdev, hacc, ?_, ?_⟩
          · simp only [remioTell, hsome]
            exact RemioTale.reply_answer_self t ⟨d, args⟩
          · rw [hkey]
            cases queued <;> rfl
  · intro cpu msg s' hstep hmsg
    obtain ⟨hcpu, rest, hmsgs, rfl⟩ := hstep.delivered
    obtain ⟨a, acc, ha, hacc, hof, hsmall, _, _, hhandler⟩ := hinv.delivers hmsgs hmsg
    obtain ⟨dev, hdev, hkey⟩ := remioFindDevByBindKey_some ha.find
    refine ⟨rest, a, dev, acc, hmsgs, rfl, hacc, ha.answer, hdev, ?_⟩
    rw [hkey]
    constructor
    · intro hreach
      by_contra hlarge
      -- the CPU stops in `ERROR`
      have hrunning := hreach.running
      rw [hhandler, if_neg hlarge] at hrunning
      have hhalt : ((s.popMsgs cpu rest).halt cpu).halted cpu = true := if_pos rfl
      rw [hrunning] at hhalt
      exact absurd (hhalt.symm.trans hcpu) (by decide)
    · intro hkey256
      rw [if_pos hkey256] at hhandler
      have hmsgKey : msg.remioBindKey = (s.requests.objs a.args.requestId).bindKey := by
        rw [ha.msg]
        exact Nat.mod_eq_of_lt hkey256
      have hmsgId : msg.requestId = a.args.requestId := by
        rw [ha.msg]
        exact Nat.mod_eq_of_lt hsmall
      have hpaused : s.active cpu = false := (hinv.slots.paused cpu).mpr ⟨_, hof⟩
      constructor
      · rw [hmsgKey]
        exact ha.find
      · rw [hmsgId]
        exact remioGetRequest_of_key (s := s.popMsgs cpu rest) hdev hof.1.1 hkey.symm
      · rw [hhandler]
        rfl
      · intro q
        rw [hhandler, RemioState.postWork, ObjPool.objpoolFree_used, ObjPool.setObj_used]
      · intro q
        constructor
        · intro hq
          exact hinv.slots.one q _ cpu hq hof
        · intro hq
          rw [hq]
          exact hof
      · exact hpaused
      · intro c
        rw [hhandler]
        rfl

/-! ## Runs by their events -/

/-- The state after an event, when no queue is full. -/
def remioNext (p : RemioPlatform) (s : RemioState) : RemioEvent → RemioState
  | .assign cpu => remioAssignVmCpus p s cpu
  | .mmio cpu acc =>
      match remioFindVmDevByAddr p s.devices (p.vmOf cpu) acc.addr with
      | none => s
      | some d => (remioMmioEmulHandler s true cpu d acc).getD s
  | .mmioRefused _ _ => s
  | .hypercall cpu args _ _ => (remioHypercall p s true cpu args).2.2
  | .deliver cpu msg => remioCpuMsgHandler (s.popMsgs cpu (s.msgs cpu).tail) cpu msg

/-- The event can happen, guest code being run by active vCPUs. -/
def remioEnabled (p : RemioPlatform) (s : RemioState) : RemioEvent → Bool
  | .assign cpu => !s.halted cpu
  | .mmio cpu acc =>
      !s.halted cpu && s.active cpu && decide (cpu < p.cpuNum) &&
        match remioFindVmDevByAddr p s.devices (p.vmOf cpu) acc.addr with
        | none => false
        | some d =>
            match s.devices[d]? with
            | none => false
            | some dev => dev.ready && (remioMmioEmulHandler s true cpu d acc).isSome
  | .mmioRefused _ _ => false
  | .hypercall cpu args ret regs =>
      !s.halted cpu && s.active cpu && decide (cpu < p.cpuNum) &&
        decide (args.requestId < p.machine.wordCount) &&
        decide ((remioHypercall p s true cpu args).1 = ret) &&
        decide ((remioHypercall p s true cpu args).2.1 = regs)
  | .deliver cpu msg => !s.halted cpu && decide ((s.msgs cpu).head? = some msg)

theorem remioEnabled_step {e : RemioEvent} (h : remioEnabled p s e = true) :
    GuestRuns p s e ∧ RemioStep p s e (remioNext p s e) := by
  cases e with
  | assign cpu => exact ⟨trivial, .assign (by simpa [remioEnabled] using h)⟩
  | mmio cpu acc =>
      simp only [remioEnabled, remioNext, Bool.and_eq_true, Bool.not_eq_true',
        decide_eq_true_eq] at h ⊢
      obtain ⟨⟨⟨hhalted, hactive⟩, hcpu⟩, hdevice⟩ := h
      refine ⟨⟨hcpu, hactive⟩, ?_⟩
      cases hfind : remioFindVmDevByAddr p s.devices (p.vmOf cpu) acc.addr with
      | none =>
          rw [hfind] at hdevice
          cases hdevice
      | some d =>
          cases hdev : s.devices[d]? with
          | none =>
              simp only [hfind, hdev] at hdevice
              cases hdevice
          | some dev =>
              simp only [hfind, hdev, Bool.and_eq_true] at hdevice
              obtain ⟨s', hs'⟩ := Option.isSome_iff_exists.mp hdevice.2
              simp only [hs', Option.getD_some]
              exact .mmio hhalted hfind hdev hdevice.1 hs'
  | mmioRefused cpu acc => cases h
  | hypercall cpu args ret regs =>
      simp only [remioEnabled, Bool.and_eq_true, Bool.not_eq_true', decide_eq_true_eq] at h
      obtain ⟨⟨⟨⟨⟨hhalted, hactive⟩, hcpu⟩, hword⟩, hret⟩, hregs⟩ := h
      refine ⟨⟨hcpu, hactive⟩, @RemioStep.hypercall _ _ _ _ _ true _ _ hhalted hword ?_⟩
      rw [← hret, ← hregs]
      rfl
  | deliver cpu msg =>
      simp only [remioEnabled, Bool.and_eq_true, Bool.not_eq_true', decide_eq_true_eq] at h
      obtain ⟨hhalted, hhead⟩ := h
      refine ⟨trivial, .deliver hhalted ?_⟩
      exact List.eq_cons_of_mem_head? hhead

/-- The state and the observer after events one after the other. -/
def remioAfter (p : RemioPlatform) : List RemioEvent → RemioState × RemioTale →
    RemioState × RemioTale
  | [], w => w
  | e :: es, w => remioAfter p es (remioNext p w.1 e, remioTell p w.1 e w.2)

/-- Every event can happen where it comes up. -/
def remioPlays (p : RemioPlatform) : List RemioEvent → RemioState → Bool
  | [], _ => true
  | e :: es, s => remioEnabled p s e && remioPlays p es (remioNext p s e)

theorem remioPlays_reach (es : List RemioEvent) {w : RemioState × RemioTale}
    (hw : (remioTold p).Reach (fun w e => GuestRuns p w.1 e) w)
    (h : remioPlays p es w.1 = true) :
    (remioTold p).Reach (fun w e => GuestRuns p w.1 e) (remioAfter p es w) := by
  induction es generalizing w with
  | nil => exact hw
  | cons e es ih =>
      simp only [remioPlays, Bool.and_eq_true] at h
      obtain ⟨hguest, hstep⟩ := remioEnabled_step h.1
      exact ih (.step hw hguest ⟨hstep, rfl⟩) h.2

/-- The pair of VMs with another key. -/
def keyPlatform (bindKey : Nat) : RemioPlatform :=
  { pairPlatform with
    vmlist := pairPlatform.vmlist.map (List.map fun dev => { dev with bindKey := bindKey }) }

/-- The start of the pair with that key. -/
def keyStart (bindKey : Nat) : RemioState × RemioTale := (startOf (keyPlatform bindKey), .empty)

/-- Both VMs start; the frontend accesses its device; the backend asks for the
request and answers it by a write. -/
def writeAnswered : List RemioEvent :=
  [.assign 0, .assign 1, .mmio 1 pairAccess,
    .hypercall 0 (pairCall hypAsk 0) hcSuccess [0x1000, 0, 5, 4, 0, 0],
    .hypercall 0 (pairCall hypWrite 0) hcSuccess []]

theorem keyStart_reach (bindKey : Nat) (h : remioInit Machine.mmu64 1
      (keyPlatform bindKey).vmlist = some (keyStart bindKey).1.devices) :
    (remioTold (keyPlatform bindKey)).Reach (fun w e => GuestRuns (keyPlatform bindKey) w.1 e)
      (keyStart bindKey) :=
  .init ⟨⟨⟨h, rfl, fun _ => rfl, fun _ => rfl⟩, fun _ => rfl⟩, rfl⟩

/-- With key 255 the completion of the write reaches its request. -/
theorem remio_completion_reaches_255 :
    RemioReaches ((remioAfter (keyPlatform 255) writeAnswered (keyStart 255)).1.popMsgs 1 [])
      1 ⟨.write, 255, 0, 0⟩ 0 0 := by
  have hreach := remioPlays_reach writeAnswered (keyStart_reach 255 rfl)
    (by decide +kernel)
  have hstep := remioEnabled_step (p := keyPlatform 255) (e := .deliver 1 ⟨.write, 255, 0, 0⟩)
    (s := (remioAfter (keyPlatform 255) writeAnswered (keyStart 255)).1) (by decide +kernel)
  obtain ⟨rest, a, dev, acc, hmsgs, _, _, _, hdev, hiff⟩ :=
    (remio_completion_reaches_iff hreach).2 1 _ _ hstep.2 (by decide)
  have hqueue : (remioAfter (keyPlatform 255) writeAnswered (keyStart 255)).1.msgs 1 =
      [⟨.write, 255, 0, 0⟩] := by decide +kernel
  have hrest : rest = [] := (List.cons.inj (hmsgs.symm.trans hqueue)).2
  have hkeys : ∀ dev ∈ (remioAfter (keyPlatform 255) writeAnswered (keyStart 255)).1.devices,
      dev.bindKey < 256 := by decide +kernel
  have hreaches := hiff.mpr (hkeys dev (List.mem_of_getElem? hdev))
  rw [hrest] at hreaches
  have hdevice : a.device = 0 :=
    Option.some.inj (hreaches.device.symm.trans (by decide +kernel))
  rw [hdevice] at hreaches
  have hrequest : a.args.requestId = 0 :=
    Option.some.inj ((congrArg Prod.fst hreaches.request).symm.trans (by decide +kernel))
  rwa [hrequest] at hreaches

/-- **Key 256 is lost.**  The configuration is accepted and the write succeeds,
but its message carries key 0: the frontend's CPU finds no device and stops in
`ERROR`, with the request in use and the vCPU paused. -/
theorem remio_completion_lost :
    remioInit Machine.mmu64 1 (keyPlatform 256).vmlist = some (keyStart 256).1.devices ∧
    (remioTold (keyPlatform 256)).Reach (fun w e => GuestRuns (keyPlatform 256) w.1 e)
      (remioAfter (keyPlatform 256) writeAnswered (keyStart 256)) ∧
    (remioTold (keyPlatform 256)).Reach (fun w e => GuestRuns (keyPlatform 256) w.1 e)
      (remioAfter (keyPlatform 256) (writeAnswered ++ [.deliver 1 ⟨.write, 0, 0, 0⟩])
        (keyStart 256)) ∧
    (remioAfter (keyPlatform 256) writeAnswered (keyStart 256)).1.msgs 1 = [⟨.write, 0, 0, 0⟩] ∧
    (remioAfter (keyPlatform 256) writeAnswered (keyStart 256)).1.halted 1 = false ∧
    (remioAfter (keyPlatform 256) (writeAnswered ++ [.deliver 1 ⟨.write, 0, 0, 0⟩])
      (keyStart 256)).1.halted 1 = true ∧
    (remioAfter (keyPlatform 256) (writeAnswered ++ [.deliver 1 ⟨.write, 0, 0, 0⟩])
      (keyStart 256)).1.active 1 = false ∧
    ∀ d r, ¬ RemioReaches ((remioAfter (keyPlatform 256) writeAnswered
      (keyStart 256)).1.popMsgs 1 []) 1 ⟨.write, 0, 0, 0⟩ d r := by
  refine ⟨rfl, remioPlays_reach _ (keyStart_reach 256 rfl) (by decide +kernel),
    remioPlays_reach _ (keyStart_reach 256 rfl) (by decide +kernel), by decide +kernel,
    by decide +kernel, by decide +kernel, by decide +kernel, fun d r hreaches => ?_⟩
  have hnone : remioFindDevByBindKey (remioAfter (keyPlatform 256) writeAnswered
      (keyStart 256)).1.devices 0 = none := by decide +kernel
  cases hnone.symm.trans hreaches.device

end Bao

import BaoHypervisor.RemioRequests
import Mathlib.Data.Finset.Card

/-!
# One request slot per CPU

The request pool has one slot per CPU.  A trapped access allocates a slot and
pauses the vCPU of its CPU; the message that frees the slot is handled on the
same CPU and resumes the vCPU.  As a paused vCPU makes no access, a CPU never
has two requests, and the pool never runs out.
-/

namespace Bao

variable {p : RemioPlatform} {s s' : RemioState}

/-- Guest code runs on a CPU of the platform whose vCPU is active; assignments
and message deliveries are the hypervisor's. -/
def GuestRuns (p : RemioPlatform) (s : RemioState) : RemioEvent → Prop
  | .mmio cpu _ => cpu < p.cpuNum ∧ s.active cpu = true
  | .mmioRefused cpu _ => cpu < p.cpuNum ∧ s.active cpu = true
  | .hypercall cpu _ _ _ => cpu < p.cpuNum ∧ s.active cpu = true
  | _ => True

/-- The Remote I/O system from the start of the VMs on: `vcpu_init` made every
vCPU active. -/
def remioStarted (p : RemioPlatform) : StepSystem RemioState RemioEvent where
  init := fun s => RemioInitial p s ∧ ∀ cpu, s.active cpu = true
  step := RemioStep p

/-- Slot `r` holds a request of `cpu`. -/
def RemioState.RequestOf (s : RemioState) (r cpu : Nat) : Prop :=
  s.requests.Used r ∧ (s.requests.objs r).cpuId = cpu

/-- The slots in use belong to different CPUs, those whose vCPU is paused. -/
structure RemioSlots (p : RemioPlatform) (s : RemioState) : Prop where
  cpu_lt : ∀ r cpu, s.RequestOf r cpu → cpu < p.cpuNum
  one : ∀ r r' cpu, s.RequestOf r cpu → s.RequestOf r' cpu → r = r'
  paused : ∀ cpu, s.active cpu = false ↔ ∃ r, s.RequestOf r cpu

/-- The states agree on whose request each slot holds and on who is active. -/
structure SameOwners (s s' : RemioState) : Prop where
  requestOf : ∀ r cpu, s'.RequestOf r cpu ↔ s.RequestOf r cpu
  active : s'.active = s.active

theorem SameOwners.refl (s : RemioState) : SameOwners s s :=
  ⟨fun _ _ => Iff.rfl, rfl⟩

theorem SameOwners.trans {t : RemioState} (h : SameOwners s s') (h' : SameOwners s' t) :
    SameOwners s t :=
  ⟨fun r cpu => (h'.requestOf r cpu).trans (h.requestOf r cpu), h'.active.trans h.active⟩

theorem SameOwners.of_requests (hrequests : s'.requests = s.requests)
    (hactive : s'.active = s.active) : SameOwners s s' :=
  ⟨fun r cpu => by rw [RemioState.RequestOf, RemioState.RequestOf, hrequests], hactive⟩

theorem SameOwners.setRequest {r : Nat} {req : RemioRequest}
    (hcpu : req.cpuId = (s.requests.objs r).cpuId) : SameOwners s (s.setRequest r req) := by
  refine ⟨fun q cpu => ?_, rfl⟩
  by_cases hq : q = r
  · subst hq
    simp [RemioState.RequestOf, RemioState.setRequest, hcpu]
  · simp [RemioState.RequestOf, RemioState.setRequest, ObjPool.setObj_other hq]

theorem SameOwners.sendMsg (s : RemioState) (queued : Bool) (cpu : Nat) (msg : RemioMsg) :
    SameOwners s (remioCpuSendMsg s queued cpu msg) := by
  cases queued with
  | false => exact .refl s
  | true => exact .of_requests rfl rfl

theorem SameOwners.getRequest {d : Nat} {id : Int} {res : Option Nat}
    (h : remioGetRequest s d id = (res, s')) : SameOwners s s' := by
  rcases remioGetRequest_cases h with ⟨rfl, _⟩ | ⟨rfl, _⟩ | ⟨_, _, _, _, _, _, rfl, _⟩
  · exact .refl _
  · exact .refl _
  · exact .of_requests rfl rfl

theorem SameOwners.handleAsk {addr value d : Nat} {ret : Int} {regs : List Nat}
    (h : remioHandleAsk s addr value d = (ret, regs, s')) : SameOwners s s' := by
  rw [remioHandleAsk] at h
  by_cases hzero : addr ≠ 0 ∨ value ≠ 0
  · rw [if_pos hzero] at h
    cases h
    exact .refl s
  · rw [if_neg hzero] at h
    cases hget : remioGetRequest s d (-1) with
    | mk res s1 =>
        have hsame := SameOwners.getRequest hget
        rw [hget] at h
        cases res with
        | none =>
            cases h
            exact hsame
        | some r =>
            simp only at h
            split at h
            · cases h
              exact hsame.trans (.setRequest rfl)
            · cases h
              exact hsame

theorem SameOwners.handleRw {value d : Nat} {id : Int} {ok : Bool}
    (h : remioHandleRw s value id d = (ok, s')) : SameOwners s s' := by
  rw [remioHandleRw] at h
  cases hget : remioGetRequest s d id with
  | mk res s1 =>
      have hsame := SameOwners.getRequest hget
      rw [hget] at h
      cases res with
      | none =>
          cases h
          exact hsame
      | some r =>
          simp only at h
          split at h
          · cases h
            exact hsame.trans (.setRequest rfl)
          · cases h
            exact hsame

theorem SameOwners.hypercallRw {queued : Bool} {cpu d : Nat} {args : RemioArgs} {ret : Int}
    (h : remioHypercallRw p s queued cpu args d = (ret, s')) : SameOwners s s' := by
  rw [remioHypercallRw] at h
  cases hrw : remioHandleRw s args.value (p.machine.ssize args.requestId) d with
  | mk ok s1 =>
      have hsame := SameOwners.handleRw hrw
      simp only [hrw] at h
      cases ok with
      | false =>
          cases h
          exact hsame
      | true =>
          cases hget : remioGetRequest s1 d (p.machine.ssize args.requestId) with
          | mk res s2 =>
              have hsame2 := hsame.trans (SameOwners.getRequest hget)
              simp only [hget] at h
              cases res with
              | none =>
                  cases h
                  exact hsame2
              | some r =>
                  cases h
                  exact hsame2.trans (.sendMsg _ _ _ _)

/-- **A hypercall** allocates and frees nothing, and pauses and resumes
nobody. -/
theorem SameOwners.hypercall {queued : Bool} {cpu : Nat} {args : RemioArgs} {ret : Int}
    {regs : List Nat} (h : remioHypercall p s queued cpu args = (ret, regs, s')) :
    SameOwners s s' := by
  rw [remioHypercall] at h
  cases hd : remioHypercallDevice p s cpu args with
  | error code =>
      simp only [hd] at h
      cases h
      exact .refl s
  | ok d =>
      simp only [hd] at h
      split at h
      · cases hrw : remioHypercallRw p s queued cpu args d with
        | mk code s1 =>
            rw [hrw] at h
            cases h
            exact .hypercallRw hrw
      · split at h
        · exact .handleAsk h
        · split at h
          · split at h
            · cases h
              exact .refl s
            · cases h
              exact .sendMsg _ _ _ _
          · cases h
            exact .refl s

theorem RemioSlots.congr (h : RemioSlots p s) (hsame : SameOwners s s') : RemioSlots p s' := by
  refine ⟨fun r cpu hr => h.cpu_lt r cpu ((hsame.requestOf r cpu).mp hr), fun r r' cpu hr hr' =>
    h.one r r' cpu ((hsame.requestOf r cpu).mp hr) ((hsame.requestOf r' cpu).mp hr'),
    fun cpu => ?_⟩
  rw [hsame.active, h.paused cpu]
  simp only [hsame.requestOf]

/-- **The pool has a free slot** for a CPU that has no request: all slots
could only be in use by all CPUs. -/
theorem RemioSlots.alloc_some (h : RemioSlots p s) (hl : RemioListed p s) {cpu : Nat}
    (hcpu : cpu < p.cpuNum) (hactive : s.active cpu = true) :
    ∃ id requests, s.requests.objpoolAllocWithId = some (id, requests) := by
  cases halloc : s.requests.objpoolAllocWithId with
  | some res => exact ⟨res.1, res.2, rfl⟩
  | none =>
      exfalso
      -- every slot is in use
      have hused : ∀ r, r < p.cpuNum → s.requests.Used r := by
        intro r hr
        have hlt : r < s.requests.num := hl.num.symm ▸ hr
        rw [ObjPool.objpoolAllocWithId] at halloc
        cases hfind : bitmapFindNth s.requests.bitmap 0 s.requests.num 1 0 false with
        | some n =>
            rw [hfind] at halloc
            cases halloc
        | none =>
            have hbit := bitmapFindNth_one_none hfind r (Nat.zero_le r) hlt
            rw [Nat.zero_add] at hbit
            exact ⟨hlt, by simpa using hbit⟩
      have hmaps : ∀ r ∈ Finset.range p.cpuNum,
          (s.requests.objs r).cpuId ∈ (Finset.range p.cpuNum).erase cpu := by
        intro r hr
        have hof : s.RequestOf r (s.requests.objs r).cpuId := ⟨hused r (Finset.mem_range.mp hr), rfl⟩
        refine Finset.mem_erase.mpr ⟨fun heq => ?_, Finset.mem_range.mpr (h.cpu_lt _ _ hof)⟩
        rw [heq] at hof
        have hpaused := (h.paused cpu).mpr ⟨r, hof⟩
        rw [hactive] at hpaused
        cases hpaused
      have hinj : Set.InjOn (fun r => (s.requests.objs r).cpuId) (Finset.range p.cpuNum) := by
        intro r hr r' hr' heq
        have hof : s.RequestOf r (s.requests.objs r).cpuId :=
          ⟨hused r (Finset.mem_range.mp hr), rfl⟩
        have hof' : s.RequestOf r' (s.requests.objs r).cpuId :=
          ⟨hused r' (Finset.mem_range.mp hr'), heq.symm⟩
        exact h.one r r' _ hof hof'
      have hcard := Finset.card_le_card_of_injOn _ hmaps hinj
      rw [Finset.card_erase_of_mem (Finset.mem_range.mpr hcpu), Finset.card_range] at hcard
      omega

theorem RemioSlots.no_request (h : RemioSlots p s) {cpu : Nat} (hactive : s.active cpu = true)
    (r : Nat) : ¬ s.RequestOf r cpu := by
  intro hr
  have hpaused := (h.paused cpu).mpr ⟨r, hr⟩
  rw [hactive] at hpaused
  cases hpaused

/-- A slot that was not in use becomes the request of a CPU, whose vCPU is
paused. -/
theorem RemioSlots.take (h : RemioSlots p s) {cpu : Nat} (id : Nat) (hcpu : cpu < p.cpuNum)
    (hactive : s.active cpu = true)
    (hrequestOf : ∀ r c, s'.RequestOf r c ↔ (r = id ∧ c = cpu) ∨ s.RequestOf r c)
    (hpaused : ∀ c, s'.active c = if c = cpu then false else s.active c) : RemioSlots p s' := by
  have hnone := h.no_request hactive
  constructor
  · intro r c hr
    rcases (hrequestOf r c).mp hr with ⟨_, rfl⟩ | hr
    · exact hcpu
    · exact h.cpu_lt r c hr
  · intro r r' c hr hr'
    rcases (hrequestOf r c).mp hr with ⟨hid, hc⟩ | hr
    · rcases (hrequestOf r' c).mp hr' with ⟨hid', _⟩ | hr'
      · rw [hid, hid']
      · exact (hnone r' (hc ▸ hr')).elim
    · rcases (hrequestOf r' c).mp hr' with ⟨_, hc⟩ | hr'
      · exact (hnone r (hc ▸ hr)).elim
      · exact h.one r r' c hr hr'
  · intro c
    rw [hpaused]
    by_cases hc : c = cpu
    · rw [if_pos hc]
      exact ⟨fun _ => ⟨id, (hrequestOf id c).mpr (.inl ⟨rfl, hc⟩)⟩, fun _ => rfl⟩
    · rw [if_neg hc, h.paused c]
      have hsame : ∀ r, s'.RequestOf r c ↔ s.RequestOf r c := by
        intro r
        rw [hrequestOf r c]
        exact ⟨fun hr => hr.resolve_left fun hnew => hc hnew.2, .inr⟩
      simp only [hsame]

theorem RemioSlots.release (h : RemioSlots p s) {cpu id : Nat} (hid : s.RequestOf id cpu)
    (hrequestOf : ∀ r c, s'.RequestOf r c ↔ s.RequestOf r c ∧ r ≠ id)
    (hresumed : ∀ c, s'.active c = if c = cpu then true else s.active c) : RemioSlots p s' := by
  constructor
  · intro r c hr
    exact h.cpu_lt r c ((hrequestOf r c).mp hr).1
  · intro r r' c hr hr'
    exact h.one r r' c ((hrequestOf r c).mp hr).1 ((hrequestOf r' c).mp hr').1
  · intro c
    rw [hresumed]
    by_cases hc : c = cpu
    · rw [if_pos hc]
      constructor
      · intro hfalse
        cases hfalse
      · intro hr
        obtain ⟨r, hr⟩ := hr
        obtain ⟨hr, hne⟩ := (hrequestOf r c).mp hr
        exact (hne (h.one r id c hr (hc ▸ hid))).elim
    · rw [if_neg hc, h.paused c]
      have hsame : ∀ r, s'.RequestOf r c ↔ s.RequestOf r c := by
        intro r
        rw [hrequestOf r c]
        refine ⟨fun hr => hr.1, fun hr => ⟨hr, fun heq => hc ?_⟩⟩
        rw [← hr.2, ← hid.2, heq]
      simp only [hsame]

/-- **What an access does.**  It queues the request in an unused slot on its
device, notifies the backend, and pauses its CPU, whose slot it is. -/
theorem remioMmioEmulHandler_some {cpu d : Nat} {acc : RemioAccess} {queued : Bool}
    (hmmio : remioMmioEmulHandler s queued cpu d acc = some s') :
    ∃ id requests dev, s.requests.objpoolAllocWithId = some (id, requests) ∧ s.DeviceAt d dev ∧
      s'.devices = s.devices.set d { dev with pending := dev.pending ++ [id] } ∧
      s'.msgs = (remioCpuSendMsg s queued dev.backend.cpuId
        (remioMsg .notify 0 0 dev.backend.interrupt)).msgs ∧
      (∀ r c, s'.RequestOf r c ↔ (r = id ∧ c = cpu) ∨ s.RequestOf r c) ∧
      ∀ c, s'.active c = if c = cpu then false else s.active c := by
  rw [remioMmioEmulHandler, remioCreateRequest] at hmmio
  cases hdev : s.devices[d]? with
  | none =>
      simp only [hdev] at hmmio
      cases hmmio
  | some dev =>
      cases halloc : s.requests.objpoolAllocWithId with
      | none =>
          simp only [hdev, halloc] at hmmio
          cases hmmio
      | some res =>
          obtain ⟨id, requests⟩ := res
          obtain ⟨_, hfree, _, hobjs, hused⟩ := ObjPool.objpoolAllocWithId_some halloc
          simp only [hdev, halloc] at hmmio
          split at hmmio
          · cases hmmio
          · rename_i dev' hdev'
            have hsame := @setDevice_deviceAt_same s d { dev with pending := dev.pending ++ [id] }
              dev hdev
            obtain rfl := Option.some.inj (hsame.symm.trans hdev')
            cases hmmio
            refine ⟨id, requests, dev, rfl, hdev, ?_, ?_, fun r c => ?_, fun c => rfl⟩
            · cases queued <;> rfl
            · cases queued <;> rfl
            refine Iff.trans ((SameOwners.sendMsg _ queued dev.backend.cpuId
              (remioMsg .notify 0 0 dev.backend.interrupt)).requestOf r c) ?_
            by_cases hr : r = id
            · subst hr
              simp only [RemioState.RequestOf, RemioState.setDevice, RemioState.setRequest,
                ObjPool.setObj_used, ObjPool.setObj_same, hused, newRequest, hfree]
              grind
            · simp only [RemioState.RequestOf, RemioState.setDevice, RemioState.setRequest,
                ObjPool.setObj_used, ObjPool.setObj_other hr, hused, hobjs]
              grind

/-- **An access** of an active vCPU takes a slot for its CPU and pauses it. -/
theorem RemioSlots.mmio (h : RemioSlots p s) {cpu d : Nat} {acc : RemioAccess} {queued : Bool}
    (hcpu : cpu < p.cpuNum) (hactive : s.active cpu = true)
    (hmmio : remioMmioEmulHandler s queued cpu d acc = some s') : RemioSlots p s' := by
  obtain ⟨id, _, _, _, _, _, _, hrequestOf, hpaused⟩ := remioMmioEmulHandler_some hmmio
  exact h.take id hcpu hactive hrequestOf hpaused

/-- **What a message does.**  It leaves the devices alone, and changes no owner
or frees a request of its CPU and resumes it. -/
theorem remioCpuMsgHandler_cases (hl : RemioListed p s) {cpu : Nat} {msg : RemioMsg}
    {rest : List RemioMsg} (hmsgs : s.msgs cpu = msg :: rest)
    (hs' : s' = remioCpuMsgHandler
      { s with msgs := fun c => if c = cpu then rest else s.msgs c } cpu msg) :
    s'.devices = s.devices ∧ (SameOwners s s' ∨ ∃ id, s.RequestOf id cpu ∧
      (∀ r c, s'.RequestOf r c ↔ s.RequestOf r c ∧ r ≠ id) ∧
      ∀ c, s'.active c = if c = cpu then true else s.active c) := by
  have hpop : SameOwners s { s with msgs := fun c => if c = cpu then rest else s.msgs c } :=
    .of_requests rfl rfl
  by_cases hnotify : msg.event = .notify
  · rw [remioCpuMsgHandler, hnotify] at hs'
    subst hs'
    exact ⟨rfl, .inl hpop⟩
  · have hmem : msg ∈ s.msgs cpu := by rw [hmsgs]; exact List.mem_cons_self
    obtain ⟨hused, _, hcpu⟩ := hl.inflight cpu msg msg.requestId hmem ⟨hnotify, rfl⟩
    rcases remioCpuMsgHandler_work { s with msgs := fun c => if c = cpu then rest else s.msgs c }
      cpu hnotify with hfail | hfree
    · rw [hs', hfail]
      exact ⟨rfl, .inl (hpop.trans (.of_requests rfl rfl))⟩
    · rw [hs', hfree]
      refine ⟨rfl, .inr ⟨msg.requestId, ⟨hused, hcpu⟩, fun q c => ?_, fun c => rfl⟩⟩
      by_cases hq : q = msg.requestId
      · subst hq
        simp [RemioState.RequestOf, ObjPool.objpoolFree_used]
      · simp [RemioState.RequestOf, ObjPool.objpoolFree_used, ObjPool.setObj_other hq, hq]

/-- **A message** on a CPU frees at most the request of that CPU. -/
theorem RemioSlots.deliver (h : RemioSlots p s) (hl : RemioListed p s) {cpu : Nat}
    {msg : RemioMsg} {rest : List RemioMsg} (hmsgs : s.msgs cpu = msg :: rest) :
    RemioSlots p (remioCpuMsgHandler
      { s with msgs := fun c => if c = cpu then rest else s.msgs c } cpu msg) := by
  obtain ⟨_, hsame | ⟨id, hid, hrequestOf, hresumed⟩⟩ := remioCpuMsgHandler_cases hl hmsgs rfl
  · exact h.congr hsame
  · exact h.release hid hrequestOf hresumed

theorem RemioSlots.step (h : RemioSlots p s) (hl : RemioListed p s) {e : RemioEvent}
    (hok : GuestRuns p s e) (hstep : RemioStep p s e s') : RemioSlots p s' := by
  cases hstep with
  | assign => exact h.congr (.of_requests rfl rfl)
  | mmio _ _ _ _ hmmio => exact h.mmio hok.1 hok.2 hmmio
  | mmioRefused => exact h
  | mmioNoDevice => exact h
  | hypercall _ _ hcall => exact h.congr (.hypercall hcall)
  | deliver _ hmsgs => exact h.deliver hl hmsgs

theorem RemioSlots.initial (hinit : RemioInitial p s) (hactive : ∀ cpu, s.active cpu = true) :
    RemioSlots p s := by
  have hnone : ∀ r cpu, ¬ s.RequestOf r cpu := by
    intro r cpu hr
    have hbit := hr.1.2
    rw [hinit.2.1] at hbit
    cases hbit
  refine ⟨fun r cpu hr => (hnone r cpu hr).elim, fun r _ cpu hr => (hnone r cpu hr).elim,
    fun cpu => ?_⟩
  constructor
  · intro hpaused
    rw [hactive] at hpaused
    cases hpaused
  · intro hr
    obtain ⟨r, hr⟩ := hr
    exact (hnone r cpu hr).elim

theorem remioSlots_reach (h : (remioStarted p).Reach (GuestRuns p) s) :
    RemioListed p s ∧ RemioSlots p s := by
  have hinit : ∀ s, (remioStarted p).init s → RemioListed p s ∧ RemioSlots p s :=
    fun s hs => ⟨(remio_initial hs.1).1, .initial hs.1 hs.2⟩
  have hstep : ∀ s e s', RemioListed p s ∧ RemioSlots p s → GuestRuns p s e →
      (remioStarted p).step s e s' → RemioListed p s' ∧ RemioSlots p s' := by
    intro s e s' hs hok hstep
    exact ⟨(remio_step hs.1 hstep).1, hs.2.step hs.1 hok hstep⟩
  exact h.invariant hinit hstep

/-- **Remote I/O never runs out of request slots.**  While only active vCPUs
run guest code, a CPU has at most one request, a vCPU is paused exactly while
its CPU has one, and an access of an active vCPU always gets a slot of the
pool, which has one slot per CPU. -/
theorem remio_slots_suffice (h : (remioStarted p).Reach (GuestRuns p) s) :
    s.requests.num = p.cpuNum ∧
    (∀ r r' cpu, s.RequestOf r cpu → s.RequestOf r' cpu → r = r') ∧
    (∀ cpu, s.active cpu = false ↔ ∃ r, s.RequestOf r cpu) ∧
    ∀ cpu d acc dev, cpu < p.cpuNum → s.active cpu = true → s.DeviceAt d dev →
      ∃ s', remioCreateRequest s cpu d acc = some s' := by
  obtain ⟨hl, hslots⟩ := remioSlots_reach h
  refine ⟨hl.num, hslots.one, hslots.paused, fun cpu d acc dev hcpu hactive hdev => ?_⟩
  obtain ⟨id, requests, halloc⟩ := hslots.alloc_some hl hcpu hactive
  rw [RemioState.DeviceAt] at hdev
  simp only [remioCreateRequest, hdev, halloc]
  exact ⟨_, rfl⟩

/-- The frontend of the pair accessed its device and is paused, and another
access, of the backend's CPU, would get the other slot. -/
theorem remio_slots_suffice_pair :
    (∃ r, pairAccessed.RequestOf r 1) ∧
    ∃ s', remioCreateRequest pairAccessed 0 0 pairAccess = some s' := by
  have hstart : (remioStarted pairPlatform).init pairStart :=
    ⟨⟨rfl, rfl, fun _ => rfl, fun _ => rfl⟩, fun _ => rfl⟩
  have hready : (remioStarted pairPlatform).Reach (GuestRuns pairPlatform) pairReady :=
    .step (e := .assign 1) (.step (e := .assign 0) (.init hstart) trivial (.assign rfl)) trivial
      (.assign rfl)
  have haccessed : (remioStarted pairPlatform).Reach (GuestRuns pairPlatform) pairAccessed :=
    hready.step (e := .mmio 1 pairAccess) ⟨by decide, rfl⟩
      (@RemioStep.mmio _ _ _ 1 0 _ _ true rfl rfl rfl rfl rfl)
  obtain ⟨_, _, hpaused, hcreate⟩ := remio_slots_suffice haccessed
  exact ⟨(hpaused 1).mp rfl, hcreate 0 0 pairAccess _ (by decide) rfl rfl⟩

end Bao

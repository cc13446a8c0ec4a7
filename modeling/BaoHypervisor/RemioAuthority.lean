import BaoHypervisor.RemioRequests

/-!
# Who may serve a device

Requests of a device are meant to be served by its backend VM.  The device
lookup of a hypercall accepts either side, so a frontend VM can serve the
requests of its own device.  The theorem below says exactly for which calls,
in any reachable state, only the backend serves.
-/

namespace Bao

variable {p : RemioPlatform} {s s' : RemioState}

/-- The call leaves the list and the requests of device `d` alone, and
returns none of them. -/
structure Untouched (p : RemioPlatform) (s s' : RemioState) (cpu : Nat) (args : RemioArgs)
    (regs : List Nat) (d : Nat) (dev : RemioDevice) : Prop where
  list : ∃ dev', s'.DeviceAt d dev' ∧ dev'.pending = dev.pending
  requests : ∀ r, (s.requests.objs r).bindKey = dev.bindKey →
    s'.requests.objs r = s.requests.objs r
  unrevealed : regs ≠ [] → remioHypercallDevice p s cpu args ≠ .ok d

/-- Device `d` is the one that its key finds. -/
def DeviceKnown (s : RemioState) (d : Nat) (dev : RemioDevice) : Prop :=
  s.DeviceAt d dev ∧ remioFindDevByBindKey s.devices dev.bindKey = some d

/-- Only the backend serves: a call from any other VM leaves every request of
the device untouched. -/
def OnlyBackendServes (p : RemioPlatform) (s : RemioState) (cpu : Nat) (args : RemioArgs) : Prop :=
  ∀ queued ret regs s', remioHypercall p s queued cpu args = (ret, regs, s') →
    ∀ d dev, DeviceKnown s d dev → p.vmOf cpu ≠ dev.backend.vmId →
      Untouched p s s' cpu args regs d dev

/-- The call takes, answers or drops a request of device `d`. -/
def RemioServes (p : RemioPlatform) (s : RemioState) (args : RemioArgs) (d : Nat) : Prop :=
  (args.op = hypAsk ∧ args.addr = 0 ∧ args.value = 0 ∧
    ∃ dev, s.DeviceAt d dev ∧ dev.pending ≠ []) ∨
  ((args.op = hypWrite ∨ args.op = hypRead) ∧ RemioAnswers p s args d)

/-- The call resolves to a device whose backend is another VM, and serves it. -/
def FrontendServes (p : RemioPlatform) (s : RemioState) (cpu : Nat) (args : RemioArgs) : Prop :=
  ∃ d dev, remioHypercallDevice p s cpu args = .ok d ∧ s.DeviceAt d dev ∧
    p.vmOf cpu ≠ dev.backend.vmId ∧ RemioServes p s args d

theorem untouched_other {cpu d e : Nat} {args : RemioArgs} {dev old : RemioDevice}
    {regs : List Nat} (hcall : remioHypercallDevice p s cpu args = .ok e)
    (hknown : remioFindDevByBindKey s.devices old.bindKey = some e)
    (hd : DeviceKnown s d dev) (hne : d ≠ e)
    (hlist : ∀ dev', s.DeviceAt d dev' → s'.DeviceAt d dev')
    (hrequests : ∀ r, (s.requests.objs r).bindKey ≠ old.bindKey →
      s'.requests.objs r = s.requests.objs r) :
    Untouched p s s' cpu args regs d dev := by
  refine ⟨⟨dev, hlist dev hd.1, rfl⟩, fun r hr => hrequests r (fun heq => hne ?_), fun _ h => ?_⟩
  · have hfind := hd.2
    rw [← hr, heq, hknown] at hfind
    exact (Option.some.inj hfind).symm
  · rw [hcall] at h
    exact hne (Except.ok.inj h).symm

theorem remioHypercallDevice_known {cpu d : Nat} {args : RemioArgs}
    (h : remioHypercallDevice p s cpu args = .ok d) :
    ∃ dev, DeviceKnown s d dev ∧
      (p.vmOf cpu = dev.backend.vmId ∨ p.vmOf cpu = dev.frontend.vmId) := by
  rw [remioHypercallDevice] at h
  split at h
  · cases h
  · split at h
    · cases h
    · next hfind =>
        obtain rfl := Except.ok.inj h
        obtain ⟨hkey, dev, hdev, hvm⟩ := remioFindVmDevByBindKey_some hfind
        obtain ⟨dev', hdev', hkey'⟩ := remioFindDevByBindKey_some hkey
        obtain rfl := Option.some.inj (hdev.symm.trans hdev')
        exact ⟨dev, ⟨hdev, by rw [hkey', hkey]⟩, hvm⟩

theorem remioHypercall_effect {queued : Bool} {cpu : Nat} {args : RemioArgs} {ret : Int}
    {regs : List Nat} (hl : RemioListed p s) (hword : args.requestId < p.machine.wordCount)
    (h : remioHypercall p s queued cpu args = (ret, regs, s')) :
    (regs = [] ∧ s'.devices = s.devices ∧ s'.requests = s.requests ∧
      ∀ d, remioHypercallDevice p s cpu args = .ok d → ¬ RemioServes p s args d) ∨
    ∃ d dev, remioHypercallDevice p s cpu args = .ok d ∧ DeviceKnown s d dev ∧
      RemioServes p s args d ∧ (∀ e dev', e ≠ d → s.DeviceAt e dev' → s'.DeviceAt e dev') ∧
      (∀ r, (s.requests.objs r).bindKey ≠ dev.bindKey → s'.requests.objs r = s.requests.objs r) ∧
      ¬ Untouched p s s' cpu args regs d dev := by
  rw [remioHypercall] at h
  cases hd : remioHypercallDevice p s cpu args with
  | error code =>
      rw [hd] at h
      obtain ⟨rfl, rfl, rfl⟩ : _ ∧ _ ∧ _ := by simpa using h
      exact .inl ⟨rfl, rfl, rfl, fun d h => by cases h⟩
  | ok d =>
      rw [hd] at h
      simp only at h
      obtain ⟨dev, hknown, -⟩ := remioHypercallDevice_known hd
      have hthe : ∀ dev', s.DeviceAt d dev' → dev' = dev := fun dev' h' =>
        (Option.some.inj (hknown.1.symm.trans h')).symm
      by_cases hrw : args.op = hypWrite ∨ args.op = hypRead
      · rw [if_pos hrw] at h
        cases hcall : remioHypercallRw p s queued cpu args d with
        | mk code s1 =>
            rw [hcall] at h
            obtain ⟨rfl, rfl, rfl⟩ : _ ∧ _ ∧ _ := by simpa using h
            rcases remioHypercallRw_cases hl hword hcall with ⟨-, rfl, hnot⟩ |
              ⟨-, hneg, dev1, r, rest, hdev1, hpend, rfl⟩ |
              ⟨-, dev1, msg, hdev1, hlt, hkey, hstate, hcomp, rfl⟩
            · refine .inl ⟨rfl, rfl, rfl, fun e he => ?_⟩
              obtain rfl := Except.ok.inj he
              rintro (⟨hask, -⟩ | ⟨-, hans⟩)
              · rcases hrw with h | h <;> rw [hask] at h <;> cases h
              · exact hnot hans
            · obtain rfl := hthe dev1 hdev1
              refine .inr ⟨d, dev1, rfl, hknown,
                .inr ⟨hrw, dev1, hdev1, .inl ⟨hneg, by rw [hpend]; exact List.cons_ne_nil _ _⟩⟩,
                fun e dev' he hdev' => setDevice_deviceAt_other he hdev', fun _ _ => rfl,
                fun hun => ?_⟩
              obtain ⟨dev', hdev', hsame⟩ := hun.list
              obtain rfl := Option.some.inj ((setDevice_deviceAt_same hdev1).symm.trans hdev')
              rw [hpend] at hsame
              exact List.cons_ne_self r rest hsame.symm
            · obtain rfl := hthe dev1 hdev1
              have hobjs : ∀ q, q ≠ args.requestId → (remioCpuSendMsg (s.setRequest args.requestId
                  (answered (s.requests.objs args.requestId) args.value)) queued
                  (s.requests.objs args.requestId).cpuId msg).requests.objs q =
                  s.requests.objs q := by
                intro q hq
                cases queued <;> exact ObjPool.setObj_other hq
              refine .inr ⟨d, dev1, rfl, hknown, .inr ⟨hrw, dev1, hdev1, .inr ⟨?_, hlt, hkey, hstate⟩⟩,
                fun e dev' he hdev' => ?_, fun q hq => hobjs q ?_, fun hun => ?_⟩
              · refine p.machine.ssize_of_lt ?_
                have := hl.num
                have := p.cpuNum_le
                have := p.machine.two_pageCount_le_signBit
                have := p.machine.sixtyFour_le_pageCount
                omega
              · cases queued <;> exact hdev'
              · rintro rfl
                exact hq hkey
              · have hsame := hun.requests args.requestId hkey
                have hnow : (remioCpuSendMsg (s.setRequest args.requestId
                    (answered (s.requests.objs args.requestId) args.value)) queued
                    (s.requests.objs args.requestId).cpuId msg).requests.objs args.requestId =
                    answered (s.requests.objs args.requestId) args.value := by
                  cases queued <;> exact ObjPool.setObj_same _ _ _
                rw [hnow] at hsame
                rw [← hsame] at hstate
                cases hstate
      · rw [if_neg hrw] at h
        by_cases hask : args.op = hypAsk
        · rw [if_pos hask] at h
          rcases remioHandleAsk_cases hl h with ⟨-, rfl, rfl, hnot⟩ |
            ⟨haddr, hvalue, -, hregs, dev1, r, rest, hdev1, hpend, rfl⟩
          · refine .inl ⟨rfl, rfl, rfl, fun e he => ?_⟩
            obtain rfl := Except.ok.inj he
            rintro (⟨-, haddr, hvalue, dev1, hdev1, hne⟩ | ⟨h, -⟩)
            · exact hne (hnot haddr hvalue dev1 hdev1)
            · exact hrw h
          · obtain rfl := hthe dev1 hdev1
            have hkey := (hl.popRequest hdev1 hpend).2.2.2.1
            refine .inr ⟨d, dev1, rfl, hknown, .inl ⟨hask, haddr, hvalue, dev1, hdev1,
              by rw [hpend]; exact List.cons_ne_nil _ _⟩,
              fun e dev' he hdev' => setDevice_deviceAt_other he hdev', fun q hq => ?_,
              fun hun => hun.unrevealed hregs hd⟩
            refine ObjPool.setObj_other ?_
            rintro rfl
            exact hq hkey
        · rw [if_neg hask] at h
          have hno : ∀ e, (Except.ok d : Except Int Nat) = .ok e → ¬ RemioServes p s args e := by
            rintro e - (⟨h, -⟩ | ⟨h, -⟩)
            · exact hask h
            · exact hrw h
          by_cases hnotify : args.op = hypNotify
          · rw [if_pos hnotify] at h
            split at h
            · obtain ⟨rfl, rfl, rfl⟩ : _ ∧ _ ∧ _ := by simpa using h
              exact .inl ⟨rfl, rfl, rfl, hno⟩
            · obtain ⟨rfl, rfl, rfl⟩ : _ ∧ _ ∧ _ := by simpa using h
              cases queued <;> exact .inl ⟨rfl, rfl, rfl, hno⟩
          · rw [if_neg hnotify] at h
            obtain ⟨rfl, rfl, rfl⟩ : _ ∧ _ ∧ _ := by simpa using h
            exact .inl ⟨rfl, rfl, rfl, hno⟩

/-- **Only the backend serves a device** in a call, in any reachable state,
exactly when the call does not serve a device from another VM's side. -/
theorem only_backend_serves_iff (h : (remioSystem p).Reachable s) {cpu : Nat} {args : RemioArgs}
    (hword : args.requestId < p.machine.wordCount) :
    OnlyBackendServes p s cpu args ↔ ¬ FrontendServes p s cpu args := by
  have hl := remio_listed h
  constructor
  · rintro honly ⟨d, dev, hcall, hdev, hvm, hserves⟩
    rcases remioHypercall_effect hl hword (Prod.eta _ : _ = remioHypercall p s true cpu args).symm with
      ⟨-, -, -, hnot⟩ | ⟨d1, dev1, hcall1, hknown, -, -, -, htouched⟩
    · exact hnot d hcall hserves
    · obtain rfl := Except.ok.inj (hcall.symm.trans hcall1)
      obtain rfl := Option.some.inj (hdev.symm.trans hknown.1)
      exact htouched (honly true _ _ _ rfl d dev hknown hvm)
  · intro hnot queued ret regs s' hcall d dev hknown hvm
    rcases remioHypercall_effect hl hword hcall with
      ⟨rfl, hdevices, hrequests, -⟩ | ⟨e, dev1, hcall1, hknown1, hserves, hlists, hobjs, -⟩
    · refine ⟨⟨dev, ?_, rfl⟩, fun r _ => by rw [hrequests], fun hne => (hne rfl).elim⟩
      rw [RemioState.DeviceAt, hdevices]
      exact hknown.1
    · have hne : d ≠ e := by
        rintro rfl
        obtain rfl := Option.some.inj (hknown.1.symm.trans hknown1.1)
        exact hnot ⟨d, dev, hcall1, hknown.1, hvm, hserves⟩
      exact untouched_other hcall1 hknown1.2 hknown hne (fun dev' h' => hlists d dev' hne h') hobjs

theorem pairAccessed_reachable : (remioSystem pairPlatform).Reachable pairAccessed :=
  pairAccessed_reach.mono (fun _ _ _ => trivial)

/-- The condition at an ask of the backend and at one of the frontend. -/
theorem only_backend_serves_pair :
    (OnlyBackendServes pairPlatform pairAccessed 0 (pairCall hypAsk 0) ↔
      ¬ FrontendServes pairPlatform pairAccessed 0 (pairCall hypAsk 0)) ∧
    (OnlyBackendServes pairPlatform pairAccessed 1 (pairCall hypAsk 0) ↔
      ¬ FrontendServes pairPlatform pairAccessed 1 (pairCall hypAsk 0)) :=
  ⟨only_backend_serves_iff pairAccessed_reachable (by decide),
    only_backend_serves_iff pairAccessed_reachable (by decide)⟩

/-- The frontend VM asks its own device: the request is revealed and moves to
processing, although VM 0 is the backend. -/
theorem frontend_asks_own_device :
    ∃ (s : RemioState) (dev : RemioDevice),
      (remioSystem pairPlatform).Reachable pairAccessed ∧
      DeviceKnown pairAccessed 0 dev ∧ dev.backend.vmId = 0 ∧ pairPlatform.vmOf 1 = 1 ∧
      RemioStep pairPlatform pairAccessed
        (.hypercall 1 (pairCall hypAsk 0) hcSuccess [0x1000, hypWrite, 5, 4, 0, 0]) s ∧
      (pairAccessed.requests.objs 0).state = .pending ∧
      (s.requests.objs 0).state = .processing ∧
      ¬ OnlyBackendServes pairPlatform pairAccessed 1 (pairCall hypAsk 0) := by
  have hcall : remioHypercall pairPlatform pairAccessed true 1 (pairCall hypAsk 0) =
      (hcSuccess, [0x1000, hypWrite, 5, 4, 0, 0],
        (remioHypercall pairPlatform pairAccessed true 1 (pairCall hypAsk 0)).2.2) := rfl
  refine ⟨_, pairAccessed.devices[0], pairAccessed_reachable, ⟨rfl, rfl⟩, rfl, rfl,
    .hypercall rfl (by decide) hcall, rfl, rfl, fun honly => ?_⟩
  have hun := honly true _ _ _ hcall 0 pairAccessed.devices[0] ⟨rfl, rfl⟩ (by decide)
  exact hun.unrevealed (List.cons_ne_nil _ _) rfl

end Bao

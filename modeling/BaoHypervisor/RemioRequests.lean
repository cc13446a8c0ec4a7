import BaoHypervisor.Remio

/-!
# Every request is in one place

An allocated request is either pending and on the list of its device, or
being served and on no list.  What keeps it there is an invariant of all
runs, `RemioListed` (lists hold pending requests of their own device, once,
and a completion is in flight once for a complete request), and one of the
runs in which no write or read hypercall names the next pending request,
`RemioQueued` (pending requests are listed).
-/

namespace Bao

variable {p : RemioPlatform} {s s' : RemioState}

/-- Device `d` of the state is `dev`. -/
abbrev RemioState.DeviceAt (s : RemioState) (d : Nat) (dev : RemioDevice) : Prop :=
  s.devices[d]? = some dev

/-- The message completes request `r`. -/
def RemioMsg.Completes (msg : RemioMsg) (r : Nat) : Prop :=
  msg.event ≠ .notify ∧ msg.requestId = r

instance (msg : RemioMsg) (r : Nat) : Decidable (msg.Completes r) :=
  inferInstanceAs (Decidable (_ ∧ _))

/-- What every run keeps. -/
structure RemioListed (p : RemioPlatform) (s : RemioState) : Prop where
  num : s.requests.num = p.cpuNum
  owner : ∀ (d : Nat) (dev : RemioDevice), s.DeviceAt d dev → dev.pending ≠ [] →
    remioFindDevByBindKey s.devices dev.bindKey = some d
  listed : ∀ (d : Nat) (dev : RemioDevice) (r : Nat), s.DeviceAt d dev → r ∈ dev.pending →
    s.requests.Used r ∧ (s.requests.objs r).state = .pending ∧
      (s.requests.objs r).bindKey = dev.bindKey
  nodup : ∀ (d : Nat) (dev : RemioDevice), s.DeviceAt d dev → dev.pending.Nodup
  inUse : ∀ r, r < s.requests.num → (s.requests.Used r ↔ (s.requests.objs r).state ≠ .free)
  inflight : ∀ (cpu : Nat) (msg : RemioMsg) (r : Nat), msg ∈ s.msgs cpu → msg.Completes r →
    s.requests.Used r ∧ (s.requests.objs r).state = .complete ∧
      (s.requests.objs r).cpuId = cpu
  once : ∀ cpu r, (s.msgs cpu).countP (fun msg => decide (msg.Completes r)) ≤ 1

/-- Every pending request is on a list. -/
def RemioQueued (s : RemioState) : Prop :=
  ∀ r, s.requests.Used r → (s.requests.objs r).state = .pending →
    ∃ d dev, s.DeviceAt d dev ∧ r ∈ dev.pending

/-- Request `r` is in exactly one place. -/
def RemioOnePlace (s : RemioState) (r : Nat) : Prop :=
  ((s.requests.objs r).state = .pending ∧
    ∃ d dev, s.DeviceAt d dev ∧ dev.bindKey = (s.requests.objs r).bindKey ∧
      dev.pending.count r = 1 ∧
      ∀ d' dev', s.DeviceAt d' dev' → d' ≠ d → r ∉ dev'.pending) ∨
  (((s.requests.objs r).state = .processing ∨ (s.requests.objs r).state = .complete) ∧
    ∀ d dev, s.DeviceAt d dev → r ∉ dev.pending)

theorem RemioListed.same_device (hl : RemioListed p s) {d d' r r' : Nat}
    {dev dev' : RemioDevice} (hdev : s.DeviceAt d dev) (hdev' : s.DeviceAt d' dev')
    (hr : r ∈ dev.pending) (hr' : r' ∈ dev'.pending) (hkey : dev.bindKey = dev'.bindKey) :
    d = d' := by
  have h := hl.owner d dev hdev (List.ne_nil_of_mem hr)
  have h' := hl.owner d' dev' hdev' (List.ne_nil_of_mem hr')
  rw [hkey, h'] at h
  exact (Option.some.inj h).symm

theorem onePlace_of_listed (hl : RemioListed p s) (hq : RemioQueued s) {r : Nat}
    (hr : s.requests.Used r) : RemioOnePlace s r := by
  cases hstate : (s.requests.objs r).state with
  | free => exact ((hl.inUse r hr.1).mp hr hstate).elim
  | pending =>
      obtain ⟨d, dev, hdev, hmem⟩ := hq r hr hstate
      obtain ⟨-, -, hkey⟩ := hl.listed d dev r hdev hmem
      refine .inl ⟨hstate, d, dev, hdev, hkey.symm,
        by rw [(hl.nodup d dev hdev).count, if_pos hmem], fun d' dev' hdev' hne hmem' => ?_⟩
      obtain ⟨-, -, hkey'⟩ := hl.listed d' dev' r hdev' hmem'
      exact hne (hl.same_device hdev' hdev hmem' hmem (hkey'.symm.trans hkey))
  | processing =>
      refine .inr ⟨.inl hstate, fun d dev hdev hmem => ?_⟩
      rw [(hl.listed d dev r hdev hmem).2.1] at hstate
      cases hstate
  | complete =>
      refine .inr ⟨.inr hstate, fun d dev hdev hmem => ?_⟩
      rw [(hl.listed d dev r hdev hmem).2.1] at hstate
      cases hstate

/-! ## The device list -/

theorem setDevice_deviceAt {d d' : Nat} {dev dev' old : RemioDevice} (hold : s.DeviceAt d old)
    (h : (s.setDevice d dev).DeviceAt d' dev') :
    (d' = d ∧ dev' = dev) ∨ (d' ≠ d ∧ s.DeviceAt d' dev') := by
  have hlt : d < s.devices.length := (List.getElem?_eq_some_iff.mp hold).1
  rw [RemioState.DeviceAt, RemioState.setDevice, List.getElem?_set] at h
  by_cases hd : d = d'
  · rw [if_pos hd, if_pos hlt] at h
    exact .inl ⟨hd.symm, (Option.some.inj h).symm⟩
  · rw [if_neg hd] at h
    exact .inr ⟨fun heq => hd heq.symm, h⟩

theorem setDevice_deviceAt_same {d : Nat} {dev old : RemioDevice} (hold : s.DeviceAt d old) :
    (s.setDevice d dev).DeviceAt d dev := by
  have hlt : d < s.devices.length := (List.getElem?_eq_some_iff.mp hold).1
  rw [RemioState.DeviceAt, RemioState.setDevice, List.getElem?_set, if_pos rfl, if_pos hlt]

theorem setDevice_deviceAt_other {d d' : Nat} {dev dev' : RemioDevice} (hd : d' ≠ d)
    (h : s.DeviceAt d' dev') : (s.setDevice d dev).DeviceAt d' dev' := by
  rw [RemioState.DeviceAt, RemioState.setDevice, List.getElem?_set,
    if_neg (fun heq => hd heq.symm)]
  exact h

theorem setDevice_keys {d : Nat} {dev old : RemioDevice} (hold : s.DeviceAt d old)
    (hkey : dev.bindKey = old.bindKey) :
    (s.setDevice d dev).devices.map RemioDevice.bindKey =
      s.devices.map RemioDevice.bindKey := by
  obtain ⟨hlt, rfl⟩ := List.getElem?_eq_some_iff.mp hold
  have hlt' : d < (s.devices.map RemioDevice.bindKey).length := by
    rw [List.length_map]
    exact hlt
  have hsame : dev.bindKey = (s.devices.map RemioDevice.bindKey)[d] := by
    rw [List.getElem_map, hkey]
  rw [RemioState.setDevice, List.map_set, hsame]
  exact List.set_getElem_self _

theorem remioFindDevByBindKey_keys {devices devices' : List RemioDevice}
    (h : devices'.map RemioDevice.bindKey = devices.map RemioDevice.bindKey) (key : Nat) :
    remioFindDevByBindKey devices' key = remioFindDevByBindKey devices key := by
  have hmap : ∀ l : List RemioDevice, remioFindDevByBindKey l key =
      (l.map RemioDevice.bindKey).findIdx? (fun k => k == key) := fun l => by
    rw [remioFindDevByBindKey, List.findIdx?_map]
    rfl
  rw [hmap, hmap, h]

theorem remioFindDevByBindKey_some {devices : List RemioDevice} {key d : Nat}
    (h : remioFindDevByBindKey devices key = some d) :
    ∃ dev, devices[d]? = some dev ∧ dev.bindKey = key := by
  obtain ⟨hlt, hkey, -⟩ := List.findIdx?_eq_some_iff_getElem.mp h
  exact ⟨devices[d], List.getElem?_eq_getElem hlt, by simpa using hkey⟩

/-! ## What a lookup does -/

/-- Nothing is found for the id on device `d`. -/
def RemioNotFound (s : RemioState) (d : Nat) (id : Int) : Prop :=
  ∀ dev, s.DeviceAt d dev → (id = -1 → dev.pending = []) ∧
    ∀ r : Nat, id = r → r < s.requests.num → (s.requests.objs r).bindKey ≠ dev.bindKey

/-- A lookup finds nothing, or finds a request of the device by its id, or
pops the next pending request. -/
theorem remioGetRequest_cases {d : Nat} {id : Int} {res : Option Nat}
    (h : remioGetRequest s d id = (res, s')) :
    (s' = s ∧ res = none ∧ RemioNotFound s d id) ∨
    (s' = s ∧ ∃ (dev : RemioDevice) (r : Nat), s.DeviceAt d dev ∧ id = r ∧
      r < s.requests.num ∧ (s.requests.objs r).bindKey = dev.bindKey ∧ res = some r) ∨
    (id = -1 ∧ ∃ dev r rest, s.DeviceAt d dev ∧ dev.pending = r :: rest ∧
      s' = s.setDevice d { dev with pending := rest } ∧
      res = if (s.requests.objs r).bindKey = dev.bindKey then some r else none) := by
  rw [remioGetRequest] at h
  cases hdev : s.devices[d]? with
  | none =>
      rw [hdev] at h
      obtain ⟨rfl, rfl⟩ := Prod.mk.inj h
      refine .inl ⟨rfl, rfl, fun dev h => ?_⟩
      rw [RemioState.DeviceAt, hdev] at h
      cases h
  | some dev =>
      rw [hdev] at h
      have hthe : ∀ dev', s.DeviceAt d dev' → dev' = dev := fun dev' h' =>
        (Option.some.inj (hdev.symm.trans h')).symm
      by_cases hid : id = -1
      · simp only [hid, if_true] at h
        cases hpend : dev.pending with
        | nil =>
            simp only [hpend] at h
            obtain ⟨rfl, rfl⟩ := Prod.mk.inj h
            refine .inl ⟨rfl, rfl, fun dev' h' => ⟨fun _ => ?_, fun r hr => by omega⟩⟩
            rw [hthe dev' h', hpend]
        | cons r rest =>
            simp only [hpend] at h
            refine .inr (.inr ⟨hid, dev, r, rest, hdev, hpend, ?_⟩)
            by_cases hkey : (s.requests.objs r).bindKey = dev.bindKey
            · rw [if_pos hkey]
              rw [if_pos (by exact hkey)] at h
              obtain ⟨rfl, rfl⟩ := Prod.mk.inj h
              exact ⟨rfl, rfl⟩
            · rw [if_neg hkey]
              rw [if_neg (by exact hkey)] at h
              obtain ⟨rfl, rfl⟩ := Prod.mk.inj h
              exact ⟨rfl, rfl⟩
      · simp only [hid, if_false] at h
        by_cases hpos : 0 ≤ id
        · obtain ⟨r, rfl⟩ := Int.eq_ofNat_of_zero_le hpos
          simp only [hpos, if_true, Int.toNat_natCast] at h
          cases hget : s.requests.objpoolGetById r with
          | none =>
              rw [hget] at h
              obtain ⟨rfl, rfl⟩ := Prod.mk.inj h
              refine .inl ⟨rfl, rfl, fun dev' h' => ⟨fun heq => (hid heq).elim, fun q hq hlt => ?_⟩⟩
              obtain rfl : r = q := by omega
              rw [ObjPool.objpoolGetById, if_pos hlt] at hget
              cases hget
          | some q =>
              rw [hget] at h
              obtain ⟨hlt, rfl⟩ := ObjPool.objpoolGetById_some.mp hget
              simp only at h
              by_cases hkey : (s.requests.objs q).bindKey = dev.bindKey
              · rw [if_pos hkey] at h
                obtain ⟨rfl, rfl⟩ := Prod.mk.inj h
                exact .inr (.inl ⟨rfl, dev, q, hdev, rfl, hlt, hkey, rfl⟩)
              · rw [if_neg hkey] at h
                obtain ⟨rfl, rfl⟩ := Prod.mk.inj h
                refine .inl ⟨rfl, rfl, fun dev' h' => ⟨fun heq => (hid heq).elim, fun q' hq _ => ?_⟩⟩
                obtain rfl : q = q' := by omega
                rwa [hthe dev' h']
        · simp only [hpos, if_false] at h
          obtain ⟨rfl, rfl⟩ := Prod.mk.inj h
          exact .inl ⟨rfl, rfl, fun dev' h' => ⟨fun heq => (hid heq).elim, fun r hr => by omega⟩⟩

theorem remioGetRequest_of_key {d r : Nat} {dev : RemioDevice} (hdev : s.DeviceAt d dev)
    (hlt : r < s.requests.num) (hkey : (s.requests.objs r).bindKey = dev.bindKey) :
    remioGetRequest s d r = (some r, s) := by
  have hne : (r : Int) ≠ -1 := by omega
  rw [remioGetRequest, hdev]
  simp only [hne, if_false, Int.natCast_nonneg, if_true, Int.toNat_natCast,
    ObjPool.objpoolGetById_some.mpr ⟨hlt, rfl⟩]
  rw [if_pos hkey]

theorem RemioListed.congr (hl : RemioListed p s) (hdevices : s'.devices = s.devices)
    (hrequests : s'.requests = s.requests) (hmsgs : s'.msgs = s.msgs) : RemioListed p s' := by
  obtain ⟨devices, requests, msgs, active, halted⟩ := s
  obtain ⟨devices', requests', msgs', active', halted'⟩ := s'
  simp only at hdevices hrequests hmsgs
  subst hdevices hrequests hmsgs
  exact ⟨hl.num, hl.owner, hl.listed, hl.nodup, hl.inUse, hl.inflight, hl.once⟩

theorem RemioListed.shrink (hl : RemioListed p s) (hrequests : s'.requests = s.requests)
    (hmsgs : s'.msgs = s.msgs)
    (hkeys : s'.devices.map RemioDevice.bindKey = s.devices.map RemioDevice.bindKey)
    (hdevices : ∀ d dev', s'.DeviceAt d dev' → ∃ dev, s.DeviceAt d dev ∧
      dev'.bindKey = dev.bindKey ∧ dev'.pending.Sublist dev.pending) : RemioListed p s' := by
  refine ⟨by rw [hrequests]; exact hl.num, fun d dev hdev hne => ?_,
    fun d dev r hdev hmem => ?_, fun d dev hdev => ?_, by rw [hrequests]; exact hl.inUse,
    by rw [hrequests, hmsgs]; exact hl.inflight, by rw [hmsgs]; exact hl.once⟩
  · obtain ⟨old, hold, hk, hsub⟩ := hdevices d dev hdev
    rw [remioFindDevByBindKey_keys hkeys, hk]
    exact hl.owner d old hold (fun hnil => hne (List.sublist_nil.mp (hnil ▸ hsub)))
  · obtain ⟨old, hold, hk, hsub⟩ := hdevices d dev hdev
    rw [hrequests, hk]
    exact hl.listed d old r hold (hsub.subset hmem)
  · obtain ⟨old, hold, -, hsub⟩ := hdevices d dev hdev
    exact (hl.nodup d old hold).sublist hsub

theorem RemioListed.setRequest (hl : RemioListed p s) {r : Nat} (req : RemioRequest)
    (hused : s.requests.Used r) (hoff : ∀ d dev, s.DeviceAt d dev → r ∉ dev.pending)
    (hnone : ∀ cpu msg, msg ∈ s.msgs cpu → ¬ msg.Completes r) (hstate : req.state ≠ .free) :
    RemioListed p (s.setRequest r req) := by
  refine ⟨hl.num, hl.owner, fun d dev q hdev hmem => ?_, hl.nodup, fun q hq => ?_,
    fun cpu msg q hmem hcomp => ?_, hl.once⟩
  · have hne : q ≠ r := fun heq => hoff d dev hdev (heq ▸ hmem)
    simp only [RemioState.setRequest, ObjPool.setObj_other hne]
    exact hl.listed d dev q hdev hmem
  · by_cases heq : q = r
    · subst heq
      simp only [RemioState.setRequest, ObjPool.setObj_used, ObjPool.setObj_same]
      exact ⟨fun _ => hstate, fun _ => hused⟩
    · simp only [RemioState.setRequest, ObjPool.setObj_used, ObjPool.setObj_other heq]
      exact hl.inUse q hq
  · have hne : q ≠ r := fun heq => hnone cpu msg hmem (heq ▸ hcomp)
    simp only [RemioState.setRequest, ObjPool.setObj_used, ObjPool.setObj_other hne]
    exact hl.inflight cpu msg q hmem hcomp

theorem RemioListed.pushNotify (hl : RemioListed p s) {cpu : Nat} {msg : RemioMsg}
    (hmsg : msg.event = .notify) : RemioListed p (s.pushMsg cpu msg) := by
  have hnot : ∀ r, ¬ msg.Completes r := fun r h => h.1 hmsg
  refine ⟨hl.num, hl.owner, hl.listed, hl.nodup, hl.inUse, fun c m r hmem hcomp => ?_,
    fun c r => ?_⟩
  · simp only [RemioState.pushMsg] at hmem
    by_cases hc : c = cpu
    · rw [if_pos hc] at hmem
      rcases List.mem_append.mp hmem with hmem | hmem
      · exact hl.inflight c m r hmem hcomp
      · rw [List.mem_singleton] at hmem
        exact (hnot r (hmem ▸ hcomp)).elim
    · rw [if_neg hc] at hmem
      exact hl.inflight c m r hmem hcomp
  · simp only [RemioState.pushMsg]
    by_cases hc : c = cpu
    · rw [if_pos hc, List.countP_append, List.countP_singleton,
        if_neg (by simpa using hnot r), Nat.add_zero]
      exact hl.once c r
    · rw [if_neg hc]
      exact hl.once c r

theorem RemioListed.pushCompletion (hl : RemioListed p s) {r : Nat} {msg : RemioMsg}
    (hcomp : msg.Completes r) (hused : s.requests.Used r)
    (hstate : (s.requests.objs r).state = .complete)
    (hnone : ∀ cpu msg, msg ∈ s.msgs cpu → ¬ msg.Completes r) :
    RemioListed p (s.pushMsg (s.requests.objs r).cpuId msg) := by
  refine ⟨hl.num, hl.owner, hl.listed, hl.nodup, hl.inUse, fun c m q hmem hm => ?_,
    fun c q => ?_⟩
  · simp only [RemioState.pushMsg] at hmem
    by_cases hc : c = (s.requests.objs r).cpuId
    · rw [if_pos hc] at hmem
      rcases List.mem_append.mp hmem with hmem | hmem
      · exact hl.inflight c m q hmem hm
      · rw [List.mem_singleton] at hmem
        subst hmem
        obtain rfl : q = r := hm.2.symm.trans hcomp.2
        exact ⟨hused, hstate, hc.symm⟩
    · rw [if_neg hc] at hmem
      exact hl.inflight c m q hmem hm
  · simp only [RemioState.pushMsg]
    by_cases hc : c = (s.requests.objs r).cpuId
    · rw [if_pos hc, List.countP_append, List.countP_singleton]
      by_cases hq : msg.Completes q
      · obtain rfl : q = r := hq.2.symm.trans hcomp.2
        have hzero : (s.msgs c).countP (fun m => decide (m.Completes q)) = 0 := by
          rw [List.countP_eq_zero]
          intro m hm
          simpa using hnone c m hm
        rw [hzero]
        split <;> omega
      · rw [if_neg (by simpa using hq), Nat.add_zero]
        exact hl.once c q
    · rw [if_neg hc]
      exact hl.once c q

theorem RemioListed.popMsg (hl : RemioListed p s) {cpu : Nat} {msg : RemioMsg}
    {rest : List RemioMsg} (hmsgs : s.msgs cpu = msg :: rest)
    (hs' : s' = { s with msgs := fun c => if c = cpu then rest else s.msgs c }) :
    RemioListed p s' ∧ ∀ r, msg.Completes r → ∀ c m, m ∈ s'.msgs c → ¬ m.Completes r := by
  subst hs'
  have hsub : ∀ c, (if c = cpu then rest else s.msgs c).Sublist (s.msgs c) := by
    intro c
    by_cases hc : c = cpu
    · rw [if_pos hc, hc, hmsgs]
      exact List.sublist_cons_self msg rest
    · rw [if_neg hc]
  refine ⟨⟨hl.num, hl.owner, hl.listed, hl.nodup, hl.inUse,
    fun c m r hmem hm => hl.inflight c m r ((hsub c).subset hmem) hm,
    fun c r => Nat.le_trans ((hsub c).countP_le) (hl.once c r)⟩, fun r hcomp c m hmem hm => ?_⟩
  simp only at hmem
  obtain ⟨-, -, hcpu⟩ := hl.inflight cpu msg r (by rw [hmsgs]; exact List.mem_cons_self) hcomp
  obtain ⟨-, -, hc⟩ := hl.inflight c m r ((hsub c).subset hmem) hm
  obtain rfl : c = cpu := hc.symm.trans hcpu
  rw [if_pos rfl] at hmem
  have hone := hl.once c r
  rw [hmsgs, List.countP_cons, if_pos (by simpa using hcomp)] at hone
  have hpos : 0 < rest.countP (fun m => decide (m.Completes r)) :=
    List.countP_pos_iff.mpr ⟨m, hmem, by simpa using hm⟩
  omega

theorem RemioListed.none_inflight (hl : RemioListed p s) {r : Nat}
    (hstate : (s.requests.objs r).state ≠ .complete) (cpu : Nat) (msg : RemioMsg)
    (hmem : msg ∈ s.msgs cpu) : ¬ msg.Completes r :=
  fun hcomp => hstate (hl.inflight cpu msg r hmem hcomp).2.1

theorem RemioListed.on_no_list (hl : RemioListed p s) {r : Nat}
    (hstate : (s.requests.objs r).state ≠ .pending) (d : Nat) (dev : RemioDevice)
    (hdev : s.DeviceAt d dev) : r ∉ dev.pending :=
  fun hmem => hstate (hl.listed d dev r hdev hmem).2.1

theorem RemioListed.popRequest (hl : RemioListed p s) {d r : Nat} {dev : RemioDevice}
    {rest : List Nat} (hdev : s.DeviceAt d dev) (hpend : dev.pending = r :: rest) :
    RemioListed p (s.setDevice d { dev with pending := rest }) ∧
      s.requests.Used r ∧ (s.requests.objs r).state = .pending ∧
      (s.requests.objs r).bindKey = dev.bindKey ∧
      ∀ d' dev', (s.setDevice d { dev with pending := rest }).DeviceAt d' dev' →
        r ∉ dev'.pending := by
  obtain ⟨hused, hstate, hkey⟩ := hl.listed d dev r hdev (by rw [hpend]; exact List.mem_cons_self)
  have hnodup := hl.nodup d dev hdev
  rw [hpend, List.nodup_cons] at hnodup
  refine ⟨hl.shrink rfl rfl (setDevice_keys hdev rfl) (fun d' dev' hdev' => ?_), hused, hstate, hkey,
    fun d' dev' hdev' hmem => ?_⟩
  · rcases setDevice_deviceAt hdev hdev' with ⟨rfl, rfl⟩ | ⟨-, hdev'⟩
    · exact ⟨dev, hdev, rfl, by rw [hpend]; exact List.sublist_cons_self r rest⟩
    · exact ⟨dev', hdev', rfl, List.Sublist.refl _⟩
  · rcases setDevice_deviceAt hdev hdev' with ⟨rfl, rfl⟩ | ⟨hne, hdev'⟩
    · exact hnodup.1 hmem
    · obtain ⟨-, -, hkey'⟩ := hl.listed d' dev' r hdev' hmem
      exact hne (hl.same_device hdev' hdev hmem (by rw [hpend]; exact List.mem_cons_self)
        (hkey'.symm.trans hkey))

theorem RemioQueued.change (hq : RemioQueued s) (r0 : Nat)
    (hused : ∀ r, r ≠ r0 → s'.requests.Used r → s.requests.Used r)
    (hobjs : ∀ r, r ≠ r0 → s'.requests.objs r = s.requests.objs r)
    (hlists : ∀ d dev r, r ≠ r0 → s.DeviceAt d dev → r ∈ dev.pending →
      ∃ dev', s'.DeviceAt d dev' ∧ r ∈ dev'.pending)
    (hself : s'.requests.Used r0 → (s'.requests.objs r0).state = .pending →
      ∃ d dev, s'.DeviceAt d dev ∧ r0 ∈ dev.pending) : RemioQueued s' := by
  intro r hr hstate
  by_cases heq : r = r0
  · subst heq
    exact hself hr hstate
  · rw [hobjs r heq] at hstate
    obtain ⟨d, dev, hdev, hmem⟩ := hq r (hused r heq hr) hstate
    obtain ⟨dev', hdev', hmem'⟩ := hlists d dev r heq hdev hmem
    exact ⟨d, dev', hdev', hmem'⟩

/-! ## The operations -/

theorem remioCreateRequest_some {cpu d key : Nat} {acc : RemioAccess}
    (hl : RemioListed p s) (hfind : remioFindDevByBindKey s.devices key = some d)
    (h : remioCreateRequest s cpu d acc = some s') :
    RemioListed p s' ∧ (RemioQueued s → RemioQueued s') := by
  rw [remioCreateRequest] at h
  cases hdev : s.devices[d]? with
  | none => rw [hdev] at h; cases h
  | some dev =>
      rw [hdev] at h
      cases halloc : s.requests.objpoolAllocWithId with
      | none => simp only [halloc] at h; cases h
      | some res =>
          obtain ⟨id, requests⟩ := res
          simp only [halloc] at h
          obtain rfl := Option.some.inj h
          obtain ⟨hlt, hfree, hnum, hobjs, hused⟩ := ObjPool.objpoolAllocWithId_some halloc
          have hidle : (s.requests.objs id).state = .free := by
            by_cases hstate : (s.requests.objs id).state = .free
            · exact hstate
            · exact (hfree ((hl.inUse id hlt).mpr hstate)).elim
          have hoff := hl.on_no_list (r := id) (by rw [hidle]; exact RemioReqState.noConfusion)
          have hnone := hl.none_inflight (r := id) (by rw [hidle]; exact RemioReqState.noConfusion)
          have hother : ∀ r, r ≠ id → (requests.setObj id
              (newRequest cpu id dev.bindKey acc)).objs r = s.requests.objs r := by
            intro r hr
            rw [ObjPool.setObj_other hr, hobjs]
          have hkey : dev.bindKey = key := by
            obtain ⟨found, hfound, hk⟩ := remioFindDevByBindKey_some hfind
            obtain rfl := Option.some.inj (hdev.symm.trans hfound)
            exact hk
          have hkeys := setDevice_keys (s := s) hdev
            (show ({ dev with pending := dev.pending ++ [id] } : RemioDevice).bindKey =
              dev.bindKey from rfl)
          refine ⟨⟨?_, fun d1 dev1 h1 hne => ?_, fun d1 dev1 r h1 hmem => ?_,
            fun d1 dev1 h1 => ?_, fun r hr => ?_, fun c msg r hmem hcomp => ?_, hl.once⟩,
            fun hq => hq.change id (fun r hr hu => ?_) (fun r hr => hother r hr)
              (fun d1 dev1 r hr h1 hmem => ?_) (fun _ _ => ?_)⟩
          · exact hnum.trans hl.num
          · refine (remioFindDevByBindKey_keys hkeys _).trans ?_
            rcases setDevice_deviceAt hdev h1 with ⟨rfl, rfl⟩ | ⟨-, h1⟩
            · rwa [← hkey] at hfind
            · exact hl.owner d1 dev1 h1 hne
          · have hold : ∀ d2 dev2, s.DeviceAt d2 dev2 → r ∈ dev2.pending → r ≠ id :=
              fun d2 dev2 h2 hm heq => hoff d2 dev2 h2 (heq ▸ hm)
            rcases setDevice_deviceAt hdev h1 with ⟨rfl, rfl⟩ | ⟨-, h1⟩
            · rcases List.mem_append.mp hmem with hmem | hmem
              · obtain ⟨h2, h3, h4⟩ := hl.listed _ _ r hdev hmem
                have hne := hold _ _ hdev hmem
                simp only [RemioState.setDevice, RemioState.setRequest, hother r hne]
                exact ⟨(hused r).mpr (.inl h2), h3, h4⟩
              · rw [List.mem_singleton] at hmem
                subst hmem
                simp only [RemioState.setDevice, RemioState.setRequest, ObjPool.setObj_same]
                exact ⟨(hused r).mpr (.inr rfl), rfl, rfl⟩
            · obtain ⟨h2, h3, h4⟩ := hl.listed _ _ r h1 hmem
              have hne := hold _ _ h1 hmem
              simp only [RemioState.setDevice, RemioState.setRequest, hother r hne]
              exact ⟨(hused r).mpr (.inl h2), h3, h4⟩
          · rcases setDevice_deviceAt hdev h1 with ⟨rfl, rfl⟩ | ⟨-, h1⟩
            · refine List.nodup_append.mpr ⟨hl.nodup _ _ hdev, by simp, ?_⟩
              intro a ha b hb hab
              rw [List.mem_singleton] at hb
              exact hoff _ _ hdev (by rwa [← hb, ← hab])
            · exact hl.nodup _ _ h1
          · by_cases heq : r = id
            · subst heq
              simp only [RemioState.setDevice, RemioState.setRequest, ObjPool.setObj_used,
                ObjPool.setObj_same]
              exact ⟨fun _ => RemioReqState.noConfusion, fun _ => (hused r).mpr (.inr rfl)⟩
            · simp only [RemioState.setDevice, RemioState.setRequest, ObjPool.setObj_used,
                hother r heq]
              rw [hused r, or_iff_left heq]
              exact hl.inUse r (hnum ▸ hr)
          · have hne : r ≠ id := fun heq => hnone c msg hmem (heq ▸ hcomp)
            obtain ⟨h2, h3, h4⟩ := hl.inflight c msg r hmem hcomp
            simp only [RemioState.setDevice, RemioState.setRequest, hother r hne]
            exact ⟨(hused r).mpr (.inl h2), h3, h4⟩
          · rcases (hused r).mp hu with hu | hu
            · exact hu
            · exact (hr hu).elim
          · by_cases hd : d1 = d
            · subst hd
              obtain rfl : dev = dev1 := by
                rw [RemioState.DeviceAt, hdev] at h1
                exact Option.some.inj h1
              exact ⟨_, setDevice_deviceAt_same hdev, List.mem_append_left _ hmem⟩
            · exact ⟨dev1, setDevice_deviceAt_other hd h1, hmem⟩
          · exact ⟨d, _, setDevice_deviceAt_same hdev,
              List.mem_append_right _ (List.mem_singleton.mpr rfl)⟩

/-- **What an ask does.**  It fails and changes nothing, or it takes the next
request off the list and serves it. -/
theorem remioHandleAsk_cases {addr value d : Nat} {ret : Int} {regs : List Nat}
    (hl : RemioListed p s) (h : remioHandleAsk s addr value d = (ret, regs, s')) :
    (ret = hcFailure ∧ regs = [] ∧ s' = s ∧
      (addr = 0 → value = 0 → ∀ dev, s.DeviceAt d dev → dev.pending = [])) ∨
    (addr = 0 ∧ value = 0 ∧ ret = hcSuccess ∧ regs ≠ [] ∧ ∃ dev r rest, s.DeviceAt d dev ∧
      dev.pending = r :: rest ∧
      s' = (s.setDevice d { dev with pending := rest }).setRequest r
        { s.requests.objs r with state := .processing }) := by
  rw [remioHandleAsk] at h
  by_cases hzero : addr ≠ 0 ∨ value ≠ 0
  · rw [if_pos hzero] at h
    obtain ⟨rfl, rfl, rfl⟩ : _ ∧ _ ∧ _ := by simpa using h
    exact .inl ⟨rfl, rfl, rfl, fun ha hv => by omega⟩
  · rw [if_neg hzero] at h
    cases hget : remioGetRequest s d (-1) with
    | mk res s1 =>
        rw [hget] at h
        rcases remioGetRequest_cases hget with ⟨rfl, rfl, hnot⟩ | ⟨-, _, r, _, hneg, _⟩ |
          ⟨-, dev, r, rest, hdev, hpend, rfl, hres⟩
        · obtain ⟨rfl, rfl, rfl⟩ : _ ∧ _ ∧ _ := by simpa using h
          exact .inl ⟨rfl, rfl, rfl, fun _ _ dev hdev => (hnot dev hdev).1 rfl⟩
        · omega
        · obtain ⟨-, -, hstate, hkey, -⟩ := hl.popRequest hdev hpend
          rw [if_pos hkey] at hres
          subst hres
          have hstate' : ((s.setDevice d { dev with pending := rest }).requests.objs r).state =
              .pending := hstate
          simp only at h
          rw [if_pos hstate'] at h
          obtain ⟨rfl, rfl, rfl⟩ := h
          exact .inr ⟨by omega, by omega, rfl, List.cons_ne_nil _ _, dev, r, rest, hdev, hpend, rfl⟩

/-- The answer of the backend to request `r`. -/
def answered (req : RemioRequest) (value : Nat) : RemioRequest :=
  { req with value := value, state := .complete }

/-- The id of a write or read names the next pending request of device `d`,
or a request of the device that is being served. -/
def RemioAnswers (p : RemioPlatform) (s : RemioState) (args : RemioArgs) (d : Nat) : Prop :=
  ∃ dev, s.DeviceAt d dev ∧
    ((p.machine.ssize args.requestId = -1 ∧ dev.pending ≠ []) ∨
      (p.machine.ssize args.requestId = args.requestId ∧ args.requestId < s.requests.num ∧
        (s.requests.objs args.requestId).bindKey = dev.bindKey ∧
        (s.requests.objs args.requestId).state = .processing))

/-- **What the answer to a request does.**  It fails and changes nothing, or it
fails and drops the next pending request of the device, or it answers a request
that is being served, which a second lookup then finds. -/
theorem remioHandleRw_cases {d : Nat} {args : RemioArgs} {ok : Bool} (hl : RemioListed p s)
    (hword : args.requestId < p.machine.wordCount)
    (h : remioHandleRw s args.value (p.machine.ssize args.requestId) d = (ok, s')) :
    (ok = false ∧ s' = s ∧ ¬ RemioAnswers p s args d) ∨
    (ok = false ∧ p.machine.ssize args.requestId = -1 ∧ ∃ dev r rest, s.DeviceAt d dev ∧
      dev.pending = r :: rest ∧ s' = s.setDevice d { dev with pending := rest }) ∨
    (ok = true ∧ ∃ dev, s.DeviceAt d dev ∧ args.requestId < s.requests.num ∧
      (s.requests.objs args.requestId).bindKey = dev.bindKey ∧
      (s.requests.objs args.requestId).state = .processing ∧
      s' = s.setRequest args.requestId
        (answered (s.requests.objs args.requestId) args.value) ∧
      remioGetRequest s' d (p.machine.ssize args.requestId) = (some args.requestId, s')) := by
  rw [remioHandleRw] at h
  cases hget : remioGetRequest s d (p.machine.ssize args.requestId) with
  | mk res s2 =>
      rw [hget] at h
      rcases remioGetRequest_cases hget with ⟨rfl, rfl, hnot⟩ |
        ⟨rfl, dev, r, hdev, hid, hlt, hkey, rfl⟩ |
        ⟨hneg, dev, r, rest, hdev, hpend, rfl, hres⟩
      · obtain ⟨rfl, rfl⟩ := Prod.mk.inj h
        refine .inl ⟨rfl, rfl, ?_⟩
        rintro ⟨dev, hdev, ⟨hneg, hne⟩ | ⟨hid, hlt, hkey, -⟩⟩
        · exact hne ((hnot dev hdev).1 hneg)
        · exact (hnot dev hdev).2 args.requestId hid hlt hkey
      · obtain rfl := p.machine.eq_of_ssize_eq hword hid
        simp only at h
        by_cases hstate : (s2.requests.objs args.requestId).state = .processing
        · rw [if_pos hstate] at h
          obtain ⟨rfl, rfl⟩ := Prod.mk.inj h
          have hsame : (answered (s2.requests.objs args.requestId) args.value).bindKey =
              dev.bindKey := hkey
          -- the second lookup finds the same request
          have hagain := remioGetRequest_of_key (r := args.requestId) (d := d)
            (s := s2.setRequest args.requestId
              (answered (s2.requests.objs args.requestId) args.value)) hdev hlt
            (by simpa only [RemioState.setRequest, ObjPool.setObj_same] using hsame)
          rw [← hid] at hagain
          exact .inr (.inr ⟨rfl, dev, hdev, hlt, hkey, hstate, rfl, hagain⟩)
        · rw [if_neg hstate] at h
          obtain ⟨rfl, rfl⟩ := Prod.mk.inj h
          refine .inl ⟨rfl, rfl, ?_⟩
          rintro ⟨_, _, ⟨hneg, -⟩ | ⟨-, -, -, hprocessing⟩⟩
          · omega
          · exact hstate hprocessing
      · obtain ⟨-, -, hstate, hkey, -⟩ := hl.popRequest hdev hpend
        rw [if_pos hkey] at hres
        subst hres
        have hstate' : ((s.setDevice d { dev with pending := rest }).requests.objs r).state ≠
            .processing := by
          intro heq
          rw [show (s.setDevice d { dev with pending := rest }).requests.objs r =
            s.requests.objs r from rfl, hstate] at heq
          cases heq
        simp only at h
        rw [if_neg hstate'] at h
        obtain ⟨rfl, rfl⟩ := Prod.mk.inj h
        exact .inr (.inl ⟨rfl, hneg, dev, r, rest, hdev, hpend, rfl⟩)

/-- **What a write or read does.**  It fails and changes nothing, or it fails
and drops the next pending request of the device, or it answers a request
that is being served and sends its completion. -/
theorem remioHypercallRw_cases {queued : Bool} {cpu d : Nat} {args : RemioArgs} {ret : Int}
    (hl : RemioListed p s) (hword : args.requestId < p.machine.wordCount)
    (h : remioHypercallRw p s queued cpu args d = (ret, s')) :
    (ret = -hcFailure ∧ s' = s ∧ ¬ RemioAnswers p s args d) ∨
    (ret = -hcFailure ∧ p.machine.ssize args.requestId = -1 ∧ ∃ dev r rest, s.DeviceAt d dev ∧
      dev.pending = r :: rest ∧ s' = s.setDevice d { dev with pending := rest }) ∨
    (ret = hcSuccess ∧ ∃ dev msg, s.DeviceAt d dev ∧ args.requestId < s.requests.num ∧
      (s.requests.objs args.requestId).bindKey = dev.bindKey ∧
      (s.requests.objs args.requestId).state = .processing ∧ msg.Completes args.requestId ∧
      s' = remioCpuSendMsg (s.setRequest args.requestId
        (answered (s.requests.objs args.requestId) args.value)) queued
        (s.requests.objs args.requestId).cpuId msg) := by
  rw [remioHypercallRw] at h
  simp only at h
  cases hrw : remioHandleRw s args.value (p.machine.ssize args.requestId) d with
  | mk ok s1 =>
      rw [hrw] at h
      rcases remioHandleRw_cases hl hword hrw with ⟨rfl, rfl, hnot⟩ |
        ⟨rfl, hneg, dev, r, rest, hdev, hpend, rfl⟩ |
        ⟨rfl, dev, hdev, hlt, hkey, hstate, rfl, hagain⟩
      · obtain ⟨rfl, rfl⟩ := Prod.mk.inj h
        exact .inl ⟨rfl, rfl, hnot⟩
      · obtain ⟨rfl, rfl⟩ := Prod.mk.inj h
        exact .inr (.inl ⟨rfl, hneg, dev, r, rest, hdev, hpend, rfl⟩)
      · have hsmall : args.requestId < 256 := by
          have := hl.num
          have := p.cpuNum_le
          omega
        simp only at h
        rw [hagain] at h
        obtain ⟨rfl, rfl⟩ := Prod.mk.inj h
        refine .inr (.inr ⟨rfl, dev, remioMsg (if args.op = hypWrite then .write else .read)
          (remioHypercallKey p cpu args) args.requestId 0, hdev, hlt, hkey, hstate,
          ⟨?_, Nat.mod_eq_of_lt hsmall⟩, ?_⟩)
        · simp only [remioMsg]
          split <;> exact RemioMsgEvent.noConfusion
        · simp only [RemioState.setRequest, ObjPool.setObj_same, answered]

/-! ## The runs -/

theorem remioFindVmDevByBindKey_some {devices : List RemioDevice} {vm key d : Nat}
    (h : remioFindVmDevByBindKey p devices vm key = some d) :
    remioFindDevByBindKey devices key = some d ∧ ∃ dev, devices[d]? = some dev ∧
      (vm = dev.backend.vmId ∨ vm = dev.frontend.vmId) := by
  rw [remioFindVmDevByBindKey] at h
  split at h
  · cases h
  · split at h
    · cases h
    · next hfind =>
        split at h
        · cases h
        · next dev hdev =>
            split at h
            · next hrole =>
                obtain rfl := Option.some.inj h
                refine ⟨hfind, dev, hdev, ?_⟩
                rcases hrole with ⟨-, hvm⟩ | ⟨-, hvm⟩
                · exact .inl hvm
                · exact .inr hvm
            · cases h

/-- A write or read hypercall does not name the next pending request of a
device that has one. -/
def RemioCallOk (p : RemioPlatform) (s : RemioState) (cpu : Nat) (args : RemioArgs) : Prop :=
  (args.op = hypWrite ∨ args.op = hypRead) → p.machine.ssize args.requestId = -1 →
    ∀ d dev, remioHypercallDevice p s cpu args = .ok d → s.DeviceAt d dev → dev.pending = []

/-- The condition on the steps of a run. -/
def RemioStepOk (p : RemioPlatform) (s : RemioState) : RemioEvent → Prop
  | .hypercall cpu args _ _ => RemioCallOk p s cpu args
  | _ => True

theorem RemioListed.answer {queued : Bool} {msg : RemioMsg} {r value : Nat}
    (hl : RemioListed p s) (hlt : r < s.requests.num)
    (hstate : (s.requests.objs r).state = .processing) (hcomp : msg.Completes r) :
    RemioListed p (remioCpuSendMsg (s.setRequest r (answered (s.requests.objs r) value)) queued
      (s.requests.objs r).cpuId msg) := by
  have hused : s.requests.Used r :=
    (hl.inUse r hlt).mpr (by rw [hstate]; exact RemioReqState.noConfusion)
  have hnone := hl.none_inflight (r := r) (by rw [hstate]; exact RemioReqState.noConfusion)
  have hset := hl.setRequest (answered (s.requests.objs r) value) hused
    (hl.on_no_list (by rw [hstate]; exact RemioReqState.noConfusion)) hnone
    RemioReqState.noConfusion
  cases queued with
  | false => exact hset
  | true =>
      have hpush := hset.pushCompletion hcomp (r := r) hused
        (by simp only [RemioState.setRequest, ObjPool.setObj_same, answered]) hnone
      rw [remioCpuSendMsg, if_pos rfl]
      simpa only [RemioState.setRequest, ObjPool.setObj_same, answered] using hpush

/-- **Hypercalls.**  Every hypercall keeps the lists right; one that meets the
condition keeps the pending requests queued, and changes nothing when it fails. -/
theorem remioHypercall_step {queued : Bool} {cpu : Nat} {args : RemioArgs} {ret : Int}
    {regs : List Nat} (hl : RemioListed p s) (hword : args.requestId < p.machine.wordCount)
    (h : remioHypercall p s queued cpu args = (ret, regs, s')) :
    RemioListed p s' ∧ (RemioCallOk p s cpu args → RemioQueued s → RemioQueued s') ∧
      (RemioCallOk p s cpu args → ret ≠ hcSuccess → s' = s) := by
  have hunchanged : ∀ {t : RemioState}, t = s → RemioListed p t ∧
      (RemioCallOk p s cpu args → RemioQueued s → RemioQueued t) ∧
      (RemioCallOk p s cpu args → ret ≠ hcSuccess → t = s) := by
    rintro t rfl
    exact ⟨hl, fun _ hq => hq, fun _ _ => rfl⟩
  rw [remioHypercall] at h
  cases hd : remioHypercallDevice p s cpu args with
  | error code =>
      rw [hd] at h
      obtain ⟨rfl, rfl, rfl⟩ : _ ∧ _ ∧ _ := by simpa using h
      exact hunchanged rfl
  | ok d =>
      rw [hd] at h
      simp only at h
      by_cases hrw : args.op = hypWrite ∨ args.op = hypRead
      · rw [if_pos hrw] at h
        cases hcall : remioHypercallRw p s queued cpu args d with
        | mk code s1 =>
            rw [hcall] at h
            obtain ⟨rfl, rfl, rfl⟩ : _ ∧ _ ∧ _ := by simpa using h
            rcases remioHypercallRw_cases hl hword hcall with ⟨-, rfl, -⟩ |
              ⟨-, hneg, dev, r, rest, hdev, hpend, rfl⟩ |
              ⟨rfl, dev, msg, hdev, hlt, hkey, hstate, hcomp, rfl⟩
            · exact hunchanged rfl
            · -- the dropped request is what the condition rules out
              refine ⟨(hl.popRequest hdev hpend).1, fun hok _ => ?_, fun hok _ => ?_⟩
              · rw [hok hrw hneg d dev hd hdev] at hpend
                cases hpend
              · rw [hok hrw hneg d dev hd hdev] at hpend
                cases hpend
            · refine ⟨hl.answer hlt hstate hcomp, fun _ hq => ?_, fun _ hne => (hne rfl).elim⟩
              refine hq.change args.requestId (fun r _ hu => ?_) (fun r hr => ?_)
                (fun d1 dev1 r _ h1 hmem => ⟨dev1, ?_, hmem⟩) (fun _ hpending => ?_)
              · cases queued <;> exact hu
              · cases queued <;> exact ObjPool.setObj_other hr
              · cases queued <;> exact h1
              · cases queued <;>
                  simp [remioCpuSendMsg, RemioState.pushMsg, RemioState.setRequest, answered]
                    at hpending
      · rw [if_neg hrw] at h
        by_cases hask : args.op = hypAsk
        · rw [if_pos hask] at h
          rcases remioHandleAsk_cases hl h with ⟨-, -, rfl, -⟩ |
            ⟨-, -, rfl, -, dev, r, rest, hdev, hpend, rfl⟩
          · exact hunchanged rfl
          · obtain ⟨hpop, hused, hstate, -, hoff⟩ := hl.popRequest hdev hpend
            have hnone := hl.none_inflight (r := r)
              (by rw [hstate]; exact RemioReqState.noConfusion)
            refine ⟨hpop.setRequest _ hused hoff hnone RemioReqState.noConfusion, fun _ hq => ?_,
              fun _ hne => (hne rfl).elim⟩
            refine hq.change r (fun q _ hu => hu) (fun q hne => ObjPool.setObj_other hne)
              (fun d1 dev1 q hne h1 hmem => ?_) (fun _ hpending => ?_)
            · by_cases hd1 : d1 = d
              · subst hd1
                obtain rfl := Option.some.inj (hdev.symm.trans h1)
                rw [hpend] at hmem
                rcases List.mem_cons.mp hmem with heq | hmem
                · exact (hne heq).elim
                · exact ⟨_, setDevice_deviceAt_same hdev, hmem⟩
              · exact ⟨dev1, setDevice_deviceAt_other hd1 h1, hmem⟩
            · simp [RemioState.setRequest] at hpending
        · rw [if_neg hask] at h
          by_cases hnotify : args.op = hypNotify
          · rw [if_pos hnotify] at h
            split at h
            · obtain ⟨rfl, rfl, rfl⟩ : _ ∧ _ ∧ _ := by simpa using h
              exact hunchanged rfl
            · next dev hdev =>
                obtain ⟨rfl, rfl, rfl⟩ : _ ∧ _ ∧ _ := by simpa using h
                refine ⟨?_, fun _ hq => ?_, fun _ hne => (hne rfl).elim⟩
                · cases queued with
                  | false => exact hl
                  | true => exact hl.pushNotify rfl
                · cases queued <;> exact hq
          · rw [if_neg hnotify] at h
            obtain ⟨rfl, rfl, rfl⟩ : _ ∧ _ ∧ _ := by simpa using h
            exact hunchanged rfl

theorem remioCpuPostWork_cases (s : RemioState) (cpu : Nat) (event : RemioMsgEvent)
    (remioBindKey requestId : Nat) :
    remioCpuPostWork s cpu event remioBindKey requestId = none ∨
    ∃ reply, remioCpuPostWork s cpu event remioBindKey requestId = some (reply, { s with
      requests := (s.requests.setObj requestId
        { s.requests.objs requestId with state := .free }).objpoolFree requestId
      active := fun c => if c = cpu then true else s.active c }) := by
  rw [remioCpuPostWork]
  cases remioFindDevByBindKey s.devices remioBindKey with
  | none => exact .inl rfl
  | some d =>
      dsimp only
      cases hget : remioGetRequest s d requestId with
      | mk res s1 =>
          rcases remioGetRequest_cases hget with ⟨rfl, rfl, -⟩ | ⟨rfl, dev, r, -, hid, -, -, rfl⟩ |
            ⟨hneg, -⟩
          · exact .inl rfl
          · obtain rfl : r = requestId := by omega
            exact .inr ⟨_, rfl⟩
          · omega

/-- The handler of a completion stops in an `ERROR`, or frees the request and resumes the
CPU. -/
theorem remioCpuMsgHandler_work (s : RemioState) (cpu : Nat) {msg : RemioMsg}
    (hmsg : msg.event ≠ .notify) :
    remioCpuMsgHandler s cpu msg =
      { s with halted := fun c => if c = cpu then true else s.halted c } ∨
    remioCpuMsgHandler s cpu msg = { s with
      requests := (s.requests.setObj msg.requestId
        { s.requests.objs msg.requestId with state := .free }).objpoolFree msg.requestId
      active := fun c => if c = cpu then true else s.active c } := by
  have hwork := fun event =>
    remioCpuPostWork_cases s cpu event msg.remioBindKey msg.requestId
  rw [remioCpuMsgHandler]
  cases hevent : msg.event with
  | notify => exact (hmsg hevent).elim
  | write =>
      rcases hwork .write with hnone | ⟨_, hsome⟩
      · simp only [hnone, true_or]
      · simp only [hsome, or_true]
  | read =>
      rcases hwork .read with hnone | ⟨_, hsome⟩
      · simp only [hnone, true_or]
      · simp only [hsome, or_true]

/-- **Deliveries.**  A completion frees its request, which is on no list. -/
theorem remioCpuMsgHandler_step {cpu : Nat} {msg : RemioMsg} {rest : List RemioMsg}
    (hl : RemioListed p s) (hmsgs : s.msgs cpu = msg :: rest)
    (hs' : s' = remioCpuMsgHandler
      { s with msgs := fun c => if c = cpu then rest else s.msgs c } cpu msg) :
    RemioListed p s' ∧ (RemioQueued s → RemioQueued s') := by
  obtain ⟨hpop, hnone⟩ := hl.popMsg hmsgs rfl
  have hmem : msg ∈ s.msgs cpu := by rw [hmsgs]; exact List.mem_cons_self
  by_cases hnotify : msg.event = .notify
  · rw [remioCpuMsgHandler, hnotify] at hs'
    subst hs'
    exact ⟨hpop, id⟩
  · have hcomp : msg.Completes msg.requestId := ⟨hnotify, rfl⟩
    obtain ⟨hused, hstate, -⟩ := hl.inflight cpu msg _ hmem hcomp
    rcases remioCpuMsgHandler_work { s with msgs := fun c => if c = cpu then rest else s.msgs c }
      cpu hnotify with hfail | hfree
    · rw [hs', hfail]
      exact ⟨hpop.congr rfl rfl rfl, id⟩
    · -- the slot becomes free again
      rw [hs', hfree]
      have hoff := hl.on_no_list (r := msg.requestId)
        (by rw [hstate]; exact RemioReqState.noConfusion)
      refine ⟨⟨?_, hpop.owner, fun d1 dev1 q h1 hq => ?_, hpop.nodup, fun q hq => ?_,
        fun c m q hm hc => ?_, hpop.once⟩, fun hq => ?_⟩
      · simp only [ObjPool.objpoolFree_num, ObjPool.setObj_num]
        exact hl.num
      · have hne : q ≠ msg.requestId := fun heq => hoff d1 dev1 h1 (heq ▸ hq)
        simp only [ObjPool.objpoolFree_used, ObjPool.objpoolFree_objs,
          ObjPool.setObj_used, ObjPool.setObj_other hne]
        obtain ⟨h2, h3, h4⟩ := hl.listed d1 dev1 q h1 hq
        exact ⟨⟨h2, hne⟩, h3, h4⟩
      · simp only [ObjPool.objpoolFree_num, ObjPool.setObj_num] at hq
        by_cases heq : q = msg.requestId
        · simp only [ObjPool.objpoolFree_used, ObjPool.objpoolFree_objs, heq,
            ObjPool.setObj_same, ne_eq, not_true_eq_false, and_false]
        · simp only [ObjPool.objpoolFree_used, ObjPool.objpoolFree_objs,
            ObjPool.setObj_used, ObjPool.setObj_other heq]
          rw [and_iff_left heq]
          exact hl.inUse q hq
      · have hne : q ≠ msg.requestId := by
          rintro rfl
          exact hnone _ hcomp c m hm hc
        simp only [ObjPool.objpoolFree_used, ObjPool.objpoolFree_objs,
          ObjPool.setObj_used, ObjPool.setObj_other hne]
        obtain ⟨h2, h3, h4⟩ := hpop.inflight c m q hm hc
        exact ⟨⟨h2, hne⟩, h3, h4⟩
      · refine hq.change msg.requestId (fun q hne hu => ?_) (fun q hne => ?_)
          (fun d1 dev1 q _ h1 hm => ⟨dev1, h1, hm⟩) (fun hu _ => ?_)
        · simp only [ObjPool.objpoolFree_used] at hu
          exact hu.1
        · simp only [ObjPool.objpoolFree_objs, ObjPool.setObj_other hne]
        · simp only [ObjPool.objpoolFree_used] at hu
          exact (hu.2 rfl).elim

theorem remioAssignVmCpus_step {cpu : Nat} (hl : RemioListed p s) :
    RemioListed p (remioAssignVmCpus p s cpu) ∧
      (RemioQueued s → RemioQueued (remioAssignVmCpus p s cpu)) := by
  have hkey : ∀ dev, (assignDevice (p.vmOf cpu) cpu dev).bindKey = dev.bindKey := fun dev => by
    unfold assignDevice
    split
    · rfl
    · split <;> rfl
  have hpend : ∀ dev, (assignDevice (p.vmOf cpu) cpu dev).pending = dev.pending := fun dev => by
    unfold assignDevice
    split
    · rfl
    · split <;> rfl
  refine ⟨hl.shrink rfl rfl ?_ (fun d dev' hdev' => ?_), fun hq r hr hstate => ?_⟩
  · simp only [remioAssignVmCpus, List.map_map]
    exact List.map_congr_left (fun dev _ => hkey dev)
  · simp only [RemioState.DeviceAt, remioAssignVmCpus, List.getElem?_map,
      Option.map_eq_some_iff] at hdev'
    obtain ⟨dev, hdev, rfl⟩ := hdev'
    exact ⟨dev, hdev, hkey dev, hpend dev ▸ List.Sublist.refl _⟩
  · obtain ⟨d, dev, hdev, hmem⟩ := hq r hr hstate
    refine ⟨d, assignDevice (p.vmOf cpu) cpu dev, ?_, by rwa [hpend]⟩
    simp only [RemioState.DeviceAt, remioAssignVmCpus, List.getElem?_map, hdev, Option.map_some]

/-- **Step lemma.** -/
theorem remio_step {e : RemioEvent} (hl : RemioListed p s) (hstep : RemioStep p s e s') :
    RemioListed p s' ∧ (RemioStepOk p s e → RemioQueued s → RemioQueued s') := by
  cases hstep with
  | assign => exact ⟨(remioAssignVmCpus_step hl).1, fun _ => (remioAssignVmCpus_step hl).2⟩
  | @mmio _ cpu d acc _ queued _ hfind _ _ h =>
      rw [remioMmioEmulHandler] at h
      cases hcreate : remioCreateRequest s cpu d acc with
      | none => rw [hcreate] at h; cases h
      | some s1 =>
          rw [hcreate] at h
          have hkey : ∃ key, remioFindDevByBindKey s.devices key = some d := by
            rw [remioFindVmDevByAddr] at hfind
            split at hfind
            · cases hfind
            · exact ⟨_, (remioFindVmDevByBindKey_some hfind).1⟩
          obtain ⟨key, hkey⟩ := hkey
          obtain ⟨hl1, hq1⟩ := remioCreateRequest_some hl hkey hcreate
          simp only at h
          split at h
          · cases h
          · obtain rfl := Option.some.inj h
            cases queued with
            | false => exact ⟨hl1.congr rfl rfl rfl, fun _ => hq1⟩
            | true => exact ⟨(hl1.pushNotify rfl).congr rfl rfl rfl, fun _ => hq1⟩
  | mmioRefused => exact ⟨hl, fun _ => id⟩
  | mmioNoDevice => exact ⟨hl, fun _ => id⟩
  | hypercall _ hword h =>
      obtain ⟨h1, h2, -⟩ := remioHypercall_step hl hword h
      exact ⟨h1, h2⟩
  | deliver _ hmsgs =>
      obtain ⟨h1, h2⟩ := remioCpuMsgHandler_step hl hmsgs rfl
      exact ⟨h1, fun _ => h2⟩

/-! ## Initialisation and runs -/

theorem foldlM_some {α β : Type} {f : β → α → Option β} {P : β → Prop}
    (hstep : ∀ b a b', P b → f b a = some b' → P b') {l : List α} {b b' : β} (hb : P b)
    (h : l.foldlM f b = some b') : P b' := by
  induction l generalizing b with
  | nil =>
      obtain rfl := Option.some.inj h
      exact hb
  | cons a rest ih =>
      rw [List.foldlM_cons] at h
      obtain ⟨b1, hb1, h⟩ := Option.bind_eq_some_iff.mp h
      exact ih (hstep b a b1 hb hb1) h

/-- No device has pending requests. -/
def NonePending (devices : List RemioDevice) : Prop :=
  ∀ (d : Nat) (dev : RemioDevice), devices[d]? = some dev → dev.pending = []

theorem NonePending.modify {devices : List RemioDevice} (h : NonePending devices) {d : Nat}
    {f : RemioDevice → RemioDevice} (hf : ∀ dev, (f dev).pending = dev.pending) :
    NonePending (devices.modify d f) := by
  intro i dev hdev
  rw [List.getElem?_modify] at hdev
  obtain ⟨old, hold, rfl⟩ := Option.map_eq_some_iff.mp hdev
  by_cases hd : d = i
  · simp only [hd, if_true]
    rw [hf, h i old hold]
  · simp only [hd, if_false]
    exact h i old hold

theorem linkEndpoint_pending (dev : RemioDev) (device : RemioDevice) :
    (linkEndpoint dev device).pending = device.pending := by
  unfold linkEndpoint
  split <;> rfl

theorem remioAddDev_nonePending {M : Machine} {devNum : Nat} {devices devices' : List RemioDevice}
    {dev : RemioDev} (hp : NonePending devices)
    (h : remioAddDev M devNum devices dev = some devices') : NonePending devices' := by
  rw [remioAddDev] at h
  split at h
  · cases h
  · obtain rfl := Option.some.inj h
    exact hp.modify (linkEndpoint_pending dev)
  · by_cases hroom : devices.length < (if devNum = 0 then 1 else devNum)
    · rw [if_pos hroom] at h
      obtain rfl := Option.some.inj h
      intro d device hdevice
      rw [List.getElem?_append] at hdevice
      split at hdevice
      · exact hp d device hdevice
      · obtain ⟨_, hmem⟩ := List.getElem?_eq_some_iff.mp hdevice
        have hone := List.mem_singleton.mp (hmem ▸ List.getElem_mem _)
        rw [hone, linkEndpoint_pending]
        rfl
    · rw [if_neg hroom] at h
      cases h

theorem remioConfigDev_nonePending {M : Machine} {vmId : Nat}
    {devices devices' : List RemioDevice} {dev : RemioDev} (hp : NonePending devices)
    (h : remioConfigDev M vmId devices dev = some devices') : NonePending devices' := by
  rw [remioConfigDev] at h
  split at h
  · cases h
  · obtain rfl := Option.some.inj h
    refine hp.modify (fun device => ?_)
    cases dev.type <;> rfl

theorem remioInit_nonePending {M : Machine} {devNum : Nat} {vmlist : List (List RemioDev)}
    {devices : List RemioDevice} (h : remioInit M devNum vmlist = some devices) :
    NonePending devices := by
  rw [remioInit] at h
  obtain ⟨linked, hlinked, h⟩ := Option.bind_eq_some_iff.mp h
  have hempty : NonePending [] := fun d dev hdev => by simp at hdev
  have hp := foldlM_some (fun _ _ _ hp h => remioAddDev_nonePending hp h) hempty hlinked
  split at h
  · cases h
  · split at h
    · cases h
    · exact foldlM_some (fun _ _ _ hp h => remioConfigDev_nonePending hp h) hp h

theorem remio_initial (h : RemioInitial p s) : RemioListed p s ∧ RemioQueued s := by
  obtain ⟨hinit, hrequests, hmsgs, -⟩ := h
  have hnone := remioInit_nonePending hinit
  have hunused : ∀ r, ¬ s.requests.Used r := fun r hr => by
    rw [hrequests] at hr
    exact Bool.false_ne_true hr.2
  refine ⟨⟨by rw [hrequests]; rfl, fun d dev hdev hne => (hne (hnone d dev hdev)).elim,
    fun d dev r hdev hmem => ?_, fun d dev hdev => ?_, fun r _ => ?_, fun cpu msg r hmem => ?_,
    fun cpu r => ?_⟩, fun r hr => (hunused r hr).elim⟩
  · rw [hnone d dev hdev] at hmem
    exact (List.not_mem_nil hmem).elim
  · rw [hnone d dev hdev]
    exact List.nodup_nil
  · refine ⟨fun hr => (hunused r hr).elim, fun hstate => (hstate ?_).elim⟩
    rw [hrequests]
    rfl
  · rw [hmsgs cpu] at hmem
    exact (List.not_mem_nil hmem).elim
  · rw [hmsgs cpu]
    exact Nat.zero_le 1

theorem remio_listed {ok : RemioState → RemioEvent → Prop} (h : (remioSystem p).Reach ok s) :
    RemioListed p s := by
  have hinit : ∀ s, RemioInitial p s → RemioListed p s := fun _ h => (remio_initial h).1
  have hstep : ∀ s e s', RemioListed p s → ok s e → RemioStep p s e s' → RemioListed p s' :=
    fun _ _ _ hl _ h => (remio_step hl h).1
  exact h.invariant hinit hstep

/-- **No request is lost or duplicated.**  In every run in which no write or
read hypercall names the next pending request of a device that has one, every
allocated request is in exactly one place, and a failed hypercall changes nothing. -/
theorem remio_one_place (h : (remioSystem p).Reach (RemioStepOk p) s) :
    (∀ r, s.requests.Used r → RemioOnePlace s r) ∧
      ∀ cpu args ret regs s', RemioStep p s (.hypercall cpu args ret regs) s' →
        RemioCallOk p s cpu args → ret ≠ hcSuccess → s' = s := by
  have hinit : ∀ s, RemioInitial p s → RemioListed p s ∧ RemioQueued s :=
    fun _ h => remio_initial h
  have hstep : ∀ s e s', RemioListed p s ∧ RemioQueued s → RemioStepOk p s e →
      RemioStep p s e s' → RemioListed p s' ∧ RemioQueued s' := by
    intro t e t' ht hok hstep
    obtain ⟨hl, hq⟩ := remio_step ht.1 hstep
    exact ⟨hl, hq hok ht.2⟩
  have hinv := h.invariant hinit hstep
  refine ⟨fun r hr => onePlace_of_listed hinv.1 hinv.2 hr, ?_⟩
  intro cpu args ret regs s' hstep hok hfail
  cases hstep with
  | hypercall _ hword hcall => exact (remioHypercall_step hinv.1 hword hcall).2.2 hok hfail

/-! ## A lost request -/

/-- One device between VM 0 (backend, on CPU 0) and VM 1 (frontend, on CPU 1). -/
def pairPlatform : RemioPlatform where
  machine := Machine.mmu64
  cpuNum := 2
  cpuNum_le := by decide
  vmOf := id
  devNum := 1
  vmlist :=
    [[{ va := 0, size := 0, interrupt := 50, bindKey := 7, type := .backend
        shmem := ⟨0, 0, 0⟩ }],
      [{ va := 0x1000, size := 0x200, interrupt := 60, bindKey := 7, type := .frontend
         shmem := ⟨0, 0, 0⟩ }]]

/-- The state after `remio_init` on that platform. -/
def pairStart : RemioState where
  devices := (remioInit Machine.mmu64 1 pairPlatform.vmlist).getD []
  requests := .objpoolInit 2 .zero
  msgs := fun _ => []
  active := fun _ => true
  halted := fun _ => false

/-- The state once both VMs have assigned their CPUs. -/
def pairReady : RemioState :=
  remioAssignVmCpus pairPlatform (remioAssignVmCpus pairPlatform pairStart 0) 1

/-- A write of 5 to the first register of the device window. -/
def pairAccess : RemioAccess where
  addr := 0x1000
  write := true
  width := 4
  reg := 3
  value := 5

/-- The state after that access of the frontend. -/
def pairAccessed : RemioState := (remioMmioEmulHandler pairReady true 1 0 pairAccess).getD pairReady

/-- A hypercall of the backend about its device. -/
def pairCall (op requestId : Nat) : RemioArgs where
  dmId := 0
  addr := 0
  op := op
  value := 0
  requestId := requestId

theorem pairAccessed_reach :
    (remioSystem pairPlatform).Reach (RemioStepOk pairPlatform) pairAccessed := by
  have hstart : RemioInitial pairPlatform pairStart := ⟨rfl, rfl, fun _ => rfl, fun _ => rfl⟩
  have hready : (remioSystem pairPlatform).Reach (RemioStepOk pairPlatform) pairReady :=
    .step (e := .assign 1) (.step (e := .assign 0) (.init hstart) trivial (.assign rfl)) trivial
      (.assign rfl)
  exact hready.step (e := .mmio 1 pairAccess) trivial
    (@RemioStep.mmio _ _ _ 1 0 _ _ true rfl rfl rfl rfl rfl)

/-- The request of the access is in one place, and a notification that fails
to name an operation changes nothing. -/
theorem pairAccessed_one_place :
    (∀ r, pairAccessed.requests.Used r → RemioOnePlace pairAccessed r) ∧
      ∀ cpu args ret regs s', RemioStep pairPlatform pairAccessed (.hypercall cpu args ret regs) s' →
        RemioCallOk pairPlatform pairAccessed cpu args → ret ≠ hcSuccess → s' = pairAccessed :=
  remio_one_place pairAccessed_reach

/-- A write hypercall with request id -1 fails, and the request of the access
is pending on no list. -/
theorem pair_request_lost :
    ∃ s : RemioState,
      (remioSystem pairPlatform).Reach (RemioStepOk pairPlatform) pairAccessed ∧
      RemioStep pairPlatform pairAccessed (.hypercall 0 (pairCall hypWrite (2 ^ 64 - 1)) (-1) []) s ∧
      pairAccessed.devices.map RemioDevice.pending = [[0]] ∧
      s.devices.map RemioDevice.pending = [[]] ∧ s.requests.Used 0 ∧
      (s.requests.objs 0).state = .pending ∧ ¬ RemioOnePlace s 0 := by
  refine ⟨(remioHypercall pairPlatform pairAccessed true 0 (pairCall hypWrite (2 ^ 64 - 1))).2.2,
    pairAccessed_reach, @RemioStep.hypercall _ _ _ _ _ true _ _ rfl (by decide) rfl, rfl, rfl,
    ⟨by decide, rfl⟩, rfl, ?_⟩
  rintro (⟨-, d, dev, hdev, -, hcount, -⟩ | ⟨hstate | hstate, -⟩)
  · have hnone : ∀ dev ∈ (remioHypercall pairPlatform pairAccessed true 0
        (pairCall hypWrite (2 ^ 64 - 1))).2.2.devices, dev.pending = [] := by decide
    rw [hnone dev (List.mem_of_getElem? hdev)] at hcount
    cases hcount
  · cases hstate
  · cases hstate

end Bao

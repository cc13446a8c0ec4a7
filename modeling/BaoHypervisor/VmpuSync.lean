import BaoHypervisor.VmpuSystem

/-!
# Shared hypervisor mappings of several CPUs

Every CPU has a vMPU of its own for the hypervisor.  The CPU that changes a
shared section sends what it did to its entries, and every other CPU replays
it: an `INSERT` by the whole of `mem_map`, a `REMOVE` by unmapping the range.
Seen as sets of regions the two agree as long as no neighbours merge: the
sender tells of a merge by an `UPDATE` and a `REMOVE`, but a receiver has
merged on its own by then, and the `REMOVE` takes away half of the result.
-/

namespace Bao

open RangeList AddrSpace VmpuCpu Replay

variable {σ : Type}

/-- The CPUs of a platform; `vcpuVmCpus` is per CPU the CPUs of the VM it runs. -/
structure SyncPlatform (σ : Type) where
  machine : Machine
  arch : MpuArch σ
  cpuNum : Nat
  sharedRegionPoolSize : Nat
  vcpuVmCpus : Nat → Option Nat

/-- CPU `c` of the platform. -/
def SyncPlatform.cpu (P : SyncPlatform σ) (c : Nat) : VmpuCpu σ where
  machine := P.machine
  arch := P.arch
  cpuNum := P.cpuNum
  sharedRegionPoolSize := P.sharedRegionPoolSize
  id := c
  vcpuVmCpus := P.vcpuVmCpus c

/-- Per CPU its hypervisor address space, its MPU and the `MEM_PROT_SYNC`
messages it has not handled, oldest first. -/
structure SyncState (σ : Type) where
  spaces : Nat → AddrSpace
  mpu : Nat → σ
  queue : Nat → List SharedRegion
  shared : Nat

/-- What was sent to CPU `c`. -/
def inbox (sent : List (Nat × SharedRegion)) (c : Nat) : List SharedRegion :=
  (sent.filter fun m => m.1 = c).map Prod.snd

namespace SyncState

/-- The state CPU `c` works on. -/
def view (s : SyncState σ) (c : Nat) : VmpuState σ := ⟨s.spaces c, s.mpu c, s.shared, []⟩

/-- The state after an operation of CPU `c`, its messages delivered. -/
def put (s : SyncState σ) (c : Nat) (st : VmpuState σ) : SyncState σ where
  spaces := fun d => if d = c then st.as else s.spaces d
  mpu := fun d => if d = c then st.mpu else s.mpu d
  queue := fun d => s.queue d ++ inbox st.sent d
  shared := st.shared

end SyncState

/-- The calls of the sending CPU, and the handling of one message. -/
inductive SyncEvent
  | map (mpr : MpRegion)
  | unmap (at_ numPages : Nat) (freePpages : Bool)
  | handle (c : Nat)

/-- One call of `mem_map(.., MEM_BROADCAST, MEM_NOT_LOCKED)` or `mem_unmap` on
CPU `src`, or another CPU handling its oldest message. -/
inductive SyncStep (P : SyncPlatform σ) (src : Nat) : SyncState σ → SyncEvent → SyncState σ → Prop
  | map {s : SyncState σ} {mpr : MpRegion} {fuel : Nat} {ok : Bool} {st : VmpuState σ}
      (h : (P.cpu src).memMap fuel (s.view src) mpr true false = some (ok, st)) :
      SyncStep P src s (.map mpr) (s.put src st)
  | unmap {s : SyncState σ} {at_ numPages fuel : Nat} {freePpages : Bool} {freed : Option Ppages}
      {st : VmpuState σ}
      (h : (P.cpu src).memUnmap fuel (s.view src) at_ numPages freePpages = some (freed, st)) :
      SyncStep P src s (.unmap at_ numPages freePpages) (s.put src st)
  | handle {s : SyncState σ} {c fuel : Nat} {msg : SharedRegion} {rest : List SharedRegion}
      {vmAs : Option AddrSpace} {st : VmpuState σ} (hc : c < P.cpuNum) (hne : c ≠ src)
      (hqueue : s.queue c = msg :: rest)
      (h : (P.cpu c).memHandleBroadcastRegion fuel
        ({ s with queue := fun d => if d = c then rest else s.queue d }.view c) vmAs msg = some st) :
      SyncStep P src s (.handle c)
        ({ s with queue := fun d => if d = c then rest else s.queue d }.put c st)

/-- A set of regions. -/
abbrev Regions : Type := MpRegion → Prop

/-- The regions of the valid entries. -/
def AddrSpace.regions (as : AddrSpace) : Regions := fun r => ∃ i, as.Valid i ∧ (as.node i).region = r

/-- The address `a` is mapped with the flags `f`. -/
def AddrSpace.MapsTo (as : AddrSpace) (a f : Nat) : Prop :=
  ∃ i, as.Valid i ∧ as.Covers i a ∧ (as.node i).region.memFlags = f

/-- The second region starts where the first ends, with compatible flags. -/
def Mergeable (arch : MpuArch σ) (r r' : MpRegion) : Prop :=
  r.base + r.size = r'.base ∧ arch.mpuPermsCompatible r.memFlags r'.memFlags = true

/-- No two regions of the set can merge. -/
def NoMerge (arch : MpuArch σ) (S : Regions) : Prop :=
  ∀ r r', S r → S r' → ¬ Mergeable arch r r'

/-- The physical MPU accepts every region of the hypervisor and leaves the
flags `norm` of it; doing so twice is doing so once. -/
structure Accepts (arch : MpuArch σ) (norm : Nat → Nat) : Prop where
  maps : ∀ mpu as mpr lock, as.type = .hyp → (arch.mpuMap mpu as mpr lock).1 = true
  flags : ∀ mpu as mpr lock, as.type = .hyp →
    (arch.mpuMap mpu as mpr lock).2.1 = norm mpr.memFlags
  idem : ∀ f, norm (norm f) = norm f

/-- A hypervisor vMPU whose entries are unlocked regions of `SEC_HYP_GLOBAL`
with flags as the MPU leaves them. -/
structure SharedSpace (M : Machine) (norm : Nat → Nat) (as : AddrSpace) : Prop where
  wf : as.Wf M
  hyp : as.type = .hyp
  unlocked : ∀ i, as.Valid i → (as.node i).lock = false
  global : ∀ i, as.Valid i → (as.node i).region.asSec = .hypGlobal
  flags : ∀ i, as.Valid i → norm (as.node i).region.memFlags = (as.node i).region.memFlags

/-- What a message is meant to do to the regions of a CPU. -/
def applyMsg (S : Regions) (m : SharedRegion) : Regions :=
  match m.event with
  | .insert => fun r => S r ∨ r = m.region
  | .remove => fun r => S r ∧ r ≠ m.region
  | .update => S

/-- A region that can be added to the set: nonempty, in the address space,
apart from its regions and mergeable with none. -/
structure Addable (M : Machine) (arch : MpuArch σ) (norm : Nat → Nat) (S : Regions)
    (r : MpRegion) : Prop where
  global : r.asSec = .hypGlobal
  nonempty : 0 < r.size
  fits : r.base + r.size < M.wordCount
  flags : norm r.memFlags = r.memFlags
  apart : ∀ r', S r' → r.base + r.size ≤ r'.base ∨ r'.base + r'.size ≤ r.base
  noMerge : NoMerge arch fun r' => S r' ∨ r' = r

/-- A message that does on every CPU with these regions what it is meant to. -/
def MsgOk (M : Machine) (arch : MpuArch σ) (norm : Nat → Nat) (S : Regions) (m : SharedRegion) :
    Prop :=
  m.asType = .hyp ∧
    match m.event with
    | .insert => m.lock = false ∧ Addable M arch norm S m.region
    | .remove => S m.region
    | .update => False

/-- The initial states: every CPU maps the same unlocked `SEC_HYP_GLOBAL`
regions, and no message is under way. -/
structure SyncState.Initial (P : SyncPlatform σ) (norm : Nat → Nat) (s : SyncState σ) : Prop where
  space : ∀ c, c < P.cpuNum → SharedSpace P.machine norm (s.spaces c)
  same : ∀ c d, c < P.cpuNum → d < P.cpuNum → (s.spaces c).regions = (s.spaces d).regions
  quiet : ∀ c, c < P.cpuNum → s.queue c = []

/-- The runs in which CPU `src` maps and unmaps and the others handle what it
sends. -/
def syncSystem (P : SyncPlatform σ) (norm : Nat → Nat) (src : Nat) :
    StepSystem (SyncState σ) SyncEvent where
  init := SyncState.Initial P norm
  step := SyncStep P src

/-- The condition on the sender's calls.  A region that is mapped is of
`SEC_HYP_GLOBAL` and does not wrap; it is empty, or contained in a valid
entry, or it meets none and merges with none.  A range that is unmapped does
not wrap, and no two regions of the sender can merge. -/
def SyncEvent.Fits (P : SyncPlatform σ) (norm : Nat → Nat) (src : Nat) (s : SyncState σ) :
    SyncEvent → Prop
  | .map mpr =>
      mpr.asSec = .hypGlobal ∧ mpr.base + mpr.size < P.machine.wordCount ∧
        (mpr.size = 0 ∨ (∃ i, Contains (s.spaces src) i mpr) ∨
          (MeetsNone (s.spaces src) mpr ∧
            NoMerge P.arch fun r => (s.spaces src).regions r ∨
              r = { mpr with memFlags := norm mpr.memFlags }))
  | .unmap at_ numPages _ =>
      at_ + numPages * P.machine.pageSize % P.machine.wordCount < P.machine.wordCount ∧
        NoMerge P.arch (s.spaces src).regions
  | .handle _ => True

/-! ## The regions of a vMPU -/

section Regions

variable {M : Machine} {as as' : AddrSpace} {i j : Mpid} {norm : Nat → Nat} {mpr : MpRegion}

theorem regions_allocate (h : as.memVmpuAllocateEntry = some (i, as')) :
    as'.regions = as.regions := by
  obtain ⟨hfree, rfl⟩ := memVmpuAllocateEntry_some h
  funext r
  apply propext
  constructor
  · rintro ⟨j, hj, rfl⟩
    obtain ⟨hvalid, hnode⟩ := allocateEntry_node h hj
    exact ⟨j, hvalid, by rw [hnode]⟩
  · rintro ⟨j, hj, rfl⟩
    have hji : j ≠ i := by
      rintro rfl
      rw [Valid, hfree] at hj
      cases hj
    refine ⟨j, ?_, ?_⟩
    · rw [Valid, setNode_node_other _ _ hji]
      exact hj
    · rw [setNode_node_other _ _ hji]

theorem regions_setEntry {lock : Bool} (hi : ¬ as.Valid i) :
    (as.memVmpuSetEntry i mpr lock).regions = fun r => as.regions r ∨ r = mpr := by
  funext r
  apply propext
  constructor
  · rintro ⟨j, hj, rfl⟩
    by_cases hji : j = i
    · subst hji
      right
      rw [memVmpuSetEntry_node, setNode_node_same]
    · left
      rw [Valid, memVmpuSetEntry_node, setNode_node_other _ _ hji] at hj
      exact ⟨j, hj, by rw [memVmpuSetEntry_node, setNode_node_other _ _ hji]⟩
  · rintro (⟨j, hj, rfl⟩ | rfl)
    · have hji : j ≠ i := fun heq => hi (heq ▸ hj)
      refine ⟨j, ?_, ?_⟩
      · rw [Valid, memVmpuSetEntry_node, setNode_node_other _ _ hji]
        exact hj
      · rw [memVmpuSetEntry_node, setNode_node_other _ _ hji]
    · refine ⟨i, ?_, ?_⟩
      · rw [Valid, memVmpuSetEntry_node, setNode_node_same]
      · rw [memVmpuSetEntry_node, setNode_node_same]

theorem AddrSpace.Wf.region_inj (h : as.Wf M) (hi : as.Valid i) (hj : as.Valid j)
    (heq : (as.node i).region = (as.node j).region) : i = j := by
  refine h.covers_unique (a := as.base i) hi hj ⟨Nat.le_refl _, h.nonempty i hi⟩ ?_
  have hne := h.nonempty i hi
  unfold Covers limit base at *
  rw [← heq]
  exact ⟨Nat.le_refl _, hne⟩

theorem regions_freeEntry (h : as.Wf M) (pteInvalid : Nat) (hi : as.Valid i) :
    (as.memVmpuFreeEntry pteInvalid i).regions =
      fun r => as.regions r ∧ r ≠ (as.node i).region := by
  funext r
  apply propext
  constructor
  · rintro ⟨j, hj, rfl⟩
    obtain ⟨hvalid, hji⟩ := memVmpuFreeEntry_valid.mp hj
    rw [memVmpuFreeEntry_node_other _ hji]
    exact ⟨⟨j, hvalid, rfl⟩, fun heq => hji (h.region_inj hvalid hi heq)⟩
  · rintro ⟨⟨j, hj, rfl⟩, hne⟩
    have hji : j ≠ i := fun heq => hne (by rw [heq])
    exact ⟨j, memVmpuFreeEntry_valid.mpr ⟨hj, hji⟩, by rw [memVmpuFreeEntry_node_other _ hji]⟩

namespace SharedSpace

theorem allocate (h : SharedSpace M norm as) (halloc : as.memVmpuAllocateEntry = some (i, as')) :
    SharedSpace M norm as' := by
  have hnode : ∀ j, as'.Valid j → as.Valid j ∧ as'.node j = as.node j :=
    fun _ hj => allocateEntry_node halloc hj
  refine ⟨(h.wf.allocateEntry halloc).1, ?_, ?_, ?_, ?_⟩
  · rw [(memVmpuAllocateEntry_some halloc).2]
    exact h.hyp
  · intro j hj
    rw [(hnode j hj).2]
    exact h.unlocked j (hnode j hj).1
  · intro j hj
    rw [(hnode j hj).2]
    exact h.global j (hnode j hj).1
  · intro j hj
    rw [(hnode j hj).2]
    exact h.flags j (hnode j hj).1

theorem setEntry (h : SharedSpace M norm as) (hwf : (as.memVmpuSetEntry i mpr false).Wf M)
    (hglobal : mpr.asSec = .hypGlobal) (hflags : norm mpr.memFlags = mpr.memFlags) :
    SharedSpace M norm (as.memVmpuSetEntry i mpr false) := by
  have hsame : (as.memVmpuSetEntry i mpr false).node i = ⟨.valid, false, mpr⟩ := by simp
  have hother : ∀ j, j ≠ i → (as.memVmpuSetEntry i mpr false).node j = as.node j :=
    fun j hj => setNode_node_other _ _ hj
  refine ⟨hwf, h.hyp, ?_, ?_, ?_⟩
  · intro j hj
    by_cases hji : j = i
    · rw [hji, hsame]
    · rw [Valid, hother j hji] at hj
      rw [hother j hji]
      exact h.unlocked j hj
  · intro j hj
    by_cases hji : j = i
    · rw [hji, hsame]
      exact hglobal
    · rw [Valid, hother j hji] at hj
      rw [hother j hji]
      exact h.global j hj
  · intro j hj
    by_cases hji : j = i
    · rw [hji, hsame]
      exact hflags
    · rw [Valid, hother j hji] at hj
      rw [hother j hji]
      exact h.flags j hj

theorem freeEntry (h : SharedSpace M norm as) (pteInvalid : Nat) (i : Mpid) :
    SharedSpace M norm (as.memVmpuFreeEntry pteInvalid i) := by
  have hnode : ∀ j, (as.memVmpuFreeEntry pteInvalid i).Valid j → as.Valid j ∧
      (as.memVmpuFreeEntry pteInvalid i).node j = as.node j := by
    intro j hj
    obtain ⟨hvalid, hji⟩ := memVmpuFreeEntry_valid.mp hj
    exact ⟨hvalid, memVmpuFreeEntry_node_other _ hji⟩
  refine ⟨h.wf.freeEntry pteInvalid i, h.hyp, ?_, ?_, ?_⟩
  · intro j hj
    rw [(hnode j hj).2]
    exact h.unlocked j (hnode j hj).1
  · intro j hj
    rw [(hnode j hj).2]
    exact h.global j (hnode j hj).1
  · intro j hj
    rw [(hnode j hj).2]
    exact h.flags j (hnode j hj).1

theorem mapsTo_iff {a f : Nat} :
    as.MapsTo a f ↔ ∃ r, as.regions r ∧ r.base ≤ a ∧ a < r.base + r.size ∧ r.memFlags = f := by
  constructor
  · rintro ⟨i, hi, ⟨hlow, hhigh⟩, hf⟩
    exact ⟨_, ⟨i, hi, rfl⟩, hlow, hhigh, hf⟩
  · rintro ⟨_, ⟨i, hi, rfl⟩, hlow, hhigh, hf⟩
    exact ⟨i, hi, ⟨hlow, hhigh⟩, hf⟩

end SharedSpace

end Regions

/-! ## What is sent -/

section Sending

variable {C : VmpuCpu σ} {st st' : VmpuState σ} {mpr : MpRegion} {op : MemEvent} {locked : Bool}

/-- The CPUs other than this one. -/
def VmpuCpu.others (C : VmpuCpu σ) : List Nat := (List.range C.cpuNum).filter fun c => c ≠ C.id

/-- Send `msgs` to every other CPU, one after the other. -/
def VmpuCpu.toOthers (C : VmpuCpu σ) (msgs : List SharedRegion) : List (Nat × SharedRegion) :=
  msgs.flatMap fun m => C.others.map fun c => (c, m)

/-- A message of this CPU about a shared hypervisor region. -/
def sharedMsg (as : AddrSpace) (op : MemEvent) (mpr : MpRegion) (locked : Bool) : SharedRegion :=
  { event := op, asType := .hyp, asid := as.id, region := mpr, lock := locked }

/-- A broadcast of a `SEC_HYP_GLOBAL` region reaches every other CPU. -/
theorem broadcastRegion_global (hhyp : st.as.type = .hyp) (hglobal : mpr.asSec = .hypGlobal)
    (h : C.broadcastRegion st mpr op true locked = some st') :
    st'.sent = st.sent ++ C.toOthers [sharedMsg st.as op mpr locked] := by
  have htargets : (List.range C.cpuNum).filter
      (fun c => c ≠ C.id ∧ (2 ^ C.cpuNum - 1).testBit c) = C.others := by
    refine List.filter_congr ?_
    intro c hc
    have hlt := List.mem_range.mp hc
    simp [Nat.testBit_two_pow_sub_one, hlt]
  have hprivate : ¬ (st.as.type = .hyp ∧ mpr.asSec = .hypPrivate) := by
    rw [hglobal]
    rintro ⟨-, hsec⟩
    cases hsec
  rw [broadcastRegion, memBroadcast, if_neg hprivate, if_pos rfl, memRegionBroadcast,
    memSectionSharedCpus, if_pos hhyp, if_pos (Or.inl hglobal)] at h
  dsimp only at h
  rw [htargets] at h
  split at h
  · cases h
    simp [VmpuCpu.toOthers, sharedMsg, hhyp]
  · cases h

theorem broadcastRegion_quiet (h : C.broadcastRegion st mpr op false locked = some st') :
    st' = st := by
  have hoff : memBroadcast st.as mpr false = false := by
    rw [memBroadcast]
    split <;> rfl
  rw [broadcastRegion, hoff] at h
  cases h
  rfl

theorem inbox_append (l l' : List (Nat × SharedRegion)) (c : Nat) :
    inbox (l ++ l') c = inbox l c ++ inbox l' c := by
  simp [inbox]

theorem inbox_toOthers {c : Nat} (hc : c < C.cpuNum) (hne : c ≠ C.id) (msgs : List SharedRegion) :
    inbox (C.toOthers msgs) c = msgs := by
  have hone : ∀ (l : List Nat), l.Nodup → c ∈ l → l.filter (fun d => d = c) = [c] := by
    intro l
    induction l with
    | nil =>
        intro _ hmem
        cases hmem
    | cons d l ih =>
        intro hnodup hmem
        obtain ⟨hd, hl⟩ := List.nodup_cons.mp hnodup
        rcases List.mem_cons.mp hmem with rfl | hmem
        · rw [List.filter_cons_of_pos (by simp)]
          have hnone : l.filter (fun d => d = c) = [] := by
            refine List.filter_eq_nil_iff.mpr ?_
            intro x hx heq
            exact hd ((of_decide_eq_true heq) ▸ hx)
          rw [hnone]
        · have hdc : d ≠ c := fun heq => hd (heq ▸ hmem)
          rw [List.filter_cons_of_neg (by simpa using hdc)]
          exact ih hl hmem
  have hothers : C.others.filter (fun d => d = c) = [c] := by
    refine hone _ (List.nodup_range.filter _) ?_
    simp [VmpuCpu.others, hc, hne]
  induction msgs with
  | nil => rfl
  | cons m msgs ih =>
      have hhead : inbox (C.others.map fun d => (d, m)) c = [m] := by
        rw [inbox, List.filter_map]
        have hcomp : ((fun x : Nat × SharedRegion => decide (x.1 = c)) ∘ fun d => (d, m)) =
            fun d => decide (d = c) := rfl
        rw [hcomp, hothers]
        rfl
      show inbox ((C.others.map fun d => (d, m)) ++ C.toOthers msgs) c = m :: msgs
      rw [inbox_append, hhead, ih]
      rfl

end Sending

/-! ## Insertions and removals -/

section Operations

variable {C : VmpuCpu σ} {st st' st'' : VmpuState σ} {mpr : MpRegion} {norm : Nat → Nat}
  {broadcast ok : Bool} {i : Mpid}

/-- A shared vMPU takes a region that meets none of its own, with the flags
that the MPU leaves, and broadcasts it if asked to. -/
theorem insert_shared {as1 : AddrSpace} (hacc : Accepts C.arch norm)
    (hshared : SharedSpace C.machine norm st.as)
    (halloc : st.as.memVmpuAllocateEntry = some (i, as1)) (hglobal : mpr.asSec = .hypGlobal)
    (hsize : 0 < mpr.size) (hfit : mpr.base + mpr.size < C.machine.wordCount)
    (hmeets : MeetsNone st.as mpr)
    (h : C.memVmpuInsertRegion { st with as := as1 } i mpr broadcast false = some (ok, st')) :
    let mpr' := { mpr with memFlags := norm mpr.memFlags }
    ok = true ∧ SharedSpace C.machine norm st'.as ∧
      st'.as.regions = (fun r => st.as.regions r ∨ r = mpr') ∧
      st'.sent = st.sent ++
        if broadcast then C.toOthers [sharedMsg st.as .insert mpr' false] else [] := by
  have hshared1 := hshared.allocate halloc
  obtain ⟨hwf1, hnot⟩ := hshared.wf.allocateEntry halloc
  have hid : as1.id = st.as.id := by rw [(memVmpuAllocateEntry_some halloc).2]; rfl
  have hlock : memCheckForcedLocked mpr false = false := by
    rw [memCheckForcedLocked, hglobal]
    rfl
  have hcases := memVmpuInsertRegion_cases h
  dsimp only at hcases
  rw [hlock, hacc.maps st.mpu as1 mpr false hshared1.hyp,
    hacc.flags st.mpu as1 mpr false hshared1.hyp] at hcases
  rcases hcases with ⟨hno, -, -⟩ | ⟨-, hok, hsend⟩
  · cases hno
  · have has := (broadcastRegion_as hsend).1
    have hwf : (as1.memVmpuSetEntry i { mpr with memFlags := norm mpr.memFlags } false).Wf
        C.machine := hwf1.setEntry hnot hsize hfit (hmeets.allocate halloc)
    refine ⟨hok, ?_, ?_, ?_⟩
    · rw [has]
      exact hshared1.setEntry hwf hglobal (hacc.idem _)
    · rw [has, regions_setEntry hnot, regions_allocate halloc]
    · cases broadcast with
      | false =>
          rw [broadcastRegion_quiet hsend]
          simp
      | true =>
          have hsent := @broadcastRegion_global _ C _ st' { mpr with memFlags := norm mpr.memFlags }
            .insert false hshared1.hyp hglobal hsend
          rw [hsent]
          show st.sent ++ C.toOthers [⟨.insert, .hyp, as1.id, _, false⟩] = _
          rw [hid]
          rfl

theorem coalesce_nothing {fuel : Nat} (hwf : st.as.Wf C.machine)
    (hno : NoMerge C.arch st.as.regions)
    (h : C.memVmpuCoalesceContiguous broadcast fuel st = some st') : st' = st := by
  have hpair : ∀ prev cur, st.as.Valid prev → st.as.Valid cur →
      C.canMerge st.as prev cur = false := by
    intro prev cur hprev hcur
    cases hmerge : C.canMerge st.as prev cur with
    | false => rfl
    | true =>
        simp only [canMerge, Bool.and_eq_true, decide_eq_true_eq] at hmerge
        obtain ⟨⟨hcont, hperms⟩, -⟩ := hmerge
        have hfit : (st.as.node prev).region.base + (st.as.node prev).region.size <
            C.machine.wordCount := hwf.fits prev hprev
        rw [Nat.mod_eq_of_lt hfit] at hcont
        exact absurd ⟨hcont, hperms⟩ (hno _ _ ⟨prev, hprev, rfl⟩ ⟨cur, hcur, rfl⟩)
  have hnone : ∀ l : List Mpid, (∀ k ∈ l, st.as.Valid k) → C.findMerge st.as l = none := by
    intro l
    induction l with
    | nil =>
        intro _
        rfl
    | cons prev l ih =>
        intro hl
        cases l with
        | nil => rfl
        | cons cur rest =>
            have hmerge := hpair prev cur (hl prev (by simp)) (hl cur (by simp))
            rw [findMerge, hmerge]
            exact ih fun k hk => hl k (List.mem_cons_of_mem _ hk)
  cases fuel with
  | zero => cases h
  | succ fuel =>
      rw [memVmpuCoalesceContiguous,
        hnone _ (fun k hk => (hwf.listed k).mp hk)] at h
      cases h
      rfl

/-- The sender went from `st` to `st'` and sent `msgs`, which do the same to
its set of regions. -/
structure Sends (C : VmpuCpu σ) (norm : Nat → Nat) (st st' : VmpuState σ)
    (msgs : List SharedRegion) : Prop where
  space : SharedSpace C.machine norm st'.as
  sent : st'.sent = st.sent ++ C.toOthers msgs
  plays : Plays (MsgOk C.machine C.arch norm) applyMsg st.as.regions msgs st'.as.regions

theorem Sends.refl (h : SharedSpace C.machine norm st.as) : Sends C norm st st [] :=
  ⟨h, (List.append_nil _).symm, .nil⟩

theorem Sends.trans {msgs msgs' : List SharedRegion} (h : Sends C norm st st' msgs)
    (h' : Sends C norm st' st'' msgs') : Sends C norm st st'' (msgs ++ msgs') where
  space := h'.space
  sent := by
    rw [h'.sent, h.sent, List.append_assoc]
    simp [VmpuCpu.toOthers]
  plays := h.plays.append h'.plays

theorem apart_regions {as : AddrSpace} (h : MeetsNone as mpr) {r : MpRegion}
    (hr : as.regions r) : mpr.base + mpr.size ≤ r.base ∨ r.base + r.size ≤ mpr.base := by
  obtain ⟨j, hj, rfl⟩ := hr
  exact h j hj

/-- Mapping a region that fits sends an `INSERT` of it, or nothing. -/
theorem memMap_sends {fuel : Nat} (hacc : Accepts C.arch norm)
    (hshared : SharedSpace C.machine norm st.as) (hglobal : mpr.asSec = .hypGlobal)
    (hfit : mpr.base + mpr.size < C.machine.wordCount)
    (hplace : mpr.size = 0 ∨ (∃ i, Contains st.as i mpr) ∨ (MeetsNone st.as mpr ∧
      NoMerge C.arch fun r => st.as.regions r ∨ r = { mpr with memFlags := norm mpr.memFlags }))
    (h : C.memMap fuel st mpr true false = some (ok, st')) : ∃ msgs, Sends C norm st st' msgs := by
  rcases memMap_cases h with ⟨-, -, rfl⟩ | ⟨-, -, rfl⟩ |
    ⟨hsize, hfind, i, as1, st1, halloc, hinsert, hend⟩
  · exact ⟨[], .refl hshared⟩
  · exact ⟨[], .refl hshared⟩
  · obtain ⟨hmeets, hno⟩ : MeetsNone st.as mpr ∧ NoMerge C.arch fun r =>
        st.as.regions r ∨ r = { mpr with memFlags := norm mpr.memFlags } := by
      refine (hplace.resolve_left hsize).resolve_left ?_
      rintro ⟨j, hj⟩
      exact find_none hshared.wf hfit hfind j hj
    have hpos := Nat.pos_of_ne_zero hsize
    obtain ⟨rfl, hspace, hregions, hsent⟩ :=
      insert_shared hacc hshared halloc hglobal hpos hfit hmeets hinsert
    have hend : C.memVmpuCoalesceContiguous true fuel st1 = some st' := hend
    rw [← hregions] at hno
    have heq := coalesce_nothing hspace.wf hno hend
    subst heq
    refine ⟨[sharedMsg st.as .insert { mpr with memFlags := norm mpr.memFlags } false],
      hspace, hsent, ?_⟩
    rw [hregions] at hno ⊢
    refine Plays.one ⟨rfl, rfl, ?_⟩
    exact ⟨hglobal, hpos, hfit, hacc.idem _, fun r hr => apart_regions hmeets hr, hno⟩

/-- Putting back a part of a region sends an `INSERT` of it. -/
theorem insertRest_sends (h : C.insertRest st mpr true false = some (ok, st'))
    (hacc : Accepts C.arch norm) (hshared : SharedSpace C.machine norm st.as)
    (hglobal : mpr.asSec = .hypGlobal) (hflags : norm mpr.memFlags = mpr.memFlags)
    (hfit : mpr.base + mpr.size < C.machine.wordCount)
    (hplace : 0 < mpr.size → MeetsNone st.as mpr ∧
      NoMerge C.arch fun r => st.as.regions r ∨ r = mpr) :
    ok = true ∧ (∃ msgs, Sends C norm st st' msgs) ∧
      st'.as.regions = fun r => st.as.regions r ∨ (0 < mpr.size ∧ r = mpr) := by
  rw [insertRest] at h
  split at h
  · rename_i hpos
    obtain ⟨hmeets, hno⟩ := hplace hpos
    obtain ⟨⟨j, as1⟩, halloc, h⟩ := Option.bind_eq_some_iff.mp h
    obtain ⟨hok, hspace, hregions, hsent⟩ :=
      insert_shared hacc hshared halloc hglobal hpos hfit hmeets h
    rw [hflags] at hregions hsent
    refine ⟨hok, ⟨[sharedMsg st.as .insert mpr false], hspace, hsent, ?_⟩, ?_⟩
    · rw [hregions]
      refine Plays.one ⟨rfl, rfl, ?_⟩
      exact ⟨hglobal, hpos, hfit, hflags, fun r hr => apart_regions hmeets hr, hno⟩
    · rw [hregions]
      simp only [hpos, true_and]
  · rename_i hzero
    cases h
    refine ⟨rfl, ⟨[], .refl hshared⟩, ?_⟩
    funext r
    apply propext
    simp [hzero]

/-- Removing a valid entry sends a `REMOVE` of its region. -/
theorem memVmpuRemoveRegion_sends (hshared : SharedSpace C.machine norm st.as)
    (hi : st.as.Valid i) (h : C.memVmpuRemoveRegion st i true = some (ok, st')) :
    (∃ msgs, Sends C norm st st' msgs) ∧
      st'.as.regions = fun r => st.as.regions r ∧ r ≠ (st.as.node i).region := by
  obtain ⟨-, st1, hsend, has, hsent⟩ := memVmpuRemoveRegion_cases h hi
  rw [(broadcastRegion_as hsend).1] at has
  rw [broadcastRegion_global hshared.hyp (hshared.global i hi) hsend] at hsent
  have hregions := regions_freeEntry hshared.wf C.arch.pteInvalid hi
  rw [← has] at hregions
  refine ⟨⟨_, ?_, hsent, ?_⟩, hregions⟩
  · rw [has]
    exact hshared.freeEntry _ _
  · rw [hregions]
    exact Plays.one ⟨rfl, i, hi, rfl⟩

/-- A part of a region can merge with no region that is apart from the whole,
because the whole could not. -/
theorem NoMerge.part {S T : Regions} {r p : MpRegion} {arch : MpuArch σ} (hS : NoMerge arch S)
    (hr : S r) (hT : ∀ x, T x → S x ∧ 0 < x.size ∧
      (x.base + x.size ≤ r.base ∨ r.base + r.size ≤ x.base))
    (hlow : r.base ≤ p.base) (hhigh : p.base + p.size ≤ r.base + r.size) (hpos : 0 < p.size)
    (hflags : p.memFlags = r.memFlags) : NoMerge arch fun x => T x ∨ x = p := by
  rintro x y (hx | rfl) (hy | rfl) ⟨hcont, hperms⟩
  · exact hS x y (hT x hx).1 (hT y hy).1 ⟨hcont, hperms⟩
  · obtain ⟨hxS, hxpos, hxr⟩ := hT x hx
    refine hS x r hxS hr ⟨by omega, ?_⟩
    rwa [← hflags]
  · obtain ⟨hyS, hypos, hyr⟩ := hT y hy
    refine hS r y hr hyS ⟨by omega, ?_⟩
    rwa [← hflags]
  · omega

/-- Two regions that cannot merge with each other or with a set can be added
to it together. -/
theorem NoMerge.both {T : Regions} {p q : MpRegion} {arch : MpuArch σ}
    (hp : NoMerge arch fun x => T x ∨ x = p) (hq : NoMerge arch fun x => T x ∨ x = q)
    (hpq : p.base + p.size ≠ q.base) (hqp : q.base + q.size ≠ p.base) :
    NoMerge arch fun x => (T x ∨ x = p) ∨ x = q := by
  rintro x y (hx | rfl) (hy | rfl) hmerge
  · exact hp x y hx hy hmerge
  · rcases hx with hx | rfl
    · exact hq x y (.inl hx) (.inr rfl) hmerge
    · exact hpq hmerge.1
  · rcases hy with hy | rfl
    · exact hq x y (.inr rfl) (.inl hy) hmerge
    · exact hqp hmerge.1
  · exact hq _ _ (.inr rfl) (.inr rfl) hmerge

/-- Splitting an entry sends a `REMOVE` of its region and an `INSERT` of each
part that is put back. -/
theorem unmapEntry_sends {vaddr size : Nat} {overlap : Option Nat} (hacc : Accepts C.arch norm)
    (hshared : SharedSpace C.machine norm st.as) (hno : NoMerge C.arch st.as.regions)
    (hpos : 0 < size) (hfit : vaddr + size < C.machine.wordCount)
    (hi : Contains st.as i ⟨vaddr, size, 0, .unknown⟩)
    (h : C.unmapEntry st i vaddr size true = some (overlap, st')) :
    overlap = some size ∧ ∃ msgs, Sends C norm st st' msgs := by
  obtain ⟨removed, okTop, st1, st2, hremove, hinsTop, hend⟩ :=
    unmapEntry_cases hshared.wf hfit hi h
  obtain ⟨hvalid, hlow, hhigh⟩ := hi
  dsimp only at hlow hhigh
  have hlimit := hshared.wf.fits i hvalid
  have hglobal := hshared.global i hvalid
  have hflags := hshared.flags i hvalid
  have hlockFalse := hshared.unlocked i hvalid
  obtain ⟨⟨msgs1, hsends1⟩, hregions1⟩ := memVmpuRemoveRegion_sends hshared hvalid hremove
  have hapart : ∀ j, st1.as.Valid j →
      st1.as.limit j ≤ st.as.base i ∨ st.as.limit i ≤ st1.as.base j :=
    fun _ hj => removed_apart hshared.wf hvalid hremove hj
  -- What stays is apart from the region that was split.
  have hrest : ∀ x, st1.as.regions x → st.as.regions x ∧ 0 < x.size ∧
      (x.base + x.size ≤ (st.as.node i).region.base ∨
        (st.as.node i).region.base + (st.as.node i).region.size ≤ x.base) := by
    intro x hx
    have hxS : st.as.regions x := by
      rw [hregions1] at hx
      exact hx.1
    obtain ⟨j, hj, rfl⟩ := hx
    have hne := hsends1.space.wf.nonempty j hj
    refine ⟨hxS, ?_, hapart j hj⟩
    unfold limit at hne
    omega
  have hreg : st.as.regions (st.as.node i).region := ⟨i, hvalid, rfl⟩
  have hbase : (st.as.node i).region.base = st.as.base i := rfl
  have hend' : (st.as.node i).region.base + (st.as.node i).region.size = st.as.limit i := rfl
  rw [hlockFalse] at hinsTop
  have htop : 0 < st.as.limit i - (vaddr + size) →
      MeetsNone st1.as { (st.as.node i).region with
        base := vaddr + size, size := st.as.limit i - (vaddr + size) } ∧
      NoMerge C.arch fun r => st1.as.regions r ∨ r = { (st.as.node i).region with
        base := vaddr + size, size := st.as.limit i - (vaddr + size) } := by
    intro htpos
    refine ⟨?_, ?_⟩
    · intro j hj
      dsimp only
      rcases hapart j hj with h1 | h1
      · right
        omega
      · left
        omega
    · refine hno.part hreg hrest ?_ ?_ htpos rfl
      · dsimp only
        omega
      · dsimp only
        omega
  have htopFit : vaddr + size + (st.as.limit i - (vaddr + size)) < C.machine.wordCount := by omega
  obtain ⟨rfl, ⟨msgs2, hsends2⟩, hregions2⟩ :=
    insertRest_sends hinsTop hacc hsends1.space hglobal hflags htopFit htop
  rcases hend with ⟨hfalse, -, -⟩ | ⟨-, okBottom, hinsBottom, hoverlap⟩
  · cases hfalse
  · rw [hlockFalse] at hinsBottom
    have hbottom : 0 < vaddr - st.as.base i →
        MeetsNone st2.as { (st.as.node i).region with size := vaddr - st.as.base i } ∧
        NoMerge C.arch fun r => st2.as.regions r ∨
          r = { (st.as.node i).region with size := vaddr - st.as.base i } := by
      intro hbpos
      have hnoBottom : NoMerge C.arch fun r => st1.as.regions r ∨
          r = { (st.as.node i).region with size := vaddr - st.as.base i } := by
        refine hno.part hreg hrest (Nat.le_refl _) ?_ hbpos rfl
        dsimp only
        omega
      refine ⟨?_, ?_⟩
      · intro j hj
        have hjr : st2.as.regions (st2.as.node j).region := ⟨j, hj, rfl⟩
        rw [hregions2] at hjr
        have hbj : (st2.as.node j).region.base = st2.as.base j := rfl
        have hlj : (st2.as.node j).region.base + (st2.as.node j).region.size =
            st2.as.limit j := rfl
        dsimp only
        rcases hjr with hold | ⟨-, heq⟩
        · obtain ⟨-, -, h1⟩ := hrest _ hold
          omega
        · rw [heq] at hbj
          dsimp only at hbj
          omega
      · rw [hregions2]
        by_cases htpos : 0 < st.as.limit i - (vaddr + size)
        · simp only [htpos, true_and]
          refine NoMerge.both (htop htpos).2 hnoBottom ?_ ?_
          · dsimp only
            omega
          · dsimp only
            omega
        · simp only [htpos, false_and, or_false]
          exact hnoBottom
    have hbotFit : (st.as.node i).region.base + (vaddr - st.as.base i) <
        C.machine.wordCount := by omega
    obtain ⟨rfl, ⟨msgs3, hsends3⟩, -⟩ :=
      insertRest_sends hinsBottom hacc hsends2.space hglobal hflags hbotFit hbottom
    exact ⟨hoverlap, _, (hsends1.trans hsends2).trans hsends3⟩

theorem memUnmapRange_sends {fuel vaddr size : Nat} (hacc : Accepts C.arch norm)
    (hshared : SharedSpace C.machine norm st.as) (hno : NoMerge C.arch st.as.regions)
    (hfit : vaddr + size < C.machine.wordCount)
    (h : C.memUnmapRange fuel st vaddr size true = some (ok, st')) :
    ∃ msgs, Sends C norm st st' msgs := by
  rcases memUnmapRange_cases hshared.wf hfit h with ⟨rfl, -⟩ |
    ⟨i, overlap, st1, hpos, hfind, hentry, hend⟩
  · exact ⟨[], .refl hshared⟩
  · obtain ⟨hoverlap, hsends⟩ := unmapEntry_sends hacc hshared hno hpos hfit
      (find_some hshared.wf hfit hfind) hentry
    rcases hend with ⟨hnone, -⟩ | ⟨-, -, rfl⟩
    · rw [hnone] at hoverlap
      cases hoverlap
    · exact hsends

/-! ## What a message does -/

theorem memUnmapRange_region {fuel : Nat} (hshared : SharedSpace C.machine norm st.as)
    (hi : st.as.Valid i)
    (h : C.memUnmapRange fuel st (st.as.node i).region.base (st.as.node i).region.size false =
      some (ok, st')) :
    st'.as = st.as.memVmpuFreeEntry C.arch.pteInvalid i ∧ st'.sent = st.sent := by
  have hne := hshared.wf.nonempty i hi
  have hfit : (st.as.node i).region.base + (st.as.node i).region.size < C.machine.wordCount :=
    hshared.wf.fits i hi
  have hsize : 0 < (st.as.node i).region.size := by
    unfold limit at hne
    omega
  have hself : Contains st.as i
      ⟨(st.as.node i).region.base, (st.as.node i).region.size, 0, .unknown⟩ :=
    ⟨hi, Nat.le_refl _, Nat.le_refl _⟩
  rcases memUnmapRange_cases hshared.wf hfit h with ⟨-, ⟨hzero, -⟩ | ⟨-, -, hnone⟩⟩ |
    ⟨k, overlap, st1, -, hfind, hentry, hend⟩
  · omega
  · exact absurd hself (find_none hshared.wf hfit hnone i)
  · have hk := find_some hshared.wf hfit hfind
    have hki : k = i := by
      obtain ⟨hkv, hklow, hkhigh⟩ := hk
      exact hshared.wf.covers_unique (a := st.as.base i) hkv hi
        ⟨hklow, Nat.lt_of_lt_of_le hne hkhigh⟩ ⟨Nat.le_refl _, hne⟩
    subst hki
    obtain ⟨removed, okTop, st2, st3, hremove, hinsTop, hrest⟩ :=
      unmapEntry_cases hshared.wf hfit hself hentry
    have htop0 : st.as.limit k - ((st.as.node k).region.base + (st.as.node k).region.size) = 0 :=
      Nat.sub_self _
    have hbot0 : (st.as.node k).region.base - st.as.base k = 0 := Nat.sub_self _
    obtain ⟨-, stq, hquiet, has, hsent⟩ := memVmpuRemoveRegion_cases hremove hi
    rw [broadcastRegion_quiet hquiet] at has hsent
    rw [insertRest, htop0] at hinsTop
    rw [hbot0] at hrest
    cases hinsTop
    rcases hrest with ⟨hfalse, -, -⟩ | ⟨-, okBottom, hinsBottom, hoverlap⟩
    · cases hfalse
    · rw [insertRest] at hinsBottom
      cases hinsBottom
      rcases hend with ⟨hnone, -⟩ | ⟨-, -, rfl⟩
      · rw [hnone] at hoverlap
        cases hoverlap
      · exact ⟨has, hsent⟩

/-- **Handling a message** that is acceptable does to the regions what it is
meant to do, and sends nothing. -/
theorem memHandleBroadcastRegion_shared {fuel : Nat} {vmAs : Option AddrSpace}
    {msg : SharedRegion} (h : C.memHandleBroadcastRegion fuel st vmAs msg = some st')
    (hacc : Accepts C.arch norm) (hshared : SharedSpace C.machine norm st.as)
    (hok : MsgOk C.machine C.arch norm st.as.regions msg) :
    SharedSpace C.machine norm st'.as ∧ st'.as.regions = applyMsg st.as.regions msg ∧
      st'.sent = st.sent := by
  obtain ⟨event, asType, asid, region, lock⟩ := msg
  obtain ⟨rfl, hevent⟩ := hok
  cases event with
  | insert =>
      obtain ⟨rfl, hadd⟩ := hevent
      dsimp only at hadd
      obtain ⟨⟨mapped, st1⟩, hmap, h⟩ := Option.bind_eq_some_iff.mp h
      cases h
      have hmeets : MeetsNone st.as region := fun j hj => hadd.apart _ ⟨j, hj, rfl⟩
      rcases memMap_cases hmap with ⟨hsize, -, -⟩ | ⟨⟨k, hfind⟩, -, -⟩ |
        ⟨-, -, k, as1, st3, halloc, hinsert, hend⟩
      · exact absurd hsize (Nat.ne_of_gt hadd.nonempty)
      · obtain ⟨hkv, hklow, hkhigh⟩ := find_some hshared.wf hadd.fits hfind
        have := hadd.nonempty
        have := hshared.wf.nonempty k hkv
        rcases hmeets k hkv with h1 | h1
        · omega
        · omega
      · obtain ⟨rfl, hspace, hregions, hsent⟩ := insert_shared hacc hshared halloc hadd.global
          hadd.nonempty hadd.fits hmeets hinsert
        rw [hadd.flags] at hregions
        have hend : C.memVmpuCoalesceContiguous false fuel st3 = some st1 := hend
        have hnoMerge : NoMerge C.arch st3.as.regions := by
          rw [hregions]
          exact hadd.noMerge
        have heq := coalesce_nothing hspace.wf hnoMerge hend
        subst heq
        refine ⟨hspace, hregions, ?_⟩
        rw [hsent]
        simp
  | remove =>
      obtain ⟨i, hi, hregion⟩ := hevent
      dsimp only at hregion
      subst hregion
      obtain ⟨⟨unmapped, st1⟩, hunmap, h⟩ := Option.bind_eq_some_iff.mp h
      cases h
      obtain ⟨has, hsent⟩ := memUnmapRange_region hshared hi hunmap
      refine ⟨?_, ?_, hsent⟩
      · rw [has]
        exact hshared.freeEntry _ _
      · show st1.as.regions = _
        rw [has, regions_freeEntry hshared.wf _ hi]
        rfl
  | update => exact hevent.elim

end Operations

/-! ## Runs -/

section Runs

variable {P : SyncPlatform σ} {norm : Nat → Nat} {src : Nat} {s s' : SyncState σ}

/-- Every vMPU is shared and well formed, and every other CPU is in step with
the sender: its regions, played through its queue, are the sender's. -/
structure InStep (P : SyncPlatform σ) (norm : Nat → Nat) (src : Nat) (s : SyncState σ) : Prop where
  space : ∀ c, c < P.cpuNum → SharedSpace P.machine norm (s.spaces c)
  plays : ∀ c, c < P.cpuNum → c ≠ src → Plays (MsgOk P.machine P.arch norm) applyMsg
    (s.spaces c).regions (s.queue c) (s.spaces src).regions

theorem InStep.initial (hsrc : src < P.cpuNum) (h : s.Initial P norm) : InStep P norm src s where
  space := h.space
  plays := by
    intro c hc _
    rw [h.quiet c hc, h.same c src hc hsrc]
    exact .nil

theorem InStep.send {st : VmpuState σ} {msgs : List SharedRegion} (h : InStep P norm src s)
    (hsends : Sends (P.cpu src) norm (s.view src) st msgs) : InStep P norm src (s.put src st) where
  space := by
    intro c hc
    show SharedSpace P.machine norm (if c = src then st.as else s.spaces c)
    split
    · exact hsends.space
    · exact h.space c hc
  plays := by
    intro c hc hne
    have hinbox : inbox st.sent c = msgs := by
      rw [hsends.sent]
      show inbox ([] ++ _) c = msgs
      rw [List.nil_append]
      exact inbox_toOthers hc hne msgs
    show Plays _ _ (if c = src then st.as else s.spaces c).regions (s.queue c ++ inbox st.sent c)
      (if src = src then st.as else s.spaces src).regions
    rw [if_neg hne, if_pos rfl, hinbox]
    exact (h.plays c hc hne).append hsends.plays

/-- **One step** keeps every CPU in step with the sender. -/
theorem InStep.step {e : SyncEvent} (hacc : Accepts P.arch norm) (hsrc : src < P.cpuNum)
    (h : InStep P norm src s) (hok : e.Fits P norm src s) (hstep : SyncStep P src s e s') :
    InStep P norm src s' := by
  cases hstep with
  | @map mpr fuel _ st hmap =>
      obtain ⟨hglobal, hfit, hplace⟩ := hok
      have hview : SharedSpace (P.cpu src).machine norm (s.view src).as := h.space src hsrc
      have haccepts : Accepts (P.cpu src).arch norm := hacc
      obtain ⟨msgs, hsends⟩ := memMap_sends haccepts hview hglobal hfit hplace hmap
      exact h.send hsends
  | @unmap at_ numPages fuel _ _ st hunmap =>
      obtain ⟨hfit, hno⟩ := hok
      have hview : SharedSpace (P.cpu src).machine norm (s.view src).as := h.space src hsrc
      have haccepts : Accepts (P.cpu src).arch norm := hacc
      obtain ⟨⟨unmapped, st1⟩, hrange, heq⟩ := Option.bind_eq_some_iff.mp hunmap
      cases heq
      obtain ⟨msgs, hsends⟩ := memUnmapRange_sends haccepts hview hno hfit hrange
      exact h.send hsends
  | @handle c fuel msg rest vmAs st hc hne hqueue hhandle =>
      have hplays := h.plays c hc hne
      rw [hqueue] at hplays
      obtain ⟨hmsg, hrest⟩ := hplays.head
      have hview : SharedSpace (P.cpu c).machine norm (s.spaces c) := h.space c hc
      have haccepts : Accepts (P.cpu c).arch norm := hacc
      obtain ⟨hspace, hregions, hsent⟩ :=
        memHandleBroadcastRegion_shared hhandle haccepts hview hmsg
      have hsent : st.sent = [] := hsent
      have hregions : st.as.regions = applyMsg (s.spaces c).regions msg := hregions
      refine ⟨?_, ?_⟩
      · intro d hd
        show SharedSpace P.machine norm (if d = c then st.as else s.spaces d)
        split
        · exact hspace
        · exact h.space d hd
      · intro d hd hdne
        show Plays _ _ (if d = c then st.as else s.spaces d).regions
          ((if d = c then rest else s.queue d) ++ inbox st.sent d)
          (if src = c then st.as else s.spaces src).regions
        have hsc : src ≠ c := fun heq => hne heq.symm
        have hnone : inbox st.sent d = [] := by
          rw [hsent]
          rfl
        rw [hnone, List.append_nil]
        simp only [if_neg hsc]
        by_cases hdc : d = c
        · simp only [if_pos hdc]
          rw [hregions]
          exact hrest
        · simp only [if_neg hdc]
          exact h.plays d hd hdne

end Runs

/-! ## A run that merges -/

/-- Two CPUs with MPUs that accept everything. -/
def twoCpus : SyncPlatform Unit where
  machine := Machine.mmu64
  arch := openMpu
  cpuNum := 2
  sharedRegionPoolSize := 128
  vcpuVmCpus := fun _ => none

/-- Neither CPU maps a region. -/
def noneShared : SyncState Unit where
  spaces := fun _ => noRegions
  mpu := fun _ => ()
  queue := fun _ => []
  shared := 0

theorem openMpu_accepts : Accepts openMpu id where
  maps := fun _ _ _ _ _ => rfl
  flags := fun _ _ _ _ _ => rfl
  idem := fun _ => rfl

theorem noneShared_initial : noneShared.Initial twoCpus id := by
  have hwf : noRegions.Wf Machine.mmu64 := by
    have hinit := asInit_wf Machine.mmu64 0 noRegions .hyp 0
    rwa [asInit_eq] at hinit
  have hno : ∀ i, ¬ noRegions.Valid i := by
    intro i hi
    cases hi
  refine ⟨?_, fun _ _ _ _ => rfl, fun _ _ => rfl⟩
  intro c _
  exact ⟨hwf, rfl, fun i hi => absurd hi (hno i), fun i hi => absurd hi (hno i),
    fun i hi => absurd hi (hno i)⟩

/-- Page `n` of the address space. -/
def onlyPage (n : Nat) : MpRegion := ⟨n * 4096, 4096, 1, .hypGlobal⟩

/-- Mappings of `SEC_HYP_GLOBAL` regions and unmappings, without wrapping. -/
def SyncEvent.Global (P : SyncPlatform σ) : SyncEvent → Prop
  | .map mpr => mpr.asSec = .hypGlobal ∧ mpr.base + mpr.size < P.machine.wordCount
  | .unmap at_ numPages _ =>
      at_ + numPages * P.machine.pageSize % P.machine.wordCount < P.machine.wordCount
  | .handle _ => True

/-- CPU 0 maps page `n`. -/
def mapPage (n : Nat) (s : SyncState Unit) : Option (SyncState Unit) :=
  match (twoCpus.cpu 0).memMap 2 (s.view 0) (onlyPage n) true false with
  | some (_, st) => some (s.put 0 st)
  | none => none

/-- CPU 1 handles its oldest message. -/
def handleOne (s : SyncState Unit) : Option (SyncState Unit) :=
  match s.queue 1 with
  | [] => none
  | msg :: rest =>
      let s := { s with queue := fun d => if d = 1 then rest else s.queue d }
      match (twoCpus.cpu 1).memHandleBroadcastRegion 2 (s.view 1) none msg with
      | some st => some (s.put 1 st)
      | none => none

theorem mapPage_step {n : Nat} {s s' : SyncState Unit} (h : mapPage n s = some s') :
    SyncStep twoCpus 0 s (.map (onlyPage n)) s' := by
  rw [mapPage] at h
  split at h
  · rename_i hmap
    cases h
    exact .map hmap
  · cases h

theorem handleOne_step {s s' : SyncState Unit} (h : handleOne s = some s') :
    SyncStep twoCpus 0 s (.handle 1) s' := by
  rw [handleOne] at h
  split at h
  · cases h
  · rename_i msg rest hqueue
    dsimp only at h
    split at h
    · rename_i hhandle
      cases h
      exact .handle (by decide) (by decide) hqueue hhandle
    · cases h

/-- The states of the runs of two CPUs that map `SEC_HYP_GLOBAL` regions. -/
abbrev GlobalReach : SyncState Unit → Prop :=
  (syncSystem twoCpus id 0).Reach (fun _ e => SyncEvent.Global twoCpus e)

theorem mapPage_reach {n : Nat} {s s' : SyncState Unit} (hn : n < 8) (hs : GlobalReach s)
    (h : mapPage n s = some s') : GlobalReach s' := by
  have hglobal : SyncEvent.Global twoCpus (.map (onlyPage n)) := by
    refine ⟨rfl, ?_⟩
    show n * 4096 + 4096 < 2 ^ 64
    omega
  exact hs.step hglobal (mapPage_step h)

theorem handleOne_reach {s s' : SyncState Unit} (hs : GlobalReach s)
    (h : handleOne s = some s') : GlobalReach s' := by
  have hglobal : SyncEvent.Global twoCpus (.handle 1) := trivial
  exact hs.step hglobal (handleOne_step h)

/-- CPU 0 maps the first two pages and CPU 1 handles the four messages. -/
def mergeRun : Option (SyncState Unit) :=
  mapPage 0 noneShared >>= mapPage 1 >>= handleOne >>= handleOne >>= handleOne >>= handleOne

theorem mergeRun_reach {s : SyncState Unit} (h : mergeRun = some s) : GlobalReach s := by
  rw [mergeRun] at h
  obtain ⟨s5, h, h6⟩ := Option.bind_eq_some_iff.mp h
  obtain ⟨s4, h, h5⟩ := Option.bind_eq_some_iff.mp h
  obtain ⟨s3, h, h4⟩ := Option.bind_eq_some_iff.mp h
  obtain ⟨s2, h, h3⟩ := Option.bind_eq_some_iff.mp h
  obtain ⟨s1, h1, h2⟩ := Option.bind_eq_some_iff.mp h
  have hreach1 := mapPage_reach (by decide) (.init noneShared_initial) h1
  have hreach2 := mapPage_reach (by decide) hreach1 h2
  exact handleOne_reach (handleOne_reach (handleOne_reach (handleOne_reach hreach2 h3) h4) h5) h6

end Bao

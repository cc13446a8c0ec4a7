import BaoHypervisor.CpuTopology
import BaoHypervisor.VgicWrites

/-!
# Where GICv3 forwards an interrupt

What a vCPU cannot deliver itself `vgic_route` sends on, to the CPUs of a mask
built from the route.  A route names an affinity and the mask has one bit for
each of eight CPUs, so the mask is right where the designated CPUs have numbers
below eight, which are also their affinities.  A private interrupt has no route,
and its mask is that of all.
-/

namespace Bao

variable (P : VgicPlat)

/-- The VM on the CPUs of a platform with GICv3. -/
def VgicPlat.onTopology (t : CpuTopology) : VgicPlat :=
  { P with ver := .gicv3, cpuNum := t.cpuNum, mpidr := t.affinity }

/-- What `vgic_int_set_route` keeps as the physical route. -/
def physRouteOf (route : Nat) : Nat :=
  match vmGetVcpuByMpidr P route with
  | some w => P.mpidr (P.physId w)
  | none => gicdIrouterInv

/-- An interrupt's route as the code stores it: a shared interrupt routed to one
vCPU has that vCPU's affinity, and a private one has the values it was created
with. -/
structure RouteStored (k : IntKey) (i : VgicInt) : Prop where
  shared : gicIsPriv k.id = false → i.route.testBit 31 = false → i.physRoute = physRouteOf P i.route
  priv : gicIsPriv k.id = true → i.route = gicdIrouterInv

/-- The CPUs of the vCPUs that a route designates: all of the VM's, or that of
the vCPU with the route's affinity. -/
def routeCpus (route : Nat) : List Nat :=
  if route.testBit 31 then vmCpus P else ((vmGetVcpuByMpidr P route).map P.physId).toList

/-- A list register is empty, or one can be spilled for the interrupt. -/
def HasRoom (v : Nat) (k : IntKey) (s : VgicState) : Prop :=
  (firstLr P v elrsr s).isSome = true ∨ (victimLr P v k s).isSome = true

/-- There is something to deliver that the vCPU does not deliver itself. -/
structure LeavesVcpu (v : Nat) (k : IntKey) (s : VgicState) : Prop where
  pending : (s.ints k).state = .pend
  enabled : (s.ints k).enabled = true
  out : (s.ints k).inLr = false
  notHere : ¬ (vgicIntVcpuIsTarget P v k (s.ints k) = true ∧ HasRoom P v k s)

/-- A CPU has a bit in the mask. -/
def InMask (c : Nat) : Prop := c < 8 ∧ c < P.cpuNum

/-- When an interrupt that leaves the vCPU is sent where it should be: a private
one finds no other CPU of the VM in the mask, or the word for no route; of a
shared one every other designated CPU is in the mask and, unless it is routed to
all, has its number as its affinity, which is not the vCPU's own. -/
def MaskNames (v : Nat) (k : IntKey) (i : VgicInt) : Prop :=
  (gicIsPriv k.id = true → i.physRoute = gicdIrouterInv ∨
    ∀ c ∈ vmCpus P, c ≠ P.physId v → ¬ InMask P c) ∧
  (gicIsPriv k.id = false → ∀ c ∈ routeCpus P i.route, c ≠ P.physId v →
    InMask P c ∧ (i.route.testBit 31 = false → P.mpidr c = c ∧ P.mpidr (P.physId v) ≠ c))

instance (v : Nat) (k : IntKey) (s : VgicState) : Decidable (HasRoom P v k s) :=
  inferInstanceAs (Decidable (_ ∨ _))

instance (v : Nat) (k : IntKey) (s : VgicState) : Decidable (LeavesVcpu P v k s) :=
  decidable_of_iff ((s.ints k).state = .pend ∧ (s.ints k).enabled = true ∧
      (s.ints k).inLr = false ∧
      ¬ (vgicIntVcpuIsTarget P v k (s.ints k) = true ∧ HasRoom P v k s))
    ⟨fun h => ⟨h.1, h.2.1, h.2.2.1, h.2.2.2⟩, fun h => ⟨h.pending, h.enabled, h.out, h.notHere⟩⟩

/-- `vgic_route` sends one `VGIC_ROUTE` to each other CPU that a shared
interrupt's route designates, when the vCPU does not deliver the interrupt
itself, and sends nothing otherwise. -/
def RoutesExactly (v : Nat) (k : IntKey) (s : VgicState) : Prop :=
  ∀ c, (vgicRoute P v k s).inbox c = s.inbox c ++
    if LeavesVcpu P v k s ∧ gicIsPriv k.id = false ∧ c ∈ routeCpus P (s.ints k).route ∧
      c ≠ P.physId v then [.route v k.id] else []

variable {P} {v : Nat} {k : IntKey} {s : VgicState}

/-! ## What is sent -/

theorem vgicYieldOwnership_inbox (v : Nat) (k : IntKey) (s : VgicState) :
    (vgicYieldOwnership P v k s).inbox = s.inbox := by
  rcases vgicYieldOwnership_cases (P := P) v k s with h | ⟨-, -, -, -, h⟩ <;> rw [h]
  rfl

theorem vgicAddSpilled_inbox (v : Nat) (k : IntKey) (s : VgicState) :
    (vgicAddSpilled v k s).inbox = s.inbox := by
  rcases vgicAddSpilled_cases v k s with h | ⟨-, -, hcr, h⟩
  · rw [h]
  · rw [h]
    unfold pushSpilled
    split <;> rfl

theorem vgicRemoveLr_inbox (v : Nat) (k : IntKey) (s : VgicState) :
    (vgicRemoveLr P v k s).inbox = s.inbox := by
  rcases vgicRemoveLr_cases (P := P) v k s with ⟨h, -⟩ | ⟨-, -, -, h⟩ | ⟨-, -, -, -, h⟩ <;> rw [h]
  · rfl
  · rfl

theorem vgicWriteLr_inbox (v : Nat) (k : IntKey) (lrInd : Nat) (s : VgicState) :
    (vgicWriteLr P v k lrInd s).inbox = s.inbox := by
  have hrelease : (releaseOccupant P v k lrInd s).inbox = s.inbox := by
    rcases releaseOccupant_cases (P := P) v k lrInd s with h | ⟨k', -, -, -, -, -, -, h⟩ <;> rw [h]
    rw [vgicYieldOwnership_inbox]
    rfl
  exact hrelease

theorem placeInLr_inbox (v : Nat) (k : IntKey) (lrInd : Nat) (s : VgicState) :
    (placeInLr P v k lrInd s).inbox = s.inbox := by
  unfold placeInLr
  rw [vgicWriteLr_inbox]
  split
  · unfold vgicRemoveSpilled rmSpilled
    split <;> rfl
  · rfl

theorem vgicSpillLr_inbox (v lrInd : Nat) (s : VgicState) :
    (vgicSpillLr P v lrInd s).inbox = s.inbox := by
  unfold vgicSpillLr
  split
  · rfl
  · rw [spillInt, vgicYieldOwnership_inbox, vgicAddSpilled_inbox, vgicRemoveLr_inbox]

theorem vgicAddLr_inbox (v : Nat) (k : IntKey) (s : VgicState) :
    (vgicAddLr P v k s).inbox = s.inbox := by
  unfold vgicAddLr
  split
  · rfl
  · split
    · exact placeInLr_inbox v k _ s
    · split
      · rw [placeInLr_inbox, vgicSpillLr_inbox]
      · exact vgicAddSpilled_inbox v k s

theorem sendAll_inbox (msg : VgicMsg) {cpus : List Nat} (hcpus : cpus.Nodup) (s : VgicState)
    (c : Nat) : (cpus.foldl (VgicState.sendMsg · msg) s).inbox c =
      s.inbox c ++ if c ∈ cpus then [msg] else [] := by
  induction cpus generalizing s with
  | nil => simp
  | cons d rest ih =>
    obtain ⟨hd, hrest⟩ := List.nodup_cons.mp hcpus
    rw [List.foldl_cons, ih hrest]
    by_cases hc : c = d
    · subst hc
      simp [VgicState.sendMsg, hd]
    · simp [VgicState.sendMsg, atCpu_other _ _ hc, hc]

theorem routeTargets_nodup (v : Nat) (i : VgicInt) : (routeTargets P v i).Nodup :=
  List.nodup_range.filter _

/-! ## Delivering the interrupt here -/

theorem placeInLr_in (lrInd : Nat) : ((placeInLr P v k lrInd s).ints k).inLr = true := by
  unfold placeInLr
  rw [vgicWriteLr, fillLr_int]

/-- **What `vgic_add_lr` does with an interrupt that is in no list register**:
with room it puts it in one, and otherwise it changes nothing of the interrupt but
that it is listed. -/
theorem vgicAddLr_placed (hlive : (s.ints k).enabled = true ∨ (s.ints k).state.active = true)
    (hout : (s.ints k).inLr = false) :
    (HasRoom P v k s ∧ ((vgicAddLr P v k s).ints k).inLr = true) ∨
      (¬ HasRoom P v k s ∧ vgicAddLr P v k s = vgicAddSpilled v k s) := by
  have htry : ¬ ((!(s.ints k).enabled && !(s.ints k).state.active) || (s.ints k).inLr) = true := by
    rcases hlive with h | h <;> simp [h, hout]
  unfold vgicAddLr
  rw [if_neg htry]
  split
  · rename_i lrInd hfirst
    exact Or.inl ⟨Or.inl (by rw [hfirst]; rfl), placeInLr_in lrInd⟩
  · rename_i hfirst
    split
    · rename_i lrInd hvictim
      exact Or.inl ⟨Or.inr (by rw [hvictim]; rfl), placeInLr_in lrInd⟩
    · rename_i hvictim
      refine Or.inr ⟨fun hroom => ?_, rfl⟩
      rcases hroom with h | h
      · rw [hfirst] at h
        cases h
      · rw [hvictim] at h
        cases h

/-- The state in which `vgic_route` asks where else the interrupt could go. -/
def triedHere (P : VgicPlat) (v : Nat) (k : IntKey) (s : VgicState) : VgicState :=
  if vgicIntVcpuIsTarget P v k (s.ints k) then vgicAddLr P v k s else s

theorem triedHere_inbox : (triedHere P v k s).inbox = s.inbox := by
  unfold triedHere
  split
  · exact vgicAddLr_inbox v k s
  · rfl

/-- Either the interrupt is in a list register then, or nothing about it changed
but that it is listed. -/
theorem triedHere_cases (hlive : (s.ints k).enabled = true ∨ (s.ints k).state.active = true)
    (hout : (s.ints k).inLr = false) :
    ((vgicIntVcpuIsTarget P v k (s.ints k) = true ∧ HasRoom P v k s) ∧
        ((triedHere P v k s).ints k).inLr = true) ∨
      (¬ (vgicIntVcpuIsTarget P v k (s.ints k) = true ∧ HasRoom P v k s) ∧
        ∃ b, (triedHere P v k s).ints k = { s.ints k with inSpilled := b }) := by
  unfold triedHere
  by_cases htarget : vgicIntVcpuIsTarget P v k (s.ints k) = true
  · rw [if_pos htarget]
    rcases vgicAddLr_placed (P := P) (v := v) hlive hout with ⟨hroom, hin⟩ | ⟨hno, hadd⟩
    · exact Or.inl ⟨⟨htarget, hroom⟩, hin⟩
    · refine Or.inr ⟨fun h => hno h.2, ?_⟩
      rw [hadd]
      exact vgicAddSpilled_ints v k s k
  · rw [if_neg htarget]
    exact Or.inr ⟨fun h => htarget h.1, (s.ints k).inSpilled, rfl⟩

theorem triedHere_in (hin : (s.ints k).inLr = true) : triedHere P v k s = s := by
  have hadd : vgicAddLr P v k s = s := by
    unfold vgicAddLr
    exact if_pos (by rw [hin, Bool.or_true])
  unfold triedHere
  rw [hadd]
  exact ite_self s

/-- What `vgic_route` does once it tried: it forwards the interrupt or not, and
what it adds to a list sends nothing. -/
theorem routeElsewhere_inbox (c : Nat) : (routeElsewhere P v k s).inbox c =
    s.inbox c ++ if ((s.ints k).inLr = false ∧ (s.ints k).state.active = false ∧
      vgicIntHasOtherTarget P v k (s.ints k) = true) ∧ c ∈ routeTargets P v (s.ints k)
      then [.route v k.id] else [] := by
  have hend : ∀ (b : Bool) (s' : VgicState),
      (if b then vgicAddSpilled v k s' else s').inbox = s'.inbox := by
    intro b s'
    cases b with
    | false => rfl
    | true => exact vgicAddSpilled_inbox v k s'
  unfold routeElsewhere
  dsimp only
  rw [hend]
  by_cases hforward : (s.ints k).inLr = false ∧ (s.ints k).state.active = false ∧
      vgicIntHasOtherTarget P v k (s.ints k) = true
  · obtain ⟨hout, hact, hother⟩ := hforward
    rw [if_pos (by simp [hout, hact, hother])]
    unfold forwardRoute
    rw [sendAll_inbox _ (routeTargets_nodup v _), vgicYieldOwnership_inbox]
    simp [hout, hact, hother]
  · have hnot : ¬ (!(s.ints k).inLr && !(s.ints k).state.active &&
        vgicIntHasOtherTarget P v k (s.ints k)) = true := by
      intro h
      simp only [Bool.and_eq_true, Bool.not_eq_true'] at h
      exact hforward ⟨h.1.1, h.1.2, h.2⟩
    rw [if_neg hnot, if_neg fun h => hforward h.1, List.append_nil]

/-- **What `vgic_route` sends**: one message to each CPU of the mask, where the
interrupt leaves the vCPU and has another target. -/
theorem vgicRoute_inbox (c : Nat) : (vgicRoute P v k s).inbox c =
    s.inbox c ++ if LeavesVcpu P v k s ∧ vgicIntHasOtherTarget P v k (s.ints k) = true ∧
      c ∈ routeTargets P v (s.ints k) then [.route v k.id] else [] := by
  unfold vgicRoute
  dsimp only
  split
  · rename_i hinv
    have hno : ¬ LeavesVcpu P v k s := fun h => by
      have hpend := h.pending
      rw [hinv] at hpend
      cases hpend
    rw [if_neg fun h => hno h.1, List.append_nil]
  · rename_i hstate
    split
    · rename_i hoff
      have hno : ¬ LeavesVcpu P v k s := fun h => by
        rw [h.enabled] at hoff
        cases hoff
      rw [if_neg fun h => hno h.1, List.append_nil]
    · rename_i hon
      have hlive : (s.ints k).enabled = true ∨ (s.ints k).state.active = true := by
        cases hen : (s.ints k).enabled with
        | true => exact Or.inl rfl
        | false =>
          cases hact : (s.ints k).state.active with
          | true => exact Or.inr rfl
          | false => simp [hen, hact] at hon
      change (routeElsewhere P v k (triedHere P v k s)).inbox c = _
      rw [routeElsewhere_inbox, triedHere_inbox]
      congr 2
      refine propext ⟨fun h => ?_, fun h => ?_⟩
      · obtain ⟨⟨hout', hact', hother⟩, hc⟩ := h
        have hout : (s.ints k).inLr = false := by
          cases hin : (s.ints k).inLr with
          | false => rfl
          | true =>
            rw [triedHere_in hin, hin] at hout'
            cases hout'
        rcases triedHere_cases (P := P) (v := v) hlive hout with ⟨-, hin⟩ | ⟨hnot, b, hint⟩
        · rw [hout'] at hin
          cases hin
        · rw [hint] at hact' hother hc
          refine ⟨⟨?_, ?_, hout, hnot⟩, hother, hc⟩
          · obtain ⟨⟨pending, active⟩, hst⟩ : ∃ st, (s.ints k).state = st := ⟨_, rfl⟩
            rw [hst] at hstate hact' ⊢
            cases pending <;> cases active <;> simp_all [IntState.inv, IntState.pend]
          · rcases hlive with h | h
            · exact h
            · rw [hact'] at h
              cases h
      · obtain ⟨hleaves, hother, hc⟩ := h
        rcases triedHere_cases (P := P) (v := v) hlive hleaves.out with ⟨hhere, -⟩ | ⟨-, b, hint⟩
        · exact (hleaves.notHere hhere).elim
        · rw [hint]
          exact ⟨⟨hleaves.out, by rw [hleaves.pending]; rfl, hother⟩, hc⟩

/-! ## The mask and the route -/

theorem mem_routeTargets_v3 (hver : P.ver = .gicv3) {i : VgicInt} {c : Nat} :
    c ∈ routeTargets P v i ↔ InMask P c ∧ c ≠ P.physId v ∧
      if i.route.testBit 31 then c ∈ vmCpus P else c = i.physRoute := by
  unfold routeTargets vgicIntPtargetMask InMask vgicBroadcast
  rw [hver, List.mem_filter, List.mem_range]
  cases i.route.testBit 31 with
  | true =>
    simp only [if_true, Bool.and_eq_true, decide_eq_true_eq]
    constructor
    · intro h
      exact ⟨⟨h.2.1.1, h.1⟩, h.2.2, h.2.1.2.1⟩
    · intro h
      exact ⟨h.1.2, ⟨h.1.1, h.2.2, h.2.1⟩, h.2.1⟩
  | false =>
    simp only [Bool.false_eq_true, if_false, Bool.and_eq_true, decide_eq_true_eq]
    constructor
    · intro h
      exact ⟨⟨h.2.1.1, h.1⟩, h.2.2, h.2.1.2⟩
    · intro h
      exact ⟨h.1.2, ⟨h.1.1, h.2.2⟩, h.2.1⟩

theorem vgicIntHasOtherTarget_priv (hver : P.ver = .gicv3) (hpriv : gicIsPriv k.id = true)
    {i : VgicInt} : vgicIntHasOtherTarget P v k i = true ↔ i.physRoute ≠ gicdIrouterInv := by
  unfold vgicIntHasOtherTarget
  rw [hver, hpriv]
  simp

theorem vgicIntHasOtherTarget_shared (hver : P.ver = .gicv3) (hshared : gicIsPriv k.id = false)
    {i : VgicInt} : vgicIntHasOtherTarget P v k i = true ↔ i.route.testBit 31 = true ∨
      (i.physRoute ≠ P.mpidr (P.physId v) ∧ i.physRoute ≠ gicdIrouterInv) := by
  unfold vgicIntHasOtherTarget vgicBroadcast
  rw [hver, hshared]
  simp

theorem maskNames_priv (hver : P.ver = .gicv3) (hpriv : gicIsPriv k.id = true) {i : VgicInt}
    (hstored : RouteStored P k i) :
    (∀ c, ¬ (vgicIntHasOtherTarget P v k i = true ∧ c ∈ routeTargets P v i)) ↔
      MaskNames P v k i := by
  have hall : i.route.testBit 31 = true := by
    rw [hstored.priv hpriv]
    decide
  unfold MaskNames
  constructor
  · intro hnone
    refine ⟨fun _ => ?_, fun hshared => ?_⟩
    · by_cases hinv : i.physRoute = gicdIrouterInv
      · exact Or.inl hinv
      · refine Or.inr fun c hc hne hmask => hnone c ⟨?_, ?_⟩
        · exact (vgicIntHasOtherTarget_priv hver hpriv).mpr hinv
        · rw [mem_routeTargets_v3 hver, hall]
          exact ⟨hmask, hne, hc⟩
    · rw [hpriv] at hshared
      cases hshared
  · intro hmask c hc
    obtain ⟨hother, htarget⟩ := hc
    rw [mem_routeTargets_v3 hver, hall] at htarget
    rcases hmask.1 hpriv with hinv | hnone
    · exact (vgicIntHasOtherTarget_priv hver hpriv).mp hother hinv
    · exact hnone c htarget.2.2 htarget.2.1 htarget.1

theorem mem_routeCpus_one {route : Nat} (hone : route.testBit 31 = false) {c : Nat} :
    c ∈ routeCpus P route ↔ ∃ w, vmGetVcpuByMpidr P route = some w ∧ P.physId w = c := by
  unfold routeCpus
  rw [hone, if_neg Bool.false_ne_true, Option.mem_toList, Option.map_eq_some_iff]

/-- The mask is right for a shared interrupt when every other designated CPU has
the bit that its affinity stands for. -/
theorem maskNames_shared (hver : P.ver = .gicv3) (hshared : gicIsPriv k.id = false)
    {i : VgicInt} (hstored : RouteStored P k i) :
    (∀ c, (vgicIntHasOtherTarget P v k i = true ∧ c ∈ routeTargets P v i) ↔
      (c ∈ routeCpus P i.route ∧ c ≠ P.physId v)) ↔ MaskNames P v k i := by
  unfold MaskNames
  simp only [mem_routeTargets_v3 hver, vgicIntHasOtherTarget_shared hver hshared, hshared,
    Bool.false_eq_true, false_implies, true_and, forall_const]
  cases hroute : i.route.testBit 31 with
  | true =>
    have hcpus : routeCpus P i.route = vmCpus P := by
      unfold routeCpus
      rw [hroute, if_pos rfl]
    rw [hcpus]
    constructor
    · intro h c hc hne
      exact ⟨((h c).mpr ⟨hc, hne⟩).2.1, fun hno => by cases hno⟩
    · intro h c
      refine ⟨fun hc => ⟨hc.2.2.2, hc.2.2.1⟩, fun hc => ?_⟩
      exact ⟨Or.inl rfl, (h c hc.1 hc.2).1, hc.2, hc.1⟩
  | false =>
    have hphys := hstored.shared hshared hroute
    simp only [mem_routeCpus_one hroute, Bool.false_eq_true, if_false, false_or, forall_const]
    unfold physRouteOf at hphys
    cases hfind : vmGetVcpuByMpidr P i.route with
    | none =>
      rw [hfind] at hphys
      refine ⟨fun _ c hc => ?_, fun _ c => ⟨fun hc => (hc.1.2 hphys).elim, fun hc => ?_⟩⟩
      · obtain ⟨w, hw, -⟩ := hc
        cases hw
      · obtain ⟨⟨w, hw, -⟩, -⟩ := hc
        cases hw
    | some w =>
      rw [hfind] at hphys
      dsimp only at hphys
      constructor
      · intro h c hc hne
        obtain ⟨w', hw', hphysId⟩ := hc
        cases hw'
        obtain ⟨⟨hown, -⟩, hmask, -, heq⟩ := (h c).mpr ⟨⟨w, rfl, hphysId⟩, hne⟩
        rw [hphys, hphysId] at heq hown
        exact ⟨hmask, heq.symm, fun hsame => hown (heq.symm.trans hsame.symm)⟩
      · intro h c
        constructor
        · intro hc
          obtain ⟨⟨hown, -⟩, hmask, hne, heq⟩ := hc
          by_cases hself : P.physId w = P.physId v
          · rw [hphys, hself] at hown
            exact (hown rfl).elim
          · obtain ⟨-, haff, -⟩ := h (P.physId w) ⟨w, rfl, rfl⟩ hself
            exact ⟨⟨w, rfl, by rw [heq, hphys, haff]⟩, hne⟩
        · intro hc
          obtain ⟨⟨w', hw', hphysId⟩, hne⟩ := hc
          cases hw'
          obtain ⟨hmask, haff, hown⟩ := h c ⟨w, rfl, hphysId⟩ hne
          have hroute' : i.physRoute = c := by rw [hphys, hphysId, haff]
          refine ⟨⟨?_, ?_⟩, hmask, hne, hroute'.symm⟩
          · rw [hroute']
            exact fun heq => hown heq.symm
          · rw [hroute']
            have hlow := hmask.1
            unfold gicdIrouterInv
            omega

/-! ## The route as it is stored -/

/-- No interrupt's route changes. -/
def KeepsRoutes (s s' : VgicState) : Prop :=
  ∀ k, (s'.ints k).route = (s.ints k).route ∧ (s'.ints k).physRoute = (s.ints k).physRoute

namespace KeepsRoutes

variable {A : Nat → IntKey → VgicInt → Prop} {s' s'' : VgicState}

theorem ofEq (h : s'.ints = s.ints) : KeepsRoutes s s' := fun k => by rw [h]; exact ⟨rfl, rfl⟩

theorem trans (h : KeepsRoutes s s') (h' : KeepsRoutes s' s'') : KeepsRoutes s s'' := fun k =>
  ⟨(h' k).1.trans (h k).1, (h' k).2.trans (h k).2⟩

theorem updInt (s : VgicState) (k : IntKey) {f : VgicInt → VgicInt}
    (hf : (f (s.ints k)).route = (s.ints k).route ∧
      (f (s.ints k)).physRoute = (s.ints k).physRoute) : KeepsRoutes s (s.updInt k f) := by
  intro k'
  by_cases hk : k' = k
  · subst hk
    rw [VgicState.updInt_ints_same]
    exact hf
  · rw [VgicState.updInt_ints_ne _ _ hk]
    exact ⟨rfl, rfl⟩

theorem getOwnership (v : Nat) (k : IntKey) (s : VgicState) :
    KeepsRoutes s (vgicGetOwnership v k s).2 := by
  intro k'
  obtain ⟨owner, h⟩ := vgicGetOwnership_ints v k k' s
  rw [h]
  exact ⟨rfl, rfl⟩

theorem yield (v : Nat) (k : IntKey) (s : VgicState) :
    KeepsRoutes s (vgicYieldOwnership P v k s) := by
  intro k'
  obtain ⟨owner, h⟩ := vgicYieldOwnership_ints (P := P) v k s k'
  rw [h]
  exact ⟨rfl, rfl⟩

theorem removeSpilled (v : Nat) (k : IntKey) (s : VgicState) :
    KeepsRoutes s (vgicRemoveSpilled v k s) := by
  have hrm : KeepsRoutes s (rmSpilled v k s) := ofEq (rmSpilled_ints v k s)
  exact hrm.trans (updInt _ k ⟨rfl, rfl⟩)

theorem takeLr (k : IntKey) (lr : ListReg) (s : VgicState) :
    KeepsRoutes s (takeLrState P v k lr s) := by
  intro k'
  by_cases hk : k' = k
  · subst hk
    simp only [takeLrState, VgicState.gichSetHcr, VgicState.updCpu_ints,
      VgicState.updInt_ints_same, and_self]
  · rw [takeLrState_ints_ne _ _ _ _ hk]
    exact ⟨rfl, rfl⟩

theorem removeLr (v : Nat) (k : IntKey) (s : VgicState) :
    KeepsRoutes s (vgicRemoveLr P v k s) := by
  rcases vgicRemoveLr_cases (P := P) v k s with ⟨h, -⟩ | ⟨-, -, -, h⟩ | ⟨-, -, -, -, h⟩ <;> rw [h]
  · exact ofEq rfl
  · exact updInt s k ⟨rfl, rfl⟩
  · have hzero : KeepsRoutes s (s.gichWriteLr v (s.ints k).lr .zero) := ofEq rfl
    have hout := hzero.trans (updInt _ k (f := fun i => { i with inLr := false }) ⟨rfl, rfl⟩)
    exact hout.trans (takeLr k _ _)

theorem writeLr (v : Nat) (k : IntKey) (lrInd : Nat) (s : VgicState) :
    KeepsRoutes s (vgicWriteLr P v k lrInd s) := by
  have hrelease : KeepsRoutes s (releaseOccupant P v k lrInd s) := by
    rcases releaseOccupant_cases (P := P) v k lrInd s with h | ⟨k', -, -, -, -, -, -, h⟩ <;> rw [h]
    · exact ofEq rfl
    · have hout : KeepsRoutes s (s.updInt k' fun i => { i with inLr := false }) :=
        updInt s k' ⟨rfl, rfl⟩
      exact hout.trans (yield v k' _)
  refine hrelease.trans fun k' => ?_
  by_cases hk : k' = k
  · subst hk
    rw [vgicWriteLr, fillLr_int]
    exact ⟨rfl, rfl⟩
  · rw [vgicWriteLr, fillLr_ints_ne _ _ _ _ hk]
    exact ⟨rfl, rfl⟩

theorem placeInLr (v : Nat) (k : IntKey) (lrInd : Nat) (s : VgicState) :
    KeepsRoutes s (placeInLr P v k lrInd s) := by
  unfold Bao.placeInLr
  split
  · exact (removeSpilled v k s).trans (writeLr v k lrInd _)
  · exact writeLr v k lrInd s

theorem move (h : VgicMove P A v s s') : KeepsRoutes s s' := by
  cases h with
  | take k hown => exact updInt s k ⟨rfl, rfl⟩
  | yield k => exact yield v k s
  | spill k hknown hmine =>
    intro k'
    obtain ⟨b, hb⟩ := vgicAddSpilled_ints v k s k'
    rw [hb]
    exact ⟨rfl, rfl⟩
  | remove k => exact removeLr v k s
  | place k lrInd hmay hplace => exact placeInLr v k lrInd s
  | silent h => exact ofEq h.ints
  | calm flags hpend hnone => exact ofEq rfl
  | writeBack hcr hcr' hpc hnpie => exact ofEq rfl

theorem moves (h : VgicMoves P A v s s') : KeepsRoutes s s' := by
  induction h with
  | refl => exact ofEq rfl
  | tail _ hmove ih => exact ih.trans (move hmove)

theorem field (reg : VgicReg) (k : IntKey) (data : Nat) (tag : Option WriteTag) (s : VgicState) :
    KeepsRoutes s (applyField P reg k data tag s) := by
  have hupd : KeepsRoutes s (s.updInt k (updateField P reg k data)) := by
    refine updInt s k ?_
    unfold updateField
    cases reg <;> dsimp only <;> (try split) <;> exact ⟨rfl, rfl⟩
  exact hupd.trans (ofEq rfl)

theorem does {d : VgicDeed} (h : Does P v d s s') (hroute : ∀ k route, d ≠ .setRoute k route) :
    KeepsRoutes s s' := by
  cases h with
  | nothing => exact ofEq rfl
  | field reg k data tag hgot =>
    exact ((getOwnership v k s).trans (removeLr v k _)).trans (field reg k data tag _)
  | forward reg k vgicrId data tag hgot => exact ofEq (Quiet.forwardToOwner (v := v) P s k _).ints
  | setRoute k route => exact (hroute k route rfl).elim
  | hw k hhw hmine => exact updInt s k ⟨rfl, rfl⟩
  | source k src hpriv hsgi => exact (removeLr v k s).trans (updInt _ k ⟨rfl, rfl⟩)
  | zeroLr lrInd hinv => exact ofEq rfl
  | clearLr lrInd k hinv =>
    have hzero : KeepsRoutes s (s.gichWriteLr v lrInd .zero) := ofEq rfl
    exact hzero.trans (updInt _ k ⟨rfl, rfl⟩)
  | refill k lrInd hbound hinv hknown hin hgot =>
    exact ((getOwnership v k s).trans (removeSpilled v k _)).trans (writeLr v k lrInd _)
  | unlist k hknown hin hgot =>
    exact ((getOwnership v k s).trans (removeSpilled v k _)).trans (updInt _ k ⟨rfl, rfl⟩)
  | ackLr lrInd hbound hpend => exact ofEq rfl
  | deactLr lrInd hbound hact => exact ofEq rfl

end KeepsRoutes

theorem RouteStored.keep {s' : VgicState} (h : RouteStored P k (s.ints k))
    (hkeep : KeepsRoutes s s') : RouteStored P k (s'.ints k) := by
  obtain ⟨hroute, hphys⟩ := hkeep k
  refine ⟨fun hshared hone => ?_, fun hpriv => ?_⟩
  · rw [hroute] at hone ⊢
    rw [hphys]
    exact h.shared hshared hone
  · rw [hroute]
    exact h.priv hpriv

/-- `vgic_int_set_route` stores a route and the affinity that goes with it. -/
theorem RouteStored.setRoute (h : ∀ k, RouteStored P k (s.ints k)) (v : Nat) (k : IntKey)
    (route : Nat) (k' : IntKey) : RouteStored P k' ((vgicIntSetRoute P v k route s).ints k') := by
  unfold vgicIntSetRoute
  split
  · exact h k'
  · rename_i hpriv
    by_cases hk : k' = k
    · subst hk
      rw [VgicState.updInt_ints_same]
      refine ⟨fun _ hone => ?_, fun hyes => (hpriv hyes).elim⟩
      have hbit : route.testBit 31 = false := by
        rw [Nat.testBit_mod_two_pow] at hone
        simpa using hone
      have hsame : vmGetVcpuByMpidr P (route % 2 ^ 40) = vmGetVcpuByMpidr P route := by
        unfold vmGetVcpuByMpidr
        rw [Nat.mod_mod_of_dvd route (Nat.pow_dvd_pow 2 (by omega : 24 ≤ 40))]
      unfold physRouteOf
      rw [hsame]
      dsimp only
      exact if_neg (by rw [hbit]; exact Bool.false_ne_true)
    · rw [VgicState.updInt_ints_ne _ _ hk]
      exact h k'

theorem RouteStored.init (h : VgicInit P s) (k : IntKey) : RouteStored P k (s.ints k) := by
  obtain ⟨lr, inSpilled, hint⟩ := h.ints k
  rw [hint]
  refine ⟨fun _ hone => ?_, fun _ => rfl⟩
  have hall : gicdIrouterInv.testBit 31 = true := by decide
  dsimp only [initInt] at hone
  rw [hall] at hone
  cases hone

/-- **In every run** each interrupt's route is stored with the affinity that goes
with it. -/
theorem RouteStored.reach (h : (vgicSystem P).Reachable s) (k : IntKey) :
    RouteStored P k (s.ints k) := by
  have hstep : ∀ s e s', (HandlersOk P s ∧ ∀ k, RouteStored P k (s.ints k)) → True →
      (vgicSystem P).step s e s' → HandlersOk P s' ∧ ∀ k, RouteStored P k (s'.ints k) := by
    intro s e s' hinv _ hst
    obtain ⟨hok, hstored⟩ := hinv
    obtain ⟨hen, hnext⟩ := hst
    rw [hnext]
    refine ⟨hok.next hen, ?_⟩
    obtain ⟨s₁, s₂, hdoes, hmoves, hend⟩ := hok.parts hen
    have hbegin : ∀ k, RouteStored P k ((e.begin P s).ints k) := fun k =>
      (hstored k).keep (.ofEq (VgicEvent.begin_quiet (P := P) e s).ints)
    have hdone : ∀ k, RouteStored P k (s₁.ints k) := by
      by_cases hroute : ∀ k route, e.deed P s ≠ .setRoute k route
      · exact fun k => (hbegin k).keep (.does hdoes hroute)
      · push Not at hroute
        obtain ⟨k, route, hdeed⟩ := hroute
        rw [hdeed] at hdoes
        cases hdoes with
        | setRoute k route => exact RouteStored.setRoute hbegin e.vcpu k route
    intro k
    have hall := (hdone k).keep (.moves hmoves)
    rcases hend with hs | ⟨pc, hs⟩ <;> rw [hs]
    · exact hall
    · exact hall.keep (.ofEq rfl)
  exact (h.invariant (fun s hs => ⟨HandlersOk.init hs, RouteStored.init hs⟩) hstep).2 k

theorem mem_routeCpus {route c : Nat} (h : c ∈ routeCpus P route) :
    ∃ w, w < P.vcpuNum ∧ P.physId w = c := by
  unfold routeCpus at h
  split at h
  · obtain ⟨w, hw, hc⟩ := List.mem_map.mp h
    exact ⟨w, List.mem_range.mp hw, hc⟩
  · rw [Option.mem_toList, Option.map_eq_some_iff] at h
    obtain ⟨w, hw, hc⟩ := h
    exact ⟨w, List.mem_range.mp (List.mem_of_find?_eq_some hw), hc⟩

/-- **Where the mask is right.**  On a platform of at most eight CPUs without a
table or clusters and with one thread to a core, every shared interrupt is
forwarded to the CPUs that its route designates. -/
theorem maskNames_flat {t : CpuTopology} (htable : t.mpidrTable = none) (hflat : t.coreNum = [])
    (hmt : t.hasMt = false) (hsmall : t.cpuNum ≤ 8)
    (hcpus : ∀ w, w < P.vcpuNum → P.physId w < t.cpuNum) (hv : v < P.vcpuNum)
    (hshared : gicIsPriv k.id = false) (i : VgicInt) : MaskNames (P.onTopology t) v k i := by
  have haff : ∀ c, c < t.cpuNum → t.affinity c = c := by
    intro c hc
    rw [t.affinity_flat htable hflat hmt hc]
    exact Nat.mod_eq_of_lt (by omega)
  refine ⟨fun hpriv => ?_, fun _ c hc hne => ?_⟩
  · rw [hshared] at hpriv
    cases hpriv
  · obtain ⟨w, hw, hphys⟩ := mem_routeCpus hc
    have hlt : c < t.cpuNum := hphys ▸ hcpus w hw
    have hown : t.affinity (P.physId v) = P.physId v := haff _ (hcpus v hv)
    refine ⟨⟨Nat.lt_of_lt_of_le hlt hsmall, hlt⟩, fun _ => ⟨haff c hlt, fun heq => hne ?_⟩⟩
    exact heq.symm.trans hown

/-- Four CPUs without clusters. -/
def flatFour : CpuTopology where
  cpuNum := 4
  mpidrTable := none
  coreNum := []
  hasMt := false
  covered h := (h rfl).elim

/-- Two clusters of two CPUs. -/
def twoClusters : CpuTopology where
  cpuNum := 4
  mpidrTable := none
  coreNum := [2, 2]
  hasMt := false
  covered _ := by decide

/-- A VM with vCPUs on CPUs 0 and 2, with one list register each. -/
def splitVm : VgicPlat :=
  { twoCpuGic .gicv3 1 fun _ => false with
    physId := fun w => 2 * w
    physId_inj := fun a b h => by dsimp only at h; omega }

/-- vCPU 0 routes SPI 32 to vCPU 1 and makes it pending. -/
def routeAcross : List VgicEvent :=
  [⟨0, .writeRoute 32 .full 1⟩, ⟨0, .writeField .isenabler 32 0 1⟩, ⟨0, .inject 32 0⟩]

/-- vCPU 0's only list register has a pending interrupt when its PPI 21 comes. -/
def ppiTooMany : List VgicEvent :=
  [⟨0, .writeField .isenabler 20 0 1⟩, ⟨0, .writeField .isenabler 21 0 1⟩, ⟨0, .inject 20 0⟩,
    ⟨0, .inject 21 0⟩]

end Bao

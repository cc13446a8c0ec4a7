import BaoHypervisor.VgicSpilled
import BaoHypervisor.VgicWrites

/-!
# Which vCPU brings a spilled interrupt in

`vgic_add_spilled` sets NPIE of the vCPU that spills an interrupt, and the
refill of a vCPU clears its NPIE when it finds nothing pending on its own list
and the VM's.  So some vCPU is woken for every pending interrupt on the VM's
list, though not each one that the interrupt is routed to.
-/

namespace Bao

variable (P : VgicPlat)

/-- The interrupt is enabled and pending, outside list registers. -/
def Awaits (k : IntKey) (i : VgicInt) : Prop :=
  i.enabled = true ∧ (i.state.pending = true ∨ (isV2Sgi P k = true ∧ i.sgiPend ≠ 0#8))

/-- An enabled pending interrupt on a vCPU's list finds its NPIE bit set, and
one on the VM's list that of some vCPU. -/
structure Woken (s : VgicState) : Prop where
  own : ∀ {w : Nat} {k : IntKey}, k ∈ (s.cpus w).spilled → Awaits P k (s.ints k) →
    (s.cpus w).hcr.npie = true
  vm : ∀ {k : IntKey}, k ∈ s.spilled → k.id < gicMaxValidInterrupts → Awaits P k (s.ints k) →
    ∃ w, w < P.vcpuNum ∧ (s.cpus w).hcr.npie = true

/-- The interrupt a deed updates or makes pending, as it is after it. -/
def VgicDeed.raises (s : VgicState) : VgicDeed → Option (IntKey × VgicInt)
  | .field reg k data _ => some (k, updateField P reg k data (s.ints k))
  | .hw k => some (k, { s.ints k with state := .pend })
  | .source k src =>
      some (k, { s.ints k with
        sgiPend := (s.ints k).sgiPend ||| 1#8 <<< src
        state := { (s.ints k).state with pending := true } })
  | _ => none

/-- No step makes an interrupt that is already listed wait for a vCPU whose
NPIE bit is clear, and none writes back a copy of `GICH_HCR` with NPIE clear
while an interrupt waits. -/
def KeepsWakeup (s : VgicState) (e : VgicEvent) : Prop :=
  (∀ raised ∈ (e.deed P s).raises P s, raised.1 ∈ (s.cpus e.vcpu).spilled ++ s.spilled →
    Awaits P raised.1 raised.2 →
    Awaits P raised.1 (s.ints raised.1) ∨ (s.cpus e.vcpu).hcr.npie = true) ∧
  match e.op, (s.cpus e.vcpu).pc with
  | .maintain, .lrenp hcr =>
      hcr.npie = true ∨ hcr.eoiCount = 0 ∨
        ∀ k ∈ (s.cpus e.vcpu).spilled ++ s.spilled, ¬ Awaits P k (s.ints k)
  | _, _ => True

variable {P} {s s' : VgicState} {v : Nat} {k : IntKey}

theorem Awaits.congr {i j : VgicInt} (h : Awaits P k i) (hen : j.enabled = i.enabled)
    (hstate : j.state = i.state) (hsgi : j.sgiPend = i.sgiPend) : Awaits P k j := by
  unfold Awaits at h ⊢
  rw [hen, hstate, hsgi]
  exact h

/-! ## The search of a refill -/

theorem higherPrio_none {flags : IntState} (l : List IntKey) {irq : Option IntKey}
    (hprio : ∀ k, (s.ints k).prio ≤ gicLowestPrio)
    (h : l.foldl (higherPrio P v flags s) irq = none) :
    irq = none ∧ ∀ k ∈ l, k.id < gicMaxValidInterrupts →
      (vgicGetState P v k s).meets flags = false := by
  induction l generalizing irq with
  | nil => exact ⟨h, fun k hk => by cases hk⟩
  | cons k l ih =>
    obtain ⟨hone, hrest⟩ := ih h
    unfold higherPrio at hone
    dsimp only at hone
    split at hone
    · rename_i hmeets
      split at hone
      · cases hone
      · rename_i hlow
        subst hone
        have hbad : gicMaxValidInterrupts ≤ k.id := by
          rcases Nat.lt_or_ge k.id gicMaxValidInterrupts with hlt | hge
          · refine (hlow ?_).elim
            rcases Nat.lt_or_eq_of_le (hprio k) with hp | hp
            · exact Or.inl hp
            · exact Or.inr ⟨hp, hlt⟩
          · exact hge
        refine ⟨rfl, fun k' hk' hid => ?_⟩
        rcases List.mem_cons.mp hk' with rfl | hk'
        · exact (Nat.not_lt.mpr hbad hid).elim
        · exact hrest k' hk' hid
    · rename_i hmeets
      refine ⟨hone, fun k' hk' hid => ?_⟩
      rcases List.mem_cons.mp hk' with rfl | hk'
      · exact Bool.eq_false_iff.mpr hmeets
      · exact hrest k' hk' hid

/-- **A refill that finds nothing** leaves nothing waiting on the two lists it
searched. -/
theorem nothing_awaits {flags : IntState} (hpend : flags.pending = true)
    (hprio : ∀ k, (s.ints k).prio ≤ gicLowestPrio)
    (hnone : vgicHighestPrioSpilled P v flags s = none)
    (hk : k ∈ (s.cpus v).spilled ++ s.spilled) (hid : k.id < gicMaxValidInterrupts)
    (hout : (s.ints k).inLr = false) : ¬ Awaits P k (s.ints k) := by
  intro hawaits
  have hmeets := (higherPrio_none _ hprio hnone).2 k hk hid
  have hstate : (vgicGetState P v k s).pending = true := by
    unfold vgicGetState
    rw [gichGetLr_out v k s hout]
    dsimp only
    rcases hawaits.2 with hp | ⟨hsgi, hsrc⟩
    · split
      · simp [IntState.or, hp]
      · exact hp
    · simp [hsgi, hsrc, IntState.or, IntState.pend]
  rw [IntState.meets, hstate, hpend] at hmeets
  simp at hmeets

/-! ## Priorities -/

theorem prio_does {d : VgicDeed} (h : ∀ k, (s.ints k).prio ≤ gicLowestPrio)
    (hd : Does P v d s s') (k : IntKey) : (s'.ints k).prio ≤ gicLowestPrio := by
  cases d with
  | field reg k' data tag =>
    obtain ⟨hother, hsame, -⟩ := KeepsSetup.field hd
    by_cases hk : k = k'
    · subst hk
      rw [hsame.prio]
      have hold := h k
      unfold updateField
      cases reg <;> dsimp only <;> (try split) <;> (try exact hold) <;>
        (unfold gicLowestPrio; omega)
    · rw [(hother k hk).prio]
      exact h k
  | _ =>
    rw [((KeepsSetup.does hd fun _ _ _ _ => VgicDeed.noConfusion).settings k).prio]
    exact h k

theorem prio_next {e : VgicEvent} (h : ∀ k, (s.ints k).prio ≤ gicLowestPrio)
    (hok : HandlersOk P s) (hen : e.enabled P s) (k : IntKey) :
    ((e.next P s).ints k).prio ≤ gicLowestPrio := by
  obtain ⟨s₁, s₂, hdoes, hmoves, hend⟩ := hok.parts hen
  have hbegin : ∀ k, ((e.begin P s).ints k).prio ≤ gicLowestPrio := by
    rw [(VgicEvent.begin_quiet (P := P) e s).ints]
    exact h
  rw [((afterDeed_unwritten hmoves hend).2.settings k).prio]
  exact prio_does hbegin hdoes k

/-! ## Moves -/

namespace Woken

theorem frame (h : Woken P s) (hown : ∀ w, ∀ k ∈ (s'.cpus w).spilled, k ∈ (s.cpus w).spilled)
    (hvm : ∀ k ∈ s'.spilled, k ∈ s.spilled)
    (hawaits : ∀ k, Listed s' k → Awaits P k (s'.ints k) → Awaits P k (s.ints k))
    (hnpie : ∀ w, (s.cpus w).hcr.npie = true → (s'.cpus w).hcr.npie = true) : Woken P s' where
  own {w k} hk ha := hnpie w (h.own (hown w k hk) (hawaits k (Or.inr ⟨w, hk⟩) ha))
  vm {k} hk hid ha := by
    obtain ⟨w, hw, hn⟩ := h.vm (hvm k hk) hid (hawaits k (Or.inl hk) ha)
    exact ⟨w, hw, hnpie w hn⟩

theorem updInt (h : Woken P s) {f : VgicInt → VgicInt}
    (hf : Listed s k → Awaits P k (f (s.ints k)) → Awaits P k (s.ints k)) :
    Woken P (s.updInt k f) := by
  refine h.frame (fun _ _ hk => hk) (fun _ hk => hk) (fun k' hk' ha => ?_) (fun _ hn => hn)
  by_cases hk : k' = k
  · subst hk
    rw [VgicState.updInt_ints_same] at ha
    exact hf hk' ha
  · rw [VgicState.updInt_ints_ne _ _ hk] at ha
    exact ha

theorem getOwnership (h : Woken P s) (v : Nat) (k : IntKey) :
    Woken P (vgicGetOwnership v k s).2 := by
  rcases vgicGetOwnership_cases v k s with ⟨-, hget⟩ | ⟨-, hget⟩ | ⟨-, hget⟩ <;> rw [hget]
  · exact h
  · have htake : Woken P (s.updInt k fun i => { i with owner := some v }) :=
      h.updInt fun _ ha => ha
    exact htake
  · exact h

theorem yield (h : Woken P s) (v : Nat) (k : IntKey) : Woken P (vgicYieldOwnership P v k s) := by
  rcases vgicYieldOwnership_cases (P := P) v k s with hy | ⟨-, -, -, -, hy⟩ <;> rw [hy]
  · exact h
  · exact h.updInt fun _ ha => ha

/-- A change of `GICH_HCR` that keeps NPIE, or sets it. -/
theorem setHcr (h : Woken P s) {hcr : Hcr}
    (hnpie : (s.cpus v).hcr.npie = true → hcr.npie = true) : Woken P (s.gichSetHcr v hcr) := by
  have hcpu : ∀ w, ((s.gichSetHcr v hcr).cpus w).spilled = (s.cpus w).spilled ∧
      ((s.cpus w).hcr.npie = true → ((s.gichSetHcr v hcr).cpus w).hcr.npie = true) := by
    intro w
    unfold VgicState.gichSetHcr
    by_cases hw : w = v
    · subst hw
      rw [VgicState.updCpu_cpus_same]
      exact ⟨rfl, hnpie⟩
    · rw [VgicState.updCpu_cpus_ne _ _ hw]
      exact ⟨rfl, id⟩
  exact h.frame (fun w k hk => (hcpu w).1 ▸ hk) (fun _ hk => hk) (fun _ _ ha => ha)
    (fun w => (hcpu w).2)

theorem clear (h : Woken P s) (hsh : Shelved s) (v : Nat) {hcr : Hcr}
    (hnone : ∀ k ∈ (s.cpus v).spilled ++ s.spilled, k.id < gicMaxValidInterrupts →
      ¬ Awaits P k (s.ints k)) : Woken P (s.gichSetHcr v hcr) where
  own {w k} hk ha := by
    unfold VgicState.gichSetHcr at hk ha ⊢
    by_cases hw : w = v
    · subst hw
      rw [VgicState.updCpu_cpus_same] at hk
      obtain ⟨id, hid, hlt⟩ := hsh.own hk
      refine (hnone k (List.mem_append_left _ hk) ?_ ha).elim
      rw [hid]
      exact Nat.lt_trans hlt (by decide)
    · rw [VgicState.updCpu_cpus_ne _ _ hw] at hk ⊢
      exact h.own hk ha
  vm {k} hk hid ha := (hnone k (List.mem_append_right _ hk) hid ha).elim

theorem silent (h : Woken P s) (hq : Silent v s s') : Woken P s' := by
  have hcpu : ∀ w, (s'.cpus w).spilled = (s.cpus w).spilled ∧
      ((s.cpus w).hcr.npie = true → (s'.cpus w).hcr.npie = true) := by
    intro w
    by_cases hw : w = v
    · subst hw
      exact ⟨hq.own, hq.npie⟩
    · rw [hq.others w hw]
      exact ⟨rfl, id⟩
  refine h.frame (fun w k hk => (hcpu w).1 ▸ hk) (fun k hk => hq.spilled ▸ hk) (fun k _ ha => ?_)
    (fun w => (hcpu w).2)
  rw [hq.ints] at ha
  exact ha

/-- **Spilling** sets NPIE of the vCPU that spills. -/
theorem spill (h : Woken P s) (hv : v < P.vcpuNum) : Woken P (vgicAddSpilled v k s) := by
  unfold vgicAddSpilled
  split
  · exact h
  · dsimp only
    have hints : ∀ k', ((pushSpilled v k s).updInt k fun i => { i with inSpilled := true }).ints k' =
        { s.ints k' with
          inSpilled := if k' = k then true else (s.ints k').inSpilled } := by
      intro k'
      by_cases hk : k' = k
      · subst hk
        rw [VgicState.updInt_ints_same, pushSpilled_ints, if_pos rfl]
      · rw [VgicState.updInt_ints_ne _ _ hk, pushSpilled_ints, if_neg hk]
    have hhcr : ∀ w, w ≠ v → ((pushSpilled v k s).cpus w).hcr = (s.cpus w).hcr := by
      intro w hw
      unfold pushSpilled
      split
      · rw [VgicState.updCpu_cpus_ne _ _ hw]
      · rfl
    refine ⟨fun {w k'} hk' ha => ?_, fun {k'} hk' hid ha => ⟨v, hv, ?_⟩⟩
    · unfold VgicState.gichSetHcr at hk' ha ⊢
      by_cases hw : w = v
      · subst hw
        rw [VgicState.updCpu_cpus_same]
      · rw [VgicState.updCpu_cpus_ne _ _ hw, VgicState.updInt_cpus] at hk' ⊢
        rw [VgicState.updCpu_ints, hints] at ha
        rw [Shelved.pushSpilled_own, if_neg fun hc => hw hc.1] at hk'
        rw [hhcr w hw]
        exact h.own hk' (ha.congr rfl rfl rfl)
    · rw [VgicState.gichSetHcr, VgicState.updCpu_cpus_same]

theorem removeSpilled (h : Woken P s) (v : Nat) (k : IntKey) :
    Woken P (vgicRemoveSpilled v k s) := by
  have hrm : Woken P (rmSpilled v k s) := by
    refine h.frame (fun w k' hk' => ?_) (fun k' hk' => ?_) (fun k' _ ha => ?_) (fun w hn => ?_)
    · rw [Shelved.rmSpilled_own] at hk'
      split at hk'
      · exact List.mem_of_mem_erase hk'
      · exact hk'
    · rw [Shelved.rmSpilled_vm] at hk'
      split at hk'
      · exact hk'
      · exact List.mem_of_mem_erase hk'
    · rw [rmSpilled_ints] at ha
      exact ha
    · unfold rmSpilled
      split
      · by_cases hw : w = v
        · subst hw
          rw [VgicState.updCpu_cpus_same]
          exact hn
        · rw [VgicState.updCpu_cpus_ne _ _ hw]
          exact hn
      · exact hn
  exact hrm.updInt fun _ ha => ha

theorem gichWriteLr (h : Woken P s) (v i : Nat) (lr : ListReg) :
    Woken P (s.gichWriteLr v i lr) := by
  have hcpu : ∀ w, ((s.gichWriteLr v i lr).cpus w).spilled = (s.cpus w).spilled ∧
      ((s.gichWriteLr v i lr).cpus w).hcr = (s.cpus w).hcr := by
    intro w
    unfold VgicState.gichWriteLr
    by_cases hw : w = v
    · subst hw
      rw [VgicState.updCpu_cpus_same]
      exact ⟨rfl, rfl⟩
    · rw [VgicState.updCpu_cpus_ne _ _ hw]
      exact ⟨rfl, rfl⟩
  exact h.frame (fun w k hk => (hcpu w).1 ▸ hk) (fun _ hk => hk) (fun _ _ ha => ha)
    (fun w hn => by rw [(hcpu w).2]; exact hn)

theorem removeLr (h : Woken P s) (hsh : Shelved s) (v : Nat) (k : IntKey) :
    Woken P (vgicRemoveLr P v k s) := by
  rcases vgicRemoveLr_cases (P := P) v k s with ⟨hr, -⟩ | ⟨-, -, -, hr⟩ | ⟨-, hin, -, -, hr⟩ <;> rw [hr]
  · exact h
  · exact h.updInt fun _ ha => ha
  · have hlisted : ¬ Listed s k := by
      intro hk
      rw [hsh.out k (hsh.flagged hk)] at hin
      cases hin
    have hlisted' : ¬ Listed ((s.gichWriteLr v (s.ints k).lr .zero).updInt k fun i =>
        { i with inLr := false }) k := by
      intro hk
      refine hlisted (hk.imp id fun hk => ?_)
      obtain ⟨w, hk⟩ := hk
      refine ⟨w, ?_⟩
      rw [VgicState.updInt_cpus, VgicState.gichWriteLr] at hk
      by_cases hw : w = v
      · subst hw
        rw [VgicState.updCpu_cpus_same] at hk
        exact hk
      · rw [VgicState.updCpu_cpus_ne _ _ hw] at hk
        exact hk
    have hout := (h.gichWriteLr v (s.ints k).lr .zero).updInt (k := k)
      (f := fun i => { i with inLr := false }) fun _ ha => ha
    unfold takeLrState
    dsimp only
    refine Woken.setHcr (Woken.updInt hout fun hk _ => (hlisted' hk).elim) fun hn => ?_
    rw [VgicState.updInt_cpus] at hn ⊢
    dsimp only
    rw [hn]
    rfl

theorem writeLr (h : Woken P s) (hlisted : ¬ Listed s k) (v lrInd : Nat) :
    Woken P (vgicWriteLr P v k lrInd s) := by
  have hrel : Woken P (releaseOccupant P v k lrInd s) ∧
      ¬ Listed (releaseOccupant P v k lrInd s) k := by
    rcases releaseOccupant_cases (P := P) v k lrInd s with hr | ⟨k', -, -, -, -, -, -, hr⟩ <;> rw [hr]
    · exact ⟨h, hlisted⟩
    · refine ⟨(h.updInt (k := k') fun _ ha => ha).yield v k', ?_⟩
      rcases vgicYieldOwnership_cases (P := P) v k'
        (s.updInt k' fun i => { i with inLr := false }) with hy | ⟨-, -, -, -, hy⟩ <;> rw [hy]
      · exact hlisted
      · exact hlisted
  rw [vgicWriteLr]
  generalize releaseOccupant P v k lrInd s = s₁ at hrel
  obtain ⟨hw₁, hl₁⟩ := hrel
  have hcpu : ∀ w, ((fillLr P v k lrInd s₁).cpus w).spilled = (s₁.cpus w).spilled ∧
      ((fillLr P v k lrInd s₁).cpus w).hcr = (s₁.cpus w).hcr := by
    intro w
    by_cases hw : w = v
    · subst hw
      rw [fillLr_cpu]
      exact ⟨rfl, rfl⟩
    · rw [fillLr_cpus_ne _ _ _ _ hw]
      exact ⟨rfl, rfl⟩
  refine hw₁.frame (fun w k' hk' => (hcpu w).1 ▸ hk') (fun _ hk' => hk') (fun k' hk' ha => ?_)
    (fun w hn => by rw [(hcpu w).2]; exact hn)
  have hlist : Listed s₁ k' := by
    refine hk'.imp id fun hk' => ?_
    obtain ⟨w, hk'⟩ := hk'
    exact ⟨w, (hcpu w).1 ▸ hk'⟩
  have hk : k' ≠ k := by
    intro hk
    rw [hk] at hlist
    exact hl₁ hlist
  rw [fillLr_ints_ne _ _ _ _ hk] at ha
  exact ha

theorem unlisted (hsh : Shelved s) (hflag : (s.ints k).inSpilled = false) : ¬ Listed s k := by
  intro hk
  rw [hsh.flagged hk] at hflag
  cases hflag

theorem placeInLr (h : Woken P s) (hsh : Shelved s) {lrInd : Nat}
    (hmay : MayPlace P v k lrInd s) : Woken P (placeInLr P v k lrInd s) := by
  unfold Bao.placeInLr
  split
  · have hgone := hsh.removeSpilled fun hpriv => hsh.mayPlace_mine hmay hpriv
    refine (h.removeSpilled v k).writeLr (unlisted hgone ?_) v lrInd
    rw [vgicRemoveSpilled_int]
  · rename_i hsp
    exact h.writeLr (unlisted hsh (Bool.eq_false_iff.mpr hsp)) v lrInd

/-- **A move** of a vCPU that writes back no clear NPIE bit wakes for what it
spills. -/
theorem move {A : Nat → IntKey → VgicInt → Prop} (h : Woken P s) (hsh : Shelved s)
    (hprio : ∀ k, (s.ints k).prio ≤ gicLowestPrio) (hv : v < P.vcpuNum)
    (hback : ∀ hcr, (s.cpus v).pc = .lrenp hcr → hcr.npie = true)
    (hmove : VgicMove P A v s s') : Woken P s' := by
  cases hmove with
  | take k hown => exact h.updInt fun _ ha => ha
  | yield k => exact h.yield v k
  | spill k hknown hmine => exact h.spill hv
  | remove k => exact h.removeLr hsh v k
  | place k lrInd hmay hplace => exact h.placeInLr hsh hmay
  | silent hq => exact h.silent hq
  | calm flags hpend hnone =>
    refine h.clear hsh v fun k hk hid => ?_
    refine nothing_awaits hpend hprio hnone hk hid (hsh.out k (hsh.flagged ?_))
    rcases List.mem_append.mp hk with hk | hk
    · exact Or.inr ⟨v, hk⟩
    · exact Or.inl hk
  | writeBack hcr hcr' hpc hnpie => exact h.setHcr fun _ => hnpie.trans (hback hcr hpc)

theorem moves {A : Nat → IntKey → VgicInt → Prop} (h : Woken P s) (hsh : Shelved s)
    (hprio : ∀ k, (s.ints k).prio ≤ gicLowestPrio) (hv : v < P.vcpuNum)
    (hback : ∀ hcr, (s.cpus v).pc = .lrenp hcr → hcr.npie = true)
    (hmoves : VgicMoves P A v s s') : Woken P s' := by
  induction hmoves with
  | refl => exact h
  | tail hbefore hmove ih =>
    refine ih.move (hsh.moves hbefore) (fun k => ?_) hv (fun hcr hpc => hback hcr ?_) hmove
    · rw [((KeepsSetup.moves hbefore).settings k).prio]
      exact hprio k
    · rw [← (OwnPart.moves hbefore).pc]
      exact hpc

/-! ## Deeds -/

/-- An interrupt of the vCPU is updated: it does not come to wait while it is
listed, or the NPIE bit is set. -/
theorem raise (h : Woken P s) (hv : v < P.vcpuNum) {f : VgicInt → VgicInt}
    (hmine : ∀ w, k ∈ (s.cpus w).spilled → w = v)
    (hf : Listed s k → Awaits P k (f (s.ints k)) →
      Awaits P k (s.ints k) ∨ (s.cpus v).hcr.npie = true) : Woken P (s.updInt k f) where
  own {w k'} hk' ha := by
    rw [VgicState.updInt_cpus] at hk' ⊢
    by_cases hk : k' = k
    · subst hk
      rw [VgicState.updInt_ints_same] at ha
      rcases hf (Or.inr ⟨w, hk'⟩) ha with hbefore | hnpie
      · exact h.own hk' hbefore
      · rw [hmine w hk']
        exact hnpie
    · rw [VgicState.updInt_ints_ne _ _ hk] at ha
      exact h.own hk' ha
  vm {k'} hk' hid ha := by
    rw [VgicState.updInt_spilled] at hk'
    by_cases hk : k' = k
    · subst hk
      rw [VgicState.updInt_ints_same] at ha
      rcases hf (Or.inl hk') ha with hbefore | hnpie
      · exact h.vm hk' hid hbefore
      · exact ⟨v, hv, hnpie⟩
    · rw [VgicState.updInt_ints_ne _ _ hk] at ha
      exact h.vm hk' hid ha

theorem removeLr_lists (v : Nat) (k : IntKey) (s : VgicState) :
    (∀ w, ((vgicRemoveLr P v k s).cpus w).spilled = (s.cpus w).spilled) ∧
      (vgicRemoveLr P v k s).spilled = s.spilled := by
  rcases vgicRemoveLr_cases (P := P) v k s with ⟨hr, -⟩ | ⟨-, -, -, hr⟩ | ⟨-, -, -, -, hr⟩ <;> rw [hr]
  · exact ⟨fun _ => rfl, rfl⟩
  · exact ⟨fun _ => rfl, rfl⟩
  · refine ⟨fun w => ?_, rfl⟩
    by_cases hw : w = v
    · subst hw
      simp [takeLrState, VgicState.gichSetHcr, VgicState.gichWriteLr]
    · simp [takeLrState, VgicState.gichSetHcr, VgicState.gichWriteLr,
        VgicState.updCpu_cpus_ne _ _ hw]

theorem removeLr_listed (hsh : Shelved s) (hk : Listed s k) : vgicRemoveLr P v k s = s := by
  have hout := hsh.out k (hsh.flagged hk)
  rcases vgicRemoveLr_cases (P := P) v k s with ⟨hr, -⟩ | ⟨-, hin, -⟩ | ⟨-, hin, -⟩
  · exact hr
  · rw [hout] at hin
    cases hin
  · rw [hout] at hin
    cases hin

theorem raiseRemoved (h : Woken P s) (hsh : Shelved s) (hv : v < P.vcpuNum)
    {f : VgicInt → VgicInt} (hmine : ∀ w, k ∈ (s.cpus w).spilled → w = v)
    (hf : Listed s k → Awaits P k (f (s.ints k)) →
      Awaits P k (s.ints k) ∨ (s.cpus v).hcr.npie = true) :
    Woken P ((vgicRemoveLr P v k s).updInt k f) := by
  obtain ⟨hown, hvm⟩ := removeLr_lists (P := P) v k s
  refine (h.removeLr hsh v k).raise hv (fun w hk => hmine w (hown w ▸ hk)) fun hk ha => ?_
  have hlisted : Listed s k := by
    refine hk.imp (fun hk => hvm ▸ hk) fun hk => ?_
    obtain ⟨w, hk⟩ := hk
    exact ⟨w, hown w ▸ hk⟩
  rw [removeLr_listed hsh hlisted] at ha ⊢
  exact hf hlisted ha

theorem updateField_owner (reg : VgicReg) (data : Nat) (i : VgicInt) (owner : Option Nat) :
    updateField P reg k data { i with owner := owner } =
      { updateField P reg k data i with owner := owner } := by
  unfold updateField
  cases reg <;> dsimp only <;> (try split) <;> rfl

theorem listed_mine (hmine : ∀ w, k ∈ (s.cpus w).spilled → w = v) (hk : Listed s k) :
    k ∈ (s.cpus v).spilled ++ s.spilled := by
  rcases hk with hk | ⟨w, hk⟩
  · exact List.mem_append_right _ hk
  · rw [← hmine w hk]
    exact List.mem_append_left _ hk

theorem own_list (hsh : Shelved s) (hown : ∀ w id, k = .priv w id → id < gicCpuPriv → w = v)
    (w : Nat) (hk : k ∈ (s.cpus w).spilled) : w = v := by
  obtain ⟨id, hid, hlt⟩ := hsh.own hk
  exact hown w id hid hlt

/-- **A deed** of a step that keeps wake-ups. -/
theorem does {d : VgicDeed} (h : Woken P s) (hsh : Shelved s) (hv : v < P.vcpuNum)
    (hd : Does P v d s s')
    (hkeeps : ∀ raised ∈ d.raises P s, raised.1 ∈ (s.cpus v).spilled ++ s.spilled →
      Awaits P raised.1 raised.2 →
      Awaits P raised.1 (s.ints raised.1) ∨ (s.cpus v).hcr.npie = true) : Woken P s' := by
  cases hd with
  | nothing => exact h
  | field reg k data tag hgot =>
    have hsh₁ := hsh.getOwnership v k
    have howner := vgicGetOwnership_owner hgot
    obtain ⟨owner, hint⟩ := vgicGetOwnership_ints v k k s
    have hcpus := vgicGetOwnership_cpus v k s
    have hspilled : (vgicGetOwnership v k s).2.spilled = s.spilled := by
      rcases vgicGetOwnership_cases v k s with ⟨-, hget⟩ | ⟨-, hget⟩ | ⟨-, hget⟩ <;> rw [hget]
      rfl
    have hmine : ∀ w, k ∈ ((vgicGetOwnership v k s).2.cpus w).spilled → w = v := by
      refine own_list hsh₁ fun w id hid hlt => ?_
      have hpriv := hsh₁.privOwner w id hlt
      rw [← hid, howner] at hpriv
      cases hpriv
      rfl
    have hupd : Woken P ((vgicRemoveLr P v k (vgicGetOwnership v k s).2).updInt k
        (updateField P reg k data)) := by
      refine (h.getOwnership v k).raiseRemoved hsh₁ hv hmine fun hk ha => ?_
      rw [hint, updateField_owner] at ha
      have hlisted := listed_mine hmine hk
      rw [hcpus, hspilled] at hlisted
      rw [hint, hcpus]
      exact hkeeps (k, _) rfl hlisted (ha.congr rfl rfl rfl)
    exact hupd.frame (fun _ _ hk => hk) (fun _ hk => hk) (fun _ _ ha => ha) (fun _ hn => hn)
  | forward reg k vgicrId data tag hgot =>
    have hq := Quiet.forwardToOwner (v := v) P s k (.setReg vgicrId k.id reg data tag)
    have hcpus : (forwardToOwner P k (.setReg vgicrId k.id reg data tag) s).cpus = s.cpus := by
      unfold forwardToOwner
      cases (s.ints k).owner <;> rfl
    refine h.frame (fun w k' hk' => ?_) (fun k' hk' => hq.spilled ▸ hk') (fun k' _ ha => ?_)
      (fun w hn => ?_)
    · rw [hcpus] at hk'
      exact hk'
    · rw [hq.ints] at ha
      exact ha
    · rw [hcpus]
      exact hn
  | setRoute k route =>
    unfold vgicIntSetRoute
    split
    · exact h
    · exact h.updInt fun _ ha => ha
  | hw k hhw hmine =>
    have hown : ∀ w, k ∈ (s.cpus w).spilled → w = v := by
      refine own_list hsh fun w id hid _ => ?_
      obtain ⟨id', hname⟩ := hmine
      rw [hid] at hname
      exact vgicGetInt_mine hname
    refine h.raise hv hown fun hk ha => ?_
    exact hkeeps (k, _) rfl (listed_mine hown hk) (ha.congr rfl rfl rfl)
  | source k src hpriv hsgi =>
    have hown : ∀ w, k ∈ (s.cpus w).spilled → w = v := by
      refine own_list hsh fun w id hid _ => ?_
      obtain ⟨id', hid'⟩ := hpriv
      rw [hid] at hid'
      cases hid'
      rfl
    refine h.raiseRemoved hsh hv hown fun hk ha => ?_
    exact hkeeps (k, _) rfl (listed_mine hown hk) ha
  | zeroLr lrInd hinv => exact h.gichWriteLr v lrInd .zero
  | clearLr lrInd k hinv => exact (h.gichWriteLr v lrInd .zero).updInt fun _ ha => ha
  | refill k lrInd hbound hinv hknown hin hgot =>
    have hgone := (hsh.getOwnership v k).removeSpilled fun hpriv => hsh.got_mine hknown hgot hpriv
    refine ((h.getOwnership v k).removeSpilled v k).writeLr (unlisted hgone ?_) v lrInd
    rw [vgicRemoveSpilled_int]
  | unlist k hknown hin hgot =>
    have hgone := (hsh.getOwnership v k).removeSpilled fun hpriv => hsh.got_mine hknown hgot hpriv
    refine ((h.getOwnership v k).removeSpilled v k).updInt fun hk _ => ?_
    exact (unlisted hgone (by rw [vgicRemoveSpilled_int]) hk).elim
  | ackLr lrInd hbound hpend => exact h.gichWriteLr v lrInd _
  | deactLr lrInd hbound hact => exact h.gichWriteLr v lrInd _

theorem init (h : VgicInit P s) : Woken P s where
  own {w k} hk := by
    rw [h.cpus w] at hk
    cases hk
  vm {k} hk := by
    rw [h.spilled] at hk
    cases hk

/-! ## The last loop of the handler -/

/-- An interrupt that does not wait is not handed to `vgic_add_lr` when its
active state ends, or is refused there. -/
theorem eoiSpilled_idle (hidle : ¬ Awaits P k (s.ints k)) :
    eoiSpilled P v k s = (vgicRemoveSpilled v k s).updInt k fun i =>
      { i with state := { i.state with active := false } } := by
  unfold eoiSpilled
  dsimp only
  split
  · rfl
  · split
    · rename_i hpend
      rw [VgicState.updInt_ints_same, vgicRemoveSpilled_int] at hpend
      have hen : (s.ints k).enabled = false := by
        refine Bool.eq_false_iff.mpr fun hen => hidle ⟨hen, Or.inl hpend⟩
      unfold vgicAddLr
      rw [if_pos]
      rw [VgicState.updInt_ints_same, vgicRemoveSpilled_int]
      dsimp only
      rw [hen]
      rfl
    · rfl

theorem removeSpilled_subset (v w : Nat) (k : IntKey) (s : VgicState) :
    ∀ k' ∈ ((vgicRemoveSpilled w k s).cpus v).spilled ++ (vgicRemoveSpilled w k s).spilled,
      k' ∈ (s.cpus v).spilled ++ s.spilled := by
  intro k' hk'
  unfold vgicRemoveSpilled at hk'
  rw [VgicState.updInt_cpus, VgicState.updInt_spilled, Shelved.rmSpilled_own,
    Shelved.rmSpilled_vm] at hk'
  rcases List.mem_append.mp hk' with hk' | hk'
  · refine List.mem_append_left _ ?_
    split at hk'
    · exact List.mem_of_mem_erase hk'
    · exact hk'
  · refine List.mem_append_right _ ?_
    split at hk'
    · exact hk'
    · exact List.mem_of_mem_erase hk'

/-- **Ending a spilled active interrupt** when nothing waits leaves nothing
waiting. -/
theorem eoi_idle (h : Woken P s) (hsh : Shelved s) (hv : v < P.vcpuNum)
    (hlists : ∀ k ∈ (s.cpus v).spilled ++ s.spilled, Known P k)
    (hidle : ∀ k ∈ (s.cpus v).spilled ++ s.spilled, ¬ Awaits P k (s.ints k)) :
    Woken P (vgicEoirHighestSpilledActive P v s) ∧ Shelved (vgicEoirHighestSpilledActive P v s) ∧
      ∀ k ∈ ((vgicEoirHighestSpilledActive P v s).cpus v).spilled ++
        (vgicEoirHighestSpilledActive P v s).spilled,
        ¬ Awaits P k ((vgicEoirHighestSpilledActive P v s).ints k) := by
  unfold vgicEoirHighestSpilledActive
  cases hirq : vgicHighestPrioSpilled P v .act s with
  | none => exact ⟨h, hsh, hidle⟩
  | some k =>
    dsimp only
    split
    · rename_i hel
      simp only [Bool.and_eq_true] at hel
      split
      · rename_i hgot
        have hin := vgicHighestPrioSpilled_listed hirq
        obtain ⟨owner, hint⟩ := vgicGetOwnership_ints v k k s
        have hidle' : ¬ Awaits P k ((vgicGetOwnership v k s).2.ints k) := by
          rw [hint]
          exact fun ha => hidle k hin (ha.congr rfl rfl rfl)
        rw [eoiSpilled_idle hidle']
        have hdoes : Does P v (.unlist k) s _ := .unlist k (hlists k hin) hel.1 hgot
        have hended := hsh.does hdoes
        refine ⟨h.does hsh hv hdoes fun _ hr => (by cases hr), hended, fun k' hk' ha => ?_⟩
        have hk : k' ≠ k := by
          intro hk
          rw [hk] at hk'
          refine Woken.unlisted hended ?_ ?_ (k := k)
          · rw [VgicState.updInt_ints_same, vgicRemoveSpilled_int]
          · exact (List.mem_append.mp hk').elim (fun hk' => Or.inr ⟨v, hk'⟩) Or.inl
        have hsub := removeSpilled_subset v v k (vgicGetOwnership v k s).2 k' hk'
        rw [VgicState.updInt_ints_ne _ _ hk, vgicRemoveSpilled_ints_ne _ _ _ hk] at ha
        obtain ⟨owner', hint'⟩ := vgicGetOwnership_ints v k k' s
        rw [hint'] at ha
        rw [vgicGetOwnership_cpus] at hsub
        refine hidle k' ?_ (ha.congr rfl rfl rfl)
        rcases vgicGetOwnership_cases v k s with ⟨-, hget⟩ | ⟨-, hget⟩ | ⟨-, hget⟩ <;>
          rw [hget] at hsub <;> exact hsub
      · rename_i hgot
        rw [vgicGetOwnership_failed (Bool.eq_false_iff.mpr hgot)]
        exact ⟨h, hsh, hidle⟩
    · exact ⟨h, hsh, hidle⟩

theorem goTo (h : Woken P s) (v : Nat) (pc : VgicPc) : Woken P (goTo v pc s) := by
  have hcpu : ∀ w, ((Bao.goTo v pc s).cpus w).spilled = (s.cpus w).spilled ∧
      ((Bao.goTo v pc s).cpus w).hcr = (s.cpus w).hcr := by
    intro w
    unfold Bao.goTo
    by_cases hw : w = v
    · subst hw
      rw [VgicState.updCpu_cpus_same]
      exact ⟨rfl, rfl⟩
    · rw [VgicState.updCpu_cpus_ne _ _ hw]
      exact ⟨rfl, rfl⟩
  exact h.frame (fun w k hk => (hcpu w).1 ▸ hk) (fun _ hk => hk) (fun _ _ ha => ha)
    (fun w hn => by rw [(hcpu w).2]; exact hn)

theorem lrenpTurn (h : Woken P s) (hsh : Shelved s) (hv : v < P.vcpuNum) {hcr : Hcr}
    (hlists : ∀ k ∈ (s.cpus v).spilled ++ s.spilled, Known P k)
    (hidle : hcr.eoiCount = 0 ∨ ∀ k ∈ (s.cpus v).spilled ++ s.spilled, ¬ Awaits P k (s.ints k)) :
    Woken P (lrenpTurn P v hcr s) := by
  unfold Bao.lrenpTurn
  split
  · exact h.goTo v .guest
  · rename_i hcount
    obtain ⟨hw, hs, hnone⟩ := h.eoi_idle hsh hv hlists (hidle.resolve_left hcount)
    exact (hw.clear hs v fun k hk _ => hnone k hk).goTo v _

theorem stepParts {e : VgicEvent} (h : Woken P s) (hsh : Shelved s) (hok : HandlersOk P s)
    (hprio : ∀ k, (s.ints k).prio ≤ gicLowestPrio) (hen : e.enabled P s)
    (hkeeps : KeepsWakeup P s e)
    (hback : ∀ hcr, (s.cpus e.vcpu).pc = .lrenp hcr → hcr.npie = true) :
    Woken P (e.next P s) := by
  obtain ⟨s₁, s₂, hdoes, hmoves, hend⟩ := hok.parts hen
  have hbegin := VgicEvent.begin_quiet (P := P) e s
  have hcpus : (e.begin P s).cpus = s.cpus := by
    unfold VgicEvent.begin
    split <;> rfl
  have hw₀ : Woken P (e.begin P s) := by
    refine h.frame (fun w k hk => ?_) (fun k hk => hbegin.spilled ▸ hk) (fun k _ ha => ?_)
      (fun w hn => ?_)
    · rw [hcpus] at hk
      exact hk
    · rw [hbegin.ints] at ha
      exact ha
    · rw [hcpus]
      exact hn
  have hraises : (e.deed P s).raises P (e.begin P s) = (e.deed P s).raises P s := by
    cases e.deed P s <;> unfold VgicDeed.raises <;> dsimp only <;> rw [hbegin.ints]
  have hw₁ : Woken P s₁ := by
    refine hw₀.does (hsh.quiet hbegin) hen.1 hdoes fun raised hr hin ha => ?_
    rw [hraises] at hr
    rw [hcpus, hbegin.spilled] at hin
    rw [hcpus, hbegin.ints]
    exact hkeeps.1 raised hr hin ha
  have hprio₁ : ∀ k, (s₁.ints k).prio ≤ gicLowestPrio := by
    intro k
    have hprio₀ : ∀ k, ((e.begin P s).ints k).prio ≤ gicLowestPrio := by
      rw [hbegin.ints]
      exact hprio
    exact prio_does hprio₀ hdoes k
  have hw₂ := hw₁.moves ((hsh.quiet hbegin).does hdoes) hprio₁ hen.1 (fun hcr hpc => hback hcr ?_)
    hmoves
  · rcases hend with hnext | ⟨pc, hnext⟩
    · rw [hnext]
      exact hw₂
    · rw [hnext]
      exact hw₂.goTo e.vcpu pc
  · rw [← hpc, (OwnPart.does hdoes).pc, hcpus]

/-- **A step** that keeps wake-ups. -/
theorem next {e : VgicEvent} (h : Woken P s) (hsh : Shelved s) (hok : HandlersOk P s)
    (hprio : ∀ k, (s.ints k).prio ≤ gicLowestPrio) (hen : e.enabled P s)
    (hkeeps : KeepsWakeup P s e) : Woken P (e.next P s) := by
  obtain ⟨v, op⟩ := e
  have hturn := hkeeps.2
  have hop := hen.2
  cases op with
  | maintain =>
    cases hpc : (s.cpus v).pc with
    | lrenp hcr =>
      dsimp only at hturn
      rw [hpc] at hturn
      rcases hturn with hnpie | hidle
      · refine h.stepParts hsh hok hprio hen hkeeps fun hcr' hpc' => ?_
        cases hpc.symm.trans hpc'
        exact hnpie
      · have hnext : VgicEvent.next P ⟨v, .maintain⟩ s = Bao.lrenpTurn P v hcr s := by
          unfold VgicEvent.next gicMaintenanceTurn
          dsimp only
          rw [hpc]
        rw [hnext]
        exact h.lrenpTurn hsh hen.1 (hok.mine v) hidle
    | _ =>
      refine h.stepParts hsh hok hprio hen hkeeps fun hcr hpc' => ?_
      cases hpc.symm.trans hpc'
  | _ =>
    refine h.stepParts hsh hok hprio hen hkeeps fun hcr hpc' => ?_
    cases hop.1.symm.trans hpc'

end Woken

/-- **Wake-ups.**  In every run whose steps keep them, an enabled pending
interrupt on a vCPU's own list finds its NPIE bit set, and one on the VM's list
that of some vCPU. -/
theorem spilled_wakes_some {s : VgicState} (h : (vgicSystem P).Reach (KeepsWakeup P) s) :
    (∀ w k, k ∈ (s.cpus w).spilled → Awaits P k (s.ints k) → (s.cpus w).hcr.npie = true) ∧
      ∀ k, k ∈ s.spilled → k.id < gicMaxValidInterrupts → Awaits P k (s.ints k) →
        ∃ w, w < P.vcpuNum ∧ (s.cpus w).hcr.npie = true := by
  have hinit : ∀ s, (vgicSystem P).init s → HandlersOk P s ∧ Shelved s ∧ Woken P s ∧
      ∀ k, (s.ints k).prio ≤ gicLowestPrio := by
    intro s hs
    refine ⟨.init hs, .init hs, .init hs, fun k => ?_⟩
    obtain ⟨lr, inSpilled, hint⟩ := hs.ints k
    rw [hint]
    exact Nat.le_refl _
  have hstep : ∀ s e s', (HandlersOk P s ∧ Shelved s ∧ Woken P s ∧
      ∀ k, (s.ints k).prio ≤ gicLowestPrio) → KeepsWakeup P s e → (vgicSystem P).step s e s' →
      HandlersOk P s' ∧ Shelved s' ∧ Woken P s' ∧ ∀ k, (s'.ints k).prio ≤ gicLowestPrio := by
    intro s e s' hs hkeeps hst
    obtain ⟨hok, hsh, hw, hprio⟩ := hs
    obtain ⟨hen, hnext⟩ := hst
    rw [hnext]
    exact ⟨hok.next hen, hsh.next hok hen, hw.next hsh hok hprio hen hkeeps,
      prio_next hprio hok hen⟩
  obtain ⟨-, -, hw, -⟩ := h.invariant hinit hstep
  exact ⟨fun w k hk ha => hw.own hk ha, fun k hk hid ha => hw.vm hk hid ha⟩

instance (k : IntKey) (i : VgicInt) : Decidable (Awaits P k i) :=
  inferInstanceAs (Decidable (_ ∧ _))

instance (s : VgicState) (e : VgicEvent) : Decidable (KeepsWakeup P s e) := by
  unfold KeepsWakeup
  refine @instDecidableAnd _ _ ?_ ?_
  · infer_instance
  · split <;> infer_instance

/-- Both vCPUs have a private interrupt in their only list register when SPI 32,
routed to both, is pending: vCPU 0 spills it and forwards it to vCPU 1, which
finds it spilled already. -/
def spilledForBoth : List VgicEvent :=
  [⟨0, .writeField .isenabler 20 0 1⟩, ⟨0, .inject 20 0⟩,
    ⟨1, .writeField .isenabler 20 1 1⟩, ⟨1, .inject 20 0⟩,
    ⟨0, .writeField .itargetsr 32 0 3⟩, ⟨0, .writeField .isenabler 32 0 1⟩, ⟨0, .inject 32 0⟩,
    ⟨1, .deliver⟩]

theorem spilled_wakes_some_one :
    ∃ w, w < 2 ∧ ((vgicRun (twoCpuGic .gicv2 1 fun _ => false) spilledForBoth
      (vgicBoot (twoCpuGic .gicv2 1 fun _ => false))).cpus w).hcr.npie = true :=
  (spilled_wakes_some (P := twoCpuGic .gicv2 1 fun _ => false)
    (@RunMeets.fromBoot _ _ spilledForBoth (by decide +kernel))).2 (.shared 32)
    (by decide +kernel) (by decide +kernel) (by decide +kernel)

/-- SPI 32 waits on the VM's list and is routed to vCPU 1, nobody owns it and
no message is left, but the NPIE bit of vCPU 1 is clear. -/
theorem spilled_wakes_not_all :
    ∃ s, (vgicSystem (twoCpuGic .gicv2 1 fun _ => false)).Reachable s ∧
      .shared 32 ∈ s.spilled ∧ Awaits (twoCpuGic .gicv2 1 fun _ => false) (.shared 32)
        (s.ints (.shared 32)) ∧
      vgicIntVcpuIsTarget (twoCpuGic .gicv2 1 fun _ => false) 1 (.shared 32)
        (s.ints (.shared 32)) = true ∧
      (s.ints (.shared 32)).owner = none ∧ ((s.cpus 1).lrs 0).vid ≠ 32 ∧
      s.inbox 0 = [] ∧ s.inbox 1 = [] ∧ (s.cpus 1).hcr.npie = false := by
  let gic := twoCpuGic .gicv2 1 fun _ => false
  refine ⟨vgicRun gic spilledForBoth (vgicBoot gic), RunMeets.fromBoot (by decide +kernel), ?_⟩
  decide +kernel

end Bao

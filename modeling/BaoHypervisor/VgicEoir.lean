import BaoHypervisor.VgicHandlers

/-!
# Trapped EOIs

The loop of `vgic_handle_trapped_eoir`, run without other CPUs between its
turns.  On GICv3, where the conversion of a list register to an interrupt id
leaves the id, it processes exactly the interrupts of the registers that
signal an EOI, each once, and ends.  It takes SGIs back into a list register;
any other interrupt keeps what state it has left and its place on the lists.
-/

namespace Bao

variable (P : VgicPlat)

/-- What a turn of the loop does, without the step to the next register. -/
def eoirStep (v lrInd : Nat) (s : VgicState) : Option IntKey × VgicState :=
  let k := vgicGetInt P (lrIrqId P ((s.cpus v).lrs lrInd)) v
  let s := s.gichWriteLr v lrInd .zero
  match k with
  | none => (none, s)
  | some k => (some k, trappedEoi P v k s)

/-- The loop of `vgic_handle_trapped_eoir` from register `lrInd` on, with the
registers and the interrupts that it processed.  Where no interrupt is found
it goes on with the same register. -/
def eoirLoop (v : Nat) : Nat → Nat → VgicState → Option (List (Nat × IntKey) × VgicState)
  | 0, _, _ => none
  | fuel + 1, lrInd, s =>
      match eoirStep P v lrInd s with
      | (none, s) => eoirLoop v fuel lrInd s
      | (some k, s) =>
          match firstLr P v eisr s with
          | some lrInd' => (eoirLoop v fuel lrInd' s).map fun done => ((lrInd, k) :: done.1, done.2)
          | none => some ([(lrInd, k)], s)

/-- `vgic_handle_trapped_eoir`. -/
def vgicHandleTrappedEoir (v fuel : Nat) (s : VgicState) :
    Option (List (Nat × IntKey) × VgicState) :=
  match firstLr P v eisr s with
  | some lrInd => eoirLoop P v fuel lrInd s
  | none => some ([], s)

/-- The registers whose bit of `GICH_EISR` is set. -/
def signalled (v : Nat) (s : VgicState) : List Nat :=
  (List.range P.numLrs).filter fun i => eisr ((s.cpus v).lrs i)

/-- `vgic_add_lr` takes the interrupt back: an SGI that is enabled or active. -/
def Reinserts (s : VgicState) (k : IntKey) : Prop :=
  gicIsSgi k.id = true ∧ ((s.ints k).enabled = true ∨ (s.ints k).state.active = true)

variable {P}
variable {v lrInd : Nat} {s s₁ s' : VgicState} {k : IntKey}

/-! ## One turn -/

/-- What a turn at register `lrInd` does once it found the interrupt `k`. -/
structure EoirStep (P : VgicPlat) (v lrInd : Nat) (k : IntKey) (s s₁ : VgicState) : Prop where
  lrs : ∀ j, (s₁.cpus v).lrs j = (if j = lrInd then .zero else (s.cpus v).lrs j) ∨
    (Reinserts s k ∧ ((s₁.cpus v).lrs j).vid = k.id ∧ eisr ((s₁.cpus v).lrs j) = false ∧
      (j = lrInd ∨ elrsr ((s.cpus v).lrs j) = true))
  placed : Reinserts s k → (s.ints k).state ≠ .inv →
    ∃ j, j < P.numLrs ∧ ((s₁.cpus v).lrs j).vid = k.id ∧ ((s₁.cpus v).lrs j).state ≠ .inv
  out : ¬ Reinserts s k → (s₁.ints k).inLr = false
  enabled : ∀ k', (s₁.ints k').enabled = (s.ints k').enabled
  state : ∀ k', (k' = k → ¬ Reinserts s k) → (s₁.ints k').state = (s.ints k').state
  inLr : ∀ k', (k' = k → ¬ Reinserts s k) → (s₁.ints k').inLr = true → (s.ints k').inLr = true
  listed : ∀ k', (k' = k → ¬ Reinserts s k) → (Listed s₁ k' ↔ Listed s k')

/-- The state with the register cleared and the interrupt out of it. -/
def eoirCleared (v lrInd : Nat) (k : IntKey) (s : VgicState) : VgicState :=
  (s.gichWriteLr v lrInd .zero).updInt k fun i => { i with inLr := false }

theorem eoirCleared_lrs (j : Nat) :
    ((eoirCleared v lrInd k s).cpus v).lrs j =
      if j = lrInd then .zero else (s.cpus v).lrs j := by
  rw [eoirCleared, VgicState.updInt_cpus, VgicState.gichWriteLr, VgicState.updCpu_cpus_same]
  rfl

theorem eoirCleared_int : (eoirCleared v lrInd k s).ints k = { s.ints k with inLr := false } := by
  rw [eoirCleared, VgicState.updInt_ints_same]
  rfl

theorem eoirCleared_ints_ne {k' : IntKey} (hk : k' ≠ k) :
    (eoirCleared v lrInd k s).ints k' = s.ints k' := by
  rw [eoirCleared, VgicState.updInt_ints_ne _ _ hk]
  rfl

theorem eoirCleared_listed (k' : IntKey) :
    Listed (eoirCleared v lrInd k s) k' ↔ Listed s k' := by
  have hown : ∀ w, ((eoirCleared v lrInd k s).cpus w).spilled = (s.cpus w).spilled := by
    intro w
    rw [eoirCleared, VgicState.updInt_cpus, VgicState.gichWriteLr]
    by_cases hw : w = v
    · rw [hw, VgicState.updCpu_cpus_same]
    · rw [VgicState.updCpu_cpus_ne _ _ hw]
  simp only [Listed, hown]
  rfl

theorem EoirStep.of_cleared (hno : ¬ Reinserts s k)
    (hcpus : s₁.cpus = (eoirCleared v lrInd k s).cpus)
    (hspilled : s₁.spilled = (eoirCleared v lrInd k s).spilled)
    (hints : ∀ k', ∃ owner, s₁.ints k' = { (eoirCleared v lrInd k s).ints k' with owner := owner }) :
    EoirStep P v lrInd k s s₁ := by
  have hkeep : ∀ k', (s₁.ints k').enabled = (s.ints k').enabled ∧
      (s₁.ints k').state = (s.ints k').state ∧
      (s₁.ints k').inLr = if k' = k then false else (s.ints k').inLr := by
    intro k'
    obtain ⟨owner, hk'⟩ := hints k'
    rw [hk']
    by_cases hkk : k' = k
    · rw [hkk, eoirCleared_int, if_pos rfl]
      exact ⟨rfl, rfl, rfl⟩
    · rw [eoirCleared_ints_ne hkk, if_neg hkk]
      exact ⟨rfl, rfl, rfl⟩
  refine ⟨fun j => .inl ?_, fun h => absurd h hno, fun _ => ?_, fun k' => (hkeep k').1,
    fun k' _ => (hkeep k').2.1, fun k' _ hin => ?_, fun k' _ => ?_⟩
  · rw [hcpus, eoirCleared_lrs]
  · rw [(hkeep k).2.2, if_pos rfl]
  · rw [(hkeep k').2.2] at hin
    split at hin
    · cases hin
    · exact hin
  · rw [← @eoirCleared_listed v lrInd s k k', Listed, hcpus, hspilled, Listed]

theorem vgicRemoveSpilled_listed {k' : IntKey} (hk : k' ≠ k) :
    Listed (vgicRemoveSpilled v k s) k' ↔ Listed s k' := by
  have hmem : ∀ l : List IntKey, k' ∈ l.erase k ↔ k' ∈ l := fun l => List.mem_erase_of_ne hk
  unfold vgicRemoveSpilled rmSpilled Listed
  split
  · have hown : ∀ w, k' ∈ ((s.updCpu v fun c => { c with spilled := c.spilled.erase k }).cpus
        w).spilled ↔ k' ∈ (s.cpus w).spilled := by
      intro w
      by_cases hw : w = v
      · rw [hw, VgicState.updCpu_cpus_same, hmem]
      · rw [VgicState.updCpu_cpus_ne _ _ hw]
    simp only [VgicState.updInt_spilled, VgicState.updCpu_spilled, VgicState.updInt_cpus, hown]
  · simp only [VgicState.updInt_spilled, VgicState.updInt_cpus, hmem]

/-- The occupant of a register loses it, and nothing else but its owner
changes. -/
theorem releaseOccupant_keeps (k' : IntKey) :
    ((releaseOccupant P v k lrInd s).ints k').enabled = (s.ints k').enabled ∧
      ((releaseOccupant P v k lrInd s).ints k').state = (s.ints k').state ∧
      (((releaseOccupant P v k lrInd s).ints k').inLr = true → (s.ints k').inLr = true) ∧
      (releaseOccupant P v k lrInd s).spilled = s.spilled := by
  rcases releaseOccupant_cases (P := P) v k lrInd s with h | ⟨k₂, -, -, -, -, -, -, h⟩
  · rw [h]
    exact ⟨rfl, rfl, fun hin => hin, rfl⟩
  · have hspilled : ∀ s₂, (vgicYieldOwnership P v k₂ s₂).spilled = s₂.spilled := by
      intro s₂
      rcases vgicYieldOwnership_cases (P := P) v k₂ s₂ with hy | ⟨-, -, -, -, hy⟩
      · rw [hy]
      · rw [hy]
        rfl
    obtain ⟨owner, hy⟩ := vgicYieldOwnership_ints (P := P) v k₂
      (s.updInt k₂ fun i => { i with inLr := false }) k'
    rw [h, hy, hspilled]
    by_cases hk : k' = k₂
    · rw [hk, VgicState.updInt_ints_same]
      refine ⟨rfl, rfl, fun hin => ?_, rfl⟩
      cases hin
    · rw [VgicState.updInt_ints_ne _ _ hk]
      exact ⟨rfl, rfl, fun hin => hin, rfl⟩

/-- On GICv3 the register of an SGI waits for no EOI maintenance interrupt, and
has the state of an SGI that is enabled or active. -/
theorem newLr_sgi (hver : P.ver = .gicv3) (hsgi : gicIsSgi k.id = true)
    (hout : (s.ints k).inLr = false) :
    (newLr (P := P) v k s).vid = k.id ∧ eisr (newLr (P := P) v k s) = false ∧
      ((s.ints k).enabled = true ∨ (s.ints k).state.active = true → (s.ints k).state ≠ .inv →
        (newLr (P := P) v k s).state ≠ .inv) := by
  have hv2 : isV2Sgi P k = false := by
    rw [isV2Sgi, hver]
    rfl
  have hhw : vgicIntIsHw P k = false := by
    rw [vgicIntIsHw, hsgi]
    rfl
  have hstate : vgicGetState P v k s = (s.ints k).state := by
    rw [vgicGetState, gichGetLr_out _ _ _ hout, hv2]
    rfl
  have hlr : newLr (P := P) v k s =
      { vid := k.id
        prio := (s.ints k).prio
        state := if (s.ints k).enabled then (s.ints k).state else (s.ints k).state.stripPend
        hw := false
        eoi := false
        cpuid := 0 } := by
    rw [newLr, hstate, lrValue, hhw, hv2, hver]
    simp only [Bool.false_eq_true, if_false, gicIsSgi_priv hsgi, ListReg.zero, reduceCtorEq,
      Bool.not_true]
  rw [hlr]
  refine ⟨rfl, by simp [eisr], fun hwanted hne => ?_⟩
  dsimp only
  by_cases hen : (s.ints k).enabled = true
  · rw [if_pos hen]
    exact hne
  · rw [if_neg hen]
    have hact := hwanted.resolve_left hen
    intro hinv
    rw [IntState.stripPend, hact] at hinv
    cases hinv

theorem EoirStep.of_write {s₂ : VgicState} {e : Nat} (hver : P.ver = .gicv3)
    (hre : Reinserts s k) (he : e < P.numLrs)
    (hempty : elrsr (((eoirCleared v lrInd k s).cpus v).lrs e) = true)
    (hlrs : (s₂.cpus v).lrs = ((eoirCleared v lrInd k s).cpus v).lrs)
    (hint : (s₂.ints k).inLr = false ∧ (s₂.ints k).state = (s.ints k).state ∧
      (s₂.ints k).enabled = (s.ints k).enabled)
    (hothers : ∀ k', k' ≠ k → s₂.ints k' = s.ints k')
    (hlisted : ∀ k', k' ≠ k → (Listed s₂ k' ↔ Listed s k')) :
    EoirStep P v lrInd k s (vgicWriteLr P v k e s₂) := by
  have hnot : ∀ k', (k' = k → ¬ Reinserts s k) → k' ≠ k := fun k' hk heq => hk heq hre
  have hrel : (releaseOccupant P v k e s₂).ints k = s₂.ints k := releaseOccupant_ints v k e s₂
  obtain ⟨hvid, heisr, hvalid⟩ := @newLr_sgi P v (releaseOccupant P v k e s₂) k hver hre.1
    (by rw [hrel]; exact hint.1)
  rw [hrel, hint.2.1, hint.2.2] at hvalid
  generalize hnew : newLr (P := P) v k (releaseOccupant P v k e s₂) = lr at hvid heisr hvalid
  have hwrite : ∀ j, ((vgicWriteLr P v k e s₂).cpus v).lrs j =
      if j = e then lr else if j = lrInd then .zero else (s.cpus v).lrs j := by
    intro j
    rw [vgicWriteLr, fillLr_cpu, hnew, releaseOccupant_cpus, hlrs]
    dsimp only
    by_cases hj : j = e
    · rw [hj, atCpu_same, if_pos rfl]
    · rw [atCpu_other _ _ hj, if_neg hj, eoirCleared_lrs]
  have hne : ∀ k', k' ≠ k → (vgicWriteLr P v k e s₂).ints k' =
      (releaseOccupant P v k e s₂).ints k' := fun k' hk => fillLr_ints_ne _ _ _ _ hk
  refine ⟨fun j => ?_, fun _ hstate => ⟨e, he, ?_⟩, fun h => absurd hre h, fun k' => ?_,
    fun k' hk => ?_, fun k' hk hin => ?_, fun k' hk => ?_⟩
  · rw [hwrite]
    by_cases hj : j = e
    · right
      rw [if_pos hj]
      refine ⟨hre, hvid, heisr, ?_⟩
      rw [eoirCleared_lrs] at hempty
      by_cases hel : e = lrInd
      · exact .inl (hj.trans hel)
      · rw [if_neg hel] at hempty
        rw [hj]
        exact .inr hempty
    · left
      rw [if_neg hj]
  · rw [hwrite, if_pos rfl]
    exact ⟨hvid, hvalid hre.2 hstate⟩
  · by_cases hk : k' = k
    · rw [hk, vgicWriteLr, fillLr_int, hrel]
      exact hint.2.2
    · rw [hne k' hk, (releaseOccupant_keeps k').1, hothers k' hk]
  · have hk := hnot k' hk
    rw [hne k' hk, (releaseOccupant_keeps k').2.1, hothers k' hk]
  · have hk := hnot k' hk
    rw [hne k' hk] at hin
    have hin₂ := (releaseOccupant_keeps k').2.2.1 hin
    rwa [hothers k' hk] at hin₂
  · have hk := hnot k' hk
    rw [← hlisted k' hk]
    have hspilled : (vgicWriteLr P v k e s₂).spilled = s₂.spilled :=
      (@releaseOccupant_keeps P v e s₂ k k').2.2.2
    have hown : ∀ w, ((vgicWriteLr P v k e s₂).cpus w).spilled = (s₂.cpus w).spilled := by
      intro w
      rw [vgicWriteLr]
      by_cases hw : w = v
      · rw [hw, fillLr_cpu, releaseOccupant_cpus]
      · rw [fillLr_cpus_ne _ _ _ _ hw, releaseOccupant_cpus]
    simp only [Listed, hspilled, hown]

/-- **A turn** on GICv3 at a register that names an interrupt of the VM. -/
theorem eoirStep_spec (hver : P.ver = .gicv3) (hlt : lrInd < P.numLrs)
    (hk : vgicGetInt P ((s.cpus v).lrs lrInd).vid v = some k) :
    ∃ s₁, eoirStep P v lrInd s = (some k, s₁) ∧ EoirStep P v lrInd k s s₁ := by
  have hid : lrIrqId P ((s.cpus v).lrs lrInd) = ((s.cpus v).lrs lrInd).vid := by
    rw [lrIrqId, hver]
  refine ⟨trappedEoi P v k (s.gichWriteLr v lrInd .zero), by rw [eoirStep, hid, hk], ?_⟩
  unfold trappedEoi
  change EoirStep P v lrInd k s (if gicIsSgi k.id then
    vgicAddLr P v k (eoirCleared v lrInd k s) else
    vgicYieldOwnership P v k (eoirCleared v lrInd k s))
  by_cases hsgi : gicIsSgi k.id = true
  · rw [if_pos hsgi, vgicAddLr, eoirCleared_int]
    dsimp only
    by_cases hwanted : (s.ints k).enabled = true ∨ (s.ints k).state.active = true
    · have hgo : ¬ (((!(s.ints k).enabled && !(s.ints k).state.active) || false) = true) := by
        rcases hwanted with h | h <;> simp [h]
      rw [if_neg hgo]
      -- the cleared register is empty, so one is found
      cases hfirst : firstLr P v elrsr (eoirCleared v lrInd k s) with
      | none =>
          have hnone := List.find?_eq_none.mp hfirst lrInd (List.mem_range.mpr hlt)
          rw [eoirCleared_lrs, if_pos rfl] at hnone
          exact absurd rfl hnone
      | some e =>
          obtain ⟨he, hempty⟩ := firstLr_some hfirst
          dsimp only [placeInLr]
          apply EoirStep.of_write hver ⟨hsgi, hwanted⟩ he hempty
          · split
            · exact (vgicRemoveSpilled_lrs v k _ v).1
            · rfl
          · split
            · rw [vgicRemoveSpilled_int, eoirCleared_int]
              exact ⟨rfl, rfl, rfl⟩
            · rw [eoirCleared_int]
              exact ⟨rfl, rfl, rfl⟩
          · intro k' hk'
            split
            · rw [vgicRemoveSpilled_ints_ne _ _ _ hk', eoirCleared_ints_ne hk']
            · exact eoirCleared_ints_ne hk'
          · intro k' hk'
            split
            · rw [vgicRemoveSpilled_listed hk', eoirCleared_listed]
            · exact eoirCleared_listed k'
    · have hstay : ((!(s.ints k).enabled && !(s.ints k).state.active) || false) = true := by
        simpa using hwanted
      rw [if_pos hstay]
      exact .of_cleared (fun hre => hwanted hre.2) rfl rfl fun k' => ⟨_, rfl⟩
  · rw [if_neg hsgi]
    refine .of_cleared (fun hre => hsgi hre.1) (vgicYieldOwnership_cpus _ _ _) ?_
      fun k' => vgicYieldOwnership_ints v k _ k'
    rcases vgicYieldOwnership_cases (P := P) v k (eoirCleared v lrInd k s) with h | ⟨-, -, -, -, h⟩
    · rw [h]
    · rw [h]
      rfl

/-! ## The whole loop -/

/-- What the loop has done to `s`: it processed the interrupts that the
signalled registers name, cleared the registers and the interrupts, and took
back SGIs that are enabled or active. -/
structure EoirDone (P : VgicPlat) (v : Nat) (s s' : VgicState) (done : List (Nat × IntKey)) :
    Prop where
  registers : done.map Prod.fst = signalled P v s
  named : ∀ p ∈ done, vgicGetInt P ((s.cpus v).lrs p.1).vid v = some p.2
  lrs : ∀ j, (s'.cpus v).lrs j = (if j ∈ signalled P v s then .zero else (s.cpus v).lrs j) ∨
    ∃ p ∈ done, Reinserts s p.2 ∧ ((s'.cpus v).lrs j).vid = p.2.id
  valid : ∀ j, ((s.cpus v).lrs j).state ≠ .inv → (s'.cpus v).lrs j = (s.cpus v).lrs j
  out : ∀ p ∈ done, ¬ Reinserts s p.2 → (s'.ints p.2).inLr = false
  placed : ∀ p ∈ done, Reinserts s p.2 → (s.ints p.2).state ≠ .inv →
    ∃ j, j < P.numLrs ∧ ((s'.cpus v).lrs j).vid = p.2.id ∧ ((s'.cpus v).lrs j).state ≠ .inv
  kept : ∀ k, (∀ p ∈ done, k = p.2 → ¬ Reinserts s k) →
    (s'.ints k).state = (s.ints k).state ∧ (s'.ints k).enabled = (s.ints k).enabled ∧
      ((s'.ints k).inLr = true → (s.ints k).inLr = true) ∧ (Listed s' k ↔ Listed s k)

theorem signalled_of_firstLr (h : firstLr P v eisr s = some lrInd) :
    ∃ rest, signalled P v s = lrInd :: rest := by
  have hhead : (signalled P v s).head? = some lrInd := by
    rw [signalled, List.head?_filter]
    exact h
  exact ⟨_, (List.cons_head?_tail hhead).symm⟩

theorem signalled_nil (h : firstLr P v eisr s = none) : signalled P v s = [] := by
  rw [signalled, List.filter_eq_nil_iff]
  exact List.find?_eq_none.mp h

theorem eisr_not_elrsr {lr : ListReg} (h : eisr lr = true) : elrsr lr = false := by
  simp only [eisr, Bool.and_eq_true, Bool.not_eq_true'] at h
  simp [elrsr, h.1.2, h.2]

namespace EoirStep

theorem lrs_of_eisr (h : EoirStep P v lrInd k s s₁) {j : Nat} (hj : j ≠ lrInd)
    (hsig : eisr ((s.cpus v).lrs j) = true) : (s₁.cpus v).lrs j = (s.cpus v).lrs j := by
  rcases h.lrs j with heq | ⟨-, -, -, hself | hempty⟩
  · rw [heq, if_neg hj]
  · exact absurd hself hj
  · rw [eisr_not_elrsr hsig] at hempty
    cases hempty

/-- The register of the turn is the only one that stops to signal, and none
starts to. -/
theorem eisr_iff (h : EoirStep P v lrInd k s s₁) (j : Nat) :
    eisr ((s₁.cpus v).lrs j) = (eisr ((s.cpus v).lrs j) && decide (j ≠ lrInd)) := by
  by_cases hj : j = lrInd
  · have hnot : eisr ((s₁.cpus v).lrs j) = false := by
      rcases h.lrs j with heq | ⟨-, -, hno, -⟩
      · rw [heq, if_pos hj]
        rfl
      · exact hno
    rw [hnot]
    simp [hj]
  · by_cases hsig : eisr ((s.cpus v).lrs j) = true
    · rw [h.lrs_of_eisr hj hsig]
      simp [hj]
    · have hnot : eisr ((s₁.cpus v).lrs j) = false := by
        rcases h.lrs j with heq | ⟨-, -, hno, -⟩
        · rw [heq, if_neg hj]
          exact eq_false_of_ne_true hsig
        · exact hno
      rw [hnot, eq_false_of_ne_true hsig]
      rfl

theorem signalled (h : EoirStep P v lrInd k s s₁) {rest : List Nat}
    (hs : Bao.signalled P v s = lrInd :: rest) : Bao.signalled P v s₁ = rest := by
  have hnodup : (lrInd :: rest).Nodup := by
    rw [← hs]
    exact List.nodup_range.filter _
  have hfilter : Bao.signalled P v s₁ = (Bao.signalled P v s).filter fun j => decide (j ≠ lrInd) := by
    unfold Bao.signalled
    rw [List.filter_filter]
    apply List.filter_congr
    intro j _
    rw [h.eisr_iff, Bool.and_comm]
  rw [hfilter, hs, List.filter_cons_of_neg (by simp)]
  apply List.filter_eq_self.mpr
  intro j hj
  exact decide_eq_true fun heq => (List.nodup_cons.mp hnodup).1 (heq ▸ hj)

theorem valid (h : EoirStep P v lrInd k s s₁) {j : Nat} (hsig : eisr ((s.cpus v).lrs lrInd) = true)
    (hj : ((s.cpus v).lrs j).state ≠ .inv) : (s₁.cpus v).lrs j = (s.cpus v).lrs j := by
  have hne : j ≠ lrInd := by
    intro heq
    rw [heq] at hj
    exact hj (eisr_inv hsig)
  rcases h.lrs j with heq | ⟨-, -, -, hself | hempty⟩
  · rw [heq, if_neg hne]
  · exact absurd hself hne
  · exact absurd (elrsr_inv hempty) hj

theorem reinserts (h : EoirStep P v lrInd k s s₁) {k' : IntKey}
    (hk : k' = k → ¬ Reinserts s k) : Reinserts s₁ k' ↔ Reinserts s k' := by
  rw [Reinserts, h.enabled, h.state k' hk, Reinserts]

end EoirStep

theorem EoirDone.nil (h : signalled P v s = []) : EoirDone P v s s [] where
  registers := h.symm
  named _ hp := absurd hp List.not_mem_nil
  lrs j := by
    left
    rw [h, if_neg List.not_mem_nil]
  valid _ _ := rfl
  out _ hp := absurd hp List.not_mem_nil
  placed _ hp := absurd hp List.not_mem_nil
  kept _ _ := ⟨rfl, rfl, fun hin => hin, Iff.rfl⟩

/-- **One turn and the rest of the loop.** -/
theorem EoirDone.cons {rest : List Nat} {done : List (Nat × IntKey)}
    (hs : signalled P v s = lrInd :: rest)
    (hk : vgicGetInt P ((s.cpus v).lrs lrInd).vid v = some k)
    (hstep : EoirStep P v lrInd k s s₁) (hdone : EoirDone P v s₁ s' done) :
    EoirDone P v s s' ((lrInd, k) :: done) := by
  have hsig : ∀ j ∈ lrInd :: rest, eisr ((s.cpus v).lrs j) = true := by
    intro j hj
    rw [← hs, signalled] at hj
    exact (List.mem_filter.mp hj).2
  have hrest := hstep.signalled hs
  have hnotIn : lrInd ∉ rest := by
    have hnodup : (lrInd :: rest).Nodup := by
      rw [← hs]
      exact List.nodup_range.filter _
    exact (List.nodup_cons.mp hnodup).1
  have hmem : ∀ p ∈ done, p.1 ∈ rest := by
    intro p hp
    rw [← hrest, ← hdone.registers]
    exact List.mem_map_of_mem hp
  -- an interrupt of a later turn is still one that is taken back, or was taken back before
  have hback : ∀ p ∈ done, Reinserts s₁ p.2 → Reinserts s p.2 := by
    intro p _ hre
    by_cases hpk : p.2 = k ∧ Reinserts s k
    · rw [hpk.1]
      exact hpk.2
    · exact (hstep.reinserts fun heq hrek => hpk ⟨heq, hrek⟩).mp hre
  refine ⟨?_, ?_, ?_, ?_, ?_, ?_, ?_⟩
  · rw [List.map_cons, hdone.registers, hrest, hs]
  · intro p hp
    rcases List.mem_cons.mp hp with heq | hp
    · rw [heq]
      exact hk
    · have hin := hmem p hp
      have hne : p.1 ≠ lrInd := fun heq => hnotIn (heq ▸ hin)
      rw [← hstep.lrs_of_eisr hne (hsig _ (List.mem_cons_of_mem _ hin))]
      exact hdone.named p hp
  · intro j
    rcases hdone.lrs j with hsame | ⟨p, hp, hre, hvid⟩
    · rw [hrest] at hsame
      rw [hs, hsame]
      by_cases hj : j ∈ rest
      · left
        rw [if_pos hj, if_pos (List.mem_cons_of_mem _ hj)]
      · rw [if_neg hj]
        rcases hstep.lrs j with heq | ⟨hre, hvid, -, -⟩
        · left
          rw [heq]
          simp only [List.mem_cons, hj, or_false]
        · exact .inr ⟨_, List.mem_cons_self, hre, hvid⟩
    · exact .inr ⟨p, List.mem_cons_of_mem _ hp, hback p hp hre, hvid⟩
  · intro j hj
    have hsame := hstep.valid (hsig lrInd List.mem_cons_self) hj
    rw [hdone.valid j (by rw [hsame]; exact hj), hsame]
  · intro p hp hno
    rcases List.mem_cons.mp hp with heq | hp
    · rw [heq] at hno ⊢
      have hlater : ∀ q ∈ done, k = q.2 → ¬ Reinserts s₁ k := by
        intro q hq hkq hre
        rw [hkq] at hre
        have hre' := hback q hq hre
        rw [← hkq] at hre'
        exact hno hre'
      apply eq_false_of_ne_true
      intro hin
      have hin₁ := (hdone.kept k hlater).2.2.1 hin
      rw [hstep.out hno] at hin₁
      cases hin₁
    · exact hdone.out p hp fun hre => hno (hback p hp hre)
  · intro p hp hre hstate
    by_cases hpk : p.2 = k
    · rw [hpk] at hre hstate ⊢
      obtain ⟨j, hj, hvid, hvalid⟩ := hstep.placed hre hstate
      refine ⟨j, hj, ?_, ?_⟩
      · rw [hdone.valid j hvalid, hvid]
      · rw [hdone.valid j hvalid]
        exact hvalid
    · rcases List.mem_cons.mp hp with heq | hp
      · rw [heq] at hpk
        exact absurd rfl hpk
      · have hkeep : p.2 = k → ¬ Reinserts s k := fun heq => absurd heq hpk
        apply hdone.placed p hp ((hstep.reinserts hkeep).mpr hre)
        rw [hstep.state _ hkeep]
        exact hstate
  · intro k' hk'
    have hkeep : k' = k → ¬ Reinserts s k := by
      intro heq hre
      exact hk' _ List.mem_cons_self heq (heq ▸ hre)
    obtain ⟨hstate, hen, hin, hlisted⟩ := hdone.kept k' fun p hp heq hre =>
      hk' p (List.mem_cons_of_mem _ hp) heq ((hstep.reinserts hkeep).mp hre)
    refine ⟨?_, ?_, fun h => hstep.inLr k' hkeep (hin h), ?_⟩
    · rw [hstate, hstep.state k' hkeep]
    · rw [hen, hstep.enabled]
    · rw [hlisted, hstep.listed k' hkeep]

theorem eoirLoop_done (hver : P.ver = .gicv3) {rest : List Nat}
    (hs : signalled P v s = lrInd :: rest)
    (hids : ∀ i ∈ signalled P v s, (vgicGetInt P ((s.cpus v).lrs i).vid v).isSome = true)
    {fuel : Nat} (hfuel : (lrInd :: rest).length ≤ fuel) :
    ∃ done s', eoirLoop P v fuel lrInd s = some (done, s') ∧ EoirDone P v s s' done := by
  induction fuel generalizing lrInd s rest with
  | zero => exact absurd hfuel (Nat.not_succ_le_zero _)
  | succ fuel ih =>
      have hmem : lrInd ∈ signalled P v s := by
        rw [hs]
        exact List.mem_cons_self
      have hlt : lrInd < P.numLrs := List.mem_range.mp (List.mem_filter.mp hmem).1
      obtain ⟨k, hk⟩ := Option.isSome_iff_exists.mp (hids lrInd hmem)
      obtain ⟨s₁, heq, hstep⟩ := eoirStep_spec hver hlt hk
      have hrest := hstep.signalled hs
      rw [eoirLoop, heq]
      dsimp only
      cases hfirst : firstLr P v eisr s₁ with
      | none =>
          have hnil := signalled_nil hfirst
          exact ⟨_, _, rfl, .cons hs hk hstep (.nil hnil)⟩
      | some lrInd' =>
          obtain ⟨rest', hs'⟩ := signalled_of_firstLr hfirst
          have hids' : ∀ i ∈ signalled P v s₁,
              (vgicGetInt P ((s₁.cpus v).lrs i).vid v).isSome = true := by
            intro i hi
            rw [hrest] at hi
            have hin : i ∈ signalled P v s := by
              rw [hs]
              exact List.mem_cons_of_mem _ hi
            have hne : i ≠ lrInd := by
              have hnodup : (signalled P v s).Nodup := List.nodup_range.filter _
              rw [hs] at hnodup
              intro heq
              exact (List.nodup_cons.mp hnodup).1 (heq ▸ hi)
            rw [hstep.lrs_of_eisr hne (List.mem_filter.mp hin).2]
            exact hids i hin
          have hlen : (lrInd' :: rest').length ≤ fuel := by
            rw [← hs', hrest]
            exact Nat.le_of_succ_le_succ hfuel
          obtain ⟨done, s', hloop, hdone⟩ := ih hs' hids' hlen
          refine ⟨_, s', ?_, .cons hs hk hstep hdone⟩
          dsimp only
          rw [hloop]
          rfl

/-- **Trapped EOIs on GICv3.**  Where the registers that signal an EOI name
interrupts of the VM, the loop ends after one turn for each. -/
theorem vgicHandleTrappedEoir_done (hver : P.ver = .gicv3) (s : VgicState) (v : Nat)
    (hids : ∀ i ∈ signalled P v s, (vgicGetInt P ((s.cpus v).lrs i).vid v).isSome = true)
    {fuel : Nat} (hfuel : P.numLrs ≤ fuel) :
    ∃ done s', vgicHandleTrappedEoir P v fuel s = some (done, s') ∧ EoirDone P v s s' done := by
  unfold vgicHandleTrappedEoir
  cases hfirst : firstLr P v eisr s with
  | none => exact ⟨[], s, rfl, .nil (signalled_nil hfirst)⟩
  | some lrInd =>
      obtain ⟨rest, hs⟩ := signalled_of_firstLr hfirst
      have hlen : (signalled P v s).length ≤ P.numLrs := by
        rw [signalled]
        have hle := List.length_filter_le (fun i => eisr ((s.cpus v).lrs i)) (List.range P.numLrs)
        rwa [List.length_range] at hle
      rw [hs] at hlen
      exact eoirLoop_done hver hs hids (Nat.le_trans hlen hfuel)

/-- A shared interrupt is acknowledged, disabled, set pending and ended. -/
def endDisabled : List VgicEvent :=
  [⟨0, .writeRoute 40 .full 0⟩, ⟨0, .writeField .isenabler 40 0 1⟩,
    ⟨0, .writeField .ispendr 40 0 1⟩, ⟨0, .ackLr 0⟩, ⟨0, .writeField .icenabler 40 0 1⟩,
    ⟨0, .writeField .ispendr 40 0 1⟩, ⟨0, .deactLr 0⟩]

/-- The loop after that run. -/
theorem vgicHandleTrappedEoir_done_endDisabled :
    ∃ done s', vgicHandleTrappedEoir (twoCpuGic .gicv3 2 fun _ => false) 0 2
        (vgicRun (twoCpuGic .gicv3 2 fun _ => false) endDisabled
          (vgicBoot (twoCpuGic .gicv3 2 fun _ => false))) = some (done, s') ∧
      EoirDone (twoCpuGic .gicv3 2 fun _ => false) 0
        (vgicRun (twoCpuGic .gicv3 2 fun _ => false) endDisabled
          (vgicBoot (twoCpuGic .gicv3 2 fun _ => false))) s' done :=
  vgicHandleTrappedEoir_done rfl _ 0 (by decide +kernel) (Nat.le_refl 2)

/-- A private and a shared interrupt in the two registers of a GICv2, the
private one ended first. -/
def endSecond : List VgicEvent :=
  [⟨0, .writeField .isenabler 20 0 1⟩, ⟨0, .writeField .ispendr 20 0 1⟩,
    ⟨0, .writeField .itargetsr 40 0 1⟩, ⟨0, .writeField .isenabler 40 0 1⟩,
    ⟨0, .writeField .ispendr 40 0 1⟩, ⟨0, .ackLr 0⟩, ⟨0, .ackLr 1⟩, ⟨0, .deactLr 0⟩,
    ⟨0, .deactLr 1⟩]

/-- **Two runs that the loop does not drain.**  On GICv3 the interrupt that was
disabled and set pending is left pending in no register and on no list; on
GICv2 the loop processes interrupt 0 in place of interrupt 40, which stays
marked as being in its register. -/
theorem trappedEoir_leaves :
    (RunMeets (twoCpuGic .gicv3 2 fun _ => false) (fun _ _ => True) endDisabled
        (vgicBoot (twoCpuGic .gicv3 2 fun _ => false)) ∧
      (∃ done s', vgicHandleTrappedEoir (twoCpuGic .gicv3 2 fun _ => false) 0 2
          (vgicRun (twoCpuGic .gicv3 2 fun _ => false) endDisabled
            (vgicBoot (twoCpuGic .gicv3 2 fun _ => false))) = some (done, s') ∧
        done = [(0, .shared 40)] ∧ (s'.ints (.shared 40)).state = .pend ∧
        (s'.ints (.shared 40)).inLr = false ∧
        s'.spilled = [] ∧ (s'.cpus 0).spilled = [] ∧ (s'.cpus 1).spilled = [])) ∧
    (RunMeets (twoCpuGic .gicv2 2 fun _ => false) (fun _ _ => True) endSecond
        (vgicBoot (twoCpuGic .gicv2 2 fun _ => false)) ∧
      ((vgicRun (twoCpuGic .gicv2 2 fun _ => false) endSecond
        (vgicBoot (twoCpuGic .gicv2 2 fun _ => false))).cpus 0).lrs 1 =
          ⟨40, 31, .inv, false, true, 0⟩ ∧
      (∃ done s', vgicHandleTrappedEoir (twoCpuGic .gicv2 2 fun _ => false) 0 2
          (vgicRun (twoCpuGic .gicv2 2 fun _ => false) endSecond
            (vgicBoot (twoCpuGic .gicv2 2 fun _ => false))) = some (done, s') ∧
        done = [(1, .priv 0 0)] ∧ (s'.ints (.shared 40)).inLr = true)) := by
  refine ⟨⟨?_, _, _, rfl, ?_, ?_, ?_, ?_, ?_, ?_⟩, ?_, ?_, _, _, rfl, ?_, ?_⟩ <;> decide +kernel

end Bao

import BaoHypervisor.VgicPlacement

/-!
# Disabled interrupts

`vgic_write_lr` leaves out the pending state of a disabled interrupt, except of
a physical one, for which the callers have to see to it; `vgic_add_lr` does and
`vgic_refill_lrs` does not.
-/

namespace Bao

variable (P : VgicPlat)

/-- No list register holds a disabled interrupt as pending, none was ever
written so, and the interrupts that cannot be disabled are enabled. -/
structure Muted (s : VgicState) : Prop where
  held : ∀ {v i : Nat} {k : IntKey}, Names P s v i k →
    ((s.cpus v).lrs i).state.pending = true → (s.ints k).enabled = true
  written : ∀ w ∈ s.lrWrites, w.lr.state.pending = true → w.int.enabled = true
  fixed : ∀ k, isV2Sgi P k = true → (s.ints k).enabled = true

/-- A step does not refill a list register with a pending physical interrupt
that is disabled, and finds no list register holding the interrupt where it
clears `in_lr`. -/
def KeepsMuted (s : VgicState) (e : VgicEvent) : Prop :=
  KeepsRecords P (fun k => isV2Sgi P k = true) s e ∧
    match e.deed P s with
    | .refill k _ =>
        vgicIntIsHw P k = true → (s.ints k).state = .pend → (s.ints k).enabled = true
    | _ => True

variable {P} {X : IntKey → Prop} {s s' : VgicState} {v : Nat} {k : IntKey}

/-- **What `vgic_write_lr` checks**: the register is pending only if the
interrupt is enabled, a GICv2 SGI, or physical and pending only. -/
theorem lrValue_pending {state : IntState} {i : VgicInt}
    (h : (lrValue P state k i).1.state.pending = true) :
    i.enabled = true ∨ isV2Sgi P k = true ∨ (vgicIntIsHw P k = true ∧ state = .pend) := by
  unfold lrValue at h
  dsimp only at h
  by_cases hhw : vgicIntIsHw P k = true
  · rw [if_pos hhw] at h
    dsimp only at h
    refine Or.inr (Or.inr ⟨hhw, ?_⟩)
    split at h
    · cases h
    · rename_i hne
      obtain ⟨pending, active⟩ := state
      dsimp only at h
      subst h
      cases active
      · rfl
      · exact (hne rfl).elim
  · rw [if_neg hhw] at h
    by_cases hsgi : isV2Sgi P k = true
    · exact Or.inr (Or.inl hsgi)
    · rw [if_neg hsgi] at h
      dsimp only at h
      split at h
      · rename_i hen
        exact Or.inl hen
      · cases h

theorem isV2Sgi_priv (h : isV2Sgi P k = true) : gicIsPriv k.id = true :=
  gicIsSgi_priv (isV2Sgi_sgi h)

theorem vgicIntIsHw_not_sgi (h : vgicIntIsHw P k = true) : isV2Sgi P k = false := by
  simp only [vgicIntIsHw, Bool.and_eq_true, Bool.not_eq_true'] at h
  simp [isV2Sgi, h.1]

theorem vgicGetState_hw (hhw : vgicIntIsHw P k = true) (hout : (s.ints k).inLr = false) :
    vgicGetState P v k s = (s.ints k).state := by
  simp [vgicGetState, gichGetLr_out v k s hout, vgicIntIsHw_not_sgi hhw]

namespace Muted

/-- Registers are kept or emptied, and nothing is enabled, disabled or
recorded. -/
theorem frame (h : Muted P s)
    (hlrs : ∀ w i, (s'.cpus w).lrs i = (s.cpus w).lrs i ∨ (s'.cpus w).lrs i = .zero)
    (hen : ∀ k, (s'.ints k).enabled = (s.ints k).enabled) (hlog : s'.lrWrites = s.lrWrites) :
    Muted P s' where
  held {w i k} hn hpend := by
    rw [hen]
    unfold Names at hn
    rcases hlrs w i with hlr | hlr
    · rw [hlr] at hn hpend
      exact h.held hn hpend
    · rw [hlr] at hpend
      cases hpend
  written := by
    rw [hlog]
    exact h.written
  fixed k hk := by
    rw [hen]
    exact h.fixed k hk

theorem updInt (h : Muted P s) {f : VgicInt → VgicInt}
    (hf : (f (s.ints k)).enabled = (s.ints k).enabled) : Muted P (s.updInt k f) := by
  refine h.frame (fun _ _ => Or.inl rfl) (fun k' => ?_) rfl
  by_cases hk : k' = k
  · subst hk
    rw [VgicState.updInt_ints_same, hf]
  · rw [VgicState.updInt_ints_ne _ _ hk]

theorem quiet (h : Muted P s) (hq : Quiet v s s') : Muted P s' := by
  refine h.frame (fun w i => Or.inl ?_) (fun k => by rw [hq.ints]) hq.lrWrites
  by_cases hw : w = v
  · subst hw
    rw [hq.lrs]
  · rw [hq.others w hw]

theorem yield (h : Muted P s) (v : Nat) (k : IntKey) : Muted P (vgicYieldOwnership P v k s) := by
  refine h.frame (fun w i => Or.inl ?_) (fun k' => ?_) (vgicYieldOwnership_lrWrites v k s)
  · rw [vgicYieldOwnership_cpus]
  · obtain ⟨owner, hy⟩ := vgicYieldOwnership_ints (P := P) v k s k'
    rw [hy]

theorem getOwnership (h : Muted P s) (v : Nat) (k : IntKey) :
    Muted P (vgicGetOwnership v k s).2 := by
  refine h.frame (fun w i => Or.inl ?_) (fun k' => ?_) (vgicGetOwnership_lrWrites v k s)
  · rw [vgicGetOwnership_cpus]
  · obtain ⟨owner, hget⟩ := vgicGetOwnership_ints v k k' s
    rw [hget]

theorem spill (h : Muted P s) (v : Nat) (k : IntKey) : Muted P (vgicAddSpilled v k s) := by
  refine h.frame (fun w i => Or.inl ?_) (fun k' => ?_) (vgicAddSpilled_lrWrites v k s)
  · rw [(vgicAddSpilled_lrs v k s w).1]
  · obtain ⟨b, hb⟩ := vgicAddSpilled_ints v k s k'
    rw [hb]

theorem removeSpilled (h : Muted P s) (v : Nat) (k : IntKey) :
    Muted P (vgicRemoveSpilled v k s) := by
  refine h.frame (fun w i => Or.inl ?_) (fun k' => ?_) (vgicRemoveSpilled_lrWrites v k s)
  · rw [(vgicRemoveSpilled_lrs v k s w).1]
  · by_cases hk : k' = k
    · subst hk
      rw [vgicRemoveSpilled_int]
    · rw [vgicRemoveSpilled_ints_ne v k s hk]

theorem removeLr (h : Muted P s) (v : Nat) (k : IntKey) : Muted P (vgicRemoveLr P v k s) := by
  refine h.frame (fun w i => vgicRemoveLr_lrs v k s w i) (fun k' => ?_)
    (vgicRemoveLr_lrWrites v k s)
  by_cases hk : k' = k
  · subst hk
    rcases vgicRemoveLr_cases (P := P) v k' s with ⟨hr, -⟩ | ⟨-, -, -, hr⟩ | ⟨-, -, -, -, hr⟩
    · rw [hr]
    · rw [hr, VgicState.updInt_ints_same]
    · rw [hr]
      simp [takeLrState, VgicState.gichSetHcr, VgicState.gichWriteLr]
  · rw [vgicRemoveLr_ints_ne v k s hk]

/-- **Writing a list register** mutes what is disabled, unless the caller
brings a pending physical interrupt. -/
theorem writeLr (h : Muted P s) {lrInd : Nat} (hmine : vgicGetInt P k.id v = some k)
    (hout : (s.ints k).inLr = false)
    (hhw : vgicIntIsHw P k = true → (s.ints k).state = .pend → (s.ints k).enabled = true) :
    Muted P (vgicWriteLr P v k lrInd s) := by
  have hint := releaseOccupant_ints (P := P) v k lrInd s
  have hrel : Muted P (releaseOccupant P v k lrInd s) := by
    rcases releaseOccupant_cases (P := P) v k lrInd s with hr | ⟨k', -, -, -, -, -, -, hr⟩
    · rw [hr]
      exact h
    · rw [hr]
      exact (h.updInt (k := k') rfl).yield v k'
  rw [vgicWriteLr]
  generalize releaseOccupant P v k lrInd s = s₁ at hint hrel
  rw [← hint] at hout hhw
  have hnew : (newLr v k s₁ (P := P)).state.pending = true → (s₁.ints k).enabled = true := by
    intro hpend
    rcases lrValue_pending hpend with hen | hsgi | ⟨hphys, hstate⟩
    · exact hen
    · exact hrel.fixed k hsgi
    · rw [vgicGetState_hw hphys hout] at hstate
      exact hhw hphys hstate
  have hen : ∀ k', ((fillLr P v k lrInd s₁).ints k').enabled = (s₁.ints k').enabled := by
    intro k'
    by_cases hk : k' = k
    · subst hk
      rw [fillLr_int]
    · rw [fillLr_ints_ne _ _ _ _ hk]
  refine ⟨fun {w i k'} hn hpend => ?_, fun w hw hpend => ?_, fun k' hk' => ?_⟩
  · rw [hen]
    rcases Lodged.names_fill hn with ⟨rfl, rfl, hname⟩ | ⟨hold, hne⟩
    · rw [Lodged.newLr_vid, hmine] at hname
      cases hname
      rw [fillLr_cpu] at hpend
      dsimp only at hpend
      rw [atCpu_same] at hpend
      exact hnew hpend
    · refine hrel.held hold ?_
      by_cases hw : w = v
      · subst hw
        rw [fillLr_cpu] at hpend
        dsimp only at hpend
        rw [atCpu_other _ _ fun hi => hne ⟨rfl, hi⟩] at hpend
        exact hpend
      · rw [fillLr_cpus_ne _ _ _ _ hw] at hpend
        exact hpend
  · rw [fillLr_lrWrites] at hw
    rcases List.mem_cons.mp hw with rfl | hw
    · exact hnew hpend
    · exact hrel.written w hw hpend
  · rw [hen]
    exact hrel.fixed k' hk'

theorem move {A : Nat → IntKey → VgicInt → Prop} (h : Muted P s) (hl : Lodged P X s)
    (hX : ∀ k, X k → gicIsPriv k.id = true) (hv : v < P.vcpuNum) (hmove : VgicMove P A v s s') :
    Muted P s' := by
  cases hmove with
  | take k hown => exact h.updInt rfl
  | yield k => exact h.yield v k
  | spill k hknown hmine => exact h.spill v k
  | remove k => exact h.removeLr v k
  | silent hq => exact h.quiet hq.toQuiet
  | calm flags hpend hnone => exact h.quiet (Quiet.setHcr s _)
  | writeBack hcr hcr' hpc hnpie => exact h.quiet (Quiet.setHcr s _)
  | place k lrInd hmay hplace =>
    have hmine := hl.known_mine hmay.known (hl.owner_of_mayPlace hX hv hmay)
    -- `vgic_add_lr` brings what is enabled or active
    have hhw : (s.ints k).state = .pend → (s.ints k).enabled = true := by
      intro hstate
      rcases hmay.live with hen | hact
      · exact hen
      · rw [hstate] at hact
        cases hact
    unfold placeInLr
    split
    · have hint := vgicRemoveSpilled_int v k s
      refine (h.removeSpilled v k).writeLr hmine ?_ ?_ <;> rw [hint]
      · exact hmay.out
      · exact fun _ => hhw
    · exact h.writeLr hmine hmay.out fun _ => hhw

theorem moves {A : Nat → IntKey → VgicInt → Prop} (h : Muted P s) (hl : Lodged P X s)
    (hX : ∀ k, X k → gicIsPriv k.id = true) (hv : v < P.vcpuNum)
    (hmoves : VgicMoves P A v s s') : Muted P s' := by
  induction hmoves with
  | refl => exact h
  | tail hbefore hmove ih => exact ih.move (hl.moves hX hv hbefore) hX hv hmove

theorem guestLr_muted (h : Muted P s) {lrInd : Nat} {f : IntState → IntState}
    (hf : ∀ state : IntState, state.pending = false → (f state).pending = false)
    (hnames : ∀ w i k', Names P (guestLr v lrInd f s) w i k' → Names P s w i k') :
    Muted P (guestLr v lrInd f s) := by
  refine ⟨fun {w i k'} hn hpend => h.held (hnames w i k' hn) ?_, h.written, h.fixed⟩
  unfold guestLr VgicState.gichWriteLr at hpend
  by_cases hw : w = v
  · subst hw
    rw [VgicState.updCpu_cpus_same] at hpend
    dsimp only at hpend
    by_cases hi : i = lrInd
    · subst hi
      rw [atCpu_same] at hpend
      cases hold : ((s.cpus w).lrs i).state.pending with
      | true => rfl
      | false =>
        rw [hf _ hold] at hpend
        cases hpend
    · rw [atCpu_other _ _ hi] at hpend
      exact hpend
  · rw [VgicState.updCpu_cpus_ne _ _ hw] at hpend
    exact hpend

theorem updateField_fixed (hsgi : isV2Sgi P k = true) (reg : VgicReg) (data : Nat) (i : VgicInt) :
    (updateField P reg k data i).enabled = i.enabled := by
  unfold updateField
  cases reg <;> dsimp only <;> (try split) <;>
    first
    | rfl
    | rename_i hno
      exact (hno (Or.inr hsgi)).elim

theorem applyField (h : Muted P s) (reg : VgicReg) (data : Nat) (tag : Option WriteTag)
    (hout : isV2Sgi P k = false → ∀ w i, ¬ Names P s w i k) :
    Muted P (applyField P reg k data tag s) := by
  have hfixed : isV2Sgi P k = true →
      ((Bao.applyField P reg k data tag s).ints k).enabled = (s.ints k).enabled := by
    intro hsgi
    rw [← updateField_fixed hsgi reg data (s.ints k)]
    exact congrArg VgicInt.enabled (VgicState.updInt_ints_same s k (updateField P reg k data))
  have hne : ∀ {k'}, k' ≠ k → (Bao.applyField P reg k data tag s).ints k' = s.ints k' :=
    fun hk => VgicState.updInt_ints_ne s _ hk
  refine ⟨fun {w i k'} hn hpend => ?_, h.written, fun k' hk' => ?_⟩
  · have hold : Names P s w i k' := hn
    by_cases hk : k' = k
    · subst hk
      cases hsgi : isV2Sgi P k' with
      | false => exact (hout hsgi w i hold).elim
      | true =>
        rw [hfixed hsgi]
        exact h.held hold hpend
    · rw [hne hk]
      exact h.held hold hpend
  · by_cases hk : k' = k
    · subst hk
      rw [hfixed hk']
      exact h.fixed k' hk'
    · rw [hne hk]
      exact h.fixed k' hk'

/-- **A deed** mutes what is disabled: a disabled interrupt was taken out of
its list register before. -/
theorem does {d : VgicDeed} (h : Muted P s)
    (hl : Lodged P (fun k => isV2Sgi P k = true) s) (hd : Does P v d s s')
    (hrefill : ∀ k i, d = .refill k i →
      vgicIntIsHw P k = true → (s.ints k).state = .pend → (s.ints k).enabled = true) :
    Muted P s' := by
  have hzero : ∀ lrInd, Muted P (s.gichWriteLr v lrInd .zero) := by
    intro lrInd
    refine h.frame (fun w i => ?_) (fun _ => rfl) rfl
    unfold VgicState.gichWriteLr
    by_cases hw : w = v
    · subst hw
      rw [VgicState.updCpu_cpus_same]
      by_cases hi : i = lrInd
      · subst hi
        exact Or.inr (atCpu_same _ _ _)
      · exact Or.inl (atCpu_other _ _ hi)
    · rw [VgicState.updCpu_cpus_ne _ _ hw]
      exact Or.inl rfl
  cases hd with
  | nothing => exact h
  | field reg k data tag hgot =>
    have hown := vgicGetOwnership_owner hgot
    refine ((h.getOwnership v k).removeLr v k).applyField reg data tag fun hsgi w i => ?_
    exact ((hl.getOwnership v k).removeLr v k).unheld_of_out (Bool.eq_false_iff.mp hsgi)
      (vgicRemoveLr_out v k _ hown)
  | forward reg k vgicrId data tag hgot => exact h.quiet (Quiet.forwardToOwner (v := v) P s k _)
  | setRoute k route =>
    unfold vgicIntSetRoute
    split
    · exact h
    · exact h.updInt rfl
  | hw k hhw hmine => exact h.updInt rfl
  | source k src hpriv hsgi => exact (h.removeLr v k).updInt rfl
  | zeroLr lrInd hinv => exact hzero lrInd
  | clearLr lrInd k hinv => exact (hzero lrInd).updInt rfl
  | refill k lrInd hbound hinv hknown hin hgot =>
    have hown := vgicGetOwnership_owner hgot
    obtain ⟨owner, hget⟩ := vgicGetOwnership_ints v k k s
    have hmine := (hl.getOwnership v k).known_mine hknown hown
    have hint := vgicRemoveSpilled_int v k (vgicGetOwnership v k s).2
    refine ((h.getOwnership v k).removeSpilled v k).writeLr hmine ?_ ?_ <;> rw [hint, hget]
    · exact hl.out k hin
    · exact hrefill k lrInd rfl
  | unlist k hknown hin hgot => exact ((h.getOwnership v k).removeSpilled v k).updInt rfl
  | ackLr lrInd hbound hpend =>
    refine h.guestLr_muted (fun _ _ => rfl) fun w i k' hn => Lodged.guestLr_names (fun hinv => ?_) hn
    rw [hinv] at hpend
    cases hpend
  | deactLr lrInd hbound hact =>
    refine h.guestLr_muted (fun _ hp => hp) fun w i k' hn => Lodged.guestLr_names (fun hinv => ?_) hn
    rw [hinv]
    rfl

theorem init (h : VgicInit P s) : Muted P s where
  held {w i k} hn := by
    have hvalid := hn.2.2.1
    rw [h.cpus w] at hvalid
    exact (hvalid rfl).elim
  written w hw := by
    rw [h.history.1] at hw
    cases hw
  fixed k hk := by
    obtain ⟨lr, inSpilled, hint⟩ := h.ints k
    rw [hint]
    exact hk

theorem goTo (h : Muted P s) (v : Nat) (pc : VgicPc) : Muted P (goTo v pc s) := by
  refine h.frame (fun w i => Or.inl ?_) (fun _ => rfl) rfl
  unfold Bao.goTo
  by_cases hw : w = v
  · subst hw
    rw [VgicState.updCpu_cpus_same]
  · rw [VgicState.updCpu_cpus_ne _ _ hw]

/-- **A step** that meets the condition mutes what is disabled. -/
theorem next {e : VgicEvent} (h : Muted P s) (hl : Lodged P (fun k => isV2Sgi P k = true) s)
    (hok : HandlersOk P s) (hen : e.enabled P s) (hkeeps : KeepsMuted P s e) :
    Muted P (e.next P s) := by
  obtain ⟨s₁, s₂, hdoes, hmoves, hend⟩ := hok.parts hen
  obtain ⟨hrecords, hrefill⟩ := hkeeps
  have hbegin := VgicEvent.begin_quiet (P := P) e s
  have hdeed : Muted P s₁ := by
    refine (h.quiet hbegin).does (hl.quiet hbegin) hdoes fun k i hd => ?_
    rw [hd] at hrefill
    rw [hbegin.ints]
    exact hrefill
  have hall := hdeed.moves (hl.deed hrecords hdoes) (fun k hk => isV2Sgi_priv hk) hen.1 hmoves
  rcases hend with hnext | ⟨pc, hnext⟩
  · rw [hnext]
    exact hall
  · rw [hnext]
    exact hall.goTo e.vcpu pc

end Muted

/-- **A disabled interrupt is not pending.**  In every run whose steps refill
no list register with a disabled physical interrupt that is pending and clear
no `in_lr` of an interrupt a list register holds: what was written as pending
was enabled, and what a list register holds as pending is. -/
theorem disabled_not_pending {s : VgicState} (h : (vgicSystem P).Reach (KeepsMuted P) s) :
    (∀ w ∈ s.lrWrites, w.lr.state.pending = true → w.int.enabled = true) ∧
      ∀ v, v < P.vcpuNum → ∀ i, i < P.numLrs → ∀ k,
        vgicGetInt P ((s.cpus v).lrs i).vid v = some k →
        ((s.cpus v).lrs i).state.pending = true → (s.ints k).enabled = true := by
  have hinit : ∀ s, (vgicSystem P).init s →
      HandlersOk P s ∧ Lodged P (fun k => isV2Sgi P k = true) s ∧ Muted P s :=
    fun s hs => ⟨.init hs, .init hs, .init hs⟩
  have hstep : ∀ s e s',
      HandlersOk P s ∧ Lodged P (fun k => isV2Sgi P k = true) s ∧ Muted P s →
      KeepsMuted P s e → (vgicSystem P).step s e s' →
      HandlersOk P s' ∧ Lodged P (fun k => isV2Sgi P k = true) s' ∧ Muted P s' := by
    intro s e s' hs hkeeps hst
    obtain ⟨hok, hl, hm⟩ := hs
    obtain ⟨hen, hnext⟩ := hst
    rw [hnext]
    exact ⟨hok.next hen, hl.next (fun k hk => isV2Sgi_priv hk) hok hen hkeeps.1,
      hm.next hl hok hen hkeeps⟩
  obtain ⟨-, -, hm⟩ := h.invariant hinit hstep
  refine ⟨hm.written, fun v hv i hi k hname hpend => hm.held ⟨hv, hi, fun hinv => ?_, hname⟩ hpend⟩
  rw [hinv] at hpend
  cases hpend

instance (s : VgicState) (k : IntKey) : Decidable (Unheld P s k) := by
  unfold Unheld
  infer_instance

instance (s : VgicState) (e : VgicEvent) : Decidable (KeepsMuted P s e) := by
  unfold KeepsMuted KeepsRecords
  refine @instDecidableAnd _ _ ?_ ?_
  · split <;> infer_instance
  · split <;> infer_instance

/-- SPIs 32 and 33 are physical; 33 takes the only list register, so 32 is
spilled, and then disabled. -/
def disableSpilled : List VgicEvent :=
  [⟨0, .writeField .isenabler 32 0 1⟩, ⟨0, .writeField .isenabler 33 0 1⟩,
    ⟨0, .injectHw 33⟩, ⟨0, .injectHw 32⟩, ⟨0, .writeField .icenabler 32 0 1⟩]

/-- The guest handles SPI 33, and the register is refilled. -/
def refillDisabled : List VgicEvent :=
  disableSpilled ++ [⟨0, .ackLr 0⟩, ⟨0, .deactLr 0⟩, ⟨0, .maintain⟩, ⟨0, .maintain⟩]

theorem disabled_not_pending_one :
    (vgicRun (twoCpuGic .gicv3 1 (32 ≤ ·)) disableSpilled
        (vgicBoot (twoCpuGic .gicv3 1 (32 ≤ ·)))).lrWrites.length = 1 ∧
      ∀ w ∈ (vgicRun (twoCpuGic .gicv3 1 (32 ≤ ·)) disableSpilled
        (vgicBoot (twoCpuGic .gicv3 1 (32 ≤ ·)))).lrWrites,
        w.lr.state.pending = true → w.int.enabled = true :=
  ⟨by decide +kernel, (disabled_not_pending (RunMeets.fromBoot (by decide +kernel))).1⟩

/-- The disabled SPI 32 is written as pending. -/
theorem disabled_refilled_pending :
    ∃ s, (vgicSystem (twoCpuGic .gicv3 1 (32 ≤ ·))).Reachable s ∧
      ∃ w ∈ s.lrWrites, w.lr.state.pending = true ∧ w.int.enabled = false := by
  let gic := twoCpuGic .gicv3 1 (32 ≤ ·)
  refine ⟨vgicRun gic refillDisabled (vgicBoot gic), RunMeets.fromBoot (by decide +kernel), ?_⟩
  have hsome : (vgicRun gic refillDisabled (vgicBoot gic)).lrWrites.any
      (fun w => w.lr.state.pending && !w.int.enabled) = true := by decide +kernel
  obtain ⟨w, hw, hbad⟩ := List.any_eq_true.mp hsome
  simp only [Bool.and_eq_true, Bool.not_eq_true'] at hbad
  exact ⟨w, hw, hbad.1, hbad.2⟩

end Bao

import BaoHypervisor.VgicStates

/-!
# Interrupts entering and leaving list registers

`vgic_write_lr` divides the state of an interrupt between its structure and the
list register, `vgic_remove_lr` joins the two parts again.  With these every
move of the vGIC keeps the states.
-/

namespace Bao

variable {P : VgicPlat} {X : IntKey → Prop}
variable {s s' : VgicState} {v : Nat} {k : IntKey}

/-! ## Leaving a list register -/

/-- What `vgic_remove_lr` makes of an interrupt that a list register holds. -/
def joinLr (k : IntKey) (i : VgicInt) (lr : ListReg) : VgicInt :=
  let state := lr.state.or i.state.onlyPend
  { i with
    inLr := false
    state := state
    sgiAct := if isV2Sgi P k ∧ state.active then lr.cpuid else i.sgiAct
    sgiPend :=
      if isV2Sgi P k ∧ ¬ state.active ∧ state.pending then i.sgiPend ||| 1#8 <<< lr.cpuid
      else i.sgiPend }

theorem takeLrState_int (v : Nat) (k : IntKey) (lr : ListReg) (s : VgicState) :
    (takeLrState P v k lr (s.updInt k fun i => { i with inLr := false })).ints k =
      joinLr (P := P) k (s.ints k) lr := by
  simp [takeLrState, VgicState.gichSetHcr, joinLr]

theorem takeLrState_cpu (v : Nat) (k : IntKey) (lr : ListReg) (s : VgicState) (w : Nat) :
    ((takeLrState P v k lr s).cpus w).lrs = (s.cpus w).lrs ∧
      ((takeLrState P v k lr s).cpus w).currLrs = (s.cpus w).currLrs := by
  unfold takeLrState VgicState.gichSetHcr
  by_cases hw : w = v
  · subst hw
    rw [VgicState.updCpu_cpus_same]
    exact ⟨rfl, rfl⟩
  · rw [VgicState.updCpu_cpus_ne _ _ hw]
    exact ⟨rfl, rfl⟩

theorem gichWriteLr_reg (s : VgicState) (v i : Nat) (lr : ListReg) (w j : Nat) :
    ((s.gichWriteLr v i lr).cpus w).lrs j =
      if w = v ∧ j = i then lr else (s.cpus w).lrs j := by
  unfold VgicState.gichWriteLr
  by_cases hw : w = v
  · subst hw
    rw [VgicState.updCpu_cpus_same]
    dsimp only
    by_cases hj : j = i
    · subst hj
      rw [atCpu_same, if_pos ⟨rfl, rfl⟩]
    · rw [atCpu_other _ _ hj, if_neg fun h => hj h.2]
  · rw [VgicState.updCpu_cpus_ne _ _ hw, if_neg fun h => hw h.1]

theorem gichWriteLr_curr (s : VgicState) (v i : Nat) (lr : ListReg) (w : Nat) :
    ((s.gichWriteLr v i lr).cpus w).currLrs = (s.cpus w).currLrs := by
  unfold VgicState.gichWriteLr
  by_cases hw : w = v
  · subst hw
    rw [VgicState.updCpu_cpus_same]
  · rw [VgicState.updCpu_cpus_ne _ _ hw]

theorem or_bit_ne_zero (x : BitVec 8) {n : Nat} (hn : n < 8) : x ||| 1#8 <<< n ≠ 0#8 := by
  intro hzero
  have hbit := congrArg (BitVec.getLsbD · n) hzero
  simp [hn] at hbit

theorem active_of_valid {state : IntState} (hvalid : state ≠ .inv) (hp : state.pending = false) :
    state.active = true := by
  obtain ⟨pending, active⟩ := state
  cases active
  · exact (hvalid (by rw [show pending = false from hp]; rfl)).elim
  · rfl

theorem joinLr_state {i : VgicInt} {lr : ListReg} (h : Sound P k i (some lr))
    (hin : i.inLr = true) (hvalid : lr.state ≠ .inv) :
    gicOf P k (joinLr (P := P) k i lr) none = gicOf P k i (some lr) := by
  have hidle := h.idle hin
  cases hsgi : isV2Sgi P k with
  | false =>
    simp [gicOf, joinLr, hsgi, IntState.or, IntState.onlyPend, IntState.inv, hidle,
      Bool.or_comm]
  | true =>
    cases hp : lr.state.pending with
    | false =>
      simp [gicOf, joinLr, hsgi, IntState.or, IntState.onlyPend,
        IntState.inv, hidle, hp, active_of_valid hvalid hp]
    | true =>
      obtain ⟨hact, hcpu, -⟩ := h.source lr hsgi rfl hp
      simp [gicOf, joinLr, hsgi, IntState.or, IntState.onlyPend,
        IntState.inv, hidle, hp, hact]

theorem joinLr_sound {i : VgicInt} {lr : ListReg} (h : Sound P k i (some lr)) :
    Sound P k (joinLr (P := P) k i lr) none where
  idle hin := by cases hin
  once lr' hheld := by cases hheld
  fixed hsgi := h.fixed hsgi
  pend hsgi hp := by
    cases hlr : lr.state.pending with
    | true =>
      obtain ⟨hact, hcpu, -⟩ := h.source lr hsgi rfl hlr
      have hjoin : (joinLr (P := P) k i lr).sgiPend = i.sgiPend ||| 1#8 <<< lr.cpuid := by
        simp [joinLr, hsgi, IntState.or, IntState.onlyPend, hlr, hact]
      rw [hjoin]
      exact or_bit_ne_zero _ hcpu
    | false =>
      -- the structure was pending, so it has a source already
      have hold : i.sgiPend ≠ 0#8 := by
        refine h.pend hsgi ?_
        simpa [joinLr, IntState.or, IntState.onlyPend, hlr] using hp
      simp only [joinLr]
      split
      · intro hzero
        exact hold (BitVec.or_eq_zero_iff.mp hzero).1
      · exact hold
  source lr' hsgi hheld := by cases hheld

theorem same_of_id (hl : Lodged P X s) (hown : (s.ints k).owner = some v) (hknown : Known P k)
    {k' : IntKey} (hown' : (s.ints k').owner = some v) (hknown' : Known P k')
    (hid : k'.id = k.id) : k' = k := by
  have hk := hl.known_mine hknown hown
  have hk' := hl.known_mine hknown' hown'
  rw [hid, hk] at hk'
  cases hk'
  rfl

/-- **Removing an interrupt** from its list register keeps its state. -/
theorem Carries.removeLr (h : Stored P s) (hl : Lodged P X s) (v : Nat) (k : IntKey) :
    Carries P none s (vgicRemoveLr P v k s) := by
  rcases vgicRemoveLr_cases (P := P) v k s with ⟨hr, -⟩ | ⟨hown, hin, hno, hr⟩ |
    ⟨hown, hin, hvid, hvalid, hr⟩ <;> rw [hr]
  · exact refl h
  · refine updInt h k ⟨rfl, rfl, rfl⟩ (Or.inl ⟨rfl, ?_⟩)
    rw [heldLr_of_owner hown hin, if_neg hno]
  · have hheld := heldLr_of_owner (P := P) hown hin
    rw [if_pos ⟨hvid, hvalid⟩] at hheld
    have hknown := (h.recorded hown hin).1
    have hsound := h.sound k
    rw [hheld] at hsound
    have hlog := vgicRemoveLr_lrWrites (P := P) v k s
    rw [hr] at hlog
    generalize hlr : (s.cpus v).lrs (s.ints k).lr = lr at hvid hvalid hheld hsound hlog
    have hint := takeLrState_int (P := P) v k lr (s.gichWriteLr v (s.ints k).lr .zero)
    have hcpu := takeLrState_cpu (P := P) v k lr
      ((s.gichWriteLr v (s.ints k).lr .zero).updInt k fun i => { i with inLr := false })
    have hne : ∀ k', k' ≠ k → (takeLrState P v k lr ((s.gichWriteLr v (s.ints k).lr .zero).updInt k
        fun i => { i with inLr := false })).ints k' = s.ints k' := by
      intro k' hk
      rw [takeLrState_ints_ne _ _ _ _ hk, VgicState.updInt_ints_ne _ _ hk]
      rfl
    generalize takeLrState P v k lr ((s.gichWriteLr v (s.ints k).lr .zero).updInt k
      fun i => { i with inLr := false }) = s' at hint hcpu hne hlog
    have hreg : ∀ w j, (s'.cpus w).lrs j =
        if w = v ∧ j = (s.ints k).lr then .zero else (s.cpus w).lrs j := by
      intro w j
      rw [(hcpu w).1]
      exact gichWriteLr_reg s v _ .zero w j
    have hnone : heldLr P s' k = none := heldLr_out (by rw [hint]; rfl)
    refine change none h k ⟨fun w => ?_, fun w j hvalid' => ?_⟩ hlog
      (fun k' hk => ⟨hne k' hk, ?_⟩) ?_ ?_ ?_
    · rw [(hcpu w).2]
      exact gichWriteLr_curr s v _ .zero w
    · rw [hreg] at hvalid' ⊢
      split at hvalid'
      · exact (hvalid' rfl).elim
      · rename_i hother
        rw [if_neg hother]
        exact ⟨hvalid', rfl⟩
    · refine heldLr_elsewhere (v := v) (i := (s.ints k).lr) (hne k' hk)
        (fun w j hother => (hreg w j).trans (if_neg hother)) (fun hown' hin' _ hhere => ?_)
        fun _ _ _ hhere => ?_
      · rw [hlr, hvid] at hhere
        exact hk (same_of_id hl hown hknown hown' (h.recorded hown' hin').1 hhere.1.symm)
      · rw [hreg, if_pos ⟨rfl, rfl⟩] at hhere
        exact hhere.2 rfl
    · intro hin'
      rw [hint] at hin'
      cases hin'
    · rw [hnone, hint]
      exact joinLr_sound hsound
    · rw [gicState, hnone, hint]
      exact (joinLr_state hsound hin hvalid).trans (by rw [Option.map_none, gicStep_none, gicState, hheld])

/-! ## Entering a list register -/

/-- What `gich_get_lr` finds in a register of the interrupt. -/
def ofReg (lr : ListReg) : Option ListReg := if lr.state ≠ .inv then some lr else none

@[simp] theorem heldState_ofReg (lr : ListReg) : heldState (ofReg lr) = lr.state := by
  unfold ofReg
  split
  · rfl
  · rename_i h
    exact (Decidable.not_not.mp h).symm

@[simp] theorem heldSource_ofReg (lr : ListReg) :
    heldSource (ofReg lr) = if lr.state.pending then 1#8 <<< lr.cpuid else 0#8 := by
  unfold ofReg
  split
  · rfl
  · rename_i h
    rw [Decidable.not_not.mp h]
    rfl

theorem ofReg_some {lr lr' : ListReg} (h : ofReg lr = some lr') : lr' = lr := by
  unfold ofReg at h
  split at h
  · cases h
    rfl
  · cases h

theorem highestSource_some {pend : BitVec 8} {src : Nat} (h : highestSource pend = some src) :
    src < 8 ∧ pend.getLsbD src = true := by
  have hmem := List.mem_of_find?_eq_some h
  refine ⟨?_, List.find?_some h⟩
  simp only [List.mem_cons, List.not_mem_nil, or_false] at hmem
  omega

theorem highestSource_none {pend : BitVec 8} (h : highestSource pend = none) : pend = 0#8 := by
  have hnone := List.find?_eq_none.mp h
  refine BitVec.eq_of_getLsbD_eq fun n hn => ?_
  rw [BitVec.getLsbD_zero]
  refine Bool.eq_false_iff.mpr (hnone n ?_)
  simp only [List.mem_cons, List.not_mem_nil, or_false]
  omega

theorem source_back {pend : BitVec 8} {src : Nat} (h : pend.getLsbD src = true) :
    pend &&& ~~~(1#8 <<< src) ||| 1#8 <<< src = pend := by
  refine BitVec.eq_of_getLsbD_eq fun n hn => ?_
  by_cases hsrc : n = src
  · subst hsrc
    simp [hn, h]
  · by_cases hlt : n < src
    · simp [hn, hlt]
    · have hne : n - src ≠ 0 := by omega
      simp [hn, hlt, hne]

theorem source_out {pend : BitVec 8} {src : Nat} (hsrc : src < 8) :
    (pend &&& ~~~(1#8 <<< src)).getLsbD src = false := by
  simp [hsrc]

/-- The state of an interrupt that is in no list register. -/
def stateOut (k : IntKey) (i : VgicInt) : IntState :=
  if isV2Sgi P k && decide (i.sgiPend ≠ 0#8) then i.state.or .pend else i.state

theorem vgicGetState_out (hout : (s.ints k).inLr = false) :
    vgicGetState P v k s = stateOut (P := P) k (s.ints k) := by
  unfold vgicGetState stateOut
  rw [gichGetLr_out v k s hout]

/-- What `vgic_write_lr` makes of the interrupt. -/
def splitLr (k : IntKey) (i : VgicInt) (lrInd : Nat) : VgicInt :=
  { i with
    sgiPend := (lrValue P (stateOut (P := P) k i) k i).2
    state := if i.enabled then .inv else (stateOut (P := P) k i).onlyPend
    inLr := true
    lr := lrInd }

/-- The register `vgic_write_lr` writes. -/
def splitReg (k : IntKey) (i : VgicInt) : ListReg := (lrValue P (stateOut (P := P) k i) k i).1

section Split

variable {i : VgicInt} (lrInd : Nat)

theorem split_hw (h : vgicIntIsHw P k = true) :
    (splitLr (P := P) k i lrInd).sgiPend = i.sgiPend ∧
      (splitLr (P := P) k i lrInd).state = (if i.enabled then .inv else i.state.onlyPend) ∧
      (splitReg (P := P) k i).state = (if i.state = .pendact then .act else i.state) := by
  have hsgi := vgicIntIsHw_not_sgi h
  simp [splitLr, splitReg, lrValue, stateOut, h, hsgi]

theorem split_soft (hhw : vgicIntIsHw P k = false) (hsgi : isV2Sgi P k = false) :
    (splitLr (P := P) k i lrInd).sgiPend = i.sgiPend ∧
      (splitLr (P := P) k i lrInd).state = (if i.enabled then .inv else i.state.onlyPend) ∧
      (splitReg (P := P) k i).state = (if i.enabled then i.state else i.state.stripPend) := by
  simp [splitLr, splitReg, lrValue, stateOut, hhw, hsgi]

theorem split_sgi (hsgi : isV2Sgi P k = true) (hen : i.enabled = true) :
    (splitLr (P := P) k i lrInd).state = .inv ∧
      ((i.state.active = true ∧ (splitLr (P := P) k i lrInd).sgiPend = i.sgiPend ∧
          (splitReg (P := P) k i).state = .act) ∨
        (i.state.active = false ∧ ∃ src, src < 8 ∧ i.sgiPend.getLsbD src = true ∧
          (splitLr (P := P) k i lrInd).sgiPend = i.sgiPend &&& ~~~(1#8 <<< src) ∧
          (splitReg (P := P) k i).state = .pend ∧ (splitReg (P := P) k i).cpuid = src) ∨
        (i.state.active = false ∧ i.sgiPend = 0#8 ∧
          (splitLr (P := P) k i lrInd).sgiPend = 0#8 ∧
          (splitReg (P := P) k i).state = .inv)) := by
  have hhw : vgicIntIsHw P k = false := by
    cases h : vgicIntIsHw P k with
    | false => rfl
    | true =>
      rw [vgicIntIsHw_not_sgi h] at hsgi
      cases hsgi
  have hactive : (stateOut (P := P) k i).active = i.state.active := by
    unfold stateOut
    split <;> simp [IntState.or, IntState.pend]
  refine ⟨by simp [splitLr, hen], ?_⟩
  cases hact : i.state.active with
  | true =>
    refine Or.inl ⟨rfl, ?_⟩
    rw [hact] at hactive
    simp [splitLr, splitReg, lrValue, hhw, hsgi, hactive]
  | false =>
    rw [hact] at hactive
    cases hsrc : highestSource i.sgiPend with
    | some src =>
      obtain ⟨hlt, hbit⟩ := highestSource_some hsrc
      refine Or.inr (Or.inl ⟨rfl, src, hlt, hbit, ?_⟩)
      simp [splitLr, splitReg, lrValue, hhw, hsgi, hactive, hsrc]
    | none =>
      have hzero := highestSource_none hsrc
      refine Or.inr (Or.inr ⟨rfl, hzero, ?_⟩)
      rw [hzero] at hsrc
      simp [splitLr, splitReg, lrValue, hhw, hsgi, hactive, hzero, hsrc, ListReg.zero]

/-- **The state divided** between structure and list register: nothing is lost
but what a physical interrupt, pending and active, hands on. -/
theorem split_state (h : Sound P k i none)
    (hphys : vgicIntIsHw P k = true → i.state = .pend → i.enabled = true) :
    gicOf P k (splitLr (P := P) k i lrInd) (ofReg (splitReg (P := P) k i)) = gicOf P k i none ∨
      (vgicIntIsHw P k = true ∧ i.state = .pendact ∧ (splitReg (P := P) k i).state = .act ∧
        gicOf P k (splitLr (P := P) k i lrInd) (ofReg (splitReg (P := P) k i)) =
          { gicOf P k i none with pending := false }) := by
  cases hsgi : isV2Sgi P k with
  | true =>
    obtain ⟨hstate, hcases⟩ := split_sgi (P := P) (i := i) lrInd hsgi (h.fixed hsgi)
    have hpend : (i.state.pending || decide (i.sgiPend ≠ 0#8)) = decide (i.sgiPend ≠ 0#8) := by
      cases hp : i.state.pending with
      | false => rfl
      | true => simp [h.pend hsgi hp]
    have hnone : gicOf P k i none =
        ⟨decide (i.sgiPend ≠ 0#8), i.state.active, i.sgiPend⟩ := by
      rw [← hpend]
      simp [gicOf, hsgi, IntState.inv]
    refine Or.inl ?_
    rw [hnone]
    rcases hcases with ⟨hact, hsp, hreg⟩ | ⟨hact, src, hlt, hbit, hsp, hreg, hcpu⟩ |
      ⟨hact, hzero, hsp, hreg⟩
    · simp [gicOf, hsgi, hstate, hsp, hreg, hact, IntState.act, IntState.inv]
    · have hne : i.sgiPend ≠ 0#8 := by
        rw [← source_back hbit]
        exact or_bit_ne_zero _ hlt
      simp [gicOf, hsgi, hstate, hsp, hreg, hcpu, hact, IntState.pend, IntState.inv,
        source_back hbit, hne]
    · simp [gicOf, hsgi, hstate, hsp, hreg, hact, hzero, IntState.inv]
  | false =>
    cases hhw : vgicIntIsHw P k with
    | true =>
      obtain ⟨hsp, hstate, hreg⟩ := split_hw (P := P) (i := i) lrInd hhw
      have hold := hphys hhw
      by_cases hlost : i.state = .pendact ∧ i.enabled = true
      · refine Or.inr ⟨rfl, hlost.1, ?_, ?_⟩
        · rw [hreg, if_pos hlost.1]
        · simp [gicOf_plain hsgi, hstate, hreg, hlost.1, hlost.2, IntState.pendact, IntState.act,
            IntState.inv]
      · refine Or.inl ?_
        cases hst : i.state with
        | mk pending active =>
          rw [hst] at hstate hreg hold hlost
          rw [gicOf_plain hsgi, gicOf_plain hsgi, heldState_ofReg, hstate, hreg, hst]
          cases pending <;> cases active <;> cases hen : i.enabled <;>
            simp_all [IntState.pend, IntState.act, IntState.pendact, IntState.inv,
              IntState.onlyPend]
    | false =>
      obtain ⟨hsp, hstate, hreg⟩ := split_soft (P := P) (i := i) lrInd hhw hsgi
      refine Or.inl ?_
      cases hen : i.enabled <;>
        simp [gicOf_plain hsgi, hstate, hreg, hen, IntState.onlyPend, IntState.stripPend,
          IntState.inv]

theorem split_sound (h : Sound P k i none)
    (hphys : vgicIntIsHw P k = true → i.state = .pend → i.enabled = true) :
    Sound P k (splitLr (P := P) k i lrInd) (ofReg (splitReg (P := P) k i)) where
  idle _ := by
    simp only [splitLr]
    split <;> rfl
  once lr hheld hp := by
    rw [ofReg_some hheld] at hp
    cases hsgi : isV2Sgi P k with
    | true =>
      rw [(split_sgi (P := P) (i := i) lrInd hsgi (h.fixed hsgi)).1]
      rfl
    | false =>
      cases hhw : vgicIntIsHw P k with
      | true =>
        obtain ⟨-, hstate, hreg⟩ := split_hw (P := P) (i := i) lrInd hhw
        have hen : i.enabled = true := by
          refine hphys hhw ?_
          rw [hreg] at hp
          split at hp
          · cases hp
          · rename_i hne
            cases hst : i.state with
            | mk pending active =>
              rw [hst] at hp hne
              cases active with
              | false => exact congrArg (IntState.mk · false) hp
              | true => exact (hne (congrArg (IntState.mk · true) hp)).elim
        rw [hstate, if_pos hen]
        rfl
      | false =>
        obtain ⟨-, hstate, hreg⟩ := split_soft (P := P) (i := i) lrInd hhw hsgi
        cases hen : i.enabled with
        | true =>
          rw [hstate, if_pos hen]
          rfl
        | false =>
          simp [hreg, hen, IntState.stripPend] at hp
  fixed hsgi := h.fixed hsgi
  pend hsgi hp := by
    rw [(split_sgi (P := P) (i := i) lrInd hsgi (h.fixed hsgi)).1] at hp
    cases hp
  source lr hsgi hheld hp := by
    rw [ofReg_some hheld] at hp ⊢
    obtain ⟨-, hcases⟩ := split_sgi (P := P) (i := i) lrInd hsgi (h.fixed hsgi)
    rcases hcases with ⟨-, -, hreg⟩ | ⟨-, src, hlt, hbit, hsp, hreg, hcpu⟩ | ⟨-, -, -, hreg⟩
    · rw [hreg] at hp
      cases hp
    · rw [hreg, hcpu, hsp]
      exact ⟨rfl, hlt, source_out hlt⟩
    · rw [hreg] at hp
      cases hp

end Split

theorem shared_found (hknown : Known P k) (hshared : gicIsPriv k.id = false) (w : Nat) :
    k = .shared k.id ∧ vgicGetInt P k.id w = some k := by
  obtain ⟨w', hw'⟩ := hknown
  have hk := vgicGetInt_shared hshared hw'
  refine ⟨hk, ?_⟩
  unfold vgicGetInt at hw' ⊢
  rw [if_neg (of_decide_eq_false hshared)] at hw' ⊢
  exact hw'

/-- After the previous occupant lost the register no other shared interrupt is
recorded there. -/
theorem releaseOccupant_free (h : Stored P s) {lrInd : Nat} {k' : IntKey} (hk : k' ≠ k)
    (hknown : Known P k) (hshared : gicIsPriv k'.id = false)
    (hown : ((releaseOccupant P v k lrInd s).ints k').owner = some v)
    (hlr : ((releaseOccupant P v k lrInd s).ints k').lr = lrInd) :
    ((releaseOccupant P v k lrInd s).ints k').inLr = false := by
  refine Bool.eq_false_iff.mpr fun hin => ?_
  rcases releaseOccupant_cases (P := P) v k lrInd s with hr | ⟨k'', hk'', -, -, -, -, -, hr⟩
  · have hrec : (s.ints k').owner = some v ∧ (s.ints k').inLr = true ∧
        (s.ints k').lr = lrInd := by
      rw [hr] at hown hin hlr
      exact ⟨hown, hin, hlr⟩
    obtain ⟨hknown', -, -, hcurr⟩ := h.recorded hrec.1 hrec.2.1
    have hprev : (s.cpus v).currLrs lrInd = k'.id := by
      rw [← hrec.2.2]
      exact hcurr hshared
    obtain ⟨hk', hfound⟩ := shared_found hknown' hshared v
    have hid : k'.id ≠ k.id := by
      intro hid
      rw [hid] at hshared hk'
      exact hk (hk'.trans (shared_found hknown hshared v).1.symm)
    unfold releaseOccupant at hin
    dsimp only at hin
    rw [hprev, if_neg (by simp [hid, hshared]), hfound] at hin
    dsimp only at hin
    rw [if_pos ⟨decide_eq_true hrec.1, hrec.2.1, hrec.2.2⟩] at hin
    obtain ⟨owner, hy⟩ := vgicYieldOwnership_ints (P := P) v k'
      (s.updInt k' fun i => { i with inLr := false }) k'
    rw [hy, VgicState.updInt_ints_same] at hin
    cases hin
  · obtain ⟨owner, hy⟩ := vgicYieldOwnership_ints (P := P) v k''
      (s.updInt k'' fun i => { i with inLr := false }) k'
    rw [hr, hy] at hin hlr
    by_cases hsame : k' = k''
    · rw [hsame, VgicState.updInt_ints_same] at hin
      cases hin
    · rw [hr, vgicYieldOwnership_ints_ne _ _ _ hsame] at hown
      rw [VgicState.updInt_ints_ne s _ hsame] at hown hin hlr
      obtain ⟨hknown', -, -, hcurr⟩ := h.recorded hown hin
      rw [hlr] at hcurr
      refine hsame ((shared_found hknown' hshared v).1.trans ?_)
      rw [hk'', hcurr hshared]

namespace Carries

theorem release (h : Stored P s) {lrInd : Nat}
    (hfree : ∀ k', (s.ints k').owner = some v → (s.ints k').inLr = true →
      (s.ints k').lr = lrInd → heldLr P s k' = none) :
    Carries P none s (releaseOccupant P v k lrInd s) := by
  rcases releaseOccupant_cases (P := P) v k lrInd s with hr | ⟨k', -, -, -, hown, hin, hlr, hr⟩ <;>
    rw [hr]
  · exact refl h
  · have hdrop : Carries P none s (s.updInt k' fun i => { i with inLr := false }) :=
      updInt h k' ⟨rfl, rfl, rfl⟩ (Or.inl ⟨rfl, hfree k' hown hin hlr⟩)
    exact hdrop.trans_none (yield hdrop.stored v k')

end Carries

/-! ## Writing a list register -/

theorem heldLr_names (h : Stored P s) (hl : Lodged P X s) {lr : ListReg}
    (hheld : heldLr P s k = some lr) :
    ∃ w, (s.ints k).owner = some w ∧ (s.cpus w).lrs (s.ints k).lr = lr ∧
      Names P s w (s.ints k).lr k := by
  obtain ⟨w, hown, hin, hreg, hvid, hvalid⟩ := heldLr_some hheld
  obtain ⟨hknown, hw, hi, -⟩ := h.recorded hown hin
  refine ⟨w, hown, hreg, hw, hi, ?_, ?_⟩ <;> rw [hreg]
  · exact hvalid
  · rw [hvid]
    exact hl.known_mine hknown hown

theorem free_of_room (h : Stored P s) (hl : Lodged P X s) {lrInd : Nat} {k' : IntKey}
    (hroom : ∀ k', ¬ Names P s v lrInd k') (hown : (s.ints k').owner = some v)
    (hlr : (s.ints k').lr = lrInd) : heldLr P s k' = none := by
  cases hheld : heldLr P s k' with
  | none => rfl
  | some lr =>
    obtain ⟨w, hown', -, hn⟩ := heldLr_names h hl hheld
    rw [hown] at hown'
    cases hown'
    rw [hlr] at hn
    exact (hroom k' hn).elim

theorem fillLr_split (lrInd : Nat) (hout : (s.ints k).inLr = false) :
    (fillLr P v k lrInd s).ints k = splitLr (P := P) k (s.ints k) lrInd ∧
      newLr v k s (P := P) = splitReg (P := P) k (s.ints k) := by
  rw [fillLr_int, newLr, vgicGetState_out hout]
  exact ⟨rfl, rfl⟩

theorem fillLr_reg (lrInd w j : Nat) :
    ((fillLr P v k lrInd s).cpus w).lrs j =
        (if w = v ∧ j = lrInd then newLr v k s (P := P) else (s.cpus w).lrs j) ∧
      ((fillLr P v k lrInd s).cpus w).currLrs j =
        (if w = v ∧ j = lrInd then k.id else (s.cpus w).currLrs j) := by
  by_cases hw : w = v
  · subst hw
    rw [fillLr_cpu]
    by_cases hj : j = lrInd
    · subst hj
      simp
    · simp [hj, atCpu_other _ _ hj]
  · rw [fillLr_cpus_ne _ _ _ _ hw]
    simp [hw]

namespace Carries

/-- Writing the register of an interrupt that is in none, with nobody held or
recorded there. -/
theorem fill (h : Stored P s) (hl : Lodged P X s) {lrInd : Nat} (hv : v < P.vcpuNum)
    (hi : lrInd < P.numLrs) (hknown : Known P k) (hown : (s.ints k).owner = some v)
    (hout : (s.ints k).inLr = false)
    (hfree : ∀ k', (s.ints k').owner = some v → (s.ints k').inLr = true →
      (s.ints k').lr = lrInd → heldLr P s k' = none)
    (hshared : ∀ k', k' ≠ k → gicIsPriv k'.id = false → (s.ints k').owner = some v →
      (s.ints k').lr = lrInd → (s.ints k').inLr = false)
    (hphys : vgicIntIsHw P k = true → (s.ints k).state = .pend → (s.ints k).enabled = true) :
    Carries P none s (fillLr P v k lrInd s) := by
  obtain ⟨hint, hnew⟩ := fillLr_split (P := P) (v := v) lrInd hout
  have hne : ∀ k', k' ≠ k → (fillLr P v k lrInd s).ints k' = s.ints k' :=
    fun k' hk => fillLr_ints_ne v k lrInd s hk
  have hregs := fillLr_reg (P := P) (v := v) (k := k) (s := s) lrInd
  have hlog := fillLr_lrWrites (P := P) v k lrInd s
  have hvid := Lodged.newLr_vid (P := P) v k s
  have hmine := hl.known_mine hknown hown
  have hnone : heldLr P s k = none := heldLr_out hout
  have hsound := h.sound k
  rw [hnone] at hsound
  generalize fillLr P v k lrInd s = s' at hint hne hregs hlog
  have hnewReg : (s'.cpus v).lrs lrInd = newLr v k s (P := P) :=
    (hregs v lrInd).1.trans (if_pos ⟨rfl, rfl⟩)
  have hheld : heldLr P s' k = ofReg (splitReg (P := P) k (s.ints k)) := by
    have hrec := heldLr_of_owner (P := P) (s := s') (k := k) (w := v) (by rw [hint]; exact hown)
      (by rw [hint]; rfl)
    rw [hint] at hrec
    rw [hrec]
    change (if ((s'.cpus v).lrs lrInd).vid = k.id ∧ ((s'.cpus v).lrs lrInd).state ≠ .inv then
      some ((s'.cpus v).lrs lrInd) else none) = _
    rw [hnewReg, hvid, ← hnew]
    simp [ofReg]
  have helse : ∀ k', k' ≠ k → heldLr P s' k' = heldLr P s k' := by
    intro k' hk
    refine heldLr_elsewhere (v := v) (i := lrInd) (hne k' hk)
      (fun w j hother => ((hregs w j).1).trans (if_neg hother)) (fun hown' hin' hlr' hhere => ?_)
      fun hown' hin' hlr' hhere => ?_
    · have hgone := hfree k' hown' hin' hlr'
      rw [heldLr_of_owner hown' hin', hlr', if_pos hhere] at hgone
      cases hgone
    · rw [hnewReg, hvid] at hhere
      exact hk (same_of_id hl hown hknown hown' (h.recorded hown' hin').1 hhere.1.symm)
  refine ⟨⟨fun {k' w} hown' hin' => ?_, fun {w j} hw hj hvalid => ?_, fun k' => ?_⟩,
    fun w hw => ?_, fun k' => ?_⟩
  · by_cases hk : k' = k
    · subst hk
      rw [hint] at hown' ⊢
      have hw : w = v := Option.some.inj (hown'.symm.trans hown)
      subst hw
      refine ⟨hknown, hv, hi, fun _ => ?_⟩
      exact ((hregs w lrInd).2).trans (if_pos ⟨rfl, rfl⟩)
    · rw [hne k' hk] at hown' hin' ⊢
      obtain ⟨hknown', hw, hj, hcurr⟩ := h.recorded hown' hin'
      refine ⟨hknown', hw, hj, fun hpriv => ?_⟩
      rw [(hregs w _).2, if_neg]
      · exact hcurr hpriv
      · rintro ⟨rfl, hlr⟩
        have hgone := hshared k' hk hpriv hown' hlr
        rw [hin'] at hgone
        cases hgone
  · rw [(hregs w j).1] at hvalid ⊢
    rw [(hregs w j).2]
    by_cases hhere : w = v ∧ j = lrInd
    · obtain ⟨rfl, rfl⟩ := hhere
      rw [if_pos ⟨rfl, rfl⟩, if_pos ⟨rfl, rfl⟩, hvid]
      exact ⟨rfl, k, hmine⟩
    · rw [if_neg hhere] at hvalid
      rw [if_neg hhere, if_neg hhere]
      exact h.current hw hj hvalid
  · by_cases hk : k' = k
    · subst hk
      rw [hheld, hint]
      exact split_sound lrInd hsound hphys
    · rw [hne k' hk, helse k' hk]
      exact h.sound k'
  · rw [hlog]
    exact List.mem_cons_of_mem _ hw
  · by_cases hk : k' = k
    · subst hk
      rw [gicStep_none, gicState, gicState, hheld, hint, hnone]
      rcases split_state (P := P) lrInd hsound hphys with hsame | ⟨hhw, hst, hact, hlost⟩
      · exact Or.inl hsame
      · refine Or.inr ⟨⟨hhw, ⟨v, k', s.ints k', newLr v k' s (P := P)⟩, ?_, rfl, hst, ?_⟩, hlost⟩
        · rw [hlog]
          exact List.mem_cons_self
        · rw [hnew]
          exact hact
    · have hsame : gicState P s' k' = gicState P s k' := by
        rw [gicState, hne k' hk, helse k' hk]
        rfl
      rw [gicStep_none, hsame]
      exact Short.refl _ _

/-- **`vgic_write_lr`** by the owner of an interrupt that is in no list
register, with no interrupt held in the register. -/
theorem writeLr (h : Stored P s) (hl : Lodged P (fun _ => False) s) {lrInd : Nat}
    (hv : v < P.vcpuNum) (hi : lrInd < P.numLrs) (hknown : Known P k)
    (hown : (s.ints k).owner = some v) (hout : (s.ints k).inLr = false)
    (hroom : ∀ k', ¬ Names P s v lrInd k')
    (hphys : vgicIntIsHw P k = true → (s.ints k).state = .pend → (s.ints k).enabled = true) :
    Carries P none s (vgicWriteLr P v k lrInd s) := by
  have hrel : Carries P none s (releaseOccupant P v k lrInd s) :=
    release h fun k' hown' _ hlr' => free_of_room h hl hroom hown' hlr'
  have hlodged : Lodged P (fun _ => False) (releaseOccupant P v k lrInd s) :=
    hl.releaseOccupant hroom
  have hroom' : ∀ k', ¬ Names P (releaseOccupant P v k lrInd s) v lrInd k' := by
    intro k' hn
    refine hroom k' (names_lrs (fun w => ?_) hn)
    rw [releaseOccupant_cpus]
  have hint := releaseOccupant_ints (P := P) v k lrInd s
  refine hrel.trans_none (fill hrel.stored hlodged hv hi hknown ?_ ?_ ?_ ?_ ?_)
  · rw [hint]
    exact hown
  · rw [hint]
    exact hout
  · exact fun k' hown' _ hlr' => free_of_room hrel.stored hlodged hroom' hown' hlr'
  · exact fun k' hk hpriv hown' hlr' => releaseOccupant_free h hk hknown hpriv hown' hlr'
  · rw [hint]
    exact hphys

end Carries

/-! ## Moves -/

/-- **A move** keeps the states. -/
theorem Carries.move {A : Nat → IntKey → VgicInt → Prop} (h : Stored P s)
    (hl : Lodged P (fun _ => False) s) (hv : v < P.vcpuNum) (hmove : VgicMove P A v s s') :
    Carries P none s s' := by
  cases hmove with
  | take k hown => exact take h hl hown
  | yield k => exact yield h v k
  | spill k hknown hmine => exact spill h v k
  | remove k => exact removeLr h hl v k
  | silent hq => exact quiet h hq.toQuiet
  | calm flags hpend hnone => exact quiet h (Quiet.setHcr (v := v) s _)
  | writeBack hcr hcr' hpc hnpie => exact quiet h (Quiet.setHcr (v := v) s _)
  | place k lrInd hmay hplace =>
    have hown := hl.owner_of_mayPlace (fun _ h => h.elim) hv hmay
    have hroom := hl.room_of_mayPlace hmay
    -- `vgic_add_lr` brings what is enabled or active
    have hphys : (s.ints k).state = .pend → (s.ints k).enabled = true := by
      intro hstate
      rcases hmay.live with hen | hact
      · exact hen
      · rw [hstate] at hact
        cases hact
    unfold placeInLr
    split
    · have hint := vgicRemoveSpilled_int v k s
      have hrm := removeSpilled h v k
      refine hrm.trans_none (writeLr hrm.stored (hl.removeSpilled v k) hv hmay.bound hmay.known
        ?_ ?_ (fun k' hn => ?_) ?_)
      · rw [hint]
        exact hown
      · rw [hint]
        exact hmay.out
      · exact hroom k' (names_lrs (fun w => (vgicRemoveSpilled_lrs v k s w).1) hn)
      · rw [hint]
        exact fun _ => hphys
    · exact writeLr h hl hv hmay.bound hmay.known hown hmay.out hroom fun _ => hphys

theorem Carries.moves {A : Nat → IntKey → VgicInt → Prop} (h : Stored P s)
    (hl : Lodged P (fun _ => False) s) (hv : v < P.vcpuNum) (hmoves : VgicMoves P A v s s') :
    Carries P none s s' := by
  induction hmoves with
  | refl => exact refl h
  | tail hbefore hmove ih =>
    exact ih.trans_none (move ih.stored (hl.moves (fun _ h => h.elim) hv hbefore) hv hmove)

end Bao

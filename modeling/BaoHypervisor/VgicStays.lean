import BaoHypervisor.VgicRefill

/-!
# What `vgic_add_lr` leaves of the others

To make room `vgic_add_lr` may spill the interrupt of a list register.  Seen from
its vCPU no other interrupt's active state changes, a listed interrupt stays listed,
and what has a place, in a list register or on a spilled list, keeps one.
-/

namespace Bao

variable (P : VgicPlat)

/-- The interrupt is active, as the vCPU sees it. -/
def activeFor (v : Nat) (k : IntKey) (s : VgicState) : Bool := (vgicGetState P v k s).active

/-- The interrupt is the one that the vCPU finds for its id. -/
def Finds (v : Nat) (k : IntKey) : Prop := vgicGetInt P k.id v = some k

/-- The register's valid content is the interrupt. -/
def Holds (k : IntKey) (lr : ListReg) : Prop := lr.vid = k.id ∧ lr.state ≠ .inv

/-- The interrupt is listed, or it is in a list register; a shared one that the vCPU
owns is then the valid content of the register it names. -/
def HasPlace (v : Nat) (k : IntKey) (s : VgicState) : Prop :=
  k ∈ spilledFor v s ∨ ((s.ints k).inLr = true ∧
    (gicIsPriv k.id = false → (s.ints k).owner = some v →
      Holds k ((s.cpus v).lrs (s.ints k).lr)))

/-- **What stays** of an interrupt while its vCPU puts another one into a list
register. -/
structure Stays (v : Nat) (j : IntKey) (s s' : VgicState) : Prop where
  active : activeFor P v j s' = activeFor P v j s
  listed : j ∈ spilledFor v s → j ∈ spilledFor v s'
  shelf : (s.ints j).inSpilled = true → (s.ints j).inLr = false →
    (s.ints j).state.active = true → s'.ints j = s.ints j
  place : HasPlace v j s → HasPlace v j s'

variable {P} {v lrInd : Nat} {s s' s'' : VgicState} {j k x : IntKey}

theorem Stays.refl (v : Nat) (j : IntKey) (s : VgicState) : Stays P v j s s :=
  ⟨rfl, id, fun _ _ _ => rfl, id⟩

theorem Stays.trans (h : Stays P v j s s') (h' : Stays P v j s' s'') : Stays P v j s s'' where
  active := h'.active.trans h.active
  listed hj := h'.listed (h.listed hj)
  shelf hsp hout hact := by
    have hsame := h.shelf hsp hout hact
    rw [← hsame] at hsp hout hact ⊢
    exact h'.shelf hsp hout hact
  place hj := h'.place (h.place hj)

/-! ## The active state -/

/-- The register is unchanged, or held the interrupt neither before nor after. -/
def SameFor (k : IntKey) (lr lr' : ListReg) : Prop := lr' = lr ∨ (¬ Holds k lr ∧ ¬ Holds k lr')

/-- What `gich_get_lr` finds depends on the record and on the register it names. -/
theorem gichGetLr_congr (hin : (s'.ints j).inLr = (s.ints j).inLr)
    (hown : (s'.ints j).owner = (s.ints j).owner) (hlr : (s'.ints j).lr = (s.ints j).lr)
    (hreg : (s.ints j).inLr = true → (s.ints j).owner = some v →
      SameFor j ((s.cpus v).lrs (s.ints j).lr) ((s'.cpus v).lrs (s.ints j).lr)) :
    gichGetLr P v j s' = gichGetLr P v j s := by
  unfold gichGetLr
  dsimp only
  rw [hin, hown, hlr]
  split
  · rename_i hrec
    simp only [Bool.and_eq_true, decide_eq_true_eq] at hrec
    obtain ⟨w, hw, hphys⟩ := Option.map_eq_some_iff.mp hrec.2
    rw [P.physId_inj hphys] at hw
    rcases hreg hrec.1 hw with hsame | ⟨hbefore, hafter⟩
    · rw [hsame]
    · exact (if_neg hafter).trans (if_neg hbefore).symm
  · rfl

theorem activeFor_eq (P : VgicPlat) (v : Nat) (j : IntKey) (s : VgicState) :
    activeFor P v j s =
      ((gichGetLr P v j s).elim (s.ints j).state.active fun held => held.2.state.active) := by
  unfold activeFor vgicGetState
  cases gichGetLr P v j s <;> dsimp only <;> split <;>
    simp [IntState.or, IntState.pend]

theorem activeFor_out (h : (s.ints j).inLr = false) :
    activeFor P v j s = (s.ints j).state.active := by
  rw [activeFor_eq, gichGetLr_out v j s h]
  rfl

theorem activeFor_congr (hstate : (s'.ints j).state = (s.ints j).state)
    (hin : (s'.ints j).inLr = (s.ints j).inLr)
    (hown : (s'.ints j).owner = (s.ints j).owner) (hlr : (s'.ints j).lr = (s.ints j).lr)
    (hreg : (s.ints j).inLr = true → (s.ints j).owner = some v →
      SameFor j ((s.cpus v).lrs (s.ints j).lr) ((s'.cpus v).lrs (s.ints j).lr)) :
    activeFor P v j s' = activeFor P v j s := by
  rw [activeFor_eq, activeFor_eq, gichGetLr_congr hin hown hlr hreg, hstate]

theorem Finds.unique (hj : Finds P v j) (hk : Finds P v k) (hid : j.id = k.id) : j = k := by
  unfold Finds at hj hk
  rw [hid, hk] at hj
  exact (Option.some.inj hj).symm

/-! ## Step by step -/

theorem Stays.same (hint : s'.ints j = s.ints j)
    (hreg : (s.ints j).inLr = true → (s.ints j).owner = some v →
      SameFor j ((s.cpus v).lrs (s.ints j).lr) ((s'.cpus v).lrs (s.ints j).lr))
    (hlisted : j ∈ spilledFor v s → j ∈ spilledFor v s') : Stays P v j s s' where
  active := activeFor_congr (by rw [hint]) (by rw [hint]) (by rw [hint]) (by rw [hint]) hreg
  listed := hlisted
  shelf _ _ _ := hint
  place hj := by
    rcases hj with hj | ⟨hin, hholds⟩
    · exact Or.inl (hlisted hj)
    · refine Or.inr ⟨by rw [hint]; exact hin, fun hpriv hown => ?_⟩
      rw [hint] at hown ⊢
      rcases hreg hin hown with hsame | ⟨hbefore, -⟩
      · rw [hsame]
        exact hholds hpriv hown
      · exact (hbefore (hholds hpriv hown)).elim

theorem spilledFor_pushSpilled (hj : j ∈ spilledFor v s) : j ∈ spilledFor v (pushSpilled v k s) := by
  unfold spilledFor at hj ⊢
  rw [Shelved.pushSpilled_own, Shelved.pushSpilled_vm]
  rcases List.mem_append.mp hj with hj | hj
  · refine List.mem_append_left _ ?_
    split
    · exact List.mem_append_left _ hj
    · exact hj
  · refine List.mem_append_right _ ?_
    split
    · exact hj
    · exact List.mem_append_left _ hj

theorem mem_spilledFor_pushSpilled (v : Nat) (k : IntKey) (s : VgicState) :
    k ∈ spilledFor v (pushSpilled v k s) := by
  unfold spilledFor
  rw [Shelved.pushSpilled_own, Shelved.pushSpilled_vm]
  by_cases hpriv : gicIsPriv k.id = true
  · rw [if_pos ⟨rfl, hpriv⟩]
    simp
  · rw [if_neg fun h => hpriv h.2, if_neg hpriv]
    simp

theorem spilledFor_setHcr (v : Nat) (hcr : Hcr) (s : VgicState) :
    spilledFor v (s.gichSetHcr v hcr) = spilledFor v s := by
  unfold spilledFor VgicState.gichSetHcr
  rw [VgicState.updCpu_cpus_same, VgicState.updCpu_spilled]

theorem Stays.addSpilled (v : Nat) (k j : IntKey) (s : VgicState) :
    Stays P v j s (vgicAddSpilled v k s) := by
  have hlrs := (vgicAddSpilled_lrs v k s v).1
  obtain ⟨b, hint⟩ := vgicAddSpilled_ints v k s j
  have hlisted : j ∈ spilledFor v s → j ∈ spilledFor v (vgicAddSpilled v k s) := by
    intro hj
    rcases vgicAddSpilled_cases v k s with hs | ⟨-, -, hcr, hs⟩
    · rw [hs]
      exact hj
    · rw [hs, spilledFor_setHcr]
      exact spilledFor_pushSpilled hj
  refine ⟨activeFor_congr ?_ ?_ ?_ ?_ fun _ _ => ?_, hlisted, fun hsp hout hact => ?_,
    fun hj => ?_⟩
  · rw [hint]
  · rw [hint]
  · rw [hint]
  · rw [hint]
  · exact Or.inl (by rw [hlrs])
  · rcases vgicAddSpilled_cases v k s with hs | ⟨-, hnew, -⟩
    · rw [hs]
    · refine vgicAddSpilled_ints_ne v k s fun hjk => ?_
      rw [← hjk, hsp] at hnew
      cases hnew
  · rcases hj with hj | ⟨hin, hholds⟩
    · exact Or.inl (hlisted hj)
    · refine Or.inr ⟨by rw [hint]; exact hin, ?_⟩
      rw [hint, hlrs]
      exact hholds

theorem addSpilled_listed (hout : (s.ints k).inLr = false) (hnew : (s.ints k).inSpilled = false) :
    k ∈ spilledFor v (vgicAddSpilled v k s) := by
  unfold vgicAddSpilled
  rw [hout, hnew, if_neg (by decide), spilledFor_setHcr]
  exact mem_spilledFor_pushSpilled v k s

theorem Stays.yield (v : Nat) (k j : IntKey) (s : VgicState) :
    Stays P v j s (vgicYieldOwnership P v k s) := by
  rcases vgicYieldOwnership_cases (P := P) v k s with hs | ⟨-, -, hout, hidle, hs⟩
  · rw [hs]
    exact .refl v j s
  · rw [hs]
    by_cases hjk : j = k
    · subst hjk
      have hout' : ((s.updInt j fun i => { i with owner := none }).ints j).inLr = false := by
        rw [VgicState.updInt_ints_same]
        exact hout
      refine ⟨?_, id, fun _ _ hact => ?_, fun hj => ?_⟩
      · rw [activeFor_out hout, activeFor_out hout', VgicState.updInt_ints_same]
      · have hidle' : activeFor P v j s = false := hidle
        rw [activeFor_out hout, hact] at hidle'
        cases hidle'
      · rcases hj with hj | ⟨hin, -⟩
        · exact Or.inl hj
        · rw [hout] at hin
          cases hin
    · exact .same (VgicState.updInt_ints_ne _ _ hjk) (fun _ _ => Or.inl rfl) id

theorem spilledFor_updInt (v : Nat) (k : IntKey) (f : VgicInt → VgicInt) (s : VgicState) :
    spilledFor v (s.updInt k f) = spilledFor v s := rfl

theorem spilledFor_removeLr (v : Nat) (k : IntKey) (s : VgicState) :
    spilledFor v (vgicRemoveLr P v k s) = spilledFor v s := by
  rcases vgicRemoveLr_cases (P := P) v k s with ⟨hs, -⟩ | ⟨-, -, -, hs⟩ | ⟨-, -, -, -, hs⟩ <;> rw [hs]
  · rfl
  · unfold takeLrState
    dsimp only
    rw [spilledFor_setHcr, spilledFor_updInt, spilledFor_updInt]
    unfold spilledFor VgicState.gichWriteLr
    rw [VgicState.updCpu_cpus_same, VgicState.updCpu_spilled]

theorem Stays.removeLr (hjk : j ≠ k) (hj : Finds P v j) (hk : Finds P v k) (s : VgicState) :
    Stays P v j s (vgicRemoveLr P v k s) := by
  have hlisted := spilledFor_removeLr (P := P) v k s
  rcases vgicRemoveLr_cases (P := P) v k s with ⟨hs, -⟩ | ⟨-, -, -, hs⟩ |
    ⟨-, -, hvid, hvalid, hs⟩
  · rw [hs]
    exact .refl v j s
  · rw [hs]
    exact .same (VgicState.updInt_ints_ne _ _ hjk) (fun _ _ => Or.inl rfl) id
  · rw [hs]
    refine .same ?_ (fun hin hown => ?_) fun hj' => ?_
    · rw [takeLrState_ints_ne _ _ _ _ hjk, VgicState.updInt_ints_ne _ _ hjk]
      rfl
    · have hlrs : (((takeLrState P v k ((s.cpus v).lrs (s.ints k).lr)
          ((s.gichWriteLr v (s.ints k).lr .zero).updInt k fun i =>
            { i with inLr := false })).cpus v).lrs) = atCpu (s.cpus v).lrs (s.ints k).lr .zero := by
        simp [takeLrState, VgicState.gichSetHcr, VgicState.gichWriteLr]
      rw [hlrs]
      by_cases hlr : (s.ints j).lr = (s.ints k).lr
      · refine Or.inr ⟨fun hholds => ?_, fun hholds => ?_⟩
        · rw [hlr] at hholds
          exact hjk (hj.unique hk (hholds.1.symm.trans hvid))
        · rw [hlr, atCpu_same] at hholds
          exact hholds.2 rfl
      · exact Or.inl (atCpu_other _ _ hlr)
    · rw [← hs, hlisted]
      exact hj'

theorem activeFor_removeLr (v : Nat) (k : IntKey) (s : VgicState) :
    activeFor P v k (vgicRemoveLr P v k s) = activeFor P v k s := by
  rcases vgicRemoveLr_cases (P := P) v k s with ⟨hs, -⟩ | ⟨hown, hin, hno, hs⟩ |
    ⟨hown, hin, hvid, hvalid, hs⟩
  · rw [hs]
  · have hnone : gichGetLr P v k s = none := by
      unfold gichGetLr
      dsimp only
      rw [if_neg hno, ite_self]
    rw [hs, activeFor_out (by rw [VgicState.updInt_ints_same]), VgicState.updInt_ints_same,
      activeFor_eq, hnone]
    rfl
  · have hsome : gichGetLr P v k s = some ((s.ints k).lr, (s.cpus v).lrs (s.ints k).lr) := by
      simp [gichGetLr, hown, hin, hvid, hvalid]
    have hout := vgicRemoveLr_out (P := P) v k s hown
    rw [activeFor_out hout, activeFor_eq, hsome, hs]
    simp [takeLrState, VgicState.gichSetHcr, IntState.or, IntState.onlyPend]

theorem vgicRemoveLr_inSpilled (v : Nat) (k : IntKey) (s : VgicState) :
    ((vgicRemoveLr P v k s).ints k).inSpilled = (s.ints k).inSpilled := by
  rcases vgicRemoveLr_cases (P := P) v k s with ⟨hs, -⟩ | ⟨-, -, -, hs⟩ | ⟨-, -, -, -, hs⟩ <;> rw [hs]
  · rw [VgicState.updInt_ints_same]
  · simp [takeLrState, VgicState.gichSetHcr, VgicState.gichWriteLr]

theorem vgicRemoveLr_same (hno : ¬ ((s.ints k).owner = some v ∧ (s.ints k).inLr = true)) :
    vgicRemoveLr P v k s = s := by
  rcases vgicRemoveLr_cases (P := P) v k s with ⟨hs, -⟩ | ⟨hown, hin, -⟩ | ⟨hown, hin, -⟩
  · exact hs
  · exact (hno ⟨hown, hin⟩).elim
  · exact (hno ⟨hown, hin⟩).elim

/-- **A spilled interrupt** keeps what it has, and gets a place on the list for the
register it leaves. -/
theorem Stays.spillInt (hj : Finds P v j) (hk : Finds P v k)
    (hflag : (s.ints k).inLr = true → (s.ints k).inSpilled = false) :
    Stays P v j s (spillInt P v k s) := by
  unfold Bao.spillInt
  have hadd := Stays.addSpilled (P := P) v k j (vgicRemoveLr P v k s)
  have hyield := Stays.yield (P := P) v k j (vgicAddSpilled v k (vgicRemoveLr P v k s))
  by_cases hjk : j = k
  · subst hjk
    by_cases hrec : (s.ints j).owner = some v ∧ (s.ints j).inLr = true
    · have hrest := hadd.trans hyield
      have hsp := vgicRemoveLr_inSpilled (P := P) v j s
      have hout := vgicRemoveLr_out (P := P) v j s hrec.1
      refine ⟨hrest.active.trans (activeFor_removeLr v j s), fun hin => ?_, fun _ hno => ?_,
        fun _ => Or.inl ?_⟩
      · rw [← spilledFor_removeLr (P := P) v j s] at hin
        exact hrest.listed hin
      · rw [hrec.2] at hno
        cases hno
      · exact hyield.listed (addSpilled_listed hout (hsp.trans (hflag hrec.2)))
    · have hsame := vgicRemoveLr_same (P := P) hrec
      rw [hsame] at hadd hyield ⊢
      exact hadd.trans hyield
  · exact (Stays.removeLr hjk hj hk s).trans (hadd.trans hyield)

/-- No interrupt that the vCPU finds is recorded in the register as its content. -/
def Vacant (P : VgicPlat) (v lrInd : Nat) (s : VgicState) : Prop :=
  ∀ j, Finds P v j → (s.ints j).owner = some v → (s.ints j).inLr = true →
    (s.ints j).lr = lrInd → ¬ Holds j ((s.cpus v).lrs lrInd)

theorem Stays.release (hj : Finds P v j) (hvacant : Vacant P v lrInd s) :
    Stays P v j s (releaseOccupant P v k lrInd s) := by
  rcases releaseOccupant_cases (P := P) v k lrInd s with hs | ⟨x, -, -, hpriv, hown, hin, hlr, hs⟩
  · rw [hs]
    exact .refl v j s
  · rw [hs]
    have hyield := Stays.yield (P := P) v x j (s.updInt x fun i => { i with inLr := false })
    refine Stays.trans ?_ hyield
    by_cases hjx : j = x
    · subst hjx
      have hno : ¬ Holds j ((s.cpus v).lrs (s.ints j).lr) := by
        rw [hlr]
        exact hvacant j hj hown hin hlr
      refine ⟨?_, id, fun _ hout => ?_, fun hplace => ?_⟩
      · have hnone : gichGetLr P v j s = none := by
          unfold gichGetLr
          dsimp only
          split
          · exact if_neg hno
          · rfl
        rw [activeFor_out (by rw [VgicState.updInt_ints_same]), VgicState.updInt_ints_same,
          activeFor_eq, hnone]
        rfl
      · rw [hin] at hout
        cases hout
      · rcases hplace with hlisted | ⟨-, hholds⟩
        · exact Or.inl hlisted
        · exact (hno (hholds hpriv hown)).elim
    · exact .same (VgicState.updInt_ints_ne _ _ hjx) (fun _ _ => Or.inl rfl) id

theorem releaseOccupant_recorded
    (hin : ((releaseOccupant P v k lrInd s).ints j).inLr = true) :
    (releaseOccupant P v k lrInd s).ints j = s.ints j := by
  rcases releaseOccupant_cases (P := P) v k lrInd s with hs | ⟨x, -, -, -, -, -, -, hs⟩
  · rw [hs]
  · rw [hs] at hin ⊢
    by_cases hjx : j = x
    · subst hjx
      obtain ⟨owner, hyield⟩ := vgicYieldOwnership_ints (P := P) v j
        (s.updInt j fun i => { i with inLr := false }) j
      rw [hyield, VgicState.updInt_ints_same] at hin
      cases hin
    · rw [vgicYieldOwnership_ints_ne _ _ _ hjx, VgicState.updInt_ints_ne _ _ hjx]

theorem spilledFor_fillLr (v : Nat) (k : IntKey) (lrInd : Nat) (s : VgicState) :
    spilledFor v (fillLr P v k lrInd s) = spilledFor v s := by
  unfold spilledFor
  rw [fillLr_cpu]
  rfl

/-- **Writing a vacant register** leaves every other interrupt what it has. -/
theorem Stays.writeLr (hjk : j ≠ k) (hj : Finds P v j) (hk : Finds P v k)
    (hvacant : Vacant P v lrInd s) : Stays P v j s (vgicWriteLr P v k lrInd s) := by
  have hrel : Stays P v j s (releaseOccupant P v k lrInd s) := .release hj hvacant
  refine hrel.trans (.same ?_ (fun hin hown => ?_) fun hlisted => ?_)
  · exact fillLr_ints_ne _ _ _ _ hjk
  · have hsame := releaseOccupant_recorded hin
    rw [vgicWriteLr, fillLr_cpu]
    dsimp only
    by_cases hlr : ((releaseOccupant P v k lrInd s).ints j).lr = lrInd
    · refine Or.inr ⟨fun hholds => ?_, fun hholds => ?_⟩
      · rw [hlr, releaseOccupant_cpus] at hholds
        rw [hsame] at hown hin hlr
        exact hvacant j hj hown hin hlr hholds
      · rw [hlr, atCpu_same] at hholds
        have hvid := hholds.1
        rw [Lodged.newLr_vid] at hvid
        exact hjk (hj.unique hk hvid.symm)
    · exact Or.inl (atCpu_other _ _ hlr)
  · rw [vgicWriteLr, spilledFor_fillLr]
    exact hlisted

theorem Stays.removeSpilled (hjk : j ≠ k) (v : Nat) (s : VgicState) :
    Stays P v j s (vgicRemoveSpilled v k s) := by
  have hlrs := (vgicRemoveSpilled_lrs v k s v).1
  refine .same (vgicRemoveSpilled_ints_ne v k s hjk) (fun _ _ => Or.inl (by rw [hlrs])) fun hj => ?_
  have hown := Shelved.rmSpilled_own v k s v
  have hvm := Shelved.rmSpilled_vm v k s
  unfold spilledFor at hj ⊢
  rw [vgicRemoveSpilled, VgicState.updInt_cpus, VgicState.updInt_spilled, hown, hvm]
  rcases List.mem_append.mp hj with hj | hj
  · refine List.mem_append_left _ ?_
    split
    · exact (List.mem_erase_of_ne hjk).mpr hj
    · exact hj
  · refine List.mem_append_right _ ?_
    split
    · exact hj
    · exact (List.mem_erase_of_ne hjk).mpr hj

theorem Stays.placeInLr (hjk : j ≠ k) (hj : Finds P v j) (hk : Finds P v k)
    (hvacant : Vacant P v lrInd s) : Stays P v j s (placeInLr P v k lrInd s) := by
  unfold Bao.placeInLr
  split
  · refine (Stays.removeSpilled hjk v s).trans (.writeLr hjk hj hk fun i hi hown hin hlr => ?_)
    rw [(vgicRemoveSpilled_lrs v k s v).1]
    by_cases hik : i = k
    · subst hik
      rw [vgicRemoveSpilled_int] at hown hin hlr
      exact hvacant i hi hown hin hlr
    · rw [vgicRemoveSpilled_ints_ne _ _ _ hik] at hown hin hlr
      exact hvacant i hi hown hin hlr
  · exact .writeLr hjk hj hk hvacant

theorem Vacant.empty (hinv : ((s.cpus v).lrs lrInd).state = .inv) : Vacant P v lrInd s :=
  fun _ _ _ _ _ hholds => hholds.2 hinv

theorem Vacant.spillLr (P : VgicPlat) (v lrInd : Nat) (s : VgicState) :
    Vacant P v lrInd (vgicSpillLr P v lrInd s) := by
  intro j hj hown hin hlr hholds
  unfold vgicSpillLr at hown hin hlr hholds
  cases hx : vgicGetInt P ((s.cpus v).lrs lrInd).vid v with
  | none =>
    rw [hx] at hholds
    unfold Finds at hj
    rw [← hholds.1, hx] at hj
    cases hj
  | some x =>
    rw [hx] at hown hin hlr hholds
    dsimp only at hown hin hlr hholds
    rcases spillInt_lrs (P := P) v x s v lrInd with hsame | hzero
    · have hjx : j = x := by
        unfold Finds at hj
        rw [← hholds.1, hsame, hx] at hj
        exact (Option.some.inj hj).symm
      subst hjx
      exact spillInt_unrecorded v j s lrInd ⟨hown, hin, hlr⟩
    · rw [hzero] at hholds
      exact hholds.2 rfl

/-- **Making room** leaves every interrupt what it has. -/
theorem Stays.spillLr (hj : Finds P v j)
    (hflag : ∀ x, (s.ints x).inLr = true → (s.ints x).inSpilled = false) (lrInd : Nat) :
    Stays P v j s (vgicSpillLr P v lrInd s) := by
  unfold vgicSpillLr
  cases hx : vgicGetInt P ((s.cpus v).lrs lrInd).vid v with
  | none => exact .refl v j s
  | some x =>
    have hxv : Finds P v x := by
      unfold Finds
      rw [vgicGetInt_id hx]
      exact hx
    exact .spillInt hj hxv (hflag x)

/-- **Putting an interrupt into a list register** leaves every other one what it has. -/
theorem Stays.addLr (hjk : j ≠ k) (hj : Finds P v j) (hk : Finds P v k)
    (hflag : ∀ x, (s.ints x).inLr = true → (s.ints x).inSpilled = false) :
    Stays P v j s (vgicAddLr P v k s) := by
  unfold vgicAddLr
  split
  · exact .refl v j s
  · cases hfirst : firstLr P v elrsr s with
    | some lrInd => exact .placeInLr hjk hj hk (.empty (elrsr_inv (firstLr_some hfirst).2))
    | none =>
      cases victimLr P v k s with
      | some lrInd =>
        exact (Stays.spillLr hj hflag lrInd).trans (.placeInLr hjk hj hk (.spillLr P v lrInd s))
      | none => exact .addSpilled v k j s

/-! ## The interrupt itself -/

theorem newLr_active (v : Nat) (k : IntKey) (s : VgicState) :
    (newLr v k s (P := P)).state.active = activeFor P v k s := by
  unfold newLr lrValue activeFor
  dsimp only
  split
  · dsimp only
    split
    · rename_i hboth
      rw [hboth]
      rfl
    · rfl
  · split
    · cases hact : (vgicGetState P v k s).active with
      | true => rfl
      | false =>
        rw [if_neg Bool.false_ne_true]
        split <;> rfl
    · dsimp only
      split <;> rfl

theorem newLr_valid (hhw : vgicIntIsHw P k = false) (hsgi : isV2Sgi P k = false)
    (henabled : (s.ints k).enabled = true) (hpend : (vgicGetState P v k s).pending = true) :
    (newLr v k s (P := P)).state ≠ .inv := by
  unfold newLr lrValue
  dsimp only
  rw [hhw, hsgi, henabled]
  change vgicGetState P v k s ≠ .inv
  intro hinv
  rw [hinv] at hpend
  cases hpend

/-- **An inactive interrupt that is put into a register** is still inactive. -/
theorem writeLr_idle (hout : (s.ints k).inLr = false) (hidle : (s.ints k).state.active = false) :
    activeFor P v k (vgicWriteLr P v k lrInd s) = false := by
  have hrel := releaseOccupant_ints (P := P) v k lrInd s
  have hidle' : activeFor P v k (releaseOccupant P v k lrInd s) = false := by
    rw [activeFor_out (by rw [hrel]; exact hout), hrel]
    exact hidle
  rw [activeFor_eq]
  cases hheld : gichGetLr P v k (vgicWriteLr P v k lrInd s) with
  | none =>
    rw [vgicWriteLr, fillLr_int]
    dsimp only [Option.elim_none]
    split <;> rfl
  | some held =>
    obtain ⟨-, -, hlr, hreg, -⟩ := gichGetLr_some v k _ hheld
    rw [vgicWriteLr, fillLr_int] at hlr
    rw [vgicWriteLr, fillLr_cpu, ← hlr] at hreg
    dsimp only at hreg
    rw [atCpu_same] at hreg
    dsimp only [Option.elim_some]
    rw [← hreg, newLr_active]
    exact hidle'

/-- The interrupt is recorded in a register that has its id. -/
def InRegister (v : Nat) (k : IntKey) (s : VgicState) : Prop :=
  (s.ints k).inLr = true ∧ ((s.cpus v).lrs (s.ints k).lr).vid = k.id

theorem writeLr_inRegister (v : Nat) (k : IntKey) (lrInd : Nat) (s : VgicState) :
    InRegister v k (vgicWriteLr P v k lrInd s) := by
  unfold InRegister
  rw [vgicWriteLr, fillLr_int, fillLr_cpu]
  dsimp only
  rw [atCpu_same]
  exact ⟨rfl, Lodged.newLr_vid v k _⟩

/-- **A pending interrupt that is put into a register** has its place there. -/
theorem writeLr_place (hhw : vgicIntIsHw P k = false) (hout : (s.ints k).inLr = false)
    (henabled : (s.ints k).enabled = true) (hpend : (s.ints k).state.pending = true) :
    HasPlace v k (vgicWriteLr P v k lrInd s) := by
  obtain ⟨hin, hvid⟩ := writeLr_inRegister (P := P) v k lrInd s
  refine Or.inr ⟨hin, fun hpriv _ => ⟨hvid, ?_⟩⟩
  have hrel := releaseOccupant_ints (P := P) v k lrInd s
  have hsgi : isV2Sgi P k = false := by
    unfold isV2Sgi
    have hnot : gicIsSgi k.id = false := by
      unfold gicIsPriv gicCpuPriv at hpriv
      unfold gicIsSgi gicMaxSgis
      simp only [decide_eq_false_iff_not, Nat.not_lt] at hpriv ⊢
      omega
    rw [hnot, Bool.and_false]
  rw [vgicWriteLr, fillLr_int, fillLr_cpu]
  dsimp only
  rw [atCpu_same]
  refine newLr_valid hhw hsgi (by rw [hrel]; exact henabled) ?_
  unfold vgicGetState
  rw [gichGetLr_out v k _ (by rw [hrel]; exact hout), hrel, hsgi]
  exact hpend

/-- What becomes of an inactive interrupt that `vgic_add_lr` is called for. -/
structure Readded (P : VgicPlat) (v : Nat) (k : IntKey) (s' : VgicState) : Prop where
  idle : activeFor P v k s' = false
  seen : k ∈ spilledFor v s' ∨ InRegister v k s'
  place : HasPlace v k s'

theorem Readded.placeInLr (hhw : vgicIntIsHw P k = false) (hout : (s.ints k).inLr = false)
    (hidle : (s.ints k).state.active = false) (henabled : (s.ints k).enabled = true)
    (hpend : (s.ints k).state.pending = true) : Readded P v k (placeInLr P v k lrInd s) := by
  have hwrite : ∀ t : VgicState, (∃ b, t.ints k = { s.ints k with inSpilled := b }) →
      Readded P v k (vgicWriteLr P v k lrInd t) := by
    intro t ht
    obtain ⟨b, hb⟩ := ht
    refine ⟨writeLr_idle ?_ ?_, Or.inr (writeLr_inRegister v k lrInd t),
      writeLr_place hhw ?_ ?_ ?_⟩
    all_goals rw [hb]; assumption
  unfold Bao.placeInLr
  split
  · exact hwrite _ ⟨false, vgicRemoveSpilled_int v k s⟩
  · exact hwrite s ⟨_, rfl⟩

/-- **`vgic_add_lr` of a pending interrupt** that is inactive and nowhere. -/
theorem Readded.addLr (hhw : vgicIntIsHw P k = false) (hout : (s.ints k).inLr = false)
    (hnew : (s.ints k).inSpilled = false) (hidle : (s.ints k).state.active = false)
    (henabled : (s.ints k).enabled = true) (hpend : (s.ints k).state.pending = true) :
    Readded P v k (vgicAddLr P v k s) := by
  unfold vgicAddLr
  rw [henabled, hout, if_neg (by simp)]
  cases firstLr P v elrsr s with
  | some lrInd => exact .placeInLr hhw hout hidle henabled hpend
  | none =>
    cases victimLr P v k s with
    | none =>
      have hlisted : k ∈ spilledFor v (vgicAddSpilled v k s) := addSpilled_listed hout hnew
      refine ⟨?_, Or.inl hlisted, Or.inl hlisted⟩
      dsimp only
      rw [(Stays.addSpilled (P := P) v k k s).active, activeFor_out hout]
      exact hidle
    | some lrInd =>
      dsimp only
      obtain ⟨hout', henabled', hstate⟩ : ((vgicSpillLr P v lrInd s).ints k).inLr = false ∧
          ((vgicSpillLr P v lrInd s).ints k).enabled = (s.ints k).enabled ∧
          ((vgicSpillLr P v lrInd s).ints k).state = (s.ints k).state := by
        unfold vgicSpillLr
        cases vgicGetInt P ((s.cpus v).lrs lrInd).vid v with
        | none => exact ⟨hout, rfl, rfl⟩
        | some x =>
          dsimp only
          by_cases hkx : k = x
          · subst hkx
            exact (spillInt_of_out (P := P) v k s hout).2
          · rw [spillInt_ints_ne _ _ _ hkx]
            exact ⟨hout, rfl, rfl⟩
      refine .placeInLr hhw hout' ?_ ?_ ?_
      · rw [hstate]
        exact hidle
      · rw [henabled']
        exact henabled
      · rw [hstate]
        exact hpend

/-! ## Interrupts of other vCPUs -/

/-- The interrupt that leaves its list register for `k`. -/
def displacedBy (P : VgicPlat) (v : Nat) (k : IntKey) (s : VgicState) : Option IntKey :=
  match firstLr P v elrsr s, victimLr P v k s with
  | none, some lrInd => vgicGetInt P ((s.cpus v).lrs lrInd).vid v
  | _, _ => none

/-- The interrupt is in no list register and on no list. -/
def strays (s : VgicState) (k : IntKey) : Bool :=
  !(s.ints k).inLr && !(s.ints k).inSpilled

theorem release_foreign (hown : (s.ints j).owner ≠ some v) :
    (releaseOccupant P v k lrInd s).ints j = s.ints j := by
  rcases releaseOccupant_cases (P := P) v k lrInd s with hs | ⟨x, -, -, -, hx, -, -, hs⟩
  · rw [hs]
  · have hjx : j ≠ x := by
      intro heq
      rw [heq] at hown
      exact hown hx
    rw [hs, vgicYieldOwnership_ints_ne _ _ _ hjx, VgicState.updInt_ints_ne _ _ hjx]

theorem writeLr_foreign (hjk : j ≠ k) (hown : (s.ints j).owner ≠ some v) :
    (vgicWriteLr P v k lrInd s).ints j = s.ints j := by
  rw [vgicWriteLr, fillLr_ints_ne _ _ _ _ hjk, release_foreign hown]

theorem placeInLr_foreign (hjk : j ≠ k) (hown : (s.ints j).owner ≠ some v) :
    (placeInLr P v k lrInd s).ints j = s.ints j := by
  unfold placeInLr
  split
  · have hsame := vgicRemoveSpilled_ints_ne v k s hjk
    rw [writeLr_foreign hjk (by rw [hsame]; exact hown), hsame]
  · exact writeLr_foreign hjk hown

theorem spillInt_foreign (hown : (s.ints k).owner ≠ some v) :
    (spillInt P v k s).ints k =
      if strays s k then { s.ints k with inSpilled := true } else s.ints k := by
  have hremove : vgicRemoveLr P v k s = s := vgicRemoveLr_same fun hrec => hown hrec.1
  obtain ⟨b, hadd⟩ := vgicAddSpilled_ints v k s k
  have hyield : (vgicYieldOwnership P v k (vgicAddSpilled v k s)).ints k =
      (vgicAddSpilled v k s).ints k := by
    rcases vgicYieldOwnership_cases (P := P) v k (vgicAddSpilled v k s) with hs | ⟨-, hmine, -⟩
    · rw [hs]
    · rw [hadd] at hmine
      exact (hown hmine).elim
  unfold spillInt strays
  rw [hremove, hyield]
  unfold vgicAddSpilled
  cases hin : (s.ints k).inLr <;> cases hsp : (s.ints k).inSpilled <;>
    simp [VgicState.gichSetHcr]

/-- **Another vCPU's interrupt** is only touched if a list register of this vCPU still
names it although it is nowhere. -/
theorem addLr_foreign (hown : (s.ints j).owner ≠ some v) (hmine : (s.ints k).owner = some v)
    (hcalled : ((!(s.ints k).enabled && !(s.ints k).state.active) || (s.ints k).inLr) = false) :
    (vgicAddLr P v k s).ints j =
      if displacedBy P v k s = some j ∧ strays s j = true then
        { s.ints j with inSpilled := true }
      else s.ints j := by
  have hjk : j ≠ k := by
    intro heq
    rw [heq] at hown
    exact hown hmine
  unfold vgicAddLr displacedBy
  rw [hcalled, if_neg Bool.false_ne_true]
  cases firstLr P v elrsr s with
  | some lrInd =>
    dsimp only
    rw [if_neg (fun h => nomatch h.1)]
    exact placeInLr_foreign hjk hown
  | none =>
    cases victimLr P v k s with
    | none =>
      dsimp only
      rw [if_neg (fun h => nomatch h.1)]
      exact vgicAddSpilled_ints_ne v k s hjk
    | some lrInd =>
      dsimp only
      unfold vgicSpillLr
      rcases Option.eq_none_or_eq_some (vgicGetInt P ((s.cpus v).lrs lrInd).vid v) with
        hx | ⟨x, hx⟩ <;> simp only [hx]
      · rw [if_neg (fun h => nomatch h.1)]
        exact placeInLr_foreign hjk hown
      · by_cases hjx : j = x
        · subst hjx
          have hspill := spillInt_foreign (P := P) hown
          rw [placeInLr_foreign hjk, hspill]
          · simp only [true_and]
          · rw [hspill]
            split <;> exact hown
        · have hspill := spillInt_ints_ne (P := P) v x s hjx
          rw [placeInLr_foreign hjk (by rw [hspill]; exact hown), hspill,
            if_neg (fun h => hjx (Option.some.inj h.1).symm)]

end Bao

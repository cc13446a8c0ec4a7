import BaoHypervisor.VgicSystem

/-!
# The vGIC's functions case by case

What `vgic_get_ownership`, `vgic_yield_ownership`, `vgic_add_spilled`,
`vgic_remove_lr`, `vgic_spill_lr` and `vgic_write_lr` can do, what each leaves
alone, and what the searches for a list register find.  Later modules use
these lemmas and do not unfold the functions again.
-/

namespace Bao

variable (P : VgicPlat)

/-! ## The functions case by case -/

section Cases

variable {P}
variable (v : Nat) (k : IntKey) (s : VgicState)

theorem vgicGetOwnership_cases :
    ((s.ints k).owner = some v ∧ vgicGetOwnership v k s = (true, s)) ∨
    ((s.ints k).owner = none ∧
      vgicGetOwnership v k s = (true, s.updInt k fun i => { i with owner := some v })) ∨
    ((∃ w, w ≠ v ∧ (s.ints k).owner = some w) ∧ vgicGetOwnership v k s = (false, s)) := by
  unfold vgicGetOwnership
  cases hown : (s.ints k).owner with
  | none => exact Or.inr (Or.inl ⟨rfl, by simp⟩)
  | some w =>
    by_cases hw : w = v
    · exact Or.inl ⟨by rw [hw], by simp [hw]⟩
    · exact Or.inr (Or.inr ⟨⟨w, hw, rfl⟩, by simp [hw]⟩)

theorem vgicYieldOwnership_cases :
    vgicYieldOwnership P v k s = s ∨
    (gicIsPriv k.id = false ∧ (s.ints k).owner = some v ∧ (s.ints k).inLr = false ∧
      (vgicGetState P v k s).active = false ∧
      vgicYieldOwnership P v k s = s.updInt k fun i => { i with owner := none }) := by
  unfold vgicYieldOwnership
  split
  · exact Or.inl rfl
  · rename_i h
    simp only [Bool.or_eq_true, Bool.not_eq_true', not_or, Bool.not_eq_true, Bool.not_eq_false,
      vgicOwns, decide_eq_true_eq] at h
    exact Or.inr ⟨h.1.1.1, h.1.1.2, h.1.2, h.2, rfl⟩

theorem vgicAddSpilled_cases :
    vgicAddSpilled v k s = s ∨
    ((s.ints k).inLr = false ∧ (s.ints k).inSpilled = false ∧
      ∃ hcr, vgicAddSpilled v k s =
        ((pushSpilled v k s).updInt k fun i => { i with inSpilled := true }).gichSetHcr v hcr) := by
  unfold vgicAddSpilled
  split
  · exact Or.inl rfl
  · rename_i h
    simp only [Bool.or_eq_true, not_or, Bool.not_eq_true] at h
    exact Or.inr ⟨h.1, h.2, _, rfl⟩

/-- A list register that `gich_get_lr` finds is valid and holds the
interrupt. -/
theorem gichGetLr_some {lrInd : Nat} {lr : ListReg} (h : gichGetLr P v k s = some (lrInd, lr)) :
    (s.ints k).inLr = true ∧ (s.ints k).owner = some v ∧ (s.ints k).lr = lrInd ∧
      (s.cpus v).lrs lrInd = lr ∧ lr.vid = k.id ∧ lr.state ≠ .inv := by
  unfold gichGetLr at h
  dsimp only at h
  split at h
  · rename_i hin
    simp only [Bool.and_eq_true, decide_eq_true_eq] at hin
    split at h
    · rename_i hvalid
      cases h
      obtain ⟨w, hw, hphys⟩ := Option.map_eq_some_iff.mp hin.2
      rw [P.physId_inj hphys] at hw
      exact ⟨hin.1, hw, rfl, rfl, hvalid.1, hvalid.2⟩
    · cases h
  · cases h

theorem gichGetLr_out (h : (s.ints k).inLr = false) : gichGetLr P v k s = none := by
  simp [gichGetLr, h]

theorem vgicRemoveLr_cases :
    (vgicRemoveLr P v k s = s ∧ ¬ ((s.ints k).owner = some v ∧ (s.ints k).inLr = true)) ∨
    ((s.ints k).owner = some v ∧ (s.ints k).inLr = true ∧
      ¬ (((s.cpus v).lrs (s.ints k).lr).vid = k.id ∧
        ((s.cpus v).lrs (s.ints k).lr).state ≠ .inv) ∧
      vgicRemoveLr P v k s = s.updInt k fun i => { i with inLr := false }) ∨
    ((s.ints k).owner = some v ∧ (s.ints k).inLr = true ∧
      ((s.cpus v).lrs (s.ints k).lr).vid = k.id ∧
      ((s.cpus v).lrs (s.ints k).lr).state ≠ .inv ∧
      vgicRemoveLr P v k s =
        takeLrState P v k ((s.cpus v).lrs (s.ints k).lr)
          ((s.gichWriteLr v (s.ints k).lr .zero).updInt k fun i => { i with inLr := false })) := by
  by_cases hrec : (s.ints k).owner = some v ∧ (s.ints k).inLr = true
  · by_cases hlr : ((s.cpus v).lrs (s.ints k).lr).vid = k.id ∧
        ((s.cpus v).lrs (s.ints k).lr).state ≠ .inv
    · refine Or.inr (Or.inr ⟨hrec.1, hrec.2, hlr.1, hlr.2, ?_⟩)
      simp [vgicRemoveLr, vgicOwns, gichGetLr, hrec.1, hrec.2, hlr.1, hlr.2]
    · refine Or.inr (Or.inl ⟨hrec.1, hrec.2, hlr, ?_⟩)
      simp [vgicRemoveLr, vgicOwns, gichGetLr, hrec.1, hrec.2, hlr]
  · refine Or.inl ⟨?_, hrec⟩
    unfold vgicRemoveLr
    rw [if_pos]
    simp only [vgicOwns, Bool.or_eq_true, Bool.not_eq_true', decide_eq_false_iff_not]
    by_cases hown : (s.ints k).owner = some v
    · exact Or.inr (Bool.eq_false_iff.mpr fun hin => hrec ⟨hown, hin⟩)
    · exact Or.inl hown

end Cases

/-! ## What the functions leave alone -/

section Frames

variable {P}
variable (v : Nat) (k : IntKey) (s : VgicState)

theorem vgicGetOwnership_owner {v : Nat} {k : IntKey} {s : VgicState}
    (hgot : (vgicGetOwnership v k s).1 = true) :
    ((vgicGetOwnership v k s).2.ints k).owner = some v := by
  rcases vgicGetOwnership_cases v k s with ⟨hown, h⟩ | ⟨-, h⟩ | ⟨-, h⟩
  · rw [h]
    exact hown
  · rw [h, VgicState.updInt_ints_same]
  · rw [h] at hgot
    cases hgot

theorem vgicGetOwnership_failed {v : Nat} {k : IntKey} {s : VgicState}
    (hgot : (vgicGetOwnership v k s).1 = false) : (vgicGetOwnership v k s).2 = s := by
  rcases vgicGetOwnership_cases v k s with ⟨-, h⟩ | ⟨-, h⟩ | ⟨-, h⟩
  · rw [h]
  · rw [h] at hgot
    cases hgot
  · rw [h]

theorem vgicGetOwnership_ints (v : Nat) (k k' : IntKey) (s : VgicState) :
    ∃ owner, (vgicGetOwnership v k s).2.ints k' = { s.ints k' with owner := owner } := by
  rcases vgicGetOwnership_cases v k s with ⟨-, h⟩ | ⟨-, h⟩ | ⟨-, h⟩
  · exact ⟨(s.ints k').owner, by rw [h]⟩
  · rw [h]
    by_cases hk : k' = k
    · subst hk
      exact ⟨some v, by rw [VgicState.updInt_ints_same]⟩
    · exact ⟨(s.ints k').owner, by rw [VgicState.updInt_ints_ne s _ hk]⟩
  · exact ⟨(s.ints k').owner, by rw [h]⟩

@[simp] theorem vgicGetOwnership_cpus (v : Nat) (k : IntKey) (s : VgicState) :
    (vgicGetOwnership v k s).2.cpus = s.cpus := by
  rcases vgicGetOwnership_cases v k s with ⟨-, h⟩ | ⟨-, h⟩ | ⟨-, h⟩ <;> rw [h]
  rfl

@[simp] theorem pushSpilled_ints : (pushSpilled v k s).ints = s.ints := by
  unfold pushSpilled
  split <;> rfl

@[simp] theorem rmSpilled_ints : (rmSpilled v k s).ints = s.ints := by
  unfold rmSpilled
  split <;> rfl

@[simp] theorem vgicYieldOwnership_cpus : (vgicYieldOwnership P v k s).cpus = s.cpus := by
  unfold vgicYieldOwnership
  split <;> rfl

theorem vgicYieldOwnership_ints (k' : IntKey) :
    ∃ owner, (vgicYieldOwnership P v k s).ints k' = { s.ints k' with owner := owner } := by
  rcases vgicYieldOwnership_cases (P := P) v k s with h | ⟨-, -, -, -, h⟩
  · exact ⟨(s.ints k').owner, by rw [h]⟩
  · rw [h]
    by_cases hk : k' = k
    · subst hk
      exact ⟨none, by rw [VgicState.updInt_ints_same]⟩
    · exact ⟨(s.ints k').owner, by rw [VgicState.updInt_ints_ne s _ hk]⟩

theorem vgicYieldOwnership_ints_ne {k' : IntKey} (hk : k' ≠ k) :
    (vgicYieldOwnership P v k s).ints k' = s.ints k' := by
  rcases vgicYieldOwnership_cases (P := P) v k s with h | ⟨-, -, -, -, h⟩
  · rw [h]
  · rw [h, VgicState.updInt_ints_ne s _ hk]

theorem vgicAddSpilled_ints (k' : IntKey) :
    ∃ inSpilled, (vgicAddSpilled v k s).ints k' = { s.ints k' with inSpilled := inSpilled } := by
  rcases vgicAddSpilled_cases v k s with h | ⟨-, -, hcr, h⟩
  · exact ⟨(s.ints k').inSpilled, by rw [h]⟩
  · rw [h]
    by_cases hk : k' = k
    · subst hk
      exact ⟨true, by simp [VgicState.gichSetHcr]⟩
    · refine ⟨(s.ints k').inSpilled, ?_⟩
      simp [VgicState.gichSetHcr, VgicState.updInt_ints_ne _ _ hk]

theorem vgicAddSpilled_ints_ne {k' : IntKey} (hk : k' ≠ k) :
    (vgicAddSpilled v k s).ints k' = s.ints k' := by
  rcases vgicAddSpilled_cases v k s with h | ⟨-, -, hcr, h⟩
  · rw [h]
  · rw [h]
    simp [VgicState.gichSetHcr, VgicState.updInt_ints_ne _ _ hk]

theorem pushSpilled_lrs (w : Nat) :
    ((pushSpilled v k s).cpus w).lrs = (s.cpus w).lrs ∧
      ((pushSpilled v k s).cpus w).currLrs = (s.cpus w).currLrs ∧
      ((pushSpilled v k s).cpus w).pc = (s.cpus w).pc := by
  unfold pushSpilled
  split
  · by_cases hw : w = v
    · subst hw
      simp
    · rw [VgicState.updCpu_cpus_ne _ _ hw]
      exact ⟨rfl, rfl, rfl⟩
  · exact ⟨rfl, rfl, rfl⟩

theorem vgicAddSpilled_lrs (w : Nat) :
    ((vgicAddSpilled v k s).cpus w).lrs = (s.cpus w).lrs ∧
      ((vgicAddSpilled v k s).cpus w).currLrs = (s.cpus w).currLrs ∧
      ((vgicAddSpilled v k s).cpus w).pc = (s.cpus w).pc := by
  rcases vgicAddSpilled_cases v k s with h | ⟨-, -, hcr, h⟩
  · rw [h]
    exact ⟨rfl, rfl, rfl⟩
  · rw [h]
    have hpush := pushSpilled_lrs v k s w
    by_cases hw : w = v
    · subst hw
      simpa [VgicState.gichSetHcr] using hpush
    · rw [VgicState.gichSetHcr, VgicState.updCpu_cpus_ne _ _ hw]
      exact hpush

theorem takeLrState_ints_ne (lr : ListReg) {k' : IntKey} (hk : k' ≠ k) :
    (takeLrState P v k lr s).ints k' = s.ints k' := by
  simp [takeLrState, VgicState.gichSetHcr, VgicState.updInt_ints_ne _ _ hk]

theorem vgicRemoveLr_ints_ne {k' : IntKey} (hk : k' ≠ k) :
    (vgicRemoveLr P v k s).ints k' = s.ints k' := by
  rcases vgicRemoveLr_cases (P := P) v k s with ⟨h, -⟩ | ⟨-, -, -, h⟩ | ⟨-, -, -, -, h⟩
  · rw [h]
  · rw [h, VgicState.updInt_ints_ne s _ hk]
  · rw [h, takeLrState_ints_ne _ _ _ _ hk, VgicState.updInt_ints_ne _ _ hk]
    rfl

theorem vgicRemoveLr_out (hown : (s.ints k).owner = some v) :
    ((vgicRemoveLr P v k s).ints k).inLr = false := by
  rcases vgicRemoveLr_cases (P := P) v k s with ⟨h, hno⟩ | ⟨-, -, -, h⟩ | ⟨-, -, -, -, h⟩
  · rw [h]
    exact Bool.eq_false_iff.mpr fun hin => hno ⟨hown, hin⟩
  · rw [h, VgicState.updInt_ints_same]
  · rw [h]
    simp [takeLrState, VgicState.gichSetHcr]

theorem vgicRemoveLr_owner (k' : IntKey) :
    ((vgicRemoveLr P v k s).ints k').owner = (s.ints k').owner := by
  by_cases hk : k' = k
  · subst hk
    rcases vgicRemoveLr_cases (P := P) v k' s with ⟨h, -⟩ | ⟨-, -, -, h⟩ | ⟨-, -, -, -, h⟩
    · rw [h]
    · rw [h, VgicState.updInt_ints_same]
    · rw [h]
      simp [takeLrState, VgicState.gichSetHcr, VgicState.gichWriteLr]
  · rw [vgicRemoveLr_ints_ne v k s hk]

/-- The interrupt is in no list register after it was spilled from one of its
owner's. -/
theorem spillInt_unrecorded (lrInd : Nat) :
    ¬ (((spillInt P v k s).ints k).owner = some v ∧ ((spillInt P v k s).ints k).inLr = true ∧
      ((spillInt P v k s).ints k).lr = lrInd) := by
  rintro ⟨hown, hin, -⟩
  obtain ⟨owner, hy⟩ := vgicYieldOwnership_ints (P := P) v k
    (vgicAddSpilled v k (vgicRemoveLr P v k s)) k
  obtain ⟨inSpilled, hs⟩ := vgicAddSpilled_ints v k (vgicRemoveLr P v k s) k
  have hin' : ((vgicRemoveLr P v k s).ints k).inLr = true := by
    have := hin
    rw [spillInt, hy, hs] at this
    exact this
  have hown' : (s.ints k).owner = some v := by
    rcases vgicYieldOwnership_cases (P := P) v k (vgicAddSpilled v k (vgicRemoveLr P v k s)) with
      h | ⟨-, h, -⟩
    · rw [spillInt, h, hs] at hown
      rw [← vgicRemoveLr_owner (P := P) v k s k]
      exact hown
    · rw [hs] at h
      rw [← vgicRemoveLr_owner (P := P) v k s k]
      exact h
  rw [vgicRemoveLr_out v k s hown'] at hin'
  cases hin'

theorem spillInt_ints_ne {k' : IntKey} (hk : k' ≠ k) :
    (spillInt P v k s).ints k' = s.ints k' := by
  rw [spillInt, vgicYieldOwnership_ints_ne _ _ _ hk, vgicAddSpilled_ints_ne _ _ _ hk,
    vgicRemoveLr_ints_ne _ _ _ hk]

/-- Spilling an interrupt that is in no list register touches none, and
changes neither the interrupt's state nor whether it is enabled. -/
theorem spillInt_of_out (hout : (s.ints k).inLr = false) :
    (∀ w, ((spillInt P v k s).cpus w).lrs = (s.cpus w).lrs) ∧
      ((spillInt P v k s).ints k).inLr = false ∧
      ((spillInt P v k s).ints k).enabled = (s.ints k).enabled ∧
      ((spillInt P v k s).ints k).state = (s.ints k).state := by
  have hremove : vgicRemoveLr P v k s = s := by
    rcases vgicRemoveLr_cases (P := P) v k s with ⟨h, -⟩ | ⟨-, hin, -⟩ | ⟨-, hin, -⟩
    · exact h
    · rw [hout] at hin
      cases hin
    · rw [hout] at hin
      cases hin
  obtain ⟨owner, hy⟩ := vgicYieldOwnership_ints (P := P) v k (vgicAddSpilled v k s) k
  obtain ⟨inSpilled, hs⟩ := vgicAddSpilled_ints v k s k
  rw [spillInt, hremove, hy, hs]
  refine ⟨fun w => ?_, hout, rfl, rfl⟩
  rw [vgicYieldOwnership_cpus]
  exact (vgicAddSpilled_lrs v k s w).1

theorem vgicRemoveLr_lrs (w i : Nat) :
    ((vgicRemoveLr P v k s).cpus w).lrs i = (s.cpus w).lrs i ∨
      ((vgicRemoveLr P v k s).cpus w).lrs i = .zero := by
  rcases vgicRemoveLr_cases (P := P) v k s with ⟨h, -⟩ | ⟨-, -, -, h⟩ | ⟨-, -, -, -, h⟩
  · exact Or.inl (by rw [h])
  · exact Or.inl (by rw [h]; rfl)
  · rw [h]
    by_cases hw : w = v
    · subst hw
      by_cases hi : i = (s.ints k).lr
      · refine Or.inr ?_
        simp [takeLrState, VgicState.gichSetHcr, VgicState.gichWriteLr, hi]
      · refine Or.inl ?_
        simp [takeLrState, VgicState.gichSetHcr, VgicState.gichWriteLr, atCpu_other _ _ hi]
    · refine Or.inl ?_
      simp [takeLrState, VgicState.gichSetHcr, VgicState.gichWriteLr,
        VgicState.updCpu_cpus_ne _ _ hw]

theorem spillInt_lrs (w i : Nat) :
    ((spillInt P v k s).cpus w).lrs i = (s.cpus w).lrs i ∨
      ((spillInt P v k s).cpus w).lrs i = .zero := by
  rw [spillInt, vgicYieldOwnership_cpus, (vgicAddSpilled_lrs v k _ w).1]
  exact vgicRemoveLr_lrs v k s w i

theorem vgicRemoveSpilled_lrs (w : Nat) :
    ((vgicRemoveSpilled v k s).cpus w).lrs = (s.cpus w).lrs ∧
      ((vgicRemoveSpilled v k s).cpus w).currLrs = (s.cpus w).currLrs := by
  unfold vgicRemoveSpilled rmSpilled
  split
  · by_cases hw : w = v
    · subst hw
      rw [VgicState.updInt_cpus, VgicState.updCpu_cpus_same]
      exact ⟨rfl, rfl⟩
    · rw [VgicState.updInt_cpus, VgicState.updCpu_cpus_ne _ _ hw]
      exact ⟨rfl, rfl⟩
  · exact ⟨rfl, rfl⟩

theorem vgicRemoveSpilled_int :
    (vgicRemoveSpilled v k s).ints k = { s.ints k with inSpilled := false } := by
  rw [vgicRemoveSpilled, VgicState.updInt_ints_same, rmSpilled_ints]

theorem vgicRemoveSpilled_ints_ne {k' : IntKey} (hk : k' ≠ k) :
    (vgicRemoveSpilled v k s).ints k' = s.ints k' := by
  rw [vgicRemoveSpilled, VgicState.updInt_ints_ne _ _ hk, rmSpilled_ints]

end Frames

/-! ## Writing a list register -/

section Writing

variable {P}
variable (v : Nat) (k : IntKey) (lrInd : Nat) (s : VgicState)

theorem vgicGetInt_shared {id w : Nat} {k' : IntKey} (hid : gicIsPriv id = false)
    (h : vgicGetInt P id w = some k') : k' = .shared id := by
  have hnot : ¬ id < gicCpuPriv := of_decide_eq_false hid
  unfold vgicGetInt at h
  rw [if_neg hnot] at h
  split at h
  · cases h
    rfl
  · cases h

theorem vgicGetInt_mine {id v w id' : Nat} (h : vgicGetInt P id v = some (.priv w id')) : w = v := by
  unfold vgicGetInt at h
  split at h
  · cases h
    rfl
  · split at h <;> cases h

theorem vgicGetInt_id {id w : Nat} {k' : IntKey} (h : vgicGetInt P id w = some k') :
    k'.id = id := by
  unfold vgicGetInt at h
  split at h
  · cases h
    rfl
  · split at h
    · cases h
      rfl
    · cases h

/-- The previous occupant loses the register only if it is another shared
interrupt that is recorded there. -/
theorem releaseOccupant_cases :
    releaseOccupant P v k lrInd s = s ∨
    ∃ k', k' = .shared ((s.cpus v).currLrs lrInd) ∧ k' ≠ k ∧ gicIsPriv k'.id = false ∧
      (s.ints k').owner = some v ∧ (s.ints k').inLr = true ∧ (s.ints k').lr = lrInd ∧
      releaseOccupant P v k lrInd s =
        vgicYieldOwnership P v k' (s.updInt k' fun i => { i with inLr := false }) := by
  unfold releaseOccupant
  dsimp only
  split
  · exact Or.inl rfl
  · rename_i hprev
    rw [not_or] at hprev
    split
    · exact Or.inl rfl
    · rename_i k' hk'
      have hpriv : gicIsPriv ((s.cpus v).currLrs lrInd) = false := Bool.eq_false_iff.mpr hprev.2
      have hid := vgicGetInt_id hk'
      split
      · rename_i hrec
        refine Or.inr ⟨k', vgicGetInt_shared hpriv hk', ?_, ?_, of_decide_eq_true hrec.1,
          hrec.2.1, hrec.2.2, rfl⟩
        · intro hk
          rw [← hid, hk] at hprev
          exact hprev.1 rfl
        · rw [hid]
          exact hpriv
      · exact Or.inl rfl

theorem releaseOccupant_ints : (releaseOccupant P v k lrInd s).ints k = s.ints k := by
  rcases releaseOccupant_cases (P := P) v k lrInd s with h | ⟨k', -, hne, -, -, -, -, h⟩
  · rw [h]
  · rw [h, vgicYieldOwnership_ints_ne _ _ _ (Ne.symm hne),
      VgicState.updInt_ints_ne s _ (Ne.symm hne)]

@[simp] theorem releaseOccupant_cpus : (releaseOccupant P v k lrInd s).cpus = s.cpus := by
  rcases releaseOccupant_cases (P := P) v k lrInd s with h | ⟨k', -, -, -, -, -, -, h⟩
  · rw [h]
  · rw [h, vgicYieldOwnership_cpus]
    rfl

/-- What `vgic_write_lr` puts in the register. -/
def newLr : ListReg := (lrValue P (vgicGetState P v k s) k (s.ints k)).1

theorem fillLr_cpu :
    (fillLr P v k lrInd s).cpus v =
      { s.cpus v with
        lrs := atCpu (s.cpus v).lrs lrInd (newLr v k s (P := P))
        currLrs := atCpu (s.cpus v).currLrs lrInd k.id } := by
  simp [fillLr, VgicState.gichWriteLr, newLr]

theorem fillLr_cpus_ne {w : Nat} (hw : w ≠ v) : (fillLr P v k lrInd s).cpus w = s.cpus w := by
  simp [fillLr, VgicState.gichWriteLr, VgicState.updCpu_cpus_ne _ _ hw]

theorem fillLr_int :
    (fillLr P v k lrInd s).ints k =
      { s.ints k with
        sgiPend := (lrValue P (vgicGetState P v k s) k (s.ints k)).2
        state := if (s.ints k).enabled then .inv else (vgicGetState P v k s).onlyPend
        inLr := true
        lr := lrInd } := by
  simp [fillLr, VgicState.gichWriteLr]

theorem fillLr_ints_ne {k' : IntKey} (hk : k' ≠ k) :
    (fillLr P v k lrInd s).ints k' = s.ints k' := by
  simp [fillLr, VgicState.gichWriteLr, VgicState.updInt_ints_ne _ _ hk]

theorem fillLr_lrWrites :
    (fillLr P v k lrInd s).lrWrites = ⟨v, k, s.ints k, newLr v k s (P := P)⟩ :: s.lrWrites := by
  simp [fillLr, VgicState.gichWriteLr, newLr]

end Writing

/-! ## What is recorded -/

section Recorded

variable {P}
variable (v : Nat) (k : IntKey) (s : VgicState)

theorem vgicYieldOwnership_lrWrites :
    (vgicYieldOwnership P v k s).lrWrites = s.lrWrites := by
  unfold vgicYieldOwnership
  split <;> rfl

theorem vgicGetOwnership_lrWrites : (vgicGetOwnership v k s).2.lrWrites = s.lrWrites := by
  rcases vgicGetOwnership_cases v k s with ⟨-, h⟩ | ⟨-, h⟩ | ⟨-, h⟩ <;> rw [h]
  rfl

theorem vgicAddSpilled_lrWrites : (vgicAddSpilled v k s).lrWrites = s.lrWrites := by
  rcases vgicAddSpilled_cases v k s with h | ⟨-, -, hcr, h⟩
  · rw [h]
  · rw [h]
    unfold pushSpilled
    split <;> rfl

theorem vgicRemoveSpilled_lrWrites : (vgicRemoveSpilled v k s).lrWrites = s.lrWrites := by
  unfold vgicRemoveSpilled rmSpilled
  split <;> rfl

theorem vgicRemoveLr_lrWrites : (vgicRemoveLr P v k s).lrWrites = s.lrWrites := by
  rcases vgicRemoveLr_cases (P := P) v k s with ⟨h, -⟩ | ⟨-, -, -, h⟩ | ⟨-, -, -, -, h⟩
  · rw [h]
  · rw [h]
    rfl
  · rw [h]
    rfl

theorem releaseOccupant_lrWrites (lrInd : Nat) :
    (releaseOccupant P v k lrInd s).lrWrites = s.lrWrites := by
  rcases releaseOccupant_cases (P := P) v k lrInd s with h | ⟨k', -, -, -, -, -, -, h⟩
  · rw [h]
  · rw [h, vgicYieldOwnership_lrWrites]
    rfl

theorem vgicWriteLr_lrWrites (lrInd : Nat) :
    ∃ lr, (vgicWriteLr P v k lrInd s).lrWrites = ⟨v, k, s.ints k, lr⟩ :: s.lrWrites := by
  rw [vgicWriteLr, fillLr_lrWrites, releaseOccupant_ints, releaseOccupant_lrWrites]
  exact ⟨_, rfl⟩

end Recorded

/-! ## The search for a list register -/

section Search

variable {P}

theorem firstLr_some {v : Nat} {test : ListReg → Bool} {s : VgicState} {i : Nat}
    (h : firstLr P v test s = some i) : i < P.numLrs ∧ test ((s.cpus v).lrs i) = true := by
  unfold firstLr at h
  have htest := List.find?_some h
  exact ⟨List.mem_range.mp (List.mem_of_find?_eq_some h), htest⟩

theorem elrsr_inv {lr : ListReg} (h : elrsr lr = true) : lr.state = .inv := by
  simp only [elrsr, Bool.and_eq_true, decide_eq_true_eq] at h
  exact h.1

theorem eisr_inv {lr : ListReg} (h : eisr lr = true) : lr.state = .inv := by
  simp only [eisr, Bool.and_eq_true, decide_eq_true_eq] at h
  exact h.1.1

/-- A register the search has found so far is one of those seen, and valid. -/
def ScanOk (lrs : Nat → ListReg) (seen : Nat → Prop) (scan : VictimScan) : Prop :=
  ∀ i, scan.pendInd = some i ∨ scan.actInd = some i → seen i ∧ (lrs i).state ≠ .inv

theorem victimStep_ok {lrs : Nat → ListReg} {seen : Nat → Prop} {scan : VictimScan} {i : Nat}
    (h : ScanOk lrs seen scan) (hi : seen i) : ScanOk lrs seen (victimStep P lrs scan i) := by
  intro j hj
  unfold victimStep at hj
  dsimp only at hj
  split at hj
  · rename_i hact
    have hne : (lrs i).state ≠ .inv := fun hinv => by rw [hinv] at hact; cases hact
    split at hj
    · rcases hj with hj | hj
      · exact h j (Or.inl hj)
      · cases hj
        exact ⟨hi, hne⟩
    · exact h j hj
  · split at hj
    · rename_i hpend
      have hne : (lrs i).state ≠ .inv := fun hinv => by rw [hinv] at hpend; cases hpend
      split at hj
      · rcases hj with hj | hj
        · cases hj
          exact ⟨hi, hne⟩
        · exact h j (Or.inr hj)
      · exact h j hj
    · exact h j hj

theorem victimScan_ok {lrs : Nat → ListReg} {seen : Nat → Prop} (is : List Nat)
    (his : ∀ i ∈ is, seen i) {scan : VictimScan} (h : ScanOk lrs seen scan) :
    ScanOk lrs seen (is.foldl (victimStep P lrs) scan) := by
  induction is generalizing scan with
  | nil => exact h
  | cons i is ih =>
    exact ih (fun j hj => his j (List.mem_cons_of_mem _ hj))
      (victimStep_ok h (his i List.mem_cons_self))

/-- The register chosen for spilling is one of the CPU's and holds a valid
interrupt. -/
theorem victimLr_some {v : Nat} {k : IntKey} {s : VgicState} {i : Nat}
    (h : victimLr P v k s = some i) :
    i < P.numLrs ∧ ((s.cpus v).lrs i).state ≠ .inv := by
  have hnone : ScanOk (s.cpus v).lrs (fun i => i < P.numLrs)
      ⟨(s.ints k).prio, (s.ints k).prio, k.id, k.id, 0, none, none⟩ :=
    fun j hj => by rcases hj with hj | hj <;> cases hj
  have hscan := victimScan_ok (P := P) (List.range P.numLrs)
    (fun i hi => List.mem_range.mp hi) hnone
  unfold victimLr at h
  dsimp only at h
  split at h
  · exact hscan i (Or.inl h)
  · exact hscan i (Or.inr h)

end Search

end Bao

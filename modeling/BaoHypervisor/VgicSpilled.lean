import BaoHypervisor.VgicHandlers
import Mathlib.Data.List.Nodup

/-!
# The spilled lists

A private interrupt is on its vCPU's own list and a shared one on the VM's, each
once; `in_spilled` is set while it is listed, and then it is in no list
register.
-/

namespace Bao

variable (P : VgicPlat)

/-- Lists and flags agree. -/
structure Shelved (s : VgicState) : Prop where
  own : ∀ {w : Nat} {k : IntKey}, k ∈ (s.cpus w).spilled →
    ∃ id, k = .priv w id ∧ id < gicCpuPriv
  vm : ∀ {k : IntKey}, k ∈ s.spilled → gicIsPriv k.id = false
  ownOnce : ∀ w, (s.cpus w).spilled.Nodup
  vmOnce : s.spilled.Nodup
  flagged : ∀ {k : IntKey}, Listed s k → (s.ints k).inSpilled = true
  out : ∀ k, (s.ints k).inSpilled = true → (s.ints k).inLr = false
  privOwner : ∀ v id, id < gicCpuPriv → (s.ints (.priv v id)).owner = some v

variable {P} {s s' : VgicState} {v : Nat} {k : IntKey}

namespace Shelved

theorem keep (h : Shelved s) (hown : ∀ w, (s'.cpus w).spilled = (s.cpus w).spilled)
    (hvm : s'.spilled = s.spilled)
    (hflag : ∀ k, (s'.ints k).inSpilled = (s.ints k).inSpilled)
    (hout : ∀ k, (s'.ints k).inSpilled = true → (s'.ints k).inLr = false)
    (hpriv : ∀ v id, id < gicCpuPriv → (s'.ints (.priv v id)).owner = some v) : Shelved s' where
  own hk := by
    rw [hown] at hk
    exact h.own hk
  vm hk := by
    rw [hvm] at hk
    exact h.vm hk
  ownOnce w := by
    rw [hown]
    exact h.ownOnce w
  vmOnce := by
    rw [hvm]
    exact h.vmOnce
  flagged {k} hk := by
    rw [hflag]
    refine h.flagged (hk.imp (fun hk => hvm ▸ hk) fun hk => ?_)
    obtain ⟨w, hk⟩ := hk
    exact ⟨w, hown w ▸ hk⟩
  out := hout
  privOwner := hpriv

theorem same (h : Shelved s) (hown : ∀ w, (s'.cpus w).spilled = (s.cpus w).spilled)
    (hvm : s'.spilled = s.spilled) (hints : s'.ints = s.ints) : Shelved s' := by
  refine h.keep hown hvm ?_ ?_ ?_ <;> rw [hints]
  · exact fun _ => rfl
  · exact h.out
  · exact h.privOwner

theorem updInt (h : Shelved s) {f : VgicInt → VgicInt}
    (hflag : (f (s.ints k)).inSpilled = (s.ints k).inSpilled)
    (hout : (f (s.ints k)).inSpilled = true → (f (s.ints k)).inLr = false)
    (hpriv : ∀ w id, k = .priv w id → id < gicCpuPriv → (f (s.ints k)).owner = some w) :
    Shelved (s.updInt k f) := by
  refine h.keep (fun _ => rfl) rfl (fun k' => ?_) (fun k' => ?_) fun w id hid => ?_
  · by_cases hk : k' = k
    · subst hk
      rw [VgicState.updInt_ints_same, hflag]
    · rw [VgicState.updInt_ints_ne _ _ hk]
  · by_cases hk : k' = k
    · subst hk
      rw [VgicState.updInt_ints_same]
      exact hout
    · rw [VgicState.updInt_ints_ne _ _ hk]
      exact h.out k'
  · by_cases hk : IntKey.priv w id = k
    · rw [hk, VgicState.updInt_ints_same]
      exact hpriv w id hk.symm hid
    · rw [VgicState.updInt_ints_ne _ _ hk]
      exact h.privOwner w id hid

/-- A change of one interrupt that keeps owner and list, or takes it out of its
list register. -/
theorem updOther (h : Shelved s) {f : VgicInt → VgicInt}
    (hflag : (f (s.ints k)).inSpilled = (s.ints k).inSpilled)
    (hin : (f (s.ints k)).inLr = (s.ints k).inLr ∨ (f (s.ints k)).inLr = false)
    (hown : (f (s.ints k)).owner = (s.ints k).owner) : Shelved (s.updInt k f) := by
  refine h.updInt hflag (fun hsp => ?_) fun w id hk hid => ?_
  · rcases hin with hin | hin
    · rw [hin]
      rw [hflag] at hsp
      exact h.out k hsp
    · exact hin
  · rw [hown, hk]
    exact h.privOwner w id hid

theorem quiet (h : Shelved s) (hq : Quiet v s s') : Shelved s' := by
  refine h.same (fun w => ?_) hq.spilled hq.ints
  by_cases hw : w = v
  · subst hw
    exact hq.own
  · rw [hq.others w hw]

theorem take (h : Shelved s) (hown : (s.ints k).owner = none) :
    Shelved (s.updInt k fun i => { i with owner := some v }) := by
  refine h.updInt rfl (fun hsp => h.out k hsp) fun w id hk hid => ?_
  have hpriv := h.privOwner w id hid
  rw [← hk, hown] at hpriv
  cases hpriv

theorem getOwnership (h : Shelved s) (v : Nat) (k : IntKey) :
    Shelved (vgicGetOwnership v k s).2 := by
  rcases vgicGetOwnership_cases v k s with ⟨-, hget⟩ | ⟨hown, hget⟩ | ⟨-, hget⟩ <;> rw [hget]
  · exact h
  · exact h.take hown
  · exact h

theorem yield (h : Shelved s) (v : Nat) (k : IntKey) : Shelved (vgicYieldOwnership P v k s) := by
  rcases vgicYieldOwnership_cases (P := P) v k s with hy | ⟨hshared, -, -, -, hy⟩ <;> rw [hy]
  · exact h
  · refine h.updInt rfl (fun hsp => h.out k hsp) fun w id hk hid => ?_
    rw [hk] at hshared
    exact (Bool.eq_false_iff.mp hshared (decide_eq_true hid)).elim

theorem priv_mine (h : Shelved s) (hknown : Known P k) (hpriv : gicIsPriv k.id = true)
    (hmine : (s.ints k).owner = some v ∨ ∃ id, k = .priv v id) :
    ∃ id, k = .priv v id ∧ id < gicCpuPriv := by
  obtain ⟨w, hw⟩ := hknown
  obtain ⟨id, hid⟩ := vgicGetInt_own hw hpriv
  rw [hid] at hpriv
  have hlt : id < gicCpuPriv := of_decide_eq_true hpriv
  rcases hmine with hown | ⟨id', hid'⟩
  · have howner := h.privOwner w id hlt
    rw [← hid, hown] at howner
    cases howner
    exact ⟨id, hid, hlt⟩
  · rw [hid] at hid'
    cases hid'
    exact ⟨id, hid, hlt⟩

theorem pushSpilled_own (v : Nat) (k : IntKey) (s : VgicState) (w : Nat) :
    ((pushSpilled v k s).cpus w).spilled =
      if w = v ∧ gicIsPriv k.id = true then (s.cpus w).spilled ++ [k] else (s.cpus w).spilled := by
  unfold pushSpilled
  by_cases hpriv : gicIsPriv k.id = true
  · rw [if_pos hpriv]
    by_cases hw : w = v
    · subst hw
      rw [VgicState.updCpu_cpus_same, if_pos ⟨rfl, hpriv⟩]
    · rw [VgicState.updCpu_cpus_ne _ _ hw, if_neg fun hc => hw hc.1]
  · rw [if_neg hpriv, if_neg fun hc => hpriv hc.2]

theorem pushSpilled_vm (v : Nat) (k : IntKey) (s : VgicState) :
    (pushSpilled v k s).spilled = if gicIsPriv k.id then s.spilled else s.spilled ++ [k] := by
  unfold pushSpilled
  split <;> rfl

/-- **Spilling** lists what is not listed yet. -/
theorem spill (h : Shelved s) (hknown : Known P k)
    (hmine : gicIsPriv k.id = true → (s.ints k).owner = some v ∨ ∃ id, k = .priv v id) :
    Shelved (vgicAddSpilled v k s) := by
  rcases vgicAddSpilled_cases v k s with hs | ⟨hout, hnew, hcr, hs⟩
  · rw [hs]
    exact h
  · rw [hs]
    have hlisted : ¬ Listed s k := by
      intro hk
      rw [h.flagged hk] at hnew
      cases hnew
    rw [VgicState.gichSetHcr]
    have hpush : Shelved ((pushSpilled v k s).updInt k fun i => { i with inSpilled := true }) := by
      refine ⟨fun {w k'} hk' => ?_, fun {k'} hk' => ?_, fun w => ?_, ?_, fun {k'} hk' => ?_,
        fun k' hsp => ?_, fun w id hid => ?_⟩
      · rw [VgicState.updInt_cpus, pushSpilled_own] at hk'
        split at hk'
        · rename_i hpush
          rcases List.mem_append.mp hk' with hk' | hk'
          · exact h.own hk'
          · rw [List.mem_singleton.mp hk', hpush.1]
            exact h.priv_mine hknown hpush.2 (hmine hpush.2)
        · exact h.own hk'
      · rw [VgicState.updInt_spilled, pushSpilled_vm] at hk'
        split at hk'
        · exact h.vm hk'
        · rename_i hshared
          rcases List.mem_append.mp hk' with hk' | hk'
          · exact h.vm hk'
          · rw [List.mem_singleton.mp hk']
            exact Bool.eq_false_iff.mpr hshared
      · rw [VgicState.updInt_cpus, pushSpilled_own]
        split
        · refine List.Nodup.append (h.ownOnce w) (List.nodup_singleton k) fun k' hk' hk => ?_
          rw [List.mem_singleton.mp hk] at hk'
          exact hlisted (Or.inr ⟨w, hk'⟩)
        · exact h.ownOnce w
      · rw [VgicState.updInt_spilled, pushSpilled_vm]
        split
        · exact h.vmOnce
        · refine List.Nodup.append h.vmOnce (List.nodup_singleton k) fun k' hk' hk => ?_
          rw [List.mem_singleton.mp hk] at hk'
          exact hlisted (Or.inl hk')
      · by_cases hk : k' = k
        · subst hk
          rw [VgicState.updInt_ints_same]
        · rw [VgicState.updInt_ints_ne _ _ hk, pushSpilled_ints]
          refine h.flagged ?_
          rcases hk' with hk' | ⟨w, hk'⟩
          · rw [VgicState.updInt_spilled, pushSpilled_vm] at hk'
            split at hk'
            · exact Or.inl hk'
            · rcases List.mem_append.mp hk' with hk' | hk'
              · exact Or.inl hk'
              · exact (hk (List.mem_singleton.mp hk')).elim
          · rw [VgicState.updInt_cpus, pushSpilled_own] at hk'
            split at hk'
            · rcases List.mem_append.mp hk' with hk' | hk'
              · exact Or.inr ⟨w, hk'⟩
              · exact (hk (List.mem_singleton.mp hk')).elim
            · exact Or.inr ⟨w, hk'⟩
      · by_cases hk : k' = k
        · subst hk
          rw [VgicState.updInt_ints_same, pushSpilled_ints]
          exact hout
        · rw [VgicState.updInt_ints_ne _ _ hk, pushSpilled_ints] at hsp ⊢
          exact h.out k' hsp
      · by_cases hk : IntKey.priv w id = k
        · rw [hk, VgicState.updInt_ints_same, pushSpilled_ints, ← hk]
          exact h.privOwner w id hid
        · rw [VgicState.updInt_ints_ne _ _ hk, pushSpilled_ints]
          exact h.privOwner w id hid
    exact hpush.quiet (Quiet.setHcr (v := v) _ hcr)

theorem rmSpilled_own (v : Nat) (k : IntKey) (s : VgicState) (w : Nat) :
    ((rmSpilled v k s).cpus w).spilled =
      if w = v ∧ gicIsPriv k.id = true then (s.cpus w).spilled.erase k else (s.cpus w).spilled := by
  unfold rmSpilled
  by_cases hpriv : gicIsPriv k.id = true
  · rw [if_pos hpriv]
    by_cases hw : w = v
    · subst hw
      rw [VgicState.updCpu_cpus_same, if_pos ⟨rfl, hpriv⟩]
    · rw [VgicState.updCpu_cpus_ne _ _ hw, if_neg fun hc => hw hc.1]
  · rw [if_neg hpriv, if_neg fun hc => hpriv hc.2]

theorem rmSpilled_vm (v : Nat) (k : IntKey) (s : VgicState) :
    (rmSpilled v k s).spilled = if gicIsPriv k.id then s.spilled else s.spilled.erase k := by
  unfold rmSpilled
  split <;> rfl

theorem rmSpilled_listed (h : Shelved s) {k' : IntKey}
    (hmine : gicIsPriv k.id = true → ∃ id, k = .priv v id) (hk' : Listed (rmSpilled v k s) k') :
    Listed s k' ∧ k' ≠ k := by
  rcases hk' with hk' | ⟨w, hk'⟩
  · rw [rmSpilled_vm] at hk'
    split at hk'
    · rename_i hpriv
      refine ⟨Or.inl hk', fun hk => ?_⟩
      rw [hk] at hk'
      rw [h.vm hk'] at hpriv
      cases hpriv
    · exact ⟨Or.inl (List.mem_of_mem_erase hk'), (h.vmOnce.mem_erase_iff.mp hk').1⟩
  · rw [rmSpilled_own] at hk'
    split at hk'
    · exact ⟨Or.inr ⟨w, List.mem_of_mem_erase hk'⟩, ((h.ownOnce w).mem_erase_iff.mp hk').1⟩
    · rename_i hother
      refine ⟨Or.inr ⟨w, hk'⟩, fun hk => ?_⟩
      rw [hk] at hk'
      obtain ⟨id, hid, hlt⟩ := h.own hk'
      have hpriv : gicIsPriv k.id = true := by
        rw [hid]
        exact decide_eq_true hlt
      obtain ⟨id', hid'⟩ := hmine hpriv
      rw [hid] at hid'
      cases hid'
      exact hother ⟨rfl, hpriv⟩

/-- **Leaving the list.** -/
theorem removeSpilled (h : Shelved s)
    (hmine : gicIsPriv k.id = true → ∃ id, k = .priv v id) :
    Shelved (vgicRemoveSpilled v k s) := by
  unfold vgicRemoveSpilled
  refine ⟨fun {w k'} hk' => ?_, fun {k'} hk' => ?_, fun w => ?_, ?_, fun {k'} hk' => ?_,
    fun k' hsp => ?_, fun w id hid => ?_⟩
  · rw [VgicState.updInt_cpus, rmSpilled_own] at hk'
    split at hk'
    · exact h.own (List.mem_of_mem_erase hk')
    · exact h.own hk'
  · rw [VgicState.updInt_spilled, rmSpilled_vm] at hk'
    split at hk'
    · exact h.vm hk'
    · exact h.vm (List.mem_of_mem_erase hk')
  · rw [VgicState.updInt_cpus, rmSpilled_own]
    split
    · exact (h.ownOnce w).erase k
    · exact h.ownOnce w
  · rw [VgicState.updInt_spilled, rmSpilled_vm]
    split
    · exact h.vmOnce
    · exact h.vmOnce.erase k
  · obtain ⟨hlisted, hk⟩ := h.rmSpilled_listed hmine hk'
    rw [VgicState.updInt_ints_ne _ _ hk, rmSpilled_ints]
    exact h.flagged hlisted
  · by_cases hk : k' = k
    · subst hk
      rw [VgicState.updInt_ints_same] at hsp
      cases hsp
    · rw [VgicState.updInt_ints_ne _ _ hk, rmSpilled_ints] at hsp ⊢
      exact h.out k' hsp
  · by_cases hk : IntKey.priv w id = k
    · rw [hk, VgicState.updInt_ints_same, rmSpilled_ints, ← hk]
      exact h.privOwner w id hid
    · rw [VgicState.updInt_ints_ne _ _ hk, rmSpilled_ints]
      exact h.privOwner w id hid

theorem gichWriteLr (h : Shelved s) (v i : Nat) (lr : ListReg) :
    Shelved (s.gichWriteLr v i lr) := by
  refine h.same (fun w => ?_) rfl rfl
  unfold VgicState.gichWriteLr
  by_cases hw : w = v
  · subst hw
    rw [VgicState.updCpu_cpus_same]
  · rw [VgicState.updCpu_cpus_ne _ _ hw]

theorem removeLr (h : Shelved s) (v : Nat) (k : IntKey) : Shelved (vgicRemoveLr P v k s) := by
  rcases vgicRemoveLr_cases (P := P) v k s with ⟨hr, -⟩ | ⟨-, -, -, hr⟩ | ⟨-, -, -, -, hr⟩ <;> rw [hr]
  · exact h
  · exact h.updOther rfl (Or.inr rfl) rfl
  · have hout := (h.gichWriteLr v (s.ints k).lr .zero).updOther (k := k)
      (f := fun i => { i with inLr := false }) rfl (Or.inr rfl) rfl
    unfold takeLrState
    exact (hout.updOther rfl (Or.inl rfl) rfl).quiet (Quiet.setHcr (v := v) _ _)

theorem writeLr (h : Shelved s) (hnew : (s.ints k).inSpilled = false) (v lrInd : Nat) :
    Shelved (vgicWriteLr P v k lrInd s) := by
  have hint := releaseOccupant_ints (P := P) v k lrInd s
  have hrel : Shelved (releaseOccupant P v k lrInd s) := by
    rcases releaseOccupant_cases (P := P) v k lrInd s with hr | ⟨k', -, -, -, -, -, -, hr⟩ <;> rw [hr]
    · exact h
    · exact (h.updOther (k := k') rfl (Or.inr rfl) rfl).yield v k'
  rw [vgicWriteLr]
  generalize releaseOccupant P v k lrInd s = s₁ at hint hrel
  rw [← hint] at hnew
  refine hrel.keep (fun w => ?_) rfl (fun k' => ?_) (fun k' hsp => ?_) fun w id hid => ?_
  · by_cases hw : w = v
    · subst hw
      rw [fillLr_cpu]
    · rw [fillLr_cpus_ne _ _ _ _ hw]
  · by_cases hk : k' = k
    · subst hk
      rw [fillLr_int]
    · rw [fillLr_ints_ne _ _ _ _ hk]
  · by_cases hk : k' = k
    · subst hk
      rw [fillLr_int] at hsp
      rw [hnew] at hsp
      cases hsp
    · rw [fillLr_ints_ne _ _ _ _ hk] at hsp ⊢
      exact hrel.out k' hsp
  · by_cases hk : IntKey.priv w id = k
    · rw [hk, fillLr_int, ← hk]
      exact hrel.privOwner w id hid
    · rw [fillLr_ints_ne _ _ _ _ hk]
      exact hrel.privOwner w id hid

theorem mayPlace_mine (h : Shelved s) {lrInd : Nat} (hmay : MayPlace P v k lrInd s)
    (hpriv : gicIsPriv k.id = true) : ∃ id, k = .priv v id := by
  rcases hmay.mine with hown | hid | ⟨-, hname⟩
  · obtain ⟨id, hid, -⟩ := h.priv_mine hmay.known hpriv (Or.inl hown)
    exact ⟨id, hid⟩
  · exact hid
  · exact vgicGetInt_own hname hpriv

theorem placeInLr (h : Shelved s) {lrInd : Nat} (hmay : MayPlace P v k lrInd s) :
    Shelved (placeInLr P v k lrInd s) := by
  unfold Bao.placeInLr
  split
  · refine (h.removeSpilled fun hpriv => h.mayPlace_mine hmay hpriv).writeLr ?_ v lrInd
    rw [vgicRemoveSpilled_int]
  · rename_i hsp
    exact h.writeLr (Bool.eq_false_iff.mpr hsp) v lrInd

/-- **A move** keeps lists and flags in agreement. -/
theorem move {A : Nat → IntKey → VgicInt → Prop} (h : Shelved s) (hmove : VgicMove P A v s s') :
    Shelved s' := by
  cases hmove with
  | take k hown => exact h.take hown
  | yield k => exact h.yield v k
  | spill k hknown hmine => exact h.spill hknown hmine
  | remove k => exact h.removeLr v k
  | place k lrInd hmay hplace => exact h.placeInLr hmay
  | silent hq => exact h.quiet hq.toQuiet
  | calm flags hpend hnone => exact h.quiet (Quiet.setHcr (v := v) s _)
  | writeBack hcr hcr' hpc hnpie => exact h.quiet (Quiet.setHcr (v := v) s _)

theorem moves {A : Nat → IntKey → VgicInt → Prop} (h : Shelved s)
    (hmoves : VgicMoves P A v s s') : Shelved s' := by
  induction hmoves with
  | refl => exact h
  | tail _ hmove ih => exact ih.move hmove

theorem got_mine (h : Shelved s) (hknown : Known P k) (hgot : (vgicGetOwnership v k s).1 = true)
    (hpriv : gicIsPriv k.id = true) : ∃ id, k = .priv v id := by
  have hown := vgicGetOwnership_owner hgot
  obtain ⟨id, hid, -⟩ := (h.getOwnership v k).priv_mine hknown hpriv (Or.inl hown)
  exact ⟨id, hid⟩

/-- **A deed** keeps lists and flags in agreement. -/
theorem does {d : VgicDeed} (h : Shelved s) (hd : Does P v d s s') : Shelved s' := by
  cases hd with
  | nothing => exact h
  | field reg k data tag hgot =>
    obtain ⟨hown, hin, -, hsp⟩ := updateField_frame (P := P) reg k data
      ((vgicRemoveLr P v k (vgicGetOwnership v k s).2).ints k)
    have hupd := ((h.getOwnership v k).removeLr (P := P) v k).updOther (k := k)
      (f := updateField P reg k data) hsp (Or.inl hin) hown
    exact hupd.same (fun _ => rfl) rfl rfl
  | forward reg k vgicrId data tag hgot => exact h.quiet (Quiet.forwardToOwner (v := v) P s k _)
  | setRoute k route =>
    unfold vgicIntSetRoute
    split
    · exact h
    · exact h.updOther rfl (Or.inl rfl) rfl
  | hw k hhw hmine =>
    refine h.updInt rfl (fun _ => rfl) fun w id hk hid => ?_
    obtain ⟨id', hname⟩ := hmine
    rw [hk] at hname
    rw [vgicGetInt_mine hname]
  | source k src hpriv hsgi => exact (h.removeLr v k).updOther rfl (Or.inl rfl) rfl
  | zeroLr lrInd hinv => exact h.gichWriteLr v lrInd .zero
  | clearLr lrInd k hinv => exact (h.gichWriteLr v lrInd .zero).updOther rfl (Or.inr rfl) rfl
  | refill k lrInd hbound hinv hknown hin hgot =>
    refine ((h.getOwnership v k).removeSpilled fun hpriv => h.got_mine hknown hgot hpriv).writeLr ?_ v
      lrInd
    rw [vgicRemoveSpilled_int]
  | unlist k hknown hin hgot =>
    exact ((h.getOwnership v k).removeSpilled fun hpriv => h.got_mine hknown hgot hpriv).updOther
      rfl (Or.inl rfl) rfl
  | ackLr lrInd hbound hpend => exact h.gichWriteLr v lrInd _
  | deactLr lrInd hbound hact => exact h.gichWriteLr v lrInd _

theorem init (h : VgicInit P s) : Shelved s where
  own {w k} hk := by
    rw [h.cpus w] at hk
    cases hk
  vm {k} hk := by
    rw [h.spilled] at hk
    cases hk
  ownOnce w := by
    rw [h.cpus w]
    exact List.nodup_nil
  vmOnce := by
    rw [h.spilled]
    exact List.nodup_nil
  flagged {k} hk := by
    rcases hk with hk | ⟨w, hk⟩
    · rw [h.spilled] at hk
      cases hk
    · rw [h.cpus w] at hk
      cases hk
  out k _ := by
    obtain ⟨lr, inSpilled, hint⟩ := h.ints k
    rw [hint]
    rfl
  privOwner w id _ := by
    obtain ⟨lr, inSpilled, hint⟩ := h.ints (.priv w id)
    rw [hint]
    rfl

theorem goTo (h : Shelved s) (v : Nat) (pc : VgicPc) : Shelved (goTo v pc s) := by
  refine h.same (fun w => ?_) rfl rfl
  unfold Bao.goTo
  by_cases hw : w = v
  · subst hw
    rw [VgicState.updCpu_cpus_same]
  · rw [VgicState.updCpu_cpus_ne _ _ hw]

theorem next {e : VgicEvent} (h : Shelved s) (hok : HandlersOk P s) (hen : e.enabled P s) :
    Shelved (e.next P s) := by
  obtain ⟨s₁, s₂, hdoes, hmoves, hend⟩ := hok.parts hen
  have hall := ((h.quiet (VgicEvent.begin_quiet (P := P) e s)).does hdoes).moves hmoves
  rcases hend with hnext | ⟨pc, hnext⟩
  · rw [hnext]
    exact hall
  · rw [hnext]
    exact hall.goTo e.vcpu pc

end Shelved

end Bao

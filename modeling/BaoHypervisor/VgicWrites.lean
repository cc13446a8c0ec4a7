import BaoHypervisor.VgicHandlers

/-!
# Register updates among the moves

No move updates a register field or sends on a guest write, and none changes
how an interrupt is set up; only two deeds do.
-/

namespace Bao

variable (P : VgicPlat)

/-- Two interrupts are set up alike. -/
structure SameSettings (i j : VgicInt) : Prop where
  enabled : i.enabled = j.enabled
  prio : i.prio = j.prio
  cfg : i.cfg = j.cfg
  targets : i.targets = j.targets

/-! ## What moves and deeds do to messages -/

/-- No register update, and no guest write forwarded. -/
structure Unwritten (s s' : VgicState) : Prop where
  applied : s'.applied = s.applied
  issued : s'.issued = s.issued
  inbox : ∀ c, ∃ msgs, s'.inbox c = s.inbox c ++ msgs ∧ ∀ msg ∈ msgs, msg.write = none

namespace Unwritten

variable {P}
variable {A : Nat → IntKey → VgicInt → Prop}
variable {v : Nat} {k : IntKey} {s s' s'' : VgicState}

theorem ofEq (happlied : s'.applied = s.applied) (hissued : s'.issued = s.issued)
    (hinbox : s'.inbox = s.inbox) : Unwritten s s' :=
  ⟨happlied, hissued, fun c => ⟨[], by rw [hinbox, List.append_nil], fun _ h => by cases h⟩⟩

theorem refl (s : VgicState) : Unwritten s s := ofEq rfl rfl rfl

theorem trans (h : Unwritten s s') (h' : Unwritten s' s'') : Unwritten s s'' := by
  refine ⟨h'.applied.trans h.applied, h'.issued.trans h.issued, fun c => ?_⟩
  obtain ⟨msgs, heq, hmsgs⟩ := h.inbox c
  obtain ⟨msgs', heq', hmsgs'⟩ := h'.inbox c
  refine ⟨msgs ++ msgs', ?_, fun m hm => ?_⟩
  · rw [heq', heq, List.append_assoc]
  · rcases List.mem_append.mp hm with hm | hm
    · exact hmsgs m hm
    · exact hmsgs' m hm

theorem updInt (s : VgicState) (k : IntKey) (f : VgicInt → VgicInt) :
    Unwritten s (s.updInt k f) := ofEq rfl rfl rfl

theorem getOwnership (v : Nat) (k : IntKey) (s : VgicState) :
    Unwritten s (vgicGetOwnership v k s).2 := by
  rcases vgicGetOwnership_cases v k s with ⟨-, h⟩ | ⟨-, h⟩ | ⟨-, h⟩ <;> rw [h]
  · exact refl s
  · exact ofEq rfl rfl rfl
  · exact refl s

theorem yield (v : Nat) (k : IntKey) (s : VgicState) :
    Unwritten s (vgicYieldOwnership P v k s) := by
  rcases vgicYieldOwnership_cases (P := P) v k s with h | ⟨-, -, -, -, h⟩ <;> rw [h]
  · exact refl s
  · exact ofEq rfl rfl rfl

theorem addSpilled (v : Nat) (k : IntKey) (s : VgicState) :
    Unwritten s (vgicAddSpilled v k s) := by
  rcases vgicAddSpilled_cases v k s with h | ⟨-, -, hcr, h⟩
  · rw [h]
    exact refl s
  · rw [h]
    unfold pushSpilled
    split <;> exact ofEq rfl rfl rfl

theorem removeSpilled (v : Nat) (k : IntKey) (s : VgicState) :
    Unwritten s (vgicRemoveSpilled v k s) := by
  unfold vgicRemoveSpilled rmSpilled
  split <;> exact ofEq rfl rfl rfl

theorem removeLr (v : Nat) (k : IntKey) (s : VgicState) :
    Unwritten s (vgicRemoveLr P v k s) := by
  rcases vgicRemoveLr_cases (P := P) v k s with ⟨h, -⟩ | ⟨-, -, -, h⟩ | ⟨-, -, -, -, h⟩ <;> rw [h]
  · exact refl s
  · exact ofEq rfl rfl rfl
  · exact ofEq rfl rfl rfl

theorem writeLr (v : Nat) (k : IntKey) (lrInd : Nat) (s : VgicState) :
    Unwritten s (vgicWriteLr P v k lrInd s) := by
  have hrelease : Unwritten s (releaseOccupant P v k lrInd s) := by
    rcases releaseOccupant_cases (P := P) v k lrInd s with h | ⟨k', -, -, -, -, -, -, h⟩
    · rw [h]
      exact refl s
    · rw [h]
      exact (updInt s k' _).trans (yield v k' _)
  exact hrelease.trans (ofEq rfl rfl rfl)

theorem placeInLr (v : Nat) (k : IntKey) (lrInd : Nat) (s : VgicState) :
    Unwritten s (placeInLr P v k lrInd s) := by
  unfold Bao.placeInLr
  split
  · exact (removeSpilled v k s).trans (writeLr v k lrInd _)
  · exact writeLr v k lrInd s

theorem move (h : VgicMove P A v s s') : Unwritten s s' := by
  cases h with
  | take k hown => exact ofEq rfl rfl rfl
  | yield k => exact yield v k s
  | spill k hknown hmine => exact addSpilled v k s
  | remove k => exact removeLr v k s
  | place k lrInd hmay hplace => exact placeInLr v k lrInd s
  | silent h => exact ⟨h.applied, h.issued, h.inbox⟩
  | calm flags hpend hnone => exact ofEq rfl rfl rfl
  | writeBack hcr hcr' hpc hnpie => exact ofEq rfl rfl rfl

theorem moves (h : VgicMoves P A v s s') : Unwritten s s' := by
  induction h with
  | refl => exact refl s
  | tail _ hmove ih => exact ih.trans (move hmove)

theorem does {d : VgicDeed} (h : Does P v d s s')
    (hfield : ∀ reg k data tag, d ≠ .field reg k data tag)
    (hforward : ∀ reg k vgicrId data tag, d ≠ .forward reg k vgicrId data tag) :
    Unwritten s s' := by
  cases h with
  | nothing => exact refl s
  | field reg k data tag hgot => exact (hfield _ _ _ _ rfl).elim
  | forward reg k vgicrId data tag hgot => exact (hforward _ _ _ _ _ rfl).elim
  | setRoute k route =>
    unfold vgicIntSetRoute
    split
    · exact refl s
    · exact ofEq rfl rfl rfl
  | hw k hhw hmine => exact ofEq rfl rfl rfl
  | source k src hpriv hsgi => exact (removeLr v k s).trans (ofEq rfl rfl rfl)
  | zeroLr lrInd hinv => exact ofEq rfl rfl rfl
  | clearLr lrInd k hinv => exact ofEq rfl rfl rfl
  | refill k lrInd hbound hinv hknown hin hgot =>
    exact ((getOwnership v k s).trans (removeSpilled v k _)).trans (writeLr v k lrInd _)
  | unlist k hknown hin hgot =>
    exact ((getOwnership v k s).trans (removeSpilled v k _)).trans (ofEq rfl rfl rfl)
  | ackLr lrInd hbound hpend => exact ofEq rfl rfl rfl
  | deactLr lrInd hbound hact => exact ofEq rfl rfl rfl

end Unwritten

/-! ## What moves do to the set-up of interrupts -/

/-- Interrupts stay set up as they are, and only `v` comes to own one. -/
structure KeepsSetup (v : Nat) (s s' : VgicState) : Prop where
  settings : ∀ k, SameSettings (s'.ints k) (s.ints k)
  owner : ∀ k, (s'.ints k).owner = (s.ints k).owner ∨ (s'.ints k).owner = none ∨
    (s'.ints k).owner = some v

theorem SameSettings.refl (i : VgicInt) : SameSettings i i := ⟨rfl, rfl, rfl, rfl⟩

theorem SameSettings.trans {i j l : VgicInt} (h : SameSettings i j) (h' : SameSettings j l) :
    SameSettings i l :=
  ⟨h.enabled.trans h'.enabled, h.prio.trans h'.prio, h.cfg.trans h'.cfg,
    h.targets.trans h'.targets⟩

theorem SameSettings.updateField {i j : VgicInt} (h : SameSettings i j) (reg : VgicReg)
    (k : IntKey) (data : Nat) :
    SameSettings (updateField P reg k data i) (updateField P reg k data j) := by
  obtain ⟨hen, hprio, hcfg, htargets⟩ := h
  unfold Bao.updateField
  cases reg <;> dsimp only <;> (try split) <;>
    first
    | exact ⟨hen, hprio, hcfg, htargets⟩
    | exact ⟨rfl, hprio, hcfg, htargets⟩
    | exact ⟨hen, rfl, hcfg, htargets⟩
    | exact ⟨hen, hprio, rfl, htargets⟩
    | exact ⟨hen, hprio, hcfg, rfl⟩

namespace KeepsSetup

variable {P}
variable {A : Nat → IntKey → VgicInt → Prop}
variable {v : Nat} {k : IntKey} {s s' s'' : VgicState}

theorem ofEq (h : s'.ints = s.ints) : KeepsSetup v s s' :=
  ⟨fun k => by rw [h]; exact .refl _, fun k => Or.inl (by rw [h])⟩

theorem refl (s : VgicState) : KeepsSetup v s s := ofEq rfl

theorem trans (h : KeepsSetup v s s') (h' : KeepsSetup v s' s'') : KeepsSetup v s s'' := by
  refine ⟨fun k => (h'.settings k).trans (h.settings k), fun k => ?_⟩
  rcases h'.owner k with hk | hk
  · rw [hk]
    exact h.owner k
  · exact Or.inr hk

theorem updInt (s : VgicState) (k : IntKey) {f : VgicInt → VgicInt}
    (hf : SameSettings (f (s.ints k)) (s.ints k))
    (hown : (f (s.ints k)).owner = (s.ints k).owner ∨ (f (s.ints k)).owner = none ∨
      (f (s.ints k)).owner = some v) : KeepsSetup v s (s.updInt k f) := by
  refine ⟨fun k' => ?_, fun k' => ?_⟩
  · by_cases hk : k' = k
    · subst hk
      rw [VgicState.updInt_ints_same]
      exact hf
    · rw [VgicState.updInt_ints_ne _ _ hk]
      exact .refl _
  · by_cases hk : k' = k
    · subst hk
      rw [VgicState.updInt_ints_same]
      exact hown
    · rw [VgicState.updInt_ints_ne _ _ hk]
      exact Or.inl rfl

theorem updOther (s : VgicState) (k : IntKey) {f : VgicInt → VgicInt}
    (hf : SameSettings (f (s.ints k)) (s.ints k) ∧ (f (s.ints k)).owner = (s.ints k).owner) :
    KeepsSetup v s (s.updInt k f) := updInt s k hf.1 (Or.inl hf.2)

theorem getOwnership (v : Nat) (k : IntKey) (s : VgicState) :
    KeepsSetup v s (vgicGetOwnership v k s).2 := by
  rcases vgicGetOwnership_cases v k s with ⟨-, h⟩ | ⟨-, h⟩ | ⟨-, h⟩ <;> rw [h]
  · exact refl s
  · have htake : KeepsSetup v s (s.updInt k fun i => { i with owner := some v }) :=
      updInt s k ⟨rfl, rfl, rfl, rfl⟩ (Or.inr (Or.inr rfl))
    exact htake
  · exact refl s

theorem yield (v : Nat) (k : IntKey) (s : VgicState) :
    KeepsSetup v s (vgicYieldOwnership P v k s) := by
  rcases vgicYieldOwnership_cases (P := P) v k s with h | ⟨-, -, -, -, h⟩ <;> rw [h]
  · exact refl s
  · exact updInt s k ⟨rfl, rfl, rfl, rfl⟩ (Or.inr (Or.inl rfl))

theorem addSpilled (v : Nat) (k : IntKey) (s : VgicState) :
    KeepsSetup v s (vgicAddSpilled v k s) := by
  refine ⟨fun k' => ?_, fun k' => ?_⟩ <;> obtain ⟨b, hb⟩ := vgicAddSpilled_ints v k s k' <;> rw [hb]
  · exact ⟨rfl, rfl, rfl, rfl⟩
  · exact Or.inl rfl

theorem removeSpilled (v : Nat) (k : IntKey) (s : VgicState) :
    KeepsSetup v s (vgicRemoveSpilled v k s) := by
  have hrm : KeepsSetup v s (rmSpilled v k s) := ofEq (rmSpilled_ints v k s)
  exact hrm.trans (updOther _ k ⟨⟨rfl, rfl, rfl, rfl⟩, rfl⟩)

theorem takeLr (k : IntKey) (lr : ListReg) (s : VgicState) :
    KeepsSetup v s (takeLrState P v k lr s) := by
  refine ⟨fun k' => ?_, fun k' => Or.inl ?_⟩
  · by_cases hk : k' = k
    · subst hk
      simp only [takeLrState, VgicState.gichSetHcr, VgicState.updCpu_ints,
        VgicState.updInt_ints_same]
      exact ⟨rfl, rfl, rfl, rfl⟩
    · rw [takeLrState_ints_ne _ _ _ _ hk]
      exact .refl _
  · by_cases hk : k' = k
    · subst hk
      simp only [takeLrState, VgicState.gichSetHcr, VgicState.updCpu_ints,
        VgicState.updInt_ints_same]
    · rw [takeLrState_ints_ne _ _ _ _ hk]

theorem removeLr (v : Nat) (k : IntKey) (s : VgicState) :
    KeepsSetup v s (vgicRemoveLr P v k s) := by
  rcases vgicRemoveLr_cases (P := P) v k s with ⟨h, -⟩ | ⟨-, -, -, h⟩ | ⟨-, -, -, -, h⟩ <;> rw [h]
  · exact refl s
  · exact updOther s k ⟨⟨rfl, rfl, rfl, rfl⟩, rfl⟩
  · have hzero : KeepsSetup v s (s.gichWriteLr v (s.ints k).lr .zero) := ofEq rfl
    have hout := hzero.trans (updOther _ k (f := fun i => { i with inLr := false })
      ⟨⟨rfl, rfl, rfl, rfl⟩, rfl⟩)
    exact hout.trans (takeLr k _ _)

theorem writeLr (v : Nat) (k : IntKey) (lrInd : Nat) (s : VgicState) :
    KeepsSetup v s (vgicWriteLr P v k lrInd s) := by
  have hrelease : KeepsSetup v s (releaseOccupant P v k lrInd s) := by
    rcases releaseOccupant_cases (P := P) v k lrInd s with h | ⟨k', -, -, -, -, -, -, h⟩ <;> rw [h]
    · exact refl s
    · have hout : KeepsSetup v s (s.updInt k' fun i => { i with inLr := false }) :=
        updOther s k' ⟨⟨rfl, rfl, rfl, rfl⟩, rfl⟩
      exact hout.trans (yield v k' _)
  refine hrelease.trans ⟨fun k' => ?_, fun k' => ?_⟩
  · by_cases hk : k' = k
    · subst hk
      rw [vgicWriteLr, fillLr_int]
      exact ⟨rfl, rfl, rfl, rfl⟩
    · rw [vgicWriteLr, fillLr_ints_ne _ _ _ _ hk]
      exact .refl _
  · refine Or.inl ?_
    by_cases hk : k' = k
    · subst hk
      rw [vgicWriteLr, fillLr_int]
    · rw [vgicWriteLr, fillLr_ints_ne _ _ _ _ hk]

theorem placeInLr (v : Nat) (k : IntKey) (lrInd : Nat) (s : VgicState) :
    KeepsSetup v s (placeInLr P v k lrInd s) := by
  unfold Bao.placeInLr
  split
  · exact (removeSpilled v k s).trans (writeLr v k lrInd _)
  · exact writeLr v k lrInd s

theorem move (h : VgicMove P A v s s') : KeepsSetup v s s' := by
  cases h with
  | take k hown => exact updInt s k ⟨rfl, rfl, rfl, rfl⟩ (Or.inr (Or.inr rfl))
  | yield k => exact yield v k s
  | spill k hknown hmine => exact addSpilled v k s
  | remove k => exact removeLr v k s
  | place k lrInd hmay hplace => exact placeInLr v k lrInd s
  | silent h => exact ofEq h.ints
  | calm flags hpend hnone => exact ofEq rfl
  | writeBack hcr hcr' hpc hnpie => exact ofEq rfl

theorem moves (h : VgicMoves P A v s s') : KeepsSetup v s s' := by
  induction h with
  | refl => exact refl s
  | tail _ hmove ih => exact ih.trans (move hmove)

theorem does {d : VgicDeed} (h : Does P v d s s')
    (hfield : ∀ reg k data tag, d ≠ .field reg k data tag) : KeepsSetup v s s' := by
  cases h with
  | nothing => exact refl s
  | field reg k data tag hgot => exact (hfield _ _ _ _ rfl).elim
  | forward reg k vgicrId data tag hgot =>
    exact ofEq (Quiet.forwardToOwner (v := v) P s k _).ints
  | setRoute k route =>
    unfold vgicIntSetRoute
    split
    · exact refl s
    · exact updOther s k ⟨⟨rfl, rfl, rfl, rfl⟩, rfl⟩
  | hw k hhw hmine => exact updInt s k ⟨rfl, rfl, rfl, rfl⟩ (Or.inr (Or.inr rfl))
  | source k src hpriv hsgi =>
    exact (removeLr v k s).trans (updOther _ k ⟨⟨rfl, rfl, rfl, rfl⟩, rfl⟩)
  | zeroLr lrInd hinv => exact ofEq rfl
  | clearLr lrInd k hinv =>
    have hzero : KeepsSetup v s (s.gichWriteLr v lrInd .zero) := ofEq rfl
    exact hzero.trans (updOther _ k ⟨⟨rfl, rfl, rfl, rfl⟩, rfl⟩)
  | refill k lrInd hbound hinv hknown hin hgot =>
    exact ((getOwnership v k s).trans (removeSpilled v k _)).trans (writeLr v k lrInd _)
  | unlist k hknown hin hgot =>
    exact ((getOwnership v k s).trans (removeSpilled v k _)).trans
      (updOther _ k ⟨⟨rfl, rfl, rfl, rfl⟩, rfl⟩)
  | ackLr lrInd hbound hpend => exact ofEq rfl
  | deactLr lrInd hbound hact => exact ofEq rfl

theorem field {reg : VgicReg} {data : Nat} {tag : Option WriteTag}
    (h : Does P v (.field reg k data tag) s s') :
    (∀ k', k' ≠ k → SameSettings (s'.ints k') (s.ints k')) ∧
      SameSettings (s'.ints k) (updateField P reg k data (s.ints k)) ∧
      (∀ k', (s'.ints k').owner = (s.ints k').owner ∨ (s'.ints k').owner = none ∨
        (s'.ints k').owner = some v) := by
  cases h with
  | field reg k data tag hgot =>
    have hbefore := (getOwnership v k s).trans (removeLr (P := P) v k _)
    unfold applyField
    refine ⟨fun k' hk => ?_, ?_, fun k' => ?_⟩ <;> dsimp only
    · rw [VgicState.updInt_ints_ne _ _ hk]
      exact hbefore.settings k'
    · rw [VgicState.updInt_ints_same]
      exact (hbefore.settings k).updateField P reg k data
    · by_cases hk : k' = k
      · subst hk
        rw [VgicState.updInt_ints_same, (updateField_frame reg k' data _).1]
        exact hbefore.owner k'
      · rw [VgicState.updInt_ints_ne _ _ hk]
        exact hbefore.owner k'

end KeepsSetup

theorem afterDeed_unwritten {P : VgicPlat} {A : Nat → IntKey → VgicInt → Prop} {v : Nat}
    {s₁ s₂ s' : VgicState} (hmoves : VgicMoves P A v s₁ s₂)
    (hend : s' = s₂ ∨ ∃ pc, s' = goTo v pc s₂) : Unwritten s₁ s' ∧ KeepsSetup v s₁ s' := by
  rcases hend with hs | ⟨pc, hs⟩ <;> rw [hs]
  · exact ⟨.moves hmoves, .moves hmoves⟩
  · exact ⟨(Unwritten.moves hmoves).trans (.ofEq rfl rfl rfl),
      (KeepsSetup.moves hmoves).trans (.ofEq rfl)⟩

end Bao

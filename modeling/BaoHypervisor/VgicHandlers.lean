import BaoHypervisor.VgicShape

/-!
# The handlers and the lists of a vGIC

A step changes the part of its own vCPU only, and the maintenance handler is
always at a place that fits the list registers; the spilled lists hold
interrupts of the VM.
-/

namespace Bao

variable (P : VgicPlat)
variable (A : Nat → IntKey → VgicInt → Prop)

/-! ## What is on the spilled lists -/

/-- On the VM's list or a vCPU's own. -/
def Listed (s : VgicState) (k : IntKey) : Prop :=
  k ∈ s.spilled ∨ ∃ w, k ∈ (s.cpus w).spilled

/-- What `s'` lists was listed in `s`, or is an interrupt of the VM. -/
def ListsKnown (s s' : VgicState) : Prop := ∀ k, Listed s' k → Listed s k ∨ Known P k

namespace ListsKnown

variable {P A}
variable {v : Nat} {s s' s'' : VgicState}

theorem trans (h : ListsKnown P s s') (h' : ListsKnown P s' s'') : ListsKnown P s s'' := by
  intro k hk
  rcases h' k hk with hk' | hk'
  · exact h k hk'
  · exact Or.inr hk'

theorem ofSub (hvm : ∀ k ∈ s'.spilled, k ∈ s.spilled)
    (hown : ∀ w, ∀ k ∈ (s'.cpus w).spilled, k ∈ (s.cpus w).spilled) : ListsKnown P s s' := by
  intro k hk
  rcases hk with hk | ⟨w, hk⟩
  · exact Or.inl (Or.inl (hvm k hk))
  · exact Or.inl (Or.inr ⟨w, hown w k hk⟩)

theorem ofEq (hvm : s'.spilled = s.spilled) (hown : ∀ w, (s'.cpus w).spilled = (s.cpus w).spilled) :
    ListsKnown P s s' :=
  ofSub (fun _ hk => hvm ▸ hk) (fun w _ hk => hown w ▸ hk)

theorem refl (s : VgicState) : ListsKnown P s s := ofEq rfl fun _ => rfl

theorem updCpu (s : VgicState) (v : Nat) {f : VgicCpu → VgicCpu}
    (hf : (f (s.cpus v)).spilled = (s.cpus v).spilled) : ListsKnown P s (s.updCpu v f) := by
  refine ofEq rfl fun w => ?_
  by_cases hw : w = v
  · subst hw
    rw [VgicState.updCpu_cpus_same, hf]
  · rw [VgicState.updCpu_cpus_ne _ _ hw]

theorem addSpilled (v : Nat) {k : IntKey} (s : VgicState) (hknown : Known P k) :
    ListsKnown P s (vgicAddSpilled v k s) := by
  rcases vgicAddSpilled_cases v k s with h | ⟨-, -, hcr, h⟩
  · rw [h]
    exact refl s
  · rw [h]
    have hpush : ListsKnown P s (pushSpilled v k s) := by
      unfold pushSpilled
      split
      · intro k' hk'
        rcases hk' with hk' | ⟨w, hk'⟩
        · exact Or.inl (Or.inl hk')
        · by_cases hw : w = v
          · subst hw
            rw [VgicState.updCpu_cpus_same, List.mem_append, List.mem_singleton] at hk'
            rcases hk' with hk' | rfl
            · exact Or.inl (Or.inr ⟨w, hk'⟩)
            · exact Or.inr hknown
          · rw [VgicState.updCpu_cpus_ne _ _ hw] at hk'
            exact Or.inl (Or.inr ⟨w, hk'⟩)
      · intro k' hk'
        rcases hk' with hk' | ⟨w, hk'⟩
        · rcases List.mem_append.mp hk' with hk' | hk'
          · exact Or.inl (Or.inl hk')
          · rw [List.mem_singleton.mp hk']
            exact Or.inr hknown
        · exact Or.inl (Or.inr ⟨w, hk'⟩)
    exact (hpush.trans (ofEq rfl fun _ => rfl)).trans (updCpu _ v rfl)

theorem removeSpilled (v : Nat) (k : IntKey) (s : VgicState) :
    ListsKnown P s (vgicRemoveSpilled v k s) := by
  have hrm : ListsKnown P s (rmSpilled v k s) := by
    unfold rmSpilled
    split
    · refine ofSub (fun _ hk => hk) fun w k' hk' => ?_
      by_cases hw : w = v
      · subst hw
        rw [VgicState.updCpu_cpus_same] at hk'
        exact List.mem_of_mem_erase hk'
      · rw [VgicState.updCpu_cpus_ne _ _ hw] at hk'
        exact hk'
    · exact ofSub (fun _ hk => List.mem_of_mem_erase hk) fun _ _ hk => hk
  exact hrm.trans (ofEq rfl fun _ => rfl)

theorem yield (v : Nat) (k : IntKey) (s : VgicState) :
    ListsKnown P s (vgicYieldOwnership P v k s) := by
  refine ofEq ?_ fun w => by rw [vgicYieldOwnership_cpus]
  rcases vgicYieldOwnership_cases (P := P) v k s with h | ⟨-, -, -, -, h⟩ <;> rw [h]
  rfl

theorem getOwnership (v : Nat) (k : IntKey) (s : VgicState) :
    ListsKnown P s (vgicGetOwnership v k s).2 := by
  refine ofEq ?_ fun w => by rw [vgicGetOwnership_cpus]
  rcases vgicGetOwnership_cases v k s with ⟨-, h⟩ | ⟨-, h⟩ | ⟨-, h⟩ <;> rw [h]
  rfl

theorem removeLr (v : Nat) (k : IntKey) (s : VgicState) :
    ListsKnown P s (vgicRemoveLr P v k s) := by
  rcases vgicRemoveLr_cases (P := P) v k s with ⟨h, -⟩ | ⟨-, -, -, h⟩ | ⟨-, -, -, -, h⟩
  · rw [h]
    exact refl s
  · rw [h]
    exact ofEq rfl fun _ => rfl
  · rw [h]
    have hwrite : ListsKnown P s (s.gichWriteLr v (s.ints k).lr .zero) := updCpu s v rfl
    exact (hwrite.trans (ofEq rfl fun _ => rfl)).trans
      (ListsKnown.trans (ofEq rfl fun _ => rfl) (updCpu _ v rfl))

theorem writeLr (v : Nat) (k : IntKey) (lrInd : Nat) (s : VgicState) :
    ListsKnown P s (vgicWriteLr P v k lrInd s) := by
  have hrelease : ListsKnown P s (releaseOccupant P v k lrInd s) := by
    rcases releaseOccupant_cases (P := P) v k lrInd s with h | ⟨k', -, -, -, -, -, -, h⟩
    · rw [h]
      exact refl s
    · rw [h]
      exact ListsKnown.trans (ofEq rfl fun _ => rfl) (yield v k' _)
  refine hrelease.trans (ofEq rfl fun w => ?_)
  rw [vgicWriteLr]
  by_cases hw : w = v
  · subst hw
    rw [fillLr_cpu]
  · rw [fillLr_cpus_ne _ _ _ _ hw]

theorem quiet (h : Quiet v s s') : ListsKnown P s s' := by
  refine ofEq h.spilled fun w => ?_
  by_cases hw : w = v
  · subst hw
    exact h.own
  · rw [h.others w hw]

theorem move (h : VgicMove P A v s s') : ListsKnown P s s' := by
  cases h with
  | take k hown => exact ofEq rfl fun _ => rfl
  | yield k => exact yield v k s
  | spill k hknown hmine => exact addSpilled v s hknown
  | remove k => exact removeLr v k s
  | silent h => exact quiet h.toQuiet
  | calm flags hpend hnone => exact quiet (Quiet.setHcr s _)
  | writeBack hcr hcr' hpc hnpie => exact quiet (Quiet.setHcr s _)
  | place k lrInd hmay hplace =>
    unfold placeInLr
    split
    · exact (removeSpilled v k s).trans (writeLr v k lrInd _)
    · exact writeLr v k lrInd s

theorem moves (h : VgicMoves P A v s s') : ListsKnown P s s' := by
  induction h with
  | refl => exact refl s
  | tail _ hmove ih => exact ih.trans (move hmove)

theorem does {d : VgicDeed} (h : Does P v d s s') : ListsKnown P s s' := by
  cases h with
  | nothing => exact refl s
  | field reg k data tag hgot =>
    exact ((getOwnership v k s).trans (removeLr v k _)).trans (ofEq rfl fun _ => rfl)
  | forward reg k vgicrId data tag hgot => exact quiet (Quiet.forwardToOwner (v := v) P s k _)
  | setRoute k route =>
    unfold vgicIntSetRoute
    split
    · exact refl s
    · exact ofEq rfl fun _ => rfl
  | hw k hhw hmine => exact ofEq rfl fun _ => rfl
  | source k src hpriv hsgi => exact (removeLr v k s).trans (ofEq rfl fun _ => rfl)
  | zeroLr lrInd hinv => exact updCpu s v rfl
  | clearLr lrInd k hinv =>
    have hzero : ListsKnown P s (s.gichWriteLr v lrInd .zero) := updCpu s v rfl
    exact hzero.trans (ofEq rfl fun _ => rfl)
  | refill k lrInd hbound hinv hknown hin hgot =>
    exact ((getOwnership v k s).trans (removeSpilled v k _)).trans (writeLr v k lrInd _)
  | unlist k hknown hin hgot =>
    exact ((getOwnership v k s).trans (removeSpilled v k _)).trans (ofEq rfl fun _ => rfl)
  | ackLr lrInd hbound hpend => exact updCpu s v rfl
  | deactLr lrInd hbound hact => exact updCpu s v rfl

end ListsKnown

/-- Every CPU in the maintenance handler is at a place that fits its list
registers, and only interrupts of the VM are listed. -/
structure HandlersOk (s : VgicState) : Prop where
  pc : ∀ v, PcAt P (s.cpus v) (s.cpus v).pc
  lists : ∀ k, Listed s k → Known P k

namespace HandlersOk

variable {P}
variable {s s' : VgicState} {e : VgicEvent}

theorem init (h : VgicInit P s) : HandlersOk P s where
  pc v := by
    rw [h.cpus v]
    exact trivial
  lists k hk := by
    rcases hk with hk | ⟨w, hk⟩
    · rw [h.spilled] at hk
      cases hk
    · rw [h.cpus w] at hk
      cases hk

theorem mine (h : HandlersOk P s) (v : Nat) :
    ∀ k ∈ (s.cpus v).spilled ++ s.spilled, Known P k := by
  intro k hk
  rcases List.mem_append.mp hk with hk | hk
  · exact h.lists k (Or.inr ⟨v, hk⟩)
  · exact h.lists k (Or.inl hk)

/-- The parts of a step: from the state it starts from its deed, then moves,
then at most the handler goes on. -/
theorem parts (h : HandlersOk P s) (hen : e.enabled P s) :
    ∃ s₁ s₂, Does P e.vcpu (e.deed P s) (e.begin P s) s₁ ∧
      VgicMoves P (fun _ _ _ => True) e.vcpu s₁ s₂ ∧
      (e.next P s = s₂ ∨ ∃ pc, e.next P s = goTo e.vcpu pc s₂) := by
  obtain ⟨s₂, ⟨s₁, hdoes, hmoves⟩, hend⟩ := VgicEvent.next_shape (A := fun _ _ _ => True) hen
    (h.mine e.vcpu) (h.pc e.vcpu) (fun _ _ _ => trivial) (fun _ _ _ => trivial)
    (fun _ _ _ _ => trivial)
  refine ⟨s₁, s₂, hdoes, hmoves, ?_⟩
  rcases hend with ⟨-, hnext⟩ | ⟨-, pc, hnext, -⟩
  · exact Or.inl hnext
  · exact Or.inr ⟨pc, hnext⟩

theorem others (h : HandlersOk P s) (hen : e.enabled P s) {w : Nat} (hw : w ≠ e.vcpu) :
    (e.next P s).cpus w = s.cpus w := by
  obtain ⟨s₁, s₂, hdoes, hmoves, hend⟩ := h.parts hen
  have hown := (OwnPart.quiet (VgicEvent.begin_quiet (P := P) e s)).trans
    ((OwnPart.does hdoes).trans (.moves hmoves))
  rcases hend with hnext | ⟨pc, hnext⟩
  · rw [hnext, hown.others w hw]
  · rw [hnext, goTo, VgicState.updCpu_cpus_ne _ _ hw, hown.others w hw]

theorem guest (h : HandlersOk P s) (hen : e.enabled P s) (hop : e.op ≠ .maintain) :
    ((e.next P s).cpus e.vcpu).pc = .guest := by
  obtain ⟨s₁, ⟨s₂, hdoes, hmoves⟩, hend⟩ := VgicEvent.next_shape (A := fun _ _ _ => True) hen
    (h.mine e.vcpu) (h.pc e.vcpu) (fun _ _ _ => trivial) (fun _ _ _ => trivial)
    (fun _ _ _ _ => trivial)
  rcases hend with ⟨hguest, hnext⟩ | ⟨hmaintain, -⟩
  · have hown := (OwnPart.quiet (VgicEvent.begin_quiet (P := P) e s)).trans
      ((OwnPart.does hdoes).trans (.moves hmoves))
    rw [hnext, hown.pc, hguest]
  · exact absurd hmaintain hop

theorem next (h : HandlersOk P s) (hen : e.enabled P s) : HandlersOk P (e.next P s) := by
  obtain ⟨s₁, hacts, hend⟩ := VgicEvent.next_shape (A := fun _ _ _ => True) hen (h.mine e.vcpu)
    (h.pc e.vcpu) (fun _ _ _ => trivial) (fun _ _ _ => trivial) (fun _ _ _ _ => trivial)
  have hbegin := VgicEvent.begin_quiet (P := P) e s
  obtain ⟨s₂, hdoes, hmoves⟩ := hacts
  have hown := (OwnPart.quiet hbegin).trans ((OwnPart.does hdoes).trans (.moves hmoves))
  have hlists := ((ListsKnown.quiet hbegin).trans (.does hdoes)).trans (.moves hmoves)
  refine ⟨fun w => ?_, fun k hk => ?_⟩
  · by_cases hw : w = e.vcpu
    · subst hw
      rcases hend with ⟨hguest, hnext⟩ | ⟨-, pc, hnext, hat⟩
      · rw [hnext, hown.pc, hguest]
        exact trivial
      · rw [hnext, goTo, VgicState.updCpu_cpus_same]
        cases pc <;> exact hat
    · rw [h.others hen hw]
      exact h.pc w
  · have hall : ListsKnown P s (e.next P s) := by
      rcases hend with ⟨-, hnext⟩ | ⟨-, pc, hnext, -⟩
      · rw [hnext]
        exact hlists
      · rw [hnext]
        exact hlists.trans (.updCpu s₁ e.vcpu rfl)
    rcases hall k hk with hk' | hk'
    · exact h.lists k hk'
    · exact hk'

end HandlersOk

end Bao

import BaoHypervisor.VgicHandlers

/-!
# Where an interrupt is

A valid list register of a vCPU names an interrupt that the vCPU owns and whose
structure records that register, so an interrupt is in one list register at
most.  Every move keeps this, and every deed but two: the injection of a
physical interrupt and the end of a trapped EOI clear `in_lr` without a look at
the list registers.
-/

namespace Bao

variable (P : VgicPlat)

/-- A valid list register of a vCPU of the VM names the interrupt. -/
def Names (s : VgicState) (v i : Nat) (k : IntKey) : Prop :=
  v < P.vcpuNum ∧ i < P.numLrs ∧ ((s.cpus v).lrs i).state ≠ .inv ∧
    vgicGetInt P ((s.cpus v).lrs i).vid v = some k

/-- No valid list register names the interrupt. -/
def Unheld (s : VgicState) (k : IntKey) : Prop :=
  ∀ v, v < P.vcpuNum → ∀ i, i < P.numLrs → ¬ (((s.cpus v).lrs i).state ≠ .inv ∧
    vgicGetInt P ((s.cpus v).lrs i).vid v = some k)

/-- List registers and records agree, for all interrupts but `X`; private
interrupts stay with their vCPU, an interrupt in a list register has an owner,
and a spilled one is in none. -/
structure Lodged (X : IntKey → Prop) (s : VgicState) : Prop where
  placed : ∀ {v i : Nat} {k : IntKey}, Names P s v i k → ¬ X k →
    (s.ints k).owner = some v ∧ (s.ints k).inLr = true ∧ (s.ints k).lr = i
  privOwner : ∀ v id, id < gicCpuPriv → (s.ints (.priv v id)).owner = some v
  owned : ∀ k, (s.ints k).inLr = true → (s.ints k).owner ≠ none
  out : ∀ k, (s.ints k).inSpilled = true → (s.ints k).inLr = false

/-- A step that clears `in_lr` finds no list register holding the
interrupt, unless it is one of `X`. -/
def KeepsRecords (X : IntKey → Prop) (s : VgicState) (e : VgicEvent) : Prop :=
  match e.deed P s with
  | .hw k => Unheld P s k
  | .clearLr _ k => X k ∨ Unheld P s k
  | _ => True

variable {P} {X : IntKey → Prop} {s s' : VgicState} {v : Nat} {k : IntKey}

theorem Unheld.not_names (h : Unheld P s k) {w i : Nat} : ¬ Names P s w i k :=
  fun hn => h w hn.1 i hn.2.1 hn.2.2

theorem Unheld.quiet (h : Unheld P s k) (hq : Quiet v s s') : Unheld P s' k := by
  intro w hw i hi hn
  refine h w hw i hi ?_
  by_cases hwv : w = v
  · subst hwv
    rw [hq.lrs] at hn
    exact hn
  · rw [hq.others w hwv] at hn
    exact hn

theorem names_lrs (h : ∀ w, (s'.cpus w).lrs = (s.cpus w).lrs) {w i : Nat}
    (hn : Names P s' w i k) : Names P s w i k := by
  unfold Names at hn ⊢
  rw [h w] at hn
  exact hn

theorem vgicGetInt_priv {id w u id' : Nat} (h : vgicGetInt P id w = some (.priv u id')) :
    id' < gicCpuPriv := by
  unfold vgicGetInt at h
  split at h
  · rename_i hlt
    cases h
    exact hlt
  · split at h <;> cases h

namespace Lodged

theorem unheld_of_out (h : Lodged P X s) (hX : ¬ X k) (hout : (s.ints k).inLr = false) {w i : Nat} :
    ¬ Names P s w i k := by
  intro hn
  have hin := (h.placed hn hX).2.1
  rw [hout] at hin
  cases hin

/-- **One interrupt changes**, and no register comes to name another: what
has to be shown is about that interrupt. -/
theorem change (h : Lodged P X s) (k : IntKey)
    (hnames : ∀ w i k', Names P s' w i k' → Names P s w i k')
    (hne : ∀ k', k' ≠ k → s'.ints k' = s.ints k')
    (hplaced : ∀ w i, Names P s' w i k → ¬ X k →
      (s'.ints k).owner = some w ∧ (s'.ints k).inLr = true ∧ (s'.ints k).lr = i)
    (hpriv : ∀ w id, k = .priv w id → id < gicCpuPriv → (s'.ints k).owner = some w)
    (howned : (s'.ints k).inLr = true → (s'.ints k).owner ≠ none)
    (hout : (s'.ints k).inSpilled = true → (s'.ints k).inLr = false) : Lodged P X s' where
  placed {w i k'} hn hX := by
    by_cases hk : k' = k
    · subst hk
      exact hplaced w i hn hX
    · rw [hne k' hk]
      exact h.placed (hnames w i k' hn) hX
  privOwner w id hid := by
    by_cases hk : IntKey.priv w id = k
    · rw [hk]
      exact hpriv w id hk.symm hid
    · rw [hne _ hk]
      exact h.privOwner w id hid
  owned k' hin := by
    by_cases hk : k' = k
    · subst hk
      exact howned hin
    · rw [hne k' hk] at hin ⊢
      exact h.owned k' hin
  out k' hsp := by
    by_cases hk : k' = k
    · subst hk
      exact hout hsp
    · rw [hne k' hk] at hsp ⊢
      exact h.out k' hsp

theorem same (h : Lodged P X s) (hnames : ∀ w i k, Names P s' w i k → Names P s w i k)
    (hints : s'.ints = s.ints) : Lodged P X s' := by
  refine ⟨fun {w i k} hn hX => ?_, fun w id hid => ?_, fun k hin => ?_, fun k hsp => ?_⟩
  · rw [hints]
    exact h.placed (hnames w i k hn) hX
  · rw [hints]
    exact h.privOwner w id hid
  · rw [hints] at hin ⊢
    exact h.owned k hin
  · rw [hints] at hsp ⊢
    exact h.out k hsp

theorem updInt (h : Lodged P X s) {f : VgicInt → VgicInt}
    (hf : (f (s.ints k)).owner = (s.ints k).owner ∧ (f (s.ints k)).inLr = (s.ints k).inLr ∧
      (f (s.ints k)).lr = (s.ints k).lr ∧ (f (s.ints k)).inSpilled = (s.ints k).inSpilled) :
    Lodged P X (s.updInt k f) := by
  have hint : (s.updInt k f).ints k = f (s.ints k) := VgicState.updInt_ints_same s k f
  obtain ⟨hown, hin, hlr, hsp⟩ := hf
  refine h.change k (fun _ _ _ hn => names_lrs (fun _ => rfl) hn)
    (fun k' hk => VgicState.updInt_ints_ne s f hk) ?_ ?_ ?_ ?_ <;> rw [hint]
  · intro w i hn hX
    rw [hown, hin, hlr]
    exact h.placed (names_lrs (fun _ => rfl) hn) hX
  · intro w id hk hid
    rw [hown, hk]
    exact h.privOwner w id hid
  · rw [hown, hin]
    exact h.owned k
  · rw [hsp, hin]
    exact h.out k

theorem quiet (h : Lodged P X s) (hq : Quiet v s s') : Lodged P X s' := by
  refine h.same (fun w i k hn => names_lrs (fun w => ?_) hn) hq.ints
  by_cases hw : w = v
  · subst hw
    exact hq.lrs
  · rw [hq.others w hw]

theorem take (h : Lodged P X s) (hown : (s.ints k).owner = none) :
    Lodged P X (s.updInt k fun i => { i with owner := some v }) := by
  refine h.change k (fun _ _ _ hn => names_lrs (fun _ => rfl) hn)
    (fun k' hk => VgicState.updInt_ints_ne s _ hk) ?_ ?_ ?_ ?_ <;>
    rw [VgicState.updInt_ints_same]
  · intro w i hn hX
    have hold := (h.placed (names_lrs (fun _ => rfl) hn) hX).1
    rw [hown] at hold
    cases hold
  · intro w id hk hid
    have hold := h.privOwner w id hid
    rw [← hk, hown] at hold
    cases hold
  · exact fun _ hnone => by cases hnone
  · exact h.out k

theorem getOwnership (h : Lodged P X s) (v : Nat) (k : IntKey) :
    Lodged P X (vgicGetOwnership v k s).2 := by
  rcases vgicGetOwnership_cases v k s with ⟨-, hget⟩ | ⟨hown, hget⟩ | ⟨-, hget⟩ <;> rw [hget]
  · exact h
  · exact h.take hown
  · exact h

theorem yield (h : Lodged P X s) (v : Nat) (k : IntKey) :
    Lodged P X (vgicYieldOwnership P v k s) := by
  rcases vgicYieldOwnership_cases (P := P) v k s with hy | ⟨hpriv, -, hout, -, hy⟩ <;> rw [hy]
  · exact h
  · refine h.change k (fun _ _ _ hn => names_lrs (fun _ => rfl) hn)
      (fun k' hk => VgicState.updInt_ints_ne s _ hk) ?_ ?_ ?_ ?_ <;>
      rw [VgicState.updInt_ints_same]
    · exact fun w i hn hX => (h.unheld_of_out hX hout (names_lrs (fun _ => rfl) hn)).elim
    · intro w id hk hid
      rw [hk] at hpriv
      exact (Bool.eq_false_iff.mp hpriv (decide_eq_true hid)).elim
    · intro hin
      rw [hout] at hin
      cases hin
    · exact fun _ => hout

theorem spill (h : Lodged P X s) (v : Nat) (k : IntKey) : Lodged P X (vgicAddSpilled v k s) := by
  rcases vgicAddSpilled_cases v k s with hs | ⟨hout, -, -⟩
  · rw [hs]
    exact h
  · have hlrs : ∀ w, ((vgicAddSpilled v k s).cpus w).lrs = (s.cpus w).lrs :=
      fun w => (vgicAddSpilled_lrs v k s w).1
    obtain ⟨b, hb⟩ := vgicAddSpilled_ints v k s k
    refine h.change k (fun _ _ _ hn => names_lrs hlrs hn)
      (fun k' hk => vgicAddSpilled_ints_ne v k s hk) ?_ ?_ ?_ ?_ <;> rw [hb]
    · exact fun w i hn hX => h.placed (names_lrs hlrs hn) hX
    · intro w id hk hid
      rw [hk]
      exact h.privOwner w id hid
    · exact h.owned k
    · exact fun _ => hout

theorem removeSpilled (h : Lodged P X s) (v : Nat) (k : IntKey) :
    Lodged P X (vgicRemoveSpilled v k s) := by
  have hlrs : ∀ w, ((vgicRemoveSpilled v k s).cpus w).lrs = (s.cpus w).lrs :=
    fun w => (vgicRemoveSpilled_lrs v k s w).1
  refine h.change k (fun _ _ _ hn => names_lrs hlrs hn)
    (fun k' hk => vgicRemoveSpilled_ints_ne v k s hk) ?_ ?_ ?_ ?_ <;> rw [vgicRemoveSpilled_int]
  · exact fun w i hn hX => h.placed (names_lrs hlrs hn) hX
  · intro w id hk hid
    rw [hk]
    exact h.privOwner w id hid
  · exact h.owned k
  · exact fun hsp => by cases hsp

theorem names_zero {v i : Nat} {w j : Nat} {k : IntKey}
    (hn : Names P (s.gichWriteLr v i .zero) w j k) :
    Names P s w j k ∧ ¬ (w = v ∧ j = i) := by
  unfold Names VgicState.gichWriteLr at hn
  by_cases hw : w = v
  · subst hw
    rw [VgicState.updCpu_cpus_same] at hn
    dsimp only at hn
    by_cases hj : j = i
    · subst hj
      rw [atCpu_same] at hn
      exact (hn.2.2.1 rfl).elim
    · rw [atCpu_other _ _ hj] at hn
      exact ⟨hn, fun h => hj h.2⟩
  · rw [VgicState.updCpu_cpus_ne _ _ hw] at hn
    exact ⟨hn, fun h => hw h.1⟩

theorem removeLr (h : Lodged P X s) (v : Nat) (k : IntKey) :
    Lodged P X (vgicRemoveLr P v k s) := by
  rcases vgicRemoveLr_cases (P := P) v k s with ⟨hr, -⟩ | ⟨hown, hin, hno, hr⟩ |
    ⟨hown, hin, hvid, hvalid, hr⟩
  · rw [hr]
    exact h
  · rw [hr]
    refine h.change k (fun _ _ _ hn => names_lrs (fun _ => rfl) hn)
      (fun k' hk => VgicState.updInt_ints_ne s _ hk) ?_ ?_ ?_ ?_ <;>
      rw [VgicState.updInt_ints_same]
    · -- the register it is recorded in is not its own any more
      intro w i hn hX
      have hold : Names P s w i k := names_lrs (fun _ => rfl) hn
      obtain ⟨hw, -, hlr⟩ := h.placed hold hX
      rw [hown] at hw
      cases hw
      rw [hlr] at hno
      exact (hno ⟨(vgicGetInt_id hold.2.2.2).symm, hold.2.2.1⟩).elim
    · intro w id hk hid
      rw [hk]
      exact h.privOwner w id hid
    · exact fun hin => by cases hin
    · exact fun _ => rfl
  · rw [hr]
    have hnames : ∀ w i k', Names P (takeLrState P v k ((s.cpus v).lrs (s.ints k).lr)
        ((s.gichWriteLr v (s.ints k).lr .zero).updInt k fun i => { i with inLr := false })) w i k' →
        Names P s w i k' ∧ ¬ (w = v ∧ i = (s.ints k).lr) := by
      intro w i k' hn
      refine names_zero (names_lrs (fun w => ?_) hn)
      unfold takeLrState VgicState.gichSetHcr
      by_cases hw : w = v
      · subst hw
        rw [VgicState.updCpu_cpus_same]
        rfl
      · rw [VgicState.updCpu_cpus_ne _ _ hw]
        rfl
    refine h.change k (fun w i k' hn => (hnames w i k' hn).1) (fun k' hk => ?_) ?_ ?_ ?_ ?_
    · rw [takeLrState_ints_ne _ _ _ _ hk, VgicState.updInt_ints_ne _ _ hk]
      rfl
    · intro w i hn hX
      obtain ⟨hold, hne⟩ := hnames w i k hn
      obtain ⟨hw, -, hlr⟩ := h.placed hold hX
      rw [hown] at hw
      cases hw
      exact (hne ⟨rfl, hlr.symm⟩).elim
    · intro w id hk hid
      have hpriv := h.privOwner w id hid
      rw [← hk] at hpriv
      simpa [takeLrState, VgicState.gichSetHcr, VgicState.gichWriteLr] using hpriv
    · intro hin
      simp [takeLrState, VgicState.gichSetHcr] at hin
    · intro _
      simp [takeLrState, VgicState.gichSetHcr]

/-- Taking the register from its previous occupant, when no valid register of
that number is left. -/
theorem releaseOccupant (h : Lodged P X s) {lrInd : Nat}
    (hroom : ∀ k', Names P s v lrInd k' → X k') :
    Lodged P X (releaseOccupant P v k lrInd s) := by
  rcases releaseOccupant_cases (P := P) v k lrInd s with hr | ⟨k', -, -, hpriv, hown, hin, hlr, hr⟩
  · rw [hr]
    exact h
  · rw [hr]
    refine Lodged.yield ?_ v k'
    refine h.change k' (fun _ _ _ hn => names_lrs (fun _ => rfl) hn)
      (fun k'' hk => VgicState.updInt_ints_ne s _ hk) ?_ ?_ ?_ ?_ <;>
      rw [VgicState.updInt_ints_same]
    · intro w i hn hX
      have hold : Names P s w i k' := names_lrs (fun _ => rfl) hn
      obtain ⟨hw, -, hi⟩ := h.placed hold hX
      rw [hown] at hw
      cases hw
      rw [hlr] at hi
      subst hi
      exact (hX (hroom k' hold)).elim
    · intro w id hk hid
      rw [hk]
      exact h.privOwner w id hid
    · exact fun hin => by cases hin
    · exact fun _ => rfl

theorem names_fill {lrInd : Nat} {w j : Nat} {k' : IntKey}
    (hn : Names P (fillLr P v k lrInd s) w j k') :
    (w = v ∧ j = lrInd ∧ vgicGetInt P (newLr v k s (P := P)).vid v = some k') ∨
      (Names P s w j k' ∧ ¬ (w = v ∧ j = lrInd)) := by
  unfold Names at hn
  by_cases hw : w = v
  · subst hw
    rw [fillLr_cpu] at hn
    dsimp only at hn
    by_cases hj : j = lrInd
    · subst hj
      rw [atCpu_same] at hn
      exact Or.inl ⟨rfl, rfl, hn.2.2.2⟩
    · rw [atCpu_other _ _ hj] at hn
      exact Or.inr ⟨hn, fun h => hj h.2⟩
  · rw [fillLr_cpus_ne _ _ _ _ hw] at hn
    exact Or.inr ⟨hn, fun h => hw h.1⟩

theorem newLr_vid (v : Nat) (k : IntKey) (s : VgicState) : (newLr v k s (P := P)).vid = k.id := by
  unfold newLr lrValue
  dsimp only
  split
  · rfl
  · split
    · split
      · rfl
      · split <;> rfl
    · rfl

/-- An interrupt of the VM that is a vCPU's own or shared is what that vCPU
finds under its id. -/
theorem known_mine (h : Lodged P X s) (hknown : Known P k) (hown : (s.ints k).owner = some v) :
    vgicGetInt P k.id v = some k := by
  obtain ⟨w, hw⟩ := hknown
  cases k with
  | shared id =>
    unfold vgicGetInt IntKey.id at hw ⊢
    by_cases hlt : id < gicCpuPriv
    · rw [if_pos hlt] at hw
      cases hw
    · rw [if_neg hlt] at hw ⊢
      exact hw
  | priv u id =>
    have hlt := vgicGetInt_priv hw
    have hpriv := h.privOwner u id hlt
    rw [hown] at hpriv
    cases hpriv
    exact if_pos hlt

/-- **Writing a list register** of the interrupt's owner, with the interrupt in
none and the register free. -/
theorem writeLr (h : Lodged P X s) {lrInd : Nat} (hknown : Known P k)
    (hown : (s.ints k).owner = some v) (hout : (s.ints k).inLr = false)
    (hsp : (s.ints k).inSpilled = false) (hroom : ∀ k', Names P s v lrInd k' → X k') :
    Lodged P X (vgicWriteLr P v k lrInd s) := by
  have hint := releaseOccupant_ints (P := P) v k lrInd s
  have hrel := h.releaseOccupant (v := v) (k := k) hroom
  rw [vgicWriteLr]
  generalize Bao.releaseOccupant P v k lrInd s = s₁ at hint hrel
  rw [← hint] at hown hout hsp
  have hmine := hrel.known_mine hknown hown
  refine ⟨fun {w i k'} hn hX => ?_, fun w id hid => ?_, fun k' hin => ?_, fun k' hsp' => ?_⟩
  · rcases names_fill hn with ⟨rfl, rfl, hname⟩ | ⟨hold, -⟩
    · rw [newLr_vid, hmine] at hname
      cases hname
      rw [fillLr_int]
      exact ⟨hown, rfl, rfl⟩
    · have hk : k' ≠ k := by
        rintro rfl
        exact hrel.unheld_of_out hX hout hold
      rw [fillLr_ints_ne _ _ _ _ hk]
      exact hrel.placed hold hX
  · have hpriv := hrel.privOwner w id hid
    by_cases hk : IntKey.priv w id = k
    · rw [hk] at hpriv ⊢
      rw [fillLr_int]
      exact hpriv
    · rw [fillLr_ints_ne _ _ _ _ hk]
      exact hpriv
  · by_cases hk : k' = k
    · subst hk
      rw [fillLr_int]
      exact fun hnone => by rw [hown] at hnone; cases hnone
    · rw [fillLr_ints_ne _ _ _ _ hk] at hin ⊢
      exact hrel.owned k' hin
  · by_cases hk : k' = k
    · subst hk
      rw [fillLr_int] at hsp'
      rw [hsp] at hsp'
      cases hsp'
    · rw [fillLr_ints_ne _ _ _ _ hk] at hsp' ⊢
      exact hrel.out k' hsp'

theorem owner_of_mayPlace (h : Lodged P X s) (hX : ∀ k, X k → gicIsPriv k.id = true)
    {lrInd : Nat} (hv : v < P.vcpuNum) (hmay : MayPlace P v k lrInd s) :
    (s.ints k).owner = some v := by
  have hprivate : ∀ id, k = .priv v id → (s.ints k).owner = some v := by
    rintro id rfl
    obtain ⟨w, hw⟩ := hmay.known
    exact h.privOwner v id (vgicGetInt_priv hw)
  rcases hmay.mine with hown | ⟨id, hid⟩ | ⟨hvalid, hname⟩
  · exact hown
  · exact hprivate id hid
  · by_cases hXk : X k
    · have hid := vgicGetInt_id hname
      have hname' := hname
      unfold vgicGetInt at hname'
      rw [if_pos (of_decide_eq_true (hid ▸ hX k hXk))] at hname'
      cases hname'
      exact hprivate _ rfl
    · have hout := hmay.out
      exact (h.placed ⟨hv, hmay.bound, hvalid, hname⟩ hXk).1

theorem room_of_mayPlace (h : Lodged P X s) {lrInd : Nat} (hmay : MayPlace P v k lrInd s) :
    ∀ k', Names P s v lrInd k' → X k' := by
  intro k' hn
  rcases hmay.room with hinv | hno
  · exact (hn.2.2.1 hinv).elim
  · by_cases hX : X k'
    · exact hX
    · exact (hno k' hn.2.2.2 (h.placed hn hX)).elim

theorem placeInLr (h : Lodged P X s) (hX : ∀ k, X k → gicIsPriv k.id = true) {lrInd : Nat}
    (hv : v < P.vcpuNum) (hmay : MayPlace P v k lrInd s) :
    Lodged P X (placeInLr P v k lrInd s) := by
  have hown := h.owner_of_mayPlace hX hv hmay
  have hroom := h.room_of_mayPlace hmay
  unfold Bao.placeInLr
  split
  · have hint := vgicRemoveSpilled_int v k s
    refine (h.removeSpilled v k).writeLr hmay.known ?_ ?_ ?_ fun k' hn => hroom k' ?_
    · rw [hint]
      exact hown
    · rw [hint]
      exact hmay.out
    · rw [hint]
    · exact names_lrs (fun w => (vgicRemoveSpilled_lrs v k s w).1) hn
  · rename_i hsp
    exact h.writeLr hmay.known hown hmay.out (Bool.eq_false_iff.mpr hsp) hroom

/-- **A move** keeps list registers and records in agreement. -/
theorem move {A : Nat → IntKey → VgicInt → Prop} (hX : ∀ k, X k → gicIsPriv k.id = true)
    (hv : v < P.vcpuNum) (h : Lodged P X s) (hmove : VgicMove P A v s s') : Lodged P X s' := by
  cases hmove with
  | take k hown => exact h.take hown
  | yield k => exact h.yield v k
  | spill k hknown hmine => exact h.spill v k
  | remove k => exact h.removeLr v k
  | place k lrInd hmay hplace => exact h.placeInLr hX hv hmay
  | silent hq => exact h.quiet hq.toQuiet
  | calm flags hpend hnone => exact h.quiet (Quiet.setHcr s _)
  | writeBack hcr hcr' hpc hnpie => exact h.quiet (Quiet.setHcr s _)

theorem moves {A : Nat → IntKey → VgicInt → Prop} (hX : ∀ k, X k → gicIsPriv k.id = true)
    (hv : v < P.vcpuNum) (h : Lodged P X s) (hmoves : VgicMoves P A v s s') : Lodged P X s' := by
  induction hmoves with
  | refl => exact h
  | tail _ hmove ih => exact ih.move hX hv hmove

theorem guestLr_names {lrInd : Nat} {f : IntState → IntState}
    (hf : ((s.cpus v).lrs lrInd).state = .inv → f ((s.cpus v).lrs lrInd).state = .inv)
    {w i : Nat} (hn : Names P (guestLr v lrInd f s) w i k) : Names P s w i k := by
  unfold Names guestLr VgicState.gichWriteLr at hn
  by_cases hw : w = v
  · subst hw
    rw [VgicState.updCpu_cpus_same] at hn
    dsimp only at hn
    by_cases hi : i = lrInd
    · subst hi
      rw [atCpu_same] at hn
      exact ⟨hn.1, hn.2.1, fun hinv => hn.2.2.1 (hf hinv), hn.2.2.2⟩
    · rw [atCpu_other _ _ hi] at hn
      exact hn
  · rw [VgicState.updCpu_cpus_ne _ _ hw] at hn
    exact hn

theorem guestLr_lodged (h : Lodged P X s) {lrInd : Nat} {f : IntState → IntState}
    (hf : ((s.cpus v).lrs lrInd).state = .inv → f ((s.cpus v).lrs lrInd).state = .inv) :
    Lodged P X (guestLr v lrInd f s) :=
  h.same (fun _ _ _ hn => guestLr_names hf hn) rfl

/-- **A deed** keeps list registers and records in agreement, where those that
clear `in_lr` find no register holding the interrupt. -/
theorem does {d : VgicDeed} (h : Lodged P X s) (hd : Does P v d s s')
    (hhw : ∀ k, d = .hw k → Unheld P s k)
    (hclear : ∀ i k, d = .clearLr i k → X k ∨ Unheld P s k) : Lodged P X s' := by
  cases hd with
  | nothing => exact h
  | field reg k data tag hgot =>
    have hupd := ((h.getOwnership v k).removeLr v k).updInt (k := k)
      (updateField_frame (P := P) reg k data _)
    exact hupd.same (fun _ _ _ hn => names_lrs (fun _ => rfl) hn) rfl
  | forward reg k vgicrId data tag hgot => exact h.quiet (Quiet.forwardToOwner (v := v) P s k _)
  | setRoute k route =>
    unfold vgicIntSetRoute
    split
    · exact h
    · exact h.updInt ⟨rfl, rfl, rfl, rfl⟩
  | hw k hhw' hmine =>
    refine h.change k (fun _ _ _ hn => names_lrs (fun _ => rfl) hn)
      (fun k' hk => VgicState.updInt_ints_ne s _ hk) ?_ ?_ ?_ ?_ <;>
      rw [takeHw, VgicState.updInt_ints_same]
    · exact fun w i hn hX => ((hhw k rfl).not_names (names_lrs (fun _ => rfl) hn)).elim
    · intro w id hk hid
      obtain ⟨id', hname⟩ := hmine
      rw [hk] at hname
      rw [vgicGetInt_mine hname]
    · exact fun hin => by cases hin
    · exact fun _ => rfl
  | source k src hpriv hsgi => exact (h.removeLr v k).updInt ⟨rfl, rfl, rfl, rfl⟩
  | zeroLr lrInd hinv => exact h.same (fun _ _ _ hn => (names_zero hn).1) rfl
  | clearLr lrInd k hinv =>
    have hnames : ∀ w i k', Names P ((s.gichWriteLr v lrInd .zero).updInt k fun i =>
        { i with inLr := false }) w i k' → Names P s w i k' :=
      fun w i k' hn => (names_zero (names_lrs (fun _ => rfl) hn)).1
    refine h.change k hnames (fun k' hk => VgicState.updInt_ints_ne _ _ hk) ?_ ?_ ?_ ?_ <;>
      rw [VgicState.updInt_ints_same]
    · intro w i hn hX
      rcases hclear lrInd k rfl with hXk | hno
      · exact (hX hXk).elim
      · exact (hno.not_names (hnames w i k hn)).elim
    · intro w id hk hid
      rw [hk]
      exact h.privOwner w id hid
    · exact fun hin => by cases hin
    · exact fun _ => rfl
  | refill k lrInd hbound hinv hknown hin hgot =>
    have hown := vgicGetOwnership_owner hgot
    obtain ⟨owner, hget⟩ := vgicGetOwnership_ints v k k s
    have hout : ((vgicGetOwnership v k s).2.ints k).inLr = false := by
      rw [hget]
      exact h.out k hin
    have hint := vgicRemoveSpilled_int v k (vgicGetOwnership v k s).2
    refine ((h.getOwnership v k).removeSpilled v k).writeLr hknown ?_ ?_ ?_ fun k' hn => ?_
    · rw [hint]
      exact hown
    · rw [hint]
      exact hout
    · rw [hint]
    · have hvalid := hn.2.2.1
      rw [(vgicRemoveSpilled_lrs v k _ v).1, vgicGetOwnership_cpus] at hvalid
      exact (hvalid hinv).elim
  | unlist k hknown hin hgot =>
    exact ((h.getOwnership v k).removeSpilled v k).updInt ⟨rfl, rfl, rfl, rfl⟩
  | ackLr lrInd hbound hpend =>
    refine guestLr_lodged h fun hinv => ?_
    rw [hinv] at hpend
    cases hpend
  | deactLr lrInd hbound hact =>
    refine guestLr_lodged h fun hinv => ?_
    rw [hinv]
    rfl

theorem init (h : VgicInit P s) : Lodged P X s where
  placed {w i k} hn := by
    have hvalid := hn.2.2.1
    rw [h.cpus w] at hvalid
    exact (hvalid rfl).elim
  privOwner w id _ := by
    obtain ⟨lr, inSpilled, hint⟩ := h.ints (.priv w id)
    rw [hint]
    rfl
  owned k hin := by
    obtain ⟨lr, inSpilled, hint⟩ := h.ints k
    rw [hint] at hin
    cases hin
  out k _ := by
    obtain ⟨lr, inSpilled, hint⟩ := h.ints k
    rw [hint]
    rfl

theorem goTo (h : Lodged P X s) (v : Nat) (pc : VgicPc) : Lodged P X (goTo v pc s) := by
  refine h.same (fun w i k hn => names_lrs (fun w => ?_) hn) rfl
  unfold Bao.goTo
  by_cases hw : w = v
  · subst hw
    rw [VgicState.updCpu_cpus_same]
  · rw [VgicState.updCpu_cpus_ne _ _ hw]

theorem deed {e : VgicEvent} {s₁ : VgicState} (h : Lodged P X s) (hkeeps : KeepsRecords P X s e)
    (hdoes : Does P e.vcpu (e.deed P s) (e.begin P s) s₁) : Lodged P X s₁ := by
  have hbegin := VgicEvent.begin_quiet (P := P) e s
  unfold KeepsRecords at hkeeps
  refine (h.quiet hbegin).does hdoes (fun k hd => ?_) fun i k hd => ?_
  · rw [hd] at hkeeps
    exact Unheld.quiet hkeeps hbegin
  · rw [hd] at hkeeps
    exact hkeeps.imp id fun hno => Unheld.quiet hno hbegin

/-- **A step** that finds the registers free where it clears a record keeps
list registers and records in agreement. -/
theorem next (hX : ∀ k, X k → gicIsPriv k.id = true) {e : VgicEvent} (h : Lodged P X s)
    (hok : HandlersOk P s) (hen : e.enabled P s) (hkeeps : KeepsRecords P X s e) :
    Lodged P X (e.next P s) := by
  obtain ⟨s₁, s₂, hdoes, hmoves, hend⟩ := hok.parts hen
  have hall := (h.deed hkeeps hdoes).moves hX hen.1 hmoves
  rcases hend with hnext | ⟨pc, hnext⟩
  · rw [hnext]
    exact hall
  · rw [hnext]
    exact hall.goTo e.vcpu pc

end Lodged

end Bao

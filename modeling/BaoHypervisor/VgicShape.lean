import BaoHypervisor.VgicMoves

/-!
# What a vGIC step can do

Every function of the vGIC as moves, every operation as a deed and moves after
it, and last the step: this is said here once, as `VgicEvent.next_shape`.
-/

namespace Bao

variable (P : VgicPlat)
variable (A : Nat → IntKey → VgicInt → Prop)

/-! ## Every function as moves -/

/-- Two interrupts are routed alike. -/
def SameRoute (i j : VgicInt) : Prop :=
  i.targets = j.targets ∧ i.route = j.route ∧ i.physRoute = j.physRoute

section Moves

variable {P A}
variable {v : Nat} {k : IntKey} {s : VgicState}

theorem VgicMoves.one {s' : VgicState} (h : VgicMove P A v s s') : VgicMoves P A v s s' :=
  .single h

theorem vgicGetOwnership_moves (v : Nat) (k : IntKey) (s : VgicState) :
    VgicMoves P A v s (vgicGetOwnership v k s).2 := by
  rcases vgicGetOwnership_cases v k s with ⟨-, h⟩ | ⟨hown, h⟩ | ⟨-, h⟩
  · rw [h]
  · rw [h]
    exact .one (.take k hown)
  · rw [h]

theorem vgicGetInt_known {id w : Nat} (h : vgicGetInt P id w = some k) : Known P k :=
  ⟨w, by rw [vgicGetInt_id h]; exact h⟩

theorem gicIsSgi_priv {id : Nat} (h : gicIsSgi id = true) : gicIsPriv id = true := by
  have hlt : id < gicMaxSgis := of_decide_eq_true h
  exact decide_eq_true (Nat.lt_trans hlt (by decide))

theorem vgicGetInt_own {id : Nat} (hk : vgicGetInt P id v = some k)
    (hpriv : gicIsPriv k.id = true) : ∃ id, k = .priv v id := by
  unfold vgicGetInt at hk
  split at hk
  · cases hk
    exact ⟨_, rfl⟩
  · rename_i hid
    split at hk
    · cases hk
      exact (hid (of_decide_eq_true hpriv)).elim
    · cases hk

theorem isV2Sgi_sgi (h : isV2Sgi P k = true) : gicIsSgi k.id = true := by
  simp only [isV2Sgi, Bool.and_eq_true] at h
  exact h.2

theorem spillInt_moves (v : Nat) (s : VgicState) (hknown : Known P k)
    (hmine : gicIsPriv k.id = true → (s.ints k).owner = some v ∨ ∃ id, k = .priv v id) :
    VgicMoves P A v s (spillInt P v k s) :=
  ((VgicMoves.one (.remove k)).tail (.spill k hknown (by rw [vgicRemoveLr_owner]; exact hmine))).tail
    (.yield k)

theorem vgicSpillLr_moves (v lrInd : Nat) (s : VgicState) :
    VgicMoves P A v s (vgicSpillLr P v lrInd s) := by
  unfold vgicSpillLr
  split
  · exact .refl
  · rename_i hname
    exact spillInt_moves v s (vgicGetInt_known hname) fun hpriv => Or.inr (vgicGetInt_own hname hpriv)

theorem vgicSpillLr_mayPlace {lrInd : Nat} (hknown : Known P k) (hbound : lrInd < P.numLrs)
    (hvalid : ((s.cpus v).lrs lrInd).state ≠ .inv)
    (hout : (s.ints k).inLr = false)
    (hlive : (s.ints k).enabled = true ∨ (s.ints k).state.active = true)
    (hmine : (s.ints k).owner = some v ∨ ∃ id, k = .priv v id) :
    MayPlace P v k lrInd (vgicSpillLr P v lrInd s) := by
  unfold vgicSpillLr
  cases hname : vgicGetInt P ((s.cpus v).lrs lrInd).vid v with
  | none =>
    refine ⟨hknown, hout, hlive, hbound, hmine.imp id Or.inl, Or.inr fun k' hk' => ?_⟩
    rw [hname] at hk'
    cases hk'
  | some k' =>
    dsimp only
    have hroom : (((spillInt P v k' s).cpus v).lrs lrInd).state = .inv ∨
        ∀ k'', vgicGetInt P (((spillInt P v k' s).cpus v).lrs lrInd).vid v = some k'' →
          ¬ (((spillInt P v k' s).ints k'').owner = some v ∧
            ((spillInt P v k' s).ints k'').inLr = true ∧
            ((spillInt P v k' s).ints k'').lr = lrInd) := by
      rcases spillInt_lrs (P := P) v k' s v lrInd with h | h
      · refine Or.inr fun k'' hk'' => ?_
        rw [h, hname] at hk''
        cases hk''
        exact spillInt_unrecorded v k' s lrInd
      · exact Or.inl (by rw [h]; rfl)
    by_cases hk : k = k'
    · subst hk
      obtain ⟨hlrs, hout', hen, hst⟩ := spillInt_of_out (P := P) v k s hout
      refine ⟨hknown, hout', ?_, hbound, Or.inr (Or.inr ?_), hroom⟩
      · rw [hen, hst]
        exact hlive
      · rw [hlrs v]
        exact ⟨hvalid, hname⟩
    · refine ⟨hknown, ?_, ?_, hbound, ?_, hroom⟩
      · rw [spillInt_ints_ne _ _ _ hk]
        exact hout
      · rw [spillInt_ints_ne _ _ _ hk]
        exact hlive
      · rw [spillInt_ints_ne _ _ _ hk]
        exact hmine.imp id Or.inl

theorem spillInt_route (v : Nat) (k k' : IntKey) (s : VgicState) :
    SameRoute ((spillInt P v k s).ints k') (s.ints k') := by
  by_cases hk : k' = k
  · subst hk
    obtain ⟨owner, hy⟩ := vgicYieldOwnership_ints (P := P) v k'
      (vgicAddSpilled v k' (vgicRemoveLr P v k' s)) k'
    obtain ⟨inSpilled, hs⟩ := vgicAddSpilled_ints v k' (vgicRemoveLr P v k' s) k'
    rw [spillInt, hy, hs]
    rcases vgicRemoveLr_cases (P := P) v k' s with ⟨h, -⟩ | ⟨-, -, -, h⟩ | ⟨-, -, -, -, h⟩
    · rw [h]
      exact ⟨rfl, rfl, rfl⟩
    · rw [h]
      simp [SameRoute]
    · rw [h]
      simp [SameRoute, takeLrState, VgicState.gichSetHcr, VgicState.gichWriteLr]
  · rw [spillInt_ints_ne _ _ _ hk]
    exact ⟨rfl, rfl, rfl⟩

theorem vgicSpillLr_route (v lrInd : Nat) (k : IntKey) (s : VgicState) :
    SameRoute ((vgicSpillLr P v lrInd s).ints k) (s.ints k) := by
  unfold vgicSpillLr
  split
  · exact ⟨rfl, rfl, rfl⟩
  · exact spillInt_route v _ k s

/-- **`vgic_add_lr`** writes the interrupt to an empty register, or to one it
spilled, or spills the interrupt. -/
theorem vgicAddLr_moves (hknown : Known P k)
    (hmine : (s.ints k).owner = some v ∨ ∃ id, k = .priv v id)
    (hplace : ∀ i, SameRoute i (s.ints k) → A v k i) :
    VgicMoves P A v s (vgicAddLr P v k s) := by
  unfold vgicAddLr
  split
  · exact .refl
  · rename_i hcond
    have hout : (s.ints k).inLr = false := by
      cases hin : (s.ints k).inLr with
      | false => rfl
      | true => simp [hin] at hcond
    have hlive : (s.ints k).enabled = true ∨ (s.ints k).state.active = true := by
      cases hen : (s.ints k).enabled with
      | true => exact Or.inl rfl
      | false =>
        cases hact : (s.ints k).state.active with
        | true => exact Or.inr rfl
        | false => simp [hen, hact] at hcond
    split
    · rename_i lrInd hfirst
      obtain ⟨hbound, hempty⟩ := firstLr_some hfirst
      refine .one (.place k lrInd ?_ (hplace _ ⟨rfl, rfl, rfl⟩))
      exact ⟨hknown, hout, hlive, hbound, hmine.imp id Or.inl, Or.inl (elrsr_inv hempty)⟩
    · split
      · rename_i lrInd hvictim
        obtain ⟨hbound, hvalid⟩ := victimLr_some hvictim
        exact (vgicSpillLr_moves v lrInd s).tail (.place k lrInd
          (vgicSpillLr_mayPlace hknown hbound hvalid hout hlive hmine)
          (hplace _ (vgicSpillLr_route v lrInd k s)))
      · exact .one (.spill k hknown fun _ => hmine)

theorem forwardRoute_moves (v : Nat) (k : IntKey) (s : VgicState) :
    VgicMoves P A v s (forwardRoute P v k s) := by
  unfold forwardRoute
  exact (VgicMoves.one (.yield k)).tail (.silent (Silent.sendAll _ _ rfl))

theorem routeElsewhere_moves (v : Nat) (s : VgicState) (hknown : Known P k)
    (hmine : gicIsPriv k.id = true → (s.ints k).owner = some v ∨ ∃ id, k = .priv v id) :
    VgicMoves P A v s (routeElsewhere P v k s) := by
  unfold routeElsewhere
  dsimp only
  split
  · have hforward := forwardRoute_moves (P := P) (A := A) v k s
    split
    · refine hforward.tail (.spill k hknown fun hpriv => ?_)
      exact (hmine hpriv).imp (fun hown => hforward.keepsOwner hpriv hown) id
    · exact hforward
  · split
    · exact .one (.spill k hknown hmine)
    · exact .refl

/-- **`vgic_route`** by a vCPU that owns the interrupt. -/
theorem vgicRoute_moves (hknown : Known P k)
    (hmine : (s.ints k).owner = some v ∨ ∃ id, k = .priv v id)
    (hroute : ∀ i, vgicIntVcpuIsTarget P v k i = true → A v k i) :
    VgicMoves P A v s (vgicRoute P v k s) := by
  unfold vgicRoute
  dsimp only
  split
  · exact .refl
  · split
    · exact .refl
    · have hadd : VgicMoves P A v s
          (if vgicIntVcpuIsTarget P v k (s.ints k) then vgicAddLr P v k s else s) := by
        split
        · rename_i htarget
          refine vgicAddLr_moves hknown hmine fun i hi => hroute i ?_
          rw [← htarget]
          unfold vgicIntVcpuIsTarget vgicBroadcast
          rw [hi.1, hi.2.1, hi.2.2]
        · exact .refl
      refine hadd.trans (routeElsewhere_moves v _ hknown fun hpriv => ?_)
      exact hmine.imp (fun hown => hadd.keepsOwner hpriv hown) id

end Moves

/-! ## Every operation as a deed and moves -/

/-- A deed by `v` and the moves after it. -/
def Acts (v : Nat) (d : VgicDeed) (s s' : VgicState) : Prop :=
  ∃ s₁, Does P v d s s₁ ∧ VgicMoves P A v s₁ s'

section Operations

variable {P A}
variable {v : Nat} {k : IntKey} {s : VgicState}

theorem Acts.ofMoves {s' : VgicState} (h : VgicMoves P A v s s') :
    Acts P A v .nothing s s' := ⟨s, .nothing, h⟩

theorem updateField_frame (reg : VgicReg) (k : IntKey) (data : Nat) (i : VgicInt) :
    (updateField P reg k data i).owner = i.owner ∧ (updateField P reg k data i).inLr = i.inLr ∧
      (updateField P reg k data i).lr = i.lr ∧
      (updateField P reg k data i).inSpilled = i.inSpilled := by
  unfold updateField
  cases reg <;> dsimp only <;> (try split) <;> exact ⟨rfl, rfl, rfl, rfl⟩

theorem vgicIntSetField_acts (hknown : Known P k) (reg : VgicReg) (vgicrId data : Nat) (tag : Option WriteTag)
    (hroute : ∀ k i, vgicIntVcpuIsTarget P v k i = true → A v k i) :
    Acts P A v (setFieldDeed v reg k vgicrId data tag s) s
      (vgicIntSetField P v reg k vgicrId data tag s) := by
  unfold setFieldDeed vgicIntSetField
  dsimp only
  split
  · rename_i hgot
    refine ⟨_, .field reg k data tag hgot, ?_⟩
    have hown := vgicGetOwnership_owner hgot
    rw [← vgicRemoveLr_owner (P := P) v k _ k] at hown
    refine Relation.ReflTransGen.tail (vgicRoute_moves hknown (Or.inl ?_) (hroute k)) (.yield k)
    simp only [applyField, VgicState.updInt_ints_same]
    rw [(updateField_frame reg k data _).1]
    exact hown
  · rename_i hgot
    have hgot' : (vgicGetOwnership v k s).1 = false := Bool.eq_false_iff.mpr hgot
    rw [vgicGetOwnership_failed hgot']
    exact ⟨_, .forward reg k vgicrId data tag hgot', .refl⟩

theorem vgicIntReroute_moves (hknown : Known P k) (tag : Option WriteTag)
    (hroute : ∀ k i, vgicIntVcpuIsTarget P v k i = true → A v k i) :
    VgicMoves P A v s (vgicIntReroute P v k tag s) := by
  unfold vgicIntReroute
  dsimp only
  have hget := vgicGetOwnership_moves (P := P) (A := A) v k s
  split
  · rename_i hgot
    have hown := vgicGetOwnership_owner hgot
    rw [← vgicRemoveLr_owner (P := P) v k _ k] at hown
    have hremove := hget.tail (.remove k)
    exact (hremove.trans (vgicRoute_moves hknown (Or.inl hown) (hroute k))).tail (.yield k)
  · exact hget.tail (.silent (Silent.forwardToOwner P _ _ rfl))

theorem vgicInjectHw_acts {id : Nat} (hk : vgicGetInt P id v = some k)
    (hhw : vgicIntIsHw P k = true)
    (hplace : ∀ i, SameRoute i (s.ints k) → A v k i) :
    Acts P A v (.hw k) s (vgicInjectHw P v k s) := by
  refine ⟨_, .hw k hhw ⟨id, hk⟩, vgicAddLr_moves (vgicGetInt_known hk) (Or.inl ?_) ?_⟩
  · rw [takeHw, VgicState.updInt_ints_same]
  · rw [takeHw, VgicState.updInt_ints_same]
    exact hplace

theorem vgicInject_acts (id source : Nat)
    (hroute : ∀ k i, vgicIntVcpuIsTarget P v k i = true → A v k i)
    (hpriv : ∀ k i, gicIsPriv k.id = true → A v k i)
    (hunasked : ∀ k, PlacesUnasked P s k (injectDeed P v id source s) →
      ∀ i, SameRoute i (s.ints k) → A v k i) :
    Acts P A v (injectDeed P v id source s) s (vgicInject P v id source s) := by
  unfold injectDeed at hunasked ⊢
  unfold vgicInject
  cases hk : vgicGetInt P id v with
  | none => exact Acts.ofMoves .refl
  | some k =>
    simp only [hk] at hunasked
    dsimp only
    split
    · rename_i hhw
      exact vgicInjectHw_acts hk hhw (hunasked k (by simp [hhw, PlacesUnasked]))
    · split
      · rename_i hsgi
        have hown := vgicGetInt_own hk (gicIsSgi_priv (isV2Sgi_sgi hsgi))
        unfold vgicInjectSgi
        dsimp only
        split
        · exact Acts.ofMoves (.one (.remove k))
        · refine ⟨_, .source k source hown hsgi,
            vgicAddLr_moves (vgicGetInt_known hk) (Or.inr hown) fun i _ => ?_⟩
          exact hpriv k i (gicIsSgi_priv (isV2Sgi_sgi hsgi))
      · exact vgicIntSetField_acts (vgicGetInt_known hk) _ _ _ _ hroute

theorem handleRoute_moves (hknown : Known P k)
    (hroute : ∀ k i, vgicIntVcpuIsTarget P v k i = true → A v k i) :
    VgicMoves P A v s (handleRoute P v k s) := by
  unfold handleRoute
  dsimp only
  have hget := vgicGetOwnership_moves (P := P) (A := A) v k s
  split
  · rename_i hgot
    have hown := vgicGetOwnership_owner hgot
    split
    · rename_i htarget
      refine (hget.trans (vgicAddLr_moves hknown (Or.inl hown) fun i hi =>
        hroute k i ?_)).tail (.yield k)
      rw [← htarget]
      unfold vgicIntVcpuIsTarget vgicBroadcast
      rw [hi.1, hi.2.1, hi.2.2]
    · exact hget.tail (.yield k)
  · exact hget

theorem vgicUpdateEnable_silent (v : Nat) (s : VgicState) :
    Silent v s (vgicUpdateEnable v s) := Silent.setHcr s rfl

/-- **`vgic_ipi_handler`.** -/
theorem vgicIpiHandler_acts (msg : VgicMsg)
    (hroute : ∀ k i, vgicIntVcpuIsTarget P v k i = true → A v k i)
    (hpriv : ∀ k i, gicIsPriv k.id = true → A v k i)
    (hunasked : ∀ k, PlacesUnasked P s k (msgDeed P v msg s) →
      ∀ i, SameRoute i (s.ints k) → A v k i) :
    Acts P A v (msgDeed P v msg s) s (vgicIpiHandler P v msg s) := by
  cases msg with
  | updateEnable => exact Acts.ofMoves (.one (.silent (vgicUpdateEnable_silent v s)))
  | route vgicrId intId =>
    refine Acts.ofMoves ?_
    unfold vgicIpiHandler
    dsimp only
    split
    · exact .refl
    · rename_i hk
      exact handleRoute_moves (vgicGetInt_known hk) hroute
  | inject intId val => exact vgicInject_acts intId val hroute hpriv hunasked
  | setReg vgicrId intId reg val tag =>
    unfold msgDeed vgicIpiHandler
    dsimp only
    cases hk : vgicGetInt P intId vgicrId with
    | none => exact Acts.ofMoves .refl
    | some k =>
      dsimp only
      split
      · exact Acts.ofMoves (vgicIntReroute_moves (vgicGetInt_known hk) tag hroute)
      · exact vgicIntSetField_acts (vgicGetInt_known hk) _ _ _ _ hroute

/-! ## The maintenance handler -/

theorem goTo_self (v : Nat) (s : VgicState) : goTo v (s.cpus v).pc s = s := by
  simp [goTo, VgicState.updCpu]

theorem startLrenp_goesOn (v : Nat) (misr : Misr) (s : VgicState) :
    GoesOn P v s (startLrenp v misr s) := by
  refine ⟨_, rfl, ?_⟩
  split <;> exact trivial

theorem startRefill_goesOn (v : Nat) (misr : Misr) (s : VgicState) :
    GoesOn P v s (startRefill P v misr s) := by
  unfold startRefill
  split
  · split
    · rename_i lrInd hfirst
      obtain ⟨hbound, hempty⟩ := firstLr_some hfirst
      refine ⟨_, rfl, ?_, hbound, elrsr_inv hempty⟩
      split <;> rfl
    · exact startLrenp_goesOn v misr s
  · exact startLrenp_goesOn v misr s

theorem startMaintenance_goesOn (v : Nat) (s : VgicState) :
    GoesOn P v s (startMaintenance P v s) := by
  unfold startMaintenance
  dsimp only
  split
  · split
    · rename_i lrInd hfirst
      obtain ⟨hbound, hempty⟩ := firstLr_some hfirst
      exact ⟨_, rfl, hbound, eisr_inv hempty⟩
    · exact startRefill_goesOn v _ s
  · exact startRefill_goesOn v _ s

theorem trappedEoi_moves (hk : ∃ id, vgicGetInt P id v = some k)
    (hpriv : ∀ k i, gicIsPriv k.id = true → A v k i) :
    VgicMoves P A v (s.updInt k fun i => { i with inLr := false }) (trappedEoi P v k s) := by
  unfold trappedEoi
  dsimp only
  split
  · rename_i hsgi
    obtain ⟨id, hk⟩ := hk
    exact vgicAddLr_moves (vgicGetInt_known hk) (Or.inr (vgicGetInt_own hk (gicIsSgi_priv hsgi)))
      fun i _ => hpriv k i (gicIsSgi_priv hsgi)
  · exact .one (.yield k)

theorem vgicRemoveSpilled_route (v : Nat) (k : IntKey) (s : VgicState) :
    SameRoute ((vgicRemoveSpilled v k (vgicGetOwnership v k s).2).ints k) (s.ints k) := by
  obtain ⟨owner, h⟩ := vgicGetOwnership_ints v k k s
  rw [vgicRemoveSpilled, VgicState.updInt_ints_same, rmSpilled_ints, h]
  exact ⟨rfl, rfl, rfl⟩

theorem eoiSpilled_acts (hknown : Known P k) (hin : (s.ints k).inSpilled = true)
    (hgot : (vgicGetOwnership v k s).1 = true)
    (hplace : vgicIntIsHw P k = false → (s.ints k).state.pending = true →
      ∀ i, SameRoute i (s.ints k) → A v k i) :
    Acts P A v (.unlist k) s (eoiSpilled P v k (vgicGetOwnership v k s).2) := by
  refine ⟨_, .unlist k hknown hin hgot, ?_⟩
  unfold eoiSpilled
  dsimp only
  split
  · exact .refl
  · rename_i hhw
    split
    · rename_i hpend
      have hpend' : (s.ints k).state.pending = true := by
        obtain ⟨owner, h⟩ := vgicGetOwnership_ints v k k s
        rw [VgicState.updInt_ints_same, vgicRemoveSpilled, VgicState.updInt_ints_same,
          rmSpilled_ints, h] at hpend
        exact hpend
      refine vgicAddLr_moves hknown (Or.inl ?_) fun i hi =>
        hplace (Bool.eq_false_iff.mpr hhw) hpend' i ?_
      · rw [VgicState.updInt_ints_same, vgicRemoveSpilled, VgicState.updInt_ints_same,
          rmSpilled_ints]
        exact vgicGetOwnership_owner hgot
      · rw [VgicState.updInt_ints_same] at hi
        have hroute := vgicRemoveSpilled_route v k s
        exact ⟨hi.1.trans hroute.1, hi.2.1.trans hroute.2.1, hi.2.2.trans hroute.2.2⟩
    · exact .refl

theorem foldl_higherPrio {flags : IntState} (l : List IntKey) {irq : Option IntKey}
    (h : l.foldl (higherPrio P v flags s) irq = some k) :
    irq = some k ∨ (k ∈ l ∧ (vgicGetState P v k s).meets flags = true) := by
  induction l generalizing irq with
  | nil => exact Or.inl h
  | cons k' l ih =>
    rcases ih h with hone | ⟨hmem, hmeets⟩
    · unfold higherPrio at hone
      dsimp only at hone
      split at hone
      · rename_i hmeets
        split at hone
        · cases hone
          exact Or.inr ⟨List.mem_cons_self, hmeets⟩
        · exact Or.inl hone
      · exact Or.inl hone
    · exact Or.inr ⟨List.mem_cons_of_mem _ hmem, hmeets⟩

theorem vgicHighestPrioSpilled_eligible {flags : IntState}
    (h : vgicHighestPrioSpilled P v flags s = some k) :
    k ∈ (s.cpus v).spilled ++ s.spilled ∧ (vgicGetState P v k s).meets flags = true := by
  rcases foldl_higherPrio _ h with hnone | helig
  · cases hnone
  · exact helig

theorem vgicHighestPrioSpilled_listed {flags : IntState}
    (h : vgicHighestPrioSpilled P v flags s = some k) : k ∈ (s.cpus v).spilled ++ s.spilled :=
  (vgicHighestPrioSpilled_eligible h).1

/-- **A turn of the maintenance handler.** -/
theorem gicMaintenanceTurn_acts (hlists : ∀ k ∈ (s.cpus v).spilled ++ s.spilled, Known P k)
    (hpc : PcAt P (s.cpus v) (s.cpus v).pc)
    (hpriv : ∀ k i, gicIsPriv k.id = true → A v k i)
    (hunasked : ∀ k, PlacesUnasked P s k (turnDeed P v s) →
      ∀ i, SameRoute i (s.ints k) → A v k i) :
    ∃ s₁, Acts P A v (turnDeed P v s) s s₁ ∧ GoesOn P v s₁ (gicMaintenanceTurn P v s) := by
  unfold turnDeed at hunasked ⊢
  unfold gicMaintenanceTurn
  cases hat : (s.cpus v).pc with
  | guest => exact ⟨s, Acts.ofMoves .refl, startMaintenance_goesOn v s⟩
  | eoir misr lrInd =>
    rw [hat] at hpc
    dsimp only
    unfold eoirTurn
    cases hk : vgicGetInt P (lrIrqId P ((s.cpus v).lrs lrInd)) v with
    | none =>
      refine ⟨s.gichWriteLr v lrInd .zero, ⟨_, .zeroLr lrInd hpc.2, .refl⟩, ?_⟩
      refine ⟨.eoir misr lrInd, ?_, hpc.1, ?_⟩
      · have hsame := goTo_self v (s.gichWriteLr v lrInd .zero)
        rw [VgicState.gichWriteLr, VgicState.updCpu_cpus_same] at hsame
        rw [VgicState.gichWriteLr, ← hat]
        exact hsame.symm
      · simp [VgicState.gichWriteLr, ListReg.zero]
    | some k =>
      dsimp only
      refine ⟨trappedEoi P v k (s.gichWriteLr v lrInd .zero),
        ⟨_, .clearLr lrInd k hpc.2, trappedEoi_moves ⟨_, hk⟩ hpriv⟩, ?_⟩
      split
      · rename_i lrInd' hfirst
        obtain ⟨hbound, hempty⟩ := firstLr_some hfirst
        exact ⟨_, rfl, hbound, eisr_inv hempty⟩
      · exact startRefill_goesOn v misr _
  | refill misr flags lrInd =>
    rw [hat] at hpc
    dsimp only
    unfold refillTurn
    cases hirq : vgicHighestPrioSpilled P v flags s with
    | none =>
      exact ⟨refillDone v s, Acts.ofMoves (.one (.calm flags hpc.1 hirq)),
        startLrenp_goesOn v misr _⟩
    | some k =>
      have hsame : GoesOn P v s s := ⟨_, (goTo_self v s).symm, by rw [hat]; exact hpc⟩
      dsimp only
      by_cases hel : ((s.ints k).inSpilled && (vgicGetState P v k s).meets flags) = true
      · rw [if_pos hel, hel, Bool.true_and]
        by_cases hgot : (vgicGetOwnership v k s).1 = true
        · rw [if_pos hgot, if_pos hgot]
          simp only [Bool.and_eq_true] at hel
          refine ⟨refillLr P v k lrInd (vgicGetOwnership v k s).2,
            ⟨_, .refill k lrInd hpc.2.1 hpc.2.2 (hlists k (vgicHighestPrioSpilled_listed hirq))
              hel.1 hgot, .refl⟩, ?_⟩
          split
          · rename_i lrInd' hfirst
            obtain ⟨hbound, hempty⟩ := firstLr_some hfirst
            exact ⟨_, rfl, rfl, hbound, elrsr_inv hempty⟩
          · exact startLrenp_goesOn v misr _
        · rw [if_neg hgot, if_neg hgot]
          rw [vgicGetOwnership_failed (Bool.eq_false_iff.mpr hgot)]
          exact ⟨s, Acts.ofMoves .refl, hsame⟩
      · rw [if_neg hel, Bool.eq_false_iff.mpr hel, Bool.false_and]
        exact ⟨s, Acts.ofMoves .refl, hsame⟩
  | lrenp hcr =>
    simp only [hat] at hunasked
    dsimp only
    unfold lrenpTurn
    by_cases hcount : hcr.eoiCount = 0
    · rw [if_pos hcount, if_pos hcount]
      exact ⟨s, Acts.ofMoves .refl, ⟨.guest, rfl, trivial⟩⟩
    · simp only [if_neg hcount] at hunasked ⊢
      unfold vgicEoirHighestSpilledActive
      refine ⟨_, ?_, ⟨_, rfl, trivial⟩⟩
      cases hirq : vgicHighestPrioSpilled P v .act s with
      | none => exact Acts.ofMoves (.one (.writeBack hcr _ hat rfl))
      | some k =>
        simp only [hirq] at hunasked
        dsimp only
        by_cases hel : ((s.ints k).inSpilled && (vgicGetState P v k s).active) = true
        · rw [if_pos hel, hel, Bool.true_and]
          by_cases hgot : (vgicGetOwnership v k s).1 = true
          · rw [if_pos hgot, if_pos hgot]
            simp only [hel, hgot, Bool.and_self, if_true] at hunasked
            simp only [Bool.and_eq_true] at hel
            obtain ⟨s₁, hdoes, hmoves⟩ := eoiSpilled_acts (P := P) (A := A)
              (hlists k (vgicHighestPrioSpilled_listed hirq)) hel.1 hgot (fun hhw hpend => hunasked k ⟨rfl, hhw, hpend⟩)
            have hpc' := ((OwnPart.does hdoes).trans (OwnPart.moves hmoves)).pc
            exact ⟨s₁, hdoes, hmoves.tail (.writeBack hcr _ (hpc'.trans hat) rfl)⟩
          · rw [if_neg hgot, if_neg hgot, vgicGetOwnership_failed (Bool.eq_false_iff.mpr hgot)]
            exact Acts.ofMoves (.one (.writeBack hcr _ hat rfl))
        · rw [if_neg hel, Bool.eq_false_iff.mpr hel, Bool.false_and]
          exact Acts.ofMoves (.one (.writeBack hcr _ hat rfl))

/-! ## The step -/

theorem VgicEvent.begin_quiet (e : VgicEvent) (s : VgicState) : Quiet e.vcpu s (e.begin P s) := by
  unfold VgicEvent.begin
  split <;> exact ⟨rfl, rfl, rfl, rfl, rfl, rfl, rfl, fun _ _ => rfl⟩

theorem vgicdWriteCtlr_silent (v : Nat) (enable : Bool) (s : VgicState) :
    Silent v s (vgicdWriteCtlr P v enable s) := by
  unfold vgicdWriteCtlr
  split
  · exact Silent.refl s
  · have hset : Silent v s { s with ctlr := enable } :=
      ⟨⟨rfl, rfl, rfl, rfl, rfl, rfl, rfl, fun _ _ => rfl⟩, id, rfl, rfl,
        fun _ => ⟨[], (List.append_nil _).symm, fun _ h => by cases h⟩⟩
    exact (hset.trans (vgicUpdateEnable_silent v _)).trans (Silent.sendAll _ _ rfl)

/-- **What a step does.**  From the state the operation starts from, its deed,
then moves, and for the maintenance handler a place to go on. -/
theorem VgicEvent.next_shape {e : VgicEvent} (hen : e.enabled P s)
    (hlists : ∀ k ∈ (s.cpus e.vcpu).spilled ++ s.spilled, Known P k)
    (hpc : PcAt P (s.cpus e.vcpu) (s.cpus e.vcpu).pc)
    (hroute : ∀ k i, vgicIntVcpuIsTarget P e.vcpu k i = true → A e.vcpu k i)
    (hpriv : ∀ k i, gicIsPriv k.id = true → A e.vcpu k i)
    (hunasked : ∀ k, PlacesUnasked P s k (e.deed P s) →
      ∀ i, SameRoute i (s.ints k) → A e.vcpu k i) :
    ∃ s₁, Acts P A e.vcpu (e.deed P s) (e.begin P s) s₁ ∧
      ((s.cpus e.vcpu).pc = .guest ∧ e.next P s = s₁ ∨
        e.op = .maintain ∧ GoesOn P e.vcpu s₁ (e.next P s)) := by
  obtain ⟨v, op⟩ := e
  obtain ⟨-, hop⟩ := hen
  dsimp only at hlists hpc hroute hpriv hunasked hop ⊢
  cases op with
  | maintain =>
    obtain ⟨s₁, hacts, hgoes⟩ := gicMaintenanceTurn_acts (P := P) (A := A) hlists hpc hpriv
      hunasked
    exact ⟨s₁, hacts, Or.inr ⟨rfl, hgoes⟩⟩
  | writeField reg intId vgicrId data =>
    refine ⟨_, ?_, Or.inl ⟨hop.1, rfl⟩⟩
    dsimp only [VgicEvent.next, VgicEvent.deed, VgicEvent.begin]
    cases hk : vgicGetInt P intId vgicrId with
    | none =>
      have hsome := hop.2.2.2.2.2
      rw [hk] at hsome
      cases hsome
    | some k => exact vgicIntSetField_acts (vgicGetInt_known hk) _ _ _ _ hroute
  | writeRoute intId access val =>
    refine ⟨_, ?_, Or.inl ⟨hop.1, rfl⟩⟩
    dsimp only [VgicEvent.next, VgicEvent.deed, VgicEvent.begin]
    cases hk : vgicGetInt P intId v with
    | none => exact Acts.ofMoves .refl
    | some k =>
      exact ⟨_, .setRoute k _, vgicIntReroute_moves (vgicGetInt_known hk) none hroute⟩
  | writeCtlr enable =>
    exact ⟨_, Acts.ofMoves (.one (.silent (vgicdWriteCtlr_silent v enable s))),
      Or.inl ⟨hop.1, rfl⟩⟩
  | sendSgi pcpuMask intId =>
    exact ⟨_, Acts.ofMoves (.one (.silent (Silent.sendAll s _ rfl))), Or.inl ⟨hop.1, rfl⟩⟩
  | inject id source =>
    exact ⟨_, vgicInject_acts id source hroute hpriv hunasked,
      Or.inl ⟨hop.1, rfl⟩⟩
  | injectHw id =>
    obtain ⟨hguest, k, hk, hhw⟩ := hop
    refine ⟨_, ?_, Or.inl ⟨hguest, rfl⟩⟩
    dsimp only [VgicEvent.next, VgicEvent.deed, VgicEvent.begin] at hunasked ⊢
    simp only [hk] at hunasked ⊢
    exact vgicInjectHw_acts hk hhw (hunasked k rfl)
  | deliver =>
    refine ⟨_, ?_, Or.inl ⟨hop.1, rfl⟩⟩
    dsimp only [VgicEvent.next, VgicEvent.deed, VgicEvent.begin] at hunasked ⊢
    cases hq : s.inbox (P.physId v) with
    | nil => exact (hop.2 hq).elim
    | cons msg rest =>
      simp only [hq, List.tail_cons] at hunasked ⊢
      exact vgicIpiHandler_acts msg hroute hpriv hunasked
  | ackLr lrInd =>
    exact ⟨_, ⟨_, .ackLr lrInd hop.2.1 hop.2.2, .refl⟩, Or.inl ⟨hop.1, rfl⟩⟩
  | deactLr lrInd =>
    exact ⟨_, ⟨_, .deactLr lrInd hop.2.1 hop.2.2, .refl⟩, Or.inl ⟨hop.1, rfl⟩⟩
  | countEoi =>
    have hset : Silent v s (VgicEvent.next P ⟨v, .countEoi⟩ s) := Silent.setHcr s rfl
    exact ⟨_, Acts.ofMoves (.one (.silent hset)), Or.inl ⟨hop.1, rfl⟩⟩

end Operations

end Bao

import BaoHypervisor.VgicHandlers

/-!
# Which vCPU an SPI is delivered to

Every write of an interrupt to a list register is recorded with the interrupt
as it was then.  `vgic_route` and the handler of `VGIC_ROUTE` ask whether the
interrupt is routed to the vCPU; the refill from the list all vCPUs share, the
end of a spilled active interrupt and the injection of a physical interrupt do
not.
-/

namespace Bao

variable (P : VgicPlat)

/-- The interrupt is private, or routed to the vCPU. -/
def Routed (v : Nat) (k : IntKey) (i : VgicInt) : Prop :=
  gicIsPriv k.id = true ∨ vgicIntVcpuIsTarget P v k i = true

/-- A shared interrupt went to a vCPU it is routed to, or is active on. -/
def LrWrite.Allowed (w : LrWrite) : Prop :=
  Routed P w.vcpu w.key w.int ∨ (w.int.state.active = true ∧ w.int.owner = some w.vcpu)

/-- A step does not take one of the paths that do not ask for the route, or
the interrupt is routed to the vCPU. -/
def AsksRoute (s : VgicState) (e : VgicEvent) : Prop :=
  match e.deed P s with
  | .hw k => Routed P e.vcpu k (s.ints k)
  | .unlist k =>
      vgicIntIsHw P k = false → (s.ints k).state.pending = true → Routed P e.vcpu k (s.ints k)
  | .refill k _ =>
      Routed P e.vcpu k (s.ints k) ∨
        ((s.ints k).state.active = true ∧ (s.ints k).owner = some e.vcpu)
  | _ => True

variable {P}

theorem Routed.sameRoute {v : Nat} {k : IntKey} {i j : VgicInt} (h : Routed P v k j)
    (hij : SameRoute i j) : Routed P v k i := by
  refine h.imp id fun htarget => ?_
  rw [← htarget]
  unfold vgicIntVcpuIsTarget vgicBroadcast
  rw [hij.1, hij.2.1, hij.2.2]

/-- The records of `s'` are those of `s` and allowed ones. -/
def RecordsAllowed (s s' : VgicState) : Prop :=
  ∀ w ∈ s'.lrWrites, w ∈ s.lrWrites ∨ w.Allowed P

theorem RecordsAllowed.ofEq {s s' : VgicState} (h : s'.lrWrites = s.lrWrites) :
    RecordsAllowed (P := P) s s' := fun _ hw => Or.inl (h ▸ hw)

theorem RecordsAllowed.trans {s s' s'' : VgicState} (h : RecordsAllowed (P := P) s s')
    (h' : RecordsAllowed (P := P) s' s'') : RecordsAllowed (P := P) s s'' := by
  intro w hw
  rcases h' w hw with hw' | hw'
  · exact h w hw'
  · exact Or.inr hw'

theorem RecordsAllowed.write {v : Nat} {k : IntKey} {lrInd : Nat} {s : VgicState}
    (hallowed : ∀ lr, LrWrite.Allowed P ⟨v, k, s.ints k, lr⟩) :
    RecordsAllowed (P := P) s (vgicWriteLr P v k lrInd s) := by
  intro w hw
  obtain ⟨lr, h⟩ := vgicWriteLr_lrWrites (P := P) v k s lrInd
  rw [h, List.mem_cons] at hw
  rcases hw with rfl | hw
  · exact Or.inr (hallowed lr)
  · exact Or.inl hw

theorem RecordsAllowed.move {v : Nat} {s s' : VgicState} (h : VgicMove P (Routed P) v s s') :
    RecordsAllowed (P := P) s s' := by
  cases h with
  | take k hown => exact .ofEq rfl
  | yield k => exact .ofEq (vgicYieldOwnership_lrWrites v k s)
  | spill k hknown hmine => exact .ofEq (vgicAddSpilled_lrWrites v k s)
  | remove k => exact .ofEq (vgicRemoveLr_lrWrites v k s)
  | silent h => exact .ofEq h.lrWrites
  | calm flags hpend hnone => exact .ofEq rfl
  | writeBack hcr hcr' hpc hnpie => exact .ofEq rfl
  | place k lrInd hmay hplace =>
    unfold placeInLr
    split
    · refine (RecordsAllowed.ofEq (vgicRemoveSpilled_lrWrites v k s)).trans (.write fun lr => ?_)
      refine Or.inl (hplace.sameRoute ?_)
      rw [vgicRemoveSpilled, VgicState.updInt_ints_same, rmSpilled_ints]
      exact ⟨rfl, rfl, rfl⟩
    · exact .write fun lr => Or.inl hplace

theorem RecordsAllowed.moves {v : Nat} {s s' : VgicState} (h : VgicMoves P (Routed P) v s s') :
    RecordsAllowed (P := P) s s' := by
  induction h with
  | refl => exact .ofEq rfl
  | tail _ hmove ih => exact ih.trans (.move hmove)

theorem RecordsAllowed.does {v : Nat} {d : VgicDeed} {s s' : VgicState} (h : Does P v d s s')
    (hrefill : ∀ k lrInd, d = .refill k lrInd →
      Routed P v k (s.ints k) ∨ ((s.ints k).state.active = true ∧ (s.ints k).owner = some v)) :
    RecordsAllowed (P := P) s s' := by
  cases h with
  | nothing => exact .ofEq rfl
  | field reg k data tag hgot =>
    refine .ofEq ?_
    rw [applyField]
    exact (vgicRemoveLr_lrWrites v k _).trans (vgicGetOwnership_lrWrites v k s)
  | forward reg k vgicrId data tag hgot =>
    exact .ofEq (Quiet.forwardToOwner (v := v) P s k _).lrWrites
  | setRoute k route =>
    refine .ofEq ?_
    unfold vgicIntSetRoute
    split <;> rfl
  | hw k hhw hmine => exact .ofEq rfl
  | source k src hpriv hsgi => exact .ofEq (vgicRemoveLr_lrWrites v k s)
  | zeroLr lrInd hinv => exact .ofEq rfl
  | clearLr lrInd k hinv => exact .ofEq rfl
  | unlist k hknown hin hgot =>
    refine .ofEq ?_
    exact (vgicRemoveSpilled_lrWrites v k _).trans (vgicGetOwnership_lrWrites v k s)
  | ackLr lrInd hbound hpend => exact .ofEq rfl
  | deactLr lrInd hbound hact => exact .ofEq rfl
  | refill k lrInd hbound hinv hknown hin hgot =>
    have hbefore : (vgicRemoveSpilled v k (vgicGetOwnership v k s).2).lrWrites = s.lrWrites :=
      (vgicRemoveSpilled_lrWrites v k _).trans (vgicGetOwnership_lrWrites v k s)
    refine (RecordsAllowed.ofEq hbefore).trans (.write fun lr => ?_)
    have hroute := vgicRemoveSpilled_route v k s
    rcases hrefill k lrInd rfl with hrouted | ⟨hact, hown⟩
    · exact Or.inl (hrouted.sameRoute hroute)
    · refine Or.inr ?_
      obtain ⟨owner, h⟩ := vgicGetOwnership_ints v k k s
      have howner := vgicGetOwnership_owner hgot
      rw [vgicRemoveSpilled, VgicState.updInt_ints_same, rmSpilled_ints]
      exact ⟨by rw [h]; exact hact, howner⟩

theorem RecordsAllowed.next {e : VgicEvent} {s : VgicState} (hok : HandlersOk P s)
    (hen : e.enabled P s) (hasks : AsksRoute P s e) :
    RecordsAllowed (P := P) s (e.next P s) := by
  have hbegin := VgicEvent.begin_quiet (P := P) e s
  unfold AsksRoute at hasks
  obtain ⟨s₁, ⟨s₂, hdoes, hmoves⟩, hend⟩ := VgicEvent.next_shape (A := Routed P) hen
    (hok.mine e.vcpu) (hok.pc e.vcpu) (fun k i htarget => Or.inr htarget) (fun k i hpriv => Or.inl hpriv) (by
      intro k hk i hi
      cases hdeed : e.deed P s with
      | hw k' =>
        rw [hdeed] at hk hasks
        subst hk
        exact hasks.sameRoute hi
      | unlist k' =>
        rw [hdeed] at hk hasks
        obtain ⟨rfl, hhw, hpend⟩ := hk
        exact (hasks hhw hpend).sameRoute hi
      | _ =>
        rw [hdeed] at hk
        exact hk.elim)
  have hrecords : RecordsAllowed (P := P) s s₁ := by
    refine (RecordsAllowed.ofEq hbegin.lrWrites).trans (RecordsAllowed.trans ?_ (.moves hmoves))
    refine RecordsAllowed.does hdoes fun k lrInd hdeed => ?_
    rw [hdeed] at hasks
    rw [hbegin.ints]
    exact hasks
  rcases hend with ⟨-, hnext⟩ | ⟨-, pc, hnext, -⟩
  · rw [hnext]
    exact hrecords
  · rw [hnext]
    exact hrecords

/-- **SPI isolation between vCPUs.**  In every run whose steps ask for the
route, a shared interrupt is written to a list register only of a vCPU it is
routed to at that moment or is active on. -/
theorem spi_placed_where_routed {s : VgicState}
    (h : (vgicSystem P).Reach (AsksRoute P) s) : ∀ w ∈ s.lrWrites, w.Allowed P := by
  have hinit : ∀ s, (vgicSystem P).init s → HandlersOk P s ∧ ∀ w ∈ s.lrWrites, w.Allowed P := by
    intro s hs
    refine ⟨HandlersOk.init hs, fun w hw => ?_⟩
    rw [hs.history.1] at hw
    cases hw
  have hstep : ∀ s e s', (HandlersOk P s ∧ ∀ w ∈ s.lrWrites, w.Allowed P) → AsksRoute P s e →
      (vgicSystem P).step s e s' → HandlersOk P s' ∧ ∀ w ∈ s'.lrWrites, w.Allowed P := by
    rintro s e s' ⟨hok, hlog⟩ hasks ⟨hen, rfl⟩
    refine ⟨hok.next hen, fun w hw => ?_⟩
    rcases RecordsAllowed.next hok hen hasks w hw with hw' | hw'
    · exact hlog w hw'
    · exact hw'
  exact (h.invariant hinit hstep).2

instance (v : Nat) (k : IntKey) (i : VgicInt) : Decidable (Routed P v k i) :=
  inferInstanceAs (Decidable (_ ∨ _))

instance (w : LrWrite) : Decidable (w.Allowed P) := inferInstanceAs (Decidable (_ ∨ _))

instance (s : VgicState) (e : VgicEvent) : Decidable (AsksRoute P s e) := by
  unfold AsksRoute
  generalize e.deed P s = deed
  rcases deed with _ | _ <;> infer_instance

/-- vCPU 0 targets SPI 32 at itself, enables it and is sent it. -/
def deliverSpi : List VgicEvent :=
  [⟨0, .writeField .itargetsr 32 0 1⟩, ⟨0, .writeField .isenabler 32 0 1⟩, ⟨0, .inject 32 0⟩]

theorem spi_placed_where_routed_one :
    (vgicRun (twoCpuGic .gicv2 1 fun _ => false) deliverSpi
        (vgicBoot (twoCpuGic .gicv2 1 fun _ => false))).lrWrites.length = 1 ∧
      ∀ w ∈ (vgicRun (twoCpuGic .gicv2 1 fun _ => false) deliverSpi
        (vgicBoot (twoCpuGic .gicv2 1 fun _ => false))).lrWrites,
        w.Allowed (twoCpuGic .gicv2 1 fun _ => false) :=
  ⟨by decide +kernel, spi_placed_where_routed (RunMeets.fromBoot (by decide +kernel))⟩

/-- SPIs 32 and 33 are targeted at vCPU 0, whose only list register takes 33,
so 32 is spilled; then vCPU 1's register runs empty with its NPIE bit set. -/
def refillElsewhere : List VgicEvent :=
  [⟨0, .writeField .itargetsr 32 0 1⟩, ⟨0, .writeField .isenabler 32 0 1⟩,
    ⟨0, .writeField .itargetsr 33 0 1⟩, ⟨0, .writeField .isenabler 33 0 1⟩,
    ⟨0, .inject 33 0⟩, ⟨0, .inject 32 0⟩,
    ⟨1, .writeField .isenabler 20 1 1⟩, ⟨1, .inject 20 0⟩, ⟨1, .writeField .ipriorityr 20 1 8⟩,
    ⟨1, .ackLr 0⟩, ⟨1, .deactLr 0⟩, ⟨1, .maintain⟩, ⟨1, .maintain⟩]

/-- vCPU 1 refills its list register with SPI 32. -/
theorem spi_refilled_elsewhere :
    ∃ s, (vgicSystem (twoCpuGic .gicv2 1 fun _ => false)).Reachable s ∧
      ∃ w ∈ s.lrWrites, ¬ w.Allowed (twoCpuGic .gicv2 1 fun _ => false) := by
  let gic := twoCpuGic .gicv2 1 fun _ => false
  refine ⟨vgicRun gic refillElsewhere (vgicBoot gic), RunMeets.fromBoot (by decide +kernel), ?_⟩
  have hsome : (vgicRun gic refillElsewhere (vgicBoot gic)).lrWrites.any
      (fun w => !decide (w.Allowed gic)) = true := by decide +kernel
  obtain ⟨w, hw, hnot⟩ := List.any_eq_true.mp hsome
  exact ⟨w, hw, by simpa using hnot⟩

end Bao

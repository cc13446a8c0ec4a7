import BaoHypervisor.VgicLocks

/-!
# Calls that nobody interrupts

A program of `VgicLocks` that runs from its first lock to its last one with
nobody in between does what the function of the same name does in `VgicSystem`,
so that a call is a run of the steps of `vgicSystem`.
-/

namespace Bao

open LockProgram (Prog)

variable {P : VgicPlat}

namespace Locked

@[simp] theorem vgicAddSpilled_exec (v : Nat) (k : IntKey) (s : VgicState) :
    (vgicAddSpilled v k).exec s = ((), Bao.vgicAddSpilled v k s) := by
  simp [vgicAddSpilled]

@[simp] theorem vgicGetOwnership_exec (v : Nat) (k : IntKey) (s : VgicState) :
    (vgicGetOwnership v k).exec s = Bao.vgicGetOwnership v k s := by
  simp [vgicGetOwnership]

@[simp] theorem releaseOccupant_exec (v : Nat) (k : IntKey) (lrInd : Nat) (s : VgicState) :
    (releaseOccupant P v k lrInd).exec s = ((), Bao.releaseOccupant P v k lrInd s) := by
  simp only [releaseOccupant, Bao.releaseOccupant, Prog.exec_get_bind, Prog.exec_ite]
  split
  · rfl
  · cases vgicGetInt P ((s.cpus v).currLrs lrInd) v with
    | none => rfl
    | some k' => simp [dropRecord]

@[simp] theorem vgicWriteLr_exec (v : Nat) (k : IntKey) (lrInd : Nat) (s : VgicState) :
    (vgicWriteLr P v k lrInd).exec s = ((), Bao.vgicWriteLr P v k lrInd s) := by
  simp [vgicWriteLr, Bao.vgicWriteLr]

@[simp] theorem vgicSpillLr_exec (v lrInd : Nat) (s : VgicState) :
    (vgicSpillLr P v lrInd).exec s = ((), Bao.vgicSpillLr P v lrInd s) := by
  simp only [vgicSpillLr, Bao.vgicSpillLr, Prog.exec_get_bind]
  cases vgicGetInt P ((s.cpus v).lrs lrInd).vid v with
  | none => rfl
  | some k => simp [spillInt, Bao.spillInt]

@[simp] theorem placeInLr_exec (v : Nat) (k : IntKey) (lrInd : Nat) (s : VgicState) :
    (placeInLr P v k lrInd).exec s = ((), Bao.placeInLr P v k lrInd s) := by
  simp only [placeInLr, Bao.placeInLr, Prog.exec_get_bind]
  split <;> simp

@[simp] theorem vgicAddLr_exec (v : Nat) (k : IntKey) (s : VgicState) :
    (vgicAddLr P v k).exec s = ((), Bao.vgicAddLr P v k s) := by
  simp only [vgicAddLr, Bao.vgicAddLr, Prog.exec_get_bind, Prog.exec_ite, Prog.exec_pure]
  split
  · rfl
  · cases firstLr P v elrsr s with
    | some lrInd => exact placeInLr_exec v k lrInd s
    | none =>
      cases victimLr P v k s with
      | some lrInd => simp
      | none => exact vgicAddSpilled_exec v k s

@[simp] theorem routeElsewhere_exec (v : Nat) (k : IntKey) (s : VgicState) :
    (routeElsewhere P v k).exec s = ((), Bao.routeElsewhere P v k s) := by
  simp only [routeElsewhere, Bao.routeElsewhere, Prog.exec_get_bind]
  split <;> simp <;> split <;> rfl

@[simp] theorem vgicRoute_exec (v : Nat) (k : IntKey) (s : VgicState) :
    (vgicRoute P v k).exec s = ((), Bao.vgicRoute P v k s) := by
  simp only [vgicRoute, Bao.vgicRoute, Prog.exec_get_bind, Prog.exec_ite, Prog.exec_pure]
  split
  · rfl
  · split
    · rfl
    · split <;> simp

@[simp] theorem vgicIntSetField_exec (v : Nat) (reg : VgicReg) (k : IntKey) (vgicrId data : Nat)
    (tag : Option WriteTag) (s : VgicState) :
    (vgicIntSetField P v reg k vgicrId data tag).exec s =
      ((), Bao.vgicIntSetField P v reg k vgicrId data tag s) := by
  simp only [vgicIntSetField, Bao.vgicIntSetField, Prog.exec_locked, Prog.exec_bind,
    vgicGetOwnership_exec, Prog.exec_ite]
  split <;> simp

@[simp] theorem vgicIntReroute_exec (v : Nat) (k : IntKey) (tag : Option WriteTag)
    (s : VgicState) :
    (vgicIntReroute P v k tag).exec s = ((), Bao.vgicIntReroute P v k tag s) := by
  simp only [vgicIntReroute, Bao.vgicIntReroute, Prog.exec_locked, Prog.exec_bind,
    vgicGetOwnership_exec, Prog.exec_ite]
  split <;> simp

@[simp] theorem vgicdEmulRouterAccess_exec (v : Nat) (k : IntKey) (access : RouterAccess)
    (val : Nat) (s : VgicState) :
    (vgicdEmulRouterAccess P v k access val).exec s =
      ((), Bao.vgicdEmulRouterAccess P v k access val s) := by
  simp [vgicdEmulRouterAccess, Bao.vgicdEmulRouterAccess, mergeSetRoute]

@[simp] theorem vgicInjectHw_exec (v : Nat) (k : IntKey) (s : VgicState) :
    (vgicInjectHw P v k).exec s = ((), Bao.vgicInjectHw P v k s) := by
  simp [vgicInjectHw, Bao.vgicInjectHw]

@[simp] theorem vgicInjectSgi_exec (v : Nat) (k : IntKey) (source : Nat) (s : VgicState) :
    (vgicInjectSgi P v k source).exec s = ((), Bao.vgicInjectSgi P v k source s) := by
  simp only [vgicInjectSgi, Bao.vgicInjectSgi, Prog.exec_locked, Prog.exec_get_bind,
    Prog.exec_modify_bind, Prog.exec_ite, Prog.exec_pure, vgicAddLr_exec]
  split <;> rfl

@[simp] theorem vgicInject_exec (v id source : Nat) (s : VgicState) :
    (vgicInject P v id source).exec s = ((), Bao.vgicInject P v id source s) := by
  simp only [vgicInject, Bao.vgicInject]
  cases vgicGetInt P id v with
  | none => rfl
  | some k =>
    simp only [Prog.exec_ite, vgicInjectHw_exec, vgicInjectSgi_exec, vgicIntSetField_exec]
    split
    · rfl
    · split <;> rfl

@[simp] theorem handleRoute_exec (v : Nat) (k : IntKey) (s : VgicState) :
    (handleRoute P v k).exec s = ((), Bao.handleRoute P v k s) := by
  simp only [handleRoute, Bao.handleRoute, Prog.exec_locked]
  rw [Prog.exec_bind, vgicGetOwnership_exec]
  simp only [Prog.exec_ite, Prog.exec_get_bind, Prog.exec_pure]
  split
  · split <;> simp
  · rfl

@[simp] theorem vgicIpiHandler_exec (v : Nat) (msg : VgicMsg) (s : VgicState) :
    (vgicIpiHandler P v msg).exec s = ((), Bao.vgicIpiHandler P v msg s) := by
  cases msg with
  | updateEnable => rfl
  | route vgicrId intId =>
    simp only [vgicIpiHandler, Bao.vgicIpiHandler]
    cases vgicGetInt P intId v with
    | none => rfl
    | some k => exact handleRoute_exec v k s
  | inject intId val => exact vgicInject_exec v intId val s
  | setReg vgicrId intId reg val tag =>
    simp only [vgicIpiHandler, Bao.vgicIpiHandler]
    cases vgicGetInt P intId vgicrId with
    | none => rfl
    | some k =>
      simp only [Prog.exec_ite, vgicIntReroute_exec, vgicIntSetField_exec]
      split <;> rfl

@[simp] theorem trappedEoi_exec (v : Nat) (k : IntKey) (s : VgicState) :
    (trappedEoi P v k).exec s = ((), Bao.trappedEoi P v k s) := by
  simp only [trappedEoi, Bao.trappedEoi, Prog.exec_locked, Prog.exec_modify_bind,
    Prog.exec_modify, Prog.exec_ite, vgicAddLr_exec]
  split <;> rfl

@[simp] theorem eoirTurn_exec (v : Nat) (misr : Misr) (lrInd : Nat) (s : VgicState) :
    (eoirTurn P v misr lrInd).exec s = ((), Bao.eoirTurn P v misr lrInd s) := by
  simp only [eoirTurn, Bao.eoirTurn, Prog.exec_get_bind, Prog.exec_modify_bind]
  cases vgicGetInt P (lrIrqId P ((s.cpus v).lrs lrInd)) v with
  | none => rfl
  | some k =>
    simp only [Prog.exec_bind, trappedEoi_exec, Prog.exec_modify, nextEoir] <;> rfl

@[simp] theorem refillSearch_exec (v : Nat) (flags : IntState) (s : VgicState) :
    (refillSearch P v flags).exec s =
      match vgicHighestPrioSpilled P v flags s with
      | none => (none, refillDone v s)
      | some k => (some k, s) := by
  simp only [refillSearch, Prog.exec_locked, Prog.exec_get_bind]
  cases vgicHighestPrioSpilled P v flags s <;> rfl

@[simp] theorem takeCandidate_exec (v : Nat) (flags : IntState) (k : IntKey) (s : VgicState) :
    (takeCandidate P v flags k).exec s =
      if (s.ints k).inSpilled && (vgicGetState P v k s).meets flags then
        let got := Bao.vgicGetOwnership v k s
        ((true, got.1), if got.1 then vgicRemoveSpilled v k got.2 else got.2)
      else ((false, false), s) := by
  simp only [takeCandidate, Prog.exec_locked, Prog.exec_get_bind, Prog.exec_ite]
  split
  · simp only [Prog.exec_bind, vgicGetOwnership_exec, Prog.exec_ite, Prog.exec_modify,
      Prog.exec_pure]
    split <;> rfl
  · rfl

@[simp] theorem refillTurn_exec (v : Nat) (misr : Misr) (flags : IntState) (lrInd : Nat)
    (s : VgicState) :
    (refillTurn P v misr flags lrInd).exec s = ((), Bao.refillTurn P v misr flags lrInd s) := by
  simp only [refillTurn, Bao.refillTurn, Prog.exec_bind, refillSearch_exec]
  cases vgicHighestPrioSpilled P v flags s with
  | none => rfl
  | some k =>
    simp only [Prog.exec_locked, Prog.exec_bind, takeCandidate_exec, Prog.exec_ite]
    by_cases hlisted : ((s.ints k).inSpilled && (vgicGetState P v k s).meets flags) = true
    · simp only [if_pos hlisted]
      by_cases hgot : (Bao.vgicGetOwnership v k s).1 = true
      · simp only [hgot, if_true, vgicWriteLr_exec, Prog.exec_modify, refillLr, nextRefill] <;> rfl
      · simp [hgot]
    · simp only [if_neg hlisted, Bool.false_eq_true, if_false, Prog.exec_pure]

@[simp] theorem eoiSpilled_exec (v : Nat) (k : IntKey) (s : VgicState) :
    (eoiSpilled P v k).exec (vgicRemoveSpilled v k s) = ((), Bao.eoiSpilled P v k s) := by
  simp only [eoiSpilled, Bao.eoiSpilled, Prog.exec_modify_bind, Prog.exec_get_bind,
    Prog.exec_ite, Prog.exec_pure, vgicAddLr_exec]
  split
  · rfl
  · split <;> rfl

@[simp] theorem vgicEoirHighestSpilledActive_exec (v : Nat) {s : VgicState}
    (hlisted : ∀ k ∈ (s.cpus v).spilled ++ s.spilled, (s.ints k).inSpilled = true) :
    (vgicEoirHighestSpilledActive P v).exec s =
      (true, Bao.vgicEoirHighestSpilledActive P v s) := by
  have hsearch : (Prog.locked VgicLock.spilled (do
      let s ← Prog.get
      pure (vgicHighestPrioSpilled P v .act s)) : VgicProg _).exec s =
      (vgicHighestPrioSpilled P v .act s, s) := rfl
  unfold vgicEoirHighestSpilledActive Bao.vgicEoirHighestSpilledActive
  rw [Prog.exec_bind, hsearch]
  cases hk : vgicHighestPrioSpilled P v .act s with
  | none => rfl
  | some k =>
    obtain ⟨hmem, hmeets⟩ := vgicHighestPrioSpilled_eligible hk
    have hactive : (vgicGetState P v k s).active = true := by
      simpa [IntState.meets, IntState.act] using hmeets
    simp only [Prog.exec_locked, Prog.exec_bind, takeCandidate_exec, Prog.exec_ite,
      hlisted k hmem, hmeets, hactive, Bool.and_self, if_true]
    by_cases hgot : (Bao.vgicGetOwnership v k s).1 = true
    · simp [hgot]
    · simp [hgot]

theorem lrenpTurn_exec (v : Nat) (hcr : Hcr) {s : VgicState}
    (hlisted : ∀ k ∈ (s.cpus v).spilled ++ s.spilled, (s.ints k).inSpilled = true) :
    (lrenpTurn P v hcr).exec s = ((), Bao.lrenpTurn P v hcr s) := by
  simp only [lrenpTurn, Bao.lrenpTurn, Prog.exec_ite, Prog.exec_modify]
  split
  · rfl
  · simp [vgicEoirHighestSpilledActive_exec v hlisted, nextLrenp]

theorem gicMaintenanceTurn_exec (v : Nat) {s : VgicState}
    (hlisted : ∀ k ∈ (s.cpus v).spilled ++ s.spilled, (s.ints k).inSpilled = true) :
    (gicMaintenanceTurn P v).exec s = ((), Bao.gicMaintenanceTurn P v s) := by
  simp only [gicMaintenanceTurn, Bao.gicMaintenanceTurn, Prog.exec_get_bind]
  cases (s.cpus v).pc with
  | guest => rfl
  | eoir misr lrInd => exact eoirTurn_exec v misr lrInd s
  | refill misr flags lrInd => exact refillTurn_exec v misr flags lrInd s
  | lrenp hcr => exact lrenpTurn_exec v hcr hlisted

end Locked

/-- The writes of a register access to one field after the other. -/
def fieldEvents (P : VgicPlat) (v : Nat) (reg : VgicReg) (vgicrId : Nat) :
    Nat → List Nat → List VgicEvent
  | _, [] => []
  | intId, data :: rest =>
      match vgicGetInt P intId vgicrId with
      | none => []
      | some _ =>
          ⟨v, .writeField reg intId vgicrId data⟩ :: fieldEvents P v reg vgicrId (intId + 1) rest

/-- The steps a call consists of. -/
def VgicCall.events (P : VgicPlat) (v : Nat) : VgicCall → List VgicEvent
  | .writeFields gicr reg first vgicrId data =>
      if P.ver = .gicv2 ∨ gicr = gicIsPriv first then fieldEvents P v reg vgicrId first data
      else []
  | .otherAccess _ _ => []
  | .writeRoute intId access val => [⟨v, .writeRoute intId access val⟩]
  | .writeCtlr enable => [⟨v, .writeCtlr enable⟩]
  | .sendSgi pcpuMask intId => [⟨v, .sendSgi pcpuMask intId⟩]
  | .inject id source => [⟨v, .inject id source⟩]
  | .injectHw id => [⟨v, .injectHw id⟩]
  | .deliver => [⟨v, .deliver⟩]
  | .maintain => [⟨v, .maintain⟩]
  | .ackLr lrInd => [⟨v, .ackLr lrInd⟩]
  | .deactLr lrInd => [⟨v, .deactLr lrInd⟩]
  | .countEoi => [⟨v, .countEoi⟩]

theorem Locked.writeFields_exec (v : Nat) (reg : VgicReg) (vgicrId : Nat) (data : List Nat) :
    ∀ (intId : Nat) (s : VgicState), (Locked.writeFields P v reg vgicrId intId data).exec s =
      ((), vgicRun P (fieldEvents P v reg vgicrId intId data) s) := by
  induction data with
  | nil => exact fun _ _ => rfl
  | cons d rest ih =>
    intro intId s
    unfold Locked.writeFields fieldEvents
    cases hk : vgicGetInt P intId vgicrId with
    | none => rfl
    | some k =>
      rw [Prog.exec_get_bind, Prog.exec_modify_bind, Prog.exec_bind,
        Locked.vgicIntSetField_exec, ih]
      simp [vgicRun, VgicEvent.next, hk]

end Bao

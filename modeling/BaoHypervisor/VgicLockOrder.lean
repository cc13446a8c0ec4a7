import BaoHypervisor.VgicLocks

/-!
# The lock order of the vGIC

Every function of the vGIC asks for the lock of the distributor or of a
redistributor first, for the locks of interrupts under it, and for the lock of
the spilled lists last, and gives back what it took.  Only `vgic_write_lr` and
`vgic_spill_lr` ask for an interrupt's lock while they hold another one.
-/

namespace Bao

open LockProgram (Prog)
open LockProgram.Prog (get modify locked)

/-- A lock that is not the innermost one. -/
def VgicLock.Outer (l : VgicLock) : Prop := vgicRanking.rank l ≠ 0

/-- A program that may run under locks other than that of the spilled lists. -/
abbrev InOrder {α : Type} (p : VgicProg α) : Prop := Prog.Within vgicRanking VgicLock.Outer p

/-- A program that may run under any locks: it takes none. -/
abbrev LockFree {α : Type} (p : VgicProg α) : Prop := Prog.Within vgicRanking (fun _ => True) p

theorem LockFree.inOrder {α : Type} {p : VgicProg α} (h : LockFree p) : InOrder p :=
  h.mono fun _ _ => trivial

theorem inOrder_spilled {α : Type} {p : VgicProg α} (h : LockFree p) :
    InOrder (locked .spilled p) :=
  .locked (fun _ hm => Or.inl (Nat.pos_of_ne_zero hm)) (fun _ _ => trivial) trivial h

theorem inOrder_int {α : Type} {p : VgicProg α} (k : IntKey) (h : InOrder p) :
    InOrder (locked (.int k) p) := by
  refine .locked (fun m hm => ?_) (fun _ hm => hm) (Nat.succ_ne_zero 0) h
  rcases Nat.lt_or_ge 1 (vgicRanking.rank m) with hlt | hle
  · exact Or.inl hlt
  · exact Or.inr ⟨rfl, Nat.le_antisymm (Nat.pos_of_ne_zero hm) hle⟩

variable {P : VgicPlat}

namespace Locked

theorem vgicAddSpilled_inOrder (v : Nat) (k : IntKey) : InOrder (vgicAddSpilled v k) :=
  inOrder_spilled (.modify _)

theorem vgicGetOwnership_lockFree (v : Nat) (k : IntKey) : LockFree (vgicGetOwnership v k) :=
  .get_bind fun _ => .modify_bind (.pure _)

/-- **The second interrupt lock** of `vgic_write_lr`. -/
theorem releaseOccupant_inOrder (v : Nat) (k : IntKey) (lrInd : Nat) :
    InOrder (releaseOccupant P v k lrInd) := by
  refine .get_bind fun s => ?_
  dsimp only
  split
  · exact .pure _
  · split
    · exact .pure _
    · exact inOrder_int _ (.modify _)

theorem vgicWriteLr_inOrder (v : Nat) (k : IntKey) (lrInd : Nat) :
    InOrder (vgicWriteLr P v k lrInd) :=
  (releaseOccupant_inOrder v k lrInd).bind fun _ => .modify _

/-- **The second interrupt lock** of `vgic_spill_lr`. -/
theorem vgicSpillLr_inOrder (v lrInd : Nat) : InOrder (vgicSpillLr P v lrInd) := by
  refine .get_bind fun s => ?_
  split
  · exact .pure _
  · exact inOrder_int _ (.modify_bind ((vgicAddSpilled_inOrder v _).bind fun _ => .modify _))

theorem placeInLr_inOrder (v : Nat) (k : IntKey) (lrInd : Nat) :
    InOrder (placeInLr P v k lrInd) := by
  refine .get_bind fun s => ?_
  dsimp only
  split
  · exact (inOrder_spilled (.modify _)).bind fun _ => vgicWriteLr_inOrder v k lrInd
  · exact vgicWriteLr_inOrder v k lrInd

theorem vgicAddLr_inOrder (v : Nat) (k : IntKey) : InOrder (vgicAddLr P v k) := by
  refine .get_bind fun s => ?_
  split
  · exact .pure _
  · split
    · exact placeInLr_inOrder v k _
    · split
      · exact (vgicSpillLr_inOrder v _).bind fun _ => placeInLr_inOrder v k _
      · exact vgicAddSpilled_inOrder v k

theorem routeElsewhere_inOrder (v : Nat) (k : IntKey) : InOrder (routeElsewhere P v k) := by
  refine .get_bind fun s => ?_
  dsimp only
  have hrest : ∀ forwarded : Bool, InOrder (do
      let s ← get
      if !(s.ints k).inLr && !forwarded then vgicAddSpilled v k else pure ()) := by
    intro forwarded
    refine .get_bind fun s => ?_
    split
    · exact vgicAddSpilled_inOrder v k
    · exact .pure _
  split
  · exact .modify_bind (hrest _)
  · exact hrest _

theorem vgicRoute_inOrder (v : Nat) (k : IntKey) : InOrder (vgicRoute P v k) := by
  refine .get_bind fun s => ?_
  dsimp only
  split
  · exact .pure _
  · split
    · exact .pure _
    · split
      · exact (vgicAddLr_inOrder v k).bind fun _ => routeElsewhere_inOrder v k
      · exact routeElsewhere_inOrder v k

theorem vgicIntSetField_inOrder (v : Nat) (reg : VgicReg) (k : IntKey) (vgicrId data : Nat)
    (tag : Option WriteTag) : InOrder (vgicIntSetField P v reg k vgicrId data tag) := by
  refine inOrder_int k ((vgicGetOwnership_lockFree v k).inOrder.bind fun got => ?_)
  split
  · exact .modify_bind (.modify_bind ((vgicRoute_inOrder v k).bind fun _ => .modify _))
  · exact .modify _

theorem vgicIntReroute_inOrder (v : Nat) (k : IntKey) (tag : Option WriteTag) :
    InOrder (vgicIntReroute P v k tag) := by
  refine inOrder_int k ((vgicGetOwnership_lockFree v k).inOrder.bind fun got => ?_)
  split
  · exact .modify_bind ((vgicRoute_inOrder v k).bind fun _ => .modify _)
  · exact .modify _

theorem vgicdEmulRouterAccess_inOrder (v : Nat) (k : IntKey) (access : RouterAccess) (val : Nat) :
    InOrder (vgicdEmulRouterAccess P v k access val) :=
  (inOrder_int k (.modify _)).bind fun _ => vgicIntReroute_inOrder v k none

theorem writeFields_inOrder (v : Nat) (reg : VgicReg) (vgicrId : Nat) (data : List Nat) :
    ∀ intId, InOrder (writeFields P v reg vgicrId intId data) := by
  induction data with
  | nil => exact fun _ => .pure _
  | cons d rest ih =>
    intro intId
    unfold writeFields
    split
    · exact .pure _
    · exact .get_bind fun s => .modify_bind
        ((vgicIntSetField_inOrder v reg _ vgicrId d _).bind fun _ => ih (intId + 1))

theorem vgicInjectHw_inOrder (v : Nat) (k : IntKey) : InOrder (vgicInjectHw P v k) :=
  inOrder_int k (.modify_bind (vgicAddLr_inOrder v k))

theorem vgicInjectSgi_inOrder (v : Nat) (k : IntKey) (source : Nat) :
    InOrder (vgicInjectSgi P v k source) := by
  refine inOrder_int k (.modify_bind (.get_bind fun s => ?_))
  split
  · exact .pure _
  · exact .modify_bind (vgicAddLr_inOrder v k)

theorem vgicInject_inOrder (v id source : Nat) : InOrder (vgicInject P v id source) := by
  unfold vgicInject
  split
  · exact .pure _
  · split
    · exact vgicInjectHw_inOrder v _
    · split
      · exact vgicInjectSgi_inOrder v _ source
      · exact vgicIntSetField_inOrder v _ _ v 1 none

theorem handleRoute_inOrder (v : Nat) (k : IntKey) : InOrder (handleRoute P v k) := by
  refine inOrder_int k ((vgicGetOwnership_lockFree v k).inOrder.bind fun got => ?_)
  split
  · refine .get_bind fun s => ?_
    dsimp only
    split
    · exact (vgicAddLr_inOrder v k).bind fun _ => .modify _
    · exact .modify _
  · exact .pure _

theorem vgicIpiHandler_inOrder (v : Nat) (msg : VgicMsg) : InOrder (vgicIpiHandler P v msg) := by
  unfold vgicIpiHandler
  cases msg with
  | updateEnable => exact .modify _
  | route vgicrId intId =>
    dsimp only
    split
    · exact .pure _
    · exact handleRoute_inOrder v _
  | inject intId val => exact vgicInject_inOrder v intId val
  | setReg vgicrId intId reg val tag =>
    dsimp only
    split
    · exact .pure _
    · split
      · exact vgicIntReroute_inOrder v _ tag
      · exact vgicIntSetField_inOrder v reg _ vgicrId val tag

theorem trappedEoi_inOrder (v : Nat) (k : IntKey) : InOrder (trappedEoi P v k) := by
  refine inOrder_int k (.modify_bind ?_)
  split
  · exact vgicAddLr_inOrder v k
  · exact .modify _

theorem eoirTurn_inOrder (v : Nat) (misr : Misr) (lrInd : Nat) :
    InOrder (eoirTurn P v misr lrInd) := by
  refine .get_bind fun s => .modify_bind ?_
  split
  · exact .pure _
  · exact (trappedEoi_inOrder v _).bind fun _ => .modify _

theorem refillSearch_inOrder (v : Nat) (flags : IntState) :
    InOrder (refillSearch P v flags) := by
  refine inOrder_spilled (.get_bind fun s => ?_)
  split
  · exact .modify_bind (.pure _)
  · exact .pure _

theorem takeCandidate_inOrder (v : Nat) (flags : IntState) (k : IntKey) :
    InOrder (takeCandidate P v flags k) := by
  refine inOrder_spilled (.get_bind fun s => ?_)
  split
  · refine (vgicGetOwnership_lockFree v k).bind fun got => ?_
    dsimp only
    split
    · exact .modify_bind (.pure _)
    · exact .pure _
  · exact .pure _

theorem refillTurn_inOrder (v : Nat) (misr : Misr) (flags : IntState) (lrInd : Nat) :
    InOrder (refillTurn P v misr flags lrInd) := by
  refine (refillSearch_inOrder v flags).bind fun candidate => ?_
  split
  · exact .modify _
  · refine inOrder_int _ ((takeCandidate_inOrder v flags _).bind fun taken => ?_)
    split
    · exact (vgicWriteLr_inOrder v _ lrInd).bind fun _ => .modify _
    · exact .pure _

theorem eoiSpilled_inOrder (v : Nat) (k : IntKey) : InOrder (eoiSpilled P v k) := by
  refine .modify_bind (.get_bind fun s => ?_)
  split
  · exact .pure _
  · split
    · exact vgicAddLr_inOrder v k
    · exact .pure _

theorem vgicEoirHighestSpilledActive_inOrder (v : Nat) :
    InOrder (vgicEoirHighestSpilledActive P v) := by
  refine (inOrder_spilled (.get_bind fun _ => .pure _)).bind fun candidate => ?_
  split
  · exact .pure _
  · refine inOrder_int _ ((takeCandidate_inOrder v .act _).bind fun taken => ?_)
    dsimp only
    split
    · exact (eoiSpilled_inOrder v _).bind fun _ => .pure _
    · exact .pure _

theorem lrenpTurn_inOrder (v : Nat) (hcr : Hcr) : InOrder (lrenpTurn P v hcr) := by
  unfold lrenpTurn
  split
  · exact .modify _
  · refine (vgicEoirHighestSpilledActive_inOrder v).bind fun done => ?_
    split
    · exact .modify _
    · exact .pure _

theorem gicMaintenanceTurn_inOrder (v : Nat) : InOrder (gicMaintenanceTurn P v) := by
  refine .get_bind fun s => ?_
  split
  · exact .modify _
  · exact eoirTurn_inOrder v _ _
  · exact refillTurn_inOrder v _ _ _
  · exact lrenpTurn_inOrder v _

end Locked

/-- A program that is run with no lock held. -/
abbrev FromOutside {α : Type} (p : VgicProg α) : Prop := Prog.Within vgicRanking (fun _ => False) p

theorem InOrder.fromOutside {α : Type} {p : VgicProg α} (h : InOrder p) : FromOutside p :=
  h.mono fun _ hm => hm.elim

theorem fromOutside_locked {α : Type} {p : VgicProg α} {l : VgicLock} (hl : l.Outer)
    (h : InOrder p) : FromOutside (locked l p) :=
  .locked (fun _ hm => hm.elim) (fun _ hm => hm.elim) hl h

theorem accessLock_outer (gicr : Bool) (vgicrId : Nat) : (accessLock gicr vgicrId).Outer := by
  cases gicr <;> exact Nat.succ_ne_zero 1

/-- **Every call takes its locks in order.** -/
theorem VgicCall.body_fromOutside (v : Nat) (call : VgicCall) : FromOutside (call.body P v) := by
  cases call with
  | writeFields gicr reg first vgicrId data =>
    refine fromOutside_locked (accessLock_outer gicr vgicrId) ?_
    split
    · exact Locked.writeFields_inOrder v reg vgicrId data first
    · exact .pure _
  | otherAccess gicr vgicrId => exact fromOutside_locked (accessLock_outer gicr vgicrId) (.pure _)
  | writeRoute intId access val =>
    refine fromOutside_locked (Nat.succ_ne_zero 1) ?_
    split
    · exact .pure _
    · exact Locked.vgicdEmulRouterAccess_inOrder v _ access val
  | writeCtlr enable => exact fromOutside_locked (Nat.succ_ne_zero 1) (.modify _)
  | sendSgi pcpuMask intId =>
    dsimp only [VgicCall.body]
    split
    · exact fromOutside_locked (Nat.succ_ne_zero 1) (.modify _)
    · exact .modify _
  | inject id source => exact (Locked.vgicInject_inOrder v id source).fromOutside
  | injectHw id =>
    dsimp only [VgicCall.body]
    split
    · exact .pure _
    · exact (Locked.vgicInjectHw_inOrder v _).fromOutside
  | deliver =>
    refine .get_bind fun s => ?_
    split
    · exact .pure _
    · exact .modify_bind (Locked.vgicIpiHandler_inOrder v _).fromOutside
  | maintain => exact (Locked.gicMaintenanceTurn_inOrder v).fromOutside
  | ackLr lrInd => exact .modify _
  | deactLr lrInd => exact .modify _
  | countEoi => exact .modify _

/-- The condition on a step: `vgic_write_lr` and `vgic_spill_lr` ask for the
lock of a second interrupt only when it is held neither by the CPU itself nor by
one that waits for an interrupt's lock. -/
def AsksSafely (c : LockProgram.Config VgicState VgicLock)
    (e : Nat × LockProgram.Move VgicCall) : Prop :=
  match e.2, c.threads e.1 with
  | .go, .runs (.lock (.int k) _) => (∃ k', c.holder (.int k') = some e.1) →
      ∀ w, c.holder (.int k) = some w →
        w ≠ e.1 ∧ ∀ k' p, c.threads w ≠ .waits (.int k') p
  | _, _ => True

theorem AsksSafely.apart {c : LockProgram.Config VgicState VgicLock}
    {e : Nat × LockProgram.Move VgicCall} (h : AsksSafely c e) :
    LockProgram.AsksApart vgicRanking c e := by
  obtain ⟨v, move⟩ := e
  unfold AsksSafely at h
  unfold LockProgram.AsksApart
  cases move with
  | call call => trivial
  | go =>
    dsimp only at h ⊢
    cases hat : c.threads v with
    | idle => trivial
    | waits l p => trivial
    | runs p =>
      rw [hat] at h
      cases p with
      | lock l p =>
        intro hnests m hm hrank w hw
        cases l with
        | int k =>
          have hheld : ∃ k', c.holder (.int k') = some v := by
            cases m with
            | int k' => exact ⟨k', hm⟩
            | _ => cases hrank
          obtain ⟨hne, hfree⟩ := h hheld w hw
          refine ⟨hne, fun m' q hwaits => ?_⟩
          cases m' with
          | int k' => exact (hfree k' q hwaits).elim
          | _ => rfl
        | _ => cases hnests
      | _ => trivial

/-- **No deadlock in the vGIC** while no second interrupt's lock is asked for
crosswise: no set of CPUs wait for locks held by CPUs of the set. -/
theorem vgic_no_deadlock {c : LockProgram.Config VgicState VgicLock}
    (h : (vgicWorkload P).system.Reach AsksSafely c) (S : Nat → Prop) : ¬ c.Deadlocked S :=
  LockProgram.no_deadlock (R := vgicRanking)
    (fun v call => VgicCall.body_fromOutside v call [] fun _ hm => nomatch hm)
    (fun _ _ htidy hok => htidy.apart hok.apart) h S

/-! ## Two interrupts that change CPUs -/

/-- A call and the CPU's steps in it. -/
def calling (v : Nat) (call : VgicCall) (steps : Nat) :
    List (Nat × LockProgram.Move VgicCall) :=
  (v, .call call) :: List.replicate steps (v, .go)

/-- Two CPUs of one list register each, and two hardware interrupts. -/
def crossGic : VgicPlat := twoCpuGic .gicv3 1 fun id => id == 32 || id == 33

/-- Interrupt 33 is handled on CPU 0 and interrupt 32 on CPU 1, and then the
guest exchanges their routes: each CPU's record names the interrupt that the
other CPU will take. -/
def exchangeRoutes : List (Nat × LockProgram.Move VgicCall) :=
  calling 0 (.writeFields false .isenabler 32 0 [1, 1]) 26 ++
  calling 0 (.writeCtlr true) 5 ++ calling 1 .deliver 4 ++
  calling 0 (.writeRoute 33 .full 0) 16 ++ calling 1 (.writeRoute 32 .full 1) 16 ++
  calling 0 (.injectHw 33) 9 ++ calling 0 (.ackLr 0) 2 ++ calling 0 (.deactLr 0) 2 ++
  calling 1 (.injectHw 32) 9 ++ calling 1 (.ackLr 0) 2 ++ calling 1 (.deactLr 0) 2 ++
  calling 0 (.writeRoute 33 .full 1) 16 ++ calling 1 (.writeRoute 32 .full 0) 16

/-- A request for a lock that is free. -/
def AsksFree (c : LockProgram.Config VgicState VgicLock)
    (e : Nat × LockProgram.Move VgicCall) : Prop :=
  match e.2, c.threads e.1 with
  | .go, .runs (.lock l _) => c.holder l = none
  | _, _ => True

instance (c : LockProgram.Config VgicState VgicLock) (e : Nat × LockProgram.Move VgicCall) :
    Decidable (AsksFree c e) := by
  obtain ⟨v, move⟩ := e
  unfold AsksFree
  cases move with
  | call call => infer_instance
  | go =>
    dsimp only
    cases c.threads v with
    | runs p => cases p <;> infer_instance
    | _ => infer_instance

theorem AsksFree.safely {c : LockProgram.Config VgicState VgicLock}
    {e : Nat × LockProgram.Move VgicCall} (h : AsksFree c e) : AsksSafely c e := by
  obtain ⟨v, move⟩ := e
  unfold AsksFree at h
  unfold AsksSafely
  cases move with
  | call call => trivial
  | go =>
    dsimp only at h ⊢
    cases hat : c.threads v with
    | idle => trivial
    | waits l p => trivial
    | runs p =>
      rw [hat] at h
      cases p with
      | lock l p =>
        cases l with
        | int k =>
          intro _ w hw
          have hfree : c.holder (.int k) = none := h
          rw [hfree] at hw
          cases hw
        | _ => trivial
      | _ => trivial

/-- Interrupt 32 arrives on CPU 0, which also takes the lock of 33; then CPU 1
waits for that lock. -/
def oneAfterTheOther : List (Nat × LockProgram.Move VgicCall) :=
  exchangeRoutes ++ calling 0 (.injectHw 32) 7 ++ calling 1 (.injectHw 33) 1 ++ [(0, .go)]

/-- The lock a CPU waits for. -/
def waitsFor (c : LockProgram.Config VgicState VgicLock) (v : Nat) : Option VgicLock :=
  match c.threads v with
  | .waits l _ => some l
  | _ => none

theorem waitsFor_some {c : LockProgram.Config VgicState VgicLock} {v : Nat} {l : VgicLock}
    (h : waitsFor c v = some l) : ∃ p, c.threads v = .waits l p := by
  unfold waitsFor at h
  split at h
  · rename_i m p hat
    cases h
    exact ⟨p, hat⟩
  · cases h

theorem vgic_no_deadlock_one :
    ∃ c, (vgicWorkload crossGic).system.Reach AsksSafely c ∧
      waitsFor c 1 = some (.int (.shared 33)) ∧ c.holder (.int (.shared 33)) = some 0 ∧
      ∀ S, ¬ c.Deadlocked S := by
  have hmeets : (vgicWorkload crossGic).Meets AsksFree oneAfterTheOther
      (LockProgram.Workload.start (vgicBoot crossGic)) := by decide +kernel
  have hreach := (hmeets.fromStart (vgicBoot_init crossGic)).mono fun _ _ => AsksFree.safely
  exact ⟨_, hreach, by decide +kernel, by decide +kernel, vgic_no_deadlock hreach⟩

/-- Interrupt 32 arrives on CPU 0 and interrupt 33 on CPU 1 at the same
time. -/
def bothAtOnce : List (Nat × LockProgram.Move VgicCall) :=
  exchangeRoutes ++ [(0, .call (.injectHw 32)), (1, .call (.injectHw 33))] ++
    List.replicate 7 (0, .go) ++ List.replicate 7 (1, .go)

/-- **Each of two CPUs waits for the lock the other one holds.** -/
theorem vgic_deadlock :
    ¬ ∀ (P : VgicPlat) (c : LockProgram.Config VgicState VgicLock),
      (vgicWorkload P).system.Reachable c → ∀ S, ¬ c.Deadlocked S := by
  intro hall
  have hmeets : (vgicWorkload crossGic).Meets (fun _ _ => True) bothAtOnce
      (LockProgram.Workload.start (vgicBoot crossGic)) := by decide +kernel
  have hreach := hmeets.fromStart (vgicBoot_init crossGic)
  obtain ⟨p, hp⟩ := waitsFor_some (v := 0) (l := .int (.shared 33))
    (c := (vgicWorkload crossGic).run bothAtOnce (LockProgram.Workload.start (vgicBoot crossGic)))
    (by decide +kernel)
  obtain ⟨q, hq⟩ := waitsFor_some (v := 1) (l := .int (.shared 32))
    (c := (vgicWorkload crossGic).run bothAtOnce (LockProgram.Workload.start (vgicBoot crossGic)))
    (by decide +kernel)
  refine hall crossGic _ hreach (· < 2) ⟨⟨0, Nat.zero_lt_two⟩, fun v hv => ?_⟩
  match v, hv with
  | 0, _ => exact ⟨1, Nat.one_lt_two, _, p, hp, by decide +kernel⟩
  | 1, _ => exact ⟨0, Nat.zero_lt_two, _, q, hq, by decide +kernel⟩

end Bao

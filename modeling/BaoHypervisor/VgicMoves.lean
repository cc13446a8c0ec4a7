import BaoHypervisor.VgicCases
import Mathlib.Logic.Relation

/-!
# Moves and deeds of the vGIC

Every operation of the vGIC is one deed, what the operation is for, followed by
moves: an interrupt changes hands, goes onto a spilled list, leaves a list
register or enters one.  The invariants of the system are proved move by move
and deed by deed.
-/

namespace Bao

variable (P : VgicPlat)

/-- A change by `v` that interrupts, list registers and lists do not notice. -/
structure Quiet (v : Nat) (s s' : VgicState) : Prop where
  ints : s'.ints = s.ints
  spilled : s'.spilled = s.spilled
  lrWrites : s'.lrWrites = s.lrWrites
  lrs : (s'.cpus v).lrs = (s.cpus v).lrs
  currLrs : (s'.cpus v).currLrs = (s.cpus v).currLrs
  own : (s'.cpus v).spilled = (s.cpus v).spilled
  pc : (s'.cpus v).pc = (s.cpus v).pc
  others : ∀ w, w ≠ v → s'.cpus w = s.cpus w

/-- The tag of a forwarded guest write; the route register's update carries
nothing. -/
def VgicMsg.write : VgicMsg → Option WriteTag
  | .setReg _ _ reg _ tag => if reg = .irouter then none else tag
  | _ => none

/-- A quiet change that keeps NPIE, makes no register update and forwards no
guest write. -/
structure Silent (v : Nat) (s s' : VgicState) : Prop extends Quiet v s s' where
  npie : (s.cpus v).hcr.npie = true → (s'.cpus v).hcr.npie = true
  applied : s'.applied = s.applied
  issued : s'.issued = s.issued
  inbox : ∀ c, ∃ msgs, s'.inbox c = s.inbox c ++ msgs ∧ ∀ msg ∈ msgs, msg.write = none

/-- The key of an interrupt the VM has. -/
def Known (k : IntKey) : Prop := ∃ w, vgicGetInt P k.id w = some k

/-- When `vgic_add_lr` may write an interrupt to a list register: it is in
none, there is something to deliver, it is the vCPU's or named by the register
itself, and the register is empty or names an interrupt that is not recorded
there. -/
structure MayPlace (v : Nat) (k : IntKey) (lrInd : Nat) (s : VgicState) : Prop where
  known : Known P k
  out : (s.ints k).inLr = false
  live : (s.ints k).enabled = true ∨ (s.ints k).state.active = true
  bound : lrInd < P.numLrs
  mine : (s.ints k).owner = some v ∨ (∃ id, k = .priv v id) ∨
    (((s.cpus v).lrs lrInd).state ≠ .inv ∧ vgicGetInt P ((s.cpus v).lrs lrInd).vid v = some k)
  room : ((s.cpus v).lrs lrInd).state = .inv ∨
    ∀ k', vgicGetInt P ((s.cpus v).lrs lrInd).vid v = some k' →
      ¬ ((s.ints k').owner = some v ∧ (s.ints k').inLr = true ∧ (s.ints k').lr = lrInd)

variable (A : Nat → IntKey → VgicInt → Prop)

/-- One move by `v`; `A` says which interrupts may enter its list
registers. -/
inductive VgicMove (v : Nat) : VgicState → VgicState → Prop
  | take {s : VgicState} (k : IntKey) (hown : (s.ints k).owner = none) :
      VgicMove v s (s.updInt k fun i => { i with owner := some v })
  | yield {s : VgicState} (k : IntKey) : VgicMove v s (vgicYieldOwnership P v k s)
  | spill {s : VgicState} (k : IntKey) (hknown : Known P k)
      (hmine : gicIsPriv k.id = true → (s.ints k).owner = some v ∨ ∃ id, k = .priv v id) :
      VgicMove v s (vgicAddSpilled v k s)
  | remove {s : VgicState} (k : IntKey) : VgicMove v s (vgicRemoveLr P v k s)
  | place {s : VgicState} (k : IntKey) (lrInd : Nat) (hmay : MayPlace P v k lrInd s)
      (hplace : A v k (s.ints k)) : VgicMove v s (placeInLr P v k lrInd s)
  | silent {s s' : VgicState} (h : Silent v s s') : VgicMove v s s'
  | calm {s : VgicState} (flags : IntState) (hpend : flags.pending = true)
      (hnone : vgicHighestPrioSpilled P v flags s = none) : VgicMove v s (refillDone v s)
  | writeBack {s : VgicState} (hcr hcr' : Hcr) (hpc : (s.cpus v).pc = .lrenp hcr)
      (hnpie : hcr'.npie = hcr.npie) : VgicMove v s (s.gichSetHcr v hcr')

/-- Any number of moves. -/
abbrev VgicMoves (v : Nat) : VgicState → VgicState → Prop :=
  Relation.ReflTransGen (VgicMove P A v)

/-- What an operation is for. -/
inductive VgicDeed
  | nothing
  | field (reg : VgicReg) (k : IntKey) (data : Nat) (tag : Option WriteTag)
  | forward (reg : VgicReg) (k : IntKey) (vgicrId data : Nat) (tag : Option WriteTag)
  | setRoute (k : IntKey) (route : Nat)
  | hw (k : IntKey)
  | source (k : IntKey) (src : Nat)
  | zeroLr (lrInd : Nat)
  | clearLr (lrInd : Nat) (k : IntKey)
  | refill (k : IntKey) (lrInd : Nat)
  | unlist (k : IntKey)
  | ackLr (lrInd : Nat)
  | deactLr (lrInd : Nat)

/-- How each deed changes the state. -/
inductive Does (v : Nat) : VgicDeed → VgicState → VgicState → Prop
  | nothing {s : VgicState} : Does v .nothing s s
  | field {s : VgicState} (reg : VgicReg) (k : IntKey) (data : Nat) (tag : Option WriteTag)
      (hgot : (vgicGetOwnership v k s).1 = true) :
      Does v (.field reg k data tag) s
        (applyField P reg k data tag (vgicRemoveLr P v k (vgicGetOwnership v k s).2))
  | forward {s : VgicState} (reg : VgicReg) (k : IntKey) (vgicrId data : Nat)
      (tag : Option WriteTag) (hgot : (vgicGetOwnership v k s).1 = false) :
      Does v (.forward reg k vgicrId data tag) s
        (forwardToOwner P k (.setReg vgicrId k.id reg data tag) s)
  | setRoute {s : VgicState} (k : IntKey) (route : Nat) :
      Does v (.setRoute k route) s (vgicIntSetRoute P v k route s)
  | hw {s : VgicState} (k : IntKey) (hhw : vgicIntIsHw P k = true)
      (hmine : ∃ id, vgicGetInt P id v = some k) :
      Does v (.hw k) s (takeHw v k s)
  | source {s : VgicState} (k : IntKey) (src : Nat) (hpriv : ∃ id, k = .priv v id)
      (hsgi : isV2Sgi P k = true) :
      Does v (.source k src) s (addSource k src (vgicRemoveLr P v k s))
  | zeroLr {s : VgicState} (lrInd : Nat) (hinv : ((s.cpus v).lrs lrInd).state = .inv) :
      Does v (.zeroLr lrInd) s (s.gichWriteLr v lrInd .zero)
  | clearLr {s : VgicState} (lrInd : Nat) (k : IntKey)
      (hinv : ((s.cpus v).lrs lrInd).state = .inv) :
      Does v (.clearLr lrInd k) s
        ((s.gichWriteLr v lrInd .zero).updInt k fun i => { i with inLr := false })
  | refill {s : VgicState} (k : IntKey) (lrInd : Nat) (hbound : lrInd < P.numLrs)
      (hinv : ((s.cpus v).lrs lrInd).state = .inv) (hknown : Known P k)
      (hin : (s.ints k).inSpilled = true)
      (hgot : (vgicGetOwnership v k s).1 = true) :
      Does v (.refill k lrInd) s (refillLr P v k lrInd (vgicGetOwnership v k s).2)
  | unlist {s : VgicState} (k : IntKey) (hknown : Known P k)
      (hin : (s.ints k).inSpilled = true)
      (hgot : (vgicGetOwnership v k s).1 = true) :
      Does v (.unlist k) s
        ((vgicRemoveSpilled v k (vgicGetOwnership v k s).2).updInt k fun i =>
          { i with state := { i.state with active := false } })
  | ackLr {s : VgicState} (lrInd : Nat) (hbound : lrInd < P.numLrs)
      (hpend : ((s.cpus v).lrs lrInd).state = .pend) :
      Does v (.ackLr lrInd) s (guestLr v lrInd (fun _ => .act) s)
  | deactLr {s : VgicState} (lrInd : Nat) (hbound : lrInd < P.numLrs)
      (hact : ((s.cpus v).lrs lrInd).state.active = true) :
      Does v (.deactLr lrInd) s (guestLr v lrInd (fun state => state.onlyPend) s)

/-- The deed of `vgic_int_set_field`. -/
def setFieldDeed (v : Nat) (reg : VgicReg) (k : IntKey) (vgicrId data : Nat)
    (tag : Option WriteTag) (s : VgicState) : VgicDeed :=
  if (vgicGetOwnership v k s).1 then .field reg k data tag
  else .forward reg k vgicrId data tag

/-- The deed of `vgic_inject`. -/
def injectDeed (v id source : Nat) (s : VgicState) : VgicDeed :=
  match vgicGetInt P id v with
  | none => .nothing
  | some k =>
      if vgicIntIsHw P k then .hw k
      else if isV2Sgi P k then
        let i := (vgicRemoveLr P v k s).ints k
        if i.sgiPend = i.sgiPend ||| 1#8 <<< source then .nothing else .source k source
      else setFieldDeed v .ispendr k v 1 none s

/-- The deed of `vgic_ipi_handler`. -/
def msgDeed (v : Nat) (msg : VgicMsg) (s : VgicState) : VgicDeed :=
  match msg with
  | .updateEnable => .nothing
  | .route _ _ => .nothing
  | .inject intId val => injectDeed P v intId val s
  | .setReg vgicrId intId reg val tag =>
      match vgicGetInt P intId vgicrId with
      | none => .nothing
      | some k => if reg = .irouter then .nothing else setFieldDeed v reg k vgicrId val tag s

/-- The deed of a turn of the maintenance handler. -/
def turnDeed (v : Nat) (s : VgicState) : VgicDeed :=
  match (s.cpus v).pc with
  | .guest => .nothing
  | .eoir _ lrInd =>
      match vgicGetInt P (lrIrqId P ((s.cpus v).lrs lrInd)) v with
      | none => .zeroLr lrInd
      | some k => .clearLr lrInd k
  | .refill _ flags lrInd =>
      match vgicHighestPrioSpilled P v flags s with
      | none => .nothing
      | some k =>
          if (s.ints k).inSpilled && (vgicGetState P v k s).meets flags
              && (vgicGetOwnership v k s).1 then .refill k lrInd
          else .nothing
  | .lrenp hcr =>
      if hcr.eoiCount = 0 then .nothing
      else match vgicHighestPrioSpilled P v .act s with
        | none => .nothing
        | some k =>
            if (s.ints k).inSpilled && (vgicGetState P v k s).active
                && (vgicGetOwnership v k s).1 then .unlist k
            else .nothing

/-- The state an operation starts from: a guest write is numbered, a message is
taken off its queue. -/
def VgicEvent.begin (e : VgicEvent) (s : VgicState) : VgicState :=
  match e.op with
  | .writeField _ _ _ _ => { s with issued := s.issued + 1 }
  | .deliver => { s with inbox := atCpu s.inbox (P.physId e.vcpu) (s.inbox (P.physId e.vcpu)).tail }
  | _ => s

/-- The deed of an operation. -/
def VgicEvent.deed (e : VgicEvent) (s : VgicState) : VgicDeed :=
  match e.op with
  | .writeField reg intId vgicrId data =>
      match vgicGetInt P intId vgicrId with
      | none => .nothing
      | some k => setFieldDeed e.vcpu reg k vgicrId data (some ⟨e.vcpu, s.issued⟩) (e.begin P s)
  | .writeRoute intId access val =>
      match vgicGetInt P intId e.vcpu with
      | none => .nothing
      | some k =>
          .setRoute k (mergeRoute access (if gicIsPriv k.id then 0 else (s.ints k).route) val)
  | .inject id source => injectDeed P e.vcpu id source s
  | .injectHw id =>
      match vgicGetInt P id e.vcpu with
      | none => .nothing
      | some k => .hw k
  | .deliver =>
      match s.inbox (P.physId e.vcpu) with
      | [] => .nothing
      | msg :: _ => msgDeed P e.vcpu msg (e.begin P s)
  | .maintain => turnDeed P e.vcpu s
  | .ackLr lrInd => .ackLr lrInd
  | .deactLr lrInd => .deactLr lrInd
  | _ => .nothing

/-- The interrupts an operation hands to `vgic_add_lr` without asking whether
they are routed to the vCPU. -/
def PlacesUnasked (s : VgicState) (k : IntKey) : VgicDeed → Prop
  | .hw k' => k' = k
  | .unlist k' => k' = k ∧ vgicIntIsHw P k = false ∧ (s.ints k).state.pending = true
  | _ => False

/-- Where the maintenance handler may be, by the list registers. -/
def PcAt (c : VgicCpu) : VgicPc → Prop
  | .eoir _ lrInd => lrInd < P.numLrs ∧ (c.lrs lrInd).state = .inv
  | .refill _ flags lrInd =>
      flags.pending = true ∧ lrInd < P.numLrs ∧ (c.lrs lrInd).state = .inv
  | _ => True

/-- The handler goes on at a place that fits the list registers. -/
def GoesOn (v : Nat) (s s' : VgicState) : Prop :=
  ∃ pc, s' = goTo v pc s ∧ PcAt P (s.cpus v) pc

/-! ## Quiet changes -/

namespace Quiet

variable {v : Nat} {s s' s'' : VgicState}

theorem refl (s : VgicState) : Quiet v s s :=
  ⟨rfl, rfl, rfl, rfl, rfl, rfl, rfl, fun _ _ => rfl⟩

theorem trans (h : Quiet v s s') (h' : Quiet v s' s'') : Quiet v s s'' where
  ints := h'.ints.trans h.ints
  spilled := h'.spilled.trans h.spilled
  lrWrites := h'.lrWrites.trans h.lrWrites
  lrs := h'.lrs.trans h.lrs
  currLrs := h'.currLrs.trans h.currLrs
  own := h'.own.trans h.own
  pc := h'.pc.trans h.pc
  others w hw := (h'.others w hw).trans (h.others w hw)

theorem sendMsg (s : VgicState) (msg : VgicMsg) (cpu : Nat) : Quiet v s (s.sendMsg msg cpu) :=
  ⟨rfl, rfl, rfl, rfl, rfl, rfl, rfl, fun _ _ => rfl⟩

theorem setHcr (s : VgicState) (hcr : Hcr) : Quiet v s (s.gichSetHcr v hcr) := by
  refine ⟨rfl, rfl, rfl, ?_, ?_, ?_, ?_, fun w hw => VgicState.updCpu_cpus_ne s _ hw⟩ <;>
    simp [VgicState.gichSetHcr]

theorem forwardToOwner (s : VgicState) (k : IntKey) (msg : VgicMsg) :
    Quiet v s (forwardToOwner P k msg s) := by
  unfold Bao.forwardToOwner
  cases (s.ints k).owner with
  | none => exact refl s
  | some w => exact sendMsg s msg _

end Quiet

namespace Silent

variable {v : Nat}

theorem refl (s : VgicState) : Silent v s s :=
  ⟨Quiet.refl s, id, rfl, rfl, fun _ => ⟨[], (List.append_nil _).symm, fun _ h => by cases h⟩⟩

theorem setHcr (s : VgicState) {hcr : Hcr} (hnpie : hcr.npie = (s.cpus v).hcr.npie) :
    Silent v s (s.gichSetHcr v hcr) := by
  refine ⟨Quiet.setHcr s hcr, fun h => ?_, rfl, rfl,
    fun _ => ⟨[], (List.append_nil _).symm, fun _ h => by cases h⟩⟩
  rw [VgicState.gichSetHcr, VgicState.updCpu_cpus_same]
  exact hnpie.trans h

theorem sendMsg (s : VgicState) {msg : VgicMsg} (cpu : Nat) (hmsg : msg.write = none) :
    Silent v s (s.sendMsg msg cpu) := by
  refine ⟨Quiet.sendMsg s msg cpu, id, rfl, rfl, fun c => ?_⟩
  by_cases hc : c = cpu
  · subst hc
    refine ⟨[msg], atCpu_same _ _ _, fun m hm => ?_⟩
    rw [List.mem_singleton.mp hm]
    exact hmsg
  · refine ⟨[], ?_, fun _ h => by cases h⟩
    rw [List.append_nil]
    exact atCpu_other _ _ hc

theorem trans {s s' s'' : VgicState} (h : Silent v s s') (h' : Silent v s' s'') :
    Silent v s s'' := by
  refine ⟨h.toQuiet.trans h'.toQuiet, fun hn => h'.npie (h.npie hn), h'.applied.trans h.applied,
    h'.issued.trans h.issued, fun c => ?_⟩
  obtain ⟨msgs, heq, hmsgs⟩ := h.inbox c
  obtain ⟨msgs', heq', hmsgs'⟩ := h'.inbox c
  refine ⟨msgs ++ msgs', ?_, fun m hm => ?_⟩
  · rw [heq', heq, List.append_assoc]
  · rcases List.mem_append.mp hm with hm | hm
    · exact hmsgs m hm
    · exact hmsgs' m hm

theorem sendAll (s : VgicState) {msg : VgicMsg} (cpus : List Nat) (hmsg : msg.write = none) :
    Silent v s (cpus.foldl (VgicState.sendMsg · msg) s) := by
  induction cpus generalizing s with
  | nil => exact refl s
  | cons c cs ih => exact (sendMsg s c hmsg).trans (ih (s.sendMsg msg c))

theorem forwardToOwner (s : VgicState) (k : IntKey) {msg : VgicMsg} (hmsg : msg.write = none) :
    Silent v s (forwardToOwner P k msg s) := by
  unfold Bao.forwardToOwner
  cases (s.ints k).owner with
  | none => exact refl s
  | some w => exact sendMsg s _ hmsg

end Silent

/-! ## What stays with other CPUs, and where the handler is -/

/-- Only `v`'s part changed, and its place in the handler did not. -/
structure OwnPart (v : Nat) (s s' : VgicState) : Prop where
  others : ∀ w, w ≠ v → s'.cpus w = s.cpus w
  pc : (s'.cpus v).pc = (s.cpus v).pc

namespace OwnPart

variable {P A}
variable {v : Nat} {s s' s'' : VgicState}

theorem refl (s : VgicState) : OwnPart v s s := ⟨fun _ _ => rfl, rfl⟩

theorem trans (h : OwnPart v s s') (h' : OwnPart v s' s'') : OwnPart v s s'' :=
  ⟨fun w hw => (h'.others w hw).trans (h.others w hw), h'.pc.trans h.pc⟩

theorem ofEq (h : s'.cpus = s.cpus) : OwnPart v s s' := ⟨fun w _ => by rw [h], by rw [h]⟩

theorem updCpu (s : VgicState) {f : VgicCpu → VgicCpu} (hf : (f (s.cpus v)).pc = (s.cpus v).pc) :
    OwnPart v s (s.updCpu v f) :=
  ⟨fun _ hw => VgicState.updCpu_cpus_ne s f hw, by rw [VgicState.updCpu_cpus_same, hf]⟩

theorem updInt (s : VgicState) (k : IntKey) (f : VgicInt → VgicInt) :
    OwnPart v s (s.updInt k f) := ofEq rfl

theorem setHcr (s : VgicState) (hcr : Hcr) : OwnPart v s (s.gichSetHcr v hcr) := updCpu s rfl

theorem gichWriteLr (s : VgicState) (i : Nat) (lr : ListReg) :
    OwnPart v s (s.gichWriteLr v i lr) := updCpu s rfl

theorem addSpilled (v : Nat) (k : IntKey) (s : VgicState) :
    OwnPart v s (vgicAddSpilled v k s) := by
  rcases vgicAddSpilled_cases v k s with h | ⟨-, -, hcr, h⟩
  · rw [h]
    exact refl s
  · rw [h]
    have hpush : OwnPart v s (pushSpilled v k s) := by
      unfold pushSpilled
      split
      · exact updCpu s rfl
      · exact ofEq rfl
    exact (hpush.trans (updInt _ _ _)).trans (setHcr _ _)

theorem removeSpilled (v : Nat) (k : IntKey) (s : VgicState) :
    OwnPart v s (vgicRemoveSpilled v k s) := by
  have hrm : OwnPart v s (rmSpilled v k s) := by
    unfold rmSpilled
    split
    · exact updCpu s rfl
    · exact ofEq rfl
  exact hrm.trans (ofEq rfl)

theorem removeLr (v : Nat) (k : IntKey) (s : VgicState) :
    OwnPart v s (vgicRemoveLr P v k s) := by
  rcases vgicRemoveLr_cases (P := P) v k s with ⟨h, -⟩ | ⟨-, -, -, h⟩ | ⟨-, -, -, -, h⟩
  · rw [h]
    exact refl s
  · rw [h]
    exact ofEq rfl
  · rw [h]
    exact ((gichWriteLr s _ _).trans (updInt _ _ _)).trans ((updInt _ _ _).trans (setHcr _ _))

theorem writeLr (v : Nat) (k : IntKey) (lrInd : Nat) (s : VgicState) :
    OwnPart v s (vgicWriteLr P v k lrInd s) := by
  have hrelease : OwnPart v s (releaseOccupant P v k lrInd s) :=
    ofEq (releaseOccupant_cpus v k lrInd s)
  refine hrelease.trans ⟨fun w hw => fillLr_cpus_ne v k lrInd _ hw, ?_⟩
  rw [vgicWriteLr, fillLr_cpu]

theorem placeInLr (v : Nat) (k : IntKey) (lrInd : Nat) (s : VgicState) :
    OwnPart v s (placeInLr P v k lrInd s) := by
  unfold Bao.placeInLr
  split
  · exact (removeSpilled v k s).trans (writeLr v k lrInd _)
  · exact writeLr v k lrInd s

theorem quiet (h : Quiet v s s') : OwnPart v s s' := ⟨h.others, h.pc⟩

theorem move (h : VgicMove P A v s s') : OwnPart v s s' := by
  cases h with
  | take k hown => exact ofEq rfl
  | yield k => exact ofEq (vgicYieldOwnership_cpus v k s)
  | spill k hknown hmine => exact addSpilled v k s
  | remove k => exact removeLr v k s
  | place k lrInd hmay hplace => exact placeInLr v k lrInd s
  | silent h => exact quiet h.toQuiet
  | calm flags hpend hnone => exact quiet (Quiet.setHcr s _)
  | writeBack hcr hcr' hpc hnpie => exact quiet (Quiet.setHcr s _)

theorem moves (h : VgicMoves P A v s s') : OwnPart v s s' := by
  induction h with
  | refl => exact refl s
  | tail _ hmove ih => exact ih.trans (move hmove)

theorem does {d : VgicDeed} (h : Does P v d s s') : OwnPart v s s' := by
  cases h with
  | nothing => exact refl s
  | field reg k data tag hgot =>
    have hget : OwnPart v s (vgicGetOwnership v k s).2 := ofEq (vgicGetOwnership_cpus v k s)
    exact (hget.trans (removeLr v k _)).trans (ofEq rfl)
  | forward reg k vgicrId data tag hgot => exact quiet (Quiet.forwardToOwner P s k _)
  | setRoute k route =>
    refine ofEq ?_
    unfold vgicIntSetRoute
    split <;> rfl
  | hw k hhw hmine => exact ofEq rfl
  | source k src hpriv hsgi => exact (removeLr v k s).trans (ofEq rfl)
  | zeroLr lrInd hinv => exact gichWriteLr s _ _
  | clearLr lrInd k hinv => exact (gichWriteLr s _ _).trans (updInt _ _ _)
  | refill k lrInd hbound hinv hknown hin hgot =>
    have hget : OwnPart v s (vgicGetOwnership v k s).2 := ofEq (vgicGetOwnership_cpus v k s)
    exact (hget.trans (removeSpilled v k _)).trans (writeLr v k lrInd _)
  | unlist k hknown hin hgot =>
    have hget : OwnPart v s (vgicGetOwnership v k s).2 := ofEq (vgicGetOwnership_cpus v k s)
    exact (hget.trans (removeSpilled v k _)).trans (ofEq rfl)
  | ackLr lrInd hbound hpend => exact gichWriteLr s _ _
  | deactLr lrInd hbound hact => exact gichWriteLr s _ _

end OwnPart

section Owner

variable {P A}
variable {v : Nat} {k k' : IntKey} {s s' : VgicState}

theorem vgicWriteLr_owner (hpriv : gicIsPriv k.id = true) (lrInd : Nat) :
    ((vgicWriteLr P v k' lrInd s).ints k).owner = (s.ints k).owner := by
  have hrelease : (releaseOccupant P v k' lrInd s).ints k = s.ints k := by
    rcases releaseOccupant_cases (P := P) v k' lrInd s with h | ⟨k'', -, -, hshared, -, -, -, h⟩
    · rw [h]
    · have hne : k ≠ k'' := by
        intro hk
        rw [← hk, hpriv] at hshared
        cases hshared
      rw [h, vgicYieldOwnership_ints_ne _ _ _ hne, VgicState.updInt_ints_ne _ _ hne]
  rw [vgicWriteLr, ← hrelease]
  by_cases hk : k = k'
  · subst hk
    rw [fillLr_int]
  · rw [fillLr_ints_ne _ _ _ _ hk]

theorem VgicMove.keepsOwner (hpriv : gicIsPriv k.id = true) (hown : (s.ints k).owner = some v)
    (h : VgicMove P A v s s') : (s'.ints k).owner = some v := by
  cases h with
  | take k' hnone =>
    have hk : k ≠ k' := by
      intro hk
      rw [← hk, hown] at hnone
      cases hnone
    rw [VgicState.updInt_ints_ne _ _ hk]
    exact hown
  | yield k' =>
    rcases vgicYieldOwnership_cases (P := P) v k' s with h | ⟨hshared, -, -, -, h⟩
    · rw [h]
      exact hown
    · have hk : k ≠ k' := by
        intro hk
        rw [← hk, hpriv] at hshared
        cases hshared
      rw [h, VgicState.updInt_ints_ne _ _ hk]
      exact hown
  | spill k' hknown hmine =>
    obtain ⟨b, hb⟩ := vgicAddSpilled_ints v k' s k
    rw [hb]
    exact hown
  | remove k' =>
    rw [vgicRemoveLr_owner]
    exact hown
  | place k' lrInd hmay hplace =>
    unfold placeInLr
    rw [vgicWriteLr_owner hpriv]
    split
    · by_cases hk : k = k'
      · subst hk
        rw [vgicRemoveSpilled_int]
        exact hown
      · rw [vgicRemoveSpilled_ints_ne v k' s hk]
        exact hown
    · exact hown
  | silent h =>
    rw [h.ints]
    exact hown
  | calm flags hpend hnone => exact hown
  | writeBack hcr hcr' hpc hnpie => exact hown

theorem VgicMoves.keepsOwner (hpriv : gicIsPriv k.id = true) (hown : (s.ints k).owner = some v)
    (h : VgicMoves P A v s s') : (s'.ints k).owner = some v := by
  induction h with
  | refl => exact hown
  | tail _ hmove ih => exact hmove.keepsOwner hpriv ih

end Owner

end Bao

import BaoHypervisor.StepSystem
import BaoHypervisor.Vaplic

/-!
# The vAPLIC as a system

The guest's accesses to the registers of the domain and of the harts, injections
and messages.  A step is one of them, run under the vAPLIC's lock, together with
what the physical APLIC answers in it.
-/

namespace Bao

open WordRegs (bit put setBit clearBit bit_clearBit_iff)

/-- What a hart of the VM can make its CPU do. -/
inductive VaplicOp
  | setDomaincfg (newVal : BitVec 32)
  | setSourcecfg (intpId : Nat) (newVal : BitVec 32)
  | setSetip (reg : Nat) (newVal : BitVec 32)
  | setSetipnum (newVal : BitVec 32)
  | setInClrip (reg : Nat) (newVal : BitVec 32)
  | setClripnum (newVal : BitVec 32)
  | setSetie (reg : Nat) (newVal : BitVec 32)
  | setSetienum (newVal : BitVec 32)
  | setClrie (reg : Nat) (newVal : BitVec 32)
  | setClrienum (newVal : BitVec 32)
  | setTarget (intpId : Nat) (newVal : BitVec 32)
  | setIdelivery (idcId : Nat) (newVal : BitVec 32)
  | setIforce (idcId : Nat) (newVal : BitVec 32)
  | setIthreshold (idcId : Nat) (newVal : BitVec 32)
  | getDomaincfg
  | getSourcecfg (intpId : Nat)
  | getSetip (reg : Nat)
  | getInClrip (reg : Nat)
  | getSetie (reg : Nat)
  | getTarget (intpId : Nat)
  | getIdelivery (idcId : Nat)
  | getIforce (idcId : Nat)
  | getIthreshold (idcId : Nat)
  | getTopi (idcId : Nat)
  | getClaimi (idcId : Nat)
  | inject (intpId : Nat)
  | deliver (i : Nat)
deriving DecidableEq

/-- A register of one hart, which only direct delivery has. -/
def VaplicOp.isIdc : VaplicOp → Bool
  | .setIdelivery _ _ | .setIforce _ _ | .setIthreshold _ _ | .getIdelivery _ | .getIforce _
  | .getIthreshold _ | .getTopi _ | .getClaimi _ => true
  | _ => false

/-- An operation by a vCPU, and what the physical APLIC answers in it. -/
structure VaplicEvent where
  vcpu : Nat
  op : VaplicOp
  reads : AplicReads

variable (P : VaplicPlat)

/-- When a vCPU can do it; messages are delivered in any order. -/
def VaplicEvent.enabled (e : VaplicEvent) (s : VaplicState) : Prop :=
  e.vcpu < P.idcNum ∧ (e.op.isIdc = true → P.irqc = .aplic) ∧
    match e.op with
    | .deliver i => i < (s.inbox (P.physId e.vcpu)).length
    | _ => True

instance VaplicEvent.decidableEnabled (e : VaplicEvent) (s : VaplicState) :
    Decidable (e.enabled P s) := by
  obtain ⟨v, op, a⟩ := e
  unfold VaplicEvent.enabled
  rcases op with _ | _ <;> infer_instance

/-- The state after an operation. -/
def VaplicEvent.next (e : VaplicEvent) (s : VaplicState) : VaplicState :=
  match e.op with
  | .setDomaincfg newVal => vaplicSetDomaincfg P e.vcpu newVal s
  | .setSourcecfg intpId newVal => vaplicSetSourcecfg P e.vcpu e.reads intpId newVal s
  | .setSetip reg newVal => vaplicSetSetip P e.vcpu reg newVal s
  | .setSetipnum newVal => vaplicSetSetipnum P e.vcpu newVal s
  | .setInClrip reg newVal => vaplicSetInClrip P e.vcpu e.reads reg newVal s
  | .setClripnum newVal => vaplicSetClripnum P e.vcpu e.reads newVal s
  | .setSetie reg newVal => vaplicSetSetie P e.vcpu reg newVal s
  | .setSetienum newVal => vaplicSetSetienum P e.vcpu newVal s
  | .setClrie reg newVal => vaplicSetClrie P e.vcpu reg newVal s
  | .setClrienum newVal => vaplicSetClrienum P e.vcpu newVal s
  | .setTarget intpId newVal => vaplicSetTarget P e.vcpu e.reads intpId newVal s
  | .setIdelivery idcId newVal => vaplicSetIdelivery P e.vcpu idcId newVal s
  | .setIforce idcId newVal => vaplicSetIforce P e.vcpu idcId newVal s
  | .setIthreshold idcId newVal => vaplicSetIthreshold P e.vcpu idcId newVal s
  | .getClaimi idcId => (vaplicGetClaimi P e.vcpu idcId s).2
  | .inject intpId => vaplicInject P e.vcpu intpId s
  | .deliver i => vaplicIpiHandler P e.vcpu i s
  | _ => s

/-- What the guest reads. -/
def VaplicEvent.result (e : VaplicEvent) (s : VaplicState) : Option (BitVec 32) :=
  let r := s.regs
  match e.op with
  | .getDomaincfg => some r.domaincfg
  | .getSourcecfg intpId => some (if vaplicIntpValid intpId then r.srccfg intpId else 0)
  | .getSetip reg => some (vaplicGetSetip P e.reads reg r)
  | .getInClrip reg => some (vaplicGetInClrip P e.reads reg)
  | .getSetie reg => some (vaplicGetSetie reg r)
  | .getTarget intpId => some (r.getTarget intpId)
  | .getIdelivery idcId => some (if idcId < P.idcNum ∧ r.idelivery idcId = true then 1 else 0)
  | .getIforce idcId => some (if idcId < P.idcNum ∧ r.iforce idcId = true then 1 else 0)
  | .getIthreshold idcId => some (if idcId < P.idcNum then r.ithreshold idcId else 0)
  | .getTopi idcId => some (vaplicGetTopi P idcId s)
  | .getClaimi idcId => some (vaplicGetClaimi P e.vcpu idcId s).1
  | _ => none

/-- The vAPLIC of a VM whose memory was just zeroed. -/
def vaplicBoot : VaplicState :=
  { regs :=
      { domaincfg := 0
        srccfg := fun _ => 0
        active := fun _ => 0
        ip := fun _ => 0
        ie := fun _ => 0
        target := fun _ => 0
        idelivery := fun _ => false
        iforce := fun _ => false
        ithreshold := fun _ => 0
        topiClaimi := fun _ => 0 }
    line := fun _ => false
    inbox := fun _ => []
    msis := [] }

/-- The vAPLIC of a VM with all its harts. -/
def vaplicSystem : StepSystem VaplicState VaplicEvent :=
  .ofNext (· = vaplicBoot) (VaplicEvent.enabled P) (VaplicEvent.next P)

/-- Two harts with direct delivery; source 5 is the VM's, the others are not. -/
def twoHartAplic : VaplicPlat where
  irqc := .aplic
  iprioMask := 0xFF
  idcNum := 2
  physId := id
  hw := fun reg => if reg = 0 then 0x20 else 0
  idcNum_le := by decide
  physId_inj := Function.injective_id

/-- Answers of the physical APLIC with these sources of the first word pending. -/
def pendReads (word : BitVec 32) : AplicReads where
  pend := fun reg => if reg = 0 then word else 0
  inclrip := fun reg => if reg = 0 then word else 0
  sourcecfg := 4
  targetPrio := 1
  targetEiid := 0

/-! ## What an update of harts leaves -/

variable {P} {v : Nat} {s : VaplicState}

variable (P) in
/-- Nothing but `topi` registers changed, and pending bits cleared by interrupts
that were sent as messages. -/
structure Refreshed (r r' : Vaplic) : Prop where
  same : r' = { r with ip := r'.ip, topiClaimi := r'.topiClaimi }
  ip : ∀ j, bit r'.ip j = true → bit r.ip j = true
  direct : P.irqc = .aplic → r'.ip = r.ip

namespace Refreshed

theorem refl (r : Vaplic) : Refreshed P r r := ⟨rfl, fun _ h => h, fun _ => rfl⟩

theorem trans {r r' r'' : Vaplic} (h : Refreshed P r r') (h' : Refreshed P r' r'') :
    Refreshed P r r'' where
  same := by
    rw [h'.same, h.same]
  ip j hj := h.ip j (h'.ip j hj)
  direct haplic := (h'.direct haplic).trans (h.direct haplic)

variable {r r' : Vaplic}

theorem active (h : Refreshed P r r') : r'.active = r.active := by rw [h.same]

theorem hartIndex (h : Refreshed P r r') (i : Nat) : r'.hartIndex i = r.hartIndex i := by
  rw [h.same]
  rfl

end Refreshed

theorem vaplicUpdateHartLine_refreshed (vhart : Nat) :
    Refreshed P s.regs (vaplicUpdateHartLine P v vhart s).regs := by
  unfold vaplicUpdateHartLine
  split
  · split
    · exact ⟨rfl, fun _ h => h, fun _ => rfl⟩
    · exact .refl _
  · exact .refl _

theorem foldl_refreshed {α : Type} {f : VaplicState → α → VaplicState}
    (hf : ∀ s i, Refreshed P s.regs (f s i).regs) (l : List α) :
    Refreshed P s.regs (l.foldl f s).regs := by
  induction l generalizing s with
  | nil => exact .refl _
  | cons i l ih => exact (hf s i).trans ih

theorem vaplicForwardByMsi_refreshed (haia : P.irqc = .aia) (irqId : Nat) :
    Refreshed P s.regs (vaplicForwardByMsi P irqId s).regs := by
  unfold vaplicForwardByMsi
  split
  · refine ⟨rfl, fun j hj => ?_, fun haplic => ?_⟩
    · change bit (clearBit s.regs.ip irqId) j = true at hj
      exact ((bit_clearBit_iff (by decide)).mp hj).1
    · rw [haia] at haplic
      cases haplic
  · exact .refl _

theorem vaplicUpdateHart_refreshed (vhart irqId : Option Nat) :
    Refreshed P s.regs (vaplicUpdateHart P v vhart irqId s).regs := by
  unfold vaplicUpdateHart
  cases hirqc : P.irqc with
  | aplic =>
    cases vhart with
    | none => exact foldl_refreshed (fun _ i => vaplicUpdateHartLine_refreshed i) _
    | some vhart =>
      dsimp only
      split
      · exact vaplicUpdateHartLine_refreshed vhart
      · exact .refl _
  | aia =>
    dsimp only
    split
    · cases irqId with
      | none => exact foldl_refreshed (fun _ i => vaplicForwardByMsi_refreshed hirqc i) _
      | some irqId => exact vaplicForwardByMsi_refreshed hirqc irqId
    · exact .refl _

theorem vaplicUpdateIntp_refreshed (i : Nat) :
    Refreshed P s.regs (vaplicUpdateIntp P v i s).regs :=
  vaplicUpdateHart_refreshed _ _

theorem vaplicUpdateIntps_refreshed (reg : Nat) (updateIntps : BitVec 32) :
    Refreshed P s.regs (vaplicUpdateIntps P v reg updateIntps s).regs :=
  foldl_refreshed (fun _ i => vaplicUpdateIntp_refreshed i) _

end Bao

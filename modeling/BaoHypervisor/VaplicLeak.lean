import BaoHypervisor.VaplicSystem
import Mathlib.Tactic.Common

/-!
# What a VM learns from its vAPLIC

The pending and rectified input registers of the physical APLIC show the
sources of all VMs.  A read masks them with the sources the VM has been assigned;
`vaplic_set_in_clrip` does not, and stores the pending bits of the whole word.  A
VM learns nothing of the sources of others exactly as long as no such write finds
one of them pending.
-/

namespace Bao

open StepSystem (Meets runBy outputs)
open WordRegs (bit put setBit clearBit bit_put bit_setBit_iff bit_clearBit_iff)

variable (P : VaplicPlat)

/-- The physical APLIC answers the same about the sources of the VM. -/
structure AplicReads.Agrees (a a' : AplicReads) : Prop where
  pend : ∀ reg, a.pend reg &&& P.hw reg = a'.pend reg &&& P.hw reg
  inclrip : ∀ reg, a.inclrip reg &&& P.hw reg = a'.inclrip reg &&& P.hw reg
  sourcecfg : a.sourcecfg = a'.sourcecfg
  targetPrio : a.targetPrio = a'.targetPrio
  targetEiid : a.targetEiid = a'.targetEiid

/-- The same operation, with answers that differ about the sources of others
only. -/
structure VaplicEvent.Alike (e e' : VaplicEvent) : Prop where
  vcpu : e.vcpu = e'.vcpu
  op : e.op = e'.op
  reads : e.reads.Agrees P e'.reads

/-- A write to `in_clrip` finds no source pending that is not the VM's, or not
active, unless the bit of the source is set anyway. -/
def VaplicEvent.ReadsOwn (s : VaplicState) (e : VaplicEvent) : Prop :=
  match e.op with
  | .setInClrip reg newVal =>
      reg < aplicNumSetixRegs →
        e.reads.pend reg &&& ~~~(P.hw reg &&& s.regs.active reg) &&&
          ~~~(s.regs.ip reg &&& ~~~(newVal &&& s.regs.active reg)) = 0
  | _ => True

instance VaplicEvent.decidableReadsOwn (s : VaplicState) (e : VaplicEvent) :
    Decidable (e.ReadsOwn P s) := by
  obtain ⟨v, op, a⟩ := e
  unfold VaplicEvent.ReadsOwn
  rcases op with _ | _ <;> infer_instance

variable {P} {s : VaplicState} {e e' : VaplicEvent}

/-! ## One step -/

theorem or_eq_or_and {k p m : BitVec 32} (h : p &&& ~~~m &&& ~~~k = 0) :
    k ||| p = k ||| p &&& m := by
  apply BitVec.eq_of_getLsbD_eq
  intro i hi
  have hbit := congrArg (fun w => w.getLsbD i) h
  simp only [BitVec.getLsbD_and, BitVec.getLsbD_not, hi, decide_true, Bool.true_and,
    BitVec.ofNat_eq_ofNat, BitVec.getLsbD_zero] at hbit
  simp only [BitVec.getLsbD_or, BitVec.getLsbD_and]
  cases hk : k.getLsbD i <;> cases hp : p.getLsbD i <;> cases hm : m.getLsbD i <;>
    simp_all

theorem clearedIp_own {reg : Nat} {newVal : BitVec 32} {a : AplicReads}
    (hown : a.pend reg &&& ~~~(P.hw reg &&& s.regs.active reg) &&&
      ~~~(s.regs.ip reg &&& ~~~(newVal &&& s.regs.active reg)) = 0) :
    clearedIp a reg newVal s.regs =
      s.regs.ip reg &&& ~~~(newVal &&& s.regs.active reg) |||
        a.pend reg &&& (P.hw reg &&& s.regs.active reg) :=
  or_eq_or_and hown

theorem bit_pend_eq {a a' : AplicReads} (hag : a.Agrees P a') {i : Nat}
    (hhw : vaplicGetHw P i = true) : bit a.pend i = bit a'.pend i := by
  have hbit : bit P.hw i = true := (Bool.and_eq_true_iff.mp hhw).2
  have hword := congrArg (fun w => w.getLsbD (i % 32)) (hag.pend (i / 32))
  simp only [BitVec.getLsbD_and] at hword
  unfold bit at hbit ⊢
  rw [hbit, Bool.and_true, Bool.and_true] at hword
  exact hword

/-- **One step** does the same, and the guest reads the same. -/
theorem VaplicEvent.same_step (hal : e.Alike P e') (hown : e.ReadsOwn P s)
    (hown' : e'.ReadsOwn P s) :
    e.next P s = e'.next P s ∧ e.result P s = e'.result P s := by
  obtain ⟨v, op, a⟩ := e
  obtain ⟨v', op', a'⟩ := e'
  obtain ⟨hv, hop, hag⟩ := hal
  dsimp only at hv hop hag
  subst hv hop
  cases op with
  | setSourcecfg intpId newVal =>
    refine ⟨?_, rfl⟩
    change vaplicSetSourcecfg P v a intpId newVal s = vaplicSetSourcecfg P v a' intpId newVal s
    unfold vaplicSetSourcecfg newSourcecfg
    rw [hag.sourcecfg]
  | setInClrip reg newVal =>
    refine ⟨?_, rfl⟩
    change vaplicSetInClrip P v a reg newVal s = vaplicSetInClrip P v a' reg newVal s
    unfold vaplicSetInClrip
    by_cases hreg : reg < aplicNumSetixRegs
    · have hstored : clearedIp a reg newVal s.regs = clearedIp a' reg newVal s.regs := by
        rw [clearedIp_own (hown hreg), clearedIp_own (hown' hreg), ← BitVec.and_assoc,
          ← BitVec.and_assoc, hag.pend]
      rw [if_pos hreg, if_pos hreg, hstored]
    · rw [if_neg hreg, if_neg hreg]
  | setClripnum newVal =>
    refine ⟨?_, rfl⟩
    change vaplicSetClripnum P v a newVal s = vaplicSetClripnum P v a' newVal s
    unfold vaplicSetClripnum
    dsimp only
    cases hhw : vaplicGetHw P newVal.toNat with
    | true => rw [bit_pend_eq hag hhw]
    | false => rfl
  | setTarget intpId newVal =>
    refine ⟨?_, rfl⟩
    change vaplicSetTarget P v a intpId newVal s = vaplicSetTarget P v a' intpId newVal s
    unfold vaplicSetTarget newTarget targetPrio
    rw [hag.targetPrio, hag.targetEiid]
  | getSetip reg =>
    refine ⟨rfl, congrArg some ?_⟩
    unfold vaplicGetSetip
    rw [hag.pend]
  | getInClrip reg =>
    refine ⟨rfl, congrArg some ?_⟩
    unfold vaplicGetInClrip
    rw [hag.inclrip]
  | _ => exact ⟨rfl, rfl⟩

/-! ## Pending sources are active -/

/-- No source is pending in the inactive mode. -/
def Vaplic.PendActive (r : Vaplic) : Prop := ∀ i, bit r.ip i = true → bit r.active i = true

namespace Vaplic.PendActive

variable {r r' : Vaplic}

theorem mono (h : r.PendActive) (hip : ∀ i, bit r'.ip i = true → bit r.ip i = true)
    (hactive : r'.active = r.active) : r'.PendActive := by
  intro i hi
  rw [hactive]
  exact h i (hip i hi)

theorem refreshed (h : r.PendActive) (href : Refreshed P r r') : r'.PendActive :=
  h.mono href.ip href.active

theorem putIp (h : r.PendActive) {reg : Nat} {w : BitVec 32}
    (hw : ∀ k, w.getLsbD k = true → (r.ip reg).getLsbD k = true ∨
      (r.active reg).getLsbD k = true) :
    PendActive { r with ip := put r.ip reg w } := by
  intro i hi
  change bit (put r.ip reg w) i = true at hi
  change bit r.active i = true
  rw [bit_put] at hi
  split at hi
  · rename_i hword
    rcases hw _ hi with hold | hactive
    · apply h i
      unfold bit
      rw [hword]
      exact hold
    · unfold bit
      rw [hword]
      exact hactive
  · exact h i hi

theorem pend (h : r.PendActive) {i : Nat} (hi : r.getActive i = true) :
    PendActive { r with ip := setBit r.ip i } := by
  intro j hj
  change bit (setBit r.ip i) j = true at hj
  rcases (bit_setBit_iff (by decide)).mp hj with hj | heq
  · exact h j hj
  · rw [heq]
    exact (Bool.and_eq_true_iff.mp hi).2

theorem claim (h : r.PendActive) (idcId : Nat) : PendActive (applyClaim idcId r) := by
  have hclear : ∀ i, bit (clearBit r.ip (claimedIntp (r.topiClaimi idcId))) i = true →
      bit r.ip i = true :=
    fun _ hi => ((bit_clearBit_iff (by decide)).mp hi).1
  unfold applyClaim
  dsimp only
  split
  · exact h.mono hclear rfl
  · exact h.mono hclear rfl

theorem source (h : r.PendActive) (i : Nat) (newVal : BitVec 32) :
    PendActive (applySourcecfg i newVal r) := by
  intro j hj
  unfold applySourcecfg at hj ⊢
  dsimp only at hj ⊢
  split at hj
  · rename_i hzero
    rw [if_pos hzero]
    change bit (clearBit r.ip i) j = true at hj
    change bit (clearBit r.active i) j = true
    obtain ⟨hj, hne⟩ := (bit_clearBit_iff (by decide)).mp hj
    exact (bit_clearBit_iff (by decide)).mpr ⟨h j hj, hne⟩
  · rename_i hset
    rw [if_neg hset]
    change bit r.ip j = true at hj
    change bit (setBit r.active i) j = true
    exact (bit_setBit_iff (by decide)).mpr (Or.inl (h j hj))

end Vaplic.PendActive

/-! ## What updates keep -/

theorem vaplicUpdateHart_pendActive (h : s.regs.PendActive) {v : Nat} (vhart irqId : Option Nat) :
    (vaplicUpdateHart P v vhart irqId s).regs.PendActive :=
  h.refreshed (vaplicUpdateHart_refreshed vhart irqId)

theorem vaplicUpdateIntp_pendActive (h : s.regs.PendActive) {v : Nat} (i : Nat) :
    (vaplicUpdateIntp P v i s).regs.PendActive :=
  h.refreshed (vaplicUpdateIntp_refreshed i)

theorem vaplicUpdateIntps_pendActive (h : s.regs.PendActive) {v : Nat} (reg : Nat)
    (updateIntps : BitVec 32) : (vaplicUpdateIntps P v reg updateIntps s).regs.PendActive :=
  h.refreshed (vaplicUpdateIntps_refreshed reg updateIntps)

theorem vaplicSetIdc_pendActive (h : s.regs.PendActive) {v idcId : Nat} {f : Vaplic → Vaplic}
    (hip : (f s.regs).ip = s.regs.ip) (hactive : (f s.regs).active = s.regs.active) :
    (vaplicSetIdc P v idcId f s).regs.PendActive := by
  unfold vaplicSetIdc
  apply vaplicUpdateHart_pendActive
  split
  · refine h.mono (fun i hi => ?_) hactive
    change bit (f s.regs).ip i = true at hi
    rw [hip] at hi
    exact hi
  · exact h

/-- A write to `in_clrip` that reads the VM's own sources. -/
theorem vaplicSetInClrip_pendActive (h : s.regs.PendActive) {v reg : Nat} {a : AplicReads}
    {newVal : BitVec 32} (hown : VaplicEvent.ReadsOwn P s ⟨v, .setInClrip reg newVal, a⟩) :
    (vaplicSetInClrip P v a reg newVal s).regs.PendActive := by
  unfold vaplicSetInClrip
  split
  · rename_i hreg
    apply vaplicUpdateIntps_pendActive
    apply h.putIp
    intro k hk
    rw [clearedIp_own (hown hreg)] at hk
    simp only [BitVec.getLsbD_or, BitVec.getLsbD_and, Bool.or_eq_true, Bool.and_eq_true] at hk
    rcases hk with ⟨hold, -⟩ | ⟨-, -, hactive⟩
    · exact Or.inl hold
    · exact Or.inr hactive
  · exact h

/-- **The step lemma** for pending and active bits. -/
theorem VaplicEvent.pendActive_step (h : s.regs.PendActive) (hown : e.ReadsOwn P s) :
    (e.next P s).regs.PendActive := by
  obtain ⟨v, op, a⟩ := e
  have hinject : ∀ i, (vaplicInject P v i s).regs.PendActive := by
    intro i
    unfold vaplicInject
    split
    · rename_i hcan
      apply vaplicUpdateIntp_pendActive
      exact h.pend (Bool.and_eq_true_iff.mp hcan).2
    · exact h
  cases op with
  | setDomaincfg newVal =>
    apply vaplicUpdateHart_pendActive
    exact h
  | setSourcecfg intpId newVal =>
    change (vaplicSetSourcecfg P v a intpId newVal s).regs.PendActive
    unfold vaplicSetSourcecfg
    split
    · apply vaplicUpdateIntp_pendActive
      rw [VaplicState.updRegs_regs]
      exact h.source intpId _
    · exact h
  | setSetip reg newVal =>
    change (vaplicSetSetip P v reg newVal s).regs.PendActive
    unfold vaplicSetSetip
    split
    · apply vaplicUpdateIntps_pendActive
      apply h.putIp
      intro k hk
      rw [BitVec.getLsbD_or, BitVec.getLsbD_and] at hk
      rcases Bool.or_eq_true_iff.mp hk with hold | hnew
      · exact Or.inl hold
      · exact Or.inr (Bool.and_eq_true_iff.mp hnew).2
    · exact h
  | setSetipnum newVal => exact hinject _
  | setInClrip reg newVal => exact vaplicSetInClrip_pendActive h hown
  | setClripnum newVal =>
    change (vaplicSetClripnum P v a newVal s).regs.PendActive
    unfold vaplicSetClripnum
    dsimp only
    split
    · apply vaplicUpdateIntp_pendActive
      split
      · exact h
      · refine h.mono (fun i hi => ?_) rfl
        change bit (clearBit s.regs.ip newVal.toNat) i = true at hi
        exact ((bit_clearBit_iff (by decide)).mp hi).1
    · exact h
  | setSetie reg newVal =>
    change (vaplicSetSetie P v reg newVal s).regs.PendActive
    unfold vaplicSetSetie
    split
    · apply vaplicUpdateIntps_pendActive
      exact h
    · exact h
  | setSetienum newVal =>
    change (vaplicSetSetienum P v newVal s).regs.PendActive
    unfold vaplicSetSetienum
    dsimp only
    split
    · apply vaplicUpdateIntp_pendActive
      exact h
    · exact h
  | setClrie reg newVal =>
    change (vaplicSetClrie P v reg newVal s).regs.PendActive
    unfold vaplicSetClrie
    split
    · apply vaplicUpdateIntps_pendActive
      exact h
    · exact h
  | setClrienum newVal =>
    change (vaplicSetClrienum P v newVal s).regs.PendActive
    unfold vaplicSetClrienum
    dsimp only
    split
    · apply vaplicUpdateIntp_pendActive
      exact h
    · exact h
  | setTarget intpId newVal =>
    change (vaplicSetTarget P v a intpId newVal s).regs.PendActive
    unfold vaplicSetTarget
    dsimp only
    split
    · apply vaplicUpdateIntp_pendActive
      split
      · apply vaplicUpdateHart_pendActive
        exact h
      · exact h
    · exact h
  | setIdelivery idcId newVal => exact vaplicSetIdc_pendActive h rfl rfl
  | setIforce idcId newVal => exact vaplicSetIdc_pendActive h rfl rfl
  | setIthreshold idcId newVal => exact vaplicSetIdc_pendActive h rfl rfl
  | getClaimi idcId =>
    change (vaplicGetClaimi P v idcId s).2.regs.PendActive
    unfold vaplicGetClaimi
    dsimp only
    split
    · apply vaplicUpdateHart_pendActive
      exact h.claim idcId
    · exact h
  | inject intpId => exact hinject intpId
  | deliver i =>
    change (vaplicIpiHandler P v i s).regs.PendActive
    unfold vaplicIpiHandler
    split
    · apply vaplicUpdateHart_pendActive
      exact h
    · exact h
  | _ => exact h

/-! ## Runs -/

/-- What the guest reads in a run. -/
def vaplicReadings (P : VaplicPlat) (es : List VaplicEvent) : List (Option (BitVec 32)) :=
  outputs (VaplicEvent.next P) (fun e s => e.result P s) es vaplicBoot

/-- **A vAPLIC keeps the secrets of other VMs** in runs whose writes to
`in_clrip` find no source pending that is not the VM's: what is pending of other
sources changes neither what the guest reads nor its interrupts, and its pending
sources are active. -/
theorem vaplic_keeps_secrets {es es' : List VaplicEvent}
    (halike : List.Forall₂ (VaplicEvent.Alike P) es es')
    (hrun : Meets (VaplicEvent.enabled P) (VaplicEvent.next P) (VaplicEvent.ReadsOwn P) es
      vaplicBoot)
    (hrun' : Meets (VaplicEvent.enabled P) (VaplicEvent.next P) (VaplicEvent.ReadsOwn P) es'
      vaplicBoot) :
    vaplicReadings P es = vaplicReadings P es' ∧
      runBy (VaplicEvent.next P) es vaplicBoot = runBy (VaplicEvent.next P) es' vaplicBoot ∧
      (runBy (VaplicEvent.next P) es vaplicBoot).regs.PendActive := by
  have hone : ∀ s e e', VaplicEvent.Alike P e e' → e.ReadsOwn P s → e'.ReadsOwn P s →
      e.next P s = e'.next P s ∧ e.result P s = e'.result P s :=
    fun _ _ _ hal hown hown' => VaplicEvent.same_step hal hown hown'
  obtain ⟨hstate, hread⟩ := Meets.same hone halike hrun hrun'
  have hreach : (vaplicSystem P).Reach (VaplicEvent.ReadsOwn P)
      (runBy (VaplicEvent.next P) es vaplicBoot) := hrun.fromInit rfl
  have hinit : ∀ s, (vaplicSystem P).init s → s.regs.PendActive := by
    intro s hs i hi
    rw [hs] at hi
    change (0#32).getLsbD (i % 32) = true at hi
    rw [BitVec.getLsbD_zero] at hi
    cases hi
  have hstep : ∀ s e s', s.regs.PendActive → VaplicEvent.ReadsOwn P s e →
      (vaplicSystem P).step s e s' → s'.regs.PendActive := by
    intro s e s' h hown hs
    rw [hs.2]
    exact VaplicEvent.pendActive_step h hown
  exact ⟨hread, hstate, hreach.invariant hinit hstep⟩

theorem pendReads_agrees {w w' : BitVec 32} (hown : w &&& 0x20 = w' &&& 0x20) :
    (pendReads w).Agrees twoHartAplic (pendReads w') := by
  have hword : ∀ reg, (if reg = 0 then w else 0) &&& twoHartAplic.hw reg =
      (if reg = 0 then w' else 0) &&& twoHartAplic.hw reg := by
    intro reg
    change _ &&& (if reg = 0 then 0x20 else 0) = _ &&& (if reg = 0 then 0x20 else 0)
    by_cases hreg : reg = 0
    · simp only [if_pos hreg]
      exact hown
    · simp only [if_neg hreg]
  exact ⟨hword, hword, rfl, rfl, rfl⟩

/-- The guest activates source 5, clears nothing in `in_clrip`, and reads the
pending and rectified bits. -/
def ownRun (word : BitVec 32) : List VaplicEvent :=
  [⟨0, .setSourcecfg 5 4, pendReads 0⟩, ⟨0, .setInClrip 0 0, pendReads 0x20⟩,
    ⟨1, .getSetip 0, pendReads word⟩, ⟨0, .getInClrip 0, pendReads word⟩]

/-- Source 7, of another VM, is pending or not while the guest reads. -/
theorem vaplic_keeps_secrets_reading :
    vaplicReadings twoHartAplic (ownRun 0) = vaplicReadings twoHartAplic (ownRun 0x80) ∧
      runBy (VaplicEvent.next twoHartAplic) (ownRun 0) vaplicBoot =
        runBy (VaplicEvent.next twoHartAplic) (ownRun 0x80) vaplicBoot ∧
      (runBy (VaplicEvent.next twoHartAplic) (ownRun 0) vaplicBoot).regs.PendActive := by
  have halike : List.Forall₂ (VaplicEvent.Alike twoHartAplic) (ownRun 0) (ownRun 0x80) :=
    .cons ⟨rfl, rfl, pendReads_agrees rfl⟩ (.cons ⟨rfl, rfl, pendReads_agrees rfl⟩
      (.cons ⟨rfl, rfl, pendReads_agrees rfl⟩ (.cons ⟨rfl, rfl, pendReads_agrees rfl⟩ .nil)))
  have hrun : Meets (VaplicEvent.enabled twoHartAplic) (VaplicEvent.next twoHartAplic)
      (VaplicEvent.ReadsOwn twoHartAplic) (ownRun 0) vaplicBoot := by
    decide +kernel
  have hrun' : Meets (VaplicEvent.enabled twoHartAplic) (VaplicEvent.next twoHartAplic)
      (VaplicEvent.ReadsOwn twoHartAplic) (ownRun 0x80) vaplicBoot := by
    decide +kernel
  exact vaplic_keeps_secrets halike hrun hrun'

/-- The guest clears nothing in `in_clrip`, and reads the pending bits. -/
def clripRun (word : BitVec 32) : List VaplicEvent :=
  [⟨0, .setInClrip 0 0, pendReads word⟩, ⟨0, .getSetip 0, pendReads 0⟩]

/-- A write to `in_clrip` shows the guest that source 7, of another VM, is
pending, and makes it pending in a VM where it is not active. -/
theorem in_clrip_leaks :
    List.Forall₂ (VaplicEvent.Alike twoHartAplic) (clripRun 0) (clripRun 0x80) ∧
      Meets (VaplicEvent.enabled twoHartAplic) (VaplicEvent.next twoHartAplic)
        (fun _ _ => True) (clripRun 0) vaplicBoot ∧
      Meets (VaplicEvent.enabled twoHartAplic) (VaplicEvent.next twoHartAplic)
        (fun _ _ => True) (clripRun 0x80) vaplicBoot ∧
      vaplicReadings twoHartAplic (clripRun 0) ≠ vaplicReadings twoHartAplic (clripRun 0x80) ∧
      ¬ (runBy (VaplicEvent.next twoHartAplic) (clripRun 0x80) vaplicBoot).regs.PendActive := by
  refine ⟨.cons ⟨rfl, rfl, pendReads_agrees rfl⟩ (.cons ⟨rfl, rfl, pendReads_agrees rfl⟩ .nil),
    ?_, ?_, ?_, fun h => ?_⟩
  · decide +kernel
  · decide +kernel
  · decide +kernel
  · have hpend : bit (runBy (VaplicEvent.next twoHartAplic) (clripRun 0x80) vaplicBoot).regs.ip 7 =
        true := by
      decide +kernel
    have hidle : bit (runBy (VaplicEvent.next twoHartAplic) (clripRun 0x80)
        vaplicBoot).regs.active 7 = false := by
      decide +kernel
    rw [h 7 hpend] at hidle
    cases hidle

end Bao

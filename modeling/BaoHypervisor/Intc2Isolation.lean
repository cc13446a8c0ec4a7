import BaoHypervisor.Intc2
import BaoHypervisor.StepSystem
import Mathlib.Algebra.GroupWithZero.Nat

/-!
# Which bits of the INTC2 a guest reaches

Each bit of the window belongs to one interrupt or to the hypervisor.  An
access of a guest is isolated if it changes and shows only bits of the guest's
own interrupts, and leaves their targets on the guest's own cores.  The code
isolates an access exactly under the conditions on the access, the registers
and the window that are stated here.
-/

namespace Bao

open BitMemory

theorem intc2Isolation_regs : NeZero 32 := ⟨by decide⟩

attribute [local instance] intc2Isolation_regs

variable {P : Intc2Plat} {vm : Intc2Vm} {acc : Intc2Access P} {s s' : Intc2State}

/-- The interrupt that bit `b` of the window belongs to.  Of an EIBD register
only the PEID field does, the rest is the hypervisor's. -/
def intc2Owner (b : Nat) : Option Nat :=
  if 8 * intc2Eic ≤ b ∧ b < 8 * 0x1000 then some ((b / 8 - intc2Eic) / 2 + 32)
  else if 8 * intc2Imr ≤ b ∧ b < 8 * 0x1100 then some (b - 8 * intc2Imr + 32)
  else if 8 * intc2Eibd ≤ b ∧ b < 8 * 0x4000 ∧ b % 32 < 3 then
    some ((b / 8 - intc2Eibd) / 4 + 32)
  else if 8 * intc2Eeic ≤ b ∧ b < 8 * 0x6000 then some ((b / 8 - intc2Eeic) / 4 + 32)
  else none

/-- An interrupt of the platform is assigned to the VM. -/
def Assigned (P : Intc2Plat) (vm : Intc2Vm) (id : Nat) : Bool :=
  decide (id < P.maxInterrupts) && vm.hasInterrupt id

/-- Bit `b` belongs to an interrupt of the VM. -/
def ownsBit (P : Intc2Plat) (vm : Intc2Vm) (b : Nat) : Bool :=
  (intc2Owner b).any (Assigned P vm)

/-- The PEID field of the EIBD register of interrupt `id`. -/
def eibdPeid (m : Store) (id : Nat) : Nat := (word 3 m (8 * (intc2Eibd + 4 * (id - 32)))).toNat

/-- The interrupt is targeted at a core of the VM. -/
def TargetOk (vm : Intc2Vm) (m : Store) (id : Nat) : Prop :=
  ∃ i, i < vm.cpuNum ∧ eibdPeid m id = vm.physId i

/-- All of the VM's shared interrupts are targeted at its cores. -/
def TargetsOk (P : Intc2Plat) (vm : Intc2Vm) (m : Store) : Prop :=
  ∀ id, 32 ≤ id → Assigned P vm id = true → TargetOk vm m id

/-- **An isolated access**: it leaves every bit alone that is not the VM's and
keeps the VM's targets among its cores; a load shows such a bit as zero, and so
does the flag of a bit operation. -/
structure Intc2Isolated (vm : Intc2Vm) (acc : Intc2Access P) (s s' : Intc2State) : Prop where
  kept : ∀ b, ownsBit P vm b = false → s'.intc2 b = s.intc2 b
  targets : TargetsOk P vm s.intc2 → TargetsOk P vm s'.intc2
  loads : acc.bwop = .no → acc.write = false → ∀ j, j < 8 * acc.width →
    ownsBit P vm (8 * acc.offset + j) = false → (s'.readreg acc.reg).getLsbD j = false
  tests : acc.bwop ≠ .no → ownsBit P vm (8 * acc.offset + acc.bit) = false → s'.pswZ = true

/-! ## The condition -/

/-- A word access to the EIC area is dropped. -/
def Intc2Access.eicWord (acc : Intc2Access P) : Prop :=
  acc.decoded ∧ acc.offset < 0x1000 ∧ 2 < acc.width

/-- The interrupt whose assignment is looked up for bit `j` of the accessed
bytes. -/
def Intc2Access.laneInt (acc : Intc2Access P) (j : Nat) : Nat :=
  if acc.offset < 0x1000 then (regIdx intc2Eic 2 acc.offset + 32) % 2 ^ 32
  else if acc.offset < 0x2000 then (8 * (acc.offset % 4) + j + acc.firstImrInt) % 2 ^ 32
  else if acc.offset < 0x4000 then (regIdx intc2Eibd 4 acc.offset + 32) % 2 ^ 32
  else (regIdx intc2Eeic 4 acc.offset + 32) % 2 ^ 32

/-- Bit `j` of what a load shows of an EIBD register is clear: it shows the low
bits of the number that the core in PEID has among the VM's cores. -/
def PeidHidden (vm : Intc2Vm) (acc : Intc2Access P) (s : Intc2State) (j : Nat) : Prop :=
  acc.offset % 4 = 0 → j < 3 → ∀ virtPeid,
    vm.translateToVcpuid ((word 32 s.intc2 (8 * acc.offset) &&& 0x7#32).toNat) = some virtPeid →
    virtPeid.testBit j = false

/-- A load shows no bit that is not the VM's: such a bit is zero in the window
wherever the lookup takes it for the VM's, and a load that is dropped leaves a
register without it. -/
def LoadConfined (vm : Intc2Vm) (acc : Intc2Access P) (s : Intc2State) : Prop :=
  ∀ j, j < 8 * acc.width → ownsBit P vm (8 * acc.offset + j) = false →
    (acc.eicWord → (s.r acc.reg).getLsbD j = false) ∧
    (acc.decoded → ¬ acc.eicWord → vm.hasInterrupt (acc.laneInt j) = true →
      if 0x2000 ≤ acc.offset ∧ acc.offset < 0x4000 then PeidHidden vm acc s j
      else s.intc2 (8 * acc.offset + j) = false)

/-- A store changes no bit that is not the VM's.  In IMR and EIBD the low bits
of the whole register, with the VM's part replaced, go into the accessed
bytes. -/
def StoreConfined (vm : Intc2Vm) (acc : Intc2Access P) (s : Intc2State) : Prop :=
  acc.decoded → ¬ acc.eicWord → ∀ j, j < 8 * acc.width →
    ownsBit P vm (8 * acc.offset + j) = false →
    if 0x1000 ≤ acc.offset ∧ acc.offset < 0x2000 then
      s.intc2 (8 * acc.offset + j) =
        if vm.hasInterrupt ((j + acc.firstImrInt) % 2 ^ 32) then (s.readreg acc.reg).getLsbD j
        else s.intc2 (8 * (acc.offset - acc.offset % 4) + j)
    else vm.hasInterrupt (acc.laneInt j) = true →
      s.intc2 (8 * acc.offset + j) =
        if 0x2000 ≤ acc.offset ∧ acc.offset < 0x4000 then
          if j < 3 then (vm.physPeid (s.readreg acc.reg)).testBit j
          else s.intc2 (8 * (acc.offset - acc.offset % 4) + j)
        else (s.readreg acc.reg).getLsbD j

/-- The handler performs a bit operation: in IMR without any lookup. -/
def BitPerformed (vm : Intc2Vm) (acc : Intc2Access P) : Prop :=
  acc.decoded ∧ ¬ acc.eicWord ∧
    ((0x1000 ≤ acc.offset ∧ acc.offset < 0x2000) ∨
      vm.hasInterrupt (acc.laneInt acc.bit) = true)

/-- A bit operation that is performed clears a bit that is clear already, if it
is not the VM's, and names no foreign core in a PEID field; one that is not
finds `PSW.Z` set. -/
def BitConfined (vm : Intc2Vm) (acc : Intc2Access P) (s : Intc2State) : Prop :=
  (BitPerformed vm acc → ownsBit P vm (8 * acc.offset + acc.bit) = false →
    acc.bwop = .clr1 ∧ s.intc2 (8 * acc.offset + acc.bit) = false) ∧
  (BitPerformed vm acc → TargetsOk P vm s.intc2 → TargetsOk P vm fun b =>
    if b = 8 * acc.offset + acc.bit then acc.bwop.apply (s.intc2 b) else s.intc2 b) ∧
  (¬ BitPerformed vm acc → ownsBit P vm (8 * acc.offset + acc.bit) = false → s.pswZ = true)

/-- The condition under which an access is isolated. -/
def Intc2Confined (vm : Intc2Vm) (acc : Intc2Access P) (s : Intc2State) : Prop :=
  if acc.bwop ≠ .no then BitConfined vm acc s
  else if acc.write then StoreConfined vm acc s
  else acc.reg = 0 ∨ LoadConfined vm acc s

theorem Intc2Vm.physPeid_core (vm : Intc2Vm) (val : BitVec 32) :
    ∃ i, i < vm.cpuNum ∧ vm.physPeid val = vm.physId i := by
  unfold Intc2Vm.physPeid Intc2Vm.translateToPcpuid
  by_cases hin : (val &&& 0x7#32).toNat < vm.cpuNum
  · rw [if_pos hin]
    exact ⟨_, hin, rfl⟩
  · rw [if_neg hin, if_pos vm.cpuNum_pos]
    exact ⟨0, vm.cpuNum_pos, rfl⟩

theorem eibdPeid_congr {m m' : Store} {id : Nat}
    (h : ∀ t, t < 3 → m' (8 * (intc2Eibd + 4 * (id - 32)) + t) =
      m (8 * (intc2Eibd + 4 * (id - 32)) + t)) : eibdPeid m' id = eibdPeid m id := by
  unfold eibdPeid
  congr 1
  apply BitVec.eq_of_getLsbD_eq
  intro t ht
  rw [getLsbD_word, getLsbD_word, h t ht]

/-- A store keeps the targets if what it puts into a PEID field is a core of
the VM. -/
theorem TargetsOk.setLane {v : BitVec 32} (hdec : acc.decoded)
    (hv : intc2Eibd ≤ acc.offset → acc.offset < 0x4000 → acc.offset % 4 = 0 →
      ∃ val, ∀ t, t < 3 → v.getLsbD t = (vm.physPeid val).testBit t) {m : Store}
    (h : TargetsOk P vm m) :
    TargetsOk P vm (setLane m (8 * acc.offset) (8 * acc.width) v) := by
  intro id hid hassigned
  have hidlt : id < 2048 := by
    have hlt : id < P.maxInterrupts := of_decide_eq_true (Bool.and_eq_true_iff.mp hassigned).1
    exact Nat.lt_of_lt_of_le hlt P.maxInterrupts_le
  have hmod := hdec.offset_mod
  have hw := hdec.width_cases
  by_cases hreg : acc.offset = intc2Eibd + 4 * (id - 32)
  · obtain ⟨val, hval⟩ := hv (by omega) (by rw [intc2Eibd] at hreg; omega)
      (by rw [intc2Eibd] at hreg; omega)
    obtain ⟨i, hi, hphys⟩ := vm.physPeid_core val
    refine ⟨i, hi, ?_⟩
    have hlt : vm.physId i < 2 ^ 3 := vm.physId_lt i hi
    have hword : word 3 (BitMemory.setLane m (8 * acc.offset) (8 * acc.width) v)
        (8 * acc.offset) = BitVec.ofNat 3 (vm.physId i) := by
      apply BitVec.eq_of_getLsbD_eq
      intro t ht
      have hin : 8 * acc.offset ≤ 8 * acc.offset + t ∧
          8 * acc.offset + t < 8 * acc.offset + 8 * acc.width := by omega
      have hback : 8 * acc.offset + t - 8 * acc.offset = t := by omega
      rw [getLsbD_word, BitVec.getLsbD_ofNat, decide_eq_true ht, Bool.true_and, Bool.true_and,
        BitMemory.setLane, if_pos hin, hback, hval t ht, hphys]
    rw [eibdPeid, ← hreg, hword, BitVec.toNat_ofNat, Nat.mod_eq_of_lt hlt]
  · obtain ⟨i, hi, htarget⟩ := h id hid hassigned
    refine ⟨i, hi, ?_⟩
    rw [← htarget]
    apply eibdPeid_congr
    intro t ht
    apply setLane_other
    rw [intc2Eibd] at hreg ⊢
    rcases hw with hw | hw | hw <;> rw [hw] at hmod ⊢ <;> omega

/-! ## The outcomes of an access -/

/-- An access that is carried out: `v` is what a store puts into the accessed
bytes, `val` what a load takes them from, from bit `sh` on. -/
structure Intc2Performed (acc : Intc2Access P) (v : BitVec 32) (val : Option (BitVec 32)) (sh : Nat)
    (s s' : Intc2State) : Prop where
  bitOp : acc.bwop ≠ .no → bwopAccess acc acc.offset s = some s'
  store : acc.bwop = .no → acc.write = true →
    s' = { s with intc2 := setLane s.intc2 (8 * acc.offset) (8 * acc.width) v }
  load : acc.bwop = .no → acc.write = false → ∃ x, val = some x ∧ ∃ y : BitVec 32,
    s' = s.writereg acc.reg y ∧
      ∀ j, j < 8 * acc.width → y.getLsbD j = x.getLsbD (sh + j)

theorem readreg_writereg (s : Intc2State) (reg : Fin 32) (y : BitVec 32) :
    (s.writereg reg y).readreg reg = if reg = 0 then 0#32 else y := by
  unfold Intc2State.readreg Intc2State.writereg
  by_cases hreg : reg = 0
  · simp [hreg]
  · simp [hreg]

theorem Intc2Performed.isolated_bitOp {v : BitVec 32} {val : Option (BitVec 32)} {sh : Nat}
    (h : Intc2Performed acc v val sh s s') (hop : acc.bwop ≠ .no) :
    Intc2Isolated vm acc s s' ↔
      (ownsBit P vm (8 * acc.offset + acc.bit) = false →
        acc.bwop = .clr1 ∧ s.intc2 (8 * acc.offset + acc.bit) = false) ∧
      (TargetsOk P vm s.intc2 → TargetsOk P vm fun b =>
        if b = 8 * acc.offset + acc.bit then acc.bwop.apply (s.intc2 b) else s.intc2 b) := by
  have hperf := h.bitOp hop
  have hs' := bwopAccess_spec hperf
  have htst : acc.bwop ≠ .tst1 := by
    intro htst
    unfold bwopAccess emulArchBwopEmulAcc at hperf
    rw [htst] at hperf
    exact absurd hperf (Option.some_ne_none _).symm
  have hwin : s'.intc2 = fun b =>
      if b = 8 * acc.offset + acc.bit then acc.bwop.apply (s.intc2 b) else s.intc2 b := by
    rw [hs']
    funext b
    simp only [putBit]
    split
    · rename_i hb
      rw [hb]
    · rfl
  have hz : s'.pswZ = !s.intc2 (8 * acc.offset + acc.bit) := by rw [hs']
  constructor
  · intro hiso
    refine ⟨fun hown => ?_, fun hok => hwin ▸ hiso.targets hok⟩
    have hclear : s.intc2 (8 * acc.offset + acc.bit) = false := by
      have hflag := hiso.tests hop hown
      rw [hz] at hflag
      exact Bool.not_eq_true' _ ▸ hflag
    have hkept := hiso.kept _ hown
    rw [hwin] at hkept
    simp only [if_true, hclear] at hkept
    refine ⟨?_, hclear⟩
    cases hb : acc.bwop with
    | no => exact absurd hb hop
    | tst1 => exact absurd hb htst
    | clr1 => rfl
    | set1 => simp [hb, EmulArchBwop.apply] at hkept
    | not1 => simp [hb, EmulArchBwop.apply] at hkept
  · rintro ⟨hown, hok⟩
    refine ⟨?_, ?_, fun hno => absurd hno hop, ?_⟩
    · intro b hb
      rw [hwin]
      dsimp only
      split
      · rename_i heq
        obtain ⟨hclr, hclear⟩ := hown (heq ▸ hb)
        rw [heq, hclr, hclear]
        rfl
      · rfl
    · intro htargets
      rw [hwin]
      exact hok htargets
    · intro _ hb
      rw [hz, (hown hb).2]
      rfl

theorem Intc2Performed.isolated_store {v : BitVec 32} {val : Option (BitVec 32)} {sh : Nat}
    (h : Intc2Performed acc v val sh s s') (hno : acc.bwop = .no) (hwrite : acc.write = true)
    (hdec : acc.decoded)
    (hv : intc2Eibd ≤ acc.offset → acc.offset < 0x4000 → acc.offset % 4 = 0 →
      ∃ val, ∀ t, t < 3 → v.getLsbD t = (vm.physPeid val).testBit t) :
    Intc2Isolated vm acc s s' ↔ ∀ j, j < 8 * acc.width →
      ownsBit P vm (8 * acc.offset + j) = false →
      v.getLsbD j = s.intc2 (8 * acc.offset + j) := by
  have hs' := h.store hno hwrite
  rw [← setLane_kept_iff (K := fun b => ownsBit P vm b = false)]
  constructor
  · intro hiso b hb
    rw [← hiso.kept b hb, hs']
  · intro hkept
    refine ⟨?_, ?_, ?_, fun hop => absurd hno hop⟩
    · intro b hb
      rw [hs']
      exact hkept b hb
    · intro hok
      rw [hs']
      exact hok.setLane hdec hv
    · intro _ hread
      rw [hwrite] at hread
      exact absurd hread (by decide)

theorem Intc2Performed.isolated_load {v : BitVec 32} {val : Option (BitVec 32)} {sh : Nat}
    (h : Intc2Performed acc v val sh s s') (hno : acc.bwop = .no) (hread : acc.write = false) :
    Intc2Isolated vm acc s s' ↔ acc.reg = 0 ∨ ∀ j, j < 8 * acc.width →
      ownsBit P vm (8 * acc.offset + j) = false →
      ∀ x, val = some x → x.getLsbD (sh + j) = false := by
  obtain ⟨x, hx, y, hs', hy⟩ := h.load hno hread
  constructor
  · intro hiso
    by_cases hreg : acc.reg = 0
    · exact Or.inl hreg
    · right
      intro j hj hown x' hx'
      have hzero := hiso.loads hno hread j hj hown
      rw [hs', readreg_writereg, if_neg hreg, hy j hj] at hzero
      rw [← Option.some.inj (hx.symm.trans hx')]
      exact hzero
  · intro hconf
    refine ⟨fun b _ => by rw [hs']; rfl, fun hok => by rw [hs']; exact hok, ?_,
      fun hop => absurd hno hop⟩
    intro _ _ j hj hown
    rw [hs', readreg_writereg]
    by_cases hreg : acc.reg = 0
    · rw [if_pos hreg]
      exact BitVec.getLsbD_zero
    · rw [if_neg hreg, hy j hj]
      exact hconf.resolve_left hreg j hj hown x hx

theorem isolated_refused (h : s' = if acc.write then s else s.writereg acc.reg 0#32) :
    Intc2Isolated vm acc s s' ↔ (acc.bwop ≠ .no →
      ownsBit P vm (8 * acc.offset + acc.bit) = false → s.pswZ = true) := by
  have hwin : s'.intc2 = s.intc2 := by
    rw [h]
    split <;> rfl
  have hz : s'.pswZ = s.pswZ := by
    rw [h]
    split <;> rfl
  constructor
  · intro hiso hop hown
    rw [← hz]
    exact hiso.tests hop hown
  · intro hflag
    refine ⟨fun b _ => by rw [hwin], fun hok => by rw [hwin]; exact hok, ?_, ?_⟩
    · intro _ hread j _ _
      rw [h, hread, if_neg Bool.false_ne_true, readreg_writereg]
      split <;> exact BitVec.getLsbD_zero
    · intro hop hown
      rw [hz]
      exact hflag hop hown

theorem isolated_dropped : Intc2Isolated vm acc s s ↔
    (acc.bwop ≠ .no → ownsBit P vm (8 * acc.offset + acc.bit) = false → s.pswZ = true) ∧
    (acc.bwop = .no → acc.write = false → ∀ j, j < 8 * acc.width →
      ownsBit P vm (8 * acc.offset + j) = false → (s.readreg acc.reg).getLsbD j = false) := by
  constructor
  · intro hiso
    exact ⟨hiso.tests, hiso.loads⟩
  · rintro ⟨htests, hloads⟩
    exact ⟨fun _ _ => rfl, id, hloads, htests⟩

/-- An access to a register of one interrupt is carried out if the VM has it,
and refused otherwise. -/
theorem emulateRegAccess_spec {w bot : Nat} {stored : BitVec w → BitVec 32 → BitVec 32}
    {loaded : BitVec w → Option (BitVec 32)} (hw : w = 16 ∨ w = 32) (hbot : bot % 4 = 0)
    (hlt : bot < 2 ^ 32) (hdec : acc.decoded) (hfit : acc.width ≤ w / 8)
    (h : emulateRegAccess w bot stored loaded vm acc s = some s') :
    (vm.hasInterrupt ((regIdx bot (w / 8) acc.offset + 32) % 2 ^ 32) = true ∧
      Intc2Performed acc
        (stored (word w s.intc2 (8 * (acc.offset - acc.offset % (w / 8)))) (s.readreg acc.reg))
        (loaded (word w s.intc2 (8 * (acc.offset - acc.offset % (w / 8)))))
        (8 * (acc.offset % (w / 8))) s s') ∨
    (vm.hasInterrupt ((regIdx bot (w / 8) acc.offset + 32) % 2 ^ 32) = false ∧
      s' = if acc.write then s else s.writereg acc.reg 0#32) := by
  have hle := hdec.2
  rw [emulateRegAccess_eq hw hbot hlt hdec hfit rfl rfl] at h
  cases hhas : vm.hasInterrupt ((regIdx bot (w / 8) acc.offset + 32) % 2 ^ 32) with
  | false =>
      right
      refine ⟨rfl, ?_⟩
      rw [hhas] at h
      cases hwrite : acc.write with
      | false =>
          rw [hwrite] at h
          exact (Option.some.inj h).symm
      | true =>
          rw [hwrite] at h
          exact (Option.some.inj h).symm
  | true =>
      left
      refine ⟨rfl, ?_, ?_, ?_⟩
      · intro hop
        rw [hhas, if_pos rfl, if_pos hop] at h
        exact h
      · intro hno hwrite
        have hplain : ¬ acc.bwop ≠ .no := fun hne => hne hno
        rw [hhas, if_pos rfl, if_neg hplain, hwrite, if_pos rfl] at h
        exact (Option.some.inj h).symm
      · intro hno hread
        have hplain : ¬ acc.bwop ≠ .no := fun hne => hne hno
        rw [hhas, if_pos rfl, if_neg hplain, hread, if_neg Bool.false_ne_true] at h
        obtain ⟨x, hx, hs'⟩ := Option.map_eq_some_iff.mp h
        refine ⟨x, hx, _, hs'.symm, ?_⟩
        intro j hj
        rw [getLsbD_extendBits (by omega), if_pos hj]

theorem emulateIntcImrAccess_spec (hdec : acc.decoded)
    (h : emulateIntcImrAccess vm acc s = some s') :
    Intc2Performed acc
      (imrStored vm acc.firstImrInt (s.readreg acc.reg)
        (word 32 s.intc2 (8 * (acc.offset - acc.offset % 4))))
      (some (imrLoaded vm acc.firstImrInt (word 32 s.intc2 (8 * (acc.offset - acc.offset % 4)))))
      (8 * (acc.offset % 4)) s s' := by
  have hle := hdec.2
  rw [emulateIntcImrAccess_eq hdec rfl] at h
  refine ⟨?_, ?_, ?_⟩
  · intro hop
    rw [if_pos hop] at h
    exact h
  · intro hno hwrite
    have hplain : ¬ acc.bwop ≠ .no := fun hne => hne hno
    rw [if_neg hplain, hwrite, if_pos rfl] at h
    exact (Option.some.inj h).symm
  · intro hno hread
    have hplain : ¬ acc.bwop ≠ .no := fun hne => hne hno
    rw [if_neg hplain, hread, if_neg Bool.false_ne_true] at h
    refine ⟨_, rfl, _, (Option.some.inj h).symm, ?_⟩
    intro j hj
    rw [getLsbD_extendBits (by omega), if_pos hj]

/-! ## The condition is exact -/

theorem Intc2Performed.isolated_iff {v : BitVec 32} {val : Option (BitVec 32)} {sh : Nat}
    (h : Intc2Performed acc v val sh s s') (hdec : acc.decoded) (hperf : BitPerformed vm acc)
    (hv : intc2Eibd ≤ acc.offset → acc.offset < 0x4000 → acc.offset % 4 = 0 →
      ∃ val, ∀ t, t < 3 → v.getLsbD t = (vm.physPeid val).testBit t)
    (hstore : StoreConfined vm acc s ↔ ∀ j, j < 8 * acc.width →
      ownsBit P vm (8 * acc.offset + j) = false → v.getLsbD j = s.intc2 (8 * acc.offset + j))
    (hload : LoadConfined vm acc s ↔ ∀ j, j < 8 * acc.width →
      ownsBit P vm (8 * acc.offset + j) = false →
      ∀ x, val = some x → x.getLsbD (sh + j) = false) :
    Intc2Isolated vm acc s s' ↔ Intc2Confined vm acc s := by
  unfold Intc2Confined
  by_cases hop : acc.bwop ≠ .no
  · rw [if_pos hop, h.isolated_bitOp hop]
    constructor
    · rintro ⟨hown, htargets⟩
      exact ⟨fun _ => hown, fun _ => htargets, fun hnot => absurd hperf hnot⟩
    · intro hconf
      exact ⟨hconf.1 hperf, hconf.2.1 hperf⟩
  · rw [if_neg hop]
    have hno : acc.bwop = .no := Decidable.not_not.mp hop
    cases hwrite : acc.write with
    | true =>
        rw [if_pos rfl, h.isolated_store hno hwrite hdec hv, hstore]
    | false =>
        rw [if_neg Bool.false_ne_true, h.isolated_load hno hwrite, hload]

theorem isolated_iff_of_refused (h : s' = if acc.write then s else s.writereg acc.reg 0#32)
    (hnot : ¬ BitPerformed vm acc) (hstore : StoreConfined vm acc s)
    (hload : LoadConfined vm acc s) :
    Intc2Isolated vm acc s s' ↔ Intc2Confined vm acc s := by
  rw [isolated_refused h]
  unfold Intc2Confined
  by_cases hop : acc.bwop ≠ .no
  · rw [if_pos hop]
    constructor
    · intro hflag
      exact ⟨fun hperf => absurd hperf hnot, fun hperf => absurd hperf hnot, fun _ => hflag hop⟩
    · intro hconf _
      exact hconf.2.2 hnot
  · rw [if_neg hop]
    constructor
    · intro _
      split
      · exact hstore
      · exact Or.inr hload
    · intro _ hop'
      exact absurd hop' hop

theorem isolated_iff_of_eicWord (hword : acc.eicWord) :
    Intc2Isolated vm acc s s ↔ Intc2Confined vm acc s := by
  have hnot : ¬ BitPerformed vm acc := fun hperf => hperf.2.1 hword
  rw [isolated_dropped]
  unfold Intc2Confined
  by_cases hop : acc.bwop ≠ .no
  · rw [if_pos hop]
    constructor
    · intro hdrop
      exact ⟨fun hperf => absurd hperf hnot, fun hperf => absurd hperf hnot,
        fun _ => hdrop.1 hop⟩
    · intro hconf
      exact ⟨fun _ => hconf.2.2 hnot, fun hno => absurd hno hop⟩
  · have hno : acc.bwop = .no := Decidable.not_not.mp hop
    rw [if_neg hop]
    cases hwrite : acc.write with
    | true =>
        rw [if_pos rfl]
        constructor
        · intro _ _ hnotWord
          exact absurd hword hnotWord
        · intro _
          exact ⟨fun hop' => absurd hop' hop, fun _ hread => absurd hread Bool.noConfusion⟩
    | false =>
        rw [if_neg Bool.false_ne_true]
        unfold Intc2State.readreg
        constructor
        · intro hdrop
          by_cases hreg : acc.reg = 0
          · exact Or.inl hreg
          · right
            intro j hj hown
            have hzero := hdrop.2 hno rfl j hj hown
            rw [if_neg hreg] at hzero
            exact ⟨fun _ => hzero, fun _ hnotWord => absurd hword hnotWord⟩
        · intro hconf
          refine ⟨fun hop' => absurd hop' hop, fun _ _ j hj hown => ?_⟩
          by_cases hreg : acc.reg = 0
          · rw [if_pos hreg]
            exact BitVec.getLsbD_zero
          · rw [if_neg hreg]
            exact (hconf.resolve_left hreg j hj hown).1 hword

theorem vintc2EmulHandler_cases (h : vintc2EmulHandler vm acc s = some (true, s')) :
    (¬ acc.decoded ∧ s' = if acc.write then s else s.writereg acc.reg 0#32) ∨
    (acc.decoded ∧ acc.offset < 0x1000 ∧ emulateIntcEicAccess vm acc s = some s') ∨
    (acc.decoded ∧ (0x1000 ≤ acc.offset ∧ acc.offset < 0x2000) ∧
      emulateIntcImrAccess vm acc s = some s') ∨
    (acc.decoded ∧ (0x2000 ≤ acc.offset ∧ acc.offset < 0x3000) ∧
      emulateIntcEibdAccess vm acc s = some s') ∨
    (acc.decoded ∧ (0x4000 ≤ acc.offset ∧ acc.offset < 0x5000) ∧
      emulateIntcEeicAccess vm acc s = some s') := by
  have hmap : ∀ r : Option Intc2State, r.map (fun x => (true, x)) = some (true, s') →
      r = some s' := by
    intro r hr
    obtain ⟨x, hx, hpair⟩ := Option.map_eq_some_iff.mp hr
    rw [hx]
    exact congrArg some (Prod.mk.inj hpair).2
  unfold vintc2EmulHandler at h
  by_cases hdec : acc.addr % acc.width = 0 ∧ acc.width ≤ 4
  · right
    rw [if_pos hdec] at h
    simp only [and_intc2OffsetMask acc.offset_lt, intc2EicOffset, intc2ImrOffset,
      intc2EibdOffset, intc2EeicOffset] at h
    split at h
    · exact Or.inl ⟨hdec, by omega, hmap _ h⟩
    · split at h
      · exact Or.inr (Or.inl ⟨hdec, by omega, hmap _ h⟩)
      · split at h
        · exact Or.inr (Or.inr (Or.inl ⟨hdec, by omega, hmap _ h⟩))
        · split at h
          · exact Or.inr (Or.inr (Or.inr ⟨hdec, by omega, hmap _ h⟩))
          · exact absurd (Prod.mk.inj (Option.some.inj h)).1 Bool.false_ne_true
  · left
    rw [if_neg hdec] at h
    refine ⟨hdec, ?_⟩
    cases hwrite : acc.write with
    | true =>
        rw [hwrite] at h
        exact (Prod.mk.inj (Option.some.inj h)).2.symm
    | false =>
        rw [hwrite] at h
        exact (Prod.mk.inj (Option.some.inj h)).2.symm

theorem Intc2Access.decoded.lane {n j : Nat} (hdec : acc.decoded) (hn : n = 2 ∨ n = 4)
    (hfit : acc.width ≤ n) (hj : j < 8 * acc.width) :
    8 * (acc.offset % n) + j < 8 * n ∧
      8 * (acc.offset - acc.offset % n) + (8 * (acc.offset % n) + j) = 8 * acc.offset + j ∧
      j < 8 * n := by
  have hmod := hdec.offset_mod
  have hle := Nat.mod_le acc.offset n
  rcases hdec.width_cases with hd | hd | hd <;> rw [hd] at hmod hfit hj <;>
    rcases hn with rfl | rfl <;> omega

/-- **Registers of one interrupt**, given what a store puts into the accessed
bytes and what a load shows of them. -/
theorem regAccess_isolated_iff {w bot id : Nat} {stored : BitVec w → BitVec 32 → BitVec 32}
    {loaded : BitVec w → Option (BitVec 32)} {cur : BitVec w} (hw : w = 16 ∨ w = 32)
    (hbot : bot % 4 = 0) (hlt : bot < 2 ^ 32) (hdec : acc.decoded) (hnot : ¬ acc.eicWord)
    (hfit : acc.width ≤ w / 8) (hNotImr : ¬ (0x1000 ≤ acc.offset ∧ acc.offset < 0x2000))
    (hid : (regIdx bot (w / 8) acc.offset + 32) % 2 ^ 32 = id)
    (hint : ∀ j, acc.laneInt j = id)
    (hcur : word w s.intc2 (8 * (acc.offset - acc.offset % (w / 8))) = cur)
    (hv : intc2Eibd ≤ acc.offset → acc.offset < 0x4000 → acc.offset % 4 = 0 →
      ∃ val, ∀ t, t < 3 →
        (stored cur (s.readreg acc.reg)).getLsbD t = (vm.physPeid val).testBit t)
    (hst : ∀ j, j < 8 * acc.width → (stored cur (s.readreg acc.reg)).getLsbD j =
      if 0x2000 ≤ acc.offset ∧ acc.offset < 0x4000 then
        if j < 3 then (vm.physPeid (s.readreg acc.reg)).testBit j
        else s.intc2 (8 * (acc.offset - acc.offset % 4) + j)
      else (s.readreg acc.reg).getLsbD j)
    (hld : ∀ j, j < 8 * acc.width →
      ((∀ x, loaded cur = some x → x.getLsbD (8 * (acc.offset % (w / 8)) + j) = false) ↔
        if 0x2000 ≤ acc.offset ∧ acc.offset < 0x4000 then PeidHidden vm acc s j
        else s.intc2 (8 * acc.offset + j) = false))
    (h : emulateRegAccess w bot stored loaded vm acc s = some s') :
    Intc2Isolated vm acc s s' ↔ Intc2Confined vm acc s := by
  have hspec := emulateRegAccess_spec hw hbot hlt hdec hfit h
  rw [hid, hcur] at hspec
  rcases hspec with ⟨hhas, hperf⟩ | ⟨hhas, href⟩
  · apply hperf.isolated_iff hdec ⟨hdec, hnot, Or.inr (by rw [hint]; exact hhas)⟩ hv
    · constructor
      · intro hc j hj hown
        have hbit := hc hdec hnot j hj hown
        rw [if_neg hNotImr, hint] at hbit
        exact (hst j hj).trans (hbit hhas).symm
      · intro hc _ _ j hj hown
        rw [if_neg hNotImr]
        intro _
        exact (hc j hj hown).symm.trans (hst j hj)
    · constructor
      · intro hc j hj hown
        apply (hld j hj).mpr
        exact (hc j hj hown).2 hdec hnot (by rw [hint]; exact hhas)
      · intro hc j hj hown
        exact ⟨fun hword => absurd hword hnot, fun _ _ _ => (hld j hj).mp (hc j hj hown)⟩
  · apply isolated_iff_of_refused href
    · intro hperf
      rcases hperf.2.2 with himr | hyes
      · exact hNotImr himr
      · rw [hint, hhas] at hyes
        exact Bool.false_ne_true hyes
    · intro _ _ j _ _
      rw [if_neg hNotImr, hint, hhas]
      intro hyes
      exact absurd hyes Bool.false_ne_true
    · intro j _ _
      refine ⟨fun hword => absurd hword hnot, fun _ _ hyes => ?_⟩
      rw [hint, hhas] at hyes
      exact absurd hyes Bool.false_ne_true

/-- **EIC.** -/
theorem eic_isolated_iff (hdec : acc.decoded) (hoff : acc.offset < 0x1000)
    (h : emulateIntcEicAccess vm acc s = some s') :
    Intc2Isolated vm acc s s' ↔ Intc2Confined vm acc s := by
  unfold emulateIntcEicAccess at h
  by_cases hwide : acc.width > 2
  · rw [if_pos hwide] at h
    rw [← Option.some.inj h]
    exact isolated_iff_of_eicWord ⟨hdec, hoff, hwide⟩
  · rw [if_neg hwide] at h
    have hfit : acc.width ≤ 2 := Nat.le_of_not_lt hwide
    have hNotEibd : ¬ (0x2000 ≤ acc.offset ∧ acc.offset < 0x4000) := by omega
    apply regAccess_isolated_iff (Or.inl rfl) (by rfl) (by decide) hdec
      (fun hword => hwide hword.2.2) hfit (by omega) rfl ?_ rfl ?_ ?_ ?_ h
    · intro j
      rw [Intc2Access.laneInt, if_pos hoff]
    · intro hlo
      rw [intc2Eibd] at hlo
      omega
    · intro j _
      rw [if_neg hNotEibd]
    · intro j hj
      obtain ⟨hlt, hback, _⟩ := hdec.lane (Or.inl rfl) hfit hj
      have hlt32 : 8 * (acc.offset % 2) + j < 32 := by omega
      rw [if_neg hNotEibd]
      simp only [Option.some.injEq, forall_eq', BitVec.getLsbD_setWidth, getLsbD_word, hback, hlt,
        hlt32, decide_true, Bool.true_and]

/-- **EEIC.** -/
theorem eeic_isolated_iff (hdec : acc.decoded) (hoff : 0x4000 ≤ acc.offset)
    (h : emulateIntcEeicAccess vm acc s = some s') :
    Intc2Isolated vm acc s s' ↔ Intc2Confined vm acc s := by
  have hNotEibd : ¬ (0x2000 ≤ acc.offset ∧ acc.offset < 0x4000) := by omega
  apply regAccess_isolated_iff (Or.inr rfl) (by rfl) (by decide) hdec ?_ hdec.2 (by omega) rfl ?_
    rfl ?_ ?_ ?_ h
  · intro hword
    have hlo := hword.2.1
    omega
  · intro j
    rw [Intc2Access.laneInt, if_neg (by omega), if_neg (by omega), if_neg (by omega)]
  · intro _ hhi
    omega
  · intro j _
    rw [if_neg hNotEibd]
  · intro j hj
    obtain ⟨hlt, hback, _⟩ := hdec.lane (Or.inr rfl) hdec.2 hj
    rw [if_neg hNotEibd]
    simp only [Option.some.injEq, forall_eq', getLsbD_word, hback, hlt, decide_true, Bool.true_and]

theorem eibdLoaded_hidden_iff {j : Nat} (hdec : acc.decoded) (hj : j < 8 * acc.width) :
    (∀ x, eibdLoaded vm (word 32 s.intc2 (8 * (acc.offset - acc.offset % 4))) = some x →
      x.getLsbD (8 * (acc.offset % 4) + j) = false) ↔ PeidHidden vm acc s j := by
  obtain ⟨hlt, _, _⟩ := hdec.lane (Or.inr rfl) hdec.2 hj
  have hbit : ∀ virtPeid : Nat, (BitVec.ofNat 32 virtPeid &&& intcEibdPeidMask).getLsbD
      (8 * (acc.offset % 4) + j) =
        (virtPeid.testBit (8 * (acc.offset % 4) + j) && decide (8 * (acc.offset % 4) + j < 3)) := by
    intro virtPeid
    rw [BitVec.getLsbD_and, getLsbD_peidMask hlt, BitVec.getLsbD_ofNat, decide_eq_true hlt,
      Bool.true_and]
  unfold PeidHidden eibdLoaded
  simp only [Option.map_eq_some_iff]
  constructor
  · intro hall hal h3 virtPeid htr
    have hzero := hall _ ⟨virtPeid, by rw [hal]; exact htr, rfl⟩
    have hsum : 8 * (acc.offset % 4) + j = j := by omega
    rw [hbit, hsum, decide_eq_true h3, Bool.and_true] at hzero
    exact hzero
  · rintro hhid x ⟨virtPeid, htr, rfl⟩
    rw [hbit]
    by_cases h3 : 8 * (acc.offset % 4) + j < 3
    · have hal : acc.offset % 4 = 0 := by omega
      have hsum : 8 * (acc.offset % 4) + j = j := by omega
      rw [hal] at htr
      rw [hsum, hhid hal (by omega) virtPeid htr, Bool.false_and]
    · rw [decide_eq_false h3, Bool.and_false]

/-- **EIBD.** -/
theorem eibd_isolated_iff (hdec : acc.decoded) (hoff : 0x2000 ≤ acc.offset ∧ acc.offset < 0x3000)
    (h : emulateIntcEibdAccess vm acc s = some s') :
    Intc2Isolated vm acc s s' ↔ Intc2Confined vm acc s := by
  have hEibd : 0x2000 ≤ acc.offset ∧ acc.offset < 0x4000 := by omega
  apply regAccess_isolated_iff (Or.inr rfl) (by rfl) (by decide) hdec ?_ hdec.2 (by omega) rfl ?_
    rfl ?_ ?_ ?_ h
  · intro hword
    have hlo := hword.2.1
    omega
  · intro j
    rw [Intc2Access.laneInt, if_neg (by omega), if_neg (by omega), if_pos hEibd.2]
  · intro _ _ _
    refine ⟨s.readreg acc.reg, fun t ht => ?_⟩
    rw [getLsbD_eibdStored (by omega), if_pos ht]
  · intro j hj
    obtain ⟨_, _, hlt⟩ := hdec.lane (Or.inr rfl) hdec.2 hj
    rw [if_pos hEibd, getLsbD_eibdStored hlt, getLsbD_word, decide_eq_true hlt, Bool.true_and]
  · intro j hj
    rw [if_pos hEibd]
    exact eibdLoaded_hidden_iff hdec hj

/-- **IMR.** -/
theorem imr_isolated_iff (hdec : acc.decoded) (hoff : 0x1000 ≤ acc.offset ∧ acc.offset < 0x2000)
    (h : emulateIntcImrAccess vm acc s = some s') :
    Intc2Isolated vm acc s s' ↔ Intc2Confined vm acc s := by
  have hnot : ¬ acc.eicWord := fun hword => by
    have hlo := hword.2.1
    omega
  have hNotEibd : ¬ (0x2000 ≤ acc.offset ∧ acc.offset < 0x4000) := by omega
  have hint : ∀ j, acc.laneInt j =
      (8 * (acc.offset % 4) + j + acc.firstImrInt) % 2 ^ 32 := by
    intro j
    rw [Intc2Access.laneInt, if_neg (by omega), if_pos hoff.2]
  apply (emulateIntcImrAccess_spec hdec h).isolated_iff hdec ⟨hdec, hnot, Or.inl hoff⟩
  · intro hlo
    rw [intc2Eibd] at hlo
    omega
  · have hbit : ∀ j, j < 8 * acc.width → (imrStored vm acc.firstImrInt (s.readreg acc.reg)
        (word 32 s.intc2 (8 * (acc.offset - acc.offset % 4)))).getLsbD j =
        if vm.hasInterrupt ((j + acc.firstImrInt) % 2 ^ 32) then (s.readreg acc.reg).getLsbD j
        else s.intc2 (8 * (acc.offset - acc.offset % 4) + j) := by
      intro j hj
      obtain ⟨_, _, hlt⟩ := hdec.lane (Or.inr rfl) hdec.2 hj
      rw [getLsbD_imrStored hlt, getLsbD_word, decide_eq_true hlt, Bool.true_and]
    constructor
    · intro hc j hj hown
      have hkept := hc hdec hnot j hj hown
      rw [if_pos hoff] at hkept
      exact (hbit j hj).trans hkept.symm
    · intro hc _ _ j hj hown
      rw [if_pos hoff]
      exact (hc j hj hown).symm.trans (hbit j hj)
  · have hbit : ∀ j, j < 8 * acc.width → (imrLoaded vm acc.firstImrInt
        (word 32 s.intc2 (8 * (acc.offset - acc.offset % 4)))).getLsbD
          (8 * (acc.offset % 4) + j) =
        (vm.hasInterrupt (acc.laneInt j) && s.intc2 (8 * acc.offset + j)) := by
      intro j hj
      obtain ⟨hlt, hback, _⟩ := hdec.lane (Or.inr rfl) hdec.2 hj
      rw [getLsbD_imrLoaded hlt, getLsbD_word, decide_eq_true hlt, Bool.true_and, hback, hint]
    constructor
    · intro hc j hj hown x hx
      rw [← Option.some.inj hx, hbit j hj]
      cases hhas : vm.hasInterrupt (acc.laneInt j) with
      | false => rfl
      | true =>
          have hzero := (hc j hj hown).2 hdec hnot hhas
          rw [if_neg hNotEibd] at hzero
          rw [hzero, Bool.and_false]
    · intro hc j hj hown
      refine ⟨fun hword => absurd hword hnot, fun _ _ hhas => ?_⟩
      have hzero := hc j hj hown _ rfl
      rw [hbit j hj, hhas, Bool.true_and] at hzero
      rw [if_neg hNotEibd]
      exact hzero

/-- **The condition is exact**: an access that the handler answers is isolated
if and only if it meets the condition. -/
theorem vintc2EmulHandler_isolated_iff (h : vintc2EmulHandler vm acc s = some (true, s')) :
    Intc2Isolated vm acc s s' ↔ Intc2Confined vm acc s := by
  rcases vintc2EmulHandler_cases h with ⟨hdec, hs'⟩ | ⟨hdec, hoff, hs'⟩ | ⟨hdec, hoff, hs'⟩ |
    ⟨hdec, hoff, hs'⟩ | ⟨hdec, hoff, hs'⟩
  · apply isolated_iff_of_refused hs'
    · intro hperf
      exact hdec hperf.1
    · intro hdec'
      exact absurd hdec' hdec
    · intro j _ _
      exact ⟨fun hword => absurd hword.1 hdec, fun hdec' => absurd hdec' hdec⟩
  · exact eic_isolated_iff hdec hoff hs'
  · exact imr_isolated_iff hdec hoff hs'
  · exact eibd_isolated_iff hdec hoff hs'
  · exact eeic_isolated_iff hdec hoff.1 hs'

/-! ## Runs -/

/-- The VMs of the machine; no interrupt is assigned to two of them. -/
structure Intc2Vms (P : Intc2Plat) where
  vm : Nat → Intc2Vm
  disjoint : ∀ v w id, v ≠ w → Assigned P (vm v) id = true → Assigned P (vm w) id = false

/-- An access of a vCPU with its registers and its flag. -/
structure Intc2Event (P : Intc2Plat) where
  vm : Nat
  acc : Intc2Access P
  r : Fin 32 → BitVec 32
  pswZ : Bool

/-- What an access finds. -/
def Intc2Event.before (e : Intc2Event P) (m : Store) : Intc2State := ⟨m, e.r, e.pswZ⟩

/-- The VMs access the INTC2 one after the other; each VM's interrupts are
targeted at its cores to begin with. -/
def intc2System (V : Intc2Vms P) : StepSystem Store (Intc2Event P) where
  init m := ∀ v, TargetsOk P (V.vm v) m
  step m e m' := ∃ s', vintc2EmulHandler (V.vm e.vm) e.acc (e.before m) = some (true, s') ∧
    m' = s'.intc2

theorem Intc2Isolated.targetsOk {V : Intc2Vms P} {v : Nat}
    (h : Intc2Isolated (V.vm v) acc s s') (hok : ∀ w, TargetsOk P (V.vm w) s.intc2) (w : Nat) :
    TargetsOk P (V.vm w) s'.intc2 := by
  by_cases hvw : w = v
  · rw [hvw]
    exact h.targets (hok v)
  · intro id hid hassigned
    obtain ⟨i, hi, htarget⟩ := hok w id hid hassigned
    refine ⟨i, hi, ?_⟩
    rw [← htarget]
    apply eibdPeid_congr
    intro t ht
    apply h.kept
    have hidlt : id < 2048 := by
      have hlt : id < P.maxInterrupts := of_decide_eq_true (Bool.and_eq_true_iff.mp hassigned).1
      exact Nat.lt_of_lt_of_le hlt P.maxInterrupts_le
    have howner : intc2Owner (8 * (intc2Eibd + 4 * (id - 32)) + t) = some id := by
      unfold intc2Owner intc2Eic intc2Imr intc2Eibd
      rw [if_neg (by omega), if_neg (by omega), if_pos (by omega)]
      congr 1
      omega
    rw [ownsBit, howner]
    exact V.disjoint w v id hvw hassigned

/-- **INTC2 isolation.**  An access that the handler answers is isolated if and
only if it meets the condition; and in a run whose accesses all meet it, every
VM's interrupts stay targeted at its own cores. -/
theorem vintc2_isolation (P : Intc2Plat) :
    (∀ (vm : Intc2Vm) (acc : Intc2Access P) (s s' : Intc2State),
      vintc2EmulHandler vm acc s = some (true, s') →
        (Intc2Isolated vm acc s s' ↔ Intc2Confined vm acc s)) ∧
    ∀ (V : Intc2Vms P) (m : Store),
      (intc2System V).Reach (fun m e => Intc2Confined (V.vm e.vm) e.acc (e.before m)) m →
        ∀ v, TargetsOk P (V.vm v) m := by
  constructor
  · intro vm acc s s' h
    exact vintc2EmulHandler_isolated_iff h
  · intro V m hreach
    apply hreach.invariant
    · intro m hinit
      exact hinit
    · rintro m e m' hok hconf ⟨s', hstep, rfl⟩
      exact ((vintc2EmulHandler_isolated_iff hstep).mpr hconf).targetsOk hok

/-- The INTC2 of a machine with 768 interrupts. -/
def u2a16Intc2 : Intc2Plat := ⟨0xFFF80000, by decide, 768, by decide⟩

/-- A VM on the one core `core` with the one interrupt `id`. -/
def oneIntVm (core : Fin 8) (id : Nat) : Intc2Vm :=
  ⟨fun b => b == id, 1, fun _ => core, 2 ^ core.val, Nat.one_pos, fun _ _ => core.isLt⟩

/-- An access to the window at `offset`. -/
def intc2Access (offset : Nat) (h : offset < intc2Size) (ds : Fin 8) (write : Bool)
    (bwop : EmulArchBwop) (bit : Fin 8) : Intc2Access u2a16Intc2 :=
  ⟨0xFFF80000 + offset, Nat.le_add_right _ _, Nat.add_lt_add_left h _, ds, write, true, 5, bwop, bit⟩

/-- A window that is zero, all general registers holding `val`. -/
def intc2Zero (val : BitVec 32) : Intc2State := ⟨fun _ => false, fun _ => val, false⟩

/-- VM `v` has interrupt `40 + v`, on the first core. -/
def oneIntVms : Intc2Vms u2a16Intc2 where
  vm v := oneIntVm 0 (40 + v)
  disjoint v w id hvw hv := by
    simp [Assigned, Intc2Vm.hasInterrupt, oneIntVm] at hv ⊢
    omega

/-- A word store to the EIBD register of interrupt 40. -/
def eibdWordStore : Intc2Access u2a16Intc2 := intc2Access 0x20A0 (by decide) 2 true .no 0

theorem eibdWordStore_confined :
    Intc2Confined (oneIntVm 0 40) eibdWordStore (intc2Zero 0x1FF#32) := by
  have hstore : StoreConfined (oneIntVm 0 40) eibdWordStore (intc2Zero 0x1FF#32) := by
    unfold StoreConfined Intc2Access.eicWord Intc2Access.decoded
    decide +kernel
  exact hstore

/-- The VM with interrupt 40 stores a word to its EIBD register. -/
theorem vintc2_isolation_wordStore :
    (∃ s', vintc2EmulHandler (oneIntVm 0 40) eibdWordStore (intc2Zero 0x1FF#32) = some (true, s') ∧
      (Intc2Isolated (oneIntVm 0 40) eibdWordStore (intc2Zero 0x1FF#32) s' ↔
        Intc2Confined (oneIntVm 0 40) eibdWordStore (intc2Zero 0x1FF#32))) ∧
    ∃ s', vintc2EmulHandler (oneIntVm 0 40) eibdWordStore (intc2Zero 0x1FF#32) = some (true, s') ∧
      ∀ v, TargetsOk u2a16Intc2 (oneIntVm 0 (40 + v)) s'.intc2 := by
  constructor
  · exact ⟨_, rfl, (vintc2_isolation _).1 _ _ _ _ rfl⟩
  · refine ⟨_, rfl, (vintc2_isolation u2a16Intc2).2 oneIntVms _ ?_⟩
    refine .step (.init ?_) (e := ⟨0, eibdWordStore, fun _ => 0x1FF#32, false⟩)
      eibdWordStore_confined ⟨_, rfl, rfl⟩
    intro v id _ _
    refine ⟨0, Nat.one_pos, ?_⟩
    simp [eibdPeid, word, oneIntVms, oneIntVm]

/-- **Three accesses that are not isolated**, of the VM with interrupt 40: it
sets the IMR bit of interrupt 33, it changes that bit by storing a byte to the
IMR of interrupts 40 to 47, and it sets a bit of GPID in its EIBD register. -/
theorem vintc2_not_isolated :
    (∃ s', vintc2EmulHandler (oneIntVm 2 40) (intc2Access 0x1004 (by decide) 0 true .set1 1)
        (intc2Zero 0#32) = some (true, s') ∧
      ¬ Intc2Isolated (oneIntVm 2 40) (intc2Access 0x1004 (by decide) 0 true .set1 1)
        (intc2Zero 0#32) s') ∧
    (∃ s', vintc2EmulHandler (oneIntVm 2 32) (intc2Access 0x1005 (by decide) 0 true .no 0)
        (intc2Zero 1#32) = some (true, s') ∧
      ¬ Intc2Isolated (oneIntVm 2 32) (intc2Access 0x1005 (by decide) 0 true .no 0)
        (intc2Zero 1#32) s') ∧
    (∃ s', vintc2EmulHandler (oneIntVm 2 40) (intc2Access 0x20A1 (by decide) 0 true .set1 0)
        (intc2Zero 0#32) = some (true, s') ∧
      ¬ Intc2Isolated (oneIntVm 2 40) (intc2Access 0x20A1 (by decide) 0 true .set1 0)
        (intc2Zero 0#32) s') := by
  refine ⟨⟨_, rfl, fun h => ?_⟩, ⟨_, rfl, fun h => ?_⟩, ⟨_, rfl, fun h => ?_⟩⟩
  · exact absurd (h.kept (8 * 0x1004 + 1) (by decide +kernel)) (by decide +kernel)
  · exact absurd (h.kept (8 * 0x1005) (by decide +kernel)) (by decide +kernel)
  · exact absurd (h.kept (8 * 0x20A1) (by decide +kernel)) (by decide +kernel)
end Bao

import BaoHypervisor.Bitmap
import BaoHypervisor.PackedFields

/-!
# Service-request nodes on TriCore

`vir_src_emul_handler` of `arch/tricore/vir.c`.  Each interrupt has a 32-bit SRC
register with the field VM, which is the hypervisor's, and the field TOS, which
names the core that the interrupt goes to.  A guest reads and writes the
registers of its interrupts by half-words and words.
-/

namespace Bao

open BitMemory (IsMask)

/-- `IR_SRC_TOS_POS` and `IR_SRC_VM_POS`. -/
def irSrcTosPos : Nat := 12
def irSrcVmPos : Nat := 8

/-- `IR_SRC_TOS_MASK` and `IR_SRC_VM_MASK`. -/
def irSrcTosMask : BitVec 32 := 0xF#32 <<< irSrcTosPos
def irSrcVmMask : BitVec 32 := 0x7#32 <<< irSrcVmPos

/-- `GUEST_SRC_ACCESS`: all fields but VM. -/
def guestSrcAccess : BitVec 32 := ~~~irSrcVmMask

/-- `SRC_TOS_UNASSIGNED`. -/
def srcTosUnassigned : BitVec 32 := 0xF#32

/-- `IR_SRC_GET_TOS`. -/
def irSrcGetTos (reg : BitVec 32) : BitVec 32 := (reg &&& irSrcTosMask) >>> irSrcTosPos

/-- `IR_MAX_INTERRUPTS`, the number of SRC registers. -/
def irMaxInterrupts : Nat := 2048

/-- The platform: where the registers are, `PLAT_CPU_NUM` and the interrupts that
it has. -/
structure VirPlat where
  srcAddr : Nat
  aligned : srcAddr % 4 = 0
  platCpuNum : Nat
  valid : Nat → Bool

/-- What the handler reads of a `struct vm`: its interrupts and its vCPUs. -/
structure VirVm where
  hasInterrupt : Nat → Bool
  cpuNum : Nat
  physId : Nat → Nat

/-- A core runs a vCPU of the VM. -/
def VirVm.Owns (vm : VirVm) (c : Nat) : Prop := ∃ i, i < vm.cpuNum ∧ vm.physId i = c

/-- `struct emul_access`, as far as the handler reads it. -/
structure VirAccess where
  addr : Nat
  width : Nat
  write : Bool
  reg : Nat

/-- The SRC registers, and the registers of the accessing vCPU by their number. -/
structure VirState where
  src : Nat → BitVec 32
  r : Nat → BitVec 32

/-- What the handler returns, or `none` if it ends in `ERROR`, and the state it
leaves. -/
structure VirOutcome where
  returned : Option Bool
  state : VirState

/-- The check of `vcpu_readreg` and `vcpu_writereg`: data registers start at 16,
and 15 is taken for one of them. -/
def virRegOk (reg : Nat) : Bool :=
  let regNum := if reg < 15 then reg else (reg + 2 ^ 32 - 16) % 2 ^ 32
  !(decide (reg > 32) || decide (regNum > 16))

/-- `vcpu_writereg`, once the number has been checked. -/
def VirState.writereg (s : VirState) (reg : Nat) (val : BitVec 32) : VirState :=
  { s with r := fun k => if k = reg then val else s.r k }

/-- `ir_src_set_node`. -/
def VirState.setNode (s : VirState) (id : Nat) (val : BitVec 32) : VirState :=
  { s with src := fun k => if k = id then val else s.src k }

/-- `acc->addr & 0x3` and `BIT_MASK(0, acc->width * 8)`. -/
def VirAccess.addrOff (acc : VirAccess) : Nat := acc.addr % 4
def VirAccess.mask (acc : VirAccess) : BitVec 32 := granuleMask 0 (acc.width * 8)

/-- The two warnings of `vir_emul_src_access`: TOS of the written value is beyond
the cores, or it was set up and the value has another core than the vCPU's. -/
def virRefuses (P : VirPlat) (own : Nat) (orig val : BitVec 32) : Prop :=
  (irSrcGetTos val).toNat > P.platCpuNum ∨
    (irSrcGetTos orig ≠ srcTosUnassigned ∧ (irSrcGetTos val).toNat ≠ own)

instance (P : VirPlat) (own : Nat) (orig val : BitVec 32) : Decidable (virRefuses P own orig val) :=
  inferInstanceAs (Decidable (_ ∨ _))

/-- The value that `vir_emul_src_access` writes. -/
def virMerged (addrOff : Nat) (orig val : BitVec 32) : BitVec 32 :=
  ((val <<< (addrOff * 8)) &&& guestSrcAccess) ||| (orig &&& ~~~guestSrcAccess)

/-- `vir_emul_src_access` on the core `own`. -/
def virEmulSrcAccess (P : VirPlat) (own : Nat) (acc : VirAccess) (irqid : Nat) (s : VirState) :
    VirOutcome :=
  if acc.write then
    if !P.valid irqid || !virRegOk acc.reg then ⟨none, s⟩
    else
      let orig := s.src irqid
      let val := s.r acc.reg &&& acc.mask
      if virRefuses P own orig val then ⟨some true, s⟩
      else ⟨some true, s.setNode irqid (virMerged acc.addrOff orig val)⟩
  else if !virRegOk acc.reg then ⟨none, s⟩
  else
    let val := s.src irqid &&& guestSrcAccess
    ⟨some true, s.writereg acc.reg ((val >>> (acc.addrOff * 8)) &&& acc.mask)⟩

/-- `vir_src_emul_handler` on the core `own`. -/
def virSrcEmulHandler (P : VirPlat) (vm : VirVm) (own : Nat) (acc : VirAccess) (s : VirState) :
    VirOutcome :=
  if acc.addr % acc.width ≠ 0 ∨ acc.width < 2 then
    if acc.write then ⟨some true, s⟩
    else if !virRegOk acc.reg then ⟨none, s⟩
    else ⟨some true, s.writereg acc.reg 0#32⟩
  else
    let irqid := (acc.addr - acc.addr % 4 - P.srcAddr) / 4
    if !vm.hasInterrupt irqid then ⟨none, s⟩
    else virEmulSrcAccess P own acc irqid s

/-! ## The property -/

/-- **A write**: an aligned half-word or word write by a vCPU of the VM to the
register of one of its interrupts. -/
structure VirSrcWrite (P : VirPlat) (vm : VirVm) where
  addr : Nat
  width : Nat
  reg : Nat
  vcpu : Nat
  lower : P.srcAddr ≤ addr
  upper : addr < P.srcAddr + 4 * irMaxInterrupts
  width_cases : width = 2 ∨ width = 4
  aligned : addr % width = 0
  vcpu_lt : vcpu < vm.cpuNum
  assigned : vm.hasInterrupt ((addr - P.srcAddr) / 4) = true

/-- A bit of the field VM. -/
def srcVmBit (b : Nat) : Prop := 8 ≤ b ∧ b < 11

instance {b : Nat} : Decidable (srcVmBit b) := inferInstanceAs (Decidable (_ ∧ _))

namespace VirSrcWrite

variable {P : VirPlat} {vm : VirVm} (W : VirSrcWrite P vm)

/-- The interrupt of the register. -/
def id : Nat := (W.addr - P.srcAddr) / 4

/-- The byte of the register that the access starts at. -/
def off : Nat := W.addr % 4

/-- The core of the vCPU. -/
def own : Nat := vm.physId W.vcpu

/-- The access covers bit `b` of the register. -/
def Covers (b : Nat) : Prop := 8 * W.off ≤ b ∧ b < 8 * W.off + 8 * W.width

instance {b : Nat} : Decidable (W.Covers b) := inferInstanceAs (Decidable (_ ∧ _))

/-- The state after the write. -/
def after (s : VirState) : VirState :=
  (virSrcEmulHandler P vm W.own ⟨W.addr, W.width, true, W.reg⟩ s).state

/-- The written value. -/
def val (s : VirState) : BitVec 32 := s.r W.reg &&& granuleMask 0 (W.width * 8)

/-- The write is refused: it ends in one of the two errors or warnings. -/
def Refused (s : VirState) : Prop :=
  P.valid W.id = false ∨ virRegOk W.reg = false ∨ virRefuses P W.own (s.src W.id) (W.val s)

instance {s : VirState} : Decidable (W.Refused s) := inferInstanceAs (Decidable (_ ∨ _))

/-- **A confined write**: refused, it changes nothing; else it changes the covered
bits of the register, without those of VM, to the written ones; and TOS is what
it was or a core of the VM. -/
structure Confined (s : VirState) : Prop where
  refused : W.Refused s → W.after s = s
  written : ¬ W.Refused s → ∀ i b, b < 32 → ((W.after s).src i).getLsbD b =
    if i = W.id ∧ W.Covers b ∧ ¬ srcVmBit b then (s.r W.reg).getLsbD (b - 8 * W.off)
    else (s.src i).getLsbD b
  target : irSrcGetTos ((W.after s).src W.id) = irSrcGetTos (s.src W.id) ∨
    vm.Owns (irSrcGetTos ((W.after s).src W.id)).toNat

/-- **The condition**: the write is refused; or the bits that it does not cover
are clear but those of VM, and if it covers TOS, then TOS was set up, or the
written TOS is a core of the VM or none. -/
def Mergeable (s : VirState) : Prop :=
  W.Refused s ∨
    (∀ b, b < 32 → ¬ W.Covers b → ¬ srcVmBit b → (s.src W.id).getLsbD b = false) ∧
      (W.off = 0 → irSrcGetTos (s.src W.id) ≠ srcTosUnassigned ∨
        irSrcGetTos (W.val s) = srcTosUnassigned ∨ vm.Owns (irSrcGetTos (W.val s)).toNat)

end VirSrcWrite

/-! ## The merged value -/

variable {P : VirPlat} {vm : VirVm}

theorem getLsbD_irSrcVmMask {b : Nat} (hb : b < 32) :
    irSrcVmMask.getLsbD b = decide (srcVmBit b) := by
  have hall : ∀ i : Fin 32, irSrcVmMask.getLsbD i.val = decide (srcVmBit i.val) := by decide
  exact hall ⟨b, hb⟩

/-- The bits of the merged value: those of VM are kept, the bits that are not
covered are cleared. -/
theorem getLsbD_virMerged {len off : Nat} {orig v mask : BitVec 32} (hmask : IsMask mask 0 len)
    {b : Nat} (hb : b < 32) :
    (virMerged off orig (v &&& mask)).getLsbD b =
      if srcVmBit b then orig.getLsbD b
      else decide (8 * off ≤ b ∧ b < 8 * off + len) && v.getLsbD (b - 8 * off) := by
  have hshift : ((v &&& mask) <<< (off * 8)).getLsbD b =
      (decide (8 * off ≤ b ∧ b < 8 * off + len) && v.getLsbD (b - 8 * off)) := by
    rw [BitVec.getLsbD_shiftLeft, BitVec.getLsbD_and, Nat.mul_comm off 8, decide_eq_true hb,
      Bool.true_and]
    by_cases hlo : b < 8 * off
    · have hout : ¬ (8 * off ≤ b ∧ b < 8 * off + len) := by omega
      rw [decide_eq_true hlo, decide_eq_false hout]
      rfl
    · have hlane : mask.getLsbD (b - 8 * off) =
          decide (8 * off ≤ b ∧ b < 8 * off + len) := by
        rw [hmask.2, decide_eq_true (Nat.zero_le _), Bool.true_and]
        apply decide_eq_decide.mpr
        omega
      rw [decide_eq_false hlo, Bool.not_false, Bool.true_and, hlane, Bool.and_comm]
  rw [virMerged, guestSrcAccess, BitVec.getLsbD_or, BitVec.getLsbD_and, BitVec.getLsbD_and,
    BitVec.getLsbD_not, BitVec.getLsbD_not, BitVec.getLsbD_not, getLsbD_irSrcVmMask hb, hshift]
  by_cases hvm : srcVmBit b
  · rw [if_pos hvm, decide_eq_true hvm]
    simp [hb]
  · rw [if_neg hvm, decide_eq_false hvm]
    simp [hb]

theorem toNat_irSrcGetTos (reg : BitVec 32) :
    (irSrcGetTos reg).toNat = reg.toNat / 2 ^ 12 % 2 ^ 4 :=
  PackedFields.toNat_masked 4 12 rfl (by decide)

theorem irSrcGetTos_congr {a c : BitVec 32}
    (h : ∀ t, t < 4 → a.getLsbD (12 + t) = c.getLsbD (12 + t)) : irSrcGetTos a = irSrcGetTos c := by
  apply BitVec.eq_of_toNat_eq
  rw [toNat_irSrcGetTos, toNat_irSrcGetTos]
  apply Nat.eq_of_testBit_eq
  intro t
  rw [Nat.testBit_mod_two_pow, Nat.testBit_mod_two_pow, Nat.testBit_div_two_pow,
    Nat.testBit_div_two_pow, BitVec.testBit_toNat, BitVec.testBit_toNat, Nat.add_comm t 12]
  by_cases ht : t < 4
  · rw [h t ht]
  · rw [decide_eq_false ht, Bool.false_and, Bool.false_and]

namespace VirSrcWrite

variable (W : VirSrcWrite P vm) {s : VirState}

theorem id_eq : (W.addr - W.addr % 4 - P.srcAddr) / 4 = W.id := by
  have hlo := W.lower
  have hal := P.aligned
  unfold id
  omega

theorem lane : 8 * W.off + 8 * W.width ≤ 32 ∧ (W.off = 0 ∨ W.off = 2 ∧ W.width = 2) := by
  have hal := W.aligned
  unfold off
  rcases W.width_cases with hw | hw <;> rw [hw] at hal ⊢ <;> omega

theorem isMask : IsMask (granuleMask 0 (W.width * 8)) 0 (8 * W.width) := by
  rw [Nat.mul_comm]
  apply isMask_granuleMask
  · rcases W.width_cases with hw | hw <;> omega
  · have hlane := W.lane
    omega

/-- **What the handler leaves**: the state as it was if the write is refused, and
the merged value otherwise. -/
theorem after_eq : W.after s =
    if W.Refused s then s else s.setNode W.id (virMerged W.off (s.src W.id) (W.val s)) := by
  have hplain : ¬ (W.addr % W.width ≠ 0 ∨ W.width < 2) := by
    intro h
    rcases h with hal | hw
    · exact hal W.aligned
    · rcases W.width_cases with hd | hd <;> omega
  have hassigned : vm.hasInterrupt W.id = true := W.assigned
  unfold after virSrcEmulHandler
  dsimp only
  rw [if_neg hplain, W.id_eq, hassigned, if_neg (by decide), virEmulSrcAccess]
  dsimp only
  rw [if_pos rfl]
  have hbad : (!P.valid W.id || !virRegOk W.reg) = true ↔
      P.valid W.id = false ∨ virRegOk W.reg = false := by
    rw [Bool.or_eq_true, Bool.not_eq_true', Bool.not_eq_true']
  by_cases herror : P.valid W.id = false ∨ virRegOk W.reg = false
  · have hrefused : W.Refused s := by
      rcases herror with hvalid | hreg
      · exact Or.inl hvalid
      · exact Or.inr (Or.inl hreg)
    rw [if_pos (hbad.mpr herror), if_pos hrefused]
  · rw [if_neg (fun h => herror (hbad.mp h))]
    by_cases hrefuse : virRefuses P W.own (s.src W.id) (W.val s)
    · have hrefused : W.Refused s := Or.inr (Or.inr hrefuse)
      rw [if_pos hrefused]
      exact congrArg VirOutcome.state (if_pos hrefuse)
    · have hwritten : ¬ W.Refused s := by
        intro h
        rcases h with hvalid | hreg | hyes
        · exact herror (Or.inl hvalid)
        · exact herror (Or.inr hreg)
        · exact hrefuse hyes
      rw [if_neg hwritten]
      exact congrArg VirOutcome.state (if_neg hrefuse)

theorem after_src (hwritten : ¬ W.Refused s) {i b : Nat} (hb : b < 32) :
    ((W.after s).src i).getLsbD b =
      if i = W.id then
        if srcVmBit b then (s.src W.id).getLsbD b
        else decide (W.Covers b) && (s.r W.reg).getLsbD (b - 8 * W.off)
      else (s.src i).getLsbD b := by
  rw [W.after_eq, if_neg hwritten, VirState.setNode]
  dsimp only
  by_cases hi : i = W.id
  · rw [if_pos hi, if_pos hi, val, getLsbD_virMerged W.isMask hb]
    rfl
  · rw [if_neg hi, if_neg hi]

theorem target_covered (hwritten : ¬ W.Refused s) (hoff : W.off = 0) :
    irSrcGetTos ((W.after s).src W.id) = irSrcGetTos (W.val s) := by
  apply irSrcGetTos_congr
  intro t ht
  have hNotVm : ¬ srcVmBit (12 + t) := by
    unfold srcVmBit
    omega
  have hcovers : W.Covers (12 + t) := by
    unfold Covers
    rcases W.width_cases with hw | hw <;> omega
  have hmask : (granuleMask 0 (W.width * 8)).getLsbD (12 + t) = true := by
    rw [W.isMask.2, Bool.and_eq_true_iff]
    unfold Covers at hcovers
    exact ⟨decide_eq_true (Nat.zero_le _), decide_eq_true (by omega)⟩
  rw [W.after_src hwritten (by omega), if_pos rfl, if_neg hNotVm, decide_eq_true hcovers,
    Bool.true_and, val, BitVec.getLsbD_and, hmask, Bool.and_true, hoff]
  rfl

theorem not_covers_target (hoff : W.off = 2) {t : Nat} (ht : t < 4) : ¬ W.Covers (12 + t) := by
  unfold Covers
  omega

/-- **One write is confined exactly if it meets the condition.** -/
theorem confined_iff : W.Confined s ↔ W.Mergeable s := by
  unfold Mergeable
  by_cases hrefused : W.Refused s
  · have hsame : W.after s = s := by rw [W.after_eq, if_pos hrefused]
    apply iff_of_true _ (Or.inl hrefused)
    refine ⟨fun _ => hsame, fun hwritten => absurd hrefused hwritten, Or.inl ?_⟩
    rw [hsame]
  · rw [or_iff_right hrefused]
    constructor
    · intro h
      constructor
      · intro b hb hcovers hvm
        have hkept := h.written hrefused W.id b hb
        have hout : ¬ (W.id = W.id ∧ W.Covers b ∧ ¬ srcVmBit b) := fun hin => hcovers hin.2.1
        rw [if_neg hout, W.after_src hrefused hb, if_pos rfl, if_neg hvm,
          decide_eq_false hcovers, Bool.false_and] at hkept
        exact hkept.symm
      · intro hoff
        by_cases hset : irSrcGetTos (s.src W.id) = srcTosUnassigned
        · right
          have htarget := h.target
          rw [W.target_covered hrefused hoff, hset] at htarget
          exact htarget
        · exact Or.inl hset
    · intro h
      obtain ⟨hclear, htos⟩ := h
      refine ⟨fun hno => absurd hno hrefused, ?_, ?_⟩
      · intro _ i b hb
        rw [W.after_src hrefused hb]
        by_cases hi : i = W.id
        · rw [if_pos hi, hi]
          by_cases hvm : srcVmBit b
          · have hout : ¬ (W.id = W.id ∧ W.Covers b ∧ ¬ srcVmBit b) := fun hin => hin.2.2 hvm
            rw [if_pos hvm, if_neg hout]
          · rw [if_neg hvm]
            by_cases hcovers : W.Covers b
            · rw [if_pos ⟨rfl, hcovers, hvm⟩, decide_eq_true hcovers, Bool.true_and]
            · have hout : ¬ (W.id = W.id ∧ W.Covers b ∧ ¬ srcVmBit b) := fun hin => hcovers hin.2.1
              rw [if_neg hout, decide_eq_false hcovers, Bool.false_and, hclear b hb hcovers hvm]
        · have hout : ¬ (i = W.id ∧ W.Covers b ∧ ¬ srcVmBit b) := fun hin => hi hin.1
          rw [if_neg hi, if_neg hout]
      · rcases W.lane.2 with hoff | ⟨hoff, _⟩
        · rw [W.target_covered hrefused hoff]
          by_cases hset : irSrcGetTos (s.src W.id) = srcTosUnassigned
          · rw [hset]
            exact (htos hoff).resolve_left (fun hne => hne hset)
          · right
            have hown : (irSrcGetTos (W.val s)).toNat = W.own := by
              apply Decidable.byContradiction
              intro hother
              exact hrefused (Or.inr (Or.inr (Or.inr ⟨hset, hother⟩)))
            exact ⟨W.vcpu, W.vcpu_lt, hown.symm⟩
        · left
          apply irSrcGetTos_congr
          intro t ht
          have hNotVm : ¬ srcVmBit (12 + t) := by
            unfold srcVmBit
            omega
          have hcovers := W.not_covers_target hoff ht
          rw [W.after_src hrefused (by omega), if_pos rfl, if_neg hNotVm,
            decide_eq_false hcovers, Bool.false_and, hclear _ (by omega) hcovers hNotVm]

end VirSrcWrite

/-- **Writes to service-request nodes.**  A half-word or word write of a vCPU to
the register of an interrupt of its VM is confined exactly if it is refused, or
the bits that it does not cover are clear and the target that it writes, if there
was none, is a core of the VM or none. -/
theorem vir_src_writes_confined_iff (P : VirPlat) (vm : VirVm) (W : VirSrcWrite P vm)
    (s : VirState) : W.Confined s ↔ W.Mergeable s :=
  W.confined_iff

/-- A machine with six cores, all of whose interrupts are valid. -/
def tc4dxIr : VirPlat := ⟨0xF4432000, by decide, 6, fun _ => true⟩

/-- A VM on core 1 with interrupt 40. -/
def srcVm : VirVm := ⟨fun id => id == 40, 1, fun _ => 1⟩

/-- A write to the register of interrupt 40 of what data register 4 holds. -/
def srcWrite (off width : Nat) (hoff : off < 4) (hwidth : width = 2 ∨ width = 4)
    (halign : (0xF44320A0 + off) % width = 0) : VirSrcWrite tc4dxIr srcVm where
  addr := 0xF44320A0 + off
  width := width
  reg := 20
  vcpu := 0
  lower := Nat.le_add_right_of_le (by decide)
  upper := Nat.lt_of_lt_of_le (Nat.add_lt_add_left hoff _) (by decide)
  width_cases := hwidth
  aligned := halign
  vcpu_lt := by decide
  assigned := by
    have hid : (0xF44320A0 + off - 0xF4432000) / 4 = 40 := by omega
    exact (congrArg srcVm.hasInterrupt hid).trans rfl

/-- The registers that hold `orig`, and a vCPU whose registers hold `val`. -/
def srcHolds (orig val : BitVec 32) : VirState := ⟨fun _ => orig, fun _ => val⟩

/-- **Three writes that are not confined**: a store to the lower half clears SRE in
the upper one, a store to the upper half moves the interrupt to core 0, and a word
names the core after the last one. -/
theorem vir_src_writes_escape :
    ¬ (srcWrite 0 2 (by decide) (by decide) (by decide)).Confined
        (srcHolds 0x0080F000#32 0x1005#32) ∧
      ¬ (srcWrite 2 2 (by decide) (by decide) (by decide)).Confined
        (srcHolds 0x00801005#32 0x1080#32) ∧
      ¬ (srcWrite 0 4 (by decide) (by decide) (by decide)).Confined
        (srcHolds 0x0080F005#32 0x00806005#32) := by
  refine ⟨fun h => ?_, fun h => ?_, fun h => ?_⟩
  · exact absurd (h.written (by decide +kernel) 40 23 (by decide)) (by decide +kernel)
  · rcases h.target with hkept | ⟨i, _, hcore⟩
    · exact absurd hkept (by decide +kernel)
    · have hzero : 1 = 0 := hcore
      exact absurd hzero (by decide)
  · rcases h.target with hkept | ⟨i, _, hcore⟩
    · exact absurd hkept (by decide +kernel)
    · have hsix : 1 = 6 := hcore
      exact absurd hsix (by decide)

end Bao

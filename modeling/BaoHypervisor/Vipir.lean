import BaoHypervisor.Intc2
import BaoHypervisor.MaskBits
import Mathlib.Algebra.GroupWithZero.Nat

/-!
# Virtual inter-processor interrupts on RH850

`vipir_emul_handler` of `arch/rh850/vipir.c`.  The offset of an access has the
channel in its bits 7 to 5 and the core in its bits 11 to 8; the value of a
store and the bit of a bit operation name virtual cores, which the handler
translates.
-/

namespace Bao

theorem vipir_regs : NeZero 32 := ⟨by decide⟩

attribute [local instance] vipir_regs

/-- The registers of `struct ipir_chann`. -/
inductive IpirReg
  | en
  | flg
  | fclr
  | req
  | rclr
deriving DecidableEq

/-- `IPIR_NUM_CHANNELS`, and `IPI_HYP_IRQ_ID`, the hypervisor's channel. -/
def ipirNumChannels : Nat := 4
def ipiHypIrqId : Nat := 3

/-- The platform and the VM: `PLAT_CPU_NUM`, the vCPUs and the mask of their
cores.  `shiftOut` is the low byte of `1UL << 255`, which C leaves undefined. -/
structure VipirVm where
  platCpuNum : Nat
  cpuNum : Nat
  physId : Nat → Nat
  cpus : BitVec 32
  shiftOut : BitVec 8
  platCpuNum_le : platCpuNum ≤ 8
  physId_lt : ∀ i, i < cpuNum → physId i < platCpuNum
  cpus_iff : ∀ c, cpus.getLsbD c = true ↔ ∃ i, i < cpuNum ∧ physId i = c

/-- An access of the window, with its offset from the window's start. -/
structure VipirAccess where
  offset : Nat
  width : Nat
  write : Bool
  reg : Fin 32
  bwop : EmulArchBwop
  bit : Nat

/-- The channels' registers, and of the accessing vCPU the general registers and
the guest's `PSW.Z`. -/
structure VipirState where
  ipir : Nat → Nat → IpirReg → BitVec 8
  r : Fin 32 → BitVec 32
  pswZ : Bool

/-- What the handler returns, or `none` if it ends in `ERROR`, the index into
`ipir_lock` and the channels that it uses, and the state it leaves. -/
structure VipirOutcome where
  returned : Option Bool
  index : Option (Nat × Nat)
  state : VipirState

namespace VipirState

/-- `vcpu_readreg`. -/
def readreg (s : VipirState) (reg : Fin 32) : BitVec 32 := if reg = 0 then 0#32 else s.r reg

/-- `vcpu_writereg`. -/
def writereg (s : VipirState) (reg : Fin 32) (val : BitVec 32) : VipirState :=
  { s with r := fun k => if reg ≠ 0 ∧ k = reg then val else s.r k }

/-- A channel's register written. -/
def put (s : VipirState) (pe chan : Nat) (reg : IpirReg) (val : BitVec 8) : VipirState :=
  { s with
    ipir := fun pe' chan' reg' =>
      if pe' = pe ∧ chan' = chan ∧ reg' = reg then val else s.ipir pe' chan' reg' }

end VipirState

namespace VipirVm

variable (vm : VipirVm)

/-- `vm_translate_to_pcpuid`. -/
def translateToPcpuid (vcpuid : Nat) : Option Nat :=
  if vcpuid < vm.cpuNum then some (vm.physId vcpuid) else none

/-- `vm_translate_to_vcpuid`. -/
def translateToVcpuid (pcpuid : Nat) : Option Nat :=
  if vm.cpus.getLsbD pcpuid then some ((List.range pcpuid).countP fun c => vm.cpus.getLsbD c)
  else none

/-- A core runs a vCPU of the VM. -/
def Owns (c : Nat) : Prop := ∃ i, i < vm.cpuNum ∧ vm.physId i = c

end VipirVm

/-- `emul_arch_bwop_emul_acc` with the mask of its bit. -/
def emulArchBwopMask (bwop : EmulArchBwop) (bitmask curVal : BitVec 8) :
    Option (BitVec 8 × Bool) :=
  let z := curVal &&& bitmask == 0#8
  match bwop with
  | .set1 => some (curVal ||| bitmask, z)
  | .not1 => some (curVal ^^^ bitmask, z)
  | .clr1 => some (curVal &&& ~~~bitmask, z)
  | _ => none

namespace VipirAccess

variable (acc : VipirAccess)

/-- `IPIR_GET_CHANN`. -/
def chanIdx : Nat := (acc.offset &&& 0xe0) >>> 5

/-- `IPIR_IS_SELF`. -/
def IsSelf : Prop := (acc.offset &&& 0xf00) >>> 11 = 0

instance : Decidable acc.IsSelf := inferInstanceAs (Decidable (_ = _))

/-- `IPIR_GET_NON_SELF_PE`. -/
def nonSelfPe : Nat := ((acc.offset &&& 0xf00) >>> 8 + 2 ^ 32 - 8) % 2 ^ 32

/-- The switch over the register's offset. -/
def tgtReg : Option IpirReg :=
  match acc.offset &&& 0x1f with
  | 0x00 => some .en
  | 0x04 => some .flg
  | 0x08 => some .fclr
  | 0x10 => some .req
  | 0x14 => some .rclr
  | _ => none

end VipirAccess

/-- `pe_idx` for the core `own` of the vCPU; `INVALID_CPUID` is 2^32 - 1. -/
def VipirVm.peIdx (vm : VipirVm) (own : Nat) (acc : VipirAccess) : Nat :=
  if acc.IsSelf then own else (vm.translateToPcpuid acc.nonSelfPe).getD (2 ^ 32 - 1)

/-- The mask of a bit operation: `acc->arch.bit` is set to the low byte of the
translated bit. -/
def VipirVm.bitmask (vm : VipirVm) (bit : Nat) : BitVec 8 :=
  let bit := (vm.translateToPcpuid bit).getD (2 ^ 32 - 1) % 256
  if bit < 32 then 1#8 <<< bit else vm.shiftOut

/-- The byte that a store leaves in a register. -/
def VipirVm.storedByte (vm : VipirVm) (val : BitVec 32) (cur : BitVec 8) : BitVec 8 :=
  let val := ((val.setWidth 8).setWidth 32 : BitVec 32)
  let val := (MaskBits.route vm.translateToPcpuid vm.platCpuNum val).setWidth 8
  (cur &&& ~~~(vm.cpus.setWidth 8)) ||| (val &&& vm.cpus.setWidth 8)

/-- `vipir_emul_handler` on the core `own`. -/
def vipirEmulHandler (vm : VipirVm) (own : Nat) (acc : VipirAccess) (s : VipirState) :
    VipirOutcome :=
  if acc.width ≠ 1 then ⟨some false, none, s⟩
  else
    let pe := vm.peIdx own acc
    let chan := acc.chanIdx
    match acc.tgtReg with
    | none => ⟨some true, some (pe, chan), s⟩
    | some reg =>
        if chan = ipiHypIrqId then ⟨some true, some (pe, chan), s⟩
        else if acc.bwop ≠ .no then
          match emulArchBwopMask acc.bwop (vm.bitmask acc.bit) (s.ipir pe chan reg) with
          | some (val, z) =>
              ⟨some true, some (pe, chan), { s.put pe chan reg val with pswZ := z }⟩
          | none => ⟨none, some (pe, chan), s⟩
        else if acc.write then
          ⟨some true, some (pe, chan),
            s.put pe chan reg (vm.storedByte (s.readreg acc.reg) (s.ipir pe chan reg))⟩
        else
          ⟨some true, some (pe, chan),
            s.writereg acc.reg (((MaskBits.route vm.translateToVcpuid vm.platCpuNum
              ((s.ipir pe chan reg).setWidth 32)).setWidth 8).setWidth 32)⟩

/-- **A confined access**: its indices are in range, the bits that it changes are
those of the VM's cores in the registers of the VM's cores, and virtual bits
without a vCPU do nothing. -/
structure VipirConfined (vm : VipirVm) (own : Nat) (acc : VipirAccess) : Prop where
  index : ∀ s i, (vipirEmulHandler vm own acc s).index = some i →
    i.1 < vm.platCpuNum ∧ i.2 < ipirNumChannels
  owned : ∀ s pe chan reg b, ((vipirEmulHandler vm own acc s).state.ipir pe chan reg).getLsbD b ≠
    (s.ipir pe chan reg).getLsbD b → vm.Owns pe ∧ vm.Owns b
  ignored : ∀ s s', s.ipir = s'.ipir →
    (∀ b, b < vm.cpuNum → (s.readreg acc.reg).getLsbD b = (s'.readreg acc.reg).getLsbD b) →
      (vipirEmulHandler vm own acc s).state.ipir = (vipirEmulHandler vm own acc s').state.ipir
  noBit : ∀ s, acc.bwop ≠ .no → vm.cpuNum ≤ acc.bit →
    (vipirEmulHandler vm own acc s).state.ipir = s.ipir

/-- The access is a bit operation other than a test on a guest's register. -/
def VipirAccess.Operates (acc : VipirAccess) : Prop :=
  acc.tgtReg ≠ none ∧ acc.offset / 0x20 % 8 ≠ ipiHypIrqId ∧
    (acc.bwop = .set1 ∨ acc.bwop = .not1 ∨ acc.bwop = .clr1)

/-- **The condition**: the access is not of one byte; or it is to the vCPU's own
registers or those of a vCPU, to one of the four channels, and a bit operation
has the bit of a vCPU, unless the undefined shift gives zero. -/
def VipirAccess.Valid (vm : VipirVm) (acc : VipirAccess) : Prop :=
  acc.width ≠ 1 ∨
    (acc.offset / 0x800 % 2 = 0 ∨ acc.offset / 0x100 % 8 < vm.cpuNum) ∧
      acc.offset / 0x80 % 2 = 0 ∧ (acc.Operates → acc.bit < vm.cpuNum ∨ vm.shiftOut = 0#8)

variable {vm : VipirVm} {own : Nat} {acc : VipirAccess}

/-! ## Indices -/

theorem VipirAccess.chanIdx_eq (acc : VipirAccess) : acc.chanIdx = acc.offset / 0x20 % 8 := by
  have hmask := Nat.and_two_pow_sub_one_eq_mod (acc.offset >>> 5) 3
  unfold VipirAccess.chanIdx
  rw [Nat.shiftRight_and_distrib]
  rw [Nat.shiftRight_eq_div_pow] at hmask ⊢
  exact hmask

theorem VipirAccess.isSelf_iff (acc : VipirAccess) : acc.IsSelf ↔ acc.offset / 0x800 % 2 = 0 := by
  have hmask := Nat.and_two_pow_sub_one_eq_mod (acc.offset >>> 11) 1
  unfold VipirAccess.IsSelf
  rw [Nat.shiftRight_and_distrib]
  rw [Nat.shiftRight_eq_div_pow] at hmask ⊢
  exact iff_of_eq (congrArg (· = 0) hmask)

theorem VipirAccess.nonSelfPe_eq (hother : ¬ acc.IsSelf) :
    acc.nonSelfPe = acc.offset / 0x100 % 8 := by
  have hmask : (acc.offset &&& 0xf00) >>> 8 = acc.offset / 0x100 % 16 := by
    have hand := Nat.and_two_pow_sub_one_eq_mod (acc.offset >>> 8) 4
    rw [Nat.shiftRight_and_distrib]
    rw [Nat.shiftRight_eq_div_pow] at hand ⊢
    exact hand
  rw [acc.isSelf_iff] at hother
  unfold VipirAccess.nonSelfPe
  rw [hmask]
  omega

theorem peIdx_lt (hown : vm.Owns own) : vm.peIdx own acc < vm.platCpuNum ↔
    acc.offset / 0x800 % 2 = 0 ∨ acc.offset / 0x100 % 8 < vm.cpuNum := by
  have hplat := vm.platCpuNum_le
  unfold VipirVm.peIdx VipirVm.translateToPcpuid
  rw [← acc.isSelf_iff]
  by_cases hself : acc.IsSelf
  · obtain ⟨i, hi, hphys⟩ := hown
    have hlt := vm.physId_lt i hi
    rw [if_pos hself]
    exact iff_of_true (hphys ▸ hlt) (Or.inl hself)
  · rw [if_neg hself, VipirAccess.nonSelfPe_eq hself]
    by_cases hin : acc.offset / 0x100 % 8 < vm.cpuNum
    · rw [if_pos hin]
      exact iff_of_true (vm.physId_lt _ hin) (Or.inr hin)
    · rw [if_neg hin]
      refine iff_of_false ?_ fun h => h.elim hself hin
      change ¬ 2 ^ 32 - 1 < vm.platCpuNum
      omega

theorem peIdx_owned (hown : vm.Owns own)
    (hpe : acc.offset / 0x800 % 2 = 0 ∨ acc.offset / 0x100 % 8 < vm.cpuNum) :
    vm.Owns (vm.peIdx own acc) := by
  unfold VipirVm.peIdx VipirVm.translateToPcpuid
  by_cases hself : acc.IsSelf
  · rw [if_pos hself]
    exact hown
  · rw [← acc.isSelf_iff] at hpe
    have hin := hpe.resolve_left hself
    rw [if_neg hself, VipirAccess.nonSelfPe_eq hself, if_pos hin]
    exact ⟨_, hin, rfl⟩

theorem vipirEmulHandler_index (s : VipirState) :
    (vipirEmulHandler vm own acc s).index =
      if acc.width ≠ 1 then none else some (vm.peIdx own acc, acc.chanIdx) := by
  unfold vipirEmulHandler
  by_cases hwidth : acc.width ≠ 1
  · rw [if_pos hwidth, if_pos hwidth]
  · rw [if_neg hwidth, if_neg hwidth]
    dsimp only
    cases acc.tgtReg with
    | none => rfl
    | some reg =>
        dsimp only
        split
        · rfl
        · split
          · cases emulArchBwopMask acc.bwop (vm.bitmask acc.bit)
              (s.ipir (vm.peIdx own acc) acc.chanIdx reg) <;> rfl
          · split <;> rfl

/-! ## Bytes -/

/-- What the handler leaves in the register that it accesses. -/
def VipirVm.leftByte (vm : VipirVm) (acc : VipirAccess) (val : BitVec 32) (cur : BitVec 8) :
    BitVec 8 :=
  if acc.bwop ≠ .no then
    ((emulArchBwopMask acc.bwop (vm.bitmask acc.bit) cur).map Prod.fst).getD cur
  else if acc.write then vm.storedByte val cur
  else cur

/-- The access reaches a guest's register. -/
def VipirVm.Reaches (vm : VipirVm) (own : Nat) (acc : VipirAccess) (pe chan : Nat)
    (reg : IpirReg) : Prop :=
  acc.width = 1 ∧ pe = vm.peIdx own acc ∧ chan = acc.chanIdx ∧ acc.tgtReg = some reg ∧
    chan ≠ ipiHypIrqId

theorem vipirEmulHandler_reached (s : VipirState) {pe chan : Nat} {reg : IpirReg}
    (h : vm.Reaches own acc pe chan reg) :
    (vipirEmulHandler vm own acc s).state.ipir pe chan reg =
      vm.leftByte acc (s.readreg acc.reg) (s.ipir pe chan reg) := by
  obtain ⟨hwidth, hpe, hchan, htgt, hguest⟩ := h
  have hput : ∀ val, (s.put pe chan reg val).ipir pe chan reg = val := fun val =>
    if_pos ⟨rfl, rfl, rfl⟩
  unfold vipirEmulHandler VipirVm.leftByte
  rw [if_neg (Decidable.not_not.mpr hwidth), htgt, ← hpe, ← hchan]
  dsimp only
  rw [if_neg hguest]
  by_cases hbwop : acc.bwop ≠ .no
  · rw [if_pos hbwop, if_pos hbwop]
    cases emulArchBwopMask acc.bwop (vm.bitmask acc.bit) (s.ipir pe chan reg) with
    | none => rfl
    | some result => exact hput result.1
  · rw [if_neg hbwop, if_neg hbwop]
    by_cases hwrite : acc.write
    · rw [if_pos hwrite, if_pos hwrite]
      exact hput _
    · rw [if_neg hwrite, if_neg hwrite]
      rfl

theorem vipirEmulHandler_other (s : VipirState) {pe chan : Nat} {reg : IpirReg}
    (h : ¬ vm.Reaches own acc pe chan reg) :
    (vipirEmulHandler vm own acc s).state.ipir pe chan reg = s.ipir pe chan reg := by
  unfold vipirEmulHandler
  by_cases hwidth : acc.width ≠ 1
  · rw [if_pos hwidth]
  rw [if_neg hwidth]
  dsimp only
  cases htgt : acc.tgtReg with
  | none => rfl
  | some reg' =>
      dsimp only
      by_cases hguest : acc.chanIdx = ipiHypIrqId
      · rw [if_pos hguest]
      rw [if_neg hguest]
      have hput : ∀ val, (s.put (vm.peIdx own acc) acc.chanIdx reg' val).ipir pe chan reg =
          s.ipir pe chan reg := by
        intro val
        refine if_neg fun hsame => h ⟨Decidable.not_not.mp hwidth, hsame.1, hsame.2.1, ?_, ?_⟩
        · rw [htgt, hsame.2.2]
        · rw [hsame.2.1]
          exact hguest
      split
      · cases emulArchBwopMask acc.bwop (vm.bitmask acc.bit)
            (s.ipir (vm.peIdx own acc) acc.chanIdx reg') with
        | none => rfl
        | some result => exact hput result.1
      · split
        · exact hput _
        · rfl

theorem storedByte_owned {val : BitVec 32} {cur : BitVec 8} {b : Nat}
    (h : (vm.storedByte val cur).getLsbD b ≠ cur.getLsbD b) : vm.Owns b := by
  apply (vm.cpus_iff b).mp
  apply Classical.byContradiction
  intro hclear
  apply h
  unfold VipirVm.storedByte
  have hmask : (vm.cpus.setWidth 8).getLsbD b = false := by
    rw [BitVec.getLsbD_setWidth, Bool.eq_false_iff.mpr hclear, Bool.and_false]
  rw [BitVec.getLsbD_or, BitVec.getLsbD_and, BitVec.getLsbD_and, BitVec.getLsbD_not, hmask,
    Bool.and_false, Bool.or_false, Bool.not_false, Bool.and_true]
  by_cases hb : b < 8
  · rw [decide_eq_true hb, Bool.and_true]
  · rw [BitVec.getLsbD_of_ge cur b (Nat.le_of_not_lt hb), Bool.false_and]

theorem storedByte_congr {val val' : BitVec 32}
    (h : ∀ b, b < vm.cpuNum → val.getLsbD b = val'.getLsbD b) (cur : BitVec 8) :
    vm.storedByte val cur = vm.storedByte val' cur := by
  have hroute : MaskBits.route vm.translateToPcpuid vm.platCpuNum
        ((val.setWidth 8).setWidth 32 : BitVec 32) =
      MaskBits.route vm.translateToPcpuid vm.platCpuNum
        ((val'.setWidth 8).setWidth 32 : BitVec 32) := by
    apply MaskBits.route_congr
    intro i p hp
    have hi : i < vm.cpuNum := by
      unfold VipirVm.translateToPcpuid at hp
      split at hp
      · assumption
      · cases hp
    rw [BitVec.getLsbD_setWidth, BitVec.getLsbD_setWidth, BitVec.getLsbD_setWidth,
      BitVec.getLsbD_setWidth, h i hi]
  unfold VipirVm.storedByte
  dsimp only
  rw [hroute]

theorem bitmask_owned {bit : Nat} (hbit : bit < vm.cpuNum) :
    vm.bitmask bit = 1#8 <<< vm.physId bit := by
  have hphys := vm.physId_lt bit hbit
  have hplat := vm.platCpuNum_le
  have hsome : vm.translateToPcpuid bit = some (vm.physId bit) := if_pos hbit
  unfold VipirVm.bitmask
  rw [hsome, Option.getD_some, Nat.mod_eq_of_lt (by omega)]
  exact if_pos (by omega)

theorem bitmask_none {bit : Nat} (hbit : vm.cpuNum ≤ bit) : vm.bitmask bit = vm.shiftOut := by
  have hnone : vm.translateToPcpuid bit = none := if_neg (Nat.not_lt.mpr hbit)
  unfold VipirVm.bitmask
  rw [hnone]
  rfl

theorem bwopMask_other (bwop : EmulArchBwop) {bitmask cur : BitVec 8} {b : Nat}
    (hb : bitmask.getLsbD b = false) :
    (((emulArchBwopMask bwop bitmask cur).map Prod.fst).getD cur).getLsbD b = cur.getLsbD b := by
  cases bwop with
  | no => rfl
  | tst1 => rfl
  | set1 =>
      change (cur ||| bitmask).getLsbD b = _
      rw [BitVec.getLsbD_or, hb, Bool.or_false]
  | not1 =>
      change (cur ^^^ bitmask).getLsbD b = _
      rw [BitVec.getLsbD_xor, hb, Bool.xor_false]
  | clr1 =>
      change (cur &&& ~~~bitmask).getLsbD b = _
      rw [BitVec.getLsbD_and, BitVec.getLsbD_not, hb, Bool.not_false, Bool.and_true]
      by_cases hlt : b < 8
      · rw [decide_eq_true hlt, Bool.and_true]
      · rw [BitVec.getLsbD_of_ge cur b (Nat.le_of_not_lt hlt), Bool.false_and]

theorem bwopMask_zero (bwop : EmulArchBwop) (cur : BitVec 8) :
    ((emulArchBwopMask bwop 0#8 cur).map Prod.fst).getD cur = cur :=
  BitVec.eq_of_getLsbD_eq fun _ _ => bwopMask_other bwop BitVec.getLsbD_zero

theorem bwopMask_unowned {bwop : EmulArchBwop} {bit : Nat} (hbit : vm.cpuNum ≤ bit)
    (hvoid : bwop = .set1 ∨ bwop = .not1 ∨ bwop = .clr1 → bit < vm.cpuNum ∨ vm.shiftOut = 0#8)
    (cur : BitVec 8) :
    ((emulArchBwopMask bwop (vm.bitmask bit) cur).map Prod.fst).getD cur = cur := by
  have hout : ¬ bit < vm.cpuNum := Nat.not_lt.mpr hbit
  rw [bitmask_none hbit]
  cases bwop with
  | no => rfl
  | tst1 => rfl
  | set1 => rw [(hvoid (Or.inl rfl)).resolve_left hout, bwopMask_zero]
  | not1 => rw [(hvoid (Or.inr (Or.inl rfl))).resolve_left hout, bwopMask_zero]
  | clr1 => rw [(hvoid (Or.inr (Or.inr rfl))).resolve_left hout, bwopMask_zero]

/-! ## Confinement -/

theorem leftByte_owned {val : BitVec 32} {cur : BitVec 8} {b : Nat}
    (hbit : acc.bwop = .set1 ∨ acc.bwop = .not1 ∨ acc.bwop = .clr1 →
      acc.bit < vm.cpuNum ∨ vm.shiftOut = 0#8)
    (h : (vm.leftByte acc val cur).getLsbD b ≠ cur.getLsbD b) : vm.Owns b := by
  unfold VipirVm.leftByte at h
  split at h
  · by_cases hin : acc.bit < vm.cpuNum
    · rw [bitmask_owned hin] at h
      refine ⟨acc.bit, hin, ?_⟩
      apply Classical.byContradiction
      intro hne
      refine h (bwopMask_other _ ?_)
      by_cases hb : b < 8
      · rw [WordRegs.getLsbD_mask hb]
        exact decide_eq_false fun heq => hne heq.symm
      · exact BitVec.getLsbD_of_ge _ _ (Nat.le_of_not_lt hb)
    · rw [bwopMask_unowned (Nat.le_of_not_lt hin) hbit] at h
      exact absurd rfl h
  · split at h
    · exact storedByte_owned h
    · exact absurd rfl h

theorem VipirAccess.Valid.confined (h : acc.Valid vm) (hown : vm.Owns own) :
    VipirConfined vm own acc := by
  have hreached : ∀ {pe chan reg}, vm.Reaches own acc pe chan reg →
      (acc.offset / 0x800 % 2 = 0 ∨ acc.offset / 0x100 % 8 < vm.cpuNum) ∧
        (acc.bwop = .set1 ∨ acc.bwop = .not1 ∨ acc.bwop = .clr1 →
          acc.bit < vm.cpuNum ∨ vm.shiftOut = 0#8) := by
    intro pe chan reg hreach
    obtain ⟨hwidth, hpe, hchan, htgt, hguest⟩ := hreach
    obtain ⟨hcore, -, hbit⟩ := h.resolve_left fun hne => hne hwidth
    refine ⟨hcore, fun hop => hbit ⟨?_, ?_, hop⟩⟩
    · rw [htgt]
      exact Option.some_ne_none _
    · rw [← acc.chanIdx_eq, ← hchan]
      exact hguest
  constructor
  · intro s i hi
    rw [vipirEmulHandler_index] at hi
    split at hi
    · cases hi
    · rename_i hwidth
      cases hi
      obtain ⟨hcore, hchan, -⟩ := h.resolve_left hwidth
      refine ⟨(peIdx_lt hown).mpr hcore, ?_⟩
      change acc.chanIdx < 4
      rw [acc.chanIdx_eq]
      omega
  · intro s pe chan reg b hdiff
    by_cases hreach : vm.Reaches own acc pe chan reg
    · obtain ⟨hcore, hbit⟩ := hreached hreach
      rw [vipirEmulHandler_reached s hreach] at hdiff
      exact ⟨hreach.2.1 ▸ peIdx_owned hown hcore, leftByte_owned hbit hdiff⟩
    · rw [vipirEmulHandler_other s hreach] at hdiff
      exact absurd rfl hdiff
  · intro s s' hsame hagree
    funext pe chan reg
    by_cases hreach : vm.Reaches own acc pe chan reg
    · rw [vipirEmulHandler_reached s hreach, vipirEmulHandler_reached s' hreach, hsame]
      unfold VipirVm.leftByte
      rw [storedByte_congr hagree]
    · rw [vipirEmulHandler_other s hreach, vipirEmulHandler_other s' hreach, hsame]
  · intro s hbwop hbit
    funext pe chan reg
    by_cases hreach : vm.Reaches own acc pe chan reg
    · rw [vipirEmulHandler_reached s hreach]
      unfold VipirVm.leftByte
      rw [if_pos hbwop]
      exact bwopMask_unowned hbit (hreached hreach).2 _
    · rw [vipirEmulHandler_other s hreach]

/-- A bit without a vCPU that does nothing, whatever the register holds, has an
empty mask. -/
theorem bwopMask_idle {bwop : EmulArchBwop} {bitmask : BitVec 8}
    (hop : bwop = .set1 ∨ bwop = .not1 ∨ bwop = .clr1)
    (h : ∀ cur, ((emulArchBwopMask bwop bitmask cur).map Prod.fst).getD cur = cur) :
    bitmask = 0#8 := by
  rcases hop with hop | hop | hop
  · have hcur := h 0#8
    rw [hop] at hcur
    change 0#8 ||| bitmask = 0#8 at hcur
    rw [BitVec.zero_or] at hcur
    exact hcur
  · have hcur := h 0#8
    rw [hop] at hcur
    change 0#8 ^^^ bitmask = 0#8 at hcur
    rw [BitVec.zero_xor] at hcur
    exact hcur
  · have hcur := h (BitVec.allOnes 8)
    rw [hop] at hcur
    change BitVec.allOnes 8 &&& ~~~bitmask = BitVec.allOnes 8 at hcur
    rw [BitVec.allOnes_and] at hcur
    have hnot := congrArg (~~~ ·) hcur
    simpa using hnot

/-- **Confinement of inter-processor interrupts.**  On a core of the VM, an
access is confined exactly if it is valid. -/
theorem vipir_confined_iff (vm : VipirVm) (i : Nat) (hi : i < vm.cpuNum) (acc : VipirAccess) :
    VipirConfined vm (vm.physId i) acc ↔ acc.Valid vm := by
  have hown : vm.Owns (vm.physId i) := ⟨i, hi, rfl⟩
  refine ⟨fun h => ?_, fun h => h.confined hown⟩
  by_cases hwidth : acc.width ≠ 1
  · exact Or.inl hwidth
  · have hindex := h.index ⟨fun _ _ _ => 0#8, fun _ => 0#32, false⟩
      (vm.peIdx (vm.physId i) acc, acc.chanIdx) (by rw [vipirEmulHandler_index, if_neg hwidth])
    have hcore := (peIdx_lt hown).mp hindex.1
    have hchan : acc.offset / 0x20 % 8 < 4 := acc.chanIdx_eq ▸ hindex.2
    refine Or.inr ⟨hcore, by omega, fun hoperates => ?_⟩
    obtain ⟨htgt, hguest, hop⟩ := hoperates
    obtain ⟨reg, hreg⟩ := Option.ne_none_iff_exists'.mp htgt
    by_cases hbit : acc.bit < vm.cpuNum
    · exact Or.inl hbit
    · have hle : vm.cpuNum ≤ acc.bit := Nat.le_of_not_lt hbit
      have hbwop : acc.bwop ≠ .no := by
        intro hno
        rw [hno] at hop
        rcases hop with hop | hop | hop <;> cases hop
      have hreach : vm.Reaches (vm.physId i) acc (vm.peIdx (vm.physId i) acc) acc.chanIdx reg :=
        ⟨Decidable.not_not.mp hwidth, rfl, rfl, hreg, acc.chanIdx_eq ▸ hguest⟩
      refine Or.inr (bwopMask_idle hop fun cur => ?_)
      have hidle := h.noBit ⟨fun _ _ _ => cur, fun _ => 0#32, false⟩ hbwop hle
      have hbyte := congrFun (congrFun (congrFun hidle (vm.peIdx (vm.physId i) acc))
        acc.chanIdx) reg
      rw [vipirEmulHandler_reached _ hreach] at hbyte
      unfold VipirVm.leftByte at hbyte
      rw [if_pos hbwop, bitmask_none hle] at hbyte
      exact hbyte

/-- A VM with one vCPU on core 0 of four. -/
def oneCoreVm : VipirVm where
  platCpuNum := 4
  cpuNum := 1
  physId := id
  cpus := 1#32
  shiftOut := 0#8
  platCpuNum_le := by decide
  physId_lt := fun i hi => Nat.lt_of_lt_of_le hi (by decide)
  cpus_iff := by
    intro c
    rw [BitVec.getLsbD_one]
    constructor
    · intro h
      have hzero : c = 0 := by simpa using h
      exact ⟨0, by decide, hzero.symm⟩
    · intro h
      obtain ⟨i, hi, hc⟩ := h
      have hzero : c = 0 := by
        change i = c at hc
        omega
      simp [hzero]

/-- A load from the registers of a core without a vCPU of the VM. -/
theorem vipir_not_confined :
    ¬ VipirConfined oneCoreVm 0 ⟨0x900, 1, false, 1, .no, 0⟩ := by
  intro h
  have hindex := h.index ⟨fun _ _ _ => 0#8, fun _ => 0#32, false⟩ (2 ^ 32 - 1, 0) (by decide)
  exact absurd hindex.1 (by decide)

/-- The vCPU's own enable register. -/
theorem vipir_confined_iff_own :
    0 < oneCoreVm.cpuNum ∧ (VipirConfined oneCoreVm (oneCoreVm.physId 0) ⟨0, 1, true, 1, .no, 0⟩ ↔
      VipirAccess.Valid oneCoreVm ⟨0, 1, true, 1, .no, 0⟩) :=
  ⟨by decide, vipir_confined_iff oneCoreVm 0 (by decide) _⟩

end Bao

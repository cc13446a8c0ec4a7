import BaoHypervisor.Intc2Guest
import BaoHypervisor.PackedFields

/-!
# Trapped accesses of RH850

`data_abort` of `arch/rh850/aborts.c` for an access to the INTC2: the load, store
or bit instruction is decoded from the exception information `MEI` and from the
two half-words at the guest's program counter, and the handler performs it.  The
instructions themselves are given here as a table: which `MEI` and which
half-words describe them and what they do to what the guest sees.
-/

namespace Bao

open BitMemory

theorem rh850Traps_regs : NeZero 32 := ⟨by decide⟩

attribute [local instance] rh850Traps_regs

theorem rh850Traps_bits : NeZero 8 := ⟨by decide⟩

attribute [local instance] rh850Traps_bits

theorem rh850Traps_sizes : NeZero 4 := ⟨by decide⟩

attribute [local instance] rh850Traps_sizes

/-! ## The code -/

/-- `MEI_GET_LEN` and the other fields of `MEI`. -/
def meiGetLen (mei : BitVec 32) : BitVec 32 := (mei &&& (0xF#32 <<< 28)) >>> 28
def meiGetReg (mei : BitVec 32) : BitVec 32 := (mei &&& (0x1F#32 <<< 16)) >>> 16
def meiGetDs (mei : BitVec 32) : BitVec 32 := (mei &&& (0x7#32 <<< 9)) >>> 9
def meiGetU (mei : BitVec 32) : BitVec 32 := (mei &&& (0x1#32 <<< 8)) >>> 8
def meiGetRw (mei : BitVec 32) : BitVec 32 := mei &&& (0x1#32 <<< 0)

/-- The fields of an instruction word: `OPCODE`, `SUBOPCODE`, `SUB8`, `SUB9`,
`BITIDX` and `REGIDX`. -/
def instOpcode (inst : BitVec 32) : BitVec 32 := (inst &&& (0x3F#32 <<< 5)) >>> 5
def instSubopcode (inst : BitVec 32) : BitVec 32 := (inst &&& (0x1FFF#32 <<< 19)) >>> 19
def instSub8 (inst : BitVec 32) : BitVec 32 := (inst &&& (0x3#32 <<< 14)) >>> 14
def instSub9 (inst : BitVec 32) : BitVec 32 := (inst &&& (0x3#32 <<< 17)) >>> 17
def instBitidx (inst : BitVec 32) : BitVec 32 := (inst &&& (0x7#32 <<< 11)) >>> 11
def instRegidx (inst : BitVec 32) : BitVec 32 := (inst &&& (0x1F#32 <<< 11)) >>> 11

/-- The value of `enum emul_arch_bwop` with a number. -/
def EmulArchBwop.ofCode : Nat → EmulArchBwop
  | 0 => .no
  | 1 => .set1
  | 2 => .not1
  | 3 => .clr1
  | _ => .tst1

/-- `read_instruction` of the half-words `code`; an odd address is an error. -/
def readInstruction (code : BitVec 32 → BitVec 16) (pc : BitVec 32) : Option (BitVec 32) :=
  if pc &&& 0x1#32 ≠ 0#32 then none
  else some ((code pc).setWidth 32 ||| (code (pc + 2#32)).setWidth 32 <<< 16)

/-- The bit operation and its bit in `decode_access`. -/
def decodeBwop (inst : BitVec 32) (readreg : Fin 32 → BitVec 32) : EmulArchBwop × Fin 8 :=
  if instOpcode inst = 0x3E#32 then
    (.ofCode ((instSub8 inst).toNat + 1), Fin.ofNat 8 (instBitidx inst).toNat)
  else if instOpcode inst = 0x3F#32 ∧ instSubopcode inst = 0x1C#32 then
    (.ofCode ((instSub9 inst).toNat + 1),
      Fin.ofNat 8 (readreg (Fin.ofNat 32 (instRegidx inst).toNat) &&& 0x7#32).toNat)
  else (.no, 0)

/-- An access to the window that traps: `mei` and `mea` are the exception's
registers. -/
structure Rh850Fault (P : Intc2Plat) where
  mei : BitVec 32
  mea : Nat
  lower : P.intc2Hw ≤ mea
  upper : mea < P.intc2Hw + intc2Size

variable {P : Intc2Plat}

/-- `decode_access`; `sign_ext` is the complement of a number with one bit. -/
def decodeAccess (F : Rh850Fault P) (inst : BitVec 32) (readreg : Fin 32 → BitVec 32) :
    Intc2Access P where
  addr := F.mea
  lower := F.lower
  upper := F.upper
  ds := Fin.ofNat 8 (meiGetDs F.mei).toNat
  write := meiGetRw F.mei != 0#32
  signExt := ~~~meiGetU F.mei != 0#32
  reg := Fin.ofNat 32 (meiGetReg F.mei).toNat
  bwop := (decodeBwop inst readreg).1
  bit := (decodeBwop inst readreg).2

/-- `data_abort`: the program counter and the state after it, or `none` if it
ends in `ERROR`. -/
def dataAbort (vm : Intc2Vm) (F : Rh850Fault P) (code : BitVec 32 → BitVec 16) (pc : BitVec 32)
    (s : Intc2State) : Option (BitVec 32 × Intc2State) :=
  match readInstruction code pc with
  | none => none
  | some inst =>
      match vintc2EmulHandler vm (decodeAccess F inst s.readreg) s with
      | some (true, s') => some (pc + meiGetLen F.mei, s')
      | _ => none

/-! ## The instructions -/

/-- The bit instructions. -/
inductive Rh850BitOp where
  | set1
  | not1
  | clr1
  | tst1
  deriving DecidableEq, Repr

/-- The sub-opcode of a bit instruction. -/
def Rh850BitOp.code : Rh850BitOp → Nat
  | .set1 => 0
  | .not1 => 1
  | .clr1 => 2
  | .tst1 => 3

/-- What a bit instruction makes of its bit. -/
def Rh850BitOp.apply : Rh850BitOp → Bool → Bool
  | .set1, _ => true
  | .not1, b => !b
  | .clr1, _ => false
  | .tst1, b => b

/-- **The instructions** that access memory through one general register, and
the bit instructions with the bit in the instruction or in a register. -/
inductive Rh850Instr where
  | load (ds : Fin 4) (unsigned : Bool) (reg : Fin 32)
  | store (ds : Fin 4) (reg : Fin 32)
  | bitImm (op : Rh850BitOp) (bit : Fin 8)
  | bitReg (op : Rh850BitOp) (reg : Fin 32)

/-- Bits 5 to 10 of the first half-word. -/
def opcodeOf (lo : BitVec 16) : Nat := lo.toNat / 2 ^ 5 % 2 ^ 6

/-- The second half-word of a bit instruction with the bit in a register, or of
`LD.HU`, which has the same opcode and bit 0 of this half-word set. -/
def IsSubopcode (hi : BitVec 16) : Prop := hi.toNat / 2 ^ 3 = 0x1C

instance {hi : BitVec 16} : Decidable (IsSubopcode hi) := inferInstanceAs (Decidable (_ = _))

/-- The half-words `lo` and `hi` and the exception information describe the
instruction. -/
def Rh850Instr.Describes (mei : BitVec 32) (lo hi : BitVec 16) : Rh850Instr → Prop
  | .load ds unsigned reg =>
      opcodeOf lo ≠ 0x3E ∧ (opcodeOf lo = 0x3F → IsSubopcode hi → hi.toNat % 2 = 1) ∧
        mei.toNat % 2 = 0 ∧ mei.toNat / 2 ^ 8 % 2 = unsigned.toNat ∧
        mei.toNat / 2 ^ 9 % 2 ^ 3 = ds ∧ mei.toNat / 2 ^ 16 % 2 ^ 5 = reg
  | .store ds reg =>
      opcodeOf lo ≠ 0x3E ∧ (opcodeOf lo = 0x3F → ¬ IsSubopcode hi) ∧
        mei.toNat % 2 = 1 ∧ mei.toNat / 2 ^ 9 % 2 ^ 3 = ds ∧ mei.toNat / 2 ^ 16 % 2 ^ 5 = reg
  | .bitImm op bit =>
      opcodeOf lo = 0x3E ∧ lo.toNat / 2 ^ 14 = op.code ∧ lo.toNat / 2 ^ 11 % 2 ^ 3 = bit ∧
        mei.toNat / 2 ^ 9 % 2 ^ 3 = 0
  | .bitReg op reg =>
      opcodeOf lo = 0x3F ∧ hi.toNat = 0xE0 + 2 * op.code ∧ lo.toNat / 2 ^ 11 = reg ∧
        mei.toNat / 2 ^ 9 % 2 ^ 3 = 0

/-- The number of bytes that an instruction accesses. -/
def Rh850Instr.bytes : Rh850Instr → Nat
  | .load ds _ _ => 2 ^ ds.val
  | .store ds _ => 2 ^ ds.val
  | .bitImm _ _ => 1
  | .bitReg _ _ => 1

/-- What is left where the instruction is refused. -/
def Rh850Instr.refused (s : Intc2State) : Rh850Instr → Intc2State
  | .load _ _ reg => s.writereg reg 0#32
  | _ => s

/-- What a store of the low `w` bytes of `val` at offset `a` does. -/
structure Rh850Store (vm : Intc2Vm) (a w : Nat) (val : BitVec 32) (s s' : Intc2State) : Prop where
  regs : s'.r = s.r
  flag : s'.pswZ = s.pswZ
  other : ∀ b, b < 8 * a ∨ 8 * a + 8 * w ≤ b → s'.intc2 b = s.intc2 b
  written : ∀ j, j < 8 * w → vm.sees (8 * a + j) = true →
    vm.guestBit s'.intc2 (8 * a + j) = val.getLsbD j

/-- What a bit instruction on bit `bit` of the byte at offset `a` does. -/
structure Rh850BitChange (vm : Intc2Vm) (a : Nat) (op : Rh850BitOp) (bit : Nat)
    (s s' : Intc2State) : Prop where
  regs : s'.r = s.r
  flag : s'.pswZ = !vm.guestBit s.intc2 (8 * a + bit)
  other : ∀ b, b ≠ 8 * a + bit → s'.intc2 b = s.intc2 b
  seen : ∀ b, vm.sees b = true → vm.guestBit s'.intc2 b =
    if b = 8 * a + bit then op.apply (vm.guestBit s.intc2 b) else vm.guestBit s.intc2 b
  test : op = .tst1 → s'.intc2 = s.intc2

/-- **What an instruction does** at offset `a` of the window, in terms of the
bits that the guest sees. -/
def Rh850Instr.Effect (vm : Intc2Vm) (a : Nat) (s s' : Intc2State) : Rh850Instr → Prop
  | .load ds unsigned reg =>
      s' = s.writereg reg (extendBits 32 (!unsigned) (8 * 2 ^ ds.val)
        fun j => vm.guestBit s.intc2 (8 * a + j))
  | .store ds reg => Rh850Store vm a (2 ^ ds.val) (s.readreg reg) s s'
  | .bitImm op bit => Rh850BitChange vm a op bit s s'
  | .bitReg op reg => Rh850BitChange vm a op ((s.readreg reg).toNat % 8) s s'

/-- **A trap**: an instruction at an even address that accesses the window. -/
structure Rh850Trap (P : Intc2Plat) extends Rh850Fault P where
  code : BitVec 32 → BitVec 16
  pc : BitVec 32
  even : pc &&& 0x1#32 = 0#32
  instr : Rh850Instr
  described : instr.Describes mei (code pc) (code (pc + 2#32))

namespace Rh850Trap

variable (T : Rh850Trap P)

/-- The offset of the access in the window. -/
def offset : Nat := T.mea - P.intc2Hw

/-- The half-words of the instruction. -/
def lo : BitVec 16 := T.code T.pc
def hi : BitVec 16 := T.code (T.pc + 2#32)

/-- The handler takes the access: it is aligned and at most a word. -/
def Emulable : Prop := T.mea % T.instr.bytes = 0 ∧ T.instr.bytes ≤ 4

instance : Decidable T.Emulable := inferInstanceAs (Decidable (_ ∧ _))

/-- What `data_abort` leaves. -/
def result (vm : Intc2Vm) (s : Intc2State) : Option (BitVec 32 × Intc2State) :=
  dataAbort vm T.toRh850Fault T.code T.pc s

/-- **The access follows the instruction set**: it is emulated with the effect of
the instruction, and the next instruction follows. -/
def FollowsIsa (vm : Intc2Vm) (s : Intc2State) : Prop :=
  ∃ s', T.result vm s = some (T.pc + meiGetLen T.mei, s') ∧ T.instr.Effect vm T.offset s s'

end Rh850Trap

/-! ## The condition -/

/-- The bit instruction with a sub-opcode. -/
def Rh850BitOp.ofSub : Nat → Rh850BitOp
  | 0 => .set1
  | 1 => .not1
  | 2 => .clr1
  | _ => .tst1

/-- The bit instruction that a load is taken for: `LD.HU` with a displacement
from `0xE0` to `0xE6`. -/
def misread (lo hi : BitVec 16) : Option Rh850BitOp :=
  if opcodeOf lo = 0x3F ∧ IsSubopcode hi then some (.ofSub (hi.toNat / 2 % 4)) else none

/-- The bit that goes with it. -/
def misreadBit (lo : BitVec 16) (s : Intc2State) : Nat :=
  (s.readreg (Fin.ofNat 32 (lo.toNat / 2 ^ 11))).toNat % 8

/-- A load that would leave what it has to: a word of EIC and a load that is
taken for a bit instruction find its value in the register already; of the others
the byte or half-word is loaded as a signed one. -/
def LoadAgrees (vm : Intc2Vm) (a w : Nat) (unsigned : Bool) (reg : Fin 32)
    (lo hi : BitVec 16) (s : Intc2State) : Prop :=
  let held := reg = 0 ∨ s.r reg = extendBits 32 (!unsigned) (8 * w)
    fun j => vm.guestBit s.intc2 (8 * a + j)
  let p := 8 * a + misreadBit lo s
  if a < 0x1000 ∧ 2 < w then held
  else match misread lo hi with
    | some op => vm.performs a →
        op ≠ .tst1 ∧ op.apply (s.intc2 p) = s.intc2 p ∧ s.pswZ = (!s.intc2 p) ∧ held
    | none => ¬ vm.peidLost s.intc2 a ∧ (reg = 0 ∨ unsigned = false ∨ w = 4 ∨
        vm.guestBit s.intc2 (8 * a + (8 * w - 1)) = false)

/-- A store that writes what it has to: a word of EIC is there already, part of
an IMR register takes the low bits of the value, and EIBD takes the number of a
vCPU. -/
def StoreAgrees (vm : Intc2Vm) (a w : Nat) (val : BitVec 32) (m : Store) : Prop :=
  if a < 0x1000 then
    2 < w → ∀ j, j < 8 * w → vm.sees (8 * a + j) = true → m (8 * a + j) = val.getLsbD j
  else if a < 0x2000 then
    ∀ j, j < 8 * w → vm.sees (8 * a + j) = true →
      vm.hasInterrupt (intc2BitInt (8 * (a - a % 4) + j)) = true ∨
        m (8 * (a - a % 4) + j) = val.getLsbD j
  else if a < 0x4000 then
    a % 4 = 0 → vm.hasInterrupt (intc2BitInt (8 * a)) = true → ∀ t, t < 3 →
      ((vm.translateToVcpuid (vm.physPeid val)).getD 0).testBit t = val.getLsbD t
  else True

/-- A bit instruction that does what it has to: it is no test, the bit is what
the guest sees, and in a PEID field the number of the vCPU changes as that of
the core does; or its register is not the VM's, and the flag is set already. -/
def BitAgrees (vm : Intc2Vm) (a : Nat) (op : Rh850BitOp) (bit : Nat) (write : Bool) (reg : Fin 32)
    (s : Intc2State) : Prop :=
  let p := 8 * a + bit
  if vm.performs a then
    op ≠ .tst1 ∧ s.intc2 p = vm.guestBit s.intc2 p ∧
      (inEibd p = true → vm.sees p = true → ∀ t, t < 3 →
        (vm.virtPeidAt (putBit s.intc2 p (op.apply (s.intc2 p))) (p - p % 32)).testBit t =
          if t = p % 32 then op.apply (s.intc2 p)
          else (vm.virtPeidAt s.intc2 (p - p % 32)).testBit t)
  else s.pswZ = true ∧ (write = true ∨ reg = 0 ∨ s.r reg = 0#32)

/-- **The condition**: the registers have a handler, and the load, the store or
the bit instruction does what it has to. -/
def Rh850Trap.Agrees (T : Rh850Trap P) (vm : Intc2Vm) (s : Intc2State) : Prop :=
  (T.offset < 0x3000 ∨ (0x4000 ≤ T.offset ∧ T.offset < 0x5000)) ∧
    match T.instr with
    | .load ds unsigned reg => LoadAgrees vm T.offset (2 ^ ds.val) unsigned reg T.lo T.hi s
    | .store ds reg => StoreAgrees vm T.offset (2 ^ ds.val) (s.readreg reg) s.intc2
    | .bitImm op bit => BitAgrees vm T.offset op bit (meiGetRw T.mei != 0#32)
        (Fin.ofNat 32 (meiGetReg T.mei).toNat) s
    | .bitReg op reg => BitAgrees vm T.offset op ((s.readreg reg).toNat % 8)
        (meiGetRw T.mei != 0#32) (Fin.ofNat 32 (meiGetReg T.mei).toNat) s

/-! ## Decoding -/

theorem toNat_halfwords (lo hi : BitVec 16) :
    (lo.setWidth 32 ||| hi.setWidth 32 <<< 16).toNat = hi.toNat * 2 ^ 16 + lo.toNat := by
  have hhi := hi.isLt
  have hlo := lo.isLt
  have hshift : hi.toNat <<< 16 % 2 ^ 32 = hi.toNat <<< 16 := by
    rw [Nat.shiftLeft_eq]
    exact Nat.mod_eq_of_lt (by omega)
  rw [BitVec.toNat_or, BitVec.toNat_shiftLeft, BitVec.toNat_setWidth, BitVec.toNat_setWidth,
    Nat.mod_eq_of_lt (show lo.toNat < 2 ^ 32 by omega),
    Nat.mod_eq_of_lt (show hi.toNat < 2 ^ 32 by omega), hshift, Nat.or_comm,
    ← Nat.shiftLeft_add_eq_or_of_lt hlo, Nat.shiftLeft_eq]

theorem toNat_instField (len off : Nat) {mask : BitVec 32} (lo hi : BitVec 16)
    (hmask : mask.toNat = 2 ^ len - 1) (hfit : off + len ≤ 32) :
    (((lo.setWidth 32 ||| hi.setWidth 32 <<< 16) &&& (mask <<< off)) >>> off).toNat =
      (hi.toNat * 2 ^ 16 + lo.toNat) / 2 ^ off % 2 ^ len := by
  rw [PackedFields.toNat_masked len off hmask hfit, toNat_halfwords]

theorem Rh850BitOp.ofCode_code (op : Rh850BitOp) (bit : Bool) :
    EmulArchBwop.ofCode (op.code + 1) ≠ .no ∧
      (EmulArchBwop.ofCode (op.code + 1)).apply bit = op.apply bit ∧
      (EmulArchBwop.ofCode (op.code + 1) = .tst1 ↔ op = .tst1) := by
  cases op with
  | set1 => exact ⟨by decide, rfl, by decide⟩
  | not1 => exact ⟨by decide, rfl, by decide⟩
  | clr1 => exact ⟨by decide, rfl, by decide⟩
  | tst1 => exact ⟨by decide, rfl, by decide⟩

section Decode

variable {F : Rh850Fault P} {lo hi : BitVec 16} {readreg : Fin 32 → BitVec 32}

theorem decodeAccess_ds {ds : Nat} (inst : BitVec 32) (h : F.mei.toNat / 2 ^ 9 % 2 ^ 3 = ds) :
    (decodeAccess F inst readreg).ds.val = ds := by
  have hfield : (meiGetDs F.mei).toNat = ds := by
    rw [meiGetDs, PackedFields.toNat_masked 3 9 rfl (by decide), h]
  have hlt : ds < 8 := by omega
  rw [decodeAccess]
  dsimp only
  rw [hfield, Fin.val_ofNat, Nat.mod_eq_of_lt hlt]

theorem decodeAccess_reg {reg : Fin 32} (inst : BitVec 32)
    (h : F.mei.toNat / 2 ^ 16 % 2 ^ 5 = reg) : (decodeAccess F inst readreg).reg = reg := by
  have hfield : (meiGetReg F.mei).toNat = reg := by
    rw [meiGetReg, PackedFields.toNat_masked 5 16 rfl (by decide), h]
  apply Fin.ext
  rw [decodeAccess]
  dsimp only
  rw [hfield, Fin.val_ofNat, Nat.mod_eq_of_lt reg.isLt]

theorem decodeAccess_write (inst : BitVec 32) :
    (decodeAccess F inst readreg).write = decide (F.mei.toNat % 2 = 1) := by
  have hfield : (meiGetRw F.mei).toNat = F.mei.toNat % 2 := by
    have hmask : ((F.mei &&& (0x1#32 <<< 0)) >>> 0).toNat = F.mei.toNat / 2 ^ 0 % 2 ^ 1 :=
      PackedFields.toNat_masked 1 0 rfl (by decide)
    rw [BitVec.toNat_ushiftRight, Nat.shiftRight_zero, Nat.pow_zero, Nat.div_one] at hmask
    exact hmask
  have hne : (meiGetRw F.mei != 0#32) = decide (F.mei.toNat % 2 = 1) := by
    rw [← hfield]
    apply Bool.eq_iff_iff.mpr
    rw [bne_iff_ne, decide_eq_true_eq, ne_eq, ← BitVec.toNat_inj, BitVec.toNat_zero]
    omega
  exact hne

/-- **Every load is decoded as a signed one.** -/
theorem decodeAccess_signExt (inst : BitVec 32) :
    (decodeAccess F inst readreg).signExt = true := by
  have htop : (~~~meiGetU F.mei).getLsbD 31 = true := by
    rw [BitVec.getLsbD_not, meiGetU, BitVec.getLsbD_ushiftRight, BitVec.getLsbD_of_ge _ _ (by decide)]
    decide
  have hne : (~~~meiGetU F.mei != 0#32) = true := by
    rw [bne_iff_ne]
    intro hzero
    rw [hzero, BitVec.getLsbD_zero] at htop
    exact Bool.false_ne_true htop
  exact hne

theorem instOpcode_eq {n : Nat} (hn : n < 64) :
    instOpcode (lo.setWidth 32 ||| hi.setWidth 32 <<< 16) = BitVec.ofNat 32 n ↔
      opcodeOf lo = n := by
  have hfield := @toNat_instField 6 5 0x3F#32 lo hi rfl (by decide)
  rw [instOpcode, ← BitVec.toNat_inj, hfield, BitVec.toNat_ofNat, opcodeOf]
  omega

theorem instSubopcode_eq :
    instSubopcode (lo.setWidth 32 ||| hi.setWidth 32 <<< 16) = 0x1C#32 ↔ IsSubopcode hi := by
  have hlo := lo.isLt
  have hhi := hi.isLt
  have hfield := @toNat_instField 13 19 0x1FFF#32 lo hi rfl (by decide)
  rw [instSubopcode, ← BitVec.toNat_inj, hfield, BitVec.toNat_ofNat, IsSubopcode]
  omega

theorem decodeBwop_imm {op : Rh850BitOp} {bit : Fin 8} (hopcode : opcodeOf lo = 0x3E)
    (hop : lo.toNat / 2 ^ 14 = op.code) (hbit : lo.toNat / 2 ^ 11 % 2 ^ 3 = bit) :
    decodeBwop (lo.setWidth 32 ||| hi.setWidth 32 <<< 16) readreg =
      (.ofCode (op.code + 1), bit) := by
  have hlo := lo.isLt
  have hsub : (instSub8 (lo.setWidth 32 ||| hi.setWidth 32 <<< 16)).toNat = op.code := by
    have hfield := @toNat_instField 2 14 0x3#32 lo hi rfl (by decide)
    rw [instSub8, hfield, ← hop]
    omega
  have hidx : Fin.ofNat 8 (instBitidx (lo.setWidth 32 ||| hi.setWidth 32 <<< 16)).toNat = bit := by
    have hfield := @toNat_instField 3 11 0x7#32 lo hi rfl (by decide)
    apply Fin.ext
    rw [Fin.val_ofNat, instBitidx, hfield, ← hbit]
    omega
  rw [decodeBwop, if_pos ((instOpcode_eq (by decide)).mpr hopcode), hsub, hidx]

theorem decodeBwop_reg {op : Rh850BitOp} (hopcode : opcodeOf lo = 0x3F) (hsub : IsSubopcode hi)
    (hop : hi.toNat / 2 % 4 = op.code) :
    decodeBwop (lo.setWidth 32 ||| hi.setWidth 32 <<< 16) readreg = (.ofCode (op.code + 1),
      Fin.ofNat 8 (readreg (Fin.ofNat 32 (lo.toNat / 2 ^ 11))).toNat) := by
  have hlo := lo.isLt
  have hsub9 : (instSub9 (lo.setWidth 32 ||| hi.setWidth 32 <<< 16)).toNat = op.code := by
    have hfield := @toNat_instField 2 17 0x3#32 lo hi rfl (by decide)
    rw [instSub9, hfield, ← hop]
    omega
  have hidx : (instRegidx (lo.setWidth 32 ||| hi.setWidth 32 <<< 16)).toNat =
      lo.toNat / 2 ^ 11 := by
    have hfield := @toNat_instField 5 11 0x1F#32 lo hi rfl (by decide)
    rw [instRegidx, hfield]
    omega
  have hNotImm : ¬ instOpcode (lo.setWidth 32 ||| hi.setWidth 32 <<< 16) = 0x3E#32 := by
    intro himm
    have hcontra := (instOpcode_eq (by decide)).mp himm
    omega
  have hmask : ∀ v : BitVec 32, Fin.ofNat 8 (v &&& 0x7#32).toNat = Fin.ofNat 8 v.toNat := by
    intro v
    apply Fin.ext
    rw [Fin.val_ofNat, Fin.val_ofNat, BitVec.toNat_and]
    have hand := Nat.and_two_pow_sub_one_eq_mod v.toNat 3
    rw [show (0x7#32).toNat = 2 ^ 3 - 1 from rfl, hand]
    omega
  rw [decodeBwop, if_neg hNotImm,
    if_pos ⟨(instOpcode_eq (by decide)).mpr hopcode, instSubopcode_eq.mpr hsub⟩, hsub9, hidx, hmask]

theorem decodeBwop_none (himm : opcodeOf lo ≠ 0x3E)
    (hreg : ¬ (opcodeOf lo = 0x3F ∧ IsSubopcode hi)) :
    decodeBwop (lo.setWidth 32 ||| hi.setWidth 32 <<< 16) readreg = (.no, 0) := by
  have hNotImm : ¬ instOpcode (lo.setWidth 32 ||| hi.setWidth 32 <<< 16) = 0x3E#32 := by
    intro h
    exact himm ((instOpcode_eq (by decide)).mp h)
  have hNotReg : ¬ (instOpcode (lo.setWidth 32 ||| hi.setWidth 32 <<< 16) = 0x3F#32 ∧
      instSubopcode (lo.setWidth 32 ||| hi.setWidth 32 <<< 16) = 0x1C#32) := by
    intro h
    exact hreg ⟨(instOpcode_eq (by decide)).mp h.1, instSubopcode_eq.mp h.2⟩
  rw [decodeBwop, if_neg hNotImm, if_neg hNotReg]

end Decode

theorem Rh850BitOp.code_ofSub {n : Nat} (hn : n < 4) : (Rh850BitOp.ofSub n).code = n := by
  have hall : ∀ i : Fin 4, (Rh850BitOp.ofSub i.val).code = i.val := by decide
  exact hall ⟨n, hn⟩

namespace Rh850Trap

variable {vm : Intc2Vm} {T : Rh850Trap P} {s s' : Intc2State}

/-- The access that the instruction is decoded to. -/
def access (T : Rh850Trap P) (s : Intc2State) : Intc2Access P :=
  decodeAccess T.toRh850Fault (T.lo.setWidth 32 ||| T.hi.setWidth 32 <<< 16) s.readreg

theorem access_offset : (T.access s).offset = T.offset := rfl

theorem result_eq : T.result vm s =
    match vintc2EmulHandler vm (T.access s) s with
    | some (true, s') => some (T.pc + meiGetLen T.mei, s')
    | _ => none := by
  have hread : readInstruction T.code T.pc =
      some (T.lo.setWidth 32 ||| T.hi.setWidth 32 <<< 16) := by
    rw [readInstruction, if_neg (fun hodd => hodd T.even)]
    rfl
  rw [result, dataAbort, hread]
  rfl

theorem followsIsa_iff : T.FollowsIsa vm s ↔
    ∃ s', vintc2EmulHandler vm (T.access s) s = some (true, s') ∧
      T.instr.Effect vm T.offset s s' := by
  unfold FollowsIsa
  rw [result_eq]
  constructor
  · intro h
    obtain ⟨s', hresult, heffect⟩ := h
    refine ⟨s', ?_, heffect⟩
    split at hresult
    · rename_i s'' hhandler
      rw [hhandler, ← (Prod.mk.inj (Option.some.inj hresult)).2]
    · exact absurd hresult (Option.some_ne_none _).symm
  · intro h
    obtain ⟨s', hhandler, heffect⟩ := h
    exact ⟨s', by rw [hhandler], heffect⟩

end Rh850Trap

/-! ## Loads -/

section Access

variable {vm : Intc2Vm} {acc : Intc2Access P} {s s' : Intc2State}

theorem load_follows_iff {unsigned : Bool} (hdec : acc.decoded) (hgroup : acc.served)
    (hword : ¬ acc.eicWord) (hno : acc.bwop = .no) (hread : acc.write = false)
    (hext : acc.signExt = true) :
    (∃ s', vintc2EmulHandler vm acc s = some (true, s') ∧
      s' = s.writereg acc.reg (extendBits 32 (!unsigned) (8 * acc.width)
        fun j => vm.guestBit s.intc2 (8 * acc.offset + j))) ↔
      ¬ vm.peidLost s.intc2 acc.offset ∧ (acc.reg = 0 ∨ unsigned = false ∨ acc.width = 4 ∨
        vm.guestBit s.intc2 (8 * acc.offset + (8 * acc.width - 1)) = false) := by
  have hfull : 8 * acc.width = 32 ↔ acc.width = 4 := by omega
  have hsign : true = !unsigned ↔ unsigned = false := by
    cases unsigned with
    | false => exact iff_of_true rfl rfl
    | true => exact iff_of_false (by decide) (by decide)
  rw [vintc2EmulHandler_load hdec hgroup hword hno hread, hext]
  by_cases hlost : vm.peidLost s.intc2 acc.offset
  · rw [if_pos hlost]
    exact iff_of_false (fun h => h.elim fun s' hs' => Option.some_ne_none _ hs'.1.symm)
      (fun h => h.1 hlost)
  · have hfit : 8 * acc.width ≤ 32 := by
      have hle := hdec.2
      omega
    have hsame := @extendBits_eq_iff 32 (8 * acc.width) true (!unsigned)
      (fun j => vm.guestBit s.intc2 (8 * acc.offset + j)) hfit
    rw [if_neg hlost, and_iff_right hlost, ← hfull, ← hsign, ← hsame, ← s.writereg_inj_iff]
    constructor
    · intro h
      obtain ⟨s', hs', heq⟩ := h
      rw [← heq]
      exact (Prod.mk.inj (Option.some.inj hs')).2
    · intro heq
      exact ⟨_, rfl, heq⟩

theorem misread_follows_iff {op : Rh850BitOp} {val : BitVec 32} (hdec : acc.decoded)
    (hgroup : acc.served) (hword : ¬ acc.eicWord) (hop : acc.bwop = .ofCode (op.code + 1))
    (hread : acc.write = false)
    (hval : ¬ vm.performs acc.offset → val = 0#32) :
    (∃ s', vintc2EmulHandler vm acc s = some (true, s') ∧ s' = s.writereg acc.reg val) ↔
      (vm.performs acc.offset → op ≠ .tst1 ∧
        op.apply (s.intc2 (8 * acc.offset + acc.bit)) = s.intc2 (8 * acc.offset + acc.bit) ∧
        s.pswZ = (!s.intc2 (8 * acc.offset + acc.bit)) ∧ (acc.reg = 0 ∨ s.r acc.reg = val)) := by
  obtain ⟨hne, happly, htst⟩ := op.ofCode_code (s.intc2 (8 * acc.offset + acc.bit))
  rw [← hop] at hne happly htst
  rw [vintc2EmulHandler_change hdec hgroup hword (Or.inl hne)]
  by_cases hperf : vm.performs acc.offset
  · rw [if_pos hperf, if_pos hne, bwopAccess_eq hne]
    by_cases htest : acc.bwop = .tst1
    · rw [if_pos htest]
      exact iff_of_false (fun h => h.elim fun s' hs' => Option.some_ne_none _ hs'.1.symm)
        (fun h => (h hperf).1 (htst.mp htest))
    · rw [if_neg htest, happly]
      constructor
      · intro h _
        obtain ⟨s', hs', heq⟩ := h
        have hafter := (Prod.mk.inj (Option.some.inj hs')).2.trans heq
        have hwin := congrArg Intc2State.intc2 hafter
        have hflag := congrArg Intc2State.pswZ hafter
        have hregs := congrArg Intc2State.r hafter
        dsimp only [Intc2State.writereg] at hwin hflag hregs
        have hbit := congrFun hwin (8 * acc.offset + acc.bit)
        rw [putBit, if_pos rfl] at hbit
        refine ⟨fun h => htest (htst.mpr h), hbit, hflag.symm, ?_⟩
        by_cases hreg : acc.reg = 0
        · exact Or.inl hreg
        · have hheld := congrFun hregs acc.reg
          rw [if_pos ⟨hreg, rfl⟩] at hheld
          exact Or.inr hheld
      · intro h
        obtain ⟨_, hbit, hflag, hheld⟩ := h hperf
        refine ⟨_, rfl, ?_⟩
        have hkept : putBit s.intc2 (8 * acc.offset + acc.bit)
            (op.apply (s.intc2 (8 * acc.offset + acc.bit))) = s.intc2 := by
          funext b
          by_cases hb : b = 8 * acc.offset + acc.bit
          · rw [putBit, if_pos hb, hbit, hb]
          · rw [putBit, if_neg hb]
        rw [hkept, ← hflag, ← (s.eq_writereg_iff acc.reg val).mpr hheld]
  · rw [if_neg hperf, hread, hval hperf]
    exact iff_of_true ⟨_, rfl, rfl⟩ (fun h => absurd h hperf)

theorem guestBit_setLane {m : Store} {val : BitVec 32} {j : Nat} (hdec : acc.decoded)
    (hplain : ¬ (0x2000 ≤ acc.offset ∧ acc.offset < 0x4000)) (hj : j < 8 * acc.width)
    (hsees : vm.sees (8 * acc.offset + j) = true) :
    vm.guestBit (setLane m (8 * acc.offset) (8 * acc.width) val) (8 * acc.offset + j) =
      val.getLsbD j := by
  have hin : 8 * acc.offset ≤ 8 * acc.offset + j ∧
      8 * acc.offset + j < 8 * acc.offset + 8 * acc.width := by omega
  have hhas : vm.hasInterrupt (intc2BitInt (8 * acc.offset + j)) = true :=
    (Bool.and_eq_true_iff.mp hsees).1
  rw [acc.guestBit_lane hdec hplain hj, hhas, Bool.true_and, setLane, if_pos hin,
    Nat.add_sub_cancel_left]

theorem sees_eibd {j : Nat} (hdec : acc.decoded)
    (hoff : 0x2000 ≤ acc.offset ∧ acc.offset < 0x4000) (hj : j < 8 * acc.width) :
    vm.sees (8 * acc.offset + j) = true ↔
      vm.hasInterrupt (intc2BitInt (8 * acc.offset)) = true ∧ acc.offset % 4 = 0 ∧ j < 3 := by
  have hlane := hdec.lane (Or.inr rfl) hdec.2 hj
  have hbit : (8 * acc.offset + j) % 32 = 8 * (acc.offset % 4) + j := by omega
  have hiff : 8 * (acc.offset % 4) + j < 3 ↔ acc.offset % 4 = 0 ∧ j < 3 := by omega
  have hbase : intc2BitInt (8 * acc.offset) = (regIdx intc2Eibd 4 acc.offset + 32) % 2 ^ 32 :=
    intc2BitInt_eibd hdec hoff (Nat.lt_of_le_of_lt (Nat.zero_le j) hj)
  rw [Intc2Vm.sees, acc.inEibd_lane hdec hj, decide_eq_true hoff, intc2BitInt_eibd hdec hoff hj,
    hbit, hbase, Bool.not_true, Bool.false_or, Bool.and_eq_true_iff, decide_eq_true_eq, hiff]

theorem guestBit_setLane_eibd {m : Store} {val : BitVec 32} {j : Nat} (hdec : acc.decoded)
    (hoff : 0x2000 ≤ acc.offset ∧ acc.offset < 0x4000) (hj : j < 8 * acc.width)
    (hsees : vm.sees (8 * acc.offset + j) = true)
    (hval : ∀ t, t < 3 → val.getLsbD t = (vm.physPeid (s.readreg acc.reg)).testBit t) :
    vm.guestBit (setLane m (8 * acc.offset) (8 * acc.width) val) (8 * acc.offset + j) =
      ((vm.translateToVcpuid (vm.physPeid (s.readreg acc.reg))).getD 0).testBit j := by
  obtain ⟨hhas, hzero, h3⟩ := (sees_eibd hdec hoff hj).mp hsees
  have hpos : 0 < 8 * acc.width := Nat.lt_of_le_of_lt (Nat.zero_le j) hj
  have hbase : intc2BitInt (8 * acc.offset) = (regIdx intc2Eibd 4 acc.offset + 32) % 2 ^ 32 :=
    intc2BitInt_eibd hdec hoff hpos
  have hlt : vm.physPeid (s.readreg acc.reg) < 8 := by
    obtain ⟨i, hi, hphys⟩ := vm.physPeid_core (s.readreg acc.reg)
    rw [hphys]
    exact vm.physId_lt i hi
  have hwide : 8 ≤ 8 * acc.width := by
    rcases hdec.width_cases with hd | hd | hd <;> rw [hd] <;> decide
  have hcore : physPeidAt (setLane m (8 * acc.offset) (8 * acc.width) val) (8 * acc.offset) =
      vm.physPeid (s.readreg acc.reg) := by
    apply physPeidAt_of_bits hlt
    intro t ht
    have hin : 8 * acc.offset ≤ 8 * acc.offset + t ∧
        8 * acc.offset + t < 8 * acc.offset + 8 * acc.width := by omega
    rw [setLane, if_pos hin, Nat.add_sub_cancel_left, hval t ht]
  have hlane : 8 * (acc.offset % 4) + j = j := by omega
  have hreg : 8 * (acc.offset - acc.offset % 4) = 8 * acc.offset := by omega
  rw [acc.guestBit_eibd hdec hoff hj, ← hbase, hhas, hlane, hreg, decide_eq_true h3,
    Bool.true_and, Bool.true_and, Intc2Vm.virtPeidAt, hcore]

theorem intc2BitInt_imr_base {j : Nat} (hoff : 0x1000 ≤ acc.offset ∧ acc.offset < 0x2000)
    (hj : j < 32) : intc2BitInt (8 * (acc.offset - acc.offset % 4) + j) =
      (j + acc.firstImrInt) % 2 ^ 32 := by
  have hidx : regIdx intc2Imr 4 ((8 * (acc.offset - acc.offset % 4) + j) / 8) =
      regIdx intc2Imr 4 acc.offset := by
    unfold regIdx intc2Imr
    omega
  have hbit : (8 * (acc.offset - acc.offset % 4) + j) % 32 = j := by omega
  rw [intc2BitInt, if_neg (by omega), if_pos (by omega), hidx, hbit]
  rfl

/-- **A store**, once the bytes that it leaves are known. -/
theorem storeEffect_iff {v : BitVec 32} : Rh850Store vm acc.offset acc.width (s.readreg acc.reg) s
      { s with intc2 := setLane s.intc2 (8 * acc.offset) (8 * acc.width) v } ↔
    ∀ j, j < 8 * acc.width → vm.sees (8 * acc.offset + j) = true →
      vm.guestBit (setLane s.intc2 (8 * acc.offset) (8 * acc.width) v) (8 * acc.offset + j) =
        (s.readreg acc.reg).getLsbD j := by
  constructor
  · intro h
    exact h.written
  · intro h
    exact ⟨rfl, rfl, fun b hb => setLane_other hb, h⟩

/-- The bits that a store leaves are those of the value exactly if the condition
holds. -/
theorem store_written_iff (hdec : acc.decoded) (hword : ¬ acc.eicWord) :
    (∀ j, j < 8 * acc.width → vm.sees (8 * acc.offset + j) = true →
      vm.guestBit (setLane s.intc2 (8 * acc.offset) (8 * acc.width) (vm.laneStored acc s))
        (8 * acc.offset + j) = (s.readreg acc.reg).getLsbD j) ↔
      StoreAgrees vm acc.offset acc.width (s.readreg acc.reg) s.intc2 := by
  unfold StoreAgrees
  by_cases heic : acc.offset < 0x1000
  · have hfit : ¬ 2 < acc.width := fun hwide => hword ⟨hdec, heic, hwide⟩
    rw [if_pos heic]
    apply iff_of_true
    · intro j hj hsees
      rw [guestBit_setLane hdec (by omega) hj hsees, Intc2Vm.laneStored, if_neg (by omega),
        if_neg (by omega)]
    · intro hwide
      exact absurd hwide hfit
  · rw [if_neg heic]
    by_cases himr : acc.offset < 0x2000
    · have hin : 0x1000 ≤ acc.offset ∧ acc.offset < 0x2000 := by omega
      rw [if_pos himr]
      apply forall_congr'
      intro j
      apply forall_congr'
      intro hj
      apply forall_congr'
      intro hsees
      have hj32 : j < 32 := by
        have hle := hdec.2
        omega
      rw [guestBit_setLane hdec (by omega) hj hsees, Intc2Vm.laneStored, if_pos hin,
        getLsbD_imrStored hj32, intc2BitInt_imr_base hin hj32, getLsbD_word,
        decide_eq_true hj32, Bool.true_and]
      cases vm.hasInterrupt ((j + acc.firstImrInt) % 2 ^ 32) with
      | false => simp
      | true => simp
    · rw [if_neg himr]
      by_cases heibd : acc.offset < 0x4000
      · have hin : 0x2000 ≤ acc.offset ∧ acc.offset < 0x4000 := by omega
        have hwide : 8 ≤ 8 * acc.width := by
          rcases hdec.width_cases with hd | hd | hd <;> rw [hd] <;> decide
        have hval : ∀ t, t < 3 → (vm.laneStored acc s).getLsbD t =
            (vm.physPeid (s.readreg acc.reg)).testBit t := by
          intro t ht
          rw [Intc2Vm.laneStored, if_neg (by omega), if_pos hin, getLsbD_eibdStored (by omega),
            if_pos ht]
        rw [if_pos heibd]
        constructor
        · intro h hzero hhas t ht
          have hsees : vm.sees (8 * acc.offset + t) = true :=
            (sees_eibd hdec hin (by omega)).mpr ⟨hhas, hzero, ht⟩
          rw [← guestBit_setLane_eibd hdec hin (by omega) hsees hval]
          exact h t (by omega) hsees
        · intro h j hj hsees
          obtain ⟨hhas, hzero, h3⟩ := (sees_eibd hdec hin hj).mp hsees
          rw [guestBit_setLane_eibd hdec hin hj hsees hval]
          exact h hzero hhas j h3
      · rw [if_neg heibd]
        apply iff_of_true
        · intro j hj hsees
          rw [guestBit_setLane hdec (by omega) hj hsees, Intc2Vm.laneStored, if_neg (by omega),
            if_neg (by omega)]
        · trivial

/-- **A store** follows the instruction exactly if the condition holds. -/
theorem store_follows_iff (hdec : acc.decoded) (hgroup : acc.served) (hno : acc.bwop = .no)
    (hwrite : acc.write = true) :
    (∃ s', vintc2EmulHandler vm acc s = some (true, s') ∧
      Rh850Store vm acc.offset acc.width (s.readreg acc.reg) s s') ↔
      StoreAgrees vm acc.offset acc.width (s.readreg acc.reg) s.intc2 := by
  have hkeeps : ∀ {s' : Intc2State}, (∃ t, some (true, s') = some (true, t) ∧
      Rh850Store vm acc.offset acc.width (s.readreg acc.reg) s t) ↔
        Rh850Store vm acc.offset acc.width (s.readreg acc.reg) s s' := by
    intro s'
    constructor
    · intro h
      obtain ⟨t, ht, heffect⟩ := h
      rw [(Prod.mk.inj (Option.some.inj ht)).2]
      exact heffect
    · intro h
      exact ⟨s', rfl, h⟩
  by_cases hword : acc.eicWord
  · have heic := hword.2.1
    have hwide := hword.2.2
    rw [vintc2EmulHandler_eicWord hword, hkeeps, StoreAgrees, if_pos heic]
    have hplain : ∀ j, j < 8 * acc.width → vm.sees (8 * acc.offset + j) = true →
        vm.guestBit s.intc2 (8 * acc.offset + j) = s.intc2 (8 * acc.offset + j) := by
      intro j hj hsees
      rw [acc.guestBit_lane hdec (by omega) hj, (Bool.and_eq_true_iff.mp hsees).1, Bool.true_and]
    constructor
    · intro h _ j hj hsees
      rw [← hplain j hj hsees]
      exact h.written j hj hsees
    · intro h
      refine ⟨rfl, rfl, fun _ _ => rfl, fun j hj hsees => ?_⟩
      rw [hplain j hj hsees]
      exact h hwide j hj hsees
  · have hplain : ¬ acc.bwop ≠ .no := fun hne => hne hno
    rw [vintc2EmulHandler_change hdec hgroup hword (Or.inr hwrite), if_neg hplain]
    by_cases hperf : vm.performs acc.offset
    · rw [if_pos hperf, hkeeps, storeEffect_iff, store_written_iff hdec hword]
    · rw [if_neg hperf, if_pos hwrite, hkeeps, ← store_written_iff hdec hword]
      have hunseen : ∀ j, j < 8 * acc.width → vm.sees (8 * acc.offset + j) ≠ true := by
        intro j hj hsees
        rw [acc.sees_of_not_performs hdec hword hperf hj] at hsees
        exact Bool.false_ne_true hsees
      exact iff_of_true
        ⟨rfl, rfl, fun _ _ => rfl, fun j hj hsees => absurd hsees (hunseen j hj)⟩
        (fun j hj hsees => absurd hsees (hunseen j hj))

/-! ## Bit instructions -/

theorem guestBit_inEibd {m : Store} {b : Nat} (hin : inEibd b = true)
    (hsees : vm.sees b = true) :
    vm.guestBit m b = (vm.virtPeidAt m (b - b % 32)).testBit (b % 32) := by
  rw [Intc2Vm.guestBit, hsees, Bool.true_and, if_pos hin]

theorem virtPeidAt_putBit {m : Store} {p q : Nat} {v : Bool} (h : p < q ∨ q + 3 ≤ p) :
    vm.virtPeidAt (putBit m p v) q = vm.virtPeidAt m q := by
  have hsame : physPeidAt (putBit m p v) q = physPeidAt m q := by
    apply physPeidAt_congr
    intro t ht
    rw [putBit, if_neg (by omega)]
  rw [Intc2Vm.virtPeidAt, Intc2Vm.virtPeidAt, hsame]

/-- **The bits that the guest sees** after one stored bit has changed. -/
theorem seen_putBit_iff {m : Store} {p : Nat} {op : Rh850BitOp} (hraw : m p = vm.guestBit m p) :
    (∀ b, vm.sees b = true → vm.guestBit (putBit m p (op.apply (m p))) b =
      if b = p then op.apply (vm.guestBit m b) else vm.guestBit m b) ↔
    (inEibd p = true → vm.sees p = true → ∀ t, t < 3 →
      (vm.virtPeidAt (putBit m p (op.apply (m p))) (p - p % 32)).testBit t =
        if t = p % 32 then op.apply (m p) else (vm.virtPeidAt m (p - p % 32)).testBit t) := by
  constructor
  · intro h hin hsees t ht
    have hbase := intc2BitInt_eibd_base hin
    have hb : p - p % 32 + t - (p - p % 32 + t) % 32 = p - p % 32 := by omega
    have hmod : (p - p % 32 + t) % 32 = t := by omega
    have hinb : inEibd (p - p % 32 + t) = true := by
      have hrange : 0x2000 ≤ p / 8 ∧ p / 8 < 0x4000 := of_decide_eq_true hin
      exact decide_eq_true (by omega)
    have hseesb : vm.sees (p - p % 32 + t) = true := by
      have hint := (intc2BitInt_eibd_base hinb).1
      rw [hb, hbase.1] at hint
      rw [Intc2Vm.sees, ← hint, (Bool.and_eq_true_iff.mp hsees).1, hmod, decide_eq_true ht,
        Bool.or_true, Bool.true_and]
    have hbit := h _ hseesb
    rw [guestBit_inEibd hinb hseesb, guestBit_inEibd hinb hseesb, hb, hmod] at hbit
    rw [hbit]
    by_cases htp : t = p % 32
    · have hpt : p - p % 32 + t = p := by omega
      rw [if_pos hpt, if_pos htp, hraw, guestBit_inEibd hin hsees, htp]
    · have hpt : ¬ p - p % 32 + t = p := by omega
      rw [if_neg hpt, if_neg htp]
  · intro h b hsees
    have hhas : vm.hasInterrupt (intc2BitInt b) = true := (Bool.and_eq_true_iff.mp hsees).1
    cases hin : inEibd b with
    | false =>
        rw [Intc2Vm.guestBit_plain hin, Intc2Vm.guestBit_plain hin, hhas, Bool.true_and,
          Bool.true_and, putBit]
        by_cases hb : b = p
        · rw [if_pos hb, if_pos hb, hb]
        · rw [if_neg hb, if_neg hb]
    | true =>
        have hlow : b % 32 < 3 := by
          have hpart := (Bool.and_eq_true_iff.mp hsees).2
          rw [hin, Bool.not_true, Bool.false_or] at hpart
          exact of_decide_eq_true hpart
        rw [guestBit_inEibd hin hsees, guestBit_inEibd hin hsees]
        by_cases hnear : b - b % 32 ≤ p ∧ p < b - b % 32 + 3
        · have hbase : p - p % 32 = b - b % 32 := by omega
          have hinp : inEibd p = true := by
            have hrange : 0x2000 ≤ b / 8 ∧ b / 8 < 0x4000 := of_decide_eq_true hin
            exact decide_eq_true (by omega)
          have hseesp : vm.sees p = true := by
            have hintb := (intc2BitInt_eibd_base hin).1
            have hintp := (intc2BitInt_eibd_base hinp).1
            have hpmod : p % 32 < 3 := by omega
            rw [hbase, hintb] at hintp
            rw [Intc2Vm.sees, ← hintp, hhas, decide_eq_true hpmod, Bool.or_true, Bool.true_and]
          have hbit := h hinp hseesp (b % 32) hlow
          rw [hbase] at hbit
          rw [hbit]
          by_cases hb : b = p
          · have hmod : b % 32 = p % 32 := by rw [hb]
            rw [if_pos hmod, if_pos hb, hraw, guestBit_inEibd hinp hseesp, hbase, hmod]
          · have hmod : ¬ b % 32 = p % 32 := by omega
            rw [if_neg hmod, if_neg hb]
        · have hb : ¬ b = p := by omega
          rw [virtPeidAt_putBit (by omega), if_neg hb]

/-- **A bit instruction** follows the instruction exactly if the condition
holds. -/
theorem bit_follows_iff {op : Rh850BitOp} (hdec : acc.decoded) (hgroup : acc.served)
    (hbyte : acc.width = 1) (hop : acc.bwop = .ofCode (op.code + 1)) :
    (∃ s', vintc2EmulHandler vm acc s = some (true, s') ∧
      Rh850BitChange vm acc.offset op acc.bit s s') ↔
      BitAgrees vm acc.offset op acc.bit acc.write acc.reg s := by
  have hword : ¬ acc.eicWord := by
    intro hword
    have hwide := hword.2.2
    omega
  have hbit : acc.bit.val < 8 * acc.width := by
    rw [hbyte]
    exact acc.bit.isLt
  obtain ⟨hne, happly, htst⟩ := op.ofCode_code (s.intc2 (8 * acc.offset + acc.bit))
  rw [← hop] at hne happly htst
  rw [vintc2EmulHandler_change hdec hgroup hword (Or.inl hne), BitAgrees]
  by_cases hperf : vm.performs acc.offset
  · rw [if_pos hperf, if_pos hperf, if_pos hne, bwopAccess_eq hne]
    by_cases htest : acc.bwop = .tst1
    · rw [if_pos htest]
      exact iff_of_false (fun h => h.elim fun s' hs' => Option.some_ne_none _ hs'.1.symm)
        (fun h => h.1 (htst.mp htest))
    · have hNotTest : op ≠ .tst1 := fun htst1 => htest (htst.mpr htst1)
      rw [if_neg htest, happly, and_iff_right hNotTest]
      constructor
      · intro h
        obtain ⟨s', hs', heffect⟩ := h
        rw [← (Prod.mk.inj (Option.some.inj hs')).2] at heffect
        have hraw : s.intc2 (8 * acc.offset + acc.bit) =
            vm.guestBit s.intc2 (8 * acc.offset + acc.bit) := by
          have hflag := heffect.flag
          exact Bool.not_inj hflag
        exact ⟨hraw, (seen_putBit_iff hraw).mp heffect.seen⟩
      · intro h
        refine ⟨_, rfl, rfl, ?_, ?_, (seen_putBit_iff h.1).mpr h.2, fun htst1 => absurd htst1 hNotTest⟩
        · rw [← h.1]
        · intro b hb
          exact if_neg hb
  · rw [if_neg hperf, if_neg hperf]
    have hunseen := acc.sees_of_not_performs hdec hword hperf hbit
    have hclear : vm.guestBit s.intc2 (8 * acc.offset + acc.bit) = false := by
      rw [Intc2Vm.guestBit, hunseen, Bool.false_and]
    have hseen : ∀ b, vm.sees b = true → vm.guestBit s.intc2 b =
        if b = 8 * acc.offset + acc.bit then op.apply (vm.guestBit s.intc2 b)
        else vm.guestBit s.intc2 b := by
      intro b hsees
      have hb : ¬ b = 8 * acc.offset + acc.bit := by
        intro hb
        rw [hb, hunseen] at hsees
        exact Bool.false_ne_true hsees
      rw [if_neg hb]
    cases hwrite : acc.write with
    | true =>
        rw [if_pos rfl]
        constructor
        · intro h
          obtain ⟨s', hs', heffect⟩ := h
          rw [← (Prod.mk.inj (Option.some.inj hs')).2] at heffect
          have hflag := heffect.flag
          rw [hclear] at hflag
          exact ⟨hflag, Or.inl rfl⟩
        · intro h
          refine ⟨s, rfl, rfl, ?_, fun _ _ => rfl, hseen, fun _ => rfl⟩
          rw [hclear]
          exact h.1
    | false =>
        rw [if_neg Bool.false_ne_true]
        constructor
        · intro h
          obtain ⟨s', hs', heffect⟩ := h
          rw [← (Prod.mk.inj (Option.some.inj hs')).2] at heffect
          have hflag : s.pswZ = !vm.guestBit s.intc2 (8 * acc.offset + acc.bit) := heffect.flag
          rw [hclear] at hflag
          refine ⟨hflag, Or.inr ?_⟩
          rw [← s.eq_writereg_iff]
          have hregs := heffect.regs
          have hsame : s.writereg acc.reg 0#32 = { s with r := (s.writereg acc.reg 0#32).r } := rfl
          rw [hsame, hregs]
        · intro h
          have hheld := h.2.resolve_left Bool.false_ne_true
          have hsame := (s.eq_writereg_iff acc.reg 0#32).mpr hheld
          rw [← hsame]
          refine ⟨s, rfl, rfl, ?_, fun _ _ => rfl, hseen, fun _ => rfl⟩
          rw [hclear]
          exact h.1

end Access

/-! ## All instructions -/

namespace Rh850Trap

variable {vm : Intc2Vm} {T : Rh850Trap P} {s : Intc2State}

theorem access_width : (T.access s).width = T.instr.bytes := by
  have hdesc := T.described
  have hds : ∀ {n : Nat}, T.mei.toNat / 2 ^ 9 % 2 ^ 3 = n → (T.access s).width = 2 ^ n := by
    intro n hn
    rw [Intc2Access.width, access, decodeAccess_ds _ hn]
  cases hinstr : T.instr with
  | load ds unsigned reg =>
      rw [hinstr] at hdesc
      exact hds hdesc.2.2.2.2.1
  | store ds reg =>
      rw [hinstr] at hdesc
      exact hds hdesc.2.2.2.1
  | bitImm op bit =>
      rw [hinstr] at hdesc
      exact hds hdesc.2.2.2
  | bitReg op reg =>
      rw [hinstr] at hdesc
      exact hds hdesc.2.2.2

theorem access_decoded_iff : (T.access s).decoded ↔ T.Emulable := by
  rw [Intc2Access.decoded, access_width]
  rfl

theorem not_followsIsa_of_unserved (hemul : T.Emulable)
    (hgroup : ¬ (T.offset < 0x3000 ∨ (0x4000 ≤ T.offset ∧ T.offset < 0x5000))) :
    ¬ T.FollowsIsa vm s := by
  rw [followsIsa_iff, vintc2EmulHandler_unserved (access_decoded_iff.mpr hemul) hgroup]
  intro h
  obtain ⟨s', hs', _⟩ := h
  exact absurd (Prod.mk.inj (Option.some.inj hs')).1 Bool.false_ne_true

/-- **Loads.** -/
theorem followsIsa_load {ds : Fin 4} {unsigned : Bool} {reg : Fin 32} (hemul : T.Emulable)
    (hinstr : T.instr = .load ds unsigned reg)
    (hgroup : T.offset < 0x3000 ∨ (0x4000 ≤ T.offset ∧ T.offset < 0x5000)) :
    T.FollowsIsa vm s ↔ LoadAgrees vm T.offset (2 ^ ds.val) unsigned reg T.lo T.hi s := by
  have hdec : (T.access s).decoded := access_decoded_iff.mpr hemul
  have hwidth : (T.access s).width = 2 ^ ds.val := by rw [access_width, hinstr, Rh850Instr.bytes]
  have hdesc := T.described
  rw [hinstr] at hdesc
  obtain ⟨himm, _, hrw, _, _, hreg⟩ := hdesc
  have haccReg : (T.access s).reg = reg := decodeAccess_reg _ hreg
  have hread : (T.access s).write = false := by
    rw [access, decodeAccess_write, hrw]
    rfl
  have hext : (T.access s).signExt = true := decodeAccess_signExt _
  rw [followsIsa_iff, hinstr]
  simp only [Rh850Instr.Effect]
  rw [LoadAgrees, ← hwidth, ← haccReg]
  by_cases hword : T.offset < 0x1000 ∧ 2 < (T.access s).width
  · rw [if_pos hword, vintc2EmulHandler_eicWord ⟨hdec, hword⟩, ← s.eq_writereg_iff]
    constructor
    · intro h
      obtain ⟨s', hs', heffect⟩ := h
      exact (Prod.mk.inj (Option.some.inj hs')).2.trans heffect
    · intro h
      exact ⟨s, rfl, h⟩
  · have hNotWord : ¬ (T.access s).eicWord := fun h => hword h.2
    rw [if_neg hword]
    by_cases hmis : opcodeOf T.lo = 0x3F ∧ IsSubopcode T.hi
    · have hsub : T.hi.toNat / 2 % 4 = (Rh850BitOp.ofSub (T.hi.toNat / 2 % 4)).code :=
        (Rh850BitOp.code_ofSub (Nat.mod_lt _ (by decide))).symm
      have hbwop := @decodeBwop_reg T.lo T.hi s.readreg _ hmis.1 hmis.2 hsub
      have hop : (T.access s).bwop =
          .ofCode ((Rh850BitOp.ofSub (T.hi.toNat / 2 % 4)).code + 1) := congrArg Prod.fst hbwop
      have hbit : (T.access s).bit.val = misreadBit T.lo s :=
        congrArg (fun x => x.2.val) hbwop
      have hval : ¬ vm.performs (T.access s).offset →
          extendBits 32 (!unsigned) (8 * (T.access s).width)
            (fun j => vm.guestBit s.intc2 (8 * T.offset + j)) = 0#32 := by
        intro hperf
        apply extendBits_zero
        · exact hdec.width_pos
        · intro j hj
          have hunseen := (T.access s).sees_of_not_performs hdec hNotWord hperf hj
          rw [access_offset] at hunseen
          rw [Intc2Vm.guestBit, hunseen, Bool.false_and]
      have hiff := @misread_follows_iff P vm (T.access s) s _ _ hdec hgroup hNotWord hop hread hval
      rw [hbit] at hiff
      rw [misread, if_pos hmis]
      exact hiff
    · have hbwop := @decodeBwop_none T.lo T.hi s.readreg himm hmis
      have hno : (T.access s).bwop = .no := congrArg Prod.fst hbwop
      rw [misread, if_neg hmis]
      exact load_follows_iff hdec hgroup hNotWord hno hread hext

/-- **Stores.** -/
theorem followsIsa_store {ds : Fin 4} {reg : Fin 32} (hemul : T.Emulable)
    (hinstr : T.instr = .store ds reg)
    (hgroup : T.offset < 0x3000 ∨ (0x4000 ≤ T.offset ∧ T.offset < 0x5000)) :
    T.FollowsIsa vm s ↔ StoreAgrees vm T.offset (2 ^ ds.val) (s.readreg reg) s.intc2 := by
  have hwidth : (T.access s).width = 2 ^ ds.val := by rw [access_width, hinstr, Rh850Instr.bytes]
  have hdesc := T.described
  rw [hinstr] at hdesc
  obtain ⟨himm, hsub, hrw, _, hreg⟩ := hdesc
  have haccReg : (T.access s).reg = reg := decodeAccess_reg _ hreg
  have hwrite : (T.access s).write = true := by
    rw [access, decodeAccess_write, hrw]
    rfl
  have hno : (T.access s).bwop = .no :=
    congrArg Prod.fst (decodeBwop_none himm fun hmis => hsub hmis.1 hmis.2)
  rw [followsIsa_iff, hinstr]
  simp only [Rh850Instr.Effect]
  rw [← hwidth, ← haccReg]
  exact store_follows_iff (access_decoded_iff.mpr hemul) hgroup hno hwrite

/-- **Bit instructions**, with their bit known. -/
theorem followsIsa_bit {op : Rh850BitOp} {bit : Nat} (hemul : T.Emulable)
    (hbytes : T.instr.bytes = 1)
    (heffect : ∀ s', T.instr.Effect vm T.offset s s' ↔
      Rh850BitChange vm T.offset op bit s s')
    (hbwop : (T.access s).bwop = .ofCode (op.code + 1)) (hbit : (T.access s).bit.val = bit)
    (hgroup : T.offset < 0x3000 ∨ (0x4000 ≤ T.offset ∧ T.offset < 0x5000)) :
    T.FollowsIsa vm s ↔ BitAgrees vm T.offset op bit (meiGetRw T.mei != 0#32)
      (Fin.ofNat 32 (meiGetReg T.mei).toNat) s := by
  rw [followsIsa_iff]
  simp only [heffect]
  rw [← hbit]
  exact bit_follows_iff (access_decoded_iff.mpr hemul) hgroup (access_width.trans hbytes) hbwop

/-- An access that is emulated follows the instruction set exactly if the
condition holds. -/
theorem followsIsa_iff_agrees (hemul : T.Emulable) : T.FollowsIsa vm s ↔ T.Agrees vm s := by
  unfold Agrees
  by_cases hgroup : T.offset < 0x3000 ∨ (0x4000 ≤ T.offset ∧ T.offset < 0x5000)
  · rw [and_iff_right hgroup]
    have hdesc := T.described
    cases hinstr : T.instr with
    | load ds unsigned reg => exact followsIsa_load hemul hinstr hgroup
    | store ds reg => exact followsIsa_store hemul hinstr hgroup
    | bitImm op bit =>
        rw [hinstr] at hdesc
        obtain ⟨hopcode, hop, hbit, _⟩ := hdesc
        have hbwop := @decodeBwop_imm T.lo T.hi s.readreg op bit hopcode hop hbit
        exact followsIsa_bit hemul (by rw [hinstr, Rh850Instr.bytes])
          (fun s' => by rw [hinstr]; rfl) (congrArg Prod.fst hbwop)
          (congrArg (fun x => x.2.val) hbwop) hgroup
    | bitReg op reg =>
        rw [hinstr] at hdesc
        obtain ⟨hopcode, hhi, hreg, _⟩ := hdesc
        have hcode : op.code < 4 := by cases op <;> decide
        have hsub : IsSubopcode T.hi := by
          unfold IsSubopcode
          have hhi' : T.hi.toNat = 0xE0 + 2 * op.code := hhi
          omega
        have hop : T.hi.toNat / 2 % 4 = op.code := by
          have hhi' : T.hi.toNat = 0xE0 + 2 * op.code := hhi
          omega
        have hbwop := @decodeBwop_reg T.lo T.hi s.readreg op hopcode hsub hop
        have hidx : Fin.ofNat 32 (T.lo.toNat / 2 ^ 11) = reg := by
          apply Fin.ext
          have hlo : T.lo.toNat / 2 ^ 11 = reg := hreg
          rw [Fin.val_ofNat, hlo, Nat.mod_eq_of_lt reg.isLt]
        rw [hidx] at hbwop
        exact followsIsa_bit hemul (by rw [hinstr, Rh850Instr.bytes])
          (fun s' => by rw [hinstr]; rfl) (congrArg Prod.fst hbwop)
          (congrArg (fun x => x.2.val) hbwop) hgroup
  · exact iff_of_false (not_followsIsa_of_unserved hemul hgroup) (fun h => hgroup h.1)

/-- An access that is not emulated is refused, and the next instruction
follows. -/
theorem result_refused (hemul : ¬ T.Emulable) :
    T.result vm s = some (T.pc + meiGetLen T.mei, T.instr.refused s) := by
  have hdec : ¬ (T.access s).decoded := fun h => hemul (access_decoded_iff.mp h)
  have hdesc := T.described
  rw [result_eq, vintc2EmulHandler_refused hdec]
  cases hinstr : T.instr with
  | load ds unsigned reg =>
      rw [hinstr] at hdesc
      obtain ⟨_, _, hrw, _, _, hreg⟩ := hdesc
      have haccReg : (T.access s).reg = reg := decodeAccess_reg _ hreg
      have hread : (T.access s).write = false := by
        rw [access, decodeAccess_write, hrw]
        rfl
      rw [hread, haccReg]
      rfl
  | store ds reg =>
      rw [hinstr] at hdesc
      have hwrite : (T.access s).write = true := by
        rw [access, decodeAccess_write, hdesc.2.2.1]
        rfl
      rw [hwrite]
      rfl
  | bitImm op bit =>
      have hbytes : T.instr.bytes = 1 := by rw [hinstr, Rh850Instr.bytes]
      exact absurd (by rw [Emulable, hbytes, Nat.mod_one]; decide) hemul
  | bitReg op reg =>
      have hbytes : T.instr.bytes = 1 := by rw [hinstr, Rh850Instr.bytes]
      exact absurd (by rw [Emulable, hbytes, Nat.mod_one]; decide) hemul

end Rh850Trap

/-- The instruction with half-words `lo` and `hi` accesses the EIC register of
interrupt 40. -/
def eicTrap (mei : BitVec 32) (lo hi : BitVec 16) (instr : Rh850Instr)
    (h : instr.Describes mei lo hi) : Rh850Trap u2a16Intc2 where
  mei := mei
  mea := 0xFFF80050
  lower := by decide
  upper := by decide
  code := fun a => if a = 0#32 then lo else hi
  pc := 0#32
  even := by decide
  instr := instr
  described := h

/-- `ST.B r5`, `LD.BU r5`, `LD.HU 0xE0[r1], r5` and `TST1 0`. -/
def eicStoreByte : Rh850Trap u2a16Intc2 :=
  eicTrap 0x40050001#32 0x2F41#16 0#16 (.store 0 5) (by unfold Rh850Instr.Describes; decide)
def eicLoadByte : Rh850Trap u2a16Intc2 :=
  eicTrap 0x40050100#32 0x2F81#16 1#16 (.load 0 true 5) (by unfold Rh850Instr.Describes; decide)
def eicLoadHalf : Rh850Trap u2a16Intc2 :=
  eicTrap 0x40050300#32 0x2FE1#16 0xE1#16 (.load 1 true 5)
    (by unfold Rh850Instr.Describes; decide)
def eicTestBit : Rh850Trap u2a16Intc2 :=
  eicTrap 0x40000000#32 0xC7C1#16 0#16 (.bitImm .tst1 0) (by unfold Rh850Instr.Describes; decide)

/-- A window in which the top bit of the register's low byte is set. -/
def eicTop : Intc2State := ⟨fun b => b == 8 * 0x50 + 7, fun _ => 0#32, false⟩

end Bao

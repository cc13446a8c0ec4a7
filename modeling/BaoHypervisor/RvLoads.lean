import BaoHypervisor.VplicDecode

/-!
# Emulated loads on RISC-V

`guest_page_fault_handler` of `arch/riscv/sync_exceptions.c` decodes the load
that faulted and calls the handler of the emulated device, which writes the
destination register itself.  The ISA says what a load leaves there: the bytes
it accessed, extended to the register as the instruction says.
-/

namespace Bao

/-! ## Loads of the ISA -/

/-- The loads into integer registers. -/
inductive RvLoadOp
  | lb
  | lh
  | lw
  | ld
  | lbu
  | lhu
  | lwu
deriving DecidableEq

namespace RvLoadOp

def funct3 : RvLoadOp → Nat
  | lb => 0
  | lh => 1
  | lw => 2
  | ld => 3
  | lbu => 4
  | lhu => 5
  | lwu => 6

def bytes : RvLoadOp → Nat
  | lb => 1
  | lh => 2
  | lw => 4
  | ld => 8
  | lbu => 1
  | lhu => 2
  | lwu => 4

def signed : RvLoadOp → Bool
  | lb => true
  | lh => true
  | lw => true
  | ld => true
  | lbu => false
  | lhu => false
  | lwu => false

/-- The low bytes of a value, extended as the load does it. -/
def extend {xlen : Nat} (op : RvLoadOp) (val : BitVec xlen) : BitVec xlen :=
  let accessed := val.setWidth (8 * op.bytes)
  if op.signed then accessed.signExtend xlen else accessed.setWidth xlen

/-- A value that the load can leave in a register. -/
def InRange {xlen : Nat} (op : RvLoadOp) (val : BitVec xlen) : Prop :=
  if op.signed then
    -(2 : Int) ^ (8 * op.bytes - 1) ≤ val.toInt ∧ val.toInt < 2 ^ (8 * op.bytes - 1)
  else val.toNat < 2 ^ (8 * op.bytes)

end RvLoadOp

/-- A load in the memory of the guest: a 32-bit instruction or a `C.LW`. -/
inductive RvLoad
  | full (op : RvLoadOp) (rd rs1 : Fin 32) (imm : Fin 4096)
  | clw (rd rs1 immHigh : Fin 8) (immLow : Fin 4)

namespace RvLoad

def op : RvLoad → RvLoadOp
  | full op _ _ _ => op
  | clw _ _ _ _ => .lw

/-- The destination; `C.LW` has `x8` to `x15`. -/
def rd : RvLoad → Nat
  | full _ rd _ _ => rd
  | clw rd _ _ _ => rd + 8

def size : RvLoad → Nat
  | full _ _ _ _ => 4
  | clw _ _ _ _ => 2

/-- The instruction's bits. -/
def encoding : RvLoad → Nat
  | full op rd rs1 imm => imm * 0x100000 + rs1 * 0x8000 + op.funct3 * 0x1000 + rd * 0x80 + 0x03
  | clw rd rs1 immHigh immLow =>
      2 * 0x2000 + immHigh * 0x400 + rs1 * 0x80 + immLow * 0x20 + rd * 4

/-- The transformed instruction that `htinst` may hold: the load without its
immediate and with the address offset for `rs1`; a `C.LW` is expanded, and bit 1
is clear for it. -/
def transformed (addrOffset : Fin 32) : RvLoad → Nat
  | full op rd _ _ => addrOffset * 0x8000 + op.funct3 * 0x1000 + rd * 0x80 + 0x03
  | clw rd _ _ _ => addrOffset * 0x8000 + 2 * 0x1000 + (rd + 8) * 0x80 + 0x01

end RvLoad

/-! ## The emulated devices -/

/-- `struct emul_access` without its address. -/
structure RvAccess where
  width : Nat
  regWidth : Nat
  write : Bool
  reg : Nat
  signExt : Bool

/-- The registers of `struct aplic_control_hw` that a load reads. -/
inductive AplicDomainReg
  | domaincfg
  | sourcecfg (intp : Nat)
  | setip (reg : Nat)
  | inClrip (reg : Nat)
  | setie (reg : Nat)
  | target (intp : Nat)

/-- `vaplic_domain_emul_reserved`. -/
def vaplicDomainEmulReserved (addr : Nat) : Bool :=
  [(0x1000, 0x1c00), (0x1c80, 0x1cdc), (0x1ce0, 0x1d00), (0x1d80, 0x1ddc), (0x1de0, 0x1e00),
    (0x1e80, 0x1edc), (0x1ee0, 0x1f00), (0x1f80, 0x1fdc), (0x1fe0, 0x2000), (0x2008, 0x3000)].any
    fun r => decide (r.1 ≤ addr ∧ addr < r.2)

/-- What `vaplic_domain_emul_handler` does on a load: the value it writes to the
destination, if any.  `get` are the `vaplic_get_` functions; `setipnum`,
`clripnum`, `setienum`, `clrie` and `clrienum` have a branch for stores only. -/
def vaplicDomainLoad (get : AplicDomainReg → BitVec 32) (base addr : Nat) : Option (BitVec 32) :=
  let emulAddr := (addr + 2 ^ 64 - base) % 2 ^ 64 &&& 0x3fff
  if vaplicDomainEmulReserved emulAddr then some 0
  else
    match emulAddr >>> 12 with
    | 0 => if emulAddr = 0 then some (get .domaincfg)
        else some (get (.sourcecfg ((addr &&& 0xfff) / 4)))
    | 1 =>
        match emulAddr >>> 7 with
        | 0x38 => some (get (.setip ((addr &&& 0x7f) / 4)))
        | 0x39 => none
        | 0x3a => some (get (.inClrip ((addr &&& 0x7f) / 4)))
        | 0x3b => none
        | 0x3c => some (get (.setie ((addr &&& 0x7f) / 4)))
        | 0x3d => none
        | 0x3e => none
        | 0x3f => none
        | _ => some 0
    | 3 => if emulAddr = 0x3000 then some 0 else some (get (.target ((addr &&& 0xfff) / 4)))
    | _ => some 0

/-- The registers of `struct aplic_idc_hw`. -/
inductive AplicIdcReg
  | idelivery
  | iforce
  | ithreshold
  | topi
  | claimi

/-- What `vaplic_idc_emul_handler` writes to the destination on a load. -/
def vaplicIdcLoad (get : Nat → AplicIdcReg → BitVec 32) (base addr : Nat) : BitVec 32 :=
  let idcId := ((addr + 2 ^ 64 - base) % 2 ^ 64) >>> 5 &&& 0x3fff
  match addr &&& 0x1f with
  | 0 => get idcId .idelivery
  | 4 => get idcId .iforce
  | 8 => get idcId .ithreshold
  | 0x18 => get idcId .topi
  | 0x1c => get idcId .claimi
  | _ => 0

/-- The devices that a VM's memory emulation can have, with what they would
answer: the vPLIC, the vAPLIC and a remote I/O device, whose backend sends the
value or which takes no request. -/
inductive RvDevice (xlen : Nat)
  | plicGlobal (P : VplicPlat) (v : Nat) (s : VplicState)
  | plicHart (P : VplicPlat) (v : Nat) (s : VplicState)
  | aplicDomain (base : Nat) (get : AplicDomainReg → BitVec 32)
  | aplicIdc (base : Nat) (get : Nat → AplicIdcReg → BitVec 32)
  | remio (answer : Option (BitVec xlen))

/-- The handler of the device: `none` if it refuses, else the value that it
writes to the access's register, if any.  `stored` is what a store carries. -/
def RvDevice.handler {xlen : Nat} (device : RvDevice xlen) (addr : Nat) (acc : RvAccess)
    (stored : BitVec 64) : Option (Option (BitVec xlen)) :=
  match device with
  | plicGlobal P v s =>
      (vplicGlobalEmulHandler P v ⟨addr, acc.width, acc.write, stored⟩ s).map fun r =>
        r.1.map (BitVec.setWidth xlen)
  | plicHart P v s =>
      (vplicHartEmulHandler P v ⟨addr, acc.width, acc.write, stored⟩ s).map fun r =>
        r.1.map (BitVec.setWidth xlen)
  | aplicDomain base get =>
      if acc.width ≠ 4 ∨ addr &&& 0x3 ≠ 0 then none
      else if acc.write then some none
      else some ((vaplicDomainLoad get base addr).map (BitVec.setWidth xlen))
  | aplicIdc base get =>
      if acc.width ≠ 4 ∨ addr &&& 0x3 ≠ 0 then none
      else if acc.write then some none
      else some (some ((vaplicIdcLoad get base addr).setWidth xlen))
  | remio answer => answer.map fun value => if acc.write then none else some value

/-! ## The trap handler -/

variable {xlen : Nat}

/-- The registers of a vCPU and its `sepc`. -/
structure RvCpu (xlen : Nat) where
  x : Nat → BitVec xlen
  pc : BitVec xlen

namespace RvCpu

/-- `vcpu_readreg`. -/
def readreg (cpu : RvCpu xlen) (reg : Nat) : BitVec xlen :=
  if reg = 0 ∨ reg > 31 then 0 else cpu.x reg

/-- `vcpu_writereg`. -/
def writereg (cpu : RvCpu xlen) (reg : Nat) (val : BitVec xlen) : RvCpu xlen :=
  if reg = 0 ∨ reg > 31 then cpu else { cpu with x := atCpu cpu.x reg val }

/-- `vcpu_writepc` with the program counter moved on. -/
def step (cpu : RvCpu xlen) (size : Nat) : RvCpu xlen :=
  { cpu with pc := cpu.pc + BitVec.ofNat xlen size }

end RvCpu

/-- What the trap left in `htval`, `stval` and `htinst`. -/
structure RvTrap where
  htval : Nat
  stval : Nat
  htinst : Nat

/-- The faulting address. -/
def RvTrap.addr (xlen : Nat) (t : RvTrap) : Nat :=
  (t.htval <<< 2) % 2 ^ xlen ||| (t.stval &&& 0x3)

/-- `read_ins`; `fetch` is `hlvxhu`. -/
def readIns (xlen : Nat) (fetch : Nat → Nat) (insAddr : Nat) : Option Nat :=
  if insAddr &&& 0x1 ≠ 0 then none
  else
    let ins := fetch insAddr
    if ins &&& 0x3 = 3 then some (ins ||| fetch ((insAddr + 2) % 2 ^ xlen) <<< 16) else some ins

/-- `ins_ldst_decode`. -/
def insLdstDecode (xlen ins : Nat) : Option RvAccess :=
  if ins &&& 3 ≠ 3 then
    if ins &&& 0xe003 ≠ 0x4000 ∧ ins &&& 0xe003 ≠ 0xc000 then none
    else some
      { width := 4
        regWidth := xlen / 8
        write := decide (ins &&& 0xe003 = 0xc000)
        reg := (ins >>> 2 &&& 0x7) + 8
        signExt := true }
  else if ins &&& 0x7f ≠ 0x03 ∧ ins &&& 0x7f ≠ 0x23 then none
  else
    let funct3 := ins >>> 12 &&& 0x7
    let write := decide (ins &&& 0x7f = 0x23)
    some
      { width :=
          if funct3 &&& 3 = 0 then 1 else if funct3 &&& 3 = 1 then 2
          else if funct3 &&& 3 = 2 then 4 else 8
        regWidth := xlen / 8
        write := write
        reg := if write then ins >>> 20 &&& 0x1f else ins >>> 7 &&& 0x1f
        signExt := decide (funct3 &&& 0x4 = 0) }

/-- The instruction that faulted and its size, as the first half of
`guest_page_fault_handler` finds them; `none` ends in `ERROR`. -/
def faultingIns (xlen : Nat) (fetch : Nat → Nat) (htinst pc : Nat) : Option (Nat × Nat) :=
  if htinst = 0 then (readIns xlen fetch pc).map fun ins => (ins, if ins &&& 3 = 3 then 4 else 2)
  else if htinst % 2 ^ 32 = 0x3020 ∨ htinst % 2 ^ 32 = 0x3000 then none
  else some (htinst ||| 0x2, if htinst &&& 0x2 = 0 then 2 else 4)

/-- `guest_page_fault_handler`: the vCPU after the emulation and the step of the
program counter, or `none` where it ends in `ERROR`.  `emul` is
`vm_emul_get_mem`. -/
def guestPageFaultHandler (emul : Nat → Option (RvDevice xlen)) (fetch : Nat → Nat) (t : RvTrap)
    (cpu : RvCpu xlen) : Option (RvCpu xlen × Nat) :=
  (emul (t.addr xlen)).bind fun device =>
    (faultingIns xlen fetch t.htinst cpu.pc.toNat).bind fun ins =>
      (insLdstDecode xlen ins.1).bind fun acc =>
        (device.handler (t.addr xlen) acc ((cpu.readreg acc.reg).setWidth 64)).map fun result =>
          match result with
          | some val => (cpu.writereg acc.reg val, ins.2)
          | none => (cpu, ins.2)

/-- `sync_exception_handler` for a guest page fault: the vCPU, and whether the
CPU is stopped in `ERROR`. -/
def rvGuestPageFault (emul : Nat → Option (RvDevice xlen)) (fetch : Nat → Nat) (t : RvTrap)
    (cpu : RvCpu xlen) : RvCpu xlen × Bool :=
  match guestPageFaultHandler emul fetch t cpu with
  | some (cpu', pcStep) => (cpu'.step pcStep, false)
  | none => (cpu, true)

/-! ## Decoding -/

theorem or_two (a : Nat) : a ||| 2 = a / 4 * 4 + (a % 4 ||| 2) := by
  have hlow : a % 4 ||| 2 < 2 ^ 2 := Nat.or_lt_two_pow (Nat.mod_lt _ (by decide)) (by decide)
  have hsplit : a = (a / 4) <<< 2 ||| a % 4 := by
    rw [← Nat.shiftLeft_add_eq_or_of_lt (Nat.mod_lt a (show 0 < 2 ^ 2 by decide)),
      Nat.shiftLeft_eq]
    omega
  calc a ||| 2 = (a / 4) <<< 2 ||| a % 4 ||| 2 := congrArg (· ||| 2) hsplit
    _ = (a / 4) <<< 2 ||| (a % 4 ||| 2) := Nat.or_assoc ..
    _ = (a / 4) <<< 2 + (a % 4 ||| 2) := (Nat.shiftLeft_add_eq_or_of_lt hlow _).symm
    _ = a / 4 * 4 + (a % 4 ||| 2) := by rw [Nat.shiftLeft_eq]

theorem and_two (a : Nat) : a &&& 2 = a % 4 &&& 2 := by
  have hmask : a &&& 3 = a % 4 := Nat.and_two_pow_sub_one_eq_mod a 2
  rw [← hmask, Nat.and_assoc]
  rfl

theorem RvLoadOp.funct3_lt (op : RvLoadOp) : op.funct3 < 8 := by
  cases op <;> decide

theorem insLdstDecode_full {ins : Nat} {op : RvLoadOp} {rd : Nat} (hrd : rd < 32)
    (hins : ins % 0x8000 = op.funct3 * 0x1000 + rd * 0x80 + 0x03) :
    insLdstDecode xlen ins = some ⟨op.bytes, xlen / 8, false, rd, op.signed⟩ := by
  have hfunct3 := op.funct3_lt
  have hlow : ins &&& 3 = 3 := by
    have hmask : ins &&& 3 = ins % 4 := Nat.and_two_pow_sub_one_eq_mod ins 2
    omega
  have hopcode : ins &&& 0x7f = 3 := by
    have hmask : ins &&& 0x7f = ins % 128 := Nat.and_two_pow_sub_one_eq_mod ins 7
    omega
  have hfield : ins >>> 12 &&& 0x7 = op.funct3 := by
    have hmask : ins >>> 12 &&& 0x7 = ins >>> 12 % 8 := Nat.and_two_pow_sub_one_eq_mod _ 3
    rw [hmask, Nat.shiftRight_eq_div_pow]
    omega
  have hreg : ins >>> 7 &&& 0x1f = rd := by
    have hmask : ins >>> 7 &&& 0x1f = ins >>> 7 % 32 := Nat.and_two_pow_sub_one_eq_mod _ 5
    rw [hmask, Nat.shiftRight_eq_div_pow]
    omega
  unfold insLdstDecode
  rw [hlow, hopcode, hfield, hreg]
  cases op <;> rfl

/-- The decoder reads a `C.LW`. -/
theorem insLdstDecode_clw (rd rs1 immHigh : Fin 8) (immLow : Fin 4) :
    insLdstDecode xlen (RvLoad.clw rd rs1 immHigh immLow).encoding =
      some ⟨4, xlen / 8, false, rd + 8, true⟩ := by
  have hlow : ∀ rd rs1 immHigh : Fin 8, ∀ immLow : Fin 4,
      (RvLoad.clw rd rs1 immHigh immLow).encoding &&& 3 = 0 := by decide +kernel
  have hopcode : ∀ rd rs1 immHigh : Fin 8, ∀ immLow : Fin 4,
      (RvLoad.clw rd rs1 immHigh immLow).encoding &&& 0xe003 = 0x4000 := by decide +kernel
  have hreg : ∀ rd rs1 immHigh : Fin 8, ∀ immLow : Fin 4,
      (RvLoad.clw rd rs1 immHigh immLow).encoding >>> 2 &&& 0x7 = rd := by decide +kernel
  unfold insLdstDecode
  rw [hlow, hopcode, hreg]
  rfl

/-- A load that faults, with how the trap presents it: the instruction is in
memory at the program counter, or `htinst` has it. -/
structure RvLoadTrap (xlen : Nat) where
  instr : RvLoad
  trap : RvTrap
  fetch : Nat → Nat
  emul : Nat → Option (RvDevice xlen)
  cpu : RvCpu xlen
  legal : 8 * instr.op.bytes ≤ xlen
  aligned : cpu.pc.toNat % 2 = 0
  presented :
    trap.htinst = 0 ∧ fetch cpu.pc.toNat = instr.encoding % 0x10000 ∧
        (instr.size = 4 → fetch ((cpu.pc.toNat + 2) % 2 ^ xlen) = instr.encoding / 0x10000) ∨
      ∃ addrOffset, trap.htinst = instr.transformed addrOffset

namespace RvLoadTrap

/-- **Every load is decoded** to its width, sign and destination, and its size is
known, however the trap presents it. -/
theorem decodes (T : RvLoadTrap xlen) :
    ∃ ins, faultingIns xlen T.fetch T.trap.htinst T.cpu.pc.toNat = some (ins, T.instr.size) ∧
      insLdstDecode xlen ins =
        some ⟨T.instr.op.bytes, xlen / 8, false, T.instr.rd, T.instr.op.signed⟩ := by
  obtain ⟨instr, trap, fetch, emul, cpu, -, haligned, hpresented⟩ := T
  dsimp only at hpresented haligned ⊢
  unfold faultingIns
  rcases hpresented with ⟨hzero, hlow, hhigh⟩ | ⟨addrOffset, htinst⟩
  · have hbit : cpu.pc.toNat &&& 0x1 = 0 := by
      have hmask : cpu.pc.toNat &&& 0x1 = cpu.pc.toNat % 2 := Nat.and_two_pow_sub_one_eq_mod _ 1
      omega
    rw [if_pos hzero]
    unfold readIns
    rw [if_neg (not_not.mpr hbit), hlow]
    cases instr with
    | full op rd rs1 imm =>
        have hfunct3 := op.funct3_lt
        have hrd := rd.isLt
        have hrs1 := rs1.isLt
        have hform : (RvLoad.full op rd rs1 imm).encoding =
          imm * 0x100000 + rs1 * 0x8000 + op.funct3 * 0x1000 + rd * 0x80 + 0x03 := rfl
        dsimp only
        generalize (RvLoad.full op rd rs1 imm).encoding = ins at hform hlow hhigh ⊢
        have hmask : ∀ a, a &&& 3 = a % 4 := fun a => Nat.and_two_pow_sub_one_eq_mod a 2
        have hthree : ins % 0x10000 &&& 3 = 3 := by
          rw [hmask]
          omega
        have hwhole : ins % 0x10000 ||| (ins / 0x10000) <<< 16 = ins := by
          rw [Nat.or_comm, ← Nat.shiftLeft_add_eq_or_of_lt
            (Nat.mod_lt _ (show 0 < 2 ^ 16 by decide)), Nat.shiftLeft_eq]
          omega
        have hend : ins &&& 3 = 3 := by
          rw [hmask]
          omega
        rw [if_pos hthree, hhigh rfl, hwhole]
        refine ⟨ins, ?_, @insLdstDecode_full xlen ins op rd hrd (by omega)⟩
        rw [Option.map_some, if_pos hend]
        rfl
    | clw rd rs1 immHigh immLow =>
        have hsmall : ∀ rd rs1 immHigh : Fin 8, ∀ immLow : Fin 4,
            (RvLoad.clw rd rs1 immHigh immLow).encoding % 0x10000 =
              (RvLoad.clw rd rs1 immHigh immLow).encoding := by decide +kernel
        have hzero : ∀ rd rs1 immHigh : Fin 8, ∀ immLow : Fin 4,
            (RvLoad.clw rd rs1 immHigh immLow).encoding &&& 3 = 0 := by decide +kernel
        have hnot : ¬ (RvLoad.clw rd rs1 immHigh immLow).encoding &&& 3 = 3 := by
          rw [hzero]
          decide
        dsimp only
        rw [hsmall, if_neg hnot]
        refine ⟨(RvLoad.clw rd rs1 immHigh immLow).encoding, ?_, insLdstDecode_clw ..⟩
        rw [Option.map_some, if_neg hnot]
        rfl
  · have hoffset := addrOffset.isLt
    rw [htinst]
    cases instr with
    | full op rd rs1 imm =>
        have hfunct3 := op.funct3_lt
        have hrd := rd.isLt
        have hform : (RvLoad.full op rd rs1 imm).transformed addrOffset =
          addrOffset * 0x8000 + op.funct3 * 0x1000 + rd * 0x80 + 0x03 := rfl
        generalize (RvLoad.full op rd rs1 imm).transformed addrOffset = ins at hform ⊢
        have hfour : ins % 4 = 3 := by omega
        have hor : ins ||| 2 = ins := by
          rw [or_two, hfour]
          change ins / 4 * 4 + 3 = ins
          omega
        have hand : ins &&& 2 = 2 := by
          rw [and_two, hfour]
          rfl
        refine ⟨ins, ?_, @insLdstDecode_full xlen ins op rd hrd (by omega)⟩
        rw [if_neg (by omega), if_neg (by omega), hor, hand]
        rfl
    | clw rd rs1 immHigh immLow =>
        have hrd := rd.isLt
        have hform : (RvLoad.clw rd rs1 immHigh immLow).transformed addrOffset =
          addrOffset * 0x8000 + 2 * 0x1000 + (rd + 8) * 0x80 + 0x01 := rfl
        generalize (RvLoad.clw rd rs1 immHigh immLow).transformed addrOffset = ins at hform ⊢
        have hfour : ins % 4 = 1 := by omega
        have hor : ins ||| 2 = ins + 2 := by
          rw [or_two, hfour]
          change ins / 4 * 4 + 3 = ins + 2
          omega
        have hand : ins &&& 2 = 0 := by
          rw [and_two, hfour]
          rfl
        refine ⟨ins + 2, ?_, @insLdstDecode_full xlen _ .lw (rd + 8) (by omega) ?_⟩
        · rw [if_neg (by omega), if_neg (by omega), hor, hand]
          rfl
        · change _ = 2 * 0x1000 + _ + _
          omega

/-- What the device's handler does with the load. -/
def result (T : RvLoadTrap xlen) : Option (Option (BitVec xlen)) :=
  (T.emul (T.trap.addr xlen)).bind fun device =>
    device.handler (T.trap.addr xlen)
      ⟨T.instr.op.bytes, xlen / 8, false, T.instr.rd, T.instr.op.signed⟩
      ((T.cpu.readreg T.instr.rd).setWidth 64)

/-- The value that the device returns; a register that takes stores only reads
as zero. -/
def returned (T : RvLoadTrap xlen) : BitVec xlen := T.result.join.getD 0

/-- The vCPU after the trap. -/
def after (T : RvLoadTrap xlen) : RvCpu xlen :=
  (rvGuestPageFault T.emul T.fetch T.trap T.cpu).1

/-- The trap ends in `ERROR`. -/
def stops (T : RvLoadTrap xlen) : Bool := (rvGuestPageFault T.emul T.fetch T.trap T.cpu).2

/-- **A load that follows the ISA**: unless the CPU is stopped, the destination
has the accessed bytes as the load extends them, `x0` is zero, the other
registers stay, and the program counter is behind the load. -/
structure FollowsIsa (T : RvLoadTrap xlen) : Prop where
  dest : T.stops = false → T.instr.rd ≠ 0 →
    T.after.readreg T.instr.rd = T.instr.op.extend T.returned
  zero : T.after.readreg 0 = 0
  others : ∀ reg, reg ≠ T.instr.rd → T.after.readreg reg = T.cpu.readreg reg
  pc : T.stops = false → T.after.pc = T.cpu.pc + BitVec.ofNat xlen T.instr.size

/-- The condition on what the device does: it refuses, the destination is `x0`,
or it returns a value that the load can leave in a register; where it returns
none, the destination must be zero before. -/
def Representable (T : RvLoadTrap xlen) : Prop :=
  match T.result with
  | none => True
  | some none => T.instr.rd = 0 ∨ T.cpu.readreg T.instr.rd = 0
  | some (some val) => T.instr.rd = 0 ∨ T.instr.op.InRange val

end RvLoadTrap

theorem RvLoad.rd_lt (i : RvLoad) : i.rd < 32 := by
  cases i with
  | full op rd rs1 imm => exact rd.isLt
  | clw rd rs1 immHigh immLow =>
      have hrd := rd.isLt
      change (rd : Nat) + 8 < 32
      omega

namespace RvLoadOp

theorem extend_eq_iff {op : RvLoadOp} (hlegal : 8 * op.bytes ≤ xlen) (val : BitVec xlen) :
    op.extend val = val ↔ op.InRange val := by
  have hpos : 0 < 8 * op.bytes := by cases op <;> decide
  unfold extend InRange
  generalize 8 * op.bytes = n at hlegal hpos ⊢
  obtain ⟨k, hk⟩ := Nat.exists_eq_succ_of_ne_zero (Nat.ne_of_gt hpos)
  cases op.signed with
  | true =>
      have hsame : ((val.setWidth n).signExtend xlen).toInt = val.toInt.bmod (2 ^ n) := by
        rw [BitVec.toInt_signExtend_of_le hlegal, BitVec.toInt_setWidth, BitVec.toInt_eq_toNat_bmod,
          Int.bmod_bmod_of_dvd (Nat.pow_dvd_pow 2 hlegal)]
      have hpow : ((2 ^ n : Nat) : Int) = 2 * 2 ^ k := by
        rw [hk, Nat.pow_succ]
        push_cast
        omega
      have hbound : (2 : Int) ^ (n - 1) = 2 ^ k := by rw [hk, Nat.succ_sub_one]
      rw [if_pos rfl, if_pos rfl, ← BitVec.toInt_inj, hsame, hbound]
      constructor
      · intro heq
        have hlow := @Int.le_bmod val.toInt (2 ^ n) (Nat.two_pow_pos n)
        have hhigh := @Int.bmod_lt val.toInt (2 ^ n) (Nat.two_pow_pos n)
        rw [heq, hpow] at hlow hhigh
        omega
      · intro hrange
        apply Int.bmod_eq_of_le
        · rw [hpow]
          omega
        · rw [hpow]
          omega
  | false =>
      have hle : 2 ^ n ≤ 2 ^ xlen := Nat.pow_le_pow_right (by decide) hlegal
      rw [if_neg Bool.false_ne_true, if_neg Bool.false_ne_true, ← BitVec.toNat_inj,
        BitVec.toNat_setWidth, BitVec.toNat_setWidth]
      have hlt : val.toNat % 2 ^ n < 2 ^ n := Nat.mod_lt _ (Nat.two_pow_pos n)
      rw [Nat.mod_eq_of_lt (Nat.lt_of_lt_of_le hlt hle)]
      constructor
      · intro heq
        rw [heq] at hlt
        exact hlt
      · exact Nat.mod_eq_of_lt

theorem extend_zero {op : RvLoadOp} (hlegal : 8 * op.bytes ≤ xlen) :
    op.extend (0 : BitVec xlen) = 0 := by
  refine (extend_eq_iff hlegal _).mpr ?_
  unfold InRange
  cases op <;> simp [signed, bytes]

end RvLoadOp

namespace RvCpu

variable {cpu : RvCpu xlen} {reg : Nat} {val : BitVec xlen}

theorem readreg_writereg (hreg : reg ≠ 0) (hlt : reg < 32) :
    (cpu.writereg reg val).readreg reg = val := by
  unfold writereg readreg
  rw [if_neg (by omega), if_neg (by omega)]
  exact atCpu_same ..

theorem readreg_writereg_other {r : Nat} (hr : r ≠ reg) :
    (cpu.writereg reg val).readreg r = cpu.readreg r := by
  unfold writereg
  split
  · rfl
  · unfold readreg
    split
    · rfl
    · exact atCpu_other _ _ hr

theorem writereg_pc : (cpu.writereg reg val).pc = cpu.pc := by
  unfold writereg
  split <;> rfl

end RvCpu

namespace RvLoadTrap

theorem run (T : RvLoadTrap xlen) :
    rvGuestPageFault T.emul T.fetch T.trap T.cpu =
      match T.result with
      | none => (T.cpu, true)
      | some none => (T.cpu.step T.instr.size, false)
      | some (some val) => ((T.cpu.writereg T.instr.rd val).step T.instr.size, false) := by
  obtain ⟨ins, hins, hdecode⟩ := T.decodes
  unfold rvGuestPageFault guestPageFaultHandler result
  cases hdevice : T.emul (T.trap.addr xlen) with
  | none => rfl
  | some device =>
      rw [hins]
      dsimp only [Option.bind_some]
      rw [hdecode]
      dsimp only [Option.bind_some]
      cases device.handler (T.trap.addr xlen)
          ⟨T.instr.op.bytes, xlen / 8, false, T.instr.rd, T.instr.op.signed⟩
          ((T.cpu.readreg T.instr.rd).setWidth 64) with
      | none => rfl
      | some answer => cases answer <;> rfl

theorem followsIsa_iff (T : RvLoadTrap xlen) : T.FollowsIsa ↔ T.Representable := by
  have hrun := T.run
  have hlt := T.instr.rd_lt
  unfold Representable
  cases hresult : T.result with
  | none =>
      rw [hresult] at hrun
      have hafter : T.after = T.cpu := congrArg Prod.fst hrun
      have hstops : T.stops = true := congrArg Prod.snd hrun
      refine iff_of_true ⟨fun h => ?_, rfl, fun reg _ => by rw [hafter], fun h => ?_⟩ trivial
      · cases hstops.symm.trans h
      · cases hstops.symm.trans h
  | some answer =>
      cases answer with
      | none =>
          rw [hresult] at hrun
          have hafter : T.after = T.cpu.step T.instr.size := congrArg Prod.fst hrun
          have hstops : T.stops = false := congrArg Prod.snd hrun
          have hzero : T.instr.op.extend T.returned = 0 := by
            unfold returned
            rw [hresult]
            exact RvLoadOp.extend_zero T.legal
          constructor
          · intro h
            by_cases hrd : T.instr.rd = 0
            · exact Or.inl hrd
            · have hdest := h.dest hstops hrd
              rw [hafter, hzero] at hdest
              exact Or.inr hdest
          · intro h
            refine ⟨fun _ hrd => ?_, rfl, fun reg _ => by rw [hafter]; rfl, fun _ => by rw [hafter]; rfl⟩
            rw [hafter, hzero]
            exact h.resolve_left hrd
      | some val =>
          rw [hresult] at hrun
          have hafter : T.after = (T.cpu.writereg T.instr.rd val).step T.instr.size :=
            congrArg Prod.fst hrun
          have hstops : T.stops = false := congrArg Prod.snd hrun
          have hreturned : T.returned = val := by
            unfold returned
            rw [hresult]
            rfl
          have hread : ∀ reg, T.after.readreg reg = (T.cpu.writereg T.instr.rd val).readreg reg := by
            intro reg
            rw [hafter]
            rfl
          constructor
          · intro h
            by_cases hrd : T.instr.rd = 0
            · exact Or.inl hrd
            · have hdest := h.dest hstops hrd
              rw [hread, RvCpu.readreg_writereg hrd hlt, hreturned] at hdest
              exact Or.inr ((RvLoadOp.extend_eq_iff T.legal val).mp hdest.symm)
          · intro h
            refine ⟨fun _ hrd => ?_, rfl, fun reg hreg => ?_, fun _ => ?_⟩
            · rw [hread, RvCpu.readreg_writereg hrd hlt, hreturned]
              exact ((RvLoadOp.extend_eq_iff T.legal val).mpr (h.resolve_left hrd)).symm
            · rw [hread, RvCpu.readreg_writereg_other hreg]
            · rw [hafter]
              exact congrArg (· + _) RvCpu.writereg_pc

end RvLoadTrap

/-- **Emulated loads.**  A load follows the ISA exactly if the value that the
handler writes is one that the load can leave in a register; an instruction that
is not accepted changes nothing. -/
theorem rv_loads_follow_isa_iff (xlen : Nat) :
    (∀ T : RvLoadTrap xlen, T.FollowsIsa ↔ T.Representable) ∧
      ∀ (emul : Nat → Option (RvDevice xlen)) (fetch : Nat → Nat) (t : RvTrap) (cpu : RvCpu xlen),
        (∀ ins ∈ faultingIns xlen fetch t.htinst cpu.pc.toNat, insLdstDecode xlen ins.1 = none) →
          (rvGuestPageFault emul fetch t cpu).1 = cpu := by
  refine ⟨fun T => T.followsIsa_iff, fun emul fetch t cpu hnone => ?_⟩
  have hstop : guestPageFaultHandler emul fetch t cpu = none := by
    unfold guestPageFaultHandler
    cases emul (t.addr xlen) with
    | none => rfl
    | some device =>
        cases hins : faultingIns xlen fetch t.htinst cpu.pc.toNat with
        | none => rfl
        | some ins =>
            dsimp only [Option.bind_some]
            rw [hnone ins hins]
            rfl
  unfold rvGuestPageFault
  rw [hstop]

/-- `LW` of a priority of 0x80000000 on RV64: the upper half stays zero. -/
theorem rv_lw_zero_extends : ¬ RvLoadTrap.FollowsIsa (
    { instr := .full .lw 10 0 0
      trap := ⟨0x3000001, 0, 0x2503⟩
      fetch := fun _ => 0
      emul := fun _ => some (.plicGlobal
        ⟨1, 1, id, fun _ => false, Nat.le_refl 1, fun _ h => h, fun _ _ h => h⟩ 0
        (vplicBoot.updRegs fun r => r.setPrio 1 0x80000000#32))
      cpu := ⟨fun _ => 0, 0⟩
      legal := by decide
      aligned := rfl
      presented := Or.inr ⟨0, rfl⟩ } : RvLoadTrap 64) := by
  intro h
  have hdest := h.dest (by decide +kernel) (by decide)
  exact absurd hdest (by decide +kernel)

end Bao

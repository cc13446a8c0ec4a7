import BaoHypervisor.Bitmap
import BaoHypervisor.ByteLanes

/-!
# The emulated INTC2 of RH850

The handler of the guests' accesses to the INTC2 window, from `vintc.c`.  The
window is a bit-addressed memory: byte `o` of the window holds the bits from
`8 * o` on.  `unsigned long` and `size_t` have 32 bits on this architecture,
so an offset below the start of a register array gives an index that wraps.
-/

namespace Bao

open BitMemory

/-- `INTC2_EIC_OFFSET` and the offsets of the other register groups. -/
def intc2EicOffset : Nat := 0x0000
def intc2ImrOffset : Nat := 0x1000
def intc2EibdOffset : Nat := 0x2000
def intc2EeicOffset : Nat := 0x4000
def intc2OffsetMask : Nat := 0x7000

/-- `offsetof(struct intc2, EIC)` and those of the other arrays. -/
def intc2Eic : Nat := 0x0040
def intc2Imr : Nat := 0x1004
def intc2Eibd : Nat := 0x2080
def intc2Eeic : Nat := 0x4080

/-- The size of the window, `ALIGN(sizeof(struct intc2), PAGE_SIZE)`. -/
def intc2Size : Nat := 0x6000

/-- `INTC_EIBD_PEID_MASK` and `INTC_EIBD_HYP_MASK`. -/
def intcEibdPeidMask : BitVec 32 := 0x7#32
def intcEibdHypMask : BitVec 32 := ~~~intcEibdPeidMask

/-- The platform: where the INTC2 is and how many interrupts there are. -/
structure Intc2Plat where
  intc2Hw : Nat
  aligned : intc2Hw % 4 = 0
  maxInterrupts : Nat
  maxInterrupts_le : maxInterrupts ≤ 2048

/-- What the handler reads of a `struct vm`: the memory from its
`interrupt_bitmap` on, its vCPUs and the mask of its cores.  RH850 has at most
eight cores. -/
structure Intc2Vm where
  interruptBitmap : Store
  cpuNum : Nat
  physId : Nat → Nat
  cpus : Nat
  cpuNum_pos : 0 < cpuNum
  physId_lt : ∀ i, i < cpuNum → physId i < 8

/-- `enum emul_arch_bwop`. -/
inductive EmulArchBwop where
  | no
  | set1
  | not1
  | clr1
  | tst1
  deriving DecidableEq, Repr

/-- `struct emul_access` as `decode_access` fills it, for an address of the
window; `ds` is the field of `MEI` that gives the width. -/
structure Intc2Access (P : Intc2Plat) where
  addr : Nat
  lower : P.intc2Hw ≤ addr
  upper : addr < P.intc2Hw + intc2Size
  ds : Fin 8
  write : Bool
  signExt : Bool
  reg : Fin 32
  bwop : EmulArchBwop
  bit : Fin 8

/-- The window and, of the accessing vCPU, the general registers and the
guest's `PSW.Z`. -/
structure Intc2State where
  intc2 : Store
  r : Fin 32 → BitVec 32
  pswZ : Bool

variable {P : Intc2Plat}

/-- `ds_to_width`. -/
def Intc2Access.width (acc : Intc2Access P) : Nat := 2 ^ acc.ds.val

/-- `acc->addr - (unsigned long)intc2_hw`. -/
def Intc2Access.offset (acc : Intc2Access P) : Nat := acc.addr - P.intc2Hw

/-- `vm_has_interrupt`: beyond the bitmap it reads what follows it. -/
def Intc2Vm.hasInterrupt (vm : Intc2Vm) (intId : Nat) : Bool :=
  bitmapGet vm.interruptBitmap 0 intId

/-- `vm_translate_to_pcpuid`; `INVALID_CPUID` is `none`. -/
def Intc2Vm.translateToPcpuid (vm : Intc2Vm) (vcpuid : Nat) : Option Nat :=
  if vcpuid < vm.cpuNum then some (vm.physId vcpuid) else none

/-- `vm_translate_to_vcpuid`: the number of the VM's cores below `pcpuid`. -/
def Intc2Vm.translateToVcpuid (vm : Intc2Vm) (pcpuid : Nat) : Option Nat :=
  if vm.cpus.testBit pcpuid then some ((List.range pcpuid).countP fun c => vm.cpus.testBit c)
  else none

/-- `vcpu_readreg`. -/
def Intc2State.readreg (s : Intc2State) (reg : Fin 32) : BitVec 32 :=
  if reg = 0 then 0#32 else s.r reg

/-- `vcpu_writereg`. -/
def Intc2State.writereg (s : Intc2State) (reg : Fin 32) (val : BitVec 32) : Intc2State :=
  { s with r := fun k => if reg ≠ 0 ∧ k = reg then val else s.r k }

/-- `emul_arch_bwop_emul_acc`: the new byte and `PSW.Z`; a test is refused. -/
def emulArchBwopEmulAcc (bwop : EmulArchBwop) (bit : Nat) (curVal : BitVec 8) :
    Option (BitVec 8 × Bool) :=
  let bitmask := 1#8 <<< bit
  let z := curVal &&& bitmask == 0#8
  match bwop with
  | .set1 => some (curVal ||| bitmask, z)
  | .not1 => some (curVal ^^^ bitmask, z)
  | .clr1 => some (curVal &&& ~~~bitmask, z)
  | _ => none

/-- The bit operation on the byte at `byteAddr`. -/
def bwopAccess (acc : Intc2Access P) (byteAddr : Nat) (s : Intc2State) : Option Intc2State :=
  (emulArchBwopEmulAcc acc.bwop acc.bit (word 8 s.intc2 (8 * byteAddr))).map fun (val, z) =>
    { s with intc2 := setWord s.intc2 (8 * byteAddr) val, pswZ := z }

/-- `(acc_intc2_offset - bot) / size`. -/
def regIdx (bot size offset : Nat) : Nat := (offset + 2 ^ 32 - bot) % 2 ^ 32 / size

/-- The offset of entry `idx` of the array at `bot`. -/
def tgtReg (bot size idx : Nat) : Nat := (bot + size * idx) % 2 ^ 32

/-- `BIT_MASK(0, acc->width * 8)`. -/
def Intc2Access.mask (acc : Intc2Access P) : BitVec 32 := granuleMask 0 (acc.width * 8)

/-- The access to a register of `w` bits that belongs to one interrupt:
`stored` is what a store puts into the accessed bytes, `loaded` what a load
takes them from. -/
def emulateRegAccess (w bot : Nat) (stored : BitVec w → BitVec 32 → BitVec 32)
    (loaded : BitVec w → Option (BitVec 32)) (vm : Intc2Vm) (acc : Intc2Access P)
    (s : Intc2State) : Option Intc2State :=
  let regIdx := regIdx bot (w / 8) acc.offset
  let addrOff := acc.addr % (w / 8)
  let tgt := tgtReg bot (w / 8) regIdx
  let intId := (regIdx + 32) % 2 ^ 32
  let cur := word w s.intc2 (8 * tgt)
  if vm.hasInterrupt intId then
    if acc.bwop ≠ .no then bwopAccess acc (tgt + addrOff) s
    else if acc.write then
      let val := stored cur (s.readreg acc.reg)
      some { s with
        intc2 := setWord s.intc2 (8 * tgt)
          ((mergeLane (cur.setWidth 32) val acc.mask (8 * addrOff)).setWidth w) }
    else
      (loaded cur).map fun val => s.writereg acc.reg
        (signExtendLane acc.signExt (acc.width * 8) (laneOf val acc.mask (8 * addrOff)) acc.mask)
  else if !acc.write then some (s.writereg acc.reg 0#32)
  else some s

/-- `emulate_intc_eic_access`. -/
def emulateIntcEicAccess (vm : Intc2Vm) (acc : Intc2Access P) (s : Intc2State) :
    Option Intc2State :=
  if acc.width > 2 then some s
  else emulateRegAccess 16 intc2Eic (fun _ val => val) (fun cur => some (cur.setWidth 32)) vm acc s

/-- `emulate_intc_eeic_access`. -/
def emulateIntcEeicAccess (vm : Intc2Vm) (acc : Intc2Access P) (s : Intc2State) :
    Option Intc2State :=
  emulateRegAccess 32 intc2Eeic (fun _ val => val) some vm acc s

/-- The physical core of a store to EIBD: an invalid one is sanitized to that
of the first vCPU. -/
def Intc2Vm.physPeid (vm : Intc2Vm) (val : BitVec 32) : Nat :=
  match vm.translateToPcpuid (val &&& 0x7#32).toNat with
  | some physPeid => physPeid
  | none => (vm.translateToPcpuid 0).getD (2 ^ 32 - 1)

/-- What a store puts into EIBD. -/
def eibdStored (vm : Intc2Vm) (cur val : BitVec 32) : BitVec 32 :=
  (cur &&& intcEibdHypMask) ||| (BitVec.ofNat 32 (vm.physPeid val) &&& intcEibdPeidMask)

/-- What a load takes from EIBD; a core that is not the VM's is an error. -/
def eibdLoaded (vm : Intc2Vm) (cur : BitVec 32) : Option (BitVec 32) :=
  (vm.translateToVcpuid (cur &&& 0x7#32).toNat).map fun virtPeid =>
    BitVec.ofNat 32 virtPeid &&& intcEibdPeidMask

/-- `emulate_intc_eibd_access`. -/
def emulateIntcEibdAccess (vm : Intc2Vm) (acc : Intc2Access P) (s : Intc2State) :
    Option Intc2State :=
  emulateRegAccess 32 intc2Eibd (eibdStored vm) (eibdLoaded vm) vm acc s

/-- The loop of a store to IMR: the VM's bits are taken from the value. -/
def imrStored (vm : Intc2Vm) (firstImrInt : Nat) (val cur : BitVec 32) : BitVec 32 :=
  (List.range 32).foldl (fun writeVal i =>
    if !vm.hasInterrupt ((i + firstImrInt) % 2 ^ 32) then writeVal
    else if (1#32 <<< i) &&& val != 0#32 then writeVal ||| 1#32 <<< i
    else writeVal &&& ~~~(1#32 <<< i)) cur

/-- The loop of a load from IMR: only the VM's bits are shown. -/
def imrLoaded (vm : Intc2Vm) (firstImrInt : Nat) (imrVal : BitVec 32) : BitVec 32 :=
  (List.range 32).foldl (fun val i =>
    if !vm.hasInterrupt ((i + firstImrInt) % 2 ^ 32) then val
    else if (1#32 <<< i) &&& imrVal != 0#32 then val ||| 1#32 <<< i
    else val) 0#32

/-- `emulate_intc_imr_access`: a bit operation asks for no interrupt. -/
def emulateIntcImrAccess (vm : Intc2Vm) (acc : Intc2Access P) (s : Intc2State) :
    Option Intc2State :=
  let regIdx := regIdx intc2Imr 4 acc.offset
  let addrOff := acc.addr % 4
  let firstImrInt := (regIdx * 32 % 2 ^ 32 + 32) % 2 ^ 32
  let tgt := tgtReg intc2Imr 4 regIdx
  let cur := word 32 s.intc2 (8 * tgt)
  if acc.bwop ≠ .no then bwopAccess acc (tgt + addrOff) s
  else if acc.write then
    let writeVal := imrStored vm firstImrInt (s.readreg acc.reg) cur
    some { s with
      intc2 := setWord s.intc2 (8 * tgt) (mergeLane cur writeVal acc.mask (8 * addrOff)) }
  else
    let val := imrLoaded vm firstImrInt cur
    some (s.writereg acc.reg
      (signExtendLane acc.signExt (acc.width * 8) (laneOf val acc.mask (8 * addrOff)) acc.mask))

/-- `vintc2_emul_handler`; `none` is an `ERROR`, after which nothing runs. -/
def vintc2EmulHandler (vm : Intc2Vm) (acc : Intc2Access P) (s : Intc2State) :
    Option (Bool × Intc2State) :=
  if acc.addr % acc.width = 0 ∧ acc.width ≤ 4 then
    let baseRegId := acc.offset &&& intc2OffsetMask
    if baseRegId = intc2EicOffset then (emulateIntcEicAccess vm acc s).map (true, ·)
    else if baseRegId = intc2ImrOffset then (emulateIntcImrAccess vm acc s).map (true, ·)
    else if baseRegId = intc2EibdOffset then (emulateIntcEibdAccess vm acc s).map (true, ·)
    else if baseRegId = intc2EeicOffset then (emulateIntcEeicAccess vm acc s).map (true, ·)
    else some (false, s)
  else if !acc.write then some (true, s.writereg acc.reg 0#32)
  else some (true, s)

variable {vm : Intc2Vm} {acc : Intc2Access P} {s s' : Intc2State}

/-- The handler looks at the access: it is aligned and at most a word. -/
def Intc2Access.decoded (acc : Intc2Access P) : Prop :=
  acc.addr % acc.width = 0 ∧ acc.width ≤ 4

/-- The first interrupt of the accessed IMR register. -/
def Intc2Access.firstImrInt (acc : Intc2Access P) : Nat :=
  (regIdx intc2Imr 4 acc.offset * 32 % 2 ^ 32 + 32) % 2 ^ 32

/-- What a bit operation makes of a bit. -/
def EmulArchBwop.apply : EmulArchBwop → Bool → Bool
  | .set1, _ => true
  | .not1, b => !b
  | .clr1, _ => false
  | _, b => b

theorem and_intc2OffsetMask {n : Nat} (h : n < intc2Size) :
    n &&& intc2OffsetMask = 0x1000 * (n / 0x1000) := by
  have hsplit : intc2OffsetMask = 7 <<< 12 := rfl
  have hshift : n &&& (7 <<< 12) = ((n >>> 12) &&& 7) <<< 12 := by
    apply Nat.eq_of_testBit_eq
    intro i
    simp only [Nat.testBit_and, Nat.testBit_shiftLeft, Nat.testBit_shiftRight]
    by_cases hi : 12 ≤ i
    · have hback : 12 + (i - 12) = i := by omega
      simp [hi, hback]
    · simp [hi]
  have hmod : (n >>> 12) &&& 7 = n / 0x1000 := by
    have hand := Nat.and_two_pow_sub_one_eq_mod (n >>> 12) 3
    rw [Nat.shiftRight_eq_div_pow] at hand ⊢
    have hlt : n / 2 ^ 12 < 2 ^ 3 := by
      rw [intc2Size] at h
      omega
    rw [Nat.mod_eq_of_lt hlt] at hand
    exact hand
  rw [hsplit, hshift, hmod, Nat.shiftLeft_eq, Nat.mul_comm]

theorem Intc2Access.offset_lt (acc : Intc2Access P) : acc.offset < intc2Size := by
  have hlo := acc.lower
  have hhi := acc.upper
  rw [Intc2Access.offset]
  omega

theorem Intc2Access.addr_mod {k : Nat} (acc : Intc2Access P) (hk : k ∣ 4) :
    acc.addr % k = acc.offset % k := by
  have hlo := acc.lower
  have hal := P.aligned
  obtain ⟨c, hc⟩ := hk
  have haddr : acc.addr = acc.offset + P.intc2Hw := by
    rw [Intc2Access.offset]
    omega
  have hbase : P.intc2Hw % k = 0 := by
    apply Nat.mod_eq_zero_of_dvd
    exact Nat.dvd_trans ⟨c, hc⟩ (Nat.dvd_of_mod_eq_zero hal)
  rw [haddr, Nat.add_mod, hbase, Nat.add_zero, Nat.mod_mod]

theorem Intc2Access.decoded.width_cases (h : acc.decoded) :
    acc.width = 1 ∨ acc.width = 2 ∨ acc.width = 4 := by
  have hle := h.2
  unfold Intc2Access.width at hle ⊢
  have hds : acc.ds.val ≤ 2 := by
    apply Nat.le_of_not_lt
    intro hgt
    have hpow : 2 ^ 3 ≤ 2 ^ acc.ds.val := Nat.pow_le_pow_right (by decide) (by omega)
    omega
  have hcases : acc.ds.val = 0 ∨ acc.ds.val = 1 ∨ acc.ds.val = 2 := by omega
  rcases hcases with h0 | h1 | h2
  · rw [h0]
    exact Or.inl rfl
  · rw [h1]
    exact Or.inr (Or.inl rfl)
  · rw [h2]
    exact Or.inr (Or.inr rfl)

theorem Intc2Access.decoded.width_pos (h : acc.decoded) : 0 < 8 * acc.width := by
  rcases h.width_cases with hw | hw | hw <;> rw [hw] <;> decide

theorem Intc2Access.decoded.offset_mod (h : acc.decoded) : acc.offset % acc.width = 0 := by
  have hdvd : acc.width ∣ 4 := by
    rcases h.width_cases with hw | hw | hw <;> rw [hw] <;> decide
  rw [← acc.addr_mod hdvd]
  exact h.1

theorem Intc2Access.decoded.isMask (h : acc.decoded) :
    IsMask acc.mask 0 (acc.width * 8) := by
  apply isMask_granuleMask
  · rcases h.width_cases with hw | hw | hw <;> omega
  · rcases h.width_cases with hw | hw | hw <;> omega

theorem tgtReg_regIdx {bot size n : Nat} (hsize : size = 2 ∨ size = 4) (hbot : bot % size = 0)
    (hlt : bot < 2 ^ 32) (hn : n < intc2Size) :
    tgtReg bot size (regIdx bot size n) = n - n % size := by
  unfold tgtReg regIdx
  rw [intc2Size] at hn
  rcases hsize with rfl | rfl
  · omega
  · omega

/-! ## What an access does to the bits -/

/-- One bit of the store is replaced. -/
def putBit (m : Store) (p : Nat) (v : Bool) : Store := fun b => if b = p then v else m b

theorem emulArchBwopEmulAcc_spec {bwop : EmulArchBwop} {bit : Nat} {curVal val : BitVec 8}
    {z : Bool} (hbit : bit < 8) (h : emulArchBwopEmulAcc bwop bit curVal = some (val, z)) :
    z = !curVal.getLsbD bit ∧ ∀ j, j < 8 → val.getLsbD j =
      if j = bit then bwop.apply (curVal.getLsbD bit) else curVal.getLsbD j := by
  have hz : (curVal &&& 1#8 <<< bit == 0#8) = !curVal.getLsbD bit := by
    rw [← oneBit_and_ne_zero hbit curVal, BitVec.and_comm, bne, Bool.not_not]
  unfold emulArchBwopEmulAcc at h
  dsimp only at h
  rw [hz] at h
  have hmask : ∀ j, j < 8 → (1#8 <<< bit).getLsbD j = decide (j = bit) :=
    fun j hj => WordRegs.getLsbD_mask hj
  cases bwop with
  | no => exact absurd h (Option.some_ne_none _).symm
  | tst1 => exact absurd h (Option.some_ne_none _).symm
  | set1 =>
      simp only [Option.some.injEq, Prod.mk.injEq] at h
      refine ⟨h.2.symm, fun j hj => ?_⟩
      rw [← h.1, BitVec.getLsbD_or, hmask j hj]
      by_cases hji : j = bit <;> simp [hji, EmulArchBwop.apply]
  | not1 =>
      simp only [Option.some.injEq, Prod.mk.injEq] at h
      refine ⟨h.2.symm, fun j hj => ?_⟩
      rw [← h.1, BitVec.getLsbD_xor, hmask j hj]
      by_cases hji : j = bit <;> simp [hji, EmulArchBwop.apply]
  | clr1 =>
      simp only [Option.some.injEq, Prod.mk.injEq] at h
      refine ⟨h.2.symm, fun j hj => ?_⟩
      rw [← h.1, BitVec.getLsbD_and, BitVec.getLsbD_not, hmask j hj]
      by_cases hji : j = bit <;> simp [hji, hj, EmulArchBwop.apply]

theorem bwopAccess_spec {byteAddr : Nat} (h : bwopAccess acc byteAddr s = some s') :
    s' = { s with
      intc2 := putBit s.intc2 (8 * byteAddr + acc.bit)
        (acc.bwop.apply (s.intc2 (8 * byteAddr + acc.bit))),
      pswZ := !s.intc2 (8 * byteAddr + acc.bit) } := by
  have hbit : acc.bit.val < 8 := acc.bit.isLt
  obtain ⟨⟨val, z⟩, hop, hs'⟩ := Option.map_eq_some_iff.mp h
  obtain ⟨hz, hval⟩ := emulArchBwopEmulAcc_spec hbit hop
  have hcur : ∀ j, j < 8 →
      (word 8 s.intc2 (8 * byteAddr)).getLsbD j = s.intc2 (8 * byteAddr + j) := by
    intro j hj
    rw [getLsbD_word, decide_eq_true hj, Bool.true_and]
  rw [hcur _ hbit] at hz hval
  have hput : setWord s.intc2 (8 * byteAddr) val = putBit s.intc2 (8 * byteAddr + acc.bit)
      (acc.bwop.apply (s.intc2 (8 * byteAddr + acc.bit))) := by
    funext b
    by_cases hin : 8 * byteAddr ≤ b ∧ b < 8 * byteAddr + 8
    · have hj : b - 8 * byteAddr < 8 := by omega
      have hback : 8 * byteAddr + (b - 8 * byteAddr) = b := by omega
      have hiff : b - 8 * byteAddr = acc.bit.val ↔ b = 8 * byteAddr + acc.bit := by omega
      simp only [setWord, hin, and_self, if_true, putBit, hval _ hj, hcur _ hj, hiff, hback]
    · have hne : ¬ b = 8 * byteAddr + acc.bit := by omega
      simp only [setWord, hin, if_false, putBit, hne]
  rw [← hs', ← hput, ← hz]

theorem getLsbD_imrStored {first : Nat} {val cur : BitVec 32} {t : Nat} (ht : t < 32) :
    (imrStored vm first val cur).getLsbD t =
      if vm.hasInterrupt ((t + first) % 2 ^ 32) then val.getLsbD t else cur.getLsbD t := by
  unfold imrStored
  rw [getLsbD_foldl_bits (g := fun i b =>
    if vm.hasInterrupt ((i + first) % 2 ^ 32) then val.getLsbD i else b) ?_ _ (Nat.le_refl 32) ht,
    if_pos ht]
  intro w i t hi ht
  rw [oneBit_and_ne_zero hi]
  cases hhas : vm.hasInterrupt ((i + first) % 2 ^ 32) with
  | false =>
      by_cases hti : t = i <;> simp [hti]
  | true =>
      cases hval : val.getLsbD i with
      | true =>
          simp only [Bool.not_true, Bool.false_eq_true, if_false, if_true, BitVec.getLsbD_or,
            WordRegs.getLsbD_mask ht]
          by_cases hti : t = i <;> simp [hti]
      | false =>
          simp only [Bool.not_true, Bool.false_eq_true, if_false, if_true, BitVec.getLsbD_and,
            BitVec.getLsbD_not, WordRegs.getLsbD_mask ht]
          by_cases hti : t = i <;> simp [hti, ht]

theorem getLsbD_imrLoaded {first : Nat} {cur : BitVec 32} {t : Nat} (ht : t < 32) :
    (imrLoaded vm first cur).getLsbD t =
      (vm.hasInterrupt ((t + first) % 2 ^ 32) && cur.getLsbD t) := by
  unfold imrLoaded
  rw [getLsbD_foldl_bits (g := fun i b =>
    (vm.hasInterrupt ((i + first) % 2 ^ 32) && cur.getLsbD i) || b) ?_ _ (Nat.le_refl 32) ht,
    if_pos ht, BitVec.getLsbD_zero, Bool.or_false]
  intro w i t hi ht
  rw [oneBit_and_ne_zero hi]
  cases hhas : vm.hasInterrupt ((i + first) % 2 ^ 32) with
  | false =>
      by_cases hti : t = i <;> simp [hti]
  | true =>
      cases hcur : cur.getLsbD i with
      | true =>
          simp only [Bool.not_true, Bool.false_eq_true, if_false, if_true, BitVec.getLsbD_or,
            WordRegs.getLsbD_mask ht]
          by_cases hti : t = i <;> simp [hti]
      | false =>
          by_cases hti : t = i <;> simp [hti]

theorem getLsbD_peidMask {t : Nat} (ht : t < 32) :
    intcEibdPeidMask.getLsbD t = decide (t < 3) := by
  have hall : ∀ i : Fin 32, intcEibdPeidMask.getLsbD i.val = decide (i.val < 3) := by decide
  exact hall ⟨t, ht⟩

theorem getLsbD_eibdStored {cur val : BitVec 32} {t : Nat} (ht : t < 32) :
    (eibdStored vm cur val).getLsbD t =
      if t < 3 then (vm.physPeid val).testBit t else cur.getLsbD t := by
  unfold eibdStored intcEibdHypMask
  rw [BitVec.getLsbD_or, BitVec.getLsbD_and, BitVec.getLsbD_and, BitVec.getLsbD_not,
    getLsbD_peidMask ht, BitVec.getLsbD_ofNat]
  by_cases h3 : t < 3
  · simp [h3, ht]
  · simp [h3, ht]

/-! ## The outcome of an access -/

theorem emulateRegAccess_eq {w bot id : Nat} {stored : BitVec w → BitVec 32 → BitVec 32}
    {loaded : BitVec w → Option (BitVec 32)} {cur : BitVec w} (hw : w = 16 ∨ w = 32)
    (hbot : bot % 4 = 0) (hlt : bot < 2 ^ 32) (hdec : acc.decoded) (hfit : acc.width ≤ w / 8)
    (hid : (regIdx bot (w / 8) acc.offset + 32) % 2 ^ 32 = id)
    (hcur : word w s.intc2 (8 * (acc.offset - acc.offset % (w / 8))) = cur) :
    emulateRegAccess w bot stored loaded vm acc s =
      if vm.hasInterrupt id then
        if acc.bwop ≠ .no then bwopAccess acc acc.offset s
        else if acc.write then
          some { s with
            intc2 := setLane s.intc2 (8 * acc.offset) (8 * acc.width)
              (stored cur (s.readreg acc.reg)) }
        else (loaded cur).map fun x => s.writereg acc.reg
          (extendBits 32 acc.signExt (8 * acc.width)
            fun j => x.getLsbD (8 * (acc.offset % (w / 8)) + j))
      else if !acc.write then some (s.writereg acc.reg 0#32)
      else some s := by
  have hsize : w / 8 = 2 ∨ w / 8 = 4 := by omega
  have hdvd : w / 8 ∣ 4 := by rcases hsize with hs | hs <;> rw [hs] <;> decide
  have hbotw : bot % (w / 8) = 0 := by rcases hsize with hs | hs <;> rw [hs] <;> omega
  have htgt := tgtReg_regIdx hsize hbotw hlt acc.offset_lt
  have hoff := acc.addr_mod hdvd
  have hmod := hdec.offset_mod
  have hle : acc.offset % (w / 8) ≤ acc.offset := Nat.mod_le _ _
  have hlane : 8 * (acc.offset % (w / 8)) + acc.width * 8 ≤ w := by
    rcases hdec.width_cases with hd | hd | hd <;> rw [hd] at hmod hfit ⊢ <;>
      rcases hw with rfl | rfl <;> omega
  have hbase : 8 * (acc.offset - acc.offset % (w / 8)) + 8 * (acc.offset % (w / 8)) =
      8 * acc.offset := by omega
  have hmask := hdec.isMask
  have hpos : 0 < acc.width * 8 := Nat.mul_comm 8 acc.width ▸ hdec.width_pos
  unfold emulateRegAccess
  simp only [htgt, hoff, Nat.sub_add_cancel hle, hid, hcur,
    signExtendLane_eq_extendBits hmask hpos]
  rw [← hcur, setWord_setWidth_mergeLane hmask hlane (by omega), hbase, Nat.mul_comm acc.width 8]

theorem emulateIntcImrAccess_eq {cur : BitVec 32} (hdec : acc.decoded)
    (hcur : word 32 s.intc2 (8 * (acc.offset - acc.offset % 4)) = cur) :
    emulateIntcImrAccess vm acc s =
      if acc.bwop ≠ .no then bwopAccess acc acc.offset s
      else if acc.write then
        some { s with
          intc2 := setLane s.intc2 (8 * acc.offset) (8 * acc.width)
            (imrStored vm acc.firstImrInt (s.readreg acc.reg) cur) }
      else some (s.writereg acc.reg (extendBits 32 acc.signExt (8 * acc.width)
        fun j => (imrLoaded vm acc.firstImrInt cur).getLsbD (8 * (acc.offset % 4) + j))) := by
  have htgt := tgtReg_regIdx (Or.inr rfl) (show intc2Imr % 4 = 0 from rfl) (by decide)
    acc.offset_lt
  have hoff := acc.addr_mod (Nat.dvd_refl 4)
  have hmod := hdec.offset_mod
  have hle : acc.offset % 4 ≤ acc.offset := Nat.mod_le _ _
  have hlane : 8 * (acc.offset % 4) + acc.width * 8 ≤ 32 := by
    rcases hdec.width_cases with hd | hd | hd <;> rw [hd] at hmod ⊢ <;> omega
  have hbase : 8 * (acc.offset - acc.offset % 4) + 8 * (acc.offset % 4) = 8 * acc.offset := by
    omega
  have hmask := hdec.isMask
  have hpos : 0 < acc.width * 8 := Nat.mul_comm 8 acc.width ▸ hdec.width_pos
  have hfirst : (regIdx intc2Imr 4 acc.offset * 32 % 2 ^ 32 + 32) % 2 ^ 32 = acc.firstImrInt := rfl
  unfold emulateIntcImrAccess
  simp only [htgt, hoff, Nat.sub_add_cancel hle, hfirst, hcur,
    signExtendLane_eq_extendBits hmask hpos]
  rw [← hcur, setWord_mergeLane hmask hlane, hbase, Nat.mul_comm acc.width 8]

end Bao

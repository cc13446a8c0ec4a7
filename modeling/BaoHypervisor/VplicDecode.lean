import BaoHypervisor.ByteLanes
import BaoHypervisor.VplicLines

/-!
# Accesses to the vPLIC window

`vplic_global_emul_handler` and `vplic_hart_emul_handler` of `vplic.c` find the
register of an access by masks on its address.  The PLIC memory map says which
register an offset from the base belongs to.
-/

namespace Bao

/-- A guest's load or store, with the value of the register for a store. -/
structure PlicAccess where
  addr : Nat
  width : Nat
  write : Bool
  val : BitVec 64

/-- `PLIC_NUM_ENBL_REGS`. -/
def plicNumEnblRegs : Nat := plicMaxInterrupts / 32

/-- `PLIC_THRESHOLD_OFF`. -/
def plicThresholdOff : Nat := 0x200000

/-- `sizeof(struct plic_hart_hw)`. -/
def plicHartSize : Nat := 0x1000

variable (P : VplicPlat)

/-- `sizeof(struct plic_global_hw)`, which is aligned to a page. -/
def plicGlobalSize : Nat :=
  (0x2000 + plicPlatCntxtNum P * (plicNumEnblRegs * 4) + 0xfff) / 0x1000 * 0x1000

/-- `vplic_get_pend`. -/
def vplicGetPend (s : VplicState) (id : Nat) : Bool :=
  decide (id < plicMaxInterrupts) && s.regs.pend id

/-- `vplic_get_enbl`. -/
def vplicGetEnbl (s : VplicState) (vcntxt id : Nat) : Bool :=
  decide (id < plicMaxInterrupts) && s.regs.enbl vcntxt id

/-- `vplic_get_prio`. -/
def vplicGetPrio (s : VplicState) (id : Nat) : BitVec 32 :=
  if id < plicMaxInterrupts then s.regs.prio id else 0#32

/-- A word that is put together bit by bit. -/
def gatherBits (bit : Nat → Bool) : BitVec 64 :=
  (List.range 32).foldl (fun val i => if bit i then val ||| 1#64 <<< i else val) 0#64

/-- What a handler leaves: the value loaded, if any, and the vPLIC. -/
abbrev PlicResult := Option (BitVec 64) × VplicState

/-- `vplic_emul_prio_access`. -/
def vplicEmulPrioAccess (v : Nat) (acc : PlicAccess) (s : VplicState) : PlicResult :=
  let intId := (acc.addr &&& 0xfff) / 4
  if acc.write then (none, vplicSetPrio P v intId (acc.val.setWidth 32) s)
  else (some ((vplicGetPrio s intId).setWidth 64), s)

/-- `vplic_emul_pend_access`. -/
def vplicEmulPendAccess (acc : PlicAccess) (s : VplicState) : PlicResult :=
  if acc.write then (none, s)
  else
    let firstInt := (acc.addr &&& 0xfff) / 4 * 32
    (some (gatherBits fun i => vplicGetPend s (firstInt + i)), s)

/-- The loop of `vplic_emul_enbl_access` for a store. -/
def setEnblWord (v vcntxt firstInt : Nat) (val : BitVec 64) (s : VplicState) : VplicState :=
  (List.range 32).foldl (fun s i => vplicSetEnbl P v vcntxt (firstInt + i) (val.getLsbD i) s) s

/-- `vplic_emul_enbl_access`. -/
def vplicEmulEnblAccess (v : Nat) (acc : PlicAccess) (s : VplicState) : PlicResult :=
  let vcntxtId := ((acc.addr + 2 ^ 64 - 0x2000) % 2 ^ 64 &&& 0x1fffff) / 4 / plicNumEnblRegs
  let firstInt := (acc.addr &&& 0x7f) / 4 * 32
  if vplicVcntxtValid P vcntxtId then
    if acc.write then (none, setEnblWord P v vcntxtId firstInt acc.val s)
    else (some (gatherBits fun i => vplicGetEnbl s vcntxtId (firstInt + i)), s)
  else if acc.write then (none, s)
  else (some 0#64, s)

/-- `vplic_global_emul_handler`; `none` is a refused access. -/
def vplicGlobalEmulHandler (v : Nat) (acc : PlicAccess) (s : VplicState) : Option PlicResult :=
  if acc.width ≠ 4 ∨ acc.addr &&& 0x3 ≠ 0 then none
  else if (acc.addr >>> 12) &&& 0x3 = 0 then some (vplicEmulPrioAccess P v acc s)
  else if (acc.addr >>> 12) &&& 0x3 = 1 then some (vplicEmulPendAccess acc s)
  else some (vplicEmulEnblAccess P v acc s)

/-- `vplic_hart_emul_handler`. -/
def vplicHartEmulHandler (v : Nat) (acc : PlicAccess) (s : VplicState) : Option PlicResult :=
  if acc.width > 4 ∨ acc.addr &&& 0x3 ≠ 0 then none
  else
    let vcntxt := (((acc.addr + 2 ^ 64 - plicThresholdOff) % 2 ^ 64) >>> 12) &&& 0x3ff
    if ¬ vplicVcntxtValid P vcntxt then
      if acc.write then some (none, s) else some (some 0#64, s)
    else if acc.addr &&& 0xf = 0 then
      if acc.write then some (none, vplicSetThreshold P v vcntxt (acc.val.setWidth 32) s)
      else some (some ((s.regs.threshold vcntxt).setWidth 64), s)
    else if acc.addr &&& 0xf = 4 then
      if acc.write then some (none, vplicComplete P v vcntxt (acc.val.setWidth 32).toNat s)
      else
        let claimed := vplicClaim P v vcntxt s
        some (some (BitVec.ofNat 64 claimed.1), claimed.2)
    else if acc.write then some (none, s)
    else some (some 0#64, s)

/-- The accesses of the vPLIC at `base`, by `vm_emul_get_mem`: `vplic_init` puts
the global registers into the list before the harts'. -/
def vplicAccess (base v : Nat) (acc : PlicAccess) (s : VplicState) : Option PlicResult :=
  if base ≤ acc.addr ∧ acc.addr < base + plicGlobalSize P then vplicGlobalEmulHandler P v acc s
  else if base + plicThresholdOff ≤ acc.addr ∧
      acc.addr < base + plicThresholdOff + plicHartSize * cntxtNum P then
    vplicHartEmulHandler P v acc s
  else none

/-! ## The memory map -/

/-- A register of the map; `reserved` is what reads as zero and ignores writes,
the registers of a context that the VM does not have among it. -/
inductive PlicReg
  | prio (id : Nat)
  | pend (word : Nat)
  | enbl (vcntxt word : Nat)
  | threshold (vcntxt : Nat)
  | claim (vcntxt : Nat)
  | reserved
deriving DecidableEq

namespace PlicReg

/-- A load of the register. -/
def load (v : Nat) (s : VplicState) : PlicReg → BitVec 64 × VplicState
  | .prio id => ((s.regs.prio id).setWidth 64, s)
  | .pend word => (gatherBits fun i => s.regs.pend (word * 32 + i), s)
  | .enbl vcntxt word => (gatherBits fun i => s.regs.enbl vcntxt (word * 32 + i), s)
  | .threshold vcntxt => ((s.regs.threshold vcntxt).setWidth 64, s)
  | .claim vcntxt =>
      (BitVec.ofNat 64 (vplicClaim P v vcntxt s).1, (vplicClaim P v vcntxt s).2)
  | .reserved => (0#64, s)

/-- A store to the register. -/
def store (v : Nat) (val : BitVec 64) (s : VplicState) : PlicReg → VplicState
  | .prio id => vplicSetPrio P v id (val.setWidth 32) s
  | .pend _ => s
  | .enbl vcntxt word => setEnblWord P v vcntxt (word * 32) val s
  | .threshold vcntxt => vplicSetThreshold P v vcntxt (val.setWidth 32) s
  | .claim vcntxt => vplicComplete P v vcntxt (val.setWidth 32).toNat s
  | .reserved => s

/-- An access that acts on the register. -/
def access (v : Nat) (acc : PlicAccess) (s : VplicState) (reg : PlicReg) : PlicResult :=
  if acc.write then (none, reg.store P v acc.val s)
  else (some (reg.load P v s).1, (reg.load P v s).2)

/-- A pending word; there are words for `PLIC_MAX_INTERRUPTS` only. -/
def pendOf (word : Nat) : PlicReg := if word < plicNumEnblRegs then .pend word else .reserved

/-- An enable word of a context. -/
def enblOf (vcntxt word : Nat) : PlicReg :=
  if vplicVcntxtValid P vcntxt then .enbl vcntxt word else .reserved

/-- The registers in the page of a context. -/
def hartOf (vcntxt place : Nat) : PlicReg :=
  if vplicVcntxtValid P vcntxt then
    if place = 0 then .threshold vcntxt else if place = 4 then .claim vcntxt else .reserved
  else .reserved

end PlicReg

open PlicReg

/-- **The PLIC memory map.**  Source 0 does not exist. -/
def plicMap (off : Nat) : PlicReg :=
  if off < 4 then .reserved
  else if off < 0x1000 then .prio (off / 4)
  else if off < 0x2000 then pendOf ((off - 0x1000) / 4)
  else if off < plicThresholdOff then enblOf P ((off - 0x2000) / 0x80) ((off - 0x2000) % 0x80 / 4)
  else hartOf P ((off - plicThresholdOff) / plicHartSize) ((off - plicThresholdOff) % plicHartSize)

/-- An aligned word of the window. -/
structure PlicWord (base : Nat) where
  addr : Nat
  write : Bool
  aligned : addr % 4 = 0
  inWindow : base ≤ addr ∧ addr < base + plicGlobalSize P ∨
    base + plicThresholdOff ≤ addr ∧ addr < base + plicThresholdOff + plicHartSize * cntxtNum P

/-- The access with the value of the register. -/
def PlicWord.toAccess {base : Nat} (acc : PlicWord P base) (val : BitVec 64) : PlicAccess :=
  { addr := acc.addr, width := 4, write := acc.write, val := val }

/-- **The access acts on its register**, in every state and for every value. -/
def PlicWord.Exact {base : Nat} (acc : PlicWord P base) : Prop :=
  ∀ v val s, vplicAccess P base v (acc.toAccess P val) s =
    some ((plicMap P (acc.addr - base)).access P v (acc.toAccess P val) s)

/-- The register that the masks of the handlers select. -/
def PlicWord.selected {base : Nat} (acc : PlicWord P base) : PlicReg :=
  if acc.addr < base + plicGlobalSize P ∧ base ≤ acc.addr then
    if acc.addr / 0x1000 % 4 = 0 then .prio (acc.addr % 0x1000 / 4)
    else if acc.addr / 0x1000 % 4 = 1 then pendOf (acc.addr % 0x1000 / 4)
    else enblOf P ((acc.addr + 2 ^ 64 - 0x2000) % 2 ^ 64 % 0x200000 / 0x80) (acc.addr % 0x80 / 4)
  else hartOf P ((acc.addr + 2 ^ 64 - plicThresholdOff) % 2 ^ 64 / 0x1000 % 0x400) (acc.addr % 16)

variable {P} {base v : Nat} {val : BitVec 64} {s : VplicState}

/-! ## What the handlers do -/

theorem getLsbD_gatherBits (bit : Nat → Bool) {t : Nat} (ht : t < 64) :
    (gatherBits bit).getLsbD t = (decide (t < 32) && bit t) := by
  have hstep : ∀ (w : BitVec 64) (i t : Nat), i < 64 → t < 64 →
      (if bit i then w ||| 1#64 <<< i else w).getLsbD t =
        if t = i then (bit i || w.getLsbD i) else w.getLsbD t := by
    intro w i t _ ht
    by_cases hbit : bit i = true
    · rw [if_pos hbit, BitVec.getLsbD_or, WordRegs.getLsbD_mask ht]
      by_cases hti : t = i <;> simp [hti, hbit]
    · by_cases hti : t = i <;> simp [hti, hbit]
  unfold gatherBits
  rw [BitMemory.getLsbD_foldl_bits (g := fun i b => bit i || b) hstep 0#64 (by omega) ht]
  by_cases hlt : t < 32 <;> simp [hlt]

theorem gatherBits_congr {bit bit' : Nat → Bool} (h : ∀ i, i < 32 → bit i = bit' i) :
    gatherBits bit = gatherBits bit' := by
  apply BitVec.eq_of_getLsbD_eq
  intro t ht
  rw [getLsbD_gatherBits bit ht, getLsbD_gatherBits bit' ht]
  by_cases hlt : t < 32
  · rw [h t hlt]
  · rw [decide_eq_false hlt, Bool.false_and, Bool.false_and]

theorem gatherBits_zero {bit : Nat → Bool} (h : ∀ i, i < 32 → bit i = false) :
    gatherBits bit = 0#64 := by
  apply BitVec.eq_of_getLsbD_eq
  intro t ht
  rw [getLsbD_gatherBits bit ht, BitVec.getLsbD_zero]
  by_cases hlt : t < 32
  · rw [h t hlt, Bool.and_false]
  · rw [decide_eq_false hlt, Bool.false_and]

section Handlers

variable (v s) (acc : PlicAccess)

theorem vplicEmulPrioAccess_eq :
    vplicEmulPrioAccess P v acc s = (PlicReg.prio (acc.addr % 0x1000 / 4)).access P v acc s := by
  have hmask : acc.addr &&& 0xfff = acc.addr % 0x1000 := Nat.and_two_pow_sub_one_eq_mod _ 12
  have hlt : acc.addr % 0x1000 / 4 < plicMaxInterrupts := by
    unfold plicMaxInterrupts
    omega
  unfold vplicEmulPrioAccess vplicGetPrio PlicReg.access
  dsimp only
  rw [hmask, if_pos hlt]
  rfl

theorem vplicEmulPendAccess_eq :
    vplicEmulPendAccess acc s = (pendOf (acc.addr % 0x1000 / 4)).access P v acc s := by
  have hmask : acc.addr &&& 0xfff = acc.addr % 0x1000 := Nat.and_two_pow_sub_one_eq_mod _ 12
  unfold vplicEmulPendAccess PlicReg.access pendOf
  dsimp only
  rw [hmask]
  by_cases hword : acc.addr % 0x1000 / 4 < plicNumEnblRegs
  · have hload : (gatherBits fun i => vplicGetPend s (acc.addr % 0x1000 / 4 * 32 + i)) =
        gatherBits fun i => s.regs.pend (acc.addr % 0x1000 / 4 * 32 + i) := by
      apply gatherBits_congr
      intro i hi
      have hlt : acc.addr % 0x1000 / 4 * 32 + i < plicMaxInterrupts := by
        change _ < 32 at hword
        change _ < 1024
        omega
      exact congrArg (· && _) (decide_eq_true hlt)
    rw [if_pos hword, hload]
    rfl
  · have hload : (gatherBits fun i => vplicGetPend s (acc.addr % 0x1000 / 4 * 32 + i)) = 0#64 := by
      apply gatherBits_zero
      intro i _
      have hge : ¬ acc.addr % 0x1000 / 4 * 32 + i < plicMaxInterrupts := by
        change ¬ _ < 32 at hword
        change ¬ _ < 1024
        omega
      exact congrArg (· && _) (decide_eq_false hge)
    rw [if_neg hword, hload]
    rfl

theorem vplicEmulEnblAccess_eq :
    vplicEmulEnblAccess P v acc s =
      (enblOf P ((acc.addr + 2 ^ 64 - 0x2000) % 2 ^ 64 % 0x200000 / 0x80)
        (acc.addr % 0x80 / 4)).access P v acc s := by
  have hmask : acc.addr &&& 0x7f = acc.addr % 0x80 := Nat.and_two_pow_sub_one_eq_mod _ 7
  have hplace : ∀ a, (a &&& 0x1fffff) / 4 / plicNumEnblRegs = a % 0x200000 / 0x80 := by
    intro a
    have hand : a &&& 0x1fffff = a % 0x200000 := Nat.and_two_pow_sub_one_eq_mod a 21
    rw [hand]
    change _ / 4 / 32 = _
    omega
  have hload : ∀ c, (gatherBits fun i => vplicGetEnbl s c (acc.addr % 0x80 / 4 * 32 + i)) =
      gatherBits fun i => s.regs.enbl c (acc.addr % 0x80 / 4 * 32 + i) := by
    intro c
    apply gatherBits_congr
    intro i hi
    have hlt : acc.addr % 0x80 / 4 * 32 + i < plicMaxInterrupts := by
      unfold plicMaxInterrupts
      omega
    exact congrArg (· && _) (decide_eq_true hlt)
  unfold vplicEmulEnblAccess PlicReg.access enblOf
  dsimp only
  rw [hmask, hplace, hload]
  split <;> rfl

theorem vplicHartEmulHandler_eq (hwidth : acc.width = 4) (haligned : acc.addr % 4 = 0) :
    vplicHartEmulHandler P v acc s =
      some ((hartOf P ((acc.addr + 2 ^ 64 - plicThresholdOff) % 2 ^ 64 / 0x1000 % 0x400)
        (acc.addr % 16)).access P v acc s) := by
  have halign : acc.addr &&& 0x3 = acc.addr % 4 := Nat.and_two_pow_sub_one_eq_mod _ 2
  have hmask : acc.addr &&& 0xf = acc.addr % 16 := Nat.and_two_pow_sub_one_eq_mod _ 4
  have hplace : ((acc.addr + 2 ^ 64 - plicThresholdOff) % 2 ^ 64) >>> 12 &&& 0x3ff =
      (acc.addr + 2 ^ 64 - plicThresholdOff) % 2 ^ 64 / 0x1000 % 0x400 := by
    generalize (acc.addr + 2 ^ 64 - plicThresholdOff) % 2 ^ 64 = a
    have hand := Nat.and_two_pow_sub_one_eq_mod (a >>> 12) 10
    rw [Nat.shiftRight_eq_div_pow] at hand ⊢
    exact hand
  unfold vplicHartEmulHandler hartOf PlicReg.access
  dsimp only
  rw [halign, hmask, hplace, if_neg (by omega)]
  by_cases hvalid : vplicVcntxtValid P
      ((acc.addr + 2 ^ 64 - plicThresholdOff) % 2 ^ 64 / 0x1000 % 0x400)
  · rw [if_neg (not_not.mpr hvalid), if_pos hvalid]
    by_cases hthreshold : acc.addr % 16 = 0
    · rw [if_pos hthreshold, if_pos hthreshold]
      split <;> rfl
    · rw [if_neg hthreshold, if_neg hthreshold]
      by_cases hclaim : acc.addr % 16 = 4
      · rw [if_pos hclaim, if_pos hclaim]
        split <;> rfl
      · rw [if_neg hclaim, if_neg hclaim]
        split <;> rfl
  · rw [if_pos hvalid, if_neg hvalid]
    split <;> rfl

theorem vplicGlobalEmulHandler_eq (hwidth : acc.width = 4) (haligned : acc.addr % 4 = 0) :
    vplicGlobalEmulHandler P v acc s =
      some ((if acc.addr / 0x1000 % 4 = 0 then .prio (acc.addr % 0x1000 / 4)
        else if acc.addr / 0x1000 % 4 = 1 then pendOf (acc.addr % 0x1000 / 4)
        else enblOf P ((acc.addr + 2 ^ 64 - 0x2000) % 2 ^ 64 % 0x200000 / 0x80)
          (acc.addr % 0x80 / 4) : PlicReg).access P v acc s) := by
  have halign : acc.addr &&& 0x3 = acc.addr % 4 := Nat.and_two_pow_sub_one_eq_mod _ 2
  have hpage : acc.addr >>> 12 &&& 0x3 = acc.addr / 0x1000 % 4 := by
    have hand := Nat.and_two_pow_sub_one_eq_mod (acc.addr >>> 12) 2
    rw [Nat.shiftRight_eq_div_pow] at hand ⊢
    exact hand
  unfold vplicGlobalEmulHandler
  rw [halign, hpage, if_neg (by omega), vplicEmulPrioAccess_eq, vplicEmulEnblAccess_eq,
    @vplicEmulPendAccess_eq P v s acc]
  split
  · rfl
  · split <;> rfl

end Handlers

/-- **The masks select a register**, and the access acts on it. -/
theorem vplicAccess_eq (acc : PlicWord P base) :
    vplicAccess P base v (acc.toAccess P val) s =
      some ((acc.selected P).access P v (acc.toAccess P val) s) := by
  unfold vplicAccess PlicWord.selected
  by_cases hglobal : base ≤ acc.addr ∧ acc.addr < base + plicGlobalSize P
  · have hswap := And.intro hglobal.2 hglobal.1
    rw [if_pos hswap]
    exact (if_pos hglobal).trans (vplicGlobalEmulHandler_eq v s _ rfl acc.aligned)
  · have hswap : ¬ (acc.addr < base + plicGlobalSize P ∧ base ≤ acc.addr) :=
      fun h => hglobal ⟨h.2, h.1⟩
    have hhart := acc.inWindow.resolve_left hglobal
    rw [if_neg hswap]
    exact ((if_neg hglobal).trans (if_pos hhart)).trans
      (vplicHartEmulHandler_eq v s _ rfl acc.aligned)

/-! ## Registers that differ -/

namespace PlicReg

/-- A store to the register does nothing. -/
def Ignores : PlicReg → Prop
  | .pend _ => True
  | .reserved => True
  | _ => False

/-- One register does for the other: it is the same, or a store does nothing to
either. -/
def Agree (write : Bool) (reg reg' : PlicReg) : Prop :=
  reg = reg' ∨ write = true ∧ reg.Ignores ∧ reg'.Ignores

theorem not_agree {write : Bool} {reg reg' : PlicReg} (hne : reg ≠ reg')
    (hreal : ¬ (reg.Ignores ∧ reg'.Ignores)) : ¬ Agree write reg reg' := by
  intro h
  rcases h with heq | ⟨-, hignores⟩
  · exact hne heq
  · exact hreal hignores

variable (P) in
/-- The vPLIC has the register. -/
def Exists : PlicReg → Prop
  | .prio id => id < plicMaxInterrupts
  | .pend word => word < plicNumEnblRegs
  | .enbl vcntxt word => vplicVcntxtValid P vcntxt ∧ word < plicNumEnblRegs
  | .threshold vcntxt => vplicVcntxtValid P vcntxt
  | .claim vcntxt => vplicVcntxtValid P vcntxt
  | .reserved => True

theorem pendOf_exists (word : Nat) : (pendOf word).Exists P := by
  unfold pendOf
  split
  · rename_i hword
    exact hword
  · trivial

theorem enblOf_exists (vcntxt : Nat) {word : Nat} (hword : word < plicNumEnblRegs) :
    (enblOf P vcntxt word).Exists P := by
  unfold enblOf
  split
  · rename_i hvalid
    exact ⟨hvalid, hword⟩
  · trivial

theorem hartOf_exists (vcntxt place : Nat) : (hartOf P vcntxt place).Exists P := by
  unfold hartOf
  split
  · rename_i hvalid
    split
    · exact hvalid
    · split
      · exact hvalid
      · trivial
  · trivial

/-- A state in which the register reads as non-zero. -/
def probe : PlicReg → VplicState
  | .prio id => vplicBoot.updRegs fun r => r.setPrio id 1
  | .pend word => vplicBoot.updRegs fun r => r.setPend (word * 32 + 1) true
  | .enbl vcntxt word => vplicBoot.updRegs fun r => r.setEnbl vcntxt (word * 32) true
  | .threshold vcntxt => vplicBoot.updRegs fun r => r.setThreshold vcntxt 1
  | .claim vcntxt => vplicBoot.updRegs fun r =>
      ((r.setPend 1 true).setEnbl vcntxt 1 true).setPrio 1 7
  | .reserved => vplicBoot

/-- What makes a load return zero. -/
def Zero (r : Vplic) : PlicReg → Prop
  | .prio id => r.prio id = 0
  | .pend word => ∀ i, i < 32 → r.pend (word * 32 + i) = false
  | .enbl vcntxt word => ∀ i, i < 32 → r.enbl vcntxt (word * 32 + i) = false
  | .threshold vcntxt => r.threshold vcntxt = 0
  | .claim vcntxt => r.pend 0 = false ∧ ∀ i, r.pend i = true → r.enbl vcntxt i = false
  | .reserved => True

theorem Zero.load {reg : PlicReg} (h : reg.Zero s.regs) : (reg.load P v s).1 = 0#64 := by
  cases reg with
  | prio id =>
      have hprio : s.regs.prio id = 0 := h
      change (s.regs.prio id).setWidth 64 = 0#64
      rw [hprio]
      rfl
  | pend word => exact gatherBits_zero h
  | enbl vcntxt word => exact gatherBits_zero h
  | threshold vcntxt =>
      have hthreshold : s.regs.threshold vcntxt = 0 := h
      change (s.regs.threshold vcntxt).setWidth 64 = 0#64
      rw [hthreshold]
      rfl
  | claim vcntxt =>
      obtain ⟨hzero, hnone⟩ := h
      have hnext : vplicNextPending vcntxt s.regs = 0 := by
        apply Classical.byContradiction
        intro hne
        obtain ⟨i, -, hcounts⟩ := (vplicNextPending_due hzero).mp hne
        obtain ⟨hpend, -, henbl, -⟩ := Vplic.counts_iff.mp hcounts
        rw [hnone i hpend] at henbl
        cases henbl
      change BitVec.ofNat 64 (vplicClaim P v vcntxt s).1 = 0#64
      rw [vplicClaim_fst, hnext]
  | reserved => rfl

theorem load_probe {reg : PlicReg} (hne : reg ≠ .reserved) :
    (reg.load P v reg.probe).1 ≠ 0#64 := by
  cases reg with
  | prio id =>
      have hset : (probe (.prio id)).regs.prio id = 1#32 := atCpu_same ..
      change ((probe (.prio id)).regs.prio id).setWidth 64 ≠ 0#64
      rw [hset]
      decide
  | pend word =>
      intro hzero
      have hset : (probe (.pend word)).regs.pend (word * 32 + 1) = true := atCpu_same ..
      have hbit := getLsbD_gatherBits (fun i => (probe (.pend word)).regs.pend (word * 32 + i))
        (t := 1) (by omega)
      have hload : (gatherBits fun i => (probe (.pend word)).regs.pend (word * 32 + i)) = 0#64 :=
        hzero
      rw [hload, hset] at hbit
      cases hbit
  | enbl vcntxt word =>
      intro hzero
      have hset : (probe (.enbl vcntxt word)).regs.enbl vcntxt (word * 32 + 0) = true := by
        simp [probe, VplicState.updRegs, Vplic.setEnbl]
      have hbit := getLsbD_gatherBits
        (fun i => (probe (.enbl vcntxt word)).regs.enbl vcntxt (word * 32 + i)) (t := 0) (by omega)
      have hload : (gatherBits fun i =>
          (probe (.enbl vcntxt word)).regs.enbl vcntxt (word * 32 + i)) = 0#64 := hzero
      rw [hload, hset] at hbit
      cases hbit
  | threshold vcntxt =>
      have hset : (probe (.threshold vcntxt)).regs.threshold vcntxt = 1#32 := atCpu_same ..
      change ((probe (.threshold vcntxt)).regs.threshold vcntxt).setWidth 64 ≠ 0#64
      rw [hset]
      decide
  | claim vcntxt =>
      have hcounts : (probe (.claim vcntxt)).regs.Counts vcntxt 1 := by
        constructor
        · simp [probe, Vplic.ready, VplicState.updRegs, Vplic.setEnbl, Vplic.setPend, Vplic.setPrio,
            vplicBoot]
        · change (0#32).toNat < (7#32).toNat
          decide
      have hok := @vplicNextPending_ok (probe (.claim vcntxt)).regs rfl vcntxt
      change BitVec.ofNat 64 (vplicClaim P v vcntxt (probe (.claim vcntxt))).1 ≠ 0#64
      rw [vplicClaim_fst]
      intro hzero
      by_cases hnone : vplicNextPending vcntxt (probe (.claim vcntxt)).regs = 0
      · exact hok.none hnone 1 (by decide) hcounts
      · have hlt := (hok.some hnone).lt
        unfold plicMaxInterrupts at hlt
        have hnat := congrArg BitVec.toNat hzero
        rw [BitVec.toNat_ofNat, Nat.mod_eq_of_lt (by omega)] at hnat
        exact hnone hnat
  | reserved => exact absurd rfl hne

/-- No other register is seen in the probe, the claims' apart, in which a claim
reads other registers. -/
theorem zero_probe {reg reg' : PlicReg} (hne : reg ≠ reg')
    (hclaim : ∀ c, reg = .claim c → reg' = .reserved ∨ ∃ c', reg' = .claim c') :
    reg'.Zero reg.probe.regs := by
  cases reg with
  | prio id =>
      cases reg' with
      | prio id' => exact atCpu_other _ _ fun h => hne (congrArg _ h.symm)
      | pend word => exact fun _ _ => rfl
      | enbl vcntxt word => exact fun _ _ => rfl
      | threshold vcntxt => rfl
      | claim vcntxt => exact ⟨rfl, fun _ h => by cases h⟩
      | reserved => trivial
  | pend word =>
      cases reg' with
      | prio id' => rfl
      | pend word' =>
          intro i hi
          have hword : word' ≠ word := fun h => hne (congrArg _ h.symm)
          exact atCpu_other _ _ (by omega)
      | enbl vcntxt word => exact fun _ _ => rfl
      | threshold vcntxt => rfl
      | claim vcntxt =>
          have hzero : (0 : Nat) ≠ word * 32 + 1 := by omega
          exact ⟨atCpu_other vplicBoot.regs.pend true hzero, fun _ _ => rfl⟩
      | reserved => trivial
  | enbl vcntxt word =>
      cases reg' with
      | prio id' => rfl
      | pend word' => exact fun _ _ => rfl
      | enbl vcntxt' word' =>
          intro i hi
          change atCpu vplicBoot.regs.enbl vcntxt _ vcntxt' (word' * 32 + i) = false
          by_cases hc : vcntxt' = vcntxt
          · have hword : word' ≠ word := fun h => hne (by rw [hc, h])
            rw [hc, atCpu_same, atCpu_other _ _ (by omega)]
            rfl
          · rw [atCpu_other _ _ hc]
            rfl
      | threshold vcntxt => rfl
      | claim vcntxt => exact ⟨rfl, fun _ h => by cases h⟩
      | reserved => trivial
  | threshold vcntxt =>
      cases reg' with
      | prio id' => rfl
      | pend word' => exact fun _ _ => rfl
      | enbl vcntxt word => exact fun _ _ => rfl
      | threshold vcntxt' => exact atCpu_other _ _ fun h => hne (congrArg _ h.symm)
      | claim vcntxt => exact ⟨rfl, fun _ h => by cases h⟩
      | reserved => trivial
  | claim vcntxt =>
      rcases hclaim vcntxt rfl with hreserved | ⟨vcntxt', hclaim'⟩
      · rw [hreserved]
        trivial
      · rw [hclaim'] at hne ⊢
        refine ⟨atCpu_other vplicBoot.regs.pend true Nat.zero_ne_one, fun i _ => ?_⟩
        change atCpu vplicBoot.regs.enbl vcntxt _ vcntxt' i = false
        rw [atCpu_other _ _ fun h => hne (congrArg _ h.symm)]
        rfl
  | reserved =>
      cases reg' with
      | prio id' => rfl
      | pend word' => exact fun _ _ => rfl
      | enbl vcntxt word => exact fun _ _ => rfl
      | threshold vcntxt => rfl
      | claim vcntxt => exact ⟨rfl, fun _ h => by cases h⟩
      | reserved => trivial

/-- **Loads tell registers apart.** -/
theorem load_separates (P : VplicPlat) (v : Nat) {reg reg' : PlicReg} (hne : reg ≠ reg') :
    ∃ s, (reg.load P v s).1 ≠ (reg'.load P v s).1 := by
  have hself : ∀ {r r' : PlicReg}, r ≠ r' → r ≠ .reserved →
      (∀ c, r = .claim c → r' = .reserved ∨ ∃ c', r' = .claim c') →
      (r.load P v r.probe).1 ≠ (r'.load P v r.probe).1 := by
    intro r r' hdiff hreal hclaim
    rw [(zero_probe hdiff hclaim).load]
    exact load_probe hreal
  by_cases hreserved : reg = .reserved
  · refine ⟨reg'.probe, (hself (Ne.symm hne) (fun h => hne (hreserved.trans h.symm)) ?_).symm⟩
    exact fun _ _ => Or.inl hreserved
  · by_cases hclaim : ∀ c, reg = .claim c → reg' = .reserved ∨ ∃ c', reg' = .claim c'
    · exact ⟨reg.probe, hself hne hreserved hclaim⟩
    · obtain ⟨c, hc⟩ := not_forall.mp hclaim
      obtain ⟨-, hother⟩ := Classical.not_imp.mp hc
      obtain ⟨hreal, hnot⟩ := not_or.mp hother
      exact ⟨reg'.probe, (hself (Ne.symm hne) hreal fun c' h => absurd ⟨c', h⟩ hnot).symm⟩

/-! ## Stores -/

/-- A state in which stores are told apart: source 1 is active. -/
def storeProbe : VplicState := vplicBoot.updRegs fun r => r.setAct 1 true

/-- The vCPU whose stores are looked at: the one of the context. -/
def prober : PlicReg → Nat
  | .claim vcntxt => vcntxt / 2
  | _ => 0

/-- The register shows that 1 was stored to it. -/
def Stored (s : VplicState) : PlicReg → Prop
  | .prio id => s.regs.prio id ≠ 0
  | .enbl vcntxt word => s.regs.enbl vcntxt (word * 32) = true
  | .threshold vcntxt => s.regs.threshold vcntxt ≠ 0
  | .claim _ => s.regs.act 1 = false ∧ ∀ cpu, s.inbox cpu = []
  | .pend _ => False
  | .reserved => False

end PlicReg

/-- The first `k` bits of `val` stored to enable bits, from one source on. -/
structure EnblStored (vcntxt firstInt k : Nat) (val : BitVec 64) (r r' : Vplic) : Prop where
  act : r'.act = r.act
  prio : r'.prio = r.prio
  threshold : r'.threshold = r.threshold
  enbl : ∀ c j, r'.enbl c j =
    if c = vcntxt ∧ firstInt ≤ j ∧ j < firstInt + k ∧ j < plicMaxInterrupts then
      val.getLsbD (j - firstInt)
    else r.enbl c j

theorem EnblStored.step {vcntxt firstInt k : Nat} {r : Vplic}
    (h : EnblStored vcntxt firstInt k val r s.regs) :
    EnblStored vcntxt firstInt (k + 1) val r
      (vplicSetEnbl P v vcntxt (firstInt + k) (val.getLsbD k) s).regs := by
  have hbit : ∀ c j, (vplicSetEnbl P v vcntxt (firstInt + k) (val.getLsbD k) s).regs.enbl c j =
      if c = vcntxt ∧ j = firstInt + k ∧ j < plicMaxInterrupts then val.getLsbD k
      else s.regs.enbl c j := by
    intro c j
    rw [vplicSetEnbl_regs]
    split
    · rename_i hnew
      change atCpu s.regs.enbl vcntxt _ c j = _
      by_cases hc : c = vcntxt
      · rw [hc, atCpu_same]
        by_cases hj : j = firstInt + k
        · rw [hj, atCpu_same, if_pos ⟨rfl, rfl, hnew.1⟩]
        · rw [atCpu_other _ _ hj, if_neg fun h => hj h.2.1]
      · rw [atCpu_other _ _ hc, if_neg fun h => hc h.1]
    · rename_i hsame
      split
      · rename_i hin
        obtain ⟨hc, hj, hlt⟩ := hin
        rw [hj] at hlt
        rw [hc, hj]
        exact not_not.mp fun hdiff => hsame ⟨hlt, hdiff⟩
      · rfl
  constructor
  · rw [vplicSetEnbl_regs, ← h.act]
    split <;> rfl
  · rw [vplicSetEnbl_regs, ← h.prio]
    split <;> rfl
  · rw [vplicSetEnbl_regs, ← h.threshold]
    split <;> rfl
  · intro c j
    rw [hbit, h.enbl]
    by_cases hj : j = firstInt + k
    · rw [hj]
      by_cases hc : c = vcntxt ∧ firstInt + k < plicMaxInterrupts
      · rw [if_pos ⟨hc.1, rfl, hc.2⟩, if_pos (by omega), Nat.add_sub_cancel_left]
      · rw [if_neg fun h => hc ⟨h.1, h.2.2⟩, if_neg (by omega), if_neg fun h => hc ⟨h.1, h.2.2.2⟩]
    · rw [if_neg fun h => hj h.2.1]
      have hiff : (c = vcntxt ∧ firstInt ≤ j ∧ j < firstInt + k ∧ j < plicMaxInterrupts) ↔
          c = vcntxt ∧ firstInt ≤ j ∧ j < firstInt + (k + 1) ∧ j < plicMaxInterrupts := by omega
      rw [if_congr hiff rfl rfl]

/-- **A word of enable bits** is stored bit by bit. -/
theorem setEnblWord_stored (v vcntxt firstInt : Nat) (val : BitVec 64) (s : VplicState) :
    EnblStored vcntxt firstInt 32 val s.regs (setEnblWord P v vcntxt firstInt val s).regs := by
  have hloop : ∀ k, EnblStored vcntxt firstInt k val s.regs ((List.range k).foldl (fun s i =>
      vplicSetEnbl P v vcntxt (firstInt + i) (val.getLsbD i) s) s).regs := by
    intro k
    induction k with
    | zero => exact ⟨rfl, rfl, rfl, fun c j => (if_neg (by omega)).symm⟩
    | succ k ih =>
        rw [List.range_succ, List.foldl_append, List.foldl_cons, List.foldl_nil]
        exact ih.step
  exact hloop 32

namespace PlicReg

theorem complete_one (v vcntxt : Nat) (s : VplicState) :
    (vplicComplete P v vcntxt ((1#64).setWidth 32).toNat s).regs = s.regs.setAct 1 false := by
  rw [vplicComplete_regs]
  exact if_pos (by decide)

theorem stored_self {reg : PlicReg} (hexists : reg.Exists P) (hreal : ¬ reg.Ignores) :
    reg.Stored (reg.store P reg.prober 1#64 storeProbe) := by
  cases reg with
  | prio id =>
      have hlt : id < plicMaxInterrupts := hexists
      have hnew : storeProbe.regs.prio id ≠ (1#64).setWidth 32 := by
        change (0#32) ≠ 1#32
        decide
      change (vplicSetPrio P _ id _ storeProbe).regs.prio id ≠ 0
      rw [vplicSetPrio_regs, if_pos ⟨hlt, hnew⟩]
      change atCpu _ id _ id ≠ 0#32
      rw [atCpu_same]
      decide
  | pend word => exact absurd trivial hreal
  | enbl vcntxt word =>
      have hin : vcntxt = vcntxt ∧ word * 32 ≤ word * 32 ∧ word * 32 < word * 32 + 32 ∧
          word * 32 < plicMaxInterrupts := by
        have hword : word < 32 := hexists.2
        change _ ∧ _ ∧ _ ∧ _ < 1024
        omega
      change (setEnblWord P _ vcntxt (word * 32) _ storeProbe).regs.enbl vcntxt (word * 32) = true
      rw [(setEnblWord_stored ..).enbl, if_pos hin, Nat.sub_self]
      rfl
  | threshold vcntxt =>
      change (vplicSetThreshold P _ vcntxt _ storeProbe).regs.threshold vcntxt ≠ 0
      rw [vplicSetThreshold_regs]
      change atCpu _ vcntxt _ vcntxt ≠ 0#32
      rw [atCpu_same]
      decide
  | claim vcntxt =>
      have hcpu : vcntxtCpu P vcntxt = some (P.physId (vcntxt / 2)) := vcntxtCpu_valid hexists
      constructor
      · change (vplicComplete P _ vcntxt _ storeProbe).regs.act 1 = false
        rw [complete_one]
        rfl
      · intro cpu
        change (vplicUpdateHartLine P (vcntxt / 2) vcntxt _).inbox cpu = []
        unfold vplicUpdateHartLine
        rw [hcpu]
        dsimp only
        rw [if_pos rfl]
        rfl
  | reserved => exact absurd trivial hreal

theorem stored_other {reg reg' : PlicReg} (hexists : reg.Exists P) (hexists' : reg'.Exists P)
    (hne : reg ≠ reg') : ¬ reg.Stored (reg'.store P reg.prober 1#64 storeProbe) := by
  cases reg with
  | prio id =>
      apply not_not.mpr
      cases reg' with
      | prio id' =>
          have hid : id ≠ id' := fun h => hne (congrArg _ h)
          change (vplicSetPrio P _ id' _ storeProbe).regs.prio id = 0
          rw [vplicSetPrio_regs]
          split
          · exact atCpu_other _ _ hid
          · rfl
      | pend word => rfl
      | enbl vcntxt word => exact congrFun (setEnblWord_stored ..).prio id
      | threshold vcntxt =>
          change (vplicSetThreshold P _ vcntxt _ storeProbe).regs.prio id = 0
          rw [vplicSetThreshold_regs]
          rfl
      | claim vcntxt =>
          change (vplicComplete P _ vcntxt _ storeProbe).regs.prio id = 0
          rw [complete_one]
          rfl
      | reserved => rfl
  | pend word => exact id
  | enbl vcntxt word =>
      apply Bool.eq_false_iff.mp
      cases reg' with
      | prio id' =>
          change (vplicSetPrio P _ id' _ storeProbe).regs.enbl vcntxt (word * 32) = false
          rw [vplicSetPrio_regs]
          split <;> rfl
      | pend word' => rfl
      | enbl vcntxt' word' =>
          have hout : ¬ (vcntxt = vcntxt' ∧ word' * 32 ≤ word * 32 ∧ word * 32 < word' * 32 + 32 ∧
              word * 32 < plicMaxInterrupts) := by
            intro h
            have hword : word = word' := by omega
            exact hne (by rw [h.1, hword])
          change (setEnblWord P _ vcntxt' (word' * 32) _ storeProbe).regs.enbl vcntxt (word * 32) =
            false
          rw [(setEnblWord_stored ..).enbl, if_neg hout]
          rfl
      | threshold vcntxt' =>
          change (vplicSetThreshold P _ vcntxt' _ storeProbe).regs.enbl vcntxt (word * 32) = false
          rw [vplicSetThreshold_regs]
          rfl
      | claim vcntxt' =>
          change (vplicComplete P _ vcntxt' _ storeProbe).regs.enbl vcntxt (word * 32) = false
          rw [complete_one]
          rfl
      | reserved => rfl
  | threshold vcntxt =>
      apply not_not.mpr
      cases reg' with
      | prio id' =>
          change (vplicSetPrio P _ id' _ storeProbe).regs.threshold vcntxt = 0
          rw [vplicSetPrio_regs]
          split <;> rfl
      | pend word' => rfl
      | enbl vcntxt' word' => exact congrFun (setEnblWord_stored ..).threshold vcntxt
      | threshold vcntxt' =>
          have hc : vcntxt ≠ vcntxt' := fun h => hne (congrArg _ h)
          change (vplicSetThreshold P _ vcntxt' _ storeProbe).regs.threshold vcntxt = 0
          rw [vplicSetThreshold_regs]
          exact atCpu_other _ _ hc
      | claim vcntxt' =>
          change (vplicComplete P _ vcntxt' _ storeProbe).regs.threshold vcntxt = 0
          rw [complete_one]
          rfl
      | reserved => rfl
  | claim vcntxt =>
      intro h
      obtain ⟨hcleared, hquiet⟩ := h
      cases reg' with
      | prio id' =>
          change (vplicSetPrio P _ id' _ storeProbe).regs.act 1 = false at hcleared
          rw [vplicSetPrio_regs] at hcleared
          split at hcleared <;> cases hcleared
      | pend word' => cases hcleared
      | enbl vcntxt' word' =>
          have hkept := congrFun (@setEnblWord_stored P (vcntxt / 2) vcntxt' (word' * 32) 1#64
            storeProbe).act 1
          cases hkept.symm.trans hcleared
      | threshold vcntxt' =>
          change (vplicSetThreshold P _ vcntxt' _ storeProbe).regs.act 1 = false at hcleared
          rw [vplicSetThreshold_regs] at hcleared
          cases hcleared
      | claim vcntxt' =>
          -- the message to the other context's CPU tells the two completions apart
          have hcpu : vcntxtCpu P vcntxt = some (P.physId (vcntxt / 2)) := vcntxtCpu_valid hexists
          have hcpu' : vcntxtCpu P vcntxt' = some (P.physId (vcntxt' / 2)) :=
            vcntxtCpu_valid hexists'
          have hdiff : P.physId (vcntxt' / 2) ≠ P.physId (vcntxt / 2) := by
            intro hsame
            rw [hsame] at hcpu'
            exact hne (congrArg _ (vcntxtCpu_inj hexists hexists' hcpu hcpu'))
          have hempty := hquiet (P.physId (vcntxt' / 2))
          change (vplicUpdateHartLine P (vcntxt / 2) vcntxt' _).inbox _ = [] at hempty
          unfold vplicUpdateHartLine at hempty
          rw [hcpu'] at hempty
          dsimp only at hempty
          rw [if_neg hdiff] at hempty
          change atCpu _ (P.physId (vcntxt' / 2)) _ (P.physId (vcntxt' / 2)) = [] at hempty
          rw [atCpu_same] at hempty
          cases hempty
      | reserved => cases hcleared
  | reserved => exact id

/-- **Stores tell registers apart**, those apart that ignore stores. -/
theorem store_separates {reg reg' : PlicReg} (hexists : reg.Exists P) (hexists' : reg'.Exists P)
    (hne : reg ≠ reg') (hreal : ¬ (reg.Ignores ∧ reg'.Ignores)) :
    ∃ v s, reg.store P v 1#64 s ≠ reg'.store P v 1#64 s := by
  by_cases hignores : reg.Ignores
  · have hreal' : ¬ reg'.Ignores := fun h => hreal ⟨hignores, h⟩
    refine ⟨reg'.prober, storeProbe, fun hsame => ?_⟩
    exact stored_other hexists' hexists hne.symm (hsame ▸ stored_self hexists' hreal')
  · refine ⟨reg.prober, storeProbe, fun hsame => ?_⟩
    exact stored_other hexists hexists' hne (hsame ▸ stored_self hexists hignores)

theorem Ignores.store {reg : PlicReg} (h : reg.Ignores) : reg.store P v val s = s := by
  cases reg with
  | pend word => rfl
  | reserved => rfl
  | prio id => cases h
  | enbl vcntxt word => cases h
  | threshold vcntxt => cases h
  | claim vcntxt => cases h

end PlicReg

/-! ## Exact accesses -/

variable {acc : PlicWord P base}

theorem PlicWord.selected_exists : (acc.selected P).Exists P := by
  unfold PlicWord.selected
  split
  · split
    · change acc.addr % 0x1000 / 4 < 1024
      omega
    · split
      · exact pendOf_exists _
      · refine enblOf_exists _ ?_
        change acc.addr % 0x80 / 4 < 32
        omega
  · exact hartOf_exists _ _

theorem plicMap_exists (off : Nat) : (plicMap P off).Exists P := by
  unfold plicMap
  split
  · trivial
  · split
    · change off / 4 < 1024
      omega
    · split
      · exact pendOf_exists _
      · split
        · refine enblOf_exists _ ?_
          change (off - 0x2000) % 0x80 / 4 < 32
          omega
        · exact hartOf_exists _ _

theorem PlicWord.access_store (hwrite : acc.write = true) (reg : PlicReg) :
    reg.access P v (acc.toAccess P val) s = (none, reg.store P v val s) := if_pos hwrite

theorem PlicWord.access_load (hread : ¬ acc.write = true) (reg : PlicReg) :
    reg.access P v (acc.toAccess P val) s = (some (reg.load P v s).1, (reg.load P v s).2) :=
  if_neg hread

/-- An access is exact if the masks select the register of the map, or if it is
a store that both ignore. -/
theorem PlicWord.exact_iff :
    acc.Exact P ↔ Agree acc.write (acc.selected P) (plicMap P (acc.addr - base)) := by
  have hexact : acc.Exact P ↔ ∀ v val s,
      (acc.selected P).access P v (acc.toAccess P val) s =
        (plicMap P (acc.addr - base)).access P v (acc.toAccess P val) s := by
    unfold PlicWord.Exact
    simp only [vplicAccess_eq, Option.some.injEq]
  rw [hexact]
  constructor
  · intro h
    by_cases hsame : acc.selected P = plicMap P (acc.addr - base)
    · exact Or.inl hsame
    · refine Or.inr ?_
      by_cases hwrite : acc.write = true
      · refine ⟨hwrite, Classical.byContradiction fun hreal => ?_⟩
        obtain ⟨v, s, hdiff⟩ := PlicReg.store_separates PlicWord.selected_exists
          (plicMap_exists (P := P) (acc.addr - base)) hsame hreal
        have hstep := h v 1#64 s
        rw [PlicWord.access_store hwrite, PlicWord.access_store hwrite] at hstep
        exact hdiff (congrArg Prod.snd hstep)
      · obtain ⟨s, hdiff⟩ := PlicReg.load_separates P 0 hsame
        have hstep := h 0 0#64 s
        rw [PlicWord.access_load hwrite, PlicWord.access_load hwrite] at hstep
        exact absurd (Option.some.inj (congrArg Prod.fst hstep)) hdiff
  · intro h v val s
    rcases h with hsame | ⟨hwrite, hselected, hmap⟩
    · rw [hsame]
    · rw [PlicWord.access_store hwrite, PlicWord.access_store hwrite, hselected.store, hmap.store]

variable (P) in
/-- **What the masks get right** in a window at a multiple of 4 MiB, with at
most 64 CPUs: not source 0, not the enable words of contexts from 64 on, and
not the places of a context's page that repeat threshold and claim. -/
def PlicWord.Fits (acc : PlicWord P base) : Prop :=
  let off := acc.addr - base
  if off < 0x4000 then 4 ≤ off
  else if off < plicThresholdOff then
    0x5000 ≤ off ∧ ¬ vplicVcntxtValid P ((off - 0x2000) / 0x80) ∧
      (acc.write = true ∨ 0x5080 ≤ off)
  else
    ¬ vplicVcntxtValid P ((off - plicThresholdOff) / plicHartSize) ∨
      off % plicHartSize < 16 ∨ 8 ≤ off % 16

section Aligned

variable (hbase : base % 0x400000 = 0) (hcpus : P.cpuNum ≤ 64)
include hcpus

theorem plicGlobalSize_le : plicGlobalSize P ≤ 0x6000 := by
  unfold plicGlobalSize plicPlatCntxtNum
  change (0x2000 + 2 * P.cpuNum * (32 * 4) + 0xfff) / 0x1000 * 0x1000 ≤ 0x6000
  omega

include hbase

theorem fits_hart (hpast : base + plicThresholdOff ≤ acc.addr)
    (hlt : acc.addr < base + plicThresholdOff + plicHartSize * cntxtNum P) :
    Agree acc.write (acc.selected P) (plicMap P (acc.addr - base)) ↔ acc.Fits P := by
  have hsize := plicGlobalSize_le hcpus
  have hnum := P.vcpuNum_le
  have haligned := acc.aligned
  change base + 0x200000 ≤ acc.addr at hpast
  change acc.addr < base + 0x200000 + 0x1000 * (2 * P.vcpuNum) at hlt
  have hcntxt : (acc.addr + 2 ^ 64 - 0x200000) % 2 ^ 64 / 0x1000 % 0x400 =
      (acc.addr - base - 0x200000) / 0x1000 := by omega
  unfold PlicWord.selected PlicWord.Fits plicMap plicThresholdOff plicHartSize
  dsimp only
  rw [if_neg (by omega), if_neg (by omega), if_neg (by omega), if_neg (by omega), if_neg (by omega),
    if_neg (by omega), if_neg (by omega), hcntxt]
  generalize (acc.addr - base - 0x200000) / 0x1000 = vcntxt
  unfold hartOf
  by_cases hvalid : vplicVcntxtValid P vcntxt
  · rw [if_pos hvalid, if_pos hvalid]
    by_cases hnear : (acc.addr - base) % 0x1000 < 16
    · have hplace : (acc.addr - base - 0x200000) % 0x1000 = acc.addr % 16 := by omega
      rw [hplace]
      exact ⟨fun _ => Or.inr (Or.inl hnear), fun _ => Or.inl rfl⟩
    · have hmap : (if (acc.addr - base - 0x200000) % 0x1000 = 0 then threshold vcntxt
          else if (acc.addr - base - 0x200000) % 0x1000 = 4 then claim vcntxt
          else reserved) = reserved := by
        rw [if_neg (by omega), if_neg (by omega)]
      rw [hmap]
      by_cases hthreshold : acc.addr % 16 = 0
      · have hfar : ¬ ((acc.addr - base) % 0x1000 < 16 ∨ 8 ≤ (acc.addr - base) % 16) := by omega
        rw [if_pos hthreshold]
        exact ⟨fun h => absurd h (not_agree (fun h => by cases h) fun h => h.1),
          fun h => absurd (h.resolve_left (not_not.mpr hvalid)) hfar⟩
      · by_cases hclaim : acc.addr % 16 = 4
        · have hfar : ¬ ((acc.addr - base) % 0x1000 < 16 ∨ 8 ≤ (acc.addr - base) % 16) := by omega
          rw [if_neg hthreshold, if_pos hclaim]
          exact ⟨fun h => absurd h (not_agree (fun h => by cases h) fun h => h.1),
            fun h => absurd (h.resolve_left (not_not.mpr hvalid)) hfar⟩
        · rw [if_neg hthreshold, if_neg hclaim]
          exact ⟨fun _ => Or.inr (Or.inr (by omega)), fun _ => Or.inl rfl⟩
  · rw [if_neg hvalid, if_neg hvalid]
    exact ⟨fun _ => Or.inl hvalid, fun _ => Or.inl rfl⟩

omit hcpus in
theorem fits_low (hpast : base ≤ acc.addr) (hin : acc.addr < base + plicGlobalSize P)
    (hlow : acc.addr - base < 0x4000) :
    Agree acc.write (acc.selected P) (plicMap P (acc.addr - base)) ↔ acc.Fits P := by
  have haligned := acc.aligned
  have hfits : acc.Fits P ↔ 4 ≤ acc.addr - base := iff_of_eq (if_pos hlow)
  have hselected : acc.selected P = _ := if_pos ⟨hin, hpast⟩
  rw [hfits, hselected]
  unfold plicMap
  by_cases hfirst : acc.addr - base < 4
  · rw [if_pos hfirst, if_pos (by omega)]
    exact ⟨fun h => absurd h (not_agree (fun h => by cases h) fun h => h.1),
      fun h => absurd hfirst (Nat.not_lt.mpr h)⟩
  · refine ⟨fun _ => Nat.le_of_not_lt hfirst, fun _ => Or.inl ?_⟩
    rw [if_neg hfirst]
    by_cases hprio : acc.addr - base < 0x1000
    · rw [if_pos hprio, if_pos (by omega)]
      exact congrArg PlicReg.prio (by omega)
    · rw [if_neg hprio, if_neg (by omega)]
      by_cases hpend : acc.addr - base < 0x2000
      · rw [if_pos hpend, if_pos (by omega)]
        exact congrArg pendOf (by omega)
      · have hthreshold : acc.addr - base < plicThresholdOff := by
          unfold plicThresholdOff
          omega
        rw [if_neg hpend, if_neg (by omega), if_pos hthreshold]
        exact congrArg₂ (enblOf P) (by omega) (by omega)

theorem fits_high (hpast : base ≤ acc.addr) (hin : acc.addr < base + plicGlobalSize P)
    (hhigh : 0x4000 ≤ acc.addr - base) :
    Agree acc.write (acc.selected P) (plicMap P (acc.addr - base)) ↔ acc.Fits P := by
  have haligned := acc.aligned
  have hsize := plicGlobalSize_le hcpus
  have hthreshold : acc.addr - base < plicThresholdOff := by
    unfold plicThresholdOff
    omega
  have hmap : plicMap P (acc.addr - base) =
      enblOf P ((acc.addr - base - 0x2000) / 0x80) ((acc.addr - base - 0x2000) % 0x80 / 4) := by
    unfold plicMap
    rw [if_neg (by omega), if_neg (by omega), if_neg (by omega), if_pos hthreshold]
  have hfits : acc.Fits P ↔ 0x5000 ≤ acc.addr - base ∧
      ¬ vplicVcntxtValid P ((acc.addr - base - 0x2000) / 0x80) ∧
        (acc.write = true ∨ 0x5080 ≤ acc.addr - base) :=
    iff_of_eq ((if_neg (Nat.not_lt.mpr hhigh)).trans (if_pos hthreshold))
  have hselected : acc.selected P = _ := if_pos ⟨hin, hpast⟩
  rw [hfits, hmap, hselected]
  by_cases hpage : acc.addr - base < 0x5000
  · rw [if_pos (by omega)]
    refine ⟨fun h => absurd h (not_agree ?_ fun h => h.1), fun h => by omega⟩
    unfold enblOf
    split
    · exact fun h => by cases h
    · exact fun h => by cases h
  · rw [if_neg (by omega), if_pos (by omega)]
    unfold enblOf pendOf
    by_cases hvalid : vplicVcntxtValid P ((acc.addr - base - 0x2000) / 0x80)
    · rw [if_pos hvalid]
      refine ⟨fun h => absurd h (not_agree ?_ fun h => h.2), fun h => absurd hvalid h.2.1⟩
      split
      · exact fun h => by cases h
      · exact fun h => by cases h
    · rw [if_neg hvalid]
      by_cases hword : acc.addr % 0x1000 / 4 < plicNumEnblRegs
      · rw [if_pos hword]
        change _ < 32 at hword
        constructor
        · intro h
          rcases h with h | ⟨hwrite, -⟩
          · cases h
          · exact ⟨by omega, hvalid, Or.inl hwrite⟩
        · intro h
          rcases h.2.2 with hwrite | hpast
          · exact Or.inr ⟨hwrite, trivial, trivial⟩
          · omega
      · rw [if_neg hword]
        change ¬ _ < 32 at hword
        exact ⟨fun _ => ⟨by omega, hvalid, Or.inr (by omega)⟩, fun _ => Or.inl rfl⟩

end Aligned

/-- **Decoding.**  An access is exact exactly if the masks, which take the
address and not the offset, select the register of the map, or it is a store
that both ignore.  For a window at a multiple of 4 MiB these are the accesses
that `Fits` names. -/
theorem vplic_decoding_iff (P : VplicPlat) (base : Nat) (acc : PlicWord P base) :
    (acc.Exact P ↔ Agree acc.write (acc.selected P) (plicMap P (acc.addr - base))) ∧
      (base % 0x400000 = 0 ∧ P.cpuNum ≤ 64 → (acc.Exact P ↔ acc.Fits P)) := by
  refine ⟨PlicWord.exact_iff, fun hplat => ?_⟩
  obtain ⟨hbase, hcpus⟩ := hplat
  rw [PlicWord.exact_iff]
  rcases acc.inWindow with ⟨hpast, hin⟩ | ⟨hpast, hin⟩
  · by_cases hlow : acc.addr - base < 0x4000
    · exact fits_low hbase hpast hin hlow
    · exact fits_high hbase hcpus hpast hin (by omega)
  · exact fits_hart hbase hcpus hpast hin

/-- A load at 0x10 in the page of context 1 reads its threshold. -/
theorem vplic_decoding_aliases :
    ¬ PlicWord.Exact ⟨1, 1, id, fun _ => false, Nat.le_refl 1, fun _ h => h, fun _ _ h => h⟩
      (⟨0xc201010, false, by decide, Or.inr (by decide)⟩ : PlicWord
        ⟨1, 1, id, fun _ => false, Nat.le_refl 1, fun _ h => h, fun _ _ h => h⟩ 0xc000000) := by
  intro h
  have hload := congrArg (Option.map Prod.fst)
    (h 0 0 (vplicBoot.updRegs fun r => r.setThreshold 1 5))
  exact absurd hload (by decide)

end Bao

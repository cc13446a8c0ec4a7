import BaoHypervisor.Intc2Isolation

/-!
# The INTC2 as a guest sees it

A guest sees the bits of its own interrupts; the others read as zero and ignore
stores.  In the PEID field of an EIBD register it sees the number of one of its
vCPUs instead of that of a core.  The outcome of an access to the window is
stated here in terms of these bits.
-/

namespace Bao

open BitMemory

/-- Bit `b` of the window is in an EIBD register. -/
def inEibd (b : Nat) : Bool := decide (0x2000 ≤ b / 8 ∧ b / 8 < 0x4000)

/-- The interrupt of bit `b` of the window, as the handlers number it. -/
def intc2BitInt (b : Nat) : Nat :=
  if b / 8 < 0x1000 then (regIdx intc2Eic 2 (b / 8) + 32) % 2 ^ 32
  else if b / 8 < 0x2000 then
    (b % 32 + (regIdx intc2Imr 4 (b / 8) * 32 % 2 ^ 32 + 32) % 2 ^ 32) % 2 ^ 32
  else if b / 8 < 0x4000 then (regIdx intc2Eibd 4 (b / 8) + 32) % 2 ^ 32
  else (regIdx intc2Eeic 4 (b / 8) + 32) % 2 ^ 32

/-- The guest has bit `b` of the window: the bit is of one of its interrupts
and not one of the hypervisor's in EIBD. -/
def Intc2Vm.sees (vm : Intc2Vm) (b : Nat) : Bool :=
  vm.hasInterrupt (intc2BitInt b) && (!inEibd b || decide (b % 32 < 3))

/-- The core in the EIBD register at bit `p`. -/
def physPeidAt (m : Store) (p : Nat) : Nat := (word 32 m p &&& 0x7#32).toNat

/-- The vCPU that the guest finds in the EIBD register at bit `p`. -/
def Intc2Vm.virtPeidAt (vm : Intc2Vm) (m : Store) (p : Nat) : Nat :=
  (vm.translateToVcpuid (physPeidAt m p)).getD 0

/-- **The guest's view**: what bit `b` of the window is for the guest. -/
def Intc2Vm.guestBit (vm : Intc2Vm) (m : Store) (b : Nat) : Bool :=
  vm.sees b && if inEibd b then (vm.virtPeidAt m (b - b % 32)).testBit (b % 32) else m b

variable {P : Intc2Plat} {vm : Intc2Vm} {acc : Intc2Access P} {s s' : Intc2State}

/-- The access is to one of the four groups of registers that have a handler. -/
def Intc2Access.served (acc : Intc2Access P) : Prop :=
  acc.offset < 0x3000 ∨ (0x4000 ≤ acc.offset ∧ acc.offset < 0x5000)

/-- The handler of the group goes to the register: it is of an interrupt of the
VM, or in IMR, where no interrupt is looked up at first. -/
def Intc2Vm.performs (vm : Intc2Vm) (a : Nat) : Prop :=
  (0x1000 ≤ a ∧ a < 0x2000) ∨ vm.hasInterrupt (intc2BitInt (8 * a)) = true

theorem Intc2Access.served.cases (h : acc.served) :
    acc.offset < 0x1000 ∨ (0x1000 ≤ acc.offset ∧ acc.offset < 0x2000) ∨
      (0x2000 ≤ acc.offset ∧ acc.offset < 0x3000) ∨
      (0x4000 ≤ acc.offset ∧ acc.offset < 0x5000) := by
  unfold Intc2Access.served at h
  omega

instance {acc : Intc2Access P} : Decidable acc.served := inferInstanceAs (Decidable (_ ∨ _))

instance {a : Nat} : Decidable (vm.performs a) := inferInstanceAs (Decidable (_ ∨ _))

/-- A load from the PEID field of a core that is not the VM's. -/
def Intc2Vm.peidLost (vm : Intc2Vm) (m : Store) (a : Nat) : Prop :=
  inEibd (8 * a) = true ∧ vm.hasInterrupt (intc2BitInt (8 * a)) = true ∧
    vm.translateToVcpuid (physPeidAt m (8 * (a - a % 4))) = none

instance {m : Store} {a : Nat} : Decidable (vm.peidLost m a) :=
  inferInstanceAs (Decidable (_ ∧ _))

/-- What a store puts into the accessed bytes. -/
def Intc2Vm.laneStored (vm : Intc2Vm) (acc : Intc2Access P) (s : Intc2State) : BitVec 32 :=
  let cur := word 32 s.intc2 (8 * (acc.offset - acc.offset % 4))
  if 0x1000 ≤ acc.offset ∧ acc.offset < 0x2000 then
    imrStored vm acc.firstImrInt (s.readreg acc.reg) cur
  else if 0x2000 ≤ acc.offset ∧ acc.offset < 0x4000 then eibdStored vm cur (s.readreg acc.reg)
  else s.readreg acc.reg

/-! ## The handlers' outcomes -/

theorem vintc2EmulHandler_decoded (hdec : acc.decoded) :
    vintc2EmulHandler vm acc s =
      if acc.offset < 0x1000 then (emulateIntcEicAccess vm acc s).map (true, ·)
      else if acc.offset < 0x2000 then (emulateIntcImrAccess vm acc s).map (true, ·)
      else if acc.offset < 0x3000 then (emulateIntcEibdAccess vm acc s).map (true, ·)
      else if 0x4000 ≤ acc.offset ∧ acc.offset < 0x5000 then
        (emulateIntcEeicAccess vm acc s).map (true, ·)
      else some (false, s) := by
  have hlt := acc.offset_lt
  rw [intc2Size] at hlt
  unfold vintc2EmulHandler
  rw [if_pos (show acc.addr % acc.width = 0 ∧ acc.width ≤ 4 from hdec)]
  simp only [and_intc2OffsetMask acc.offset_lt, intc2EicOffset, intc2ImrOffset,
    intc2EibdOffset, intc2EeicOffset]
  have heic : 0x1000 * (acc.offset / 0x1000) = 0 ↔ acc.offset < 0x1000 := by omega
  have himr : 0x1000 * (acc.offset / 0x1000) = 0x1000 ↔
      0x1000 ≤ acc.offset ∧ acc.offset < 0x2000 := by omega
  have heibd : 0x1000 * (acc.offset / 0x1000) = 0x2000 ↔
      0x2000 ≤ acc.offset ∧ acc.offset < 0x3000 := by omega
  have heeic : 0x1000 * (acc.offset / 0x1000) = 0x4000 ↔
      0x4000 ≤ acc.offset ∧ acc.offset < 0x5000 := by omega
  simp only [heic, himr, heibd, heeic]
  by_cases h1 : acc.offset < 0x1000
  · simp only [h1, if_true]
  · have h1' : 0x1000 ≤ acc.offset := Nat.le_of_not_lt h1
    by_cases h2 : acc.offset < 0x2000
    · simp only [h1, h1', h2, and_self, if_true, if_false]
    · have h2' : 0x2000 ≤ acc.offset := Nat.le_of_not_lt h2
      simp only [h1, h2, h2', and_false, true_and, if_false]

theorem vintc2EmulHandler_refused (hdec : ¬ acc.decoded) :
    vintc2EmulHandler vm acc s =
      some (true, if acc.write then s else s.writereg acc.reg 0#32) := by
  unfold vintc2EmulHandler
  rw [if_neg (show ¬ (acc.addr % acc.width = 0 ∧ acc.width ≤ 4) from hdec)]
  cases acc.write with
  | false => rfl
  | true => rfl

theorem vintc2EmulHandler_unserved (hdec : acc.decoded) (hgroup : ¬ acc.served) :
    vintc2EmulHandler vm acc s = some (false, s) := by
  unfold Intc2Access.served at hgroup
  rw [vintc2EmulHandler_decoded hdec, if_neg (by omega), if_neg (by omega), if_neg (by omega),
    if_neg (by omega)]

theorem vintc2EmulHandler_eicWord (hword : acc.eicWord) :
    vintc2EmulHandler vm acc s = some (true, s) := by
  obtain ⟨hdec, hoff, hwide⟩ := hword
  rw [vintc2EmulHandler_decoded hdec, if_pos hoff, emulateIntcEicAccess, if_pos hwide]
  rfl

/-! ## The interrupt of an accessed bit -/

theorem regIdx_lane {bot size j : Nat} (hsize : size = 2 ∨ size = 4) (hbot : bot % size = 0)
    (hlt : bot < 2 ^ 32) (hdec : acc.decoded) (hfit : acc.width ≤ size)
    (hj : j < 8 * acc.width) :
    regIdx bot size ((8 * acc.offset + j) / 8) = regIdx bot size acc.offset := by
  have hmod := hdec.offset_mod
  have hoff := acc.offset_lt
  rw [intc2Size] at hoff
  unfold regIdx
  rcases hdec.width_cases with hd | hd | hd <;> rw [hd] at hmod hfit hj <;>
    rcases hsize with rfl | rfl <;> omega

theorem Intc2Access.decoded.bit_div {j : Nat} (hdec : acc.decoded) (hj : j < 8 * acc.width) :
    (8 * acc.offset + j) / 8 / 0x1000 = acc.offset / 0x1000 := by
  have hmod := hdec.offset_mod
  rcases hdec.width_cases with hd | hd | hd <;> rw [hd] at hmod hj <;> omega

theorem intc2BitInt_eic {j : Nat} (hdec : acc.decoded) (hoff : acc.offset < 0x1000)
    (hfit : acc.width ≤ 2) (hj : j < 8 * acc.width) :
    intc2BitInt (8 * acc.offset + j) = (regIdx intc2Eic 2 acc.offset + 32) % 2 ^ 32 := by
  have hdiv := hdec.bit_div hj
  rw [intc2BitInt, if_pos (by omega), regIdx_lane (Or.inl rfl) rfl (by decide) hdec hfit hj]

theorem intc2BitInt_imr {j : Nat} (hdec : acc.decoded)
    (hoff : 0x1000 ≤ acc.offset ∧ acc.offset < 0x2000) (hj : j < 8 * acc.width) :
    intc2BitInt (8 * acc.offset + j) =
      (8 * (acc.offset % 4) + j + acc.firstImrInt) % 2 ^ 32 := by
  have hdiv := hdec.bit_div hj
  have hlane := hdec.lane (Or.inr rfl) hdec.2 hj
  have hbit : (8 * acc.offset + j) % 32 = 8 * (acc.offset % 4) + j := by omega
  rw [intc2BitInt, if_neg (by omega), if_pos (by omega),
    regIdx_lane (Or.inr rfl) rfl (by decide) hdec hdec.2 hj, hbit]
  rfl

theorem intc2BitInt_eibd {j : Nat} (hdec : acc.decoded)
    (hoff : 0x2000 ≤ acc.offset ∧ acc.offset < 0x4000) (hj : j < 8 * acc.width) :
    intc2BitInt (8 * acc.offset + j) = (regIdx intc2Eibd 4 acc.offset + 32) % 2 ^ 32 := by
  have hdiv := hdec.bit_div hj
  rw [intc2BitInt, if_neg (by omega), if_neg (by omega), if_pos (by omega),
    regIdx_lane (Or.inr rfl) rfl (by decide) hdec hdec.2 hj]

theorem intc2BitInt_eeic {j : Nat} (hdec : acc.decoded) (hoff : 0x4000 ≤ acc.offset)
    (hj : j < 8 * acc.width) :
    intc2BitInt (8 * acc.offset + j) = (regIdx intc2Eeic 4 acc.offset + 32) % 2 ^ 32 := by
  have hdiv := hdec.bit_div hj
  rw [intc2BitInt, if_neg (by omega), if_neg (by omega), if_neg (by omega),
    regIdx_lane (Or.inr rfl) rfl (by decide) hdec hdec.2 hj]

theorem Intc2Vm.guestBit_plain {m : Store} {b : Nat} (hplain : inEibd b = false) :
    vm.guestBit m b = (vm.hasInterrupt (intc2BitInt b) && m b) := by
  rw [Intc2Vm.guestBit, Intc2Vm.sees, hplain]
  simp

theorem Intc2Access.inEibd_lane {j : Nat} (hdec : acc.decoded) (hj : j < 8 * acc.width) :
    inEibd (8 * acc.offset + j) = decide (0x2000 ≤ acc.offset ∧ acc.offset < 0x4000) := by
  have hdiv := hdec.bit_div hj
  unfold inEibd
  apply decide_eq_decide.mpr
  omega

theorem Intc2Access.guestBit_lane {j : Nat} (hdec : acc.decoded)
    (hNot : ¬ (0x2000 ≤ acc.offset ∧ acc.offset < 0x4000)) (hj : j < 8 * acc.width) {m : Store} :
    vm.guestBit m (8 * acc.offset + j) =
      (vm.hasInterrupt (intc2BitInt (8 * acc.offset + j)) && m (8 * acc.offset + j)) :=
  Intc2Vm.guestBit_plain ((acc.inEibd_lane hdec hj).trans (decide_eq_false hNot))

theorem not_peidLost (hdec : acc.decoded)
    (hNot : ¬ (0x2000 ≤ acc.offset ∧ acc.offset < 0x4000)) : ¬ vm.peidLost s.intc2 acc.offset := by
  intro hlost
  have hzero : inEibd (8 * acc.offset) = decide (0x2000 ≤ acc.offset ∧ acc.offset < 0x4000) :=
    acc.inEibd_lane hdec hdec.width_pos
  exact hNot (of_decide_eq_true (hzero ▸ hlost.1))

theorem Intc2Access.guestBit_eibd {j : Nat} (hdec : acc.decoded)
    (hoff : 0x2000 ≤ acc.offset ∧ acc.offset < 0x4000) (hj : j < 8 * acc.width) {m : Store} :
    vm.guestBit m (8 * acc.offset + j) =
      (vm.hasInterrupt ((regIdx intc2Eibd 4 acc.offset + 32) % 2 ^ 32) &&
        (decide (8 * (acc.offset % 4) + j < 3) &&
          (vm.virtPeidAt m (8 * (acc.offset - acc.offset % 4))).testBit
            (8 * (acc.offset % 4) + j))) := by
  have hlane := hdec.lane (Or.inr rfl) hdec.2 hj
  have hbit : (8 * acc.offset + j) % 32 = 8 * (acc.offset % 4) + j := by omega
  have hbase : 8 * acc.offset + j - (8 * (acc.offset % 4) + j) =
      8 * (acc.offset - acc.offset % 4) := by omega
  rw [Intc2Vm.guestBit, Intc2Vm.sees, acc.inEibd_lane hdec hj, decide_eq_true hoff,
    intc2BitInt_eibd hdec hoff hj, hbit, hbase, Bool.not_true, Bool.false_or, if_pos rfl,
    Bool.and_assoc]

/-! ## Loads -/

/-- **A load from a register of one interrupt** shows the guest's bits. -/
theorem emulateRegAccess_load {w bot id : Nat} {stored : BitVec w → BitVec 32 → BitVec 32}
    {loaded : BitVec w → Option (BitVec 32)} {cur : BitVec w} (hw : w = 16 ∨ w = 32)
    (hbot : bot % 4 = 0) (hlt : bot < 2 ^ 32) (hdec : acc.decoded) (hfit : acc.width ≤ w / 8)
    (hid : (regIdx bot (w / 8) acc.offset + 32) % 2 ^ 32 = id)
    (hcur : word w s.intc2 (8 * (acc.offset - acc.offset % (w / 8))) = cur)
    (hno : acc.bwop = .no) (hread : acc.write = false)
    (hseen : vm.hasInterrupt id = true → ∀ x, loaded cur = some x → ∀ j, j < 8 * acc.width →
      x.getLsbD (8 * (acc.offset % (w / 8)) + j) = vm.guestBit s.intc2 (8 * acc.offset + j))
    (hunseen : vm.hasInterrupt id = false → ∀ j, j < 8 * acc.width →
      vm.guestBit s.intc2 (8 * acc.offset + j) = false) :
    emulateRegAccess w bot stored loaded vm acc s =
      if vm.hasInterrupt id = true ∧ loaded cur = none then none
      else some (s.writereg acc.reg (extendBits 32 acc.signExt (8 * acc.width)
        fun j => vm.guestBit s.intc2 (8 * acc.offset + j))) := by
  have hpos := hdec.width_pos
  have hplain : ¬ acc.bwop ≠ .no := fun hne => hne hno
  rw [emulateRegAccess_eq hw hbot hlt hdec hfit hid hcur, if_neg hplain, hread]
  cases hhas : vm.hasInterrupt id with
  | false =>
      rw [if_neg Bool.false_ne_true, if_pos (show (!false) = true from rfl),
        if_neg (fun hlost => Bool.false_ne_true hlost.1), extendBits_zero hpos (hunseen hhas)]
  | true =>
      rw [if_pos rfl, if_neg Bool.false_ne_true]
      cases hload : loaded cur with
      | none =>
          rw [if_pos ⟨rfl, rfl⟩]
          rfl
      | some x =>
          rw [if_neg (fun hlost => Option.some_ne_none _ hlost.2),
            ← extendBits_congr hpos (hseen hhas x hload)]
          rfl

/-- **A load** that the handler takes shows the guest's bits, sign-extended if
`sign_ext` is set; it fails where PEID is not one of the VM's cores. -/
theorem vintc2EmulHandler_load (hdec : acc.decoded) (hgroup : acc.served)
    (hword : ¬ acc.eicWord) (hno : acc.bwop = .no) (hread : acc.write = false) :
    vintc2EmulHandler vm acc s =
      if vm.peidLost s.intc2 acc.offset then none
      else some (true, s.writereg acc.reg (extendBits 32 acc.signExt (8 * acc.width)
        fun j => vm.guestBit s.intc2 (8 * acc.offset + j))) := by
  have hpos := hdec.width_pos
  rw [vintc2EmulHandler_decoded hdec]
  rcases hgroup.cases with heic | himr | heibd | heeic
  · have hfit : acc.width ≤ 2 := Nat.le_of_not_lt fun hwide => hword ⟨hdec, heic, hwide⟩
    have hNot : ¬ (0x2000 ≤ acc.offset ∧ acc.offset < 0x4000) := by omega
    have hkeep := @not_peidLost P vm acc s hdec hNot
    rw [if_pos heic, emulateIntcEicAccess, if_neg (Nat.not_lt.mpr hfit),
      emulateRegAccess_load (Or.inl rfl) (by rfl) (by decide) hdec hfit rfl rfl hno hread ?_ ?_,
      if_neg hkeep, if_neg (fun hlost => Option.some_ne_none _ hlost.2)]
    · rfl
    · intro hhas x hx j hj
      obtain ⟨hlt, hback, _⟩ := hdec.lane (Or.inl rfl) hfit hj
      have hlt32 : 8 * (acc.offset % 2) + j < 32 := by omega
      rw [acc.guestBit_lane hdec hNot hj,
        intc2BitInt_eic hdec heic hfit hj, hhas, Bool.true_and, ← Option.some.inj hx,
        BitVec.getLsbD_setWidth, getLsbD_word, hback, decide_eq_true hlt, decide_eq_true hlt32,
        Bool.true_and, Bool.true_and]
    · intro hhas j hj
      rw [acc.guestBit_lane hdec hNot hj,
        intc2BitInt_eic hdec heic hfit hj, hhas, Bool.false_and]
  · have hNot : ¬ (0x2000 ≤ acc.offset ∧ acc.offset < 0x4000) := by omega
    have hkeep := @not_peidLost P vm acc s hdec hNot
    have hplain : ¬ acc.bwop ≠ .no := fun hne => hne hno
    rw [if_neg (by omega), if_pos himr.2, emulateIntcImrAccess_eq hdec rfl, if_neg hplain, hread,
      if_neg Bool.false_ne_true, if_neg hkeep]
    have hbits : ∀ j, j < 8 * acc.width →
        (imrLoaded vm acc.firstImrInt (word 32 s.intc2 (8 * (acc.offset - acc.offset % 4)))).getLsbD
          (8 * (acc.offset % 4) + j) = vm.guestBit s.intc2 (8 * acc.offset + j) := by
      intro j hj
      obtain ⟨hlt, hback, _⟩ := hdec.lane (Or.inr rfl) hdec.2 hj
      rw [acc.guestBit_lane hdec hNot hj,
        intc2BitInt_imr hdec himr hj, getLsbD_imrLoaded hlt, getLsbD_word, hback,
        decide_eq_true hlt, Bool.true_and]
    rw [extendBits_congr hpos hbits]
    rfl
  · have hin : 0x2000 ≤ acc.offset ∧ acc.offset < 0x4000 := by omega
    have hlost : (vm.hasInterrupt ((regIdx intc2Eibd 4 acc.offset + 32) % 2 ^ 32) = true ∧
        eibdLoaded vm (word 32 s.intc2 (8 * (acc.offset - acc.offset % 4))) = none) ↔
        vm.peidLost s.intc2 acc.offset := by
      have hzero : inEibd (8 * acc.offset) = decide (0x2000 ≤ acc.offset ∧ acc.offset < 0x4000) :=
        acc.inEibd_lane hdec hpos
      have hint : intc2BitInt (8 * acc.offset) =
          (regIdx intc2Eibd 4 acc.offset + 32) % 2 ^ 32 := intc2BitInt_eibd hdec hin hpos
      unfold Intc2Vm.peidLost physPeidAt
      rw [hzero, decide_eq_true hin, hint, eibdLoaded, Option.map_eq_none_iff]
      simp
    rw [if_neg (by omega), if_neg (by omega), if_pos heibd.2, emulateIntcEibdAccess,
      emulateRegAccess_load (Or.inr rfl) (by rfl) (by decide) hdec hdec.2 rfl rfl hno hread ?_ ?_]
    · simp only [hlost]
      split
      · rfl
      · rfl
    · intro hhas x hx j hj
      obtain ⟨virtPeid, hvirt, hx⟩ := Option.map_eq_some_iff.mp hx
      obtain ⟨hlt, _, _⟩ := hdec.lane (Or.inr rfl) hdec.2 hj
      rw [acc.guestBit_eibd hdec hin hj, hhas, Bool.true_and, Intc2Vm.virtPeidAt, physPeidAt,
        hvirt, Option.getD_some, ← hx, BitVec.getLsbD_and, getLsbD_peidMask hlt,
        BitVec.getLsbD_ofNat, decide_eq_true hlt, Bool.true_and, Bool.and_comm]
    · intro hhas j hj
      rw [acc.guestBit_eibd hdec hin hj, hhas, Bool.false_and]
  · have hNot : ¬ (0x2000 ≤ acc.offset ∧ acc.offset < 0x4000) := by omega
    have hkeep := @not_peidLost P vm acc s hdec hNot
    rw [if_neg (by omega), if_neg (by omega), if_neg (by omega), if_pos heeic,
      emulateIntcEeicAccess,
      emulateRegAccess_load (Or.inr rfl) (by rfl) (by decide) hdec hdec.2 rfl rfl hno hread ?_ ?_,
      if_neg hkeep, if_neg (fun hlost => Option.some_ne_none _ hlost.2)]
    · rfl
    · intro hhas x hx j hj
      obtain ⟨hlt, hback, _⟩ := hdec.lane (Or.inr rfl) hdec.2 hj
      rw [acc.guestBit_lane hdec hNot hj,
        intc2BitInt_eeic hdec heeic.1 hj, hhas, Bool.true_and, ← Option.some.inj hx,
        getLsbD_word, hback, decide_eq_true hlt, Bool.true_and]
    · intro hhas j hj
      rw [acc.guestBit_lane hdec hNot hj,
        intc2BitInt_eeic hdec heeic.1 hj, hhas, Bool.false_and]

/-! ## Stores and bit operations -/

/-- **A store or a bit operation** on a register of one interrupt. -/
theorem emulateRegAccess_change {w bot id : Nat} {stored : BitVec w → BitVec 32 → BitVec 32}
    {loaded : BitVec w → Option (BitVec 32)} {cur : BitVec w} (hw : w = 16 ∨ w = 32)
    (hbot : bot % 4 = 0) (hlt : bot < 2 ^ 32) (hdec : acc.decoded) (hfit : acc.width ≤ w / 8)
    (hid : (regIdx bot (w / 8) acc.offset + 32) % 2 ^ 32 = id)
    (hcur : word w s.intc2 (8 * (acc.offset - acc.offset % (w / 8))) = cur)
    (hchange : acc.bwop ≠ .no ∨ acc.write = true)
    (hstored : stored cur (s.readreg acc.reg) = vm.laneStored acc s)
    (hperf : vm.performs acc.offset ↔ vm.hasInterrupt id = true) :
    (emulateRegAccess w bot stored loaded vm acc s).map (true, ·) =
      if vm.performs acc.offset then
        if acc.bwop ≠ .no then (bwopAccess acc acc.offset s).map (true, ·)
        else some (true, { s with
          intc2 := setLane s.intc2 (8 * acc.offset) (8 * acc.width) (vm.laneStored acc s) })
      else some (true, if acc.write then s else s.writereg acc.reg 0#32) := by
  rw [emulateRegAccess_eq hw hbot hlt hdec hfit hid hcur, hstored]
  simp only [hperf]
  cases hhas : vm.hasInterrupt id with
  | false =>
      rw [if_neg Bool.false_ne_true, if_neg Bool.false_ne_true]
      cases acc.write with
      | false => rfl
      | true => rfl
  | true =>
      rw [if_pos rfl, if_pos rfl]
      by_cases hop : acc.bwop ≠ .no
      · rw [if_pos hop, if_pos hop]
      · rw [if_neg hop, if_neg hop, if_pos (hchange.resolve_left hop)]
        rfl

/-- **A store or a bit operation** that the handler takes. -/
theorem vintc2EmulHandler_change (hdec : acc.decoded) (hgroup : acc.served)
    (hword : ¬ acc.eicWord) (hchange : acc.bwop ≠ .no ∨ acc.write = true) :
    vintc2EmulHandler vm acc s =
      if vm.performs acc.offset then
        if acc.bwop ≠ .no then (bwopAccess acc acc.offset s).map (true, ·)
        else some (true, { s with
          intc2 := setLane s.intc2 (8 * acc.offset) (8 * acc.width) (vm.laneStored acc s) })
      else some (true, if acc.write then s else s.writereg acc.reg 0#32) := by
  have hpos := hdec.width_pos
  rw [vintc2EmulHandler_decoded hdec]
  rcases hgroup.cases with heic | himr | heibd | heeic
  · have hfit : acc.width ≤ 2 := Nat.le_of_not_lt fun hwide => hword ⟨hdec, heic, hwide⟩
    have hint := intc2BitInt_eic hdec heic hfit hpos
    rw [if_pos heic, emulateIntcEicAccess, if_neg (Nat.not_lt.mpr hfit)]
    apply emulateRegAccess_change (Or.inl rfl) (by rfl) (by decide) hdec hfit hint.symm rfl hchange
    · rw [Intc2Vm.laneStored, if_neg (by omega), if_neg (by omega)]
    · exact or_iff_right (by omega)
  · have hperf : vm.performs acc.offset := Or.inl himr
    rw [if_neg (by omega), if_pos himr.2, emulateIntcImrAccess_eq hdec rfl, if_pos hperf]
    by_cases hop : acc.bwop ≠ .no
    · rw [if_pos hop, if_pos hop]
    · rw [if_neg hop, if_neg hop, if_pos (hchange.resolve_left hop), Intc2Vm.laneStored,
        if_pos himr]
      rfl
  · have hint := intc2BitInt_eibd hdec ⟨heibd.1, by omega⟩ hpos
    rw [if_neg (by omega), if_neg (by omega), if_pos heibd.2, emulateIntcEibdAccess]
    apply emulateRegAccess_change (Or.inr rfl) (by rfl) (by decide) hdec hdec.2 hint.symm rfl
      hchange
    · rw [Intc2Vm.laneStored, if_neg (by omega), if_pos ⟨heibd.1, by omega⟩]
    · exact or_iff_right (by omega)
  · have hint := intc2BitInt_eeic hdec heeic.1 hpos
    rw [if_neg (by omega), if_neg (by omega), if_neg (by omega), if_pos heeic,
      emulateIntcEeicAccess]
    apply emulateRegAccess_change (Or.inr rfl) (by rfl) (by decide) hdec hdec.2 hint.symm rfl
      hchange
    · rw [Intc2Vm.laneStored, if_neg (by omega), if_neg (by omega)]
    · exact or_iff_right (by omega)

theorem bwopAccess_eq {byteAddr : Nat} (hop : acc.bwop ≠ .no) :
    bwopAccess acc byteAddr s = if acc.bwop = .tst1 then none else
      some { s with
        intc2 := putBit s.intc2 (8 * byteAddr + acc.bit)
          (acc.bwop.apply (s.intc2 (8 * byteAddr + acc.bit))),
        pswZ := !s.intc2 (8 * byteAddr + acc.bit) } := by
  have hsome : ∀ s', bwopAccess acc byteAddr s = some s' → s' = { s with
      intc2 := putBit s.intc2 (8 * byteAddr + acc.bit)
        (acc.bwop.apply (s.intc2 (8 * byteAddr + acc.bit))),
      pswZ := !s.intc2 (8 * byteAddr + acc.bit) } := fun s' h => bwopAccess_spec h
  have hnone : bwopAccess acc byteAddr s = none ↔ acc.bwop = .tst1 := by
    unfold bwopAccess
    rw [Option.map_eq_none_iff]
    unfold emulArchBwopEmulAcc
    cases hb : acc.bwop with
    | no => exact absurd hb hop
    | tst1 => simp
    | set1 => simp
    | not1 => simp
    | clr1 => simp
  cases h : bwopAccess acc byteAddr s with
  | none => rw [if_pos (hnone.mp h)]
  | some s' =>
      have htst : ¬ acc.bwop = .tst1 := fun htst => by
        rw [hnone.mpr htst] at h
        exact Option.some_ne_none _ h.symm
      rw [if_neg htst, hsome s' h]

/-! ## What the guest sees afterwards -/

theorem Intc2Access.sees_of_not_performs {j : Nat} (hdec : acc.decoded) (hword : ¬ acc.eicWord)
    (hperf : ¬ vm.performs acc.offset) (hj : j < 8 * acc.width) :
    vm.sees (8 * acc.offset + j) = false := by
  have hpos : 0 < 8 * acc.width := by omega
  have hNotImr : ¬ (0x1000 ≤ acc.offset ∧ acc.offset < 0x2000) := fun himr => hperf (Or.inl himr)
  have hunowned : vm.hasInterrupt (intc2BitInt (8 * acc.offset)) = false := by
    rw [← Bool.not_eq_true]
    exact fun hhas => hperf (Or.inr hhas)
  have hint : intc2BitInt (8 * acc.offset + j) = intc2BitInt (8 * acc.offset) := by
    by_cases heic : acc.offset < 0x1000
    · have hfit : acc.width ≤ 2 := Nat.le_of_not_lt fun hwide => hword ⟨hdec, heic, hwide⟩
      rw [intc2BitInt_eic hdec heic hfit hj]
      exact (intc2BitInt_eic hdec heic hfit hpos).symm
    · by_cases heibd : acc.offset < 0x4000
      · rw [intc2BitInt_eibd hdec (by omega) hj]
        exact (intc2BitInt_eibd hdec (by omega) hpos).symm
      · rw [intc2BitInt_eeic hdec (by omega) hj]
        exact (intc2BitInt_eeic hdec (by omega) hpos).symm
  rw [Intc2Vm.sees, hint, hunowned, Bool.false_and]

theorem intc2BitInt_eibd_base {b : Nat} (hin : inEibd b = true) :
    intc2BitInt (b - b % 32) = intc2BitInt b ∧ inEibd (b - b % 32) = true := by
  have hrange : 0x2000 ≤ b / 8 ∧ b / 8 < 0x4000 := of_decide_eq_true hin
  have hidx : regIdx intc2Eibd 4 ((b - b % 32) / 8) = regIdx intc2Eibd 4 (b / 8) := by
    unfold regIdx intc2Eibd
    omega
  constructor
  · rw [intc2BitInt, if_neg (by omega), if_neg (by omega), if_pos (by omega), intc2BitInt,
      if_neg (by omega), if_neg (by omega), if_pos (by omega), hidx]
  · exact decide_eq_true (by omega)

theorem physPeidAt_congr {m m' : Store} {p : Nat} (h : ∀ t, t < 3 → m' (p + t) = m (p + t)) :
    physPeidAt m' p = physPeidAt m p := by
  have hword : word 32 m' p &&& 0x7#32 = word 32 m p &&& 0x7#32 := by
    apply BitVec.eq_of_getLsbD_eq
    intro t ht
    have hpeid : (0x7#32).getLsbD t = decide (t < 3) := getLsbD_peidMask ht
    rw [BitVec.getLsbD_and, BitVec.getLsbD_and, hpeid, getLsbD_word, getLsbD_word]
    by_cases h3 : t < 3
    · rw [h t h3]
    · rw [decide_eq_false h3, Bool.and_false, Bool.and_false]
  rw [physPeidAt, physPeidAt, hword]

theorem physPeidAt_of_bits {m : Store} {p n : Nat} (hn : n < 8)
    (h : ∀ t, t < 3 → m (p + t) = n.testBit t) : physPeidAt m p = n := by
  unfold physPeidAt
  apply Nat.eq_of_testBit_eq
  intro t
  rw [BitVec.testBit_toNat, BitVec.getLsbD_and]
  by_cases h3 : t < 3
  · rw [show (0x7#32).getLsbD t = decide (t < 3) from getLsbD_peidMask (by omega), getLsbD_word,
      decide_eq_true h3, decide_eq_true (show t < 32 by omega), Bool.true_and, Bool.and_true,
      h t h3]
  · have hhigh : (0x7#32).getLsbD t = false := by
      by_cases ht : t < 32
      · exact (getLsbD_peidMask ht).trans (decide_eq_false h3)
      · exact BitVec.getLsbD_of_ge _ _ (Nat.le_of_not_lt ht)
    rw [hhigh, Bool.and_false]
    symm
    apply Nat.testBit_lt_two_pow
    calc n < 2 ^ 3 := hn
      _ ≤ 2 ^ t := Nat.pow_le_pow_right (by decide) (Nat.le_of_not_lt h3)

theorem Intc2State.eq_writereg_iff (s : Intc2State) (reg : Fin 32) (x : BitVec 32) :
    s = s.writereg reg x ↔ reg = 0 ∨ s.r reg = x := by
  constructor
  · intro h
    by_cases hreg : reg = 0
    · exact Or.inl hreg
    · right
      have hsame : s.r reg = (s.writereg reg x).r reg := by rw [← h]
      rw [hsame, Intc2State.writereg]
      dsimp only
      rw [if_pos ⟨hreg, rfl⟩]
  · intro h
    have hr : (fun k => if reg ≠ 0 ∧ k = reg then x else s.r k) = s.r := by
      funext k
      by_cases hk : reg ≠ 0 ∧ k = reg
      · rw [if_pos hk, hk.2]
        exact (h.resolve_left hk.1).symm
      · rw [if_neg hk]
    rw [Intc2State.writereg, hr]

theorem Intc2State.writereg_inj_iff (s : Intc2State) (reg : Fin 32) (x y : BitVec 32) :
    s.writereg reg x = s.writereg reg y ↔ reg = 0 ∨ x = y := by
  constructor
  · intro h
    by_cases hreg : reg = 0
    · exact Or.inl hreg
    · right
      have hsame : (s.writereg reg x).readreg reg = (s.writereg reg y).readreg reg := by rw [h]
      rw [readreg_writereg, readreg_writereg, if_neg hreg, if_neg hreg] at hsame
      exact hsame
  · intro h
    rcases h with hreg | hxy
    · have hx := (s.eq_writereg_iff reg x).mpr (Or.inl hreg)
      have hy := (s.eq_writereg_iff reg y).mpr (Or.inl hreg)
      rw [← hx]
      exact hy
    · rw [hxy]

end Bao

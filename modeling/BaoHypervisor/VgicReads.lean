import BaoHypervisor.VgicRegs
import BaoHypervisor.VgicStates

/-!
# What the pending and active registers read

`vgic_int_get_pend` and `vgic_int_get_act` look at the structure only.  What a
list register or the recorded sources of an SGI hold is not shown, so a load shows
the state of the interrupts exactly where their structures have all of it.
-/

namespace Bao

theorem vgicReads_sizes : NeZero 4 := ⟨by decide⟩

attribute [local instance] vgicReads_sizes

/-- The registers that show pending and active states. -/
inductive StateReg
  | ispendr
  | icpendr
  | isactiver
  | icactiver
deriving DecidableEq

/-- The register's handler. -/
def StateReg.reg : StateReg → VgicReg
  | .ispendr => .ispendr
  | .icpendr => .icpendr
  | .isactiver => .isactiver
  | .icactiver => .icactiver

/-- What a bit of the register stands for. -/
def StateReg.shows (reg : StateReg) (g : GicInt) : Bool :=
  match reg with
  | .ispendr | .icpendr => g.pending
  | .isactiver | .icactiver => g.active

/-- The same of a state. -/
def StateReg.flag (reg : StateReg) (state : IntState) : Bool :=
  match reg with
  | .ispendr | .icpendr => state.pending
  | .isactiver | .icactiver => state.active

/-- Where a 32-bit register is: a word of the array in the distributor's frame, or
the word of a redistributor. -/
inductive StateWord
  | dist (n : Fin 32)
  | redist (vgicrId : Nat)

/-- The load of a word by vCPU `v`, with the frames at multiples of their size. -/
def StateWord.load (ver : GicVersion) (frame : Nat) (reg : StateReg) (word : StateWord) :
    EmulAccess :=
  let addr := match word with
    | .dist n => frame * ver.regRange + (reg.reg.regroupBase + 4 * n)
    | .redist vgicrId => (frame + vgicrId) * gicrSize + (0x10000 + reg.reg.regroupBase)
  { addr := addr, sas := 2, write := false, val := 0 }

variable (P : VgicPlat)

/-- What the load does. -/
def StateWord.handle (frame v : Nat) (reg : StateReg) (word : StateWord) : Option RegEffect :=
  match word with
  | .dist _ => vgicdEmulHandler P v (word.load P.ver frame reg)
  | .redist _ => vgicrEmulHandler P (frame * gicrSize) v (word.load P.ver frame reg)

/-- The value the guest gets. -/
def StateWord.value (ids : VgicIds) (frame v : Nat) (reg : StateReg) (word : StateWord)
    (s : VgicState) : Option Nat :=
  (word.handle P frame v reg).bind fun effect =>
    (effect.perform P ids v (word.load P.ver frame reg) s).1

/-- The interrupt a bit stands for: private ones are the vCPU's own in the
distributor of GICv2, and only in the redistributors of GICv3. -/
def StateWord.bitKey (v : Nat) (word : StateWord) (i : Nat) : Option IntKey :=
  match word with
  | .dist n =>
      if P.ver = .gicv3 ∧ gicIsPriv (32 * n + i) = true then none else vgicGetInt P (32 * n + i) v
  | .redist vgicrId => vgicGetInt P i vgicrId

/-- Bit by bit, the value is the state of the interrupts. -/
def ShowsState (v : Nat) (reg : StateReg) (word : StateWord) (s : VgicState) (value : Nat) : Prop :=
  ∀ i : Fin 32, value.testBit i = (word.bitKey P v i).any fun k => reg.shows (gicState P s k)

/-- The interrupt is pending (or active), but not by its structure: a list
register holds the state, or a recorded source. -/
def KeptElsewhere (reg : StateReg) (s : VgicState) (k : IntKey) : Prop :=
  reg.flag (s.ints k).state = false ∧
    (reg.flag (heldState (heldLr P s k)) = true ∨
      ((reg = .ispendr ∨ reg = .icpendr) ∧ isV2Sgi P k = true ∧ (s.ints k).sgiPend ≠ 0#8))

variable {P} {v frame : Nat} {reg : StateReg} {word : StateWord} {s : VgicState} {k : IntKey}

theorem heldSource_pending {held : Option ListReg} (h : heldSource held ≠ 0#8) :
    (heldState held).pending = true := by
  cases held with
  | none => exact (h rfl).elim
  | some lr =>
    cases hpend : lr.state.pending with
    | true => exact hpend
    | false =>
      simp only [heldSource, hpend, Bool.false_eq_true, if_false] at h
      exact (h rfl).elim

theorem shows_eq_flag_iff :
    reg.shows (gicState P s k) = reg.flag (s.ints k).state ↔ ¬ KeptElsewhere P reg s k := by
  have hpend : (gicState P s k).pending = ((s.ints k).state.pending ||
      ((heldState (heldLr P s k)).pending || decide (isV2Sgi P k = true ∧ (s.ints k).sgiPend ≠ 0#8))) := by
    simp only [gicState, gicOf]
    cases hsgi : isV2Sgi P k with
    | false => simp
    | true =>
      cases hheld : (heldState (heldLr P s k)).pending with
      | true => simp
      | false =>
        have hsource : heldSource (heldLr P s k) = 0#8 := by
          by_contra hne
          rw [heldSource_pending hne] at hheld
          cases hheld
        simp [hsource]
  have hact : (gicState P s k).active =
      ((s.ints k).state.active || (heldState (heldLr P s k)).active) := rfl
  unfold KeptElsewhere
  cases reg <;> simp only [StateReg.shows, StateReg.flag, hpend, hact] <;>
    cases (s.ints k).state.pending <;> cases (s.ints k).state.active <;> simp

theorem readField_flag (v : Nat) (reg : StateReg) (k : IntKey) (s : VgicState) :
    (reg.reg.readField P v k s).testBit 0 = reg.flag (s.ints k).state := by
  cases reg <;> simp only [StateReg.reg, VgicReg.readField, StateReg.flag]
  · cases (s.ints k).state.pending <;> rfl
  · cases (s.ints k).state.pending <;> rfl
  · cases (s.ints k).state.active <;> rfl
  · cases (s.ints k).state.active <;> rfl

theorem StateReg.fieldWidth (reg : StateReg) : reg.reg.fieldWidth = 1 := by cases reg <;> rfl

theorem readFields_flags (reg : StateReg) {first vgicrId : Nat} (hfirst : first + 32 ≤ 2 ^ 32)
    (i : Fin 32) : (readFields P v reg.reg first vgicrId s 32 0 0).testBit i =
      (vgicGetInt P (first + i) vgicrId).any fun k => reg.flag (s.ints k).state := by
  have hin : 0 ≤ i.val ∧ i.val < 0 + 32 := ⟨Nat.zero_le _, by omega⟩
  rw [readFields_testBit v reg.reg first vgicrId s i.val 32 0 0 (by omega), reg.fieldWidth,
    Nat.div_one, Nat.mod_one, Nat.zero_testBit, Bool.false_or, decide_eq_true hin, Bool.true_and]
  simp only [readField_flag]

theorem StateReg.base (reg : StateReg) : reg.reg.regroupBase % 0x80 = 0 ∧
    0x200 ≤ reg.reg.regroupBase ∧ reg.reg.regroupBase ≤ 0x380 := by cases reg <;> decide

theorem StateReg.gicdHandler (reg : StateReg) (ver : GicVersion) {offset : Nat}
    (hgroup : offset / 0x80 = reg.reg.regroupBase / 0x80) :
    Bao.gicdHandler ver offset = .field reg.reg := by
  unfold Bao.gicdHandler
  rw [hgroup]
  cases reg <;> rfl

theorem StateReg.gicrHandler (reg : StateReg) (offset : Nat) :
    Bao.gicrHandler (0x10000 + reg.reg.regroupBase) offset = .field reg.reg := by
  cases reg <;> rfl

theorem StateReg.aligned (reg : StateReg) {acc : EmulAccess} (hwidth : acc.width = 4)
    (haddr : acc.addr % 4 = 0) : vgicCheckRegAlignment acc (.field reg.reg) = true := by
  unfold vgicCheckRegAlignment
  rw [hwidth, haddr]
  cases reg <;> rfl

theorem StateReg.firstInt (reg : StateReg) {ver : GicVersion} {addr n : Nat} (hn : n < 32)
    (hmask : gicdRegMask ver addr = reg.reg.regroupBase + 4 * n) :
    Bao.firstInt ver reg.reg addr = 32 * n := by
  obtain ⟨-, -, hhigh⟩ := reg.base
  have hoff : reg.reg.regroupBase + 4 * n + 2 ^ 64 - reg.reg.regroupBase = 4 * n + 2 ^ 64 := by omega
  unfold Bao.firstInt
  rw [hmask, hoff, reg.fieldWidth, Nat.add_mod_right]
  omega

/-- **What a load of a state register returns**: the structures' states. -/
theorem StateWord.value_flags (ids : VgicIds) (frame v : Nat) (reg : StateReg) (word : StateWord)
    (s : VgicState) : ∃ value, word.value P ids frame v reg s = some value ∧
      ∀ i : Fin 32, value.testBit i =
        (word.bitKey P v i).any fun k => reg.flag (s.ints k).state := by
  obtain ⟨hbase, hlow, hhigh⟩ := reg.base
  cases word with
  | dist n =>
    let acc := StateWord.load P.ver frame reg (.dist n)
    have hmask : gicdRegMask P.ver acc.addr = reg.reg.regroupBase + 4 * n.val := by
      change (frame * P.ver.regRange + (reg.reg.regroupBase + 4 * n.val)) % P.ver.regRange = _
      rw [Nat.mul_add_mod_self_right]
      refine Nat.mod_eq_of_lt ?_
      have hn := n.isLt
      cases P.ver <;> simp only [GicVersion.regRange] <;> omega
    have haddr : acc.addr % 4 = 0 := by
      change (frame * P.ver.regRange + (reg.reg.regroupBase + 4 * n.val)) % 4 = 0
      cases P.ver <;> simp only [GicVersion.regRange] <;> omega
    have hgroup : gicdRegMask P.ver acc.addr / 0x80 = reg.reg.regroupBase / 0x80 := by
      have hn := n.isLt
      rw [hmask]
      omega
    have hfirst : Bao.firstInt P.ver reg.reg acc.addr = 32 * n.val := reg.firstInt n.isLt hmask
    have hsmall : 32 * n.val % 2 ^ 32 = 32 * n.val := Nat.mod_eq_of_lt (by have hn := n.isLt; omega)
    have hhandle : StateWord.handle P frame v reg (.dist n) =
        some (genericEffect P reg.reg acc false v) := by
      change vgicdEmulHandler P v acc = _
      unfold vgicdEmulHandler
      rw [reg.gicdHandler P.ver hgroup]
      exact if_pos (reg.aligned rfl haddr)
    unfold StateWord.value
    rw [hhandle]
    unfold genericEffect
    dsimp only
    rw [hfirst, hsmall]
    by_cases hvalid : (decide (P.ver = .gicv2) || false == gicIsPriv (32 * n.val)) = true ∧
        (vgicGetInt P (32 * n.val) v).isSome = true
    · rw [if_pos (Bool.and_eq_true_iff.mpr hvalid)]
      refine ⟨_, rfl, fun i => ?_⟩
      have hcount : acc.width * 8 / reg.reg.fieldWidth = 32 := by
        rw [reg.fieldWidth]
        simp [acc, StateWord.load, EmulAccess.width]
      have hkey : StateWord.bitKey P v (.dist n) i = vgicGetInt P (32 * n.val + i.val) v := by
        refine if_neg fun h => ?_
        obtain ⟨hver, hpriv⟩ := h
        have hshared := hvalid.1
        rw [hver] at hshared
        simp only [reduceCtorEq, decide_false, Bool.false_or, beq_iff_eq] at hshared
        have hlt : 32 * n.val + i.val < 32 := of_decide_eq_true hpriv
        have hge : ¬ 32 * n.val < 32 := of_decide_eq_false hshared.symm
        omega
      rw [hcount, hkey]
      exact readFields_flags reg (by have hn := n.isLt; omega) i
    · rw [if_neg fun h => hvalid (Bool.and_eq_true_iff.mp h)]
      refine ⟨0, rfl, fun i => ?_⟩
      have hkey : StateWord.bitKey P v (.dist n) i = none := by
        unfold StateWord.bitKey
        dsimp only
        split
        · rfl
        · rename_i hseen
          rw [← Option.not_isSome_iff_eq_none]
          intro hsome
          refine hvalid ⟨?_, vgicGetInt_lower hsome (Nat.le_add_right _ _)⟩
          cases hver : P.ver with
          | gicv2 => rfl
          | gicv3 =>
            have hnot : ¬ gicIsPriv (32 * n.val + i.val) = true := fun h => hseen ⟨hver, h⟩
            have hge : ¬ 32 * n.val + i.val < 32 := fun hlt => hnot (decide_eq_true hlt)
            have hfalse : gicIsPriv (32 * n.val) = false := by
              refine decide_eq_false fun hlt => hge ?_
              have hlt' : 32 * n.val < 32 := hlt
              have hi := i.isLt
              omega
            rw [hfalse]
            rfl
      rw [Nat.zero_testBit, hkey]
      rfl
  | redist vgicrId =>
    let acc := StateWord.load P.ver frame reg (.redist vgicrId)
    have haddr : acc.addr = (frame + vgicrId) * gicrSize + (0x10000 + reg.reg.regroupBase) := rfl
    have hmask : gicdRegMask P.ver acc.addr = reg.reg.regroupBase + 4 * 0 := by
      unfold gicdRegMask
      rw [haddr]
      cases P.ver <;> simp only [GicVersion.regRange, gicrSize] <;> omega
    have hmasked : acc.addr % gicrSize = 0x10000 + reg.reg.regroupBase := by
      rw [haddr, gicrSize]
      omega
    have hword : (acc.addr - frame * gicrSize) / gicrSize = vgicrId := by
      rw [haddr, gicrSize]
      omega
    have haligned : acc.addr % 4 = 0 := by
      rw [haddr, gicrSize]
      omega
    have hfirst : Bao.firstInt P.ver reg.reg acc.addr = 32 * 0 := reg.firstInt (by omega) hmask
    have hhandle : StateWord.handle P frame v reg (.redist vgicrId) =
        some (genericEffect P reg.reg acc true vgicrId) := by
      change vgicrEmulHandler P (frame * gicrSize) v acc = _
      unfold vgicrEmulHandler
      rw [hmasked, hword, reg.gicrHandler]
      exact if_pos (reg.aligned rfl haligned)
    unfold StateWord.value
    rw [hhandle]
    unfold genericEffect
    dsimp only
    rw [hfirst]
    refine ⟨readFields P v reg.reg 0 vgicrId s 32 0 0, ?_, fun i => ?_⟩
    · have hcount : acc.width * 8 / reg.reg.fieldWidth = 32 := by
        rw [reg.fieldWidth]
        simp [acc, StateWord.load, EmulAccess.width]
      rw [hcount, if_pos (by simp [gicIsPriv, gicCpuPriv, vgicGetInt])]
      rfl
    · rw [readFields_flags reg (by omega), Nat.zero_add]
      rfl

/-- **Loads of pending and active registers.**  The value shows the state of every
interrupt the word stands for, if and only if none of them has its state kept
elsewhere than in its structure. -/
theorem load_shows_state_iff (P : VgicPlat) (ids : VgicIds) (frame v : Nat) (reg : StateReg)
    (word : StateWord) (s : VgicState) :
    (∃ value, word.value P ids frame v reg s = some value ∧ ShowsState P v reg word s value) ↔
      ∀ (i : Fin 32) (k : IntKey), word.bitKey P v i = some k → ¬ KeptElsewhere P reg s k := by
  obtain ⟨value, hvalue, hbits⟩ := word.value_flags (P := P) ids frame v reg s
  constructor
  · intro h i k hk
    obtain ⟨value', hvalue', hshows⟩ := h
    rw [hvalue] at hvalue'
    cases hvalue'
    have hbit := (hshows i).symm.trans (hbits i)
    rw [hk, Option.any_some, Option.any_some] at hbit
    exact shows_eq_flag_iff.mp hbit
  · intro h
    refine ⟨value, hvalue, fun i => ?_⟩
    rw [hbits i]
    cases hk : word.bitKey P v i with
    | none => rfl
    | some k =>
      rw [Option.any_some, Option.any_some]
      exact (shows_eq_flag_iff.mpr (h i k hk)).symm

/-- PPI 20 of vCPU 0 is enabled and becomes pending. -/
def ppiInjected : List VgicEvent := [⟨0, .writeField .isenabler 20 0 1⟩, ⟨0, .inject 20 0⟩]

/-- Registers that read as zero. -/
def zeroIds : VgicIds :=
  { typer := 0, iidr := 0, ident := fun _ => 0, gicrTyper := fun _ => 0, gicrIdent := fun _ _ => 0 }

/-- The PPI is pending in vCPU 0's list register, and its bit of `ISPENDR0` in the
redistributor reads as 0. -/
theorem load_not_shows_state :
    ∃ s, (vgicSystem (twoCpuGic .gicv3 1 fun _ => false)).Reachable s ∧
      ¬ ∃ value, (StateWord.redist 0).value (twoCpuGic .gicv3 1 fun _ => false) zeroIds 1 0 .ispendr s =
          some value ∧
        ShowsState (twoCpuGic .gicv3 1 fun _ => false) 0 .ispendr (.redist 0) s value := by
  refine ⟨_, @RunMeets.fromBoot _ _ ppiInjected (by decide +kernel), fun h => ?_⟩
  obtain ⟨value, hvalue, hshows⟩ := h
  have hread : (StateWord.redist 0).value (twoCpuGic .gicv3 1 fun _ => false) zeroIds 1 0 .ispendr
      (vgicRun (twoCpuGic .gicv3 1 fun _ => false) ppiInjected
        (vgicBoot (twoCpuGic .gicv3 1 fun _ => false))) = some 0 := by decide +kernel
  rw [hread] at hvalue
  cases hvalue
  have hbit := hshows 20
  revert hbit
  decide +kernel

end Bao

import BaoHypervisor.Bitmap
import BaoHypervisor.ByteLanes
import BaoHypervisor.Interrupts
import BaoHypervisor.PackedFields

/-!
# Accessors of the physical GIC

The functions of `gic.c`, `gicv2.c` and `gicv3.c` that read or write one
interrupt's field of the distributor or of a redistributor.  Priorities,
configurations and targets are fields packed into words; a write of ones to a
set or clear register changes the state bits that both show.
-/

namespace Bao

open WordRegs (put)
open PackedFields (field)

/-- `GIC_PRIO_BITS`, `GIC_TARGET_BITS` and `GIC_CONFIG_BITS`. -/
abbrev gicPrioBits : Nat := 8
abbrev gicTargetBits : Nat := 8
abbrev gicConfigBits : Nat := 2

/-- `GIC_PRIO_REG` and `GIC_PRIO_OFF`. -/
def gicPrioReg (id : Nat) : Nat := id * gicPrioBits / 32
def gicPrioOff (id : Nat) : Nat := id * gicPrioBits % 32

/-- `GIC_TARGET_REG` and `GIC_TARGET_OFF`. -/
def gicTargetReg (id : Nat) : Nat := id * gicTargetBits / 32
def gicTargetOff (id : Nat) : Nat := id * gicTargetBits % 32

/-- `GIC_INT_REG` and `GIC_INT_MASK`. -/
def gicIntReg (id : Nat) : Nat := id / 32
def gicIntMask (id : Nat) : BitVec 32 := 1#32 <<< (id % 32)

/-- The registers of `struct gicd_hw` that the accessors use; `pend`, `act` and
`enable` are what `ISPENDR`, `ISACTIVER` and `ISENABLER` show. -/
structure GicdHw where
  ipriorityr : Nat → BitVec 32
  icfgr : Nat → BitVec 32
  itargetsr : Nat → BitVec 32
  pend : Nat → BitVec 32
  act : Nat → BitVec 32
  enable : Nat → BitVec 32

/-- The same registers of a redistributor. -/
structure GicrHw where
  ipriorityr : Nat → BitVec 32
  icfgr0 : BitVec 32
  icfgr1 : BitVec 32
  pend : BitVec 32
  act : BitVec 32
  enable : BitVec 32

/-- A set register, or the clear register of the same bits, is written. -/
def writeState (set : Bool) (cur v : BitVec 32) : BitVec 32 :=
  if set then cur ||| v else cur &&& ~~~v

/-- `(reg & mask) != 0`. -/
def anyBit (reg mask : BitVec 32) : Bool := reg &&& mask != 0#32

namespace GicdHw

/-- `gicd_set_prio`. -/
def setPrio (g : GicdHw) (id : Nat) (prio : BitVec 8) : GicdHw :=
  let regInd := gicPrioReg id
  let off := gicPrioOff id
  let mask := granuleMask off gicPrioBits
  { g with
    ipriorityr := put g.ipriorityr regInd
      ((g.ipriorityr regInd &&& ~~~mask) ||| ((prio.setWidth 32 <<< off) &&& mask)) }

/-- `gicd_get_prio`. -/
def getPrio (g : GicdHw) (id : Nat) : BitVec 8 :=
  let regInd := gicPrioReg id
  let off := gicPrioOff id
  ((g.ipriorityr regInd >>> off) &&& granuleMask off gicPrioBits).setWidth 8

/-- `gicd_set_icfgr`. -/
def setIcfgr (g : GicdHw) (id : Nat) (cfg : BitVec 8) : GicdHw :=
  let regInd := id * gicConfigBits / 32
  let off := id * gicConfigBits % 32
  let mask := ((1#32 <<< gicConfigBits) - 1#32) <<< off
  { g with
    icfgr := put g.icfgr regInd
      ((g.icfgr regInd &&& ~~~mask) ||| ((cfg.setWidth 32 <<< off) &&& mask)) }

/-- `gic_translate_cpu_to_trgt`, by `gic_cpu_map`. -/
def gicTranslateCpuToTrgt (gicCpuMap : Nat → Nat) (cpuTargets : BitVec 8) : BitVec 8 :=
  (List.range 8).foldl (fun gicTargets i =>
    if (1#8 <<< i) &&& cpuTargets != 0#8 then gicTargets ||| 1#8 <<< gicCpuMap i
    else gicTargets) 0#8

/-- `gicd_set_trgt`. -/
def setTrgt (gicCpuMap : Nat → Nat) (g : GicdHw) (id : Nat) (cpuTargets : BitVec 8) : GicdHw :=
  let regInd := gicTargetReg id
  let off := gicTargetOff id
  let mask := granuleMask off gicTargetBits
  let pcpuTargets := (gicTranslateCpuToTrgt gicCpuMap cpuTargets).setWidth 32
  { g with
    itargetsr := put g.itargetsr regInd
      ((g.itargetsr regInd &&& ~~~mask) ||| ((pcpuTargets <<< off) &&& mask)) }

/-- `gicd_set_pend`. -/
def setPend (g : GicdHw) (id : Nat) (pend : Bool) : GicdHw :=
  { g with
    pend := put g.pend (gicIntReg id)
      (writeState pend (g.pend (gicIntReg id)) (gicIntMask id)) }

/-- `gicd_get_pend`. -/
def getPend (g : GicdHw) (id : Nat) : Bool := anyBit (g.pend (gicIntReg id)) (gicIntMask id)

/-- `gicd_set_act`. -/
def setAct (g : GicdHw) (id : Nat) (act : Bool) : GicdHw :=
  { g with
    act := put g.act (gicIntReg id)
      (writeState act (g.act (gicIntReg id)) (gicIntMask id)) }

/-- `gicd_get_act`. -/
def getAct (g : GicdHw) (id : Nat) : Bool := anyBit (g.act (gicIntReg id)) (gicIntMask id)

/-- `gicd_set_enable`. -/
def setEnable (g : GicdHw) (id : Nat) (en : Bool) : GicdHw :=
  { g with
    enable := put g.enable (gicIntReg id)
      (writeState en (g.enable (gicIntReg id)) (gicIntMask id)) }

end GicdHw

namespace GicrHw

/-- `gicr_set_prio`. -/
def setPrio (g : GicrHw) (id : Nat) (prio : BitVec 8) : GicrHw :=
  let regInd := gicPrioReg id
  let off := gicPrioOff id
  let mask := granuleMask off gicPrioBits
  { g with
    ipriorityr := put g.ipriorityr regInd
      ((g.ipriorityr regInd &&& ~~~mask) ||| ((prio.setWidth 32 <<< off) &&& mask)) }

/-- `gicr_get_prio`. -/
def getPrio (g : GicrHw) (id : Nat) : BitVec 8 :=
  let regInd := gicPrioReg id
  let off := gicPrioOff id
  ((g.ipriorityr regInd >>> off) &&& granuleMask off gicPrioBits).setWidth 8

/-- `gicr_set_icfgr`. -/
def setIcfgr (g : GicrHw) (id : Nat) (cfg : BitVec 8) : GicrHw :=
  let regInd := id * gicConfigBits / 32
  let off := id * gicConfigBits % 32
  let mask := ((1#32 <<< gicConfigBits) - 1#32) <<< off
  if regInd = 0 then
    { g with icfgr0 := (g.icfgr0 &&& ~~~mask) ||| ((cfg.setWidth 32 <<< off) &&& mask) }
  else { g with icfgr1 := (g.icfgr1 &&& ~~~mask) ||| ((cfg.setWidth 32 <<< off) &&& mask) }

/-- `gicr_set_pend`. -/
def setPend (g : GicrHw) (id : Nat) (pend : Bool) : GicrHw :=
  { g with pend := writeState pend g.pend (1#32 <<< id) }

/-- `gicr_get_pend`. -/
def getPend (g : GicrHw) (id : Nat) : Bool :=
  if id < gicCpuPriv then anyBit g.pend (gicIntMask id) else false

/-- `gicr_set_act`. -/
def setAct (g : GicrHw) (id : Nat) (act : Bool) : GicrHw :=
  { g with act := writeState act g.act (gicIntMask id) }

/-- `gicr_get_act`. -/
def getAct (g : GicrHw) (id : Nat) : Bool :=
  if id < gicCpuPriv then anyBit g.act (gicIntMask id) else false

/-- `gicr_set_enable`. -/
def setEnable (g : GicrHw) (id : Nat) (en : Bool) : GicrHw :=
  { g with enable := writeState en g.enable (gicIntMask id) }

/-- The configuration registers as an array. -/
def icfgr (g : GicrHw) (i : Nat) : BitVec 32 := if i = 0 then g.icfgr0 else g.icfgr1

end GicrHw

/-- Values for the fields of an interrupt. -/
structure FieldValues where
  prio : BitVec 8
  cfg : BitVec 2
  targets : BitVec 8
  pend : Bool
  act : Bool
  enable : Bool

/-- A field of interrupt `id` holds `value` after a write, and the fields of all
other interrupts below `num` are as before. -/
structure GetSet {α : Type} (num id : Nat) (before after : Nat → α) (value : α) : Prop where
  same : after id = value
  other : ∀ j, j < num → j ≠ id → after j = before j

/-- **The laws of the distributor.**  Where the code has no function to read a
field, it is read as the architecture lays it out. -/
structure GicdLaws (gicCpuMap : Nat → Nat) (g : GicdHw) (id : Nat) (v : FieldValues) : Prop where
  prio : GetSet gicMaxInterupts id g.getPrio (g.setPrio id v.prio).getPrio v.prio
  cfg : GetSet gicMaxInterupts id (field gicConfigBits g.icfgr)
    (field gicConfigBits (g.setIcfgr id (v.cfg.setWidth 8)).icfgr) v.cfg
  targets : GetSet gicMaxInterupts id (field gicTargetBits g.itargetsr)
    (field gicTargetBits (g.setTrgt gicCpuMap id v.targets).itargetsr)
    (GicdHw.gicTranslateCpuToTrgt gicCpuMap v.targets)
  pend : GetSet gicMaxInterupts id g.getPend (g.setPend id v.pend).getPend v.pend
  act : GetSet gicMaxInterupts id g.getAct (g.setAct id v.act).getAct v.act
  enable : GetSet gicMaxInterupts id (WordRegs.bit g.enable)
    (WordRegs.bit (g.setEnable id v.enable).enable) v.enable

/-- **The laws of a redistributor**, which has the private interrupts. -/
structure GicrLaws (g : GicrHw) (id : Nat) (v : FieldValues) : Prop where
  prio : GetSet gicCpuPriv id g.getPrio (g.setPrio id v.prio).getPrio v.prio
  cfg : GetSet gicCpuPriv id (field gicConfigBits g.icfgr)
    (field gicConfigBits (g.setIcfgr id (v.cfg.setWidth 8)).icfgr) v.cfg
  pend : GetSet gicCpuPriv id g.getPend (g.setPend id v.pend).getPend v.pend
  act : GetSet gicCpuPriv id g.getAct (g.setAct id v.act).getAct v.act
  enable : GetSet gicCpuPriv id g.enable.getLsbD (g.setEnable id v.enable).enable.getLsbD v.enable

/-! ## State bits -/

variable {id j : Nat}

theorem anyBit_mask {i : Nat} (hi : i < 32) (reg : BitVec 32) :
    anyBit reg (1#32 <<< i) = reg.getLsbD i := by
  unfold anyBit
  rw [BitVec.and_comm]
  exact BitMemory.oneBit_and_ne_zero hi reg

theorem writeState_bit {set : Bool} {cur : BitVec 32} {i j : Nat} (hj : j < 32) :
    (writeState set cur (1#32 <<< i)).getLsbD j = if j = i then set else cur.getLsbD j := by
  unfold writeState
  cases set with
  | true =>
      rw [if_pos rfl, BitVec.getLsbD_or, WordRegs.getLsbD_mask hj]
      by_cases heq : j = i <;> simp [heq]
  | false =>
      rw [if_neg Bool.false_ne_true, BitVec.getLsbD_and, BitVec.getLsbD_not,
        WordRegs.getLsbD_mask hj]
      by_cases heq : j = i <;> simp [heq, hj]

theorem bit_writeState (r : Nat → BitVec 32) (id : Nat) (set : Bool) (j : Nat) :
    WordRegs.bit (put r (gicIntReg id) (writeState set (r (gicIntReg id)) (gicIntMask id))) j =
      if j = id then set else WordRegs.bit r j := by
  have hlt := Nat.mod_lt j (show 0 < 32 by decide)
  rw [WordRegs.bit_put]
  unfold gicIntReg gicIntMask
  split
  · rename_i hword
    rw [writeState_bit hlt]
    simp only [WordRegs.eq_iff_mod hword]
    unfold WordRegs.bit
    rw [hword]
  · rename_i hword
    have hne : j ≠ id := fun heq => hword (by rw [heq])
    rw [if_neg hne]

theorem getSet_bit (r : Nat → BitVec 32) (num id : Nat) (set : Bool) :
    GetSet num id (WordRegs.bit r)
      (WordRegs.bit (put r (gicIntReg id) (writeState set (r (gicIntReg id)) (gicIntMask id))))
      set := by
  constructor
  · rw [bit_writeState, if_pos rfl]
  · intro j _ hne
    rw [bit_writeState, if_neg hne]

theorem anyBit_word (r : Nat → BitVec 32) (id : Nat) :
    anyBit (r (gicIntReg id)) (gicIntMask id) = WordRegs.bit r id :=
  anyBit_mask (Nat.mod_lt id (by decide)) _

theorem getSet_word (cur : BitVec 32) (hid : id < gicCpuPriv) (set : Bool) :
    GetSet gicCpuPriv id cur.getLsbD (writeState set cur (1#32 <<< id)).getLsbD set := by
  constructor
  · rw [writeState_bit hid, if_pos rfl]
  · intro j hj hne
    rw [writeState_bit hj, if_neg hne]

/-! ## Packed fields -/

theorem isMask_field {w : Nat} (hw : 0 < w) (hdvd : w ∣ 32) (id : Nat) :
    BitMemory.IsMask (granuleMask (id * w % 32) w) (id * w % 32) w :=
  isMask_granuleMask _ _ hw (PackedFields.offset_add_le hw (by decide) hdvd id)

theorem isMask_config (id : Nat) :
    BitMemory.IsMask (((1#32 <<< gicConfigBits) - 1#32) <<< (id * gicConfigBits % 32))
      (id * gicConfigBits % 32) gicConfigBits := by
  have hmask := isMask_field (w := gicConfigBits) (by decide) (by decide) id
  have hones : (1#32 <<< ((gicConfigBits + (32 - 1)) % 32)) <<< 1 = 1#32 <<< gicConfigBits := by
    decide
  rw [granuleMask, hones] at hmask
  exact hmask

theorem getSet_field {w : Nat} (hw : 0 < w) (hdvd : w ∣ 32) (num : Nat) (r : Nat → BitVec 32)
    {mask : BitVec 32} (hmask : BitMemory.IsMask mask (id * w % 32) w) (v : BitVec 32) :
    GetSet num id (field w r)
      (field w (put r (id * w / 32)
        (PackedFields.insert (r (id * w / 32)) v mask (id * w % 32)))) (v.setWidth w) :=
  ⟨PackedFields.field_put_same hmask,
    fun _ _ hne => PackedFields.field_put_other hw hdvd hmask hne⟩

theorem setWidth_back {w n : Nat} (h : w ≤ n) (v : BitVec w) : (v.setWidth n).setWidth w = v := by
  apply BitVec.eq_of_getLsbD_eq
  intro t ht
  have hn : t < n := by omega
  simp only [BitVec.getLsbD_setWidth, ht, hn, decide_true, Bool.true_and]

/-- What both `get_prio` functions compute. -/
def readPrio (r : Nat → BitVec 32) (id : Nat) : BitVec 8 :=
  ((r (gicPrioReg id) >>> gicPrioOff id) &&& granuleMask (gicPrioOff id) gicPrioBits).setWidth 8

/-- **The mask is not shifted back**: only the first field of a word is read, at
the other places nothing is left of the masked word. -/
theorem readPrio_eq (r : Nat → BitVec 32) (id : Nat) :
    readPrio r id = if id % 4 = 0 then field gicPrioBits r id else 0#8 := by
  have hmask := (isMask_field (w := gicPrioBits) (by decide) (by decide) id).2
  have hoff : id * gicPrioBits % 32 = id % 4 * 8 := by
    change id * 8 % 32 = id % 4 * 8
    omega
  have hbit : ∀ t, t < 8 →
      (granuleMask (id * gicPrioBits % 32) gicPrioBits).getLsbD t = decide (id % 4 = 0) := by
    intro t ht
    rw [hmask, hoff, ← Bool.decide_and]
    apply decide_eq_decide.mpr
    change id % 4 * 8 ≤ t ∧ t < id % 4 * 8 + 8 ↔ id % 4 = 0
    omega
  unfold readPrio gicPrioReg gicPrioOff field
  apply BitVec.eq_of_getLsbD_eq
  intro t ht
  rw [BitVec.getLsbD_setWidth, BitVec.getLsbD_and, hbit t ht, BitVec.getLsbD_ushiftRight]
  by_cases hzero : id % 4 = 0
  · rw [if_pos hzero, decide_eq_true hzero, Bool.and_true, BitVec.getLsbD_extractLsb']
  · rw [if_neg hzero, decide_eq_false hzero, Bool.and_false, Bool.and_false, BitVec.getLsbD_zero]

/-- **Priorities**: the accessors obey the laws exactly at the first field of a
word, or where the value is 0. -/
theorem getSet_prio_iff (num : Nat) (r : Nat → BitVec 32) (id : Nat) (prio : BitVec 8) :
    GetSet num id (readPrio r)
      (readPrio (put r (id * gicPrioBits / 32)
        (PackedFields.insert (r (id * gicPrioBits / 32)) (prio.setWidth 32)
          (granuleMask (id * gicPrioBits % 32) gicPrioBits) (id * gicPrioBits % 32)))) prio ↔
      id % 4 = 0 ∨ prio = 0#8 := by
  have hstored := getSet_field (w := gicPrioBits) (by decide) (by decide) num r
    (isMask_field (by decide) (by decide) id) (prio.setWidth 32)
  have hback : (prio.setWidth 32).setWidth gicPrioBits = prio := setWidth_back (by decide) prio
  rw [hback] at hstored
  constructor
  · intro h
    by_cases hfirst : id % 4 = 0
    · exact Or.inl hfirst
    · have hsame := h.same
      rw [readPrio_eq, if_neg hfirst] at hsame
      exact Or.inr hsame.symm
  · intro h
    constructor
    · rw [readPrio_eq]
      split
      · exact hstored.same
      · rename_i hfirst
        exact (h.resolve_left hfirst).symm
    · intro j hj hne
      rw [readPrio_eq, readPrio_eq, hstored.other j hj hne]

/-! ## The laws -/

theorem cfg_back (cfg : BitVec 2) : ((cfg.setWidth 8).setWidth 32).setWidth gicConfigBits = cfg := by
  apply BitVec.eq_of_getLsbD_eq
  intro t ht
  have ht8 : t < 8 := Nat.lt_trans ht (by decide)
  have ht32 : t < 32 := Nat.lt_trans ht (by decide)
  simp only [BitVec.getLsbD_setWidth, ht, ht8, ht32, decide_true, Bool.true_and]

theorem gicdLaws_iff (gicCpuMap : Nat → Nat) (g : GicdHw) (id : Nat) (v : FieldValues) :
    GicdLaws gicCpuMap g id v ↔ id % 4 = 0 ∨ v.prio = 0#8 := by
  have hprio := getSet_prio_iff gicMaxInterupts g.ipriorityr id v.prio
  constructor
  · intro h
    exact hprio.mp h.prio
  · intro h
    have hcfg := getSet_field (w := gicConfigBits) (by decide) (by decide) gicMaxInterupts g.icfgr
      (isMask_config id) ((v.cfg.setWidth 8).setWidth 32)
    rw [cfg_back] at hcfg
    have htrgt := getSet_field (w := gicTargetBits) (by decide) (by decide) gicMaxInterupts
      g.itargetsr (isMask_field (by decide) (by decide) id)
      ((GicdHw.gicTranslateCpuToTrgt gicCpuMap v.targets).setWidth 32)
    have htrgtBack : ((GicdHw.gicTranslateCpuToTrgt gicCpuMap v.targets).setWidth 32).setWidth
        gicTargetBits = GicdHw.gicTranslateCpuToTrgt gicCpuMap v.targets :=
      setWidth_back (by decide) _
    rw [htrgtBack] at htrgt
    have hbits : ∀ (r : Nat → BitVec 32), (fun id => anyBit (r (gicIntReg id)) (gicIntMask id)) =
        WordRegs.bit r := fun r => funext (anyBit_word r)
    refine ⟨hprio.mpr h, hcfg, htrgt, ?_, ?_, getSet_bit g.enable _ id v.enable⟩
    · have hpend := getSet_bit g.pend gicMaxInterupts id v.pend
      rw [← hbits, ← hbits] at hpend
      exact hpend
    · have hact := getSet_bit g.act gicMaxInterupts id v.act
      rw [← hbits, ← hbits] at hact
      exact hact

theorem priv_anyBit (reg : BitVec 32) (hj : j < gicCpuPriv) :
    (if j < gicCpuPriv then anyBit reg (gicIntMask j) else false) = reg.getLsbD j := by
  have hmod : j % 32 = j := Nat.mod_eq_of_lt hj
  rw [if_pos hj, gicIntMask, hmod, anyBit_mask hj]

theorem getSet_priv (cur : BitVec 32) (hid : id < gicCpuPriv) (set : Bool) :
    GetSet gicCpuPriv id (fun j => if j < gicCpuPriv then anyBit cur (gicIntMask j) else false)
      (fun j => if j < gicCpuPriv then anyBit (writeState set cur (1#32 <<< id)) (gicIntMask j)
        else false) set := by
  have hword := getSet_word cur hid set
  constructor
  · rw [priv_anyBit _ hid]
    exact hword.same
  · intro j hj hne
    rw [priv_anyBit _ hj, priv_anyBit _ hj]
    exact hword.other j hj hne

theorem setIcfgr_icfgr (g : GicrHw) (hid : id < gicCpuPriv) (cfg : BitVec 8) :
    ∀ j, j < gicCpuPriv → field gicConfigBits (g.setIcfgr id cfg).icfgr j =
      field gicConfigBits (put g.icfgr (id * gicConfigBits / 32)
        (PackedFields.insert (g.icfgr (id * gicConfigBits / 32)) (cfg.setWidth 32)
          (((1#32 <<< gicConfigBits) - 1#32) <<< (id * gicConfigBits % 32))
          (id * gicConfigBits % 32))) j := by
  intro j hj
  have hreg : ∀ i, i < gicCpuPriv → i * gicConfigBits / 32 = 0 ∨ i * gicConfigBits / 32 = 1 := by
    intro i hi
    unfold gicConfigBits
    unfold gicCpuPriv at hi
    omega
  unfold field GicrHw.setIcfgr PackedFields.insert put GicrHw.icfgr
  rcases hreg id hid with hi | hi
  · rcases hreg j hj with hj | hj <;> simp [hi, hj]
  · rcases hreg j hj with hj | hj <;> simp [hi, hj]

theorem gicrLaws_iff (g : GicrHw) (hid : id < gicCpuPriv) (v : FieldValues) :
    GicrLaws g id v ↔ id % 4 = 0 ∨ v.prio = 0#8 := by
  have hprio := getSet_prio_iff gicCpuPriv g.ipriorityr id v.prio
  constructor
  · intro h
    exact hprio.mp h.prio
  · intro h
    have hmask : gicIntMask id = 1#32 <<< id := by
      have hmod : id % 32 = id := Nat.mod_eq_of_lt hid
      rw [gicIntMask, hmod]
    have hcfg := getSet_field (w := gicConfigBits) (by decide) (by decide) gicCpuPriv g.icfgr
      (isMask_config id) ((v.cfg.setWidth 8).setWidth 32)
    rw [cfg_back] at hcfg
    have hwritten := setIcfgr_icfgr g hid (v.cfg.setWidth 8)
    refine ⟨hprio.mpr h, ⟨(hwritten id hid).trans hcfg.same, ?_⟩, getSet_priv g.pend hid v.pend, ?_, ?_⟩
    · intro j hj hne
      exact (hwritten j hj).trans (hcfg.other j hj hne)
    · have hact := getSet_priv g.act hid v.act
      rw [← hmask] at hact
      exact hact
    · have henable := getSet_word g.enable hid v.enable
      rw [← hmask] at henable
      exact henable

/-- **Get and set.**  For every interrupt of the distributor and of a
redistributor, and all values, the accessors obey the get-set laws exactly if
the interrupt's priority is the first of its word or the priority written is 0. -/
theorem gic_accessors_iff (gicCpuMap : Nat → Nat) (gicd : GicdHw) (gicr : GicrHw)
    (id : Fin gicMaxInterupts) (privId : Fin gicCpuPriv) (v : FieldValues) :
    (GicdLaws gicCpuMap gicd id v ↔ id.val % 4 = 0 ∨ v.prio = 0#8) ∧
      (GicrLaws gicr privId v ↔ privId.val % 4 = 0 ∨ v.prio = 0#8) :=
  ⟨gicdLaws_iff gicCpuMap gicd id v, gicrLaws_iff gicr privId.isLt v⟩

/-- Registers that were reset. -/
def resetGicd : GicdHw :=
  { ipriorityr := fun _ => 0, icfgr := fun _ => 0, itargetsr := fun _ => 0, pend := fun _ => 0
    act := fun _ => 0, enable := fun _ => 0 }

/-- Interrupt 33 is given the priority 0x80, and reads as 0. -/
theorem gicd_prio_lost :
    ¬ GicdLaws (fun cpu => cpu) resetGicd 33 ⟨0x80, 0, 0, false, false, false⟩ := by
  intro h
  have hread : (resetGicd.setPrio 33 0x80#8).getPrio 33 = 0#8 := by decide
  have hsame : (resetGicd.setPrio 33 0x80#8).getPrio 33 = 0x80#8 := h.prio.same
  rw [hread] at hsame
  cases hsame

end Bao

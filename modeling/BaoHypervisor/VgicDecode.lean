import BaoHypervisor.VgicCases
import BaoHypervisor.VgicRegs

/-!
# Which fields an emulated access reaches

`struct gicd_hw` and `struct gicr_hw` lay out a frame of the distributor and of a
redistributor.  The layout gives each offset its register, and the register the
fields of interrupts that an access covers.  The handlers find both from parts of
the absolute address instead, so they agree with the layout only where the two
offsets do.
-/

namespace Bao

/-- A part of an interrupt that an access covers: the field `i` of the value, a
part of the route, or the byte of an SGI's sources. -/
inductive FieldPart
  | field (reg : VgicReg) (k : IntKey) (i : Nat)
  | route (k : IntKey) (part : RouterAccess)
  | sources (set : Bool) (k : IntKey) (i : Nat)
deriving DecidableEq

/-- What the layout has at an offset: an array with fields of interrupts,
`CPENDSGIR` or `SPENDSGIR`, a register of another kind with its widths, or nothing. -/
inductive FrameReg
  | array (reg : VgicReg)
  | sources (set : Bool)
  | other (widths : Nat)
  | reserved
deriving DecidableEq

/-- The widths that are allowed, as a mask. -/
def FrameReg.widths : FrameReg → Nat
  | .array .irouter => 0xC
  | .array .ipriorityr => 0x5
  | .array .itargetsr => 0x5
  | .array _ => 0x4
  | .sources _ => 0x5
  | .other widths => widths
  | .reserved => 0x4

/-- The access is aligned and of an allowed width. -/
def FrameReg.Allows (reg : FrameReg) (acc : EmulAccess) : Prop :=
  reg.widths &&& acc.width ≠ 0 ∧ acc.addr % acc.width = 0

instance (reg : FrameReg) (acc : EmulAccess) : Decidable (reg.Allows acc) :=
  inferInstanceAs (Decidable (_ ∧ _))

/-- A register that is neither reserved nor made of fields of interrupts. -/
def FrameReg.isOther : FrameReg → Bool
  | .other _ => true
  | _ => false

/-- The arrays of a distributor. -/
def distArrays : GicVersion → List VgicReg
  | .gicv2 => [.isenabler, .icenabler, .ispendr, .icpendr, .isactiver, .icactiver,
      .ipriorityr, .itargetsr, .icfgr]
  | .gicv3 => [.isenabler, .icenabler, .ispendr, .icpendr, .isactiver, .icactiver,
      .ipriorityr, .itargetsr, .icfgr, .irouter]

/-- The layout of a distributor outside its arrays. -/
def distRest (ver : GicVersion) (off : Nat) : FrameReg :=
  if off < 0xC then .other 0x4
  else match ver with
    | .gicv2 =>
        if 0xF00 ≤ off ∧ off < 0xF04 then .other 0x4
        else if 0xF10 ≤ off ∧ off < 0xF20 then .sources false
        else if 0xF20 ≤ off ∧ off < 0xF30 then .sources true
        else .reserved
    | .gicv3 => if identOffset ≤ off ∧ off < 0x10000 then .other 0x4 else .reserved

/-- The layout of the distributor's frame.  That of GICv2 has 4 KiB. -/
def distReg (ver : GicVersion) (off : Nat) : FrameReg :=
  match (distArrays ver).find? fun reg => gicdIsReg reg off with
  | some reg => .array reg
  | none => distRest ver off

/-- The arrays of a redistributor, with fields for 32 interrupts each. -/
def redistArrays : List VgicReg :=
  [.isenabler, .icenabler, .ispendr, .icpendr, .isactiver, .icactiver, .ipriorityr, .icfgr]

/-- The layout of a redistributor's two frames. -/
def redistReg (off : Nat) : FrameReg :=
  match redistArrays.find? fun reg =>
      decide (0x10000 + reg.regroupBase ≤ off ∧
        off < 0x10000 + reg.regroupBase + reg.fieldWidth * 4) with
  | some reg => .array reg
  | none =>
      if 0x8 ≤ off ∧ off < 0x10 then .other 0xC
      else if 0xFFD0 ≤ off ∧ off < 0x10000 then .other 0x4
      else .reserved

variable (P : VgicPlat)

/-- Whether an interrupt's field of an array is at a frame: with GICv3, private
interrupts are at their redistributor only, and no interrupt has targets. -/
def fieldSeen (ver : GicVersion) (gicrAccess : Bool) (reg : VgicReg) (id : Nat) : Bool :=
  decide (ver = .gicv2) || ((gicrAccess == gicIsPriv id) && decide (reg ≠ .itargetsr))

/-- The parts of interrupts that an access of `width` bytes covers, `pos` bytes
into the frame that has the arrays. -/
def FrameReg.parts (gicrAccess : Bool) (vgicrId pos width : Nat) : FrameReg → List FieldPart
  | .array .irouter =>
      let id := (pos - VgicReg.regroupBase .irouter) / 8
      let part := if width = 4 then if pos / 4 % 2 = 1 then .top else .word else .full
      if fieldSeen P.ver gicrAccess .irouter id then
        ((vgicGetInt P id vgicrId).map fun k => .route k part).toList
      else []
  | .array reg =>
      if reg.regroupBase ≤ pos then
        let first := (pos - reg.regroupBase) * 8 / reg.fieldWidth
        (List.range (width * 8 / reg.fieldWidth)).filterMap fun i =>
          if fieldSeen P.ver gicrAccess reg (first + i) then
            (vgicGetInt P (first + i) vgicrId).map fun k => .field reg k i
          else none
      else []
  | .sources set =>
      (List.range width).filterMap fun i =>
        (vgicGetInt P ((pos + i) % 0x10) vgicrId).map fun k => .sources set k i
  | _ => []

/-- The parts an effect covers.  The route of a private interrupt reads as zero and
is not set. -/
def RegEffect.touches (v : Nat) : RegEffect → List FieldPart
  | .fields reg first count vgicrId =>
      (List.range count).filterMap fun i =>
        (vgicGetInt P ((first + i) % 2 ^ 32) vgicrId).map fun k => .field reg k i
  | .route id part =>
      if gicIsPriv id then [] else ((vgicGetInt P id v).map fun k => .route k part).toList
  | _ => []

/-- Nothing but fields of interrupts is accessed: there is no other register, and a
load gives a value. -/
def RegEffect.onlyFields (effect : RegEffect) (write : Bool) : Bool :=
  match effect with
  | .fields _ _ _ _ => true
  | .route _ _ => true
  | .zero => true
  | .nothing => write
  | _ => false

/-- The frames that are emulated. -/
inductive GicFrame
  | dist
  | redist
deriving DecidableEq

/-- The handler of a region from `base` on. -/
def GicFrame.handler (frame : GicFrame) (base v : Nat) (acc : EmulAccess) : Option RegEffect :=
  match frame with
  | .dist => vgicdEmulHandler P v acc
  | .redist => vgicrEmulHandler P base v acc

/-- Whose private interrupts the frame at an address has. -/
def GicFrame.owner (frame : GicFrame) (base v : Nat) (acc : EmulAccess) : Nat :=
  match frame with
  | .dist => v
  | .redist => (acc.addr - base) / gicrSize

/-- The offset in the frame. -/
def GicFrame.offset (frame : GicFrame) (base : Nat) (acc : EmulAccess) : Nat :=
  match frame with
  | .dist => acc.addr - base
  | .redist => (acc.addr - base) % gicrSize

/-- The register that the layout has there. -/
def GicFrame.reg (frame : GicFrame) (ver : GicVersion) (off : Nat) : FrameReg :=
  match frame with
  | .dist => distReg ver off
  | .redist => redistReg off

/-- Whether the frame is a redistributor's. -/
def GicFrame.isRedist (frame : GicFrame) : Bool := decide (frame = .redist)

/-- The parts of interrupts that the layout assigns to the access. -/
def GicFrame.assigned (frame : GicFrame) (base v : Nat) (acc : EmulAccess) : List FieldPart :=
  let off := frame.offset base acc
  (frame.reg P.ver off).parts P frame.isRedist (frame.owner base v acc)
    (match frame with | .dist => off | .redist => off % 0x10000) acc.width

/-- **The access is decoded as the layout says**: refused exactly if the register
there does not allow it, with the parts of interrupts that are assigned to it, and
with nothing else unless there is another register. -/
structure DecodesExactly (frame : GicFrame) (base v : Nat) (acc : EmulAccess) : Prop where
  refused : frame.handler P base v acc = none ↔
    ¬ (frame.reg P.ver (frame.offset base acc)).Allows acc
  reached : ∀ effect, frame.handler P base v acc = some effect →
    effect.touches P v = frame.assigned P base v acc
  nothingElse : ∀ effect, frame.handler P base v acc = some effect →
    (frame.reg P.ver (frame.offset base acc)).isOther = false →
      effect.onlyFields acc.write = true

/-! ## What the handlers serve -/

/-- The register that the distributor's handler serves at the masked address: the
upper half of `ICFGR` and the registers of SGI sources are left out. -/
def gicdServed (ver : GicVersion) (masked : Nat) : FrameReg :=
  match distReg ver masked with
  | .array .icfgr => if masked < 0xC80 then .array .icfgr else .reserved
  | .sources _ => .reserved
  | reg => reg

/-- The register that the redistributors' handler serves, from the masked address
for those of its switch and from the offset for the others. -/
def gicrServed (masked off : Nat) : FrameReg :=
  if (gicrSwitch.lookup masked).isSome then redistReg masked
  else match redistReg off with
    | .array .ipriorityr => .array .ipriorityr
    | .array _ => .reserved
    | reg => reg

/-- The register that is served. -/
def GicFrame.served (frame : GicFrame) (ver : GicVersion) (base : Nat) (acc : EmulAccess) :
    FrameReg :=
  match frame with
  | .dist => gicdServed ver (gicdRegMask ver acc.addr)
  | .redist => gicrServed (acc.addr % gicrSize) (frame.offset base acc)

/-- A load of the group of `SGIR`, which gives no value with GICv2. -/
def GicFrame.silent (frame : GicFrame) (ver : GicVersion) (acc : EmulAccess) : Bool :=
  decide (frame = .dist ∧ ver = .gicv2 ∧ gicdRegMask ver acc.addr / 0x80 = gicdRegGroup sgirOffset)
    && !acc.write

/-- **The masked address stands for the offset**: for an aligned access, the served
register allows the same widths, has the same parts of interrupts at the masked
address as the layout has at the offset, and adds nothing to them. -/
structure MaskFits (frame : GicFrame) (base v : Nat) (acc : EmulAccess) : Prop where
  allowed : (frame.served P.ver base acc).Allows acc ↔
    (frame.reg P.ver (frame.offset base acc)).Allows acc
  parts : (frame.served P.ver base acc).Allows acc →
    (frame.served P.ver base acc).parts P frame.isRedist (frame.owner base v acc)
      (gicdRegMask P.ver acc.addr) acc.width = frame.assigned P base v acc
  alone : (frame.served P.ver base acc).Allows acc →
    (frame.reg P.ver (frame.offset base acc)).isOther = false →
      (frame.served P.ver base acc).isOther = false ∧ frame.silent P.ver acc = false

/-! ## The layout of the arrays -/

section Layout

variable {P} {ver : GicVersion} {reg : VgicReg} {e : Nat}

theorem gicdIsReg_iff {off : Nat} : gicdIsReg reg off = true ↔
    reg.regroupBase ≤ off ∧ off < reg.regroupBase + reg.regSize := by
  unfold gicdIsReg
  rw [Bool.and_eq_true, decide_eq_true_iff, decide_eq_true_iff]

theorem gicdIsReg_inj {reg' : VgicReg} {off : Nat} (h : gicdIsReg reg off = true)
    (h' : gicdIsReg reg' off = true) : reg = reg' := by
  rw [gicdIsReg_iff] at h h'
  cases reg <;> cases reg' <;> first
    | rfl
    | (simp only [VgicReg.regroupBase, VgicReg.regSize, VgicReg.fieldWidth] at h h'; omega)

theorem distReg_array {off : Nat} (hmem : reg ∈ distArrays ver) (h : gicdIsReg reg off = true) :
    distReg ver off = .array reg := by
  have hsome : ((distArrays ver).find? fun reg => gicdIsReg reg off).isSome = true :=
    List.find?_isSome.mpr ⟨reg, hmem, h⟩
  obtain ⟨found, hfound⟩ := Option.isSome_iff_exists.mp hsome
  have hmatch : gicdIsReg found off = true := by simpa only using List.find?_some hfound
  have hsame : found = reg := gicdIsReg_inj hmatch h
  unfold distReg
  rw [hfound, hsame]

theorem distReg_outside {off : Nat} (h : ∀ reg ∈ distArrays ver, gicdIsReg reg off = false) :
    distReg ver off = distRest ver off := by
  have hnone : ((distArrays ver).find? fun reg => gicdIsReg reg off) = none := by
    rw [List.find?_eq_none]
    intro reg hmem
    rw [h reg hmem]
    exact Bool.false_ne_true
  unfold distReg
  rw [hnone]

theorem distRest_ne_array {off : Nat} : distRest ver off ≠ .array reg := by
  unfold distRest
  cases ver <;> dsimp only <;> repeat' split
  all_goals exact fun h => nomatch h

theorem seen_along {first count i : Nat} (gicrAccess : Bool) (hfirst : first % count = 0)
    (hcount : count ∣ 32) (hi : i < count) :
    fieldSeen ver gicrAccess reg (first + i) = fieldSeen ver gicrAccess reg first := by
  obtain ⟨blocks, hblocks⟩ := hcount
  obtain ⟨q, hq⟩ := Nat.dvd_of_mod_eq_zero hfirst
  have hsame : first + i < 32 ↔ first < 32 := by
    constructor
    · intro h
      omega
    · intro h
      have hlt : q < blocks := by
        rw [hq, hblocks] at h
        exact Nat.lt_of_mul_lt_mul_left h
      have hle : count * (q + 1) ≤ count * blocks := Nat.mul_le_mul_left count hlt
      rw [Nat.mul_succ] at hle
      omega
  have hpriv : gicIsPriv (first + i) = gicIsPriv first := decide_eq_decide.mpr hsame
  unfold fieldSeen
  rw [hpriv]

/-- **The fields of an access to an array**: those the layout assigns to the
masked address. -/
theorem genericEffect_touches {acc : EmulAccess} {gicrAccess : Bool} {vgicrId v pos : Nat}
    (hreg : reg ≠ .irouter) (htargets : reg = .itargetsr → P.ver = .gicv2)
    (hpos : gicdRegMask P.ver acc.addr = pos) (hin : gicdIsReg reg pos = true)
    (hwidth : acc.width = 4 ∨ (acc.width = 1 ∧ reg.fieldWidth = 8))
    (haligned : pos % acc.width = 0) :
    (genericEffect P reg acc gicrAccess vgicrId).touches P v =
      (FrameReg.array reg).parts P gicrAccess vgicrId pos acc.width := by
  obtain ⟨hlow, hhigh⟩ := gicdIsReg_iff.mp hin
  let first := (pos - reg.regroupBase) * 8 / reg.fieldWidth
  let count := acc.width * 8 / reg.fieldWidth
  have hfirst : firstInt P.ver reg acc.addr = first := by
    have hsub : pos + 2 ^ 64 - reg.regroupBase = (pos - reg.regroupBase) + 2 ^ 64 := by omega
    have hsmall : pos - reg.regroupBase < 0x2000 := by
      have hsize : reg.regSize ≤ 0x2000 := by cases reg <;> decide
      omega
    unfold firstInt
    rw [hpos, hsub, Nat.add_mod_right, Nat.mod_eq_of_lt (by omega), Nat.mod_eq_of_lt (by omega)]
  have hbound : first < 1024 := by
    change (pos - reg.regroupBase) * 8 / reg.fieldWidth < 1024
    cases reg with
    | irouter => exact absurd rfl hreg
    | _ =>
      simp only [VgicReg.regroupBase, VgicReg.regSize, VgicReg.fieldWidth] at hlow hhigh ⊢
      omega
  have hcount : count ∣ 32 ∧ first % count = 0 := by
    change acc.width * 8 / reg.fieldWidth ∣ 32 ∧
      (pos - reg.regroupBase) * 8 / reg.fieldWidth % (acc.width * 8 / reg.fieldWidth) = 0
    obtain hw | ⟨hw, hfield⟩ := hwidth
    · rw [hw] at haligned ⊢
      cases reg with
      | irouter => exact absurd rfl hreg
      | _ =>
        simp only [VgicReg.regroupBase, VgicReg.fieldWidth] at hlow ⊢
        exact ⟨by decide, by omega⟩
    · rw [hw, hfield]
      exact ⟨by decide, by omega⟩
  have hmod : first % 2 ^ 32 = first := Nat.mod_eq_of_lt (by omega)
  have hparts : (FrameReg.array reg).parts P gicrAccess vgicrId pos acc.width =
      (List.range count).filterMap fun i =>
        if fieldSeen P.ver gicrAccess reg (first + i) then
          (vgicGetInt P (first + i) vgicrId).map fun k => FieldPart.field reg k i
        else none := by
    cases reg <;> first | exact if_pos hlow | exact absurd rfl hreg
  have hvalid : (decide (P.ver = .gicv2) || gicrAccess == gicIsPriv first) =
      fieldSeen P.ver gicrAccess reg first := by
    unfold fieldSeen
    by_cases hv2 : P.ver = .gicv2
    · rw [decide_eq_true hv2, Bool.true_or, Bool.true_or]
    · have hnot : reg ≠ .itargetsr := fun h => hv2 (htargets h)
      rw [decide_eq_true hnot, Bool.and_true]
  rw [hparts]
  unfold genericEffect
  dsimp only
  rw [hfirst, hmod, hvalid]
  by_cases hseen : fieldSeen P.ver gicrAccess reg first = true
  · by_cases hsome : (vgicGetInt P first vgicrId).isSome = true
    · rw [if_pos (Bool.and_eq_true_iff.mpr ⟨hseen, hsome⟩)]
      refine List.filterMap_congr fun i hi => ?_
      have hlt : i < count := List.mem_range.mp hi
      have hle : count ≤ 32 := Nat.le_of_dvd (by decide) hcount.1
      rw [Nat.mod_eq_of_lt (show first + i < 2 ^ 32 by omega),
        seen_along gicrAccess hcount.2 hcount.1 hlt, if_pos hseen]
    · rw [if_neg fun h => hsome (Bool.and_eq_true_iff.mp h).2]
      refine (List.filterMap_eq_nil_iff.mpr fun i _ => ?_).symm
      have hnone : vgicGetInt P (first + i) vgicrId = none := by
        rw [← Option.not_isSome_iff_eq_none]
        exact fun h => hsome (vgicGetInt_lower h (Nat.le_add_right _ _))
      rw [hnone, Option.map_none, ite_self]
  · rw [if_neg fun h => hseen (Bool.and_eq_true_iff.mp h).1]
    refine (List.filterMap_eq_nil_iff.mpr fun i hi => ?_).symm
    rw [seen_along gicrAccess hcount.2 hcount.1 (List.mem_range.mp hi), if_neg hseen]

end Layout

/-! ## What an access does, by the register that is served -/

section Served

variable {P} {v base : Nat} {acc : EmulAccess}

/-- The result of a handler for a register with some parts of interrupts. -/
def Serves (P : VgicPlat) (v : Nat) (acc : EmulAccess) (silent : Bool) (reg : FrameReg)
    (parts : List FieldPart) (result : Option RegEffect) : Prop :=
  if reg.Allows acc then
    ∃ effect, result = some effect ∧ effect.touches P v = parts ∧
      effect.onlyFields acc.write = (!reg.isOther && !silent)
  else result = none

theorem serves_of_effect {silent gicrAccess : Bool} {vgicrId : Nat} {handler : RegHandler}
    {reg : FrameReg} {parts : List FieldPart} (hwidths : handler.alignment = reg.widths)
    (heffect : reg.Allows acc → (handler.effect P acc v gicrAccess vgicrId).touches P v = parts ∧
      (handler.effect P acc v gicrAccess vgicrId).onlyFields acc.write =
        (!reg.isOther && !silent)) :
    Serves P v acc silent reg parts
      (if vgicCheckRegAlignment acc handler then
        some (handler.effect P acc v gicrAccess vgicrId) else none) := by
  have hcheck : vgicCheckRegAlignment acc handler = decide (reg.Allows acc) := by
    unfold vgicCheckRegAlignment
    rw [hwidths, Bool.eq_iff_iff, Bool.and_eq_true, decide_eq_true_iff, decide_eq_true_iff,
      decide_eq_true_iff]
    rfl
  unfold Serves
  rw [hcheck]
  by_cases hallows : reg.Allows acc
  · rw [if_pos hallows, if_pos (decide_eq_true hallows)]
    exact ⟨_, rfl, heffect hallows⟩
  · rw [if_neg hallows, if_neg fun h => hallows (of_decide_eq_true h)]

theorem width_of_mask {widths : Nat} (hwidths : widths = 0x4 ∨ widths = 0x5)
    (h : widths &&& acc.width ≠ 0) : acc.width = 4 ∨ (acc.width = 1 ∧ widths = 0x5) := by
  unfold EmulAccess.width at h ⊢
  obtain hw | hw := hwidths <;> rw [hw] at h ⊢ <;> revert h <;> generalize acc.sas = sas <;>
    revert sas <;> decide

theorem serves_zero {silent : Bool} {gicrAccess : Bool} {vgicrId widths : Nat} {reg : FrameReg}
    {parts : List FieldPart} (hwidths : widths = reg.widths) (hother : reg.isOther = false)
    (hparts : parts = []) (hsilent : silent = false) :
    Serves P v acc silent reg parts
      (if vgicCheckRegAlignment acc (.razwi widths) then
        some ((RegHandler.razwi widths).effect P acc v gicrAccess vgicrId) else none) := by
  refine serves_of_effect hwidths fun _ => ⟨hparts.symm, ?_⟩
  rw [hother, hsilent]
  rfl

theorem serves_field {silent gicrAccess : Bool} {vgicrId e : Nat} {reg : VgicReg}
    (hreg : reg ≠ .irouter) (htargets : reg = .itargetsr → P.ver = .gicv2)
    (hmask : gicdRegMask P.ver acc.addr = e) (hin : gicdIsReg reg e = true)
    (hsilent : silent = false) :
    Serves P v acc silent (.array reg)
      ((FrameReg.array reg).parts P gicrAccess vgicrId e acc.width)
      (if vgicCheckRegAlignment acc (.field reg) then
        some ((RegHandler.field reg).effect P acc v gicrAccess vgicrId) else none) := by
  have hwidths : (RegHandler.field reg).alignment = (FrameReg.array reg).widths := by
    cases reg <;> first | rfl | exact absurd rfl hreg
  refine serves_of_effect hwidths fun hallows => ⟨?_, ?_⟩
  · obtain ⟨hallowed, haligned⟩ := hallows
    have hwidth : acc.width = 4 ∨ (acc.width = 1 ∧ reg.fieldWidth = 8) := by
      have hkind : (FrameReg.array reg).widths = 0x4 ∨
          ((FrameReg.array reg).widths = 0x5 ∧ reg.fieldWidth = 8) := by
        cases reg <;> first | exact Or.inl rfl | exact Or.inr ⟨rfl, rfl⟩ | exact absurd rfl hreg
      obtain hfour | ⟨hfive, hfield⟩ := hkind
      · obtain hw | ⟨-, hno⟩ := width_of_mask (Or.inl hfour) hallowed
        · exact Or.inl hw
        · rw [hfour] at hno
          cases hno
      · obtain hw | ⟨hw, -⟩ := width_of_mask (Or.inr hfive) hallowed
        · exact Or.inl hw
        · exact Or.inr ⟨hw, hfield⟩
    have hpos : e % acc.width = 0 := by
      rw [← hmask]
      unfold gicdRegMask
      obtain hw | ⟨hw, -⟩ := hwidth
      · rw [hw] at haligned ⊢
        cases P.ver <;> simp only [GicVersion.regRange] <;> omega
      · rw [hw]
        exact Nat.mod_one _
    exact genericEffect_touches hreg htargets hmask hin hwidth hpos
  · rw [hsilent]
    change (genericEffect P reg acc gicrAccess vgicrId).onlyFields acc.write = true
    unfold genericEffect
    dsimp only
    split <;> rfl

theorem gicdHandler_group {ver : GicVersion} {reg : VgicReg} {e : Nat} (hreg : reg ∈ groupRegs)
    (hgroup : e / 0x80 = reg.regroupBase / 0x80) : gicdHandler ver e = .field reg := by
  unfold gicdHandler
  rw [hgroup]
  cases reg <;> first | rfl | exact absurd hreg (by decide)

theorem gicdHandler_default {ver : GicVersion} {e : Nat} (hmisc : e / 0x80 ≠ 0)
    (hgroups : ∀ reg ∈ groupRegs, e / 0x80 ≠ reg.regroupBase / 0x80) :
    gicdHandler ver e =
      if e / 0x80 = gicdRegGroup sgirOffset then
        match ver with
        | .gicv2 => .sgiregs
        | .gicv3 => .razwi 0x4
      else if gicdIsReg .ipriorityr e then .field .ipriorityr
      else if gicdIsReg .itargetsr e then
        match ver with
        | .gicv2 => .field .itargetsr
        | .gicv3 => .razwi 0x5
      else if gicdIsReg .irouter e then
        match ver with
        | .gicv2 => .razwi 0x4
        | .gicv3 => .router
      else if identOffset ≤ e then .pidr
      else .razwi 0x4 := by
  have hnone : (groupRegs.find? fun reg => decide (e / 0x80 = gicdRegGroup reg.regroupBase)) =
      none := by
    rw [List.find?_eq_none]
    intro reg hmem h
    refine hgroups reg hmem ((of_decide_eq_true h).trans ?_)
    cases reg <;> rfl
  unfold gicdHandler
  dsimp only
  have hrest : ¬ e / 0x80 = gicdRegGroup 0 := hmisc
  cases ver with
  | gicv2 => rw [if_neg hrest, hnone]
  | gicv3 => rw [if_neg hrest, hnone]

theorem gicdServed_array {ver : GicVersion} {reg : VgicReg} {e : Nat}
    (hmem : reg ∈ distArrays ver) (hin : gicdIsReg reg e = true)
    (hlow : reg = .icfgr → e < 0xC80) : gicdServed ver e = .array reg := by
  unfold gicdServed
  rw [distReg_array hmem hin]
  cases reg <;> first | rfl | exact if_pos (hlow rfl)

theorem gicdServed_outside {ver : GicVersion} {e : Nat}
    (h : ∀ reg, reg ∈ distArrays ver → gicdIsReg reg e = false) :
    gicdServed ver e = match distRest ver e with
      | .sources _ => .reserved
      | reg => reg := by
  unfold gicdServed
  rw [distReg_outside h]
  cases hreg : distRest ver e with
  | array reg => exact absurd hreg distRest_ne_array
  | _ => rfl

theorem gicdIsReg_false {reg : VgicReg} {e : Nat}
    (h : e < reg.regroupBase ∨ reg.regroupBase + reg.regSize ≤ e) : gicdIsReg reg e = false := by
  rw [Bool.eq_false_iff]
  intro hin
  have hin' := gicdIsReg_iff.mp hin
  omega

theorem groupRegs_mem {ver : GicVersion} {reg : VgicReg} {e : Nat} (hreg : reg ∈ groupRegs)
    (hgroup : e / 0x80 = reg.regroupBase / 0x80) : reg ∈ distArrays ver ∧
      gicdIsReg reg e = true ∧ reg ≠ .irouter ∧ reg ≠ .itargetsr ∧ (reg = .icfgr → e < 0xC80) := by
  rw [gicdIsReg_iff]
  cases reg <;> first
    | exact absurd hreg (by decide)
    | (simp only [VgicReg.regroupBase, VgicReg.regSize, VgicReg.fieldWidth] at hgroup ⊢
       refine ⟨by cases ver <;> decide, by omega, by decide, by decide, fun _ => by omega⟩)

theorem groupRegs_in {reg : VgicReg} {e : Nat} (hreg : reg ∈ groupRegs)
    (hin : gicdIsReg reg e = true) (hlow : reg = .icfgr → e < 0xC80) :
    e / 0x80 = reg.regroupBase / 0x80 := by
  rw [gicdIsReg_iff] at hin
  cases reg <;> first
    | exact absurd hreg (by decide)
    | (simp only [VgicReg.regroupBase, VgicReg.regSize, VgicReg.fieldWidth] at hin ⊢
       have hcfg := hlow
       simp only [reduceCtorEq, false_imp_iff, true_imp_iff] at hcfg
       omega)

theorem not_silent {ver : GicVersion} {e : Nat} (hmask : gicdRegMask ver acc.addr = e)
    (hsgi : e / 0x80 ≠ gicdRegGroup sgirOffset ∨ ver = .gicv3) :
    GicFrame.dist.silent ver acc = false := by
  unfold GicFrame.silent
  rw [hmask, Bool.and_eq_false_iff]
  refine Or.inl (decide_eq_false fun h => ?_)
  obtain ⟨-, hver, hgroup⟩ := h
  obtain hno | hno := hsgi
  · exact hno hgroup
  · rw [hver] at hno
    cases hno

/-- `vgicd_emul_misc_access`. -/
theorem misc_serves {silent gicrAccess : Bool} {vgicrId e : Nat}
    (hmask : gicdRegMask P.ver acc.addr = e) (he : e < 0x80) (hsilent : silent = false) :
    Serves P v acc silent (gicdServed P.ver e)
      ((gicdServed P.ver e).parts P gicrAccess vgicrId e acc.width)
      (if vgicCheckRegAlignment acc .misc then
        some (RegHandler.misc.effect P acc v gicrAccess vgicrId) else none) := by
  have haddr : acc.addr % 0x80 = e := by
    have h := hmask
    unfold gicdRegMask at h
    cases hver : P.ver <;> rw [hver] at h <;> simp only [GicVersion.regRange] at h <;> omega
  have houtside : ∀ reg, reg ∈ distArrays P.ver → gicdIsReg reg e = false := by
    intro reg _
    refine gicdIsReg_false (Or.inl ?_)
    cases reg <;> simp only [VgicReg.regroupBase] <;> omega
  rw [gicdServed_outside houtside]
  unfold distRest
  by_cases hlow : e < 0xC
  · rw [if_pos hlow]
    refine serves_of_effect rfl fun hallows => ?_
    obtain hw | ⟨-, hno⟩ := width_of_mask (Or.inl rfl) hallows.1
    · have haligned := hallows.2
      rw [hw] at haligned
      have hcases : e = 0 ∨ e = 4 ∨ e = 8 := by omega
      unfold RegHandler.effect
      dsimp only
      rw [haddr]
      obtain h | h | h := hcases <;> rw [h] <;> exact ⟨rfl, rfl⟩
    · cases hno
  · rw [if_neg hlow]
    have hreserved : (match P.ver with
        | .gicv2 =>
            if 0xF00 ≤ e ∧ e < 0xF04 then FrameReg.other 0x4
            else if 0xF10 ≤ e ∧ e < 0xF20 then .sources false
            else if 0xF20 ≤ e ∧ e < 0xF30 then .sources true
            else .reserved
        | .gicv3 => if identOffset ≤ e ∧ e < 0x10000 then .other 0x4 else .reserved) =
        FrameReg.reserved := by
      cases P.ver with
      | gicv2 => dsimp only; rw [if_neg (by omega), if_neg (by omega), if_neg (by omega)]
      | gicv3 =>
        dsimp only
        exact if_neg fun h => absurd (show 0xFFD0 ≤ e from h.1) (by omega)
    rw [hreserved]
    refine serves_of_effect rfl fun _ => ?_
    unfold RegHandler.effect
    dsimp only
    rw [haddr, if_neg (by omega), if_neg (by omega), if_neg (by omega), hsilent]
    exact ⟨rfl, rfl⟩

theorem sgir_outside {ver : GicVersion} {e : Nat} (hgroup : e / 0x80 = gicdRegGroup sgirOffset) :
    ∀ reg, reg ∈ distArrays ver → gicdIsReg reg e = false := by
  intro reg _
  have hval : gicdRegGroup sgirOffset = 0x1E := rfl
  refine gicdIsReg_false ?_
  cases reg <;> simp only [VgicReg.regroupBase, VgicReg.regSize, VgicReg.fieldWidth] <;> omega

/-- `vgicd_emul_sgiregs_access`. -/
theorem sgiregs_serves (v : Nat) (gicrAccess : Bool) (vgicrId : Nat) {e : Nat} (hver : P.ver = .gicv2)
    (hmask : gicdRegMask P.ver acc.addr = e) (hgroup : e / 0x80 = gicdRegGroup sgirOffset) :
    Serves P v acc (GicFrame.dist.silent P.ver acc) (gicdServed P.ver e)
      ((gicdServed P.ver e).parts P gicrAccess vgicrId e acc.width)
      (if vgicCheckRegAlignment acc .sgiregs then
        some (RegHandler.sgiregs.effect P acc v gicrAccess vgicrId) else none) := by
  have hval : gicdRegGroup sgirOffset = 0x1E := rfl
  have haddr : acc.addr % 0x1000 = e := by
    have h := hmask
    rw [hver] at h
    exact h
  have hsilent : GicFrame.dist.silent P.ver acc = !acc.write := by
    unfold GicFrame.silent
    rw [hmask, decide_eq_true ⟨rfl, hver, hgroup⟩, Bool.true_and]
  rw [hsilent, gicdServed_outside (sgir_outside hgroup), hver]
  unfold distRest
  rw [if_neg (by omega)]
  by_cases hsgir : e < 0xF04
  · dsimp only
    rw [if_pos ⟨by omega, hsgir⟩]
    refine serves_of_effect rfl fun hallows => ?_
    obtain hw | ⟨-, hno⟩ := width_of_mask (Or.inl rfl) hallows.1
    · have haligned := hallows.2
      rw [hw] at haligned
      have hfirst : acc.addr % 0x1000 = sgirOffset := by
        change acc.addr % 0x1000 = 0xF00
        omega
      unfold RegHandler.effect
      dsimp only
      rw [if_pos hfirst]
      exact ⟨rfl, rfl⟩
    · cases hno
  · have hreserved : (match (match GicVersion.gicv2 with
        | .gicv2 =>
            if 0xF00 ≤ e ∧ e < 0xF04 then FrameReg.other 0x4
            else if 0xF10 ≤ e ∧ e < 0xF20 then .sources false
            else if 0xF20 ≤ e ∧ e < 0xF30 then .sources true
            else .reserved
        | .gicv3 => if identOffset ≤ e ∧ e < 0x10000 then .other 0x4 else .reserved) with
        | .sources _ => FrameReg.reserved
        | reg => reg) = FrameReg.reserved := by
      dsimp only
      rw [if_neg (fun h => hsgir h.2)]
      split <;> rename_i h
      · rfl
      · by_cases hclear : 0xF10 ≤ e ∧ e < 0xF20
        · rw [if_pos hclear] at h ⊢
          exact absurd rfl (h false)
        · rw [if_neg hclear] at h ⊢
          by_cases hset : 0xF20 ≤ e ∧ e < 0xF30
          · rw [if_pos hset] at h
            exact absurd rfl (h true)
          · exact if_neg hset
    rw [hreserved]
    refine serves_of_effect rfl fun _ => ?_
    have hnot : acc.addr % 0x1000 ≠ sgirOffset := by
      change acc.addr % 0x1000 ≠ 0xF00
      omega
    unfold RegHandler.effect
    dsimp only
    rw [if_neg hnot]
    refine ⟨rfl, ?_⟩
    cases acc.write <;> rfl

/-- `vgicd_emul_router_access`. -/
theorem router_serves {silent : Bool} {e : Nat} (hver : P.ver = .gicv3)
    (hmask : gicdRegMask P.ver acc.addr = e) (hin : gicdIsReg .irouter e = true)
    (hsilent : silent = false) :
    Serves P v acc silent (.array .irouter)
      ((FrameReg.array .irouter).parts P false v e acc.width)
      (if vgicCheckRegAlignment acc .router then
        some (RegHandler.router.effect P acc v false v) else none) := by
  have haddr : acc.addr % 0x10000 = e := by
    have h := hmask
    rw [hver] at h
    exact h
  obtain ⟨hlow, hhigh⟩ := gicdIsReg_iff.mp hin
  have hid : (gicdRegMask P.ver (acc.addr / 8 * 8) - VgicReg.regroupBase .irouter) / 8 =
      (e - VgicReg.regroupBase .irouter) / 8 := by
    rw [hver]
    change (acc.addr / 8 * 8 % 0x10000 - 0x6000) / 8 = (e - 0x6000) / 8
    omega
  have hpart : routerPart acc =
      if acc.width = 4 then if e / 4 % 2 = 1 then .top else .word else .full := by
    have hbit : acc.addr.testBit 2 = decide (e / 4 % 2 = 1) := by
      rw [Nat.testBit_eq_decide_div_mod_eq, decide_eq_decide]
      omega
    unfold routerPart
    rw [hbit]
    simp only [decide_eq_true_iff]
  refine serves_of_effect rfl fun _ => ?_
  change (routerEffect P acc v).touches P v = _ ∧ (routerEffect P acc v).onlyFields acc.write = _
  unfold routerEffect
  dsimp only
  rw [hid, hpart, hsilent]
  have hseen : fieldSeen P.ver false .irouter ((e - VgicReg.regroupBase .irouter) / 8) =
      !gicIsPriv ((e - VgicReg.regroupBase .irouter) / 8) := by
    unfold fieldSeen
    rw [hver]
    cases gicIsPriv ((e - VgicReg.regroupBase .irouter) / 8) <;> rfl
  unfold FrameReg.parts
  dsimp only
  rw [hseen]
  cases hint : vgicGetInt P ((e - VgicReg.regroupBase .irouter) / 8) v with
  | none =>
    refine ⟨?_, rfl⟩
    rw [Option.map_none, Option.toList_none, ite_self]
    rfl
  | some k =>
    refine ⟨?_, rfl⟩
    rw [Option.isSome_some, if_pos rfl]
    unfold RegEffect.touches
    dsimp only
    rw [hint]
    cases gicIsPriv ((e - VgicReg.regroupBase .irouter) / 8) <;> rfl

theorem razwi_serves {silent gicrAccess : Bool} {vgicrId pos widths : Nat} {reg : FrameReg}
    (hreg : reg = .reserved) (hwidths : widths = 0x4) (hsilent : silent = false) :
    Serves P v acc silent reg (reg.parts P gicrAccess vgicrId pos acc.width)
      (if vgicCheckRegAlignment acc (.razwi widths) then
        some ((RegHandler.razwi widths).effect P acc v gicrAccess vgicrId) else none) := by
  rw [hreg, hwidths]
  exact serves_zero rfl rfl rfl hsilent

theorem targets_serves {silent : Bool} {e : Nat} (hver : P.ver = .gicv3) (hsilent : silent = false) :
    Serves P v acc silent (.array .itargetsr)
      ((FrameReg.array .itargetsr).parts P false v e acc.width)
      (if vgicCheckRegAlignment acc (.razwi 0x5) then
        some ((RegHandler.razwi 0x5).effect P acc v false v) else none) := by
  refine serves_zero rfl rfl ?_ hsilent
  unfold FrameReg.parts
  dsimp only
  split
  · refine List.filterMap_eq_nil_iff.mpr fun i _ => if_neg ?_
    unfold fieldSeen
    rw [hver]
    simp
  · rfl

theorem default_serves {e : Nat} (hmask : gicdRegMask P.ver acc.addr = e)
    (hrange : e < P.ver.regRange) (hmisc : e / 0x80 ≠ 0)
    (hgroups : ∀ reg ∈ groupRegs, e / 0x80 ≠ reg.regroupBase / 0x80) :
    Serves P v acc (GicFrame.dist.silent P.ver acc) (gicdServed P.ver e)
      ((gicdServed P.ver e).parts P false v e acc.width)
      (if vgicCheckRegAlignment acc (gicdHandler P.ver e) then
        some ((gicdHandler P.ver e).effect P acc v false v) else none) := by
  have hval : gicdRegGroup sgirOffset = 0x1E := rfl
  have hsmall : P.ver = .gicv2 → e < 0x1000 := fun h => by rw [h] at hrange; exact hrange
  have hlarge : e < 0x10000 := by
    cases hver : P.ver <;> rw [hver] at hrange <;> simp only [GicVersion.regRange] at hrange <;> omega
  rw [gicdHandler_default hmisc hgroups]
  by_cases hsgi : e / 0x80 = gicdRegGroup sgirOffset
  · rw [if_pos hsgi]
    cases hver : P.ver with
    | gicv2 =>
      have hserves := sgiregs_serves v false v hver hmask hsgi
      rw [hver] at hserves
      exact hserves
    | gicv3 =>
      refine razwi_serves ?_ rfl (not_silent (hver ▸ hmask) (Or.inr rfl))
      rw [gicdServed_outside (sgir_outside hsgi)]
      unfold distRest
      rw [if_neg (by omega)]
      dsimp only
      rw [if_neg fun h => absurd (show 0xFFD0 ≤ e from h.1) (by omega)]
  rw [if_neg hsgi]
  have hsilent : GicFrame.dist.silent P.ver acc = false := not_silent hmask (Or.inl hsgi)
  by_cases hprio : gicdIsReg .ipriorityr e = true
  · rw [if_pos hprio, gicdServed_array (by cases P.ver <;> decide) hprio (fun h => nomatch h)]
    exact serves_field (by decide) (fun h => nomatch h) hmask hprio hsilent
  rw [if_neg hprio]
  by_cases htargets : gicdIsReg .itargetsr e = true
  · rw [if_pos htargets, gicdServed_array (by cases P.ver <;> decide) htargets (fun h => nomatch h)]
    cases hver : P.ver with
    | gicv2 =>
      rw [hver] at hsilent
      exact serves_field (by decide) (fun _ => hver) hmask htargets hsilent
    | gicv3 => exact targets_serves hver (hver ▸ hsilent)
  rw [if_neg htargets]
  by_cases hrouter : gicdIsReg .irouter e = true
  · have hfar : 0x6000 ≤ e := (gicdIsReg_iff.mp hrouter).1
    have hver : P.ver = .gicv3 := by
      cases hver : P.ver with
      | gicv2 =>
        have hlt := hsmall hver
        omega
      | gicv3 => rfl
    rw [if_pos hrouter, gicdServed_array (by rw [hver]; decide) hrouter (fun h => nomatch h), hver]
    exact router_serves hver hmask hrouter (hver ▸ hsilent)
  rw [if_neg hrouter]
  by_cases hident : identOffset ≤ e
  · have hfar : 0xFFD0 ≤ e := hident
    have houtside : ∀ reg, reg ∈ distArrays P.ver → gicdIsReg reg e = false := by
      intro reg _
      refine gicdIsReg_false (Or.inr ?_)
      cases reg <;> simp only [VgicReg.regroupBase, VgicReg.regSize, VgicReg.fieldWidth] <;> omega
    have hver : P.ver = .gicv3 := by
      cases hver : P.ver with
      | gicv2 =>
        have hlt := hsmall hver
        omega
      | gicv3 => rfl
    rw [if_pos hident, gicdServed_outside houtside, hver]
    unfold distRest
    rw [if_neg (by omega)]
    dsimp only
    rw [if_pos ⟨hident, hlarge⟩]
    exact serves_of_effect rfl fun _ => ⟨rfl, rfl⟩
  rw [if_neg hident]
  refine razwi_serves ?_ rfl hsilent
  by_cases hcfg : gicdIsReg .icfgr e = true
  · have hhigh : ¬ e < 0xC80 := by
      intro hlt
      exact hgroups .icfgr (by decide) (groupRegs_in (by decide) hcfg fun _ => hlt)
    unfold gicdServed
    rw [distReg_array (by cases P.ver <;> decide) hcfg]
    exact if_neg hhigh
  · have houtside : ∀ reg, reg ∈ distArrays P.ver → gicdIsReg reg e = false := by
      intro reg _
      rw [Bool.eq_false_iff]
      intro hin
      by_cases hreg : reg ∈ groupRegs
      · refine hgroups reg hreg (groupRegs_in hreg hin fun h => ?_)
        rw [h] at hin
        exact absurd hin hcfg
      · cases reg <;> first | exact hreg (by decide) | exact hprio hin | exact htargets hin | exact hrouter hin
    have hnotsgi : ¬ (0xF00 ≤ e ∧ e < 0xF80) := by omega
    rw [gicdServed_outside houtside]
    unfold distRest
    rw [if_neg (by omega)]
    cases P.ver with
    | gicv2 =>
      dsimp only
      rw [if_neg (by omega), if_neg (by omega), if_neg (by omega)]
    | gicv3 =>
      dsimp only
      rw [if_neg fun h => hident h.1]

/-- **The distributor's handler** serves the register at the masked address. -/
theorem dist_serves (P : VgicPlat) (v : Nat) (acc : EmulAccess) :
    Serves P v acc (GicFrame.dist.silent P.ver acc)
      (gicdServed P.ver (gicdRegMask P.ver acc.addr))
      ((gicdServed P.ver (gicdRegMask P.ver acc.addr)).parts P false v
        (gicdRegMask P.ver acc.addr) acc.width)
      (vgicdEmulHandler P v acc) := by
  obtain ⟨e, hmask⟩ : ∃ e, gicdRegMask P.ver acc.addr = e := ⟨_, rfl⟩
  have hrange : e < P.ver.regRange := by
    rw [← hmask]
    exact Nat.mod_lt _ (by cases P.ver <;> decide)
  have hval : gicdRegGroup sgirOffset = 0x1E := rfl
  unfold vgicdEmulHandler
  dsimp only
  rw [hmask]
  by_cases hmisc : e / 0x80 = 0
  · have hhandler : gicdHandler P.ver e = .misc := if_pos hmisc
    rw [hhandler]
    exact misc_serves hmask (by omega) (not_silent hmask (Or.inl (by omega)))
  by_cases hgroups : ∃ reg ∈ groupRegs, e / 0x80 = reg.regroupBase / 0x80
  · obtain ⟨reg, hreg, hgroup⟩ := hgroups
    obtain ⟨hmem, hin, hrouter, htargets, hlow⟩ := @groupRegs_mem P.ver _ _ hreg hgroup
    have hsgi : e / 0x80 ≠ gicdRegGroup sgirOffset := by
      rw [hgroup]
      cases reg <;> decide
    rw [gicdHandler_group hreg hgroup, gicdServed_array hmem hin hlow]
    exact serves_field hrouter (fun h => absurd h htargets) hmask hin
      (not_silent hmask (Or.inl hsgi))
  exact default_serves hmask hrange hmisc fun reg hreg h => hgroups ⟨reg, hreg, h⟩

/-- The redistributor's array of priorities is the only one that its handler finds by
the offset. -/
theorem redistReg_prio {off : Nat} (h : 0x10400 ≤ off ∧ off < 0x10420) :
    redistReg off = .array .ipriorityr := by
  have hsome : (redistArrays.find? fun reg => decide (0x10000 + reg.regroupBase ≤ off ∧
      off < 0x10000 + reg.regroupBase + reg.fieldWidth * 4)).isSome = true :=
    List.find?_isSome.mpr ⟨.ipriorityr, by decide, decide_eq_true h⟩
  obtain ⟨found, hfound⟩ := Option.isSome_iff_exists.mp hsome
  have hmatch : 0x10000 + found.regroupBase ≤ off ∧
      off < 0x10000 + found.regroupBase + found.fieldWidth * 4 := by
    simpa only [decide_eq_true_iff] using List.find?_some hfound
  have hprio : found = .ipriorityr := by
    cases found <;> first
      | rfl
      | (simp only [VgicReg.regroupBase, VgicReg.fieldWidth] at hmatch; omega)
  unfold redistReg
  rw [hfound, hprio]

theorem redistReg_rd {off : Nat} (h : off < 0x10000) :
    redistReg off = if 0x8 ≤ off ∧ off < 0x10 then .other 0xC
      else if 0xFFD0 ≤ off ∧ off < 0x10000 then .other 0x4
      else .reserved := by
  have hnone : (redistArrays.find? fun reg => decide (0x10000 + reg.regroupBase ≤ off ∧
      off < 0x10000 + reg.regroupBase + reg.fieldWidth * 4)) = none := by
    rw [List.find?_eq_none]
    intro reg _ hin
    have hin' := of_decide_eq_true hin
    omega
  unfold redistReg
  rw [hnone]

theorem gicrServed_else {masked off : Nat} (hswitch : gicrSwitch.lookup masked = none)
    (htyper : ¬ (0x8 ≤ off ∧ off < 0x10)) (hprio : ¬ (0x10400 ≤ off ∧ off < 0x10420))
    (hident : ¬ (0xFFD0 ≤ off ∧ off < 0x10000)) : gicrServed masked off = .reserved := by
  unfold gicrServed
  rw [hswitch, if_neg (by decide)]
  unfold redistReg
  cases hfound : redistArrays.find? fun reg => decide (0x10000 + reg.regroupBase ≤ off ∧
      off < 0x10000 + reg.regroupBase + reg.fieldWidth * 4) with
  | none =>
    dsimp only
    rw [if_neg htyper, if_neg hident]
  | some reg =>
    have hmatch : 0x10000 + reg.regroupBase ≤ off ∧
        off < 0x10000 + reg.regroupBase + reg.fieldWidth * 4 := by
      simpa only [decide_eq_true_iff] using List.find?_some hfound
    cases reg <;> first | rfl | exact absurd hmatch hprio

/-- What the switch of `vgicr_emul_handler` finds is laid out there. -/
theorem gicrSwitch_reg {masked : Nat} {handler : RegHandler}
    (h : gicrSwitch.lookup masked = some handler) :
    (handler = .razwi 0x4 ∧ redistReg masked = .reserved) ∨
      ∃ reg, handler = .field reg ∧ redistReg masked = .array reg ∧ reg ≠ .irouter ∧
        reg ≠ .itargetsr ∧ gicdIsReg reg (masked % 0x10000) = true := by
  obtain ⟨before, after, hsplit, -⟩ := List.lookup_eq_some_iff.mp h
  have hmem : (masked, handler) ∈ gicrSwitch := by
    rw [hsplit]
    exact List.mem_append_right _ List.mem_cons_self
  simp only [gicrSwitch, List.mem_cons, List.not_mem_nil, or_false, Prod.mk.injEq] at hmem
  obtain ⟨hm, hh⟩ | hmem := hmem
  · rw [hm, hh]
    exact Or.inl ⟨rfl, rfl⟩
  · right
    obtain ⟨hm, hh⟩ | ⟨hm, hh⟩ | ⟨hm, hh⟩ | ⟨hm, hh⟩ | ⟨hm, hh⟩ | ⟨hm, hh⟩ | ⟨hm, hh⟩ | ⟨hm, hh⟩ :=
      hmem <;> rw [hm, hh] <;> exact ⟨_, rfl, rfl, by decide, by decide, by decide⟩

/-- Priorities of a redistributor: where the masked address is not in the array,
there is no private interrupt. -/
theorem redistPrio_serves {vgicrId e : Nat} (hver : P.ver = .gicv3)
    (hmask : gicdRegMask P.ver acc.addr = e) :
    Serves P v acc false (.array .ipriorityr)
      ((FrameReg.array .ipriorityr).parts P true vgicrId e acc.width)
      (if vgicCheckRegAlignment acc (.field .ipriorityr) then
        some ((RegHandler.field .ipriorityr).effect P acc v true vgicrId) else none) := by
  by_cases hin : gicdIsReg .ipriorityr e = true
  · exact serves_field (by decide) (fun h => nomatch h) hmask hin rfl
  have hlt : e < 0x10000 := by
    rw [← hmask, hver]
    exact Nat.mod_lt _ (by decide)
  have hout : e < 0x400 ∨ 0x800 ≤ e := by
    rw [gicdIsReg_iff] at hin
    simp only [VgicReg.regroupBase, VgicReg.regSize, VgicReg.fieldWidth] at hin
    omega
  have hfirst : 32 ≤ firstInt P.ver .ipriorityr acc.addr % 2 ^ 32 := by
    unfold firstInt
    rw [hmask]
    simp only [VgicReg.regroupBase, VgicReg.fieldWidth]
    omega
  have hzero : genericEffect P .ipriorityr acc true vgicrId = .zero := by
    unfold genericEffect
    dsimp only
    have hpriv : gicIsPriv (firstInt P.ver .ipriorityr acc.addr % 2 ^ 32) = false :=
      decide_eq_false (by simp only [gicCpuPriv]; omega)
    rw [hpriv, hver]
    rfl
  have hparts : (FrameReg.array .ipriorityr).parts P true vgicrId e acc.width = [] := by
    unfold FrameReg.parts
    dsimp only
    by_cases hlow : VgicReg.regroupBase .ipriorityr ≤ e
    · rw [if_pos hlow]
      refine List.filterMap_eq_nil_iff.mpr fun i _ => if_neg ?_
      have hbase : VgicReg.regroupBase .ipriorityr = 0x400 := rfl
      have hfield : VgicReg.fieldWidth .ipriorityr = 8 := rfl
      have hpriv : gicIsPriv ((e - VgicReg.regroupBase .ipriorityr) * 8 /
          VgicReg.fieldWidth .ipriorityr + i) = false := by
        refine decide_eq_false ?_
        rw [hbase, hfield, gicCpuPriv]
        omega
      unfold fieldSeen
      rw [hpriv, hver]
      decide
    · exact if_neg hlow
  refine serves_of_effect rfl fun _ => ?_
  change (genericEffect P .ipriorityr acc true vgicrId).touches P v = _ ∧
    (genericEffect P .ipriorityr acc true vgicrId).onlyFields acc.write = _
  rw [hzero, hparts]
  exact ⟨rfl, rfl⟩

/-- **The redistributors' handler**: its switch serves the register at the masked
address, the rest that at the offset. -/
theorem redist_serves (P : VgicPlat) (base v : Nat) (acc : EmulAccess) (hver : P.ver = .gicv3) :
    Serves P v acc false
      (gicrServed (acc.addr % gicrSize) ((acc.addr - base) % gicrSize))
      ((gicrServed (acc.addr % gicrSize) ((acc.addr - base) % gicrSize)).parts P true
        ((acc.addr - base) / gicrSize) (gicdRegMask P.ver acc.addr) acc.width)
      (vgicrEmulHandler P base v acc) := by
  obtain ⟨off, hoff⟩ : ∃ off, (acc.addr - base) % gicrSize = off := ⟨_, rfl⟩
  have he : acc.addr % gicrSize % 0x10000 = gicdRegMask P.ver acc.addr := by
    rw [hver]
    change acc.addr % 0x20000 % 0x10000 = acc.addr % 0x10000
    omega
  unfold vgicrEmulHandler
  dsimp only
  rw [hoff]
  unfold gicrHandler
  cases hswitch : gicrSwitch.lookup (acc.addr % gicrSize) with
  | some handler =>
    have hserved : gicrServed (acc.addr % gicrSize) off = redistReg (acc.addr % gicrSize) := by
      unfold gicrServed
      rw [hswitch]
      rfl
    dsimp only
    rw [hserved]
    obtain ⟨hrazwi, hreg⟩ | ⟨reg, hfield, hreg, hrouter, htargets, hin⟩ := gicrSwitch_reg hswitch
    · rw [hrazwi, hreg]
      exact razwi_serves rfl rfl rfl
    · rw [hfield, hreg]
      rw [he] at hin
      exact serves_field hrouter (fun h => absurd h htargets) rfl hin rfl
  | none =>
    dsimp only
    have hserved : gicrServed (acc.addr % gicrSize) off = match redistReg off with
        | .array .ipriorityr => .array .ipriorityr
        | .array _ => .reserved
        | reg => reg := by
      unfold gicrServed
      rw [hswitch]
      rfl
    by_cases htyper : 0x8 ≤ off ∧ off < 0x10
    · rw [if_pos htyper, hserved, redistReg_rd (by omega), if_pos htyper]
      exact serves_of_effect rfl fun _ => ⟨rfl, rfl⟩
    rw [if_neg htyper]
    by_cases hprio : 0x10400 ≤ off ∧ off < 0x10420
    · rw [if_pos hprio, hserved, redistReg_prio hprio]
      exact redistPrio_serves hver rfl
    rw [if_neg hprio]
    by_cases hident : 0xFFD0 ≤ off ∧ off < 0x10000
    · rw [if_pos hident, hserved, redistReg_rd hident.2, if_neg htyper, if_pos hident]
      exact serves_of_effect rfl fun _ => ⟨rfl, rfl⟩
    rw [if_neg hident]
    exact razwi_serves (gicrServed_else hswitch htyper hprio hident) rfl rfl

theorem frame_serves (P : VgicPlat) (frame : GicFrame) (base v : Nat) (acc : EmulAccess)
    (hframe : frame = .redist → P.ver = .gicv3) :
    Serves P v acc (frame.silent P.ver acc) (frame.served P.ver base acc)
      ((frame.served P.ver base acc).parts P frame.isRedist (frame.owner base v acc)
        (gicdRegMask P.ver acc.addr) acc.width) (frame.handler P base v acc) := by
  cases frame with
  | dist => exact dist_serves P v acc
  | redist =>
    have hsilent : GicFrame.redist.silent P.ver acc = false := rfl
    rw [hsilent]
    exact redist_serves P base v acc (hframe rfl)

end Served

/-! ## What the reached parts mean -/

section Parts

variable {P} {v : Nat} {acc : EmulAccess} {s : VgicState} {effect : RegEffect}

/-- What a load puts into the value for a part. -/
def FieldPart.load (P : VgicPlat) (v : Nat) (s : VgicState) (val : Nat) : FieldPart → Nat
  | .field reg k i => val ||| (reg.readField P v k s % 2 ^ reg.fieldWidth) <<< (i * reg.fieldWidth)
  | .route k part => val ||| readPart part (VgicReg.readField P .irouter v k s)
  | .sources _ _ _ => val

/-- What a store does to a part. -/
def FieldPart.store (P : VgicPlat) (v vgicrId val : Nat) (s : VgicState) : FieldPart → VgicState
  | .field reg k i =>
      vgicIntSetField P v reg k vgicrId (val >>> (i * reg.fieldWidth) % 2 ^ reg.fieldWidth)
        (some ⟨v, s.issued⟩) { s with issued := s.issued + 1 }
  | .route k part => vgicdEmulRouterAccess P v k part val s
  | .sources _ _ _ => s

/-- The parts of `n` fields from field `i` on. -/
def fieldsFrom (P : VgicPlat) (reg : VgicReg) (first vgicrId i n : Nat) : List FieldPart :=
  (List.range' i n).filterMap fun j =>
    (vgicGetInt P ((first + j) % 2 ^ 32) vgicrId).map fun k => .field reg k j

theorem fieldsFrom_none {reg : VgicReg} {first vgicrId i n : Nat} (hrange : first + i + n ≤ 2 ^ 32)
    (hnone : vgicGetInt P ((first + i) % 2 ^ 32) vgicrId = none) :
    fieldsFrom P reg first vgicrId i n = [] := by
  refine List.filterMap_eq_nil_iff.mpr fun j hj => ?_
  have hj' := List.mem_range'_1.mp hj
  have hlater : vgicGetInt P ((first + j) % 2 ^ 32) vgicrId = none := by
    rw [Nat.mod_eq_of_lt (by omega)] at hnone ⊢
    rw [← Option.not_isSome_iff_eq_none] at hnone ⊢
    exact fun h => hnone (vgicGetInt_lower h (by omega))
  rw [hlater, Option.map_none]

theorem fieldsFrom_some {reg : VgicReg} {first vgicrId i n : Nat} {k : IntKey}
    (hk : vgicGetInt P ((first + i) % 2 ^ 32) vgicrId = some k) :
    fieldsFrom P reg first vgicrId i (n + 1) =
      .field reg k i :: fieldsFrom P reg first vgicrId (i + 1) n := by
  unfold fieldsFrom
  rw [List.range'_succ]
  exact List.filterMap_cons_some (by rw [hk, Option.map_some])

theorem readFields_parts (v : Nat) (reg : VgicReg) (first vgicrId : Nat) (s : VgicState) :
    ∀ n i val, first + i + n ≤ 2 ^ 32 → readFields P v reg first vgicrId s n i val =
      (fieldsFrom P reg first vgicrId i n).foldl (FieldPart.load P v s) val := by
  intro n
  induction n with
  | zero => intro i val _; rfl
  | succ n ih =>
    intro i val hrange
    unfold readFields
    cases hk : vgicGetInt P ((first + i) % 2 ^ 32) vgicrId with
    | none =>
      rw [fieldsFrom_none hrange hk]
      rfl
    | some k =>
      dsimp only
      rw [ih (i + 1) _ (by omega), fieldsFrom_some hk]
      rfl

theorem writeFields_parts (v : Nat) (reg : VgicReg) (first vgicrId val : Nat) :
    ∀ n i s, first + i + n ≤ 2 ^ 32 → writeFields P v reg first vgicrId val n i s =
      (fieldsFrom P reg first vgicrId i n).foldl (FieldPart.store P v vgicrId val) s := by
  intro n
  induction n with
  | zero => intro i s _; rfl
  | succ n ih =>
    intro i s hrange
    unfold writeFields
    cases hk : vgicGetInt P ((first + i) % 2 ^ 32) vgicrId with
    | none =>
      rw [fieldsFrom_none hrange hk]
      rfl
    | some k =>
      dsimp only
      rw [ih (i + 1) _ (by omega), fieldsFrom_some hk]
      rfl

/-- The interrupt numbers of an effect do not wrap around. -/
def RegEffect.inRange : RegEffect → Prop
  | .fields _ first count _ => first + count ≤ 2 ^ 32
  | _ => True

/-- **A load with nothing but fields** returns those of the reached parts. -/
theorem load_parts (ids : VgicIds) (hrange : effect.inRange) (hload : acc.write = false)
    (honly : effect.onlyFields acc.write = true) : effect.perform P ids v acc s =
      (some ((effect.touches P v).foldl (FieldPart.load P v s) 0), s) := by
  rw [hload] at honly
  unfold RegEffect.perform
  rw [hload]
  cases effect with
  | fields reg first count vgicrId =>
    dsimp only
    rw [readFields_parts v reg first vgicrId s count 0 0 hrange, fieldsFrom, ← List.range_eq_range']
    rfl
  | route id part =>
    dsimp only
    unfold RegEffect.touches
    dsimp only
    cases hk : vgicGetInt P id v with
    | none => cases gicIsPriv id <;> rfl
    | some k =>
      have hid : gicIsPriv k.id = gicIsPriv id := by
        rw [vgicGetInt_id hk]
      cases hpriv : gicIsPriv id with
      | false => simp [FieldPart.load]
      | true =>
        dsimp only [VgicReg.readField]
        rw [hid, hpriv, if_pos rfl, if_pos rfl]
        cases part <;> rfl
  | zero => rfl
  | _ => cases honly

/-- **A store with nothing but fields** sets those of the reached parts; one to the
route of a private interrupt only places the interrupt again. -/
theorem store_parts (ids : VgicIds) (hrange : effect.inRange) (hstore : acc.write = true)
    (honly : effect.onlyFields acc.write = true)
    (hshared : ∀ id part, effect = .route id part → gicIsPriv id = false) :
    ∃ vgicrId, effect.perform P ids v acc s =
      (none, (effect.touches P v).foldl (FieldPart.store P v vgicrId acc.val) s) := by
  unfold RegEffect.perform
  rw [hstore]
  cases effect with
  | fields reg first count vgicrId =>
    refine ⟨vgicrId, ?_⟩
    dsimp only
    rw [writeFields_parts v reg first vgicrId acc.val count 0 s hrange, fieldsFrom,
      ← List.range_eq_range']
    rfl
  | route id part =>
    refine ⟨0, ?_⟩
    unfold RegEffect.touches
    dsimp only
    rw [hshared id part rfl]
    cases vgicGetInt P id v <;> rfl
  | zero => exact ⟨0, rfl⟩
  | nothing => exact ⟨0, rfl⟩
  | _ => cases honly

end Parts

/-! ## Exact decoding -/

/-- **Decoding of register accesses.**  An access to a frame is decoded as the
layout says if and only if the masked address stands for the offset in the frame. -/
theorem decode_exact_iff (P : VgicPlat) (frame : GicFrame) (base v : Nat) (acc : EmulAccess)
    (hframe : frame = .redist → P.ver = .gicv3) :
    DecodesExactly P frame base v acc ↔ MaskFits P frame base v acc := by
  have hserves := frame_serves P frame base v acc hframe
  unfold Serves at hserves
  by_cases hallows : (frame.served P.ver base acc).Allows acc
  · rw [if_pos hallows] at hserves
    obtain ⟨effect, hresult, htouches, honly⟩ := hserves
    constructor
    · intro h
      have hthere : (frame.reg P.ver (frame.offset base acc)).Allows acc := by
        by_contra hno
        have hnone := h.refused.mpr hno
        rw [hresult] at hnone
        cases hnone
      refine ⟨⟨fun _ => hthere, fun _ => hallows⟩, fun _ => ?_, fun _ hother => ?_⟩
      · rw [← htouches]
        exact h.reached effect hresult
      · have hall := h.nothingElse effect hresult hother
        rw [honly, Bool.and_eq_true, Bool.not_eq_true', Bool.not_eq_true'] at hall
        exact hall
    · intro h
      refine ⟨?_, fun effect' hresult' => ?_, fun effect' hresult' hother => ?_⟩
      · constructor
        · intro hnone
          rw [hresult] at hnone
          cases hnone
        · intro hno
          exact absurd (h.allowed.mp hallows) hno
      · rw [hresult] at hresult'
        cases hresult'
        rw [htouches]
        exact h.parts hallows
      · rw [hresult] at hresult'
        cases hresult'
        obtain ⟨hserved, hsilent⟩ := h.alone hallows hother
        rw [honly, hserved, hsilent]
        rfl
  · rw [if_neg hallows] at hserves
    constructor
    · intro h
      have hthere : ¬ (frame.reg P.ver (frame.offset base acc)).Allows acc := h.refused.mp hserves
      exact ⟨⟨fun hyes => absurd hyes hallows, fun hyes => absurd hyes hthere⟩,
        fun hyes => absurd hyes hallows, fun hyes => absurd hyes hallows⟩
    · intro h
      refine ⟨⟨fun _ hyes => hallows (h.allowed.mpr hyes), fun _ => hserves⟩, ?_, ?_⟩
      · intro effect hresult
        rw [hserves] at hresult
        cases hresult
      · intro effect hresult
        rw [hserves] at hresult
        cases hresult

theorem gicrServed_same (off : Nat) : gicrServed off off = redistReg off ∨
    ((gicrServed off off).widths = 0x4 ∧ (redistReg off).widths = 0x4 ∧ off % 4 ≠ 0) := by
  unfold gicrServed
  split
  · exact Or.inl rfl
  · rename_i hswitch
    unfold redistReg
    cases hfound : redistArrays.find? fun reg => decide (0x10000 + reg.regroupBase ≤ off ∧
        off < 0x10000 + reg.regroupBase + reg.fieldWidth * 4) with
    | none =>
      left
      dsimp only
      by_cases htyper : 0x8 ≤ off ∧ off < 0x10
      · rw [if_pos htyper]
      · rw [if_neg htyper]
        by_cases hident : 0xFFD0 ≤ off ∧ off < 0x10000
        · rw [if_pos hident]
        · rw [if_neg hident]
    | some reg =>
      have hmem : reg ∈ redistArrays := List.mem_of_find?_eq_some hfound
      have hmatch : 0x10000 + reg.regroupBase ≤ off ∧
          off < 0x10000 + reg.regroupBase + reg.fieldWidth * 4 := by
        simpa only [decide_eq_true_iff] using List.find?_some hfound
      have hword : reg ≠ .ipriorityr → off % 4 ≠ 0 := by
        intro hprio hzero
        refine hswitch ?_
        have hoff : off = 0x10000 + reg.regroupBase ∨ (reg = .icfgr ∧ off = 0x10C04) := by
          cases reg <;> first
            | exact absurd hmem (by decide)
            | exact absurd rfl hprio
            | (simp only [VgicReg.regroupBase, VgicReg.fieldWidth, reduceCtorEq, false_and, or_false,
                true_and] at hmatch ⊢
               omega)
        obtain hoff | ⟨-, hoff⟩ := hoff
        · rw [hoff]
          cases reg <;> first | rfl | exact absurd rfl hprio | exact absurd hmem (by decide)
        · rw [hoff]
          rfl
      cases reg <;> first
        | exact Or.inl rfl
        | exact absurd hmem (by decide)
        | exact Or.inr ⟨rfl, rfl, hword (by decide)⟩

theorem maskFits_redist {P : VgicPlat} {base v : Nat} {acc : EmulAccess} (hver : P.ver = .gicv3)
    (hbase : base % gicrSize = 0) (hin : base ≤ acc.addr) : MaskFits P .redist base v acc := by
  have hsize : gicrSize = 0x20000 := rfl
  rw [hsize] at hbase
  have hmasked : acc.addr % gicrSize = (acc.addr - base) % gicrSize := by
    rw [hsize]
    omega
  have hpos : gicdRegMask P.ver acc.addr = (acc.addr - base) % gicrSize % 0x10000 := by
    rw [hver, hsize]
    change acc.addr % 0x10000 = _
    omega
  have hserved : GicFrame.redist.served P.ver base acc =
      gicrServed ((acc.addr - base) % gicrSize) ((acc.addr - base) % gicrSize) := by
    change gicrServed (acc.addr % gicrSize) _ = _
    rw [hmasked]
    rfl
  have hparts : GicFrame.redist.assigned P base v acc =
      (redistReg ((acc.addr - base) % gicrSize)).parts P true ((acc.addr - base) / gicrSize)
        ((acc.addr - base) % gicrSize % 0x10000) acc.width := rfl
  have hreg : GicFrame.redist.reg P.ver (GicFrame.redist.offset base acc) =
      redistReg ((acc.addr - base) % gicrSize) := rfl
  have hsilent : GicFrame.redist.silent P.ver acc = false := rfl
  have hwidths : (gicrServed ((acc.addr - base) % gicrSize) ((acc.addr - base) % gicrSize)).widths =
      (redistReg ((acc.addr - base) % gicrSize)).widths := by
    obtain hsame | ⟨hfour, hfour', -⟩ := gicrServed_same ((acc.addr - base) % gicrSize)
    · rw [hsame]
    · rw [hfour, hfour']
  have hsame : (GicFrame.redist.served P.ver base acc).Allows acc →
      gicrServed ((acc.addr - base) % gicrSize) ((acc.addr - base) % gicrSize) =
        redistReg ((acc.addr - base) % gicrSize) := by
    intro hallows
    obtain hsame | ⟨hfour, -, hword⟩ := gicrServed_same ((acc.addr - base) % gicrSize)
    · exact hsame
    · exfalso
      rw [hserved] at hallows
      obtain ⟨hwidth, haligned⟩ := hallows
      rw [hfour] at hwidth
      obtain hw | ⟨-, hno⟩ := width_of_mask (Or.inl rfl) hwidth
      · rw [hw] at haligned
        rw [hsize] at hword
        omega
      · cases hno
  refine ⟨?_, fun hallows => ?_, fun hallows hother => ⟨?_, hsilent⟩⟩
  · rw [hserved, hreg]
    unfold FrameReg.Allows
    rw [hwidths]
  · rw [hserved, hparts, hpos, hsame hallows]
    rfl
  · rw [hserved, hsame hallows]
    exact hother

/-- An enable register of the second of two redistributors at 128 KiB. -/
theorem decode_exact_iff_isenabler : DecodesExactly (twoCpuGic .gicv3 1 fun _ => false) .redist
    0x20000 0 { addr := 0x50100, sas := 2, write := false, val := 0 } :=
  (decode_exact_iff _ .redist 0x20000 0 _ fun _ => rfl).mpr (maskFits_redist rfl rfl (by decide))

/-- A GICv3 with all interrupts that the layout has room for. -/
def fullGic : VgicPlat := { twoCpuGic .gicv3 1 (fun _ => false) with intNum := 1020 }

/-- The load of `ICFGR32`, with the distributor at 64 KiB. -/
def icfgrLoad : EmulAccess := { addr := 0x10C80, sas := 2, write := false, val := 0 }

/-- The load of `ICFGR32` reaches none of the interrupts from 512 on. -/
theorem decode_not_exact : ¬ DecodesExactly fullGic .dist 0x10000 0 icfgrLoad := by
  intro h
  have hreached := h.reached .zero (by decide)
  revert hreached
  decide +kernel

end Bao

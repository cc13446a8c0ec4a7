import BaoHypervisor.VgicSystem
import Mathlib.Data.Nat.Bitwise

/-!
# Emulated accesses to the distributor and the redistributors

`vgicd_emul_handler` of `vgic.c` and `vgicr_emul_handler` of `vgicv3.c` find a
handler for the address, check width and alignment, and the handler finds the
fields of interrupts that the access covers.  Here the two steps give a
`RegEffect`, which says what is read or written, and `RegEffect.perform` does it.
-/

namespace Bao

/-- A guest's load or store: the address, the size code of the abort, and the
value of the register for a store. -/
structure EmulAccess where
  addr : Nat
  sas : Fin 4
  write : Bool
  val : Nat

/-- `width`. -/
def EmulAccess.width (acc : EmulAccess) : Nat := 2 ^ acc.sas.val

/-- What emulated registers read that are not fields of interrupts: `TYPER`,
`IIDR` and the identification registers. -/
structure VgicIds where
  typer : Nat
  iidr : Nat
  ident : Nat → Nat
  gicrTyper : Nat → Nat
  gicrIdent : Nat → Nat → Nat

/-- The size of the address range that `GICD_REG_MASK` keeps. -/
def GicVersion.regRange : GicVersion → Nat
  | .gicv2 => 0x1000
  | .gicv3 => 0x10000

/-- `GICD_REG_MASK`. -/
def gicdRegMask (ver : GicVersion) (addr : Nat) : Nat := addr % ver.regRange

/-- `regroup_base`, the offset of the array in `struct gicd_hw`. -/
def VgicReg.regroupBase : VgicReg → Nat
  | .isenabler => 0x100
  | .icenabler => 0x180
  | .ispendr => 0x200
  | .icpendr => 0x280
  | .isactiver => 0x300
  | .icactiver => 0x380
  | .ipriorityr => 0x400
  | .itargetsr => 0x800
  | .icfgr => 0xC00
  | .irouter => 0x6000

/-- The bytes of the array, which has a field for each of 1024 interrupts. -/
def VgicReg.regSize (reg : VgicReg) : Nat := reg.fieldWidth * 1024 / 8

/-- `GICD_IS_REG`. -/
def gicdIsReg (reg : VgicReg) (offset : Nat) : Bool :=
  decide (reg.regroupBase ≤ offset) && decide (offset < reg.regroupBase + reg.regSize)

/-- `GICD_REG_GROUP`. -/
def gicdRegGroup (offset : Nat) : Nat := offset % 0x10000 / 0x80

/-- The offset of `SGIR`. -/
def sgirOffset : Nat := 0xF00

/-- The offset of `ID`, up to the end of `struct gicd_hw`. -/
def identOffset : Nat := 0xFFD0

/-- `struct vgic_reg_handler_info`, by the function in it; that of
`vgic_emul_razwi` has several alignments. -/
inductive RegHandler
  | misc
  | field (reg : VgicReg)
  | router
  | pidr
  | sgiregs
  | razwi (alignment : Nat)
  | gicrTyper
  | gicrPidr
deriving DecidableEq

/-- `alignment`: the widths that are allowed, as a mask. -/
def RegHandler.alignment : RegHandler → Nat
  | .field .ipriorityr => 0x5
  | .field .itargetsr => 0x5
  | .router => 0xC
  | .gicrTyper => 0xC
  | .razwi alignment => alignment
  | _ => 0x4

/-- `vgic_check_reg_alignment`. -/
def vgicCheckRegAlignment (acc : EmulAccess) (handler : RegHandler) : Bool :=
  decide (handler.alignment &&& acc.width ≠ 0) && decide (acc.addr % acc.width = 0)

/-- The register arrays that `vgicd_emul_handler` finds by their group. -/
def groupRegs : List VgicReg :=
  [.isenabler, .ispendr, .isactiver, .icenabler, .icpendr, .icactiver, .icfgr]

/-- The search of `vgicd_emul_handler`, at the masked address. -/
def gicdHandler (ver : GicVersion) (offset : Nat) : RegHandler :=
  let group := offset / 0x80
  if group = gicdRegGroup 0 then .misc
  else match groupRegs.find? fun reg => decide (group = gicdRegGroup reg.regroupBase) with
    | some reg => .field reg
    | none =>
        if group = gicdRegGroup sgirOffset then
          match ver with
          | .gicv2 => .sgiregs
          | .gicv3 => .razwi 0x4
        else if gicdIsReg .ipriorityr offset then .field .ipriorityr
        else if gicdIsReg .itargetsr offset then
          match ver with
          | .gicv2 => .field .itargetsr
          | .gicv3 => .razwi 0x5
        else if gicdIsReg .irouter offset then
          match ver with
          | .gicv2 => .razwi 0x4
          | .gicv3 => .router
        else if identOffset ≤ offset then .pidr
        else .razwi 0x4

/-- The size of `struct gicr_hw`, whose second half is the frame of the private
interrupts. -/
def gicrSize : Nat := 0x20000

/-- The registers of `struct gicr_hw` that `vgicr_emul_handler` finds by their
exact offset. -/
def gicrSwitch : List (Nat × RegHandler) :=
  [(0x0, .razwi 0x4), (0x10100, .field .isenabler), (0x10200, .field .ispendr),
    (0x10300, .field .isactiver), (0x10180, .field .icenabler), (0x10280, .field .icpendr),
    (0x10380, .field .icactiver), (0x10C00, .field .icfgr), (0x10C04, .field .icfgr)]

/-- The search of `vgicr_emul_handler`: the switch is on the masked address, the
rest on the offset in the redistributor. -/
def gicrHandler (masked offset : Nat) : RegHandler :=
  match gicrSwitch.lookup masked with
  | some handler => handler
  | none =>
      if 0x8 ≤ offset ∧ offset < 0x10 then .gicrTyper
      else if 0x10400 ≤ offset ∧ offset < 0x10420 then .field .ipriorityr
      else if 0xFFD0 ≤ offset ∧ offset < 0x10000 then .gicrPidr
      else .razwi 0x4

/-- What an access does once it is not refused. -/
inductive RegEffect
  | fields (reg : VgicReg) (first count vgicrId : Nat)
  | route (id : Nat) (part : RouterAccess)
  | control
  | typer
  | iidr
  | ident (i : Nat)
  | gicrTyper (vgicrId : Nat) (part : RouterAccess)
  | gicrIdent (vgicrId i : Nat)
  | sgi
  | zero
  | nothing
deriving DecidableEq

variable (P : VgicPlat)

/-- `word_access` and `top_access`. -/
def routerPart (acc : EmulAccess) : RouterAccess :=
  if acc.width = 4 then
    if acc.addr.testBit 2 then .top else .word
  else .full

/-- `first_int` of `vgic_emul_generic_access`, in the arithmetic of its type. -/
def firstInt (ver : GicVersion) (reg : VgicReg) (addr : Nat) : Nat :=
  (gicdRegMask ver addr + 2 ^ 64 - reg.regroupBase) % 2 ^ 64 * 8 % 2 ^ 64 / reg.fieldWidth

/-- The fields of `vgic_emul_generic_access`.  Without a first interrupt its loop
ends at once. -/
def genericEffect (reg : VgicReg) (acc : EmulAccess) (gicrAccess : Bool) (vgicrId : Nat) :
    RegEffect :=
  let first := firstInt P.ver reg acc.addr
  let validAccess := decide (P.ver = .gicv2) || gicrAccess == gicIsPriv (first % 2 ^ 32)
  if validAccess && (vgicGetInt P (first % 2 ^ 32) vgicrId).isSome then
    .fields reg first (acc.width * 8 / reg.fieldWidth) vgicrId
  else .zero

/-- The route of `vgicd_emul_router_access`. -/
def routerEffect (acc : EmulAccess) (v : Nat) : RegEffect :=
  let irqId := (gicdRegMask P.ver (acc.addr / 8 * 8) - VgicReg.regroupBase .irouter) / 8
  if (vgicGetInt P irqId v).isSome then .route irqId (routerPart acc) else .zero

/-- What a handler does for an access to the distributor or to the
redistributor `vgicrId`. -/
def RegHandler.effect (handler : RegHandler) (acc : EmulAccess) (v : Nat) (gicrAccess : Bool)
    (vgicrId : Nat) : RegEffect :=
  match handler with
  | .misc =>
      if acc.addr % 0x80 = 0x0 then .control
      else if acc.addr % 0x80 = 0x4 then .typer
      else if acc.addr % 0x80 = 0x8 then .iidr
      else .zero
  | .field reg => genericEffect P reg acc gicrAccess vgicrId
  | .router => routerEffect P acc v
  | .pidr => .ident ((acc.addr % 0x100 - 0xd0) / 4)
  | .sgiregs => if acc.addr % 0x1000 = sgirOffset then .sgi else .nothing
  | .razwi _ => .zero
  | .gicrTyper => .gicrTyper vgicrId (routerPart acc)
  | .gicrPidr => .gicrIdent vgicrId ((acc.addr % 0x100 - 0xd0) / 4)

/-- `vgicd_emul_handler` of vCPU `v`: nothing if the access is refused. -/
def vgicdEmulHandler (v : Nat) (acc : EmulAccess) : Option RegEffect :=
  let handler := gicdHandler P.ver (gicdRegMask P.ver acc.addr)
  if vgicCheckRegAlignment acc handler then some (handler.effect P acc v false v) else none

/-- `vgicr_emul_handler`, with the redistributors of the VM from `vgicrAddr` on. -/
def vgicrEmulHandler (vgicrAddr v : Nat) (acc : EmulAccess) : Option RegEffect :=
  let handler := gicrHandler (acc.addr % gicrSize) ((acc.addr - vgicrAddr) % gicrSize)
  if vgicCheckRegAlignment acc handler then
    some (handler.effect P acc v true ((acc.addr - vgicrAddr) / gicrSize))
  else none

/-! ## What an effect reads and writes -/

/-- `vm_translate_to_vcpu_mask`, in the eight bits a target field has. -/
def vmTranslateToVcpuMask (mask : Nat) : Nat :=
  ((List.range 8).filter fun i => mask.testBit i).foldl
    (fun vmask i => match (List.range P.vcpuNum).find? fun w => decide (P.physId w = i) with
      | some w => vmask ||| 1 <<< w
      | none => vmask) 0

/-- `read_field` of a register handler. -/
def VgicReg.readField (reg : VgicReg) (v : Nat) (k : IntKey) (s : VgicState) : Nat :=
  match reg with
  | .isenabler => (s.ints k).enabled.toNat
  | .icenabler => (s.ints k).enabled.toNat
  | .ispendr => (s.ints k).state.pending.toNat
  | .icpendr => (s.ints k).state.pending.toNat
  | .isactiver => (s.ints k).state.active.toNat
  | .icactiver => (s.ints k).state.active.toNat
  | .icfgr => (s.ints k).cfg
  | .ipriorityr => (s.ints k).prio
  | .itargetsr =>
      if gicIsPriv k.id then 1 <<< v else vmTranslateToVcpuMask P (s.ints k).targets
  | .irouter => if gicIsPriv k.id then 0 else (s.ints k).route

/-- The loop of `vgic_emul_generic_access` for a load, from field `i` on. -/
def readFields (v : Nat) (reg : VgicReg) (first vgicrId : Nat) (s : VgicState) :
    Nat → Nat → Nat → Nat
  | 0, _, val => val
  | n + 1, i, val =>
      match vgicGetInt P ((first + i) % 2 ^ 32) vgicrId with
      | none => val
      | some k => readFields v reg first vgicrId s n (i + 1)
          (val ||| (reg.readField P v k s % 2 ^ reg.fieldWidth) <<< (i * reg.fieldWidth))

/-- The same loop for a store. -/
def writeFields (v : Nat) (reg : VgicReg) (first vgicrId val : Nat) :
    Nat → Nat → VgicState → VgicState
  | 0, _, s => s
  | n + 1, i, s =>
      match vgicGetInt P ((first + i) % 2 ^ 32) vgicrId with
      | none => s
      | some k => writeFields v reg first vgicrId val n (i + 1)
          (vgicIntSetField P v reg k vgicrId
            (val >>> (i * reg.fieldWidth) % 2 ^ reg.fieldWidth) (some ⟨v, s.issued⟩)
            { s with issued := s.issued + 1 })

/-- The part of a 64-bit register that a load covers. -/
def readPart (part : RouterAccess) (value : Nat) : Nat :=
  match part with
  | .top => value / 2 ^ 32 % 2 ^ 32
  | .word => value % 2 ^ 32
  | .full => value

/-- `vgicd_emul_sgiregs_access` for a store to `SGIR`; the masks of the second and
third filter are made with 32 bits. -/
def vgicdWriteSgir (v val : Nat) (s : VgicState) : VgicState :=
  let send := fun mask => vgicSendSgiMsg P v mask (val % 16) s
  match val / 2 ^ 24 % 4 with
  | 0 => send (vmTranslateToPcpuMask P (val / 2 ^ 16 % 2 ^ 8))
  | 1 => send (((vmCpus P).filter fun c => decide (c < 32 ∧ c ≠ P.physId v)).foldl
      (fun mask c => mask ||| 1 <<< c) 0)
  | 2 => send (1 <<< P.physId v)
  | _ => s

/-- `VGIC_ENABLE_MASK`. -/
def GicVersion.enableMask : GicVersion → Nat
  | .gicv2 => 0x1
  | .gicv3 => 0x2

/-- What an access does to the guest's register, if it is written, and to the
vGIC. -/
def RegEffect.perform (ids : VgicIds) (v : Nat) (acc : EmulAccess) (effect : RegEffect)
    (s : VgicState) : Option Nat × VgicState :=
  match acc.write, effect with
  | false, .fields reg first count vgicrId => (some (readFields P v reg first vgicrId s count 0 0), s)
  | true, .fields reg first count vgicrId =>
      (none, writeFields P v reg first vgicrId acc.val count 0 s)
  | false, .route id part =>
      (match vgicGetInt P id v with
        | some k => some (readPart part (VgicReg.readField P .irouter v k s))
        | none => some 0, s)
  | true, .route id part =>
      (none, match vgicGetInt P id v with
        | some k => vgicdEmulRouterAccess P v k part acc.val s
        | none => s)
  | false, .control => (some ((if s.ctlr then P.ver.enableMask else 0) ||| 0x10), s)
  | true, .control => (none, vgicdWriteCtlr P v (decide (acc.val &&& P.ver.enableMask ≠ 0)) s)
  | false, .typer => (some ids.typer, s)
  | false, .iidr => (some ids.iidr, s)
  | false, .ident i => (some (ids.ident i), s)
  | false, .gicrTyper vgicrId part => (some (readPart part (ids.gicrTyper vgicrId)), s)
  | false, .gicrIdent vgicrId i => (some (ids.gicrIdent vgicrId i), s)
  | true, .sgi => (none, vgicdWriteSgir P v acc.val s)
  | false, .zero => (some 0, s)
  | _, _ => (none, s)

/-! ## The value of a load -/

section Loads

variable {P} {v vgicrId : Nat} {reg : VgicReg} {k : IntKey} {s : VgicState}

theorem vgicGetInt_lower {id id' : Nat} (h : (vgicGetInt P id vgicrId).isSome = true)
    (hle : id' ≤ id) : (vgicGetInt P id' vgicrId).isSome = true := by
  unfold vgicGetInt at h ⊢
  by_cases hpriv' : id' < gicCpuPriv
  · rw [if_pos hpriv']
    rfl
  · have hpriv : ¬ id < gicCpuPriv := fun hlt => hpriv' (Nat.lt_of_le_of_lt hle hlt)
    rw [if_neg hpriv] at h
    rw [if_neg hpriv']
    by_cases hint : id < P.intNum
    · rw [if_pos (Nat.lt_of_le_of_lt hle hint)]
      rfl
    · rw [if_neg hint] at h
      cases h

theorem field_testBit {width : Nat} (hwidth : 0 < width) (x i p : Nat) :
    ((x % 2 ^ width) <<< (i * width)).testBit p =
      (decide (p / width = i) && x.testBit (p % width)) := by
  rw [Nat.testBit_shiftLeft, Nat.testBit_mod_two_pow]
  by_cases hi : p / width = i
  · have hp : i * width + p % width = p := by
      rw [← hi, Nat.mul_comm]
      exact Nat.div_add_mod p width
    have hlt := Nat.mod_lt p hwidth
    have hle : i * width ≤ p := by omega
    have hsub : p - i * width = p % width := by omega
    simp [hi, hle, hsub, hlt]
  · have hno : ¬ (i * width ≤ p ∧ p - i * width < width) := by
      intro h
      have hlow : i ≤ p / width := (Nat.le_div_iff_mul_le hwidth).mpr h.1
      have hsucc : (i + 1) * width = i * width + width := Nat.succ_mul i width
      have hhigh : p / width < i + 1 := (Nat.div_lt_iff_lt_mul hwidth).mpr (by omega)
      exact hi (by omega)
    by_cases hle : i * width ≤ p
    · have hge : ¬ p - i * width < width := fun hlt => hno ⟨hle, hlt⟩
      simp [hi, hge]
    · simp [hi, hle]

/-- **The bits of a load**: bit by bit the fields of the interrupts from the first
on, as long as there are interrupts. -/
theorem readFields_testBit (v : Nat) (reg : VgicReg) (first vgicrId : Nat) (s : VgicState) (p : Nat) :
    ∀ n i val, first + i + n ≤ 2 ^ 32 →
      (readFields P v reg first vgicrId s n i val).testBit p =
        (val.testBit p || (decide (i ≤ p / reg.fieldWidth ∧ p / reg.fieldWidth < i + n) &&
          (vgicGetInt P (first + p / reg.fieldWidth) vgicrId).any fun k =>
            (reg.readField P v k s).testBit (p % reg.fieldWidth))) := by
  have hwidth : 0 < reg.fieldWidth := by cases reg <;> decide
  intro n
  induction n with
  | zero =>
    intro i val _
    have hno : ¬ (i ≤ p / reg.fieldWidth ∧ p / reg.fieldWidth < i + 0) := by omega
    rw [readFields, decide_eq_false hno, Bool.false_and, Bool.or_false]
  | succ n ih =>
    intro i val hbound
    have hid : (first + i) % 2 ^ 32 = first + i := Nat.mod_eq_of_lt (by omega)
    rw [readFields, hid]
    cases hk : vgicGetInt P (first + i) vgicrId with
    | none =>
      -- no later interrupt exists either
      have hnone : (decide (i ≤ p / reg.fieldWidth ∧ p / reg.fieldWidth < i + (n + 1)) &&
          (vgicGetInt P (first + p / reg.fieldWidth) vgicrId).any fun k =>
            (reg.readField P v k s).testBit (p % reg.fieldWidth)) = false := by
        by_cases hle : i ≤ p / reg.fieldWidth
        · have hlate : vgicGetInt P (first + p / reg.fieldWidth) vgicrId = none := by
            rw [← Option.not_isSome_iff_eq_none]
            intro hsome
            have hearly := vgicGetInt_lower hsome (Nat.add_le_add_left hle first)
            rw [hk] at hearly
            cases hearly
          rw [hlate, Option.any_none, Bool.and_false]
        · rw [decide_eq_false fun h => hle h.1, Bool.false_and]
      rw [hnone, Bool.or_false]
    | some k =>
      dsimp only
      rw [ih (i + 1) _ (by omega), Nat.testBit_or, field_testBit hwidth, Bool.or_assoc]
      congr 1
      by_cases hi : p / reg.fieldWidth = i
      · have hlater : ¬ (i + 1 ≤ i ∧ i < i + 1 + n) := by omega
        have hnow : i ≤ i ∧ i < i + (n + 1) := by omega
        rw [hi, decide_eq_false hlater, decide_eq_true hnow, hk]
        simp
      · have hsame : (i + 1 ≤ p / reg.fieldWidth ∧ p / reg.fieldWidth < i + 1 + n) ↔
            (i ≤ p / reg.fieldWidth ∧ p / reg.fieldWidth < i + (n + 1)) := by omega
        rw [decide_eq_false hi, Bool.false_and, Bool.false_or, decide_eq_decide.mpr hsame]

end Loads

end Bao

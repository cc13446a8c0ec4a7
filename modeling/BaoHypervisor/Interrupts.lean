import BaoHypervisor.Bitmap
import BaoHypervisor.StepSystem

/-!
# Interrupt ownership

`core/interrupts.c` with the Arm hooks of `arch/armv8/interrupts.c`: the
hypervisor reserves interrupt lines and registers handlers for them, and the
VMs are assigned the lines of their devices.  One global bitmap, one bitmap a
VM and the handler table record who owns what.  The hook that decides whether
a line may be assigned exempts every line up to and including `GIC_CPU_PRIV`,
while the lines private to a CPU are those strictly below it.
-/

namespace Bao

open BitMemory

/-- `INVALID_IRQID`. -/
def invalidIrqid : Nat := 2 ^ 32 - 1

/-- `GIC_MAX_INTERUPTS`. -/
def gicMaxInterupts : Nat := 1024

/-- `GIC_CPU_PRIV`, that is `GIC_MAX_SGIS + GIC_MAX_PPIS`. -/
def gicCpuPriv : Nat := 16 + 16

/-- What the architecture supplies: its constants and hooks.  `σ` is the
architecture's own state. -/
structure ArchInterrupts (σ : Type) where
  maxInterruptLines : Nat
  maxInterruptHandlers : Nat
  irqIsForwardable : Nat → Bool
  conflict : Store → Nat → Bool
  reserve : Nat → Nat
  vmAssign : σ → Nat → Nat → σ

/-- `interrupts_arch_conflict` on Arm. -/
def interruptsArchConflict (interruptBitmap : Store) (intId : Nat) : Bool :=
  bitmapGet interruptBitmap 0 intId && decide (gicCpuPriv < intId)

/-- `interrupts_arch_reserve` on Arm. -/
def interruptsArchReserve (pintId : Nat) : Nat := pintId

/-- The hooks of the Arm port; `vgicSetHw` is the effect of `vgic_set_hw` on
the virtual interrupt controllers of the VMs. -/
def armInterrupts {σ : Type} (vgicSetHw : σ → Nat → Nat → σ) : ArchInterrupts σ where
  maxInterruptLines := gicMaxInterupts
  maxInterruptHandlers := gicMaxInterupts
  irqIsForwardable := fun _ => true
  conflict := interruptsArchConflict
  reserve := interruptsArchReserve
  vmAssign := vgicSetHw

/-- `global_interrupt_bitmap`, the `interrupt_bitmap` of every VM,
`interrupt_handlers` and the state of the architecture.  A handler that is
`none` is `NULL`. -/
structure InterruptState (H σ : Type) where
  globalBitmap : Store
  vmBitmap : Nat → Store
  handlers : Nat → Option H
  arch : σ

/-- `enum irq_res`; `unknown` is the path into `ERROR`, which does not return. -/
inductive IrqRes (H : Type)
  | forwardToVm
  | handledByHyp (handler : H)
  | unknown
deriving DecidableEq

variable {H σ : Type}

/-- `vm_has_interrupt`. -/
def InterruptState.vmHasInterrupt (s : InterruptState H σ) (vm intId : Nat) : Bool :=
  bitmapGet (s.vmBitmap vm) 0 intId

/-- `interrupt_assigned`. -/
def InterruptState.interruptAssigned (s : InterruptState H σ) (intId : Nat) : Bool :=
  bitmapGet s.globalBitmap 0 intId

/-- `interrupts_handle` on a CPU that runs `vm`. -/
def interruptsHandle (A : ArchInterrupts σ) (s : InterruptState H σ) (vm intId : Nat) :
    IrqRes H :=
  if A.irqIsForwardable intId && s.vmHasInterrupt vm intId then .forwardToVm
  else
    match if intId < A.maxInterruptHandlers then s.handlers intId else none with
    | some handler => .handledByHyp handler
    | none => .unknown

/-- `interrupts_vm_assign`. -/
def interruptsVmAssign (A : ArchInterrupts σ) (s : InterruptState H σ) (vm id : Nat) :
    Bool × InterruptState H σ :=
  if A.conflict s.globalBitmap id then (false, s)
  else
    (true,
      { s with
        arch := A.vmAssign s.arch vm id
        vmBitmap := fun v =>
          if v = vm then bitmapSet (s.vmBitmap vm) 0 id else s.vmBitmap v
        globalBitmap := bitmapSet s.globalBitmap 0 id })

/-- `interrupts_reserve`. -/
def interruptsReserve (A : ArchInterrupts σ) (s : InterruptState H σ) (pintId : Nat)
    (handler : Option H) : Nat × InterruptState H σ :=
  if pintId < A.maxInterruptLines ∧ s.interruptAssigned pintId = false then
    let s1 := { s with globalBitmap := bitmapSet s.globalBitmap 0 pintId }
    let tmpId := A.reserve pintId
    if tmpId ≠ invalidIrqid ∧ tmpId < A.maxInterruptHandlers then
      (tmpId,
        { s1 with handlers := fun i => if i = tmpId then handler else s1.handlers i })
    else (invalidIrqid, s1)
  else (invalidIrqid, s)

/-! ## What one call does on Arm -/

section Arm

variable {vgicSetHw : σ → Nat → Nat → σ} {s s' : InterruptState H σ}

@[simp] theorem bitmapSet_apply (m : Store) (id b : Nat) :
    bitmapSet m 0 id b = (decide (b = id) || m b) := by
  rw [bitmapSet_eq]
  by_cases hb : b = id
  · rw [hb, fill_inside (by omega) (by omega)]
    simp
  · rw [fill_other (by omega)]
    simp [hb]

theorem interruptsArchConflict_iff {m : Store} {id : Nat} :
    interruptsArchConflict m id = true ↔ m id = true ∧ gicCpuPriv < id := by
  simp [interruptsArchConflict]

/-- **`interrupts_vm_assign` on Arm.**  It fails and changes nothing, or it
sets the line's bit in the bitmap of the VM and in the global one. -/
theorem interruptsVmAssign_cases {vm id : Nat} {r : Bool}
    (h : interruptsVmAssign (armInterrupts vgicSetHw) s vm id = (r, s')) :
    (r = false ∧ s' = s ∧ s.globalBitmap id = true ∧ gicCpuPriv < id) ∨
    (r = true ∧ (s.globalBitmap id = false ∨ id ≤ gicCpuPriv) ∧
      s'.handlers = s.handlers ∧
      (∀ b, s'.globalBitmap b = (decide (b = id) || s.globalBitmap b)) ∧
      ∀ v b, s'.vmBitmap v b = (decide (v = vm ∧ b = id) || s.vmBitmap v b)) := by
  by_cases hconf : interruptsArchConflict s.globalBitmap id = true
  · rw [interruptsVmAssign, armInterrupts, if_pos hconf] at h
    obtain ⟨rfl, rfl⟩ := Prod.mk.inj h
    exact .inl ⟨rfl, rfl, interruptsArchConflict_iff.mp hconf⟩
  · rw [interruptsVmAssign, armInterrupts, if_neg hconf] at h
    obtain ⟨rfl, rfl⟩ := Prod.mk.inj h
    refine .inr ⟨rfl, ?_, rfl, fun b => bitmapSet_apply _ _ _, fun v b => ?_⟩
    · cases hbit : s.globalBitmap id with
      | false => exact .inl rfl
      | true =>
          refine .inr (Nat.le_of_not_lt fun hlt => hconf ?_)
          exact interruptsArchConflict_iff.mpr ⟨hbit, hlt⟩
    · by_cases hv : v = vm
      · simp [hv]
      · simp [hv]

/-- **`interrupts_reserve` on Arm.**  It fails and changes nothing, or it takes
a free line and registers the handler under the line's own number. -/
theorem interruptsReserve_cases {pintId r : Nat} {handler : Option H}
    (h : interruptsReserve (armInterrupts vgicSetHw) s pintId handler = (r, s')) :
    (r = invalidIrqid ∧ s' = s) ∨
    (r = pintId ∧ r ≠ invalidIrqid ∧ s.globalBitmap pintId = false ∧
      s'.vmBitmap = s.vmBitmap ∧
      (∀ b, s'.globalBitmap b = (decide (b = pintId) || s.globalBitmap b)) ∧
      ∀ b, s'.handlers b = if b = pintId then handler else s.handlers b) := by
  by_cases hfree : pintId < (armInterrupts vgicSetHw).maxInterruptLines ∧
      s.interruptAssigned pintId = false
  · have hvalid : (armInterrupts vgicSetHw).reserve pintId ≠ invalidIrqid ∧
        (armInterrupts vgicSetHw).reserve pintId <
          (armInterrupts vgicSetHw).maxInterruptHandlers := by
      obtain ⟨hlt, _⟩ := hfree
      simp only [armInterrupts, interruptsArchReserve, gicMaxInterupts, invalidIrqid] at hlt ⊢
      omega
    rw [interruptsReserve, if_pos hfree] at h
    simp only at h
    rw [if_pos hvalid] at h
    obtain ⟨rfl, rfl⟩ := Prod.mk.inj h
    refine .inr ⟨rfl, hvalid.1, ?_, rfl, fun b => bitmapSet_apply _ _ _, fun b => rfl⟩
    simpa [InterruptState.interruptAssigned] using hfree.2
  · rw [interruptsReserve, if_neg hfree] at h
    obtain ⟨rfl, rfl⟩ := Prod.mk.inj h
    exact .inl ⟨rfl, rfl⟩

theorem interruptsVmAssign_failed {vm id : Nat}
    (h : (interruptsVmAssign (armInterrupts vgicSetHw) s vm id).1 = false) :
    (interruptsVmAssign (armInterrupts vgicSetHw) s vm id).2 = s := by
  obtain ⟨r, s', hcall⟩ :
      ∃ r s', interruptsVmAssign (armInterrupts vgicSetHw) s vm id = (r, s') := ⟨_, _, rfl⟩
  rw [hcall] at h ⊢
  obtain ⟨_, hsame, _⟩ | ⟨htrue, _⟩ := interruptsVmAssign_cases hcall
  · exact hsame
  · rw [htrue] at h
    cases h

theorem interruptsReserve_failed {pintId : Nat} {handler : Option H}
    (h : (interruptsReserve (armInterrupts vgicSetHw) s pintId handler).1 = invalidIrqid) :
    (interruptsReserve (armInterrupts vgicSetHw) s pintId handler).2 = s := by
  obtain ⟨r, s', hcall⟩ :
      ∃ r s', interruptsReserve (armInterrupts vgicSetHw) s pintId handler = (r, s') :=
    ⟨_, _, rfl⟩
  rw [hcall] at h ⊢
  obtain ⟨_, hsame⟩ | ⟨_, hvalid, _⟩ := interruptsReserve_cases hcall
  · exact hsame
  · exact (hvalid h).elim

end Arm

/-! ## Runs of reservations and assignments -/

/-- The interrupt state, with the lines whose reservation succeeded. -/
structure OwnershipState (H σ : Type) where
  irq : InterruptState H σ
  reserved : List Nat

/-- The calls of one run. -/
inductive OwnershipEvent (H : Type)
  | reserve (pintId : Nat) (handler : Option H)
  | vmAssign (vm id : Nat)

/-- One call.  Assignments name lines the bitmaps have a bit for. -/
inductive OwnershipStep (vgicSetHw : σ → Nat → Nat → σ) :
    OwnershipState H σ → OwnershipEvent H → OwnershipState H σ → Prop
  | reserve {s : OwnershipState H σ} {pintId r : Nat} {handler : Option H}
      {irq : InterruptState H σ}
      (hcall : interruptsReserve (armInterrupts vgicSetHw) s.irq pintId handler = (r, irq)) :
      OwnershipStep vgicSetHw s (.reserve pintId handler)
        ⟨irq, if r = invalidIrqid then s.reserved else r :: s.reserved⟩
  | vmAssign {s : OwnershipState H σ} {vm id : Nat} {r : Bool} {irq : InterruptState H σ}
      (hid : id < gicMaxInterupts)
      (hcall : interruptsVmAssign (armInterrupts vgicSetHw) s.irq vm id = (r, irq)) :
      OwnershipStep vgicSetHw s (.vmAssign vm id) ⟨irq, s.reserved⟩

/-- All bitmaps and the handler table are clear at boot. -/
structure Unowned (s : OwnershipState H σ) : Prop where
  globalBitmap : s.irq.globalBitmap = fun _ => false
  vmBitmap : s.irq.vmBitmap = fun _ _ => false
  handlers : s.irq.handlers = fun _ => none
  reserved : s.reserved = []

/-- The system of reservations and assignments. -/
def ownershipSystem (H : Type) (vgicSetHw : σ → Nat → Nat → σ) :
    StepSystem (OwnershipState H σ) (OwnershipEvent H) where
  init := Unowned
  step := OwnershipStep vgicSetHw

/-- The calls on which the exemption of the conflict check does no harm: an
assigned private line has no handler, and line `GIC_CPU_PRIV` is neither
reserved nor held by another VM. -/
def ExemptionHarmless (s : OwnershipState H σ) : OwnershipEvent H → Prop
  | .reserve _ _ => True
  | .vmAssign vm id =>
      (id < gicCpuPriv → s.irq.handlers id = none) ∧
      (id = gicCpuPriv → id ∉ s.reserved ∧
        ∀ v, v ≠ vm → s.irq.vmHasInterrupt v id = false)

/-- Who owns a line, as the bitmaps, the handler table and the history of
reservations record it. -/
structure Owned (s : OwnershipState H σ) : Prop where
  vm_global : ∀ v id, s.irq.vmBitmap v id = true → s.irq.globalBitmap id = true
  reserved_global : ∀ id, id ∈ s.reserved → s.irq.globalBitmap id = true
  handler_reserved : ∀ id, s.irq.handlers id ≠ none → id ∈ s.reserved
  one_vm : ∀ id v w, gicCpuPriv ≤ id → s.irq.vmBitmap v id = true →
    s.irq.vmBitmap w id = true → v = w
  not_both : ∀ id v, gicCpuPriv ≤ id → s.irq.vmBitmap v id = true → id ∉ s.reserved
  no_handler : ∀ id v, s.irq.vmBitmap v id = true → s.irq.handlers id = none

theorem Unowned.owned {s : OwnershipState H σ} (h : Unowned s) : Owned s := by
  obtain ⟨_, hvm, hhandlers, hreserved⟩ := h
  constructor
  · intro v id hbit
    simp [hvm] at hbit
  · intro id hmem
    simp [hreserved] at hmem
  · intro id hsome
    simp [hhandlers] at hsome
  · intro id v w _ hbit
    simp [hvm] at hbit
  · intro id v _ hbit
    simp [hvm] at hbit
  · intro id v hbit
    simp [hvm] at hbit

theorem Owned.reserve {vgicSetHw : σ → Nat → Nat → σ} {s : OwnershipState H σ}
    {pintId r : Nat} {handler : Option H} {irq : InterruptState H σ} (hown : Owned s)
    (hcall : interruptsReserve (armInterrupts vgicSetHw) s.irq pintId handler = (r, irq)) :
    Owned ⟨irq, if r = invalidIrqid then s.reserved else r :: s.reserved⟩ := by
  obtain ⟨rfl, rfl⟩ | ⟨rfl, hvalid, hfree, hvm, hglobal, hhandlers⟩ :=
    interruptsReserve_cases hcall
  · rw [if_pos rfl]
    exact hown
  -- the line is free, so no VM has its bit
  have hnone : ∀ v, s.irq.vmBitmap v r = false := by
    intro v
    refine Bool.eq_false_iff.mpr fun hbit => ?_
    have := hown.vm_global v r hbit
    rw [hfree] at this
    cases this
  rw [if_neg hvalid]
  constructor
  · intro v id hbit
    rw [hvm] at hbit
    simp [hglobal, hown.vm_global v id hbit]
  · intro id hmem
    rcases List.mem_cons.mp hmem with rfl | hold
    · simp [hglobal]
    · simp [hglobal, hown.reserved_global id hold]
  · intro id hsome
    rw [hhandlers] at hsome
    by_cases hid : id = r
    · exact hid ▸ List.mem_cons_self
    · rw [if_neg hid] at hsome
      exact List.mem_cons_of_mem r (hown.handler_reserved id hsome)
  · intro id v w hpub hv hw
    rw [hvm] at hv hw
    exact hown.one_vm id v w hpub hv hw
  · intro id v hpub hv hmem
    rw [hvm] at hv
    rcases List.mem_cons.mp hmem with rfl | hold
    · rw [hnone v] at hv
      cases hv
    · exact hown.not_both id v hpub hv hold
  · intro id v hv
    rw [hvm] at hv
    have hid : id ≠ r := by
      rintro rfl
      rw [hnone v] at hv
      cases hv
    simp only [hhandlers, if_neg hid]
    exact hown.no_handler id v hv

/-- An assignment on which the exemption does no harm keeps the record of
owners. -/
theorem Owned.vmAssign {vgicSetHw : σ → Nat → Nat → σ} {s : OwnershipState H σ}
    {vm id : Nat} {r : Bool} {irq : InterruptState H σ} (hown : Owned s)
    (hok : ExemptionHarmless s (.vmAssign vm id))
    (hcall : interruptsVmAssign (armInterrupts vgicSetHw) s.irq vm id = (r, irq)) :
    Owned ⟨irq, s.reserved⟩ := by
  obtain ⟨_, rfl, _⟩ | ⟨_, hfree, hhandlers, hglobal, hvm⟩ := interruptsVmAssign_cases hcall
  · exact hown
  obtain ⟨hpriv, hlast⟩ := hok
  -- a shared line that passes the check is neither reserved nor another VM's
  have hmine : gicCpuPriv ≤ id →
      id ∉ s.reserved ∧ ∀ v, v ≠ vm → s.irq.vmBitmap v id = false := by
    intro hpub
    by_cases heq : id = gicCpuPriv
    · simpa [InterruptState.vmHasInterrupt] using hlast heq
    · have hclear : s.irq.globalBitmap id = false := by
        rcases hfree with hclear | hle
        · exact hclear
        · omega
      refine ⟨fun hmem => ?_, fun v _ => ?_⟩
      · have := hown.reserved_global id hmem
        rw [hclear] at this
        cases this
      · refine Bool.eq_false_iff.mpr fun hbit => ?_
        have := hown.vm_global v id hbit
        rw [hclear] at this
        cases this
  have hbits : ∀ v b, irq.vmBitmap v b = true →
      (v = vm ∧ b = id) ∨ s.irq.vmBitmap v b = true := by
    intro v b hbit
    rw [hvm] at hbit
    simpa using hbit
  constructor
  · intro v b hbit
    rcases hbits v b hbit with ⟨_, rfl⟩ | hold
    · simp [hglobal]
    · simp [hglobal, hown.vm_global v b hold]
  · intro b hmem
    simp [hglobal, hown.reserved_global b hmem]
  · intro b hsome
    rw [hhandlers] at hsome
    exact hown.handler_reserved b hsome
  · intro b v w hpub hv hw
    rcases hbits v b hv with ⟨rfl, rfl⟩ | hv
    · rcases hbits w b hw with ⟨rfl, _⟩ | hw
      · rfl
      · by_cases hne : w = v
        · exact hne.symm
        · rw [(hmine hpub).2 w hne] at hw
          cases hw
    · rcases hbits w b hw with ⟨rfl, rfl⟩ | hw
      · by_cases hne : v = w
        · exact hne
        · rw [(hmine hpub).2 v hne] at hv
          cases hv
      · exact hown.one_vm b v w hpub hv hw
  · intro b v hpub hv
    rcases hbits v b hv with ⟨_, rfl⟩ | hv
    · exact (hmine hpub).1
    · exact hown.not_both b v hpub hv
  · intro b v hv
    show irq.handlers b = none
    rw [hhandlers]
    rcases hbits v b hv with ⟨_, rfl⟩ | hv
    · by_cases hpub : b < gicCpuPriv
      · exact hpriv hpub
      · cases hreg : s.irq.handlers b with
        | none => rfl
        | some handler =>
            have hsome : s.irq.handlers b ≠ none := by simp [hreg]
            exact ((hmine (Nat.le_of_not_lt hpub)).1 (hown.handler_reserved b hsome)).elim
    · exact hown.no_handler b v hv

/-- The record of owners is right after every run on which the exemption does
no harm. -/
theorem Owned.of_reach {vgicSetHw : σ → Nat → Nat → σ} {s : OwnershipState H σ}
    (h : (ownershipSystem H vgicSetHw).Reach ExemptionHarmless s) : Owned s := by
  have hinit : ∀ s, (ownershipSystem H vgicSetHw).init s → Owned s :=
    fun _ hs => Unowned.owned hs
  have hstep : ∀ s e s', Owned s → ExemptionHarmless s e →
      (ownershipSystem H vgicSetHw).step s e s' → Owned s' := by
    intro s e s' hown hok hstep
    cases hstep with
    | reserve hcall => exact hown.reserve hcall
    | vmAssign _ hcall => exact hown.vmAssign hok hcall
  exact h.invariant hinit hstep

theorem interruptsHandle_of_handler {vgicSetHw : σ → Nat → Nat → σ} {s : OwnershipState H σ}
    (hown : Owned s) {id : Nat} {handler : H} (hid : id < gicMaxInterupts)
    (hreg : s.irq.handlers id = some handler) (vm : Nat) :
    interruptsHandle (armInterrupts vgicSetHw) s.irq vm id = .handledByHyp handler := by
  have hnot : s.irq.vmHasInterrupt vm id = false := by
    refine Bool.eq_false_iff.mpr fun hbit => ?_
    have := hown.no_handler id vm (by simpa [InterruptState.vmHasInterrupt] using hbit)
    rw [hreg] at this
    cases this
  simp [interruptsHandle, armInterrupts, hnot, hid, hreg]

/-- **Interrupt ownership is exclusive** in every state of a run on which the
exemption does no harm: a shared line belongs to at most one VM and not to the
hypervisor as well, a line with a handler is never forwarded to a guest, and a
call that fails changes nothing. -/
theorem interrupt_ownership_exclusive {vgicSetHw : σ → Nat → Nat → σ}
    {s : OwnershipState H σ}
    (h : (ownershipSystem H vgicSetHw).Reach ExemptionHarmless s) :
    (∀ id v w, gicCpuPriv ≤ id → s.irq.vmHasInterrupt v id = true →
      s.irq.vmHasInterrupt w id = true → v = w) ∧
    (∀ id v, gicCpuPriv ≤ id → s.irq.vmHasInterrupt v id = true → id ∉ s.reserved) ∧
    (∀ id handler, id < gicMaxInterupts → s.irq.handlers id = some handler →
      ∀ vm, interruptsHandle (armInterrupts vgicSetHw) s.irq vm id = .handledByHyp handler) ∧
    (∀ pintId handler,
      (interruptsReserve (armInterrupts vgicSetHw) s.irq pintId handler).1 = invalidIrqid →
      (interruptsReserve (armInterrupts vgicSetHw) s.irq pintId handler).2 = s.irq) ∧
    ∀ vm id, (interruptsVmAssign (armInterrupts vgicSetHw) s.irq vm id).1 = false →
      (interruptsVmAssign (armInterrupts vgicSetHw) s.irq vm id).2 = s.irq := by
  have hown := Owned.of_reach h
  refine ⟨?_, ?_, ?_, fun _ _ => interruptsReserve_failed, fun _ _ => interruptsVmAssign_failed⟩
  · intro id v w hpub hv hw
    exact hown.one_vm id v w hpub (by simpa [InterruptState.vmHasInterrupt] using hv)
      (by simpa [InterruptState.vmHasInterrupt] using hw)
  · intro id v hpub hv
    exact hown.not_both id v hpub (by simpa [InterruptState.vmHasInterrupt] using hv)
  · intro id handler hid hreg vm
    exact interruptsHandle_of_handler hown hid hreg vm

/-- Nothing is owned yet. -/
def bootOwnership : OwnershipState Unit Unit :=
  ⟨⟨fun _ => false, fun _ _ => false, fun _ => none, ()⟩, []⟩

/-- One VM, the first shared line: it is the line of that VM and of no other. -/
theorem interrupt_ownership_exclusive_first :
    (interruptsVmAssign (armInterrupts fun u _ _ => u) bootOwnership.irq 0 32).2.vmHasInterrupt
      0 32 = true ∧
    (interruptsVmAssign (armInterrupts fun u _ _ => u) bootOwnership.irq 0 32).2.vmHasInterrupt
      1 32 = false := by
  have hboot : (ownershipSystem Unit (fun u _ _ => u)).Reach ExemptionHarmless bootOwnership :=
    .init ⟨rfl, rfl, rfl, rfl⟩
  have hok : ExemptionHarmless bootOwnership (.vmAssign 0 32) :=
    ⟨fun _ => rfl, fun _ => ⟨by simp [bootOwnership],
      fun v _ => by simp [bootOwnership, InterruptState.vmHasInterrupt]⟩⟩
  have hrun := hboot.step hok (.vmAssign (by decide) rfl)
  have hmine : (interruptsVmAssign (armInterrupts fun u _ _ => u)
      bootOwnership.irq 0 32).2.vmHasInterrupt 0 32 = true := by decide
  refine ⟨hmine, Bool.eq_false_iff.mpr fun hother => ?_⟩
  have hsame := (interrupt_ownership_exclusive hrun).1 32 0 1 (by decide) hmine hother
  cases hsame

/-- **Line 32 has two owners.**  The first shared line passes the conflict
check although it is taken: two VMs are both told that it is theirs, and a VM
is given it after the hypervisor reserved it, so it goes to the guest. -/
theorem interrupt_line_shared_twice :
    (∃ s : OwnershipState Unit Unit,
      (ownershipSystem Unit (fun u _ _ => u)).Reachable s ∧
      s.irq.vmHasInterrupt 0 32 = true ∧ s.irq.vmHasInterrupt 1 32 = true) ∧
    ∃ s : OwnershipState Unit Unit,
      (ownershipSystem Unit (fun u _ _ => u)).Reachable s ∧
      32 ∈ s.reserved ∧ s.irq.vmHasInterrupt 0 32 = true ∧
      s.irq.handlers 32 = some () ∧
      interruptsHandle (armInterrupts fun u _ _ => u) s.irq 0 32 = .forwardToVm := by
  have hboot : (ownershipSystem Unit (fun u _ _ => u)).Reachable bootOwnership :=
    .init ⟨rfl, rfl, rfl, rfl⟩
  have hassign : ∀ {s : OwnershipState Unit Unit} (vm : Nat),
      (ownershipSystem Unit (fun u _ _ => u)).Reachable s →
      (ownershipSystem Unit (fun u _ _ => u)).Reachable
        ⟨(interruptsVmAssign (armInterrupts fun u _ _ => u) s.irq vm 32).2, s.reserved⟩ :=
    fun vm hs => hs.step trivial (.vmAssign (by decide) rfl)
  have hreserve := hboot.step trivial (@OwnershipStep.reserve Unit Unit (fun u _ _ => u)
    bootOwnership 32 _ (some ()) _ rfl)
  exact ⟨⟨_, hassign 1 (hassign 0 hboot), by decide, by decide⟩,
    ⟨_, hassign 0 hreserve, by decide, by decide, by decide, by decide⟩⟩

end Bao

import BaoHypervisor.MaskBits
import BaoHypervisor.SbiStart

/-!
# SBI calls and the registers they return

`sbi_vs_handler` of `sbi.c` and the handlers of the extensions.  Several of them
fill in a `struct sbiret` on the stack field by field, so what the stack held
before is an argument here: an exit that sets the error alone returns it in
`a1`.
-/

namespace Bao

variable {xlen : Nat}

/-- `struct sbiret`. -/
structure SbiRet (xlen : Nat) where
  error : BitVec xlen
  value : BitVec xlen

/-- The remaining error code used. -/
def sbiErrNotSupported : Int := -2

/-- An error code as a register. -/
def sbiCode (xlen : Nat) (error : Int) : BitVec xlen := BitVec.ofInt xlen error

/-- The calls to the firmware that the handlers make. -/
inductive SbiCall (xlen : Nat)
  | setTimer (stimeValue : BitVec 64)
  | remoteFenceI (hartMask hartMaskBase : BitVec xlen)
  | remoteHfenceVvma (hartMask hartMaskBase startAddr size : BitVec xlen)
  | remoteHfenceVvmaAsid (hartMask hartMaskBase startAddr size asid : BitVec xlen)
  | hartSuspend (suspendType : BitVec 32) (resumeAddr priv : BitVec xlen)

/-- The functions with a `struct sbiret` that they do not initialise. -/
inductive SbiFrame
  | vs
  | rfence
  | hsm
  | hsmStart
  | hsmStatus
  | hsmSuspend

/-- What the stack holds where these structures are. -/
abbrev SbiStack (xlen : Nat) := SbiFrame → SbiRet xlen

/-- A guest's call: the VM, the vCPU that makes it, the state of the vCPUs, the
argument registers `a0` to `a7`, the answers of the firmware and of `hypercall`,
and whether the CPU has the Sstc extension. -/
structure SbiGuestCall (xlen : Nat) where
  vm : SbiVm
  cpu : Nat
  machine : SbiMachine
  reg : Nat → BitVec xlen
  sbi : SbiCall xlen → SbiRet xlen
  hypercall : Nat → BitVec xlen
  sstc : Bool
  xlen_eq : xlen = 32 ∨ xlen = 64
  physId_lt : ∀ i, i < vm.cpuNum → vm.physId i < xlen

/-- The result of a handler, the CPUs that it sends `SEND_IPI` to, and the calls
it makes to the firmware. -/
structure SbiOutcome (xlen : Nat) where
  ret : SbiRet xlen
  ipis : List Nat
  calls : List (SbiCall xlen)

/-- A result without effects. -/
def SbiRet.only (ret : SbiRet xlen) : SbiOutcome xlen := ⟨ret, [], []⟩

namespace SbiGuestCall

variable (E : SbiGuestCall xlen)

/-- `vm_translate_to_pcpuid`. -/
def translate (vcpuid : Nat) : Option Nat :=
  if vcpuid < E.vm.cpuNum then some (E.vm.physId vcpuid) else none

/-- `vm_translate_to_pcpu_mask` with the width of a mask. -/
def translateMask (mask : BitVec xlen) : BitVec xlen := MaskBits.route E.translate xlen mask

/-- `sbi_time_handler`. -/
def sbiTimeHandler (fid : Nat) : SbiOutcome xlen :=
  if fid ≠ 0 then (SbiRet.mk (sbiCode xlen sbiErrNotSupported) 0).only
  else
    let stimeValue : BitVec 64 := (E.reg 0).setWidth 64 |||
      (if xlen = 32 then (E.reg 1).setWidth 64 <<< 32 else 0)
    ⟨⟨sbiCode xlen sbiSuccess, 0⟩, [], if E.sstc then [] else [.setTimer stimeValue]⟩

/-- `sbi_ipi_handler`. -/
def sbiIpiHandler (fid : Nat) : SbiOutcome xlen :=
  if fid ≠ 0 then (SbiRet.mk (sbiCode xlen sbiErrNotSupported) 0).only
  else
    let hartMask := E.reg 0
    let hartMaskBase := E.reg 1
    ⟨⟨sbiCode xlen sbiSuccess, 0⟩, (List.range xlen).filterMap fun i =>
      if hartMask.getLsbD i then E.translate (hartMaskBase + BitVec.ofNat xlen i).toNat else none,
      []⟩

/-- `ext_table`. -/
def extTable : List Nat := [0x10, 0x54494D45, 0x735049, 0x52464E43, 0x48534D]

/-- `sbi_base_handler`; the designated initialiser zeroes the value. -/
def sbiBaseHandler (fid : Nat) : SbiOutcome xlen :=
  let extid := E.reg 0
  let value : BitVec xlen :=
    if fid = 0 then 2
    else if fid = 3 then
      extTable.foldl (fun value ext => if ext = extid.toNat then extid else value) 0
    else 0
  (SbiRet.mk (sbiCode xlen sbiSuccess) value).only

/-- The check of `sbi_rfence_handler`. -/
def MaskInvalid : Prop :=
  E.reg 1 ≠ 0 ∧ (xlen ≤ (E.reg 1).toNat ∨ E.reg 0 <<< (E.reg 1).toNat = 0)

instance : Decidable E.MaskInvalid := inferInstanceAs (Decidable (_ ∧ _))

/-- `sbi_rfence_handler`. -/
def sbiRfenceHandler (stack : SbiStack xlen) (fid : Nat) : SbiOutcome xlen :=
  let startAddr := E.reg 2
  let size := E.reg 3
  let asid := E.reg 4
  if E.MaskInvalid then (SbiRet.mk (sbiCode xlen sbiErrInvalidParam) 0).only
  else
    let phartMask := E.translateMask (E.reg 0 <<< (E.reg 1).toNat)
    if fid = 0 then
      ⟨E.sbi (.remoteFenceI phartMask 0), [], [.remoteFenceI phartMask 0]⟩
    else if fid = 1 then
      ⟨E.sbi (.remoteHfenceVvma phartMask 0 startAddr size), [],
        [.remoteHfenceVvma phartMask 0 startAddr size]⟩
    else if fid = 2 then
      ⟨E.sbi (.remoteHfenceVvmaAsid phartMask 0 startAddr size asid), [],
        [.remoteHfenceVvmaAsid phartMask 0 startAddr size asid]⟩
    else SbiRet.only { stack .rfence with error := sbiCode xlen sbiErrNotSupported }

/-- The error that `sbi_hsm_start_handler` sets; the rest of what it does is
`sbiHsmStartHandler`. -/
def hsmStartError : Int :=
  ((sbiHsmStartHandler E.vm E.cpu (E.reg 0).toNat (E.reg 1).toNat (E.reg 2).toNat
    E.machine).vcpu E.cpu).error.getD sbiSuccess

/-- The result of `sbi_hsm_start_handler`. -/
def sbiHsmStartRet (stack : SbiStack xlen) : SbiOutcome xlen :=
  SbiRet.only { stack .hsmStart with error := sbiCode xlen E.hsmStartError }

/-- The number of a state in `struct sbi_hsm`. -/
def stateNum : SbiState → Nat
  | .started => 0
  | .stopped => 1
  | .startPending => 2
  | .stopPending => 3

/-- `sbi_hsm_status_handler`. -/
def sbiHsmStatusHandler (stack : SbiStack xlen) : SbiOutcome xlen :=
  let vhartId := (E.reg 0).toNat
  if vhartId < E.vm.cpuNum then
    (SbiRet.mk (sbiCode xlen sbiSuccess)
      (BitVec.ofNat xlen (stateNum (E.machine.vcpu vhartId).state))).only
  else SbiRet.only { stack .hsmStatus with error := sbiCode xlen sbiErrInvalidParam }

/-- `suspend_type`. -/
def suspendType : BitVec 32 := (E.reg 0).setWidth 32

/-- `sbi_hsm_suspend_handler`; bit 31 is `SBI_HSM_SUSP_NON_RET_BIT`. -/
def sbiHsmSuspendHandler (stack : SbiStack xlen) : SbiOutcome xlen :=
  if (E.machine.vcpu E.cpu).state ≠ .started then
    SbiRet.only { stack .hsmSuspend with error := sbiCode xlen sbiErrFailure }
  else if E.suspendType &&& 0x80000000 ≠ 0 then
    SbiRet.only { stack .hsmSuspend with error := sbiCode xlen sbiErrNotSupported }
  else ⟨E.sbi (.hartSuspend E.suspendType 0 0), [], [.hartSuspend E.suspendType 0 0]⟩

/-- `sbi_hsm_handler`. -/
def sbiHsmHandler (stack : SbiStack xlen) (fid : Nat) : SbiOutcome xlen :=
  if fid = 0 then E.sbiHsmStartRet stack
  else if fid = 2 then E.sbiHsmStatusHandler stack
  else if fid = 3 then E.sbiHsmSuspendHandler stack
  else SbiRet.only { stack .hsm with error := sbiCode xlen sbiErrNotSupported }

/-- `sbi_bao_handler`. -/
def sbiBaoHandler (fid : Nat) : SbiOutcome xlen :=
  (SbiRet.mk (sbiCode xlen sbiSuccess) (E.hypercall fid)).only

/-- The extension and the function called. -/
def extid : Nat := (E.reg 7).toNat
def fid : Nat := (E.reg 6).toNat

/-- `sbi_vs_handler`. -/
def sbiVsHandler (stack : SbiStack xlen) : SbiOutcome xlen :=
  if E.extid = 0x10 then E.sbiBaseHandler E.fid
  else if E.extid = 0x54494D45 then E.sbiTimeHandler E.fid
  else if E.extid = 0x735049 then E.sbiIpiHandler E.fid
  else if E.extid = 0x52464E43 then E.sbiRfenceHandler stack E.fid
  else if E.extid = 0x48534D then E.sbiHsmHandler stack E.fid
  else if E.extid = 0x08000ba0 then E.sbiBaoHandler E.fid
  else SbiRet.only { stack .vs with error := sbiCode xlen sbiErrNotSupported }

/-- **No leak**: the result registers do not depend on the stack. -/
def LeakFree : Prop :=
  ∀ stack stack', (E.sbiVsHandler stack).ret = (E.sbiVsHandler stack').ret

/-- The calls whose exits set both fields: those of the base, timer, IPI and Bao
extensions, remote fences that are refused for their mask or that exist, the
status of a vCPU of the VM, and retentive suspensions of a started vCPU. -/
def SetsBoth : Prop :=
  E.extid = 0x10 ∨ E.extid = 0x54494D45 ∨ E.extid = 0x735049 ∨ E.extid = 0x08000ba0 ∨
    E.extid = 0x52464E43 ∧ (E.MaskInvalid ∨ E.fid = 0 ∨ E.fid = 1 ∨ E.fid = 2) ∨
    E.extid = 0x48534D ∧
      (E.fid = 2 ∧ (E.reg 0).toNat < E.vm.cpuNum ∨
        E.fid = 3 ∧ (E.machine.vcpu E.cpu).state = .started ∧ E.suspendType &&& 0x80000000 = 0)

variable {E}

theorem sbiRfenceHandler_ret (fid : Nat) :
    if E.MaskInvalid ∨ fid = 0 ∨ fid = 1 ∨ fid = 2 then
      ∃ ret, ∀ stack, (E.sbiRfenceHandler stack fid).ret = ret
    else ∀ stack, (E.sbiRfenceHandler stack fid).ret.value = (stack .rfence).value := by
  unfold sbiRfenceHandler
  by_cases hinvalid : E.MaskInvalid
  · rw [if_pos (Or.inl hinvalid)]
    exact ⟨_, fun _ => by rw [if_pos hinvalid]⟩
  · by_cases hfid : fid = 0 ∨ fid = 1 ∨ fid = 2
    · rw [if_pos (Or.inr hfid)]
      rcases hfid with hfid | hfid | hfid
      · exact ⟨_, fun _ => by rw [if_neg hinvalid, if_pos hfid]⟩
      · exact ⟨_, fun _ => by rw [if_neg hinvalid, if_neg (by omega), if_pos hfid]⟩
      · exact ⟨_, fun _ => by
          rw [if_neg hinvalid, if_neg (by omega), if_neg (by omega), if_pos hfid]⟩
    · rw [if_neg fun h => h.elim hinvalid hfid]
      intro stack
      rw [if_neg hinvalid, if_neg (by omega), if_neg (by omega), if_neg (by omega)]
      rfl

theorem sbiHsmHandler_ret (fid : Nat) :
    if fid = 2 ∧ (E.reg 0).toNat < E.vm.cpuNum ∨
        fid = 3 ∧ (E.machine.vcpu E.cpu).state = .started ∧ E.suspendType &&& 0x80000000 = 0 then
      ∃ ret, ∀ stack, (E.sbiHsmHandler stack fid).ret = ret
    else ∃ frame, ∀ stack, (E.sbiHsmHandler stack fid).ret.value = (stack frame).value := by
  unfold sbiHsmHandler
  by_cases hstart : fid = 0
  · rw [if_neg (by omega)]
    exact ⟨.hsmStart, fun stack => by rw [if_pos hstart]; rfl⟩
  · by_cases hstatus : fid = 2
    · unfold sbiHsmStatusHandler
      by_cases hin : (E.reg 0).toNat < E.vm.cpuNum
      · rw [if_pos (Or.inl ⟨hstatus, hin⟩)]
        exact ⟨_, fun stack => by rw [if_neg hstart, if_pos hstatus, if_pos hin]⟩
      · rw [if_neg (by omega)]
        exact ⟨.hsmStatus, fun stack => by
          rw [if_neg hstart, if_pos hstatus, if_neg hin]
          rfl⟩
    · by_cases hsuspend : fid = 3
      · unfold sbiHsmSuspendHandler
        by_cases hstarted : (E.machine.vcpu E.cpu).state = .started
        · by_cases hretentive : E.suspendType &&& 0x80000000 = 0
          · rw [if_pos (Or.inr ⟨hsuspend, hstarted, hretentive⟩)]
            exact ⟨_, fun stack => by
              rw [if_neg hstart, if_neg hstatus, if_pos hsuspend, if_neg (not_not.mpr hstarted),
                if_neg (not_not.mpr hretentive)]⟩
          · rw [if_neg fun h => h.elim (fun h => hstatus h.1) fun h => hretentive h.2.2]
            exact ⟨.hsmSuspend, fun stack => by
              rw [if_neg hstart, if_neg hstatus, if_pos hsuspend, if_neg (not_not.mpr hstarted),
                if_pos hretentive]
              rfl⟩
        · rw [if_neg fun h => h.elim (fun h => hstatus h.1) fun h => hstarted h.2.1]
          exact ⟨.hsmSuspend, fun stack => by
            rw [if_neg hstart, if_neg hstatus, if_pos hsuspend, if_pos hstarted]
            rfl⟩
      · rw [if_neg (by omega)]
        exact ⟨.hsm, fun stack => by
          rw [if_neg hstart, if_neg hstatus, if_neg hsuspend]
          rfl⟩

section Extensions

variable (stack : SbiStack xlen)

theorem vs_ipi (h : E.extid = 0x735049) : E.sbiVsHandler stack = E.sbiIpiHandler E.fid := by
  unfold sbiVsHandler
  rw [if_neg (by omega), if_neg (by omega), if_pos h]

theorem vs_rfence (h : E.extid = 0x52464E43) :
    E.sbiVsHandler stack = E.sbiRfenceHandler stack E.fid := by
  unfold sbiVsHandler
  rw [if_neg (by omega), if_neg (by omega), if_neg (by omega), if_pos h]

theorem vs_hsm (h : E.extid = 0x48534D) : E.sbiVsHandler stack = E.sbiHsmHandler stack E.fid := by
  unfold sbiVsHandler
  rw [if_neg (by omega), if_neg (by omega), if_neg (by omega), if_neg (by omega), if_pos h]

theorem vs_bao (h : E.extid = 0x08000ba0) : E.sbiVsHandler stack = E.sbiBaoHandler E.fid := by
  unfold sbiVsHandler
  rw [if_neg (by omega), if_neg (by omega), if_neg (by omega), if_neg (by omega), if_neg (by omega),
    if_pos h]

end Extensions

/-- A call that sets both fields returns one result; any other one returns in
`a1` what the stack held in one place. -/
theorem sbiVsHandler_ret (E : SbiGuestCall xlen) :
    (E.SetsBoth ∧ ∃ ret, ∀ stack, (E.sbiVsHandler stack).ret = ret) ∨
      ¬ E.SetsBoth ∧
        ∃ frame, ∀ stack, (E.sbiVsHandler stack).ret.value = (stack frame).value := by
  by_cases hrfence : E.extid = 0x52464E43
  · have hret := E.sbiRfenceHandler_ret E.fid
    have hsets : E.SetsBoth ↔ E.MaskInvalid ∨ E.fid = 0 ∨ E.fid = 1 ∨ E.fid = 2 := by
      simp [SetsBoth, hrfence]
    simp only [E.vs_rfence _ hrfence]
    by_cases hset : E.MaskInvalid ∨ E.fid = 0 ∨ E.fid = 1 ∨ E.fid = 2
    · rw [if_pos hset] at hret
      exact Or.inl ⟨hsets.mpr hset, hret⟩
    · rw [if_neg hset] at hret
      exact Or.inr ⟨fun h => hset (hsets.mp h), .rfence, hret⟩
  by_cases hhsm : E.extid = 0x48534D
  · have hret := E.sbiHsmHandler_ret E.fid
    have hsets : E.SetsBoth ↔ E.fid = 2 ∧ (E.reg 0).toNat < E.vm.cpuNum ∨
        E.fid = 3 ∧ (E.machine.vcpu E.cpu).state = .started ∧
          E.suspendType &&& 0x80000000 = 0 := by
      simp [SetsBoth, hhsm]
    simp only [E.vs_hsm _ hhsm]
    by_cases hset : E.fid = 2 ∧ (E.reg 0).toNat < E.vm.cpuNum ∨
        E.fid = 3 ∧ (E.machine.vcpu E.cpu).state = .started ∧ E.suspendType &&& 0x80000000 = 0
    · rw [if_pos hset] at hret
      exact Or.inl ⟨hsets.mpr hset, hret⟩
    · rw [if_neg hset] at hret
      exact Or.inr ⟨fun h => hset (hsets.mp h), hret⟩
  by_cases hbase : E.extid = 0x10
  · refine Or.inl ⟨Or.inl hbase, (E.sbiBaseHandler E.fid).ret, fun stack => ?_⟩
    exact congrArg SbiOutcome.ret (if_pos hbase)
  by_cases htime : E.extid = 0x54494D45
  · refine Or.inl ⟨Or.inr (Or.inl htime), (E.sbiTimeHandler E.fid).ret, fun stack => ?_⟩
    exact congrArg SbiOutcome.ret ((if_neg hbase).trans (if_pos htime))
  by_cases hipi : E.extid = 0x735049
  · refine Or.inl ⟨Or.inr (Or.inr (Or.inl hipi)), (E.sbiIpiHandler E.fid).ret, fun stack => ?_⟩
    rw [E.vs_ipi stack hipi]
  by_cases hbao : E.extid = 0x08000ba0
  · refine Or.inl ⟨Or.inr (Or.inr (Or.inr (Or.inl hbao))), (E.sbiBaoHandler E.fid).ret,
      fun stack => ?_⟩
    rw [E.vs_bao stack hbao]
  · have hnot : ¬ E.SetsBoth := by simp [SetsBoth, hrfence, hhsm, hbase, htime, hipi, hbao]
    refine Or.inr ⟨hnot, .vs, fun stack => ?_⟩
    unfold sbiVsHandler
    rw [if_neg hbase, if_neg htime, if_neg hipi, if_neg hrfence, if_neg hhsm, if_neg hbao]
    rfl

end SbiGuestCall

/-- **No stack in the results.**  The result registers of a call do not depend
on the stack exactly if the call is one whose exit sets both. -/
theorem sbi_results_leak_free_iff {xlen : Nat} (E : SbiGuestCall xlen) :
    E.LeakFree ↔ E.SetsBoth := by
  rcases E.sbiVsHandler_ret with ⟨hsets, ret, hret⟩ | ⟨hnot, frame, hvalue⟩
  · exact iff_of_true (fun stack stack' => (hret stack).trans (hret stack').symm) hsets
  · refine iff_of_false (fun hfree => ?_) hnot
    have hsame := congrArg SbiRet.value (hfree (fun _ => ⟨0, 0⟩) fun _ => ⟨0, 1⟩)
    rw [hvalue, hvalue] at hsame
    have hone : (0 : BitVec xlen).toNat = (1 : BitVec xlen).toNat := congrArg BitVec.toNat hsame
    rcases E.xlen_eq with hxlen | hxlen
    · rw [hxlen] at hone
      cases hone
    · rw [hxlen] at hone
      cases hone

/-- A call of an unknown extension returns the stack. -/
theorem sbi_results_leak : ¬ (
    { vm := ⟨1, id, fun _ _ _ _ h => h, ⟨1, by decide, by decide⟩⟩
      cpu := 0
      machine := ⟨fun _ => ⟨.started, 0, 0, .guest, 0, 0, 0, none⟩, fun _ => [], fun _ => []⟩
      reg := fun _ => 0
      sbi := fun _ => ⟨0, 0⟩
      hypercall := fun _ => 0
      sstc := false
      xlen_eq := Or.inr rfl
      physId_lt := fun i hi => Nat.lt_of_lt_of_le hi (by decide) } : SbiGuestCall 64).LeakFree := by
  intro h
  have hsame := congrArg SbiRet.value (h (fun _ => ⟨0, 0⟩) fun _ => ⟨0, 1⟩)
  exact absurd hsame (by decide)

end Bao

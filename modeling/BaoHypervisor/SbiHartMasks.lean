import BaoHypervisor.SbiCalls
import Mathlib.Data.Fintype.Card

/-!
# Hart masks of SBI calls

A hart mask with its base names the harts `base + i` for the set bits `i`.
`sbi_ipi_handler` adds base and bit in a register, while `sbi_rfence_handler`
shifts the mask and translates it to physical CPUs for the firmware.
-/

namespace Bao

variable {xlen : Nat}

/-- The harts that a mask with a base names, the sum taken without wrap-around. -/
def HartNamed (hartMask hartMaskBase : BitVec xlen) (hart : Nat) : Prop :=
  ∃ i, i < xlen ∧ hartMask.getLsbD i = true ∧ hart = hartMaskBase.toNat + i

/-- The harts that a remote fence of the firmware acts on. -/
def SbiCall.Fences : SbiCall xlen → Nat → Prop
  | .remoteFenceI hartMask hartMaskBase => HartNamed hartMask hartMaskBase
  | .remoteHfenceVvma hartMask hartMaskBase _ _ => HartNamed hartMask hartMaskBase
  | .remoteHfenceVvmaAsid hartMask hartMaskBase _ _ _ => HartNamed hartMask hartMaskBase
  | _ => fun _ => False

namespace SbiGuestCall

variable (E : SbiGuestCall xlen)

/-- The physical CPUs of the vCPUs that the call's mask names. -/
def Named (phart : Nat) : Prop :=
  ∃ v, v < E.vm.cpuNum ∧ HartNamed (E.reg 0) (E.reg 1) v ∧ E.vm.physId v = phart

/-- **Masks decoded as specified**: the IPI call and each remote fence that
returns success reach exactly the vCPUs that the mask names. -/
structure MasksExact : Prop where
  ipi : ∀ phart, phart ∈ (E.sbiIpiHandler 0).ipis ↔ E.Named phart
  rfence : ∀ stack fid, (E.sbiRfenceHandler stack fid).ret.error = sbiCode xlen sbiSuccess →
    ∀ phart, (∃ call ∈ (E.sbiRfenceHandler stack fid).calls, call.Fences phart) ↔ E.Named phart

/-- No set bit wraps around to a vCPU of the VM. -/
def NoWrap : Prop :=
  ∀ i, i < xlen → (E.reg 0).getLsbD i = true → 2 ^ xlen ≤ (E.reg 1).toNat + i →
    E.vm.cpuNum ≤ (E.reg 1).toNat + i - 2 ^ xlen

variable {E}

/-! ## The translated mask -/

theorem translate_eq_some {v phart : Nat} :
    E.translate v = some phart ↔ v < E.vm.cpuNum ∧ E.vm.physId v = phart := by
  unfold translate
  split
  · rename_i hlt
    rw [Option.some.injEq]
    exact ⟨fun h => ⟨hlt, h⟩, fun h => h.2⟩
  · rename_i hge
    exact ⟨fun h => (by cases h), fun h => absurd h.1 hge⟩

theorem cpuNum_le (E : SbiGuestCall xlen) : E.vm.cpuNum ≤ xlen := by
  have hinj : Function.Injective fun i : Fin E.vm.cpuNum =>
      (⟨E.vm.physId i, E.physId_lt i i.isLt⟩ : Fin xlen) := by
    intro i j hij
    exact Fin.ext (E.vm.physId_inj i j i.isLt j.isLt (Fin.mk.inj hij))
  have hcard := Fintype.card_le_of_injective _ hinj
  rw [Fintype.card_fin, Fintype.card_fin] at hcard
  exact hcard

/-- **The bits of the translated mask** are the CPUs of the vCPUs in the mask. -/
theorem getLsbD_translateMask (mask : BitVec xlen) (phart : Nat) :
    (E.translateMask mask).getLsbD phart = true ↔
      ∃ v, v < E.vm.cpuNum ∧ mask.getLsbD v = true ∧ E.vm.physId v = phart := by
  have hle := E.cpuNum_le
  unfold translateMask
  rw [MaskBits.getLsbD_route]
  constructor
  · intro h
    obtain ⟨-, v, -, hset, hphys⟩ := h
    obtain ⟨hv, hphys⟩ := translate_eq_some.mp hphys
    exact ⟨v, hv, hset, hphys⟩
  · intro h
    obtain ⟨v, hv, hset, hphys⟩ := h
    have hlt := E.physId_lt v hv
    exact ⟨hphys ▸ hlt, v, Nat.lt_of_lt_of_le hv hle, hset, translate_eq_some.mpr ⟨hv, hphys⟩⟩

theorem hartNamed_zero (mask : BitVec xlen) (phart : Nat) :
    HartNamed mask 0 phart ↔ mask.getLsbD phart = true := by
  constructor
  · intro h
    obtain ⟨i, -, hset, heq⟩ := h
    rw [heq]
    simpa using hset
  · intro h
    exact ⟨phart, BitVec.lt_of_getLsbD h, h, by simp⟩

theorem getLsbD_shifted {v : Nat} (hv : v < xlen) (mask base : BitVec xlen) :
    (mask <<< base.toNat).getLsbD v = true ↔ HartNamed mask base v := by
  rw [BitVec.getLsbD_shiftLeft]
  constructor
  · intro h
    simp only [Bool.and_eq_true, decide_eq_true_eq, Bool.not_eq_true', decide_eq_false_iff_not] at h
    exact ⟨v - base.toNat, by omega, h.2, by omega⟩
  · intro h
    obtain ⟨i, hi, hset, heq⟩ := h
    have hplace : v - base.toNat = i := by omega
    have hnot : ¬ v < base.toNat := by omega
    rw [hplace, hset, decide_eq_true hv, decide_eq_false hnot]
    rfl

/-! ## The two calls -/

theorem rfence_exact (stack : SbiStack xlen) (fid : Nat)
    (hsuccess : (E.sbiRfenceHandler stack fid).ret.error = sbiCode xlen sbiSuccess) (phart : Nat) :
    (∃ call ∈ (E.sbiRfenceHandler stack fid).calls, call.Fences phart) ↔ E.Named phart := by
  have hle := E.cpuNum_le
  have hmask : (E.translateMask (E.reg 0 <<< (E.reg 1).toNat)).getLsbD phart = true ↔
      E.Named phart := by
    rw [getLsbD_translateMask]
    unfold Named
    refine exists_congr fun v => and_congr_right fun hv => and_congr_left fun _ => ?_
    exact getLsbD_shifted (Nat.lt_of_lt_of_le hv hle) _ _
  have hcodes : sbiCode xlen sbiErrInvalidParam ≠ sbiCode xlen sbiSuccess ∧
      sbiCode xlen sbiErrNotSupported ≠ sbiCode xlen sbiSuccess := by
    have hboth : ∀ n, n = 32 ∨ n = 64 → sbiCode n sbiErrInvalidParam ≠ sbiCode n sbiSuccess ∧
        sbiCode n sbiErrNotSupported ≠ sbiCode n sbiSuccess := by
      intro n hn
      rcases hn with hn | hn
      · rw [hn]
        decide
      · rw [hn]
        decide
    exact hboth xlen E.xlen_eq
  have hone : ∀ call : SbiCall xlen, (call.Fences phart ↔ E.Named phart) →
      ((∃ c ∈ [call], c.Fences phart) ↔ E.Named phart) := by
    intro call h
    simpa using h
  unfold sbiRfenceHandler at hsuccess ⊢
  dsimp only at hsuccess ⊢
  by_cases hinvalid : E.MaskInvalid
  · rw [if_pos hinvalid] at hsuccess
    exact absurd hsuccess hcodes.1
  rw [if_neg hinvalid] at hsuccess ⊢
  by_cases hfence : fid = 0
  · rw [if_pos hfence]
    exact hone _ ((hartNamed_zero _ _).trans hmask)
  by_cases hvma : fid = 1
  · rw [if_neg hfence, if_pos hvma]
    exact hone _ ((hartNamed_zero _ _).trans hmask)
  by_cases hasid : fid = 2
  · rw [if_neg hfence, if_neg hvma, if_pos hasid]
    exact hone _ ((hartNamed_zero _ _).trans hmask)
  · rw [if_neg hfence, if_neg hvma, if_neg hasid] at hsuccess
    exact absurd hsuccess hcodes.2

theorem mem_ipis (phart : Nat) : phart ∈ (E.sbiIpiHandler 0).ipis ↔
    ∃ i, i < xlen ∧ (E.reg 0).getLsbD i = true ∧
      ((E.reg 1).toNat + i) % 2 ^ xlen < E.vm.cpuNum ∧
        E.vm.physId (((E.reg 1).toNat + i) % 2 ^ xlen) = phart := by
  change phart ∈ (List.range xlen).filterMap _ ↔ _
  rw [List.mem_filterMap]
  refine exists_congr fun i => ?_
  rw [List.mem_range]
  refine and_congr_right fun hi => ?_
  have hsum : (E.reg 1 + BitVec.ofNat xlen i).toNat = ((E.reg 1).toNat + i) % 2 ^ xlen := by
    rw [BitVec.toNat_add, BitVec.toNat_ofNat, Nat.add_mod_mod]
  by_cases hset : (E.reg 0).getLsbD i = true
  · rw [if_pos hset, translate_eq_some, hsum]
    simp [hset]
  · rw [if_neg hset]
    simp [hset]

end SbiGuestCall

/-- **Hart masks.**  The two calls decode the mask as specified exactly if no set
bit of the mask wraps around to a vCPU of the VM in the IPI call. -/
theorem sbi_hart_masks_exact_iff (E : SbiGuestCall xlen) : E.MasksExact ↔ E.NoWrap := by
  have hle := E.cpuNum_le
  have hpow : xlen < 2 ^ xlen := Nat.lt_two_pow_self
  have hbase : (E.reg 1).toNat < 2 ^ xlen := (E.reg 1).isLt
  constructor
  · intro h i hi hset hwrap
    apply Nat.le_of_not_lt
    intro hlt
    have hmod : ((E.reg 1).toNat + i) % 2 ^ xlen = (E.reg 1).toNat + i - 2 ^ xlen := by
      rw [Nat.mod_eq_sub_mod hwrap, Nat.mod_eq_of_lt (by omega)]
    have hsent := (SbiGuestCall.mem_ipis _).mpr
      ⟨i, hi, hset, by rw [hmod]; exact hlt, rfl⟩
    obtain ⟨v, hv, ⟨j, hj, -, hsum⟩, hphys⟩ := (h.ipi _).mp hsent
    rw [hmod] at hphys
    have hsame := E.vm.physId_inj v _ hv hlt hphys
    omega
  · intro h
    refine ⟨fun phart => ?_, fun stack fid hsuccess phart =>
      SbiGuestCall.rfence_exact stack fid hsuccess phart⟩
    rw [SbiGuestCall.mem_ipis]
    constructor
    · intro hsent
      obtain ⟨i, hi, hset, hlt, hphys⟩ := hsent
      by_cases hwrap : 2 ^ xlen ≤ (E.reg 1).toNat + i
      · have hmod : ((E.reg 1).toNat + i) % 2 ^ xlen = (E.reg 1).toNat + i - 2 ^ xlen := by
          rw [Nat.mod_eq_sub_mod hwrap, Nat.mod_eq_of_lt (by omega)]
        have hout := h i hi hset hwrap
        omega
      · rw [Nat.mod_eq_of_lt (by omega)] at hlt hphys
        exact ⟨_, hlt, ⟨i, hi, hset, rfl⟩, hphys⟩
    · intro hnamed
      obtain ⟨v, hv, ⟨i, hi, hset, hsum⟩, hphys⟩ := hnamed
      have hmod : ((E.reg 1).toNat + i) % 2 ^ xlen = v := by
        rw [← hsum, Nat.mod_eq_of_lt (by omega)]
      exact ⟨i, hi, hset, by rw [hmod]; exact hv, by rw [hmod]; exact hphys⟩

/-- Bit 2 with the base 2^64 - 2 sends an IPI to vCPU 0. -/
theorem sbi_hart_masks_wrap : ¬ (
    { vm := ⟨1, id, fun _ _ _ _ h => h, ⟨1, by decide, by decide⟩⟩
      cpu := 0
      machine := ⟨fun _ => ⟨.started, 0, 0, .guest, 0, 0, 0, none⟩, fun _ => [], fun _ => []⟩
      reg := fun r => if r = 0 then 4 else if r = 1 then -2 else 0
      sbi := fun _ => ⟨0, 0⟩
      hypercall := fun _ => 0
      sstc := false
      xlen_eq := Or.inr rfl
      physId_lt := fun i hi => Nat.lt_of_lt_of_le hi (by decide) } : SbiGuestCall 64).MasksExact := by
  intro h
  have hsent := (h.ipi 0).mp (by decide)
  obtain ⟨v, hv, ⟨i, -, -, hsum⟩, -⟩ := hsent
  have hlt : v < 1 := hv
  have hbase : v = 2 ^ 64 - 2 + i := hsum
  omega

end Bao

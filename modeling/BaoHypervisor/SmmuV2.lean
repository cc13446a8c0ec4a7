import BaoHypervisor.Bitmap
import BaoHypervisor.Interrupts
import BaoHypervisor.StepSystem
import BaoHypervisor.TernaryMatch
import BaoHypervisor.WordRegs

/-!
# The stream match entries of the SMMUv2

`iommu_vm_arch_add` of `iommu.c` and what it calls in `smmuv2.c`.  The driver
keeps which entries are allocated and which are groups in bitmaps of its own;
what the hardware matches is in the `SMR` registers.  A call that stops in
`ERROR` has no result.
-/

namespace Bao

open BitMemory TernaryMatch

/-! ## Registers -/

/-- `bit32_extract`. -/
def bit32Extract (word : BitVec 32) (off len : Nat) : BitVec 32 :=
  (word >>> off) &&& granuleMask 0 len

/-- `SMMU_ID_MSK`. -/
def smmuIdMsk : BitVec 32 := granuleMask 0 15

/-- `SMMU_SMR_ID`. -/
def smmuSmrId (smr : BitVec 32) : BitVec 32 := bit32Extract smr 0 15

/-- `SMMU_SMR_MASK_OFF`. -/
def smmuSmrMaskOff : Nat := 16

/-- `SMMU_SMR_MASK`. -/
def smmuSmrMask (smr : BitVec 32) : BitVec 32 := bit32Extract smr smmuSmrMaskOff 15

/-- `SMMUV2_SMR_VALID`. -/
def smmuv2SmrValid : BitVec 32 := 1#32 <<< 31

/-- `S2CR_CLEAR`, which keeps the implementation defined bits. -/
def s2crClear (s2cr : BitVec 32) : BitVec 32 := s2cr &&& granuleMask 30 2

/-- `S2CR_DFLT`. -/
def s2crDflt : BitVec 32 := 0#32

/-- `S2CR_CBNDX_MASK`. -/
def s2crCbndxMask : BitVec 32 := granuleMask 0 8

/-- `S2CR_CBNDX`. -/
def s2crCbndx (s2cr : BitVec 32) : Nat := (bit32Extract s2cr 0 8).toNat

/-- The numbers of entries and of context banks read from the hardware, which
`SME_MAX_NUM` and `CTX_MAX_NUM` bound, and of every VM its global mask and the
root of its page table. -/
structure SmmuPlat where
  smeNum : Nat
  ctxNum : Nat
  sme_num_le : smeNum ≤ 128
  ctx_num_le : ctxNum ≤ 128
  globalMask : Nat → BitVec 32
  rootPt : Nat → Nat

/-- What a context bank has been set up with: the root for `TTBR0` and the VM
for `CBAR`. -/
structure CtxBank where
  rootPt : Nat
  vmId : Nat
  deriving DecidableEq

/-- `struct smmu_priv` with the registers, and the `ctx_id` of every VM.
`lastGroup` is read by no code: whether an entry was last written for a group. -/
structure Smmu where
  smr : Nat → BitVec 32
  s2cr : Nat → BitVec 32
  bank : Nat → Option CtxBank
  smeBitmap : Store
  grpBitmap : Store
  ctxbankBitmap : Store
  ctxId : Nat → Option Nat
  lastGroup : Nat → Option Bool

namespace Smmu

/-- `smmu_sme_is_group`. -/
def smeIsGroup (s : Smmu) (sme : Nat) : Bool := bitmapGet s.grpBitmap 0 sme

/-- `smmu_sme_get_ctx`. -/
def smeGetCtx (s : Smmu) (sme : Nat) : Nat := s2crCbndx (s.s2cr sme)

/-- `smmu_sme_get_id`. -/
def smeGetId (s : Smmu) (sme : Nat) : BitVec 32 := smmuSmrId (s.smr sme)

/-- `smmu_sme_get_mask`. -/
def smeGetMask (s : Smmu) (sme : Nat) : BitVec 32 := smmuSmrMask (s.smr sme)

/-- `diff_id` of `smmu_compatible_sme_exists`. -/
def diffId (s : Smmu) (mask id : BitVec 32) (sme : Nat) : BitVec 32 :=
  (s.smeGetId sme ^^^ id) &&& ~~~(mask ||| s.smeGetMask sme)

/-- The entry may be merged with the new one. -/
def mergeable (s : Smmu) (mask : BitVec 32) (ctx : Nat) (group : Bool) (sme : Nat) : Bool :=
  let smeMask := s.smeGetMask sme
  let maskR := mask &&& smeMask
  ((group || s.smeIsGroup sme) && (maskR == mask || maskR == smeMask)) && ctx == s.smeGetCtx sme

end Smmu

/-! ## The driver -/

variable (P : SmmuPlat)

/-- `smmu_alloc_ctxbnk`. -/
def smmuAllocCtxbnk (s : Smmu) : Option Nat × Smmu :=
  match bitmapFindNth s.ctxbankBitmap 0 P.ctxNum 1 0 false with
  | some nth => (some nth, { s with ctxbankBitmap := bitmapSet s.ctxbankBitmap 0 nth })
  | none => (none, s)

/-- `smmu_write_ctxbnk`; the other registers of a bank are the same for every VM. -/
def smmuWriteCtxbnk (s : Smmu) (ctxId rootPt vmId : Nat) : Option Smmu :=
  if bitmapGet s.ctxbankBitmap 0 ctxId = false then none
  else some { s with bank := Function.update s.bank ctxId (some ⟨rootPt, vmId⟩) }

/-- `smmu_alloc_sme`. -/
def smmuAllocSme (s : Smmu) : Option Nat × Smmu :=
  match bitmapFindNth s.smeBitmap 0 P.smeNum 1 0 false with
  | some nth => (some nth, { s with smeBitmap := bitmapSet s.smeBitmap 0 nth })
  | none => (none, s)

/-- The loop of `smmu_compatible_sme_exists` over the `left` entries from `sme` on. -/
def compatibleSmeLoop (mask id : BitVec 32) (ctx : Nat) (group : Bool) :
    Nat → Nat → Smmu → Option (Bool × Smmu)
  | 0, _, s => some (false, s)
  | left + 1, sme, s =>
      if bitmapGet s.smeBitmap 0 sme = false then
        compatibleSmeLoop mask id ctx group left (sme + 1) s
      else if s.diffId mask id sme = 0#32 then
        if s.mergeable mask ctx group sme then
          if s.smeGetMask sme < mask then
            compatibleSmeLoop mask id ctx group left (sme + 1)
              { s with smeBitmap := bitmapClear s.smeBitmap 0 sme }
          else some (true, s)
        else none
      else compatibleSmeLoop mask id ctx group left (sme + 1) s

/-- `smmu_compatible_sme_exists`. -/
def smmuCompatibleSmeExists (s : Smmu) (mask id : BitVec 32) (ctx : Nat) (group : Bool) :
    Option (Bool × Smmu) :=
  compatibleSmeLoop mask id ctx group P.smeNum 0 s

/-- `smmu_write_sme`. -/
def smmuWriteSme (s : Smmu) (sme : Nat) (mask id : BitVec 32) (group : Bool) : Option Smmu :=
  if bitmapGet s.smeBitmap 0 sme = false then none
  else some { s with
    smr := Function.update s.smr sme
      (((mask <<< smmuSmrMaskOff) ||| (id &&& smmuIdMsk)) ||| smmuv2SmrValid)
    grpBitmap := if group then bitmapSet s.grpBitmap 0 sme else s.grpBitmap
    lastGroup := Function.update s.lastGroup sme (some group) }

/-- `smmu_write_s2c`. -/
def smmuWriteS2c (s : Smmu) (sme ctxId : Nat) : Option Smmu :=
  if bitmapGet s.ctxbankBitmap 0 ctxId = false then none
  else if bitmapGet s.smeBitmap 0 sme = false then none
  else some { s with
    s2cr := Function.update s.s2cr sme
      ((s2crClear (s.s2cr sme) ||| s2crDflt) ||| (BitVec.ofNat 32 ctxId &&& s2crCbndxMask)) }

/-- `iommu_vm_arch_init_ctx`. -/
def iommuVmArchInitCtx (s : Smmu) (vm : Nat) : Option (Option Nat × Smmu) :=
  match s.ctxId vm with
  | some ctx => some (some ctx, s)
  | none =>
      match smmuAllocCtxbnk P s with
      | (none, s1) => some (none, s1)
      | (some ctx, s1) =>
          match smmuWriteCtxbnk s1 ctx (P.rootPt vm) vm with
          | none => none
          | some s2 => some (some ctx, { s2 with ctxId := Function.update s2.ctxId vm (some ctx) })

/-- A call of `iommu_vm_arch_add`: a group's mask and id, or mask zero and the id
of a device. -/
structure StreamRequest where
  vm : Nat
  mask : BitVec 32
  id : BitVec 32
  deriving DecidableEq

namespace StreamRequest

/-- `prep_mask`. -/
def prepMask (r : StreamRequest) : BitVec 32 := (r.mask &&& smmuIdMsk) ||| P.globalMask r.vm

/-- `prep_id`. -/
def prepId (r : StreamRequest) : BitVec 32 := r.id &&& smmuIdMsk

/-- `group`. -/
def group (r : StreamRequest) : Bool := r.mask != 0#32

/-- The stream ids the request is for. -/
def pattern (r : StreamRequest) : Pattern 15 :=
  ⟨(r.prepMask P).setWidth 15, r.prepId.setWidth 15⟩

end StreamRequest

/-- The end of `iommu_vm_arch_add`: a free entry is allocated and written. -/
def iommuVmArchAddSme (s : Smmu) (r : StreamRequest) (vmCtx : Nat) : Option (Bool × Smmu) :=
  match smmuAllocSme P s with
  | (none, s1) => some (false, s1)
  | (some sme, s1) =>
      match smmuWriteSme s1 sme (r.prepMask P) r.prepId r.group with
      | none => none
      | some s2 =>
          match smmuWriteS2c s2 sme vmCtx with
          | none => none
          | some s3 => some (true, s3)

/-- `iommu_vm_arch_add`. -/
def iommuVmArchAdd (s : Smmu) (r : StreamRequest) : Option (Bool × Smmu) :=
  match iommuVmArchInitCtx P s r.vm with
  | none => none
  | some (none, s1) => some (false, s1)
  | some (some vmCtx, s1) =>
      match smmuCompatibleSmeExists P s1 (r.prepMask P) r.prepId vmCtx r.group with
      | none => none
      | some (true, s2) => some (true, s2)
      | some (false, s2) => iommuVmArchAddSme P s2 r vmCtx

/-! ## Runs -/

/-- After `smmu_init`, and with every VM's `ctx_id` at -1: nothing is allocated
and no entry is valid. -/
structure SmmuInit (s : Smmu) : Prop where
  smr : ∀ sme, sme < P.smeNum → s.smr sme = 0#32
  smeBitmap : ∀ sme, sme < P.smeNum → bitmapGet s.smeBitmap 0 sme = false
  grpBitmap : ∀ sme, sme < P.smeNum → bitmapGet s.grpBitmap 0 sme = false
  ctxbankBitmap : ∀ ctx, ctx < P.ctxNum → bitmapGet s.ctxbankBitmap 0 ctx = false
  ctxId : ∀ vm, s.ctxId vm = none
  lastGroup : ∀ sme, s.lastGroup sme = none

/-- The state a call leaves; only calls that return are steps. -/
def smmuNext (r : StreamRequest) (s : Smmu) : Smmu :=
  match iommuVmArchAdd P s r with
  | some (_, s1) => s1
  | none => s

/-- The requests that have been added, the newest first. -/
def noteAdded (s : Smmu) (r : StreamRequest) (added : List StreamRequest) : List StreamRequest :=
  match iommuVmArchAdd P s r with
  | some (true, _) => r :: added
  | _ => added

/-- The calls of any VMs one after the other, with what they have added. -/
def smmuSystem : StepSystem (Smmu × List StreamRequest) StreamRequest :=
  (StepSystem.ofNext (SmmuInit P) (fun r s => (iommuVmArchAdd P s r).isSome = true)
    (smmuNext P)).watch [] (noteAdded P)

/-! ## Isolation -/

/-- What an entry matches. -/
def smrPattern (smr : BitVec 32) : Pattern 15 :=
  ⟨smr.extractLsb' smmuSmrMaskOff 15, smr.extractLsb' 0 15⟩

/-- The hardware table: the valid entries. -/
def streamTable (s : Smmu) (sme : Nat) : Option (Pattern 15) :=
  if sme < P.smeNum ∧ (s.smr sme).getLsbD 31 = true then some (smrPattern (s.smr sme)) else none

/-- **Stream isolation.**  No stream id hits two entries; what has been added for
a VM hits an entry bound to a bank set up for that VM and no entry bound to
another; the group marks are those of the entries last written for a group; the
allocated entries are the valid ones. -/
structure StreamIsolated (s : Smmu) (added : List StreamRequest) : Prop where
  oneHit : OneHit (streamTable P s)
  bound : ∀ r ∈ added, ∀ sid, (r.pattern P).Matches sid →
    ∃ ctx, s.ctxId r.vm = some ctx ∧ s.bank ctx = some ⟨P.rootPt r.vm, r.vm⟩ ∧
      (∃ sme, Hits (streamTable P s) sme sid ∧ s.smeGetCtx sme = ctx) ∧
      ∀ sme, Hits (streamTable P s) sme sid → s.smeGetCtx sme = ctx
  groups : ∀ sme, sme < P.smeNum → (s.smeIsGroup sme = true ↔ s.lastGroup sme = some true)
  valid : ∀ sme, sme < P.smeNum →
    (bitmapGet s.smeBitmap 0 sme = true ↔ (s.smr sme).getLsbD 31 = true)

/-- An allocated entry of the VM's bank that the request includes, so that the
call removes it. -/
def Absorbs (s : Smmu) (r : StreamRequest) (sme : Nat) : Prop :=
  bitmapGet s.smeBitmap 0 sme = true ∧ s.ctxId r.vm = some (s.smeGetCtx sme) ∧
    s.diffId (r.prepMask P) r.prepId sme = 0#32 ∧ s.smeGetMask sme < r.prepMask P

instance (s : Smmu) (r : StreamRequest) (sme : Nat) : Decidable (Absorbs P s r sme) :=
  inferInstanceAs (Decidable (_ ∧ _ ∧ _ ∧ _))

/-- An entry the call removes is the only one, it has no free entry before it,
and it is marked as a group only if the request is for a group. -/
def AbsorbsInPlace (s : Smmu) (r : StreamRequest) : Prop :=
  ∀ sme, sme < P.smeNum → Absorbs P s r sme →
    (∀ sme', sme' < P.smeNum → Absorbs P s r sme' → sme' = sme) ∧
      (∀ free, free < sme → bitmapGet s.smeBitmap 0 free = true) ∧
      (s.smeIsGroup sme = true → r.group = true)

instance (s : Smmu) (r : StreamRequest) : Decidable (AbsorbsInPlace P s r) := by
  unfold AbsorbsInPlace
  infer_instance

variable {P} {s s' : Smmu} {r : StreamRequest}

/-! ## Bits of the registers -/

theorem getLsbD_granuleMask (off : Nat) {len : Nat} (hlen : 1 ≤ len) (hfit : off + len ≤ 32)
    (k : Nat) : (granuleMask off len).getLsbD k = (decide (off ≤ k) && decide (k < off + len)) :=
  (isMask_granuleMask off len hlen hfit).2 k

theorem getLsbD_bit32Extract (word : BitVec 32) (off : Nat) {len : Nat} (hlen : 1 ≤ len)
    (hfit : len ≤ 32) (k : Nat) :
    (bit32Extract word off len).getLsbD k = (decide (k < len) && word.getLsbD (off + k)) := by
  rw [bit32Extract, BitVec.getLsbD_and, BitVec.getLsbD_ushiftRight,
    getLsbD_granuleMask 0 hlen (by omega)]
  simp [Bool.and_comm]

theorem getLsbD_smmuIdMsk (k : Nat) : smmuIdMsk.getLsbD k = decide (k < 15) := by
  rw [smmuIdMsk, getLsbD_granuleMask 0 (by decide) (by decide)]
  simp

theorem StreamRequest.prepId_high {k : Nat} (hk : 15 ≤ k) : r.prepId.getLsbD k = false := by
  have hout : ¬ k < 15 := by omega
  simp [prepId, getLsbD_smmuIdMsk, hout]

theorem smrPattern_mask (smr : BitVec 32) {k : Nat} (hk : k < 15) :
    (smrPattern smr).mask.getLsbD k = (smmuSmrMask smr).getLsbD k := by
  simp [smrPattern, smmuSmrMask, getLsbD_bit32Extract, hk]

theorem smrPattern_id (smr : BitVec 32) {k : Nat} (hk : k < 15) :
    (smrPattern smr).id.getLsbD k = (smmuSmrId smr).getLsbD k := by
  simp [smrPattern, smmuSmrId, getLsbD_bit32Extract, hk]

theorem smmuSmrId_high (smr : BitVec 32) {k : Nat} (hk : 15 ≤ k) :
    (smmuSmrId smr).getLsbD k = false := by
  have hout : ¬ k < 15 := by omega
  simp [smmuSmrId, getLsbD_bit32Extract, hout]

namespace Smmu

/-- **The comparison of the driver**: the ids agree outside both masks exactly
when some stream id matches the entry and the request. -/
theorem diffId_eq_zero {sme : Nat} :
    s.diffId (r.prepMask P) r.prepId sme = 0#32 ↔ (smrPattern (s.smr sme)).Meets (r.pattern P) := by
  have hbits : s.diffId (r.prepMask P) r.prepId sme = 0#32 ↔ ∀ k, k < 32 →
      (s.diffId (r.prepMask P) r.prepId sme).getLsbD k = false := by
    constructor
    · intro h k _
      rw [h, BitVec.getLsbD_zero]
    · intro h
      apply BitVec.eq_of_getLsbD_eq
      intro k hk
      rw [h k hk, BitVec.getLsbD_zero]
  rw [hbits, Pattern.meets_iff]
  constructor
  · intro h k hk hmask hpm
    have hbit := h k (by omega)
    rw [smrPattern_mask _ hk] at hmask
    rw [smrPattern_id _ hk]
    simp only [StreamRequest.pattern, BitVec.getLsbD_setWidth, hk, decide_true,
      Bool.true_and] at hpm ⊢
    have hlt : k < 32 := by omega
    simp only [diffId, smeGetMask, smeGetId, BitVec.getLsbD_and, BitVec.getLsbD_xor,
      BitVec.getLsbD_not, BitVec.getLsbD_or, hlt, hmask, hpm, decide_true, Bool.or_self,
      Bool.not_false, Bool.and_true, bne_eq_false_iff_eq] at hbit
    exact hbit
  · intro h k hk
    by_cases hin : k < 15
    · have hbit := h k hin
      rw [smrPattern_mask _ hin, smrPattern_id _ hin] at hbit
      simp only [StreamRequest.pattern, BitVec.getLsbD_setWidth, hin, decide_true,
        Bool.true_and] at hbit
      simp only [diffId, smeGetMask, smeGetId, BitVec.getLsbD_and, BitVec.getLsbD_xor,
        BitVec.getLsbD_not, BitVec.getLsbD_or, hk, decide_true, Bool.true_and]
      cases hm : (smmuSmrMask (s.smr sme)).getLsbD k with
      | true => simp
      | false =>
        cases hp : (r.prepMask P).getLsbD k with
        | true => simp
        | false => simp [hbit hm hp]
    · simp [diffId, smeGetId, smmuSmrId_high _ (Nat.le_of_not_lt hin),
        StreamRequest.prepId_high (Nat.le_of_not_lt hin)]

variable {ctx sme : Nat} {group : Bool}

theorem mergeable_ctx {mask : BitVec 32} (h : s.mergeable mask ctx group sme = true) :
    ctx = s.smeGetCtx sme := by
  simp only [mergeable, Bool.and_eq_true, beq_iff_eq] at h
  exact h.2

theorem mergeable_mask {mask : BitVec 32} (h : s.mergeable mask ctx group sme = true) :
    mask &&& s.smeGetMask sme = mask ∨ mask &&& s.smeGetMask sme = s.smeGetMask sme := by
  simp only [mergeable, Bool.and_eq_true, Bool.or_eq_true, beq_iff_eq] at h
  exact h.1.2

theorem mergeable_wider (h : s.mergeable (r.prepMask P) ctx group sme = true)
    (hlt : s.smeGetMask sme < r.prepMask P) : (smrPattern (s.smr sme)).MaskLe (r.pattern P) := by
  have hle : r.prepMask P &&& s.smeGetMask sme = s.smeGetMask sme := by
    rcases mergeable_mask h with hmask | hmask
    · have hnum := congrArg BitVec.toNat hmask
      rw [BitVec.toNat_and] at hnum
      have := Nat.and_le_right (n := (r.prepMask P).toNat) (m := (s.smeGetMask sme).toNat)
      rw [BitVec.lt_def] at hlt
      omega
    · exact hmask
  intro k hk hbit
  rw [smrPattern_mask _ hk] at hbit
  have hand := congrArg (fun v => v.getLsbD k) hle
  simp only [BitVec.getLsbD_and, smeGetMask, hbit, Bool.and_true] at hand
  simp [StreamRequest.pattern, hk, hand]

theorem mergeable_narrower (h : s.mergeable (r.prepMask P) ctx group sme = true)
    (hge : ¬ s.smeGetMask sme < r.prepMask P) : (r.pattern P).MaskLe (smrPattern (s.smr sme)) := by
  have hle : r.prepMask P &&& s.smeGetMask sme = r.prepMask P := by
    rcases mergeable_mask h with hmask | hmask
    · exact hmask
    · have hnum := congrArg BitVec.toNat hmask
      rw [BitVec.toNat_and] at hnum
      have := Nat.and_le_left (n := (r.prepMask P).toNat) (m := (s.smeGetMask sme).toNat)
      rw [BitVec.lt_def] at hge
      have heq : s.smeGetMask sme = r.prepMask P := by
        apply BitVec.eq_of_toNat_eq
        omega
      rw [heq, BitVec.and_self]
  intro k hk hbit
  have hpm : (r.prepMask P).getLsbD k = true := by
    simpa [StreamRequest.pattern, hk] using hbit
  have hand := congrArg (fun v => v.getLsbD k) hle
  simp only [BitVec.getLsbD_and, hpm, Bool.true_and] at hand
  rw [smrPattern_mask _ hk]
  exact hand

end Smmu

/-! ## What is written -/

theorem written_valid (mask id : BitVec 32) :
    (((mask <<< smmuSmrMaskOff) ||| (id &&& smmuIdMsk)) ||| smmuv2SmrValid).getLsbD 31 = true := by
  have hvalid : smmuv2SmrValid.getLsbD 31 = true := by decide
  rw [BitVec.getLsbD_or, hvalid, Bool.or_true]

/-- The word `smmu_write_sme` writes matches what was asked for. -/
theorem written_pattern (r : StreamRequest) :
    smrPattern (((r.prepMask P <<< smmuSmrMaskOff) ||| (r.prepId &&& smmuIdMsk)) |||
      smmuv2SmrValid) = r.pattern P := by
  have hvalid : ∀ k, k < 31 → smmuv2SmrValid.getLsbD k = false := by
    intro k hk
    rw [smmuv2SmrValid, WordRegs.getLsbD_mask (by omega)]
    exact decide_eq_false (by omega)
  rw [smrPattern, StreamRequest.pattern]
  congr 1
  · apply BitVec.eq_of_getLsbD_eq
    intro k hk
    have hid : r.prepId.getLsbD (16 + k) = false := StreamRequest.prepId_high (by omega)
    have hlt : 16 + k < 32 := by omega
    have hge : ¬ 16 + k < 16 := by omega
    simp only [BitVec.getLsbD_extractLsb', BitVec.getLsbD_or, BitVec.getLsbD_and,
      BitVec.getLsbD_shiftLeft, BitVec.getLsbD_setWidth, smmuSmrMaskOff, hk, hlt, hge, hid,
      hvalid (16 + k) (by omega), decide_true, decide_false, Bool.not_false, Bool.true_and,
      Bool.false_and, Bool.or_false, Nat.add_sub_cancel_left]
  · apply BitVec.eq_of_getLsbD_eq
    intro k hk
    have hlt : k < 16 := by omega
    simp [smmuSmrMaskOff, hk, hvalid k (by omega), hlt, getLsbD_smmuIdMsk]

theorem s2crCbndx_written (s2cr : BitVec 32) {ctx : Nat} (hctx : ctx < 256) :
    s2crCbndx ((s2crClear s2cr ||| s2crDflt) ||| (BitVec.ofNat 32 ctx &&& s2crCbndxMask)) =
      ctx := by
  have hword : bit32Extract ((s2crClear s2cr ||| s2crDflt) |||
      (BitVec.ofNat 32 ctx &&& s2crCbndxMask)) 0 8 = BitVec.ofNat 32 ctx := by
    apply BitVec.eq_of_getLsbD_eq
    intro k hk
    rw [getLsbD_bit32Extract _ 0 (by decide) (by decide)]
    by_cases hlow : k < 8
    · have hhigh : ¬ 30 ≤ k := by omega
      simp [s2crClear, s2crDflt, s2crCbndxMask, getLsbD_granuleMask, hlow, hhigh]
    · have hzero : ctx.testBit k = false := by
        apply Nat.testBit_lt_two_pow
        have := Nat.pow_le_pow_right (n := 2) (by decide) (Nat.le_of_not_lt hlow)
        omega
      rw [BitVec.getLsbD_ofNat, hzero]
      simp [hlow]
  rw [s2crCbndx, hword, BitVec.toNat_ofNat]
  omega

/-! ## What the parts of the driver do -/

theorem bitmapGet_at (m : Store) (b : Nat) : bitmapGet m 0 b = m b := by
  rw [bitmapGet_eq, Nat.zero_add]

theorem bitmapClear_apply (m : Store) (id b : Nat) :
    bitmapClear m 0 id b = (!decide (b = id) && m b) := by
  rw [bitmapClear_eq]
  by_cases hb : b = id
  · rw [hb, fill_inside (by omega) (by omega)]
    simp
  · rw [fill_other (by omega)]
    simp [hb]

namespace Smmu

/-- The VM has been given the bank. -/
def withBank (P : SmmuPlat) (s : Smmu) (vm ctx : Nat) : Smmu :=
  { s with
    ctxbankBitmap := bitmapSet s.ctxbankBitmap 0 ctx
    bank := Function.update s.bank ctx (some ⟨P.rootPt vm, vm⟩)
    ctxId := Function.update s.ctxId vm (some ctx) }

/-- The entry has been allocated and written for the request. -/
def withEntry (P : SmmuPlat) (s : Smmu) (r : StreamRequest) (ctx sme : Nat) : Smmu :=
  { s with
    smeBitmap := bitmapSet s.smeBitmap 0 sme
    smr := Function.update s.smr sme
      (((r.prepMask P <<< smmuSmrMaskOff) ||| (r.prepId &&& smmuIdMsk)) ||| smmuv2SmrValid)
    grpBitmap := if r.group then bitmapSet s.grpBitmap 0 sme else s.grpBitmap
    lastGroup := Function.update s.lastGroup sme (some r.group)
    s2cr := Function.update s.s2cr sme
      ((s2crClear (s.s2cr sme) ||| s2crDflt) ||| (BitVec.ofNat 32 ctx &&& s2crCbndxMask)) }

end Smmu

/-- **`iommu_vm_arch_init_ctx`.**  The VM has a bank, or there is none left, or it
gets a free one. -/
theorem iommuVmArchInitCtx_cases {vm : Nat} {o : Option Nat}
    (h : iommuVmArchInitCtx P s vm = some (o, s')) :
    (∃ ctx, o = some ctx ∧ s.ctxId vm = some ctx ∧ s' = s) ∨
    (o = none ∧ s.ctxId vm = none ∧ s' = s) ∨
    (∃ ctx, o = some ctx ∧ s.ctxId vm = none ∧ ctx < P.ctxNum ∧ s.ctxbankBitmap ctx = false ∧
      s' = s.withBank P vm ctx) := by
  unfold iommuVmArchInitCtx at h
  cases hctx : s.ctxId vm with
  | some ctx =>
    rw [hctx] at h
    cases h
    exact .inl ⟨ctx, rfl, rfl, rfl⟩
  | none =>
    rw [hctx] at h
    simp only [smmuAllocCtxbnk] at h
    cases hfind : bitmapFindNth s.ctxbankBitmap 0 P.ctxNum 1 0 false with
    | none =>
      rw [hfind] at h
      cases h
      exact .inr (.inl ⟨rfl, rfl, rfl⟩)
    | some ctx =>
      obtain ⟨-, hlt, hfree, -⟩ := bitmapFindNth_one_some hfind
      rw [Nat.zero_add] at hfree
      have hset : bitmapGet (bitmapSet s.ctxbankBitmap 0 ctx) 0 ctx ≠ false := by
        rw [bitmapGet_at, bitmapSet_apply]
        simp
      rw [hfind] at h
      simp only [smmuWriteCtxbnk] at h
      rw [if_neg hset] at h
      cases h
      exact .inr (.inr ⟨ctx, rfl, rfl, hlt, hfree, rfl⟩)

/-- **The end of a call.**  No entry is free, or the first free one is written. -/
theorem iommuVmArchAddSme_cases {ctx : Nat} {ok : Bool} (hbank : s.ctxbankBitmap ctx = true)
    (h : iommuVmArchAddSme P s r ctx = some (ok, s')) :
    (ok = false ∧ s' = s ∧ ∀ j, j < P.smeNum → s.smeBitmap j = true) ∨
    (∃ sme, ok = true ∧ sme < P.smeNum ∧ s.smeBitmap sme = false ∧
      (∀ j, j < sme → s.smeBitmap j = true) ∧ s' = s.withEntry P r ctx sme) := by
  unfold iommuVmArchAddSme smmuAllocSme at h
  cases hfind : bitmapFindNth s.smeBitmap 0 P.smeNum 1 0 false with
  | none =>
    have hall := bitmapFindNth_one_none hfind
    rw [hfind] at h
    cases h
    refine .inl ⟨rfl, rfl, fun j hj => ?_⟩
    have hbit := hall j (Nat.zero_le j) hj
    rw [Nat.zero_add] at hbit
    exact eq_true_of_ne_false hbit
  | some sme =>
    obtain ⟨-, hlt, hfree, hbefore⟩ := bitmapFindNth_one_some hfind
    rw [Nat.zero_add] at hfree
    have hset : bitmapGet (bitmapSet s.smeBitmap 0 sme) 0 sme ≠ false := by
      rw [bitmapGet_at, bitmapSet_apply]
      simp
    have hctx : bitmapGet s.ctxbankBitmap 0 ctx ≠ false := by
      rw [bitmapGet_at, hbank]
      simp
    rw [hfind] at h
    simp only [smmuWriteSme, if_neg hset, smmuWriteS2c, if_neg hctx] at h
    cases h
    refine .inr ⟨sme, rfl, hlt, hfree, fun j hj => ?_, rfl⟩
    have hbit := hbefore j (Nat.zero_le j) hj
    rw [Nat.zero_add] at hbit
    exact eq_true_of_ne_false hbit

/-- What the search over the entries `lo` to `hi - 1` did: it stopped at `stop`,
and all entries before that meet the new one have been merged and released. -/
structure Searched (s : Smmu) (mask id : BitVec 32) (ctx : Nat) (group : Bool)
    (lo hi : Nat) (included : Bool) (stop : Nat) (m : Store) : Prop where
  lo_le : lo ≤ stop
  stop_le : stop ≤ hi
  merged : ∀ e, lo ≤ e → e < stop → s.smeBitmap e = true → s.diffId mask id e = 0#32 →
    s.mergeable mask ctx group e = true ∧ s.smeGetMask e < mask
  released : ∀ b, m b =
    (s.smeBitmap b && !(decide (lo ≤ b ∧ b < stop) && decide (s.diffId mask id b = 0#32)))
  found : included = true → stop < hi ∧ s.smeBitmap stop = true ∧
    s.diffId mask id stop = 0#32 ∧ s.mergeable mask ctx group stop = true ∧
    ¬ s.smeGetMask stop < mask
  complete : included = false → stop = hi

theorem compatibleSmeLoop_spec {mask id : BitVec 32} {ctx : Nat} {group included : Bool}
    {left sme : Nat} (h : compatibleSmeLoop mask id ctx group left sme s = some (included, s')) :
    ∃ stop m, s' = { s with smeBitmap := m } ∧
      Searched s mask id ctx group sme (sme + left) included stop m := by
  induction left generalizing s sme with
  | zero =>
    cases h
    refine ⟨sme, s'.smeBitmap, rfl, Nat.le_refl _, Nat.le_refl _, ?_, ?_, nofun, fun _ => rfl⟩
    · intro e hlo hhi
      omega
    · intro b
      have hno : ¬ (sme ≤ b ∧ b < sme) := by omega
      simp [hno]
  | succ left ih =>
    rw [compatibleSmeLoop, bitmapGet_at] at h
    by_cases hskip : s.smeBitmap sme = false ∨ s.diffId mask id sme ≠ 0#32
    · -- the entry is free or meets nothing of the new one
      have hrest : compatibleSmeLoop mask id ctx group left (sme + 1) s = some (included, s') := by
        by_cases hfree : s.smeBitmap sme = false
        · rwa [if_pos hfree] at h
        · rw [if_neg hfree] at h
          rcases hskip with hfree' | hdiff
          · exact (hfree hfree').elim
          · rwa [if_neg hdiff] at h
      obtain ⟨stop, m, rfl, hs⟩ := ih hrest
      have hlo := hs.lo_le
      have hhi := hs.stop_le
      refine ⟨stop, m, rfl, by omega, by omega, ?_, ?_, ?_, ?_⟩
      · intro e he hlt halloc hdiff
        by_cases heq : e = sme
        · rw [heq] at halloc hdiff
          rcases hskip with hfree | hne
          · rw [hfree] at halloc
            cases halloc
          · exact (hne hdiff).elim
        · exact hs.merged e (by omega) hlt halloc hdiff
      · intro b
        rw [hs.released b]
        by_cases heq : b = sme
        · subst heq
          rcases hskip with hfree | hne
          · simp [hfree]
          · simp [hne]
        · have hiff : (sme + 1 ≤ b ∧ b < stop) ↔ (sme ≤ b ∧ b < stop) := by omega
          simp only [hiff]
      · intro hinc
        obtain ⟨hlt, hrest⟩ := hs.found hinc
        exact ⟨by omega, hrest⟩
      · intro hinc
        have := hs.complete hinc
        omega
    · have halloc : s.smeBitmap sme = true :=
        eq_true_of_ne_false fun hfree => hskip (.inl hfree)
      have hdiff : s.diffId mask id sme = 0#32 :=
        Decidable.byContradiction fun hne => hskip (.inr hne)
      rw [if_neg (by rw [halloc]; exact nofun), if_pos hdiff] at h
      by_cases hmerge : s.mergeable mask ctx group sme = true
      · rw [if_pos hmerge] at h
        by_cases hlt : s.smeGetMask sme < mask
        · -- the entry is released and the search goes on
          rw [if_pos hlt] at h
          obtain ⟨stop, m, hs', hs⟩ := ih h
          have hlo := hs.lo_le
          have hhi := hs.stop_le
          have hother : ∀ b, b ≠ sme → bitmapClear s.smeBitmap 0 sme b = s.smeBitmap b := by
            intro b hb
            rw [bitmapClear_apply]
            simp [hb]
          refine ⟨stop, m, hs', by omega, by omega, ?_, ?_, ?_, ?_⟩
          · intro e he hstop he' hd
            by_cases heq : e = sme
            · rw [heq]
              exact ⟨hmerge, hlt⟩
            · exact hs.merged e (by omega) hstop ((hother e heq).trans he') hd
          · intro b
            rw [hs.released b]
            change (bitmapClear s.smeBitmap 0 sme b && _) = _
            by_cases heq : b = sme
            · subst heq
              have hin : b < stop := by omega
              rw [bitmapClear_apply]
              simp [hdiff, hin]
            · have hiff : (sme + 1 ≤ b ∧ b < stop) ↔ (sme ≤ b ∧ b < stop) := by omega
              rw [hother b heq]
              simp only [hiff]
              rfl
          · intro hinc
            obtain ⟨hin, hbit, hrest⟩ := hs.found hinc
            exact ⟨by omega, (hother stop (by omega)).symm.trans hbit, hrest⟩
          · intro hinc
            have := hs.complete hinc
            omega
        · -- the entry includes the new one
          rw [if_neg hlt] at h
          cases h
          refine ⟨sme, s'.smeBitmap, rfl, Nat.le_refl _, by omega, ?_, ?_, ?_, nofun⟩
          · intro e he hstop
            omega
          · intro b
            have hno : ¬ (sme ≤ b ∧ b < sme) := by omega
            simp [hno]
          · intro _
            exact ⟨by omega, halloc, hdiff, hmerge, hlt⟩
      · rw [if_neg hmerge] at h
        cases h

end Bao

import BaoHypervisor.ByteLanes
import BaoHypervisor.Machine
import BaoHypervisor.MaskBits
import BaoHypervisor.StepSystem
import Mathlib.Data.Nat.Nth

/-!
# The CPUs of a VM

At start-up every CPU of a VM sets its bit in `vm->cpus` and waits for the others.  The
number of its vCPU is then the number of bits below its own, and it fills the entry of that
vCPU.  One direction of the translation reads this table, the other one counts bits.
-/

namespace Bao

/-! ## Bits of a `cpumap_t` -/

namespace Cpumap

variable {w : Nat}

/-- `bit_get`. -/
def bitGet (word : BitVec w) (off : Nat) : BitVec w := word &&& (1#w <<< off)

/-- The loop of `bit_count`.  The mask is zero after as many turns as the word has bits. -/
def bitCountLoop (word : BitVec w) : Nat → BitVec w → Nat → Nat
  | 0, _, count => count
  | fuel + 1, mask, count =>
      if mask ≠ 0#w then
        bitCountLoop word fuel (mask <<< 1) (if mask &&& word ≠ 0#w then count + 1 else count)
      else count

/-- `bit_count`. -/
def bitCount (word : BitVec w) : Nat := bitCountLoop word w 1#w 0

end Cpumap

/-! ## The VM -/

variable {W : LongWidth}

/-- The CPUs that a VM is given, all of which have a bit in a `cpumap_t`. -/
structure VmTeam (W : LongWidth) where
  cpus : Finset Nat
  lt : ∀ c ∈ cpus, c < W.bits

/-- The VM has as many vCPUs as it is given CPUs. -/
def VmTeam.cpuNum (T : VmTeam W) : Nat := T.cpus.card

/-- The fields `id` and `phys_id` of `struct vcpu`. -/
structure VcpuIds where
  id : Nat
  physId : Nat

/-- The fields of `struct vm` that the numbering uses. -/
structure VmCpus (W : LongWidth) where
  cpuNum : Nat
  cpus : BitVec W.bits
  vcpus : Nat → VcpuIds

/-- The loop of `vm_calc_vcpu_id` over the CPUs below `cpu()->id`. -/
def vmCalcVcpuId (cpus : BitVec W.bits) : Nat → Nat
  | 0 => 0
  | i + 1 =>
      if Cpumap.bitGet cpus i ≠ 0#W.bits then vmCalcVcpuId cpus i + 1 else vmCalcVcpuId cpus i

namespace VmCpus

variable (vm : VmCpus W)

/-- `vm_get_vcpu`; `none` is the null pointer. -/
def vmGetVcpu (vcpuid : Nat) : Option VcpuIds :=
  if vcpuid < vm.cpuNum then some (vm.vcpus vcpuid) else none

/-- `vm_translate_to_pcpuid`; `none` is `INVALID_CPUID`. -/
def vmTranslateToPcpuid (vcpuid : Nat) : Option Nat := (vm.vmGetVcpu vcpuid).map VcpuIds.physId

/-- `vm_translate_to_vcpuid`. -/
def vmTranslateToVcpuid (pcpuid : Nat) : Option Nat :=
  if vm.cpus &&& (1#W.bits <<< pcpuid) ≠ 0#W.bits then
    some (Cpumap.bitCount (vm.cpus &&& (1#W.bits <<< pcpuid - 1#W.bits)))
  else none

/-- `vm_translate_to_pcpu_mask`. -/
def vmTranslateToPcpuMask (mask : BitVec W.bits) (len : Nat) : BitVec W.bits :=
  MaskBits.route vm.vmTranslateToPcpuid len mask

/-- `vm_translate_to_vcpu_mask`. -/
def vmTranslateToVcpuMask (mask : BitVec W.bits) (len : Nat) : BitVec W.bits :=
  MaskBits.route vm.vmTranslateToVcpuid len mask

/-- `vm_cpu_init` on the CPU `cpu`. -/
def vmCpuInit (cpu : Nat) : VmCpus W := { vm with cpus := vm.cpus ||| 1#W.bits <<< cpu }

/-- `vm_vcpu_init` on the CPU `cpu`; `none` is a null pointer that is followed. -/
def vmVcpuInit (cpu : Nat) : Option (VmCpus W) :=
  let vcpuId := vmCalcVcpuId vm.cpus cpu
  (vm.vmGetVcpu vcpuId).map fun _ =>
    { vm with vcpus := Function.update vm.vcpus vcpuId ⟨vcpuId, cpu⟩ }

end VmCpus

/-- How far a CPU is in `vm_init`. -/
inductive VmInitPc where
  | start
  | registered
  | ready
deriving DecidableEq

structure VmInitState (W : LongWidth) where
  vm : VmCpus W
  pc : Nat → VmInitPc

inductive VmInitEvent where
  | cpuInit (cpu : Nat)
  | vcpuInit (cpu : Nat)

/-- `vm_cpu_init` runs under the lock of the VM, and `vm_vcpu_init` behind a barrier for all
CPUs of the VM. -/
inductive VmInitStep (T : VmTeam W) : VmInitState W → VmInitEvent → VmInitState W → Prop where
  | cpuInit {s : VmInitState W} {cpu : Nat} (hcpu : cpu ∈ T.cpus) (hpc : s.pc cpu = .start) :
      VmInitStep T s (.cpuInit cpu) ⟨s.vm.vmCpuInit cpu, Function.update s.pc cpu .registered⟩
  | vcpuInit {s : VmInitState W} {vm : VmCpus W} {cpu : Nat} (hcpu : cpu ∈ T.cpus)
      (hpc : s.pc cpu = .registered) (hbarrier : ∀ c ∈ T.cpus, s.pc c ≠ .start)
      (hinit : s.vm.vmVcpuInit cpu = some vm) :
      VmInitStep T s (.vcpuInit cpu) ⟨vm, Function.update s.pc cpu .ready⟩

/-- The CPUs of a VM in `vm_init`, in any order. -/
def vmInitSystem (T : VmTeam W) : StepSystem (VmInitState W) VmInitEvent where
  init s := s.vm.cpuNum = T.cpuNum ∧ s.vm.cpus = 0#W.bits ∧ ∀ c, s.pc c = .start
  step := VmInitStep T

/-! ## The numbering -/

/-- The vCPU ids of the CPUs are all numbers below `cpu_num`, in the order of the CPUs. -/
structure Numbered (T : VmTeam W) (cpus : BitVec W.bits) : Prop where
  range : ∀ c ∈ T.cpus, vmCalcVcpuId cpus c < T.cpuNum
  increasing : ∀ c ∈ T.cpus, ∀ c' ∈ T.cpus, c < c' → vmCalcVcpuId cpus c < vmCalcVcpuId cpus c'
  onto : ∀ v, v < T.cpuNum → ∃ c ∈ T.cpus, vmCalcVcpuId cpus c = v

/-- The translations of ids are inverse to each other on the VM and invalid elsewhere, and
so are those of masks. -/
structure Translates (T : VmTeam W) (vm : VmCpus W) : Prop where
  vcpu : ∀ v, v < T.cpuNum → ∃ c ∈ T.cpus, vm.vmTranslateToPcpuid v = some c ∧
    vm.vmTranslateToVcpuid c = some v
  cpu : ∀ c ∈ T.cpus, ∃ v, v < T.cpuNum ∧ vm.vmTranslateToVcpuid c = some v ∧
    vm.vmTranslateToPcpuid v = some c
  noVcpu : ∀ v, T.cpuNum ≤ v → vm.vmTranslateToPcpuid v = none
  noCpu : ∀ c, c < W.bits → c ∉ T.cpus → vm.vmTranslateToVcpuid c = none
  back : ∀ mask len len' v,
    (vm.vmTranslateToVcpuMask (vm.vmTranslateToPcpuMask mask len) len').getLsbD v = true ↔
      v < len ∧ mask.getLsbD v = true ∧ ∃ c, vm.vmTranslateToPcpuid v = some c ∧ c < len'
  identity : ∀ mask len len', (∀ v, mask.getLsbD v = true → v < T.cpuNum) → T.cpuNum ≤ len →
    (∀ c ∈ T.cpus, c < len') →
    vm.vmTranslateToVcpuMask (vm.vmTranslateToPcpuMask mask len) len' = mask
  monotone : ∀ mask mask' : BitVec W.bits, (∀ i, mask.getLsbD i = true → mask'.getLsbD i = true) →
    ∀ len i, ((vm.vmTranslateToPcpuMask mask len).getLsbD i = true →
        (vm.vmTranslateToPcpuMask mask' len).getLsbD i = true) ∧
      ((vm.vmTranslateToVcpuMask mask len).getLsbD i = true →
        (vm.vmTranslateToVcpuMask mask' len).getLsbD i = true)
  confined : ∀ mask len i, ((vm.vmTranslateToPcpuMask mask len).getLsbD i = true → i ∈ T.cpus) ∧
    ((vm.vmTranslateToVcpuMask mask len).getLsbD i = true → i < T.cpuNum)

/-! ## Counting bits -/

namespace Cpumap

variable {w : Nat} {word : BitVec w}

theorem bitGet_ne_zero {off : Nat} (hoff : off < w) :
    bitGet word off ≠ 0#w ↔ word.getLsbD off = true := by
  rw [bitGet, BitVec.and_comm, ← BitMemory.oneBit_and_ne_zero hoff word, bne_iff_ne]

/-- After `i` turns the mask has bit `i`, and the bits below it are counted. -/
theorem bitCountLoop_eq {fuel i : Nat} (h : i + fuel = w) :
    bitCountLoop word fuel (1#w <<< i) (Nat.count (fun j => word.getLsbD j = true) i) =
      Nat.count (fun j => word.getLsbD j = true) w := by
  induction fuel generalizing i with
  | zero =>
      have hend : i = w := h
      rw [bitCountLoop, hend]
  | succ fuel ih =>
      have hi : i < w := by omega
      have hmask : 1#w <<< i ≠ 0#w := by
        intro hzero
        have hbit := WordRegs.getLsbD_mask (n := w) (i := i) hi
        rw [hzero, BitVec.getLsbD_zero] at hbit
        simp at hbit
      have hnext : 1#w <<< i <<< 1 = 1#w <<< (i + 1) := by rw [BitVec.shiftLeft_add]
      have hset : 1#w <<< i &&& word ≠ 0#w ↔ word.getLsbD i = true := by
        rw [BitVec.and_comm]
        exact bitGet_ne_zero hi
      have hcount : (if 1#w <<< i &&& word ≠ 0#w then
          Nat.count (fun j => word.getLsbD j = true) i + 1
          else Nat.count (fun j => word.getLsbD j = true) i) =
          Nat.count (fun j => word.getLsbD j = true) (i + 1) := by
        rw [Nat.count_succ]
        by_cases hbit : word.getLsbD i = true
        · rw [if_pos (hset.mpr hbit), if_pos hbit]
        · rw [if_neg (fun hne => hbit (hset.mp hne)), if_neg hbit, Nat.add_zero]
      rw [bitCountLoop, if_pos hmask, hnext, hcount]
      exact ih (by omega)

theorem bitCount_eq (word : BitVec w) :
    bitCount word = Nat.count (fun j => word.getLsbD j = true) w := by
  have h : bitCountLoop word w (1#w <<< 0) (Nat.count (fun j => word.getLsbD j = true) 0) =
      Nat.count (fun j => word.getLsbD j = true) w := bitCountLoop_eq (Nat.zero_add w)
  rwa [BitVec.shiftLeft_zero, Nat.count_zero] at h

/-- The mask of all bits below bit `c`. -/
theorem getLsbD_below {c j : Nat} (hc : c < w) :
    (1#w <<< c - 1#w).getLsbD j = decide (j < c) := by
  have hpow : 2 ^ c < 2 ^ w := Nat.pow_lt_pow_right Nat.one_lt_two hc
  have hpos : 0 < 2 ^ c := Nat.two_pow_pos c
  have hnat : (1#w <<< c - 1#w).toNat = 2 ^ c - 1 := by
    have hone : 1 < 2 ^ w := by omega
    rw [BitVec.toNat_sub, BitVec.toNat_shiftLeft, BitVec.toNat_ofNat, Nat.mod_eq_of_lt hone,
      Nat.one_shiftLeft, Nat.mod_eq_of_lt hpow]
    have hsum : 2 ^ w - 1 + 2 ^ c = 2 ^ c - 1 + 2 ^ w := by omega
    rw [hsum, Nat.add_mod_right]
    exact Nat.mod_eq_of_lt (by omega)
  rw [← BitVec.testBit_toNat, hnat, Nat.testBit_two_pow_sub_one]

end Cpumap

variable {T : VmTeam W} {vm : VmCpus W} {cpus : BitVec W.bits}

/-- The number of CPUs of the VM below the CPU. -/
def VmTeam.rank (T : VmTeam W) (c : Nat) : Nat := Nat.count (· ∈ T.cpus) c

/-- The CPUs of the VM are registered. -/
def VmTeam.Registered (T : VmTeam W) (cpus : BitVec W.bits) : Prop :=
  ∀ c, cpus.getLsbD c = true ↔ c ∈ T.cpus

theorem VmTeam.rank_lt {c : Nat} (hc : c ∈ T.cpus) : T.rank c < T.cpuNum := by
  rw [VmTeam.rank, Nat.count_eq_card_filter_range]
  apply Finset.card_lt_card
  refine ⟨fun x hx => (Finset.mem_filter.mp hx).2, fun hsub => ?_⟩
  have hmem := (Finset.mem_filter.mp (hsub hc)).1
  exact absurd (Finset.mem_range.mp hmem) (Nat.lt_irrefl c)

theorem VmTeam.rank_lt_rank {c c' : Nat} (hc : c ∈ T.cpus) (hlt : c < c') :
    T.rank c < T.rank c' := Nat.count_strict_mono hc hlt

theorem VmTeam.rank_inj {c c' : Nat} (hc : c ∈ T.cpus) (hc' : c' ∈ T.cpus)
    (heq : T.rank c = T.rank c') : c = c' := Nat.count_injective hc hc' heq

theorem VmTeam.rank_onto {v : Nat} (hv : v < T.cpuNum) : ∃ c ∈ T.cpus, T.rank c = v := by
  have hcard : ∀ hf : (Set.ofPred (· ∈ T.cpus)).Finite, v < hf.toFinset.card := by
    intro hf
    have heq : hf.toFinset = T.cpus := by
      ext c
      rw [Set.Finite.mem_toFinset]
      rfl
    rw [heq]
    exact hv
  exact ⟨Nat.nth (· ∈ T.cpus) v, Nat.nth_mem v hcard, Nat.count_nth hcard⟩

theorem vmCalcVcpuId_eq (h : T.Registered cpus) {c : Nat} (hc : c ≤ W.bits) :
    vmCalcVcpuId cpus c = T.rank c := by
  induction c with
  | zero => rfl
  | succ c ih =>
      have hset : Cpumap.bitGet cpus c ≠ 0#W.bits ↔ c ∈ T.cpus :=
        (Cpumap.bitGet_ne_zero hc).trans (h c)
      rw [vmCalcVcpuId, ih (Nat.le_of_succ_le hc), VmTeam.rank, VmTeam.rank, Nat.count_succ]
      by_cases hmem : c ∈ T.cpus
      · rw [if_pos (hset.mpr hmem), if_pos hmem]
      · rw [if_neg (fun hne => hmem (hset.mp hne)), if_neg hmem, Nat.add_zero]

theorem vmTranslateToVcpuid_eq (h : T.Registered vm.cpus) {c : Nat} (hc : c < W.bits) :
    vm.vmTranslateToVcpuid c = if c ∈ T.cpus then some (T.rank c) else none := by
  have hset : vm.cpus &&& (1#W.bits <<< c) ≠ 0#W.bits ↔ c ∈ T.cpus :=
    (Cpumap.bitGet_ne_zero hc).trans (h c)
  have hcount : Cpumap.bitCount (vm.cpus &&& (1#W.bits <<< c - 1#W.bits)) = T.rank c := by
    rw [Cpumap.bitCount_eq, VmTeam.rank, Nat.count_eq_card_filter_range,
      Nat.count_eq_card_filter_range]
    congr 1
    ext j
    rw [Finset.mem_filter, Finset.mem_filter, Finset.mem_range, Finset.mem_range,
      BitVec.getLsbD_and, Cpumap.getLsbD_below hc, Bool.and_eq_true, h j, decide_eq_true_eq]
    constructor
    · exact fun hj => ⟨hj.2.2, hj.2.1⟩
    · exact fun hj => ⟨T.lt j hj.2, hj.2, hj.1⟩
  rw [VmCpus.vmTranslateToVcpuid, hcount]
  by_cases hmem : c ∈ T.cpus
  · rw [if_pos (hset.mpr hmem), if_pos hmem]
  · rw [if_neg (fun hne => hmem (hset.mp hne)), if_neg hmem]

theorem numbered_of_registered (h : T.Registered cpus) : Numbered T cpus where
  range := by
    intro c hc
    rw [vmCalcVcpuId_eq h (Nat.le_of_lt (T.lt c hc))]
    exact VmTeam.rank_lt hc
  increasing := by
    intro c hc c' hc' hlt
    rw [vmCalcVcpuId_eq h (Nat.le_of_lt (T.lt c hc)), vmCalcVcpuId_eq h (Nat.le_of_lt (T.lt c' hc'))]
    exact VmTeam.rank_lt_rank hc hlt
  onto := by
    intro v hv
    obtain ⟨c, hc, hrank⟩ := VmTeam.rank_onto hv
    exact ⟨c, hc, by rw [vmCalcVcpuId_eq h (Nat.le_of_lt (T.lt c hc)), hrank]⟩

theorem vmTranslateToPcpuid_eq (hnum : vm.cpuNum = T.cpuNum)
    (hvcpus : ∀ c ∈ T.cpus, vm.vcpus (T.rank c) = ⟨T.rank c, c⟩) {v c : Nat} :
    vm.vmTranslateToPcpuid v = some c ↔ c ∈ T.cpus ∧ T.rank c = v := by
  rw [VmCpus.vmTranslateToPcpuid, VmCpus.vmGetVcpu, hnum]
  by_cases hv : v < T.cpuNum
  · obtain ⟨d, hd, rfl⟩ := VmTeam.rank_onto hv
    rw [if_pos hv, hvcpus d hd, Option.map_some, Option.some.injEq]
    constructor
    · rintro rfl
      exact ⟨hd, rfl⟩
    · exact fun h => VmTeam.rank_inj hd h.1 h.2.symm
  · rw [if_neg hv, Option.map_none]
    constructor
    · intro h
      cases h
    · rintro ⟨hc, rfl⟩
      exact absurd (VmTeam.rank_lt hc) hv

/-- **The translations**, once the table is filled. -/
theorem translates_of_filled (h : T.Registered vm.cpus) (hnum : vm.cpuNum = T.cpuNum)
    (hvcpus : ∀ c ∈ T.cpus, vm.vcpus (T.rank c) = ⟨T.rank c, c⟩) : Translates T vm := by
  have hpcpu : ∀ {v c}, vm.vmTranslateToPcpuid v = some c ↔ c ∈ T.cpus ∧ T.rank c = v :=
    vmTranslateToPcpuid_eq hnum hvcpus
  have hvcpu : ∀ {c v}, c < W.bits →
      (vm.vmTranslateToVcpuid c = some v ↔ c ∈ T.cpus ∧ T.rank c = v) := by
    intro c v hc
    rw [vmTranslateToVcpuid_eq h hc]
    by_cases hmem : c ∈ T.cpus
    · simp [hmem]
    · simp [hmem]
  have hbound : ∀ {v}, v < T.cpuNum → v < W.bits := by
    intro v hv
    have hsub : T.cpus ⊆ Finset.range W.bits := fun c hc => Finset.mem_range.mpr (T.lt c hc)
    have hcard := Finset.card_le_card hsub
    rw [Finset.card_range] at hcard
    exact Nat.lt_of_lt_of_le hv hcard
  have hback : ∀ mask len len' v,
      (vm.vmTranslateToVcpuMask (vm.vmTranslateToPcpuMask mask len) len').getLsbD v = true ↔
        v < len ∧ mask.getLsbD v = true ∧ ∃ c, vm.vmTranslateToPcpuid v = some c ∧ c < len' := by
    intro mask len len' v
    rw [VmCpus.vmTranslateToVcpuMask, VmCpus.vmTranslateToPcpuMask, MaskBits.getLsbD_route]
    constructor
    · rintro ⟨-, c, hclen, hset, hc⟩
      obtain ⟨hcw, v', hvlen, hmask, hv'⟩ := (MaskBits.getLsbD_route _ _ _).mp hset
      obtain ⟨hmem, rfl⟩ := (hvcpu hcw).mp hc
      obtain ⟨-, rfl⟩ := hpcpu.mp hv'
      exact ⟨hvlen, hmask, c, hv', hclen⟩
    · rintro ⟨hvlen, hmask, c, hc, hclen⟩
      obtain ⟨hmem, rfl⟩ := hpcpu.mp hc
      have hcw := T.lt c hmem
      refine ⟨hbound (VmTeam.rank_lt hmem), c, hclen, ?_, (hvcpu hcw).mpr ⟨hmem, rfl⟩⟩
      exact (MaskBits.getLsbD_route _ _ _).mpr ⟨hcw, _, hvlen, hmask, hc⟩
  refine ⟨?_, ?_, ?_, ?_, hback, ?_, ?_, ?_⟩
  · intro v hv
    obtain ⟨c, hc, hrank⟩ := VmTeam.rank_onto hv
    exact ⟨c, hc, hpcpu.mpr ⟨hc, hrank⟩, (hvcpu (T.lt c hc)).mpr ⟨hc, hrank⟩⟩
  · intro c hc
    exact ⟨T.rank c, VmTeam.rank_lt hc, (hvcpu (T.lt c hc)).mpr ⟨hc, rfl⟩, hpcpu.mpr ⟨hc, rfl⟩⟩
  · intro v hv
    rw [VmCpus.vmTranslateToPcpuid, VmCpus.vmGetVcpu, hnum, if_neg (Nat.not_lt.mpr hv)]
    rfl
  · intro c hc hmem
    rw [vmTranslateToVcpuid_eq h hc, if_neg hmem]
  · intro mask len len' hmask hlen hlen'
    apply BitVec.eq_of_getLsbD_eq
    intro v _
    rw [Bool.eq_iff_iff, hback]
    constructor
    · exact fun hv => hv.2.1
    · intro hset
      have hv := hmask v hset
      obtain ⟨c, hc, hrank⟩ := VmTeam.rank_onto hv
      exact ⟨Nat.lt_of_lt_of_le hv hlen, hset, c, hpcpu.mpr ⟨hc, hrank⟩, hlen' c hc⟩
  · intro mask mask' hsub len i
    constructor
    · intro hset
      obtain ⟨hi, j, hj, hbit, hplace⟩ := (MaskBits.getLsbD_route _ _ _).mp hset
      exact (MaskBits.getLsbD_route _ _ _).mpr ⟨hi, j, hj, hsub j hbit, hplace⟩
    · intro hset
      obtain ⟨hi, j, hj, hbit, hplace⟩ := (MaskBits.getLsbD_route _ _ _).mp hset
      exact (MaskBits.getLsbD_route _ _ _).mpr ⟨hi, j, hj, hsub j hbit, hplace⟩
  · intro mask len i
    constructor
    · intro hset
      obtain ⟨-, v, -, -, hplace⟩ := (MaskBits.getLsbD_route _ _ _).mp hset
      exact (hpcpu.mp hplace).1
    · intro hset
      obtain ⟨-, c, -, hbit, hplace⟩ := (MaskBits.getLsbD_route _ _ _).mp hset
      obtain ⟨hmem, rfl⟩ := (hvcpu (BitVec.lt_of_getLsbD hbit)).mp hplace
      exact VmTeam.rank_lt hmem

/-! ## Start-up -/

/-- What holds during `vm_init`. -/
structure VmInitInv (T : VmTeam W) (s : VmInitState W) : Prop where
  cpuNum : s.vm.cpuNum = T.cpuNum
  cpus : ∀ c, s.vm.cpus.getLsbD c = true ↔ c ∈ T.cpus ∧ s.pc c ≠ .start
  behind : ∀ c, s.pc c = .ready → ∀ c' ∈ T.cpus, s.pc c' ≠ .start
  filled : ∀ c ∈ T.cpus, s.pc c = .ready → s.vm.vcpus (T.rank c) = ⟨T.rank c, c⟩

theorem VmInitInv.registered {s : VmInitState W} (h : VmInitInv T s)
    (hall : ∀ c ∈ T.cpus, s.pc c ≠ .start) : T.Registered s.vm.cpus :=
  fun c => (h.cpus c).trans ⟨fun hc => hc.1, fun hc => ⟨hc, hall c hc⟩⟩

theorem VmInitInv.vmVcpuInit_eq {s : VmInitState W} {cpu : Nat} (h : VmInitInv T s)
    (hall : ∀ c ∈ T.cpus, s.pc c ≠ .start) (hcpu : cpu ∈ T.cpus) :
    s.vm.vmVcpuInit cpu = some { s.vm with
      vcpus := Function.update s.vm.vcpus (T.rank cpu) ⟨T.rank cpu, cpu⟩ } := by
  have hid := vmCalcVcpuId_eq (h.registered hall) (Nat.le_of_lt (T.lt cpu hcpu))
  have hlt : T.rank cpu < s.vm.cpuNum := by
    rw [h.cpuNum]
    exact VmTeam.rank_lt hcpu
  rw [VmCpus.vmVcpuInit, hid, VmCpus.vmGetVcpu, if_pos hlt]
  rfl

/-- **One step of a CPU.** -/
theorem VmInitInv.step {s s' : VmInitState W} {e : VmInitEvent} (h : VmInitInv T s)
    (hstep : VmInitStep T s e s') : VmInitInv T s' := by
  cases hstep with
  | @cpuInit cpu hcpu hpc =>
      have hready : ∀ c, Function.update s.pc cpu .registered c = .ready →
          c ≠ cpu ∧ s.pc c = .ready := by
        intro c hc
        by_cases heq : c = cpu
        · subst heq
          rw [Function.update_self] at hc
          cases hc
        · rw [Function.update_of_ne heq] at hc
          exact ⟨heq, hc⟩
      refine ⟨h.cpuNum, fun c => ?_, fun c hc => ?_, fun c hmem hc => ?_⟩
      · dsimp only [VmCpus.vmCpuInit]
        by_cases hc : c = cpu
        · subst hc
          have hbit : (1#W.bits <<< c).getLsbD c = true := by
            rw [WordRegs.getLsbD_mask (T.lt c hcpu), decide_eq_true rfl]
          rw [BitVec.getLsbD_or, hbit, Bool.or_true, Function.update_self]
          exact ⟨fun _ => ⟨hcpu, VmInitPc.noConfusion⟩, fun _ => rfl⟩
        · have hbit : (1#W.bits <<< cpu).getLsbD c = false := by
            by_cases hlt : c < W.bits
            · rw [WordRegs.getLsbD_mask hlt, decide_eq_false hc]
            · exact BitVec.getLsbD_of_ge _ _ (Nat.le_of_not_lt hlt)
          rw [BitVec.getLsbD_or, hbit, Bool.or_false, Function.update_of_ne hc]
          exact h.cpus c
      · exact absurd hpc (h.behind c (hready c hc).2 cpu hcpu)
      · exact absurd hpc (h.behind c (hready c hc).2 cpu hcpu)
  | @vcpuInit vm cpu hcpu hpc hbarrier hinit =>
      rw [h.vmVcpuInit_eq hbarrier hcpu] at hinit
      obtain rfl := Option.some.inj hinit
      have hstart : ∀ c, Function.update s.pc cpu .ready c ≠ .start ↔ s.pc c ≠ .start := by
        intro c
        by_cases hc : c = cpu
        · subst hc
          rw [Function.update_self, hpc]
          exact ⟨fun _ => VmInitPc.noConfusion, fun _ => VmInitPc.noConfusion⟩
        · rw [Function.update_of_ne hc]
      refine ⟨h.cpuNum, fun c => ?_, fun c _ c' hc' => (hstart c').mpr (hbarrier c' hc'),
        fun c hmem hc => ?_⟩
      · rw [hstart]
        exact h.cpus c
      · dsimp only
        by_cases heq : c = cpu
        · rw [heq, Function.update_self]
        · dsimp only at hc
          rw [Function.update_of_ne heq] at hc
          rw [Function.update_of_ne (fun hrank => heq (VmTeam.rank_inj hmem hcpu hrank))]
          exact h.filled c hmem hc

theorem vmInitInv_reachable {s : VmInitState W} (h : (vmInitSystem T).Reachable s) :
    VmInitInv T s := by
  have hinit : ∀ s, (vmInitSystem T).init s → VmInitInv T s := by
    rintro s ⟨hnum, hcpus, hpc⟩
    refine ⟨hnum, fun c => ?_, fun c hc => ?_, fun c _ hc => ?_⟩
    · rw [hcpus, BitVec.getLsbD_zero, hpc c]
      exact ⟨fun hbit => absurd hbit Bool.false_ne_true, fun hne => absurd rfl hne.2⟩
    · rw [hpc c] at hc
      cases hc
    · rw [hpc c] at hc
      cases hc
  exact h.invariant hinit fun s e s' hs _ hstep => hs.step hstep

/-- **The vCPU numbering is a bijection**, for every set of CPUs and every order of their
steps.  Once all CPUs are registered their vCPU ids are the numbers below `cpu_num` in
order, and no CPU follows a null pointer; once all are ready the translations of ids and
of masks are inverse to each other. -/
theorem vcpu_numbering {s : VmInitState W} (h : (vmInitSystem T).Reachable s) :
    ((∀ c ∈ T.cpus, s.pc c ≠ .start) → Numbered T s.vm.cpus ∧
      ∀ c ∈ T.cpus, (s.vm.vmVcpuInit c).isSome = true) ∧
    ((∀ c ∈ T.cpus, s.pc c = .ready) → Numbered T s.vm.cpus ∧ Translates T s.vm) := by
  have hinv := vmInitInv_reachable h
  refine ⟨fun hall => ⟨numbered_of_registered (hinv.registered hall), fun c hc => ?_⟩,
    fun hready => ?_⟩
  · rw [hinv.vmVcpuInit_eq hall hc]
    rfl
  · have hall : ∀ c ∈ T.cpus, s.pc c ≠ .start := by
      intro c hc
      rw [hready c hc]
      exact VmInitPc.noConfusion
    have hreg := hinv.registered hall
    exact ⟨numbered_of_registered hreg, translates_of_filled hreg hinv.cpuNum
      fun c hc => hinv.filled c hc (hready c hc)⟩

/-- A VM of the CPUs 0 and 2, which register themselves in turn. -/
theorem vcpu_numbering_two : ∃ s : VmInitState ⟨32, Nat.le_refl 32⟩,
    Translates ⟨{0, 2}, by decide⟩ s.vm ∧ s.vm.vmTranslateToPcpuid 1 = some 2 := by
  let T : VmTeam ⟨32, Nat.le_refl 32⟩ := ⟨{0, 2}, by decide⟩
  have hstart : (vmInitSystem T).Reachable ⟨⟨2, 0#32, fun _ => ⟨0, 0⟩⟩, fun _ => .start⟩ :=
    .init ⟨rfl, rfl, fun _ => rfl⟩
  have htwo := hstart.step trivial (@VmInitStep.cpuInit _ T _ 2 (by decide) rfl)
  have hzero := htwo.step trivial (@VmInitStep.cpuInit _ T _ 0 (by decide) rfl)
  have hinit := hzero.step trivial (@VmInitStep.vcpuInit _ T _ _ 0 (by decide) rfl (by decide) rfl)
  have hall := hinit.step trivial (@VmInitStep.vcpuInit _ T _ _ 2 (by decide) rfl (by decide) rfl)
  exact ⟨_, ((vcpu_numbering hall).2 (by decide)).2, by decide⟩

end Bao

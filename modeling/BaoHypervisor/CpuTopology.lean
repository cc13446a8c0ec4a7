import BaoHypervisor.PsciStart

/-!
# CPU numbers and affinities

`platform_arch_cpuid_to_mpidr`: the affinity of a CPU comes from a table of the
platform, from the cores of its clusters or from the CPU's number.
-/

namespace Bao

/-- `MPIDR_MT_BIT`. -/
def mpidrMtBit : Nat := 2 ^ 24

/-- The CPUs of a platform: the table and the clusters of its description, and
`MPIDR_MT_BIT` as every CPU has it.  Where there are clusters they hold all
CPUs; otherwise the translation stops with an error. -/
structure CpuTopology where
  cpuNum : Nat
  mpidrTable : Option (Nat → Nat)
  coreNum : List Nat
  hasMt : Bool
  covered : coreNum ≠ [] → cpuNum ≤ coreNum.sum

namespace CpuTopology

variable (t : CpuTopology)

/-- The loop over the clusters, from one on whose first CPU is `base`. -/
def clusterMpidr (hasMt : Bool) (cpuid : Nat) : List Nat → Nat → Nat → Nat
  | [], _, _ => 0
  | cores :: rest, cluster, base =>
      if cpuid < base + cores then
        let core := cpuid - base
        if hasMt then cluster <<< 16 ||| core <<< 8 else cluster <<< 8 ||| core &&& 0xff
      else clusterMpidr hasMt cpuid rest (cluster + 1) (base + cores)

/-- `platform_arch_cpuid_to_mpidr`. -/
def platformArchCpuidToMpidr (cpuid : Nat) : Nat :=
  let single := if t.cpuNum = 1 then mpidrUBit else 0
  if t.cpuNum ≤ cpuid then 0xffffffffbe000000
  else match t.mpidrTable with
    | some table => table cpuid ||| mpidrRes1 ||| single
    | none =>
        let mpidr :=
          if t.coreNum ≠ [] then clusterMpidr t.hasMt cpuid t.coreNum 0 0
          else if t.hasMt then cpuid <<< 8
          else cpuid
        mpidr ||| mpidrRes1 ||| single ||| if t.hasMt then mpidrMtBit else 0

/-- The affinity of a CPU, `cpu_id_to_mpidr(cpuid) & MPIDR_AFF_MSK`. -/
def affinity (cpuid : Nat) : Nat := t.platformArchCpuidToMpidr cpuid &&& mpidrAffMsk

theorem affinity_flags (n : Nat) (single mt : Bool) :
    (n ||| mpidrRes1 ||| (if single then mpidrUBit else 0) ||| if mt then mpidrMtBit else 0)
      &&& mpidrAffMsk = n % 2 ^ 24 := by
  have hmask : ∀ m, m &&& mpidrAffMsk = m % 2 ^ 24 := fun m => Nat.and_two_pow_sub_one_eq_mod m 24
  rw [hmask, Nat.or_mod_two_pow, Nat.or_mod_two_pow, Nat.or_mod_two_pow]
  cases single <;> cases mt <;> simp [mpidrRes1, mpidrUBit, mpidrMtBit]

theorem affinity_flat (htable : t.mpidrTable = none) (hflat : t.coreNum = [])
    (hmt : t.hasMt = false) {cpuid : Nat} (hcpu : cpuid < t.cpuNum) :
    t.affinity cpuid = cpuid % 2 ^ 24 := by
  have hvalid : ¬ t.cpuNum ≤ cpuid := Nat.not_le.mpr hcpu
  have hflags := affinity_flags cpuid (decide (t.cpuNum = 1)) false
  unfold affinity platformArchCpuidToMpidr
  rw [if_neg hvalid, htable, hflat, hmt]
  simpa using hflags

end CpuTopology

end Bao

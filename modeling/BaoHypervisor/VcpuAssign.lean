import BaoHypervisor.StepSystem
import Mathlib.Algebra.Order.BigOperators.Group.Finset

/-!
# Assignment of CPUs to VMs

`vmm_assign_vcpu` of `core/vmm.c`.  Every CPU first scans the VMs whose
affinity names it and takes a place in one of them, waits at a barrier, and
takes any place left if it has none yet.  The first CPU of a VM becomes its
master.  Each VM's record is read and written under the record's lock, so an
examination of one VM is one step; the steps of different CPUs interleave
freely, and a CPU passes the barrier once every CPU reached it.
-/

namespace Bao

open Finset

/-- The part of the configuration that the assignment reads: per VM the
affinity mask and the number of CPUs it asks for, and the number of CPUs of
the platform, which are enough. -/
structure AssignConfig where
  vmlistSize : Nat
  cpuAffinity : Nat → Nat
  cpuNum : Nat → Nat
  platformCpuNum : Nat
  cpuNum_pos : ∀ i, i < vmlistSize → 1 ≤ cpuNum i
  enough : ∑ i ∈ range vmlistSize, cpuNum i ≤ platformCpuNum

/-- The affinity of VM `i` names the CPU `cpu`. -/
abbrev AssignConfig.Names (cfg : AssignConfig) (i cpu : Nat) : Prop :=
  (cfg.cpuAffinity i).testBit cpu = true

/-- The fields of `struct vm_assignment` that count the CPUs of a VM. -/
structure VmAssignment where
  master : Bool
  ncpus : Nat
  cpus : Nat
deriving DecidableEq

/-- The locked part of the first loop: the result for the CPU, if it is taken,
and the VM's record. -/
def takeByAffinity (cpuNum cpu : Nat) (a : VmAssignment) : Option (Bool × VmAssignment) :=
  if a.master = false then
    some (true, { master := true, ncpus := a.ncpus + 1, cpus := a.cpus ||| 1 <<< cpu })
  else if a.ncpus < cpuNum then
    some (false, { a with ncpus := a.ncpus + 1, cpus := a.cpus ||| 1 <<< cpu })
  else none

/-- The locked part of the second loop. -/
def takeAny (cpuNum cpu : Nat) (a : VmAssignment) : Option (Bool × VmAssignment) :=
  if a.ncpus < cpuNum then
    if a.master = false then
      some (true, { master := true, ncpus := a.ncpus + 1, cpus := a.cpus ||| 1 <<< cpu })
    else some (false, { a with ncpus := a.ncpus + 1, cpus := a.cpus ||| 1 <<< cpu })
  else none

/-- Where a CPU is: about to look at VM `i` in one of the loops, at the
barrier between them, or back from the function. -/
inductive AssignPc
  | affinity (i : Nat)
  | barrier
  | any (i : Nat)
  | done
deriving DecidableEq

/-- The CPU is at the barrier or past it. -/
def AssignPc.arrived : AssignPc → Bool
  | .affinity _ => false
  | _ => true

/-- The local variables of one CPU: `assigned`, `*master` and `*vm_id`, and
the records it read under the lock in the first loop. -/
structure AssignCpu where
  pc : AssignPc
  assigned : Bool
  master : Bool
  vmId : Nat
  read : List (Nat × VmAssignment)

/-- The array `vm_assign` and the CPUs. -/
structure AssignState where
  vmAssign : Nat → VmAssignment
  cpu : Nat → AssignCpu

namespace AssignState

/-- `cpu` goes on at `pc`. -/
def goto (s : AssignState) (cpu : Nat) (pc : AssignPc) : AssignState :=
  { s with cpu := Function.update s.cpu cpu { s.cpu cpu with pc := pc } }

/-- `cpu` took a place in VM `i`, whose record becomes `a`. -/
def join (s : AssignState) (cpu i : Nat) (master : Bool) (a : VmAssignment) : AssignState where
  vmAssign := Function.update s.vmAssign i a
  cpu := Function.update s.cpu cpu
    { s.cpu cpu with assigned := true, master := master, vmId := i }

/-- The outcome of a locked part for `cpu` and VM `i`. -/
def settle (s : AssignState) (cpu i : Nat) : Option (Bool × VmAssignment) → AssignState
  | some (master, a) => s.join cpu i master a
  | none => s

/-- `cpu` remembers the record of VM `i`. -/
def note (s : AssignState) (cpu i : Nat) : AssignState :=
  { s with
    cpu := Function.update s.cpu cpu
      { s.cpu cpu with read := (i, s.vmAssign i) :: (s.cpu cpu).read } }

/-- VM `i` is the one `cpu` was told. -/
def told (s : AssignState) (i cpu : Nat) : Bool :=
  (s.cpu cpu).assigned && decide ((s.cpu cpu).vmId = i)

/-- The CPUs that were told VM `i`. -/
def team (cfg : AssignConfig) (s : AssignState) (i : Nat) : Finset Nat :=
  (range cfg.platformCpuNum).filter fun cpu => s.told i cpu = true

end AssignState

/-- `vmm_assign_vcpu` on the CPU `cpu`, one step. -/
def vmmAssignVcpu (cfg : AssignConfig) (s : AssignState) (cpu : Nat) : Option AssignState :=
  match (s.cpu cpu).pc with
  | .affinity i =>
      if i < cfg.vmlistSize ∧ (s.cpu cpu).assigned = false then
        if (cfg.cpuAffinity i).testBit cpu = true then
          let r := takeByAffinity (cfg.cpuNum i) cpu (s.vmAssign i)
          some ((((s.note cpu i).settle cpu i r)).goto cpu (.affinity (i + 1)))
        else some (s.goto cpu (.affinity (i + 1)))
      else some (s.goto cpu .barrier)
  | .barrier =>
      if ∀ c, c < cfg.platformCpuNum → (s.cpu c).pc.arrived = true then
        some (s.goto cpu (if (s.cpu cpu).assigned = false then .any 0 else .done))
      else none
  | .any i =>
      if i < cfg.vmlistSize ∧ (s.cpu cpu).assigned = false then
        let r := takeAny (cfg.cpuNum i) cpu (s.vmAssign i)
        some ((s.settle cpu i r).goto cpu (.any (i + 1)))
      else some (s.goto cpu .done)
  | .done => none

/-- Nothing is assigned and every CPU enters the function. -/
structure AssignInit (s : AssignState) : Prop where
  vmAssign : ∀ i, s.vmAssign i = ⟨false, 0, 0⟩
  cpu : ∀ c, (s.cpu c).pc = .affinity 0 ∧ (s.cpu c).assigned = false ∧
    (s.cpu c).master = false ∧ (s.cpu c).read = []

/-- The CPUs of the platform run the function. -/
def assignSystem (cfg : AssignConfig) : StepSystem AssignState Nat where
  init := AssignInit
  step := fun s cpu s' => cpu < cfg.platformCpuNum ∧ vmmAssignVcpu cfg s cpu = some s'

/-- What a locked part does to a record whose CPUs are counted: it takes the
CPU exactly when a place is free, as the master of an empty VM. -/
def Takes (cpuNum cpu : Nat) (a : VmAssignment) (r : Option (Bool × VmAssignment)) : Prop :=
  (r = none ∧ cpuNum ≤ a.ncpus) ∨
    (a.ncpus < cpuNum ∧
      r = some (!a.master, { master := true, ncpus := a.ncpus + 1, cpus := a.cpus ||| 1 <<< cpu }))

theorem takeByAffinity_takes {cpuNum cpu : Nat} {a : VmAssignment} (hpos : 1 ≤ cpuNum)
    (hempty : a.master = false → a.ncpus = 0) :
    Takes cpuNum cpu a (takeByAffinity cpuNum cpu a) := by
  obtain ⟨master, ncpus, cpus⟩ := a
  cases master with
  | false =>
      have hzero : ncpus = 0 := hempty rfl
      exact .inr ⟨by rw [hzero]; exact hpos, rfl⟩
  | true =>
      by_cases hroom : ncpus < cpuNum
      · exact .inr ⟨hroom, by simp [takeByAffinity, hroom]⟩
      · exact .inl ⟨by simp [takeByAffinity, hroom], Nat.le_of_not_lt hroom⟩

theorem takeAny_takes (cpuNum cpu : Nat) (a : VmAssignment) :
    Takes cpuNum cpu a (takeAny cpuNum cpu a) := by
  obtain ⟨master, ncpus, cpus⟩ := a
  by_cases hroom : ncpus < cpuNum
  · cases master with
    | false => exact .inr ⟨hroom, by simp [takeAny, hroom]⟩
    | true => exact .inr ⟨hroom, by simp [takeAny, hroom]⟩
  · exact .inl ⟨by simp [takeAny, hroom], Nat.le_of_not_lt hroom⟩

/-! ## The records agree with the CPUs -/

/-- The records of the VMs count and name exactly the CPUs that were told
their ids, of which one is the master. -/
structure Tally (cfg : AssignConfig) (s : AssignState) : Prop where
  count : ∀ i, (s.vmAssign i).ncpus = (s.team cfg i).card
  bits : ∀ i c, (s.vmAssign i).cpus.testBit c = s.told i c
  inside : ∀ i c, s.told i c = true → c < cfg.platformCpuNum ∧ i < cfg.vmlistSize
  le : ∀ i, i < cfg.vmlistSize → (s.vmAssign i).ncpus ≤ cfg.cpuNum i
  empty : ∀ i, (s.vmAssign i).master = false → (s.vmAssign i).ncpus = 0
  head : ∀ i, (s.vmAssign i).master = true → ∃ c, s.told i c = true ∧ (s.cpu c).master = true
  heads : ∀ i c, s.told i c = true → (s.cpu c).master = true → (s.vmAssign i).master = true
  one : ∀ i c d, s.told i c = true → s.told i d = true → (s.cpu c).master = true →
    (s.cpu d).master = true → c = d

section

variable {cfg : AssignConfig} {s s' : AssignState}

theorem Tally.initial (hinit : AssignInit s) : Tally cfg s := by
  have htold : ∀ i c, s.told i c = false := by
    intro i c
    rw [AssignState.told, (hinit.cpu c).2.1, Bool.false_and]
  constructor
  · intro i
    rw [hinit.vmAssign, AssignState.team]
    simp [htold]
  · intro i c
    rw [hinit.vmAssign, htold, Nat.zero_testBit]
  · intro i c h
    rw [htold] at h
    cases h
  · intro i _
    rw [hinit.vmAssign]
    exact Nat.zero_le _
  · intro i _
    rw [hinit.vmAssign]
  · intro i h
    rw [hinit.vmAssign] at h
    cases h
  · intro i c h
    rw [htold] at h
    cases h
  · intro i c d h
    rw [htold] at h
    cases h

theorem Tally.congr (h : Tally cfg s) (hvm : s'.vmAssign = s.vmAssign)
    (hcpu : ∀ c, (s'.cpu c).assigned = (s.cpu c).assigned ∧
      (s'.cpu c).master = (s.cpu c).master ∧ (s'.cpu c).vmId = (s.cpu c).vmId) :
    Tally cfg s' := by
  have htold : ∀ i c, s'.told i c = s.told i c := by
    intro i c
    obtain ⟨hassigned, _, hvmId⟩ := hcpu c
    rw [AssignState.told, AssignState.told, hassigned, hvmId]
  have hmaster : ∀ c, (s'.cpu c).master = (s.cpu c).master := fun c => (hcpu c).2.1
  constructor
  · intro i
    rw [hvm, h.count, AssignState.team, AssignState.team]
    simp only [htold]
  · intro i c
    rw [hvm, htold, h.bits]
  · intro i c hi
    rw [htold] at hi
    exact h.inside i c hi
  · intro i hi
    rw [hvm]
    exact h.le i hi
  · intro i hi
    rw [hvm] at hi ⊢
    exact h.empty i hi
  · intro i hi
    rw [hvm] at hi
    obtain ⟨c, hc, hm⟩ := h.head i hi
    exact ⟨c, by rw [htold, hc], by rw [hmaster, hm]⟩
  · intro i c hi hm
    rw [htold] at hi
    rw [hmaster] at hm
    rw [hvm]
    exact h.heads i c hi hm
  · intro i c d hc hd hmc hmd
    rw [htold] at hc hd
    rw [hmaster] at hmc hmd
    exact h.one i c d hc hd hmc hmd

theorem Tally.goto (h : Tally cfg s) (cpu : Nat) (pc : AssignPc) :
    Tally cfg (s.goto cpu pc) := by
  refine h.congr rfl fun c => ?_
  by_cases hc : c = cpu
  · subst hc
    simp [AssignState.goto]
  · simp [AssignState.goto, Function.update_of_ne hc]

theorem Tally.note (h : Tally cfg s) (cpu i : Nat) : Tally cfg (s.note cpu i) := by
  refine h.congr rfl fun c => ?_
  by_cases hc : c = cpu
  · subst hc
    simp [AssignState.note]
  · simp [AssignState.note, Function.update_of_ne hc]

theorem told_join {cpu i : Nat} {master : Bool} {a : VmAssignment} (j c : Nat) :
    (s.join cpu i master a).told j c = if c = cpu then decide (i = j) else s.told j c := by
  by_cases hc : c = cpu
  · subst hc
    simp [AssignState.told, AssignState.join]
  · simp [AssignState.told, AssignState.join, hc]

theorem master_join {cpu i : Nat} {master : Bool} {a : VmAssignment} (c : Nat) :
    ((s.join cpu i master a).cpu c).master = if c = cpu then master else (s.cpu c).master := by
  by_cases hc : c = cpu
  · subst hc
    simp [AssignState.join]
  · simp [AssignState.join, hc]

theorem not_told {cpu : Nat} (h : (s.cpu cpu).assigned = false) (i : Nat) :
    s.told i cpu = false := by
  rw [AssignState.told, h, Bool.false_and]

/-- **One CPU joins a VM.**  The record gains the CPU that was told its id,
and a second master never appears. -/
theorem Tally.join {cpu i : Nat} (h : Tally cfg s) (hcpu : cpu < cfg.platformCpuNum)
    (hi : i < cfg.vmlistSize) (hnew : (s.cpu cpu).assigned = false)
    (hroom : (s.vmAssign i).ncpus < cfg.cpuNum i) :
    Tally cfg (s.join cpu i (!(s.vmAssign i).master)
      { master := true
        ncpus := (s.vmAssign i).ncpus + 1
        cpus := (s.vmAssign i).cpus ||| 1 <<< cpu }) := by
  generalize hjoin : s.join cpu i (!(s.vmAssign i).master) _ = s'
  have htold : ∀ j c, s'.told j c = if c = cpu then decide (i = j) else s.told j c := by
    intro j c
    rw [← hjoin, told_join]
  have hmaster : ∀ c, (s'.cpu c).master =
      if c = cpu then !(s.vmAssign i).master else (s.cpu c).master := by
    intro c
    rw [← hjoin, master_join]
  have hothers : ∀ {j c}, s.told j c = true → c ≠ cpu := by
    intro j c hc heq
    rw [heq, not_told hnew] at hc
    cases hc
  have hsame : s'.vmAssign i = ⟨true, (s.vmAssign i).ncpus + 1,
      (s.vmAssign i).cpus ||| 1 <<< cpu⟩ := by
    rw [← hjoin]
    simp [AssignState.join]
  have hother : ∀ j, j ≠ i → s'.vmAssign j = s.vmAssign j := by
    intro j hj
    rw [← hjoin]
    simp [AssignState.join, Function.update_of_ne hj]
  have hteam : s'.team cfg i = insert cpu (s.team cfg i) := by
    ext c
    simp only [AssignState.team, mem_filter, mem_insert, htold, mem_range]
    by_cases hc : c = cpu
    · simp [hc, hcpu]
    · simp [hc]
  have hteams : ∀ j, j ≠ i → s'.team cfg j = s.team cfg j := by
    intro j hj
    ext c
    simp only [AssignState.team, mem_filter, htold, mem_range]
    by_cases hc : c = cpu
    · simp [hc, not_told hnew, hj.symm]
    · simp [hc]
  constructor
  · intro j
    by_cases hj : j = i
    · have hfresh : cpu ∉ s.team cfg i := by
        simp [AssignState.team, not_told hnew]
      rw [hj, hsame, hteam, card_insert_of_notMem hfresh, h.count]
    · rw [hother j hj, hteams j hj, h.count]
  · intro j c
    rw [htold]
    by_cases hj : j = i
    · subst hj
      rw [hsame, Nat.testBit_or, h.bits, Nat.one_shiftLeft, Nat.testBit_two_pow]
      by_cases hc : c = cpu
      · simp [hc]
      · simp [hc, Ne.symm hc]
    · rw [hother j hj, h.bits]
      by_cases hc : c = cpu
      · simp [hc, not_told hnew, Ne.symm hj]
      · simp [hc]
  · intro j c hc
    rw [htold] at hc
    by_cases heq : c = cpu
    · have hji : i = j := by simpa [heq] using hc
      exact ⟨heq ▸ hcpu, hji ▸ hi⟩
    · exact h.inside j c (by simpa [heq] using hc)
  · intro j hj
    by_cases heq : j = i
    · rw [heq, hsame]
      exact hroom
    · rw [hother j heq]
      exact h.le j hj
  · intro j hj
    by_cases heq : j = i
    · rw [heq, hsame] at hj
      cases hj
    · rw [hother j heq] at hj ⊢
      exact h.empty j hj
  · intro j hj
    by_cases heq : j = i
    · subst heq
      cases hm : (s.vmAssign j).master with
      | false => exact ⟨cpu, by simp [htold], by simp [hmaster, hm]⟩
      | true =>
          obtain ⟨c, hc, hcm⟩ := h.head j hm
          have hne := hothers hc
          exact ⟨c, by simp [htold, hne, hc], by simp [hmaster, hne, hcm]⟩
    · rw [hother j heq] at hj
      obtain ⟨c, hc, hcm⟩ := h.head j hj
      have hne := hothers hc
      exact ⟨c, by simp [htold, hne, hc], by simp [hmaster, hne, hcm]⟩
  · intro j c hc hm
    by_cases heq : j = i
    · rw [heq, hsame]
    · have hne : c ≠ cpu := by
        intro hc'
        rw [htold, if_pos hc', decide_eq_true_eq] at hc
        exact heq hc.symm
      rw [htold, if_neg hne] at hc
      rw [hmaster, if_neg hne] at hm
      rw [hother j heq]
      exact h.heads j c hc hm
  · intro j c d hc hd hmc hmd
    -- two masters of one VM: the newcomer is one only of an empty VM
    have hsole : ∀ c d, c = cpu → d ≠ cpu → s'.told j c = true → s'.told j d = true →
        (s'.cpu c).master = true → (s'.cpu d).master = true → False := by
      intro c d hceq hdne hc hd hmc hmd
      rw [htold, if_pos hceq, decide_eq_true_eq] at hc
      rw [htold, if_neg hdne, ← hc] at hd
      rw [hmaster, if_pos hceq] at hmc
      rw [hmaster, if_neg hdne] at hmd
      rw [h.heads i d hd hmd] at hmc
      cases hmc
    by_cases hceq : c = cpu
    · by_cases hdeq : d = cpu
      · rw [hceq, hdeq]
      · exact (hsole c d hceq hdeq hc hd hmc hmd).elim
    · by_cases hdeq : d = cpu
      · exact (hsole d c hdeq hceq hd hc hmd hmc).elim
      · rw [htold, if_neg hceq] at hc
        rw [htold, if_neg hdeq] at hd
        rw [hmaster, if_neg hceq] at hmc
        rw [hmaster, if_neg hdeq] at hmd
        exact h.one j c d hc hd hmc hmd

theorem Tally.settle {cpu i : Nat} {r : Option (Bool × VmAssignment)} (h : Tally cfg s)
    (hcpu : cpu < cfg.platformCpuNum) (hi : i < cfg.vmlistSize)
    (hnew : (s.cpu cpu).assigned = false)
    (hr : Takes (cfg.cpuNum i) cpu (s.vmAssign i) r) : Tally cfg (s.settle cpu i r) := by
  obtain ⟨rfl, _⟩ | ⟨hroom, rfl⟩ := hr
  · exact h
  · exact h.join hcpu hi hnew hroom

/-! ## What a CPU saw -/

/-- How many VMs the first loop dealt with. -/
def AssignPc.looked (size : Nat) : AssignPc → Nat
  | .affinity i => i
  | _ => size

/-- How many VMs the second loop dealt with. -/
def AssignPc.scanned (size : Nat) : AssignPc → Nat
  | .any i => i
  | .done => size
  | _ => 0

/-- Of the first `n` VMs, those whose affinity names `cpu` were examined, and
every VM examined was full then. -/
structure Refused (cfg : AssignConfig) (cpu n : Nat) (read : List (Nat × VmAssignment)) :
    Prop where
  seen : ∀ j, j < n → cfg.Names j cpu → ∃ a, (j, a) ∈ read
  full : ∀ j a, (j, a) ∈ read → cfg.cpuNum j ≤ a.ncpus

/-- What the local variables of `cpu` say, `ncpus` being the counters now. -/
structure CpuOk (cfg : AssignConfig) (cpu : Nat) (ncpus : Nat → Nat) (p : AssignCpu) : Prop where
  refused : p.assigned = false → Refused cfg cpu (p.pc.looked cfg.vmlistSize) p.read
  scanned : p.assigned = false → ∀ j, j < p.pc.scanned cfg.vmlistSize →
    j < cfg.vmlistSize → cfg.cpuNum j ≤ ncpus j
  placed : p.assigned = true → cfg.Names p.vmId cpu ∨ Refused cfg cpu cfg.vmlistSize p.read

theorem Refused.mono {cpu m n : Nat} {read : List (Nat × VmAssignment)}
    (h : Refused cfg cpu n read) (hmn : m ≤ n) : Refused cfg cpu m read :=
  ⟨fun j hj hnames => h.seen j (by omega) hnames, h.full⟩

theorem Refused.next {cpu n : Nat} {read : List (Nat × VmAssignment)}
    (h : Refused cfg cpu n read) {a : VmAssignment} (hfull : cfg.cpuNum n ≤ a.ncpus) :
    Refused cfg cpu (n + 1) ((n, a) :: read) := by
  constructor
  · intro j hj hnames
    by_cases hlast : j = n
    · exact ⟨a, by rw [hlast]; exact List.mem_cons_self⟩
    · obtain ⟨b, hb⟩ := h.seen j (by omega) hnames
      exact ⟨b, List.mem_cons_of_mem _ hb⟩
  · intro j b hmem
    rcases List.mem_cons.mp hmem with heq | hold
    · obtain ⟨rfl, rfl⟩ := Prod.mk.inj heq
      exact hfull
    · exact h.full j b hold

theorem Refused.skip {cpu n : Nat} {read : List (Nat × VmAssignment)}
    (h : Refused cfg cpu n read) (hnot : ¬ cfg.Names n cpu) : Refused cfg cpu (n + 1) read := by
  refine ⟨fun j hj hnames => ?_, h.full⟩
  by_cases hlast : j = n
  · exact (hnot (hlast ▸ hnames)).elim
  · exact h.seen j (by omega) hnames

theorem CpuOk.mono {cpu : Nat} {ncpus ncpus' : Nat → Nat} {p : AssignCpu}
    (h : CpuOk cfg cpu ncpus p) (hle : ∀ j, ncpus j ≤ ncpus' j) : CpuOk cfg cpu ncpus' p :=
  ⟨h.refused, fun hp j hj hsize => Nat.le_trans (h.scanned hp j hj hsize) (hle j), h.placed⟩

/-- The records agree with the CPUs, and every CPU's variables with what it
saw. -/
structure AssignInv (cfg : AssignConfig) (s : AssignState) : Prop where
  tally : Tally cfg s
  cpus : ∀ c, CpuOk cfg c (fun j => (s.vmAssign j).ncpus) (s.cpu c)

theorem AssignInv.initial (hinit : AssignInit s) : AssignInv cfg s := by
  refine ⟨Tally.initial hinit, fun c => ?_⟩
  obtain ⟨hpc, hassigned, _, hread⟩ := hinit.cpu c
  constructor
  · intro _
    rw [hpc, hread]
    constructor
    · intro j hj
      exact (Nat.not_lt_zero j hj).elim
    · intro j a hmem
      cases hmem
  · intro _ j hj
    rw [hpc] at hj
    exact (Nat.not_lt_zero j hj).elim
  · intro hp
    rw [hassigned] at hp
    cases hp

theorem AssignInv.of_step (cpu : Nat) (h : AssignInv cfg s) (htally : Tally cfg s')
    (hother : ∀ c, c ≠ cpu → s'.cpu c = s.cpu c)
    (hle : ∀ j, (s.vmAssign j).ncpus ≤ (s'.vmAssign j).ncpus)
    (hown : CpuOk cfg cpu (fun j => (s'.vmAssign j).ncpus) (s'.cpu cpu)) : AssignInv cfg s' := by
  refine ⟨htally, fun c => ?_⟩
  by_cases hc : c = cpu
  · rw [hc]
    exact hown
  · rw [hother c hc]
    exact (h.cpus c).mono hle

theorem settle_ncpus_le {cpu i : Nat} {r : Option (Bool × VmAssignment)}
    (hr : Takes (cfg.cpuNum i) cpu (s.vmAssign i) r) (j : Nat) :
    (s.vmAssign j).ncpus ≤ ((s.settle cpu i r).vmAssign j).ncpus := by
  obtain ⟨rfl, _⟩ | ⟨_, rfl⟩ := hr
  · exact Nat.le_refl _
  · by_cases hj : j = i
    · subst hj
      simp [AssignState.settle, AssignState.join]
    · simp [AssignState.settle, AssignState.join, Function.update_of_ne hj]

theorem settle_other {cpu i : Nat} (r : Option (Bool × VmAssignment)) {c : Nat} (hc : c ≠ cpu) :
    (s.settle cpu i r).cpu c = s.cpu c := by
  cases r with
  | none => rfl
  | some r => simp [AssignState.settle, AssignState.join, Function.update_of_ne hc]

theorem goto_cpu (cpu : Nat) (pc : AssignPc) :
    (s.goto cpu pc).cpu cpu = { s.cpu cpu with pc := pc } := by
  simp [AssignState.goto]

theorem goto_other {cpu c : Nat} (pc : AssignPc) (hc : c ≠ cpu) :
    (s.goto cpu pc).cpu c = s.cpu c := by
  simp [AssignState.goto, Function.update_of_ne hc]

theorem AssignInv.goto {cpu : Nat} {pc : AssignPc} (h : AssignInv cfg s)
    (hown : CpuOk cfg cpu (fun j => (s.vmAssign j).ncpus) { s.cpu cpu with pc := pc }) :
    AssignInv cfg (s.goto cpu pc) := by
  refine h.of_step cpu (h.tally.goto cpu pc) (fun c hc => goto_other pc hc)
    (fun j => Nat.le_refl _) ?_
  rw [goto_cpu]
  exact hown

theorem AssignInv.examineAffinity {cpu i : Nat} (h : AssignInv cfg s)
    (hcpu : cpu < cfg.platformCpuNum) (hpc : (s.cpu cpu).pc = .affinity i)
    (hi : i < cfg.vmlistSize) (hnew : (s.cpu cpu).assigned = false) (hnames : cfg.Names i cpu) :
    AssignInv cfg (((s.note cpu i).settle cpu i
      (takeByAffinity (cfg.cpuNum i) cpu (s.vmAssign i))).goto cpu (.affinity (i + 1))) := by
  have hr := @takeByAffinity_takes (cfg.cpuNum i) cpu (s.vmAssign i) (cfg.cpuNum_pos i hi)
    (h.tally.empty i)
  generalize takeByAffinity (cfg.cpuNum i) cpu (s.vmAssign i) = r at hr ⊢
  have hnew' : ((s.note cpu i).cpu cpu).assigned = false := by
    simp [AssignState.note, hnew]
  have hrefused : Refused cfg cpu i (s.cpu cpu).read := by
    have := (h.cpus cpu).refused hnew
    rwa [hpc] at this
  refine h.of_step cpu (((h.tally.note cpu i).settle hcpu hi hnew' hr).goto cpu _) ?_
    (fun j => settle_ncpus_le (s := s.note cpu i) hr j) ?_
  · intro c hc
    rw [goto_other _ hc, settle_other r hc]
    simp [AssignState.note, Function.update_of_ne hc]
  · rw [goto_cpu]
    obtain ⟨rfl, hfull⟩ | ⟨_, rfl⟩ := hr
    · constructor
      · intro _
        simp only [AssignState.settle, AssignState.note, Function.update_self, AssignPc.looked]
        exact hrefused.next hfull
      · intro _ j hj
        exact (Nat.not_lt_zero j hj).elim
      · intro hp
        exact absurd (hnew'.symm.trans hp) (by decide)
    · constructor
      · intro hp
        simp [AssignState.settle, AssignState.join] at hp
      · intro hp
        simp [AssignState.settle, AssignState.join] at hp
      · intro _
        left
        simpa [AssignState.settle, AssignState.join] using hnames

theorem AssignInv.examineAny {cpu i : Nat} (h : AssignInv cfg s)
    (hcpu : cpu < cfg.platformCpuNum) (hpc : (s.cpu cpu).pc = .any i)
    (hi : i < cfg.vmlistSize) (hnew : (s.cpu cpu).assigned = false) :
    AssignInv cfg ((s.settle cpu i (takeAny (cfg.cpuNum i) cpu (s.vmAssign i))).goto cpu
      (.any (i + 1))) := by
  have hr := takeAny_takes (cfg.cpuNum i) cpu (s.vmAssign i)
  generalize takeAny (cfg.cpuNum i) cpu (s.vmAssign i) = r at hr ⊢
  have hrefused : Refused cfg cpu cfg.vmlistSize (s.cpu cpu).read := by
    have := (h.cpus cpu).refused hnew
    rwa [hpc] at this
  have hscanned := (h.cpus cpu).scanned hnew
  rw [hpc] at hscanned
  refine h.of_step cpu ((h.tally.settle hcpu hi hnew hr).goto cpu _)
    (fun c hc => by rw [goto_other _ hc, settle_other r hc]) (fun j => settle_ncpus_le hr j) ?_
  rw [goto_cpu]
  obtain ⟨rfl, hfull⟩ | ⟨_, rfl⟩ := hr
  · constructor
    · intro _
      exact hrefused
    · intro _ j hj hsize
      have hj' : j < i + 1 := hj
      by_cases hlast : j = i
      · rw [hlast]
        exact hfull
      · exact hscanned j (by show j < i; omega) hsize
    · intro hp
      exact absurd (hnew.symm.trans hp) (by decide)
  · constructor
    · intro hp
      simp [AssignState.settle, AssignState.join] at hp
    · intro hp
      simp [AssignState.settle, AssignState.join] at hp
    · intro _
      right
      simpa [AssignState.settle, AssignState.join] using hrefused

/-- **Step lemma.** -/
theorem AssignInv.step {cpu : Nat} (h : AssignInv cfg s) (hcpu : cpu < cfg.platformCpuNum)
    (hstep : vmmAssignVcpu cfg s cpu = some s') : AssignInv cfg s' := by
  have hown := h.cpus cpu
  unfold vmmAssignVcpu at hstep
  cases hpc : (s.cpu cpu).pc with
  | affinity i =>
      simp only [hpc] at hstep
      by_cases hloop : i < cfg.vmlistSize ∧ (s.cpu cpu).assigned = false
      · rw [if_pos hloop] at hstep
        obtain ⟨hi, hnew⟩ := hloop
        by_cases hnames : (cfg.cpuAffinity i).testBit cpu = true
        · rw [if_pos hnames] at hstep
          cases hstep
          exact h.examineAffinity hcpu hpc hi hnew hnames
        · rw [if_neg hnames] at hstep
          cases hstep
          refine h.goto ⟨fun _ => ?_, fun _ j hj => (Nat.not_lt_zero j hj).elim, hown.placed⟩
          have hrefused := hown.refused hnew
          rw [hpc] at hrefused
          exact hrefused.skip hnames
      · rw [if_neg hloop] at hstep
        cases hstep
        refine h.goto ⟨fun hnew => ?_, fun _ j hj => (Nat.not_lt_zero j hj).elim, hown.placed⟩
        have hrefused := hown.refused hnew
        rw [hpc] at hrefused
        have hi : cfg.vmlistSize ≤ i := Nat.le_of_not_lt fun hlt => hloop ⟨hlt, hnew⟩
        exact hrefused.mono hi
  | barrier =>
      simp only [hpc] at hstep
      by_cases hall : ∀ c, c < cfg.platformCpuNum → (s.cpu c).pc.arrived = true
      · rw [if_pos hall] at hstep
        cases hstep
        have hrefused := hown.refused
        rw [hpc] at hrefused
        by_cases hnew : (s.cpu cpu).assigned = false
        · rw [if_pos hnew]
          exact h.goto ⟨hrefused, fun _ j hj => (Nat.not_lt_zero j hj).elim, hown.placed⟩
        · rw [if_neg hnew]
          exact h.goto ⟨fun hp => (hnew hp).elim, fun hp => (hnew hp).elim, hown.placed⟩
      · rw [if_neg hall] at hstep
        cases hstep
  | any i =>
      simp only [hpc] at hstep
      by_cases hloop : i < cfg.vmlistSize ∧ (s.cpu cpu).assigned = false
      · rw [if_pos hloop] at hstep
        cases hstep
        exact h.examineAny hcpu hpc hloop.1 hloop.2
      · rw [if_neg hloop] at hstep
        cases hstep
        have hrefused := hown.refused
        have hscanned := hown.scanned
        rw [hpc] at hrefused hscanned
        refine h.goto ⟨hrefused, fun hnew j _ hsize => ?_, hown.placed⟩
        have hi : cfg.vmlistSize ≤ i := Nat.le_of_not_lt fun hlt => hloop ⟨hlt, hnew⟩
        exact hscanned hnew j (Nat.lt_of_lt_of_le hsize hi) hsize
  | done =>
      simp only [hpc] at hstep
      cases hstep

theorem assignInv_reachable (h : (assignSystem cfg).Reachable s) : AssignInv cfg s := by
  have hinit : ∀ s, (assignSystem cfg).init s → AssignInv cfg s := fun _ hs => .initial hs
  have hstep : ∀ s cpu s', AssignInv cfg s → True → (assignSystem cfg).step s cpu s' →
      AssignInv cfg s' := fun _ _ _ hs _ hstep => hs.step hstep.1 hstep.2
  exact h.invariant hinit hstep

/-! ## The outcome -/

/-- Every CPU came back from the function. -/
def AllDone (cfg : AssignConfig) (s : AssignState) : Prop :=
  ∀ c, c < cfg.platformCpuNum → (s.cpu c).pc = .done

/-- **All VMs are full.**  A CPU without a place found all VMs full; if every
CPU has one, the places taken are as many as all VMs have. -/
theorem AssignInv.full (h : AssignInv cfg s) (hdone : AllDone cfg s) {i : Nat}
    (hi : i < cfg.vmlistSize) : (s.vmAssign i).ncpus = cfg.cpuNum i := by
  have hle : ∀ j ∈ range cfg.vmlistSize, (s.vmAssign j).ncpus ≤ cfg.cpuNum j :=
    fun j hj => h.tally.le j (mem_range.mp hj)
  by_cases hall : ∀ c, c < cfg.platformCpuNum → (s.cpu c).assigned = true
  · -- count the CPUs by the VM they were told
    have hfibre : (range cfg.platformCpuNum).card =
        ∑ j ∈ range cfg.vmlistSize, (s.team cfg j).card := by
      have hmaps : ∀ c ∈ range cfg.platformCpuNum, (s.cpu c).vmId ∈ range cfg.vmlistSize := by
        intro c hc
        have htold : s.told (s.cpu c).vmId c = true := by
          simp [AssignState.told, hall c (mem_range.mp hc)]
        exact mem_range.mpr (h.tally.inside _ c htold).2
      rw [card_eq_sum_card_fiberwise hmaps]
      refine sum_congr rfl fun j _ => congrArg card ?_
      ext c
      simp only [AssignState.team, mem_filter, mem_range, and_congr_right_iff]
      intro hc
      simp [AssignState.told, hall c hc]
    have hsum : ∑ j ∈ range cfg.vmlistSize, cfg.cpuNum j ≤
        ∑ j ∈ range cfg.vmlistSize, (s.vmAssign j).ncpus := by
      calc ∑ j ∈ range cfg.vmlistSize, cfg.cpuNum j
          ≤ cfg.platformCpuNum := cfg.enough
        _ = ∑ j ∈ range cfg.vmlistSize, (s.team cfg j).card := by rw [← hfibre, card_range]
        _ = ∑ j ∈ range cfg.vmlistSize, (s.vmAssign j).ncpus :=
            sum_congr rfl fun j _ => (h.tally.count j).symm
    exact (sum_eq_sum_iff_of_le hle).mp (Nat.le_antisymm (sum_le_sum hle) hsum) i
      (mem_range.mpr hi)
  · obtain ⟨c, hc⟩ := not_forall.mp hall
    obtain ⟨hlt, hnot⟩ := Classical.not_imp.mp hc
    have hscanned := (h.cpus c).scanned (by simpa using hnot)
    rw [hdone c hlt] at hscanned
    exact Nat.le_antisymm (h.tally.le i hi) (hscanned i hi hi)

theorem assign_progress (h : ¬ AllDone cfg s) :
    ∃ c, c < cfg.platformCpuNum ∧ (vmmAssignVcpu cfg s c).isSome = true := by
  by_cases hall : ∀ c, c < cfg.platformCpuNum → (s.cpu c).pc.arrived = true
  · obtain ⟨c, hc⟩ := not_forall.mp h
    obtain ⟨hlt, hpc⟩ := Classical.not_imp.mp hc
    refine ⟨c, hlt, ?_⟩
    unfold vmmAssignVcpu
    cases hat : (s.cpu c).pc with
    | affinity i =>
        have := hall c hlt
        rw [hat] at this
        cases this
    | barrier => simpa using hall
    | any i =>
        simp only
        split <;> rfl
    | done => exact (hpc hat).elim
  · obtain ⟨c, hc⟩ := not_forall.mp hall
    obtain ⟨hlt, hpc⟩ := Classical.not_imp.mp hc
    refine ⟨c, hlt, ?_⟩
    unfold vmmAssignVcpu
    cases hat : (s.cpu c).pc with
    | affinity i =>
        simp only
        split
        · split <;> rfl
        · rfl
    | barrier => simp [hat, AssignPc.arrived] at hpc
    | any i => simp [hat, AssignPc.arrived] at hpc
    | done => simp [hat, AssignPc.arrived] at hpc

/-- How far a CPU still has to go. -/
def AssignPc.rest (size : Nat) : AssignPc → Nat
  | .affinity i => (size - i) + size + 3
  | .barrier => size + 2
  | .any i => (size - i) + 1
  | .done => 0

theorem vmmAssignVcpu_rest {cpu : Nat} (hstep : vmmAssignVcpu cfg s cpu = some s') :
    ((s'.cpu cpu).pc.rest cfg.vmlistSize < (s.cpu cpu).pc.rest cfg.vmlistSize) ∧
      ∀ c, c ≠ cpu → (s'.cpu c).pc = (s.cpu c).pc := by
  unfold vmmAssignVcpu at hstep
  cases hpc : (s.cpu cpu).pc with
  | affinity i =>
      simp only [hpc] at hstep
      by_cases hloop : i < cfg.vmlistSize ∧ (s.cpu cpu).assigned = false
      · rw [if_pos hloop] at hstep
        obtain ⟨hi, _⟩ := hloop
        by_cases hnames : (cfg.cpuAffinity i).testBit cpu = true
        · rw [if_pos hnames] at hstep
          cases hstep
          refine ⟨?_, fun c hc => ?_⟩
          · rw [goto_cpu]
            simp only [AssignPc.rest]
            omega
          · rw [goto_other _ hc, settle_other _ hc]
            simp [AssignState.note, Function.update_of_ne hc]
        · rw [if_neg hnames] at hstep
          cases hstep
          refine ⟨?_, fun c hc => by rw [goto_other _ hc]⟩
          rw [goto_cpu]
          simp only [AssignPc.rest]
          omega
      · rw [if_neg hloop] at hstep
        cases hstep
        refine ⟨?_, fun c hc => by rw [goto_other _ hc]⟩
        rw [goto_cpu]
        simp only [AssignPc.rest]
        omega
  | barrier =>
      simp only [hpc] at hstep
      split at hstep
      · cases hstep
        refine ⟨?_, fun c hc => by rw [goto_other _ hc]⟩
        rw [goto_cpu]
        split
        · simp only [AssignPc.rest]
          omega
        · simp only [AssignPc.rest]
          omega
      · cases hstep
  | any i =>
      simp only [hpc] at hstep
      by_cases hloop : i < cfg.vmlistSize ∧ (s.cpu cpu).assigned = false
      · rw [if_pos hloop] at hstep
        obtain ⟨hi, _⟩ := hloop
        cases hstep
        refine ⟨?_, fun c hc => by rw [goto_other _ hc, settle_other _ hc]⟩
        rw [goto_cpu]
        simp only [AssignPc.rest]
        omega
      · rw [if_neg hloop] at hstep
        cases hstep
        refine ⟨?_, fun c hc => by rw [goto_other _ hc]⟩
        rw [goto_cpu]
        simp only [AssignPc.rest]
        omega
  | done =>
      simp only [hpc] at hstep
      cases hstep

/-- **No run is endless**: every step uses up some of the way all CPUs have
left. -/
theorem assign_decreases {cpu : Nat} (hcpu : cpu < cfg.platformCpuNum)
    (hstep : vmmAssignVcpu cfg s cpu = some s') :
    ∑ c ∈ range cfg.platformCpuNum, (s'.cpu c).pc.rest cfg.vmlistSize <
      ∑ c ∈ range cfg.platformCpuNum, (s.cpu c).pc.rest cfg.vmlistSize := by
  obtain ⟨hless, hothers⟩ := vmmAssignVcpu_rest hstep
  refine sum_lt_sum (fun c _ => ?_) ⟨cpu, mem_range.mpr hcpu, hless⟩
  by_cases hc : c = cpu
  · rw [hc]
    exact Nat.le_of_lt hless
  · rw [hothers c hc]

end

/-- One VM that asks for one CPU and names none. -/
def oneVmAssign : AssignConfig where
  vmlistSize := 1
  cpuAffinity := fun _ => 0
  cpuNum := fun _ => 1
  platformCpuNum := 1
  cpuNum_pos := fun _ _ => Nat.le_refl 1
  enough := by simp

/-- The CPUs enter the function. -/
def bootAssign : AssignState where
  vmAssign := fun _ => ⟨false, 0, 0⟩
  cpu := fun _ => ⟨.affinity 0, false, false, 0, []⟩

/-- The CPUs step in the given order. -/
def assignRun (cfg : AssignConfig) : AssignState → List Nat → Option AssignState
  | s, [] => some s
  | s, c :: rest =>
      if c < cfg.platformCpuNum then (vmmAssignVcpu cfg s c).bind fun s' => assignRun cfg s' rest
      else none

theorem reachable_assignRun {cfg : AssignConfig} {s s' : AssignState} {cs : List Nat}
    (h : (assignSystem cfg).Reachable s) (hrun : assignRun cfg s cs = some s') :
    (assignSystem cfg).Reachable s' := by
  induction cs generalizing s with
  | nil =>
      cases hrun
      exact h
  | cons c rest ih =>
      rw [assignRun] at hrun
      by_cases hc : c < cfg.platformCpuNum
      · rw [if_pos hc] at hrun
        obtain ⟨s1, hstep, hrest⟩ := Option.bind_eq_some_iff.mp hrun
        exact ih (h.step trivial ⟨hc, hstep⟩) hrest
      · rw [if_neg hc] at hrun
        cases hrun

end Bao

import BaoHypervisor.PsciStart
import BaoHypervisor.VgicSystem

/-!
# Setting up the virtual GIC

`vgic_cpu_init` and `vgic_init` of both GIC versions and `vgic_get_itln`, over
memory that holds whatever it held before.  The functions assign the fields of
every `struct vgic_int` one by one, so a field they leave out keeps its old
content.
-/

namespace Bao

/-- `spinlock_t`, a ticket lock. -/
structure TicketLock where
  ticket : BitVec 32
  next : BitVec 32
deriving DecidableEq

/-- `SPINLOCK_INITVAL`. -/
def TicketLock.initval : TicketLock := ⟨0, 0⟩

/-- Nobody holds the lock or waits for it. -/
def TicketLock.Free (lock : TicketLock) : Prop := lock.ticket = lock.next

/-- `struct list`; a null pointer is `none`. -/
structure NodeList where
  head : Option Nat
  tail : Option Nat
  lock : TicketLock

/-- `list_init`. -/
def NodeList.init (list : NodeList) : NodeList :=
  { list with head := none, tail := none, lock := .initval }

/-- `struct vgic_int` in memory; a pointer to a vCPU is its number.  `targets`
is also `sgi.act` of the union, and `physRoute` the union `phys`. -/
structure VgicIntMem where
  owner : Option Nat
  route : Nat
  physRoute : Nat
  lock : TicketLock
  id : Nat
  state : IntState
  prio : Nat
  cfg : Nat
  lr : Nat
  targets : Nat
  sgiPend : BitVec 8
  hw : Bool
  inLr : Bool
  inSpilled : Bool
  enabled : Bool

/-- `struct vgicr`, of which the emulation of the frame uses these fields. -/
structure VgicrMem where
  typer : Nat
  iidr : Nat
  lock : TicketLock

/-- What `struct vcpu` has of the vGIC. -/
structure VgicVcpuMem where
  interrupts : Nat → VgicIntMem
  vgicr : VgicrMem
  spilled : NodeList

/-- What `struct vm` has of the vGIC, its vCPUs included.  `interrupts` are the
pages that `vgicd.interrupts` points to, `pages` their number. -/
structure VgicMem where
  ctlr : Nat
  intNum : Nat
  typer : Nat
  iidr : Nat
  lock : TicketLock
  interrupts : Nat → VgicIntMem
  pages : Nat
  spilled : NodeList
  spilledLock : TicketLock
  vcpus : Nat → VgicVcpuMem

/-- What the set-up reads besides the VM: `interrupt_num` of the configuration,
the physical distributor and redistributors, and `sizeof(struct vgic_int)`. -/
structure VgicDscrp where
  sizeBits : Nat
  interruptNum : BitVec sizeBits
  gicdTyper : BitVec 32
  gicdIidr : Nat
  gicrIidr : Nat
  intSize : Nat

/-- `PAGE_SIZE`. -/
def vgicPageSize : Nat := 0x1000

/-- `NUM_PAGES`. -/
def numPagesOf (size : Nat) : Nat := (size + vgicPageSize - 1) / vgicPageSize

/-- `GIC_MAX_PPIS`. -/
def gicMaxPpis : Nat := 16

/-- `vgic_get_itln`. -/
def vgicGetItln (D : VgicDscrp) : Nat :=
  if D.interruptNum.toNat > gicMaxPpis then
    let aligned := (D.interruptNum + 32#_ - 1#_) / 32#_ * 32#_
    ((aligned / 32#_ - 1#_) &&& 31#_).toNat
  else ((D.gicdTyper >>> 0) &&& 31#32).toNat

/-- `GICD_TYPER_ITLN_MSK`, `GICD_TYPER_CPUNUM_MSK` and `GICD_TYPER_IDBITS_MSK`. -/
def gicdTyperItlnMsk : Nat := 0x1f
def gicdTyperCpunumMsk : Nat := 0xe0
def gicdTyperIdbitsMsk : Nat := 0xf80000

/-- The emulated `TYPER`; GICv3 also has the width of the ids. -/
def vgicTyper (ver : GicVersion) (itln cpuNum : Nat) : Nat :=
  let typer := (itln <<< 0 &&& gicdTyperItlnMsk) ||| ((cpuNum - 1) <<< 5 &&& gicdTyperCpunumMsk)
  match ver with
  | .gicv2 => typer
  | .gicv3 => typer ||| ((10 - 1) <<< 19 &&& gicdTyperIdbitsMsk)

/-- What the loop of `vgic_init` assigns to entry `i` of the array. -/
def initSharedInt (ver : GicVersion) (i : Nat) (m : VgicIntMem) : VgicIntMem :=
  let m := { m with
    owner := none, lock := .initval, id := i + gicCpuPriv, state := .inv, prio := gicLowestPrio
    cfg := 0 }
  let m := match ver with
    | .gicv2 => { m with targets := 0 }
    | .gicv3 => { m with route := gicdIrouterInv, physRoute := gicdIrouterInv }
  { m with hw := false, inLr := false, enabled := false }

/-- What the first loop of `vgic_cpu_init` assigns to private interrupt `i`. -/
def initPrivInt (ver : GicVersion) (v physId i : Nat) (m : VgicIntMem) : VgicIntMem :=
  let m := { m with
    owner := some v, lock := .initval, id := i, state := .inv, prio := gicLowestPrio, cfg := 0 }
  let m := match ver with
    | .gicv2 => { m with targets := 0, sgiPend := 0#8 }
    | .gicv3 => { m with route := gicdIrouterInv, physRoute := physId }
  { m with hw := false, inLr := false, enabled := false }

/-- What its second loop assigns to an SGI. -/
def initSgi (ver : GicVersion) (_ : Nat) (m : VgicIntMem) : VgicIntMem :=
  match ver with
  | .gicv2 => { m with enabled := true }
  | .gicv3 => { m with cfg := 0x2 }

/-- A loop that runs `body` on the first `n` entries of an array. -/
def forEntries {α : Type} (n : Nat) (body : Nat → α → α) (a : Nat → α) : Nat → α :=
  (List.range n).foldl (fun a i => atCpu a i (body i (a i))) a

variable (P : VgicPlat) (D : VgicDscrp)

/-- `vgic_cpu_init`. -/
def vgicCpuInit (v : Nat) (m : VgicMem) : VgicMem :=
  let vcpu := m.vcpus v
  let interrupts := forEntries gicCpuPriv (initPrivInt P.ver v (P.physId v)) vcpu.interrupts
  { m with vcpus := atCpu m.vcpus v { vcpu with
      interrupts := forEntries gicMaxSgis (initSgi P.ver) interrupts
      spilled := vcpu.spilled.init } }

/-- `GICR_TYPER` of a vCPU: its number, its affinity, and whether it is the
last one. -/
def gicrTyper (v : Nat) : Nat :=
  v <<< 8 ||| (P.vmpidr v &&& mpidrAffMsk) <<< 32 ||| if v = P.vcpuNum - 1 then 1 <<< 4 else 0

/-- What `vgic_init` assigns in the `vgicr` of a vCPU. -/
def initVgicr (v : Nat) (m : VgicVcpuMem) : VgicVcpuMem :=
  { m with vgicr := { m.vgicr with
      typer := gicrTyper P v, iidr := D.gicrIidr, lock := .initval } }

/-- `vgic_init`, where the pages allocated for the array hold `content`. -/
def vgicInit (content : Nat → VgicIntMem) (m : VgicMem) : VgicMem :=
  let itln := vgicGetItln D
  let intNum := 32 * (itln + 1)
  { m with
    ctlr := 0
    intNum := intNum
    typer := vgicTyper P.ver itln P.vcpuNum
    iidr := D.gicdIidr
    lock := .initval
    interrupts := forEntries intNum (initSharedInt P.ver) content
    pages := numPagesOf (intNum * D.intSize)
    vcpus := match P.ver with
      | .gicv2 => m.vcpus
      | .gicv3 => forEntries P.vcpuNum (initVgicr P D) m.vcpus
    spilled := m.spilled.init
    spilledLock := .initval }

/-- The set-up of a VM: its vCPUs run `vgic_cpu_init` in some order, and after a
barrier the master runs `vgic_init`. -/
def vgicSetup (order : List Nat) (content : Nat → VgicIntMem) (m : VgicMem) : VgicMem :=
  vgicInit P D content (order.foldl (fun m v => vgicCpuInit P v m) m)

/-- Where `vgic_get_int` points to: an entry of a vCPU's private table or of the
array. -/
inductive IntPlace
  | priv (vcpu index : Nat)
  | shared (index : Nat)
deriving DecidableEq

/-- `vgic_get_int`, by the `int_num` in memory. -/
def VgicMem.getInt (m : VgicMem) (intId vgicrId : Nat) : Option IntPlace :=
  if intId < gicCpuPriv then some (.priv vgicrId intId)
  else if intId < m.intNum then some (.shared (intId - gicCpuPriv))
  else none

/-- The structure at a place. -/
def VgicMem.at (m : VgicMem) : IntPlace → VgicIntMem
  | .priv v i => (m.vcpus v).interrupts i
  | .shared i => m.interrupts i

/-- An interrupt is as the run-time code expects a new one. -/
structure IntReady (id : Nat) (owner : Option Nat) (x : VgicIntMem) : Prop where
  id : x.id = id
  owner : x.owner = owner
  inLr : x.inLr = false
  inSpilled : x.inSpilled = false
  state : x.state = .inv
  lock : x.lock.Free

/-- A list is empty. -/
def NodeList.IsEmpty (list : NodeList) : Prop := list.head = none ∧ list.tail = none

/-- **The vGIC is ready.**  Its interrupts are new and have the ids of their
places, the spilled lists are empty, `vgic_get_int` has an entry with the right
id for every interrupt of the lines that `TYPER` counts, and all entries it
gives lie in the pages of the array. -/
structure VgicReady (m : VgicMem) : Prop where
  shared : ∀ i, i < m.intNum → IntReady (i + gicCpuPriv) none (m.interrupts i)
  priv : ∀ v, v < P.vcpuNum → ∀ i, i < gicCpuPriv → IntReady i (some v) ((m.vcpus v).interrupts i)
  spilled : m.spilled.IsEmpty ∧ m.spilledLock.Free ∧ ∀ v, v < P.vcpuNum → (m.vcpus v).spilled.IsEmpty
  counted : ∀ v, v < P.vcpuNum → ∀ id, id < 32 * ((m.typer &&& gicdTyperItlnMsk) + 1) →
    ∃ place, m.getInt id v = some place ∧ (m.at place).id = id
  inArray : ∀ id v i, m.getInt id v = some (.shared i) →
    i < m.intNum ∧ (i + 1) * D.intSize ≤ m.pages * vgicPageSize

/-! ## Loops over the entries of an array -/

section Loops

variable {α : Type} {body : Nat → α → α}

theorem forEntries_succ (n : Nat) (a : Nat → α) :
    forEntries (n + 1) body a = atCpu (forEntries n body a) n (body n (forEntries n body a n)) := by
  unfold forEntries
  rw [List.range_succ, List.foldl_append]
  rfl

theorem forEntries_past {n i : Nat} (h : n ≤ i) (a : Nat → α) : forEntries n body a i = a i := by
  induction n with
  | zero => rfl
  | succ n ih =>
      have hne : i ≠ n := by omega
      rw [forEntries_succ, atCpu_other _ _ hne]
      exact ih (by omega)

theorem forEntries_at {n i : Nat} (h : i < n) (a : Nat → α) :
    forEntries n body a i = body i (a i) := by
  induction n with
  | zero => exact absurd h (Nat.not_lt_zero i)
  | succ n ih =>
      rw [forEntries_succ]
      by_cases hin : i = n
      · rw [hin, atCpu_same, forEntries_past (Nat.le_refl n)]
      · rw [atCpu_other _ _ hin]
        exact ih (by omega)

end Loops

/-! ## What the loops assign -/

variable {P D} {ver : GicVersion} {v w i p : Nat} {x : VgicIntMem} {owner : Option Nat}

theorem TicketLock.initval_free : TicketLock.initval.Free := rfl

theorem intReady_iff {y : VgicIntMem} (hkept : y.inSpilled = x.inSpilled)
    (hready : y.inSpilled = false → IntReady i owner y) :
    IntReady i owner y ↔ x.inSpilled = false := by
  rw [← hkept]
  constructor
  · intro h
    exact h.inSpilled
  · exact hready

/-- **An entry of the array** after the loop is ready exactly if its flag
`in_spilled` was clear before. -/
theorem initSharedInt_ready :
    IntReady (i + gicCpuPriv) none (initSharedInt ver i x) ↔ x.inSpilled = false := by
  cases ver with
  | gicv2 => exact intReady_iff rfl fun h => ⟨rfl, rfl, rfl, h, rfl, rfl⟩
  | gicv3 => exact intReady_iff rfl fun h => ⟨rfl, rfl, rfl, h, rfl, rfl⟩

/-- **A private interrupt** after the first loop, likewise. -/
theorem initPrivInt_ready :
    IntReady i (some v) (initPrivInt ver v p i x) ↔ x.inSpilled = false := by
  cases ver with
  | gicv2 => exact intReady_iff rfl fun h => ⟨rfl, rfl, rfl, h, rfl, rfl⟩
  | gicv3 => exact intReady_iff rfl fun h => ⟨rfl, rfl, rfl, h, rfl, rfl⟩

theorem initSgi_ready {id : Nat} : IntReady id owner (initSgi ver i x) ↔ IntReady id owner x := by
  cases ver with
  | gicv2 => exact ⟨fun h => ⟨h.id, h.owner, h.inLr, h.inSpilled, h.state, h.lock⟩,
      fun h => ⟨h.id, h.owner, h.inLr, h.inSpilled, h.state, h.lock⟩⟩
  | gicv3 => exact ⟨fun h => ⟨h.id, h.owner, h.inLr, h.inSpilled, h.state, h.lock⟩,
      fun h => ⟨h.id, h.owner, h.inLr, h.inSpilled, h.state, h.lock⟩⟩

variable {m : VgicMem}

theorem vgicCpuInit_vcpu (v : Nat) (m : VgicMem) :
    (vgicCpuInit P v m).vcpus v = { m.vcpus v with
      interrupts := forEntries gicMaxSgis (initSgi P.ver)
        (forEntries gicCpuPriv (initPrivInt P.ver v (P.physId v)) (m.vcpus v).interrupts)
      spilled := (m.vcpus v).spilled.init } := atCpu_same _ _ _

/-- What `vgic_cpu_init` leaves of a private interrupt. -/
theorem vgicCpuInit_int (hi : i < gicCpuPriv) :
    ((vgicCpuInit P v m).vcpus v).interrupts i =
      if i < gicMaxSgis then
        initSgi P.ver i (initPrivInt P.ver v (P.physId v) i ((m.vcpus v).interrupts i))
      else initPrivInt P.ver v (P.physId v) i ((m.vcpus v).interrupts i) := by
  rw [vgicCpuInit_vcpu]
  dsimp only
  split
  · rename_i hsgi
    rw [forEntries_at hsgi, forEntries_at hi]
  · rename_i hsgi
    rw [forEntries_past (Nat.le_of_not_lt hsgi), forEntries_at hi]

theorem vgicCpuInit_ready (hi : i < gicCpuPriv) :
    IntReady i (some v) (((vgicCpuInit P v m).vcpus v).interrupts i) ↔
      ((m.vcpus v).interrupts i).inSpilled = false := by
  rw [vgicCpuInit_int hi]
  split
  · rw [initSgi_ready, initPrivInt_ready]
  · exact initPrivInt_ready

theorem vgicCpuInit_other (h : v ≠ w) : (vgicCpuInit P w m).vcpus v = m.vcpus v :=
  atCpu_other _ _ h

theorem vgicCpuInit_inSpilled (hi : i < gicCpuPriv) :
    (((vgicCpuInit P w m).vcpus v).interrupts i).inSpilled =
      ((m.vcpus v).interrupts i).inSpilled := by
  by_cases hv : v = w
  · rw [← hv, vgicCpuInit_int hi]
    cases P.ver <;> split <;> rfl
  · rw [vgicCpuInit_other hv]

theorem cpuInits_other {order : List Nat} (h : v ∉ order) :
    (order.foldl (fun m v => vgicCpuInit P v m) m).vcpus v = m.vcpus v := by
  induction order generalizing m with
  | nil => rfl
  | cons w rest ih =>
      have hrest : v ∉ rest := fun hin => h (List.mem_cons_of_mem w hin)
      have hw : v ≠ w := fun heq => h (heq ▸ List.mem_cons_self)
      rw [List.foldl_cons, ih hrest, vgicCpuInit_other hw]

/-- What is left of a vCPU comes from its last turn, before which its flags
`in_spilled` were as at the start. -/
theorem cpuInits_last {order : List Nat} (h : v ∈ order) (m : VgicMem) :
    ∃ m', (order.foldl (fun m v => vgicCpuInit P v m) m).vcpus v = (vgicCpuInit P v m').vcpus v ∧
      ∀ i, i < gicCpuPriv →
        ((m'.vcpus v).interrupts i).inSpilled = ((m.vcpus v).interrupts i).inSpilled := by
  induction order generalizing m with
  | nil => exact absurd h List.not_mem_nil
  | cons w rest ih =>
      rw [List.foldl_cons]
      by_cases hrest : v ∈ rest
      · obtain ⟨m', hlast, hsame⟩ := ih hrest (vgicCpuInit P w m)
        refine ⟨m', hlast, fun i hi => ?_⟩
        rw [hsame i hi, vgicCpuInit_inSpilled hi]
      · have hvw : v = w := (List.mem_cons.mp h).resolve_right hrest
        rw [cpuInits_other hrest, ← hvw]
        exact ⟨m, rfl, fun _ _ => rfl⟩

/-- `vgic_init` changes nothing of a vCPU but its redistributor. -/
theorem vgicInit_vcpus (content : Nat → VgicIntMem) :
    ((vgicInit P D content m).vcpus v).interrupts = (m.vcpus v).interrupts ∧
      ((vgicInit P D content m).vcpus v).spilled = (m.vcpus v).spilled := by
  unfold vgicInit
  dsimp only
  cases P.ver with
  | gicv2 => exact ⟨rfl, rfl⟩
  | gicv3 =>
      by_cases hv : v < P.vcpuNum
      · dsimp only
        rw [forEntries_at hv]
        exact ⟨rfl, rfl⟩
      · dsimp only
        rw [forEntries_past (Nat.le_of_not_lt hv)]
        exact ⟨rfl, rfl⟩

/-! ## The numbers -/

theorem vgicGetItln_lt (D : VgicDscrp) : vgicGetItln D < 32 := by
  unfold vgicGetItln
  split
  · have hle : (31#D.sizeBits).toNat ≤ 31 := by
      rw [BitVec.toNat_ofNat]
      exact Nat.mod_le _ _
    have hand := @Nat.and_le_right
      ((D.interruptNum + 32#_ - 1#_) / 32#_ * 32#_ / 32#_ - 1#_).toNat (31#D.sizeBits).toNat
    dsimp only
    rw [BitVec.toNat_and]
    omega
  · rw [BitVec.toNat_and]
    have hand := @Nat.and_le_right (D.gicdTyper >>> 0).toNat (31#32).toNat
    have hmask : (31#32).toNat = 31 := rfl
    omega

/-- `TYPER` shows the number of lines that the array was made for. -/
theorem vgicTyper_itln {itln : Nat} (h : itln < 32) (ver : GicVersion) (cpuNum : Nat) :
    vgicTyper ver itln cpuNum &&& gicdTyperItlnMsk = itln := by
  have hmask : ∀ n, n &&& gicdTyperItlnMsk = n % 2 ^ 5 := fun n => Nat.and_two_pow_sub_one_eq_mod n 5
  have hlow : (itln <<< 0 &&& gicdTyperItlnMsk) % 2 ^ 5 = itln := by
    rw [hmask, Nat.shiftLeft_zero, Nat.mod_mod]
    exact Nat.mod_eq_of_lt h
  have hcpus : ((cpuNum - 1) <<< 5 &&& gicdTyperCpunumMsk) % 2 ^ 5 = 0 := by
    rw [Nat.and_mod_two_pow]
    have hzero : gicdTyperCpunumMsk % 2 ^ 5 = 0 := rfl
    rw [hzero, Nat.and_zero]
  have htyper : ((itln <<< 0 &&& gicdTyperItlnMsk) |||
      ((cpuNum - 1) <<< 5 &&& gicdTyperCpunumMsk)) % 2 ^ 5 = itln := by
    rw [Nat.or_mod_two_pow, hlow, hcpus, Nat.or_zero]
  rw [hmask]
  cases ver with
  | gicv2 => exact htyper
  | gicv3 =>
      unfold vgicTyper
      have hids : ((10 - 1) <<< 19 &&& gicdTyperIdbitsMsk) % 2 ^ 5 = 0 := rfl
      rw [Nat.or_mod_two_pow, htyper, hids, Nat.or_zero]

theorem numPagesOf_le (size : Nat) : size ≤ numPagesOf size * vgicPageSize := by
  unfold numPagesOf vgicPageSize
  omega

/-! ## The set-up -/

variable {order : List Nat} {content : Nat → VgicIntMem}

theorem setup_shared (hi : i < (vgicSetup P D order content m).intNum) :
    IntReady (i + gicCpuPriv) none ((vgicSetup P D order content m).interrupts i) ↔
      (content i).inSpilled = false := by
  have hentry : (vgicSetup P D order content m).interrupts i =
      initSharedInt P.ver i (content i) := forEntries_at hi content
  rw [hentry]
  exact initSharedInt_ready

theorem setup_priv (hv : v ∈ order) (hi : i < gicCpuPriv) :
    IntReady i (some v) (((vgicSetup P D order content m).vcpus v).interrupts i) ↔
      ((m.vcpus v).interrupts i).inSpilled = false := by
  obtain ⟨m', hlast, hsame⟩ := cpuInits_last (P := P) hv m
  unfold vgicSetup
  rw [(vgicInit_vcpus content).1, hlast, vgicCpuInit_ready hi, hsame i hi]

theorem setup_spilled (hv : v ∈ order) :
    ((vgicSetup P D order content m).vcpus v).spilled.IsEmpty := by
  obtain ⟨m', hlast, -⟩ := cpuInits_last (P := P) hv m
  unfold vgicSetup
  rw [(vgicInit_vcpus content).2, hlast, vgicCpuInit_vcpu]
  exact ⟨rfl, rfl⟩

theorem setup_typer :
    (vgicSetup P D order content m).intNum =
      32 * (((vgicSetup P D order content m).typer &&& gicdTyperItlnMsk) + 1) := by
  have htyper := vgicTyper_itln (vgicGetItln_lt D) P.ver P.vcpuNum
  change 32 * (vgicGetItln D + 1) =
    32 * ((vgicTyper P.ver (vgicGetItln D) P.vcpuNum &&& gicdTyperItlnMsk) + 1)
  rw [htyper]

/-- The entries that `vgic_get_int` gives lie in the pages of the array. -/
theorem setup_inArray {id : Nat}
    (h : (vgicSetup P D order content m).getInt id v = some (.shared i)) :
    i < (vgicSetup P D order content m).intNum ∧
      (i + 1) * D.intSize ≤ (vgicSetup P D order content m).pages * vgicPageSize := by
  have hlt : i < (vgicSetup P D order content m).intNum := by
    unfold VgicMem.getInt at h
    split at h
    · cases h
    · split at h
      · cases h
        omega
      · cases h
  refine ⟨hlt, ?_⟩
  calc (i + 1) * D.intSize
      ≤ (vgicSetup P D order content m).intNum * D.intSize := Nat.mul_le_mul_right _ hlt
    _ ≤ _ := numPagesOf_le _

/-- **Initialisation.**  Whatever the memory holds before, the vGIC is ready
after `vgic_cpu_init` of all vCPUs and `vgic_init` exactly if none of the
structures was marked as spilled in that memory: no loop assigns `in_spilled`. -/
theorem vgicSetup_ready_iff (P : VgicPlat) (D : VgicDscrp) (order : List Nat)
    (content : Nat → VgicIntMem) (m : VgicMem) (horder : ∀ v, v < P.vcpuNum → v ∈ order) :
    VgicReady P D (vgicSetup P D order content m) ↔
      (∀ i, i < 32 * (vgicGetItln D + 1) → (content i).inSpilled = false) ∧
        ∀ v, v < P.vcpuNum → ∀ i, i < gicCpuPriv →
          ((m.vcpus v).interrupts i).inSpilled = false := by
  constructor
  · intro h
    exact ⟨fun i hi => (setup_shared hi).mp (h.shared i hi),
      fun v hv i hi => (setup_priv (horder v hv) hi).mp (h.priv v hv i hi)⟩
  · intro hclear
    obtain ⟨hcontent, hvcpus⟩ := hclear
    have hshared : ∀ i, i < (vgicSetup P D order content m).intNum →
        IntReady (i + gicCpuPriv) none ((vgicSetup P D order content m).interrupts i) :=
      fun i hi => (setup_shared hi).mpr (hcontent i hi)
    have hpriv : ∀ v, v < P.vcpuNum → ∀ i, i < gicCpuPriv →
        IntReady i (some v) (((vgicSetup P D order content m).vcpus v).interrupts i) :=
      fun v hv i hi => (setup_priv (horder v hv) hi).mpr (hvcpus v hv i hi)
    refine ⟨hshared, hpriv, ⟨⟨rfl, rfl⟩, TicketLock.initval_free,
      fun v hv => setup_spilled (horder v hv)⟩, ?_, fun id v i h => setup_inArray h⟩
    intro v hv id hid
    rw [← setup_typer] at hid
    unfold VgicMem.getInt
    by_cases hlow : id < gicCpuPriv
    · rw [if_pos hlow]
      exact ⟨_, rfl, (hpriv v hv id hlow).id⟩
    · have hentry := hshared (id - gicCpuPriv) (by omega)
      rw [if_neg hlow, if_pos hid]
      refine ⟨_, rfl, hentry.id.trans ?_⟩
      omega

/-- A VM of the two vCPUs of `twoCpuGic` that sees as many lines as the platform
has, two of 32. -/
def twoLines : VgicDscrp :=
  { sizeBits := 64, interruptNum := 0, gicdTyper := 1, gicdIidr := 0, gicrIidr := 0, intSize := 64 }

/-- A structure in zeroed memory, but for the flag `in_spilled`. -/
def staleInt (inSpilled : Bool) : VgicIntMem :=
  { owner := none, route := 0, physRoute := 0, lock := .initval, id := 0, state := .inv, prio := 0
    cfg := 0, lr := 0, targets := 0, sgiPend := 0, hw := false, inLr := false
    inSpilled := inSpilled, enabled := false }

/-- The structures of a VM in zeroed memory. -/
def zeroedVgic : VgicMem :=
  { ctlr := 0, intNum := 0, typer := 0, iidr := 0, lock := .initval
    interrupts := fun _ => staleInt false
    pages := 0
    spilled := ⟨none, none, .initval⟩
    spilledLock := .initval
    vcpus := fun _ =>
      { interrupts := fun _ => staleInt false, vgicr := ⟨0, 0, .initval⟩
        spilled := ⟨none, none, .initval⟩ } }

theorem vgicSetup_ready_iff_zeroed :
    VgicReady (twoCpuGic .gicv3 4 fun _ => false) twoLines
      (vgicSetup (twoCpuGic .gicv3 4 fun _ => false) twoLines [1, 0] (fun _ => staleInt false)
        zeroedVgic) := by
  have horder : ∀ v, v < (twoCpuGic .gicv3 4 fun _ => false).vcpuNum → v ∈ [1, 0] := by decide
  exact (vgicSetup_ready_iff _ twoLines [1, 0] _ zeroedVgic horder).mpr
    ⟨fun _ _ => rfl, fun _ _ _ _ => rfl⟩

/-- Stale pages: interrupt 32 starts marked as spilled, on no list. -/
theorem vgicSetup_not_ready :
    ¬ VgicReady (twoCpuGic .gicv3 4 fun _ => false) twoLines
      (vgicSetup (twoCpuGic .gicv3 4 fun _ => false) twoLines [1, 0] (fun _ => staleInt true)
        zeroedVgic) := by
  intro h
  have hzero := h.shared 0 (by decide)
  have hflag := hzero.inSpilled
  have hstale : ((vgicSetup (twoCpuGic .gicv3 4 fun _ => false) twoLines [1, 0]
      (fun _ => staleInt true) zeroedVgic).interrupts 0).inSpilled = true := by decide
  rw [hstale] at hflag
  cases hflag

/-! ## The start of a run -/

/-- A structure as the run-time model has it.  GICv2 has no `route` and no
`phys`, GICv3 neither `targets` nor `sgi`; `sgi.pend` is used for SGIs only. -/
def VgicIntMem.view (P : VgicPlat) (k : IntKey) (x : VgicIntMem) : VgicInt :=
  let fresh := initInt P k x.lr x.inSpilled
  let i : VgicInt := { fresh with
    owner := x.owner, state := x.state, prio := x.prio, cfg := x.cfg, inLr := x.inLr
    enabled := x.enabled }
  match P.ver with
  | .gicv2 => { i with
      targets := x.targets, sgiAct := x.targets
      sgiPend := if isV2Sgi P k then x.sgiPend else 0#8 }
  | .gicv3 => { i with route := x.route, physRoute := x.physRoute }

/-- The run-time state after a set-up: the CPUs have just been reset and no
message is on its way. -/
def VgicMem.start (P : VgicPlat) (m : VgicMem) : VgicState :=
  { ints := fun k => match k with
      | .priv v i =>
          if v < P.vcpuNum ∧ i < gicCpuPriv then ((m.vcpus v).interrupts i).view P k
          else initInt P k 0 false
      | .shared id =>
          if gicCpuPriv ≤ id ∧ id < m.intNum then (m.interrupts (id - gicCpuPriv)).view P k
          else initInt P k 0 false
    cpus := fun _ => initVgicCpu
    spilled := []
    inbox := fun _ => []
    ctlr := decide (m.ctlr ≠ 0)
    lrWrites := []
    issued := 0
    applied := [] }

theorem initSharedInt_view (hi : gicCpuPriv ≤ i) :
    (initSharedInt P.ver (i - gicCpuPriv) x).view P (.shared i) =
      initInt P (.shared i) x.lr x.inSpilled := by
  have hsgi : gicIsSgi (IntKey.shared i).id = false := by
    apply decide_eq_false
    change ¬ i < 16
    unfold gicCpuPriv at hi
    omega
  unfold initSharedInt VgicIntMem.view initInt isV2Sgi
  cases P.ver with
  | gicv2 => simp [hsgi]
  | gicv3 => simp [hsgi]

theorem initPrivInt_view :
    (if i < gicMaxSgis then initSgi P.ver i (initPrivInt P.ver v (P.physId v) i x)
      else initPrivInt P.ver v (P.physId v) i x).view P (.priv v i) =
      initInt P (.priv v i) x.lr x.inSpilled := by
  have hsgi : gicIsSgi (IntKey.priv v i).id = decide (i < gicMaxSgis) := rfl
  unfold initSgi initPrivInt VgicIntMem.view initInt isV2Sgi
  by_cases hi : i < gicMaxSgis
  · cases P.ver with
    | gicv2 => simp [hsgi, hi]
    | gicv3 => simp [hsgi, hi]
  · cases P.ver with
    | gicv2 => simp [hsgi, hi]
    | gicv3 => simp [hsgi, hi]

/-- **Runs of the vGIC start here.**  In a VM whose own structures were zeroed,
as `vmm_alloc_vm` does, the set-up leaves an initial state of `vgicSystem`,
whatever the pages of the array hold. -/
theorem vgicSetup_start (horder : ∀ v, v < P.vcpuNum → v ∈ order)
    (hzeroed : ∀ v, v < P.vcpuNum → ∀ i, i < gicCpuPriv →
      ((m.vcpus v).interrupts i).inSpilled = false) :
    VgicInit P ((vgicSetup P D order content m).start P) := by
  have hpriv : ∀ v, v < P.vcpuNum → ∀ i, i < gicCpuPriv → ∃ lr,
      (((vgicSetup P D order content m).vcpus v).interrupts i).view P (.priv v i) =
        initInt P (.priv v i) lr false := by
    intro v hv i hi
    obtain ⟨m', hlast, hsame⟩ := cpuInits_last (P := P) (horder v hv) m
    unfold vgicSetup
    rw [(vgicInit_vcpus content).1, hlast, vgicCpuInit_int hi, initPrivInt_view, hsame i hi,
      hzeroed v hv i hi]
    exact ⟨_, rfl⟩
  have hshared : ∀ id, gicCpuPriv ≤ id → id < (vgicSetup P D order content m).intNum →
      ∃ lr inSpilled, ((vgicSetup P D order content m).interrupts (id - gicCpuPriv)).view P
        (.shared id) = initInt P (.shared id) lr inSpilled := by
    intro id hlow hid
    have hin : id - gicCpuPriv < (vgicSetup P D order content m).intNum := by omega
    have hentry : (vgicSetup P D order content m).interrupts (id - gicCpuPriv) =
        initSharedInt P.ver (id - gicCpuPriv) (content (id - gicCpuPriv)) :=
      forEntries_at hin content
    rw [hentry, initSharedInt_view hlow]
    exact ⟨_, _, rfl⟩
  refine ⟨fun k => ?_, fun v i => ?_, fun _ => rfl, rfl, fun _ => rfl, rfl, rfl, rfl, rfl⟩
  · cases k with
    | priv v i =>
        unfold VgicMem.start
        dsimp only
        split
        · rename_i h
          obtain ⟨lr, heq⟩ := hpriv v h.1 i h.2
          exact ⟨lr, false, heq⟩
        · exact ⟨_, _, rfl⟩
    | shared id =>
        unfold VgicMem.start
        dsimp only
        split
        · rename_i h
          exact hshared id h.1 h.2
        · exact ⟨_, _, rfl⟩
  · unfold VgicMem.start
    dsimp only
    split
    · rename_i h
      obtain ⟨lr, heq⟩ := hpriv v h.1 i h.2
      rw [heq]
      rfl
    · rfl

/-- Stale pages are no obstacle to a run. -/
theorem vgicSetup_start_stale :
    let gic := twoCpuGic .gicv3 4 fun _ => false
    VgicInit gic ((vgicSetup gic twoLines [1, 0] (fun _ => staleInt true) zeroedVgic).start gic) :=
  vgicSetup_start (by decide) fun _ _ _ _ => rfl

end Bao

import BaoHypervisor.Bitmap
import BaoHypervisor.Bits64
import BaoHypervisor.StepSystem

/-!
# The device directory of the RISC-V IOMMU

`iommu_arch_vm_add_device` and what it calls, for the master CPUs of several VMs that
add devices at the same time.  An identifier is taken in the bitmap and its entry of the
directory is written later, the word that makes it valid first; each of these is one step,
so that the IOMMU may look at the entry at any moment.
-/

namespace Bao

namespace RvIommu

open BitMemory

/-- `DDT_N_ENTRIES`. -/
abbrev ddtEntries : Nat := 64

/-- The words of `struct ddt_entry` that are written. -/
structure DdtEntry where
  tc : BitVec 64
  iohgatp : BitVec 64
  deriving DecidableEq

/-- `RV_IOMMU_DC_VALID_BIT`. -/
abbrev dcValid : BitVec 64 := 1#64 <<< 0

/-- The word `rv_iommu_write_ddt` builds of the root table's address and `vm->id`. -/
def iohgatpOf (rootPt vmId : BitVec 64) : BitVec 64 :=
  (((0#64 ||| ((rootPt >>> 12) &&& bit64Mask 0 44)) ||| ((vmId <<< 44) &&& bit64Mask 44 16)) |||
    (8#64 <<< 60))

/-- What the IOMMU does with the accesses of a device: they fault, they go to physical
memory as they are, or through the table at a page and under an identifier. -/
inductive DdtTarget where
  | blocked
  | bare
  | table (ppn gscid : BitVec 64)
  deriving DecidableEq

/-- How the IOMMU reads an entry; the mode is 0 for no translation. -/
def DdtEntry.target (e : DdtEntry) : DdtTarget :=
  if e.tc &&& dcValid = 0#64 then .blocked
  else if bit64Extract e.iohgatp 60 4 = 0#64 then .bare
  else .table (bit64Extract e.iohgatp 0 44) (bit64Extract e.iohgatp 44 16)

/-- Of a `struct vm`, its identifier and the physical address of its root table. -/
structure RvVm where
  id : BitVec 64
  rootPt : BitVec 64

/-- Where a CPU is in adding device `dev` to VM `vm`: it has the identifier, it has the lock
and has checked the bitmap, it has written `tc`. -/
inductive DdtPhase where
  | idle
  | allocated (vm dev : Nat)
  | checked (vm dev : Nat)
  | valid (vm dev : Nat)
  | halted
  deriving DecidableEq

/-- The device a CPU is adding. -/
def DdtPhase.dev? : DdtPhase → Option Nat
  | .allocated _ dev | .checked _ dev | .valid _ dev => some dev
  | _ => none

/-- The directory, the bitmap, the holder of `ddt_lock`, the CPUs, what the calls have
returned, and the VM that has each identifier. -/
structure DdtState (κ : Type) where
  ddt : Nat → DdtEntry
  bitmap : Store
  lock : Option κ
  phase : κ → DdtPhase
  answers : List (Nat × Nat × Bool)
  taken : Nat → Option Nat

/-- A CPU adds a device to a VM, or goes on. -/
inductive DdtStep (κ : Type) where
  | add (c : κ) (vm dev : Nat)
  | go (c : κ)

variable {κ : Type} [DecidableEq κ] (vms : Nat → RvVm)

/-- The CPU in another phase. -/
def DdtState.goTo (s : DdtState κ) (c : κ) (p : DdtPhase) : DdtState κ :=
  { s with phase := Function.update s.phase c p }

/-- `iommu_vm_arch_add` with `rv_iommu_alloc_did`. -/
def DdtState.alloc (s : DdtState κ) (c : κ) (vm dev : Nat) : DdtState κ :=
  if 0 < dev then
    if bitmapGet s.bitmap 0 dev = false then
      { s.goTo c (.allocated vm dev) with
        bitmap := bitmapSet s.bitmap 0 dev
        taken := Function.update s.taken dev (some vm) }
    else { s with answers := s.answers ++ [(vm, dev, false)] }
  else { s with answers := s.answers ++ [(vm, dev, false)] }

/-- The next step of `rv_iommu_write_ddt`. -/
def DdtState.writeDdt (s : DdtState κ) (c : κ) : DdtState κ :=
  match s.phase c with
  | .allocated vm dev =>
      if bitmapGet s.bitmap 0 dev = false then s.goTo c .halted
      else { s.goTo c (.checked vm dev) with lock := some c }
  | .checked vm dev =>
      { s.goTo c (.valid vm dev) with
        ddt := Function.update s.ddt dev { s.ddt dev with tc := 0#64 ||| dcValid } }
  | .valid vm dev =>
      { s.goTo c .idle with
        ddt := Function.update s.ddt dev { s.ddt dev with
          iohgatp := iohgatpOf (vms vm).rootPt (vms vm).id }
        lock := none
        answers := s.answers ++ [(vm, dev, true)] }
  | _ => s

/-- A critical section begins when the lock is free. -/
def DdtStep.enabled : DdtStep κ → DdtState κ → Prop
  | .add c _ _, s => s.phase c = .idle ∧ s.lock = none
  | .go c, s => ∀ vm dev, s.phase c = .allocated vm dev → s.lock = none

def DdtStep.next : DdtStep κ → DdtState κ → DdtState κ
  | .add c vm dev, s => s.alloc c vm dev
  | .go c, s => s.writeDdt vms c

/-- As `rv_iommu_init` leaves it. -/
def DdtState.Start (s : DdtState κ) : Prop :=
  (∀ dev, s.ddt dev = ⟨0#64, 0#64⟩) ∧ (∀ dev, dev < ddtEntries → s.bitmap dev = false) ∧
    s.lock = none ∧ (∀ c, s.phase c = .idle) ∧ s.answers = [] ∧ ∀ dev, s.taken dev = none

/-- The master CPUs and the directory. -/
def ddtSystem : StepSystem (DdtState κ) (DdtStep κ) :=
  .ofNext DdtState.Start DdtStep.enabled (DdtStep.next vms)

/-- The identifiers are entries of the directory, which the code does not check. -/
def InDirectory (_ : DdtState κ) : DdtStep κ → Prop
  | .add _ _ dev => dev < ddtEntries
  | .go _ => True

/-! ## The words -/

theorem getLsbD_mode (j : Nat) :
    (8#64).getLsbD j = (decide (j < 4) && (8#64).getLsbD j) := by
  by_cases hj : j < 4
  · rw [decide_eq_true hj, Bool.true_and]
  · have hbit : (8#64).getLsbD j = false := by
      have hlt : 8 < 2 ^ j := Nat.lt_of_lt_of_le (by decide : 8 < 2 ^ 4)
        (Nat.pow_le_pow_right (by decide) (by omega))
      exact Nat.testBit_lt_two_pow hlt
    rw [hbit, Bool.and_false]

/-- The fields side by side. -/
theorem getLsbD_iohgatpOf {rootPt vmId : BitVec 64} {j : Nat} (hj : j < 64) :
    (iohgatpOf rootPt vmId).getLsbD j =
      if j < 44 then rootPt.getLsbD (12 + j)
      else if j < 60 then vmId.getLsbD (j - 44)
      else (8#64).getLsbD (j - 60) := by
  rw [iohgatpOf, BitVec.getLsbD_or, BitVec.getLsbD_or, BitVec.getLsbD_or, BitVec.getLsbD_and,
    BitVec.getLsbD_and, BitVec.getLsbD_ushiftRight, BitVec.getLsbD_shiftLeft,
    BitVec.getLsbD_shiftLeft, getLsbD_bit64Mask (by decide) (by decide),
    getLsbD_bit64Mask (by decide) (by decide), BitVec.getLsbD_zero]
  by_cases h44 : j < 44
  · have h60 : j < 60 := by omega
    have hle : ¬ 44 ≤ j := by omega
    simp [hj, h44, h60, hle]
  · by_cases h60 : j < 60
    · have hle : 44 ≤ j := by omega
      simp [hj, h44, h60, hle]
    · have hle : 44 ≤ j := by omega
      simp [hj, h44, h60, hle]

/-- **The written entry** has the table's page, the VM's identifier and Sv39x4. -/
theorem extract_iohgatpOf (rootPt vmId : BitVec 64) :
    bit64Extract (iohgatpOf rootPt vmId) 60 4 = 8#64 ∧
      bit64Extract (iohgatpOf rootPt vmId) 0 44 = bit64Extract rootPt 12 44 ∧
      bit64Extract (iohgatpOf rootPt vmId) 44 16 = bit64Extract vmId 0 16 := by
  refine ⟨?_, ?_, ?_⟩
  · apply BitVec.eq_of_getLsbD_eq
    intro j _
    rw [getLsbD_bit64Extract (by decide) (by decide), getLsbD_mode]
    by_cases hj : j < 4
    · rw [getLsbD_iohgatpOf (by omega), if_neg (by omega), if_neg (by omega),
        Nat.add_sub_cancel_left]
    · rw [decide_eq_false hj, Bool.false_and, Bool.false_and]
  · apply BitVec.eq_of_getLsbD_eq
    intro j _
    rw [getLsbD_bit64Extract (by decide) (by decide), getLsbD_bit64Extract (by decide) (by decide),
      Nat.zero_add]
    by_cases hj : j < 44
    · rw [getLsbD_iohgatpOf (by omega), if_pos hj]
    · rw [decide_eq_false hj, Bool.false_and, Bool.false_and]
  · apply BitVec.eq_of_getLsbD_eq
    intro j _
    rw [getLsbD_bit64Extract (by decide) (by decide), getLsbD_bit64Extract (by decide) (by decide),
      Nat.zero_add]
    by_cases hj : j < 16
    · rw [getLsbD_iohgatpOf (by omega), if_neg (by omega), if_pos (by omega),
        Nat.add_sub_cancel_left]
    · rw [decide_eq_false hj, Bool.false_and, Bool.false_and]

variable {vms} {s s' : DdtState κ} {c : κ} {vm dev : Nat}

theorem target_cleared : (⟨0#64, 0#64⟩ : DdtEntry).target = .blocked := by decide

theorem target_valid : (⟨0#64 ||| dcValid, 0#64⟩ : DdtEntry).target = .bare := by decide

theorem target_written (v : RvVm) :
    (⟨0#64 ||| dcValid, iohgatpOf v.rootPt v.id⟩ : DdtEntry).target =
      .table (bit64Extract v.rootPt 12 44) (bit64Extract v.id 0 16) := by
  obtain ⟨hmode, hppn, hid⟩ := extract_iohgatpOf v.rootPt v.id
  have hset : ¬ (0#64 ||| dcValid) &&& dcValid = 0#64 := by decide
  have hsv : ¬ 8#64 = 0#64 := by decide
  unfold DdtEntry.target
  dsimp only
  rw [hmode, hppn, hid, if_neg hset, if_neg hsv]

/-! ## The invariant -/

/-- The calls for a device that have succeeded. -/
def DdtState.added (s : DdtState κ) (dev : Nat) : Nat :=
  s.answers.countP fun a => a.2.1 == dev && a.2.2

variable (vms) in
/-- Where an identifier is: nobody has asked for it, one CPU is adding its device, or it
has been added. -/
inductive DevIs (s : DdtState κ) (dev : Nat) : Prop where
  | free (hddt : s.ddt dev = ⟨0#64, 0#64⟩) (hbit : s.bitmap dev = false)
      (htaken : s.taken dev = none) (hidle : ∀ c, (s.phase c).dev? ≠ some dev)
      (hadded : s.added dev = 0)
  | pending (c : κ) (vm : Nat)
      (hphase : (s.phase c = .allocated vm dev ∨ s.phase c = .checked vm dev) ∧
          s.ddt dev = ⟨0#64, 0#64⟩ ∨
        s.phase c = .valid vm dev ∧ s.ddt dev = ⟨0#64 ||| dcValid, 0#64⟩)
      (hbit : s.bitmap dev = true) (htaken : s.taken dev = some vm)
      (honly : ∀ c', (s.phase c').dev? = some dev → c' = c) (hadded : s.added dev = 0)
  | done (vm : Nat)
      (hddt : s.ddt dev = ⟨0#64 ||| dcValid, iohgatpOf (vms vm).rootPt (vms vm).id⟩)
      (hbit : s.bitmap dev = true) (htaken : s.taken dev = some vm)
      (hidle : ∀ c, (s.phase c).dev? ≠ some dev) (hadded : s.added dev = 1)

omit [DecidableEq κ] in
/-- What is done for one device leaves the others where they are. -/
theorem DevIs.frame (h : DevIs vms s dev)
    (hphase : ∀ c, s'.phase c = s.phase c ∨
      (s.phase c).dev? ≠ some dev ∧ (s'.phase c).dev? ≠ some dev)
    (hddt : s'.ddt dev = s.ddt dev) (hbit : s'.bitmap dev = s.bitmap dev)
    (htaken : s'.taken dev = s.taken dev) (hadded : s'.added dev = s.added dev) :
    DevIs vms s' dev := by
  have hon : ∀ c, (s'.phase c).dev? = some dev → (s.phase c).dev? = some dev := by
    intro c hc
    rcases hphase c with hsame | ⟨-, hne⟩
    · rwa [← hsame]
    · exact (hne hc).elim
  cases h with
  | free hddt0 hbit0 htaken0 hidle0 hadded0 =>
      exact .free (hddt.trans hddt0) (hbit.trans hbit0) (htaken.trans htaken0)
        (fun c hc => hidle0 c (hon c hc)) (hadded.trans hadded0)
  | pending c vm hphase0 hbit0 htaken0 honly0 hadded0 =>
      have hsame : s'.phase c = s.phase c := by
        rcases hphase c with hsame | ⟨hne, -⟩
        · exact hsame
        · rcases hphase0 with ⟨hp | hp, -⟩ | ⟨hp, -⟩
          · exact (hne (by rw [hp]; rfl)).elim
          · exact (hne (by rw [hp]; rfl)).elim
          · exact (hne (by rw [hp]; rfl)).elim
      refine .pending c vm ?_ (hbit.trans hbit0) (htaken.trans htaken0)
        (fun c' hc' => honly0 c' (hon c' hc')) (hadded.trans hadded0)
      rw [hsame, hddt]
      exact hphase0
  | done vm hddt0 hbit0 htaken0 hidle0 hadded0 =>
      exact .done vm (hddt.trans hddt0) (hbit.trans hbit0) (htaken.trans htaken0)
        (fun c hc => hidle0 c (hon c hc)) (hadded.trans hadded0)

variable (vms) in
/-- Every identifier of the directory is in one of these places, and only they are used. -/
structure DdtInv (s : DdtState κ) : Prop where
  devs : ∀ dev, dev < ddtEntries → DevIs vms s dev
  used : ∀ c dev, (s.phase c).dev? = some dev → 0 < dev ∧ dev < ddtEntries
  running : ∀ c, s.phase c ≠ .halted
  zero : s.taken 0 = none

theorem goTo_other {p : DdtPhase} {c' : κ} (h : c' ≠ c) : (s.goTo c p).phase c' = s.phase c' :=
  Function.update_of_ne h _ _

theorem goTo_same {p : DdtPhase} : (s.goTo c p).phase c = p := Function.update_self _ _ _

theorem goTo_frame {p : DdtPhase} {d : Nat} (hold : (s.phase c).dev? ≠ some d)
    (hnew : p.dev? ≠ some d) (c' : κ) :
    (s.goTo c p).phase c' = s.phase c' ∨
      (s.phase c').dev? ≠ some d ∧ ((s.goTo c p).phase c').dev? ≠ some d := by
  by_cases hc : c' = c
  · subst hc
    rw [goTo_same]
    exact .inr ⟨hold, hnew⟩
  · exact .inl (goTo_other hc)

omit [DecidableEq κ] in
theorem added_refused {d : Nat} : ({ s with answers := s.answers ++ [(vm, dev, false)] } :
    DdtState κ).added d = s.added d := by
  simp [DdtState.added]

omit [DecidableEq κ] in
/-- A call that is refused changes nothing. -/
theorem DdtInv.refuse (h : DdtInv vms s) :
    DdtInv vms { s with answers := s.answers ++ [(vm, dev, false)] } :=
  ⟨fun d hd => (h.devs d hd).frame (fun _ => .inl rfl) rfl rfl rfl added_refused, h.used,
    h.running, h.zero⟩

/-- **What a CPU does for its device** keeps the invariant, if it does for that device. -/
theorem DdtInv.advance (h : DdtInv vms s) {p : DdtPhase} (hdev : 0 < dev ∧ dev < ddtEntries)
    (hold : ∀ d, (s.phase c).dev? = some d → d = dev) (hnew : ∀ d, p.dev? = some d → d = dev)
    (hrun : p ≠ .halted) (hphase : s'.phase = (s.goTo c p).phase)
    (hkept : ∀ d, d ≠ dev → s'.ddt d = s.ddt d ∧ s'.bitmap d = s.bitmap d ∧
      s'.taken d = s.taken d ∧ s'.added d = s.added d)
    (hthis : DevIs vms s' dev) : DdtInv vms s' := by
  refine ⟨fun d hd => ?_, fun c' d hc' => ?_, fun c' => ?_, ?_⟩
  · by_cases hsame : d = dev
    · subst hsame
      exact hthis
    · obtain ⟨hddt, hbit, htaken, hadded⟩ := hkept d hsame
      refine (h.devs d hd).frame (fun c' => ?_) hddt hbit htaken hadded
      rw [hphase]
      exact goTo_frame (fun heq => hsame (hold d heq)) (fun heq => hsame (hnew d heq)) c'
  · rw [hphase] at hc'
    by_cases hc : c' = c
    · subst hc
      rw [goTo_same] at hc'
      rw [hnew d hc']
      exact hdev
    · rw [goTo_other hc] at hc'
      exact h.used c' d hc'
  · rw [hphase]
    by_cases hc : c' = c
    · subst hc
      rw [goTo_same]
      exact hrun
    · rw [goTo_other hc]
      exact h.running c'
  · rw [(hkept 0 (Nat.ne_of_lt hdev.1)).2.2.1]
    exact h.zero

/-- **An identifier is taken** by one call. -/
theorem DdtInv.alloc (h : DdtInv vms s) (hidle : s.phase c = .idle) (hdev : dev < ddtEntries) :
    DdtInv vms (s.alloc c vm dev) := by
  unfold DdtState.alloc
  split
  · next hpos =>
    split
    · next hfree =>
      rw [bitmapGet_eq, Nat.zero_add] at hfree
      refine h.advance (p := .allocated vm dev) ⟨hpos, hdev⟩ (fun d heq => ?_)
        (fun d heq => (Option.some.inj heq).symm) (fun heq => by cases heq) rfl
        (fun d hne => ⟨rfl, ?_, Function.update_of_ne hne _ _, rfl⟩) ?_
      · rw [hidle] at heq
        cases heq
      · dsimp only
        rw [bitmapSet_eq, fill, if_neg (by omega)]
      · cases h.devs dev hdev with
        | free hddt _ _ hidle0 hadded =>
            refine .pending c vm (.inl ⟨.inl goTo_same, hddt⟩) ?_ (Function.update_self _ _ _)
              (fun c' hc' => ?_) hadded
            · dsimp only
              rw [bitmapSet_eq, fill, Nat.zero_add, if_pos ⟨Nat.le_refl _, Nat.lt_succ_self _⟩]
            · by_contra hne
              dsimp only at hc'
              rw [goTo_other hne] at hc'
              exact hidle0 c' hc'
        | pending _ _ _ hbit =>
            rw [hbit] at hfree
            cases hfree
        | done _ _ hbit =>
            rw [hbit] at hfree
            cases hfree
    · exact h.refuse
  · exact h.refuse

omit [DecidableEq κ] in
/-- The device a CPU is adding is pending, for that CPU. -/
theorem DdtInv.pending (h : DdtInv vms s) (hdev : (s.phase c).dev? = some dev) :
    ∃ vm, ((s.phase c = .allocated vm dev ∨ s.phase c = .checked vm dev) ∧
          s.ddt dev = ⟨0#64, 0#64⟩ ∨
        s.phase c = .valid vm dev ∧ s.ddt dev = ⟨0#64 ||| dcValid, 0#64⟩) ∧
      s.bitmap dev = true ∧ s.taken dev = some vm ∧
      (∀ c', (s.phase c').dev? = some dev → c' = c) ∧ s.added dev = 0 := by
  cases h.devs dev (h.used c dev hdev).2 with
  | free _ _ _ hidle => exact (hidle c hdev).elim
  | pending c' vm hphase hbit htaken honly hadded =>
      have hcc := honly c hdev
      subst hcc
      exact ⟨vm, hphase, hbit, htaken, honly, hadded⟩
  | done _ _ _ _ hidle => exact (hidle c hdev).elim

/-- Nobody else is at a device while a CPU goes on with it. -/
theorem only_goTo {p : DdtPhase} (honly : ∀ c', (s.phase c').dev? = some dev → c' = c) (c' : κ)
    (hc' : ((s.goTo c p).phase c').dev? = some dev) : c' = c := by
  by_contra hne
  rw [goTo_other hne] at hc'
  exact hne (honly c' hc')

/-- **The entry is written** word by word. -/
theorem DdtInv.writeDdt (h : DdtInv vms s) : DdtInv vms (s.writeDdt vms c) := by
  have hdevice : ∀ dev, (s.phase c).dev? = some dev →
      ∀ d, (s.phase c).dev? = some d → d = dev :=
    fun dev hdev d heq => Option.some.inj (heq.symm.trans hdev)
  have hsome : ∀ (dev d : Nat), some dev = some d → d = dev :=
    fun _ _ heq => (Option.some.inj heq).symm
  unfold DdtState.writeDdt
  cases hp : s.phase c with
  | idle => exact h
  | halted => exact h
  | allocated vm dev =>
      have hdev : (s.phase c).dev? = some dev := by rw [hp]; rfl
      obtain ⟨vm', hphase, hbit, htaken, honly, hadded⟩ := h.pending hdev
      have hset : ¬ bitmapGet s.bitmap 0 dev = false := by
        rw [bitmapGet_eq, Nat.zero_add, hbit]
        exact Bool.noConfusion
      dsimp only
      rw [if_neg hset]
      refine h.advance (p := .checked vm dev) (h.used c dev hdev) (hdevice dev hdev)
        (hsome dev) (fun heq => by cases heq) rfl (fun _ _ => ⟨rfl, rfl, rfl, rfl⟩) ?_
      rcases hphase with ⟨hp' | hp', hddt⟩ | ⟨hp', -⟩
      · cases hp.symm.trans hp'
        exact .pending c vm (.inl ⟨.inr goTo_same, hddt⟩) hbit htaken (only_goTo honly) hadded
      · cases hp.symm.trans hp'
      · cases hp.symm.trans hp'
  | checked vm dev =>
      have hdev : (s.phase c).dev? = some dev := by rw [hp]; rfl
      obtain ⟨vm', hphase, hbit, htaken, honly, hadded⟩ := h.pending hdev
      refine h.advance (p := .valid vm dev) (h.used c dev hdev) (hdevice dev hdev) (hsome dev)
        (fun heq => by cases heq) rfl
        (fun _ hne => ⟨Function.update_of_ne hne _ _, rfl, rfl, rfl⟩) ?_
      rcases hphase with ⟨hp' | hp', hddt⟩ | ⟨hp', -⟩
      · cases hp.symm.trans hp'
      · cases hp.symm.trans hp'
        refine .pending c vm (.inr ⟨goTo_same, ?_⟩) hbit htaken (only_goTo honly) hadded
        dsimp only
        rw [Function.update_self, hddt]
      · cases hp.symm.trans hp'
  | valid vm dev =>
      have hdev : (s.phase c).dev? = some dev := by rw [hp]; rfl
      obtain ⟨vm', hphase, hbit, htaken, honly, hadded⟩ := h.pending hdev
      refine h.advance (p := .idle) (h.used c dev hdev) (hdevice dev hdev)
        (fun _ heq => by cases heq) (fun heq => by cases heq) rfl
        (fun d hne => ⟨Function.update_of_ne hne _ _, rfl, rfl, ?_⟩) ?_
      · have hno : ¬ dev = d := fun heq => hne heq.symm
        simp [DdtState.added, List.countP_append, hno]
      rcases hphase with ⟨hp' | hp', -⟩ | ⟨hp', hddt⟩
      · cases hp.symm.trans hp'
      · cases hp.symm.trans hp'
      · cases hp.symm.trans hp'
        refine .done vm ?_ hbit htaken (fun c' hc' => ?_) ?_
        · dsimp only
          rw [Function.update_self, hddt]
        · have hc := only_goTo honly c' hc'
          subst hc
          dsimp only at hc'
          rw [goTo_same] at hc'
          cases hc'
        · have hcount : s.answers.countP (fun a => a.2.1 == dev && a.2.2) = 0 := hadded
          simp [DdtState.added, List.countP_append, hcount]

theorem ddtInv_reachable (h : (ddtSystem vms).Reach InDirectory s) : DdtInv vms s := by
  apply h.invariant
  · rintro s ⟨hddt, hbit, -, hidle, hans, htaken⟩
    have hno : ∀ c d, (s.phase c).dev? ≠ some d := by
      intro c d heq
      rw [hidle c] at heq
      cases heq
    refine ⟨fun d hd => .free (hddt d) (hbit d hd) (htaken d) (fun c => hno c d) ?_,
      fun c d heq => (hno c d heq).elim, fun c heq => ?_, htaken 0⟩
    · rw [DdtState.added, hans]
      rfl
    · rw [hidle c] at heq
      cases heq
  · rintro s e s' hinv hok ⟨hen, rfl⟩
    cases e with
    | add c vm dev => exact hinv.alloc hen.1 hok
    | go c => exact hinv.writeDdt

/-- **Whom a device's accesses belong to**, at every moment while the VMs are set up.  A
device that is not taken is blocked; one that is taken goes through the table of the VM
that took it and no other, or is blocked until its entry is valid, but for the moment
between the two words of its entry: there the IOMMU lets it through untranslated.  At most
one call for a device succeeds, and none for device 0. -/
theorem device_confined (h : (ddtSystem vms).Reach InDirectory s) (hdev : dev < ddtEntries) :
    (s.taken dev = none → (s.ddt dev).target = .blocked) ∧
    (∀ vm, s.taken dev = some vm → (s.ddt dev).target = .blocked ∨
      (s.ddt dev).target = .table (bit64Extract (vms vm).rootPt 12 44)
        (bit64Extract (vms vm).id 0 16) ∨
      ∃ c, s.phase c = .valid vm dev) ∧
    ((s.ddt dev).target = .bare ↔ ∃ c vm, s.phase c = .valid vm dev) ∧
    s.added dev ≤ 1 ∧ s.taken 0 = none := by
  have hinv := ddtInv_reachable h
  have hvalid : ∀ c vm, s.phase c = .valid vm dev → (s.phase c).dev? = some dev := by
    intro c vm hp
    rw [hp]
    rfl
  cases hinv.devs dev hdev with
  | free hddt hbit htaken hidle hadded =>
      rw [hddt, htaken, target_cleared, hadded]
      refine ⟨fun _ => rfl, fun vm hvm => (by cases hvm), ⟨fun hbare => (by cases hbare), ?_⟩,
        Nat.zero_le _, hinv.zero⟩
      rintro ⟨c, vm, hp⟩
      exact (hidle c (hvalid c vm hp)).elim
  | pending c vm hphase hbit htaken honly hadded =>
      rw [htaken, hadded]
      rcases hphase with ⟨hp, hddt⟩ | ⟨hp, hddt⟩
      · rw [hddt, target_cleared]
        refine ⟨fun hnone => (by cases hnone), fun vm' _ => .inl rfl,
          ⟨fun hbare => (by cases hbare), ?_⟩, Nat.zero_le _, hinv.zero⟩
        rintro ⟨c', vm', hp'⟩
        have hcc := honly c' (hvalid c' vm' hp')
        subst hcc
        rcases hp with hp | hp
        · cases hp.symm.trans hp'
        · cases hp.symm.trans hp'
      · rw [hddt, target_valid]
        refine ⟨fun hnone => (by cases hnone), fun vm' hvm => .inr (.inr ⟨c, ?_⟩),
          ⟨fun _ => ⟨c, vm, hp⟩, fun _ => rfl⟩, Nat.zero_le _, hinv.zero⟩
        cases hvm
        exact hp
  | done vm hddt hbit htaken hidle hadded =>
      rw [hddt, htaken, target_written, hadded]
      refine ⟨fun hnone => (by cases hnone), fun vm' hvm => .inr (.inl ?_),
        ⟨fun hbare => (by cases hbare), ?_⟩, Nat.le_refl _, hinv.zero⟩
      · cases hvm
        rfl
      · rintro ⟨c, vm', hp⟩
        exact (hidle c (hvalid c vm' hp)).elim

/-- The directory as `rv_iommu_init` leaves it, with two CPUs. -/
def ddtStart : DdtState Bool where
  ddt _ := ⟨0#64, 0#64⟩
  bitmap _ := false
  lock := none
  phase _ := .idle
  answers := []
  taken _ := none

/-- VMs with one root table after the other. -/
def ddtVms (i : Nat) : RvVm := ⟨BitVec.ofNat 64 i, BitVec.ofNat 64 (0x80000000 + 0x4000 * i)⟩

/-- Device 5 while its entry is written. -/
theorem device_confined_bare :
    ∃ s : DdtState Bool, (ddtSystem ddtVms).Reach InDirectory s ∧ (s.ddt 5).target = .bare := by
  have hreach : (ddtSystem ddtVms).Reach InDirectory
      (StepSystem.runBy (DdtStep.next ddtVms) [.add true 1 5, .go true, .go true] ddtStart) := by
    apply StepSystem.Meets.fromInit
    · exact ⟨fun _ => rfl, fun _ _ => rfl, rfl, fun _ => rfl, rfl, fun _ => rfl⟩
    · have hdev : 5 < ddtEntries := by decide
      refine ⟨⟨rfl, rfl⟩, hdev, fun _ _ _ => rfl, trivial, fun _ _ heq => ?_, trivial, trivial⟩
      cases heq
  exact ⟨_, hreach, (device_confined hreach (by decide)).2.2.1.mpr ⟨true, 1, rfl⟩⟩

end RvIommu

end Bao

import BaoHypervisor.Bitmap
import BaoHypervisor.Vplic
import BaoHypervisor.WordRegs

/-!
# Completions at the vPLIC

`vplic_complete` on the memory of `struct vplic`.  The value that the guest
writes is used as a bit index into `act`, so what it clears is said here about
the bits of the memory from `act` on: behind the bitmap lie `prio`, `enbl`,
`threshold` and whatever follows the structure.
-/

namespace Bao

open BitMemory

/-- `struct vplic` in memory: `mem` are the bits from `act` on, `pend` the bitmap
before it.  `completed` are the ids written to the `complete` registers of the
physical PLIC, with the CPU that did it. -/
structure VplicMem where
  mem : Store
  pend : Nat → Bool
  line : Nat → Bool
  inbox : Nat → List Nat
  completed : List (Nat × Nat)

variable (P : VplicPlat)

/-- The bits of `act`, `prio` and `enbl` together, behind which `threshold` lies. -/
def vplicPrioBit : Nat := plicMaxInterrupts
def vplicEnblBit : Nat := vplicPrioBit + 32 * plicMaxInterrupts
def vplicThresholdBit : Nat := vplicEnblBit + plicMaxInterrupts * plicPlatCntxtNum P

/-- The registers that the memory holds. -/
def VplicMem.regs (s : VplicMem) : Vplic :=
  { pend := s.pend
    act := fun i => decide (i < plicMaxInterrupts) && s.mem i
    prio := fun i =>
      if i < plicMaxInterrupts then word 32 s.mem (vplicPrioBit + 32 * i) else 0#32
    enbl := fun c i =>
      decide (c < plicPlatCntxtNum P ∧ i < plicMaxInterrupts) &&
        s.mem (vplicEnblBit + plicMaxInterrupts * c + i)
    threshold := fun c =>
      if c < plicPlatCntxtNum P then word 32 s.mem (vplicThresholdBit P + 32 * c) else 0#32 }

/-- The state without the memory's layout and the physical PLIC. -/
def VplicMem.toState (s : VplicMem) : VplicState :=
  { regs := s.regs P, line := s.line, inbox := s.inbox }

/-- `vplic_get_hw`. -/
def vplicGetHw (intId : Nat) : Bool := decide (intId < plicMaxInterrupts) && P.hw intId

/-- `vplic_complete`. -/
def vplicCompleteMem (v vcntxt intId : Nat) (s : VplicMem) : VplicMem :=
  let s := if vplicGetHw P intId then
      { s with completed := s.completed ++ [(P.physId v, intId)] }
    else s
  let s := { s with mem := bitmapClear s.mem 0 intId }
  let updated := vplicUpdateHartLine P v vcntxt (s.toState P)
  { s with line := updated.line, inbox := updated.inbox }

/-- **A confined completion.**  If the value is the id of a source that is
active, its active bit is cleared and no other bit; otherwise nothing in memory
changes.  The physical PLIC is told of hardware sources of the VM only. -/
structure CompleteConfined (v vcntxt intId : Nat) (s : VplicMem) : Prop where
  active : 0 < intId → intId < plicMaxInterrupts → s.mem intId = true →
    (vplicCompleteMem P v vcntxt intId s).mem intId = false ∧
      ∀ b, b ≠ intId → (vplicCompleteMem P v vcntxt intId s).mem b = s.mem b
  idle : ¬ (0 < intId ∧ intId < plicMaxInterrupts ∧ s.mem intId = true) →
    (vplicCompleteMem P v vcntxt intId s).mem = s.mem
  pend : (vplicCompleteMem P v vcntxt intId s).pend = s.pend
  physical : (vplicCompleteMem P v vcntxt intId s).completed = s.completed ∨
    intId < plicMaxInterrupts ∧ P.hw intId = true ∧
      (vplicCompleteMem P v vcntxt intId s).completed = s.completed ++ [(P.physId v, intId)]

variable {P} {v vcntxt intId : Nat} {s : VplicMem}

theorem vplicCompleteMem_mem (b : Nat) :
    (vplicCompleteMem P v vcntxt intId s).mem b = if b = intId then false else s.mem b := by
  have hmem : (vplicCompleteMem P v vcntxt intId s).mem = bitmapClear s.mem 0 intId := by
    unfold vplicCompleteMem
    dsimp only
    split <;> rfl
  rw [hmem, bitmapClear_eq, Nat.zero_add]
  by_cases hb : b = intId
  · rw [if_pos hb, fill_inside (by omega) (by omega)]
  · rw [if_neg hb, fill_other (by omega)]

theorem vplicCompleteMem_pend : (vplicCompleteMem P v vcntxt intId s).pend = s.pend := by
  unfold vplicCompleteMem
  dsimp only
  split <;> rfl

theorem vplicCompleteMem_completed :
    (vplicCompleteMem P v vcntxt intId s).completed =
      if vplicGetHw P intId then s.completed ++ [(P.physId v, intId)] else s.completed := by
  unfold vplicCompleteMem
  dsimp only
  split <;> rfl

/-- **Confinement.**  A completion with any 32-bit value is confined exactly if
the bit of `act`'s memory it names is clear already, or is the active bit of a
source. -/
theorem vplic_complete_confined_iff (P : VplicPlat) (v vcntxt : Nat) (intId : BitVec 32)
    (s : VplicMem) :
    CompleteConfined P v vcntxt intId.toNat s ↔
      (s.mem intId.toNat = true → 0 < intId.toNat ∧ intId.toNat < plicMaxInterrupts) := by
  generalize intId.toNat = id
  constructor
  · intro h hset
    apply Classical.byContradiction
    intro hout
    have hsame := h.idle (fun hactive => hout ⟨hactive.1, hactive.2.1⟩)
    have hcleared := @vplicCompleteMem_mem P v vcntxt id s id
    rw [if_pos rfl, hsame, hset] at hcleared
    cases hcleared
  · intro hsource
    refine ⟨fun _ _ _ => ⟨?_, fun b hb => ?_⟩, fun hidle => ?_, vplicCompleteMem_pend, ?_⟩
    · rw [vplicCompleteMem_mem, if_pos rfl]
    · rw [vplicCompleteMem_mem, if_neg hb]
    · have hclear : s.mem id = false := by
        apply Bool.eq_false_iff.mpr
        intro hset
        obtain ⟨hpos, hlt⟩ := hsource hset
        exact hidle ⟨hpos, hlt, hset⟩
      funext b
      rw [vplicCompleteMem_mem]
      split
      · rename_i hb
        rw [hb, hclear]
      · rfl
    · rw [vplicCompleteMem_completed]
      cases hhw : vplicGetHw P id with
      | false => exact Or.inl rfl
      | true =>
          unfold vplicGetHw at hhw
          obtain ⟨hlt, hhas⟩ := Bool.and_eq_true_iff.mp hhw
          exact Or.inr ⟨of_decide_eq_true hlt, hhas, rfl⟩

/-- The value 1184 clears bit 0 of the priority of source 5. -/
theorem vplic_complete_not_confined :
    ¬ CompleteConfined ⟨1, 1, id, fun _ => false, Nat.le_refl 1, fun _ h => h, fun _ _ h => h⟩ 0 1
      1184 ⟨fun b => b == 1184, fun _ => false, fun _ => false, fun _ => [], []⟩ := by
  intro h
  have hsame := h.idle (fun hactive => absurd hactive.2.1 (by decide))
  have hcleared := @vplicCompleteMem_mem
    ⟨1, 1, id, fun _ => false, Nat.le_refl 1, fun _ h => h, fun _ _ h => h⟩ 0 1 1184
    ⟨fun b => b == 1184, fun _ => false, fun _ => false, fun _ => [], []⟩ 1184
  rw [hsame] at hcleared
  cases hcleared

/-! ## The registers behind the bitmap -/

theorem word_clearBit {w p bit : Nat} {m m' : Store}
    (hclear : ∀ b, m' b = if b = bit then false else m b) :
    word w m' p =
      if p ≤ bit ∧ bit < p + w then word w m p &&& ~~~(1#w <<< (bit - p)) else word w m p := by
  apply BitVec.eq_of_getLsbD_eq
  intro t ht
  rw [getLsbD_word, hclear]
  by_cases hin : p ≤ bit ∧ bit < p + w
  · rw [if_pos hin, BitVec.getLsbD_and, BitVec.getLsbD_not, WordRegs.getLsbD_mask ht, getLsbD_word]
    have hiff : p + t = bit ↔ t = bit - p := by omega
    by_cases heq : t = bit - p
    · rw [if_pos (hiff.mpr heq), decide_eq_true heq]
      simp
    · rw [if_neg (fun h => heq (hiff.mp h)), decide_eq_false heq]
      simp [ht]
  · rw [if_neg hin, getLsbD_word]
    have hne : p + t ≠ bit := by omega
    rw [if_neg hne]

theorem regs_eq {r r' : Vplic} (hpend : r.pend = r'.pend) (hact : ∀ i, r.act i = r'.act i)
    (hprio : ∀ i, r.prio i = r'.prio i) (henbl : ∀ c i, r.enbl c i = r'.enbl c i)
    (hthreshold : ∀ c, r.threshold c = r'.threshold c) : r = r' := by
  obtain ⟨pend, act, prio, enbl, threshold⟩ := r
  obtain ⟨pend', act', prio', enbl', threshold'⟩ := r'
  have hact' : act = act' := funext hact
  have hprio' : prio = prio' := funext hprio
  have henbl' : enbl = enbl' := funext fun c => funext (henbl c)
  have hthreshold' : threshold = threshold' := funext hthreshold
  rw [hact', hprio', henbl', hthreshold', show pend = pend' from hpend]

/-- What `clearAct` does past the end of `act`, in numbers. -/
theorem clearAct_behind {id : Nat} (h : ¬ id < plicMaxInterrupts) (r : Vplic) :
    clearAct P id r =
      if id / 32 - 32 < 1024 then
        r.setPrio (id / 32 - 32) (r.prio (id / 32 - 32) &&& ~~~(1#32 <<< (id % 32)))
      else if id / 32 - 32 - 1024 < 32 * plicPlatCntxtNum P then
        r.setEnbl ((id / 32 - 32 - 1024) / 32) ((id / 32 - 32 - 1024) % 32 * 32 + id % 32) false
      else if id / 32 - 32 - 1024 - 32 * plicPlatCntxtNum P < plicPlatCntxtNum P then
        r.setThreshold (id / 32 - 32 - 1024 - 32 * plicPlatCntxtNum P)
          (r.threshold (id / 32 - 32 - 1024 - 32 * plicPlatCntxtNum P) &&&
            ~~~(1#32 <<< (id % 32)))
      else r := if_neg h

section Cleared

variable {s' : VplicMem} (hpend : s'.pend = s.pend)
  (hclear : ∀ b, s'.mem b = if b = intId then false else s.mem b)
include hclear

theorem cleared_act (i : Nat) :
    (s'.regs P).act i = if i = intId ∧ intId < plicMaxInterrupts then false else (s.regs P).act i := by
  change (decide (i < plicMaxInterrupts) && s'.mem i) = _
  rw [hclear]
  by_cases hi : i = intId
  · by_cases hlt : intId < plicMaxInterrupts
    · simp [hi, hlt]
    · have hact : (s.regs P).act i = false := by
        change (decide (i < plicMaxInterrupts) && s.mem i) = false
        rw [hi, decide_eq_false hlt, Bool.false_and]
      rw [if_pos hi, Bool.and_false, if_neg (fun h => hlt h.2), hact]
  · rw [if_neg hi, if_neg (fun h => hi h.1)]
    rfl

theorem cleared_prio (i : Nat) :
    (s'.regs P).prio i =
      if i < plicMaxInterrupts ∧ vplicPrioBit ≤ intId ∧ intId / 32 - plicMaxInterrupts / 32 = i then
        (s.regs P).prio i &&& ~~~(1#32 <<< (intId % 32))
      else (s.regs P).prio i := by
  change (if i < plicMaxInterrupts then word 32 s'.mem (vplicPrioBit + 32 * i) else 0#32) = _
  have hold : (s.regs P).prio i =
      if i < plicMaxInterrupts then word 32 s.mem (vplicPrioBit + 32 * i) else 0#32 := rfl
  rw [hold, word_clearBit hclear]
  unfold vplicPrioBit plicMaxInterrupts
  by_cases hi : i < 1024
  · by_cases hin : 1024 + 32 * i ≤ intId ∧ intId < 1024 + 32 * i + 32
    · have hplace : intId - (1024 + 32 * i) = intId % 32 := by omega
      rw [if_pos hi, if_pos hin, if_pos (by omega), if_pos hi, hplace]
    · rw [if_pos hi, if_neg hin, if_neg (by omega), if_pos hi]
  · rw [if_neg hi, if_neg (fun h => hi h.1), if_neg hi]

theorem cleared_enbl (c i : Nat) :
    (s'.regs P).enbl c i =
      if c < plicPlatCntxtNum P ∧ i < plicMaxInterrupts ∧
          intId = vplicEnblBit + plicMaxInterrupts * c + i then false
      else (s.regs P).enbl c i := by
  change (decide (c < plicPlatCntxtNum P ∧ i < plicMaxInterrupts) &&
    s'.mem (vplicEnblBit + plicMaxInterrupts * c + i)) = _
  have hold : (s.regs P).enbl c i = (decide (c < plicPlatCntxtNum P ∧ i < plicMaxInterrupts) &&
    s.mem (vplicEnblBit + plicMaxInterrupts * c + i)) := rfl
  rw [hold, hclear]
  by_cases hin : c < plicPlatCntxtNum P ∧ i < plicMaxInterrupts
  · by_cases hplace : vplicEnblBit + plicMaxInterrupts * c + i = intId
    · simp [hin, hplace]
    · have hplace' : ¬ intId = vplicEnblBit + plicMaxInterrupts * c + i := fun h => hplace h.symm
      simp [hin, hplace, hplace']
  · have hout : ¬ (c < plicPlatCntxtNum P ∧ i < plicMaxInterrupts ∧
        intId = vplicEnblBit + plicMaxInterrupts * c + i) := fun h => hin ⟨h.1, h.2.1⟩
    rw [decide_eq_false hin, if_neg hout, Bool.false_and, Bool.false_and]

theorem cleared_threshold (c : Nat) :
    (s'.regs P).threshold c =
      if c < plicPlatCntxtNum P ∧ vplicThresholdBit P + 32 * c ≤ intId ∧
          intId < vplicThresholdBit P + 32 * c + 32 then
        (s.regs P).threshold c &&& ~~~(1#32 <<< (intId - (vplicThresholdBit P + 32 * c)))
      else (s.regs P).threshold c := by
  change (if c < plicPlatCntxtNum P then word 32 s'.mem (vplicThresholdBit P + 32 * c)
    else 0#32) = _
  have hold : (s.regs P).threshold c =
      if c < plicPlatCntxtNum P then word 32 s.mem (vplicThresholdBit P + 32 * c) else 0#32 := rfl
  rw [hold, word_clearBit hclear]
  by_cases hc : c < plicPlatCntxtNum P
  · simp only [hc, if_true, true_and]
  · simp only [hc, if_false, false_and]

include hpend

/-- **The registers follow the memory**: clearing a bit from `act` on is what
`clearAct` does to the registers. -/
theorem cleared_regs : s'.regs P = clearAct P intId (s.regs P) := by
  have hregsPend : (s'.regs P).pend = (s.regs P).pend := hpend
  have hthresholdBit : vplicThresholdBit P = 33792 + 1024 * plicPlatCntxtNum P := rfl
  have hmax : plicMaxInterrupts = 1024 := rfl
  have hregNum : plicMaxInterrupts / 32 = 32 := rfl
  have hprioBit : vplicPrioBit = 1024 := rfl
  have henblBit : vplicEnblBit = 33792 := rfl
  by_cases hlt : intId < plicMaxInterrupts
  · have hself : clearAct P intId (s.regs P) = (s.regs P).setAct intId false := if_pos hlt
    rw [hself]
    refine regs_eq hregsPend (fun i => ?_) (fun i => ?_) (fun c i => ?_) (fun c => ?_)
    · rw [cleared_act hclear]
      change _ = atCpu (s.regs P).act intId false i
      by_cases hi : i = intId
      · rw [if_pos ⟨hi, hlt⟩, hi, atCpu_same]
      · rw [if_neg (fun h => hi h.1), atCpu_other _ _ hi]
    · rw [cleared_prio hclear, if_neg (by omega)]
      rfl
    · rw [cleared_enbl hclear, if_neg (by omega)]
      rfl
    · rw [cleared_threshold hclear, if_neg (by omega)]
      rfl
  · have hact : ∀ i, (s'.regs P).act i = (s.regs P).act i := by
      intro i
      rw [cleared_act hclear, if_neg (fun h => hlt h.2)]
    rw [clearAct_behind hlt]
    split
    · rename_i hword
      refine regs_eq hregsPend hact (fun i => ?_) (fun c i => ?_) (fun c => ?_)
      · rw [cleared_prio hclear, hregNum]
        change _ = atCpu (s.regs P).prio _ _ i
        by_cases hi : i = intId / 32 - 32
        · rw [if_pos (by omega), hi, atCpu_same]
        · rw [if_neg (by omega), atCpu_other _ _ hi]
      · rw [cleared_enbl hclear, if_neg (by omega)]
        rfl
      · rw [cleared_threshold hclear, if_neg (by omega)]
        rfl
    · rename_i hpast
      have hprio : ∀ i, (s'.regs P).prio i = (s.regs P).prio i := by
        intro i
        rw [cleared_prio hclear, hregNum, if_neg (by omega)]
      split
      · rename_i henbl
        refine regs_eq hregsPend hact hprio (fun c i => ?_) (fun c => ?_)
        · rw [cleared_enbl hclear, hmax, henblBit]
          change _ = atCpu (s.regs P).enbl _ _ c i
          by_cases hc : c = (intId / 32 - 32 - 1024) / 32
          · rw [hc, atCpu_same]
            by_cases hi : i = (intId / 32 - 32 - 1024) % 32 * 32 + intId % 32
            · rw [if_pos (by omega), hi, atCpu_same]
            · rw [if_neg (by omega), atCpu_other _ _ hi]
          · rw [if_neg (by omega), atCpu_other _ _ hc]
        · rw [cleared_threshold hclear, if_neg (by omega)]
          rfl
      · rename_i hthreshold
        have henbl : ∀ c i, (s'.regs P).enbl c i = (s.regs P).enbl c i := by
          intro c i
          rw [cleared_enbl hclear, hmax, henblBit, if_neg (by omega)]
        split
        · rename_i hin
          refine regs_eq hregsPend hact hprio henbl (fun c => ?_)
          rw [cleared_threshold hclear]
          change _ = atCpu (s.regs P).threshold _ _ c
          by_cases hc : c = intId / 32 - 32 - 1024 - 32 * plicPlatCntxtNum P
          · have hplace : intId - (vplicThresholdBit P + 32 * c) = intId % 32 := by omega
            rw [if_pos (by omega), hplace, ← hc, atCpu_same]
          · rw [if_neg (by omega), atCpu_other _ _ hc]
        · refine regs_eq hregsPend hact hprio henbl (fun c => ?_)
          rw [cleared_threshold hclear, if_neg (by omega)]

end Cleared

/-- **Completions in memory are completions of the registers.** -/
theorem vplicCompleteMem_toState :
    (vplicCompleteMem P v vcntxt intId s).toState P =
      vplicComplete P v vcntxt intId (s.toState P) := by
  have hregs : (vplicCompleteMem P v vcntxt intId s).regs P = clearAct P intId (s.regs P) :=
    cleared_regs vplicCompleteMem_pend vplicCompleteMem_mem
  have hcleared : ∀ completed,
      ({ s with mem := bitmapClear s.mem 0 intId, completed := completed } : VplicMem).toState P =
        (s.toState P).updRegs (clearAct P intId) := by
    intro completed
    change (⟨_, s.line, s.inbox⟩ : VplicState) = ⟨clearAct P intId (s.regs P), s.line, s.inbox⟩
    rw [← hregs]
    unfold vplicCompleteMem
    split <;> rfl
  have hkept := @vplicUpdateHartLine_regs P v vcntxt ((s.toState P).updRegs (clearAct P intId))
  unfold vplicComplete
  change (⟨_, _, _⟩ : VplicState) = _
  rw [hregs]
  unfold vplicCompleteMem
  split
  · dsimp only
    rw [hcleared, ← show _ = clearAct P intId (s.regs P) from hkept]
  · dsimp only
    rw [hcleared, ← show _ = clearAct P intId (s.regs P) from hkept]

end Bao

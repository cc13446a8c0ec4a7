import BaoHypervisor.VgicEoir
import BaoHypervisor.VgicSpilled
import BaoHypervisor.VgicVictim
import Mathlib.Data.Finset.Max

/-!
# The refill of list registers

`vgic_refill_lrs` takes the best spilled interrupt of the wanted state, whoever
owns it, and looks again if it cannot have it.  Nothing about a refused interrupt
changes, so the next search finds it again: without the other CPUs' help the loop
ends exactly if the list registers are full before such an interrupt comes up.
-/

namespace Bao

variable (P : VgicPlat)

/-- The lists that a vCPU looks through. -/
def spilledFor (v : Nat) (s : VgicState) : List IntKey := (s.cpus v).spilled ++ s.spilled

/-- The interrupt has a wanted state. -/
def wanted (v : Nat) (flags : IntState) (s : VgicState) (k : IntKey) : Bool :=
  (vgicGetState P v k s).meets flags

/-- The vCPU owns the interrupt, or nobody. -/
def takeable (v : Nat) (s : VgicState) (k : IntKey) : Bool :=
  decide ((s.ints k).owner = some v) || decide ((s.ints k).owner = none)

/-- The rank that the search starts with. -/
def lowestRank : GicRank := toLex (gicLowestPrio, gicMaxValidInterrupts)

/-- The search can find the interrupt at all. -/
def pickable (s : VgicState) (k : IntKey) : Bool := decide (intRank k (s.ints k) < lowestRank)

/-- The maintenance handler is in the loop of `vgic_refill_lrs`. -/
def InRefill (v : Nat) (s : VgicState) : Prop :=
  ∃ misr flags lrInd, (s.cpus v).pc = .refill misr flags lrInd

/-- **The best is placed**: of the listed interrupts with a wanted state that the
vCPU can take, the first by priority and id goes into the list register. -/
structure PlacesBest (v : Nat) (flags : IntState) (lrInd : Nat) (k : IntKey)
    (s s' : VgicState) : Prop where
  listed : k ∈ spilledFor v s
  wanted : wanted P v flags s k = true
  takeable : takeable v s k = true
  best : ∀ j ∈ spilledFor v s, Bao.wanted P v flags s j = true → Bao.takeable v s j = true →
    j = k ∨ intRank k (s.ints k) < intRank j (s.ints j)
  owner : (s'.ints k).owner = some v
  inLr : (s'.ints k).inLr = true ∧ (s'.ints k).lr = lrInd
  lrs : (s'.cpus v).lrs = atCpu (s.cpus v).lrs lrInd (newLr v k s (P := P))
  unlisted : spilledFor v s' = (spilledFor v s).erase k

/-- **The loop ends as it should**, with the other CPUs at rest: turn after turn it
places the best, until no list register is empty or no listed interrupt of the
wanted state can be taken. -/
inductive RefillEnds (v : Nat) : VgicState → Prop
  | nothing {s : VgicState} {misr : Misr} {flags : IntState} {lrInd : Nat}
      (hpc : (s.cpus v).pc = .refill misr flags lrInd)
      (hnone : ∀ k ∈ spilledFor v s, wanted P v flags s k = true → takeable v s k = false)
      (hend : ¬ InRefill v (gicMaintenanceTurn P v s)) : RefillEnds v s
  | full {s : VgicState} {misr : Misr} {flags : IntState} {lrInd : Nat} {k : IntKey}
      (hpc : (s.cpus v).pc = .refill misr flags lrInd)
      (hplaces : PlacesBest P v flags lrInd k s (gicMaintenanceTurn P v s))
      (hfull : firstLr P v elrsr (gicMaintenanceTurn P v s) = none)
      (hend : ¬ InRefill v (gicMaintenanceTurn P v s)) : RefillEnds v s
  | again {s : VgicState} {misr : Misr} {flags : IntState} {lrInd : Nat} {k : IntKey}
      (hpc : (s.cpus v).pc = .refill misr flags lrInd)
      (hplaces : PlacesBest P v flags lrInd k s (gicMaintenanceTurn P v s))
      (hrest : RefillEnds v (gicMaintenanceTurn P v s)) : RefillEnds v s

/-- A search can come to the interrupt, and the vCPU can take it. -/
def reached (v : Nat) (flags : IntState) (s : VgicState) (k : IntKey) : Bool :=
  wanted P v flags s k && (takeable v s k && pickable s k)

/-- A search comes to the interrupt but the vCPU cannot take it, or it can take it but
no search comes to it. -/
def barred (v : Nat) (flags : IntState) (s : VgicState) (k : IntKey) : Bool :=
  wanted P v flags s k && (takeable v s k ^^ pickable s k)

/-- The empty list registers. -/
def emptyLrs (v : Nat) (s : VgicState) : Nat :=
  (List.range P.numLrs).countP fun i => elrsr ((s.cpus v).lrs i)

/-- The interrupts that come before `b` and use up a list register.  `c` is the one of
the first turn, which may want pending interrupts only. -/
def aheadOf (v : Nat) (s : VgicState) (c b : IntKey) : Nat :=
  (spilledFor v s).countP fun a =>
    reached P v .pendact s a && !elrsr (newLr v a s (P := P)) &&
      (decide (intRank a (s.ints a) < intRank b (s.ints b)) || decide (a = c))

/-- **The list registers are full in time**: the first search finds an interrupt that
can be taken, if any that is barred is listed, and before each barred one there are
as many others as list registers are empty. -/
structure RefillFits (v : Nat) (flags : IntState) (s : VgicState) : Prop where
  first : ∀ b ∈ spilledFor v s, barred P v flags s b = true →
    ∃ a ∈ spilledFor v s, reached P v flags s a = true ∧
      intRank a (s.ints a) < intRank b (s.ints b)
  rest : ∀ c ∈ spilledFor v s, reached P v flags s c = true →
    (∀ a ∈ spilledFor v s, reached P v flags s a = true →
      intRank c (s.ints c) ≤ intRank a (s.ints a)) →
    ∀ b ∈ spilledFor v s, barred P v .pendact s b = true → emptyLrs P v s ≤ aheadOf P v s c b

variable {P} {v lrInd : Nat} {s s' : VgicState} {k : IntKey} {flags : IntState} {misr : Misr}

/-! ## The search -/

/-- The best so far of a search, with its rank; lower ranks are better. -/
def searchBest (s : VgicState) (irq : Option IntKey) : GicRankᵒᵈ × Option IntKey :=
  (OrderDual.toDual ((irq.map fun k => intRank k (s.ints k)).getD lowestRank), irq)

/-- An interrupt's rank as a key. -/
def searchKey (s : VgicState) (o : Option IntKey) : GicRankᵒᵈ :=
  OrderDual.toDual ((o.map fun k => intRank k (s.ints k)).getD lowestRank)

theorem higherPrio_round (irq : Option IntKey) (k : IntKey) :
    searchBest s (higherPrio P v flags s irq k) =
      PriorityScan.round (fun o => o.any (wanted P v flags s)) (searchKey s) (searchBest s irq)
        (some k) := by
  unfold higherPrio PriorityScan.round
  dsimp only [Option.any_some, wanted]
  by_cases hmeets : (vgicGetState P v k s).meets flags = true
  · have hlow : ((s.ints k).prio < (irq.map fun k => (s.ints k).prio).getD gicLowestPrio ∨
        ((s.ints k).prio = (irq.map fun k => (s.ints k).prio).getD gicLowestPrio ∧
          k.id < (irq.map IntKey.id).getD gicMaxValidInterrupts)) ↔
        (searchBest s irq).1 < searchKey s (some k) := by
      cases irq <;> simp [searchBest, searchKey, intRank, lowestRank, Prod.Lex.toLex_lt_toLex]
    by_cases h : (searchBest s irq).1 < searchKey s (some k)
    · rw [if_pos hmeets, if_pos (hlow.mpr h)]
      exact (if_pos (Bool.and_eq_true_iff.mpr ⟨hmeets, decide_eq_true h⟩)).symm
    · rw [if_pos hmeets, if_neg fun h' => h (hlow.mp h')]
      exact (if_neg fun h' => h (of_decide_eq_true (Bool.and_eq_true_iff.mp h').2)).symm
  · rw [if_neg hmeets]
    exact (if_neg fun h' => hmeets (Bool.and_eq_true_iff.mp h').1).symm

theorem higherPrio_scan (l : List IntKey) (irq : Option IntKey) :
    searchBest s (l.foldl (higherPrio P v flags s) irq) =
      PriorityScan.scan (fun o => o.any (wanted P v flags s)) (searchKey s) (searchBest s irq)
        (l.map some) := by
  induction l generalizing irq with
  | nil => rfl
  | cons k l ih =>
    rw [List.foldl_cons, ih, higherPrio_round]
    rfl

/-- **The search** finds the first by priority and id of the wanted interrupts, or none
of them can be found. -/
theorem search_cases (P : VgicPlat) (v : Nat) (flags : IntState) (s : VgicState) :
    (vgicHighestPrioSpilled P v flags s = none ∧
      ∀ j ∈ spilledFor v s, wanted P v flags s j = true → pickable s j = false) ∨
    ∃ k, vgicHighestPrioSpilled P v flags s = some k ∧ k ∈ spilledFor v s ∧
      wanted P v flags s k = true ∧ pickable s k = true ∧
      ∀ j ∈ spilledFor v s, wanted P v flags s j = true →
        intRank k (s.ints k) ≤ intRank j (s.ints j) := by
  have hscan : searchBest s (vgicHighestPrioSpilled P v flags s) = _ :=
    higherPrio_scan (spilledFor v s) none
  have hmem : ∀ j ∈ spilledFor v s, some j ∈ (spilledFor v s).map some :=
    fun j hj => List.mem_map_of_mem hj
  rcases @PriorityScan.scan_cases _ _ _ (fun o : Option IntKey => o.any (wanted P v flags s))
      (searchKey s) (searchBest s none) ((spilledFor v s).map some) with
    ⟨hsame, hall⟩ | ⟨hbetter, -, hfirst⟩
  · left
    rw [hsame] at hscan
    refine ⟨(Prod.mk.inj hscan).2, fun j hj hwanted => decide_eq_false ?_⟩
    exact not_lt.mpr (OrderDual.toDual_le_toDual.mp (hall (some j) (hmem j hj) hwanted))
  · right
    rw [← hscan] at hbetter hfirst
    obtain ⟨k, hk, hfound⟩ := List.mem_map.mp hfirst.mem
    have hfound' : vgicHighestPrioSpilled P v flags s = some k := hfound.symm
    have hwanted : wanted P v flags s k = true := by
      have hready := hfirst.isReady
      rw [← hfound] at hready
      exact hready
    rw [← hfound] at hfirst
    refine ⟨k, hfound', hk, hwanted, ?_, fun j hj hj' => ?_⟩
    · rw [hfound'] at hbetter
      exact decide_eq_true (OrderDual.toDual_lt_toDual.mp hbetter)
    · obtain ⟨before, after, hl, hbefore, hafter⟩ := hfirst.place
      have hj'' := hmem j hj
      rw [hl] at hj''
      rcases List.mem_append.mp hj'' with hin | hin
      · exact le_of_lt (OrderDual.toDual_lt_toDual.mp (hbefore _ hin hj'))
      · rcases List.mem_cons.mp hin with heq | hin
        · rw [Option.some.inj heq]
        · exact OrderDual.toDual_le_toDual.mp (hafter _ hin hj')

/-! ## The register of the loop -/

/-- The register that the loop fills is the first empty one. -/
def RefillAt (P : VgicPlat) (v : Nat) (s : VgicState) : Prop :=
  ∀ misr flags lrInd, (s.cpus v).pc = .refill misr flags lrInd →
    firstLr P v elrsr s = some lrInd

theorem goTo_cpu (v : Nat) (pc : VgicPc) (s : VgicState) :
    (goTo v pc s).cpus v = { s.cpus v with pc := pc } := by
  unfold goTo
  rw [VgicState.updCpu_cpus_same]

theorem firstLr_congr {test : ListReg → Bool} (h : (s'.cpus v).lrs = (s.cpus v).lrs) :
    firstLr P v test s' = firstLr P v test s := by
  unfold firstLr
  rw [h]

theorem firstLr_goTo (v : Nat) (pc : VgicPc) (test : ListReg → Bool) (s : VgicState) :
    firstLr P v test (goTo v pc s) = firstLr P v test s :=
  firstLr_congr (by rw [goTo_cpu])

theorem RefillAt.goTo {pc : VgicPc} (h : ∀ misr flags lrInd, pc ≠ .refill misr flags lrInd) :
    RefillAt P v (goTo v pc s) := by
  intro misr flags lrInd hpc
  rw [goTo_cpu] at hpc
  exact absurd hpc (h misr flags lrInd)

theorem RefillAt.startLrenp (misr : Misr) : RefillAt P v (startLrenp v misr s) := by
  refine RefillAt.goTo fun _ _ _ => ?_
  split <;> exact fun h => nomatch h

theorem RefillAt.fill (hfirst : firstLr P v elrsr s = some lrInd) (misr : Misr) (flags : IntState) :
    RefillAt P v (Bao.goTo v (.refill misr flags lrInd) s) := by
  intro misr' flags' lrInd' hpc
  rw [goTo_cpu] at hpc
  cases hpc
  rw [firstLr_goTo]
  exact hfirst

theorem RefillAt.startRefill (misr : Misr) : RefillAt P v (startRefill P v misr s) := by
  unfold Bao.startRefill
  split
  · cases hfirst : firstLr P v elrsr s with
    | some lrInd => exact .fill hfirst misr _
    | none => exact .startLrenp misr
  · exact .startLrenp misr

theorem RefillAt.startMaintenance (v : Nat) (s : VgicState) :
    RefillAt P v (startMaintenance P v s) := by
  unfold Bao.startMaintenance
  dsimp only
  split
  · split
    · exact RefillAt.goTo fun _ _ _ h => nomatch h
    · exact .startRefill _
  · exact .startRefill _

theorem RefillAt.turn (h : RefillAt P v s) : RefillAt P v (gicMaintenanceTurn P v s) := by
  unfold gicMaintenanceTurn
  cases hpc : (s.cpus v).pc with
  | guest => exact .startMaintenance v s
  | lrenp hcr =>
    dsimp only
    unfold lrenpTurn
    split <;> exact RefillAt.goTo fun _ _ _ h => by cases h
  | eoir misr lrInd =>
    dsimp only
    unfold eoirTurn
    cases vgicGetInt P (lrIrqId P ((s.cpus v).lrs lrInd)) v with
    | none =>
      intro misr' flags' lrInd' hpc'
      dsimp only at hpc'
      rw [VgicState.gichWriteLr, VgicState.updCpu_cpus_same] at hpc'
      dsimp only at hpc'
      rw [hpc] at hpc'
      cases hpc'
    | some k =>
      dsimp only
      split
      · exact RefillAt.goTo fun _ _ _ h => by cases h
      · exact .startRefill misr
  | refill misr flags lrInd =>
    dsimp only
    unfold refillTurn
    cases vgicHighestPrioSpilled P v flags s with
    | none => exact .startLrenp misr
    | some k =>
      dsimp only
      split
      · split
        · cases hfirst : firstLr P v elrsr (refillLr P v k lrInd (vgicGetOwnership v k s).2) with
          | some lrInd' => exact .fill hfirst misr _
          | none => exact .startLrenp misr
        · rename_i hgot
          rw [vgicGetOwnership_failed (Bool.eq_false_iff.mpr hgot)]
          exact h
      · exact h

/-- What is known of a vGIC in the middle of a refill. -/
structure RefillReady (P : VgicPlat) (s : VgicState) : Prop where
  shelved : Shelved s
  handlers : HandlersOk P s
  register : ∀ v, RefillAt P v s

theorem RefillReady.next (h : RefillReady P s) {e : VgicEvent} (hen : e.enabled P s) :
    RefillReady P (e.next P s) := by
  refine ⟨h.shelved.next h.handlers hen, h.handlers.next hen, fun v => ?_⟩
  by_cases hv : v = e.vcpu
  · by_cases hop : e.op = .maintain
    · have hturn : e.next P s = gicMaintenanceTurn P e.vcpu s := by
        unfold VgicEvent.next
        rw [hop]
      rw [hturn, hv]
      exact (h.register e.vcpu).turn
    · intro misr flags lrInd hpc
      rw [hv, h.handlers.guest hen hop] at hpc
      cases hpc
  · have hsame := h.handlers.others hen hv
    intro misr flags lrInd hpc
    rw [hsame] at hpc
    have hlrs : ((e.next P s).cpus v).lrs = (s.cpus v).lrs := by rw [hsame]
    rw [firstLr_congr hlrs]
    exact h.register v misr flags lrInd hpc

theorem RefillReady.reach (h : (vgicSystem P).Reachable s) : RefillReady P s := by
  refine h.invariant (fun s hs => ?_) fun s e s' hinv _ hstep => ?_
  · refine ⟨Shelved.init hs, HandlersOk.init hs, fun v misr flags lrInd hpc => ?_⟩
    rw [hs.cpus v] at hpc
    cases hpc
  · obtain ⟨hen, hnext⟩ := hstep
    rw [hnext]
    exact hinv.next hen

/-! ## One turn -/

theorem mem_spilledFor_listed (hk : k ∈ spilledFor v s) : Listed s k := by
  rcases List.mem_append.mp hk with hk | hk
  · exact Or.inr ⟨v, hk⟩
  · exact Or.inl hk

theorem RefillReady.shelf (h : RefillReady P s) (hk : k ∈ spilledFor v s) :
    (s.ints k).inSpilled = true ∧ (s.ints k).inLr = false := by
  have hflag := h.shelved.flagged (mem_spilledFor_listed hk)
  exact ⟨hflag, h.shelved.out k hflag⟩

theorem RefillReady.mine (h : RefillReady P s) (hk : k ∈ spilledFor v s)
    (hpriv : gicIsPriv k.id = true) : k ∈ (s.cpus v).spilled ∧ ∃ id, k = .priv v id := by
  rcases List.mem_append.mp hk with hk | hk
  · obtain ⟨id, hid, -⟩ := h.shelved.own hk
    exact ⟨hk, id, hid⟩
  · rw [h.shelved.vm hk] at hpriv
    cases hpriv

theorem RefillReady.nodup (h : RefillReady P s) (v : Nat) : (spilledFor v s).Nodup := by
  refine List.Nodup.append (h.shelved.ownOnce v) h.shelved.vmOnce fun k hown hvm => ?_
  obtain ⟨id, hid, hlt⟩ := h.shelved.own hown
  have hshared := h.shelved.vm hvm
  rw [hid] at hshared
  exact Bool.eq_false_iff.mp hshared (decide_eq_true hlt)

theorem RefillReady.id_inj (h : RefillReady P s) {j : IntKey} (hk : k ∈ spilledFor v s)
    (hj : j ∈ spilledFor v s) (hid : k.id = j.id) : k = j := by
  cases hpriv : gicIsPriv k.id with
  | true =>
    obtain ⟨-, id, hk'⟩ := h.mine hk hpriv
    obtain ⟨-, id', hj'⟩ := h.mine hj (hid ▸ hpriv)
    rw [hk', hj'] at hid ⊢
    exact congrArg _ hid
  | false =>
    obtain ⟨w, hk'⟩ := h.handlers.lists k (mem_spilledFor_listed hk)
    obtain ⟨u, hj'⟩ := h.handlers.lists j (mem_spilledFor_listed hj)
    have hone : k = .shared k.id := vgicGetInt_shared hpriv hk'
    have hother : j = .shared j.id := vgicGetInt_shared (hid ▸ hpriv) hj'
    exact hone.trans ((congrArg IntKey.shared hid).trans hother.symm)

theorem RefillReady.removed (h : RefillReady P s) (hk : k ∈ spilledFor v s) {s₁ : VgicState}
    (hown : (s₁.cpus v).spilled = (s.cpus v).spilled) (hvm : s₁.spilled = s.spilled) :
    spilledFor v (vgicRemoveSpilled v k s₁) = (spilledFor v s).erase k := by
  have hown' := Shelved.rmSpilled_own v k s₁ v
  have hvm' := Shelved.rmSpilled_vm v k s₁
  unfold spilledFor vgicRemoveSpilled
  rw [VgicState.updInt_cpus, VgicState.updInt_spilled, hown', hvm', hown, hvm, List.erase_append]
  cases hpriv : gicIsPriv k.id with
  | true =>
    rw [if_pos ⟨rfl, rfl⟩, if_pos rfl, if_pos (h.mine hk hpriv).1]
  | false =>
    have hnot : k ∉ (s.cpus v).spilled := by
      intro hin
      obtain ⟨id, hid, hlt⟩ := h.shelved.own hin
      rw [hid] at hpriv
      exact Bool.eq_false_iff.mp hpriv (decide_eq_true hlt)
    rw [if_neg (fun hc => Bool.false_ne_true hc.2), if_neg Bool.false_ne_true, if_neg hnot]

/-- **A turn that takes its candidate**: what it leaves. -/
structure TurnTakes (P : VgicPlat) (v lrInd : Nat) (k : IntKey) (s s' : VgicState) : Prop where
  owner : (s'.ints k).owner = some v
  inLr : (s'.ints k).inLr = true ∧ (s'.ints k).lr = lrInd
  lrs : (s'.cpus v).lrs = atCpu (s.cpus v).lrs lrInd (newLr v k s (P := P))
  unlisted : spilledFor v s' = (spilledFor v s).erase k
  same : ∀ j ∈ spilledFor v s, j ≠ k → s'.ints j = s.ints j

theorem vgicGetOwnership_ints_ne (v : Nat) {j k : IntKey} (s : VgicState) (hj : j ≠ k) :
    (vgicGetOwnership v k s).2.ints j = s.ints j := by
  rcases vgicGetOwnership_cases v k s with ⟨-, hs⟩ | ⟨-, hs⟩ | ⟨-, hs⟩ <;> rw [hs]
  change (s.updInt k fun i => { i with owner := some v }).ints j = s.ints j
  exact VgicState.updInt_ints_ne s _ hj

theorem vgicGetOwnership_spilled (v : Nat) (k : IntKey) (s : VgicState) :
    (vgicGetOwnership v k s).2.spilled = s.spilled := by
  rcases vgicGetOwnership_cases v k s with ⟨-, hs⟩ | ⟨-, hs⟩ | ⟨-, hs⟩ <;> rw [hs]
  rfl

theorem refillLr_takes (h : RefillReady P s) (hk : k ∈ spilledFor v s)
    (hgot : (vgicGetOwnership v k s).1 = true) (lrInd : Nat) :
    TurnTakes P v lrInd k s (refillLr P v k lrInd (vgicGetOwnership v k s).2) := by
  obtain ⟨-, hout⟩ := h.shelf hk
  obtain ⟨owner, hints⟩ := vgicGetOwnership_ints v k k s
  have howner := vgicGetOwnership_owner hgot
  have hcpus := vgicGetOwnership_cpus v k s
  have hspilled := vgicGetOwnership_spilled v k s
  have hothers : ∀ j, j ≠ k → (vgicGetOwnership v k s).2.ints j = s.ints j :=
    fun j hj => vgicGetOwnership_ints_ne v s hj
  generalize (vgicGetOwnership v k s).2 = s₁ at hints howner hcpus hspilled hothers
  have hremoved : spilledFor v (vgicRemoveSpilled v k s₁) = (spilledFor v s).erase k :=
    h.removed hk (by rw [hcpus]) hspilled
  have hint₂ := vgicRemoveSpilled_int v k s₁
  have hlrs₂ := (vgicRemoveSpilled_lrs v k s₁ v).1
  have hints₂ : ∀ j, j ≠ k → (vgicRemoveSpilled v k s₁).ints j = s.ints j :=
    fun j hj => (vgicRemoveSpilled_ints_ne v k s₁ hj).trans (hothers j hj)
  unfold refillLr
  generalize vgicRemoveSpilled v k s₁ = s₂ at hremoved hint₂ hlrs₂ hints₂
  have hrel := releaseOccupant_ints (P := P) v k lrInd s₂
  have hvalue : newLr v k (releaseOccupant P v k lrInd s₂) (P := P) = newLr v k s (P := P) := by
    refine newLr_congr (b := false) (o := owner) hout ?_
    rw [hrel, hint₂, hints]
  rw [vgicWriteLr]
  refine ⟨?_, ?_, ?_, ?_, fun j hj hne => ?_⟩
  · rw [fillLr_int, hrel, hint₂]
    exact howner
  · rw [fillLr_int]
    exact ⟨rfl, rfl⟩
  · rw [fillLr_cpu, hvalue, releaseOccupant_cpus, hlrs₂, hcpus]
  · have hvm : (fillLr P v k lrInd (releaseOccupant P v k lrInd s₂)).spilled = s₂.spilled :=
      (releaseOccupant_keeps (P := P) k).2.2.2
    unfold spilledFor at hremoved ⊢
    rw [fillLr_cpu, releaseOccupant_cpus, hvm]
    exact hremoved
  · rw [fillLr_ints_ne _ _ _ _ hne]
    obtain ⟨-, hout'⟩ := h.shelf hj
    rcases releaseOccupant_cases (P := P) v k lrInd s₂ with hs | ⟨k', -, -, -, -, hin, -, hs⟩
    · rw [hs]
      exact hints₂ j hne
    · have hne' : j ≠ k' := by
        intro heq
        rw [← heq, hints₂ j hne, hout'] at hin
        cases hin
      rw [hs, vgicYieldOwnership_ints_ne _ _ _ hne', VgicState.updInt_ints_ne _ _ hne']
      exact hints₂ j hne

theorem takeable_eq (v : Nat) (k : IntKey) (s : VgicState) :
    takeable v s k = (vgicGetOwnership v k s).1 := by
  unfold takeable
  rcases vgicGetOwnership_cases v k s with ⟨hown, hs⟩ | ⟨hown, hs⟩ | ⟨⟨w, hw, hown⟩, hs⟩ <;>
    rw [hs, hown]
  · simp
  · simp
  · simp [hw]

theorem not_inRefill_startLrenp (v : Nat) (misr : Misr) (s : VgicState) :
    ¬ InRefill v (startLrenp v misr s) := by
  intro h
  obtain ⟨misr', flags', lrInd', hpc⟩ := h
  unfold startLrenp at hpc
  rw [goTo_cpu] at hpc
  dsimp only at hpc
  split at hpc <;> cases hpc

theorem TurnTakes.goTo (h : TurnTakes P v lrInd k s s') (pc : VgicPc) :
    TurnTakes P v lrInd k s (goTo v pc s') where
  owner := h.owner
  inLr := h.inLr
  lrs := by rw [goTo_cpu]; exact h.lrs
  unlisted := by
    unfold spilledFor
    rw [goTo_cpu]
    exact h.unlisted
  same := h.same

theorem turn_none (hpc : (s.cpus v).pc = .refill misr flags lrInd)
    (hnone : vgicHighestPrioSpilled P v flags s = none) :
    gicMaintenanceTurn P v s = startLrenp v misr (refillDone v s) := by
  unfold gicMaintenanceTurn
  rw [hpc]
  dsimp only
  unfold refillTurn
  rw [hnone]

/-- **A refused candidate**: the turn changes nothing. -/
theorem turn_refused (hpc : (s.cpus v).pc = .refill misr flags lrInd)
    (hfound : vgicHighestPrioSpilled P v flags s = some k) (hother : takeable v s k = false) :
    gicMaintenanceTurn P v s = s := by
  rw [takeable_eq] at hother
  unfold gicMaintenanceTurn
  rw [hpc]
  dsimp only
  unfold refillTurn
  rw [hfound]
  dsimp only
  split
  · rw [hother, if_neg Bool.false_ne_true]
    exact vgicGetOwnership_failed hother
  · rfl

/-- **A candidate that is taken.**  The loop goes on with the next empty register, or
there is none. -/
theorem turn_takes (h : RefillReady P s) (hpc : (s.cpus v).pc = .refill misr flags lrInd)
    (hfound : vgicHighestPrioSpilled P v flags s = some k) (hmine : takeable v s k = true) :
    TurnTakes P v lrInd k s (gicMaintenanceTurn P v s) ∧
      ((firstLr P v elrsr (gicMaintenanceTurn P v s) = none ∧
          ¬ InRefill v (gicMaintenanceTurn P v s)) ∨
        ∃ lrInd', ((gicMaintenanceTurn P v s).cpus v).pc = .refill misr .pendact lrInd') := by
  obtain ⟨hlisted, hwanted⟩ := vgicHighestPrioSpilled_eligible hfound
  have hel : ((s.ints k).inSpilled && (vgicGetState P v k s).meets flags) = true := by
    rw [(h.shelf hlisted).1, hwanted]
    rfl
  rw [takeable_eq] at hmine
  have htakes := refillLr_takes h hlisted hmine lrInd
  unfold gicMaintenanceTurn
  rw [hpc]
  dsimp only
  unfold refillTurn
  rw [hfound]
  dsimp only
  rw [if_pos hel, if_pos hmine]
  cases hfirst : firstLr P v elrsr (refillLr P v k lrInd (vgicGetOwnership v k s).2) with
  | some lrInd' =>
    refine ⟨htakes.goTo _, Or.inr ⟨lrInd', ?_⟩⟩
    dsimp only
    rw [goTo_cpu]
  | none =>
    refine ⟨htakes.goTo _, Or.inl ⟨?_, not_inRefill_startLrenp v misr _⟩⟩
    dsimp only
    unfold startLrenp
    rw [firstLr_goTo]
    exact hfirst

/-! ## The condition over a turn -/

theorem countP_split {ι : Type} [DecidableEq ι] {l : List ι} {c : ι} (hc : c ∈ l) (p : ι → Bool) :
    l.countP p = (l.erase c).countP p + if p c then 1 else 0 := by
  rw [(List.perm_cons_erase hc).countP_eq, List.countP_cons]

/-- **Registers**: the one that is filled is no longer empty, unless the value is. -/
theorem emptyLrs_takes (h : TurnTakes P v lrInd k s s') (hfirst : firstLr P v elrsr s = some lrInd) :
    emptyLrs P v s =
      emptyLrs P v s' + if elrsr (newLr v k s (P := P)) then 0 else 1 := by
  obtain ⟨hbound, hempty⟩ := firstLr_some hfirst
  have hmem : lrInd ∈ List.range P.numLrs := List.mem_range.mpr hbound
  have hrest : ((List.range P.numLrs).erase lrInd).countP (fun i => elrsr ((s'.cpus v).lrs i)) =
      ((List.range P.numLrs).erase lrInd).countP fun i => elrsr ((s.cpus v).lrs i) := by
    refine List.countP_congr fun i hi => ?_
    have hne : i ≠ lrInd := (List.nodup_range.mem_erase_iff.mp hi).1
    rw [h.lrs, atCpu_other _ _ hne]
  have hself : (s'.cpus v).lrs lrInd = newLr v k s (P := P) := by
    rw [h.lrs, atCpu_same]
  unfold emptyLrs
  rw [countP_split hmem, countP_split hmem, hrest, hempty, hself]
  cases elrsr (newLr v k s (P := P)) <;> simp

/-- An interrupt that is in no list register looks the same as long as its structure
does. -/
theorem looks_same {j : IntKey} (hout : (s.ints j).inLr = false) (h : s'.ints j = s.ints j) :
    (∀ flags, wanted P v flags s' j = wanted P v flags s j) ∧
      takeable v s' j = takeable v s j ∧ pickable s' j = pickable s j ∧
      intRank j (s'.ints j) = intRank j (s.ints j) ∧
      newLr v j s' (P := P) = newLr v j s (P := P) := by
  have hout' : (s'.ints j).inLr = false := by rw [h]; exact hout
  refine ⟨fun flags => ?_, ?_, ?_, ?_, ?_⟩
  · unfold wanted vgicGetState
    rw [gichGetLr_out v j s hout, gichGetLr_out v j s' hout', h]
  · unfold takeable
    rw [h]
  · unfold pickable
    rw [h]
  · rw [h]
  · exact newLr_congr (b := (s.ints j).inSpilled) (o := (s.ints j).owner) hout h

/-- The taken interrupts that come before `b` by rank and use up a register. -/
def rankedBefore (P : VgicPlat) (v : Nat) (s : VgicState) (b : IntKey) (l : List IntKey) : Nat :=
  l.countP fun a => reached P v .pendact s a && !elrsr (newLr v a s (P := P)) &&
    decide (intRank a (s.ints a) < intRank b (s.ints b))

theorem reached_iff : reached P v flags s k = true ↔
    wanted P v flags s k = true ∧ takeable v s k = true ∧ pickable s k = true := by
  unfold reached
  rw [Bool.and_eq_true, Bool.and_eq_true]

theorem barred_iff : barred P v flags s k = true ↔
    wanted P v flags s k = true ∧ takeable v s k ≠ pickable s k := by
  unfold barred
  rw [Bool.and_eq_true]
  cases takeable v s k <;> cases pickable s k <;> simp

theorem wanted_pendact (h : wanted P v flags s k = true) : wanted P v .pendact s k = true := by
  unfold wanted IntState.meets IntState.pendact at *
  revert h
  cases (vgicGetState P v k s).pending <;> cases (vgicGetState P v k s).active <;>
    cases flags.pending <;> cases flags.active <;> decide

theorem aheadOf_split {b : IntKey} (hk : k ∈ spilledFor v s) (hnodup : (spilledFor v s).Nodup)
    (hreached : reached P v .pendact s k = true) :
    aheadOf P v s k b = rankedBefore P v s b ((spilledFor v s).erase k) +
      if elrsr (newLr v k s (P := P)) then 0 else 1 := by
  unfold aheadOf rankedBefore
  rw [countP_split hk]
  congr 1
  · refine List.countP_congr fun a ha => ?_
    have hne : a ≠ k := (hnodup.mem_erase_iff.mp ha).1
    rw [decide_eq_false hne, Bool.or_false]
  · rw [hreached, decide_eq_true rfl, Bool.or_true, Bool.and_true, Bool.true_and]
    cases elrsr (newLr v k s (P := P)) <;> rfl

/-- **The condition over a turn** that takes the first of the wanted interrupts. -/
theorem fits_takes (h : RefillReady P s) (htakes : TurnTakes P v lrInd k s s')
    (hk : k ∈ spilledFor v s) (hreached : reached P v flags s k = true)
    (hleast : ∀ j ∈ spilledFor v s, wanted P v flags s j = true →
      intRank k (s.ints k) ≤ intRank j (s.ints j))
    (hfirst : firstLr P v elrsr s = some lrInd) (hmore : 0 < emptyLrs P v s') :
    RefillFits P v flags s ↔ RefillFits P v .pendact s' := by
  obtain ⟨hwanted, hmine, hpick⟩ := reached_iff.mp hreached
  have hlater : reached P v .pendact s k = true :=
    reached_iff.mpr ⟨wanted_pendact hwanted, hmine, hpick⟩
  have hnot : ∀ f, barred P v f s k = true → False := by
    intro f hbar
    exact (barred_iff.mp hbar).2 (hmine.trans hpick.symm)
  have hnodup := h.nodup v
  have hmem : ∀ j, j ∈ spilledFor v s' ↔ j ≠ k ∧ j ∈ spilledFor v s := by
    intro j
    rw [htakes.unlisted]
    exact hnodup.mem_erase_iff
  have hsame : ∀ j ∈ spilledFor v s, j ≠ k →
      (∀ f, wanted P v f s' j = wanted P v f s j) ∧ takeable v s' j = takeable v s j ∧
        pickable s' j = pickable s j ∧ intRank j (s'.ints j) = intRank j (s.ints j) ∧
        newLr v j s' (P := P) = newLr v j s (P := P) :=
    fun j hj hne => looks_same (h.shelf hj).2 (htakes.same j hj hne)
  have hreach' : ∀ j ∈ spilledFor v s, j ≠ k → ∀ f,
      reached P v f s' j = reached P v f s j ∧ barred P v f s' j = barred P v f s j := by
    intro j hj hne f
    obtain ⟨hw, ht, hp, -, -⟩ := hsame j hj hne
    unfold reached barred
    rw [hw, ht, hp]
    exact ⟨rfl, rfl⟩
  have hempty := emptyLrs_takes htakes hfirst
  -- The lists agree on what comes before a barred interrupt.
  have hbefore : ∀ b ∈ spilledFor v s, b ≠ k →
      rankedBefore P v s' b (spilledFor v s') =
        rankedBefore P v s b ((spilledFor v s).erase k) := by
    intro b hb hbk
    unfold rankedBefore
    rw [htakes.unlisted]
    refine List.countP_congr fun a ha => ?_
    obtain ⟨hne, hin⟩ := hnodup.mem_erase_iff.mp ha
    obtain ⟨-, -, -, hrank, hvalue⟩ := hsame a hin hne
    rw [(hreach' a hin hne .pendact).1, hrank, hvalue, (hsame b hb hbk).2.2.2.1]
  have hsplit : ∀ b, aheadOf P v s k b = _ := fun b => aheadOf_split hk hnodup hlater
  have hlt : ∀ b ∈ spilledFor v s, b ≠ k → wanted P v flags s b = true →
      intRank k (s.ints k) < intRank b (s.ints b) := by
    intro b hb hbk hwb
    refine lt_of_le_of_ne (hleast b hb hwb) fun heq => hbk ?_
    exact (h.id_inj hk hb (Prod.mk.inj (toLex.injective heq)).2).symm
  constructor
  · intro hfits
    have hroom : ∀ b ∈ spilledFor v s', barred P v .pendact s' b = true →
        emptyLrs P v s' ≤ rankedBefore P v s' b (spilledFor v s') := by
      intro b hb hbar
      obtain ⟨hbk, hb⟩ := (hmem b).mp hb
      rw [(hreach' b hb hbk .pendact).2] at hbar
      have hall := hfits.rest k hk hreached
        (fun a ha hra => hleast a ha (reached_iff.mp hra).1) b hb hbar
      rw [hsplit, hempty, ← hbefore b hb hbk] at hall
      omega
    refine ⟨fun b hb hbar => ?_, fun c hc hrc hcl b hb hbar => ?_⟩
    · have hpos : 0 < rankedBefore P v s' b (spilledFor v s') :=
        Nat.lt_of_lt_of_le hmore (hroom b hb hbar)
      obtain ⟨a, ha, hcount⟩ := List.countP_pos_iff.mp hpos
      simp only [Bool.and_eq_true, decide_eq_true_iff] at hcount
      exact ⟨a, ha, hcount.1.1, hcount.2⟩
    · refine (hroom b hb hbar).trans (List.countP_mono_left fun a _ hcount => ?_)
      simp only [Bool.and_eq_true, Bool.or_eq_true] at hcount ⊢
      exact ⟨hcount.1, Or.inl hcount.2⟩
  · intro hfits
    refine ⟨fun b hb hbar => ⟨k, hk, hreached, ?_⟩, fun c hc hrc hcl b hb hbar => ?_⟩
    · refine hlt b hb (fun heq => ?_) (barred_iff.mp hbar).1
      rw [heq] at hbar
      exact hnot flags hbar
    · have hck : c = k := by
        have hle := hcl k hk hreached
        have hge := hleast c hc (reached_iff.mp hrc).1
        exact h.id_inj hc hk (Prod.mk.inj (toLex.injective (le_antisymm hle hge))).2
      have hbk : b ≠ k := by
        intro heq
        rw [heq] at hbar
        exact hnot .pendact hbar
      have hb' : b ∈ spilledFor v s' := (hmem b).mpr ⟨hbk, hb⟩
      have hbar' : barred P v .pendact s' b = true := by
        rw [(hreach' b hb hbk .pendact).2]
        exact hbar
      -- The next turn takes the first of what is left.
      obtain ⟨a, ha, hra, hab⟩ := hfits.first b hb' hbar'
      obtain ⟨c', hc', hleast'⟩ := Finset.exists_min_image
        ((spilledFor v s').filter fun j => reached P v .pendact s' j).toFinset
        (fun j => intRank j (s'.ints j)) ⟨a, by simp [ha, hra]⟩
      simp only [List.mem_toFinset, List.mem_filter] at hc' hleast'
      have hrest := hfits.rest c' hc'.1 hc'.2 (fun j hj hrj => hleast' j ⟨hj, hrj⟩) b hb' hbar'
      have hcb : intRank c' (s'.ints c') < intRank b (s'.ints b) :=
        lt_of_le_of_lt (hleast' a ⟨ha, hra⟩) hab
      have hdrop : aheadOf P v s' c' b ≤ rankedBefore P v s' b (spilledFor v s') := by
        refine List.countP_mono_left fun j _ hcount => ?_
        simp only [Bool.and_eq_true, Bool.or_eq_true, decide_eq_true_iff] at hcount ⊢
        refine ⟨hcount.1, ?_⟩
        rcases hcount.2 with hlt' | heq
        · exact hlt'
        · rw [heq]
          exact hcb
      rw [hck, hsplit, hempty, ← hbefore b hb hbk]
      omega

/-! ## The loop -/

/-- **A turn that changes nothing** is repeated forever. -/
theorem RefillEnds.moves_on (h : RefillEnds P v s) (hin : InRefill v s) :
    gicMaintenanceTurn P v s ≠ s := by
  induction h with
  | nothing hpc hnone hend =>
    intro hsame
    rw [hsame] at hend
    exact hend hin
  | full hpc hplaces hfull hend =>
    intro hsame
    rw [hsame] at hend
    exact hend hin
  | again hpc hplaces hrest ih =>
    intro hsame
    rw [hsame] at ih
    exact ih hin hsame

theorem TurnTakes.placesBest (h : RefillReady P s) (htakes : TurnTakes P v lrInd k s s')
    (hk : k ∈ spilledFor v s) (hwanted : wanted P v flags s k = true)
    (hmine : takeable v s k = true)
    (hleast : ∀ j ∈ spilledFor v s, wanted P v flags s j = true →
      intRank k (s.ints k) ≤ intRank j (s.ints j)) :
    PlacesBest P v flags lrInd k s s' := by
  refine ⟨hk, hwanted, hmine, fun j hj hwj _ => ?_, htakes.owner, htakes.inLr, htakes.lrs,
    htakes.unlisted⟩
  rcases lt_or_eq_of_le (hleast j hj hwj) with hlt | heq
  · exact Or.inr hlt
  · exact Or.inl (h.id_inj hk hj (Prod.mk.inj (toLex.injective heq)).2).symm

theorem places_found (h : RefillReady P s) (hpc : (s.cpus v).pc = .refill misr flags lrInd)
    (hnone : vgicHighestPrioSpilled P v flags s = none) {flags' : IntState} {lrInd' : Nat}
    (hplaces : PlacesBest P v flags' lrInd' k s (gicMaintenanceTurn P v s)) : False := by
  have hin := hplaces.inLr.1
  rw [turn_none hpc hnone] at hin
  have hout := (h.shelf hplaces.listed).2
  change (s.ints k).inLr = true at hin
  rw [hout] at hin
  cases hin

theorem fits_last (h : RefillReady P s) (htakes : TurnTakes P v lrInd k s s')
    (hk : k ∈ spilledFor v s) (hreached : reached P v flags s k = true)
    (hleast : ∀ j ∈ spilledFor v s, wanted P v flags s j = true →
      intRank k (s.ints k) ≤ intRank j (s.ints j))
    (hfirst : firstLr P v elrsr s = some lrInd) (hfull : emptyLrs P v s' = 0) :
    RefillFits P v flags s := by
  obtain ⟨hwanted, hmine, hpick⟩ := reached_iff.mp hreached
  have hlater : reached P v .pendact s k = true :=
    reached_iff.mpr ⟨wanted_pendact hwanted, hmine, hpick⟩
  have hnot : ∀ b, ∀ f, barred P v f s b = true → b ≠ k := by
    intro b f hbar heq
    rw [heq] at hbar
    exact (barred_iff.mp hbar).2 (hmine.trans hpick.symm)
  have hempty := emptyLrs_takes htakes hfirst
  refine ⟨fun b hb hbar => ⟨k, hk, hreached, ?_⟩, fun c hc hrc hcl b hb _ => ?_⟩
  · refine lt_of_le_of_ne (hleast b hb (barred_iff.mp hbar).1) fun heq => hnot b flags hbar ?_
    exact (h.id_inj hk hb (Prod.mk.inj (toLex.injective heq)).2).symm
  · have hck : c = k := by
      have hle := hcl k hk hreached
      have hge := hleast c hc (reached_iff.mp hrc).1
      exact h.id_inj hc hk (Prod.mk.inj (toLex.injective (le_antisymm hle hge))).2
    rw [hck, aheadOf_split hk (h.nodup v) hlater, hempty, hfull]
    omega

theorem emptyLrs_zero_iff : emptyLrs P v s = 0 ↔ firstLr P v elrsr s = none := by
  unfold emptyLrs firstLr
  rw [List.countP_eq_zero, List.find?_eq_none]

theorem refill_ends_of_length (P : VgicPlat) (v : Nat) (hv : v < P.vcpuNum) :
    ∀ n s misr flags lrInd, (spilledFor v s).length = n → RefillReady P s →
      (s.cpus v).pc = .refill misr flags lrInd →
      (RefillEnds P v s ↔ RefillFits P v flags s) := by
  intro n
  induction n using Nat.strong_induction_on with
  | _ n ih =>
    intro s misr flags lrInd hlength h hpc
    have hfirst := h.register v misr flags lrInd hpc
    rcases search_cases P v flags s with ⟨hnone, hall⟩ | ⟨k, hfound, hk, hwanted, hpick, hleast⟩
    · -- No wanted interrupt can be found, so none that is wanted may be takeable.
      constructor
      · intro hends
        refine ⟨fun b hb hbar => ?_, fun c hc hrc => ?_⟩
        · obtain ⟨hwb, hne⟩ := barred_iff.mp hbar
          rw [hall b hb hwb, ne_eq, Bool.not_eq_false] at hne
          cases hends with
          | nothing hpc' hnone' hend =>
            rw [hpc] at hpc'
            cases hpc'
            rw [hnone' b hb hwb] at hne
            cases hne
          | full hpc' hplaces => exact (places_found h hpc hnone hplaces).elim
          | again hpc' hplaces => exact (places_found h hpc hnone hplaces).elim
        · obtain ⟨hwc, -, hpc'⟩ := reached_iff.mp hrc
          rw [hall c hc hwc] at hpc'
          cases hpc'
      · intro hfits
        refine .nothing hpc (fun j hj hwj => ?_) ?_
        · by_contra hmine
          have hbar : barred P v flags s j = true := by
            refine barred_iff.mpr ⟨hwj, ?_⟩
            rw [hall j hj hwj]
            exact hmine
          obtain ⟨a, ha, hra, -⟩ := hfits.first j hj hbar
          obtain ⟨hwa, -, hpa⟩ := reached_iff.mp hra
          rw [hall a ha hwa] at hpa
          cases hpa
        · rw [turn_none hpc hnone]
          exact not_inRefill_startLrenp v misr _
    · cases hmine : takeable v s k with
      | false =>
        -- The candidate is refused, and so it is again.
        constructor
        · intro hends
          exact absurd (turn_refused hpc hfound hmine) (hends.moves_on ⟨misr, flags, lrInd, hpc⟩)
        · intro hfits
          have hbar : barred P v flags s k = true := by
            refine barred_iff.mpr ⟨hwanted, ?_⟩
            rw [hmine, hpick]
            decide
          obtain ⟨a, ha, hra, hlt⟩ := hfits.first k hk hbar
          exact absurd (hleast a ha (reached_iff.mp hra).1) (not_le.mpr hlt)
      | true =>
        have hreached : reached P v flags s k = true := reached_iff.mpr ⟨hwanted, hmine, hpick⟩
        obtain ⟨htakes, hgoes⟩ := turn_takes h hpc hfound hmine
        have hplaces := htakes.placesBest h hk hwanted hmine hleast
        rcases hgoes with ⟨hfull, hend⟩ | ⟨lrInd', hpc'⟩
        · exact ⟨fun _ => fits_last h htakes hk hreached hleast hfirst (emptyLrs_zero_iff.mpr hfull),
            fun _ => .full hpc hplaces hfull hend⟩
        · have hready : RefillReady P (gicMaintenanceTurn P v s) :=
            h.next (e := ⟨v, .maintain⟩) ⟨hv, trivial⟩
          have hmore : 0 < emptyLrs P v (gicMaintenanceTurn P v s) := by
            refine Nat.pos_of_ne_zero fun hzero => ?_
            rw [emptyLrs_zero_iff, hready.register v misr .pendact lrInd' hpc'] at hzero
            cases hzero
          have hshorter : (spilledFor v (gicMaintenanceTurn P v s)).length < n := by
            rw [htakes.unlisted, List.length_erase_of_mem hk, ← hlength]
            exact Nat.sub_lt (List.length_pos_of_mem hk) Nat.one_pos
          have hrest := ih _ hshorter _ misr .pendact lrInd' rfl hready hpc'
          rw [fits_takes h htakes hk hreached hleast hfirst hmore, ← hrest]
          constructor
          · intro hends
            cases hends with
            | nothing _ _ hend => exact absurd ⟨_, _, _, hpc'⟩ hend
            | full _ _ _ hend => exact absurd ⟨_, _, _, hpc'⟩ hend
            | again _ _ hends => exact hends
          · intro hends
            exact .again hpc hplaces hends

/-- **The refill of list registers.**  From any reachable state in its loop, with the
other CPUs at rest, `vgic_refill_lrs` ends as it should if and only if the list
registers are full before the search comes to a barred interrupt. -/
theorem refill_ends_iff (P : VgicPlat) {s : VgicState} (hreach : (vgicSystem P).Reachable s)
    {v : Nat} (hv : v < P.vcpuNum) {misr : Misr} {flags : IntState} {lrInd : Nat}
    (hpc : (s.cpus v).pc = .refill misr flags lrInd) :
    RefillEnds P v s ↔ RefillFits P v flags s :=
  refill_ends_of_length P v hv _ s misr flags lrInd rfl (.reach hreach) hpc

/-- PPI 22 of vCPU 0 waits behind PPI 21, which the guest handles. -/
def ppiWaits : List VgicEvent :=
  [⟨0, .writeField .isenabler 21 0 1⟩, ⟨0, .writeField .isenabler 22 0 1⟩, ⟨0, .inject 21 0⟩,
    ⟨0, .inject 22 0⟩, ⟨0, .ackLr 0⟩, ⟨0, .deactLr 0⟩, ⟨0, .maintain⟩]

/-- The refill places PPI 22 and ends. -/
theorem refill_ends_iff_ppi :
    ∃ s, (vgicSystem (twoCpuGic .gicv3 1 fun _ => false)).Reachable s ∧ InRefill 0 s ∧
      RefillEnds (twoCpuGic .gicv3 1 fun _ => false) 0 s := by
  have hpc : ((vgicRun (twoCpuGic .gicv3 1 fun _ => false) ppiWaits
      (vgicBoot (twoCpuGic .gicv3 1 fun _ => false))).cpus 0).pc =
        .refill ⟨false, false, false, true⟩ .pend 0 := by decide +kernel
  have hreach := @RunMeets.fromBoot (twoCpuGic .gicv3 1 fun _ => false) (fun _ _ => True) ppiWaits
    (by decide +kernel)
  exact ⟨_, hreach, ⟨_, _, _, hpc⟩, (refill_ends_iff _ hreach (by decide) hpc).mpr
    ⟨by decide +kernel, by decide +kernel⟩⟩

/-- SPI 40 is active on vCPU 1, which spills it for PPI 20; vCPU 0 handles its PPI 21
and fills its list register again. -/
def spiElsewhere : List VgicEvent :=
  [⟨1, .writeField .isenabler 40 1 1⟩, ⟨1, .writeRoute 40 .full 1⟩, ⟨1, .inject 40 0⟩,
    ⟨1, .ackLr 0⟩, ⟨1, .writeField .isenabler 20 1 1⟩, ⟨1, .inject 20 0⟩,
    ⟨0, .writeField .isenabler 21 0 1⟩, ⟨0, .inject 21 0⟩, ⟨0, .ackLr 0⟩,
    ⟨0, .writeField .ipriorityr 21 0 0x80⟩, ⟨0, .deactLr 0⟩, ⟨0, .maintain⟩]

/-- vCPU 0 finds SPI 40, cannot have it, and looks again forever. -/
theorem refill_not_ends :
    ∃ s, (vgicSystem (twoCpuGic .gicv3 1 fun _ => false)).Reachable s ∧ InRefill 0 s ∧
      gicMaintenanceTurn (twoCpuGic .gicv3 1 fun _ => false) 0 s = s ∧
      ¬ RefillEnds (twoCpuGic .gicv3 1 fun _ => false) 0 s := by
  have hpc : ((vgicRun (twoCpuGic .gicv3 1 fun _ => false) spiElsewhere
      (vgicBoot (twoCpuGic .gicv3 1 fun _ => false))).cpus 0).pc =
        .refill ⟨false, true, false, false⟩ .pendact 0 := by decide +kernel
  have hstuck := @turn_refused (twoCpuGic .gicv3 1 fun _ => false) 0 0 _ (.shared 40) _ _ hpc
    (by decide +kernel) (by decide +kernel)
  refine ⟨_, @RunMeets.fromBoot _ _ spiElsewhere (by decide +kernel), ⟨_, _, _, hpc⟩, hstuck, ?_⟩
  intro hends
  exact hends.moves_on ⟨_, _, _, hpc⟩ hstuck

end Bao

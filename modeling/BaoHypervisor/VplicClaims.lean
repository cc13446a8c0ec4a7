import BaoHypervisor.Vplic

/-!
# Claims of the vPLIC

A claim returns the interrupt of the highest priority and lowest id among those
that count in its context, and an interrupt that was claimed is not returned
again before it is completed and injected anew.
-/

namespace Bao

open EventHistory (Since)

/-- An interrupt counts in a context: it is pending, enabled there, not active,
and its priority is above the threshold. -/
def Vplic.Counts (r : Vplic) (vcntxt i : Nat) : Prop :=
  r.ready vcntxt i = true ∧ (r.threshold vcntxt).toNat < (r.prio i).toNat

/-- The interrupt to claim: it counts, and none that counts is of a higher
priority, or of the same one and a lower id. -/
structure Vplic.Chosen (r : Vplic) (vcntxt i : Nat) : Prop where
  lt : i < plicMaxInterrupts
  counts : r.Counts vcntxt i
  best : ∀ j, j < plicMaxInterrupts → r.Counts vcntxt j →
    (r.prio j).toNat < (r.prio i).toNat ∨ r.prio j = r.prio i ∧ i ≤ j

/-- What a claim returns: the interrupt to claim, or 0 if none counts. -/
structure ClaimOk (r : Vplic) (vcntxt intId : Nat) : Prop where
  none : intId = 0 → ∀ i, i < plicMaxInterrupts → ¬ r.Counts vcntxt i
  some : intId ≠ 0 → r.Chosen vcntxt intId

/-- **The search** finds the interrupt to claim. -/
theorem vplicNextPending_ok {r : Vplic} (hzero : r.pend 0 = false) (vcntxt : Nat) :
    ClaimOk r vcntxt (vplicNextPending vcntxt r) := by
  have hnot : r.ready vcntxt 0 = false := by
    unfold Vplic.ready
    rw [hzero]
    rfl
  unfold vplicNextPending
  dsimp only
  rcases @PriorityScan.scan_cases _ _ _ (r.ready vcntxt) (fun i => (r.prio i).toNat)
    (0, 0) (List.range plicMaxInterrupts) with ⟨hscan, hall⟩ | ⟨-, hkey, hfirst⟩
  · rw [hscan, if_neg (Nat.not_lt_zero _)]
    refine ⟨fun _ i hi hcounts => ?_, fun h => absurd rfl h⟩
    have hle := hall i (List.mem_range.mpr hi) hcounts.1
    have hlt := hcounts.2
    dsimp only at hle
    omega
  · rw [← hkey]
    generalize (PriorityScan.scan (r.ready vcntxt) (fun i => (r.prio i).toNat) (0, 0)
      (List.range plicMaxInterrupts)).2 = found at hfirst ⊢
    have hfound : found ≠ 0 := by
      intro h
      rw [h] at hfirst
      have hready := hfirst.isReady
      rw [hnot] at hready
      cases hready
    have hbest : ∀ j, j < plicMaxInterrupts → r.ready vcntxt j = true →
        (r.prio j).toNat < (r.prio found).toNat ∨ r.prio j = r.prio found ∧ found ≤ j := by
      intro j hj hready
      rcases hfirst.best List.pairwise_lt_range (List.mem_range.mpr hj) hready with
        hlt | ⟨heq, hplace⟩
      · exact Or.inl hlt
      · refine Or.inr ⟨BitVec.eq_of_toNat_eq heq, ?_⟩
        rcases hplace with heq | hlt
        · exact Nat.le_of_eq heq.symm
        · exact Nat.le_of_lt hlt
    split
    · rename_i habove
      exact ⟨fun h => absurd h hfound, fun _ =>
        ⟨List.mem_range.mp hfirst.mem, ⟨hfirst.isReady, habove⟩,
          fun j hj hcounts => hbest j hj hcounts.1⟩⟩
    · rename_i hbelow
      refine ⟨fun _ i hi hcounts => ?_, fun h => absurd rfl h⟩
      have habove := hcounts.2
      rcases hbest i hi hcounts.1 with hlt | ⟨heq, -⟩
      · omega
      · rw [heq] at habove
        omega

/-- What happened to an interrupt. -/
inductive VplicAct
  | injected (id : Nat)
  | claimed (vcntxt id : Nat)
  | completed (id : Nat)
deriving DecidableEq

/-- The history with what an operation does to it: injections that set a
pending bit, claims that return an interrupt, and completions. -/
def VplicEvent.observe (s : VplicState) (e : VplicEvent) (h : List VplicAct) : List VplicAct :=
  match e.op with
  | .inject id =>
      if 0 < id ∧ id < plicMaxInterrupts ∧ s.regs.pend id = false then .injected id :: h else h
  | .claim vcntxt =>
      let intId := vplicNextPending vcntxt s.regs
      if intId = 0 then h else .claimed vcntxt intId :: h
  | .complete _ intId =>
      if intId.toNat < plicMaxInterrupts then .completed intId.toNat :: h else h
  | _ => h

/-- A claim of an interrupt. -/
def VplicAct.Claims (id : Nat) (a : VplicAct) : Prop := ∃ vcntxt, a = .claimed vcntxt id

/-- **Exclusive claims.**  Every claim of an interrupt comes after an injection
that no claim has returned yet, and after a completion of its last claim. -/
structure Exclusive (h : List VplicAct) : Prop where
  injected : ∀ {later earlier : List VplicAct} {vcntxt id : Nat},
    h = later ++ .claimed vcntxt id :: earlier →
      Since (VplicAct.Claims id) (· = .injected id) earlier
  completed : ∀ {later earlier : List VplicAct} {vcntxt id : Nat},
    h = later ++ .claimed vcntxt id :: earlier →
      (∀ a ∈ earlier, ¬ a.Claims id) ∨ Since (VplicAct.Claims id) (· = .completed id) earlier

variable {h : List VplicAct}

theorem Exclusive.other (hex : Exclusive h) {a : VplicAct} (ha : ∀ id, ¬ a.Claims id) :
    Exclusive (a :: h) := by
  have htail : ∀ {later earlier : List VplicAct} {vcntxt id : Nat},
      a :: h = later ++ .claimed vcntxt id :: earlier →
        ∃ later', h = later' ++ .claimed vcntxt id :: earlier := by
    intro later earlier vcntxt id hsplit
    cases later with
    | nil =>
      cases hsplit
      exact absurd ⟨vcntxt, rfl⟩ (ha id)
    | cons b later =>
      cases hsplit
      exact ⟨later, rfl⟩
  constructor
  · intro later earlier vcntxt id hsplit
    obtain ⟨_, hsplit⟩ := htail hsplit
    exact hex.injected hsplit
  · intro later earlier vcntxt id hsplit
    obtain ⟨_, hsplit⟩ := htail hsplit
    exact hex.completed hsplit

theorem Exclusive.claim (hex : Exclusive h) {vcntxt id : Nat}
    (hinj : Since (VplicAct.Claims id) (· = .injected id) h)
    (hcomp : (∀ a ∈ h, ¬ a.Claims id) ∨ Since (VplicAct.Claims id) (· = .completed id) h) :
    Exclusive (.claimed vcntxt id :: h) := by
  constructor
  · intro later earlier vcntxt' id' hsplit
    cases later with
    | nil =>
      cases hsplit
      exact hinj
    | cons b later =>
      cases hsplit
      exact hex.injected rfl
  · intro later earlier vcntxt' id' hsplit
    cases later with
    | nil =>
      cases hsplit
      exact hcomp
    | cons b later =>
      cases hsplit
      exact hex.completed rfl

/-- The pending and active bits agree with the history. -/
structure Tallied (r : Vplic) (h : List VplicAct) : Prop where
  noZero : r.pend 0 = false
  pended : ∀ id, r.pend id = true → Since (VplicAct.Claims id) (· = .injected id) h
  free : ∀ id, id < plicMaxInterrupts → r.act id = false →
    (∀ a ∈ h, ¬ a.Claims id) ∨ Since (VplicAct.Claims id) (· = .completed id) h
  once : Exclusive h

namespace Tallied

variable {r r' : Vplic}

theorem boot : Tallied vplicBoot.regs [] where
  noZero := rfl
  pended id hid := by cases hid
  free id _ _ := Or.inl fun a ha => absurd ha List.not_mem_nil
  once := by
    constructor
    · intro later earlier vcntxt id hsplit
      exact absurd hsplit.symm (List.append_ne_nil_of_right_ne_nil later (List.cons_ne_nil _ _))
    · intro later earlier vcntxt id hsplit
      exact absurd hsplit.symm (List.append_ne_nil_of_right_ne_nil later (List.cons_ne_nil _ _))

theorem same (ht : Tallied r h) (hpend : r'.pend = r.pend) (hact : r'.act = r.act) :
    Tallied r' h where
  noZero := by
    rw [hpend]
    exact ht.noZero
  pended id hid := by
    rw [hpend] at hid
    exact ht.pended id hid
  free id hlt hid := by
    rw [hact] at hid
    exact ht.free id hlt hid
  once := ht.once

theorem free_later (ht : Tallied r h) {a : VplicAct} (ha : ∀ id, ¬ a.Claims id) {id : Nat}
    (hlt : id < plicMaxInterrupts) (hid : r.act id = false) :
    (∀ b ∈ a :: h, ¬ b.Claims id) ∨ Since (VplicAct.Claims id) (· = .completed id) (a :: h) := by
  rcases ht.free id hlt hid with hnone | hsince
  · refine Or.inl fun b hb => ?_
    rcases List.mem_cons.mp hb with heq | hb
    · rw [heq]
      exact ha id
    · exact hnone b hb
  · exact Or.inr (hsince.later (ha id))

theorem inject (ht : Tallied r h) {id : Nat} (hpos : 0 < id) :
    Tallied (r.setPend id true) (.injected id :: h) := by
  have ha : ∀ j, ¬ (VplicAct.injected id).Claims j := fun j hj => by
    obtain ⟨_, hj⟩ := hj
    cases hj
  refine ⟨?_, fun j hj => ?_, fun j hlt hj => ht.free_later ha hlt hj, ht.once.other ha⟩
  · change atCpu r.pend id true 0 = false
    rw [atCpu_other _ _ (Nat.ne_of_lt hpos)]
    exact ht.noZero
  · by_cases heq : j = id
    · rw [heq]
      exact .now rfl
    · change atCpu r.pend id true j = true at hj
      rw [atCpu_other _ _ heq] at hj
      exact (ht.pended j hj).later (ha j)

theorem complete (ht : Tallied r h) (id : Nat) :
    Tallied (r.setAct id false) (.completed id :: h) := by
  have ha : ∀ j, ¬ (VplicAct.completed id).Claims j := fun j hj => by
    obtain ⟨_, hj⟩ := hj
    cases hj
  refine ⟨ht.noZero, fun j hj => (ht.pended j hj).later (ha j), fun j hlt hj => ?_,
    ht.once.other ha⟩
  by_cases heq : j = id
  · rw [heq]
    exact Or.inr (.now rfl)
  · change atCpu r.act id false j = false at hj
    rw [atCpu_other _ _ heq] at hj
    exact ht.free_later ha hlt hj

/-- **A claim** takes a pending interrupt that is not active. -/
theorem claim (ht : Tallied r h) {vcntxt id : Nat} (hchosen : r.Chosen vcntxt id) :
    Tallied ((r.setPend id false).setAct id true) (.claimed vcntxt id :: h) := by
  have hready := hchosen.counts.1
  simp only [Vplic.ready, Bool.and_eq_true, Bool.not_eq_true'] at hready
  obtain ⟨⟨hpend, hact⟩, -⟩ := hready
  have ha : ∀ {j}, j ≠ id → ¬ (VplicAct.claimed vcntxt id).Claims j := by
    intro j hj hc
    obtain ⟨_, hc⟩ := hc
    cases hc
    exact hj rfl
  refine ⟨?_, fun j hj => ?_, fun j hlt hj => ?_,
    ht.once.claim (ht.pended id hpend) (ht.free id hchosen.lt hact)⟩
  · change atCpu r.pend id false 0 = false
    by_cases heq : 0 = id
    · rw [heq, atCpu_same]
    · rw [atCpu_other _ _ heq]
      exact ht.noZero
  · change atCpu r.pend id false j = true at hj
    by_cases heq : j = id
    · rw [heq, atCpu_same] at hj
      cases hj
    · rw [atCpu_other _ _ heq] at hj
      exact (ht.pended j hj).later (ha heq)
  · change atCpu r.act id true j = false at hj
    by_cases heq : j = id
    · rw [heq, atCpu_same] at hj
      cases hj
    · rw [atCpu_other _ _ heq] at hj
      rcases ht.free j hlt hj with hnone | hsince
      · refine Or.inl fun b hb => ?_
        rcases List.mem_cons.mp hb with heq' | hb
        · rw [heq']
          exact ha heq
        · exact hnone b hb
      · exact Or.inr (hsince.later (ha heq))

end Tallied

variable {P : VplicPlat} {s : VplicState}

theorem Tallied.next (ht : Tallied s.regs h) (e : VplicEvent) :
    Tallied (e.next P s).regs (e.observe s h) := by
  obtain ⟨v, op⟩ := e
  cases op with
  | setPrio id prio =>
    change Tallied (vplicSetPrio P v id prio s).regs h
    rw [vplicSetPrio_regs]
    split <;> exact ht.same rfl rfl
  | setEnbl vcntxt id set =>
    change Tallied (vplicSetEnbl P v vcntxt id set s).regs h
    rw [vplicSetEnbl_regs]
    split <;> exact ht.same rfl rfl
  | setThreshold vcntxt threshold =>
    change Tallied (vplicSetThreshold P v vcntxt threshold s).regs h
    rw [vplicSetThreshold_regs]
    exact ht.same rfl rfl
  | claim vcntxt =>
    change Tallied (vplicClaim P v vcntxt s).2.regs _
    rw [vplicClaim_regs]
    unfold VplicEvent.observe
    dsimp only
    split
    · rename_i hzero
      rw [hzero]
      refine ⟨atCpu_same s.regs.pend 0 false, fun id hid => ?_, fun id hlt hid => ?_, ht.once⟩
      · change atCpu s.regs.pend 0 false id = true at hid
        by_cases heq : id = 0
        · rw [heq, atCpu_same] at hid
          cases hid
        · rw [atCpu_other _ _ heq] at hid
          exact ht.pended id hid
      · change atCpu s.regs.act 0 true id = false at hid
        by_cases heq : id = 0
        · rw [heq, atCpu_same] at hid
          cases hid
        · rw [atCpu_other _ _ heq] at hid
          exact ht.free id hlt hid
    · rename_i hsome
      exact ht.claim ((vplicNextPending_ok ht.noZero vcntxt).some hsome)
  | complete vcntxt intId =>
    change Tallied (vplicComplete P v vcntxt intId.toNat s).regs _
    rw [vplicComplete_regs]
    unfold VplicEvent.observe
    dsimp only
    split
    · rename_i hlt
      unfold clearAct
      rw [if_pos hlt]
      exact ht.complete intId.toNat
    · rename_i hpast
      obtain ⟨hpend, hact⟩ := clearAct_past hpast s.regs
      exact ht.same hpend hact
  | inject id =>
    change Tallied (vplicInject P v id s).regs _
    rw [vplicInject_regs]
    unfold VplicEvent.observe
    dsimp only
    split
    · rename_i hnew
      exact ht.inject hnew.1
    · exact ht
  | deliver i =>
    change Tallied (vplicIpiHandler P v i s).regs h
    rw [vplicIpiHandler_regs]
    exact ht

/-- **Claims are exclusive and highest first.**  In every run, each claim of an
interrupt returns an injection of its own and comes after the completion of the
last claim; and whatever context is claimed next, the claim returns the
interrupt of the highest priority and lowest id that counts there, or 0 when
none does. -/
theorem vplic_claims_exclusive
    (hreach : ((vplicSystem P).watch [] VplicEvent.observe).Reachable (s, h)) :
    Exclusive h ∧ ∀ v vcntxt, ClaimOk s.regs vcntxt (vplicClaim P v vcntxt s).1 := by
  have hinit : ∀ p, ((vplicSystem P).watch [] VplicEvent.observe).init p →
      Tallied p.1.regs p.2 := by
    intro p hp
    obtain ⟨hboot, hstart⟩ := hp
    have hboot : p.1 = vplicBoot := hboot
    rw [hboot, hstart]
    exact .boot
  have hstep : ∀ p e p', Tallied p.1.regs p.2 → True →
      ((vplicSystem P).watch [] VplicEvent.observe).step p e p' → Tallied p'.1.regs p'.2 := by
    intro p e p' ht _ hstep
    obtain ⟨⟨-, hnext⟩, hobs⟩ := hstep
    rw [hnext, hobs]
    exact ht.next e
  have htallied : Tallied s.regs h := hreach.invariant hinit hstep
  refine ⟨htallied.once, fun v vcntxt => ?_⟩
  rw [vplicClaim_fst]
  exact vplicNextPending_ok htallied.noZero vcntxt

/-- A VM with two harts on the CPUs of their numbers. -/
def twoHartPlic (hw : Nat → Bool) : VplicPlat where
  cpuNum := 2
  vcpuNum := 2
  physId := id
  hw := hw
  vcpuNum_le := Nat.le_refl 2
  physId_lt _ h := h
  physId_inj _ _ h := h

/-- Interrupts 3 and 4 of one priority, enabled in both contexts. -/
def twoInterrupts : List VplicEvent :=
  [⟨0, .setPrio 3 7⟩, ⟨0, .setPrio 4 7⟩, ⟨0, .setEnbl 1 3 true⟩, ⟨0, .setEnbl 1 4 true⟩,
    ⟨1, .setEnbl 3 3 true⟩, ⟨1, .setEnbl 3 4 true⟩]

/-- Both are injected and claimed, and the first one once more after its
completion. -/
def claimedTwice : List VplicEvent :=
  twoInterrupts ++ [⟨0, .inject 4⟩, ⟨1, .inject 3⟩, ⟨0, .claim 1⟩, ⟨0, .inject 3⟩, ⟨1, .claim 3⟩,
    ⟨0, .complete 1 3⟩, ⟨1, .claim 3⟩]

theorem vplic_claims_exclusive_twice :
    Exclusive [.claimed 3 3, .completed 3, .claimed 3 4, .injected 3, .claimed 1 3, .injected 3,
      .injected 4] := by
  have hmeets : StepSystem.Meets (VplicEvent.enabled (twoHartPlic fun _ => false))
      (VplicEvent.next (twoHartPlic fun _ => false)) (fun _ _ => True) claimedTwice
      vplicBoot := by decide +kernel
  have hreach : ((vplicSystem (twoHartPlic fun _ => false)).watch []
      VplicEvent.observe).Reachable _ := hmeets.watch (fun _ _ _ _ => trivial) (.init ⟨rfl, rfl⟩)
  have hseen : StepSystem.seenBy (VplicEvent.next (twoHartPlic fun _ => false)) VplicEvent.observe
      claimedTwice vplicBoot [] = [.claimed 3 3, .completed 3, .claimed 3 4, .injected 3,
        .claimed 1 3, .injected 3, .injected 4] := by decide +kernel
  rw [← hseen]
  exact (vplic_claims_exclusive hreach).1

end Bao

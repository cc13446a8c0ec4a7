import BaoHypervisor.VplicClaims

/-!
# The lines of the harts

A hart's line should be raised exactly while an interrupt counts in its
context.  Every operation refreshes the lines of some contexts, at once or by a
message, and a line stays right as long as no operation changes in passing what
counts in a context that it does not refresh.
-/

namespace Bao

/-- An interrupt counts in the context. -/
def Vplic.Due (r : Vplic) (vcntxt : Nat) : Prop := ∃ i, i < plicMaxInterrupts ∧ r.Counts vcntxt i

variable (P : VplicPlat)

/-- An update of the context's line is on its way. -/
def UpdateSent (s : VplicState) (vcntxt : Nat) : Prop :=
  ∃ cpu, vcntxtCpu P vcntxt = some cpu ∧ vcntxt ∈ s.inbox cpu

/-- What happens to an interrupt makes no difference to the line: another one
counts, or the line will be updated anyway. -/
def Covered (s : VplicState) (vcntxt id : Nat) : Prop :=
  (∃ j, j < plicMaxInterrupts ∧ j ≠ id ∧ s.regs.Counts vcntxt j) ∨ UpdateSent P s vcntxt

/-- An interrupt is enabled in the context with a priority above its
threshold. -/
def Vplic.Wanted (r : Vplic) (vcntxt id : Nat) : Prop :=
  r.enbl vcntxt id = true ∧ (r.threshold vcntxt).toNat < (r.prio id).toNat

/-- The condition on an operation.  A write to the priority or to an enable bit
of a hardware interrupt, its injection in the contexts of other harts, and a
claim or a completion in the contexts it is not made in, leave the lines as they
are: there the interrupt does not start or stop to count, or it is covered.  A
completion names an interrupt. -/
def KeepsLines (s : VplicState) (e : VplicEvent) : Prop :=
  match e.op with
  | .setPrio id prio => P.hw id = true → ∀ c, vplicVcntxtValid P c → s.regs.ready c id = true →
      ((s.regs.threshold c).toNat < (s.regs.prio id).toNat ↔
        (s.regs.threshold c).toNat < prio.toNat) ∨ Covered P s c id
  | .setEnbl vcntxt id set => P.hw id = true → s.regs.enbl vcntxt id ≠ set →
      s.regs.pend id = true → s.regs.act id = false →
        (s.regs.threshold vcntxt).toNat < (s.regs.prio id).toNat → Covered P s vcntxt id
  | .claim vcntxt => ∀ c, vplicVcntxtValid P c → c ≠ vcntxt →
      s.regs.Counts c (vplicNextPending vcntxt s.regs) →
        Covered P s c (vplicNextPending vcntxt s.regs)
  | .complete vcntxt intId => intId.toNat < plicMaxInterrupts ∧
      ∀ c, vplicVcntxtValid P c → c ≠ vcntxt → s.regs.act intId.toNat = true →
        s.regs.pend intId.toNat = true → s.regs.Wanted c intId.toNat →
          Covered P s c intId.toNat
  | .inject id => P.hw id = true → s.regs.pend id = false → s.regs.act id = false →
      ∀ c, vplicVcntxtValid P c → c / 2 ≠ e.vcpu → s.regs.Wanted c id → Covered P s c id
  | _ => True

variable {P}

/-! ## Contexts and their CPUs -/

theorem vplicVcntxtValid_iff (c : Nat) :
    vplicVcntxtValid P c ↔ c < cntxtNum P ∧ (plicPlatIdToCntxt P c).mode = .s := by
  have hle := P.vcpuNum_le
  unfold vplicVcntxtValid plicPlatIdToCntxt cntxtNum
  constructor
  · intro h
    obtain ⟨hlt, hmode⟩ := h
    have hplat : c < plicPlatCntxtNum P := by
      unfold plicPlatCntxtNum
      omega
    rw [if_pos hplat] at hmode ⊢
    dsimp only at hmode ⊢
    split at hmode
    · exact absurd rfl hmode
    · rename_i hodd
      rw [if_neg hodd]
      exact ⟨hlt, rfl⟩
  · intro h
    refine ⟨h.1, ?_⟩
    rw [h.2]
    exact fun hsm => by cases hsm

theorem mem_supervisorCntxts (c : Nat) : c ∈ supervisorCntxts P ↔ vplicVcntxtValid P c := by
  rw [vplicVcntxtValid_iff]
  simp [supervisorCntxts]

theorem vplicVcntxtValid.odd {c : Nat} (h : vplicVcntxtValid P c) :
    c = 2 * (c / 2) + 1 ∧ c / 2 < P.vcpuNum := by
  obtain ⟨hlt, hmode⟩ := h
  have hle := P.vcpuNum_le
  unfold cntxtNum at hlt
  unfold plicPlatIdToCntxt plicPlatCntxtNum at hmode
  rw [if_pos (by omega)] at hmode
  dsimp only at hmode
  split at hmode
  · exact absurd rfl hmode
  · omega

theorem vplicVcntxtValid_own {v : Nat} (hv : v < P.vcpuNum) : vplicVcntxtValid P (2 * v + 1) := by
  have hle := P.vcpuNum_le
  refine ⟨by unfold cntxtNum; omega, ?_⟩
  unfold plicPlatIdToCntxt plicPlatCntxtNum
  rw [if_pos (by omega)]
  dsimp only
  rw [if_neg (by omega)]
  exact fun h => by cases h

theorem vcntxtCpu_valid {c : Nat} (h : vplicVcntxtValid P c) :
    vcntxtCpu P c = some (P.physId (c / 2)) := by
  obtain ⟨hodd, hlt⟩ := h.odd
  have hphys := P.physId_lt _ hlt
  have hmode := ((vplicVcntxtValid_iff c).mp h).2
  have hle := P.vcpuNum_le
  have hid : plicPlatIdToCntxt P c = ⟨some (c / 2), .s⟩ := by
    unfold plicPlatIdToCntxt plicPlatCntxtNum at hmode ⊢
    rw [if_pos (by omega)] at hmode ⊢
    rw [PlicCntxt.mk.injEq]
    exact ⟨rfl, hmode⟩
  unfold vcntxtCpu vplicVcntxtToPcntxt
  rw [hid]
  dsimp only
  rw [if_pos hlt]
  unfold plicPlatIdToCntxt plicPlatCntxtNum plicPlatCntxtToId
  dsimp only [Option.bind_some]
  rw [if_pos (by omega)]
  have hhalf : (P.physId (c / 2) * 2 + 1) / 2 = P.physId (c / 2) := by omega
  rw [hhalf]

theorem vcntxtCpu_inj {c c' cpu : Nat} (h : vplicVcntxtValid P c) (h' : vplicVcntxtValid P c')
    (hcpu : vcntxtCpu P c = some cpu) (hcpu' : vcntxtCpu P c' = some cpu) : c = c' := by
  rw [vcntxtCpu_valid h] at hcpu
  rw [vcntxtCpu_valid h'] at hcpu'
  have hhart := P.physId_inj (Option.some.inj (hcpu.trans hcpu'.symm))
  have hodd := h.odd.1
  have hodd' := h'.odd.1
  omega

/-! ## What counts before and after -/

section Registers

variable {r r' : Vplic} {c id : Nat}

theorem Vplic.counts_iff : r.Counts c id ↔
    r.pend id = true ∧ r.act id = false ∧ r.Wanted c id := by
  unfold Vplic.Counts Vplic.ready Vplic.Wanted
  simp only [Bool.and_eq_true, Bool.not_eq_true']
  tauto

theorem vplicNextPending_due (hzero : r.pend 0 = false) : vplicNextPending c r ≠ 0 ↔ r.Due c := by
  have hok := vplicNextPending_ok hzero c
  constructor
  · intro h
    exact ⟨_, (hok.some h).lt, (hok.some h).counts⟩
  · intro hdue hnone
    obtain ⟨i, hi, hcounts⟩ := hdue
    exact hok.none hnone i hi hcounts

/-- Only one interrupt changes, and it counts as before or another one
counts. -/
theorem Vplic.due_congr (hother : ∀ j, j ≠ id → (r'.Counts c j ↔ r.Counts c j))
    (hid : (∃ j, j < plicMaxInterrupts ∧ j ≠ id ∧ r.Counts c j) ∨
      (r'.Counts c id ↔ r.Counts c id)) : r'.Due c ↔ r.Due c := by
  rcases hid with ⟨j, hj, hne, hcounts⟩ | hid
  · exact ⟨fun _ => ⟨j, hj, hcounts⟩, fun _ => ⟨j, hj, (hother j hne).mpr hcounts⟩⟩
  · have hall : ∀ j, r'.Counts c j ↔ r.Counts c j := by
      intro j
      by_cases hj : j = id
      · rw [hj]
        exact hid
      · exact hother j hj
    unfold Vplic.Due
    simp only [hall]

theorem Vplic.setPend_counts_other (set : Bool) {j : Nat} (hj : j ≠ id) :
    (r.setPend id set).Counts c j ↔ r.Counts c j := by
  have hpend : (r.setPend id set).pend j = r.pend j := atCpu_other _ _ hj
  rw [counts_iff, counts_iff, hpend]
  rfl

theorem Vplic.setAct_counts_other (set : Bool) {j : Nat} (hj : j ≠ id) :
    (r.setAct id set).Counts c j ↔ r.Counts c j := by
  have hact : (r.setAct id set).act j = r.act j := atCpu_other _ _ hj
  rw [counts_iff, counts_iff, hact]
  rfl

theorem Vplic.setPrio_counts_other (prio : BitVec 32) {j : Nat} (hj : j ≠ id) :
    (r.setPrio id prio).Counts c j ↔ r.Counts c j := by
  have hprio : (r.setPrio id prio).prio j = r.prio j := atCpu_other _ _ hj
  unfold Counts
  rw [hprio]
  rfl

theorem Vplic.setEnbl_counts_other (set : Bool) {vcntxt j : Nat} (hj : c ≠ vcntxt ∨ j ≠ id) :
    (r.setEnbl vcntxt id set).Counts c j ↔ r.Counts c j := by
  have henbl : (r.setEnbl vcntxt id set).enbl c j = r.enbl c j := by
    change atCpu r.enbl vcntxt _ c j = r.enbl c j
    by_cases hc : c = vcntxt
    · subst hc
      rw [atCpu_same, atCpu_other _ _ (hj.resolve_left fun h => h rfl)]
    · rw [atCpu_other _ _ hc]
  rw [counts_iff, counts_iff]
  unfold Wanted
  rw [henbl]
  rfl

theorem Vplic.setThreshold_due_other (threshold : BitVec 32) {vcntxt : Nat} (hc : c ≠ vcntxt) :
    (r.setThreshold vcntxt threshold).Due c ↔ r.Due c := by
  have hthr : (r.setThreshold vcntxt threshold).threshold c = r.threshold c := atCpu_other _ _ hc
  unfold Due Counts
  rw [hthr]
  rfl

end Registers

/-! ## Lines that are right -/

variable (P) in
/-- A context's line follows its interrupts, or is about to be updated. -/
def LineOk (s : VplicState) (c : Nat) : Prop :=
  UpdateSent P s c ∨ ∀ cpu, vcntxtCpu P c = some cpu → (s.line cpu = true ↔ s.regs.Due c)

variable (P) in
/-- Every line is right, and messages name valid contexts. -/
structure LinesOk (s : VplicState) : Prop where
  noZero : s.regs.pend 0 = false
  sent : ∀ cpu, ∀ c ∈ s.inbox cpu, vplicVcntxtValid P c
  lines : ∀ c, vplicVcntxtValid P c → LineOk P s c

variable {s : VplicState} {v c c' : Nat}

theorem LineOk.regs (h : LineOk P s c) {r' : Vplic} (hdue : r'.Due c ↔ s.regs.Due c) :
    LineOk P { s with regs := r' } c := by
  rcases h with hsent | hline
  · exact Or.inl hsent
  · refine Or.inr fun cpu hcpu => ?_
    rw [hline cpu hcpu]
    exact hdue.symm

theorem LineOk.interrupt (h : LineOk P s c) {r' : Vplic} {id : Nat}
    (hother : ∀ j, j ≠ id → (r'.Counts c j ↔ s.regs.Counts c j))
    (hid : Covered P s c id ∨ (r'.Counts c id ↔ s.regs.Counts c id)) :
    LineOk P { s with regs := r' } c := by
  rcases hid with (hothers | hsent) | hid
  · exact h.regs (Vplic.due_congr hother (Or.inl hothers))
  · exact Or.inl hsent
  · exact h.regs (Vplic.due_congr hother (Or.inr hid))

theorem LineOk.refreshed (hzero : s.regs.pend 0 = false) (hvalid : vplicVcntxtValid P c) :
    LineOk P (vplicUpdateHartLine P v c s) c := by
  have hcpu := vcntxtCpu_valid hvalid
  unfold vplicUpdateHartLine
  rw [hcpu]
  dsimp only
  split
  · refine Or.inr fun cpu hcpu' => ?_
    rw [hcpu] at hcpu'
    cases hcpu'
    change atCpu s.line _ _ _ = true ↔ s.regs.Due c
    rw [atCpu_same, decide_eq_true_iff]
    exact vplicNextPending_due hzero
  · refine Or.inl ⟨_, hcpu, ?_⟩
    change c ∈ atCpu s.inbox _ _ _
    rw [atCpu_same]
    exact List.mem_append_right _ List.mem_cons_self

theorem LineOk.refresh_other (h : LineOk P s c') (hvalid' : vplicVcntxtValid P c')
    (hvalid : vplicVcntxtValid P c) (hne : c' ≠ c) :
    LineOk P (vplicUpdateHartLine P v c s) c' := by
  have hcpu := vcntxtCpu_valid hvalid
  unfold vplicUpdateHartLine
  rw [hcpu]
  dsimp only
  split
  · rcases h with hsent | hline
    · exact Or.inl hsent
    · refine Or.inr fun cpu hcpu' => ?_
      have hother : cpu ≠ P.physId (c / 2) := by
        intro heq
        rw [heq] at hcpu'
        exact hne (vcntxtCpu_inj hvalid' hvalid hcpu' hcpu)
      change atCpu s.line _ _ cpu = true ↔ s.regs.Due c'
      rw [atCpu_other _ _ hother]
      exact hline cpu hcpu'
  · rcases h with ⟨cpu, hcpu', hmem⟩ | hline
    · refine Or.inl ⟨cpu, hcpu', ?_⟩
      change c' ∈ atCpu s.inbox _ _ cpu
      by_cases heq : cpu = P.physId (c / 2)
      · rw [heq, atCpu_same]
        rw [heq] at hmem
        exact List.mem_append_left _ hmem
      · rw [atCpu_other _ _ heq]
        exact hmem
    · exact Or.inr hline

theorem sent_refresh (h : ∀ cpu, ∀ c ∈ s.inbox cpu, vplicVcntxtValid P c)
    (hvalid : vplicVcntxtValid P c) (cpu : Nat) :
    ∀ c' ∈ (vplicUpdateHartLine P v c s).inbox cpu, vplicVcntxtValid P c' := by
  intro c' hc'
  unfold vplicUpdateHartLine at hc'
  rw [vcntxtCpu_valid hvalid] at hc'
  dsimp only at hc'
  split at hc'
  · exact h cpu c' hc'
  · change c' ∈ atCpu s.inbox _ _ cpu at hc'
    by_cases heq : cpu = P.physId (c / 2)
    · rw [heq, atCpu_same] at hc'
      rcases List.mem_append.mp hc' with hc' | hc'
      · exact h _ c' hc'
      · rw [List.mem_singleton.mp hc']
        exact hvalid
    · rw [atCpu_other _ _ heq] at hc'
      exact h cpu c' hc'

/-- **Refreshing.**  Lines that are right stay so, and those of the list become
right. -/
theorem LinesOk.refresh (l : List Nat) (hl : ∀ c ∈ l, vplicVcntxtValid P c)
    (hzero : s.regs.pend 0 = false) (hsent : ∀ cpu, ∀ c ∈ s.inbox cpu, vplicVcntxtValid P c)
    (hlines : ∀ c, vplicVcntxtValid P c → c ∈ l ∨ LineOk P s c) :
    LinesOk P (l.foldl (fun s c => vplicUpdateHartLine P v c s) s) := by
  induction l generalizing s with
  | nil => exact ⟨hzero, hsent, fun c hc => (hlines c hc).resolve_left List.not_mem_nil⟩
  | cons c l ih =>
    have hc := hl c List.mem_cons_self
    rw [List.foldl_cons]
    refine ih (fun c' hc' => hl c' (List.mem_cons_of_mem _ hc'))
      (by rw [vplicUpdateHartLine_regs]; exact hzero) (sent_refresh hsent hc) fun c' hc' => ?_
    by_cases heq : c' = c
    · rw [heq]
      exact Or.inr (.refreshed hzero hc)
    · rcases hlines c' hc' with hmem | hline
      · exact Or.inl ((List.mem_cons.mp hmem).resolve_left heq)
      · exact Or.inr (hline.refresh_other hc' hc heq)

namespace LinesOk

theorem refreshOne (hc : vplicVcntxtValid P c) (hzero : s.regs.pend 0 = false)
    (hsent : ∀ cpu, ∀ c ∈ s.inbox cpu, vplicVcntxtValid P c)
    (hlines : ∀ c', vplicVcntxtValid P c' → c' ≠ c → LineOk P s c') :
    LinesOk P (vplicUpdateHartLine P v c s) := by
  refine refresh [c] (fun c' hc' => ?_) hzero hsent fun c' hc' => ?_
  · rw [List.mem_singleton.mp hc']
    exact hc
  · by_cases heq : c' = c
    · exact Or.inl (List.mem_singleton.mpr heq)
    · exact Or.inr (hlines c' hc' heq)

theorem setThreshold (h : LinesOk P s) (hc : vplicVcntxtValid P c) (threshold : BitVec 32) :
    LinesOk P (vplicSetThreshold P v c threshold s) :=
  refreshOne hc h.noZero h.sent fun c' hc' hne =>
    (h.lines c' hc').regs (Vplic.setThreshold_due_other threshold hne)

theorem setEnbl (h : LinesOk P s) (hc : vplicVcntxtValid P c) {id : Nat} {set : Bool}
    (hkeeps : P.hw id = true → s.regs.enbl c id ≠ set → s.regs.pend id = true →
      s.regs.act id = false → (s.regs.threshold c).toNat < (s.regs.prio id).toNat →
        Covered P s c id) : LinesOk P (vplicSetEnbl P v c id set s) := by
  unfold vplicSetEnbl
  split
  · rename_i hchange
    have hothers : ∀ c', vplicVcntxtValid P c' → c' ≠ c →
        LineOk P (s.updRegs fun r => r.setEnbl c id set) c' := by
      intro c' hc' hne
      have hsame : ∀ j, (s.regs.setEnbl c id set).Counts c' j ↔ s.regs.Counts c' j :=
        fun j => Vplic.setEnbl_counts_other set (Or.inl hne)
      exact (h.lines c' hc').interrupt (fun j _ => hsame j) (Or.inr (hsame id))
    dsimp only
    split
    · rename_i hhw
      refine ⟨h.noZero, h.sent, fun c' hc' => ?_⟩
      by_cases heq : c' = c
      · subst heq
        refine (h.lines c' hc').interrupt
          (fun j hj => Vplic.setEnbl_counts_other set (Or.inr hj)) ?_
        by_cases hwould : s.regs.pend id = true ∧ s.regs.act id = false ∧
            (s.regs.threshold c').toNat < (s.regs.prio id).toNat
        · exact Or.inl (hkeeps hhw hchange.2 hwould.1 hwould.2.1 hwould.2.2)
        · refine Or.inr ?_
          rw [Vplic.counts_iff, Vplic.counts_iff]
          exact ⟨fun hcounts => absurd ⟨hcounts.1, hcounts.2.1, hcounts.2.2.2⟩ hwould,
            fun hcounts => absurd ⟨hcounts.1, hcounts.2.1, hcounts.2.2.2⟩ hwould⟩
      · exact hothers c' hc' heq
    · exact refreshOne hc h.noZero h.sent hothers
  · exact h

theorem setPrio (h : LinesOk P s) {id : Nat} {prio : BitVec 32}
    (hkeeps : P.hw id = true → ∀ c, vplicVcntxtValid P c → s.regs.ready c id = true →
      ((s.regs.threshold c).toNat < (s.regs.prio id).toNat ↔
        (s.regs.threshold c).toNat < prio.toNat) ∨ Covered P s c id) :
    LinesOk P (vplicSetPrio P v id prio s) := by
  have hready : ∀ c, ¬ s.regs.ready c id = true →
      ((s.regs.setPrio id prio).Counts c id ↔ s.regs.Counts c id) :=
    fun c hnot => ⟨fun hcounts => absurd hcounts.1 hnot, fun hcounts => absurd hcounts.1 hnot⟩
  unfold vplicSetPrio
  split
  · dsimp only
    split
    · rename_i hhw
      refine ⟨h.noZero, h.sent, fun c hc => ?_⟩
      refine (h.lines c hc).interrupt (fun j hj => Vplic.setPrio_counts_other prio hj) ?_
      by_cases hr : s.regs.ready c id = true
      · rcases hkeeps hhw c hc hr with hiff | hcov
        · refine Or.inr ?_
          have hprio : (s.regs.setPrio id prio).prio id = prio := atCpu_same _ _ _
          unfold Vplic.Counts
          rw [hprio]
          exact ⟨fun hcounts => ⟨hr, hiff.mpr hcounts.2⟩, fun hcounts => ⟨hr, hiff.mp hcounts.2⟩⟩
        · exact Or.inl hcov
      · exact Or.inr (hready c hr)
    · refine refresh _ (fun c hc => ?_) h.noZero h.sent fun c hc => ?_
      · exact (mem_supervisorCntxts c).mp (List.mem_filter.mp hc).1
      · by_cases henbl : s.regs.enbl c id = true
        · exact Or.inl (List.mem_filter.mpr ⟨(mem_supervisorCntxts c).mpr hc, henbl⟩)
        · refine Or.inr ((h.lines c hc).interrupt
            (fun j hj => Vplic.setPrio_counts_other prio hj) (Or.inr (hready c fun hr => ?_)))
          simp only [Vplic.ready, Bool.and_eq_true] at hr
          exact henbl hr.2
  · exact h

theorem claim (h : LinesOk P s) (hc : vplicVcntxtValid P c)
    (hkeeps : ∀ c', vplicVcntxtValid P c' → c' ≠ c →
      s.regs.Counts c' (vplicNextPending c s.regs) →
        Covered P s c' (vplicNextPending c s.regs)) :
    LinesOk P (vplicClaim P v c s).2 := by
  unfold vplicClaim
  dsimp only
  generalize vplicNextPending c s.regs = id at hkeeps ⊢
  refine refreshOne hc ?_ h.sent fun c' hc' hne => ?_
  · change atCpu s.regs.pend id false 0 = false
    by_cases heq : 0 = id
    · rw [heq, atCpu_same]
    · rw [atCpu_other _ _ heq]
      exact h.noZero
  · have hother : ∀ j, j ≠ id → (((s.regs.setPend id false).setAct id true).Counts c' j ↔
        s.regs.Counts c' j) := by
      intro j hj
      rw [Vplic.setAct_counts_other true hj, Vplic.setPend_counts_other false hj]
    refine (h.lines c' hc').interrupt hother ?_
    by_cases hcounts : s.regs.Counts c' id
    · exact Or.inl (hkeeps c' hc' hne hcounts)
    · refine Or.inr ⟨fun hafter => ?_, fun hbefore => absurd hbefore hcounts⟩
      have hact : atCpu s.regs.act id true id = false := (Vplic.counts_iff.mp hafter).2.1
      rw [atCpu_same] at hact
      cases hact

theorem complete (h : LinesOk P s) (hc : vplicVcntxtValid P c) {id : Nat}
    (hlt : id < plicMaxInterrupts)
    (hkeeps : ∀ c', vplicVcntxtValid P c' → c' ≠ c → s.regs.act id = true →
      s.regs.pend id = true → s.regs.Wanted c' id → Covered P s c' id) :
    LinesOk P (vplicComplete P v c id s) := by
  unfold vplicComplete VplicState.updRegs clearAct
  rw [if_pos hlt]
  refine refreshOne hc h.noZero h.sent fun c' hc' hne => ?_
  refine (h.lines c' hc').interrupt (fun j hj => Vplic.setAct_counts_other false hj) ?_
  cases hact : s.regs.act id with
  | true =>
    by_cases hwould : s.regs.pend id = true ∧ s.regs.Wanted c' id
    · exact Or.inl (hkeeps c' hc' hne hact hwould.1 hwould.2)
    · refine Or.inr ?_
      rw [Vplic.counts_iff, Vplic.counts_iff]
      exact ⟨fun hafter => absurd ⟨hafter.1, hafter.2.2⟩ hwould,
        fun hbefore => absurd ⟨hbefore.1, hbefore.2.2⟩ hwould⟩
  | false =>
    refine Or.inr ?_
    have hsame : s.regs.setAct id false = s.regs := by
      unfold Vplic.setAct
      rw [← hact, atCpu_self]
    rw [hsame]

theorem inject (h : LinesOk P s) (hv : v < P.vcpuNum) {id : Nat}
    (hkeeps : P.hw id = true → s.regs.pend id = false → s.regs.act id = false →
      ∀ c, vplicVcntxtValid P c → c / 2 ≠ v → s.regs.Wanted c id → Covered P s c id) :
    LinesOk P (vplicInject P v id s) := by
  unfold vplicInject
  split
  · rename_i hnew
    obtain ⟨hpos, -, hpend⟩ := hnew
    have hzero : (s.regs.setPend id true).pend 0 = false := by
      change atCpu s.regs.pend id true 0 = false
      rw [atCpu_other _ _ (Nat.ne_of_lt hpos)]
      exact h.noZero
    have hline : ∀ c, vplicVcntxtValid P c →
        (Covered P s c id ∨ ¬ s.regs.Wanted c id ∨ s.regs.act id = true) →
          LineOk P (s.updRegs fun r => r.setPend id true) c := by
      intro c hc hwhy
      refine (h.lines c hc).interrupt (fun j hj => Vplic.setPend_counts_other true hj) ?_
      rcases hwhy with hcov | hnot
      · exact Or.inl hcov
      · refine Or.inr ?_
        rw [Vplic.counts_iff, Vplic.counts_iff, hpend]
        refine ⟨fun hafter => ?_, fun hbefore => by cases hbefore.1⟩
        rcases hnot with hnot | hact
        · exact absurd hafter.2.2 hnot
        · have hinact : s.regs.act id = false := hafter.2.1
          rw [hact] at hinact
          cases hinact
    dsimp only
    split
    · rename_i hhw
      refine refreshOne ?_ hzero h.sent fun c hc hne => ?_
      · rw [Nat.mul_comm]
        exact vplicVcntxtValid_own hv
      · refine hline c hc ?_
        have hhart : c / 2 ≠ v := by
          have hodd := hc.odd.1
          omega
        cases hact : s.regs.act id with
        | true => exact Or.inr (Or.inr rfl)
        | false =>
          by_cases hwant : s.regs.Wanted c id
          · exact Or.inl (hkeeps hhw hpend hact c hc hhart hwant)
          · exact Or.inr (Or.inl hwant)
    · refine refresh _ (fun c hc => ?_) hzero h.sent fun c hc => ?_
      · exact (mem_supervisorCntxts c).mp (List.mem_filter.mp hc).1
      · by_cases hwant : s.regs.Wanted c id
        · refine Or.inl (List.mem_filter.mpr ⟨(mem_supervisorCntxts c).mpr hc, ?_⟩)
          exact Bool.and_eq_true_iff.mpr ⟨hwant.1, decide_eq_true hwant.2⟩
        · exact Or.inr (hline c hc (Or.inr (Or.inl hwant)))
  · exact h

theorem deliver (h : LinesOk P s) (i : Nat) : LinesOk P (vplicIpiHandler P v i s) := by
  unfold vplicIpiHandler
  cases hmsg : (s.inbox (P.physId v))[i]? with
  | none => exact h
  | some c =>
    refine refreshOne (h.sent _ c (List.mem_of_getElem? hmsg)) h.noZero (fun cpu c' hc' => ?_)
      fun c' hc' hne => ?_
    · change c' ∈ atCpu s.inbox _ _ cpu at hc'
      by_cases heq : cpu = P.physId v
      · rw [heq, atCpu_same] at hc'
        exact h.sent _ c' (List.mem_of_mem_eraseIdx hc')
      · rw [atCpu_other _ _ heq] at hc'
        exact h.sent cpu c' hc'
    · rcases h.lines c' hc' with ⟨cpu, hcpu, hmem⟩ | hline
      · refine Or.inl ⟨cpu, hcpu, ?_⟩
        change c' ∈ atCpu s.inbox _ _ cpu
        by_cases heq : cpu = P.physId v
        · rw [heq, atCpu_same, List.mem_eraseIdx_iff_getElem?]
          rw [heq] at hmem
          obtain ⟨j, hj⟩ := List.mem_iff_getElem?.mp hmem
          refine ⟨j, fun hji => hne ?_, hj⟩
          rw [hji, hmsg] at hj
          exact (Option.some.inj hj).symm
        · rw [atCpu_other _ _ heq]
          exact hmem
      · exact Or.inr hline

theorem next {e : VplicEvent} (h : LinesOk P s) (hkeeps : KeepsLines P s e)
    (hen : e.enabled P s) : LinesOk P (e.next P s) := by
  obtain ⟨v, op⟩ := e
  obtain ⟨hv, hop⟩ := hen
  cases op with
  | setPrio id prio => exact h.setPrio hkeeps
  | setEnbl vcntxt id set => exact h.setEnbl hop.1 hkeeps
  | setThreshold vcntxt threshold => exact h.setThreshold hop threshold
  | claim vcntxt => exact h.claim hop hkeeps
  | complete vcntxt intId => exact h.complete hop hkeeps.1 hkeeps.2
  | inject id => exact h.inject hv hkeeps
  | deliver i => exact h.deliver i

theorem boot : LinesOk P vplicBoot where
  noZero := rfl
  sent cpu c hc := absurd hc List.not_mem_nil
  lines c _ := by
    refine Or.inr fun cpu _ => ⟨fun hline => (Bool.false_ne_true hline).elim, fun hdue => ?_⟩
    obtain ⟨i, -, hcounts⟩ := hdue
    cases (Vplic.counts_iff.mp hcounts).1

end LinesOk

/-- **Lines are consistent** in every run whose operations keep the lines: once
all messages are handled, the line of a valid context's CPU is raised exactly if
an interrupt counts in the context. -/
theorem vplic_lines_consistent (hreach : (vplicSystem P).Reach (KeepsLines P) s)
    (hquiet : ∀ cpu, cpu < P.cpuNum → s.inbox cpu = []) (hc : vplicVcntxtValid P c) :
    ∃ cpu, vcntxtCpu P c = some cpu ∧ (s.line cpu = true ↔ s.regs.Due c) := by
  have hlines : LinesOk P s := by
    refine hreach.invariant (fun s hs => ?_) fun s e s' h hkeeps hstep => ?_
    · have hs : s = vplicBoot := hs
      rw [hs]
      exact .boot
    · rw [hstep.2]
      exact h.next hkeeps hstep.1
  rcases hlines.lines c hc with ⟨cpu, hcpu, hmem⟩ | hline
  · rw [vcntxtCpu_valid hc] at hcpu
    cases hcpu
    rw [hquiet _ (P.physId_lt _ hc.odd.2)] at hmem
    exact absurd hmem List.not_mem_nil
  · exact ⟨_, vcntxtCpu_valid hc, hline _ (vcntxtCpu_valid hc)⟩

variable (P) in
/-- No hardware interrupt is touched, and an interrupt that is claimed or
completed is enabled in no other context. -/
def TouchesOwn (s : VplicState) (e : VplicEvent) : Prop :=
  match e.op with
  | .setPrio id _ => P.hw id = false
  | .setEnbl _ id _ => P.hw id = false
  | .claim vcntxt => ∀ c, c < cntxtNum P → c ≠ vcntxt →
      s.regs.enbl c (vplicNextPending vcntxt s.regs) = false
  | .complete vcntxt intId => intId.toNat < plicMaxInterrupts ∧
      ∀ c, c < cntxtNum P → c ≠ vcntxt → s.regs.enbl c intId.toNat = false
  | .inject id => P.hw id = false
  | _ => True

instance (s : VplicState) (e : VplicEvent) : Decidable (TouchesOwn P s e) := by
  obtain ⟨v, op⟩ := e
  unfold TouchesOwn
  rcases op with _ | _ <;> infer_instance

theorem TouchesOwn.keeps {e : VplicEvent} (h : TouchesOwn P s e) : KeepsLines P s e := by
  obtain ⟨v, op⟩ := e
  cases op with
  | setPrio id prio => exact fun hhw => by rw [show P.hw id = false from h] at hhw; cases hhw
  | setEnbl vcntxt id set => exact fun hhw => by rw [show P.hw id = false from h] at hhw; cases hhw
  | setThreshold vcntxt threshold => trivial
  | claim vcntxt =>
    intro c hc hne hcounts
    have henbl := (Vplic.counts_iff.mp hcounts).2.2.1
    rw [h c hc.1 hne] at henbl
    cases henbl
  | complete vcntxt intId =>
    refine ⟨h.1, fun c hc hne _ _ hwant => ?_⟩
    have henbl := hwant.1
    rw [h.2 c hc.1 hne] at henbl
    cases henbl
  | inject id => exact fun hhw => by rw [show P.hw id = false from h] at hhw; cases hhw
  | deliver i => trivial

/-- Interrupt 3 of hart 0 is injected by hart 1, claimed, injected once more
while it is active, and completed. -/
def injectedWhileActive : List VplicEvent :=
  [⟨0, .setPrio 3 7⟩, ⟨0, .setEnbl 1 3 true⟩, ⟨1, .inject 3⟩, ⟨0, .deliver 0⟩, ⟨0, .claim 1⟩,
    ⟨1, .inject 3⟩, ⟨0, .deliver 0⟩, ⟨0, .complete 1 3⟩]

theorem vplic_lines_consistent_raised :
    ∃ s, (vplicSystem (twoHartPlic fun _ => false)).Reach
        (KeepsLines (twoHartPlic fun _ => false)) s ∧ s.line 0 = true ∧ s.regs.Due 1 := by
  have hmeets : StepSystem.Meets (VplicEvent.enabled (twoHartPlic fun _ => false))
      (VplicEvent.next (twoHartPlic fun _ => false)) (TouchesOwn (twoHartPlic fun _ => false))
      injectedWhileActive vplicBoot := by decide +kernel
  have hreach : (vplicSystem (twoHartPlic fun _ => false)).Reach _ _ := hmeets.fromInit rfl
  have hkeeps := hreach.mono fun _ _ => TouchesOwn.keeps
  have hline : (StepSystem.runBy (VplicEvent.next (twoHartPlic fun _ => false))
      injectedWhileActive vplicBoot).line 0 = true := by decide +kernel
  have hquiet : ∀ cpu, cpu < 2 → (StepSystem.runBy (VplicEvent.next (twoHartPlic fun _ => false))
      injectedWhileActive vplicBoot).inbox cpu = [] := by decide +kernel
  obtain ⟨cpu, hcpu, hiff⟩ := vplic_lines_consistent hkeeps hquiet
    (c := 1) (by decide +kernel)
  have hzero : vcntxtCpu (twoHartPlic fun _ => false) 1 = some 0 := by decide +kernel
  rw [hzero] at hcpu
  cases hcpu
  exact ⟨_, hkeeps, hline, hiff.mp hline⟩

/-- Interrupt 3 counts in both contexts, both lines are raised, and hart 0
claims it. -/
def claimedByOne : List VplicEvent :=
  [⟨0, .setPrio 3 7⟩, ⟨0, .setEnbl 1 3 true⟩, ⟨0, .setEnbl 3 3 true⟩, ⟨1, .deliver 0⟩,
    ⟨0, .inject 3⟩, ⟨1, .deliver 0⟩, ⟨0, .claim 1⟩]

/-- **The other hart's line stays raised** after a claim. -/
theorem claim_leaves_line :
    ¬ ∀ (P : VplicPlat) (s : VplicState) (c : Nat), (vplicSystem P).Reachable s →
      (∀ cpu, cpu < P.cpuNum → s.inbox cpu = []) → vplicVcntxtValid P c →
        ∃ cpu, vcntxtCpu P c = some cpu ∧ (s.line cpu = true ↔ s.regs.Due c) := by
  intro hall
  have hmeets : StepSystem.Meets (VplicEvent.enabled (twoHartPlic fun _ => false))
      (VplicEvent.next (twoHartPlic fun _ => false)) (fun _ _ => True)
      claimedByOne vplicBoot := by decide +kernel
  have hquiet : ∀ cpu, cpu < 2 → (StepSystem.runBy (VplicEvent.next (twoHartPlic fun _ => false))
      claimedByOne vplicBoot).inbox cpu = [] := by decide +kernel
  obtain ⟨cpu, hcpu, hiff⟩ := hall _ _ 3 (hmeets.fromInit rfl) hquiet (by decide +kernel)
  have hone : vcntxtCpu (twoHartPlic fun _ => false) 3 = some 1 := by decide +kernel
  rw [hone] at hcpu
  cases hcpu
  have hline : (StepSystem.runBy (VplicEvent.next (twoHartPlic fun _ => false))
      claimedByOne vplicBoot).line 1 = true := by decide +kernel
  have hnone : vplicNextPending 3 (StepSystem.runBy (VplicEvent.next (twoHartPlic fun _ => false))
      claimedByOne vplicBoot).regs = 0 := by decide +kernel
  exact (vplicNextPending_due (by decide +kernel)).mpr (hiff.mp hline) hnone

end Bao

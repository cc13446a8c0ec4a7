import BaoHypervisor.VaplicHarts

/-!
# What `vaplic_update_topi` finds

The interrupt that a hart is to take: pending, enabled, targeted at the hart and
below its threshold, of the lowest priority number, and of the lowest id among
equals.  The search starts from `APLIC_MIN_PRIO`, which is also the largest
priority number a target can have, so it never finds a source of that priority.
-/

namespace Bao

open WordRegs (bit put setBit clearBit bit_put_kept bit_put_or bit_setBit_iff bit_clearBit_iff)

namespace Vaplic

variable {r : Vaplic} {hart i : Nat}

/-- The domain and the hart let interrupts through. -/
def Takes (r : Vaplic) (hart : Nat) : Prop := r.idelivery hart = true ∧ r.domainEnbl = true

instance decidableTakes (r : Vaplic) (hart : Nat) : Decidable (r.Takes hart) :=
  inferInstanceAs (Decidable (_ ∧ _))

/-- The threshold of the hart lets the source through. -/
def Below (r : Vaplic) (hart i : Nat) : Prop :=
  r.iprio i < (r.ithreshold hart).toNat ∨ (r.ithreshold hart).toNat = 0

instance decidableBelow (r : Vaplic) (hart i : Nat) : Decidable (r.Below hart i) :=
  inferInstanceAs (Decidable (_ ∨ _))

/-- A source that can be delivered to a hart. -/
def Deliverable (r : Vaplic) (hart i : Nat) : Prop :=
  r.eligible hart i = true ∧ r.Below hart i ∧ r.Takes hart

instance decidableDeliverable (r : Vaplic) (hart i : Nat) : Decidable (r.Deliverable hart i) :=
  inferInstanceAs (Decidable (_ ∧ _ ∧ _))

/-- A source goes before another: it has the lower priority number, or the lower
id among equals. -/
def Before (r : Vaplic) (i j : Nat) : Prop :=
  r.iprio i < r.iprio j ∨ r.iprio i = r.iprio j ∧ i ≤ j

instance decidableBefore (r : Vaplic) (i j : Nat) : Decidable (r.Before i j) :=
  inferInstanceAs (Decidable (_ ∨ _))

/-- The source to deliver: it goes before every other that can be delivered. -/
structure Chosen (r : Vaplic) (hart i : Nat) : Prop where
  deliverable : r.Deliverable hart i
  first : ∀ j, r.Deliverable hart j → r.Before i j

/-- What `topi` is to be: the source to deliver with its priority, or 0 if there
is none. -/
def TopiOk (r : Vaplic) (hart : Nat) (topi : BitVec 32) : Prop :=
  (topi = 0 ∧ ∀ i, ¬ r.Deliverable hart i) ∨
    ∃ i, r.Chosen hart i ∧ topi = topiOf i (r.iprio i)

/-- What the line of a hart is to be. -/
def LineHigh (r : Vaplic) (hart : Nat) (topi : BitVec 32) : Prop :=
  topi ≠ 0 ∨ r.iforce hart = true ∧ r.Takes hart

theorem eligible_iff : r.eligible hart i = true ↔
    r.hartIndex i = hart ∧ vaplicIntpValid i = true ∧ bit r.ip i = true ∧ bit r.ie i = true := by
  unfold eligible getPend getEnbl
  simp only [Bool.and_eq_true, decide_eq_true_eq]
  grind

theorem eligible_lt (h : r.eligible hart i = true) : 0 < i ∧ i < aplicMaxInterrupts := by
  obtain ⟨hne, hlt⟩ := of_decide_eq_true (eligible_iff.mp h).2.1
  exact ⟨Nat.pos_of_ne_zero hne, hlt⟩

theorem iprio_lt (r : Vaplic) (i : Nat) : r.iprio i < 2 ^ 8 := Nat.mod_lt _ (by decide)

theorem toNat_topiOf {prio : Nat} (hi : i < aplicMaxInterrupts) (hprio : prio < 2 ^ 8) :
    (topiOf i prio).toNat = i * 2 ^ 16 + prio := by
  unfold topiOf
  rw [BitVec.toNat_ofNat]
  have hlt : i < 1024 := hi
  omega

theorem claimedIntp_topiOf {prio : Nat} (hi : i < aplicMaxInterrupts) (hprio : prio < 2 ^ 8) :
    claimedIntp (topiOf i prio) = i := by
  unfold claimedIntp
  rw [BitVec.toNat_ushiftRight, toNat_topiOf hi hprio, Nat.shiftRight_eq_div_pow]
  omega

theorem topiOf_ne_zero {prio : Nat} (hpos : 0 < i) (hi : i < aplicMaxInterrupts)
    (hprio : prio < 2 ^ 8) : topiOf i prio ≠ 0 := by
  intro hzero
  have hnat := congrArg BitVec.toNat hzero
  rw [toNat_topiOf hi hprio] at hnat
  have hnat : i * 2 ^ 16 + prio = 0 := hnat
  omega

/-- The search finds no source below `APLIC_MIN_PRIO`, or the first of those
with the lowest priority number. -/
theorem search_cases (r : Vaplic) (hart : Nat) :
    ((r.search hart).2 = aplicMaxInterrupts ∧
      ∀ i, r.eligible hart i = true → aplicMinPrio ≤ r.iprio i) ∨
    ∃ i, r.search hart = (r.iprio i, i) ∧ r.eligible hart i = true ∧
      ∀ j, r.eligible hart j = true → r.Before i j := by
  have hmem : ∀ {i}, r.eligible hart i = true →
      i ∈ List.range' 1 (aplicMaxInterrupts - 1) := by
    intro i hi
    obtain ⟨hpos, hlt⟩ := eligible_lt hi
    exact List.mem_range'_1.mpr ⟨hpos, hlt⟩
  unfold search
  dsimp only
  rcases @PriorityScan.scan_cases Nat Natᵒᵈ _ (r.eligible hart)
    (fun i => OrderDual.toDual (r.iprio i)) (OrderDual.toDual aplicMinPrio, aplicMaxInterrupts)
    (List.range' 1 (aplicMaxInterrupts - 1)) with ⟨hscan, hall⟩ | ⟨-, hkey, hfirst⟩
  · rw [hscan]
    exact Or.inl ⟨rfl, fun i hi => hall i (hmem hi) hi⟩
  · rw [← hkey]
    generalize (@PriorityScan.scan Nat Natᵒᵈ _ (r.eligible hart)
      (fun i => OrderDual.toDual (r.iprio i)) (OrderDual.toDual aplicMinPrio, aplicMaxInterrupts)
      (List.range' 1 (aplicMaxInterrupts - 1))).2 = i at hfirst ⊢
    refine Or.inr ⟨i, rfl, hfirst.isReady, fun j hj => ?_⟩
    rcases hfirst.best (List.pairwise_lt_range' 1) (hmem hj) hj with hlt | ⟨heq, hplace⟩
    · exact Or.inl (OrderDual.toDual_lt_toDual.mp hlt)
    · refine Or.inr ⟨(OrderDual.toDual_inj.mp heq).symm, ?_⟩
      rcases hplace with heq | hlt
      · exact Nat.le_of_eq heq.symm
      · exact Nat.le_of_lt hlt

theorem topi_found (hsearch : r.search hart = (r.iprio i, i)) (hi : r.eligible hart i = true) :
    r.topi hart = if r.Below hart i ∧ r.Takes hart then (topiOf i (r.iprio i), true)
      else (0, r.iforce hart && r.idelivery hart && r.domainEnbl) := by
  have hne : i ≠ aplicMaxInterrupts := Nat.ne_of_lt (eligible_lt hi).2
  unfold topi
  rw [hsearch]
  dsimp only
  by_cases hgo : r.Below hart i ∧ r.Takes hart
  · rw [if_pos hgo, if_pos ⟨hne, hgo⟩]
  · rw [if_neg hgo, if_neg fun h => hgo h.2]

/-- The `topi` computed for a hart is 0, or names a source that is pending,
enabled and targeted at it. -/
theorem topi_named (r : Vaplic) (hart : Nat) : (r.topi hart).1 = 0 ∨
    r.eligible hart (claimedIntp (r.topi hart).1) = true := by
  rcases search_cases r hart with ⟨hnone, -⟩ | ⟨i, hsearch, hi, -⟩
  · refine Or.inl ?_
    unfold topi
    dsimp only
    rw [if_neg fun h => h.1 hnone]
  · rw [topi_found hsearch hi]
    split
    · refine Or.inr ?_
      rw [claimedIntp_topiOf (eligible_lt hi).2 (iprio_lt r i)]
      exact hi
    · exact Or.inl rfl

/-- **The search is right** if no source that the hart can take has the priority
`APLIC_MIN_PRIO`. -/
theorem topi_ok (hmin : ∀ i, r.eligible hart i = true → r.iprio i ≠ aplicMinPrio) :
    r.TopiOk hart (r.topi hart).1 ∧ ((r.topi hart).2 = true ↔ r.LineHigh hart (r.topi hart).1) := by
  have hforce : (r.iforce hart && r.idelivery hart && r.domainEnbl) = true ↔
      r.LineHigh hart 0 := by
    unfold LineHigh Takes
    simp only [Bool.and_eq_true]
    grind
  rcases search_cases r hart with ⟨hnone, hall⟩ | ⟨i, hsearch, hi, hfirst⟩
  · have hidle : ∀ i, r.eligible hart i ≠ true := by
      intro i hi
      have hle := hall i hi
      have hlt := iprio_lt r i
      have hne := hmin i hi
      unfold aplicMinPrio at hle hne
      omega
    have htopi : r.topi hart =
        (0, r.iforce hart && r.idelivery hart && r.domainEnbl) := by
      unfold topi
      dsimp only
      rw [if_neg fun h => h.1 hnone]
    rw [htopi]
    exact ⟨Or.inl ⟨rfl, fun i hd => hidle i hd.1⟩, hforce⟩
  · rw [topi_found hsearch hi]
    split
    · rename_i hgo
      have hne := topiOf_ne_zero (eligible_lt hi).1 (eligible_lt hi).2 (iprio_lt r i)
      exact ⟨Or.inr ⟨i, ⟨⟨hi, hgo⟩, fun j hj => hfirst j hj.1⟩, rfl⟩,
        fun _ => Or.inl hne, fun _ => rfl⟩
    · rename_i hstay
      refine ⟨Or.inl ⟨rfl, fun j hj => hstay ⟨?_, hj.2.2⟩⟩, hforce⟩
      -- the best source is above the threshold, so every other one is
      rcases hj.2.1 with hlt | hzero
      · rcases hfirst j hj.1 with hbefore | ⟨heq, -⟩
        · exact Or.inl (hbefore.trans hlt)
        · exact Or.inl (heq ▸ hlt)
      · exact Or.inr hzero

theorem Before.trans {i j k : Nat} (h : r.Before i j) (h' : r.Before j k) : r.Before i k := by
  unfold Before at *
  omega

/-- The source to deliver stays, if it can still be delivered, and every source
that can be delivered now could be before, or goes after one that could. -/
theorem TopiOk.transfer {r' : Vaplic} {t : BitVec 32} (h : r.TopiOk hart t)
    (hkept : ∀ i, r.Chosen hart i → t = topiOf i (r.iprio i) → r'.Deliverable hart i)
    (hback : ∀ i, r'.Deliverable hart i → r'.iprio i = r.iprio i ∧
      (r.Deliverable hart i ∨ ∃ j, r.Deliverable hart j ∧ r.Before j i)) :
    r'.TopiOk hart t := by
  rcases h with ⟨hzero, hnone⟩ | ⟨i, hchosen, htopi⟩
  · refine Or.inl ⟨hzero, fun i hi => ?_⟩
    rcases (hback i hi).2 with hold | ⟨j, hold, -⟩
    · exact hnone i hold
    · exact hnone j hold
  · have hi := hkept i hchosen htopi
    have hprio := (hback i hi).1
    refine Or.inr ⟨i, ⟨hi, fun j hj => ?_⟩, by rw [htopi, hprio]⟩
    obtain ⟨hprio', hold⟩ := hback j hj
    have hbefore : r.Before i j := by
      rcases hold with hold | ⟨k, hold, hkj⟩
      · exact hchosen.first j hold
      · exact (hchosen.first k hold).trans hkj
    unfold Before at hbefore ⊢
    rw [hprio, hprio']
    exact hbefore

end Vaplic

/-! ## What an operation takes away from a hart -/

variable (P : VaplicPlat) in
/-- An operation does not make a source inactive, disable it or clear it without
an update of its hart. -/
def VaplicEvent.Spares (s : VaplicState) (e : VaplicEvent) (i : Nat) : Prop :=
  let r := s.regs
  match e.op with
  | .setSourcecfg j newVal =>
      j = i → r.srccfg j ≠ newVal → newSourcecfg P e.reads j newVal = 0 → r.hartIndex i = 0
  | .setClrie reg newVal =>
      reg = i / 32 → (newVal &&& r.active reg).getLsbD (i % 32) = true →
        r.WordAt reg (r.ip reg &&& ~~~(newVal &&& r.active reg)) (r.hartIndex i)
  | .getClaimi idc =>
      idc < P.idcNum → claimedIntp (r.topiClaimi idc) = i → r.hartIndex i = idc
  | _ => True

instance VaplicEvent.decidableSpares (P : VaplicPlat) (s : VaplicState) (e : VaplicEvent)
    (i : Nat) : Decidable (e.Spares P s i) := by
  obtain ⟨v, op, a⟩ := e
  unfold VaplicEvent.Spares
  rcases op with _ | _ <;> infer_instance

variable {P : VaplicPlat} {s : VaplicState} {e : VaplicEvent} {r : Vaplic} {hart i : Nat}

theorem Vaplic.eligible_of {r' : Vaplic} (hi : r.eligible hart i = true)
    (htarget : r'.target i = r.target i) (hip : bit r'.ip i = true) (hie : bit r'.ie i = true) :
    r'.eligible hart i = true := by
  obtain ⟨hat, hvalid, -, -⟩ := Vaplic.eligible_iff.mp hi
  refine Vaplic.eligible_iff.mpr ⟨?_, hvalid, hip, hie⟩
  rw [← hat]
  unfold Vaplic.hartIndex Vaplic.getTarget
  rw [htarget]

theorem hartIndex_newTarget (haplic : P.irqc = .aplic) {a : AplicReads} {newVal : BitVec 32}
    (hvalid : vaplicIntpValid i = true) :
    Vaplic.hartIndex { r with target := atCpu r.target i (newTarget P a i newVal) } i =
      targetHart P newVal := by
  have hhart : targetHart P newVal < 2 ^ 14 := by
    unfold targetHart
    dsimp only
    split
    · exact Nat.mod_lt _ (by decide)
    · decide
  have hprio : (targetPrio P a i newVal).toNat < 2 ^ 8 := BitVec.isLt _
  unfold Vaplic.hartIndex Vaplic.getTarget newTarget
  rw [if_pos hvalid, haplic]
  dsimp only
  rw [atCpu_same, BitVec.toNat_ofNat]
  omega

theorem Vaplic.eligible_guarded {c : Prop} [Decidable c] {r' : Vaplic}
    (hi : r.eligible hart i = true) (h : c → r'.eligible hart i = true) :
    (if c then r' else r).eligible hart i = true := by
  split
  · rename_i hc
    exact h hc
  · exact hi

theorem Vaplic.eligible_withIp {ip : Nat → BitVec 32} (hi : r.eligible hart i = true)
    (hip : bit ip i = true) : Vaplic.eligible { r with ip := ip } hart i = true :=
  Vaplic.eligible_of hi rfl hip (Vaplic.eligible_iff.mp hi).2.2.2

theorem Vaplic.eligible_withIe {ie : Nat → BitVec 32} (hi : r.eligible hart i = true)
    (hie : bit ie i = true) : Vaplic.eligible { r with ie := ie } hart i = true :=
  Vaplic.eligible_of hi rfl (Vaplic.eligible_iff.mp hi).2.2.1 hie

theorem applySourcecfg_eligible {j : Nat} {v : BitVec 32} (hi : r.eligible hart i = true)
    (hne : v = 0 → i ≠ j) : (applySourcecfg j v r).eligible hart i = true := by
  obtain ⟨-, -, hip, hie⟩ := Vaplic.eligible_iff.mp hi
  unfold applySourcecfg
  dsimp only
  split
  · rename_i hzero
    exact Vaplic.eligible_of hi (atCpu_other _ _ (hne hzero))
      ((bit_clearBit_iff (by decide)).mpr ⟨hip, hne hzero⟩)
      ((bit_clearBit_iff (by decide)).mpr ⟨hie, hne hzero⟩)
  · exact Vaplic.eligible_of hi rfl hip hie

theorem applySourcecfg_hartIndex {v : BitVec 32} (hvalid : vaplicIntpValid i = true)
    (hzero : v = 0) : (applySourcecfg i v r).hartIndex i = 0 := by
  unfold applySourcecfg Vaplic.hartIndex Vaplic.getTarget
  rw [if_pos hvalid]
  dsimp only
  rw [if_pos hzero]
  dsimp only
  rw [atCpu_same]
  rfl

theorem applyClaim_eligible {idc : Nat} (hi : r.eligible hart i = true)
    (hne : i ≠ claimedIntp (r.topiClaimi idc)) : (applyClaim idc r).eligible hart i = true := by
  obtain ⟨-, -, hip, hie⟩ := Vaplic.eligible_iff.mp hi
  have hclear := (bit_clearBit_iff (by decide)).mpr ⟨hip, hne⟩
  unfold applyClaim
  dsimp only
  split
  · exact Vaplic.eligible_of hi rfl hclear hie
  · exact Vaplic.eligible_of hi rfl hclear hie

/-- **What is spared stays.**  A source that a hart can take stays so if the
operation spares it and does not update the hart. -/
theorem eligible_change (haplic : P.irqc = .aplic) (hi : s.regs.eligible hart i = true)
    (hspared : e.Spares P s i) (hnot : ¬ e.Refreshes P s hart) :
    (e.change P s).eligible hart i = true := by
  obtain ⟨v, op, a⟩ := e
  obtain ⟨hat, hvalid, hip, hie⟩ := Vaplic.eligible_iff.mp hi
  have hword : i / 32 * 32 + i % 32 = i := by omega
  have hinject : ∀ j, (if vaplicCanPend j s.regs then
      { s.regs with ip := setBit s.regs.ip j } else s.regs).eligible hart i = true := by
    intro j
    exact Vaplic.eligible_guarded hi fun _ =>
      Vaplic.eligible_withIp hi ((bit_setBit_iff (by decide)).mpr (Or.inl hip))
  cases op with
  | setDomaincfg newVal => exact absurd trivial hnot
  | setSourcecfg j newVal =>
    refine Vaplic.eligible_guarded hi fun hnew => applySourcecfg_eligible hi fun hzero heq => ?_
    -- the source would go to hart 0, which is spared only if it is there already
    have hhart := hspared heq.symm hnew.2 hzero
    refine hnot ⟨hnew, ?_⟩
    unfold VaplicEvent.change
    dsimp only
    rw [if_pos hnew, applySourcecfg_hartIndex hnew.1 hzero, ← hat, hhart]
  | setSetip reg newVal =>
    exact Vaplic.eligible_guarded hi fun _ => Vaplic.eligible_withIp hi (bit_put_or hip)
  | setSetipnum newVal => exact hinject _
  | setInClrip reg newVal =>
    refine Vaplic.eligible_guarded hi fun hreg => Vaplic.eligible_withIp hi ?_
    refine bit_put_kept hip fun heq => ?_
    by_contra hgone
    refine hnot ⟨hreg, i % 32, Nat.mod_lt _ (by decide), ?_, ?_⟩
    · unfold bit at hip
      rw [BitVec.getLsbD_and, BitVec.getLsbD_not, Bool.eq_false_of_not_eq_true hgone, ← heq, hip]
      simp [Nat.mod_lt]
    · rw [← heq, hword]
      exact hat
  | setClripnum newVal =>
    refine Vaplic.eligible_guarded hi fun hpend => ?_
    split
    · exact hi
    · have hne : i ≠ newVal.toNat := fun heq => hnot ⟨hpend, heq ▸ hat⟩
      exact Vaplic.eligible_withIp hi ((bit_clearBit_iff (by decide)).mpr ⟨hip, hne⟩)
  | setSetie reg newVal =>
    exact Vaplic.eligible_guarded hi fun _ => Vaplic.eligible_withIe hi (bit_put_or hie)
  | setSetienum newVal =>
    exact Vaplic.eligible_guarded hi fun _ =>
      Vaplic.eligible_withIe hi ((bit_setBit_iff (by decide)).mpr (Or.inl hie))
  | setClrie reg newVal =>
    refine Vaplic.eligible_guarded hi fun hreg => Vaplic.eligible_withIe hi ?_
    refine bit_put_kept hie fun heq => ?_
    have hkept : (newVal &&& s.regs.active reg).getLsbD (i % 32) = false := by
      by_contra hgone
      have hupd := hspared heq.symm (Bool.eq_true_of_not_eq_false hgone)
      rw [hat] at hupd
      exact hnot ⟨hreg, hupd⟩
    unfold bit at hie
    rw [BitVec.getLsbD_and, BitVec.getLsbD_not, hkept, ← heq, hie]
    simp [Nat.mod_lt]
  | setClrienum newVal =>
    refine Vaplic.eligible_guarded hi fun hnew => ?_
    have hne : i ≠ newVal.toNat := fun heq => hnot ⟨hnew, heq ▸ hat⟩
    exact Vaplic.eligible_withIe hi ((bit_clearBit_iff (by decide)).mpr ⟨hie, hne⟩)
  | setTarget j newVal =>
    refine Vaplic.eligible_guarded hi fun hnew => ?_
    have hne : i ≠ j := by
      intro heq
      have hnew' : VaplicEvent.change P s ⟨v, .setTarget j newVal, a⟩ =
          { s.regs with target := atCpu s.regs.target j (newTarget P a j newVal) } := if_pos hnew
      refine hnot ⟨hnew, ?_⟩
      rw [hnew', hartIndex_newTarget haplic (heq ▸ hvalid)]
      by_cases hmoved : s.regs.hartIndex j = targetHart P newVal
      · exact Or.inr (hmoved.symm.trans (heq ▸ hat))
      · exact Or.inl ⟨hmoved, heq ▸ hat⟩
    exact Vaplic.eligible_of hi (atCpu_other _ _ hne) hip hie
  | setIdelivery idc newVal =>
    exact Vaplic.eligible_guarded hi fun _ => Vaplic.eligible_of hi rfl hip hie
  | setIforce idc newVal =>
    exact Vaplic.eligible_guarded hi fun _ => Vaplic.eligible_of hi rfl hip hie
  | setIthreshold idc newVal =>
    exact Vaplic.eligible_guarded hi fun _ => Vaplic.eligible_of hi rfl hip hie
  | getClaimi idc =>
    refine Vaplic.eligible_guarded hi fun hlt => applyClaim_eligible hi fun heq => ?_
    exact hnot ((hspared hlt heq.symm).symm.trans hat)
  | inject j => exact hinject j
  | _ => exact hi

end Bao

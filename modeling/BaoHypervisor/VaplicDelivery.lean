import BaoHypervisor.VaplicClaims

/-!
# The `topi` registers of the vAPLIC

Whenever no update is on its way, the `topi` register of every hart is the source
to deliver and its line follows it, in runs that avoid four things: a source named
in a register is not disabled behind its hart's back (`KeepsNamed`), no target is
given the priority that the search starts from, and a write to `in_clrip`, which
may make sources pending but updates the harts of cleared ones only, makes no source pending
that its hart has to take first.
-/

namespace Bao

open StepSystem (Meets runBy)
open WordRegs (bit put setBit clearBit bit_put bit_setBit_iff bit_clearBit_iff)

/-- The `topi` register and the line of a hart are right, if no target has the
priority that the search starts from. -/
def Vaplic.Right (r : Vaplic) (line : Bool) (hart : Nat) : Prop :=
  (∀ i, r.iprio i ≠ aplicMinPrio) →
    r.TopiOk hart (r.topiClaimi hart) ∧ (line = true ↔ r.LineHigh hart (r.topiClaimi hart))

theorem right_law : UpdateLaw Vaplic.Right where
  own := by
    intro r h hmin
    dsimp only
    rw [atCpu_same]
    exact Vaplic.topi_ok fun i _ => hmin i
  other := by
    intro r l h v t hne hright hmin
    dsimp only
    rw [atCpu_other _ _ hne]
    obtain ⟨htopi, hline⟩ := hright hmin
    exact ⟨htopi.transfer (fun _ hi _ => hi.deliverable) fun _ hi => ⟨rfl, Or.inl hi⟩, hline⟩

variable (P : VaplicPlat)

/-- A source that becomes pending because the physical APLIC has it pending when
its word of `in_clrip` is written. -/
def VaplicEvent.Finds (s : VaplicState) (e : VaplicEvent) (i : Nat) : Prop :=
  match e.op with
  | .setInClrip reg _ =>
      reg < aplicNumSetixRegs ∧ reg = i / 32 ∧
        bit s.regs.ip i = false ∧ bit e.reads.pend i = true
  | _ => False

instance VaplicEvent.decidableFinds (s : VaplicState) (e : VaplicEvent) (i : Nat) :
    Decidable (e.Finds s i) := by
  obtain ⟨v, op, a⟩ := e
  unfold VaplicEvent.Finds
  rcases op with _ | _ <;> infer_instance

/-- A hart need not take a source first: it does not let it through, or can take
one that goes before it. -/
def Vaplic.Waits (r : Vaplic) (i : Nat) : Prop :=
  ¬ (r.getEnbl i = true ∧ r.Below (r.hartIndex i) i ∧ r.Takes (r.hartIndex i)) ∨
    ∃ j, j < aplicMaxInterrupts ∧ r.Deliverable (r.hartIndex i) j ∧ r.Before j i

instance Vaplic.decidableWaits (r : Vaplic) (i : Nat) : Decidable (r.Waits i) :=
  inferInstanceAs (Decidable (_ ∨ ∃ j, j < aplicMaxInterrupts ∧ _))

/-- No target is given the priority that the search starts from, and a source
found pending waits for another one, or its hart is updated. -/
def VaplicEvent.KeepsOrder (s : VaplicState) (e : VaplicEvent) : Prop :=
  match e.op with
  | .setTarget i newVal =>
      s.regs.getActive i = true → (targetPrio P e.reads i newVal).toNat ≠ aplicMinPrio
  | .setInClrip reg newVal =>
      ∀ k, k < 32 → e.Finds s (reg * 32 + k) →
        s.regs.Waits (reg * 32 + k) ∨
          s.regs.hartIndex (reg * 32 + k) ∈
            s.inbox (P.physId (s.regs.hartIndex (reg * 32 + k))) ∨
          s.regs.WordAt reg (s.regs.ip reg &&& ~~~(clearedIp e.reads reg newVal s.regs))
            (s.regs.hartIndex (reg * 32 + k))
  | _ => True

instance VaplicEvent.decidableKeepsOrder (s : VaplicState) (e : VaplicEvent) :
    Decidable (e.KeepsOrder P s) := by
  obtain ⟨v, op, a⟩ := e
  unfold VaplicEvent.KeepsOrder
  rcases op with _ | _ <;> infer_instance

variable {P} {s : VaplicState} {e : VaplicEvent} {r r' : Vaplic} {hart i : Nat}

/-! ## What an operation gives a hart -/

theorem Vaplic.eligible_mono (hi : r'.eligible hart i = true) (htarget : r'.target i = r.target i)
    (hip : bit r'.ip i = true → bit r.ip i = true)
    (hie : bit r'.ie i = true → bit r.ie i = true) : r.eligible hart i = true := by
  obtain ⟨-, -, hip', hie'⟩ := Vaplic.eligible_iff.mp hi
  exact Vaplic.eligible_of hi htarget.symm (hip hip') (hie hie')

/-- A source of the new registers was one of the old ones, with the same target,
or `q`. -/
def Vaplic.Was (r' r : Vaplic) (hart i : Nat) (q : Prop) : Prop :=
  r'.eligible hart i = true → r'.target i = r.target i ∧ (r.eligible hart i = true ∨ q)

theorem Vaplic.Was.refl (r : Vaplic) (hart i : Nat) (q : Prop) : r.Was r hart i q :=
  fun hi => ⟨rfl, Or.inl hi⟩

theorem Vaplic.Was.of_le {q : Prop} (htarget : r'.target i = r.target i)
    (hip : bit r'.ip i = true → bit r.ip i = true) (hie : bit r'.ie i = true → bit r.ie i = true) :
    r'.Was r hart i q :=
  fun hi => ⟨htarget, Or.inl (Vaplic.eligible_mono hi htarget hip hie)⟩

theorem Vaplic.Was.guarded {c : Prop} [Decidable c] {q : Prop} (h : c → r'.Was r hart i q) :
    (if c then r' else r).Was r hart i q := by
  split
  · rename_i hc
    exact h hc
  · exact .refl r hart i q

theorem or_new {w x : BitVec 32} {k : Nat} (hk : k < 32) (hset : (w ||| x).getLsbD k = true)
    (hold : ¬ w.getLsbD k = true) : (~~~w &&& x).getLsbD k = true := by
  rw [BitVec.getLsbD_or, Bool.eq_false_of_not_eq_true hold, Bool.false_or] at hset
  rw [BitVec.getLsbD_and, BitVec.getLsbD_not, Bool.eq_false_of_not_eq_true hold, hset]
  simp [hk]

theorem bit_of_clearBit {w : Nat → BitVec 32} {j : Nat} (h : bit (clearBit w j) i = true) :
    bit w i = true :=
  ((bit_clearBit_iff (by decide)).mp h).1

/-- **What is new is updated.**  A source that a hart can take after an operation
that does not update it has kept its target, and could be taken before, or was
found pending by the write to `in_clrip`. -/
theorem eligible_before (hnot : ¬ e.Refreshes P s hart) :
    (e.change P s).Was s.regs hart i (e.Finds s i ∧ bit s.regs.ie i = true) := by
  obtain ⟨v, op, a⟩ := e
  have hword : i / 32 * 32 + i % 32 = i := by omega
  have hlt : i % 32 < 32 := Nat.mod_lt _ (by decide)
  have hinject : ∀ j q, ¬ (vaplicCanPend j s.regs = true ∧ s.regs.hartIndex j = hart) →
      (if vaplicCanPend j s.regs then
        { s.regs with ip := setBit s.regs.ip j } else s.regs).Was s.regs hart i q := by
    intro j q hnot
    refine .guarded fun hcan hi => ⟨rfl, Or.inl (Vaplic.eligible_mono hi rfl (fun hip => ?_) id)⟩
    change bit (setBit s.regs.ip j) i = true at hip
    rcases (bit_setBit_iff (by decide)).mp hip with hip | heq
    · exact hip
    · exact absurd ⟨hcan, heq ▸ (Vaplic.eligible_iff.mp hi).1⟩ hnot
  cases op with
  | setDomaincfg newVal => exact absurd trivial hnot
  | setSourcecfg j newVal =>
    refine .guarded fun _ => ?_
    unfold applySourcecfg
    dsimp only
    split
    · intro hi
      have hip : bit (clearBit s.regs.ip j) i = true := (Vaplic.eligible_iff.mp hi).2.2.1
      have hne : i ≠ j := ((bit_clearBit_iff (by decide)).mp hip).2
      exact Vaplic.Was.of_le (atCpu_other _ _ hne) bit_of_clearBit bit_of_clearBit hi
    · exact .of_le rfl id id
  | setSetip reg newVal =>
    refine .guarded fun hreg hi => ⟨rfl, Or.inl (Vaplic.eligible_mono hi rfl (fun hip => ?_) id)⟩
    change bit (put s.regs.ip reg _) i = true at hip
    rw [bit_put] at hip
    split at hip
    · rename_i heq
      by_contra hold
      unfold bit at hold
      rw [heq] at hold hword
      refine hnot ⟨hreg, i % 32, hlt, or_new hlt hip hold, ?_⟩
      rw [hword]
      exact (Vaplic.eligible_iff.mp hi).1
    · exact hip
  | setSetipnum newVal => exact hinject _ _ hnot
  | setInClrip reg newVal =>
    refine .guarded fun hreg hi => ?_
    cases hold : bit s.regs.ip i with
    | true => exact Vaplic.Was.of_le rfl (fun _ => hold) id hi
    | false =>
      have hip : bit (put s.regs.ip reg (clearedIp a reg newVal s.regs)) i = true :=
        (Vaplic.eligible_iff.mp hi).2.2.1
      rw [bit_put] at hip
      split at hip
      · rename_i heq
        refine ⟨rfl, Or.inr ⟨⟨hreg, heq.symm, hold, ?_⟩, (Vaplic.eligible_iff.mp hi).2.2.2⟩⟩
        unfold clearedIp at hip
        unfold bit at hold ⊢
        rw [← heq, BitVec.getLsbD_or, BitVec.getLsbD_and, hold, Bool.false_and,
          Bool.false_or] at hip
        exact hip
      · rw [hold] at hip
        cases hip
  | setClripnum newVal =>
    refine .guarded fun _ => ?_
    split
    · exact .refl _ _ _ _
    · exact .of_le rfl bit_of_clearBit id
  | setSetie reg newVal =>
    refine .guarded fun hnew hi => ⟨rfl, Or.inl (Vaplic.eligible_mono hi rfl id fun hie => ?_)⟩
    change bit (put s.regs.ie reg _) i = true at hie
    rw [bit_put] at hie
    split at hie
    · rename_i heq
      by_contra hold
      unfold bit at hold
      rw [heq] at hold hword
      refine hnot ⟨hnew, i % 32, hlt, or_new hlt hie hold, ?_⟩
      rw [hword]
      exact (Vaplic.eligible_iff.mp hi).1
    · exact hie
  | setSetienum newVal =>
    refine .guarded fun hnew hi => ⟨rfl, Or.inl (Vaplic.eligible_mono hi rfl id fun hie => ?_)⟩
    change bit (setBit s.regs.ie newVal.toNat) i = true at hie
    rcases (bit_setBit_iff (by decide)).mp hie with hie | heq
    · exact hie
    · exact absurd ⟨hnew, heq ▸ (Vaplic.eligible_iff.mp hi).1⟩ hnot
  | setClrie reg newVal =>
    refine .guarded fun _ => .of_le rfl id fun hie => ?_
    change bit (put s.regs.ie reg _) i = true at hie
    rw [bit_put] at hie
    split at hie
    · rename_i heq
      rw [BitVec.getLsbD_and, Bool.and_eq_true_iff, ← heq] at hie
      exact hie.1
    · exact hie
  | setClrienum newVal => exact .guarded fun _ => .of_le rfl id bit_of_clearBit
  | setTarget j newVal =>
    refine .guarded fun hnew hi => ?_
    have hne : i ≠ j := by
      intro heq
      have hnew' : VaplicEvent.change P s ⟨v, .setTarget j newVal, a⟩ =
          { s.regs with target := atCpu s.regs.target j (newTarget P a j newVal) } := if_pos hnew
      refine hnot ⟨hnew, Or.inr ?_⟩
      rw [hnew', ← heq]
      rw [← heq] at hi
      exact (Vaplic.eligible_iff.mp hi).1
    exact Vaplic.Was.of_le (atCpu_other _ _ hne) id id hi
  | setIdelivery idc newVal => exact .guarded fun _ => .of_le rfl id id
  | setIforce idc newVal => exact .guarded fun _ => .of_le rfl id id
  | setIthreshold idc newVal => exact .guarded fun _ => .of_le rfl id id
  | getClaimi idc =>
    refine .guarded fun _ => ?_
    unfold applyClaim
    dsimp only
    split
    · exact .of_le rfl bit_of_clearBit id
    · exact .of_le rfl bit_of_clearBit id
  | inject j => exact hinject j _ hnot
  | _ => exact .refl _ _ _ _

/-- What lets interrupts through to a hart changes only when the hart is
updated. -/
theorem change_gates (hnot : ¬ e.Refreshes P s hart) :
    (e.change P s).idelivery hart = s.regs.idelivery hart ∧
      (e.change P s).iforce hart = s.regs.iforce hart ∧
      (e.change P s).ithreshold hart = s.regs.ithreshold hart ∧
      (e.change P s).domaincfg = s.regs.domaincfg := by
  obtain ⟨v, op, a⟩ := e
  unfold VaplicEvent.change
  cases op with
  | setDomaincfg newVal => exact absurd trivial hnot
  | setSourcecfg j newVal =>
    unfold applySourcecfg
    dsimp only
    split
    · split <;> exact ⟨rfl, rfl, rfl, rfl⟩
    · exact ⟨rfl, rfl, rfl, rfl⟩
  | setClripnum newVal =>
    dsimp only
    split
    · split <;> exact ⟨rfl, rfl, rfl, rfl⟩
    · exact ⟨rfl, rfl, rfl, rfl⟩
  | setIdelivery idc newVal =>
    dsimp only
    split
    · exact ⟨atCpu_other _ _ fun heq => hnot heq.symm, rfl, rfl, rfl⟩
    · exact ⟨rfl, rfl, rfl, rfl⟩
  | setIforce idc newVal =>
    dsimp only
    split
    · exact ⟨rfl, atCpu_other _ _ fun heq => hnot heq.symm, rfl, rfl⟩
    · exact ⟨rfl, rfl, rfl, rfl⟩
  | setIthreshold idc newVal =>
    dsimp only
    split
    · exact ⟨rfl, rfl, atCpu_other _ _ fun heq => hnot heq.symm, rfl⟩
    · exact ⟨rfl, rfl, rfl, rfl⟩
  | getClaimi idc =>
    unfold applyClaim
    dsimp only
    split
    · split
      · exact ⟨rfl, atCpu_other _ _ fun heq => hnot heq.symm, rfl, rfl⟩
      · exact ⟨rfl, rfl, rfl, rfl⟩
    · exact ⟨rfl, rfl, rfl, rfl⟩
  | _ =>
    first | exact ⟨rfl, rfl, rfl, rfl⟩ | (dsimp only; split <;> exact ⟨rfl, rfl, rfl, rfl⟩)

/-! ## Priorities -/

/-- No target has the priority that the search starts from. -/
def Vaplic.NoMinPrio (r : Vaplic) : Prop := ∀ i, r.iprio i ≠ aplicMinPrio

theorem iprio_newTarget (haplic : P.irqc = .aplic) {a : AplicReads} {newVal : BitVec 32} {j : Nat} :
    (newTarget P a j newVal).toNat % 2 ^ 8 = (targetPrio P a j newVal).toNat := by
  have hprio : (targetPrio P a j newVal).toNat < 2 ^ 8 := BitVec.isLt _
  unfold newTarget
  rw [haplic]
  dsimp only
  rw [BitVec.toNat_ofNat]
  omega

theorem change_target (j : Nat) : (e.change P s).target j = s.regs.target j ∨
    (e.change P s).target j = 0 ∨
    ∃ newVal, e.op = .setTarget j newVal ∧ s.regs.getActive j = true ∧
      (e.change P s).target j = newTarget P e.reads j newVal := by
  obtain ⟨v, op, a⟩ := e
  unfold VaplicEvent.change
  cases op with
  | setSourcecfg k newVal =>
    unfold applySourcecfg
    dsimp only
    split
    · split
      · by_cases heq : j = k
        · rw [heq]
          exact Or.inr (Or.inl (atCpu_same _ _ _))
        · exact Or.inl (atCpu_other _ _ heq)
      · exact Or.inl rfl
    · exact Or.inl rfl
  | setClripnum newVal =>
    dsimp only
    split
    · split <;> exact Or.inl rfl
    · exact Or.inl rfl
  | setTarget k newVal =>
    dsimp only
    split
    · rename_i hnew
      by_cases heq : j = k
      · rw [heq]
        exact Or.inr (Or.inr ⟨newVal, rfl, hnew.1, atCpu_same _ _ _⟩)
      · exact Or.inl (atCpu_other _ _ heq)
    · exact Or.inl rfl
  | getClaimi idc =>
    unfold applyClaim
    dsimp only
    split
    · split <;> exact Or.inl rfl
    · exact Or.inl rfl
  | _ => first | exact Or.inl rfl | (dsimp only; split <;> exact Or.inl rfl)

theorem Vaplic.NoMinPrio.change (h : s.regs.NoMinPrio) (haplic : P.irqc = .aplic)
    (hkeeps : e.KeepsOrder P s) : (e.change P s).NoMinPrio := by
  intro j
  have hold := h j
  unfold Vaplic.iprio Vaplic.getTarget at hold ⊢
  split
  · rename_i hvalid
    rw [if_pos hvalid] at hold
    rcases change_target (P := P) (e := e) (s := s) j with heq | heq | ⟨newVal, hop, hactive, heq⟩
    · rw [heq]
      exact hold
    · rw [heq]
      decide
    · rw [heq, iprio_newTarget haplic]
      unfold VaplicEvent.KeepsOrder at hkeeps
      rw [hop] at hkeeps
      exact hkeeps hactive
  · decide

theorem noMinPrio_kept : KeptByUpdates P fun s => s.regs.NoMinPrio := by
  intro s v vhart h
  rcases vaplicUpdateHartLine_cases (P := P) (v := v) (s := s) vhart with heq | heq | ⟨heq, -⟩
  · rw [heq]
    exact h
  · rw [heq]
    exact h
  · rw [heq]
    exact h

/-! ## Runs -/

theorem Vaplic.iprio_of_target (htarget : r'.target i = r.target i) : r'.iprio i = r.iprio i := by
  unfold Vaplic.iprio Vaplic.getTarget
  rw [htarget]

theorem Vaplic.hartIndex_of_target (htarget : r'.target i = r.target i) :
    r'.hartIndex i = r.hartIndex i := by
  unfold Vaplic.hartIndex Vaplic.getTarget
  rw [htarget]

theorem VaplicEvent.KeepsOrder.finds (hkeeps : e.KeepsOrder P s) (hfinds : e.Finds s i) :
    s.regs.Waits i ∨ s.regs.hartIndex i ∈ s.inbox (P.physId (s.regs.hartIndex i)) ∨
      e.Refreshes P s (s.regs.hartIndex i) := by
  obtain ⟨v, op, a⟩ := e
  cases op with
  | setInClrip reg newVal =>
    have hword : reg * 32 + i % 32 = i := by
      have := hfinds.2.1
      omega
    have hk := hkeeps (i % 32) (Nat.mod_lt _ (by decide))
    rw [hword] at hk
    exact (hk hfinds).imp id (Or.imp id fun hat => ⟨hfinds.1, hat⟩)
  | _ => cases hfinds

/-- **The change of registers** keeps the register and the line of a hart right
that is not updated. -/
theorem right_change {line : Bool} (haplic : P.irqc = .aplic) (hnamed : e.KeepsNamed P s)
    (horder : e.KeepsOrder P s) (hmin : s.regs.NoMinPrio) (hnot : ¬ e.Refreshes P s hart)
    (hbox : hart ∉ s.inbox (P.physId hart)) (hright : s.regs.Right line hart) :
    (e.change P s).Right line hart := by
  intro _
  obtain ⟨htopi, hline⟩ := hright hmin
  obtain ⟨hdelivery, hforce, hthreshold, hdomain⟩ := change_gates hnot
  have htakes : (e.change P s).Takes hart ↔ s.regs.Takes hart := by
    unfold Vaplic.Takes Vaplic.domainEnbl
    rw [hdelivery, hdomain]
  have hbelow : ∀ i, (e.change P s).target i = s.regs.target i →
      ((e.change P s).Below hart i ↔ s.regs.Below hart i) := by
    intro i htarget
    unfold Vaplic.Below
    rw [hthreshold, Vaplic.iprio_of_target htarget]
  rw [change_topiClaimi]
  constructor
  · apply htopi.transfer
    · intro i hchosen hnames
      obtain ⟨hi, hi_below, hi_takes⟩ := hchosen.deliverable
      have hat := (Vaplic.eligible_iff.mp hi).1
      have hlt := (Vaplic.eligible_lt hi).2
      have hspared : e.Spares P s i := by
        rcases hnamed i hlt with hspared | hunnamed | hmsg
        · exact hspared
        · rw [hat, hnames, Vaplic.claimedIntp_topiOf hlt (Vaplic.iprio_lt _ i)] at hunnamed
          exact absurd rfl hunnamed
        · rw [hat] at hmsg
          exact absurd hmsg hbox
      have hi' := eligible_change haplic hi hspared hnot
      have htarget := (eligible_before hnot hi').1
      exact ⟨hi', (hbelow i htarget).mpr hi_below, htakes.mpr hi_takes⟩
    · intro i ⟨hi, hi_below, hi_takes⟩
      obtain ⟨htarget, hold⟩ := eligible_before hnot hi
      have hi_below := (hbelow i htarget).mp hi_below
      have hi_takes := htakes.mp hi_takes
      refine ⟨Vaplic.iprio_of_target htarget, ?_⟩
      rcases hold with hold | ⟨hfinds, hie⟩
      · exact Or.inl ⟨hold, hi_below, hi_takes⟩
      · have hat := (Vaplic.eligible_iff.mp hi).1
        rw [Vaplic.hartIndex_of_target htarget] at hat
        have hwaits := horder.finds hfinds
        rw [hat] at hwaits
        rcases hwaits with (hwaits | ⟨j, -, hj⟩) | hmsg | href
        · rw [hat] at hwaits
          have henbl : s.regs.getEnbl i = true := by
            unfold Vaplic.getEnbl
            rw [(Vaplic.eligible_iff.mp hi).2.1, hie]
            rfl
          exact absurd ⟨henbl, hi_below, hi_takes⟩ hwaits
        · rw [hat] at hj
          exact Or.inr ⟨j, hj⟩
        · exact absurd hmsg hbox
        · exact absurd href hnot
  · unfold Vaplic.LineHigh at hline ⊢
    rw [hforce, htakes]
    exact hline

/-- Messages are addressed, no target has the priority that the search starts
from, and every hart is right or about to be updated. -/
structure DeliveryOk (P : VaplicPlat) (s : VaplicState) : Prop where
  addressed : Addressed P s
  noMin : s.regs.NoMinPrio
  right : ∀ h, h < P.idcNum → Settled P Vaplic.Right h s

theorem DeliveryOk.boot : DeliveryOk P vaplicBoot where
  addressed := by
    intro cpu j hj
    cases hj
  noMin := by
    intro i
    unfold Vaplic.iprio Vaplic.getTarget
    split
    · change (0#32).toNat % 2 ^ 8 ≠ aplicMinPrio
      decide
    · decide
  right := by
    have htakes : ∀ h, ¬ vaplicBoot.regs.Takes h := fun _ ht => Bool.false_ne_true ht.1
    refine fun h _ => Or.inr fun _ => ⟨Or.inl ⟨rfl, fun i hi => htakes h hi.2.2⟩, ?_⟩
    refine ⟨fun hline => Bool.noConfusion hline, fun hhigh => ?_⟩
    rcases hhigh with hne | hforce
    · exact absurd rfl hne
    · exact absurd hforce.2 (htakes h)

variable (P) in
/-- What a step keeps to: it disables no named source behind its hart's back, and
keeps the order of the sources. -/
def VaplicEvent.KeepsTopi (s : VaplicState) (e : VaplicEvent) : Prop :=
  e.KeepsNamed P s ∧ e.KeepsOrder P s

instance VaplicEvent.decidableKeepsTopi (s : VaplicState) (e : VaplicEvent) :
    Decidable (e.KeepsTopi P s) := inferInstanceAs (Decidable (_ ∧ _))

/-- **The step lemma** for the registers and the lines. -/
theorem DeliveryOk.next (hok : DeliveryOk P s) (haplic : P.irqc = .aplic) (hen : e.enabled P s)
    (hkeeps : e.KeepsTopi P s) : DeliveryOk P (e.next P s) where
  addressed := addressed_step haplic hen hok.addressed
  noMin := VaplicEvent.next_kept haplic noMinPrio_kept hen (hok.noMin.change haplic hkeeps.2)
  right := by
    intro h hlt
    apply settled_step haplic hen right_law hok.addressed hlt (hok.right h hlt)
    intro hnot hbox hright
    exact right_change haplic hkeeps.1 hkeeps.2 hok.noMin hnot hbox hright

/-- **The registers are right** in direct delivery, in runs that keep to this:
whenever no update is on its way, `topi` of every hart is the source to deliver or
0, and the line is high if `topi` is not 0 or an interrupt is forced. -/
theorem vaplic_topi_consistent (haplic : P.irqc = .aplic)
    (hreach : (vaplicSystem P).Reach (VaplicEvent.KeepsTopi P) s)
    (hquiet : ∀ h, h < P.idcNum → s.inbox (P.physId h) = []) :
    ∀ h, h < P.idcNum → s.regs.TopiOk h (s.regs.topiClaimi h) ∧
      (s.line (P.physId h) = true ↔ s.regs.LineHigh h (s.regs.topiClaimi h)) := by
  have hinit : ∀ s, (vaplicSystem P).init s → DeliveryOk P s := by
    intro s hs
    rw [hs]
    exact .boot
  have hstep : ∀ s e s', DeliveryOk P s → VaplicEvent.KeepsTopi P s e →
      (vaplicSystem P).step s e s' → DeliveryOk P s' := by
    intro s e s' hok hkeeps hs
    rw [hs.2]
    exact hok.next haplic hs.1 hkeeps
  have hok := hreach.invariant hinit hstep
  intro h hlt
  rcases hok.right h hlt with hmsg | hright
  · rw [hquiet h hlt] at hmsg
    cases hmsg
  · exact hright hok.noMin

/-- A source that was set up and made pending is named at its hart. -/
theorem vaplic_topi_consistent_pended :
    (runBy (VaplicEvent.next twoHartAplic) sourceSixRun vaplicBoot).regs.topiClaimi 0 =
        Vaplic.topiOf 6 1 ∧
      ∀ h, h < 2 →
        (runBy (VaplicEvent.next twoHartAplic) sourceSixRun vaplicBoot).regs.TopiOk h
          ((runBy (VaplicEvent.next twoHartAplic) sourceSixRun vaplicBoot).regs.topiClaimi h) ∧
        ((runBy (VaplicEvent.next twoHartAplic) sourceSixRun vaplicBoot).line h = true ↔
          (runBy (VaplicEvent.next twoHartAplic) sourceSixRun vaplicBoot).regs.LineHigh h
            ((runBy (VaplicEvent.next twoHartAplic) sourceSixRun vaplicBoot).regs.topiClaimi h)) := by
  have hmeets : Meets (VaplicEvent.enabled twoHartAplic) (VaplicEvent.next twoHartAplic)
      (VaplicEvent.KeepsTopi twoHartAplic) sourceSixRun vaplicBoot := by
    decide +kernel
  have hreach : (vaplicSystem twoHartAplic).Reach (VaplicEvent.KeepsTopi twoHartAplic)
      (runBy (VaplicEvent.next twoHartAplic) sourceSixRun vaplicBoot) := hmeets.fromInit rfl
  have hquiet : ∀ h, h < 2 →
      (runBy (VaplicEvent.next twoHartAplic) sourceSixRun vaplicBoot).inbox h = [] := by
    decide +kernel
  refine ⟨?_, vaplic_topi_consistent rfl hreach hquiet⟩
  decide +kernel

/-- Source 6 is pending at hart 1 when it is made inactive, and hart 0 handles
every update. -/
def inactiveRun : List VaplicEvent :=
  [⟨1, .setDomaincfg 0x100, pendReads 0⟩, ⟨1, .setIdelivery 1 1, pendReads 0⟩,
    ⟨1, .setSourcecfg 6 4, pendReads 0⟩, ⟨1, .setTarget 6 0x40001, pendReads 0⟩,
    ⟨1, .setSetie 0 0x40, pendReads 0⟩, ⟨1, .setSetip 0 0x40, pendReads 0⟩,
    ⟨1, .setSourcecfg 6 0, pendReads 0⟩, ⟨0, .deliver 0, pendReads 0⟩,
    ⟨0, .deliver 0, pendReads 0⟩, ⟨0, .deliver 0, pendReads 0⟩, ⟨0, .deliver 0, pendReads 0⟩]

/-- No update is on its way, and hart 1 still names source 6, which is inactive. -/
theorem inactive_source_named :
    ∃ s, (vaplicSystem twoHartAplic).Reachable s ∧
      (∀ h, h < 2 → s.inbox (twoHartAplic.physId h) = []) ∧
      s.regs.topiClaimi 1 = Vaplic.topiOf 6 1 ∧ s.regs.getActive 6 = false ∧
      ¬ s.regs.TopiOk 1 (s.regs.topiClaimi 1) := by
  have hmeets : Meets (VaplicEvent.enabled twoHartAplic) (VaplicEvent.next twoHartAplic)
      (fun _ _ => True) inactiveRun vaplicBoot := by
    decide +kernel
  have hreach : (vaplicSystem twoHartAplic).Reachable
      (runBy (VaplicEvent.next twoHartAplic) inactiveRun vaplicBoot) := hmeets.fromInit rfl
  have hquiet : ∀ h, h < 2 →
      (runBy (VaplicEvent.next twoHartAplic) inactiveRun vaplicBoot).inbox h = [] := by
    decide +kernel
  have hnamed : (runBy (VaplicEvent.next twoHartAplic) inactiveRun vaplicBoot).regs.topiClaimi 1 =
      Vaplic.topiOf 6 1 := by
    decide +kernel
  have hidle : (runBy (VaplicEvent.next twoHartAplic) inactiveRun vaplicBoot).regs.getActive 6 =
      false := by
    decide +kernel
  have hlost : (runBy (VaplicEvent.next twoHartAplic) inactiveRun vaplicBoot).regs.eligible 1 6 =
      false := by
    decide +kernel
  refine ⟨_, hreach, hquiet, hnamed, hidle, ?_⟩
  rw [hnamed]
  rintro (⟨hzero, -⟩ | ⟨i, hchosen, htopi⟩)
  · exact absurd hzero (by decide)
  · have hi := hchosen.deliverable.1
    have hclaimed := congrArg claimedIntp htopi
    rw [Vaplic.claimedIntp_topiOf (by decide) (by decide),
      Vaplic.claimedIntp_topiOf (Vaplic.eligible_lt hi).2 (Vaplic.iprio_lt _ i)] at hclaimed
    rw [← hclaimed, hlost] at hi
    cases hi

end Bao

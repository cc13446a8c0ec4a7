import BaoHypervisor.VaplicTopi

/-!
# Claims of the vAPLIC

A claim returns the `topi` register of the hart, without looking at the source it
names.  The register names a source that is pending, enabled and targeted at the
hart, unless an update of the hart is on its way, as long as a source named there is
not disabled behind the hart's back: a write to `sourcecfg` looks for the hart of a
source after it has cleared the target, and a write to `clrie` updates the harts of
other sources than those it disables.
-/

namespace Bao

open EventHistory (Since Preceded)
open StepSystem (Meets runBy seenBy)
open WordRegs (bit put setBit clearBit bit_clearBit_iff)

/-- The `topi` register of a hart names no source, or one that the hart can
take. -/
def Vaplic.Named (r : Vaplic) (_ : Bool) (hart : Nat) : Prop :=
  r.topiClaimi hart = 0 ∨ r.eligible hart (claimedIntp (r.topiClaimi hart)) = true

variable (P : VaplicPlat)

/-- The hart of a source does not have it in its `topi` register, or is being
updated. -/
def VaplicState.Unnamed (s : VaplicState) (i : Nat) : Prop :=
  claimedIntp (s.regs.topiClaimi (s.regs.hartIndex i)) ≠ i ∨
    s.regs.hartIndex i ∈ s.inbox (P.physId (s.regs.hartIndex i))

instance VaplicState.decidableUnnamed (s : VaplicState) (i : Nat) :
    Decidable (s.Unnamed P i) :=
  inferInstanceAs (Decidable (_ ∨ _))

/-- Every source is spared, or not named by its hart. -/
def VaplicEvent.KeepsNamed (s : VaplicState) (e : VaplicEvent) : Prop :=
  ∀ i, i < aplicMaxInterrupts → e.Spares P s i ∨ s.Unnamed P i

/-- A claim reads no register that is about to be updated. -/
def VaplicEvent.ReadsFresh (s : VaplicState) (e : VaplicEvent) : Prop :=
  match e.op with
  | .getClaimi idc => idc < P.idcNum → idc ∉ s.inbox (P.physId idc)
  | _ => True

instance VaplicEvent.decidableReadsFresh (s : VaplicState) (e : VaplicEvent) :
    Decidable (e.ReadsFresh P s) := by
  obtain ⟨v, op, a⟩ := e
  unfold VaplicEvent.ReadsFresh
  rcases op with _ | _ <;> infer_instance

instance VaplicEvent.decidableKeepsNamed (s : VaplicState) (e : VaplicEvent) :
    Decidable (e.KeepsNamed P s) := by
  obtain ⟨v, op, a⟩ := e
  rcases op with _ | _ <;>
    first
    | exact .isTrue fun _ _ => Or.inl trivial
    | exact inferInstanceAs (Decidable (∀ i, i < aplicMaxInterrupts → _))

/-- What happened to a source. -/
inductive VaplicAct
  | pended (id : Nat)
  | claimed (hart id : Nat)
deriving DecidableEq

/-- The sources that an operation makes pending. -/
def VaplicEvent.pends (s : VaplicState) (e : VaplicEvent) : List VaplicAct :=
  ((List.range aplicMaxInterrupts).filter fun i =>
    bit (e.next P s).regs.ip i && !bit s.regs.ip i).map .pended

/-- The history with what an operation does to it. -/
def VaplicEvent.observe (s : VaplicState) (e : VaplicEvent) (h : List VaplicAct) :
    List VaplicAct :=
  match e.op with
  | .getClaimi idc =>
      let ret := vaplicGetTopi P idc s
      if ret = 0 then h else .claimed idc (claimedIntp ret) :: h
  | _ => e.pends P s ++ h

/-- A claim of a source. -/
def VaplicAct.Claims (id : Nat) (a : VaplicAct) : Prop := ∃ hart, a = .claimed hart id

variable {P} {s : VaplicState} {e : VaplicEvent} {r : Vaplic} {hart i : Nat}

/-! ## The register of a hart names a source it can take -/

theorem named_law : UpdateLaw Vaplic.Named where
  own r h := by
    unfold Vaplic.Named
    dsimp only
    rw [atCpu_same]
    exact Vaplic.topi_named r h
  other := by
    intro r l h v t hne hg
    unfold Vaplic.Named at hg ⊢
    dsimp only
    rw [atCpu_other _ _ hne]
    exact hg

/-- Reads and updates leave the `topi` registers to the updates. -/
theorem change_topiClaimi : (e.change P s).topiClaimi = s.regs.topiClaimi := by
  obtain ⟨v, op, a⟩ := e
  cases op with
  | setSourcecfg j newVal =>
    unfold VaplicEvent.change applySourcecfg
    dsimp only
    split
    · split <;> rfl
    · rfl
  | setClripnum newVal =>
    unfold VaplicEvent.change
    dsimp only
    split
    · split <;> rfl
    · rfl
  | getClaimi idc =>
    unfold VaplicEvent.change applyClaim
    dsimp only
    split
    · split <;> rfl
    · rfl
  | setDomaincfg newVal => rfl
  | _ =>
    unfold VaplicEvent.change
    first | rfl | (dsimp only; split <;> rfl)

/-- Messages are addressed, and the register of every hart names a source that
the hart can take, unless the hart is about to be updated. -/
structure ClaimsOk (P : VaplicPlat) (s : VaplicState) : Prop where
  addressed : Addressed P s
  named : ∀ h, h < P.idcNum → Settled P Vaplic.Named h s

theorem ClaimsOk.boot : ClaimsOk P vaplicBoot where
  addressed := by
    intro cpu j hj
    cases hj
  named := fun _ _ => Or.inr (Or.inl rfl)

/-- **The step lemma** for the registers of the harts. -/
theorem ClaimsOk.next (hok : ClaimsOk P s) (haplic : P.irqc = .aplic) (hen : e.enabled P s)
    (hkeeps : e.KeepsNamed P s) : ClaimsOk P (e.next P s) where
  addressed := addressed_step haplic hen hok.addressed
  named := by
    intro h hlt
    apply settled_step haplic hen named_law hok.addressed hlt (hok.named h hlt)
    intro hnot hbox hg
    unfold Vaplic.Named
    rw [change_topiClaimi]
    rcases hg with hzero | hi
    · exact Or.inl hzero
    · refine Or.inr (eligible_change haplic hi ?_ hnot)
      have hat := (Vaplic.eligible_iff.mp hi).1
      rcases hkeeps _ (Vaplic.eligible_lt hi).2 with hspared | hunnamed | hmsg
      · exact hspared
      · rw [hat] at hunnamed
        exact absurd rfl hunnamed
      · rw [hat] at hmsg
        exact absurd hmsg hbox

theorem ClaimsOk.claim (hok : ClaimsOk P s) (hfresh : e.ReadsFresh P s) {idc : Nat}
    (hop : e.op = .getClaimi idc) (hret : vaplicGetTopi P idc s ≠ 0) :
    s.regs.eligible idc (claimedIntp (vaplicGetTopi P idc s)) = true := by
  obtain ⟨v, op, a⟩ := e
  dsimp only at hop
  subst hop
  unfold vaplicGetTopi at hret ⊢
  by_cases hlt : idc < P.idcNum
  · rw [if_pos hlt] at hret ⊢
    rcases hok.named idc hlt with hmsg | hzero | hi
    · exact absurd hmsg (hfresh hlt)
    · exact absurd hzero hret
    · exact hi
  · rw [if_neg hlt] at hret
    exact absurd rfl hret

/-! ## The history of a source -/

/-- The pending bits agree with the history. -/
structure EdgeTallied (r : Vaplic) (h : List VaplicAct) : Prop where
  pended : ∀ id, id < aplicMaxInterrupts → bit r.ip id = true →
    Since (VaplicAct.Claims id) (· = .pended id) h
  once : ∀ id, Preceded (VaplicAct.Claims id) (· = .pended id) h

variable {h : List VaplicAct}

theorem pends_claims (id : Nat) : ∀ b ∈ e.pends P s, ¬ b.Claims id := by
  intro b hb hclaims
  obtain ⟨j, -, hj⟩ := List.mem_map.mp hb
  obtain ⟨hart, hclaims⟩ := hclaims
  rw [← hj] at hclaims
  cases hclaims

theorem mem_pends (hlt : i < aplicMaxInterrupts) (hbefore : bit s.regs.ip i = false)
    (hafter : bit (e.next P s).regs.ip i = true) : .pended i ∈ e.pends P s := by
  refine List.mem_map.mpr ⟨i, List.mem_filter.mpr ⟨List.mem_range.mpr hlt, ?_⟩, rfl⟩
  rw [hbefore, hafter]
  rfl

theorem EdgeTallied.other (ht : EdgeTallied s.regs h) :
    EdgeTallied (e.next P s).regs (e.pends P s ++ h) where
  pended := by
    intro id hlt hid
    cases hbefore : bit s.regs.ip id with
    | true => exact (ht.pended id hlt hbefore).append (pends_claims id)
    | false => exact .among (mem_pends hlt hbefore hid) rfl (pends_claims id)
  once := fun id => (ht.once id).append (pends_claims id)

theorem bit_claimed {v idc : Nat} (hid : bit (vaplicGetClaimi P v idc s).2.regs.ip i = true)
    (hlt : idc < P.idcNum) :
    bit s.regs.ip i = true ∧ i ≠ claimedIntp (s.regs.topiClaimi idc) := by
  unfold vaplicGetClaimi at hid
  dsimp only at hid
  rw [if_pos hlt] at hid
  have hip := (vaplicUpdateHart_refreshed _ _).ip i hid
  have hclear : bit (clearBit s.regs.ip (claimedIntp (s.regs.topiClaimi idc))) i = true := by
    rw [VaplicState.updRegs_regs] at hip
    unfold applyClaim at hip
    dsimp only at hip
    split at hip
    · exact hip
    · exact hip
  exact (bit_clearBit_iff (by decide)).mp hclear

theorem EdgeTallied.claim (ht : EdgeTallied s.regs h) {v idc : Nat} {a : AplicReads}
    (hvalid : vaplicGetTopi P idc s ≠ 0 →
      s.regs.eligible idc (claimedIntp (vaplicGetTopi P idc s)) = true) :
    EdgeTallied (vaplicGetClaimi P v idc s).2.regs
      (VaplicEvent.observe P s ⟨v, .getClaimi idc, a⟩ h) := by
  by_cases hlt : idc < P.idcNum
  · have hret : vaplicGetTopi P idc s = s.regs.topiClaimi idc := if_pos hlt
    unfold VaplicEvent.observe
    dsimp only
    rw [hret] at hvalid ⊢
    split
    · exact ⟨fun id hid hbit => ht.pended id hid (bit_claimed hbit hlt).1, ht.once⟩
    · rename_i hne
      have hi := hvalid hne
      constructor
      · intro id hid hbit
        obtain ⟨hbefore, hother⟩ := bit_claimed hbit hlt
        refine (ht.pended id hid hbefore).later fun hclaims => ?_
        obtain ⟨_, hclaims⟩ := hclaims
        cases hclaims
        exact hother rfl
      · intro id
        refine (ht.once id).cons fun hclaims => ?_
        obtain ⟨_, hclaims⟩ := hclaims
        cases hclaims
        exact ht.pended _ (Vaplic.eligible_lt hi).2 (Vaplic.eligible_iff.mp hi).2.2.1
  · have hret : vaplicGetTopi P idc s = 0 := if_neg hlt
    unfold VaplicEvent.observe vaplicGetClaimi
    dsimp only
    rw [hret, if_pos rfl, if_neg hlt]
    exact ht

/-- **Claims are exclusive** in runs that read no register about to be updated
and disable no named source behind its hart's back: what is claimed is pending,
enabled and targeted at the hart, and was made pending after its last claim. -/
theorem vaplic_claims_once (haplic : P.irqc = .aplic)
    (hreach : ((vaplicSystem P).watch [] (VaplicEvent.observe P)).Reach
      (fun p e => e.ReadsFresh P p.1 ∧ e.KeepsNamed P p.1) (s, h)) :
    (∀ id, Preceded (VaplicAct.Claims id) (· = .pended id) h) ∧
      ∀ e : VaplicEvent, e.ReadsFresh P s → ∀ idc ret, e.op = .getClaimi idc →
        e.result P s = some ret → ret ≠ 0 → s.regs.eligible idc (claimedIntp ret) = true := by
  have hinit : ∀ p, ((vaplicSystem P).watch [] (VaplicEvent.observe P)).init p →
      ClaimsOk P p.1 ∧ EdgeTallied p.1.regs p.2 := by
    intro p hp
    rw [hp.1, hp.2]
    refine ⟨.boot, fun id _ hid => ?_, fun id => .nil⟩
    change (0#32).getLsbD (id % 32) = true at hid
    rw [BitVec.getLsbD_zero] at hid
    cases hid
  have hstep : ∀ p e p', ClaimsOk P p.1 ∧ EdgeTallied p.1.regs p.2 →
      (VaplicEvent.ReadsFresh P p.1 e ∧ VaplicEvent.KeepsNamed P p.1 e) →
      ((vaplicSystem P).watch [] (VaplicEvent.observe P)).step p e p' →
      ClaimsOk P p'.1 ∧ EdgeTallied p'.1.regs p'.2 := by
    intro p e p' ⟨hok, ht⟩ ⟨hfresh, hkeeps⟩ ⟨⟨hen, hnext⟩, hobs⟩
    rw [hnext, hobs]
    refine ⟨hok.next haplic hen hkeeps, ?_⟩
    obtain ⟨v, op, a⟩ := e
    cases op with
    | getClaimi idc => exact ht.claim fun hret => hok.claim hfresh rfl hret
    | _ => exact ht.other
  have hinv : ClaimsOk P s ∧ EdgeTallied s.regs h := hreach.invariant hinit hstep
  refine ⟨hinv.2.once, fun e hfresh idc ret hop hresult hret => ?_⟩
  have heq : vaplicGetTopi P idc s = ret := by
    unfold VaplicEvent.result at hresult
    rw [hop] at hresult
    exact Option.some.inj hresult
  rw [← heq] at hret ⊢
  exact hinv.1.claim hfresh hop hret

/-- Source 6 is set up for hart 0 and made pending. -/
def sourceSixRun : List VaplicEvent :=
  [⟨0, .setDomaincfg 0x100, pendReads 0⟩, ⟨1, .deliver 0, pendReads 0⟩,
    ⟨0, .setIdelivery 0 1, pendReads 0⟩, ⟨1, .setIdelivery 1 1, pendReads 0⟩, ⟨0, .setSourcecfg 6 4, pendReads 0⟩,
    ⟨0, .setTarget 6 1, pendReads 0⟩, ⟨0, .setSetie 0 0x40, pendReads 0⟩,
    ⟨0, .setSetip 0 0x40, pendReads 0⟩]

/-- Hart 0 claims source 6, it is made pending again, and hart 1 claims it after
hart 0 has handled the update. -/
def retargetRun : List VaplicEvent :=
  sourceSixRun ++ [⟨0, .getClaimi 0, pendReads 0⟩, ⟨0, .inject 6, pendReads 0⟩,
    ⟨1, .setTarget 6 0x40001, pendReads 0⟩, ⟨0, .deliver 0, pendReads 0⟩,
    ⟨1, .getClaimi 1, pendReads 0⟩]

/-- Two occurrences, each claimed by one hart. -/
theorem vaplic_claims_once_retarget :
    seenBy (VaplicEvent.next twoHartAplic) (VaplicEvent.observe twoHartAplic) retargetRun
      vaplicBoot [] = [.claimed 1 6, .pended 6, .claimed 0 6, .pended 6] ∧
    ∀ id, Preceded (VaplicAct.Claims id) (· = .pended id)
      (seenBy (VaplicEvent.next twoHartAplic) (VaplicEvent.observe twoHartAplic) retargetRun
        vaplicBoot []) := by
  have hmeets : Meets (VaplicEvent.enabled twoHartAplic) (VaplicEvent.next twoHartAplic)
      (fun s e => e.ReadsFresh twoHartAplic s ∧ e.KeepsNamed twoHartAplic s) retargetRun
      vaplicBoot := by
    decide +kernel
  have hreach : ((vaplicSystem twoHartAplic).watch [] (VaplicEvent.observe twoHartAplic)).Reach
      (fun p e => e.ReadsFresh twoHartAplic p.1 ∧ e.KeepsNamed twoHartAplic p.1)
      (runBy (VaplicEvent.next twoHartAplic) retargetRun vaplicBoot,
        seenBy (VaplicEvent.next twoHartAplic) (VaplicEvent.observe twoHartAplic) retargetRun
          vaplicBoot []) :=
    hmeets.watch (fun _ _ _ h => h) (.init ⟨rfl, rfl⟩)
  refine ⟨?_, (vaplic_claims_once rfl hreach).1⟩
  decide +kernel

/-- Hart 1 retargets source 6 to itself and claims it, and hart 0 claims it before
it has handled the update. -/
def claimTwiceRun : List VaplicEvent :=
  sourceSixRun ++ [⟨1, .setTarget 6 0x40001, pendReads 0⟩, ⟨1, .getClaimi 1, pendReads 0⟩,
    ⟨0, .getClaimi 0, pendReads 0⟩]

/-- One occurrence is claimed by two harts: the second claim returns a source
that is not pending, and targeted at the other hart. -/
theorem vaplic_claimed_twice :
    ∃ s h, ((vaplicSystem twoHartAplic).watch [] (VaplicEvent.observe twoHartAplic)).Reachable
        (s, h) ∧ h = [.claimed 0 6, .claimed 1 6, .pended 6] ∧
      ¬ Preceded (VaplicAct.Claims 6) (· = .pended 6) h := by
  have hmeets : Meets (VaplicEvent.enabled twoHartAplic) (VaplicEvent.next twoHartAplic)
      (fun _ _ => True) claimTwiceRun vaplicBoot := by
    decide +kernel
  have hseen : seenBy (VaplicEvent.next twoHartAplic) (VaplicEvent.observe twoHartAplic)
      claimTwiceRun vaplicBoot [] = [.claimed 0 6, .claimed 1 6, .pended 6] := by
    decide +kernel
  have hreach : ((vaplicSystem twoHartAplic).watch [] (VaplicEvent.observe twoHartAplic)).Reachable
      (runBy (VaplicEvent.next twoHartAplic) claimTwiceRun vaplicBoot,
        seenBy (VaplicEvent.next twoHartAplic) (VaplicEvent.observe twoHartAplic) claimTwiceRun
          vaplicBoot []) :=
    hmeets.watch (fun _ _ _ h => h) (.init ⟨rfl, rfl⟩)
  rw [hseen] at hreach
  refine ⟨_, _, hreach, rfl, fun hall => ?_⟩
  obtain ⟨recent, a, older, hsplit, ha, hrecent⟩ :=
    hall [] (.claimed 0 6) [.claimed 1 6, .pended 6] rfl ⟨0, rfl⟩
  cases recent with
  | nil =>
    rw [ha] at hsplit
    cases hsplit
  | cons b recent =>
    obtain ⟨hb, -⟩ := List.cons.inj hsplit
    exact hrecent b List.mem_cons_self ⟨1, hb.symm⟩

end Bao

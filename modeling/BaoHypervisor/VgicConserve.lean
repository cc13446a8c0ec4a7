import BaoHypervisor.VgicSplit

/-!
# List registers conserve interrupts

Beside the vGIC runs the abstract machine of `GicStates`: every deed of the
vGIC is at most one act on one interrupt, moves are none.  The vGIC's state of
each interrupt is the abstract one, except that a physical interrupt that was
written to a list register while pending and active may lack the pending state,
which the physical distributor has then.
-/

namespace Bao

variable (P : VgicPlat)

/-- What a register update says about the state of the interrupt. -/
def fieldAct (reg : VgicReg) (k : IntKey) (data : Nat) : Option GicAct :=
  match reg with
  | .ispendr => if data = 0 ∨ isV2Sgi P k then none else some (.setPending true)
  | .icpendr => if data = 0 ∨ isV2Sgi P k then none else some (.setPending false)
  | .isactiver => if data = 0 then none else some (.setActive true)
  | .icactiver => if data = 0 then none else some (.setActive false)
  | _ => none

/-- What a deed is to a GIC: an act on the interrupt it names, or that the list
register names. -/
def VgicDeed.act (v : Nat) (s : VgicState) : VgicDeed → Option (IntKey × GicAct)
  | .field reg k data _ => (fieldAct P reg k data).map (k, ·)
  | .hw k => some (k, .setPending true)
  | .source k src => some (k, .source src)
  | .unlist k => some (k, .setActive false)
  | .ackLr lrInd =>
      let lr := (s.cpus v).lrs lrInd
      (vgicGetInt P lr.vid v).map fun k =>
        (k, if isV2Sgi P k then .ackSource lr.cpuid else .ack)
  | .deactLr lrInd => (vgicGetInt P ((s.cpus v).lrs lrInd).vid v).map (·, .setActive false)
  | _ => none

/-- The vGIC of a VM beside the abstract machine. -/
def vgicWatch : StepSystem (VgicState × (IntKey → GicInt)) VgicEvent :=
  (vgicSystem P).watch (fun _ => .idle) fun s e g => gicStep ((e.deed P s).act P e.vcpu s) g

/-- A step clears no `in_lr` of an interrupt that a list register holds,
refills none with a physical interrupt that is pending only and disabled, and
takes a physical interrupt when it is not active. -/
def KeepsState (s : VgicState) (e : VgicEvent) : Prop :=
  KeepsRecords P (fun _ => False) s e ∧
    match e.deed P s with
    | .refill k _ =>
        vgicIntIsHw P k = true → (s.ints k).state = .pend → (s.ints k).enabled = true
    | .hw k => (s.ints k).state.active = false
    | _ => True

variable {P}
variable {s s' : VgicState} {v : Nat} {k : IntKey}

theorem VgicDeed.act_congr (d : VgicDeed) (h : (s'.cpus v).lrs = (s.cpus v).lrs) :
    d.act P v s' = d.act P v s := by
  cases d <;> simp only [VgicDeed.act, h]

/-! ## Register updates -/

theorem updateField_sgiPend (reg : VgicReg) (data : Nat) (i : VgicInt) :
    (updateField P reg k data i).sgiPend = i.sgiPend := by
  unfold updateField
  cases reg <;> dsimp only <;> (try split) <;> rfl

theorem updateField_quiet {reg : VgicReg} {data : Nat} (i : VgicInt)
    (h : fieldAct P reg k data = none) : (updateField P reg k data i).state = i.state := by
  unfold updateField
  unfold fieldAct at h
  cases reg <;> dsimp only at h ⊢ <;> split <;> simp_all

theorem updateField_act {reg : VgicReg} {data : Nat} {a : GicAct} (i : VgicInt)
    (h : fieldAct P reg k data = some a) :
    gicOf P k (updateField P reg k data i) none = a.apply (gicOf P k i none) := by
  unfold fieldAct at h
  cases reg with
  | ispendr =>
    dsimp only at h
    split at h
    · cases h
    · rename_i hno
      cases h
      have hsgi : isV2Sgi P k = false := Bool.eq_false_iff.mpr fun hsgi => hno (Or.inr hsgi)
      rw [gicOf_plain hsgi, gicOf_plain hsgi, updateField, if_neg hno]
      rfl
  | icpendr =>
    dsimp only at h
    split at h
    · cases h
    · rename_i hno
      cases h
      have hsgi : isV2Sgi P k = false := Bool.eq_false_iff.mpr fun hsgi => hno (Or.inr hsgi)
      rw [gicOf_plain hsgi, gicOf_plain hsgi, updateField, if_neg hno]
      rfl
  | isactiver =>
    dsimp only at h
    split at h
    · cases h
    · rename_i hno
      cases h
      simp [gicOf, updateField, hno, GicAct.apply, IntState.inv]
  | icactiver =>
    dsimp only at h
    split at h
    · cases h
    · rename_i hno
      cases h
      simp [gicOf, updateField, hno, GicAct.apply, IntState.inv]
  | _ => cases h

theorem updateField_sound (reg : VgicReg) (data : Nat) {i : VgicInt} (h : Sound P k i none)
    (hout : i.inLr = false) : Sound P k (updateField P reg k data i) none where
  idle hin := by
    rw [(updateField_frame (P := P) reg k data i).2.1, hout] at hin
    cases hin
  once lr hheld := by cases hheld
  fixed hsgi := by
    rw [Muted.updateField_fixed hsgi]
    exact h.fixed hsgi
  pend hsgi hp := by
    rw [updateField_sgiPend]
    refine h.pend hsgi ?_
    have hstate : (updateField P reg k data i).state.pending = i.state.pending := by
      unfold updateField
      cases reg <;> dsimp only <;> (try split) <;> simp_all
    rw [← hstate]
    exact hp
  source lr hsgi hheld := by cases hheld

namespace Carries

/-- **One interrupt in no list register acts.** -/
theorem alter (a : Option GicAct) (h : Stored P s) (k : IntKey) {f : VgicInt → VgicInt}
    (hout : (f (s.ints k)).inLr = false) (hfree : heldLr P s k = none)
    (hsound : Sound P k (f (s.ints k)) none)
    (hstate : gicOf P k (f (s.ints k)) none =
      gicStep (a.map (k, ·)) (fun _ => gicOf P k (s.ints k) none) k) :
    Carries P (a.map (k, ·)) s (s.updInt k f) := by
  have hint := VgicState.updInt_ints_same s k f
  have hne : ∀ k', k' ≠ k → (s.updInt k f).ints k' = s.ints k' :=
    fun k' hk => VgicState.updInt_ints_ne s f hk
  have hnone : heldLr P (s.updInt k f) k = none := heldLr_out (by rw [hint]; exact hout)
  refine change a h k (.ofSame (fun _ => rfl) fun _ _ => Or.inl rfl) rfl
    (fun k' hk => ⟨hne k' hk, ?_⟩) ?_ ?_ ?_
  · refine heldLr_congr ?_ ?_ ?_ (fun _ _ _ => Or.inl rfl) <;> rw [hne k' hk]
  · intro hin
    rw [hint, hout] at hin
    cases hin
  · rw [hnone, hint]
    exact hsound
  · rw [gicState, hnone, hint, hstate]
    cases a with
    | none => rw [Option.map_none, gicStep_none, gicStep_none, gicState, hfree]
    | some a => rw [Option.map_some, gicStep_same, gicStep_same, gicState, hfree]

/-- **A register update** of an interrupt in no list register. -/
theorem applyField (h : Stored P s) (reg : VgicReg) (k : IntKey) (data : Nat)
    (tag : Option WriteTag) (hout : (s.ints k).inLr = false) :
    Carries P ((fieldAct P reg k data).map (k, ·)) s (applyField P reg k data tag s) := by
  have hfree : heldLr P s k = none := heldLr_out hout
  have hsound := h.sound k
  rw [hfree] at hsound
  have hupd : Carries P ((fieldAct P reg k data).map (k, ·)) s
      (s.updInt k (updateField P reg k data)) := by
    refine alter _ h k ?_ hfree (updateField_sound reg data hsound hout) ?_
    · rw [(updateField_frame (P := P) reg k data _).2.1]
      exact hout
    · cases hact : fieldAct P reg k data with
      | none =>
        rw [Option.map_none, gicStep_none]
        exact gicOf_congr (updateField_quiet _ hact) (updateField_sgiPend reg data _) none
      | some a =>
        rw [Option.map_some, gicStep_same]
        exact updateField_act _ hact
  have hlog : Quiet 0 (s.updInt k (updateField P reg k data))
      (Bao.applyField P reg k data tag s) :=
    ⟨rfl, rfl, rfl, rfl, rfl, rfl, rfl, fun _ _ => rfl⟩
  exact hupd.trans_none (quiet hupd.stored hlog)

theorem sameReg_zero {lrInd : Nat} (hinv : ((s.cpus v).lrs lrInd).state = .inv) (w i : Nat) :
    SameReg ((s.cpus w).lrs i) (((s.gichWriteLr v lrInd .zero).cpus w).lrs i) := by
  rw [gichWriteLr_reg]
  split
  · rename_i hhere
    refine Or.inr ⟨?_, rfl⟩
    rw [hhere.1, hhere.2]
    exact hinv
  · exact Or.inl rfl

theorem zeroLr (h : Stored P s) {lrInd : Nat} (hinv : ((s.cpus v).lrs lrInd).state = .inv) :
    Carries P none s (s.gichWriteLr v lrInd .zero) :=
  keep h (gichWriteLr_curr s v lrInd .zero) (sameReg_zero hinv) rfl (fun _ => ⟨rfl, rfl, rfl⟩)
    fun _ => Or.inr ⟨rfl, rfl, rfl⟩

end Carries

/-! ## The guest at a list register -/

theorem source_gone {pend : BitVec 8} {src : Nat} (h : pend.getLsbD src = false) :
    (pend ||| 1#8 <<< src) &&& ~~~(1#8 <<< src) = pend := by
  refine BitVec.eq_of_getLsbD_eq fun n hn => ?_
  by_cases hsrc : n = src
  · subst hsrc
    rw [h]
    simp [hn]
  · by_cases hlt : n < src
    · simp [hn, hlt]
    · have hne : n - src ≠ 0 := by omega
      simp [hn, hlt, hne]

theorem gicOf_ack {i : VgicInt} {lr : ListReg} (h : Sound P k i (some lr))
    (hpend : lr.state = .pend) :
    gicOf P k i (some { lr with state := .act }) =
      (if isV2Sgi P k then GicAct.ackSource lr.cpuid else .ack).apply (gicOf P k i (some lr)) := by
  have hp : lr.state.pending = true := by rw [hpend]; rfl
  have honce := h.once lr rfl hp
  cases hsgi : isV2Sgi P k with
  | false => simp [gicOf_plain hsgi, honce, GicAct.apply, IntState.act]
  | true =>
    have hgone := source_gone (h.source lr hsgi rfl hp).2.2
    simp [gicOf, hsgi, hp, honce, GicAct.apply, IntState.act, hgone]

theorem gicOf_deact {i : VgicInt} {lr : ListReg} (h : Sound P k i (some lr))
    (hin : i.inLr = true) (hact : lr.state.active = true) :
    gicOf P k i (ofReg { lr with state := lr.state.onlyPend }) =
      (GicAct.setActive false).apply (gicOf P k i (some lr)) := by
  have hidle := h.idle hin
  cases hsgi : isV2Sgi P k with
  | false => simp [gicOf_plain hsgi, hidle, GicAct.apply, IntState.onlyPend]
  | true =>
    have hp : lr.state.pending = false := by
      cases hp : lr.state.pending with
      | false => rfl
      | true =>
        have hno := (h.source lr hsgi rfl hp).1
        rw [hact] at hno
        cases hno
    simp [gicOf, hsgi, hidle, hp, GicAct.apply, IntState.onlyPend]

theorem Sound.guest {i : VgicInt} {lr : ListReg} {f : IntState → IntState}
    (h : Sound P k i (some lr))
    (hf : (f lr.state).pending = true → lr.state.pending = true ∧ (f lr.state).active = false) :
    Sound P k i (ofReg { lr with state := f lr.state }) where
  idle := h.idle
  once lr' hheld hp := by
    rw [ofReg_some hheld] at hp
    exact h.once lr rfl (hf hp).1
  fixed := h.fixed
  pend := h.pend
  source lr' hsgi hheld hp := by
    rw [ofReg_some hheld] at hp ⊢
    obtain ⟨-, hcpu, hbit⟩ := h.source lr hsgi rfl (hf hp).1
    exact ⟨(hf hp).2, hcpu, hbit⟩

/-- **The guest changes the state of a register**: an act on the interrupt the
register holds. -/
theorem Carries.guestLr (h : Stored P s) (hl : Lodged P (fun _ => False) s) (a : GicAct)
    {lrInd : Nat} {f : IntState → IntState} (hname : Names P s v lrInd k)
    (hf : (f ((s.cpus v).lrs lrInd).state).pending = true →
      ((s.cpus v).lrs lrInd).state.pending = true ∧
        (f ((s.cpus v).lrs lrInd).state).active = false)
    (hstate : ∀ i, Sound P k i (some ((s.cpus v).lrs lrInd)) → i.inLr = true →
      gicOf P k i (ofReg { (s.cpus v).lrs lrInd with state := f ((s.cpus v).lrs lrInd).state }) =
        a.apply (gicOf P k i (some ((s.cpus v).lrs lrInd)))) :
    Carries P (some (k, a)) s (guestLr v lrInd f s) := by
  obtain ⟨hown, hin, hlr⟩ := hl.placed hname id
  have hid := vgicGetInt_id hname.2.2.2
  have hheld := heldLr_of_owner (P := P) hown hin
  rw [hlr, if_pos ⟨hid.symm, hname.2.2.1⟩] at hheld
  have hsound := h.sound k
  rw [hheld] at hsound
  have hreg := gichWriteLr_reg s v lrInd { (s.cpus v).lrs lrInd with
    state := f ((s.cpus v).lrs lrInd).state }
  have hcurr := gichWriteLr_curr s v lrInd { (s.cpus v).lrs lrInd with
    state := f ((s.cpus v).lrs lrInd).state }
  have hhere : ((Bao.guestLr v lrInd f s).cpus v).lrs lrInd =
      { (s.cpus v).lrs lrInd with state := f ((s.cpus v).lrs lrInd).state } :=
    (hreg v lrInd).trans (if_pos ⟨rfl, rfl⟩)
  have hheld' : heldLr P (Bao.guestLr v lrInd f s) k =
      ofReg { (s.cpus v).lrs lrInd with state := f ((s.cpus v).lrs lrInd).state } := by
    have hrec := heldLr_of_owner (P := P) (s := Bao.guestLr v lrInd f s) hown hin
    change heldLr P (Bao.guestLr v lrInd f s) k =
      (if (((Bao.guestLr v lrInd f s).cpus v).lrs (s.ints k).lr).vid = k.id ∧
          (((Bao.guestLr v lrInd f s).cpus v).lrs (s.ints k).lr).state ≠ .inv then
        some (((Bao.guestLr v lrInd f s).cpus v).lrs (s.ints k).lr)
      else none) at hrec
    rw [hrec, hlr, hhere]
    simp [ofReg, hid]
  have hother : ∀ k', k' ≠ k → (s.ints k').owner = some v → (s.ints k').inLr = true →
      ((s.cpus v).lrs lrInd).vid ≠ k'.id := by
    intro k' hk hown' hin' hvid
    refine hk (same_of_id hl hown (h.recorded hown hin).1 hown' (h.recorded hown' hin').1 ?_)
    rw [← hvid, hid]
  refine change (some a) h k ⟨hcurr, fun w i hvalid => ?_⟩ rfl
    (fun k' hk => ⟨rfl, heldLr_elsewhere (v := v) (i := lrInd) rfl
      (fun w j hother => (hreg w j).trans (if_neg hother))
      (fun hown' hin' _ hat => hother k' hk hown' hin' hat.1)
      fun hown' hin' _ hat => ?_⟩) (fun _ => ⟨hin, rfl, rfl⟩) ?_ ?_
  · by_cases hsame : w = v ∧ i = lrInd
    · obtain ⟨rfl, rfl⟩ := hsame
      rw [hhere]
      exact ⟨hname.2.2.1, rfl⟩
    · have heq := (hreg w i).trans (if_neg hsame)
      change (((Bao.guestLr v lrInd f s).cpus w).lrs i) = _ at heq
      rw [heq] at hvalid ⊢
      exact ⟨hvalid, rfl⟩
  · rw [hhere] at hat
    exact hother k' hk hown' hin' hat.1
  · rw [hheld']
    exact hsound.guest hf
  · rw [Option.map_some, gicStep_same, gicState, gicState, hheld', hheld]
    exact hstate _ hsound hin

/-! ## Deeds -/

theorem Carries.addSource (h : Stored P s) {src : Nat} (hsgi : isV2Sgi P k = true)
    (hout : (s.ints k).inLr = false)
    (hnew : (s.ints k).sgiPend ≠ (s.ints k).sgiPend ||| 1#8 <<< src) :
    Carries P (some (k, .source src)) s (addSource k src s) := by
  have hfree : heldLr P s k = none := heldLr_out hout
  have hsound := h.sound k
  rw [hfree] at hsound
  have hsrc : (s.ints k).sgiPend ||| 1#8 <<< src ≠ 0#8 := by
    intro hzero
    have hold := (BitVec.or_eq_zero_iff.mp hzero).1
    rw [hzero] at hnew
    exact hnew hold
  refine alter (some (.source src)) h k hout hfree ⟨fun hin => ?_, fun _ hheld => ?_,
    hsound.fixed, fun _ _ => hsrc, fun _ _ hheld => ?_⟩ ?_
  · rw [hout] at hin
    cases hin
  · cases hheld
  · cases hheld
  · rw [Option.map_some, gicStep_same]
    simp [gicOf, hsgi, GicAct.apply, IntState.inv]

/-- **A deed** is at most one act, when it meets the condition on steps. -/
theorem Carries.does {d : VgicDeed} (h : Stored P s) (hl : Lodged P (fun _ => False) s)
    (hv : v < P.vcpuNum) (hd : Does P v d s s')
    (hhw : ∀ k, d = .hw k → Unheld P s k ∧ (s.ints k).state.active = false)
    (hclear : ∀ i k, d = .clearLr i k → Unheld P s k)
    (hrefill : ∀ k i, d = .refill k i →
      vgicIntIsHw P k = true → (s.ints k).state = .pend → (s.ints k).enabled = true)
    (hsource : ∀ k src, d = .source k src → ((vgicRemoveLr P v k s).ints k).sgiPend ≠
      ((vgicRemoveLr P v k s).ints k).sgiPend ||| 1#8 <<< src) :
    Carries P (d.act P v s) s s' := by
  have hunheld : ∀ {k}, Unheld P s k → heldLr P s k = none := by
    intro k hno
    cases hheld : heldLr P s k with
    | none => rfl
    | some lr =>
      obtain ⟨w, -, -, hn⟩ := heldLr_names h hl hheld
      exact (hno.not_names hn).elim
  cases hd with
  | nothing => exact refl h
  | field reg k data tag hgot =>
    have hown := vgicGetOwnership_owner hgot
    have hget := getOwnership h hl v k
    have hrm := removeLr hget.stored (hl.getOwnership v k) v k
    have hupd := applyField hrm.stored reg k data tag (vgicRemoveLr_out v k _ hown)
    exact (hget.trans_none hrm).none_trans hupd
  | forward reg k vgicrId data tag hgot => exact quiet h (Quiet.forwardToOwner (v := v) P s k _)
  | setRoute k route =>
    unfold vgicIntSetRoute
    split
    · exact refl h
    · exact updInt h k ⟨rfl, rfl, rfl⟩ (Or.inr ⟨rfl, rfl, rfl⟩)
  | hw k hphys hmine =>
    obtain ⟨hno, hidle⟩ := hhw k rfl
    have hfree := hunheld hno
    have hsgi := vgicIntIsHw_not_sgi hphys
    refine alter (some (.setPending true)) h k rfl hfree ⟨fun _ => rfl, fun _ hheld => ?_,
      fun hyes => ?_, fun hyes => ?_, fun _ _ hheld => ?_⟩ ?_
    · cases hheld
    · rw [hsgi] at hyes
      cases hyes
    · rw [hsgi] at hyes
      cases hyes
    · cases hheld
    · rw [Option.map_some, gicStep_same, gicOf_plain hsgi, gicOf_plain hsgi]
      simp [GicAct.apply, IntState.pend, IntState.inv, hidle]
  | source k src hpriv hsgi =>
    obtain ⟨id, hk⟩ := hpriv
    have hown : (s.ints k).owner = some v := by
      rw [hk]
      refine hl.privOwner v id ?_
      have hlt := isV2Sgi_priv hsgi
      rw [hk] at hlt
      exact of_decide_eq_true hlt
    have hrm := removeLr h hl v k
    exact hrm.none_trans (addSource hrm.stored hsgi (vgicRemoveLr_out v k s hown)
      (hsource k src rfl))
  | zeroLr lrInd hinv => exact zeroLr h hinv
  | clearLr lrInd k hinv =>
    have hzero := zeroLr h hinv
    refine hzero.trans_none (updInt hzero.stored k ⟨rfl, rfl, rfl⟩ (Or.inl ⟨rfl, ?_⟩))
    rw [← hunheld (hclear lrInd k rfl)]
    exact heldLr_congr rfl rfl rfl fun w _ _ => sameReg_zero hinv w _
  | refill k lrInd hbound hinv hknown hin hgot =>
    have hget := getOwnership h hl v k
    have hl' := hl.getOwnership v k
    have hrm := removeSpilled hget.stored v k
    obtain ⟨owner, hints⟩ := vgicGetOwnership_ints v k k s
    have hint := vgicRemoveSpilled_int v k (vgicGetOwnership v k s).2
    refine (hget.trans_none hrm).trans_none (writeLr hrm.stored (hl'.removeSpilled v k) hv hbound
      hknown ?_ ?_ (fun k' hn => ?_) ?_)
    · rw [hint]
      exact vgicGetOwnership_owner hgot
    · rw [hint, hints]
      exact hl.out k hin
    · have hvalid := hn.2.2.1
      rw [(vgicRemoveSpilled_lrs v k _ v).1, vgicGetOwnership_cpus] at hvalid
      exact hvalid hinv
    · rw [hint, hints]
      exact hrefill k lrInd rfl
  | unlist k hknown hin hgot =>
    have hget := getOwnership h hl v k
    have hrm := removeSpilled hget.stored v k
    obtain ⟨owner, hints⟩ := vgicGetOwnership_ints v k k s
    have hint := vgicRemoveSpilled_int v k (vgicGetOwnership v k s).2
    have hout : ((vgicRemoveSpilled v k (vgicGetOwnership v k s).2).ints k).inLr = false := by
      rw [hint, hints]
      exact hl.out k hin
    have hfree : heldLr P (vgicRemoveSpilled v k (vgicGetOwnership v k s).2) k = none :=
      heldLr_out hout
    have hsound := hrm.stored.sound k
    rw [hfree] at hsound
    refine (hget.trans_none hrm).none_trans (alter (some (.setActive false)) hrm.stored k hout
      hfree ⟨fun _ => rfl, fun _ hheld => ?_, hsound.fixed, hsound.pend, fun _ _ hheld => ?_⟩ ?_)
    · cases hheld
    · cases hheld
    · rw [Option.map_some, gicStep_same]
      simp [gicOf, GicAct.apply, IntState.inv]
  | ackLr lrInd hbound hpend =>
    have hvalid : ((s.cpus v).lrs lrInd).state ≠ .inv := by
      rw [hpend]
      decide
    obtain ⟨-, k, hk⟩ := h.current hv hbound hvalid
    have hact : VgicDeed.act P v s (.ackLr lrInd) =
        some (k, if isV2Sgi P k then .ackSource ((s.cpus v).lrs lrInd).cpuid else .ack) := by
      simp only [VgicDeed.act, hk, Option.map_some]
    rw [hact]
    exact guestLr h hl _ ⟨hv, hbound, hvalid, hk⟩ (fun hp => by cases hp)
      fun i hsound _ => gicOf_ack hsound hpend
  | deactLr lrInd hbound hact =>
    have hvalid : ((s.cpus v).lrs lrInd).state ≠ .inv := by
      intro hinv
      rw [hinv] at hact
      cases hact
    obtain ⟨-, k, hk⟩ := h.current hv hbound hvalid
    have hd : VgicDeed.act P v s (.deactLr lrInd) = some (k, .setActive false) := by
      simp only [VgicDeed.act, hk, Option.map_some]
    rw [hd]
    exact guestLr h hl _ ⟨hv, hbound, hvalid, hk⟩ (fun hp => ⟨hp, rfl⟩)
      fun i hsound hin => gicOf_deact hsound hin hact

/-! ## Steps -/

theorem Stored.init (h : VgicInit P s) : Stored P s where
  recorded {k w} hown hin := by
    obtain ⟨lr, inSpilled, hint⟩ := h.ints k
    rw [hint] at hin
    cases hin
  current {w i} hw hi hvalid := by
    rw [h.cpus w] at hvalid
    exact (hvalid rfl).elim
  sound k := by
    obtain ⟨lr, inSpilled, hint⟩ := h.ints k
    have hfree : heldLr P s k = none := heldLr_out (by rw [hint]; rfl)
    rw [hfree, hint]
    refine ⟨fun _ => rfl, fun _ hheld => ?_, id, fun _ hp => ?_, fun _ _ hheld => ?_⟩
    · cases hheld
    · cases hp
    · cases hheld

theorem gicState_init (h : VgicInit P s) (k : IntKey) : gicState P s k = .idle := by
  obtain ⟨lr, inSpilled, hint⟩ := h.ints k
  have hfree : heldLr P s k = none := heldLr_out (by rw [hint]; rfl)
  rw [gicState, hfree, hint]
  simp [gicOf, initInt, IntState.inv, GicInt.idle]

theorem injectDeed_source {id source src : Nat}
    (h : injectDeed P v id source s = .source k src) :
    ((vgicRemoveLr P v k s).ints k).sgiPend ≠
      ((vgicRemoveLr P v k s).ints k).sgiPend ||| 1#8 <<< src := by
  unfold injectDeed setFieldDeed at h
  split at h
  · cases h
  · split at h
    · cases h
    · split at h
      · dsimp only at h
        split at h
        · cases h
        · rename_i hnew
          cases h
          exact hnew
      · split at h <;> cases h

theorem setFieldDeed_source {reg : VgicReg} {k' : IntKey} {vgicrId data src : Nat}
    {tag : Option WriteTag} : setFieldDeed v reg k' vgicrId data tag s ≠ .source k src := by
  unfold setFieldDeed
  split <;> exact VgicDeed.noConfusion

theorem turnDeed_source {src : Nat} : turnDeed P v s ≠ .source k src := by
  unfold turnDeed
  cases (s.cpus v).pc with
  | guest => exact VgicDeed.noConfusion
  | eoir misr lrInd =>
    dsimp only
    split <;> exact VgicDeed.noConfusion
  | refill misr flags lrInd =>
    dsimp only
    split
    · exact VgicDeed.noConfusion
    · split <;> exact VgicDeed.noConfusion
  | lrenp hcr =>
    dsimp only
    split
    · exact VgicDeed.noConfusion
    · split
      · exact VgicDeed.noConfusion
      · split <;> exact VgicDeed.noConfusion

theorem VgicEvent.deed_source {e : VgicEvent} {src : Nat} (h : e.deed P s = .source k src) :
    ((vgicRemoveLr P e.vcpu k (e.begin P s)).ints k).sgiPend ≠
      ((vgicRemoveLr P e.vcpu k (e.begin P s)).ints k).sgiPend ||| 1#8 <<< src := by
  obtain ⟨v, op⟩ := e
  cases op with
  | inject id source => exact @injectDeed_source P s v k id source src h
  | deliver =>
    dsimp only [VgicEvent.deed] at h
    split at h
    · cases h
    · rename_i msg rest hq
      cases msg with
      | inject intId val => exact @injectDeed_source P _ v k intId val src h
      | setReg vgicrId intId reg val tag =>
        dsimp only [msgDeed] at h
        split at h
        · cases h
        · split at h
          · cases h
          · exact (setFieldDeed_source h).elim
      | _ => cases h
  | maintain => exact (turnDeed_source h).elim
  | writeField reg intId vgicrId data =>
    dsimp only [VgicEvent.deed] at h
    split at h
    · cases h
    · exact (setFieldDeed_source h).elim
  | writeRoute intId access val =>
    dsimp only [VgicEvent.deed] at h
    split at h <;> cases h
  | injectHw id =>
    dsimp only [VgicEvent.deed] at h
    split at h <;> cases h
  | _ => cases h

namespace Carries

theorem goTo (h : Stored P s) (v : Nat) (pc : VgicPc) : Carries P none s (goTo v pc s) := by
  have hcpu : ∀ w, ((Bao.goTo v pc s).cpus w).lrs = (s.cpus w).lrs ∧
      ((Bao.goTo v pc s).cpus w).currLrs = (s.cpus w).currLrs := by
    intro w
    unfold Bao.goTo
    by_cases hw : w = v
    · subst hw
      rw [VgicState.updCpu_cpus_same]
      exact ⟨rfl, rfl⟩
    · rw [VgicState.updCpu_cpus_ne _ _ hw]
      exact ⟨rfl, rfl⟩
  exact keep h (fun w => (hcpu w).2) (fun w i => Or.inl (by rw [(hcpu w).1])) rfl
    (fun _ => ⟨rfl, rfl, rfl⟩) fun _ => Or.inr ⟨rfl, rfl, rfl⟩

/-- **A step** that meets the condition is the act of its deed. -/
theorem next {e : VgicEvent} (h : Stored P s) (hl : Lodged P (fun _ => False) s)
    (hok : HandlersOk P s) (hen : e.enabled P s) (hkeeps : KeepsState P s e) :
    Carries P ((e.deed P s).act P e.vcpu s) s (e.next P s) := by
  obtain ⟨s₁, s₂, hdoes, hmoves, hend⟩ := hok.parts hen
  obtain ⟨hrecords, hcond⟩ := hkeeps
  have hbegin := VgicEvent.begin_quiet (P := P) e s
  have hstart := quiet h hbegin
  have hdeed : Carries P ((e.deed P s).act P e.vcpu s) (e.begin P s) s₁ := by
    have hsame := VgicDeed.act_congr (P := P) (e.deed P s) hbegin.lrs
    rw [← hsame]
    unfold KeepsRecords at hrecords
    refine does hstart.stored (hl.quiet hbegin) hen.1 hdoes (fun k hd => ?_) (fun i k hd => ?_)
      (fun k i hd => ?_) fun k src hd => VgicEvent.deed_source hd
    · rw [hd] at hrecords hcond
      rw [hbegin.ints]
      exact ⟨Unheld.quiet hrecords hbegin, hcond⟩
    · rw [hd] at hrecords
      rcases hrecords with hno | hno
      · exact hno.elim
      · exact Unheld.quiet hno hbegin
    · rw [hd] at hcond
      rw [hbegin.ints]
      exact hcond
  have hafter := moves hdeed.stored (hl.deed hrecords hdoes) hen.1 hmoves
  have hall := (hstart.none_trans hdeed).trans_none hafter
  rcases hend with hnext | ⟨pc, hnext⟩
  · rw [hnext]
    exact hall
  · rw [hnext]
    exact hall.trans_none (goTo hall.stored e.vcpu pc)

end Carries

/-- **List registers conserve interrupts.**  In every run whose steps meet the
condition: a list register that is valid names an interrupt, whose owner, `lr`
and `curr_lrs` name the register, and no other list register is valid with it;
the record of a shared interrupt is always right; and the state of every
interrupt is the one it has in the abstract machine, but that a physical
interrupt written to a list register while pending and active may lack its
pending state. -/
theorem list_registers_conserve {s : VgicState} {g : IntKey → GicInt}
    (h : (vgicWatch P).Reach (fun p e => KeepsState P p.1 e) (s, g)) :
    (∀ v i, v < P.vcpuNum → i < P.numLrs → ((s.cpus v).lrs i).state ≠ .inv →
      ∃ k, Names P s v i k) ∧
    (∀ v i k, Names P s v i k → (s.ints k).owner = some v ∧ (s.ints k).inLr = true ∧
      (s.ints k).lr = i ∧ (s.cpus v).currLrs i = k.id) ∧
    (∀ v i v' i' k, Names P s v i k → Names P s v' i' k → v = v' ∧ i = i') ∧
    (∀ k, gicIsPriv k.id = false → (s.ints k).inLr = true →
      ∃ v, (s.ints k).owner = some v ∧ (s.cpus v).currLrs (s.ints k).lr = k.id) ∧
    ∀ k, gicState P s k = g k ∨
      (HandedOn P s k ∧ gicState P s k = { g k with pending := false }) := by
  let Inv := fun p : VgicState × (IntKey → GicInt) =>
    HandlersOk P p.1 ∧ Lodged P (fun _ => False) p.1 ∧ Stored P p.1 ∧
      ∀ k, Short (HandedOn P p.1 k) (p.2 k) (gicState P p.1 k)
  have hinit : ∀ p, (vgicWatch P).init p → Inv p := by
    intro p hp
    obtain ⟨s, g⟩ := p
    obtain ⟨hs, hg⟩ := hp
    refine ⟨.init hs, .init hs, .init hs, fun k => Or.inl ?_⟩
    dsimp only at hg ⊢
    rw [gicState_init hs, hg]
  have hstep : ∀ p e p', Inv p → KeepsState P p.1 e → (vgicWatch P).step p e p' → Inv p' := by
    intro p e p' hp hkeeps hst'
    obtain ⟨s, g⟩ := p
    obtain ⟨s', g'⟩ := p'
    obtain ⟨hok, hl, hst, hshort⟩ := hp
    obtain ⟨⟨hen, hnext⟩, hg⟩ := hst'
    dsimp only at hnext hg hshort hkeeps
    have hc := Carries.next hst hl hok hen hkeeps
    rw [hnext, hg]
    refine ⟨hok.next hen, hl.next (fun _ h => h.elim) hok hen hkeeps.1, hc.stored, fun k => ?_⟩
    exact (((hshort k).mono (HandedOn.mono hc.follows.log)).step _).trans (hc.follows.state k)
  obtain ⟨-, hl, hst, hshort⟩ := h.invariant hinit hstep
  refine ⟨fun v i hv hi hvalid => ?_, fun v i k hn => ?_, fun v i v' i' k hn hn' => ?_,
    fun k hpriv hin => ?_, hshort⟩
  · obtain ⟨-, k, hk⟩ := hst.current hv hi hvalid
    exact ⟨k, hv, hi, hvalid, hk⟩
  · obtain ⟨hown, hin, hlr⟩ := hl.placed hn id
    refine ⟨hown, hin, hlr, ?_⟩
    rw [(hst.current hn.1 hn.2.1 hn.2.2.1).1]
    exact (vgicGetInt_id hn.2.2.2).symm
  · obtain ⟨hown, -, hlr⟩ := hl.placed hn id
    obtain ⟨hown', -, hlr'⟩ := hl.placed hn' id
    exact ⟨Option.some.inj (hown.symm.trans hown'), hlr.symm.trans hlr'⟩
  · cases hown : (s.ints k).owner with
    | none => exact (hl.owned k hin hown).elim
    | some w => exact ⟨w, rfl, (hst.recorded hown hin).2.2.2 hpriv⟩

/-! ## Runs beside the abstract machine -/

instance (s : VgicState) (e : VgicEvent) : Decidable (KeepsState P s e) := by
  unfold KeepsState KeepsRecords
  generalize e.deed P s = deed
  refine @instDecidableAnd _ _ ?_ ?_
  · rcases deed with _ | _ <;> infer_instance
  · rcases deed with _ | _ <;> infer_instance

variable (P) in
/-- The abstract machine after steps taken one after the other. -/
def gicRun : List VgicEvent → VgicState → (IntKey → GicInt) → IntKey → GicInt
  | [], _, g => g
  | e :: es, s, g => gicRun es (e.next P s) (gicStep ((e.deed P s).act P e.vcpu s) g)

theorem RunMeets.watch {ok : VgicState → VgicEvent → Prop} {es : List VgicEvent}
    {g : IntKey → GicInt} (hs : (vgicWatch P).Reach (fun p e => ok p.1 e) (s, g))
    (h : RunMeets P ok es s) :
    (vgicWatch P).Reach (fun p e => ok p.1 e) (vgicRun P es s, gicRun P es s g) := by
  induction es generalizing s g with
  | nil => exact hs
  | cons e es ih => exact ih (.step hs h.2.1 ⟨⟨h.1, rfl⟩, rfl⟩) h.2.2

theorem RunMeets.watchBoot {ok : VgicState → VgicEvent → Prop} {es : List VgicEvent}
    (h : RunMeets P ok es (vgicBoot P)) :
    (vgicWatch P).Reach (fun p e => ok p.1 e)
      (vgicRun P es (vgicBoot P), gicRun P es (vgicBoot P) fun _ => .idle) :=
  RunMeets.watch (.init ⟨vgicBoot_init P, rfl⟩) h

/-- PPI 20 is delivered, handled and left in the only list register, which PPI
21 takes then. -/
def twoPpis : List VgicEvent :=
  [⟨0, .writeField .isenabler 20 0 1⟩, ⟨0, .inject 20 0⟩, ⟨0, .ackLr 0⟩, ⟨0, .deactLr 0⟩,
    ⟨0, .writeField .isenabler 21 0 1⟩, ⟨0, .inject 21 0⟩]

/-- The guest makes the physical SPI 32 pending while it handles it. -/
def pendWhileActive : List VgicEvent :=
  [⟨0, .writeRoute 32 .full 0⟩, ⟨0, .writeField .isenabler 32 0 1⟩, ⟨0, .injectHw 32⟩,
    ⟨0, .ackLr 0⟩, ⟨0, .writeField .ispendr 32 0 1⟩]

theorem list_registers_conserve_one :
    gicState (twoCpuGic .gicv3 1 (32 ≤ ·))
        (vgicRun (twoCpuGic .gicv3 1 (32 ≤ ·)) twoPpis (vgicBoot (twoCpuGic .gicv3 1 (32 ≤ ·))))
        (.priv 0 21) = ⟨true, false, 0#8⟩ := by
  have hmeets : RunMeets (twoCpuGic .gicv3 1 (32 ≤ ·)) (KeepsState (twoCpuGic .gicv3 1 (32 ≤ ·)))
      twoPpis (vgicBoot (twoCpuGic .gicv3 1 (32 ≤ ·))) := by decide +kernel
  have hrun := list_registers_conserve (RunMeets.watchBoot hmeets)
  rcases hrun.2.2.2.2 (.priv 0 21) with hsame | ⟨hhanded, -⟩
  · rw [hsame]
    decide +kernel
  · exact absurd hhanded.1 (by decide +kernel)

/-- The record of PPI 20 names a register that `curr_lrs` gives to PPI 21, and
the pending state of SPI 32 is in neither place. -/
theorem list_registers_leave :
    (∃ s, (vgicSystem (twoCpuGic .gicv3 1 (32 ≤ ·))).Reachable s ∧
      (s.ints (.priv 0 20)).inLr = true ∧ (s.ints (.priv 0 20)).owner = some 0 ∧
      (s.cpus 0).currLrs (s.ints (.priv 0 20)).lr = 21) ∧
    ∃ s g, (vgicWatch (twoCpuGic .gicv3 1 (32 ≤ ·))).Reachable (s, g) ∧
      (g (.shared 32)).pending = true ∧
      (gicState (twoCpuGic .gicv3 1 (32 ≤ ·)) s (.shared 32)).pending = false := by
  let gic := twoCpuGic .gicv3 1 (32 ≤ ·)
  have hmeets : RunMeets gic (fun _ _ => True) pendWhileActive (vgicBoot gic) := by
    decide +kernel
  refine ⟨⟨vgicRun gic twoPpis (vgicBoot gic), RunMeets.fromBoot (by decide +kernel), ?_⟩,
    vgicRun gic pendWhileActive (vgicBoot gic), _, RunMeets.watchBoot hmeets, ?_⟩
  · decide +kernel
  · decide +kernel

end Bao

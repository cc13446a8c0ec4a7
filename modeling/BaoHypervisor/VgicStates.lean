import BaoHypervisor.GicStates
import BaoHypervisor.VgicEnabled

/-!
# The state of an interrupt and where it is kept

The pending and active state of an interrupt is in its structure, in the list
register that holds it, or split between the two.  `gicState` reads it off, and
`Stored` says what the records of list registers and the two parts of the state
are like between operations.  Each function of the vGIC then keeps the state,
with one exception: a physical interrupt written to a list register while
pending and active leaves its pending state to the physical distributor.
-/

namespace Bao

variable (P : VgicPlat)

/-! ## What a vGIC says about an interrupt -/

/-- The list register that holds an interrupt. -/
def heldLr (s : VgicState) (k : IntKey) : Option ListReg :=
  (s.ints k).owner.bind fun w => (gichGetLr P w k s).map Prod.snd

/-- The state in a list register, if there is one. -/
def heldState (held : Option ListReg) : IntState := (held.map ListReg.state).getD .inv

/-- The CPU a list register is pending from. -/
def heldSource (held : Option ListReg) : BitVec 8 :=
  match held with
  | some lr => if lr.state.pending then 1#8 <<< lr.cpuid else 0#8
  | none => 0#8

/-- The state of an interrupt by its structure and its list register. -/
def gicOf (k : IntKey) (i : VgicInt) (held : Option ListReg) : GicInt :=
  let sources := if isV2Sgi P k then i.sgiPend ||| heldSource held else 0#8
  { pending := i.state.pending || (heldState held).pending || decide (sources ≠ 0#8)
    active := i.state.active || (heldState held).active
    sources := sources }

/-- The state of an interrupt in a vGIC. -/
def gicState (s : VgicState) (k : IntKey) : GicInt := gicOf P k (s.ints k) (heldLr P s k)

/-- The interrupt is physical and was written to a list register while it was
pending and active. -/
def HandedOn (s : VgicState) (k : IntKey) : Prop :=
  vgicIntIsHw P k = true ∧
    ∃ w ∈ s.lrWrites, w.key = k ∧ w.int.state = .pendact ∧ w.lr.state = .act

/-- Structure and list register divide the state of an interrupt: what is
active in the one is not in the other, nor is what is pending. -/
structure Sound (k : IntKey) (i : VgicInt) (held : Option ListReg) : Prop where
  idle : i.inLr = true → i.state.active = false
  once : ∀ lr, held = some lr → lr.state.pending = true → i.state.pending = false
  fixed : isV2Sgi P k = true → i.enabled = true
  pend : isV2Sgi P k = true → i.state.pending = true → i.sgiPend ≠ 0#8
  source : ∀ lr, isV2Sgi P k = true → held = some lr → lr.state.pending = true →
    lr.state.active = false ∧ lr.cpuid < 8 ∧ i.sgiPend.getLsbD lr.cpuid = false

/-- Where an interrupt may be recorded: in a list register of a vCPU of the
VM, under `curr_lrs` if it is shared. -/
def RecordedAt (s : VgicState) (k : IntKey) (w i : Nat) : Prop :=
  Known P k ∧ w < P.vcpuNum ∧ i < P.numLrs ∧
    (gicIsPriv k.id = false → (s.cpus w).currLrs i = k.id)

/-- Records name interrupts of the VM, `curr_lrs` says what is in the valid
list registers, and every state is kept in its two parts. -/
structure Stored (s : VgicState) : Prop where
  recorded : ∀ {k : IntKey} {w : Nat}, (s.ints k).owner = some w → (s.ints k).inLr = true →
    RecordedAt P s k w (s.ints k).lr
  current : ∀ {v i : Nat}, v < P.vcpuNum → i < P.numLrs → ((s.cpus v).lrs i).state ≠ .inv →
    (s.cpus v).currLrs i = ((s.cpus v).lrs i).vid ∧
      ∃ k, vgicGetInt P ((s.cpus v).lrs i).vid v = some k
  sound : ∀ k, Sound P k (s.ints k) (heldLr P s k)

/-- The states follow what happened, except that physical interrupts may have
handed on their pending state. -/
structure Follows (act : Option (IntKey × GicAct)) (s s' : VgicState) : Prop where
  log : ∀ w ∈ s.lrWrites, w ∈ s'.lrWrites
  state : ∀ k, Short (HandedOn P s' k) (gicStep act (gicState P s) k) (gicState P s' k)

/-- The states are well kept afterwards, and follow what happened. -/
structure Carries (act : Option (IntKey × GicAct)) (s s' : VgicState) : Prop where
  stored : Stored P s'
  follows : Follows P act s s'

variable {P}
variable {s s' s'' : VgicState} {v : Nat} {k : IntKey} {act : Option (IntKey × GicAct)}
variable {X : IntKey → Prop}

/-! ## The list register that holds an interrupt -/

theorem heldLr_some {lr : ListReg} (h : heldLr P s k = some lr) :
    ∃ w, (s.ints k).owner = some w ∧ (s.ints k).inLr = true ∧
      (s.cpus w).lrs (s.ints k).lr = lr ∧ lr.vid = k.id ∧ lr.state ≠ .inv := by
  unfold heldLr at h
  obtain ⟨w, hown, hmap⟩ := Option.bind_eq_some_iff.mp h
  obtain ⟨⟨i, lr'⟩, hget, rfl⟩ := Option.map_eq_some_iff.mp hmap
  obtain ⟨hin, -, hlr, hval, hvid, hne⟩ := gichGetLr_some w k s hget
  rw [← hlr] at hval
  exact ⟨w, hown, hin, hval, hvid, hne⟩

theorem heldLr_of_owner {w : Nat} (hown : (s.ints k).owner = some w)
    (hin : (s.ints k).inLr = true) :
    heldLr P s k =
      if ((s.cpus w).lrs (s.ints k).lr).vid = k.id ∧
          ((s.cpus w).lrs (s.ints k).lr).state ≠ .inv then
        some ((s.cpus w).lrs (s.ints k).lr)
      else none := by
  simp only [heldLr, gichGetLr, hown, hin, Option.bind_some, Option.map_some, decide_true,
    Bool.and_self, if_true]
  split <;> rfl

theorem heldLr_out (h : (s.ints k).inLr = false) : heldLr P s k = none := by
  cases hheld : heldLr P s k with
  | none => rfl
  | some lr =>
    obtain ⟨-, -, hin, -⟩ := heldLr_some hheld
    rw [h] at hin
    cases hin

theorem heldLr_unowned (h : (s.ints k).owner = none) : heldLr P s k = none := by
  unfold heldLr
  rw [h]
  rfl

/-- The two registers are the same, or both empty. -/
def SameReg (lr lr' : ListReg) : Prop := lr' = lr ∨ (lr.state = .inv ∧ lr'.state = .inv)

theorem heldLr_congr (hown : (s'.ints k).owner = (s.ints k).owner)
    (hin : (s'.ints k).inLr = (s.ints k).inLr) (hlr : (s'.ints k).lr = (s.ints k).lr)
    (hreg : ∀ w, (s.ints k).owner = some w → (s.ints k).inLr = true →
      SameReg ((s.cpus w).lrs (s.ints k).lr) ((s'.cpus w).lrs (s.ints k).lr)) :
    heldLr P s' k = heldLr P s k := by
  cases hw : (s.ints k).owner with
  | none => rw [heldLr_unowned hw, heldLr_unowned (hown.trans hw)]
  | some w =>
    cases hi : (s.ints k).inLr with
    | false => rw [heldLr_out hi, heldLr_out (hin.trans hi)]
    | true =>
      rw [heldLr_of_owner hw hi, heldLr_of_owner (hown.trans hw) (hin.trans hi), hlr]
      rcases hreg w hw hi with heq | ⟨hinv, hinv'⟩
      · rw [heq]
      · rw [if_neg fun h => h.2 hinv', if_neg fun h => h.2 hinv]

/-- A change of one register is not noticed by an interrupt that was not held
there and is not held there now. -/
theorem heldLr_elsewhere {i : Nat} (hint : s'.ints k = s.ints k)
    (hregs : ∀ w j, ¬ (w = v ∧ j = i) → (s'.cpus w).lrs j = (s.cpus w).lrs j)
    (hbefore : (s.ints k).owner = some v → (s.ints k).inLr = true → (s.ints k).lr = i →
      ¬ (((s.cpus v).lrs i).vid = k.id ∧ ((s.cpus v).lrs i).state ≠ .inv))
    (hafter : (s.ints k).owner = some v → (s.ints k).inLr = true → (s.ints k).lr = i →
      ¬ (((s'.cpus v).lrs i).vid = k.id ∧ ((s'.cpus v).lrs i).state ≠ .inv)) :
    heldLr P s' k = heldLr P s k := by
  by_cases hrec : (s.ints k).owner = some v ∧ (s.ints k).inLr = true ∧ (s.ints k).lr = i
  · obtain ⟨hown, hin, hlr⟩ := hrec
    rw [heldLr_of_owner hown hin, heldLr_of_owner (hint ▸ hown) (hint ▸ hin), hint, hlr,
      if_neg (hbefore hown hin hlr), if_neg (hafter hown hin hlr)]
  · refine heldLr_congr (by rw [hint]) (by rw [hint]) (by rw [hint]) fun w hown hin => Or.inl ?_
    refine hregs w _ fun hsame => hrec ⟨?_, hin, hsame.2⟩
    rw [hown, hsame.1]

/-! ## The state by its parts -/

@[simp] theorem heldState_none : heldState none = .inv := rfl

@[simp] theorem heldState_some (lr : ListReg) : heldState (some lr) = lr.state := rfl

@[simp] theorem heldSource_none : heldSource none = 0#8 := rfl

@[simp] theorem heldSource_some (lr : ListReg) :
    heldSource (some lr) = if lr.state.pending then 1#8 <<< lr.cpuid else 0#8 := rfl

theorem gicOf_plain (hsgi : isV2Sgi P k = false) (i : VgicInt) (held : Option ListReg) :
    gicOf P k i held =
      ⟨i.state.pending || (heldState held).pending, i.state.active || (heldState held).active,
        0#8⟩ := by
  simp [gicOf, hsgi]

theorem gicOf_congr {i j : VgicInt} (hstate : j.state = i.state) (hpend : j.sgiPend = i.sgiPend)
    (held : Option ListReg) : gicOf P k j held = gicOf P k i held := by
  unfold gicOf
  rw [hstate, hpend]

theorem Sound.congr {i j : VgicInt} {held : Option ListReg} (h : Sound P k i held)
    (hin : j.inLr = true → i.inLr = true) (hstate : j.state = i.state)
    (hpend : j.sgiPend = i.sgiPend) (hen : j.enabled = i.enabled) : Sound P k j held where
  idle hj := by
    rw [hstate]
    exact h.idle (hin hj)
  once lr hheld hp := by
    rw [hstate]
    exact h.once lr hheld hp
  fixed hsgi := by
    rw [hen]
    exact h.fixed hsgi
  pend hsgi hp := by
    rw [hstate] at hp
    rw [hpend]
    exact h.pend hsgi hp
  source lr hsgi hheld hp := by
    rw [hpend]
    exact h.source lr hsgi hheld hp

/-! ## Following what happens -/

theorem HandedOn.mono (hlog : ∀ w ∈ s.lrWrites, w ∈ s'.lrWrites) (h : HandedOn P s k) :
    HandedOn P s' k := by
  obtain ⟨hhw, w, hw, hrest⟩ := h
  exact ⟨hhw, w, hlog w hw, hrest⟩

theorem Follows.trans_none (h : Follows P act s s') (h' : Follows P none s' s'') :
    Follows P act s s'' where
  log w hw := h'.log w (h.log w hw)
  state k := ((h.state k).mono (HandedOn.mono h'.log)).trans (h'.state k)

theorem Follows.none_trans (h : Follows P none s s') (h' : Follows P act s' s'') :
    Follows P act s s'' where
  log w hw := h'.log w (h.log w hw)
  state k := (((h.state k).mono (HandedOn.mono h'.log)).step act).trans (h'.state k)

namespace Carries

theorem trans_none (h : Carries P act s s') (h' : Carries P none s' s'') : Carries P act s s'' :=
  ⟨h'.stored, h.follows.trans_none h'.follows⟩

theorem none_trans (h : Carries P none s s') (h' : Carries P act s' s'') : Carries P act s s'' :=
  ⟨h'.stored, h.follows.none_trans h'.follows⟩

/-- `curr_lrs` stays, and valid registers keep their interrupt. -/
structure KeepsRegs (s s' : VgicState) : Prop where
  curr : ∀ w, (s'.cpus w).currLrs = (s.cpus w).currLrs
  lrs : ∀ w i, ((s'.cpus w).lrs i).state ≠ .inv →
    ((s.cpus w).lrs i).state ≠ .inv ∧ ((s'.cpus w).lrs i).vid = ((s.cpus w).lrs i).vid

theorem KeepsRegs.ofSame (hcurr : ∀ w, (s'.cpus w).currLrs = (s.cpus w).currLrs)
    (hlrs : ∀ w i, SameReg ((s.cpus w).lrs i) ((s'.cpus w).lrs i)) : KeepsRegs s s' where
  curr := hcurr
  lrs w i hvalid := by
    rcases hlrs w i with heq | ⟨-, hinv⟩
    · rw [heq] at hvalid ⊢
      exact ⟨hvalid, rfl⟩
    · exact (hvalid hinv).elim

theorem stored_of_regs (h : Stored P s) (hregs : KeepsRegs s s')
    (hrec : ∀ k, (s'.ints k).inLr = true → (s.ints k).inLr = true ∧
      (s'.ints k).owner = (s.ints k).owner ∧ (s'.ints k).lr = (s.ints k).lr)
    (hsound : ∀ k, Sound P k (s'.ints k) (heldLr P s' k)) : Stored P s' where
  recorded {k w} hown hin := by
    obtain ⟨hin', hown', hlr⟩ := hrec k hin
    obtain ⟨hknown, hw, hi, hcurr⟩ := h.recorded (hown'.symm.trans hown) hin'
    rw [hlr]
    refine ⟨hknown, hw, hi, ?_⟩
    rw [hregs.curr]
    exact hcurr
  current {v i} hv hi hvalid := by
    obtain ⟨hold, hvid⟩ := hregs.lrs v i hvalid
    rw [hregs.curr, hvid]
    exact h.current hv hi hold
  sound := hsound

/-- **Nothing about the states changes**: some interrupts may lose a record
that no list register backs. -/
theorem keep (h : Stored P s) (hcurr : ∀ w, (s'.cpus w).currLrs = (s.cpus w).currLrs)
    (hlrs : ∀ w i, SameReg ((s.cpus w).lrs i) ((s'.cpus w).lrs i))
    (hlog : s'.lrWrites = s.lrWrites)
    (hpart : ∀ k, (s'.ints k).state = (s.ints k).state ∧
      (s'.ints k).sgiPend = (s.ints k).sgiPend ∧ (s'.ints k).enabled = (s.ints k).enabled)
    (hrec : ∀ k, ((s'.ints k).inLr = false ∧ heldLr P s k = none) ∨
      ((s'.ints k).owner = (s.ints k).owner ∧ (s'.ints k).inLr = (s.ints k).inLr ∧
        (s'.ints k).lr = (s.ints k).lr)) : Carries P none s s' := by
  have hheld : ∀ k, heldLr P s' k = heldLr P s k := by
    intro k
    rcases hrec k with ⟨hout, hnone⟩ | ⟨hown, hin, hlr⟩
    · rw [heldLr_out hout, hnone]
    · exact heldLr_congr hown hin hlr fun w _ _ => hlrs w _
  refine ⟨stored_of_regs h (.ofSame hcurr hlrs) (fun k hin => ?_) fun k => ?_,
    fun w hw => ?_, fun k => ?_⟩
  · rcases hrec k with ⟨hout, -⟩ | ⟨hown, hsame, hlr⟩
    · rw [hout] at hin
      cases hin
    · exact ⟨hsame ▸ hin, hown, hlr⟩
  · rw [hheld k]
    refine (h.sound k).congr (fun hin => ?_) (hpart k).1 (hpart k).2.1 (hpart k).2.2
    rcases hrec k with ⟨hout, -⟩ | ⟨-, hsame, -⟩
    · rw [hout] at hin
      cases hin
    · exact hsame ▸ hin
  · rw [hlog]
    exact hw
  · have hsame : gicState P s' k = gicState P s k := by
      rw [gicState, hheld k]
      exact gicOf_congr (hpart k).1 (hpart k).2.1 _
    rw [gicStep_none, hsame]
    exact Short.refl _ _

theorem refl (h : Stored P s) : Carries P none s s :=
  keep h (fun _ => rfl) (fun _ _ => Or.inl rfl) rfl (fun _ => ⟨rfl, rfl, rfl⟩)
    fun _ => Or.inr ⟨rfl, rfl, rfl⟩

/-- **One interrupt changes** its state or its list register: what has to be
shown is about that interrupt. -/
theorem change (a : Option GicAct) (h : Stored P s) (k : IntKey) (hregs : KeepsRegs s s')
    (hlog : s'.lrWrites = s.lrWrites)
    (hne : ∀ k', k' ≠ k → s'.ints k' = s.ints k' ∧ heldLr P s' k' = heldLr P s k')
    (hrec : (s'.ints k).inLr = true → (s.ints k).inLr = true ∧
      (s'.ints k).owner = (s.ints k).owner ∧ (s'.ints k).lr = (s.ints k).lr)
    (hsound : Sound P k (s'.ints k) (heldLr P s' k))
    (hstate : gicState P s' k = gicStep (a.map (k, ·)) (gicState P s) k) :
    Carries P (a.map (k, ·)) s s' := by
  refine ⟨stored_of_regs h hregs (fun k' hin => ?_) fun k' => ?_, fun w hw => ?_, fun k' => ?_⟩
  · by_cases hk : k' = k
    · subst hk
      exact hrec hin
    · rw [(hne k' hk).1] at hin ⊢
      exact ⟨hin, rfl, rfl⟩
  · by_cases hk : k' = k
    · subst hk
      exact hsound
    · rw [(hne k' hk).1, (hne k' hk).2]
      exact h.sound k'
  · rw [hlog]
    exact hw
  · by_cases hk : k' = k
    · subst hk
      rw [hstate]
      exact Short.refl _ _
    · have hsame : gicState P s' k' = gicState P s k' := by
        rw [gicState, (hne k' hk).1, (hne k' hk).2]
        rfl
      have hother : gicStep (a.map (k, ·)) (gicState P s) k' = gicState P s k' := by
        cases a with
        | none => rfl
        | some a => exact gicStep_other a _ hk
      rw [hother, hsame]
      exact Short.refl _ _

/-! ## Functions that leave the states alone -/

theorem quiet (h : Stored P s) (hq : Quiet v s s') : Carries P none s s' := by
  have hcpu : ∀ w, (s'.cpus w).lrs = (s.cpus w).lrs ∧
      (s'.cpus w).currLrs = (s.cpus w).currLrs := by
    intro w
    by_cases hw : w = v
    · subst hw
      exact ⟨hq.lrs, hq.currLrs⟩
    · rw [hq.others w hw]
      exact ⟨rfl, rfl⟩
  refine keep h (fun w => (hcpu w).2) (fun w i => Or.inl (by rw [(hcpu w).1])) hq.lrWrites
    (fun k => ?_) fun k => Or.inr ?_ <;> rw [hq.ints] <;> exact ⟨rfl, rfl, rfl⟩

/-- A change of one interrupt that keeps its state, and its record if a list
register backs it. -/
theorem updInt (h : Stored P s) (k : IntKey) {f : VgicInt → VgicInt}
    (hpart : (f (s.ints k)).state = (s.ints k).state ∧
      (f (s.ints k)).sgiPend = (s.ints k).sgiPend ∧
      (f (s.ints k)).enabled = (s.ints k).enabled)
    (hrec : ((f (s.ints k)).inLr = false ∧ heldLr P s k = none) ∨
      ((f (s.ints k)).owner = (s.ints k).owner ∧ (f (s.ints k)).inLr = (s.ints k).inLr ∧
        (f (s.ints k)).lr = (s.ints k).lr)) : Carries P none s (s.updInt k f) := by
  refine keep h (fun _ => rfl) (fun _ _ => Or.inl rfl) rfl (fun k' => ?_) fun k' => ?_ <;>
    by_cases hk : k' = k
  · subst hk
    rw [VgicState.updInt_ints_same]
    exact hpart
  · rw [VgicState.updInt_ints_ne s f hk]
    exact ⟨rfl, rfl, rfl⟩
  · subst hk
    rw [VgicState.updInt_ints_same]
    exact hrec
  · rw [VgicState.updInt_ints_ne s f hk]
    exact Or.inr ⟨rfl, rfl, rfl⟩

theorem take (h : Stored P s) (hl : Lodged P X s) (hown : (s.ints k).owner = none) :
    Carries P none s (s.updInt k fun i => { i with owner := some v }) := by
  refine updInt h k ⟨rfl, rfl, rfl⟩ (Or.inl ⟨?_, heldLr_unowned hown⟩)
  exact Bool.eq_false_iff.mpr fun hin => hl.owned k hin hown

theorem getOwnership (h : Stored P s) (hl : Lodged P X s) (v : Nat) (k : IntKey) :
    Carries P none s (vgicGetOwnership v k s).2 := by
  rcases vgicGetOwnership_cases v k s with ⟨-, hget⟩ | ⟨hown, hget⟩ | ⟨-, hget⟩ <;> rw [hget]
  · exact refl h
  · exact take h hl hown
  · exact refl h

theorem yield (h : Stored P s) (v : Nat) (k : IntKey) :
    Carries P none s (vgicYieldOwnership P v k s) := by
  rcases vgicYieldOwnership_cases (P := P) v k s with hy | ⟨-, -, hout, -, hy⟩ <;> rw [hy]
  · exact refl h
  · exact updInt h k ⟨rfl, rfl, rfl⟩ (Or.inl ⟨hout, heldLr_out hout⟩)

theorem inSpilled (h : Stored P s) (hlrs : ∀ w, (s'.cpus w).lrs = (s.cpus w).lrs ∧
    (s'.cpus w).currLrs = (s.cpus w).currLrs) (hlog : s'.lrWrites = s.lrWrites)
    (hints : ∀ k, ∃ b, s'.ints k = { s.ints k with inSpilled := b }) : Carries P none s s' := by
  refine keep h (fun w => (hlrs w).2) (fun w i => Or.inl (by rw [(hlrs w).1])) hlog
    (fun k => ?_) fun k => Or.inr ?_ <;> obtain ⟨b, hb⟩ := hints k <;> rw [hb] <;>
    exact ⟨rfl, rfl, rfl⟩

theorem spill (h : Stored P s) (v : Nat) (k : IntKey) :
    Carries P none s (vgicAddSpilled v k s) :=
  inSpilled h (fun w => ⟨(vgicAddSpilled_lrs v k s w).1, (vgicAddSpilled_lrs v k s w).2.1⟩)
    (vgicAddSpilled_lrWrites v k s) fun k' => vgicAddSpilled_ints v k s k'

theorem removeSpilled (h : Stored P s) (v : Nat) (k : IntKey) :
    Carries P none s (vgicRemoveSpilled v k s) := by
  refine inSpilled h (vgicRemoveSpilled_lrs v k s) (vgicRemoveSpilled_lrWrites v k s) fun k' => ?_
  by_cases hk : k' = k
  · subst hk
    exact ⟨false, vgicRemoveSpilled_int v k' s⟩
  · exact ⟨(s.ints k').inSpilled, vgicRemoveSpilled_ints_ne v k s hk⟩

end Carries

end Bao

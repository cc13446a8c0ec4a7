import BaoHypervisor.VaplicSystem

/-!
# Which harts an operation updates

In direct delivery every hart has a `topi` register and an interrupt line, which
are right when its update has run and go stale when a register changes.  An
operation changes registers (`changed`) and updates harts (`Refreshes`): its own
one at once, others by a message.  A fact about a hart that its update makes true
is kept by a step if the change of registers keeps it for the harts that are not
updated: `settled_step`.
-/

namespace Bao

open WordRegs (bit put setBit clearBit)

/-! ## What an operation changes, and whom it updates -/

/-- A source of a word, one of those in `w`, is targeted at a hart. -/
def Vaplic.WordAt (r : Vaplic) (reg : Nat) (w : BitVec 32) (hart : Nat) : Prop :=
  ∃ k, k < 32 ∧ w.getLsbD k = true ∧ r.hartIndex (reg * 32 + k) = hart

instance Vaplic.decidableWordAt (r : Vaplic) (reg : Nat) (w : BitVec 32) (hart : Nat) :
    Decidable (r.WordAt reg w hart) := by
  unfold Vaplic.WordAt
  infer_instance

variable (P : VaplicPlat)

/-- The registers before the harts are updated. -/
def VaplicEvent.change (s : VaplicState) (e : VaplicEvent) : Vaplic :=
  let r := s.regs
  match e.op with
  | .setDomaincfg newVal =>
      let dm : BitVec 32 := if P.irqc = .aia then 1#32 <<< 2 else 0
      { r with domaincfg := newVal &&& 1#32 <<< 8 ||| dm ||| 0x80#32 <<< 24 }
  | .setSourcecfg i newVal =>
      if vaplicIntpValid i = true ∧ r.srccfg i ≠ newVal then
        applySourcecfg i (newSourcecfg P e.reads i newVal) r
      else r
  | .setSetip reg newVal =>
      if reg < aplicNumSetixRegs then
        { r with ip := put r.ip reg (r.ip reg ||| newVal &&& r.active reg) }
      else r
  | .setSetipnum newVal =>
      if vaplicCanPend newVal.toNat r then { r with ip := setBit r.ip newVal.toNat } else r
  | .setInClrip reg newVal =>
      if reg < aplicNumSetixRegs then
        { r with ip := put r.ip reg (clearedIp e.reads reg newVal r) }
      else r
  | .setClripnum newVal =>
      if r.getActive newVal.toNat && r.getPend newVal.toNat then
        if vaplicGetHw P newVal.toNat && bit e.reads.pend newVal.toNat then r
        else { r with ip := clearBit r.ip newVal.toNat }
      else r
  | .setSetie reg newVal =>
      if reg < aplicNumSetixRegs ∧ r.ie reg ≠ newVal then
        { r with ie := put r.ie reg (r.ie reg ||| newVal &&& r.active reg) }
      else r
  | .setSetienum newVal =>
      if r.getActive newVal.toNat && !r.getEnbl newVal.toNat then
        { r with ie := setBit r.ie newVal.toNat }
      else r
  | .setClrie reg newVal =>
      if reg < aplicNumSetixRegs then
        { r with ie := put r.ie reg (r.ie reg &&& ~~~(newVal &&& r.active reg)) }
      else r
  | .setClrienum newVal =>
      if r.getActive newVal.toNat && r.getEnbl newVal.toNat then
        { r with ie := clearBit r.ie newVal.toNat }
      else r
  | .setTarget i newVal =>
      if r.getActive i = true ∧ r.getTarget i ≠ maskTarget P newVal then
        { r with target := atCpu r.target i (newTarget P e.reads i newVal) }
      else r
  | .setIdelivery idc newVal =>
      if idc < P.idcNum then
        { r with idelivery := atCpu r.idelivery idc (newVal.getLsbD 0) }
      else r
  | .setIforce idc newVal =>
      if idc < P.idcNum then { r with iforce := atCpu r.iforce idc (newVal.getLsbD 0) } else r
  | .setIthreshold idc newVal =>
      if idc < P.idcNum then
        { r with ithreshold := atCpu r.ithreshold idc (newVal &&& P.iprioMask.setWidth 32) }
      else r
  | .getClaimi idc => if idc < P.idcNum then applyClaim idc r else r
  | .inject i => if vaplicCanPend i r then { r with ip := setBit r.ip i } else r
  | _ => r

/-- The state before the harts are updated: a message delivered is taken. -/
def VaplicEvent.changed (s : VaplicState) (e : VaplicEvent) : VaplicState :=
  { s with
    regs := e.change P s
    inbox :=
      match e.op with
      | .deliver i => atCpu s.inbox (P.physId e.vcpu) ((s.inbox (P.physId e.vcpu)).eraseIdx i)
      | _ => s.inbox }

/-- The harts that an operation updates. -/
def VaplicEvent.Refreshes (s : VaplicState) (e : VaplicEvent) (hart : Nat) : Prop :=
  let r := s.regs
  match e.op with
  | .setDomaincfg _ => True
  | .setSourcecfg i newVal =>
      (vaplicIntpValid i = true ∧ r.srccfg i ≠ newVal) ∧ (e.change P s).hartIndex i = hart
  | .setSetip reg newVal =>
      reg < aplicNumSetixRegs ∧ r.WordAt reg (~~~(r.ip reg) &&& (newVal &&& r.active reg)) hart
  | .setSetipnum newVal =>
      vaplicCanPend newVal.toNat r = true ∧ r.hartIndex newVal.toNat = hart
  | .setInClrip reg newVal =>
      reg < aplicNumSetixRegs ∧
        r.WordAt reg (r.ip reg &&& ~~~(clearedIp e.reads reg newVal r)) hart
  | .setClripnum newVal =>
      (r.getActive newVal.toNat && r.getPend newVal.toNat) = true ∧
        r.hartIndex newVal.toNat = hart
  | .setSetie reg newVal =>
      (reg < aplicNumSetixRegs ∧ r.ie reg ≠ newVal) ∧
        r.WordAt reg (~~~(r.ie reg) &&& (newVal &&& r.active reg)) hart
  | .setSetienum newVal =>
      (r.getActive newVal.toNat && !r.getEnbl newVal.toNat) = true ∧
        r.hartIndex newVal.toNat = hart
  | .setClrie reg newVal =>
      reg < aplicNumSetixRegs ∧ r.WordAt reg (r.ip reg &&& ~~~(newVal &&& r.active reg)) hart
  | .setClrienum newVal =>
      (r.getActive newVal.toNat && r.getEnbl newVal.toNat) = true ∧
        r.hartIndex newVal.toNat = hart
  | .setTarget i newVal =>
      (r.getActive i = true ∧ r.getTarget i ≠ maskTarget P newVal) ∧
        (r.hartIndex i ≠ targetHart P newVal ∧ r.hartIndex i = hart ∨
          (e.change P s).hartIndex i = hart)
  | .setIdelivery idc _ | .setIforce idc _ | .setIthreshold idc _ | .getClaimi idc => idc = hart
  | .inject i => vaplicCanPend i r = true ∧ r.hartIndex i = hart
  | .deliver _ => e.vcpu = hart
  | _ => False

/-! ## What updates keep -/

/-- A property of states that the update of a hart keeps. -/
def KeptByUpdates (p : VaplicState → Prop) : Prop :=
  ∀ s v vhart, p s → p (vaplicUpdateHartLine P v vhart s)

variable {P} {v : Nat} {s : VaplicState} {p : VaplicState → Prop}

theorem foldl_kept {α : Type} {f : VaplicState → α → VaplicState}
    (hf : ∀ s i, p s → p (f s i)) {l : List α} (h : p s) : p (l.foldl f s) := by
  induction l generalizing s with
  | nil => exact h
  | cons i l ih => exact ih (hf s i h)

theorem foldl_own {α : Type} {f : VaplicState → α → VaplicState} {q : VaplicState → Prop}
    (hq : ∀ s i, q s → q (f s i)) (hf : ∀ s i, p s → p (f s i)) {i : α}
    (hown : ∀ s, q s → p (f s i)) {l : List α} (hi : i ∈ l) (h : q s) : p (l.foldl f s) := by
  induction l generalizing s with
  | nil => cases hi
  | cons j l ih =>
    rcases List.mem_cons.mp hi with heq | hi
    · change p (l.foldl f (f s j))
      rw [← heq]
      exact foldl_kept hf (hown s h)
    · exact ih hi (hq s j h)

/-- An operation with a guard: it changes registers and updates harts, or does
nothing. -/
theorem guarded_kept {c : Prop} [Decidable c] {f : Vaplic → Vaplic}
    {u : VaplicState → VaplicState} (hu : ∀ s, p s → p (u s))
    (h : p { s with regs := if c then f s.regs else s.regs }) :
    p (if c then u (s.updRegs f) else s) := by
  split at h
  · rename_i hc
    rw [if_pos hc]
    exact hu _ h
  · rename_i hc
    rw [if_neg hc]
    exact h

section Direct

variable (haplic : P.irqc = .aplic) (hp : KeptByUpdates P p)

include haplic hp

theorem vaplicUpdateHart_kept (vhart irqId : Option Nat) (h : p s) :
    p (vaplicUpdateHart P v vhart irqId s) := by
  unfold vaplicUpdateHart
  rw [haplic]
  cases vhart with
  | none => exact foldl_kept (fun s i => hp s v i) h
  | some vhart =>
    dsimp only
    split
    · exact hp s v vhart h
    · exact h

theorem vaplicUpdateIntp_kept (i : Nat) (h : p s) : p (vaplicUpdateIntp P v i s) :=
  vaplicUpdateHart_kept haplic hp _ _ h

theorem vaplicUpdateIntps_kept (reg : Nat) (updateIntps : BitVec 32) (h : p s) :
    p (vaplicUpdateIntps P v reg updateIntps s) :=
  foldl_kept (fun _ i => vaplicUpdateIntp_kept haplic hp i) h

/-- **Frame rule.**  What updates keep is kept from the changed state on. -/
theorem VaplicEvent.next_kept {e : VaplicEvent} (hen : e.enabled P s) (h : p (e.changed P s)) :
    p (e.next P s) := by
  obtain ⟨v, op, a⟩ := e
  have hhart : ∀ vhart irqId s, p s → p (vaplicUpdateHart P v vhart irqId s) :=
    fun vhart irqId _ h => vaplicUpdateHart_kept haplic hp vhart irqId h
  have hintp : ∀ i s, p s → p (vaplicUpdateIntp P v i s) :=
    fun i _ h => vaplicUpdateIntp_kept haplic hp i h
  have hintps : ∀ reg w s, p s → p (vaplicUpdateIntps P v reg w s) :=
    fun reg w _ h => vaplicUpdateIntps_kept haplic hp reg w h
  have hidc : ∀ idc f, p { s with regs := if idc < P.idcNum then f s.regs else s.regs } →
      p (vaplicSetIdc P v idc f s) := by
    intro idc f h
    unfold vaplicSetIdc
    apply hhart
    exact guarded_kept (u := id) (fun _ h => h) h
  cases op with
  | setDomaincfg newVal => exact hhart none none _ h
  | setSourcecfg i newVal => exact guarded_kept (hintp i) h
  | setSetip reg newVal => exact guarded_kept (hintps reg _) h
  | setSetipnum newVal => exact guarded_kept (hintp _) h
  | setInClrip reg newVal => exact guarded_kept (hintps reg _) h
  | setClripnum newVal =>
    change p (vaplicSetClripnum P v a newVal s)
    unfold vaplicSetClripnum
    unfold VaplicEvent.changed VaplicEvent.change at h
    dsimp only at h ⊢
    split at h
    · rename_i hpend
      rw [if_pos hpend]
      apply hintp
      split at h
      · rename_i hhw
        rw [if_pos hhw]
        exact h
      · rename_i hhw
        rw [if_neg hhw]
        exact h
    · rename_i hpend
      rw [if_neg hpend]
      exact h
  | setSetie reg newVal => exact guarded_kept (hintps reg _) h
  | setSetienum newVal => exact guarded_kept (hintp _) h
  | setClrie reg newVal => exact guarded_kept (hintps reg _) h
  | setClrienum newVal => exact guarded_kept (hintp _) h
  | setTarget i newVal =>
    change p (vaplicSetTarget P v a i newVal s)
    unfold vaplicSetTarget
    unfold VaplicEvent.changed VaplicEvent.change at h
    dsimp only at h ⊢
    split at h
    · rename_i hnew
      rw [if_pos hnew]
      apply hintp
      split
      · exact hhart _ _ _ h
      · exact h
    · rename_i hnew
      rw [if_neg hnew]
      exact h
  | setIdelivery idc newVal => exact hidc idc _ h
  | setIforce idc newVal => exact hidc idc _ h
  | setIthreshold idc newVal => exact hidc idc _ h
  | getClaimi idc => exact guarded_kept (hhart (some idc) none) h
  | inject i => exact guarded_kept (hintp i) h
  | deliver i =>
    change p (vaplicIpiHandler P v i s)
    unfold vaplicIpiHandler
    rw [List.getElem?_eq_getElem hen.2.2]
    exact hhart _ _ _ h
  | _ => exact h

variable {h : Nat} (hlt : h < P.idcNum) (hown : ∀ s v, p (vaplicUpdateHartLine P v h s))

include hlt hown

omit hp in
theorem vaplicUpdateHart_own (irqId : Option Nat) :
    p (vaplicUpdateHart P v (some h) irqId s) := by
  have hmod : h % 2 ^ 16 = h := Nat.mod_eq_of_lt (by have := P.idcNum_le; omega)
  unfold vaplicUpdateHart
  rw [haplic]
  dsimp only
  rw [hmod, if_pos hlt]
  exact hown s v

theorem vaplicUpdateHart_all (irqId : Option Nat) : p (vaplicUpdateHart P v none irqId s) := by
  unfold vaplicUpdateHart
  rw [haplic]
  exact foldl_own (q := fun _ => True) (fun _ _ _ => trivial) (fun s i => hp s v i)
    (fun s _ => hown s v) (List.mem_range.mpr hlt) trivial

omit hp in
theorem vaplicUpdateIntp_own {i : Nat} (hi : s.regs.hartIndex i = h) :
    p (vaplicUpdateIntp P v i s) := by
  unfold vaplicUpdateIntp
  rw [hi]
  exact vaplicUpdateHart_own haplic hlt hown _

theorem vaplicUpdateIntps_own {reg : Nat} {updateIntps : BitVec 32}
    (hw : s.regs.WordAt reg updateIntps h) : p (vaplicUpdateIntps P v reg updateIntps s) := by
  obtain ⟨k, hk, hbit, hat⟩ := hw
  have hmod : (reg * 32 + k) % 32 = k := by omega
  have hmem : reg * 32 + k ∈ (List.range' (reg * 32) 32).filter
      fun i => updateIntps.getLsbD (i % 32) := by
    rw [List.mem_filter, hmod]
    exact ⟨List.mem_range'_1.mpr ⟨by omega, by omega⟩, hbit⟩
  -- the sources keep their targets while the harts are updated
  have hq : ∀ t i, t.regs.hartIndex (reg * 32 + k) = h →
      (vaplicUpdateIntp P v i t).regs.hartIndex (reg * 32 + k) = h := by
    intro t i ht
    rw [(vaplicUpdateIntp_refreshed i).hartIndex]
    exact ht
  exact foldl_own hq (fun t i => vaplicUpdateIntp_kept haplic hp i)
    (fun t ht => vaplicUpdateIntp_own haplic hlt hown ht) hmem hat

/-- **Update rule.**  What the update of a hart makes true is true after an
operation that updates it. -/
theorem VaplicEvent.next_own {e : VaplicEvent} (hen : e.enabled P s)
    (haddr : ∀ cpu, ∀ j ∈ s.inbox cpu, P.physId j = cpu) (href : e.Refreshes P s h) :
    p (e.next P s) := by
  obtain ⟨v, op, a⟩ := e
  have hidc : ∀ idc f, idc = h → p (vaplicSetIdc P v idc f s) := by
    intro idc f heq
    unfold vaplicSetIdc
    rw [heq]
    exact vaplicUpdateHart_own haplic hlt hown none
  have hinject : ∀ i, vaplicCanPend i s.regs = true ∧ s.regs.hartIndex i = h →
      p (vaplicInject P v i s) := by
    intro i hi
    unfold vaplicInject
    rw [if_pos hi.1]
    exact vaplicUpdateIntp_own haplic hlt hown hi.2
  cases op with
  | setDomaincfg newVal => exact vaplicUpdateHart_all haplic hp hlt hown none
  | setSourcecfg i newVal =>
    obtain ⟨hnew, hat⟩ := href
    change p (vaplicSetSourcecfg P v a i newVal s)
    unfold VaplicEvent.change at hat
    dsimp only at hat
    rw [if_pos hnew] at hat
    unfold vaplicSetSourcecfg
    rw [if_pos hnew]
    exact vaplicUpdateIntp_own haplic hlt hown hat
  | setSetip reg newVal =>
    obtain ⟨hreg, hat⟩ := href
    change p (vaplicSetSetip P v reg newVal s)
    unfold vaplicSetSetip
    rw [if_pos hreg]
    exact vaplicUpdateIntps_own haplic hp hlt hown hat
  | setSetipnum newVal => exact hinject _ href
  | setInClrip reg newVal =>
    obtain ⟨hreg, hat⟩ := href
    change p (vaplicSetInClrip P v a reg newVal s)
    unfold vaplicSetInClrip
    rw [if_pos hreg]
    exact vaplicUpdateIntps_own haplic hp hlt hown hat
  | setClripnum newVal =>
    obtain ⟨hpend, hat⟩ := href
    change p (vaplicSetClripnum P v a newVal s)
    unfold vaplicSetClripnum
    dsimp only
    rw [if_pos hpend]
    apply vaplicUpdateIntp_own haplic hlt hown
    split
    · exact hat
    · exact hat
  | setSetie reg newVal =>
    obtain ⟨hnew, hat⟩ := href
    change p (vaplicSetSetie P v reg newVal s)
    unfold vaplicSetSetie
    rw [if_pos hnew]
    exact vaplicUpdateIntps_own haplic hp hlt hown hat
  | setSetienum newVal =>
    obtain ⟨hnew, hat⟩ := href
    change p (vaplicSetSetienum P v newVal s)
    unfold vaplicSetSetienum
    dsimp only
    rw [if_pos hnew]
    exact vaplicUpdateIntp_own haplic hlt hown hat
  | setClrie reg newVal =>
    obtain ⟨hreg, hat⟩ := href
    change p (vaplicSetClrie P v reg newVal s)
    unfold vaplicSetClrie
    rw [if_pos hreg]
    exact vaplicUpdateIntps_own haplic hp hlt hown hat
  | setClrienum newVal =>
    obtain ⟨hnew, hat⟩ := href
    change p (vaplicSetClrienum P v newVal s)
    unfold vaplicSetClrienum
    dsimp only
    rw [if_pos hnew]
    exact vaplicUpdateIntp_own haplic hlt hown hat
  | setTarget i newVal =>
    obtain ⟨hnew, hat⟩ := href
    change p (vaplicSetTarget P v a i newVal s)
    unfold VaplicEvent.change at hat
    dsimp only at hat
    rw [if_pos hnew] at hat
    unfold vaplicSetTarget
    dsimp only
    rw [if_pos hnew]
    rcases hat with ⟨hprev, hat⟩ | hat
    · apply vaplicUpdateIntp_kept haplic hp
      rw [if_pos hprev, hat]
      exact vaplicUpdateHart_own haplic hlt hown _
    · apply vaplicUpdateIntp_own haplic hlt hown
      split
      · rw [(vaplicUpdateHart_refreshed _ _).hartIndex]
        exact hat
      · exact hat
  | setIdelivery idc newVal => exact hidc idc _ href
  | setIforce idc newVal => exact hidc idc _ href
  | setIthreshold idc newVal => exact hidc idc _ href
  | getClaimi idc =>
    change p (vaplicGetClaimi P v idc s).2
    unfold vaplicGetClaimi
    have heq : idc = h := href
    rw [heq, if_pos hlt]
    exact vaplicUpdateHart_own haplic hlt hown none
  | inject i => exact hinject i href
  | deliver i =>
    change p (vaplicIpiHandler P v i s)
    have hi : i < (s.inbox (P.physId v)).length := hen.2.2
    have hto : (s.inbox (P.physId v))[i] = h := by
      rw [← (show v = h from href)]
      exact P.physId_inj (haddr _ _ (List.getElem_mem hi))
    unfold vaplicIpiHandler
    rw [List.getElem?_eq_getElem hi, hto]
    exact vaplicUpdateHart_own haplic hlt hown none
  | _ => cases href

end Direct

/-! ## Facts about the harts -/

/-- A fact about a hart, its line included, that its own update makes true and
the updates of others keep. -/
structure UpdateLaw (G : Vaplic → Bool → Nat → Prop) : Prop where
  own : ∀ (r : Vaplic) (h : Nat),
    G { r with topiClaimi := atCpu r.topiClaimi h (r.topi h).1 } (r.topi h).2 h
  other : ∀ {r : Vaplic} {l : Bool} {h v : Nat} (t : BitVec 32), h ≠ v → G r l h →
    G { r with topiClaimi := atCpu r.topiClaimi v t } l h

variable (P) in
/-- The fact holds of a hart, unless an update of the hart is on its way. -/
def Settled (G : Vaplic → Bool → Nat → Prop) (h : Nat) (s : VaplicState) : Prop :=
  h ∈ s.inbox (P.physId h) ∨ G s.regs (s.line (P.physId h)) h

variable (P) in
/-- Messages are on their way to the CPU of their hart. -/
def Addressed (s : VaplicState) : Prop := ∀ cpu, ∀ j ∈ s.inbox cpu, P.physId j = cpu

variable {G : Vaplic → Bool → Nat → Prop} {h : Nat}

/-- What an update of a hart does: it runs on the hart's own CPU, or a message is
sent there. -/
theorem vaplicUpdateHartLine_cases (vhart : Nat) :
    vaplicUpdateHartLine P v vhart s = s.setTopi vhart (P.physId vhart) ∨
      vaplicUpdateHartLine P v vhart s = s.sendMsg (P.physId vhart) vhart ∨
      vaplicUpdateHartLine P v vhart s = s ∧ ¬ vhart < P.idcNum := by
  unfold vaplicUpdateHartLine vaplicVcpuidToPcpuid
  by_cases hlt : vhart < P.idcNum
  · rw [if_pos hlt]
    dsimp only
    split
    · rename_i hcpu
      rw [P.physId_inj hcpu]
      exact Or.inl rfl
    · exact Or.inr (Or.inl rfl)
  · rw [if_neg hlt]
    exact Or.inr (Or.inr ⟨rfl, hlt⟩)

theorem settled_setTopi (hlaw : UpdateLaw G) :
    Settled P G h (s.setTopi h (P.physId h)) := by
  refine Or.inr ?_
  change G { s.regs with topiClaimi := atCpu s.regs.topiClaimi h (s.regs.topi h).1 }
    (atCpu s.line (P.physId h) (s.regs.topi h).2 (P.physId h)) h
  rw [atCpu_same]
  exact hlaw.own s.regs h

theorem settled_sendMsg : Settled P G h (s.sendMsg (P.physId h) h) := by
  refine Or.inl ?_
  change h ∈ atCpu s.inbox (P.physId h) (s.inbox (P.physId h) ++ [h]) (P.physId h)
  rw [atCpu_same]
  exact List.mem_append_right _ List.mem_cons_self

theorem settled_own (hlaw : UpdateLaw G) (hlt : h < P.idcNum) (s : VaplicState) (v : Nat) :
    Settled P G h (vaplicUpdateHartLine P v h s) := by
  rcases vaplicUpdateHartLine_cases (P := P) (v := v) (s := s) h with heq | heq | ⟨-, hnot⟩
  · rw [heq]
    exact settled_setTopi hlaw
  · rw [heq]
    exact settled_sendMsg
  · exact absurd hlt hnot

theorem settled_kept (hlaw : UpdateLaw G) : KeptByUpdates P (Settled P G h) := by
  intro s v vhart hs
  rcases vaplicUpdateHartLine_cases (P := P) (v := v) (s := s) vhart with heq | heq | ⟨heq, -⟩
  · rw [heq]
    by_cases hh : h = vhart
    · rw [hh]
      exact settled_setTopi hlaw
    · have hcpu : P.physId h ≠ P.physId vhart := fun hc => hh (P.physId_inj hc)
      refine hs.imp id fun hg => ?_
      change G { s.regs with topiClaimi := atCpu s.regs.topiClaimi vhart _ }
        (atCpu s.line (P.physId vhart) _ (P.physId h)) h
      rw [atCpu_other _ _ hcpu]
      exact hlaw.other _ hh hg
  · rw [heq]
    refine hs.imp (fun hmem => ?_) id
    change h ∈ atCpu s.inbox (P.physId vhart) (s.inbox (P.physId vhart) ++ [vhart]) (P.physId h)
    by_cases hcpu : P.physId h = P.physId vhart
    · rw [hcpu, atCpu_same]
      rw [hcpu] at hmem
      exact List.mem_append_left _ hmem
    · rw [atCpu_other _ _ hcpu]
      exact hmem
  · rw [heq]
    exact hs

theorem addressed_kept : KeptByUpdates P (Addressed P) := by
  intro s v vhart hs
  rcases vaplicUpdateHartLine_cases (P := P) (v := v) (s := s) vhart with heq | heq | ⟨heq, -⟩
  · rw [heq]
    exact hs
  · rw [heq]
    intro cpu j hj
    change j ∈ atCpu s.inbox (P.physId vhart) (s.inbox (P.physId vhart) ++ [vhart]) cpu at hj
    by_cases hcpu : cpu = P.physId vhart
    · rw [hcpu, atCpu_same] at hj
      rcases List.mem_append.mp hj with hj | hj
      · rw [hcpu]
        exact hs _ j hj
      · rw [List.mem_singleton.mp hj, hcpu]
    · rw [atCpu_other _ _ hcpu] at hj
      exact hs cpu j hj
  · rw [heq]
    exact hs

section Steps

variable {e : VaplicEvent} (haplic : P.irqc = .aplic) (hen : e.enabled P s)

include haplic hen

theorem addressed_step (hs : Addressed P s) : Addressed P (e.next P s) := by
  apply VaplicEvent.next_kept haplic addressed_kept hen
  obtain ⟨v, op, a⟩ := e
  cases op with
  | deliver i =>
    intro cpu j hj
    change j ∈ atCpu s.inbox (P.physId v) ((s.inbox (P.physId v)).eraseIdx i) cpu at hj
    by_cases hcpu : cpu = P.physId v
    · rw [hcpu, atCpu_same] at hj
      rw [hcpu]
      exact hs _ j (List.mem_of_mem_eraseIdx hj)
    · rw [atCpu_other _ _ hcpu] at hj
      exact hs cpu j hj
  | _ => exact hs

/-- **Step lemma for the harts.**  A hart stays settled if the change of
registers keeps the fact, should the operation not update the hart. -/
theorem settled_step (hlaw : UpdateLaw G) (haddr : Addressed P s) (hlt : h < P.idcNum)
    (hs : Settled P G h s)
    (hkeep : ¬ e.Refreshes P s h → h ∉ s.inbox (P.physId h) →
      G s.regs (s.line (P.physId h)) h → G (e.change P s) (s.line (P.physId h)) h) :
    Settled P G h (e.next P s) := by
  by_cases href : e.Refreshes P s h
  · exact VaplicEvent.next_own haplic (settled_kept hlaw) hlt (settled_own hlaw hlt) hen haddr href
  · apply VaplicEvent.next_kept haplic (settled_kept hlaw) hen
    have hbox : (e.changed P s).inbox (P.physId h) = s.inbox (P.physId h) := by
      obtain ⟨v, op, a⟩ := e
      cases op with
      | deliver i =>
        have hne : P.physId h ≠ P.physId v := fun hc => href (P.physId_inj hc).symm
        change atCpu s.inbox (P.physId v) _ (P.physId h) = s.inbox (P.physId h)
        rw [atCpu_other _ _ hne]
      | _ => rfl
    unfold Settled
    rw [hbox]
    by_cases hmem : h ∈ s.inbox (P.physId h)
    · exact Or.inl hmem
    · exact Or.inr (hkeep href hmem (hs.resolve_left hmem))

end Steps

end Bao

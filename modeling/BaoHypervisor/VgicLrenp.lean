import BaoHypervisor.VgicStays

/-!
# EOIs of spilled interrupts

`GICH_HCR` counts the EOIs of interrupts that are in no list register, and the last
loop of `gic_maintenance_handler` deactivates one spilled interrupt for each.  The
search takes the first active one on the lists, whoever owns it.  If another vCPU
does, nothing is deactivated, and the count goes down all the same.
-/

namespace Bao

variable (P : VgicPlat)

/-- The active interrupts on the vCPU's own list, and those it owns on the VM's. -/
def ownActive (v : Nat) (s : VgicState) : List IntKey :=
  (spilledFor v s).filter fun k =>
    activeFor P v k s && (decide (k ∈ (s.cpus v).spilled) || decide ((s.ints k).owner = some v))

/-- The first by priority and id of the active interrupts on the vCPU's lists. -/
structure Foremost (v : Nat) (s : VgicState) (c : IntKey) : Prop where
  listed : c ∈ spilledFor v s
  active : activeFor P v c s = true
  pickable : pickable s c = true
  least : ∀ j ∈ spilledFor v s, activeFor P v j s = true →
    intRank c (s.ints c) ≤ intRank j (s.ints j)

/-- The interrupt was active and is not any more. -/
def deactivated (v : Nat) (s s' : VgicState) (k : IntKey) : Bool :=
  activeFor P v k s && !activeFor P v k s'

/-- The state after some turns of the maintenance handler. -/
def afterTurns (v m : Nat) (s : VgicState) : VgicState := (gicMaintenanceTurn P v)^[m] s

/-- **One EOI** deactivates one of the vCPU's interrupts, if one of them is still
active, and nothing else.  A pending interrupt that is enabled goes back to a list
register or a list. -/
structure EoiServed (v : Nat) (own : List IntKey) (s s' : VgicState) : Prop where
  serves : (∃ a ∈ own, activeFor P v a s = true) → ∃ a ∈ own, deactivated P v s s' a = true
  right : ∀ k, Known P k → deactivated P v s s' k = true → k ∈ own
  placed : ∀ k, Known P k → deactivated P v s s' k = true →
    (vgicGetState P v k s).pending = true → (s.ints k).enabled = true →
      k ∈ spilledFor v s' ∨ InRegister v k s'
  others : ∀ k w, w ≠ v → (s.ints k).owner = some w → activeFor P v k s = true →
    s'.ints k = s.ints k

/-- **All trapped EOIs** of a vCPU are served: each deactivates one of its `own`
active interrupts, and after them the first of these by priority are inactive, as
many as there were EOIs.  No other vCPU's active interrupt changed, and the
deactivated ones that are pending and enabled are in a list register or listed. -/
structure EoisServed (v n : Nat) (s : VgicState) : Prop where
  each : ∀ m < n, EoiServed P v (ownActive P v s) (afterTurns P v m s) (afterTurns P v (m + 1) s)
  count : (ownActive P v s).countP (deactivated P v s (afterTurns P v n s)) =
    min n (ownActive P v s).length
  right : ∀ k, Known P k → deactivated P v s (afterTurns P v n s) k = true → k ∈ ownActive P v s
  first : ∀ a ∈ ownActive P v s, ∀ b ∈ ownActive P v s,
    deactivated P v s (afterTurns P v n s) a = true →
    deactivated P v s (afterTurns P v n s) b = false →
      intRank a (s.ints a) < intRank b (s.ints b)
  others : ∀ k w, w ≠ v → (s.ints k).owner = some w → activeFor P v k s = true →
    (afterTurns P v n s).ints k = s.ints k
  placed : ∀ k, Known P k → deactivated P v s (afterTurns P v n s) k = true →
    (vgicGetState P v k s).pending = true → (s.ints k).enabled = true →
      k ∈ spilledFor v (afterTurns P v n s) ∨ ((afterTurns P v n s).ints k).inLr = true

/-- `vgic_add_lr` is called for the interrupt when it is deactivated. -/
def readds (s : VgicState) (k : IntKey) : Bool :=
  !vgicIntIsHw P k && (s.ints k).state.pending

/-- **When one EOI is served**, `own` being the vCPU's interrupts: while one of them
is active the first active interrupt on the lists is theirs, and what the vCPU can
take is; if that one is pending and enabled it is put back, and the interrupt it
displaces is not another vCPU's stray. -/
structure EoiFits (v : Nat) (own : List IntKey) (s : VgicState) : Prop where
  reach : ∀ a ∈ own, activeFor P v a s = true → ∃ c ∈ own, Foremost P v s c
  only : ∀ c, Foremost P v s c → takeable v s c = true → c ∈ own
  kept : ∀ c ∈ own, Foremost P v s c → (vgicGetState P v c s).pending = true →
    (s.ints c).enabled = true → readds P s c = true
  alone : ∀ c ∈ own, Foremost P v s c → readds P s c = true → (s.ints c).enabled = true →
    ∀ x w, displacedBy P v c s = some x → w ≠ v → (s.ints x).owner = some w →
      activeFor P v x s = true → strays s x = false

variable {P} {v : Nat} {s s' : VgicState} {j k c : IntKey} {hcr : Hcr}

/-! ## The search -/

theorem wanted_act (P : VgicPlat) (v : Nat) (s : VgicState) (k : IntKey) :
    wanted P v .act s k = activeFor P v k s := by
  unfold wanted activeFor IntState.meets IntState.act
  simp

theorem Foremost.unique (h : RefillReady P s) (hc : Foremost P v s c) (hk : Foremost P v s k) :
    c = k := by
  have hle := hc.least k hk.listed hk.active
  have hge := hk.least c hc.listed hc.active
  exact h.id_inj hc.listed hk.listed (Prod.mk.inj (toLex.injective (le_antisymm hle hge))).2

/-- **The search** finds the first, or there is none. -/
theorem foremost_cases (P : VgicPlat) (v : Nat) (s : VgicState) :
    (vgicHighestPrioSpilled P v .act s = none ∧ ∀ c, ¬ Foremost P v s c) ∨
    ∃ c, vgicHighestPrioSpilled P v .act s = some c ∧ Foremost P v s c := by
  rcases search_cases P v .act s with ⟨hnone, hall⟩ | ⟨c, hfound, hc, hwanted, hpick, hleast⟩
  · refine Or.inl ⟨hnone, fun c hc => ?_⟩
    have hnot := hall c hc.listed (by rw [wanted_act]; exact hc.active)
    rw [hc.pickable] at hnot
    cases hnot
  · refine Or.inr ⟨c, hfound, hc, ?_, hpick, fun j hj hact => ?_⟩
    · rw [← wanted_act]
      exact hwanted
    · exact hleast j hj (by rw [wanted_act]; exact hact)

theorem RefillReady.finds (h : RefillReady P s) (hk : k ∈ spilledFor v s) : Finds P v k := by
  obtain ⟨w, hw⟩ := h.handlers.lists k (mem_spilledFor_listed hk)
  unfold Finds
  cases hpriv : gicIsPriv k.id with
  | true =>
    obtain ⟨-, id, hid⟩ := h.mine hk hpriv
    rw [hid] at hpriv ⊢
    exact if_pos (of_decide_eq_true hpriv)
  | false =>
    rw [← hw]
    unfold vgicGetInt
    have hnot : ¬ k.id < gicCpuPriv := of_decide_eq_false hpriv
    rw [if_neg hnot, if_neg hnot]

theorem Shelved.finds_or (h : Shelved s) (hk : Known P k) (v : Nat) :
    Finds P v k ∨ ∃ w, w ≠ v ∧ (s.ints k).owner = some w := by
  obtain ⟨w, hw⟩ := hk
  cases hpriv : gicIsPriv k.id with
  | true =>
    obtain ⟨id, hid⟩ := vgicGetInt_own hw hpriv
    rw [hid] at hpriv
    have hlt : id < gicCpuPriv := of_decide_eq_true hpriv
    by_cases hwv : w = v
    · refine Or.inl ?_
      rw [hid, hwv]
      exact if_pos hlt
    · refine Or.inr ⟨w, hwv, ?_⟩
      rw [hid]
      exact h.privOwner w id hlt
  | false =>
    refine Or.inl ?_
    unfold Finds
    rw [← hw]
    unfold vgicGetInt
    have hnot : ¬ k.id < gicCpuPriv := of_decide_eq_false hpriv
    rw [if_neg hnot, if_neg hnot]

/-! ## One turn -/

/-- What the turn does between search and count. -/
def lrenpBody (P : VgicPlat) (v : Nat) (hcr : Hcr) (s s₁ : VgicState) : Prop :=
  gicMaintenanceTurn P v s =
    goTo v (.lrenp { hcr with eoiCount := hcr.eoiCount - 1 })
      (s₁.gichSetHcr v { hcr with eoiCount := hcr.eoiCount - 1 })

theorem turn_body (hpc : (s.cpus v).pc = .lrenp hcr) (hcount : hcr.eoiCount ≠ 0) :
    lrenpBody P v hcr s (vgicEoirHighestSpilledActive P v s) := by
  unfold lrenpBody gicMaintenanceTurn
  rw [hpc]
  dsimp only
  unfold lrenpTurn
  rw [if_neg hcount]

theorem lrenpBody.stays {s₁ : VgicState} (h : lrenpBody P v hcr s s₁) :
    (∀ j, Stays P v j s₁ (gicMaintenanceTurn P v s)) ∧
      (gicMaintenanceTurn P v s).ints = s₁.ints ∧
      spilledFor v (gicMaintenanceTurn P v s) = spilledFor v s₁ ∧
      (((gicMaintenanceTurn P v s).cpus v).lrs = (s₁.cpus v).lrs) ∧
      ((gicMaintenanceTurn P v s).cpus v).pc = .lrenp { hcr with eoiCount := hcr.eoiCount - 1 } := by
  unfold lrenpBody at h
  rw [h]
  have hcpu : ((goTo v (.lrenp { hcr with eoiCount := hcr.eoiCount - 1 })
      (s₁.gichSetHcr v { hcr with eoiCount := hcr.eoiCount - 1 })).cpus v) =
      { s₁.cpus v with
        hcr := { hcr with eoiCount := hcr.eoiCount - 1 }
        pc := .lrenp { hcr with eoiCount := hcr.eoiCount - 1 } } := by
    rw [goTo_cpu, VgicState.gichSetHcr, VgicState.updCpu_cpus_same]
  have hlists : spilledFor v (goTo v (.lrenp { hcr with eoiCount := hcr.eoiCount - 1 })
      (s₁.gichSetHcr v { hcr with eoiCount := hcr.eoiCount - 1 })) = spilledFor v s₁ := by
    unfold spilledFor
    rw [hcpu]
    rfl
  refine ⟨fun j => .same rfl (fun _ _ => Or.inl (by rw [hcpu])) (fun hj => ?_), rfl, hlists,
    by rw [hcpu], by rw [hcpu]⟩
  rw [hlists]
  exact hj

/-- The interrupt once it is off the list and inactive. -/
def unlisted (v : Nat) (k : IntKey) (s : VgicState) : VgicState :=
  (vgicRemoveSpilled v k (vgicGetOwnership v k s).2).updInt k fun i =>
    { i with state := { i.state with active := false } }

/-- What `unlisted` is. -/
structure Unlisted (v : Nat) (k : IntKey) (s s₁ : VgicState) : Prop where
  int : s₁.ints k = { s.ints k with
    owner := some v
    inSpilled := false
    state := { (s.ints k).state with active := false } }
  ints : ∀ j, j ≠ k → s₁.ints j = s.ints j
  lists : spilledFor v s₁ = (spilledFor v s).erase k
  lrs : (s₁.cpus v).lrs = (s.cpus v).lrs

theorem unlisted_spec (h : RefillReady P s) (hk : k ∈ spilledFor v s)
    (hgot : (vgicGetOwnership v k s).1 = true) : Unlisted v k s (unlisted v k s) := by
  obtain ⟨owner, hint⟩ := vgicGetOwnership_ints v k k s
  have howner := vgicGetOwnership_owner hgot
  have hcpus := vgicGetOwnership_cpus v k s
  unfold unlisted
  refine ⟨?_, fun j hj => ?_, ?_, ?_⟩
  · rw [VgicState.updInt_ints_same, vgicRemoveSpilled_int]
    rw [hint] at howner ⊢
    dsimp only at howner
    rw [howner]
  · rw [VgicState.updInt_ints_ne _ _ hj, vgicRemoveSpilled_ints_ne _ _ _ hj]
    exact vgicGetOwnership_ints_ne v s hj
  · exact h.removed hk (by rw [hcpus]) (vgicGetOwnership_spilled v k s)
  · rw [VgicState.updInt_cpus, (vgicRemoveSpilled_lrs v k _ v).1, hcpus]

/-- **A turn that takes the first active interrupt**: what it leaves. -/
structure TurnServes (P : VgicPlat) (v : Nat) (c : IntKey) (s s' : VgicState) : Prop where
  idle : activeFor P v c s' = false
  stays : ∀ j, Finds P v j → j ≠ c → Stays P v j s s'
  kept : readds P s c = true → (s.ints c).enabled = true →
    (c ∈ spilledFor v s' ∨ InRegister v c s') ∧ HasPlace v c s'
  lost : readds P s c = false → c ∉ spilledFor v s' ∧ (s'.ints c).inLr = false
  foreign : ∀ j w, w ≠ v → (s.ints j).owner = some w →
    s'.ints j =
      if (readds P s c = true ∧ (s.ints c).enabled = true) ∧ displacedBy P v c s = some j ∧
          strays s j = true then
        { s.ints j with inSpilled := true }
      else s.ints j

theorem displacedBy_congr (hprio : (s'.ints k).prio = (s.ints k).prio)
    (hlrs : (s'.cpus v).lrs = (s.cpus v).lrs) :
    displacedBy P v k s' = displacedBy P v k s := by
  have hvictim : victimLr P v k s' = victimLr P v k s := by
    unfold victimLr
    dsimp only
    rw [hlrs, hprio]
  unfold displacedBy
  rw [firstLr_congr hlrs, hlrs, hvictim]

theorem eoiSpilled_serves (h : RefillReady P s) (hc : c ∈ spilledFor v s)
    (hgot : (vgicGetOwnership v c s).1 = true) :
    TurnServes P v c s (eoiSpilled P v c (vgicGetOwnership v c s).2) := by
  have hun := unlisted_spec h hc hgot
  have hfinds := h.finds hc
  obtain ⟨hflag, hout⟩ := h.shelf hc
  have hstays : ∀ j, j ≠ c → Stays P v j s (unlisted v c s) := by
    intro j hj
    refine .same (hun.ints j hj) (fun _ _ => Or.inl (by rw [hun.lrs])) fun hin => ?_
    rw [hun.lists]
    exact (List.mem_erase_of_ne hj).mpr hin
  have hgone : c ∉ spilledFor v (unlisted v c s) := by
    rw [hun.lists]
    exact fun hin => ((h.nodup v).mem_erase_iff.mp hin).1 rfl
  have hint := hun.int
  have hreadds : eoiSpilled P v c (vgicGetOwnership v c s).2 =
      if readds P s c then vgicAddLr P v c (unlisted v c s) else unlisted v c s := by
    change (if vgicIntIsHw P c then unlisted v c s
      else if ((unlisted v c s).ints c).state.pending then vgicAddLr P v c (unlisted v c s)
      else unlisted v c s) = _
    rw [hint]
    unfold readds
    cases vgicIntIsHw P c <;> cases (s.ints c).state.pending <;> rfl
  have hflags : ∀ x, ((unlisted v c s).ints x).inLr = true →
      ((unlisted v c s).ints x).inSpilled = false := by
    intro x hin
    by_cases hx : x = c
    · rw [hx, hint]
    · rw [hun.ints x hx] at hin ⊢
      by_contra hsp
      rw [h.shelved.out x (by simpa using hsp)] at hin
      cases hin
  have hdisplaced : displacedBy P v c (unlisted v c s) = displacedBy P v c s :=
    displacedBy_congr (by rw [hint]) hun.lrs
  have hcalled : (s.ints c).enabled = true →
      ((!((unlisted v c s).ints c).enabled && !((unlisted v c s).ints c).state.active) ||
        ((unlisted v c s).ints c).inLr) = false := by
    intro henabled
    rw [hint]
    dsimp only
    rw [henabled, hout]
    rfl
  have hskip : (s.ints c).enabled = false → vgicAddLr P v c (unlisted v c s) = unlisted v c s := by
    intro hdisabled
    unfold vgicAddLr
    rw [hint]
    dsimp only
    rw [hdisabled]
    rfl
  have hidle : activeFor P v c (unlisted v c s) = false := by
    rw [activeFor_out (by rw [hint]; exact hout), hint]
  have hforeign : ∀ j w, w ≠ v → (s.ints j).owner = some w →
      j ≠ c ∧ ((unlisted v c s).ints j).owner ≠ some v := by
    intro j w hw hown
    have hjc : j ≠ c := by
      intro heq
      rw [heq] at hown
      rcases vgicGetOwnership_cases v c s with ⟨hc', -⟩ | ⟨hc', -⟩ | ⟨-, hs⟩
      · rw [hown] at hc'
        exact hw (Option.some.inj hc')
      · rw [hown] at hc'
        cases hc'
      · rw [hs] at hgot
        cases hgot
    refine ⟨hjc, ?_⟩
    rw [hun.ints j hjc, hown]
    exact fun heq => hw (Option.some.inj heq)
  rw [hreadds]
  cases hre : readds P s c with
  | false =>
    rw [if_neg Bool.false_ne_true]
    refine ⟨hidle, fun j _ hj => hstays j hj, fun hno => ?_, fun _ => ⟨hgone, ?_⟩,
      fun j w hw hown => ?_⟩
    · cases hre.symm.trans hno
    · rw [hint]
      exact hout
    · rw [if_neg fun hno => Bool.false_ne_true (hre.symm.trans hno.1.1)]
      exact hun.ints j (hforeign j w hw hown).1
  | true =>
    rw [if_pos rfl]
    obtain ⟨hhw, hpend⟩ : vgicIntIsHw P c = false ∧ (s.ints c).state.pending = true := by
      unfold readds at hre
      simpa using hre
    refine ⟨?_, fun j hfj hj => (hstays j hj).trans (.addLr hj hfj hfinds hflags),
      fun _ henabled => ?_, fun hno => ?_, fun j w hw hown => ?_⟩
    · cases henabled : (s.ints c).enabled with
      | false =>
        rw [hskip henabled]
        exact hidle
      | true =>
        refine (Readded.addLr hhw ?_ ?_ ?_ ?_ ?_).idle <;> rw [hint]
        all_goals assumption
    · have hback : Readded P v c (vgicAddLr P v c (unlisted v c s)) := by
        refine .addLr hhw ?_ ?_ ?_ ?_ ?_ <;> rw [hint]
        all_goals assumption
      exact ⟨hback.seen, hback.place⟩
    · cases hre.symm.trans hno
    · obtain ⟨hjc, hother⟩ := hforeign j w hw hown
      have hsame := hun.ints j hjc
      cases henabled : (s.ints c).enabled with
      | false =>
        rw [hskip henabled, if_neg (fun hno => Bool.false_ne_true hno.1.2), hsame]
      | true =>
        have hstrays : strays (unlisted v c s) j = strays s j := by
          unfold strays
          rw [hsame]
        rw [addLr_foreign hother (by rw [hint]) (hcalled henabled), hdisplaced, hstrays, hsame]
        by_cases hd : displacedBy P v c s = some j ∧ strays s j = true
        · rw [if_pos hd, if_pos ⟨⟨hre, rfl⟩, hd⟩]
        · rw [if_neg hd, if_neg fun hno => hd hno.2]

/-- What a turn that takes nothing leaves. -/
structure TurnIdles (P : VgicPlat) (v : Nat) (s s' : VgicState) : Prop where
  none : ∀ c, Foremost P v s c → takeable v s c = false
  ints : s'.ints = s.ints
  stays : ∀ j, Stays P v j s s'

/-- **A turn of the loop** takes the first active interrupt, or nothing if it cannot
have it or there is none.  Its count goes down. -/
theorem lrenp_turn (h : RefillReady P s) (hpc : (s.cpus v).pc = .lrenp hcr)
    (hcount : hcr.eoiCount ≠ 0) :
    ((gicMaintenanceTurn P v s).cpus v).pc = .lrenp { hcr with eoiCount := hcr.eoiCount - 1 } ∧
      (TurnIdles P v s (gicMaintenanceTurn P v s) ∨
        ∃ c, Foremost P v s c ∧ takeable v s c = true ∧
          TurnServes P v c s (gicMaintenanceTurn P v s)) := by
  have hbody := turn_body (P := P) hpc hcount
  obtain ⟨hstays, hints, hlists, hlrs, hpc'⟩ := hbody.stays
  refine ⟨hpc', ?_⟩
  have hidles : vgicEoirHighestSpilledActive P v s = s →
      (∀ c, Foremost P v s c → takeable v s c = false) →
      TurnIdles P v s (gicMaintenanceTurn P v s) := by
    intro hsame hnone
    rw [hsame] at hstays hints
    exact ⟨hnone, hints, hstays⟩
  rcases foremost_cases P v s with ⟨hnone, hall⟩ | ⟨c, hfound, hc⟩
  · refine Or.inl (hidles ?_ fun c hc => (hall c hc).elim)
    unfold vgicEoirHighestSpilledActive
    rw [hnone]
  · have hel : ((s.ints c).inSpilled && (vgicGetState P v c s).active) = true := by
      rw [(h.shelf hc.listed).1]
      exact hc.active
    cases htake : takeable v s c with
    | false =>
      refine Or.inl (hidles ?_ fun c' hc' => ?_)
      · rw [takeable_eq] at htake
        unfold vgicEoirHighestSpilledActive
        rw [hfound]
        dsimp only
        rw [if_pos hel, htake, if_neg Bool.false_ne_true]
        exact vgicGetOwnership_failed htake
      · rw [← hc.unique h hc']
        exact htake
    | true =>
      refine Or.inr ⟨c, hc, htake, ?_⟩
      rw [takeable_eq] at htake
      have hserves := eoiSpilled_serves h hc.listed htake
      have hsame : vgicEoirHighestSpilledActive P v s =
          eoiSpilled P v c (vgicGetOwnership v c s).2 := by
        unfold vgicEoirHighestSpilledActive
        rw [hfound]
        dsimp only
        rw [if_pos hel, htake, if_pos rfl]
      rw [hsame] at hstays hints hlists hlrs
      refine ⟨?_, fun j hj hjc => (hserves.stays j hj hjc).trans (hstays j), fun hre hen => ?_,
        fun hre => ?_, fun j w hw hown => ?_⟩
      · rw [(hstays c).active]
        exact hserves.idle
      · obtain ⟨hseen, hplace⟩ := hserves.kept hre hen
        refine ⟨?_, (hstays c).place hplace⟩
        unfold InRegister at hseen ⊢
        rw [hlists, hints, hlrs]
        exact hseen
      · rw [hlists, hints]
        exact hserves.lost hre
      · rw [hints]
        exact hserves.foreign j w hw hown

theorem activeFor_foreign {w : Nat} (hw : w ≠ v) (hown : (s.ints j).owner = some w) :
    activeFor P v j s = (s.ints j).state.active := by
  rw [activeFor_eq]
  cases hheld : gichGetLr P v j s with
  | none => rfl
  | some held =>
    obtain ⟨-, hmine, -⟩ := gichGetLr_some v j s hheld
    rw [hown] at hmine
    exact (hw (Option.some.inj hmine)).elim

theorem TurnServes.foreign_same (h : TurnServes P v c s s') {w : Nat} (hw : w ≠ v)
    (hown : (s.ints j).owner = some w) :
    ∃ b, s'.ints j = { s.ints j with inSpilled := b } := by
  rw [h.foreign j w hw hown]
  split
  · exact ⟨true, rfl⟩
  · exact ⟨(s.ints j).inSpilled, rfl⟩

/-- **Only the interrupt that is taken** changes whether it is active. -/
theorem TurnServes.active (hs : Shelved s) (h : TurnServes P v c s s') (hj : Known P j)
    (hjc : j ≠ c) : activeFor P v j s' = activeFor P v j s := by
  rcases hs.finds_or hj v with hfinds | ⟨w, hw, hown⟩
  · exact (h.stays j hfinds hjc).active
  · obtain ⟨b, hsame⟩ := h.foreign_same hw hown
    rw [activeFor_foreign hw (by rw [hsame]; exact hown), activeFor_foreign hw hown, hsame]

/-! ## The condition of one turn -/

/-- What is known, in the loop, of the vCPU's interrupts that are still active. -/
def OwnListed (P : VgicPlat) (v : Nat) (own : List IntKey) (s : VgicState) : Prop :=
  ∀ a ∈ own, activeFor P v a s = true → a ∈ spilledFor v s ∧ (s.ints a).owner = some v

theorem takeable_own (h : (s.ints k).owner = some v) : takeable v s k = true := by
  unfold takeable
  rw [h, decide_eq_true rfl]
  rfl

/-- **One EOI** is served exactly if the state before the turn fits. -/
theorem eoi_served_iff {own : List IntKey} (h : RefillReady P s)
    (hown : OwnListed P v own s) (hpc : (s.cpus v).pc = .lrenp hcr) (hcount : hcr.eoiCount ≠ 0) :
    EoiServed P v own s (gicMaintenanceTurn P v s) ↔ EoiFits P v own s := by
  have hmine : ∀ c ∈ own, Foremost P v s c → takeable v s c = true :=
    fun c hc hfirst => takeable_own (hown c hc hfirst.active).2
  obtain ⟨-, hidles | ⟨c, hc, htake, hserves⟩⟩ := lrenp_turn h hpc hcount
  · -- The turn takes nothing.
    have hnothing : ∀ k, deactivated P v s (gicMaintenanceTurn P v s) k = false := by
      intro k
      unfold deactivated
      rw [(hidles.stays k).active, Bool.and_not_self]
    have hnone : ∀ c ∈ own, ¬ Foremost P v s c := by
      intro c hc hfirst
      have htake := hmine c hc hfirst
      rw [hidles.none c hfirst] at htake
      cases htake
    constructor
    · intro hserved
      refine ⟨fun a ha hact => ?_, fun c hc htake => ?_, fun c hc hfirst => ?_,
        fun c hc hfirst => ?_⟩
      · obtain ⟨a', -, hdeact⟩ := hserved.serves ⟨a, ha, hact⟩
        rw [hnothing a'] at hdeact
        cases hdeact
      · rw [hidles.none c hc] at htake
        cases htake
      · exact (hnone c hc hfirst).elim
      · exact (hnone c hc hfirst).elim
    · intro hfits
      refine ⟨fun hsome => ?_, fun k _ hdeact => ?_, fun k _ hdeact => ?_, fun k w _ _ _ => ?_⟩
      · obtain ⟨a, ha, hact⟩ := hsome
        obtain ⟨c, hc, hfirst⟩ := hfits.reach a ha hact
        exact (hnone c hc hfirst).elim
      · rw [hnothing k] at hdeact
        cases hdeact
      · rw [hnothing k] at hdeact
        cases hdeact
      · rw [hidles.ints]
  · -- The turn takes the first, and deactivates that one only.
    have hdeact : deactivated P v s (gicMaintenanceTurn P v s) c = true := by
      unfold deactivated
      rw [hc.active, hserves.idle]
      rfl
    have hone : ∀ k, Known P k → deactivated P v s (gicMaintenanceTurn P v s) k = true →
        k = c := by
      intro k hk hdeact'
      by_contra hkc
      unfold deactivated at hdeact'
      rw [hserves.active h.shelved hk hkc, Bool.and_not_self] at hdeact'
      cases hdeact'
    have hknown : Known P c := ⟨v, h.finds hc.listed⟩
    constructor
    · intro hserved
      have hin : c ∈ own := hserved.right c hknown hdeact
      refine ⟨fun a ha hact => ⟨c, hin, hc⟩, fun c' hc' _ => ?_, fun c' _ hc' hpend hen => ?_,
        fun c' _ hc' hre hen x w hx hw hown' hact => ?_⟩
      · rw [← hc.unique h hc']
        exact hin
      · rw [← hc.unique h hc'] at hpend hen ⊢
        by_contra hre
        obtain ⟨hunlisted, hout⟩ := hserves.lost (Bool.eq_false_iff.mpr hre)
        rcases hserved.placed c hknown hdeact hpend hen with hlisted | ⟨hreg, -⟩
        · exact hunlisted hlisted
        · rw [hout] at hreg
          cases hreg
      · rw [← hc.unique h hc'] at hre hen hx
        have hsame := hserved.others x w hw hown' hact
        by_contra hstrays
        have hstrays' : strays s x = true := by simpa using hstrays
        rw [hserves.foreign x w hw hown', if_pos ⟨⟨hre, hen⟩, hx, hstrays'⟩] at hsame
        have hflag : true = (s.ints x).inSpilled := congrArg VgicInt.inSpilled hsame
        unfold strays at hstrays'
        rw [← hflag, Bool.not_true, Bool.and_false] at hstrays'
        cases hstrays'
    · intro hfits
      have hin : c ∈ own := hfits.only c hc htake
      refine ⟨fun _ => ⟨c, hin, hdeact⟩, fun k hk hdeact' => ?_,
        fun k hk hdeact' hpend hen => ?_, fun k w hw hown' hact => ?_⟩
      · rw [hone k hk hdeact']
        exact hin
      · rw [hone k hk hdeact'] at hpend hen ⊢
        exact (hserves.kept (hfits.kept c hin hc hpend hen) hen).1
      · rw [hserves.foreign k w hw hown', if_neg]
        intro hall
        have hno := hfits.alone c hin hc hall.1.1 hall.1.2 k w hall.2.1 hw hown' hact
        rw [hall.2.2] at hno
        cases hno

/-! ## The loop -/

theorem afterTurns_succ (P : VgicPlat) (v m : Nat) (s : VgicState) :
    afterTurns P v (m + 1) s = gicMaintenanceTurn P v (afterTurns P v m s) :=
  Function.iterate_succ_apply' _ _ _

theorem mem_ownActive : k ∈ ownActive P v s ↔ k ∈ spilledFor v s ∧ activeFor P v k s = true ∧
    (k ∈ (s.cpus v).spilled ∨ (s.ints k).owner = some v) := by
  unfold ownActive
  simp only [List.mem_filter, Bool.and_eq_true, Bool.or_eq_true, decide_eq_true_eq]

theorem ownActive_owner (h : RefillReady P s) (hk : k ∈ ownActive P v s) :
    (s.ints k).owner = some v := by
  obtain ⟨-, -, hown | hown⟩ := mem_ownActive.mp hk
  · obtain ⟨id, hid, hlt⟩ := h.shelved.own hown
    rw [hid]
    exact h.shelved.privOwner v id hlt
  · exact hown

/-- **In the loop**, whatever it does: where the handler is, and what the vCPU's
interrupts that are still active are. -/
structure LrenpRun (P : VgicPlat) (v n : Nat) (s : VgicState) (m : Nat) : Prop where
  ready : RefillReady P (afterTurns P v m s)
  pc : ∃ hcr, ((afterTurns P v m s).cpus v).pc = .lrenp hcr ∧ hcr.eoiCount = n - m
  own : ∀ a ∈ ownActive P v s, activeFor P v a (afterTurns P v m s) = true →
    a ∈ spilledFor v (afterTurns P v m s) ∧ (afterTurns P v m s).ints a = s.ints a

theorem LrenpRun.listed {n m : Nat} (h : RefillReady P s) (hrun : LrenpRun P v n s m) :
    OwnListed P v (ownActive P v s) (afterTurns P v m s) := by
  intro a ha hact
  obtain ⟨hlisted, hsame⟩ := hrun.own a ha hact
  refine ⟨hlisted, ?_⟩
  rw [hsame]
  exact ownActive_owner h ha

theorem RefillReady.stays_listed (h : RefillReady P s) (hj : j ∈ spilledFor v s)
    (hstays : Stays P v j s s') (hact : activeFor P v j s' = true) :
    j ∈ spilledFor v s' ∧ s'.ints j = s.ints j := by
  obtain ⟨hflag, hout⟩ := h.shelf hj
  rw [hstays.active, activeFor_out hout] at hact
  exact ⟨hstays.listed hj, hstays.shelf hflag hout hact⟩

theorem lrenp_run (h : RefillReady P s) (hv : v < P.vcpuNum) (hpc : (s.cpus v).pc = .lrenp hcr)
    (m : Nat) (hm : m ≤ hcr.eoiCount) : LrenpRun P v hcr.eoiCount s m := by
  induction m with
  | zero => exact ⟨h, ⟨hcr, hpc, rfl⟩, fun a ha _ => ⟨(mem_ownActive.mp ha).1, rfl⟩⟩
  | succ m ih =>
    have hrun := ih (Nat.le_of_succ_le hm)
    obtain ⟨hcr', hpc', hcount⟩ := hrun.pc
    have hnext : RefillReady P (afterTurns P v (m + 1) s) := by
      rw [afterTurns_succ]
      exact hrun.ready.next (e := ⟨v, .maintain⟩) ⟨hv, trivial⟩
    obtain ⟨hpc'', hturn⟩ := lrenp_turn hrun.ready hpc' (by omega)
    rw [← afterTurns_succ] at hpc'' hturn
    refine ⟨hnext, ⟨_, hpc'', ?_⟩, fun a ha hact => ?_⟩
    · dsimp only
      omega
    · have hstays : Stays P v a (afterTurns P v m s) (afterTurns P v (m + 1) s) := by
        rcases hturn with hidles | ⟨c, -, -, hserves⟩
        · exact hidles.stays a
        · refine hserves.stays a (h.finds (mem_ownActive.mp ha).1) fun hac => ?_
          rw [hac, hserves.idle] at hact
          cases hact
      have hbefore : activeFor P v a (afterTurns P v m s) = true := by
        rw [← hstays.active]
        exact hact
      obtain ⟨hlisted, hsame⟩ := hrun.own a ha hbefore
      obtain ⟨hlisted', hsame'⟩ := hrun.ready.stays_listed hlisted hstays hact
      exact ⟨hlisted', hsame'.trans hsame⟩

/-- **After some turns that fit**: what `EoisServed` says so far. -/
structure ServedSoFar (P : VgicPlat) (v : Nat) (s : VgicState) (m : Nat) : Prop where
  count : (ownActive P v s).countP (deactivated P v s (afterTurns P v m s)) =
    min m (ownActive P v s).length
  right : ∀ k, Known P k → deactivated P v s (afterTurns P v m s) k = true → k ∈ ownActive P v s
  first : ∀ a ∈ ownActive P v s, ∀ b ∈ ownActive P v s,
    deactivated P v s (afterTurns P v m s) a = true →
    deactivated P v s (afterTurns P v m s) b = false →
      intRank a (s.ints a) < intRank b (s.ints b)
  others : ∀ k w, w ≠ v → (s.ints k).owner = some w → activeFor P v k s = true →
    (afterTurns P v m s).ints k = s.ints k
  placed : ∀ k, Known P k → deactivated P v s (afterTurns P v m s) k = true →
    (vgicGetState P v k s).pending = true → (s.ints k).enabled = true →
      HasPlace v k (afterTurns P v m s)

theorem deactivated_iff {s s' : VgicState} : deactivated P v s s' k = true ↔
    activeFor P v k s = true ∧ activeFor P v k s' = false := by
  unfold deactivated
  rw [Bool.and_eq_true, Bool.not_eq_true']

theorem not_deactivated (hact : activeFor P v k s = true)
    (h : deactivated P v s s' k = false) : activeFor P v k s' = true := by
  unfold deactivated at h
  rw [hact, Bool.true_and, Bool.not_eq_false'] at h
  exact h

theorem deactivated_congr {s'' : VgicState} (h : activeFor P v k s'' = activeFor P v k s') :
    deactivated P v s s'' k = deactivated P v s s' k := by
  unfold deactivated
  rw [h]

theorem ServedSoFar.start (P : VgicPlat) (v : Nat) (s : VgicState) : ServedSoFar P v s 0 := by
  have hnothing : ∀ k, deactivated P v s (afterTurns P v 0 s) k = false := by
    intro k
    change deactivated P v s s k = false
    unfold deactivated
    rw [Bool.and_not_self]
  refine ⟨?_, fun k _ hk => ?_, fun a _ b _ ha _ => ?_, fun _ _ _ _ _ => rfl,
    fun k _ hk => ?_⟩
  · rw [Nat.zero_min, List.countP_eq_zero]
    intro a _
    rw [hnothing a]
    exact Bool.false_ne_true
  all_goals
    first | rw [hnothing k] at hk | rw [hnothing a] at ha
    contradiction

/-- **One more turn that fits.** -/
theorem ServedSoFar.step {n m : Nat} (h : RefillReady P s) (hrun : LrenpRun P v n s m)
    (hm : m < n) (hfits : EoiFits P v (ownActive P v s) (afterTurns P v m s))
    (hsofar : ServedSoFar P v s m) : ServedSoFar P v s (m + 1) := by
  obtain ⟨hcr, hpc, hcount⟩ := hrun.pc
  have hserved := (eoi_served_iff hrun.ready (hrun.listed h) hpc (by omega)).mpr hfits
  obtain ⟨-, hturn⟩ := lrenp_turn hrun.ready hpc (by omega)
  rw [← afterTurns_succ] at hserved hturn
  have hothers : ∀ k w, w ≠ v → (s.ints k).owner = some w → activeFor P v k s = true →
      (afterTurns P v (m + 1) s).ints k = s.ints k := by
    intro k w hw hown hact
    have hsame := hsofar.others k w hw hown hact
    have hown' : ((afterTurns P v m s).ints k).owner = some w := by
      rw [hsame]
      exact hown
    rw [activeFor_foreign hw hown] at hact
    have hact' : activeFor P v k (afterTurns P v m s) = true := by
      rw [activeFor_foreign hw hown', hsame]
      exact hact
    exact (hserved.others k w hw hown' hact').trans hsame
  rcases hturn with hidles | ⟨c, hc, htake, hserves⟩
  · -- The turn takes nothing, so none of the vCPU's interrupts was active any more.
    have hsame : ∀ k, deactivated P v s (afterTurns P v (m + 1) s) k =
        deactivated P v s (afterTurns P v m s) k :=
      fun k => deactivated_congr (hidles.stays k).active
    have hdone : ∀ a ∈ ownActive P v s, deactivated P v s (afterTurns P v m s) a = true := by
      intro a ha
      by_contra hact
      have hact' := not_deactivated (mem_ownActive.mp ha).2.1 (Bool.eq_false_iff.mpr hact)
      obtain ⟨c, hc, hfirst⟩ := hfits.reach a ha hact'
      have htake := takeable_own ((hrun.listed h) c hc hfirst.active).2
      rw [hidles.none c hfirst] at htake
      cases htake
    have hall := hsofar.count
    rw [List.countP_eq_length.mpr hdone] at hall
    refine ⟨?_, fun k hk hdeact => ?_, fun a ha b hb hda hdb => ?_, hothers,
      fun k hk hdeact hpend hen => ?_⟩
    · rw [List.countP_congr fun a _ => by rw [hsame a], List.countP_eq_length.mpr hdone]
      omega
    · rw [hsame] at hdeact
      exact hsofar.right k hk hdeact
    · rw [hsame] at hda hdb
      exact hsofar.first a ha b hb hda hdb
    · rw [hsame] at hdeact
      exact (hidles.stays k).place (hsofar.placed k hk hdeact hpend hen)
  · -- The turn takes `c`, one of the vCPU's.
    have hin : c ∈ ownActive P v s := hfits.only c hc htake
    have hactive := (mem_ownActive.mp hin).2.1
    have hintc := (hrun.own c hin hc.active).2
    have hother : ∀ k, Known P k → k ≠ c → deactivated P v s (afterTurns P v (m + 1) s) k =
        deactivated P v s (afterTurns P v m s) k :=
      fun k hk hkc => deactivated_congr (hserves.active hrun.ready.shelved hk hkc)
    have hknown : ∀ a ∈ ownActive P v s, Known P a :=
      fun a ha => ⟨v, h.finds (mem_ownActive.mp ha).1⟩
    have hnot : deactivated P v s (afterTurns P v m s) c = false := by
      unfold deactivated
      rw [hc.active, hactive]
      rfl
    have hnow : deactivated P v s (afterTurns P v (m + 1) s) c = true :=
      deactivated_iff.mpr ⟨hactive, hserves.idle⟩
    have hnodup : (ownActive P v s).Nodup := (h.nodup v).filter _
    refine ⟨?_, fun k hk hdeact => ?_, fun a ha b hb hda hdb => ?_, hothers,
      fun k hk hdeact hpend hen => ?_⟩
    · have hbefore := countP_split hin (deactivated P v s (afterTurns P v m s))
      have hafter := countP_split hin (deactivated P v s (afterTurns P v (m + 1) s))
      have hrest : ((ownActive P v s).erase c).countP
          (deactivated P v s (afterTurns P v (m + 1) s)) =
            ((ownActive P v s).erase c).countP (deactivated P v s (afterTurns P v m s)) := by
        refine List.countP_congr fun a ha => ?_
        obtain ⟨hac, ha⟩ := hnodup.mem_erase_iff.mp ha
        rw [hother a (hknown a ha) hac]
      have hbound : ((ownActive P v s).erase c).countP
          (deactivated P v s (afterTurns P v m s)) ≤ (ownActive P v s).length - 1 := by
        rw [← List.length_erase_of_mem hin]
        exact List.countP_le_length
      have hpos := List.length_pos_of_mem hin
      have hcountm := hsofar.count
      rw [hnot, if_neg Bool.false_ne_true] at hbefore
      rw [hnow, if_pos rfl] at hafter
      omega
    · by_cases hkc : k = c
      · rw [hkc]
        exact hin
      · rw [hother k hk hkc] at hdeact
        exact hsofar.right k hk hdeact
    · have hbc : b ≠ c := by
        intro hbc
        rw [hbc, hnow] at hdb
        cases hdb
      rw [hother b (hknown b hb) hbc] at hdb
      by_cases hac : a = c
      · have hact := not_deactivated (mem_ownActive.mp hb).2.1 hdb
        obtain ⟨hlisted, hsame⟩ := hrun.own b hb hact
        have hle := hc.least b hlisted hact
        rw [hintc, hsame] at hle
        rw [hac]
        refine lt_of_le_of_ne hle fun heq => hbc ?_
        have hid := (Prod.mk.inj (toLex.injective heq)).2
        exact (hrun.ready.id_inj hc.listed hlisted hid).symm
      · rw [hother a (hknown a ha) hac] at hda
        exact hsofar.first a ha b hb hda hdb
    · by_cases hkc : k = c
      · rw [hkc] at hpend hen ⊢
        have hout := (h.shelf (mem_ownActive.mp hin).1).2
        have hout' := (hrun.ready.shelf hc.listed).2
        have hsame := (looks_same (P := P) (v := v) hout hintc).1 .pend
        have hpend' : (vgicGetState P v c (afterTurns P v m s)).pending = true := by
          unfold wanted IntState.meets IntState.pend at hsame
          rw [hpend] at hsame
          simpa using hsame
        have hen' : ((afterTurns P v m s).ints c).enabled = true := by
          rw [hintc]
          exact hen
        exact (hserves.kept (hfits.kept c hin hc hpend' hen') hen').2
      · rw [hother k hk hkc] at hdeact
        have hfinds := h.finds (mem_ownActive.mp (hsofar.right k hk hdeact)).1
        exact (hserves.stays k hfinds hkc).place (hsofar.placed k hk hdeact hpend hen)

/-- **Every trapped EOI deactivates one interrupt of the right vCPU** exactly if the
state before each turn of the loop fits: while an interrupt of the vCPU is active, the
first on the lists is one of them. -/
theorem trapped_eois_iff (P : VgicPlat) {s : VgicState} (hreach : (vgicSystem P).Reachable s)
    {v : Nat} (hv : v < P.vcpuNum) {hcr : Hcr} (hpc : (s.cpus v).pc = .lrenp hcr) :
    EoisServed P v hcr.eoiCount s ↔
      ∀ m < hcr.eoiCount, EoiFits P v (ownActive P v s) (afterTurns P v m s) := by
  have h : RefillReady P s := .reach hreach
  have hrun := lrenp_run h hv hpc
  have hiff : ∀ m < hcr.eoiCount, EoiServed P v (ownActive P v s) (afterTurns P v m s)
      (afterTurns P v (m + 1) s) ↔ EoiFits P v (ownActive P v s) (afterTurns P v m s) := by
    intro m hm
    have hrun := hrun m (Nat.le_of_lt hm)
    obtain ⟨hcr', hpc', hcount⟩ := hrun.pc
    rw [afterTurns_succ]
    exact eoi_served_iff hrun.ready (hrun.listed h) hpc' (by omega)
  constructor
  · intro hserved m hm
    exact (hiff m hm).mp (hserved.each m hm)
  · intro hfits
    have hsofar : ∀ m ≤ hcr.eoiCount, ServedSoFar P v s m := by
      intro m
      induction m with
      | zero => exact fun _ => .start P v s
      | succ m ih =>
        intro hm
        exact (ih (Nat.le_of_succ_le hm)).step h (hrun m (Nat.le_of_succ_le hm)) hm (hfits m hm)
    obtain ⟨hcount, hright, hfirst, hothers, hplaced⟩ := hsofar hcr.eoiCount le_rfl
    refine ⟨fun m hm => (hiff m hm).mpr (hfits m hm), hcount, hright, hfirst, hothers,
      fun k hk hdeact hpend hen => ?_⟩
    rcases hplaced k hk hdeact hpend hen with hlisted | ⟨hin, -⟩
    · exact Or.inl hlisted
    · exact Or.inr hin

/-- PPI 21 is active and pending again when vCPU 0 spills it for PPI 22, which the guest
handles as well.  The guest's EOI of PPI 21 is trapped. -/
def trappedPpi : List VgicEvent :=
  [⟨0, .writeField .isenabler 21 0 1⟩, ⟨0, .writeField .ipriorityr 21 0 0x80⟩, ⟨0, .inject 21 0⟩,
    ⟨0, .ackLr 0⟩, ⟨0, .inject 21 0⟩, ⟨0, .writeField .isenabler 22 0 1⟩,
    ⟨0, .writeField .ipriorityr 22 0 0x40⟩, ⟨0, .inject 22 0⟩, ⟨0, .ackLr 0⟩, ⟨0, .countEoi⟩,
    ⟨0, .maintain⟩]

/-- **One interrupt on the lists**, which goes back without displacing another. -/
theorem EoiFits.single (hlists : spilledFor v s = [c]) (hact : activeFor P v c s = true)
    (hpick : pickable s c = true) (hreadds : readds P s c = true)
    (hnone : displacedBy P v c s = none) : EoiFits P v [c] s := by
  have hin : c ∈ spilledFor v s := by
    rw [hlists]
    exact List.mem_singleton_self c
  have hfirst : Foremost P v s c := by
    refine ⟨hin, hact, hpick, fun j hj _ => ?_⟩
    rw [hlists] at hj
    rw [List.mem_singleton.mp hj]
  refine ⟨fun _ _ _ => ⟨c, List.mem_singleton_self c, hfirst⟩, fun c' hc' _ => ?_,
    fun c' hc' _ _ _ => ?_, fun c' hc' _ _ _ x w hx => ?_⟩
  · rw [← hlists]
    exact hc'.listed
  · rw [List.mem_singleton.mp hc']
    exact hreadds
  · rw [List.mem_singleton.mp hc', hnone] at hx
    cases hx

/-- PPI 21 is deactivated. -/
theorem trapped_eois_iff_ppi :
    ∃ s, (vgicSystem (twoCpuGic .gicv3 1 fun _ => false)).Reachable s ∧
      ownActive (twoCpuGic .gicv3 1 fun _ => false) 0 s = [.priv 0 21] ∧
      EoisServed (twoCpuGic .gicv3 1 fun _ => false) 0 1 s := by
  obtain ⟨s, hs⟩ : ∃ s, s = vgicRun (twoCpuGic .gicv3 1 fun _ => false) trappedPpi
    (vgicBoot (twoCpuGic .gicv3 1 fun _ => false)) := ⟨_, rfl⟩
  have hreach : (vgicSystem (twoCpuGic .gicv3 1 fun _ => false)).Reachable s := by
    rw [hs]
    exact @RunMeets.fromBoot _ (fun _ _ => True) trappedPpi (by decide +kernel)
  have hpc : (s.cpus 0).pc = .lrenp ⟨false, true, true, true, 1⟩ := by
    rw [hs]
    decide +kernel
  have hown : ownActive (twoCpuGic .gicv3 1 fun _ => false) 0 s = [.priv 0 21] := by
    rw [hs]
    decide +kernel
  refine ⟨s, hreach, hown, (trapped_eois_iff _ hreach (by decide) hpc).mpr fun m hm => ?_⟩
  rw [Nat.lt_one_iff.mp hm, hown]
  change EoiFits _ 0 _ s
  refine .single ?_ ?_ ?_ ?_ ?_ <;> rw [hs]
  all_goals decide +kernel

/-- SPI 40 is active on vCPU 1, which spills it for PPI 20; vCPU 0 spills its own active
PPI 21, whose EOI is trapped. -/
def trappedBehindSpi : List VgicEvent :=
  [⟨1, .writeField .isenabler 40 1 1⟩, ⟨1, .writeField .ipriorityr 40 1 0x40⟩,
    ⟨1, .writeRoute 40 .full 1⟩, ⟨1, .inject 40 0⟩, ⟨1, .ackLr 0⟩,
    ⟨1, .writeField .isenabler 20 1 1⟩, ⟨1, .writeField .ipriorityr 20 1 0x20⟩,
    ⟨1, .inject 20 0⟩] ++ trappedPpi

/-- The EOI is lost: the search finds vCPU 1's SPI 40, and PPI 21 stays active. -/
theorem trapped_eoi_lost :
    ∃ s, (vgicSystem (twoCpuGic .gicv3 1 fun _ => false)).Reachable s ∧
      (s.cpus 0).pc = .lrenp ⟨false, true, true, true, 1⟩ ∧
      ownActive (twoCpuGic .gicv3 1 fun _ => false) 0 s = [.priv 0 21] ∧
      ¬ EoisServed (twoCpuGic .gicv3 1 fun _ => false) 0 1 s := by
  refine ⟨_, @RunMeets.fromBoot (twoCpuGic .gicv3 1 fun _ => false) (fun _ _ => True)
    trappedBehindSpi (by decide +kernel), by decide +kernel, by decide +kernel,
    fun hserved => ?_⟩
  exact absurd hserved.count (by decide +kernel)

end Bao

import BaoHypervisor.PriorityScan
import BaoHypervisor.VgicForward
import BaoHypervisor.VgicStates
import Mathlib.Data.Prod.Lex
import Mathlib.Tactic.IntervalCases

/-!
# Which list register is spilled

`vgic_add_lr` looks for the pending register of lowest priority and for the
active one, both below the new interrupt, and spills the pending one if another
register stays pending and the active one otherwise.  So the new interrupt waits
behind a single pending register of lower priority.  Apart from that, what waits
afterwards does not outrank every pending register.
-/

namespace Bao

variable (P : VgicPlat)

/-- Priority, and the id among equal priorities; smaller outranks. -/
abbrev GicRank := ℕ ×ₗ ℕ

/-- The rank `vgic_add_lr` gives a list register. -/
def lrRank (lr : ListReg) : GicRank := toLex (lrPrio P lr, lr.vid)

/-- The rank of an interrupt. -/
def intRank (k : IntKey) (i : VgicInt) : GicRank := toLex (i.prio, k.id)

/-- A list register that is pending and not active. -/
def onlyPending (lr : ListReg) : Bool := !lr.state.active && lr.state.pending

/-- The registers of a vCPU that a test holds of. -/
def lrsWhere (v : Nat) (test : ListReg → Bool) (s : VgicState) : List Nat :=
  (List.range P.numLrs).filter fun i => test ((s.cpus v).lrs i)

/-- A list register that is not empty holds an interrupt of the vCPU whose
structure names the register. -/
def LrsHeld (v : Nat) (s : VgicState) : Prop :=
  ∀ i, i < P.numLrs → ((s.cpus v).lrs i).state ≠ .inv →
    ∃ w, vgicGetInt P ((s.cpus v).lrs i).vid v = some w ∧ (s.ints w).owner = some v ∧
      (s.ints w).inLr = true ∧ (s.ints w).lr = i

/-- After `vgic_add_lr`, the new interrupt or one that it displaced is on a
spilled list; the rank is its own or that of the register it was in. -/
def LeftWaiting (v : Nat) (k : IntKey) (s : VgicState) (r : GicRank) : Prop :=
  ∃ w, ((vgicAddLr P v k s).ints w).inLr = false ∧
    ((vgicAddLr P v k s).ints w).inSpilled = true ∧
    ((w = k ∧ r = intRank k (s.ints k)) ∨
      ∃ i lr, gichGetLr P v w s = some (i, lr) ∧ i < P.numLrs ∧ r = lrRank P lr)

/-- A rank above that of every pending list register. -/
def AboveAll (v : Nat) (s : VgicState) (r : GicRank) : Prop :=
  ∀ i, i < P.numLrs → ((s.cpus v).lrs i).state.pending = true →
    r < lrRank P ((s.cpus v).lrs i)

/-- **The law of replacement**: what waits after `vgic_add_lr` does not outrank
every pending list register. -/
def RespectsPriority (v : Nat) (k : IntKey) (s : VgicState) : Prop :=
  ∀ r, LeftWaiting P v k s r → ¬ AboveAll P v (vgicAddLr P v k s) r

/-- The new interrupt waits though it outranks every pending register: no active
register is below it. -/
def StaysOut (v : Nat) (k : IntKey) (s : VgicState) : Prop :=
  (∀ i, i < P.numLrs → ((s.cpus v).lrs i).state.active = true →
    lrRank P ((s.cpus v).lrs i) ≤ intRank k (s.ints k)) ∧
    AboveAll P v s (intRank k (s.ints k))

/-- The interrupt is written as not pending, though it is, in place of the lowest
active register, which outranks all pending ones. -/
def WrittenActive (v : Nat) (k : IntKey) (s : VgicState) : Prop :=
  (newLr v k s (P := P)).state.pending = false ∧
    ∃ i, i < P.numLrs ∧ ((s.cpus v).lrs i).state.active = true ∧
      intRank k (s.ints k) < lrRank P ((s.cpus v).lrs i) ∧
      (∀ j, j < P.numLrs → ((s.cpus v).lrs j).state.active = true →
        lrRank P ((s.cpus v).lrs j) ≤ lrRank P ((s.cpus v).lrs i)) ∧
      ∀ j, j < P.numLrs → j ≠ i → ((s.cpus v).lrs j).state.pending = true →
        lrRank P ((s.cpus v).lrs i) < lrRank P ((s.cpus v).lrs j)

variable {P} {v : Nat} {k : IntKey} {s : VgicState}

/-! ## The two searches -/

/-- The candidates of the search for a pending register, with its best so far. -/
def VictimScan.pendPart (scan : VictimScan) : GicRank × Option Nat :=
  (toLex (scan.minPrioPend, scan.minIdPend), scan.pendInd)

/-- The same of the search for an active register. -/
def VictimScan.actPart (scan : VictimScan) : GicRank × Option Nat :=
  (toLex (scan.minPrioAct, scan.minIdAct), scan.actInd)

/-- A test of a register as a test of a candidate. -/
def candidate (lrs : Nat → ListReg) (test : ListReg → Bool) (o : Option Nat) : Bool :=
  o.any fun i => test (lrs i)

/-- The rank of a candidate. -/
def candidateRank (P : VgicPlat) (lrs : Nat → ListReg) (o : Option Nat) : GicRank :=
  (o.map fun i => lrRank P (lrs i)).getD (toLex (0, 0))

theorem lowerRank_iff {prio id prio' id' : Nat} :
    (toLex (prio, id) : GicRank) < toLex (prio', id') ↔
      (prio' > prio ∨ (prio' = prio ∧ id' > id)) := by
  rw [Prod.Lex.toLex_lt_toLex]
  constructor
  · intro h
    rcases h with h | ⟨heq, h⟩
    · exact Or.inl h
    · exact Or.inr ⟨heq.symm, h⟩
  · intro h
    rcases h with h | ⟨heq, h⟩
    · exact Or.inl h
    · exact Or.inr ⟨heq.symm, h⟩

theorem victimStep_parts (lrs : Nat → ListReg) (scan : VictimScan) (i : Nat) :
    (victimStep P lrs scan i).pendPart =
        PriorityScan.round (candidate lrs onlyPending) (candidateRank P lrs) scan.pendPart (some i) ∧
      (victimStep P lrs scan i).actPart =
        PriorityScan.round (candidate lrs fun lr => lr.state.active) (candidateRank P lrs)
          scan.actPart (some i) ∧
      (victimStep P lrs scan i).pendFound =
        scan.pendFound + if onlyPending (lrs i) then 1 else 0 := by
  unfold victimStep PriorityScan.round
  dsimp only [VictimScan.pendPart, VictimScan.actPart]
  simp only [candidate, candidateRank, Option.any_some, Option.map_some, Option.getD_some, lrRank,
    lowerRank_iff, onlyPending]
  by_cases hact : (lrs i).state.active = true
  · by_cases hlow : lrPrio P (lrs i) > scan.minPrioAct ∨
        (lrPrio P (lrs i) = scan.minPrioAct ∧ (lrs i).vid > scan.minIdAct)
    · simp [hact, hlow]
    · simp [hact, hlow]
  · by_cases hpend : (lrs i).state.pending = true
    · by_cases hlow : lrPrio P (lrs i) > scan.minPrioPend ∨
          (lrPrio P (lrs i) = scan.minPrioPend ∧ (lrs i).vid > scan.minIdPend)
      · simp [hact, hpend, hlow]
      · simp [hact, hpend, hlow]
    · simp [hact, hpend]

theorem victimScan_parts (lrs : Nat → ListReg) (is : List Nat) (scan : VictimScan) :
    (is.foldl (victimStep P lrs) scan).pendPart =
        PriorityScan.scan (candidate lrs onlyPending) (candidateRank P lrs) scan.pendPart
          (is.map some) ∧
      (is.foldl (victimStep P lrs) scan).actPart =
        PriorityScan.scan (candidate lrs fun lr => lr.state.active) (candidateRank P lrs)
          scan.actPart (is.map some) ∧
      (is.foldl (victimStep P lrs) scan).pendFound =
        scan.pendFound + (is.filter fun i => onlyPending (lrs i)).length := by
  induction is generalizing scan with
  | nil => exact ⟨rfl, rfl, rfl⟩
  | cons i is ih =>
    obtain ⟨hpend, hact, hfound⟩ := victimStep_parts (P := P) lrs scan i
    obtain ⟨ihpend, ihact, ihfound⟩ := ih (victimStep P lrs scan i)
    refine ⟨?_, ?_, ?_⟩
    · rw [List.foldl_cons, ihpend, hpend]
      rfl
    · rw [List.foldl_cons, ihact, hact]
      rfl
    · rw [List.foldl_cons, ihfound, hfound, List.filter_cons]
      split <;> simp [Nat.add_assoc, Nat.add_comm]

theorem scan_registers (lrs : Nat → ListReg) (test : ListReg → Bool) (start : GicRank) (n : Nat)
    {low : GicRank} {ind : Option Nat}
    (h : (low, ind) = PriorityScan.scan (candidate lrs test) (candidateRank P lrs) (start, none)
      ((List.range n).map some)) :
    (ind = none ∧ ∀ j, j < n → test (lrs j) = true → lrRank P (lrs j) ≤ start) ∨
      ∃ i, ind = some i ∧ i < n ∧ test (lrs i) = true ∧ start < lrRank P (lrs i) ∧
        ∀ j, j < n → test (lrs j) = true → lrRank P (lrs j) ≤ lrRank P (lrs i) := by
  have hmem : ∀ j, j < n → some j ∈ (List.range n).map some := fun j hj =>
    List.mem_map_of_mem (List.mem_range.mpr hj)
  rcases @PriorityScan.scan_cases _ _ _ (candidate lrs test) (candidateRank P lrs)
      (start, none) ((List.range n).map some) with ⟨hsame, hall⟩ | ⟨hbetter, hkey, hfirst⟩
  · rw [← h] at hsame
    refine Or.inl ⟨(Prod.mk.inj hsame).2, fun j hj htest => ?_⟩
    exact hall (some j) (hmem j hj) htest
  · rw [← h] at hbetter hkey hfirst
    dsimp only at hbetter hkey hfirst
    obtain ⟨i, hi, hind⟩ := List.mem_map.mp hfirst.mem
    subst hind
    refine Or.inr ⟨i, rfl, List.mem_range.mp hi, hfirst.isReady, ?_, fun j hj htest => ?_⟩
    · rw [← hkey] at hbetter
      exact hbetter
    · obtain ⟨before, after, hl, hbefore, hafter⟩ := hfirst.place
      have hj' := hmem j hj
      rw [hl] at hj'
      rcases List.mem_append.mp hj' with hj' | hj'
      · exact (hbefore _ hj' htest).le
      · rcases List.mem_cons.mp hj' with heq | hj'
        · cases heq
          exact le_rfl
        · exact hafter _ hj' htest

/-- **Which register is spilled**: the lowest pending one below the interrupt if
there are several pending ones; otherwise, or if none of these is below it, the
lowest active one below it. -/
theorem victimLr_cases (v : Nat) (k : IntKey) (s : VgicState) :
    (1 < (lrsWhere P v onlyPending s).length ∧ ∃ i, victimLr P v k s = some i ∧ i < P.numLrs ∧
        onlyPending ((s.cpus v).lrs i) = true ∧
        intRank k (s.ints k) < lrRank P ((s.cpus v).lrs i) ∧
        ∀ j, j < P.numLrs → onlyPending ((s.cpus v).lrs j) = true →
          lrRank P ((s.cpus v).lrs j) ≤ lrRank P ((s.cpus v).lrs i)) ∨
      (((lrsWhere P v onlyPending s).length ≤ 1 ∨
          ∀ j, j < P.numLrs → onlyPending ((s.cpus v).lrs j) = true →
            lrRank P ((s.cpus v).lrs j) ≤ intRank k (s.ints k)) ∧
        ((victimLr P v k s = none ∧
            ∀ j, j < P.numLrs → ((s.cpus v).lrs j).state.active = true →
              lrRank P ((s.cpus v).lrs j) ≤ intRank k (s.ints k)) ∨
          ∃ i, victimLr P v k s = some i ∧ i < P.numLrs ∧
            ((s.cpus v).lrs i).state.active = true ∧
            intRank k (s.ints k) < lrRank P ((s.cpus v).lrs i) ∧
            ∀ j, j < P.numLrs → ((s.cpus v).lrs j).state.active = true →
              lrRank P ((s.cpus v).lrs j) ≤ lrRank P ((s.cpus v).lrs i))) := by
  let start : VictimScan := ⟨(s.ints k).prio, (s.ints k).prio, k.id, k.id, 0, none, none⟩
  obtain ⟨hpend, hact, hfound⟩ := victimScan_parts (P := P) (s.cpus v).lrs (List.range P.numLrs)
    start
  let final := (List.range P.numLrs).foldl (victimStep P (s.cpus v).lrs) start
  have hvictim : victimLr P v k s =
      if final.pendFound > 1 ∧ final.pendInd.isSome then final.pendInd else final.actInd := rfl
  have hcount : final.pendFound = (lrsWhere P v onlyPending s).length := by
    rw [show final.pendFound = _ from hfound]
    exact Nat.zero_add _
  have hpendCase := scan_registers (s.cpus v).lrs onlyPending (intRank k (s.ints k)) P.numLrs hpend
  have hactCase := scan_registers (s.cpus v).lrs (fun lr => lr.state.active)
    (intRank k (s.ints k)) P.numLrs hact
  have hother : victimLr P v k s = final.actInd →
      (victimLr P v k s = none ∧
          ∀ j, j < P.numLrs → ((s.cpus v).lrs j).state.active = true →
            lrRank P ((s.cpus v).lrs j) ≤ intRank k (s.ints k)) ∨
        ∃ i, victimLr P v k s = some i ∧ i < P.numLrs ∧
          ((s.cpus v).lrs i).state.active = true ∧
          intRank k (s.ints k) < lrRank P ((s.cpus v).lrs i) ∧
          ∀ j, j < P.numLrs → ((s.cpus v).lrs j).state.active = true →
            lrRank P ((s.cpus v).lrs j) ≤ lrRank P ((s.cpus v).lrs i) := by
    intro heq
    rw [heq]
    exact hactCase
  rw [hcount] at hvictim
  by_cases hmany : 1 < (lrsWhere P v onlyPending s).length
  · rcases hpendCase with ⟨hnone, hall⟩ | ⟨i, hsome, hi, htest, hlow, hall⟩
    · refine Or.inr ⟨Or.inr hall, hother ?_⟩
      rw [hvictim, if_neg]
      intro h
      rw [show final.pendInd = none from hnone] at h
      cases h.2
    · refine Or.inl ⟨hmany, i, ?_, hi, htest, hlow, hall⟩
      rw [hvictim, if_pos ⟨hmany, by rw [show final.pendInd = some i from hsome]; rfl⟩]
      exact hsome
  · refine Or.inr ⟨Or.inl (Nat.not_lt.mp hmany), hother ?_⟩
    rw [hvictim, if_neg fun h => hmany h.1]

/-! ## Several pending registers -/

theorem lrsWhere_other {test : ListReg → Bool} (h : 1 < (lrsWhere P v test s).length) (i : Nat) :
    ∃ j, j ≠ i ∧ j < P.numLrs ∧ test ((s.cpus v).lrs j) = true := by
  have hnodup : (lrsWhere P v test s).Nodup := List.nodup_range.filter _
  have hmem : ∀ j ∈ lrsWhere P v test s, j < P.numLrs ∧ test ((s.cpus v).lrs j) = true := by
    intro j hj
    obtain ⟨hrange, htest⟩ := List.mem_filter.mp hj
    exact ⟨List.mem_range.mp hrange, htest⟩
  match hl : lrsWhere P v test s with
  | [] =>
    rw [hl] at h
    cases h
  | [_] =>
    rw [hl] at h
    exact absurd h (Nat.lt_irrefl 1)
  | a :: b :: rest =>
    rw [hl] at hnodup hmem
    have hab : a ≠ b := fun heq => (List.nodup_cons.mp hnodup).1 (heq ▸ List.mem_cons_self)
    by_cases ha : a = i
    · exact ⟨b, fun hb => hab (ha.trans hb.symm), hmem b (List.mem_cons_of_mem _ List.mem_cons_self)⟩
    · exact ⟨a, ha, hmem a List.mem_cons_self⟩

/-! ## What is written, spilled and left -/

theorem lrValue_prio (state : IntState) (k : IntKey) (i : VgicInt) :
    (lrValue P state k i).1.prio = if P.ver = .gicv2 then i.prio / 8 else i.prio := by
  unfold lrValue
  dsimp only
  split
  · rfl
  · split
    · split
      · rfl
      · split <;> rfl
    · rfl

theorem newLr_rank (v : Nat) (k : IntKey) (s : VgicState) :
    lrRank P (newLr v k s (P := P)) ≤ intRank k (s.ints k) := by
  have hprio : lrPrio P (newLr v k s (P := P)) ≤ (s.ints k).prio := by
    unfold lrPrio newLr
    rw [lrValue_prio]
    split
    · exact Nat.div_mul_le_self _ 8
    · exact Nat.le_refl _
  unfold lrRank intRank
  rw [show (newLr v k s (P := P)).vid = k.id from Lodged.newLr_vid v k s, Prod.Lex.toLex_le_toLex]
  rcases Nat.lt_or_eq_of_le hprio with hlt | heq
  · exact Or.inl hlt
  · exact Or.inr ⟨heq, Nat.le_refl _⟩

theorem newLr_congr {s' : VgicState} {b : Bool} {o : Option Nat} (hout : (s.ints k).inLr = false)
    (h : s'.ints k = { s.ints k with inSpilled := b, owner := o }) :
    newLr v k s' (P := P) = newLr v k s (P := P) := by
  have hout' : (s'.ints k).inLr = false := by
    rw [h]
    exact hout
  unfold newLr vgicGetState
  rw [gichGetLr_out v k s hout, gichGetLr_out v k s' hout', h]
  rfl

/-- **Placing an interrupt**: the register has the new value, and no other one
changes. -/
theorem placeInLr_lrs (hout : (s.ints k).inLr = false) (i : Nat) :
    ((placeInLr P v k i s).cpus v).lrs = atCpu (s.cpus v).lrs i (newLr v k s (P := P)) := by
  have hwrite : ∀ s' : VgicState, (s'.cpus v).lrs = (s.cpus v).lrs →
      (∃ b, s'.ints k = { s.ints k with inSpilled := b }) →
      ((vgicWriteLr P v k i s').cpus v).lrs =
        atCpu (s.cpus v).lrs i (newLr v k s (P := P)) := by
    intro s' hlrs hint
    obtain ⟨b, hb⟩ := hint
    have hsame : newLr v k (releaseOccupant P v k i s') (P := P) = newLr v k s (P := P) :=
      newLr_congr (b := b) (o := (s.ints k).owner) hout (by rw [releaseOccupant_ints, hb])
    rw [vgicWriteLr, fillLr_cpu, hsame, releaseOccupant_cpus, hlrs]
  unfold placeInLr
  split
  · exact hwrite _ (vgicRemoveSpilled_lrs v k s v).1 ⟨false, vgicRemoveSpilled_int v k s⟩
  · exact hwrite s rfl ⟨(s.ints k).inSpilled, rfl⟩

/-- What placing an interrupt does to another one: at most the register is taken
from a shared interrupt recorded there. -/
theorem placeInLr_flags {k' : IntKey} (hk : k' ≠ k) (i : Nat) :
    ((placeInLr P v k i s).ints k').inSpilled = (s.ints k').inSpilled ∧
      (((placeInLr P v k i s).ints k').inLr = (s.ints k').inLr ∨
        ((placeInLr P v k i s).ints k').inLr = false ∧ (s.ints k').lr = i ∧
          ∃ id, k' = .shared id ∧ gicIsPriv id = false) := by
  have hwrite : ∀ s' : VgicState, s'.ints k' = s.ints k' →
      ((vgicWriteLr P v k i s').ints k').inSpilled = (s.ints k').inSpilled ∧
        (((vgicWriteLr P v k i s').ints k').inLr = (s.ints k').inLr ∨
          ((vgicWriteLr P v k i s').ints k').inLr = false ∧ (s.ints k').lr = i ∧
            ∃ id, k' = .shared id ∧ gicIsPriv id = false) := by
    intro s' hs'
    rw [vgicWriteLr, fillLr_ints_ne _ _ _ _ hk]
    rcases releaseOccupant_cases (P := P) v k i s' with h | ⟨k₁, hk₁', -, hshared, -, -, hlr, h⟩
    · rw [h, hs']
      exact ⟨rfl, Or.inl rfl⟩
    · rw [h]
      obtain ⟨owner, hy⟩ := vgicYieldOwnership_ints (P := P) v k₁
        (s'.updInt k₁ fun i => { i with inLr := false }) k'
      rw [hy]
      by_cases hk₁ : k' = k₁
      · subst hk₁
        rw [VgicState.updInt_ints_same, hs']
        rw [hs'] at hlr
        rw [hk₁'] at hshared
        exact ⟨rfl, Or.inr ⟨rfl, hlr, _, hk₁', hshared⟩⟩
      · rw [VgicState.updInt_ints_ne _ _ hk₁, hs']
        exact ⟨rfl, Or.inl rfl⟩
  unfold placeInLr
  split
  · exact hwrite _ (vgicRemoveSpilled_ints_ne v k s hk)
  · exact hwrite s rfl

theorem vgicAddSpilled_flag (hout : (s.ints k).inLr = false) :
    ((vgicAddSpilled v k s).ints k).inSpilled = true ∧
      ((vgicAddSpilled v k s).ints k).inLr = false := by
  unfold vgicAddSpilled
  split
  · rename_i h
    rw [hout, Bool.false_or] at h
    exact ⟨h, hout⟩
  · simp [VgicState.gichSetHcr, hout]

/-- **Spilling a register**: the register is empty, the others are as they were,
and the interrupt that was in it is listed. -/
theorem vgicSpillLr_held {i : Nat} (hvalid : ((s.cpus v).lrs i).state ≠ .inv) {w : IntKey}
    (hname : vgicGetInt P ((s.cpus v).lrs i).vid v = some w) (hown : (s.ints w).owner = some v)
    (hin : (s.ints w).inLr = true) (hlr : (s.ints w).lr = i) :
    (∀ j, j ≠ i → ((vgicSpillLr P v i s).cpus v).lrs j = (s.cpus v).lrs j) ∧
      ((vgicSpillLr P v i s).ints w).inSpilled = true ∧
      ((vgicSpillLr P v i s).ints w).inLr = false ∧
      ∀ k', k' ≠ w → (vgicSpillLr P v i s).ints k' = s.ints k' := by
  have hspill : vgicSpillLr P v i s = spillInt P v w s := by
    unfold vgicSpillLr
    rw [hname]
  have hout : ((vgicRemoveLr P v w s).ints w).inLr = false := vgicRemoveLr_out v w s hown
  obtain ⟨hflag, hflagOut⟩ := vgicAddSpilled_flag (v := v) hout
  rw [hspill]
  refine ⟨fun j hj => ?_, ?_, ?_, fun k' hk' => spillInt_ints_ne v w s hk'⟩
  · rw [spillInt, vgicYieldOwnership_cpus, (vgicAddSpilled_lrs v w _ v).1]
    rcases vgicRemoveLr_cases (P := P) v w s with ⟨-, hno⟩ | ⟨-, -, hno, -⟩ | ⟨-, -, -, -, h⟩
    · exact (hno ⟨hown, hin⟩).elim
    · rw [hlr, vgicGetInt_id hname] at hno
      exact (hno ⟨rfl, hvalid⟩).elim
    · rw [h, hlr]
      simp [takeLrState, VgicState.gichSetHcr, VgicState.gichWriteLr, atCpu_other _ _ hj]
  · obtain ⟨owner, hy⟩ := vgicYieldOwnership_ints (P := P) v w
      (vgicAddSpilled v w (vgicRemoveLr P v w s)) w
    rw [spillInt, hy]
    exact hflag
  · obtain ⟨owner, hy⟩ := vgicYieldOwnership_ints (P := P) v w
      (vgicAddSpilled v w (vgicRemoveLr P v w s)) w
    rw [spillInt, hy]
    exact hflagOut

theorem LrsHeld.same (hheld : LrsHeld P v s) {i j : Nat} (hi : i < P.numLrs) (hj : j < P.numLrs)
    (hvi : ((s.cpus v).lrs i).state ≠ .inv) (hvj : ((s.cpus v).lrs j).state ≠ .inv)
    (hrank : lrRank P ((s.cpus v).lrs i) = lrRank P ((s.cpus v).lrs j)) : i = j := by
  have hvid : ((s.cpus v).lrs i).vid = ((s.cpus v).lrs j).vid := congrArg (fun r => (ofLex r).2) hrank
  obtain ⟨w, hname, -, -, hlr⟩ := hheld i hi hvi
  obtain ⟨w', hname', -, -, hlr'⟩ := hheld j hj hvj
  rw [hvid, hname'] at hname
  cases hname
  exact hlr.symm.trans hlr'

theorem valid_of_active {state : IntState} (h : state.active = true) : state ≠ .inv := by
  intro heq
  rw [heq] at h
  cases h

/-- **Nothing is spilled**: the new interrupt waits, and nothing else. -/
theorem respects_unplaced (hen : (s.ints k).enabled = true) (hout : (s.ints k).inLr = false)
    (hfull : firstLr P v elrsr s = none) (hvictim : victimLr P v k s = none) :
    RespectsPriority P v k s ↔ ¬ AboveAll P v s (intRank k (s.ints k)) := by
  have hadd : vgicAddLr P v k s = vgicAddSpilled v k s := by
    rcases vgicAddLr_placed (P := P) (v := v) (Or.inl hen) hout with ⟨hroom, -⟩ | ⟨-, hadd⟩
    · rcases hroom with h | h
      · rw [hfull] at h
        cases h
      · rw [hvictim] at h
        cases h
    · exact hadd
  have hlrs : ((vgicAddLr P v k s).cpus v).lrs = (s.cpus v).lrs := by
    rw [hadd]
    exact (vgicAddSpilled_lrs v k s v).1
  have habove : ∀ r, AboveAll P v (vgicAddLr P v k s) r ↔ AboveAll P v s r := by
    intro r
    unfold AboveAll
    rw [hlrs]
  obtain ⟨hflag, hflagOut⟩ := vgicAddSpilled_flag (v := v) hout
  unfold RespectsPriority
  constructor
  · intro hlaw hall
    refine hlaw _ ⟨k, ?_, ?_, Or.inl ⟨rfl, rfl⟩⟩ ((habove _).mpr hall)
    · rw [hadd]
      exact hflagOut
    · rw [hadd]
      exact hflag
  · intro hno r hwait hall
    obtain ⟨w, hwout, -, hw⟩ := hwait
    rcases hw with ⟨-, hr⟩ | ⟨i, lr, hget, -, -⟩
    · rw [hr] at hall
      exact hno ((habove _).mp hall)
    · obtain ⟨hin, -⟩ := gichGetLr_some v w s hget
      obtain ⟨b, hb⟩ := vgicAddSpilled_ints v k s w
      rw [hadd, hb] at hwout
      rw [show (s.ints w).inLr = false from hwout] at hin
      cases hin

/-- **A register is spilled**: the interrupt that was in it waits, and nothing
else. -/
theorem respects_placed (hheld : LrsHeld P v s) (hen : (s.ints k).enabled = true)
    (hout : (s.ints k).inLr = false) (hfull : firstLr P v elrsr s = none) {i : Nat}
    (hvictim : victimLr P v k s = some i)
    (hlow : intRank k (s.ints k) < lrRank P ((s.cpus v).lrs i)) :
    RespectsPriority P v k s ↔ ¬ ((newLr v k s (P := P)).state.pending = false ∧
      ∀ j, j < P.numLrs → j ≠ i → ((s.cpus v).lrs j).state.pending = true →
        lrRank P ((s.cpus v).lrs i) < lrRank P ((s.cpus v).lrs j)) := by
  obtain ⟨hi, hvalid⟩ := victimLr_some hvictim
  obtain ⟨w, hname, hown, hin, hlr⟩ := hheld i hi hvalid
  have hwk : k ≠ w := by
    intro heq
    rw [heq, hin] at hout
    cases hout
  obtain ⟨hlrs, hflag, hflagOut, hothers⟩ := vgicSpillLr_held hvalid hname hown hin hlr
  have hsame := hothers k hwk
  have hout' : ((vgicSpillLr P v i s).ints k).inLr = false := by
    rw [hsame]
    exact hout
  have hadd : vgicAddLr P v k s = placeInLr P v k i (vgicSpillLr P v i s) := by
    unfold vgicAddLr
    rw [if_neg (by simp [hen, hout]), hfull, hvictim]
  have hplaced := placeInLr_lrs (P := P) (v := v) hout' i
  have hnew : newLr v k (vgicSpillLr P v i s) (P := P) = newLr v k s (P := P) :=
    newLr_congr (b := (s.ints k).inSpilled) hout hsame
  have hat : ((vgicAddLr P v k s).cpus v).lrs i = newLr v k s (P := P) := by
    rw [hadd, hplaced, atCpu_same, hnew]
  have hother : ∀ j, j ≠ i → ((vgicAddLr P v k s).cpus v).lrs j = (s.cpus v).lrs j := by
    intro j hj
    rw [hadd, hplaced, atCpu_other _ _ hj, hlrs j hj]
  have hfrom : gichGetLr P v w s = some (i, (s.cpus v).lrs i) := by
    unfold gichGetLr
    simp [hin, hown, hlr, vgicGetInt_id hname, hvalid]
  -- who waits
  have hwaits : ∀ r, LeftWaiting P v k s r ↔ r = lrRank P ((s.cpus v).lrs i) := by
    intro r
    constructor
    · intro hwait
      obtain ⟨w', hwout, -, hw'⟩ := hwait
      have hwk' : w' ≠ k := by
        intro heq
        rw [heq, hadd, placeInLr_in] at hwout
        cases hwout
      rcases hw' with ⟨heq, -⟩ | ⟨i', lr, hget, -, hr⟩
      · exact (hwk' heq).elim
      · obtain ⟨hin', -, hlr', hreg, hvid, -⟩ := gichGetLr_some v w' s hget
        by_cases hww : w' = w
        · rw [hww, hlr] at hlr'
          rw [hr, ← hreg, hlr']
        · obtain ⟨-, hflags⟩ := placeInLr_flags (P := P) (v := v) (s := vgicSpillLr P v i s) hwk' i
          rw [hothers w' hww] at hflags
          rcases hflags with hkeep | ⟨-, hlri, id, hid, hshared⟩
          · rw [← hadd, hwout, hin'] at hkeep
            cases hkeep
          · rw [hlri] at hlr'
            rw [← hlr'] at hreg
            rw [hreg, hvid, hid] at hname
            exact (hww (hid.trans (vgicGetInt_shared hshared hname).symm)).elim
    · intro hr
      obtain ⟨hsp, hflags⟩ := placeInLr_flags (P := P) (v := v) (s := vgicSpillLr P v i s)
        (Ne.symm hwk) i
      refine ⟨w, ?_, ?_, Or.inr ⟨i, _, hfrom, hi, hr⟩⟩
      · rw [hadd]
        rcases hflags with hkeep | ⟨hno, -⟩
        · rw [hkeep]
          exact hflagOut
        · exact hno
      · rw [hadd, hsp]
        exact hflag
  have habove : AboveAll P v (vgicAddLr P v k s) (lrRank P ((s.cpus v).lrs i)) ↔
      ((newLr v k s (P := P)).state.pending = false ∧
        ∀ j, j < P.numLrs → j ≠ i → ((s.cpus v).lrs j).state.pending = true →
          lrRank P ((s.cpus v).lrs i) < lrRank P ((s.cpus v).lrs j)) := by
    unfold AboveAll
    constructor
    · intro hall
      refine ⟨?_, fun j hj hji hpend => ?_⟩
      · by_contra hpend
        have hlt := hall i hi (by rw [hat]; exact Bool.eq_true_of_not_eq_false hpend)
        rw [hat] at hlt
        exact absurd (hlt.trans_le (newLr_rank v k s)) (not_lt.mpr hlow.le)
      · have hlt := hall j hj (by rw [hother j hji]; exact hpend)
        rw [hother j hji] at hlt
        exact hlt
    · intro h j hj hpend
      by_cases hji : j = i
      · subst hji
        rw [hat, h.1] at hpend
        cases hpend
      · rw [hother j hji] at hpend ⊢
        exact h.2 j hj hji hpend
  unfold RespectsPriority
  rw [← not_iff_not.mpr habove]
  constructor
  · intro hlaw
    exact hlaw _ ((hwaits _).mpr rfl)
  · intro hno r hwait
    rw [(hwaits r).mp hwait]
    exact hno

/-- **List-register replacement respects priority** with every number and every
content of list registers, but where at most one register is only pending and
either the new interrupt outranks every pending register and no active one is
below it, or it is written as active in place of an active register that outranks
every pending one. -/
theorem vgicAddLr_respects_iff (P : VgicPlat) (v : Nat) (k : IntKey) (s : VgicState)
    (hheld : LrsHeld P v s) (hfull : firstLr P v elrsr s = none)
    (hen : (s.ints k).enabled = true) (hout : (s.ints k).inLr = false) :
    RespectsPriority P v k s ↔ ¬ ((lrsWhere P v onlyPending s).length ≤ 1 ∧
      (StaysOut P v k s ∨ WrittenActive P v k s)) := by
  rcases victimLr_cases (P := P) v k s with ⟨hmany, i, hvictim, hi, htest, hlow, hall⟩ |
    ⟨hfew, ⟨hvictim, hact⟩ | ⟨i, hvictim, hi, hiact, hlow, hall⟩⟩
  · rw [respects_placed hheld hen hout hfull hvictim hlow]
    refine ⟨fun _ h => absurd h.1 (Nat.not_le.mpr hmany), fun _ habove => ?_⟩
    obtain ⟨j, hji, hj, hjtest⟩ := lrsWhere_other hmany i
    have hjpend : ((s.cpus v).lrs j).state.pending = true := (Bool.and_eq_true_iff.mp hjtest).2
    exact absurd (habove.2 j hj hji hjpend) (not_lt.mpr (hall j hj hjtest))
  · rw [respects_unplaced hen hout hfull hvictim]
    refine ⟨fun hno h => ?_, fun hno habove => ?_⟩
    · rcases h.2 with hstays | ⟨-, i, hi, hiact, hlow, -⟩
      · exact hno hstays.2
      · exact absurd hlow (not_lt.mpr (hact i hi hiact))
    · rcases hfew with hone | hpend
      · exact hno ⟨hone, Or.inl ⟨hact, habove⟩⟩
      · by_cases hmany : 1 < (lrsWhere P v onlyPending s).length
        · obtain ⟨j, -, hj, hjtest⟩ := lrsWhere_other hmany 0
          have hjpend : ((s.cpus v).lrs j).state.pending = true :=
            (Bool.and_eq_true_iff.mp hjtest).2
          exact absurd (habove j hj hjpend) (not_lt.mpr (hpend j hj hjtest))
        · exact hno ⟨Nat.not_lt.mp hmany, Or.inl ⟨hact, habove⟩⟩
  · rw [respects_placed hheld hen hout hfull hvictim hlow]
    refine ⟨fun hno h => ?_, fun hno habove => ?_⟩
    · rcases h.2 with hstays | ⟨hnew, i', hi', hiact', hlow', hall', habove⟩
      · exact absurd hlow (not_lt.mpr (hstays.1 i hi hiact))
      · have hrank : lrRank P ((s.cpus v).lrs i') = lrRank P ((s.cpus v).lrs i) :=
          le_antisymm (hall i' hi' hiact') (hall' i hi hiact)
        have hsame : i' = i := hheld.same hi' hi (valid_of_active hiact') (valid_of_active hiact)
          hrank
        subst hsame
        exact hno ⟨hnew, habove⟩
    · by_cases hmany : 1 < (lrsWhere P v onlyPending s).length
      · obtain ⟨j, hji, hj, hjtest⟩ := lrsWhere_other hmany i
        have hjpend : ((s.cpus v).lrs j).state.pending = true := (Bool.and_eq_true_iff.mp hjtest).2
        rcases hfew with hone | hpend
        · exact absurd hone (Nat.not_le.mpr hmany)
        · exact absurd (habove.2 j hj hji hjpend) (not_lt.mpr ((hpend j hj hjtest).trans hlow.le))
      · exact hno ⟨Nat.not_lt.mp hmany, Or.inr ⟨habove.1, i, hi, hiact, hlow, hall, habove.2⟩⟩

/-- PPIs 20 and 21 of priorities 0x80 and 0x40 are pending on vCPU 0, then PPI 22
of priority 8. -/
def threePpis : List VgicEvent :=
  [⟨0, .writeField .isenabler 20 0 1⟩, ⟨0, .writeField .ipriorityr 20 0 0x80⟩,
    ⟨0, .writeField .isenabler 21 0 1⟩, ⟨0, .writeField .ipriorityr 21 0 0x40⟩,
    ⟨0, .writeField .isenabler 22 0 1⟩, ⟨0, .writeField .ipriorityr 22 0 8⟩,
    ⟨0, .inject 20 0⟩, ⟨0, .inject 21 0⟩]

/-- The state of vCPU 0 with two list registers when PPI 22 is to be added. -/
def urgentPpi : VgicState :=
  (vgicRun (twoCpuGic .gicv3 2 fun _ => false) threePpis
    (vgicBoot (twoCpuGic .gicv3 2 fun _ => false))).updInt (.priv 0 22) fun i =>
      { i with state := .pend }

theorem vgicAddLr_respects_iff_urgentPpi :
    RespectsPriority (twoCpuGic .gicv3 2 fun _ => false) 0 (.priv 0 22) urgentPpi := by
  refine (vgicAddLr_respects_iff (twoCpuGic .gicv3 2 fun _ => false) 0 (.priv 0 22) urgentPpi ?_
    (by decide +kernel) (by decide +kernel) (by decide +kernel)).mpr ?_
  · intro i hi _
    have hi2 : i < 2 := hi
    interval_cases i
    · exact ⟨.priv 0 20, by decide +kernel, by decide +kernel, by decide +kernel, by decide +kernel⟩
    · exact ⟨.priv 0 21, by decide +kernel, by decide +kernel, by decide +kernel, by decide +kernel⟩
  · intro h
    have hmany : (lrsWhere (twoCpuGic .gicv3 2 fun _ => false) 0 onlyPending urgentPpi).length = 2 := by
      decide +kernel
    omega

/-- PPI 20 of priority 0x80 takes the only list register, and PPI 22 of priority
8 comes. -/
def urgentBehindOne : List VgicEvent :=
  [⟨0, .writeField .isenabler 20 0 1⟩, ⟨0, .writeField .ipriorityr 20 0 0x80⟩,
    ⟨0, .writeField .isenabler 22 0 1⟩, ⟨0, .writeField .ipriorityr 22 0 8⟩,
    ⟨0, .inject 20 0⟩, ⟨0, .inject 22 0⟩]

/-- The PPI of priority 8 waits behind that of priority 0x80, whenever
`vgic_add_lr` is called for it. -/
theorem vgicAddLr_not_respects :
    ∃ s, (vgicSystem (twoCpuGic .gicv3 1 fun _ => false)).Reachable s ∧
      firstLr (twoCpuGic .gicv3 1 fun _ => false) 0 elrsr s = none ∧
      (s.ints (.priv 0 22)).enabled = true ∧ (s.ints (.priv 0 22)).state.pending = true ∧
      (s.ints (.priv 0 22)).inLr = false ∧
      ¬ RespectsPriority (twoCpuGic .gicv3 1 fun _ => false) 0 (.priv 0 22) s := by
  refine ⟨_, @RunMeets.fromBoot _ _ urgentBehindOne (by decide +kernel), by decide +kernel,
    by decide +kernel, by decide +kernel, by decide +kernel, fun hlaw => ?_⟩
  refine hlaw _ ⟨.priv 0 22, by decide +kernel, by decide +kernel, Or.inl ⟨rfl, rfl⟩⟩ fun i hi _ => ?_
  have hi1 : i < 1 := hi
  interval_cases i
  decide +kernel

end Bao

import BaoHypervisor.Vmpu
import BaoHypervisor.StepSystem

/-!
# Disjoint regions of the virtual MPU

A well-formed vMPU lists exactly its valid entries, in order, and their
regions are nonempty, inside the address space and apart.  Removing an entry,
merging two neighbours and adding a region that meets no other keep it
well formed.  `mem_map` looks for a region that contains the new one, not for
one that overlaps it, so mapping keeps the vMPU well formed exactly under the
condition `MapFits`; unmapping needs none.
-/

namespace Bao

open RangeList

variable {M : Machine}

namespace AddrSpace

variable {as : AddrSpace} {i j : Mpid}

/-- Entry `i` is in state `MPE_S_VALID`. -/
def Valid (as : AddrSpace) (i : Mpid) : Prop := (as.node i).state = .valid

/-- Base of entry `i`. -/
def base (as : AddrSpace) (i : Mpid) : Nat := (as.node i).region.base

/-- End of entry `i`. -/
def limit (as : AddrSpace) (i : Mpid) : Nat := as.base i + (as.node i).region.size

/-- Entry `i` covers the address `a`. -/
def Covers (as : AddrSpace) (i : Mpid) (a : Nat) : Prop := as.base i ≤ a ∧ a < as.limit i

/-- The list has exactly the valid entries, whose nonempty regions are apart. -/
structure Wf (M : Machine) (as : AddrSpace) : Prop where
  listed : ∀ i, i ∈ as.orderedList ↔ as.Valid i
  apart : Apart as.base as.limit as.orderedList
  nonempty : ∀ i, as.Valid i → as.base i < as.limit i
  fits : ∀ i, as.Valid i → as.limit i < M.wordCount

@[simp] theorem setNode_node_same (as : AddrSpace) (i : Mpid) (mpe : Mpe) :
    (as.setNode i mpe).node i = mpe := if_pos rfl

theorem setNode_node_other (as : AddrSpace) (mpe : Mpe) (h : j ≠ i) :
    (as.setNode i mpe).node j = as.node j := if_neg h

@[simp] theorem setNode_orderedList (as : AddrSpace) (i : Mpid) (mpe : Mpe) :
    (as.setNode i mpe).orderedList = as.orderedList := rfl

@[simp] theorem memVmpuSetEntry_node (as : AddrSpace) (i : Mpid) (mpr : MpRegion) (lock : Bool) :
    (as.memVmpuSetEntry i mpr lock).node = (as.setNode i ⟨.valid, lock, mpr⟩).node := rfl

theorem memVmpuFreeEntry_node_same (as : AddrSpace) (i : Mpid) (pteInvalid : Nat) :
    ((as.memVmpuFreeEntry pteInvalid i).node i).state = .free := by
  simp [memVmpuFreeEntry]

theorem memVmpuFreeEntry_node_other (as : AddrSpace) {pteInvalid : Nat} (h : j ≠ i) :
    (as.memVmpuFreeEntry pteInvalid i).node j = as.node j := by
  show ((as.memVmpuClearEntry pteInvalid i).setNode i _).node j = as.node j
  rw [setNode_node_other _ _ h, memVmpuClearEntry, setNode_node_other _ _ h]

@[simp] theorem memVmpuFreeEntry_orderedList (as : AddrSpace) (i : Mpid) (pteInvalid : Nat) :
    (as.memVmpuFreeEntry pteInvalid i).orderedList = as.orderedList.erase i := rfl

theorem memVmpuFreeEntry_valid {pteInvalid : Nat} :
    (as.memVmpuFreeEntry pteInvalid i).Valid j ↔ as.Valid j ∧ j ≠ i := by
  unfold Valid
  by_cases hj : j = i
  · subst hj
    rw [memVmpuFreeEntry_node_same]
    simp
  · rw [memVmpuFreeEntry_node_other as hj]
    simp [hj]

theorem memVmpuAllocateEntry_some {as' : AddrSpace}
    (h : as.memVmpuAllocateEntry = some (i, as')) :
    (as.node i).state = .free ∧ as' = as.setNode i { as.node i with state := .invalid } := by
  rw [memVmpuAllocateEntry] at h
  cases hfind : (List.finRange vmpuNumEntries).find? (fun i => (as.node i).state = .free) with
  | none => rw [hfind] at h; cases h
  | some k =>
      rw [hfind] at h
      obtain ⟨rfl, rfl⟩ := Prod.mk.inj (Option.some.inj h)
      exact ⟨by simpa using List.find?_some hfind, rfl⟩

theorem allocateEntry_node {as' : AddrSpace} (h : as.memVmpuAllocateEntry = some (i, as'))
    (hj : as'.Valid j) : as.Valid j ∧ as'.node j = as.node j := by
  obtain ⟨-, rfl⟩ := memVmpuAllocateEntry_some h
  have hji : j ≠ i := by
    rintro rfl
    rw [Valid, setNode_node_same] at hj
    cases hj
  rw [Valid, setNode_node_other _ _ hji] at hj
  exact ⟨hj, setNode_node_other _ _ hji⟩

namespace Wf

theorem nodup (h : as.Wf M) : as.orderedList.Nodup :=
  h.apart.nodup fun i hi => h.nonempty i ((h.listed i).mp hi)

theorem increasing (h : as.Wf M) : as.orderedList.Pairwise fun i j => as.base i < as.base j :=
  h.apart.increasing fun i hi => h.nonempty i ((h.listed i).mp hi)

theorem disjoint (h : as.Wf M) (hi : as.Valid i) (hj : as.Valid j) (hij : i ≠ j) :
    as.limit i ≤ as.base j ∨ as.limit j ≤ as.base i :=
  h.apart.disjoint ((h.listed i).mpr hi) ((h.listed j).mpr hj) hij

theorem covers_unique (h : as.Wf M) {a : Nat} (hi : as.Valid i) (hj : as.Valid j)
    (hia : as.Covers i a) (hja : as.Covers j a) : i = j := by
  by_cases hij : i = j
  · exact hij
  · have := h.disjoint hi hj hij
    obtain ⟨_, _⟩ := hia
    obtain ⟨_, _⟩ := hja
    omega

theorem congr {as' : AddrSpace} (h : as.Wf M) (hlist : as'.orderedList = as.orderedList)
    (hvalid : ∀ i, as'.Valid i ↔ as.Valid i)
    (hregion : ∀ i, as.Valid i → (as'.node i).region = (as.node i).region) : as'.Wf M := by
  have hbase : ∀ i, as.Valid i → as'.base i = as.base i := by
    intro i hi
    rw [base, hregion i hi, base]
  have hlimit : ∀ i, as.Valid i → as'.limit i = as.limit i := by
    intro i hi
    rw [limit, limit, hbase i hi, hregion i hi]
  refine ⟨?_, ?_, ?_, ?_⟩
  · intro i
    rw [hlist, hvalid, h.listed]
  · rw [hlist]
    exact h.apart.congr (fun i hi => hbase i ((h.listed i).mp hi))
      (fun i hi => hlimit i ((h.listed i).mp hi))
  · intro i hi
    have hi := (hvalid i).mp hi
    rw [hbase i hi, hlimit i hi]
    exact h.nonempty i hi
  · intro i hi
    have hi := (hvalid i).mp hi
    rw [hlimit i hi]
    exact h.fits i hi

theorem allocateEntry {as' : AddrSpace} (h : as.Wf M)
    (halloc : as.memVmpuAllocateEntry = some (i, as')) : as'.Wf M ∧ ¬ as'.Valid i := by
  obtain ⟨hfree, rfl⟩ := memVmpuAllocateEntry_some halloc
  have hnot : ¬ as.Valid i := by
    intro hvalid
    rw [Valid, hfree] at hvalid
    cases hvalid
  have hnot' : ¬ (as.setNode i { as.node i with state := .invalid }).Valid i := by
    rw [Valid, setNode_node_same]
    intro hinvalid
    cases hinvalid
  refine ⟨h.congr rfl ?_ ?_, hnot'⟩
  · intro j
    by_cases hj : j = i
    · subst hj
      exact iff_of_false hnot' hnot
    · rw [Valid, setNode_node_other _ _ hj, Valid]
  · intro j hj
    have hne : j ≠ i := fun heq => hnot (heq ▸ hj)
    rw [setNode_node_other _ _ hne]

/-- **Adding a region** that meets no valid entry. -/
theorem setEntry {mpr : MpRegion} {lock : Bool} (h : as.Wf M) (hi : ¬ as.Valid i)
    (hsize : 0 < mpr.size) (hfit : mpr.base + mpr.size < M.wordCount)
    (hdisj : ∀ j, as.Valid j → mpr.base + mpr.size ≤ as.base j ∨ as.limit j ≤ mpr.base) :
    (as.memVmpuSetEntry i mpr lock).Wf M := by
  have hne : ∀ j, j ∈ as.orderedList → j ≠ i := by
    intro j hj heq
    exact hi (heq ▸ (h.listed j).mp hj)
  have hsame : (as.memVmpuSetEntry i mpr lock).node i = ⟨.valid, lock, mpr⟩ := by simp
  have hother : ∀ j, j ≠ i → (as.memVmpuSetEntry i mpr lock).node j = as.node j :=
    fun j hj => setNode_node_other _ _ hj
  have hbase : (as.memVmpuSetEntry i mpr lock).base i = mpr.base := by rw [base, hsame]
  have hlimit : (as.memVmpuSetEntry i mpr lock).limit i = mpr.base + mpr.size := by
    rw [limit, hbase, hsame]
  have hbase' : ∀ j, j ≠ i → (as.memVmpuSetEntry i mpr lock).base j = as.base j := by
    intro j hj
    rw [base, hother j hj, base]
  have hlimit' : ∀ j, j ≠ i → (as.memVmpuSetEntry i mpr lock).limit j = as.limit j := by
    intro j hj
    rw [limit, limit, hbase' j hj, hother j hj]
  have hvalid' : ∀ j, j ≠ i → ((as.memVmpuSetEntry i mpr lock).Valid j ↔ as.Valid j) := by
    intro j hj
    rw [Valid, hother j hj, Valid]
  refine ⟨?_, ?_, ?_, ?_⟩
  · intro j
    show j ∈ insertOrdered _ i as.orderedList ↔ _
    rw [mem_insertOrdered]
    by_cases hj : j = i
    · subst hj
      simp [Valid]
    · rw [hvalid' j hj, ← h.listed]
      simp [hj]
  · refine Apart.insertOrdered ?_ ?_ ?_ ?_ ?_
    · exact h.apart.congr (fun j hj => hbase' j (hne j hj)) (fun j hj => hlimit' j (hne j hj))
    · intro j hj
      show 0 < vmpuNodeCmp (as.setNode i ⟨.valid, lock, mpr⟩) j i ↔
        base (as.setNode i ⟨.valid, lock, mpr⟩) i < base (as.setNode i ⟨.valid, lock, mpr⟩) j
      unfold vmpuNodeCmp base
      by_cases hgt : ((as.setNode i ⟨.valid, lock, mpr⟩).node j).region.base >
          ((as.setNode i ⟨.valid, lock, mpr⟩).node i).region.base
      · rw [if_pos hgt]
        exact iff_of_true (by decide) hgt
      · rw [if_neg hgt]
        refine iff_of_false ?_ hgt
        split
        · decide
        · decide
    · intro j hj
      rw [hbase' j (hne j hj), hlimit' j (hne j hj)]
      exact h.nonempty j ((h.listed j).mp hj)
    · rw [hbase, hlimit]
      omega
    · intro j hj
      rw [hbase, hlimit, hbase' j (hne j hj), hlimit' j (hne j hj)]
      exact hdisj j ((h.listed j).mp hj)
  · intro j hj
    by_cases hji : j = i
    · subst hji
      rw [hbase, hlimit]
      omega
    · rw [hbase' j hji, hlimit' j hji]
      exact h.nonempty j ((hvalid' j hji).mp hj)
  · intro j hj
    by_cases hji : j = i
    · subst hji
      rw [hlimit]
      exact hfit
    · rw [hlimit' j hji]
      exact h.fits j ((hvalid' j hji).mp hj)

/-- **Removing an entry.** -/
theorem freeEntry (h : as.Wf M) (pteInvalid : Nat) (i : Mpid) :
    (as.memVmpuFreeEntry pteInvalid i).Wf M := by
  have hnode : ∀ j, (as.memVmpuFreeEntry pteInvalid i).Valid j → as.Valid j ∧
      (as.memVmpuFreeEntry pteInvalid i).node j = as.node j := by
    intro j hj
    obtain ⟨hvalid, hne⟩ := memVmpuFreeEntry_valid.mp hj
    exact ⟨hvalid, memVmpuFreeEntry_node_other as hne⟩
  have hmem : ∀ j, j ∈ as.orderedList.erase i ↔
      (as.memVmpuFreeEntry pteInvalid i).Valid j := by
    intro j
    rw [h.nodup.mem_erase_iff, memVmpuFreeEntry_valid, h.listed, and_comm]
  refine ⟨hmem, ?_, ?_, ?_⟩
  · refine (h.apart.sublist List.erase_sublist).congr ?_ ?_
    · intro j hj
      rw [base, (hnode j ((hmem j).mp hj)).2, base]
    · intro j hj
      rw [limit, base, (hnode j ((hmem j).mp hj)).2, limit, base]
  · intro j hj
    obtain ⟨hvalid, heq⟩ := hnode j hj
    have := h.nonempty j hvalid
    rwa [limit, base, heq]
  · intro j hj
    obtain ⟨hvalid, heq⟩ := hnode j hj
    have := h.fits j hvalid
    rwa [limit, base, heq]

/-- **Merging neighbours.**  The first takes the range of both and the second
is removed. -/
theorem merge {prev cur : Mpid} {pre post : List Mpid} {mpr : MpRegion} (h : as.Wf M)
    (hlist : as.orderedList = pre ++ prev :: cur :: post) (hbase : mpr.base = as.base prev)
    (hlimit : mpr.base + mpr.size = as.limit cur) (pteInvalid : Nat) :
    ((as.setNode prev { as.node prev with region := mpr }).memVmpuFreeEntry pteInvalid cur).Wf
      M := by
  have hnodup := h.nodup
  rw [hlist] at hnodup
  obtain ⟨-, hrest, hcross⟩ := List.nodup_append.mp hnodup
  obtain ⟨hprevNot, hcurNodup⟩ := List.nodup_cons.mp hrest
  obtain ⟨hcurNot, -⟩ := List.nodup_cons.mp hcurNodup
  have hpc : prev ≠ cur := fun heq => hprevNot (heq ▸ List.mem_cons_self)
  have hlisted : ∀ j, j ∈ pre ++ prev :: cur :: post → as.Valid j := by
    intro j hj
    exact (h.listed j).mp (hlist ▸ hj)
  have hprev : as.Valid prev := hlisted prev (by simp)
  have hcur : as.Valid cur := hlisted cur (by simp)
  -- The new table: `prev` has the merged region, `cur` is free, the rest is as before.
  generalize hnew : (as.setNode prev { as.node prev with region := mpr }).memVmpuFreeEntry
    pteInvalid cur = new
  have hnodePrev : new.node prev = { as.node prev with region := mpr } := by
    rw [← hnew, memVmpuFreeEntry_node_other _ hpc, setNode_node_same]
  have hnodeOther : ∀ j, j ≠ prev → j ≠ cur → new.node j = as.node j := by
    intro j hjp hjc
    rw [← hnew, memVmpuFreeEntry_node_other _ hjc, setNode_node_other _ _ hjp]
  have hvalid : ∀ j, new.Valid j ↔ as.Valid j ∧ j ≠ cur := by
    intro j
    rw [← hnew, memVmpuFreeEntry_valid]
    by_cases hj : j = prev
    · subst hj
      rw [Valid, setNode_node_same, Valid]
    · rw [Valid, setNode_node_other _ _ hj, Valid]
  have hnewList : new.orderedList = pre ++ prev :: post := by
    rw [← hnew, memVmpuFreeEntry_orderedList, setNode_orderedList, hlist,
      List.erase_append_right _ (fun hmem => hcross cur hmem cur (by simp) rfl),
      List.erase_cons_tail (by simpa using hpc), List.erase_cons_head]
  have hnewBase : ∀ j, j ≠ cur → new.base j = as.base j := by
    intro j hjc
    by_cases hj : j = prev
    · subst hj
      rw [base, hnodePrev, ← hbase]
    · rw [base, hnodeOther j hj hjc, base]
  have hnewLimit : new.limit prev = as.limit cur := by
    rw [limit, base, hnodePrev]
    exact hlimit
  have hotherLimit : ∀ j, j ≠ prev → j ≠ cur → new.limit j = as.limit j := by
    intro j hjp hjc
    rw [limit, hnewBase j hjc, hnodeOther j hjp hjc, limit]
  have hnotCur : ∀ j ∈ pre ++ prev :: post, j ≠ cur := by
    rintro j hj rfl
    rcases List.mem_append.mp hj with hj | hj
    · exact hcross j hj j (by simp) rfl
    · rcases List.mem_cons.mp hj with heq | hj
      · exact hpc heq.symm
      · exact hcurNot hj
  have hapart := h.apart
  rw [hlist] at hapart
  refine ⟨?_, ?_, ?_, ?_⟩
  · intro j
    rw [hnewList, hvalid, ← h.listed, hlist]
    constructor
    · intro hj
      refine ⟨?_, hnotCur j hj⟩
      simp only [List.mem_append, List.mem_cons] at hj ⊢
      rcases hj with hj | hj | hj
      · exact .inl hj
      · exact .inr (.inl hj)
      · exact .inr (.inr (.inr hj))
    · rintro ⟨hj, hjc⟩
      simp only [List.mem_append, List.mem_cons] at hj ⊢
      rcases hj with hj | hj | hj | hj
      · exact .inl hj
      · exact .inr (.inl hj)
      · exact absurd hj hjc
      · exact .inr (.inr hj)
  · rw [hnewList]
    let lo' := fun j => if j = cur then as.base cur else new.base j
    have hlo : ∀ j, lo' j = as.base j := by
      intro j
      show (if j = cur then as.base cur else new.base j) = _
      split
      · rename_i heq
        rw [heq]
      · rename_i hne
        exact hnewBase j hne
    have hmerged : Apart lo' new.limit (pre ++ prev :: post) := by
      refine hapart.merge hlo ?_ hnewLimit
      intro j hj
      have hjp : j ≠ prev := by
        rintro rfl
        rcases List.mem_append.mp hj with hj | hj
        · exact hcross j hj j (by simp) rfl
        · exact hprevNot (List.mem_cons_of_mem _ hj)
      refine hotherLimit j hjp (hnotCur j ?_)
      rcases List.mem_append.mp hj with hj | hj
      · exact List.mem_append_left _ hj
      · exact List.mem_append_right _ (List.mem_cons_of_mem _ hj)
    exact hmerged.congr (fun j hj => (if_neg (hnotCur j hj)).symm) (fun j _ => rfl)
  · intro j hj
    obtain ⟨hjv, hjc⟩ := (hvalid j).mp hj
    rw [hnewBase j hjc]
    by_cases hjp : j = prev
    · subst hjp
      have hle := hapart.disjoint (a := j) (b := cur) (by simp) (by simp) hpc
      have := h.nonempty cur hcur
      have hpn := h.nonempty j hprev
      have hinc := (List.pairwise_append.mp hapart).2.1
      have := (List.pairwise_cons.mp hinc).1 cur (by simp)
      rw [hnewLimit]
      omega
    · rw [hotherLimit j hjp hjc]
      exact h.nonempty j hjv
  · intro j hj
    obtain ⟨hjv, hjc⟩ := (hvalid j).mp hj
    by_cases hjp : j = prev
    · subst hjp
      rw [hnewLimit]
      exact h.fits cur hcur
    · rw [hotherLimit j hjp hjc]
      exact h.fits j hjv

end Wf

end AddrSpace

namespace VmpuCpu

open AddrSpace

variable {σ : Type} {C : VmpuCpu σ} {st st' : VmpuState σ} {mpr : MpRegion} {mpid : Mpid}
  {broadcast locked ok : Bool}

theorem broadcastRegion_as {op : MemEvent}
    (h : C.broadcastRegion st mpr op broadcast locked = some st') :
    st'.as = st.as ∧ st'.mpu = st.mpu := by
  rw [broadcastRegion] at h
  split at h
  · rw [memRegionBroadcast] at h
    split at h
    · cases h
    · simp only [Option.ite_none_right_eq_some, Option.some.injEq] at h
      obtain ⟨-, rfl⟩ := h
      exact ⟨rfl, rfl⟩
  · cases h
    exact ⟨rfl, rfl⟩

/-- An insertion sets the entry and tells the other CPUs where the MPU accepts
the region, and changes nothing but the MPU where it does not. -/
theorem memVmpuInsertRegion_cases
    (h : C.memVmpuInsertRegion st mpid mpr broadcast locked = some (ok, st')) :
    let lock := memCheckForcedLocked mpr locked
    let answer := C.arch.mpuMap st.mpu st.as mpr lock
    let mpr' := { mpr with memFlags := answer.2.1 }
    (answer.1 = false ∧ ok = false ∧ st' = { st with mpu := answer.2.2 }) ∨
      (answer.1 = true ∧ ok = true ∧ C.broadcastRegion
        { st with mpu := answer.2.2, as := st.as.memVmpuSetEntry mpid mpr' lock }
        mpr' .insert broadcast lock = some st') := by
  rw [memVmpuInsertRegion] at h
  dsimp only at h ⊢
  split at h
  · rename_i hanswer
    obtain ⟨st1, hsend, hst⟩ := Option.bind_eq_some_iff.mp h
    obtain ⟨rfl, rfl⟩ := Prod.mk.inj (Option.some.inj hst)
    exact .inr ⟨hanswer, rfl, hsend⟩
  · rename_i hanswer
    obtain ⟨rfl, rfl⟩ := Prod.mk.inj (Option.some.inj h)
    exact .inl ⟨by simpa using hanswer, rfl, rfl⟩

theorem memVmpuInsertRegion_as
    (h : C.memVmpuInsertRegion st mpid mpr broadcast locked = some (ok, st')) :
    (ok = false ∧ st'.as = st.as) ∨
      (ok = true ∧ st'.as = st.as.memVmpuSetEntry mpid
        { mpr with memFlags :=
            (C.arch.mpuMap st.mpu st.as mpr (memCheckForcedLocked mpr locked)).2.1 }
        (memCheckForcedLocked mpr locked)) := by
  rcases memVmpuInsertRegion_cases h with ⟨-, hok, rfl⟩ | ⟨-, hok, hsend⟩
  · exact .inl ⟨hok, rfl⟩
  · exact .inr ⟨hok, (broadcastRegion_as hsend).1⟩

theorem memVmpuUpdateRegion_as
    (h : C.memVmpuUpdateRegion st mpid mpr broadcast locked = some (ok, st')) :
    (ok = false ∧ st'.as = st.as) ∨
      (ok = true ∧ st'.as = st.as.setNode mpid { st.as.node mpid with region := mpr }) := by
  rw [memVmpuUpdateRegion] at h
  dsimp only at h
  split at h
  · obtain ⟨st1, hsend, hst⟩ := Option.bind_eq_some_iff.mp h
    obtain ⟨rfl, rfl⟩ := Prod.mk.inj (Option.some.inj hst)
    exact .inr ⟨rfl, (broadcastRegion_as hsend).1⟩
  · obtain ⟨rfl, rfl⟩ := Prod.mk.inj (Option.some.inj h)
    exact .inl ⟨rfl, rfl⟩

theorem memVmpuRemoveRegion_cases
    (h : C.memVmpuRemoveRegion st mpid broadcast = some (ok, st'))
    (hvalid : st.as.Valid mpid) :
    ok = true ∧ ∃ st1, C.broadcastRegion st (st.as.node mpid).region .remove broadcast
        (st.as.node mpid).lock = some st1 ∧
      st'.as = st1.as.memVmpuFreeEntry C.arch.pteInvalid mpid ∧ st'.sent = st1.sent := by
  rw [memVmpuRemoveRegion] at h
  dsimp only at h
  have hstate : (st.as.node mpid).state = .valid := hvalid
  rw [if_pos hstate] at h
  obtain ⟨st1, hsend, hst⟩ := Option.bind_eq_some_iff.mp h
  obtain ⟨rfl, rfl⟩ := Prod.mk.inj (Option.some.inj hst)
  exact ⟨rfl, st1, hsend, rfl, rfl⟩

theorem memVmpuRemoveRegion_as
    (h : C.memVmpuRemoveRegion st mpid broadcast = some (ok, st'))
    (hvalid : st.as.Valid mpid) :
    ok = true ∧ st'.as = st.as.memVmpuFreeEntry C.arch.pteInvalid mpid := by
  obtain ⟨hok, st1, hsend, has, -⟩ := memVmpuRemoveRegion_cases h hvalid
  exact ⟨hok, by rw [has, (broadcastRegion_as hsend).1]⟩

theorem findMerge_some {as : AddrSpace} {l : List Mpid} {prev cur : Mpid}
    (h : C.findMerge as l = some (prev, cur)) :
    C.canMerge as prev cur = true ∧ ∃ pre post, l = pre ++ prev :: cur :: post := by
  induction l with
  | nil => cases h
  | cons a l ih =>
      cases l with
      | nil => cases h
      | cons b rest =>
          rw [findMerge] at h
          split at h
          · rename_i hmerge
            obtain ⟨rfl, rfl⟩ := Prod.mk.inj (Option.some.inj h)
            exact ⟨hmerge, [], rest, rfl⟩
          · obtain ⟨hmerge, pre, post, heq⟩ := ih h
            exact ⟨hmerge, a :: pre, post, by rw [heq, List.cons_append]⟩

theorem findMerge_none {as : AddrSpace} {l pre post : List Mpid} {prev cur : Mpid}
    (h : C.findMerge as l = none) (hlist : l = pre ++ prev :: cur :: post) :
    C.canMerge as prev cur = false := by
  induction pre generalizing l with
  | nil =>
      rw [hlist, List.nil_append, findMerge] at h
      split at h
      · cases h
      · rename_i hnot
        exact eq_false_of_ne_true hnot
  | cons a pre ih =>
      refine ih ?_ rfl
      rw [hlist, List.cons_append] at h
      cases hrest : pre ++ prev :: cur :: post with
      | nil => rfl
      | cons b rest =>
          rw [hrest, findMerge] at h
          split at h
          · cases h
          · exact h

/-- Two neighbours merged: `prev` has the range of both and the flags of `cur`,
which is free. -/
structure Merged (C : VmpuCpu σ) (as as' : AddrSpace) (prev cur : Mpid) : Prop where
  canMerge : C.canMerge as prev cur = true
  validPrev : as.Valid prev
  validCur : as.Valid cur
  ne : prev ≠ cur
  meets : as.limit prev = as.base cur
  list : as'.orderedList = as.orderedList.erase cur
  wf : as'.Wf C.machine
  valid : ∀ k, as'.Valid k ↔ as.Valid k ∧ k ≠ cur
  other : ∀ k, k ≠ prev → k ≠ cur → as'.node k = as.node k
  basePrev : as'.base prev = as.base prev
  limitPrev : as'.limit prev = as.limit cur
  flags : (as'.node prev).region.memFlags = (as.node cur).region.memFlags
  lock : (as'.node prev).lock = (as.node prev).lock

/-- The region that `mem_vmpu_coalesce_contiguous` makes of two neighbours. -/
def mergedReg (C : VmpuCpu σ) (as : AddrSpace) (prev cur : Mpid) : MpRegion where
  base := (as.node prev).region.base
  size := ((as.node prev).region.size + (as.node cur).region.size) % C.machine.wordCount
  memFlags := (as.node cur).region.memFlags
  asSec := .hypGlobal

theorem merged_of_find {as as' : AddrSpace} {prev cur : Mpid} (hwf : as.Wf C.machine)
    (hfind : C.findMerge as as.orderedList = some (prev, cur))
    (has : as' = (as.setNode prev { as.node prev with
        region := C.mergedReg as prev cur }).memVmpuFreeEntry C.arch.pteInvalid cur) :
    Merged C as as' prev cur := by
  obtain ⟨hmerge, pre, post, hlist⟩ := findMerge_some hfind
  have hcur : as.Valid cur := (hwf.listed cur).mp (by rw [hlist]; simp)
  have hprev : as.Valid prev := (hwf.listed prev).mp (by rw [hlist]; simp)
  have hprevFit := hwf.fits prev hprev
  have hcurFit := hwf.fits cur hcur
  have hcont : as.limit prev = as.base cur := by
    simp only [VmpuCpu.canMerge, Bool.and_eq_true, decide_eq_true_eq] at hmerge
    have hmod : as.limit prev % C.machine.wordCount = as.base cur := hmerge.1.1
    rwa [Nat.mod_eq_of_lt hprevFit] at hmod
  have hsum : (as.node prev).region.size + (as.node cur).region.size < C.machine.wordCount := by
    unfold limit base at hcurFit hcont
    omega
  have hlimit : (C.mergedReg as prev cur).base + (C.mergedReg as prev cur).size = as.limit cur := by
    unfold mergedReg
    dsimp only
    rw [Nat.mod_eq_of_lt hsum]
    unfold limit base at hcont ⊢
    omega
  have hpc : prev ≠ cur := by
    have hnodup := hwf.nodup
    rw [hlist] at hnodup
    rintro rfl
    simp [List.nodup_append] at hnodup
  have hnode : as'.node prev = { as.node prev with region := C.mergedReg as prev cur } := by
    rw [has, memVmpuFreeEntry_node_other _ hpc, setNode_node_same]
  refine ⟨hmerge, hprev, hcur, hpc, hcont, ?_, ?_, ?_, ?_, ?_, ?_, ?_, ?_⟩
  · rw [has]
    rfl
  · rw [has]
    refine hwf.merge hlist ?_ hlimit _
    rfl
  · intro k
    rw [has, memVmpuFreeEntry_valid]
    by_cases hk : k = prev
    · rw [hk, Valid, setNode_node_same, Valid]
    · rw [Valid, setNode_node_other _ _ hk, Valid]
  · intro k hkp hkc
    rw [has, memVmpuFreeEntry_node_other _ hkc, setNode_node_other _ _ hkp]
  · rw [base, hnode]
    rfl
  · rw [limit, base, hnode]
    exact hlimit
  · rw [hnode]
    rfl
  · rw [hnode]

/-- **One turn of the loop**: nothing can merge, or the MPU refuses, or two
neighbours are merged. -/
theorem memVmpuCoalesceContiguous_cases {fuel : Nat} (hwf : st.as.Wf C.machine)
    (h : C.memVmpuCoalesceContiguous broadcast (fuel + 1) st = some st') :
    (C.findMerge st.as st.as.orderedList = none ∧ st' = st) ∨
      ∃ st1, C.memVmpuCoalesceContiguous broadcast fuel st1 = some st' ∧
        (st1.as = st.as ∨ ∃ prev cur, Merged C st.as st1.as prev cur) := by
  rw [memVmpuCoalesceContiguous] at h
  split at h
  · rename_i hfind
    exact .inl ⟨hfind, (Option.some.inj h).symm⟩
  · rename_i prev cur hfind
    obtain ⟨⟨merged, st1⟩, hupdate, h⟩ := Option.bind_eq_some_iff.mp h
    dsimp only at h
    rcases memVmpuUpdateRegion_as hupdate with ⟨rfl, has⟩ | ⟨rfl, has⟩
    · exact .inr ⟨st1, h, .inl has⟩
    · rw [if_pos rfl] at h
      obtain ⟨⟨removed, st2⟩, hremove, h⟩ := Option.bind_eq_some_iff.mp h
      have hmerged := merged_of_find hwf hfind rfl
      have hcur : st1.as.Valid cur := by
        rw [has, Valid, setNode_node_other _ _ hmerged.ne.symm]
        exact hmerged.validCur
      obtain ⟨-, has2⟩ := memVmpuRemoveRegion_as hremove hcur
      rw [has] at has2
      exact .inr ⟨st2, h, .inr ⟨prev, cur, merged_of_find hwf hfind has2⟩⟩

/-- **The loop ends** where the MPU accepts every update and nobody is told: each
turn frees an entry. -/
theorem memVmpuCoalesceContiguous_returns {fuel : Nat} (hwf : st.as.Wf C.machine)
    (haccept : ∀ mpu as mpr, (C.arch.mpuUpdate mpu as mpr).1 = true)
    (hfuel : st.as.orderedList.length < fuel) :
    ∃ st', C.memVmpuCoalesceContiguous false fuel st = some st' := by
  have hsilent : ∀ (st : VmpuState σ) (mpr : MpRegion) (op : MemEvent) (locked : Bool),
      C.broadcastRegion st mpr op false locked = some st := by
    intro st mpr op locked
    unfold broadcastRegion memBroadcast
    simp
  induction fuel generalizing st with
  | zero => exact absurd hfuel (Nat.not_lt_zero _)
  | succ fuel ih =>
    rw [memVmpuCoalesceContiguous]
    split
    · exact ⟨st, rfl⟩
    · rename_i prev cur hfind
      have hmerged := merged_of_find hwf hfind rfl
      have hupdate : ∀ locked, C.memVmpuUpdateRegion st prev (C.mergedReg st.as prev cur) false
          locked = some (true, { st with
            mpu := (C.arch.mpuUpdate st.mpu st.as (C.mergedReg st.as prev cur)).2
            as := st.as.setNode prev { st.as.node prev with
              region := C.mergedReg st.as prev cur } }) := by
        intro locked
        unfold memVmpuUpdateRegion
        dsimp only
        rw [if_pos (haccept _ _ _), hsilent]
        rfl
      have hremove : ∀ st1 : VmpuState σ, st1.as.Valid cur →
          ∃ st2, C.memVmpuRemoveRegion st1 cur false = some (true, st2) ∧
            st2.as = st1.as.memVmpuFreeEntry C.arch.pteInvalid cur := by
        intro st1 hvalid
        have hstate : (st1.as.node cur).state = .valid := hvalid
        unfold memVmpuRemoveRegion
        dsimp only
        rw [if_pos hstate, hsilent]
        exact ⟨_, rfl, rfl⟩
      change ∃ st', (C.memVmpuUpdateRegion st prev (C.mergedReg st.as prev cur) false
        (st.as.node prev).lock).bind _ = some st'
      rw [hupdate]
      have hcur : (st.as.setNode prev { st.as.node prev with
          region := C.mergedReg st.as prev cur }).Valid cur := by
        rw [Valid, setNode_node_other _ _ hmerged.ne.symm]
        exact hmerged.validCur
      obtain ⟨st2, hst2, has2⟩ := hremove { st with
        mpu := (C.arch.mpuUpdate st.mpu st.as (C.mergedReg st.as prev cur)).2
        as := st.as.setNode prev { st.as.node prev with
          region := C.mergedReg st.as prev cur } } hcur
      have hlisted := (hwf.listed cur).mpr hmerged.validCur
      have hpos := List.length_pos_of_mem hlisted
      have hshorter : st2.as.orderedList.length < fuel := by
        rw [has2, memVmpuFreeEntry_orderedList, setNode_orderedList,
          List.length_erase_of_mem hlisted]
        omega
      have hwf2 : st2.as.Wf C.machine := by
        rw [has2]
        exact hmerged.wf
      obtain ⟨st', hst'⟩ := ih hwf2 hshorter
      refine ⟨st', ?_⟩
      change (C.memVmpuRemoveRegion _ cur false).bind _ = some st'
      rw [hst2]
      exact hst'

/-- **Coalescing** keeps a vMPU well formed, whatever the MPU answers. -/
theorem memVmpuCoalesceContiguous_wf {fuel : Nat} (hwf : st.as.Wf C.machine)
    (h : C.memVmpuCoalesceContiguous broadcast fuel st = some st') : st'.as.Wf C.machine := by
  induction fuel generalizing st with
  | zero => cases h
  | succ fuel ih =>
      rcases memVmpuCoalesceContiguous_cases hwf h with ⟨-, rfl⟩ | ⟨st1, h, has | ⟨_, _, hmerged⟩⟩
      · exact hwf
      · exact ih (by rw [has]; exact hwf) h
      · exact ih hmerged.wf h

/-- Valid entry `i` contains the region. -/
def Contains (as : AddrSpace) (i : Mpid) (mpr : MpRegion) : Prop :=
  as.Valid i ∧ as.base i ≤ mpr.base ∧ mpr.base + mpr.size ≤ as.limit i

/-- The region meets no valid entry. -/
def MeetsNone (as : AddrSpace) (mpr : MpRegion) : Prop :=
  ∀ i, as.Valid i → mpr.base + mpr.size ≤ as.base i ∨ as.limit i ≤ mpr.base

theorem memRegionsOverlap_iff {as : AddrSpace} (hwf : as.Wf M) {i : Mpid} (hi : as.Valid i)
    (hfit : mpr.base + mpr.size < M.wordCount) :
    memRegionsOverlap M mpr (as.node i).region = true ↔
      as.base i ≤ mpr.base ∧ mpr.base + mpr.size ≤ as.limit i :=
  M.rangeInRange_of_lt hfit (hwf.fits i hi)

theorem find_some {as : AddrSpace} (hwf : as.Wf M) {i : Mpid}
    (hfit : mpr.base + mpr.size < M.wordCount)
    (h : memVmpuFindOverlappingRegion M as mpr = some i) : Contains as i mpr := by
  have hsat := List.find?_some h
  simp only [decide_eq_true_eq] at hsat
  exact ⟨hsat.1, (memRegionsOverlap_iff hwf hsat.1 hfit).mp hsat.2⟩

theorem find_none {as : AddrSpace} (hwf : as.Wf M)
    (hfit : mpr.base + mpr.size < M.wordCount)
    (h : memVmpuFindOverlappingRegion M as mpr = none) (i : Mpid) : ¬ Contains as i mpr := by
  rintro ⟨hi, hcontains⟩
  have hnot := List.find?_eq_none.mp h i (List.mem_finRange i)
  simp only [decide_eq_true_eq, not_and] at hnot
  exact hnot hi ((memRegionsOverlap_iff hwf hi hfit).mpr hcontains)

/-- The condition under which `mem_map` of a region is sound: it is empty, or
it does not wrap and is contained in a valid entry or meets none. -/
def MapFits (M : Machine) (as : AddrSpace) (mpr : MpRegion) : Prop :=
  mpr.size = 0 ∨
    mpr.base + mpr.size < M.wordCount ∧ ((∃ i, Contains as i mpr) ∨ MeetsNone as mpr)

/-- **What `mem_map` does.**  An empty region and a region contained in a
valid entry change nothing; any other is inserted in a free entry, and
unlocked neighbours are coalesced. -/
theorem memMap_cases {fuel : Nat}
    (h : C.memMap fuel st mpr broadcast locked = some (ok, st')) :
    (mpr.size = 0 ∧ ok = true ∧ st' = st) ∨
      ((∃ i, memVmpuFindOverlappingRegion C.machine st.as mpr = some i) ∧ ok = false ∧ st' = st) ∨
      (mpr.size ≠ 0 ∧ memVmpuFindOverlappingRegion C.machine st.as mpr = none ∧
        ∃ i as1 st1, st.as.memVmpuAllocateEntry = some (i, as1) ∧
          C.memVmpuInsertRegion { st with as := as1 } i mpr broadcast locked = some (ok, st1) ∧
          if ok && !locked then C.memVmpuCoalesceContiguous broadcast fuel st1 = some st'
          else st' = st1) := by
  rw [memMap] at h
  split at h
  · rename_i hsize
    obtain ⟨rfl, rfl⟩ := Prod.mk.inj (Option.some.inj h)
    exact .inl ⟨hsize, rfl, rfl⟩
  · rename_i hsize
    split at h
    · cases h
    · split at h
      · cases h
      · split at h
        · rename_i i hfind
          obtain ⟨rfl, rfl⟩ := Prod.mk.inj (Option.some.inj h)
          exact .inr (.inl ⟨⟨i, hfind⟩, rfl, rfl⟩)
        · rename_i hfind
          obtain ⟨⟨i, as1⟩, halloc, h⟩ := Option.bind_eq_some_iff.mp h
          obtain ⟨⟨mapped, st1⟩, hinsert, h⟩ := Option.bind_eq_some_iff.mp h
          refine .inr (.inr ⟨hsize, hfind, i, as1, st1, halloc, ?_⟩)
          dsimp only at h
          split at h
          · rename_i hcoal
            obtain ⟨st2, hcoalesce, h⟩ := Option.bind_eq_some_iff.mp h
            obtain ⟨rfl, rfl⟩ := Prod.mk.inj (Option.some.inj h)
            exact ⟨hinsert, by rw [if_pos hcoal]; exact hcoalesce⟩
          · rename_i hcoal
            obtain ⟨rfl, rfl⟩ := Prod.mk.inj (Option.some.inj h)
            exact ⟨hinsert, by rw [if_neg hcoal]⟩

theorem MeetsNone.allocate {as as1 : AddrSpace} {i : Mpid} (h : MeetsNone as mpr)
    (halloc : as.memVmpuAllocateEntry = some (i, as1)) : MeetsNone as1 mpr := by
  intro j hj
  obtain ⟨hvalid, hnode⟩ := allocateEntry_node halloc hj
  have := h j hvalid
  rwa [limit, base, hnode]

/-- **Mapping** a region that fits. -/
theorem memMap_wf {fuel : Nat} (hwf : st.as.Wf C.machine) (hfits : MapFits C.machine st.as mpr)
    (h : C.memMap fuel st mpr broadcast locked = some (ok, st')) : st'.as.Wf C.machine := by
  rcases memMap_cases h with ⟨-, -, rfl⟩ | ⟨-, -, rfl⟩ |
    ⟨hsize, hfind, i, as1, st1, halloc, hinsert, hend⟩
  · exact hwf
  · exact hwf
  · obtain ⟨hfit, hplace⟩ := hfits.resolve_left hsize
    have hmeets : MeetsNone st.as mpr := by
      refine hplace.resolve_left ?_
      rintro ⟨i, hi⟩
      exact find_none hwf hfit hfind i hi
    obtain ⟨hwf1, hnot⟩ := hwf.allocateEntry halloc
    have hst1 : st1.as.Wf C.machine := by
      rcases memVmpuInsertRegion_as hinsert with ⟨-, has⟩ | ⟨-, has⟩
      · rw [has]
        exact hwf1
      · rw [has]
        exact hwf1.setEntry hnot (Nat.pos_of_ne_zero hsize) hfit (hmeets.allocate halloc)
    split at hend
    · exact memVmpuCoalesceContiguous_wf hst1 hend
    · rw [hend]
      exact hst1

/-- Putting back a rest that meets no valid entry keeps the vMPU well formed,
and every valid entry afterwards is an old one or the rest. -/
theorem insertRest_wf (hwf : st.as.Wf C.machine)
    (hfit : mpr.base + mpr.size < C.machine.wordCount)
    (hmeets : 0 < mpr.size → MeetsNone st.as mpr)
    (h : C.insertRest st mpr broadcast locked = some (ok, st')) :
    st'.as.Wf C.machine ∧ ∀ j, st'.as.Valid j →
      (st.as.Valid j ∧ st'.as.node j = st.as.node j) ∨
        (st'.as.base j = mpr.base ∧ st'.as.limit j = mpr.base + mpr.size) := by
  rw [insertRest] at h
  split at h
  · rename_i hsize
    obtain ⟨⟨i, as1⟩, halloc, h⟩ := Option.bind_eq_some_iff.mp h
    obtain ⟨hwf1, hnot⟩ := hwf.allocateEntry halloc
    have hmeets1 : MeetsNone as1 mpr := (hmeets hsize).allocate halloc
    rcases memVmpuInsertRegion_as h with ⟨-, has⟩ | ⟨-, has⟩
    · rw [has]
      exact ⟨hwf1, fun j hj => .inl (allocateEntry_node halloc hj)⟩
    · rw [has]
      refine ⟨hwf1.setEntry hnot hsize hfit hmeets1, ?_⟩
      intro j hj
      by_cases hji : j = i
      · subst hji
        right
        simp [limit, base]
      · left
        have hnode : (as1.memVmpuSetEntry i
            { mpr with memFlags := (C.arch.mpuMap st.mpu as1 mpr
              (memCheckForcedLocked mpr locked)).2.1 }
            (memCheckForcedLocked mpr locked)).node j = as1.node j := setNode_node_other _ _ hji
        rw [Valid, hnode] at hj
        rw [hnode]
        exact allocateEntry_node halloc hj
  · cases h
    exact ⟨hwf, fun j hj => .inl ⟨hj, rfl⟩⟩

/-- The sizes that unmapping computes for an entry that contains the range:
what is above it, what is below it, and the range itself. -/
theorem unmap_sizes {as : AddrSpace} {i : Mpid} {vaddr size : Nat} {flags : Nat} {sec : AsSec}
    (hwf : as.Wf C.machine) (hfit : vaddr + size < C.machine.wordCount)
    (hi : Contains as i ⟨vaddr, size, flags, sec⟩) :
    let reg := (as.node i).region
    let limit := (vaddr + size) % C.machine.wordCount
    let rLimit := (reg.base + reg.size) % C.machine.wordCount
    let topSize := if rLimit ≤ limit then 0 else rLimit - limit
    let bottomSize := if vaddr ≤ reg.base then 0 else vaddr - reg.base
    limit = vaddr + size ∧ topSize = as.limit i - (vaddr + size) ∧
      bottomSize = vaddr - as.base i ∧ C.sub (C.sub reg.size topSize) bottomSize = size := by
  obtain ⟨hvalid, hlow, hhigh⟩ := hi
  have hlimit := hwf.fits i hvalid
  dsimp only at hlow hhigh ⊢
  have hr : (as.node i).region.base + (as.node i).region.size = as.limit i := rfl
  have hb : (as.node i).region.base = as.base i := rfl
  rw [hr, hb, Nat.mod_eq_of_lt hfit, Nat.mod_eq_of_lt hlimit]
  have htop : (if as.limit i ≤ vaddr + size then 0 else as.limit i - (vaddr + size)) =
      as.limit i - (vaddr + size) := by
    split <;> omega
  have hbottom : (if vaddr ≤ as.base i then 0 else vaddr - as.base i) = vaddr - as.base i := by
    split <;> omega
  have hsize : (as.node i).region.size = as.limit i - as.base i := by
    rw [← hr, ← hb]
    omega
  rw [htop, hbottom, hsize]
  refine ⟨rfl, rfl, rfl, ?_⟩
  have h1 : as.limit i - as.base i + C.machine.wordCount - (as.limit i - (vaddr + size)) =
      (vaddr + size - as.base i) + C.machine.wordCount := by omega
  have h2 : vaddr + size - as.base i + C.machine.wordCount - (vaddr - as.base i) =
      size + C.machine.wordCount := by omega
  have hin : vaddr + size - as.base i < C.machine.wordCount := by omega
  have hsz : size < C.machine.wordCount := by omega
  rw [sub, sub, h1, Nat.add_mod_right, Nat.mod_eq_of_lt hin, h2, Nat.add_mod_right,
    Nat.mod_eq_of_lt hsz]

/-- **What splitting an entry does.**  The entry that contains the range is
removed; what it has above the range is put back, then what it has below. -/
theorem unmapEntry_cases {i : Mpid} {vaddr size : Nat} {overlap : Option Nat}
    (hwf : st.as.Wf C.machine) (hfit : vaddr + size < C.machine.wordCount)
    (hi : Contains st.as i ⟨vaddr, size, 0, .unknown⟩)
    (h : C.unmapEntry st i vaddr size broadcast = some (overlap, st')) :
    ∃ removed okTop st1 st2, C.memVmpuRemoveRegion st i broadcast = some (removed, st1) ∧
      C.insertRest st1 { (st.as.node i).region with
        base := vaddr + size, size := st.as.limit i - (vaddr + size) } broadcast
        (st.as.node i).lock = some (okTop, st2) ∧
      ((okTop = false ∧ overlap = none ∧ st' = st2) ∨
        (okTop = true ∧ ∃ okBottom, C.insertRest st2 { (st.as.node i).region with
            size := vaddr - st.as.base i } broadcast (st.as.node i).lock = some (okBottom, st') ∧
          overlap = if okBottom then some size else none)) := by
  obtain ⟨hlim, htop, hbottom, hsub⟩ := unmap_sizes hwf hfit hi
  rw [unmapEntry] at h
  dsimp only at h hlim htop hbottom hsub
  rw [hsub, htop, hbottom, hlim] at h
  obtain ⟨⟨removed, st1⟩, hremove, h⟩ := Option.bind_eq_some_iff.mp h
  obtain ⟨⟨okTop, st2⟩, hinsTop, h⟩ := Option.bind_eq_some_iff.mp h
  refine ⟨removed, okTop, st1, st2, hremove, hinsTop, ?_⟩
  dsimp only at h
  split at h
  · rename_i hokTop
    obtain ⟨⟨okBottom, st3⟩, hinsBottom, h⟩ := Option.bind_eq_some_iff.mp h
    refine .inr ⟨hokTop, okBottom, ?_⟩
    dsimp only at h
    split at h
    · rename_i hokBottom
      obtain ⟨rfl, rfl⟩ := Prod.mk.inj (Option.some.inj h)
      exact ⟨hinsBottom, by rw [if_pos hokBottom]⟩
    · rename_i hokBottom
      obtain ⟨rfl, rfl⟩ := Prod.mk.inj (Option.some.inj h)
      exact ⟨hinsBottom, by rw [if_neg hokBottom]⟩
  · rename_i hokTop
    obtain ⟨rfl, rfl⟩ := Prod.mk.inj (Option.some.inj h)
    exact .inl ⟨by simpa using hokTop, rfl, rfl⟩

theorem removed_apart {i : Mpid} {removed : Bool} {st1 : VmpuState σ}
    (hwf : st.as.Wf C.machine) (hvalid : st.as.Valid i)
    (h : C.memVmpuRemoveRegion st i broadcast = some (removed, st1)) {j : Mpid}
    (hj : st1.as.Valid j) :
    st1.as.limit j ≤ st.as.base i ∨ st.as.limit i ≤ st1.as.base j := by
  obtain ⟨-, has⟩ := memVmpuRemoveRegion_as h hvalid
  rw [has] at hj ⊢
  obtain ⟨hjv, hji⟩ := memVmpuFreeEntry_valid.mp hj
  rw [limit, base, memVmpuFreeEntry_node_other _ hji]
  exact hwf.disjoint hjv hvalid hji

theorem unmapEntry_wf {i : Mpid} {vaddr size : Nat} {overlap : Option Nat}
    (hwf : st.as.Wf C.machine) (hfit : vaddr + size < C.machine.wordCount)
    (hi : Contains st.as i ⟨vaddr, size, 0, .unknown⟩)
    (h : C.unmapEntry st i vaddr size broadcast = some (overlap, st')) :
    st'.as.Wf C.machine := by
  obtain ⟨removed, okTop, st1, st2, hremove, hinsTop, hend⟩ := unmapEntry_cases hwf hfit hi h
  obtain ⟨hvalid, hlow, hhigh⟩ := hi
  dsimp only at hlow hhigh
  have hfits := hwf.fits i hvalid
  have hapart : ∀ j, st1.as.Valid j →
      st1.as.limit j ≤ st.as.base i ∨ st.as.limit i ≤ st1.as.base j :=
    fun _ hj => removed_apart hwf hvalid hremove hj
  have hwf1 : st1.as.Wf C.machine := by
    rw [(memVmpuRemoveRegion_as hremove hvalid).2]
    exact hwf.freeEntry _ _
  have htopFit : vaddr + size + (st.as.limit i - (vaddr + size)) < C.machine.wordCount := by omega
  have htopMeets : 0 < st.as.limit i - (vaddr + size) → MeetsNone st1.as
      { (st.as.node i).region with
        base := vaddr + size, size := st.as.limit i - (vaddr + size) } := by
    intro hpos j hj
    dsimp only
    rcases hapart j hj with h1 | h1
    · right
      omega
    · left
      omega
  obtain ⟨hwf2, hvalid2⟩ := insertRest_wf hwf1 htopFit htopMeets hinsTop
  rcases hend with ⟨-, -, rfl⟩ | ⟨-, okBottom, hinsBottom, -⟩
  · exact hwf2
  · have hbase : (st.as.node i).region.base = st.as.base i := rfl
    have hbotFit : (st.as.node i).region.base + (vaddr - st.as.base i) < C.machine.wordCount := by
      rw [hbase]
      omega
    have hbotMeets : 0 < vaddr - st.as.base i → MeetsNone st2.as
        { (st.as.node i).region with size := vaddr - st.as.base i } := by
      intro hpos j hj
      dsimp only
      rw [hbase]
      rcases hvalid2 j hj with ⟨hj1, hnode⟩ | ⟨hb, -⟩
      · have hbj : st2.as.base j = st1.as.base j := by rw [base, hnode, base]
        have hlj : st2.as.limit j = st1.as.limit j := by rw [limit, limit, hbj, hnode]
        rw [hbj, hlj]
        rcases hapart j hj1 with h1 | h1
        · right
          omega
        · left
          omega
      · left
        rw [hb]
        dsimp only
        omega
    exact (insertRest_wf hwf2 hbotFit hbotMeets hinsBottom).1

/-- **What `mem_unmap_range` does.**  It splits the entry that contains the
range, in one turn of its loop, or changes nothing; where a part could not be
put back it returns with the lock held. -/
theorem memUnmapRange_cases {fuel vaddr size : Nat} (hwf : st.as.Wf C.machine)
    (hfit : vaddr + size < C.machine.wordCount)
    (h : C.memUnmapRange fuel st vaddr size broadcast = some (ok, st')) :
    (st' = st ∧ ((size = 0 ∧ ok = true) ∨ (0 < size ∧ ok = false ∧
        memVmpuFindOverlappingRegion C.machine st.as ⟨vaddr, size, 0, .unknown⟩ = none))) ∨
      ∃ i overlap st1, 0 < size ∧
      memVmpuFindOverlappingRegion C.machine st.as ⟨vaddr, size, 0, .unknown⟩ = some i ∧
      C.unmapEntry st i vaddr size broadcast = some (overlap, st1) ∧
      ((overlap = none ∧ ok = false ∧ st' = { st1 with as := { st1.as with lock := true } }) ∨
        (overlap = some size ∧ ok = true ∧ st' = st1)) := by
  rw [memUnmapRange] at h
  split at h
  · cases h
  · cases fuel with
    | zero => cases h
    | succ fuel =>
        rw [unmapLoop] at h
        split at h
        · rename_i hzero
          cases h
          exact .inl ⟨rfl, .inl ⟨hzero, rfl⟩⟩
        · rename_i hsize
          have hpos := Nat.pos_of_ne_zero hsize
          split at h
          · rename_i hfind
            cases h
            exact .inl ⟨rfl, .inr ⟨hpos, rfl, hfind⟩⟩
          · rename_i i hfind
            have hi := find_some hwf hfit hfind
            split at h
            · cases h
            · rename_i st1 hentry
              cases h
              exact .inr ⟨i, none, st1, hpos, hfind, hentry, .inl ⟨rfl, rfl, rfl⟩⟩
            · rename_i overlap st1 hentry
              obtain ⟨_, _, _, _, -, -, hend⟩ := unmapEntry_cases hwf hfit hi hentry
              have hoverlap : overlap = size := by
                rcases hend with ⟨-, hnone, -⟩ | ⟨-, okBottom, -, hsome⟩
                · cases hnone
                · split at hsome
                  · exact Option.some.inj hsome
                  · cases hsome
              subst hoverlap
              have hzero : C.sub overlap overlap = 0 := by
                rw [sub, Nat.add_sub_cancel_left, Nat.mod_self]
              rw [hzero] at h
              cases fuel with
              | zero => cases h
              | succ fuel =>
                  rw [unmapLoop, if_pos rfl] at h
                  cases h
                  exact .inr ⟨i, some overlap, _, hpos, hfind, hentry, .inr ⟨rfl, rfl, rfl⟩⟩

/-- **Unmapping** a range that does not wrap. -/
theorem memUnmapRange_wf {fuel vaddr size : Nat} (hwf : st.as.Wf C.machine)
    (hfit : vaddr + size < C.machine.wordCount)
    (h : C.memUnmapRange fuel st vaddr size broadcast = some (ok, st')) :
    st'.as.Wf C.machine := by
  rcases memUnmapRange_cases hwf hfit h with ⟨rfl, -⟩ | ⟨i, overlap, st1, -, hfind, hentry, hend⟩
  · exact hwf
  · have hwf1 := unmapEntry_wf hwf hfit (find_some hwf hfit hfind) hentry
    rcases hend with ⟨-, -, rfl⟩ | ⟨-, -, rfl⟩
    · exact hwf1.congr rfl (fun _ => Iff.rfl) (fun _ _ => rfl)
    · exact hwf1

end VmpuCpu

end Bao

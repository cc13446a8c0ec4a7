import BaoHypervisor.VmpuCoalesce
import BaoHypervisor.VmpuRefusal
import BaoHypervisor.VmpuUnmap
import Mathlib.Data.List.Count

/-!
# When coalescing comes to an end

Each pass of `mem_vmpu_coalesce_contiguous` looks for the first two neighbours
that can merge and asks the MPU to extend the first one.  The table alone
decides which pairs come up: how many merges a table calls for is `mergesLeft`.
A merge frees an entry, so there are fewer of them than entries.  But a merge
that the MPU refuses leaves both entries, and the next pass asks for the same
merge again.  So the loop ends within as many passes as there are entries exactly
if the MPU accepts enough of what it is asked in that time; an MPU that stays with
its refusal keeps the loop going for ever.
-/

namespace Bao

open AddrSpace

/-- An MPU that answers the updates it is asked for by the pattern `p`, one after
the other. -/
structure Answers {σ : Type} (A : MpuArch σ) (p : Nat → Bool) where
  turn : σ → Nat
  update : ∀ mpu as mpr, (A.mpuUpdate mpu as mpr).1 = p (turn mpu)
  next : ∀ mpu as mpr, turn (A.mpuUpdate mpu as mpr).2 = turn mpu + 1
  unmap : ∀ mpu as mpr, turn (A.mpuUnmap mpu as mpr).2 = turn mpu

/-- How many of the `n` answers from the `t`-th on are acceptances. -/
def accepted (p : Nat → Bool) (t n : Nat) : Nat := (List.range n).countP fun k => p (t + k)

theorem accepted_succ (p : Nat → Bool) (t n : Nat) :
    accepted p t (n + 1) = (if p t then 1 else 0) + accepted p (t + 1) n := by
  have hshift : (fun k => p (t + (k + 1))) = fun k => p (t + 1 + k) := by
    funext k
    rw [Nat.add_right_comm, Nat.add_assoc]
  rw [accepted, List.range_succ_eq_map, List.countP_cons, List.countP_map, Nat.add_comm, accepted]
  show (if p (t + 0) = true then 1 else 0) + List.countP (fun k => p (t + (k + 1))) _ = _
  rw [hshift, Nat.add_zero]

namespace VmpuCpu

variable {σ : Type} (C : VmpuCpu σ)

/-- The table after the merge of two neighbours. -/
def mergeSpace (as : AddrSpace) (prev cur : Mpid) : AddrSpace :=
  (as.setNode prev { as.node prev with region := C.mergedReg as prev cur }).memVmpuFreeEntry
    C.arch.pteInvalid cur

/-- The number of merges, of at most `bound`, that a table calls for. -/
def mergesUpTo : Nat → AddrSpace → Nat
  | 0, _ => 0
  | bound + 1, as =>
      match C.findMerge as as.orderedList with
      | none => 0
      | some (prev, cur) => mergesUpTo bound (C.mergeSpace as prev cur) + 1

/-- The table after at most `bound` merges. -/
def mergedUpTo : Nat → AddrSpace → AddrSpace
  | 0, as => as
  | bound + 1, as =>
      match C.findMerge as as.orderedList with
      | none => as
      | some (prev, cur) => mergedUpTo bound (C.mergeSpace as prev cur)

/-- The table after all the merges that it calls for. -/
def mergedSpace (as : AddrSpace) : AddrSpace := C.mergedUpTo as.orderedList.length as

/-- The number of merges that a table calls for. -/
def mergesLeft (as : AddrSpace) : Nat := C.mergesUpTo as.orderedList.length as

/-- No two entries are contiguous, compatible and unlocked. -/
def NoneMergeable (as : AddrSpace) : Prop :=
  ∀ i j, as.Valid i → as.Valid j → C.canMerge as i j = false

variable {C} {st st' : VmpuState σ} {broadcast : Bool} {prev cur : Mpid}

theorem mergeSpace_merged {as : AddrSpace} (hwf : as.Wf C.machine)
    (hfind : C.findMerge as as.orderedList = some (prev, cur)) :
    Merged C as (C.mergeSpace as prev cur) prev cur := merged_of_find hwf hfind rfl

theorem mergeSpace_length {as : AddrSpace} (hwf : as.Wf C.machine)
    (hfind : C.findMerge as as.orderedList = some (prev, cur)) :
    as.orderedList.length = (C.mergeSpace as prev cur).orderedList.length + 1 := by
  have hmerged := mergeSpace_merged hwf hfind
  have hlisted := (hwf.listed cur).mpr hmerged.validCur
  have hpos := List.length_pos_of_mem hlisted
  rw [hmerged.list, List.length_erase_of_mem hlisted]
  omega

theorem mergesLeft_of_find {as : AddrSpace} (hwf : as.Wf C.machine)
    (hfind : C.findMerge as as.orderedList = some (prev, cur)) :
    C.mergesLeft as = C.mergesLeft (C.mergeSpace as prev cur) + 1 := by
  rw [mergesLeft, mergeSpace_length hwf hfind, mergesUpTo, hfind]
  rfl

theorem mergesLeft_of_none {as : AddrSpace} (hfind : C.findMerge as as.orderedList = none) :
    C.mergesLeft as = 0 := by
  rw [mergesLeft]
  cases as.orderedList.length with
  | zero => rfl
  | succ n => rw [mergesUpTo, hfind]

theorem mergedSpace_of_find {as : AddrSpace} (hwf : as.Wf C.machine)
    (hfind : C.findMerge as as.orderedList = some (prev, cur)) :
    C.mergedSpace as = C.mergedSpace (C.mergeSpace as prev cur) := by
  rw [mergedSpace, mergeSpace_length hwf hfind, mergedUpTo, hfind]
  rfl

theorem mergedSpace_of_none {as : AddrSpace} (hfind : C.findMerge as as.orderedList = none) :
    C.mergedSpace as = as := by
  rw [mergedSpace]
  cases as.orderedList.length with
  | zero => rfl
  | succ n => rw [mergedUpTo, hfind]

theorem noneMergeable_of_find {as : AddrSpace} (hwf : as.Wf C.machine)
    (hfind : C.findMerge as as.orderedList = none) : C.NoneMergeable as := by
  intro i j hi hj
  apply eq_false_of_ne_true
  intro hcan
  have hmeets : as.limit i = as.base j := by
    have hparts := hcan
    simp only [canMerge, Bool.and_eq_true, decide_eq_true_eq] at hparts
    have hmod : as.limit i % C.machine.wordCount = as.base j := hparts.1.1
    rwa [Nat.mod_eq_of_lt (hwf.fits i hi)] at hmod
  obtain ⟨pre, post, hlist⟩ := hwf.next_of_meets hi hj hmeets
  rw [findMerge_none hfind hlist] at hcan
  cases hcan

theorem memVmpuCoalesceContiguous_done {fuel : Nat} (hwf : st.as.Wf C.machine)
    (h : C.memVmpuCoalesceContiguous broadcast fuel st = some st') : C.NoneMergeable st'.as := by
  induction fuel generalizing st with
  | zero => cases h
  | succ fuel ih =>
      rcases memVmpuCoalesceContiguous_cases hwf h with
        ⟨hfind, rfl⟩ | ⟨st1, h, has | ⟨_, _, hmerged⟩⟩
      · exact noneMergeable_of_find hwf hfind
      · exact ih (by rw [has]; exact hwf) h
      · exact ih hmerged.wf h

theorem Room.mono {m n : Nat} (h : C.Room st broadcast n) (hle : m ≤ n) :
    C.Room st broadcast m := by
  rcases h with hquiet | ⟨hcpus, hpool⟩
  · exact .inl hquiet
  · have hmul : m * C.cpuNum ≤ n * C.cpuNum := Nat.mul_le_mul_right _ hle
    exact .inr ⟨hcpus, by omega⟩

/-- **What one pass does**: it ends the loop where nothing can merge; else it asks
the MPU to extend the first entry of the pair, and takes the second one away if the
MPU accepts. -/
theorem coalesce_pass {fuel : Nat} (hwf : st.as.Wf C.machine)
    (h : C.memVmpuCoalesceContiguous broadcast (fuel + 1) st = some st') :
    (C.findMerge st.as st.as.orderedList = none ∧ st' = st) ∨
      ∃ prev cur st1, C.findMerge st.as st.as.orderedList = some (prev, cur) ∧
        C.memVmpuCoalesceContiguous broadcast fuel st1 = some st' ∧
        (((C.arch.mpuUpdate st.mpu st.as (C.mergedReg st.as prev cur)).1 = false ∧
            st1.as = st.as ∧
            st1.mpu = (C.arch.mpuUpdate st.mpu st.as (C.mergedReg st.as prev cur)).2) ∨
          ((C.arch.mpuUpdate st.mpu st.as (C.mergedReg st.as prev cur)).1 = true ∧
            st1.as = C.mergeSpace st.as prev cur ∧ ∃ as,
            st1.mpu = (C.arch.mpuUnmap
              (C.arch.mpuUpdate st.mpu st.as (C.mergedReg st.as prev cur)).2 as
              (st.as.node cur).region).2)) := by
  rw [memVmpuCoalesceContiguous] at h
  split at h
  · rename_i hfind
    exact .inl ⟨hfind, (Option.some.inj h).symm⟩
  · rename_i prev cur hfind
    have hmerged := mergeSpace_merged hwf hfind
    obtain ⟨⟨merged, st1⟩, hupdate, h⟩ := Option.bind_eq_some_iff.mp h
    dsimp only at h
    rw [memVmpuUpdateRegion] at hupdate
    dsimp only at hupdate
    right
    split at hupdate
    · rename_i hyes
      obtain ⟨st2, hsend, hst⟩ := Option.bind_eq_some_iff.mp hupdate
      obtain ⟨rfl, rfl⟩ := Prod.mk.inj (Option.some.inj hst)
      obtain ⟨has, hmpu⟩ := broadcastRegion_as hsend
      dsimp only at has hmpu
      rw [if_pos rfl] at h
      obtain ⟨⟨removed, st3⟩, hremove, h⟩ := Option.bind_eq_some_iff.mp h
      have hnode : st2.as.node cur = st.as.node cur := by
        rw [has, setNode_node_other _ _ hmerged.ne.symm]
      have hcur : st2.as.Valid cur := by
        rw [Valid, hnode]
        exact hmerged.validCur
      obtain ⟨has3, hmpu3⟩ := memVmpuRemoveRegion_state hcur hremove
      refine ⟨prev, cur, st3, hfind, h, .inr ⟨hyes, ?_, st2.as, ?_⟩⟩
      · rw [has3, has]
        rfl
      · rw [hmpu3, hmpu, hnode]
        rfl
    · rename_i hno
      obtain ⟨rfl, rfl⟩ := Prod.mk.inj (Option.some.inj hupdate)
      rw [if_neg Bool.false_ne_true] at h
      exact ⟨prev, cur, _, hfind, h, .inl ⟨eq_false_of_ne_true hno, rfl, rfl⟩⟩

/-- **A run of the loop** makes all the merges of its table, whatever is refused on
the way. -/
theorem coalesce_mergedSpace {fuel : Nat} (hwf : st.as.Wf C.machine)
    (h : C.memVmpuCoalesceContiguous broadcast fuel st = some st') :
    st'.as = C.mergedSpace st.as := by
  induction fuel generalizing st with
  | zero => cases h
  | succ fuel ih =>
      rcases coalesce_pass hwf h with
        ⟨hfind, rfl⟩ | ⟨prev, cur, st1, hfind, h, ⟨-, has, -⟩ | ⟨-, has, -⟩⟩
      · exact (mergedSpace_of_none hfind).symm
      · rw [← has]
        exact ih (by rw [has]; exact hwf) h
      · rw [mergedSpace_of_find hwf hfind, ← has]
        exact ih (by rw [has]; exact (mergeSpace_merged hwf hfind).wf) h

/-- **A pass whose merge is refused** leaves the table as it was. -/
theorem coalesce_refused {fuel : Nat}
    (hfind : C.findMerge st.as st.as.orderedList = some (prev, cur))
    (hno : (C.arch.mpuUpdate st.mpu st.as (C.mergedReg st.as prev cur)).1 = false) :
    C.memVmpuCoalesceContiguous broadcast (fuel + 1) st =
      C.memVmpuCoalesceContiguous broadcast fuel
        { st with mpu := (C.arch.mpuUpdate st.mpu st.as (C.mergedReg st.as prev cur)).2 } := by
  have hupdate : C.memVmpuUpdateRegion st prev (C.mergedReg st.as prev cur) broadcast
      (st.as.node prev).lock = some (false,
        { st with mpu := (C.arch.mpuUpdate st.mpu st.as (C.mergedReg st.as prev cur)).2 }) := by
    unfold memVmpuUpdateRegion
    dsimp only
    rw [hno, if_neg Bool.false_ne_true]
  rw [memVmpuCoalesceContiguous, hfind]
  show (C.memVmpuUpdateRegion st prev (C.mergedReg st.as prev cur) broadcast
    (st.as.node prev).lock).bind _ = _
  rw [hupdate]
  rfl

/-- **A pass whose merge is accepted** goes on with the merged table. -/
theorem coalesce_accepted {fuel n : Nat} (hwf : st.as.Wf C.machine)
    (hfind : C.findMerge st.as st.as.orderedList = some (prev, cur))
    (hyes : (C.arch.mpuUpdate st.mpu st.as (C.mergedReg st.as prev cur)).1 = true)
    (hroom : C.Room st broadcast (n + 2)) :
    ∃ st2, C.memVmpuCoalesceContiguous broadcast (fuel + 1) st =
        C.memVmpuCoalesceContiguous broadcast fuel st2 ∧
      st2.as = C.mergeSpace st.as prev cur ∧ C.Room st2 broadcast n ∧
      ∃ as mpr, st2.mpu = (C.arch.mpuUnmap
        (C.arch.mpuUpdate st.mpu st.as (C.mergedReg st.as prev cur)).2 as mpr).2 := by
  have hmerged := mergeSpace_merged hwf hfind
  -- the entry is extended and the other CPUs are told
  have hroom' : C.Room { st with
      mpu := (C.arch.mpuUpdate st.mpu st.as (C.mergedReg st.as prev cur)).2
      as := st.as.setNode prev { st.as.node prev with region := C.mergedReg st.as prev cur } }
      broadcast (n + 2) := hroom
  obtain ⟨st1, hsend, has1, hroom1⟩ := @broadcastRegion_returns _ C _
    (C.mergedReg st.as prev cur) broadcast (st.as.node prev).lock (n + 1) .update hroom'
  have hmpu1 := (broadcastRegion_as hsend).2
  have hupdate : C.memVmpuUpdateRegion st prev (C.mergedReg st.as prev cur) broadcast
      (st.as.node prev).lock = some (true, st1) := by
    unfold memVmpuUpdateRegion
    dsimp only
    rw [if_pos hyes, hsend]
    rfl
  -- the second entry is freed
  have hcur : (st1.as.node cur).state = .valid := by
    rw [has1]
    show ((st.as.setNode prev _).node cur).state = .valid
    rw [setNode_node_other _ _ hmerged.ne.symm]
    exact hmerged.validCur
  obtain ⟨st2, hsend2, has2, hroom2⟩ := @broadcastRegion_returns _ C st1
    (st1.as.node cur).region broadcast (st1.as.node cur).lock n .remove hroom1
  have hmpu2 := (broadcastRegion_as hsend2).2
  have hremove : C.memVmpuRemoveRegion st1 cur broadcast = some (true, { st2 with
      mpu := (C.arch.mpuUnmap st2.mpu st2.as (st1.as.node cur).region).2
      as := st2.as.memVmpuFreeEntry C.arch.pteInvalid cur }) := by
    unfold memVmpuRemoveRegion
    dsimp only
    rw [if_pos hcur, hsend2]
    rfl
  refine ⟨{ st2 with
      mpu := (C.arch.mpuUnmap st2.mpu st2.as (st1.as.node cur).region).2
      as := st2.as.memVmpuFreeEntry C.arch.pteInvalid cur }, ?_, ?_, hroom2, ?_⟩
  · rw [memVmpuCoalesceContiguous, hfind]
    show (C.memVmpuUpdateRegion st prev (C.mergedReg st.as prev cur) broadcast
      (st.as.node prev).lock).bind _ = _
    rw [hupdate]
    show (C.memVmpuRemoveRegion st1 cur broadcast).bind _ = _
    rw [hremove]
    rfl
  · show st2.as.memVmpuFreeEntry C.arch.pteInvalid cur = _
    rw [has2, has1]
    rfl
  · refine ⟨st2.as, (st1.as.node cur).region, ?_⟩
    show (C.arch.mpuUnmap st2.mpu st2.as (st1.as.node cur).region).2 = _
    rw [hmpu2, hmpu1]

/-- **The passes of the loop.**  It ends within `fuel` of them exactly if fewer
answers than that have an acceptance for each merge. -/
theorem coalesce_ends_iff_accepted {p : Nat → Bool} (H : Answers C.arch p) {fuel : Nat}
    (hwf : st.as.Wf C.machine) (hroom : C.Room st broadcast (2 * st.as.orderedList.length)) :
    (∃ st', C.memVmpuCoalesceContiguous broadcast fuel st = some st') ↔
      ∃ m, m < fuel ∧ C.mergesLeft st.as ≤ accepted p (H.turn st.mpu) m := by
  induction fuel generalizing st with
  | zero =>
      apply iff_of_false
      · intro h
        obtain ⟨st', h⟩ := h
        cases h
      · intro h
        obtain ⟨m, hm, -⟩ := h
        exact Nat.not_lt_zero m hm
  | succ fuel ih =>
      cases hfind : C.findMerge st.as st.as.orderedList with
      | none =>
          apply iff_of_true
          · refine ⟨st, ?_⟩
            rw [memVmpuCoalesceContiguous, hfind]
          · refine ⟨0, Nat.succ_pos fuel, ?_⟩
            rw [mergesLeft_of_none hfind]
            exact Nat.zero_le _
      | some pair =>
          obtain ⟨prev, cur⟩ := pair
          have hanswer := H.update st.mpu st.as (C.mergedReg st.as prev cur)
          have hnext := H.next st.mpu st.as (C.mergedReg st.as prev cur)
          have hcount := mergesLeft_of_find hwf hfind
          -- the pass takes the first answer, so the others count from the next one
          have hshift : ∀ {need : Nat} (first : Nat),
              first = (if p (H.turn st.mpu) then 1 else 0) → need + first = C.mergesLeft st.as →
              ((∃ m, m < fuel + 1 ∧ C.mergesLeft st.as ≤ accepted p (H.turn st.mpu) m) ↔
                ∃ m, m < fuel ∧ need ≤ accepted p (H.turn st.mpu + 1) m) := by
            intro need first hfirst hneed
            constructor
            · intro h
              obtain ⟨m, hm, hle⟩ := h
              cases m with
              | zero =>
                  have hzero : accepted p (H.turn st.mpu) 0 = 0 := rfl
                  omega
              | succ m =>
                  rw [accepted_succ, ← hfirst] at hle
                  exact ⟨m, by omega, by omega⟩
            · intro h
              obtain ⟨m, hm, hle⟩ := h
              refine ⟨m + 1, by omega, ?_⟩
              rw [accepted_succ, ← hfirst]
              omega
          cases hp : p (H.turn st.mpu) with
          | false =>
              rw [coalesce_refused hfind (hanswer.trans hp), hshift 0 (by rw [hp]; rfl) rfl,
                ← hnext]
              exact ih hwf hroom
          | true =>
              have hlen := mergeSpace_length hwf hfind
              obtain ⟨st2, hpass, has, hroom2, as, mpr, hmpu⟩ :=
                @coalesce_accepted _ C st broadcast prev cur fuel
                  (2 * (C.mergeSpace st.as prev cur).orderedList.length) hwf hfind
                  (hanswer.trans hp) (hroom.mono (by omega))
              have hmerged := mergeSpace_merged hwf hfind
              have hturn : H.turn st2.mpu = H.turn st.mpu + 1 := by
                rw [hmpu, H.unmap, hnext]
              rw [hpass, hshift 1 (by rw [hp]; rfl) hcount.symm, ← hturn, ← has]
              apply ih
              · rw [has]
                exact hmerged.wf
              · rw [has]
                exact hroom2

/-- **Coalescing ends in time** if and only if fewer answers of the MPU than the
vMPU has entries contain an acceptance for each merge that the table calls for.
Where it ends, nothing can merge any more. -/
theorem coalesce_ends_iff {p : Nat → Bool} (H : Answers C.arch p) (hwf : st.as.Wf C.machine)
    (hroom : C.Room st broadcast (2 * st.as.orderedList.length)) :
    (∃ st', C.memVmpuCoalesceContiguous broadcast st.as.orderedList.length st = some st' ∧
        C.NoneMergeable st'.as) ↔
      ∃ m, m < st.as.orderedList.length ∧
        C.mergesLeft st.as ≤ accepted p (H.turn st.mpu) m := by
  rw [← coalesce_ends_iff_accepted H hwf hroom]
  constructor
  · intro h
    obtain ⟨st', h, -⟩ := h
    exact ⟨st', h⟩
  · intro h
    obtain ⟨st', h⟩ := h
    exact ⟨st', h, memVmpuCoalesceContiguous_done hwf h⟩

/-- **An MPU that stays with its refusal** keeps the loop going for ever. -/
theorem coalesce_never_ends {p : Nat → Bool} (H : Answers C.arch p) (hwf : st.as.Wf C.machine)
    (hroom : C.Room st broadcast (2 * st.as.orderedList.length))
    (hfind : C.findMerge st.as st.as.orderedList = some (prev, cur))
    (hno : ∀ k, p (H.turn st.mpu + k) = false) (fuel : Nat) :
    C.memVmpuCoalesceContiguous broadcast fuel st = none := by
  apply Option.eq_none_iff_forall_ne_some.mpr
  intro st' h
  obtain ⟨m, -, hle⟩ := (coalesce_ends_iff_accepted H hwf hroom).mp ⟨st', h⟩
  have hnone : accepted p (H.turn st.mpu) m = 0 := by
    apply List.countP_eq_zero.mpr
    intro k _
    rw [hno k]
    exact Bool.false_ne_true
  have hsome := mergesLeft_of_find hwf hfind
  omega

end VmpuCpu

/-! ## Two pages under an MPU with a pattern -/

/-- A CPU whose MPU answers the updates by the pattern `p` and keeps count of
them. -/
def patternCpu (p : Nat → Bool) : VmpuCpu Nat where
  machine := tricoreCpu.machine
  arch :=
    { pteInvalid := 0
      mpuGranularity := 64
      mpuPermsCompatible := fun perms1 perms2 => perms1 == perms2
      mpuMap := fun turn _ mpr _ => (true, mpr.memFlags, turn)
      mpuUpdate := fun turn _ _ => (p turn, turn + 1)
      mpuUnmap := fun turn _ _ => (true, turn) }
  cpuNum := 1
  sharedRegionPoolSize := 128
  id := 0
  vcpuVmCpus := none

/-- Its count is the number of the next answer. -/
def patternAnswers (p : Nat → Bool) : Answers (patternCpu p).arch p where
  turn := id
  update := fun _ _ _ => rfl
  next := fun _ _ _ => rfl
  unmap := fun _ _ _ => rfl

/-- Two adjacent pages with the same flags. -/
def alikePages : VmpuState Nat := ⟨twoPages 3 3, 0, 0, []⟩

/-- The two pages under an MPU that accepts everything. -/
theorem coalesce_ends_iff_alikePages :
    (∃ st', (patternCpu fun _ => true).memVmpuCoalesceContiguous false
        alikePages.as.orderedList.length alikePages = some st' ∧
          (patternCpu fun _ => true).NoneMergeable st'.as) ↔
      ∃ m, m < alikePages.as.orderedList.length ∧
        (patternCpu fun _ => true).mergesLeft alikePages.as ≤ accepted (fun _ => true) 0 m :=
  VmpuCpu.coalesce_ends_iff (patternAnswers fun _ => true) twoPages_wf (.inl rfl)

/-- **The two pages under an MPU that refuses**: the loop asks for the same merge
again and again, and does not end after any number of passes. -/
theorem alikePages_never_coalesce :
    alikePages.as.Wf (patternCpu fun _ => false).machine ∧
      ∀ fuel, (patternCpu fun _ => false).memVmpuCoalesceContiguous false fuel alikePages =
        none := by
  refine ⟨twoPages_wf, ?_⟩
  have hfind : (patternCpu fun _ => false).findMerge alikePages.as alikePages.as.orderedList =
      some (0, 1) := by
    decide
  exact VmpuCpu.coalesce_never_ends (patternAnswers fun _ => false) twoPages_wf (.inl rfl) hfind
    fun _ => rfl

end Bao

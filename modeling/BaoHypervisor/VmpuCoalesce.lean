import BaoHypervisor.TricoreMpu
import BaoHypervisor.VmpuRegions

/-!
# What coalescing does to permissions

Coalescing merges neighbours until none can merge.  Each entry then is a row of
the entries from before, with the flags of the last one.  A merge is decided by the
architecture: ARMv8-R and RH850 ask for equal flags, the TriCore for flags that
agree on `exec` or both name data.  Permissions stay exactly when neighbours that can
merge are alike.
-/

namespace Bao

open AddrSpace VmpuCpu

/-- The targets with an MPU. -/
inductive MpuTarget
  | armv8r
  | rh850
  | tricore
deriving DecidableEq

/-- `mpu_perms_compatible` of each target. -/
def MpuTarget.permsCompatible : MpuTarget → Nat → Nat → Bool
  | .armv8r => fun perms1 perms2 => perms1 == perms2
  | .rh850 => fun perms1 perms2 => perms1 == perms2
  | .tricore => tricorePermsCompatible

/-- The part of `mem_flags_t` that says what an address may be used for: on the
TriCore the three bits `write`, `read` and `exec`, elsewhere the whole word. -/
def MpuTarget.perms : MpuTarget → Nat → Nat
  | .armv8r => fun raw => raw
  | .rh850 => fun raw => raw
  | .tricore => fun raw => raw % 8

namespace AddrSpace

variable {T : MpuTarget} {as as' : AddrSpace} {i j k prev cur : Mpid} {a p : Nat}

/-- The permissions of entry `i`. -/
def perms (T : MpuTarget) (as : AddrSpace) (i : Mpid) : Nat := T.perms (as.node i).region.memFlags

/-- An address has permissions: those of a valid entry that covers it. -/
def HasPerms (T : MpuTarget) (as : AddrSpace) (a p : Nat) : Prop :=
  ∃ i, as.Valid i ∧ as.Covers i a ∧ as.perms T i = p

/-- Entry `i` of `as` lies in entry `k` of `as'`. -/
def Inside (as as' : AddrSpace) (i k : Mpid) : Prop :=
  as'.base k ≤ as.base i ∧ as.limit i ≤ as'.limit k

/-- Entries with equal permissions and sections. -/
def SamePerms (T : MpuTarget) (as : AddrSpace) (i j : Mpid) : Prop :=
  as.perms T i = as.perms T j ∧ (as.node i).region.asSec = (as.node j).region.asSec

/-- **Coalescing was sound**: every address has the permissions it had, and only
entries with equal permissions and sections came to lie in one entry. -/
structure PermsKept (T : MpuTarget) (as as' : AddrSpace) : Prop where
  perms : ∀ a p, as'.HasPerms T a p ↔ as.HasPerms T a p
  merged : ∀ {i j k}, as.Valid i → as.Valid j → as'.Valid k → as.Inside as' i k →
    as.Inside as' j k → as.SamePerms T i j

/-- **Neighbours that can merge are alike.** -/
def Uniform (T : MpuTarget) (as : AddrSpace) : Prop :=
  ∀ i j, as.Valid i → as.Valid j → as.limit i = as.base j →
    (as.node i).lock = false → (as.node j).lock = false →
    T.permsCompatible (as.node i).region.memFlags (as.node j).region.memFlags = true →
    as.SamePerms T i j

theorem permsCompatible_congr {f f' g g' : Nat} (hf : T.perms f = T.perms f')
    (hg : T.perms g = T.perms g') : T.permsCompatible f g = T.permsCompatible f' g' := by
  have hbit : ∀ {x y : Nat}, x % 8 = y % 8 → ∀ n < 3, x.testBit n = y.testBit n := by
    intro x y hxy n hn
    have hx := Nat.testBit_mod_two_pow x 3 n
    have hy := Nat.testBit_mod_two_pow y 3 n
    rw [decide_eq_true hn, Bool.true_and] at hx hy
    rw [← hx, ← hy]
    exact congrArg (fun z => Nat.testBit z n) hxy
  cases T with
  | armv8r => rw [show f = f' from hf, show g = g' from hg]
  | rh850 => rw [show f = f' from hf, show g = g' from hg]
  | tricore =>
    change tricorePermsCompatible f g = tricorePermsCompatible f' g'
    unfold tricorePermsCompatible
    rw [hbit hf 0 (by decide), hbit hf 1 (by decide), hbit hf 2 (by decide),
      hbit hg 0 (by decide), hbit hg 1 (by decide), hbit hg 2 (by decide)]

theorem Wf.next_of_meets {M : Machine} (h : as.Wf M) (hi : as.Valid i) (hj : as.Valid j)
    (hmeets : as.limit i = as.base j) : ∃ pre post, as.orderedList = pre ++ i :: j :: post := by
  have hnonempty := h.nonempty i hi
  obtain ⟨pre, rest, hlist⟩ := List.mem_iff_append.mp ((h.listed i).mpr hi)
  have hincreasing := h.increasing
  have hapart := h.apart
  rw [hlist] at hincreasing hapart
  obtain ⟨-, hrest, hcross⟩ := List.pairwise_append.mp hincreasing
  have hafter := (List.pairwise_cons.mp (List.pairwise_append.mp hapart).2.1).1
  have hmem : j ∈ rest := by
    have hin := (h.listed j).mpr hj
    rw [hlist] at hin
    rcases List.mem_append.mp hin with hpre | hin
    · have hlt := hcross j hpre i List.mem_cons_self
      omega
    · rcases List.mem_cons.mp hin with heq | hin
      · rw [heq] at hmeets
        omega
      · exact hin
  cases rest with
  | nil => cases hmem
  | cons c post =>
    rcases List.mem_cons.mp hmem with heq | hlater
    · exact ⟨pre, post, by rw [hlist, heq]⟩
    · have hle : as.limit i ≤ as.base c := hafter c List.mem_cons_self
      have hlt := (List.pairwise_cons.mp (List.pairwise_cons.mp hrest).2).1 j hlater
      omega

/-- **What coalescing makes of the entries**: each lies in one of the new entries
with the same lock, and a new entry has no other address than theirs and the flags of
the last of them. -/
structure Coalesced (as as' : AddrSpace) : Prop where
  inside : ∀ {i}, as.Valid i → ∃ k, as'.Valid k ∧ as.Inside as' i k ∧
    (as'.node k).lock = (as.node i).lock
  covered : ∀ {k a}, as'.Valid k → as'.Covers k a →
    ∃ i, as.Valid i ∧ as.Covers i a ∧ as.Inside as' i k
  last : ∀ {k}, as'.Valid k → ∃ i, as.Valid i ∧ as.limit i = as'.limit k ∧
    (as.node i).region.memFlags = (as'.node k).region.memFlags ∧ as.Inside as' i k

namespace Coalesced

variable {M : Machine} {as'' : AddrSpace}

theorem refl (as : AddrSpace) : as.Coalesced as where
  inside := fun hi => ⟨_, hi, ⟨Nat.le_refl _, Nat.le_refl _⟩, rfl⟩
  covered := fun hk ha => ⟨_, hk, ha, ⟨Nat.le_refl _, Nat.le_refl _⟩⟩
  last := fun hk => ⟨_, hk, rfl, rfl, ⟨Nat.le_refl _, Nat.le_refl _⟩⟩

theorem unique (hwf : as.Wf M) (hwf' : as'.Wf M) (hi : as.Valid i) (hj : as'.Valid j)
    (hk : as'.Valid k) (hij : as.Inside as' i j) (hik : as.Inside as' i k) : j = k := by
  have hpos := hwf.nonempty i hi
  refine hwf'.covers_unique (a := as.base i) hj hk ⟨hij.1, ?_⟩ ⟨hik.1, ?_⟩
  · exact Nat.lt_of_lt_of_le hpos hij.2
  · exact Nat.lt_of_lt_of_le hpos hik.2

theorem lock (h : as.Coalesced as') (hwf : as.Wf M) (hwf' : as'.Wf M) (hi : as.Valid i)
    (hk : as'.Valid k) (hik : as.Inside as' i k) : (as'.node k).lock = (as.node i).lock := by
  obtain ⟨j, hj, hij, hlock⟩ := h.inside hi
  rw [← unique hwf hwf' hi hj hk hij hik]
  exact hlock

theorem first (h : as.Coalesced as') (hwf' : as'.Wf M) (hk : as'.Valid k) :
    ∃ i, as.Valid i ∧ as.base i = as'.base k ∧ as.Inside as' i k := by
  obtain ⟨i, hi, hcovers, hik⟩ := h.covered hk ⟨Nat.le_refl _, hwf'.nonempty k hk⟩
  exact ⟨i, hi, Nat.le_antisymm hcovers.1 hik.1, hik⟩

section Merge

variable {σ : Type} {C : VmpuCpu σ}

theorem inside_merge (hmerged : Merged C as' as'' prev cur) (hwf' : as'.Wf C.machine)
    (hik : as.Inside as' i k) :
    as.Inside as'' i (if k = cur then prev else k) := by
  have hprev := hwf'.nonempty prev hmerged.validPrev
  have hcur := hwf'.nonempty cur hmerged.validCur
  have hmeets := hmerged.meets
  have hbase := hmerged.basePrev
  have hlimit := hmerged.limitPrev
  unfold Inside at hik ⊢
  by_cases hkc : k = cur
  · rw [if_pos hkc]
    subst hkc
    omega
  · rw [if_neg hkc]
    by_cases hkp : k = prev
    · subst hkp
      omega
    · have hnode := hmerged.other k hkp hkc
      unfold limit base at hik ⊢
      rw [hnode]
      exact hik

theorem inside_of_merge (h : as.Coalesced as') (hmerged : Merged C as' as'' prev cur)
    (hwf : as.Wf C.machine) (hwf' : as'.Wf C.machine) (hi : as.Valid i)
    (hik : as.Inside as'' i prev) : as.Inside as' i prev ∨ as.Inside as' i cur := by
  have hbase := hmerged.basePrev
  have hlimit := hmerged.limitPrev
  have hmeets := hmerged.meets
  have hpos := hwf.nonempty i hi
  obtain ⟨k, hk, hin, -⟩ := h.inside hi
  have hcovers : as'.Covers k (as.base i) := ⟨hin.1, Nat.lt_of_lt_of_le hpos hin.2⟩
  unfold Inside at hik
  by_cases hlow : as.base i < as'.limit prev
  · have heq : k = prev := hwf'.covers_unique hk hmerged.validPrev hcovers ⟨by omega, hlow⟩
    rw [heq] at hin
    exact Or.inl hin
  · have heq : k = cur := hwf'.covers_unique hk hmerged.validCur hcovers ⟨by omega, by omega⟩
    rw [heq] at hin
    exact Or.inr hin

/-- **One merge more.** -/
theorem merge (h : as.Coalesced as') (hmerged : Merged C as' as'' prev cur)
    (hwf' : as'.Wf C.machine) : as.Coalesced as'' := by
  have hmeets := hmerged.meets
  have hbase := hmerged.basePrev
  have hlimit := hmerged.limitPrev
  have hvalidPrev : as''.Valid prev := (hmerged.valid prev).mpr ⟨hmerged.validPrev, hmerged.ne⟩
  obtain ⟨hlockPrev, hlockCur⟩ : (as'.node prev).lock = false ∧ (as'.node cur).lock = false := by
    have hmerge := hmerged.canMerge
    unfold VmpuCpu.canMerge at hmerge
    simpa using (Bool.and_eq_true_iff.mp hmerge).2
  constructor
  case inside =>
    intro i hi
    obtain ⟨k, hk, hin, hlock⟩ := h.inside hi
    refine ⟨if k = cur then prev else k, ?_, inside_merge hmerged hwf' hin, ?_⟩
    · by_cases hkc : k = cur
      · rw [if_pos hkc]
        exact hvalidPrev
      · rw [if_neg hkc]
        exact (hmerged.valid k).mpr ⟨hk, hkc⟩
    · by_cases hkc : k = cur
      · rw [if_pos hkc, hmerged.lock, hlockPrev, ← hlock, hkc, hlockCur]
      · rw [if_neg hkc]
        by_cases hkp : k = prev
        · rw [hkp, hmerged.lock, ← hlock, hkp]
        · rw [hmerged.other k hkp hkc]
          exact hlock
  case covered =>
    intro k a hk ha
    obtain ⟨hk', hkc⟩ := (hmerged.valid k).mp hk
    by_cases hkp : k = prev
    · subst hkp
      obtain ⟨hlow, hhigh⟩ := ha
      by_cases ha : a < as'.limit k
      · obtain ⟨i, hi, hcovers, hin⟩ := h.covered hk' ⟨by omega, ha⟩
        have hin' := inside_merge hmerged hwf' hin
        rw [if_neg hkc] at hin'
        exact ⟨i, hi, hcovers, hin'⟩
      · have hcur : as'.Covers cur a := ⟨by omega, by omega⟩
        obtain ⟨i, hi, hcovers, hin⟩ := h.covered hmerged.validCur hcur
        have hin' := inside_merge hmerged hwf' hin
        rw [if_pos rfl] at hin'
        exact ⟨i, hi, hcovers, hin'⟩
    · have hcovers : as'.Covers k a := by
        unfold Covers limit base at ha ⊢
        rw [← hmerged.other k hkp hkc]
        exact ha
      obtain ⟨i, hi, hcovers, hin⟩ := h.covered hk' hcovers
      have hin' := inside_merge hmerged hwf' hin
      rw [if_neg hkc] at hin'
      exact ⟨i, hi, hcovers, hin'⟩
  case last =>
    intro k hk
    obtain ⟨hk', hkc⟩ := (hmerged.valid k).mp hk
    by_cases hkp : k = prev
    · subst hkp
      obtain ⟨i, hi, hend, hflags, hin⟩ := h.last hmerged.validCur
      have hin' := inside_merge hmerged hwf' hin
      rw [if_pos rfl] at hin'
      exact ⟨i, hi, hend.trans hlimit.symm, hflags.trans hmerged.flags.symm, hin'⟩
    · obtain ⟨i, hi, hend, hflags, hin⟩ := h.last hk'
      have hin' := inside_merge hmerged hwf' hin
      rw [if_neg hkc] at hin'
      have hnode := hmerged.other k hkp hkc
      refine ⟨i, hi, ?_, ?_, hin'⟩
      · rw [hend, limit, base, limit, base, hnode]
      · rw [hflags, hnode]

end Merge

end Coalesced

/-! ## Neighbours that are alike -/

section Alike

variable {σ : Type} {C : VmpuCpu σ} {T : MpuTarget} {as' as'' : AddrSpace} {prev cur k : Mpid}

theorem SamePerms.symm (h : as.SamePerms T i j) : as.SamePerms T j i := ⟨h.1.symm, h.2.symm⟩

theorem SamePerms.trans (h : as.SamePerms T i j) (h' : as.SamePerms T j k) : as.SamePerms T i k :=
  ⟨h.1.trans h'.1, h.2.trans h'.2⟩

/-- The entries that lie in one entry are alike. -/
def Alike (T : MpuTarget) (as as' : AddrSpace) : Prop :=
  ∀ {i j k}, as.Valid i → as.Valid j → as'.Valid k → as.Inside as' i k → as.Inside as' j k →
    as.SamePerms T i j

theorem Alike.perms (h : as.Alike T as') (hc : as.Coalesced as') (hi : as.Valid i)
    (hk : as'.Valid k) (hik : as.Inside as' i k) : as.perms T i = as'.perms T k := by
  obtain ⟨l, hl, -, hflags, hin⟩ := hc.last hk
  rw [(h hi hl hk hik hin).1]
  unfold AddrSpace.perms
  rw [hflags]

/-- **A merge joins what is alike**, if neighbours that can merge are alike: the
last entry of the first part and the first one of the second part are such
neighbours. -/
theorem Alike.merge (h : as.Alike T as') (hc : as.Coalesced as') (huniform : as.Uniform T)
    (hcompat : C.arch.mpuPermsCompatible = T.permsCompatible) (hmerged : Merged C as' as'' prev cur)
    (hwf : as.Wf C.machine) (hwf' : as'.Wf C.machine) : as.Alike T as'' := by
  have hmerge := hmerged.canMerge
  unfold VmpuCpu.canMerge at hmerge
  obtain ⟨hboth, hlocks⟩ := Bool.and_eq_true_iff.mp hmerge
  have hperms := (Bool.and_eq_true_iff.mp hboth).2
  obtain ⟨hlockPrev, hlockCur⟩ : (as'.node prev).lock = false ∧ (as'.node cur).lock = false := by
    simpa using hlocks
  obtain ⟨l, hl, hend, hflags, hinl⟩ := hc.last hmerged.validPrev
  obtain ⟨f, hf, hstart, hinf⟩ := hc.first hwf' hmerged.validCur
  have hseam : as.SamePerms T l f := by
    refine huniform l f hl hf ?_ ?_ ?_ ?_
    · rw [hend, hstart]
      exact hmerged.meets
    · rw [← hc.lock hwf hwf' hl hmerged.validPrev hinl]
      exact hlockPrev
    · rw [← hc.lock hwf hwf' hf hmerged.validCur hinf]
      exact hlockCur
    · rw [← hperms, hcompat, hflags]
      exact permsCompatible_congr rfl (h.perms hc hf hmerged.validCur hinf)
  -- each side is alike with its end at the seam
  have hside : ∀ {i}, as.Valid i → as.Inside as'' i prev → as.SamePerms T i l := by
    intro i hi hin
    rcases hc.inside_of_merge hmerged hwf hwf' hi hin with hleft | hright
    · exact h hi hl hmerged.validPrev hleft hinl
    · exact (h hi hf hmerged.validCur hright hinf).trans hseam.symm
  intro i j k hi hj hk hik hjk
  obtain ⟨hk', hkc⟩ := (hmerged.valid k).mp hk
  by_cases hkp : k = prev
  · rw [hkp] at hik hjk
    exact (hside hi hik).trans (hside hj hjk).symm
  · have hnode := hmerged.other k hkp hkc
    refine h hi hj hk' ?_ ?_
    · unfold Inside limit base at hik ⊢
      rw [← hnode]
      exact hik
    · unfold Inside limit base at hjk ⊢
      rw [← hnode]
      exact hjk

theorem Alike.permsKept (h : as.Alike T as') (hc : as.Coalesced as') : PermsKept T as as' := by
  refine ⟨fun a p => ⟨?_, ?_⟩, h⟩
  · rintro ⟨k, hk, hcovers, hp⟩
    obtain ⟨i, hi, hcovers, hin⟩ := hc.covered hk hcovers
    exact ⟨i, hi, hcovers, (h.perms hc hi hk hin).trans hp⟩
  · rintro ⟨i, hi, hcovers, hp⟩
    obtain ⟨k, hk, hin, -⟩ := hc.inside hi
    refine ⟨k, hk, ⟨?_, ?_⟩, (h.perms hc hi hk hin).symm.trans hp⟩
    · exact Nat.le_trans hin.1 hcovers.1
    · exact Nat.lt_of_lt_of_le hcovers.2 hin.2

theorem Wf.eq_of_limit {M : Machine} (h : as.Wf M) (hi : as.Valid i) (hj : as.Valid j)
    (heq : as.limit i = as.limit j) : i = j := by
  have hposi := h.nonempty i hi
  have hposj := h.nonempty j hj
  exact h.covers_unique (a := as.limit i - 1) hi hj ⟨by omega, by omega⟩ ⟨by omega, by omega⟩

/-- **Neighbours that can merge end up in one entry**, or an address changes its
permissions: so they are alike if coalescing was sound. -/
theorem PermsKept.uniform (h : PermsKept T as as') (hc : as.Coalesced as')
    (hcompat : C.arch.mpuPermsCompatible = T.permsCompatible) (hwf : as.Wf C.machine)
    (hwf' : as'.Wf C.machine) (hdone : C.findMerge as' as'.orderedList = none) :
    as.Uniform T := by
  intro i j hi hj hmeets hlocki hlockj hperms
  obtain ⟨k, hk, hik, hlockk⟩ := hc.inside hi
  obtain ⟨k', hk', hjk, hlockk'⟩ := hc.inside hj
  by_cases hsame : k = k'
  · rw [← hsame] at hjk
    exact h.merged hi hj hk hik hjk
  have hposi := hwf.nonempty i hi
  have hposj := hwf.nonempty j hj
  have hends : as'.limit k = as.limit i ∧ as'.limit k = as'.base k' := by
    have hcases := hwf'.disjoint hk hk' hsame
    have hik := hik
    have hjk := hjk
    unfold Inside at hik hjk
    omega
  -- the first entry still has the flags of `i`, the second one the permissions of `j`
  have hflags : (as.node i).region.memFlags = (as'.node k).region.memFlags := by
    obtain ⟨l, hl, hend, hflags, -⟩ := hc.last hk
    rw [hwf.eq_of_limit hi hl (hends.1.symm.trans hend.symm)]
    exact hflags
  have hpermsj : as.perms T j = as'.perms T k' := by
    obtain ⟨x, hx, hcovers, hp⟩ := (h.perms (as.base j) (as.perms T j)).mpr
      ⟨j, hj, ⟨Nat.le_refl _, hposj⟩, rfl⟩
    have heq : x = k' := hwf'.covers_unique hx hk' hcovers
      ⟨hjk.1, Nat.lt_of_lt_of_le hposj hjk.2⟩
    rw [← heq]
    exact hp.symm
  obtain ⟨pre, post, hlist⟩ := hwf'.next_of_meets hk hk' hends.2
  have hnot := findMerge_none hdone hlist
  have hmod : (as'.limit k) % C.machine.wordCount = as'.base k' := by
    rw [Nat.mod_eq_of_lt (hwf'.fits k hk)]
    exact hends.2
  have hcan : C.canMerge as' k k' = true := by
    unfold VmpuCpu.canMerge
    refine Bool.and_eq_true_iff.mpr ⟨Bool.and_eq_true_iff.mpr ⟨decide_eq_true hmod, ?_⟩, ?_⟩
    · rw [hcompat, ← hperms, hflags]
      exact permsCompatible_congr rfl hpermsj.symm
    · rw [hlockk, hlockk', hlocki, hlockj]
      rfl
  rw [hcan] at hnot
  cases hnot

end Alike

end AddrSpace

namespace VmpuCpu

variable {σ : Type} {C : VmpuCpu σ} {st st' : VmpuState σ} {broadcast : Bool} {T : MpuTarget}

/-- **A run of the loop** coalesces until nothing can merge, and joins what is
alike if neighbours that can merge are. -/
theorem memVmpuCoalesceContiguous_coalesced {as : AddrSpace} {fuel : Nat}
    (hcompat : C.arch.mpuPermsCompatible = T.permsCompatible) (hwf : as.Wf C.machine)
    (hst : st.as.Wf C.machine) (hc : as.Coalesced st.as)
    (h : C.memVmpuCoalesceContiguous broadcast fuel st = some st') :
    as.Coalesced st'.as ∧ st'.as.Wf C.machine ∧
      C.findMerge st'.as st'.as.orderedList = none ∧
      (as.Uniform T → as.Alike T st.as → as.Alike T st'.as) := by
  induction fuel generalizing st with
  | zero => cases h
  | succ fuel ih =>
    rcases memVmpuCoalesceContiguous_cases hst h with
      ⟨hdone, rfl⟩ | ⟨st1, h, has | ⟨prev, cur, hmerged⟩⟩
    · exact ⟨hc, hst, hdone, fun _ hold => hold⟩
    · rw [← has] at hst hc ⊢
      exact ih hst hc h
    · obtain ⟨hc', hwf', hdone, halike⟩ := ih hmerged.wf (hc.merge hmerged hst) h
      refine ⟨hc', hwf', hdone, fun huniform hold => halike huniform ?_⟩
      exact hold.merge hc huniform hcompat hmerged hwf hst

/-- **Coalescing keeps permissions exactly when neighbours that can merge are
alike**, on each target. -/
theorem coalesce_perms_kept_iff {fuel : Nat}
    (hcompat : C.arch.mpuPermsCompatible = T.permsCompatible) (hwf : st.as.Wf C.machine)
    (h : C.memVmpuCoalesceContiguous broadcast fuel st = some st') :
    PermsKept T st.as st'.as ↔ st.as.Uniform T := by
  obtain ⟨hc, hwf', hdone, halike⟩ :=
    memVmpuCoalesceContiguous_coalesced hcompat hwf hwf (Coalesced.refl st.as) h
  constructor
  · exact fun hkept => hkept.uniform hc hcompat hwf hwf' hdone
  · intro huniform
    refine Alike.permsKept (halike huniform ?_) hc
    intro i j k hi hj hk hik hjk
    have hik := Coalesced.unique hwf hwf hi hi hk ⟨Nat.le_refl _, Nat.le_refl _⟩ hik
    have hjk := Coalesced.unique hwf hwf hj hj hk ⟨Nat.le_refl _, Nat.le_refl _⟩ hjk
    rw [hik, hjk]
    exact ⟨rfl, rfl⟩

end VmpuCpu

/-! ## Two pages -/

/-- A CPU with a TriCore MPU. -/
def tricoreCpu : VmpuCpu TricoreMpu where
  machine := Machine.mpu32
  arch := tricoreArch
  cpuNum := 1
  sharedRegionPoolSize := 128
  id := 0
  vcpuVmCpus := none

/-- An address space with two pages that meet. -/
def twoPages (flags1 flags2 : Nat) : AddrSpace where
  id := 1
  type := .vm
  colors := 0
  orderedList := [0, 1]
  node := fun k =>
    if k = 0 then ⟨.valid, false, ⟨0x1000, 64, flags1, .vmAny⟩⟩
    else if k = 1 then ⟨.valid, false, ⟨0x1040, 64, flags2, .vmAny⟩⟩
    else clearMpe 0 .free
  lock := false

variable {flags1 flags2 : Nat}

theorem twoPages_valid (k : Mpid) : (twoPages flags1 flags2).Valid k ↔ k = 0 ∨ k = 1 := by
  unfold Valid twoPages
  dsimp only
  by_cases h0 : k = 0
  · simp [h0]
  · by_cases h1 : k = 1
    · rw [if_neg h0, if_pos h1]
      simp [h1]
    · simp [h0, h1, clearMpe]

theorem twoPages_wf : (twoPages flags1 flags2).Wf tricoreCpu.machine where
  listed := by
    intro k
    rw [twoPages_valid]
    simp [twoPages]
  apart := by
    have hmeets : (0x1040 : Nat) ≤ 0x1040 := Nat.le_refl _
    exact List.pairwise_pair.mpr hmeets
  nonempty := by
    intro k hk
    have hfirst : (0x1000 : Nat) < 0x1040 := by decide
    have hsecond : (0x1040 : Nat) < 0x1080 := by decide
    rcases (twoPages_valid k).mp hk with rfl | rfl
    · exact hfirst
    · exact hsecond
  fits := by
    intro k hk
    have hfirst : (0x1040 : Nat) < 2 ^ 32 := by decide
    have hsecond : (0x1080 : Nat) < 2 ^ 32 := by decide
    rcases (twoPages_valid k).mp hk with rfl | rfl
    · exact hfirst
    · exact hsecond

theorem twoPages_uniform_iff {T : MpuTarget} : (twoPages flags1 flags2).Uniform T ↔
    (T.permsCompatible flags1 flags2 = true → T.perms flags1 = T.perms flags2) := by
  constructor
  · intro h hcompat
    exact (h 0 1 ((twoPages_valid 0).mpr (Or.inl rfl)) ((twoPages_valid 1).mpr (Or.inr rfl)) rfl rfl
      rfl hcompat).1
  · intro h i j hi hj hmeets _ _ hcompat
    rcases (twoPages_valid i).mp hi with rfl | rfl
    · rcases (twoPages_valid j).mp hj with rfl | rfl
      · exact ⟨rfl, rfl⟩
      · exact ⟨h hcompat, rfl⟩
    · rcases (twoPages_valid j).mp hj with rfl | rfl
      · have hne : (0x1080 : Nat) ≠ 0x1000 := by decide
        exact absurd hmeets hne
      · exact ⟨rfl, rfl⟩

/-- The two pages, with entries of the MPU that grant nothing. -/
def twoPagesState (flags1 flags2 : Nat) : VmpuState TricoreMpu where
  as := twoPages flags1 flags2
  mpu :=
    let table : MpuTable := ⟨fun _ => false, fun _ => 0, fun _ => 0, fun _ => ⟨none, 0, 0⟩⟩
    ⟨table, table, fun _ => 0, fun _ => 0, fun _ => 0⟩
  shared := 0
  sent := []

theorem twoPages_coalesce (flags1 flags2 : Nat) : ∃ st',
    tricoreCpu.memVmpuCoalesceContiguous false 3 (twoPagesState flags1 flags2) = some st' :=
  memVmpuCoalesceContiguous_returns twoPages_wf (fun _ _ _ => rfl) (Nat.lt_succ_self 2)

/-- Two pages of data with the same flags are merged and keep their permissions. -/
theorem coalesce_perms_kept_data : ∃ st',
    tricoreCpu.memVmpuCoalesceContiguous false 3 (twoPagesState 3 3) = some st' ∧
      PermsKept .tricore (twoPagesState 3 3).as st'.as := by
  obtain ⟨st', h⟩ := twoPages_coalesce 3 3
  have huniform : (twoPagesState 3 3).as.Uniform .tricore :=
    twoPages_uniform_iff.mpr fun _ => rfl
  exact ⟨st', h, (coalesce_perms_kept_iff (T := .tricore) rfl twoPages_wf h).mpr huniform⟩

/-- **A page that may only be read becomes writable** when it is merged with the
next one, on the TriCore. -/
theorem coalesce_widens : ∃ st',
    tricoreCpu.memVmpuCoalesceContiguous false 3 (twoPagesState 2 3) = some st' ∧
      (twoPagesState 2 3).as.HasPerms .tricore 0x1000 2 ∧ st'.as.HasPerms .tricore 0x1000 3 ∧
      ¬ PermsKept .tricore (twoPagesState 2 3).as st'.as := by
  obtain ⟨st', h⟩ := twoPages_coalesce 2 3
  have hentry : (tricoreCpu.memVmpuCoalesceContiguous false 3 (twoPagesState 2 3)).map
      (fun st => st.as.node 0) = some ⟨.valid, false, ⟨0x1000, 128, 3, .vmAny⟩⟩ := by
    decide +kernel
  rw [h] at hentry
  have hnode : st'.as.node 0 = ⟨.valid, false, ⟨0x1000, 128, 3, .vmAny⟩⟩ := Option.some.inj hentry
  have hbefore : (twoPagesState 2 3).as.HasPerms .tricore 0x1000 2 :=
    ⟨0, (twoPages_valid 0).mpr (Or.inl rfl), ⟨Nat.le_refl _, twoPages_wf.nonempty 0
      ((twoPages_valid 0).mpr (Or.inl rfl))⟩, rfl⟩
  have hafter : st'.as.HasPerms .tricore 0x1000 3 := by
    refine ⟨0, ?_, ?_, ?_⟩
    · unfold Valid
      rw [hnode]
    · unfold Covers limit base
      rw [hnode]
      decide
    · unfold AddrSpace.perms
      rw [hnode]
      rfl
  refine ⟨st', h, hbefore, hafter, fun hkept => ?_⟩
  obtain ⟨i, hi, hcovers, hperms⟩ := (hkept.perms 0x1000 3).mp hafter
  obtain ⟨j, hj, hcovers', hperms'⟩ := hbefore
  rw [twoPages_wf.covers_unique hi hj hcovers hcovers', hperms'] at hperms
  cases hperms

end Bao

import BaoHypervisor.Armv8rMpu
import Mathlib.Data.List.Range

/-!
# Clean calls of the Armv8-R MPU

A call is clean if `mpu_map` answers true exactly where it took a free entry for
the region and recorded it for the address space, answers false and changes
nothing where no entry is free or the address space has no mask, and if no call
touches an entry of another address space.  `mpu_update` and `mpu_unmap` are always
clean.  `mpu_map` is not: it never looks whether its allocation failed before it
writes the arrays, it answers true all the same, it keeps the entry when it finds
no mask, and the registers only hold regions aligned to 64 bytes.
-/

namespace Bao

open Armv8rMpu

/-- A call of one of the three functions. -/
inductive Armv8rCall
  | map (as : AddrSpace) (mpr : MpRegion) (locked : Bool)
  | update (as : AddrSpace) (mpr : MpRegion)
  | unmap (as : AddrSpace) (mpr : MpRegion)

/-- Entry `j` and all that is recorded of it are the same. -/
structure SameMpuEntry (m m' : Armv8rMpu) (j : Nat) : Prop where
  allocated : m'.allocatedEntries j = m.allocatedEntries j
  locked : m'.lockedEntries j = m.lockedEntries j
  asid : m'.entryAsid j = m.entryAsid j
  mask : ∀ mask, m'.mpuEntryMask mask j = m.mpuEntryMask mask j
  entry : m'.entry j = m.entry j

/-- The registers of an entry hold a region: they cover its addresses and no
others, with its flags. -/
structure HoldsMpRegion (e : Armv8rEntry) (mpr : MpRegion) : Prop where
  base : prbarBase e.prbar = mpr.base
  limit : prlarLimit e.prlar + 1 = mpr.base + mpr.size
  prbar : regFlags e.prbar = flagsPrbar mpr.memFlags
  prlar : regFlags e.prlar = flagsPrlar mpr.memFlags

/-- The region that `mpu_map` puts in an entry. -/
def enabledRegion (as : AddrSpace) (mpr : MpRegion) : MpRegion :=
  { mpr with memFlags := enableFlags as.type mpr.memFlags }

/-- **Entry `i` was taken** for a region of an address space: it was free, it holds
the region, it is recorded and enabled for the address space, and the other
entries are as before. -/
structure TakenFor (C : Armv8rCpu) (m m' : Armv8rMpu) (as : AddrSpace) (mpr : MpRegion)
    (locked : Bool) (i : Nat) : Prop where
  range : i < mpuArchMaxNumEntries
  free : m.allocatedEntries i = false
  allocated : m'.allocatedEntries i = true
  asid : m'.entryAsid i = as.id
  enabled : ∃ mask, C.findMpuMaskByAsid as.id = some (some mask) ∧ i < C.machine.wordBits ∧
    m'.mpuEntryMask mask i = true
  locked : locked = true → m'.lockedEntries i = true
  holds : HoldsMpRegion (m'.entry i) (enabledRegion as mpr)
  others : ∀ j, j < mpuArchMaxNumEntries → j ≠ i → SameMpuEntry m m' j

/-- The entries of other address spaces are as before. -/
def KeepsOthers (m m' : Armv8rMpu) (asid : Nat) : Prop :=
  ∀ j, j < mpuArchMaxNumEntries → m.allocatedEntries j = true → m.entryAsid j ≠ asid →
    SameMpuEntry m m' j

/-- The address space has a mask. -/
def HasMask (C : Armv8rCpu) (asid : Nat) : Prop :=
  ∃ mask, C.findMpuMaskByAsid asid = some (some mask)

/-- A clean call of `mpu_map`. -/
def MapClean (C : Armv8rCpu) (m : Armv8rMpu) (as : AddrSpace) (mpr : MpRegion) (locked : Bool) :
    Prop :=
  ∃ ok flags m', m.mpuMap C as mpr locked = some (ok, flags, m') ∧
    (ok = true ↔ ∃ i, TakenFor C m m' as mpr locked i) ∧
    (m.firstFree = none ∨ ¬ HasMask C as.id → ok = false ∧ m' = m) ∧
    KeepsOthers m m' as.id

/-- The registers can hold the region: its ends are aligned, it does not wrap and
its flags are attribute bits. -/
structure RegsFit (C : Armv8rCpu) (mpr : MpRegion) : Prop where
  base : mpr.base % 64 = 0
  size : mpr.size % 64 = 0
  limit : mpr.base + mpr.size ≤ C.machine.wordCount
  prbar : flagsPrbar mpr.memFlags < 64
  prlar : flagsPrlar mpr.memFlags < 64

/-- `mpu_map` finds what it takes for granted: a free entry whose bit the mask has,
a mask, and a region that fits in the registers. -/
structure MapCanTake (C : Armv8rCpu) (m : Armv8rMpu) (as : AddrSpace) (mpr : MpRegion) : Prop where
  free : ∃ i, m.firstFree = some i ∧ i < C.machine.wordBits
  mask : HasMask C as.id
  regs : RegsFit C mpr

/-- A clean call. -/
def Armv8rCall.Clean (C : Armv8rCpu) (m : Armv8rMpu) : Armv8rCall → Prop
  | .map as mpr locked => MapClean C m as mpr locked
  | .update as mpr => KeepsOthers m (m.mpuUpdate C as mpr).2 as.id
  | .unmap as mpr => ∀ answer, m.mpuUnmap C as mpr = some answer → KeepsOthers m answer.2 as.id

/-- The condition on a call: `mpu_map` of an empty region, or of one that it can
take; the others need none. -/
def Armv8rCall.Fits (C : Armv8rCpu) (m : Armv8rMpu) : Armv8rCall → Prop
  | .map as mpr _ => mpr.size = 0 ∨ MapCanTake C m as mpr
  | .update _ _ => True
  | .unmap _ _ => True

/-- The MPU after a call that returns. -/
def Armv8rCall.after (C : Armv8rCpu) (m : Armv8rMpu) : Armv8rCall → Option Armv8rMpu
  | .map as mpr locked => (m.mpuMap C as mpr locked).map fun answer => answer.2.2
  | .update as mpr => some (m.mpuUpdate C as mpr).2
  | .unmap as mpr => (m.mpuUnmap C as mpr).map fun answer => answer.2

/-- Every call of a sequence meets a condition in the state it is made in. -/
def EachCall (C : Armv8rCpu) (P : Armv8rMpu → Armv8rCall → Prop) :
    List Armv8rCall → Armv8rMpu → Prop
  | [], _ => True
  | call :: calls, m => P m call ∧ ∀ m', call.after C m = some m' → EachCall C P calls m'

variable {C : Armv8rCpu} {m m' : Armv8rMpu} {as : AddrSpace} {mpr : MpRegion} {locked : Bool}

/-! ## What the registers hold -/

theorem or_flags {x f : Nat} (hf : f < 64) : x / 64 * 64 ||| f = x / 64 * 64 + f := by
  have h := @Nat.shiftLeft_add_eq_or_of_lt 6 f hf (x / 64)
  rw [Nat.shiftLeft_eq] at h
  exact h.symm

theorem wordCount_sixtyFour (M : Machine) : ∃ k, M.wordCount = 64 * k := by
  have hroom := M.pageBits_room
  have htwo := M.two_le_pageBits
  refine ⟨2 ^ (M.wordBits - 6), ?_⟩
  show 2 ^ M.wordBits = 2 ^ 6 * 2 ^ (M.wordBits - 6)
  rw [← Nat.pow_add]
  congr 1
  omega

/-- **What `mpu_entry_set` writes** holds the region exactly if it fits. -/
theorem holds_iff_regsFit (C : Armv8rCpu) (mpr : MpRegion) (hsize : mpr.size ≠ 0) :
    HoldsMpRegion ⟨prbarOf mpr, C.prlarOf mpr⟩ mpr ↔ RegsFit C mpr := by
  obtain ⟨k, hk⟩ := wordCount_sixtyFour C.machine
  have hlim : C.lim mpr < C.machine.wordCount := Nat.mod_lt _ (Nat.two_pow_pos _)
  have hpos : 0 < C.machine.wordCount := Nat.two_pow_pos _
  constructor
  · intro h
    obtain ⟨hbase, hlimit, hprbar, hprlar⟩ := h
    have hf : flagsPrbar mpr.memFlags < 64 := by
      rw [← hprbar]
      exact Nat.mod_lt _ (by decide)
    have hg : flagsPrlar mpr.memFlags < 64 := by
      rw [← hprlar]
      exact Nat.mod_lt _ (by decide)
    dsimp only at hbase hlimit
    rw [prbarBase, prbarOf, or_flags hf] at hbase
    rw [prlarLimit, Armv8rCpu.prlarOf, or_flags hg] at hlimit
    have hend : C.lim mpr / 64 * 64 + 64 ≤ C.machine.wordCount := by omega
    exact ⟨by omega, by omega, by omega, hf, hg⟩
  · intro h
    obtain ⟨hbase, hsize', hlimit, hf, hg⟩ := h
    have hlim' : C.lim mpr = mpr.base + mpr.size - 1 := by
      have hsum : mpr.base + mpr.size + C.machine.wordCount - 1 =
          mpr.base + mpr.size - 1 + C.machine.wordCount := by
        omega
      rw [Armv8rCpu.lim, hsum, Nat.add_mod_right]
      apply Nat.mod_eq_of_lt
      omega
    constructor
    · show prbarBase (prbarOf mpr) = mpr.base
      rw [prbarBase, prbarOf, or_flags hf]
      omega
    · show prlarLimit (C.prlarOf mpr) + 1 = mpr.base + mpr.size
      rw [prlarLimit, Armv8rCpu.prlarOf, or_flags hg, hlim']
      omega
    · show regFlags (prbarOf mpr) = _
      rw [regFlags, prbarOf, or_flags hf]
      omega
    · show regFlags (C.prlarOf mpr) = _
      rw [regFlags, Armv8rCpu.prlarOf, or_flags hg]
      omega

/-- Enabling changes the lowest bit of `prlar` and nothing else. -/
theorem enableFlags_parts (type : AsType) (raw : Nat) :
    flagsPrbar (enableFlags type raw) = flagsPrbar raw ∧
      (flagsPrlar (enableFlags type raw) = flagsPrlar raw / 2 * 2 ∨
        flagsPrlar (enableFlags type raw) = flagsPrlar raw / 2 * 2 + 1) := by
  have hpow : (2 : Nat) ^ 16 = 65536 ∧ (2 : Nat) ^ 32 = 4294967296 := by decide
  cases type with
  | vm =>
      simp only [enableFlags, withPrlar, flagsPrbar, flagsPrlar, hpow.1, hpow.2]
      omega
  | hyp =>
      simp only [enableFlags, withPrlar, flagsPrbar, flagsPrlar, hpow.1, hpow.2]
      omega
  | hypCpy =>
      simp only [enableFlags, withPrlar, flagsPrbar, flagsPrlar, hpow.1, hpow.2]
      omega

theorem regsFit_enabled : RegsFit C (enabledRegion as mpr) ↔ RegsFit C mpr := by
  obtain ⟨hprbar, hprlar⟩ := enableFlags_parts as.type mpr.memFlags
  constructor
  · intro h
    have hf : flagsPrbar (enableFlags as.type mpr.memFlags) < 64 := h.prbar
    have hg : flagsPrlar (enableFlags as.type mpr.memFlags) < 64 := h.prlar
    exact ⟨h.base, h.size, h.limit, by omega, by omega⟩
  · intro h
    have hf := h.prbar
    have hg := h.prlar
    refine ⟨h.base, h.size, h.limit, ?_, ?_⟩
    · show flagsPrbar (enableFlags as.type mpr.memFlags) < 64
      omega
    · show flagsPrlar (enableFlags as.type mpr.memFlags) < 64
      omega

/-! ## What the calls do -/

theorem SameMpuEntry.refl (m : Armv8rMpu) (j : Nat) : SameMpuEntry m m j :=
  ⟨rfl, rfl, rfl, fun _ => rfl, rfl⟩

theorem firstFree_some {i : Nat} (h : m.firstFree = some i) :
    i < mpuArchMaxNumEntries ∧ m.allocatedEntries i = false := by
  have hsat := List.find?_some h
  have hmem := List.mem_of_find?_eq_some h
  exact ⟨List.mem_range.mp hmem, by simpa using hsat⟩

theorem entry_ne_invalid (C : Armv8rCpu) {i : Nat} (hi : i < mpuArchMaxNumEntries) :
    i ≠ C.invalidMpid := by
  have hpages := C.machine.sixtyFour_le_pageCount
  have hwords := C.machine.four_pageCount_le_wordCount
  have hlt : i < 64 := hi
  show i ≠ C.machine.wordCount - 1
  omega

/-- The MPU after `mpu_map` took entry `i`. -/
def afterMap (C : Armv8rCpu) (m : Armv8rMpu) (as : AddrSpace) (mpr : MpRegion) (locked : Bool)
    (mask : MpuMask) (i : Nat) : Armv8rMpu :=
  let m := { m with allocatedEntries := Function.update m.allocatedEntries i true
                    entryAsid := Function.update m.entryAsid i as.id }
  let m := if locked then m.mpuEntryLock i else m
  (m.setMaskBit mask i true).mpuEntrySet C i (enabledRegion as mpr)

section AfterMap

variable (C : Armv8rCpu) (m : Armv8rMpu) (as : AddrSpace) (mpr : MpRegion) (locked : Bool)
  (mask : MpuMask) (i : Nat)

theorem afterMap_allocatedEntries : (afterMap C m as mpr locked mask i).allocatedEntries =
    Function.update m.allocatedEntries i true := by
  cases locked with
  | true => rfl
  | false => rfl

theorem afterMap_entryAsid : (afterMap C m as mpr locked mask i).entryAsid =
    Function.update m.entryAsid i as.id := by
  cases locked with
  | true => rfl
  | false => rfl

theorem afterMap_mpuEntryMask : (afterMap C m as mpr locked mask i).mpuEntryMask =
    Function.update m.mpuEntryMask mask (Function.update (m.mpuEntryMask mask) i true) := by
  cases locked with
  | true => rfl
  | false => rfl

theorem afterMap_entry : (afterMap C m as mpr locked mask i).entry =
    Function.update m.entry i
      ⟨prbarOf (enabledRegion as mpr), C.prlarOf (enabledRegion as mpr)⟩ := by
  cases locked with
  | true => rfl
  | false => rfl

end AfterMap

/-- **With a free entry and a mask** `mpu_map` takes the first free entry. -/
theorem mpuMap_takes (C : Armv8rCpu) (as : AddrSpace) (locked : Bool) {i : Nat}
    {mask : MpuMask} (hsize : mpr.size ≠ 0) (hfree : m.firstFree = some i) (hmask : C.findMpuMaskByAsid as.id = some (some mask)) :
    m.mpuMap C as mpr locked =
      some (true, enableFlags as.type mpr.memFlags, afterMap C m as mpr locked mask i) := by
  have hne := entry_ne_invalid C (firstFree_some hfree).1
  unfold mpuMap mpuEntryAllocate
  simp only [hfree, Option.getD_some]
  rw [if_neg hsize, if_pos hne, hmask]
  rfl

/-- **With no mask** the entry stays taken. -/
theorem mpuMap_keeps (C : Armv8rCpu) (as : AddrSpace) (locked : Bool) {i : Nat}
    (hsize : mpr.size ≠ 0) (hfree : m.firstFree = some i)
    (hmask : C.findMpuMaskByAsid as.id = some none) :
    ∃ flags m', m.mpuMap C as mpr locked = some (false, flags, m') ∧
      m'.allocatedEntries i = true := by
  have hne := entry_ne_invalid C (firstFree_some hfree).1
  unfold mpuMap mpuEntryAllocate
  simp only [hfree, Option.getD_some]
  rw [if_neg hsize, if_pos hne, hmask]
  refine ⟨_, _, rfl, ?_⟩
  cases locked with
  | true => exact Function.update_self i true m.allocatedEntries
  | false => exact Function.update_self i true m.allocatedEntries

/-- **With no free entry** `mpu_map` answers true. -/
theorem mpuMap_full (C : Armv8rCpu) (as : AddrSpace) (locked : Bool) (hsize : mpr.size ≠ 0)
    (hfree : m.firstFree = none) :
    ∃ flags m', m.mpuMap C as mpr locked = some (true, flags, m') := by
  unfold mpuMap mpuEntryAllocate
  simp only [hfree, Option.getD_none]
  rw [if_neg hsize, if_neg (fun hne => hne rfl)]
  exact ⟨_, _, rfl⟩

/-- Taking entry `i` changes no other one. -/
theorem afterMap_other (C : Armv8rCpu) (m : Armv8rMpu) (as : AddrSpace) (mpr : MpRegion)
    (locked : Bool) (mask : MpuMask) {i j : Nat} (hj : j ≠ i) :
    SameMpuEntry m (afterMap C m as mpr locked mask i) j := by
  constructor
  · rw [afterMap_allocatedEntries, Function.update_of_ne hj]
  · cases locked with
    | true => exact Function.update_of_ne hj _ _
    | false => rfl
  · rw [afterMap_entryAsid, Function.update_of_ne hj]
  · intro mask'
    rw [afterMap_mpuEntryMask]
    by_cases hmask : mask' = mask
    · rw [hmask, Function.update_self, Function.update_of_ne hj]
    · rw [Function.update_of_ne hmask]
  · rw [afterMap_entry, Function.update_of_ne hj]

/-- Entry `i` is taken for the region exactly if the registers can hold that and
the mask has the bit. -/
theorem afterMap_taken (C : Armv8rCpu) (as : AddrSpace) (locked : Bool) {i : Nat}
    {mask : MpuMask} (hsize : mpr.size ≠ 0) (hfree : m.firstFree = some i) (hmask : C.findMpuMaskByAsid as.id = some (some mask)) :
    (∃ j, TakenFor C m (afterMap C m as mpr locked mask i) as mpr locked j) ↔
      i < C.machine.wordBits ∧ RegsFit C mpr := by
  obtain ⟨hrange, hnot⟩ := firstFree_some hfree
  have hallocated : (afterMap C m as mpr locked mask i).allocatedEntries i = true := by
    rw [afterMap_allocatedEntries, Function.update_self]
  have hasid : (afterMap C m as mpr locked mask i).entryAsid i = as.id := by
    rw [afterMap_entryAsid, Function.update_self]
  have hentry : (afterMap C m as mpr locked mask i).entry i =
      ⟨prbarOf (enabledRegion as mpr), C.prlarOf (enabledRegion as mpr)⟩ := by
    rw [afterMap_entry, Function.update_self]
  have hbit : (afterMap C m as mpr locked mask i).mpuEntryMask mask i = true := by
    rw [afterMap_mpuEntryMask, Function.update_self, Function.update_self]
  have hlocked : locked = true → (afterMap C m as mpr locked mask i).lockedEntries i = true := by
    intro hyes
    subst hyes
    exact Function.update_self i true m.lockedEntries
  have hregs := holds_iff_regsFit C (enabledRegion as mpr) hsize
  rw [← hentry, regsFit_enabled] at hregs
  constructor
  · intro h
    obtain ⟨j, htaken⟩ := h
    have hji : j = i := by
      by_cases hji : j = i
      · exact hji
      · have hsame := (afterMap_other C m as mpr locked mask hji).allocated
        rw [htaken.allocated, htaken.free] at hsame
        cases hsame
    subst hji
    obtain ⟨_, -, hword, -⟩ := htaken.enabled
    exact ⟨hword, hregs.mp htaken.holds⟩
  · intro h
    exact ⟨i, hrange, hnot, hallocated, hasid, ⟨mask, hmask, h.1, hbit⟩, hlocked, hregs.mpr h.2,
      fun j _ hj => afterMap_other C m as mpr locked mask hj⟩

/-- **`mpu_map` is clean** exactly for an empty region or one that it can take. -/
theorem mapClean_iff : MapClean C m as mpr locked ↔ mpr.size = 0 ∨ MapCanTake C m as mpr := by
  by_cases hsize : mpr.size = 0
  · refine iff_of_true ⟨false, mpr.memFlags, m, ?_, ?_, fun _ => ⟨rfl, rfl⟩, ?_⟩ (.inl hsize)
    · rw [mpuMap, if_pos hsize]
    · apply iff_of_false Bool.false_ne_true
      intro h
      obtain ⟨i, htaken⟩ := h
      have hfree := htaken.free
      rw [htaken.allocated] at hfree
      cases hfree
    · exact fun j _ _ _ => SameMpuEntry.refl m j
  · cases hfree : m.firstFree with
    | none =>
        obtain ⟨flags, m1, hmap⟩ := mpuMap_full C as locked hsize hfree
        apply iff_of_false
        · intro hclean
          obtain ⟨ok, flags', m', hmap', -, hrefused, -⟩ := hclean
          rw [hmap] at hmap'
          have hok := (hrefused (.inl hfree)).1
          cases hmap'
          cases hok
        · intro h
          obtain ⟨⟨i, hi, -⟩, -, -⟩ := h.resolve_left hsize
          rw [hfree] at hi
          cases hi
    | some i =>
        cases hmask : C.findMpuMaskByAsid as.id with
        | none =>
            apply iff_of_false
            · intro hclean
              obtain ⟨ok, flags', m', hmap', -, -, -⟩ := hclean
              have hne := entry_ne_invalid C (firstFree_some hfree).1
              rw [mpuMap, if_neg hsize] at hmap'
              simp only [mpuEntryAllocate, hfree, Option.getD_some] at hmap'
              rw [if_pos hne, hmask] at hmap'
              cases hmap'
            · intro h
              obtain ⟨mask, hsome⟩ := (h.resolve_left hsize).mask
              rw [hmask] at hsome
              cases hsome
        | some found =>
            cases found with
            | none =>
                have hnone : ¬ HasMask C as.id := by
                  intro h
                  obtain ⟨mask, hsome⟩ := h
                  rw [hmask] at hsome
                  cases hsome
                apply iff_of_false
                · intro hclean
                  obtain ⟨ok, flags', m', hmap', -, hrefused, -⟩ := hclean
                  obtain ⟨flags, m1, hmap, hkept⟩ :=
                    mpuMap_keeps C as locked hsize hfree hmask
                  rw [hmap] at hmap'
                  have hm := (hrefused (.inr hnone)).2
                  cases hmap'
                  rw [hm, (firstFree_some hfree).2] at hkept
                  cases hkept
                · intro h
                  exact hnone (h.resolve_left hsize).mask
            | some mask =>
                have hmap := mpuMap_takes C as locked hsize hfree hmask
                have htaken := afterMap_taken C as locked hsize hfree
                  hmask
                have hhas : HasMask C as.id := ⟨mask, hmask⟩
                constructor
                · intro hclean
                  obtain ⟨ok, flags', m', hmap', hok, -, -⟩ := hclean
                  rw [hmap] at hmap'
                  cases hmap'
                  obtain ⟨hword, hregs⟩ := htaken.mp (hok.mp rfl)
                  exact .inr ⟨⟨i, hfree, hword⟩, hhas, hregs⟩
                · intro h
                  obtain ⟨⟨i', hi', hword⟩, -, hregs⟩ := h.resolve_left hsize
                  rw [hfree] at hi'
                  cases hi'
                  refine ⟨true, _, _, hmap, iff_of_true rfl (htaken.mpr ⟨hword, hregs⟩), ?_, ?_⟩
                  · intro hrefused
                    rcases hrefused with hnone | hnone
                    · rw [hfree] at hnone
                      cases hnone
                    · exact absurd hhas hnone
                  · intro j _ hj _
                    apply afterMap_other C m as mpr locked mask
                    intro hji
                    rw [hji, (firstFree_some hfree).2] at hj
                    cases hj

theorem mpuFindRegion_asid {i : Nat} (h : m.mpuFindRegion mpr as.id = some i) :
    m.entryAsid i = as.id := by
  have hsat := List.find?_some h
  simp only [Bool.and_eq_true, decide_eq_true_eq] at hsat
  exact hsat.2.2

/-- **`mpu_update`** touches no entry of another address space. -/
theorem mpuUpdate_keepsOthers : KeepsOthers m (m.mpuUpdate C as mpr).2 as.id := by
  intro j _ _ hasid
  unfold mpuUpdate
  split
  · exact SameMpuEntry.refl m j
  · rename_i i hfind
    have hji : j ≠ i := fun heq => hasid (heq ▸ mpuFindRegion_asid hfind)
    refine ⟨rfl, rfl, rfl, fun _ => rfl, ?_⟩
    exact Function.update_of_ne hji _ _

/-- **`mpu_unmap`** touches no entry of another address space. -/
theorem mpuUnmap_keepsOthers {answer : Bool × Armv8rMpu}
    (h : m.mpuUnmap C as mpr = some answer) : KeepsOthers m answer.2 as.id := by
  intro j _ _ hasid
  unfold mpuUnmap at h
  split at h
  · cases h
    exact SameMpuEntry.refl m j
  · rename_i i hfind
    have hji : j ≠ i := fun heq => hasid (heq ▸ mpuFindRegion_asid hfind)
    have hcleared : SameMpuEntry m
        (((m.mpuEntryDeallocate C i).mpuEntryUnlock i).mpuEntryClear i) j :=
      ⟨Function.update_of_ne hji _ _, Function.update_of_ne hji _ _,
        Function.update_of_ne hji _ _, fun _ => rfl, Function.update_of_ne hji _ _⟩
    dsimp only at h
    split at h
    · cases h
    · cases h
      exact hcleared
    · rename_i mask _
      cases h
      refine ⟨hcleared.allocated, hcleared.locked, hcleared.asid, fun mask' => ?_,
        hcleared.entry⟩
      show Function.update m.mpuEntryMask mask _ mask' j = _
      by_cases hmask : mask' = mask
      · rw [hmask, Function.update_self]
        exact Function.update_of_ne hji _ _
      · rw [Function.update_of_ne hmask]

theorem call_clean_iff (call : Armv8rCall) : call.Clean C m ↔ call.Fits C m := by
  cases call with
  | map as mpr locked => exact mapClean_iff
  | update as mpr => exact iff_of_true mpuUpdate_keepsOthers trivial
  | unmap as mpr => exact iff_of_true (fun _ => mpuUnmap_keepsOthers) trivial

/-- **Any sequence of calls, from any state of the MPU**: all calls are clean if and
only if all of them fit. -/
theorem armv8r_calls_clean_iff (C : Armv8rCpu) (calls : List Armv8rCall) (m : Armv8rMpu) :
    EachCall C (fun m call => call.Clean C m) calls m ↔
      EachCall C (fun m call => call.Fits C m) calls m := by
  induction calls generalizing m with
  | nil => exact Iff.rfl
  | cons call calls ih =>
      apply and_congr (call_clean_iff call)
      apply forall_congr'
      intro m'
      exact imp_congr_right fun _ => ih m'

/-! ## A CPU with a VM -/

/-- A CPU whose own address space is 0 and whose vCPU is of the VM with address
space 1. -/
def armv8rCpu : Armv8rCpu := ⟨Machine.mmu64, 0, some 1⟩

/-- An MPU whose entries are all free or all of the address space 0. -/
def uniformMpu (allocated : Bool) : Armv8rMpu where
  allocatedEntries := fun _ => allocated
  lockedEntries := fun _ => false
  entryAsid := fun _ => 0
  mpuEntryMask := fun _ _ => false
  entry := fun _ => ⟨0, 0⟩

/-- An address space of a VM without entries. -/
def vmSpace (id : Nat) : AddrSpace := ⟨id, .vm, 0, [], fun _ => AddrSpace.clearMpe 0 .free, false⟩

/-- A page at 0x10000. -/
def armv8rPage : MpRegion := ⟨0x10000, 0x1000, 0x30002, .vmAny⟩

/-- **A full MPU** maps the page of a VM, says the answer; **an address space without
a mask** is refused, but the entry stays taken. -/
theorem armv8r_map_not_clean :
    ((uniformMpu true).mpuMap armv8rCpu (vmSpace 1) armv8rPage false).map (fun r => r.1) =
        some true ∧
      ¬ (Armv8rCall.map (vmSpace 1) armv8rPage false).Clean armv8rCpu (uniformMpu true) ∧
    ((uniformMpu false).mpuMap armv8rCpu (vmSpace 2) armv8rPage false).map
        (fun r => (r.1, r.2.2.allocatedEntries 0)) = some (false, true) ∧
      ¬ (Armv8rCall.map (vmSpace 2) armv8rPage false).Clean armv8rCpu (uniformMpu false) := by
  refine ⟨by decide, ?_, by decide, ?_⟩
  · rw [call_clean_iff]
    intro hfits
    obtain ⟨⟨i, hi, -⟩, -, -⟩ := hfits.resolve_left (by decide)
    have hfree : true = false := (firstFree_some hi).2
    cases hfree
  · rw [call_clean_iff]
    intro hfits
    obtain ⟨mask, hmask⟩ := (hfits.resolve_left (by decide)).mask
    cases hmask

end Bao

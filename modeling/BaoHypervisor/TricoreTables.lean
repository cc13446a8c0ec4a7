import BaoHypervisor.SharedRanges
import BaoHypervisor.TricoreMpu
import BaoHypervisor.WordRegs
import Mathlib.Data.List.AList

/-!
# The two tables of a TriCore MPU as shared entries

Each of the two tables is a table of entries that the protection sets share.  The
regions that the address spaces asked for say what each set wants of a range, and
the parts of `mpu_map`, `mpu_update` and `mpu_unmap` are operations of shared
entries.
-/

namespace Bao

/-- The kinds of access. -/
inductive Access
  | write
  | read
  | exec
deriving DecidableEq

/-- The flag that stands for a kind of access. -/
def Access.bit : Access → Nat
  | .write => 0
  | .read => 1
  | .exec => 2

/-- The bounds of an entry. -/
def MpuTable.bounds (t : MpuTable) (i : Nat) : BitVec 32 × BitVec 32 := (t.lower i, t.upper i)

/-- The bounds of a region. -/
def MpRegion.bounds (mpr : MpRegion) : BitVec 32 × BitVec 32 :=
  (BitVec.ofNat 32 mpr.base, BitVec.ofNat 32 (mpr.base + mpr.size))

/-- An address lies between bounds. -/
def Between (r : BitVec 32 × BitVec 32) (a : Nat) : Prop := r.1.toNat ≤ a ∧ a < r.2.toNat

namespace TricoreMpu

variable {m : TricoreMpu}

/-- **The access a protection set has**: an entry that is enabled for it covers
the address. -/
def Allows (m : TricoreMpu) (prs : Nat) (acc : Access) (a : Nat) : Prop :=
  match acc with
  | .write => ∃ i, i < mpuDataMaxNumEntries ∧ getPsBit m.dpwe prs i = true ∧
      Between (m.data.bounds i) a
  | .read => ∃ i, i < mpuDataMaxNumEntries ∧ getPsBit m.dpre prs i = true ∧
      Between (m.data.bounds i) a
  | .exec => ∃ i, i < mpuCodeMaxNumEntries ∧ getPsBit m.cpxe prs i = true ∧
      Between (m.code.bounds i) a

instance decidableAllows (m : TricoreMpu) (prs : Nat) (acc : Access) (a : Nat) :
    Decidable (m.Allows prs acc a) := by
  unfold Allows Between
  rcases acc with _ | _ <;> infer_instance

/-- The data table, used to write and to read. -/
def dataView (m : TricoreMpu) : RangeTable Nat (BitVec 32 × BitVec 32) (Bool × Bool) where
  alloc := m.data.bitmap
  range := m.data.bounds
  use := fun prs i => (getPsBit m.dpwe prs i, getPsBit m.dpre prs i)
  ref := fun i => (m.data.node i).refCounter

/-- The code table. -/
def codeView (m : TricoreMpu) : RangeTable Nat (BitVec 32 × BitVec 32) Bool where
  alloc := m.code.bitmap
  range := m.code.bounds
  use := fun prs i => decide (i < mpuCodeMaxNumEntries) && getPsBit m.cpxe prs i
  ref := fun i => (m.code.node i).refCounter

end TricoreMpu

/-! ## The enable bits -/

section Bits

variable {reg : Nat → BitVec 32} {psid mpid p i : Nat} {b : Bool}

theorem getLsbD_writeBit {w : BitVec 32} (hmpid : mpid < 32) :
    (if b then w ||| 1#32 <<< mpid else w &&& ~~~(1#32 <<< mpid)).getLsbD i =
      if i = mpid then b else w.getLsbD i := by
  by_cases hlt : i < 32
  · have hone : (1#32 <<< mpid).getLsbD i = decide (i = mpid) := WordRegs.getLsbD_mask hlt
    cases b with
    | true =>
      rw [if_pos rfl, BitVec.getLsbD_or, hone]
      by_cases hi : i = mpid
      · simp [hi]
      · simp [hi]
    | false =>
      rw [if_neg Bool.false_ne_true, BitVec.getLsbD_and, BitVec.getLsbD_not, hone]
      by_cases hi : i = mpid
      · simp [hi]
      · simp [hi, hlt]
  · have hne : i ≠ mpid := by omega
    rw [if_neg hne, BitVec.getLsbD_of_ge _ i (by omega), BitVec.getLsbD_of_ge w i (by omega)]

theorem getPsBit_setPsBit (hmpid : mpid < 32) :
    getPsBit (setPsBit reg psid mpid b) p i =
      if psid < 8 ∧ p = psid ∧ i = mpid then b else getPsBit reg p i := by
  unfold getPsBit setPsBit
  by_cases hset : psid < 8
  · rw [if_pos hset]
    by_cases hp : p = psid
    · subst hp
      rw [Function.update_self, getLsbD_writeBit hmpid]
      simp [hset]
    · rw [Function.update_of_ne hp, if_neg fun h => hp h.2.1]
  · rw [if_neg hset, if_neg fun h => hset h.1]

theorem getPsBit_setPsBit_self (hpsid : psid < 8) (hmpid : mpid < 32) :
    getPsBit (setPsBit reg psid mpid b) psid mpid = b := by
  rw [getPsBit_setPsBit hmpid, if_pos ⟨hpsid, rfl, rfl⟩]

theorem getPsBit_setPsBit_of_ne (hmpid : mpid < 32) (h : ¬ (p = psid ∧ i = mpid)) :
    getPsBit (setPsBit reg psid mpid b) p i = getPsBit reg p i := by
  rw [getPsBit_setPsBit hmpid, if_neg fun hall => h hall.2]

end Bits

/-- The kinds of access that the data table serves. -/
def dataPick (flags : Nat) : Bool × Bool := (flags.testBit 0, flags.testBit 1)

/-- The kind of access that the code table serves. -/
def codePick (flags : Nat) : Bool := flags.testBit 2

/-! ## What the address spaces asked for -/

/-- The regions of the address spaces: for an id and a base, the size and the
flags. -/
abbrev Asked : Type := AList fun _ : Nat × Nat => Nat × Nat

/-- What an address space wants of the range between bounds: `pick` of the flags
of its region, if it has one there. -/
def Asked.wanted {P : Type} (pick : Nat → P) (idle : P) (asked : Asked) (k : Nat)
    (r : BitVec 32 × BitVec 32) : P :=
  match asked.lookup (k, r.1.toNat) with
  | some (size, flags) =>
    if r.2 = BitVec.ofNat 32 (r.1.toNat + size) then pick flags else idle
  | none => idle

/-- The regions fit the registers and those of an address space are apart. -/
structure Asked.Regular (asked : Asked) : Prop where
  fits : ∀ {k base size flags}, asked.lookup (k, base) = some (size, flags) →
    k < 8 ∧ 0 < size ∧ base + size < 2 ^ 32
  apart : ∀ {k base size flags base' size' flags'},
    asked.lookup (k, base) = some (size, flags) →
    asked.lookup (k, base') = some (size', flags') → base ≠ base' →
    base + size ≤ base' ∨ base' + size' ≤ base

namespace Asked

open RangeTable (ask ask_self ask_of_ne)

variable {P : Type} {pick : Nat → P} {idle : P} {asked : Asked} {as k base size size' flags flags' : Nat}
  {r : BitVec 32 × BitVec 32} {mpr : MpRegion}

theorem toNat_base (h : base + size < 2 ^ 32) : (BitVec.ofNat 32 base).toNat = base := by
  rw [BitVec.toNat_ofNat]
  omega

theorem toNat_end (h : base + size < 2 ^ 32) :
    (BitVec.ofNat 32 (base + size)).toNat = base + size := by
  rw [BitVec.toNat_ofNat]
  omega

theorem bounds_inj (h : base + size < 2 ^ 32) (h' : base + size' < 2 ^ 32)
    (heq : BitVec.ofNat 32 (base + size) = BitVec.ofNat 32 (base + size')) : size = size' := by
  have hnat := congrArg BitVec.toNat heq
  rw [toNat_end h, toNat_end h'] at hnat
  omega

theorem wanted_bounds (hfits : mpr.base + mpr.size < 2 ^ 32) (hregular : asked.Regular) :
    asked.wanted pick idle as mpr.bounds =
      match asked.lookup (as, mpr.base) with
      | some (size, flags) => if mpr.size = size then pick flags else idle
      | none => idle := by
  unfold wanted MpRegion.bounds
  dsimp only
  rw [toNat_base hfits]
  cases hlook : asked.lookup (as, mpr.base) with
  | none => rfl
  | some x =>
    obtain ⟨size, flags⟩ := x
    dsimp only
    obtain ⟨-, -, hsize⟩ := hregular.fits hlook
    by_cases heq : mpr.size = size
    · rw [if_pos heq, heq, if_pos rfl]
    · rw [if_neg heq, if_neg fun h => heq (bounds_inj hfits hsize h)]

theorem lookup_of_wanted (h : asked.wanted pick idle k r ≠ idle) :
    ∃ size flags, asked.lookup (k, r.1.toNat) = some (size, flags) ∧
      r.2 = BitVec.ofNat 32 (r.1.toNat + size) ∧ asked.wanted pick idle k r = pick flags := by
  cases hlook : asked.lookup (k, r.1.toNat) with
  | none =>
    refine absurd ?_ h
    unfold wanted
    rw [hlook]
  | some x =>
    obtain ⟨size, flags⟩ := x
    have hwanted : asked.wanted pick idle k r =
        if r.2 = BitVec.ofNat 32 (r.1.toNat + size) then pick flags else idle := by
      unfold wanted
      rw [hlook]
    by_cases heq : r.2 = BitVec.ofNat 32 (r.1.toNat + size)
    · exact ⟨size, flags, rfl, heq, hwanted.trans (if_pos heq)⟩
    · exact absurd (hwanted.trans (if_neg heq)) h

theorem wanted_congr {asked' : Asked}
    (h : asked'.lookup (k, r.1.toNat) = asked.lookup (k, r.1.toNat)) :
    asked'.wanted pick idle k r = asked.wanted pick idle k r := by
  unfold wanted
  rw [h]

/-- **A region is added.** -/
theorem wanted_insert (hfits : mpr.base + mpr.size < 2 ^ 32)
    (hnone : asked.lookup (as, mpr.base) = none) :
    wanted pick idle (asked.insert (as, mpr.base) (mpr.size, mpr.memFlags)) =
      ask (asked.wanted pick idle) as mpr.bounds (pick mpr.memFlags) := by
  funext k r
  by_cases hkey : k = as ∧ r.1.toNat = mpr.base
  · obtain ⟨hk, hr⟩ := hkey
    have hlook : (asked.insert (as, mpr.base) (mpr.size, mpr.memFlags)).lookup (k, r.1.toNat) =
        some (mpr.size, mpr.memFlags) := by
      rw [hk, hr, AList.lookup_insert]
    have hwanted : wanted pick idle (asked.insert (as, mpr.base) (mpr.size, mpr.memFlags)) k r =
        if r.2 = BitVec.ofNat 32 (mpr.base + mpr.size) then pick mpr.memFlags else idle := by
      unfold wanted
      rw [hlook, hr]
    have hold : asked.wanted pick idle k r = idle := by
      unfold wanted
      rw [hk, hr, hnone]
    have hlower : r.1 = BitVec.ofNat 32 mpr.base := by
      rw [← hr, BitVec.ofNat_toNat, BitVec.setWidth_eq]
    rw [hwanted, hk]
    by_cases hupper : r.2 = BitVec.ofNat 32 (mpr.base + mpr.size)
    · have hbounds : r = mpr.bounds := Prod.ext hlower hupper
      rw [if_pos hupper, hbounds, ask_self]
    · rw [if_neg hupper, ask_of_ne fun h => hupper (congrArg Prod.snd h.2), ← hk, hold]
  · rw [ask_of_ne]
    · refine wanted_congr (AList.lookup_insert_ne fun heq => ?_)
      exact hkey ⟨(Prod.mk.inj heq).1, (Prod.mk.inj heq).2⟩
    · intro h
      refine hkey ⟨h.1, ?_⟩
      rw [h.2]
      exact toNat_base hfits

/-- **A region is dropped.** -/
theorem wanted_erase (hfits : mpr.base + mpr.size < 2 ^ 32)
    (hsome : asked.lookup (as, mpr.base) = some (mpr.size, flags)) :
    wanted pick idle (asked.erase (as, mpr.base)) =
      ask (asked.wanted pick idle) as mpr.bounds idle := by
  funext k r
  by_cases hkey : k = as ∧ r.1.toNat = mpr.base
  · obtain ⟨hk, hr⟩ := hkey
    have hgone : wanted pick idle (asked.erase (as, mpr.base)) k r = idle := by
      unfold wanted
      rw [hk, hr, AList.lookup_erase]
    rw [hgone, hk]
    by_cases hbounds : r = mpr.bounds
    · rw [hbounds, ask_self]
    · rw [ask_of_ne fun h => hbounds h.2]
      have hlower : r.1 = BitVec.ofNat 32 mpr.base := by
        rw [← hr, BitVec.ofNat_toNat, BitVec.setWidth_eq]
      unfold wanted
      rw [hr, hsome]
      exact (if_neg fun hupper => hbounds (Prod.ext hlower hupper)).symm
  · rw [ask_of_ne]
    · refine wanted_congr (AList.lookup_erase_ne fun heq => ?_)
      exact hkey ⟨(Prod.mk.inj heq).1, (Prod.mk.inj heq).2⟩
    · intro h
      refine hkey ⟨h.1, ?_⟩
      rw [h.2]
      exact toNat_base hfits

/-- **A region is replaced** by one with the same base. -/
theorem wanted_replace (hfits : mpr.base + mpr.size < 2 ^ 32) {old : MpRegion}
    (hbase : old.base = mpr.base) (hold : old.base + old.size < 2 ^ 32)
    (hsome : asked.lookup (as, mpr.base) = some (old.size, flags)) :
    wanted pick idle (asked.insert (as, mpr.base) (mpr.size, mpr.memFlags)) =
      ask (ask (asked.wanted pick idle) as old.bounds idle) as mpr.bounds (pick mpr.memFlags) := by
  rw [← hbase] at hsome
  rw [← wanted_erase hold hsome, hbase, ← wanted_insert hfits (AList.lookup_erase ..)]
  funext k r
  refine wanted_congr ?_
  by_cases hkey : (k, r.1.toNat) = (as, mpr.base)
  · rw [hkey, AList.lookup_insert, AList.lookup_insert]
  · rw [AList.lookup_insert_ne hkey, AList.lookup_insert_ne hkey, AList.lookup_erase_ne hkey]

theorem Regular.insert (h : asked.Regular) (has : as < 8) (hsize : 0 < size)
    (hfits : base + size < 2 ^ 32)
    (hapart : ∀ {base' size' flags'}, asked.lookup (as, base') = some (size', flags') →
      base' ≠ base → base' + size' ≤ base ∨ base + size ≤ base') :
    Regular (asked.insert (as, base) (size, flags)) := by
  have hlook : ∀ {k base' x}, (asked.insert (as, base) (size, flags)).lookup (k, base') = some x →
      (k = as ∧ base' = base ∧ x = (size, flags)) ∨
        ¬ (k = as ∧ base' = base) ∧ asked.lookup (k, base') = some x := by
    intro k base' x hx
    by_cases hkey : k = as ∧ base' = base
    · rw [hkey.1, hkey.2, AList.lookup_insert] at hx
      exact Or.inl ⟨hkey.1, hkey.2, (Option.some.inj hx).symm⟩
    · rw [AList.lookup_insert_ne fun heq => hkey ⟨(Prod.mk.inj heq).1, (Prod.mk.inj heq).2⟩] at hx
      exact Or.inr ⟨hkey, hx⟩
  constructor
  · intro k base' size' flags' hx
    rcases hlook hx with ⟨hk, hb, hx⟩ | ⟨-, hx⟩
    · rw [hk, hb, (Prod.mk.inj hx).1]
      exact ⟨has, hsize, hfits⟩
    · exact h.fits hx
  · intro k base₁ size₁ flags₁ base₂ size₂ flags₂ hx hy hne
    rcases hlook hx with ⟨hk, hb, hx⟩ | ⟨hnot, hx⟩
    · rcases hlook hy with ⟨-, hb', -⟩ | ⟨-, hy⟩
      · exact absurd (hb.trans hb'.symm) hne
      · rw [hk] at hy
        rw [hb] at hne ⊢
        rw [(Prod.mk.inj hx).1]
        exact (hapart hy hne.symm).symm
    · rcases hlook hy with ⟨hk, hb, hy⟩ | ⟨-, hy⟩
      · rw [hk] at hx
        rw [hb] at hne ⊢
        rw [(Prod.mk.inj hy).1]
        exact hapart hx hne
      · exact h.apart hx hy hne

theorem Regular.erase (h : asked.Regular) : Regular (asked.erase (as, base)) := by
  have hlook : ∀ {key x}, (asked.erase (as, base)).lookup key = some x →
      asked.lookup key = some x := by
    intro key x hx
    by_cases hkey : key = (as, base)
    · rw [hkey, AList.lookup_erase] at hx
      cases hx
    · rw [AList.lookup_erase_ne hkey] at hx
      exact hx
  exact ⟨fun hx => h.fits (hlook hx), fun hx hy hne => h.apart (hlook hx) (hlook hy) hne⟩

end Asked

/-! ## The searches and the allocation -/

namespace MpuTable

variable {t : MpuTable} {max i j : Nat} {mpr : MpRegion}

theorem findRegion_some (h : t.findRegion max mpr = some i) :
    i < max ∧ t.bitmap i = true ∧ t.bounds i = mpr.bounds := by
  unfold findRegion at h
  have hfits := List.find?_some h
  obtain ⟨hset, hbounds⟩ := Bool.and_eq_true_iff.mp hfits
  obtain ⟨hlower, hupper⟩ := of_decide_eq_true hbounds
  exact ⟨List.mem_range.mp (List.mem_of_find?_eq_some h), hset, Prod.ext hlower hupper⟩

theorem findRegion_none (h : t.findRegion max mpr = none) (hi : i < max)
    (hset : t.bitmap i = true) : t.bounds i ≠ mpr.bounds := by
  unfold findRegion at h
  have hnot := List.find?_eq_none.mp h i (List.mem_range.mpr hi)
  intro hbounds
  refine hnot (Bool.and_eq_true_iff.mpr ⟨hset, decide_eq_true ⟨?_, ?_⟩⟩)
  · exact congrArg Prod.fst hbounds
  · exact congrArg Prod.snd hbounds

theorem firstBase_some (h : t.firstBase max mpr = some i) :
    i < max ∧ t.bitmap i = true ∧ t.lower i = BitVec.ofNat 32 mpr.base := by
  unfold firstBase at h
  have hfits := List.find?_some h
  obtain ⟨hset, hlower⟩ := Bool.and_eq_true_iff.mp hfits
  exact ⟨List.mem_range.mp (List.mem_of_find?_eq_some h), hset, of_decide_eq_true hlower⟩

theorem firstBase_none (h : t.firstBase max mpr = none) (hi : i < max)
    (hset : t.bitmap i = true) : t.lower i ≠ BitVec.ofNat 32 mpr.base := by
  unfold firstBase at h
  have hnot := List.find?_eq_none.mp h i (List.mem_range.mpr hi)
  exact fun hlower => hnot (Bool.and_eq_true_iff.mpr ⟨hset, decide_eq_true hlower⟩)

theorem entryAllocate_some (h : (t.entryAllocate max).1 = some i) :
    i < max ∧ t.bitmap i = false ∧
      t.entryAllocate max = (some i, { t with bitmap := Function.update t.bitmap i true }) := by
  unfold entryAllocate at h ⊢
  split at h
  · rename_i k hfind
    have hk : k = i := Option.some.inj h
    subst hk
    have hfree := List.find?_some hfind
    exact ⟨List.mem_range.mp (List.mem_of_find?_eq_some hfind), by simpa using hfree, rfl⟩
  · cases h

theorem setNode_refCounter (node : MpuNode) :
    (fun j => ((t.setNode i node).node j).refCounter) =
      Function.update (fun j => (t.node j).refCounter) i node.refCounter := by
  funext j
  unfold setNode
  dsimp only
  by_cases hji : j = i
  · rw [hji, Function.update_self, Function.update_self]
  · rw [Function.update_of_ne hji, Function.update_of_ne hji]

theorem setNode_refCounter_same {node : MpuNode} (h : node.refCounter = (t.node i).refCounter) :
    (fun j => ((t.setNode i node).node j).refCounter) = fun j => (t.node j).refCounter := by
  rw [setNode_refCounter, h]
  exact Function.update_eq_self ..

theorem addPerms_refCounter (perms : Nat) :
    (fun j => ((t.addPerms i perms).node j).refCounter) = fun j => (t.node j).refCounter :=
  setNode_refCounter_same rfl

theorem setLink_refCounter (link : Option Nat) :
    (fun j => ((t.setLink i link).node j).refCounter) = fun j => (t.node j).refCounter :=
  setNode_refCounter_same rfl

theorem addUser_refCounter :
    (fun j => ((t.addUser i).node j).refCounter) =
      Function.update (fun j => (t.node j).refCounter) i ((t.node i).refCounter + 1) :=
  setNode_refCounter _

/-- A free entry taken for a region, with its first user. -/
def install (t : MpuTable) (i : Nat) (mpr : MpRegion) (perms : Nat) : MpuTable :=
  (({ t with bitmap := Function.update t.bitmap i true }.insertEntry mpr i).addUser i).addPerms i
    perms

theorem install_bounds (perms : Nat) :
    (t.install i mpr perms).bounds = Function.update t.bounds i mpr.bounds := by
  funext j
  change (Function.update t.lower i (BitVec.ofNat 32 mpr.base) j,
    Function.update t.upper i (BitVec.ofNat 32 (mpr.base + mpr.size)) j) = _
  by_cases hji : j = i
  · rw [hji, Function.update_self, Function.update_self, Function.update_self]
    rfl
  · rw [Function.update_of_ne hji, Function.update_of_ne hji, Function.update_of_ne hji]
    rfl

theorem install_refCounter (perms : Nat) :
    (fun j => ((t.install i mpr perms).node j).refCounter) =
      Function.update (fun j => (t.node j).refCounter) i ((t.node i).refCounter + 1) := by
  unfold install
  rw [addPerms_refCounter, addUser_refCounter]
  rfl

theorem dropUser_bitmap :
    (t.dropUser i).bitmap =
      if (t.node i).refCounter = 1 then Function.update t.bitmap i false else t.bitmap := by
  unfold dropUser
  dsimp only
  by_cases hlast : (t.node i).refCounter = 1
  · rw [if_pos hlast, if_pos hlast]
    rfl
  · rw [if_neg hlast, if_neg hlast]
    rfl

theorem dropUser_bounds :
    (t.dropUser i).bounds =
      if (t.node i).refCounter = 1 then Function.update t.bounds i (0, 0) else t.bounds := by
  unfold dropUser
  dsimp only
  by_cases hlast : (t.node i).refCounter = 1
  · rw [if_pos hlast, if_pos hlast]
    funext j
    change (Function.update t.lower i 0 j, Function.update t.upper i 0 j) = _
    by_cases hji : j = i
    · rw [hji, Function.update_self, Function.update_self, Function.update_self]
    · rw [Function.update_of_ne hji, Function.update_of_ne hji, Function.update_of_ne hji]
      rfl
  · rw [if_neg hlast, if_neg hlast]
    rfl

theorem dropUser_refCounter :
    (fun j => ((t.dropUser i).node j).refCounter) =
      Function.update (fun j => (t.node j).refCounter) i ((t.node i).refCounter - 1) := by
  unfold dropUser
  dsimp only
  rw [setNode_refCounter]
  by_cases hlast : (t.node i).refCounter = 1
  · rw [if_pos hlast]
  · rw [if_neg hlast]

theorem updateUpper_eq (t : MpuTable) (max : Nat) (mpr : MpRegion) :
    t.updateUpper max mpr = { t with upper := (t.updateUpper max mpr).upper } := by
  unfold updateUpper
  split
  · rfl
  · rfl

end MpuTable

section Table

open RangeTable (ask ask_same)

variable {P : Type} [DecidableEq P] {v : RangeTable Nat (BitVec 32 × BitVec 32) P} {t : MpuTable}
  {max as : Nat} {idle : P} {pick : Nat → P} {asked : Asked} {mpr : MpRegion}

theorem wanted_of_findRegion_none
    (h : v.Serves max (Finset.range 8) idle (asked.wanted pick idle))
    (halloc : v.alloc = t.bitmap) (hrange : v.range = t.bounds)
    (hfind : t.findRegion max mpr = none) : asked.wanted pick idle as mpr.bounds = idle := by
  by_contra hne
  obtain ⟨i, hi, hbounds, huse⟩ := h.held hne
  have hset := h.taken_of_use hi huse
  rw [halloc] at hset
  rw [hrange] at hbounds
  exact MpuTable.findRegion_none hfind hi hset hbounds

/-- **`mpu_update` in one table**, where the entry it meets has one user. -/
theorem serves_updateUpper {old flags : Nat}
    (h : v.Serves max (Finset.range 8) idle (asked.wanted pick idle)) (hregular : asked.Regular)
    (halloc : v.alloc = t.bitmap) (hrange : v.range = t.bounds)
    (hfits : mpr.base + mpr.size < 2 ^ 32) (hlook : asked.lookup (as, mpr.base) = some (old, flags))
    (hpick : pick flags = pick mpr.memFlags)
    (hown : ∀ i ∈ t.firstBase max mpr, ∀ k < 8, v.use k i ≠ idle → k = as) :
    RangeTable.Serves { v with range := (t.updateUpper max mpr).bounds } max (Finset.range 8) idle
      (Asked.wanted pick idle (asked.insert (as, mpr.base) (mpr.size, mpr.memFlags))) := by
  obtain ⟨-, -, hold⟩ := hregular.fits hlook
  have hoffer : asked.wanted pick idle as { mpr with size := old }.bounds = pick flags := by
    rw [Asked.wanted_bounds hold hregular, hlook]
    exact if_pos rfl
  have hreplace : Asked.wanted pick idle (asked.insert (as, mpr.base) (mpr.size, mpr.memFlags)) =
      ask (ask (asked.wanted pick idle) as { mpr with size := old }.bounds idle) as mpr.bounds
        (pick mpr.memFlags) := Asked.wanted_replace hfits rfl hold hlook
  rw [hreplace]
  have hnew : mpr.bounds ≠ { mpr with size := old }.bounds →
      asked.wanted pick idle as mpr.bounds = idle := by
    intro hne
    rw [Asked.wanted_bounds hfits hregular, hlook]
    refine if_neg fun heq => hne ?_
    unfold MpRegion.bounds
    rw [heq]
  unfold MpuTable.updateUpper
  cases hfind : t.firstBase max mpr with
  | some i =>
    obtain ⟨hi, hset, hlower⟩ := MpuTable.firstBase_some hfind
    have honly : ∀ k, v.use k i ≠ idle → k = as := fun k huse =>
      hown i hfind k (Finset.mem_range.mp (h.member hi huse)) huse
    obtain ⟨k, huse⟩ := h.use_of_taken hi (by rw [halloc]; exact hset)
    rw [honly k huse] at huse
    have hgrant := h.granted hi huse
    have hwanted : asked.wanted pick idle as (v.range i) ≠ idle := by
      rw [← hgrant]
      exact huse
    obtain ⟨size, flags', hlook', hupper, -⟩ := Asked.lookup_of_wanted hwanted
    have hbase : (v.range i).1.toNat = mpr.base := by
      rw [hrange]
      change (t.lower i).toNat = mpr.base
      rw [hlower]
      exact Asked.toNat_base hfits
    rw [hbase, hlook] at hlook'
    have hsize : old = size := (Prod.mk.inj (Option.some.inj hlook')).1
    have hbounds : v.range i = { mpr with size := old }.bounds := by
      refine Prod.ext ?_ ?_
      · rw [hrange]
        exact hlower
      · rw [hupper, hbase, hsize]
        rfl
    have hresize := h.resize (r := mpr.bounds) hi huse honly
      (fun hne => hnew (by rw [← hbounds]; exact hne))
    rw [hbounds, hoffer, hpick] at hresize
    have hview : v.resize i mpr.bounds = { v with range := { t with
        upper := Function.update t.upper i
          (BitVec.ofNat 32 (mpr.base + mpr.size)) }.bounds } := by
      refine RangeTable.ext rfl ?_ rfl rfl
      funext j
      change Function.update v.range i mpr.bounds j =
        (t.lower j, Function.update t.upper i (BitVec.ofNat 32 (mpr.base + mpr.size)) j)
      by_cases hji : j = i
      · rw [hji, Function.update_self, Function.update_self, hlower]
        rfl
      · rw [Function.update_of_ne hji, Function.update_of_ne hji, hrange]
        rfl
    rw [hview] at hresize
    exact hresize
  | none =>
    have hnone : pick flags = idle := by
      by_contra hne
      rw [← hoffer] at hne
      obtain ⟨i, hi, hbounds, huse⟩ := h.held hne
      have hset := h.taken_of_use hi huse
      rw [halloc] at hset
      rw [hrange] at hbounds
      exact MpuTable.firstBase_none hfind hi hset (congrArg Prod.fst hbounds)
    have hsame : asked.wanted pick idle as mpr.bounds = idle := by
      by_cases heq : mpr.bounds = { mpr with size := old }.bounds
      · rw [heq, hoffer, hnone]
      · exact hnew heq
    rw [ask_same (hoffer.trans hnone), ← hpick, hnone, ask_same hsame]
    have hview : ({ v with range := t.bounds } : RangeTable Nat (BitVec 32 × BitVec 32) P) = v :=
      RangeTable.ext rfl hrange.symm rfl rfl
    dsimp only
    rw [hview]
    exact h

end Table

/-! ## What the parts of a call do to the tables -/

section Bits

variable {reg : Nat → BitVec 32} {prs p i j : Nat} {b flag : Bool}

theorem getPsBit_flag (hprs : prs < 8) (hi : i < 32) (hold : getPsBit reg prs i = false) :
    getPsBit (if flag = true then setPsBit reg prs i true else reg) prs i = flag := by
  cases flag with
  | true => exact getPsBit_setPsBit_self hprs hi
  | false => exact hold

theorem getPsBit_flag_of_ne (hi : i < 32) (hne : ¬ (p = prs ∧ j = i)) :
    getPsBit (if flag = true then setPsBit reg prs i b else reg) p j = getPsBit reg p j := by
  cases flag with
  | true => exact getPsBit_setPsBit_of_ne hi hne
  | false => rfl

end Bits

namespace TricoreMpu

open RangeTable (Serves)

variable {m m' : TricoreMpu} {prs i perm : Nat} {mpr : MpRegion} {dataMpid : Option Nat}

theorem prsSetPerm_dataUse (hprs : prs < 8) (hi : i < 32)
    (hold : m.dataView.use prs i = (false, false)) :
    (m.prsSetPerm prs i perm).dataView.use =
      Function.update m.dataView.use prs
        (Function.update (m.dataView.use prs) i (dataPick perm)) := by
  obtain ⟨hwrite, hread⟩ := Prod.mk.inj hold
  funext p j
  by_cases hself : p = prs ∧ j = i
  · rw [hself.1, hself.2, Function.update_self, Function.update_self]
    exact Prod.ext (getPsBit_flag hprs hi hwrite) (getPsBit_flag hprs hi hread)
  · have hright : Function.update m.dataView.use prs
        (Function.update (m.dataView.use prs) i (dataPick perm)) p j = m.dataView.use p j := by
      by_cases hp : p = prs
      · subst hp
        rw [Function.update_self, Function.update_of_ne fun hj => hself ⟨rfl, hj⟩]
      · rw [Function.update_of_ne hp]
    rw [hright]
    exact Prod.ext (getPsBit_flag_of_ne hi hself) (getPsBit_flag_of_ne hi hself)

theorem prsClrPerm_dataUse (hprs : prs < 8) (hi : i < 32) :
    (m.prsClrPerm prs i ptePermRw).dataView.use =
      Function.update m.dataView.use prs
        (Function.update (m.dataView.use prs) i (false, false)) := by
  funext p j
  by_cases hself : p = prs ∧ j = i
  · rw [hself.1, hself.2, Function.update_self, Function.update_self]
    exact Prod.ext (getPsBit_setPsBit_self hprs hi) (getPsBit_setPsBit_self hprs hi)
  · have hright : Function.update m.dataView.use prs
        (Function.update (m.dataView.use prs) i (false, false)) p j = m.dataView.use p j := by
      by_cases hp : p = prs
      · subst hp
        rw [Function.update_self, Function.update_of_ne fun hj => hself ⟨rfl, hj⟩]
      · rw [Function.update_of_ne hp]
    rw [hright]
    exact Prod.ext (getPsBit_setPsBit_of_ne hi hself) (getPsBit_setPsBit_of_ne hi hself)

/-- A bit of `CPXE` is written. -/
theorem codeUse_write {b : Bool} (hprs : prs < 8) (hi : i < mpuCodeMaxNumEntries)
    (hcpxe : m'.cpxe = setPsBit m.cpxe prs i b) :
    m'.codeView.use =
      Function.update m.codeView.use prs (Function.update (m.codeView.use prs) i b) := by
  have hlt : i < 32 := Nat.lt_trans hi (by decide)
  funext p j
  change (decide (j < mpuCodeMaxNumEntries) && getPsBit m'.cpxe p j) = _
  rw [hcpxe]
  by_cases hself : p = prs ∧ j = i
  · rw [hself.1, hself.2, Function.update_self, Function.update_self,
      getPsBit_setPsBit_self hprs hlt, decide_eq_true hi, Bool.true_and]
  · rw [getPsBit_setPsBit_of_ne hlt hself]
    by_cases hp : p = prs
    · subst hp
      rw [Function.update_self, Function.update_of_ne fun hj => hself ⟨rfl, hj⟩]
      rfl
    · rw [Function.update_of_ne hp]
      rfl

theorem codeUse_write_above {b : Bool} (hi : mpuCodeMaxNumEntries ≤ i) (hlt : i < 32)
    (hcpxe : m'.cpxe = setPsBit m.cpxe prs i b) : m'.codeView.use = m.codeView.use := by
  funext p j
  change (decide (j < mpuCodeMaxNumEntries) && getPsBit m'.cpxe p j) =
    (decide (j < mpuCodeMaxNumEntries) && getPsBit m.cpxe p j)
  by_cases hj : j < mpuCodeMaxNumEntries
  · rw [hcpxe, getPsBit_setPsBit_of_ne hlt]
    intro hboth
    omega
  · rw [decide_eq_false hj, Bool.false_and, Bool.false_and]

theorem linkEntries_views (dataMpid : Option Nat) (codeMpid : Nat) :
    (m.linkEntries dataMpid codeMpid).dataView = m.dataView ∧
      (m.linkEntries dataMpid codeMpid).codeView = m.codeView := by
  cases dataMpid with
  | none => exact ⟨rfl, rfl⟩
  | some i =>
    constructor
    · exact RangeTable.ext rfl rfl rfl (MpuTable.setLink_refCounter _)
    · exact RangeTable.ext rfl rfl rfl (MpuTable.setLink_refCounter _)

theorem codeView_congr (hcode : m'.code = m.code) (hcpxe : m'.cpxe = m.cpxe) :
    m'.codeView = m.codeView := by
  unfold codeView
  rw [hcode, hcpxe]

variable {want : Nat → BitVec 32 × BitVec 32 → Bool × Bool}
  {wantCode : Nat → BitVec 32 × BitVec 32 → Bool}

/-- **The data part of `mpu_map`** lets the protection set into an entry.  If the
entry was in use and the flags name `exec`, then the bit of `CPXE` with the number
of the entry is set too. -/
theorem mapData_spec (h : m.dataView.Serves mpuDataMaxNumEntries (Finset.range 8) (false, false) want)
    (hprs : prs < 8) (hwant : want prs mpr.bounds = (false, false))
    (hentry : (m.dataFindRegion mpr).isSome = true ∨ m.dataEntryAllocate.1.isSome = true) :
    ∃ i m', m.mapData prs mpr (m.dataFindRegion mpr) = (some i, m') ∧
      i < mpuDataMaxNumEntries ∧
      m'.dataView = m.dataView.enable i mpr.bounds prs (dataPick mpr.memFlags) ∧
      (m.data.bitmap i = true → m.data.bounds i = mpr.bounds) ∧ m'.code = m.code ∧
      (m'.cpxe = m.cpxe ∧ (m.dataFindRegion mpr = none ∨ codePick mpr.memFlags = false) ∨
        m.dataFindRegion mpr = some i ∧ codePick mpr.memFlags = true ∧
          m'.cpxe = setPsBit m.cpxe prs i true) := by
  have hmax : ∀ {i}, i < mpuDataMaxNumEntries → i < 32 := fun hi => Nat.lt_trans hi (by decide)
  cases hfind : m.dataFindRegion mpr with
  | some i =>
    obtain ⟨hi, hset, hbounds⟩ := MpuTable.findRegion_some hfind
    have hidle : m.dataView.use prs i = (false, false) := by
      by_contra huse
      have hgrant := h.granted hi huse
      rw [show m.dataView.range i = mpr.bounds from hbounds, hwant] at hgrant
      exact huse hgrant
    refine ⟨i, _, rfl, hi, RangeTable.ext ?_ ?_ ?_ ?_, fun _ => hbounds, rfl, ?_⟩
    · change m.data.bitmap = Function.update m.data.bitmap i true
      rw [← hset, Function.update_eq_self]
    · change m.data.bounds = Function.update m.data.bounds i mpr.bounds
      rw [← hbounds, Function.update_eq_self]
    · exact prsSetPerm_dataUse (m := { m with data := m.data.addUser i }) hprs (hmax hi) hidle
    · exact MpuTable.addUser_refCounter
    · cases hexec : codePick mpr.memFlags with
      | false => exact Or.inl ⟨if_neg (ne_true_of_eq_false hexec), Or.inr rfl⟩
      | true => exact Or.inr ⟨rfl, rfl, if_pos hexec⟩
  | none =>
    rw [hfind] at hentry
    obtain ⟨i, hi⟩ := Option.isSome_iff_exists.mp (hentry.resolve_left Bool.false_ne_true)
    obtain ⟨hlt, hfree, hresult⟩ := MpuTable.entryAllocate_some hi
    have halloc : m.dataEntryAllocate =
        (some i, { m with data := { m.data with
          bitmap := Function.update m.data.bitmap i true } }) := by
      unfold dataEntryAllocate
      rw [hresult]
    have hidle : m.dataView.use prs i = (false, false) := h.use_of_free hlt hfree
    have hpick : dataPick (mpr.memFlags &&& ptePermRw) = dataPick mpr.memFlags := by
      have hwrite : Nat.testBit ptePermRw 0 = true := by decide
      have hread : Nat.testBit ptePermRw 1 = true := by decide
      unfold dataPick
      rw [Nat.testBit_and, Nat.testBit_and, hwrite, hread, Bool.and_true, Bool.and_true]
    have hexec : (mpr.memFlags &&& ptePermRw).testBit 2 = false := by
      unfold ptePermRw
      rw [Nat.testBit_and]
      exact Bool.and_false _
    have hmap : m.mapData prs mpr none =
        (some i, { m.prsSetPerm prs i (mpr.memFlags &&& ptePermRw) with
          data := m.data.install i mpr mpr.memFlags }) := by
      unfold mapData
      dsimp only
      rw [halloc]
      rfl
    refine ⟨i, _, hmap, hlt, RangeTable.ext rfl ?_ ?_ ?_, fun hset => ?_, rfl,
      Or.inl ⟨?_, Or.inl rfl⟩⟩
    · exact MpuTable.install_bounds _
    · rw [← hpick]
      exact prsSetPerm_dataUse hprs (hmax hlt) hidle
    · exact MpuTable.install_refCounter _
    · rw [hfree] at hset
      cases hset
    · exact if_neg (Bool.not_eq_true _ ▸ hexec)

/-- **The code part of `mpu_map`** for a region that is not in the code table yet:
it lets the protection set into a free entry. -/
theorem mapCode_spec (mpr : MpRegion) (dataMpid : Option Nat) {c : Nat} (hprs : prs < 8)
    (hcode : m'.code = m.code)
    (hfree : m.codeEntryAllocate.1 = some c)
    (hcpxe : m'.cpxe = m.cpxe ∨ ∃ i, i < mpuDataMaxNumEntries ∧
      m'.cpxe = setPsBit m.cpxe prs i true ∧ (i < mpuCodeMaxNumEntries → i = c)) :
    c < mpuCodeMaxNumEntries ∧ m.code.bitmap c = false ∧
      (m'.mapCode prs mpr none dataMpid).codeView = m.codeView.enable c mpr.bounds prs true ∧
      (m'.mapCode prs mpr none dataMpid).dataView = m'.dataView := by
  obtain ⟨hc, hfreeBit, hresult⟩ := MpuTable.entryAllocate_some hfree
  have halloc : m'.codeEntryAllocate =
      (some c, { m' with code := { m'.code with
        bitmap := Function.update m'.code.bitmap c true } }) := by
    unfold codeEntryAllocate
    rw [hcode, hresult]
  have hmap : m'.mapCode prs mpr none dataMpid =
      { m'.prsSetPerm prs c ptePermX with
        code := m'.code.install c mpr ptePermX }.linkEntries dataMpid c := by
    unfold mapCode
    dsimp only
    rw [halloc]
    rfl
  -- the bit that the data part may have set is this one, or stands for no entry
  have huse : Function.update m'.codeView.use prs
      (Function.update (m'.codeView.use prs) c true) =
        Function.update m.codeView.use prs (Function.update (m.codeView.use prs) c true) := by
    rcases hcpxe with hsame | ⟨i, hi, hset, honly⟩
    · have hview : m'.codeView.use = m.codeView.use := by
        unfold codeView
        rw [hsame]
      rw [hview]
    · by_cases hin : i < mpuCodeMaxNumEntries
      · rw [← honly hin, codeUse_write hprs hin hset]
        simp
      · rw [codeUse_write_above (by omega) (Nat.lt_trans hi (by decide)) hset]
  obtain ⟨hdataView, hcodeView⟩ := linkEntries_views dataMpid c
    (m := { m'.prsSetPerm prs c ptePermX with code := m'.code.install c mpr ptePermX })
  rw [hmap]
  refine ⟨hc, hfreeBit, hcodeView.trans (RangeTable.ext ?_ ?_ ?_ ?_), hdataView⟩
  · exact congrArg (fun t : MpuTable => Function.update t.bitmap c true) hcode
  · change (m'.code.install c mpr ptePermX).bounds = _
    rw [hcode]
    exact MpuTable.install_bounds _
  · exact (codeUse_write hprs hc rfl).trans huse
  · change (fun j => ((m'.code.install c mpr ptePermX).node j).refCounter) = _
    rw [hcode]
    exact MpuTable.install_refCounter _

/-- The code part of `mpu_map` for a region that is in the code table: it sets no
bit, so that the data part must have set the one of this entry. -/
theorem mapCode_found (mpr : MpRegion) (dataMpid : Option Nat) {c : Nat} (hprs : prs < 8)
    (hcode : m'.code = m.code) (hfind : m.codeFindRegion mpr = some c)
    (hcpxe : m'.cpxe = setPsBit m.cpxe prs c true) :
    (m'.mapCode prs mpr (some c) dataMpid).codeView = m.codeView.enable c mpr.bounds prs true ∧
      (m'.mapCode prs mpr (some c) dataMpid).dataView = m'.dataView := by
  obtain ⟨hc, hset, hbounds⟩ := MpuTable.findRegion_some hfind
  obtain ⟨hdataView, hcodeView⟩ := linkEntries_views dataMpid c
    (m := { m' with code := m'.code.addUser c })
  refine ⟨hcodeView.trans (RangeTable.ext ?_ ?_ ?_ ?_), hdataView⟩
  · change m'.code.bitmap = Function.update m.code.bitmap c true
    rw [hcode, ← hset, Function.update_eq_self]
  · change m'.code.bounds = Function.update m.code.bounds c mpr.bounds
    rw [hcode, ← hbounds, Function.update_eq_self]
  · exact codeUse_write hprs hc hcpxe
  · change (fun j => ((m'.code.addUser c).node j).refCounter) = _
    rw [hcode]
    exact MpuTable.addUser_refCounter

theorem unmapCode_dataView {codeEntry : Option Nat} :
    (m.unmapCode prs codeEntry).dataView = m.dataView := by
  cases codeEntry with
  | none => rfl
  | some i => rfl

theorem unmapData_code {dataEntry : Option Nat} :
    (m.unmapData prs dataEntry).code = m.code ∧ (m.unmapData prs dataEntry).cpxe = m.cpxe := by
  cases dataEntry with
  | none => exact ⟨rfl, rfl⟩
  | some i => exact ⟨rfl, rfl⟩

/-- **The data part of `mpu_unmap`**: the protection set leaves the entry. -/
theorem unmapData_dataView (hprs : prs < 8) (hi : i < mpuDataMaxNumEntries) :
    (m.unmapData prs (some i)).dataView = m.dataView.disable i (0, 0) prs (false, false) := by
  refine RangeTable.ext ?_ ?_ ?_ ?_
  · exact MpuTable.dropUser_bitmap
  · exact MpuTable.dropUser_bounds
  · exact prsClrPerm_dataUse (m := { m with data := m.data.dropUser i }) hprs
      (Nat.lt_trans hi (by decide))
  · exact MpuTable.dropUser_refCounter

/-- **The code part of `mpu_unmap`.** -/
theorem unmapCode_codeView (hprs : prs < 8) (hi : i < mpuCodeMaxNumEntries) :
    (m.unmapCode prs (some i)).codeView = m.codeView.disable i (0, 0) prs false := by
  refine RangeTable.ext ?_ ?_ ?_ ?_
  · exact MpuTable.dropUser_bitmap
  · exact MpuTable.dropUser_bounds
  · exact codeUse_write hprs hi rfl
  · exact MpuTable.dropUser_refCounter

end TricoreMpu

end Bao

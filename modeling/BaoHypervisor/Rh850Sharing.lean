import BaoHypervisor.Rh850Mpu
import BaoHypervisor.StepSystem

/-!
# The hypervisor and a VM share the MPU of an RH850 CPU

Regions are registered for the hypervisor's address space or for a VM's; those of
one address space are apart, and their flags tell whose they are.  The entries hold
the registered regions as long as a search by base, or by base and size, meets an
entry of the right owner first, and the boundary is right as long as the last
entry stays.
-/

namespace Bao

/-! ## The fields of `MPCFG` -/

namespace Rh850Mpu

variable {m : Rh850Mpu} {i j : Nat}

theorem numEntries_le (m : Rh850Mpu) : m.numEntries ≤ 32 := by
  have hle : (m.mpcfg &&& mpcfgNmpueMask).toNat ≤ mpcfgNmpueMask.toNat := by
    rw [BitVec.toNat_and]
    exact Nat.and_le_right
  have hmask : mpcfgNmpueMask.toNat = 31 := rfl
  unfold numEntries
  omega

theorem numEntries_pos (m : Rh850Mpu) : 0 < m.numEntries := Nat.succ_pos _

theorem setHbe_getLsbD (hbe : BitVec 32) {k : Nat} (hk : k < 32) :
    (m.setHbe hbe).mpcfg.getLsbD k =
      (m.mpcfg.getLsbD k && !mpcfgHbeMask.getLsbD k || (!decide (k < 8) && hbe.getLsbD (k - 8))) := by
  unfold setHbe
  rw [BitVec.getLsbD_or, BitVec.getLsbD_and, BitVec.getLsbD_not, BitVec.getLsbD_shiftLeft]
  simp [hk]

@[simp] theorem setHbe_numEntries (hbe : BitVec 32) : (m.setHbe hbe).numEntries = m.numEntries := by
  have hmask : ∀ k, k < 32 → mpcfgNmpueMask.getLsbD k = true →
      k < 8 ∧ mpcfgHbeMask.getLsbD k = false := by
    decide
  have hsame : (m.setHbe hbe).mpcfg &&& mpcfgNmpueMask = m.mpcfg &&& mpcfgNmpueMask := by
    apply BitVec.eq_of_getLsbD_eq
    intro k hk
    rw [BitVec.getLsbD_and, BitVec.getLsbD_and, setHbe_getLsbD hbe hk]
    cases hbit : mpcfgNmpueMask.getLsbD k with
    | false => rw [Bool.and_false, Bool.and_false]
    | true =>
      obtain ⟨hlow, hother⟩ := hmask k hk hbit
      simp [hlow, hother]
  unfold numEntries
  rw [hsame]

theorem setHbe_hbe {n : Nat} (hn : n < 64) : (m.setHbe (BitVec.ofNat 32 n)).hbe = n := by
  have hmask : ∀ k, k < 24 → mpcfgHbeMask.getLsbD (8 + k) = decide (k < 6) := by decide
  have hhigh : ∀ k, 6 ≤ k → (BitVec.ofNat 32 n).getLsbD k = false := by
    intro k hk
    have hsmall : n < 2 ^ k := Nat.lt_of_lt_of_le hn (Nat.pow_le_pow_right (n := 2) (by decide) hk)
    rw [BitVec.getLsbD_ofNat, Nat.testBit_lt_two_pow hsmall, Bool.and_false]
  have hfield : ((m.setHbe (BitVec.ofNat 32 n)).mpcfg &&& mpcfgHbeMask) >>> 8 =
      BitVec.ofNat 32 n := by
    apply BitVec.eq_of_getLsbD_eq
    intro k hk
    rw [BitVec.getLsbD_ushiftRight, BitVec.getLsbD_and]
    by_cases hin : k < 24
    · rw [setHbe_getLsbD _ (by omega), hmask k hin, Nat.add_sub_cancel_left]
      by_cases hlow : k < 6
      · simp [hlow]
      · simp [hlow, hhigh k (by omega)]
    · rw [BitVec.getLsbD_of_ge _ _ (by omega : 32 ≤ 8 + k), hhigh k (by omega), Bool.false_and]
  unfold hbe
  rw [hfield, BitVec.toNat_ofNat]
  omega

@[simp] theorem setHbe_bitmap (hbe : BitVec 32) : (m.setHbe hbe).bitmap = m.bitmap := rfl

@[simp] theorem setHbe_entry (hbe : BitVec 32) : (m.setHbe hbe).entry = m.entry := rfl

/-- The boundary is the lowest allocated index, or the number of entries when
none is allocated. -/
def HbeOk (m : Rh850Mpu) : Prop :=
  (m.hbe < m.numEntries ∧ m.bitmap m.hbe = true ∧ ∀ j, j < m.hbe → m.bitmap j = false) ∨
    (m.hbe = m.numEntries ∧ ∀ j, j < m.numEntries → m.bitmap j = false)

theorem updateHbe_eq (m : Rh850Mpu) : ∃ hbe, m.updateHbe = m.setHbe hbe := by
  unfold updateHbe
  split
  · exact ⟨_, rfl⟩
  · exact ⟨_, rfl⟩

/-- **The boundary** is right after an update while an entry is allocated. -/
theorem updateHbe_ok (h : ∃ i, i < m.numEntries ∧ m.bitmap i = true) : m.updateHbe.HbeOk := by
  unfold updateHbe indices
  split
  · rename_i mpid hfind
    obtain ⟨hset, hmem, hbefore⟩ := List.find?_range_eq_some.mp hfind
    have hlt := List.mem_range.mp hmem
    have hle := numEntries_le m
    refine Or.inl ?_
    rw [setHbe_hbe (by omega), setHbe_numEntries]
    exact ⟨hlt, hset, fun j hj => by simpa using hbefore j hj⟩
  · rename_i hfind
    obtain ⟨i, hlt, hset⟩ := h
    have hclear := List.find?_range_eq_none.mp hfind i hlt
    rw [hset] at hclear
    cases hclear

end Rh850Mpu

/-! ## Regions of two address spaces -/

/-- A region without its section, which the entries do not keep. -/
def MpRegion.bare (mpr : MpRegion) : MpRegion := { mpr with asSec := .unknown }

/-- Two regions have no address in common. -/
def MpRegion.Apart (r r' : MpRegion) : Prop :=
  r.base + r.size ≤ r'.base ∨ r'.base + r'.size ≤ r.base

/-- A region that fits an entry, with the flags of its address space. -/
structure Rh850Region (as : AsType) (mpr : MpRegion) : Prop where
  aligned : mpr.base % 4 = 0 ∧ mpr.size % 4 = 0
  pos : 0 < mpr.size
  fits : mpr.base + mpr.size ≤ 2 ^ 32 ∧ mpr.size < 2 ^ 32 ∧ mpr.memFlags < 2 ^ 32
  side : as ≠ .hypCpy
  owner : mpuOwnedBy .hyp mpr.memFlags = decide (as = .hyp) ∧
    mpuOwnedBy .vm mpr.memFlags = decide (as = .vm)

instance Rh850Region.decidable (as : AsType) (mpr : MpRegion) :
    Decidable (Rh850Region as mpr) :=
  decidable_of_iff ((mpr.base % 4 = 0 ∧ mpr.size % 4 = 0) ∧ 0 < mpr.size ∧
    (mpr.base + mpr.size ≤ 2 ^ 32 ∧ mpr.size < 2 ^ 32 ∧ mpr.memFlags < 2 ^ 32) ∧ as ≠ .hypCpy ∧
    mpuOwnedBy .hyp mpr.memFlags = decide (as = .hyp) ∧
    mpuOwnedBy .vm mpr.memFlags = decide (as = .vm))
    ⟨fun h => ⟨h.1, h.2.1, h.2.2.1, h.2.2.2.1, h.2.2.2.2⟩,
      fun h => ⟨h.aligned, h.pos, h.fits, h.side, h.owner⟩⟩

theorem and_mplaMask {x : BitVec 32} (h : x.toNat % 4 = 0) : x &&& mplaMask = x := by
  have hmask : ∀ k, k < 32 → mplaMask.getLsbD k = decide (2 ≤ k) := by decide
  apply BitVec.eq_of_getLsbD_eq
  intro k hk
  rw [BitVec.getLsbD_and, hmask k hk]
  by_cases hlow : 2 ≤ k
  · simp [hlow]
  · have hquot : x.toNat = 2 ^ 2 * (x.toNat / 4) := by omega
    have hzero : x.getLsbD k = false := by
      unfold BitVec.getLsbD
      rw [hquot, Nat.testBit_two_pow_mul]
      simp [hlow]
    rw [hzero, Bool.false_and]

variable {as as' : AsType} {mpr r : MpRegion}

/-- **Round trip**: an entry gives back the region that was written to it. -/
theorem mpuEntryGetRegion_regs (h : Rh850Region as mpr) :
    mpuEntryGetRegion (mpuEntryRegs mpr) = mpr.bare := by
  obtain ⟨hbase4, hsize4⟩ := h.aligned
  obtain ⟨hfits, hsize, hflags⟩ := h.fits
  have hpos := h.pos
  have hb : (BitVec.ofNat 32 mpr.base).toNat = mpr.base := by
    rw [BitVec.toNat_ofNat]
    omega
  have hs : (BitVec.ofNat 32 mpr.size).toNat = mpr.size := by
    rw [BitVec.toNat_ofNat]
    omega
  have hf : (BitVec.ofNat 32 mpr.memFlags).toNat = mpr.memFlags := by
    rw [BitVec.toNat_ofNat]
    omega
  have hl : (BitVec.ofNat 32 mpr.base + BitVec.ofNat 32 mpr.size - 4).toNat =
      mpr.base + mpr.size - 4 := by
    rw [BitVec.toNat_sub, BitVec.toNat_add, hb, hs]
    change (2 ^ 32 - 4 + (mpr.base + mpr.size) % 2 ^ 32) % 2 ^ 32 = mpr.base + mpr.size - 4
    omega
  have hlim : (BitVec.ofNat 32 mpr.base + BitVec.ofNat 32 mpr.size - 4).toNat % 4 = 0 := by
    rw [hl]
    omega
  have hbase : (BitVec.ofNat 32 mpr.base).toNat % 4 = 0 := by
    rw [hb]
    exact hbase4
  have hread : (BitVec.ofNat 32 mpr.base + BitVec.ofNat 32 mpr.size - 4 -
      BitVec.ofNat 32 mpr.base + 4).toNat = mpr.size := by
    rw [BitVec.toNat_add, BitVec.toNat_sub, hl, hb]
    change ((2 ^ 32 - mpr.base + (mpr.base + mpr.size - 4)) % 2 ^ 32 + 4) % 2 ^ 32 = mpr.size
    omega
  unfold mpuEntryGetRegion mpuEntryRegs MpRegion.bare
  dsimp only
  rw [and_mplaMask hlim, and_mplaMask hbase, hread, hb, hf]

/-! ## The system -/

/-- The MPU, and the regions registered, each with its address space. -/
structure Rh850State where
  mpu : Rh850Mpu
  regs : List (AsType × MpRegion)

/-- A call for one of the two address spaces. -/
inductive Rh850Call
  | map (as : AsType) (mpr : MpRegion)
  | update (as : AsType) (mpr : MpRegion)
  | unmap (as : AsType) (mpr : MpRegion)

/-- What callers keep to: the regions of an address space are apart. -/
def Rh850Call.Promised (c : Rh850Call) (s : Rh850State) : Prop :=
  match c with
  | .map as mpr => Rh850Region as mpr ∧ ∀ x ∈ s.regs, x.1 = as → x.2.Apart mpr
  | .update as mpr =>
      Rh850Region as mpr ∧ ∀ x ∈ s.regs, x.1 = as → x.2.base ≠ mpr.base → x.2.Apart mpr
  | .unmap as _ => as ≠ .hypCpy

instance Rh850Call.decidablePromised (c : Rh850Call) (s : Rh850State) :
    Decidable (c.Promised s) := by
  unfold Rh850Call.Promised MpRegion.Apart
  rcases c with _ | _ <;> infer_instance

/-- What a call answers, and the MPU after it. -/
def Rh850Call.run (c : Rh850Call) (m : Rh850Mpu) : Bool × Rh850Mpu :=
  match c with
  | .map _ mpr => m.addRegion mpr
  | .update _ mpr => m.updateRegion mpr
  | .unmap as mpr => m.removeRegion as mpr

/-- What a call is to do with the regions registered: to add one, if it
succeeds, to change the one of the address space with the base given, or to drop
the one of the address space with the base and the size given. -/
def Rh850Call.register (c : Rh850Call) (ok : Bool) (regs : List (AsType × MpRegion)) :
    List (AsType × MpRegion) :=
  match c with
  | .map as mpr => if ok then (as, mpr.bare) :: regs else regs
  | .update as mpr =>
      regs.map fun x => if x.1 = as ∧ x.2.base = mpr.base then (as, mpr.bare) else x
  | .unmap as mpr =>
      regs.filter fun x => ¬ (x.1 = as ∧ x.2.base = mpr.base ∧ x.2.size = mpr.size)

/-- A call, on the MPU and on the regions registered. -/
def Rh850Call.next (c : Rh850Call) (s : Rh850State) : Rh850State where
  mpu := (c.run s.mpu).2
  regs := c.register (c.run s.mpu).1 s.regs

/-- After `mpu_arch_init` of an MPU without valid entries. -/
def Rh850State.Initial (s : Rh850State) : Prop :=
  s.regs = [] ∧ ∃ m : Rh850Mpu,
    (∀ i, i < m.numEntries → (m.entry i).mpat.getLsbD 7 = false) ∧ s.mpu = m.archInit

/-- The calls for the two address spaces of a CPU. -/
def rh850System : StepSystem Rh850State Rh850Call :=
  .ofNext Rh850State.Initial Rh850Call.Promised Rh850Call.next

/-- A search meets an entry of the address space given first, and an entry stays
when one is removed. -/
def Rh850Call.MeetsOwn (s : Rh850State) (c : Rh850Call) : Prop :=
  match c with
  | .map _ _ => True
  | .update as mpr =>
      ∀ i ∈ s.mpu.firstBase mpr, mpuOwnedBy as (s.mpu.region i).memFlags = true
  | .unmap as mpr =>
      ∀ i ∈ s.mpu.firstAt mpr,
        if mpuOwnedBy as (s.mpu.region i).memFlags then
          ∃ j, j < s.mpu.numEntries ∧ j ≠ i ∧ s.mpu.bitmap j = true
        else ∀ j, j < s.mpu.numEntries → s.mpu.bitmap j = true →
          (s.mpu.region j).base = mpr.base ∧ (s.mpu.region j).size = mpr.size →
          mpuOwnedBy as (s.mpu.region j).memFlags = false

instance Rh850Call.decidableMeetsOwn (s : Rh850State) (c : Rh850Call) :
    Decidable (c.MeetsOwn s) := by
  unfold Rh850Call.MeetsOwn
  rcases c with _ | _ <;> infer_instance

/-- An allocated entry with a region in it. -/
def Rh850Mpu.Has (m : Rh850Mpu) (i : Nat) (r : MpRegion) : Prop :=
  i < m.numEntries ∧ m.bitmap i = true ∧ m.region i = r

/-- **The entries hold the registered regions**, each in one entry, and nothing
else. -/
structure Rh850Mpu.Holds (m : Rh850Mpu) (regs : List (AsType × MpRegion)) : Prop where
  registered : ∀ {i r}, m.Has i r → ∃ as, (as, r) ∈ regs
  held : ∀ {as r}, (as, r) ∈ regs → ∃! i, m.Has i r

/-- The regions registered for an address space are apart and have its flags. -/
structure Registry (regs : List (AsType × MpRegion)) : Prop where
  region : ∀ x ∈ regs, Rh850Region x.1 x.2
  apart : ∀ x ∈ regs, ∀ y ∈ regs, x.1 = y.1 → x = y ∨ x.2.Apart y.2

variable {m m' : Rh850Mpu} {regs : List (AsType × MpRegion)} {i : Nat}

/-! ## What the flags and the bases tell -/

theorem Rh850Region.owned_iff (h : Rh850Region as r) (has' : as' ≠ .hypCpy) :
    mpuOwnedBy as' r.memFlags = true ↔ as' = as := by
  obtain ⟨hhyp, hvm⟩ := h.owner
  have hside := h.side
  cases as' with
  | hyp =>
    rw [hhyp, decide_eq_true_iff]
    exact eq_comm
  | vm =>
    rw [hvm, decide_eq_true_iff]
    exact eq_comm
  | hypCpy => exact absurd rfl has'

namespace Registry

theorem owner (h : Registry regs) (hr : (as, r) ∈ regs) (hr' : (as', r) ∈ regs) : as = as' :=
  ((h.region _ hr').owned_iff (h.region _ hr).side).mp
    (((h.region _ hr).owned_iff (h.region _ hr).side).mpr rfl)

theorem eq_of_base (h : Registry regs) {r' : MpRegion} (hr : (as, r) ∈ regs)
    (hr' : (as, r') ∈ regs) (hbase : r.base = r'.base) : r = r' := by
  rcases h.apart _ hr _ hr' rfl with heq | hapart
  · exact (Prod.mk.inj heq).2
  · have hpos := (h.region _ hr).pos
    have hpos' := (h.region _ hr').pos
    unfold MpRegion.Apart at hapart
    dsimp only at hpos hpos' hapart
    omega

end Registry

theorem Rh850Region.bare (h : Rh850Region as mpr) : Rh850Region as mpr.bare :=
  ⟨h.aligned, h.pos, h.fits, h.side, h.owner⟩

/-! ## What each change keeps -/

theorem Registry.not_mem (h : Registry regs) (hr : Rh850Region as mpr)
    (hapart : ∀ x ∈ regs, x.1 = as → x.2.Apart mpr) : (as', mpr.bare) ∉ regs := by
  intro hmem
  have heq : as' = as := ((hr.bare).owned_iff (h.region _ hmem).side).mp
    (((h.region _ hmem).owned_iff (h.region _ hmem).side).mpr rfl)
  have hself := hapart _ hmem heq
  have hpos := hr.pos
  unfold MpRegion.Apart MpRegion.bare at hself
  dsimp only at hself
  omega

theorem Rh850Mpu.Holds.add (h : m.Holds regs) (hreg : Registry regs) (hr : Rh850Region as mpr)
    (hapart : ∀ x ∈ regs, x.1 = as → x.2.Apart mpr) (hfree : ∀ r, ¬ m.Has i r)
    (hhas : ∀ j r, m'.Has j r ↔ j = i ∧ r = mpr.bare ∨ j ≠ i ∧ m.Has j r) :
    m'.Holds ((as, mpr.bare) :: regs) := by
  constructor
  · intro j r hj
    rcases (hhas j r).mp hj with ⟨-, hnew⟩ | ⟨-, hold⟩
    · rw [hnew]
      exact ⟨as, List.mem_cons_self⟩
    · obtain ⟨as', hmem⟩ := h.registered hold
      exact ⟨as', List.mem_cons_of_mem _ hmem⟩
  · intro as' r hmem
    rcases List.mem_cons.mp hmem with heq | hmem
    · obtain ⟨-, hnew⟩ := Prod.mk.inj heq
      rw [hnew]
      refine ⟨i, (hhas i _).mpr (Or.inl ⟨rfl, rfl⟩), fun j hj => ?_⟩
      rcases (hhas j _).mp hj with ⟨hji, -⟩ | ⟨-, hold⟩
      · exact hji
      · obtain ⟨as', hmem⟩ := h.registered hold
        exact absurd hmem (hreg.not_mem hr hapart)
    · obtain ⟨j, hj, honly⟩ := h.held hmem
      have hne : j ≠ i := fun heq => hfree r (heq ▸ hj)
      refine ⟨j, (hhas j r).mpr (Or.inr ⟨hne, hj⟩), fun k hk => ?_⟩
      rcases (hhas k r).mp hk with ⟨-, hnew⟩ | ⟨-, hold⟩
      · rw [hnew] at hmem
        exact absurd hmem (hreg.not_mem hr hapart)
      · exact honly k hold

theorem Registry.add (h : Registry regs) (hr : Rh850Region as mpr)
    (hapart : ∀ x ∈ regs, x.1 = as → x.2.Apart mpr) : Registry ((as, mpr.bare) :: regs) := by
  constructor
  · intro x hx
    rcases List.mem_cons.mp hx with heq | hx
    · rw [heq]
      exact hr.bare
    · exact h.region x hx
  · intro x hx y hy hsame
    rcases List.mem_cons.mp hx with hxeq | hx
    · rcases List.mem_cons.mp hy with hyeq | hy
      · exact Or.inl (hxeq.trans hyeq.symm)
      · have haway := hapart y hy (by rw [← hsame, hxeq])
        rw [hxeq]
        exact Or.inr haway.symm
    · rcases List.mem_cons.mp hy with hyeq | hy
      · rw [hyeq] at hsame ⊢
        exact Or.inr (hapart x hx hsame)
      · exact h.apart x hx y hy hsame

theorem Rh850Mpu.Holds.drop (h : m.Holds regs) (hreg : Registry regs) {old : MpRegion}
    (hold : (as, old) ∈ regs) (hi : m.Has i old)
    (hhas : ∀ j r, m'.Has j r ↔ j ≠ i ∧ m.Has j r) :
    m'.Holds (Rh850Call.register (.unmap as old) true regs) := by
  have hkept : ∀ {as' r}, (as', r) ∈ Rh850Call.register (.unmap as old) true regs ↔
      (as', r) ∈ regs ∧ r ≠ old := by
    intro as' r
    unfold Rh850Call.register
    rw [List.mem_filter, decide_eq_true_iff]
    refine and_congr_right fun hmem => not_congr ⟨fun ⟨hside, hbase, _⟩ => ?_, fun heq => ?_⟩
    · have hside : as' = as := hside
      rw [hside] at hmem
      exact hreg.eq_of_base hmem hold hbase
    · rw [heq] at hmem ⊢
      exact ⟨hreg.owner hmem hold, rfl, rfl⟩
  constructor
  · intro j r hj
    obtain ⟨hne, hj⟩ := (hhas j r).mp hj
    obtain ⟨as', hmem⟩ := h.registered hj
    refine ⟨as', hkept.mpr ⟨hmem, fun heq => hne ?_⟩⟩
    obtain ⟨k, -, honly⟩ := h.held hold
    rw [honly j (heq ▸ hj), honly i hi]
  · intro as' r hmem
    obtain ⟨hmem, hother⟩ := hkept.mp hmem
    obtain ⟨j, hj, honly⟩ := h.held hmem
    have hne : j ≠ i := by
      intro heq
      rw [heq] at hj
      exact hother (hj.2.2.symm.trans hi.2.2)
    exact ⟨j, (hhas j r).mpr ⟨hne, hj⟩, fun k hk => honly k ((hhas k r).mp hk).2⟩

theorem Registry.filter (h : Registry regs) (p : AsType × MpRegion → Bool) :
    Registry (regs.filter p) :=
  ⟨fun x hx => h.region x (List.mem_filter.mp hx).1, fun x hx y hy =>
    h.apart x (List.mem_filter.mp hx).1 y (List.mem_filter.mp hy).1⟩

theorem mem_update {x : AsType × MpRegion} :
    x ∈ Rh850Call.register (.update as mpr) true regs ↔
      (x = (as, mpr.bare) ∧ ∃ old, (as, old) ∈ regs ∧ old.base = mpr.base) ∨
        (x ∈ regs ∧ ¬ (x.1 = as ∧ x.2.base = mpr.base)) := by
  unfold Rh850Call.register
  rw [List.mem_map]
  constructor
  · rintro ⟨y, hy, heq⟩
    split at heq
    · rename_i hat
      obtain ⟨side, old⟩ := y
      obtain ⟨hside, hbase⟩ := hat
      dsimp only at hside hbase
      rw [hside] at hy
      exact Or.inl ⟨heq.symm, old, hy, hbase⟩
    · rename_i hnot
      rw [heq] at hy hnot
      exact Or.inr ⟨hy, hnot⟩
  · rintro (⟨heq, old, hold, hbase⟩ | ⟨hx, hnot⟩)
    · exact ⟨(as, old), hold, by rw [if_pos ⟨rfl, hbase⟩, heq]⟩
    · exact ⟨x, hx, if_neg hnot⟩

theorem Rh850Mpu.Holds.set (h : m.Holds regs) (hreg : Registry regs) (hr : Rh850Region as mpr)
    {old : MpRegion} (hold : (as, old) ∈ regs) (hbase : old.base = mpr.base) (hi : m.Has i old)
    (hhas : ∀ j r, m'.Has j r ↔ j = i ∧ r = mpr.bare ∨ j ≠ i ∧ m.Has j r) :
    m'.Holds (Rh850Call.register (.update as mpr) true regs) := by
  have honlyOld : ∀ {j}, m.Has j old → j = i := by
    intro j hj
    obtain ⟨k, -, honly⟩ := h.held hold
    rw [honly j hj, honly i hi]
  -- whatever is registered under the base is the region that is rewritten
  have hsame : ∀ {as' r}, (as', r) ∈ regs → as' = as ∧ r.base = mpr.base → r = old := by
    intro as' r hmem ⟨hside, hb⟩
    rw [hside] at hmem
    exact hreg.eq_of_base hmem hold (hb.trans hbase.symm)
  have hnotNew : ∀ {as' j}, j ≠ i → m.Has j mpr.bare → (as', mpr.bare) ∈ regs → False := by
    intro as' j hne hj hmem
    have hside : as' = as := ((hr.bare).owned_iff (hreg.region _ hmem).side).mp
      (((hreg.region _ hmem).owned_iff (hreg.region _ hmem).side).mpr rfl)
    have heq := hsame hmem ⟨hside, rfl⟩
    rw [heq] at hj
    exact hne (honlyOld hj)
  constructor
  · intro j r hj
    rcases (hhas j r).mp hj with ⟨-, hnew⟩ | ⟨hne, hj⟩
    · exact ⟨as, mem_update.mpr (Or.inl ⟨by rw [hnew], old, hold, hbase⟩)⟩
    · obtain ⟨as', hmem⟩ := h.registered hj
      refine ⟨as', mem_update.mpr (Or.inr ⟨hmem, fun hat => hne ?_⟩)⟩
      rw [hsame hmem hat] at hj
      exact honlyOld hj
  · intro as' r hmem
    rcases mem_update.mp hmem with ⟨heq, -⟩ | ⟨hmem, hnot⟩
    · obtain ⟨-, hnew⟩ := Prod.mk.inj heq
      rw [hnew]
      refine ⟨i, (hhas i _).mpr (Or.inl ⟨rfl, rfl⟩), fun j hj => ?_⟩
      rcases (hhas j _).mp hj with ⟨hji, -⟩ | ⟨hne, hj⟩
      · exact hji
      · obtain ⟨as'', hmem⟩ := h.registered hj
        exact absurd hmem (hnotNew hne hj)
    · obtain ⟨j, hj, honly⟩ := h.held hmem
      have hne : j ≠ i := by
        intro heq
        rw [heq] at hj
        have hrold : r = old := hj.2.2.symm.trans hi.2.2
        rw [hrold] at hmem
        exact hnot ⟨hreg.owner (hrold ▸ hmem) hold, by rw [hrold]; exact hbase⟩
      refine ⟨j, (hhas j r).mpr (Or.inr ⟨hne, hj⟩), fun k hk => ?_⟩
      rcases (hhas k r).mp hk with ⟨-, hnew⟩ | ⟨-, hk⟩
      · rw [hnew] at hmem hj
        exact absurd hmem (hnotNew hne hj)
      · exact honly k hk

theorem Registry.set (h : Registry regs) (hr : Rh850Region as mpr)
    (hapart : ∀ x ∈ regs, x.1 = as → x.2.base ≠ mpr.base → x.2.Apart mpr) :
    Registry (Rh850Call.register (.update as mpr) true regs) := by
  constructor
  · intro x hx
    rcases mem_update.mp hx with ⟨heq, -⟩ | ⟨hx, -⟩
    · rw [heq]
      exact hr.bare
    · exact h.region x hx
  · intro x hx y hy hsame
    rcases mem_update.mp hx with ⟨hxeq, -⟩ | ⟨hx, hxnot⟩
    · rcases mem_update.mp hy with ⟨hyeq, -⟩ | ⟨hy, hynot⟩
      · exact Or.inl (hxeq.trans hyeq.symm)
      · rw [hxeq] at hsame ⊢
        have haway := hapart y hy hsame.symm fun hb => hynot ⟨hsame.symm, hb⟩
        exact Or.inr haway.symm
    · rcases mem_update.mp hy with ⟨hyeq, -⟩ | ⟨hy, -⟩
      · rw [hyeq] at hsame ⊢
        exact Or.inr (hapart x hx hsame fun hb => hxnot ⟨hsame, hb⟩)
      · exact h.apart x hx y hy hsame

/-! ## The calls -/

namespace Rh850Mpu

variable {mem : MpRegion}

@[simp] theorem updateHbe_has {j : Nat} : m.updateHbe.Has j r ↔ m.Has j r := by
  obtain ⟨hbe, heq⟩ := updateHbe_eq m
  unfold Has region
  rw [heq, setHbe_numEntries, setHbe_bitmap, setHbe_entry]

theorem entrySet_has (hi : i < m.numEntries) (hr : Rh850Region as mpr) {j : Nat} :
    ({ m with bitmap := Function.update m.bitmap i true }.entrySet i mpr).Has j r ↔
      j = i ∧ r = mpr.bare ∨ j ≠ i ∧ m.Has j r := by
  unfold Has region entrySet
  dsimp only [numEntries]
  by_cases hji : j = i
  · rw [hji, Function.update_self, Function.update_self, mpuEntryGetRegion_regs hr]
    have hlt : i < (m.mpcfg &&& mpcfgNmpueMask).toNat + 1 := hi
    simp only [hlt, true_and, ne_eq, not_true_eq_false, false_and, or_false]
    exact eq_comm
  · rw [Function.update_of_ne hji, Function.update_of_ne hji]
    simp only [hji, false_and, ne_eq, not_false_eq_true, true_and, false_or]

theorem entryFree_has {j : Nat} : (m.entryFree i).Has j r ↔ j ≠ i ∧ m.Has j r := by
  unfold Has region entryFree entryClear
  dsimp only [numEntries]
  by_cases hji : j = i
  · rw [hji, Function.update_self]
    simp
  · rw [Function.update_of_ne hji, Function.update_of_ne hji]
    simp only [hji, ne_eq, not_false_eq_true, true_and]

theorem entryAllocateHyp_cases (m : Rh850Mpu) :
    (∃ i, m.entryAllocateHyp = (some i, { m with bitmap := Function.update m.bitmap i true }) ∧
      i < m.numEntries ∧ m.bitmap i = false) ∨
    (m.entryAllocateHyp = (none, m) ∧ ∀ i, i < m.numEntries → m.bitmap i = true) := by
  unfold entryAllocateHyp
  split
  · rename_i i hfind
    have hfree := List.find?_some hfind
    have hmem := List.mem_reverse.mp (List.mem_of_find?_eq_some hfind)
    exact Or.inl ⟨i, rfl, List.mem_range.mp hmem, by simpa using hfree⟩
  · rename_i hfind
    refine Or.inr ⟨rfl, fun i hi => ?_⟩
    have hused := List.find?_eq_none.mp hfind i
      (List.mem_reverse.mpr (List.mem_range.mpr hi))
    simpa using hused

theorem firstAt_some (h : m.firstAt mem = some i) :
    m.Has i (m.region i) ∧ (m.region i).base = mem.base ∧ (m.region i).size = mem.size := by
  unfold firstAt indices at h
  have hfits := List.find?_some h
  have hmem := List.mem_range.mp (List.mem_of_find?_eq_some h)
  obtain ⟨hset, hat⟩ := Bool.and_eq_true_iff.mp hfits
  exact ⟨⟨hmem, hset, rfl⟩, of_decide_eq_true hat⟩

theorem firstAt_none (h : m.firstAt mem = none) {j : Nat} (hj : m.Has j r) :
    ¬ (r.base = mem.base ∧ r.size = mem.size) := by
  unfold firstAt indices at h
  have hnot := List.find?_eq_none.mp h j (List.mem_range.mpr hj.1)
  intro hat
  rw [← hj.2.2] at hat
  exact hnot (Bool.and_eq_true_iff.mpr ⟨hj.2.1, decide_eq_true hat⟩)

theorem firstBase_some (h : m.firstBase mem = some i) :
    m.Has i (m.region i) ∧ (m.region i).base = mem.base := by
  unfold firstBase indices at h
  have hfits := List.find?_some h
  have hmem := List.mem_range.mp (List.mem_of_find?_eq_some h)
  obtain ⟨hset, hat⟩ := Bool.and_eq_true_iff.mp hfits
  exact ⟨⟨hmem, hset, rfl⟩, of_decide_eq_true hat⟩

theorem firstBase_none (h : m.firstBase mem = none) {j : Nat} (hj : m.Has j r) :
    r.base ≠ mem.base := by
  unfold firstBase indices at h
  have hnot := List.find?_eq_none.mp h j (List.mem_range.mpr hj.1)
  intro hat
  rw [← hj.2.2] at hat
  exact hnot (Bool.and_eq_true_iff.mpr ⟨hj.2.1, decide_eq_true hat⟩)

end Rh850Mpu

/-- The regions of each address space are apart, the entries hold them, and the
boundary is right. -/
structure Rh850State.Sharing (s : Rh850State) : Prop where
  registry : Registry s.regs
  holds : s.mpu.Holds s.regs
  hbe : s.mpu.HbeOk

namespace Rh850State.Sharing

variable {s : Rh850State}

theorem initial (h : s.Initial) : s.Sharing := by
  obtain ⟨hregs, m, hvalid, hm⟩ := h
  have hnum : s.mpu.numEntries = m.numEntries := by
    rw [hm]
    exact Rh850Mpu.setHbe_numEntries _
  have hfree : ∀ i, i < s.mpu.numEntries → s.mpu.bitmap i = false := by
    intro i hi
    rw [hnum] at hi
    rw [hm]
    change (if i < m.numEntries then (m.entry i).mpat.getLsbD 7 else m.bitmap i) = false
    rw [if_pos hi]
    exact hvalid i hi
  refine ⟨?_, ⟨?_, ?_⟩, Or.inr ⟨?_, hfree⟩⟩
  · rw [hregs]
    exact ⟨fun _ hx => absurd hx List.not_mem_nil, fun _ hx => absurd hx List.not_mem_nil⟩
  · intro i r hi
    have hset := hi.2.1
    rw [hfree i hi.1] at hset
    cases hset
  · intro as r hmem
    rw [hregs] at hmem
    cases hmem
  · have hle := Rh850Mpu.numEntries_le m
    rw [hnum, hm]
    exact Rh850Mpu.setHbe_hbe (by omega)

/-- `mpu_map`. -/
theorem map (h : s.Sharing) (hpromised : (Rh850Call.map as mpr).Promised s) :
    ((Rh850Call.map as mpr).next s).Sharing := by
  obtain ⟨hr, hapart⟩ := hpromised
  unfold Rh850Call.next Rh850Call.run Rh850Mpu.addRegion
  dsimp only
  rw [if_pos hr.pos]
  rcases s.mpu.entryAllocateHyp_cases with ⟨i, heq, hi, hfree⟩ | ⟨heq, hfull⟩
  · rw [heq]
    have hfreeHas : ∀ r, ¬ s.mpu.Has i r := by
      intro r hhas
      have hset := hhas.2.1
      rw [hfree] at hset
      cases hset
    refine ⟨h.registry.add hr hapart, h.holds.add h.registry hr hapart hfreeHas fun j r => ?_, ?_⟩
    · rw [Rh850Mpu.updateHbe_has]
      exact Rh850Mpu.entrySet_has hi hr
    · exact Rh850Mpu.updateHbe_ok ⟨i, hi, Function.update_self ..⟩
  · rw [heq]
    refine ⟨h.registry, ⟨fun hhas => ?_, fun hmem => ?_⟩, ?_⟩
    · exact h.holds.registered (Rh850Mpu.updateHbe_has.mp hhas)
    · simpa only [Rh850Mpu.updateHbe_has] using h.holds.held hmem
    · exact Rh850Mpu.updateHbe_ok ⟨0, Rh850Mpu.numEntries_pos _, hfull 0 (Rh850Mpu.numEntries_pos _)⟩

theorem owned (h : s.Sharing) {i : Nat} (hhas : s.mpu.Has i r) (has : as ≠ .hypCpy) :
    mpuOwnedBy as r.memFlags = true ↔ (as, r) ∈ s.regs := by
  obtain ⟨as', hmem⟩ := h.holds.registered hhas
  rw [(h.registry.region _ hmem).owned_iff has]
  constructor
  · intro heq
    rw [heq]
    exact hmem
  · exact fun hmem' => h.registry.owner hmem' hmem

/-- `mpu_update`. -/
theorem update (h : s.Sharing) (hpromised : (Rh850Call.update as mpr).Promised s)
    (hown : (Rh850Call.update as mpr).MeetsOwn s) :
    ((Rh850Call.update as mpr).next s).Sharing := by
  obtain ⟨hr, hapart⟩ := hpromised
  unfold Rh850Call.next Rh850Call.run Rh850Mpu.updateRegion
  dsimp only
  split
  · rename_i i hfind
    obtain ⟨hhas, hbase⟩ := Rh850Mpu.firstBase_some hfind
    have hold := (h.owned hhas hr.side).mp (hown i hfind)
    refine ⟨h.registry.set hr hapart, h.holds.set h.registry hr hold hbase hhas fun j r => ?_, ?_⟩
    · have hset : { s.mpu with bitmap := Function.update s.mpu.bitmap i true } = s.mpu := by
        rw [← hhas.2.1, Function.update_eq_self]
      rw [Rh850Mpu.updateHbe_has]
      have hentry := Rh850Mpu.entrySet_has (r := r) (j := j) hhas.1 hr
      rw [hset] at hentry
      exact hentry
    · exact Rh850Mpu.updateHbe_ok ⟨i, hhas.1, hhas.2.1⟩
  · rename_i hfind
    have hsame : Rh850Call.register (.update as mpr) false s.regs = s.regs := by
      unfold Rh850Call.register
      refine (List.map_congr_left fun x hx => ?_).trans (List.map_id _)
      obtain ⟨i, hhas, -⟩ := h.holds.held hx
      exact if_neg fun hat => Rh850Mpu.firstBase_none hfind hhas hat.2
    dsimp only
    rw [hsame]
    exact h

/-- `mpu_unmap`. -/
theorem unmap (h : s.Sharing) (hpromised : (Rh850Call.unmap as mpr).Promised s)
    (hown : (Rh850Call.unmap as mpr).MeetsOwn s) :
    ((Rh850Call.unmap as mpr).next s).Sharing := by
  have hside : as ≠ .hypCpy := hpromised
  -- nothing of the address space has the base and the size: nothing is to be dropped
  have hnothing : (∀ r, (as, r) ∈ s.regs → ¬ (r.base = mpr.base ∧ r.size = mpr.size)) →
      Rh850Call.register (.unmap as mpr) false s.regs = s.regs := by
    intro hnone
    unfold Rh850Call.register
    refine List.filter_eq_self.mpr fun x hx => decide_eq_true fun hat => ?_
    obtain ⟨side, r⟩ := x
    obtain ⟨heq, hbase, hsize⟩ := hat
    dsimp only at heq hbase hsize
    rw [heq] at hx
    exact hnone r hx ⟨hbase, hsize⟩
  unfold Rh850Call.next Rh850Call.run Rh850Mpu.removeRegion
  dsimp only
  by_cases hpos : 0 < mpr.size
  · rw [if_pos hpos]
    unfold Rh850Mpu.entryGetRegionId
    cases hfind : s.mpu.firstAt mpr with
    | none =>
      dsimp only
      rw [hnothing fun r hmem hat => ?_]
      · exact h
      · obtain ⟨i, hhas, -⟩ := h.holds.held hmem
        exact Rh850Mpu.firstAt_none hfind hhas hat
    | some i =>
      obtain ⟨hhas, hbase, hsize⟩ := Rh850Mpu.firstAt_some hfind
      have hmeets := hown i hfind
      dsimp only
      split at hmeets
      · rename_i howner
        obtain ⟨j, hj, hne, hset⟩ := hmeets
        rw [if_pos howner]
        dsimp only
        have hmem := (h.owned hhas hside).mp howner
        have hdrop : Rh850Call.register (.unmap as mpr) true s.regs =
            Rh850Call.register (.unmap as (s.mpu.region i)) true s.regs := by
          dsimp only [Rh850Call.register]
          rw [hbase, hsize]
        rw [hdrop]
        refine ⟨h.registry.filter _, h.holds.drop h.registry hmem hhas fun k r => ?_, ?_⟩
        · rw [Rh850Mpu.updateHbe_has]
          exact Rh850Mpu.entryFree_has
        · refine Rh850Mpu.updateHbe_ok ⟨j, hj, ?_⟩
          change Function.update s.mpu.bitmap i false j = true
          rw [Function.update_of_ne hne]
          exact hset
      · rename_i hnot
        rw [if_neg hnot]
        dsimp only
        rw [hnothing fun r hmem hat => ?_]
        · exact h
        · obtain ⟨k, hk, -⟩ := h.holds.held hmem
          have hother := hmeets k hk.1 hk.2.1 (by rw [hk.2.2]; exact hat)
          rw [hk.2.2, (h.owned hk hside).mpr hmem] at hother
          cases hother
  · rw [if_neg hpos]
    dsimp only
    rw [hnothing fun r hmem hat => ?_]
    · exact h
    · have hsize := (h.registry.region _ hmem).pos
      dsimp only at hsize
      omega

end Rh850State.Sharing

/-- An MPU of four entries, none of them valid. -/
def fourEntries : Rh850Mpu where
  bitmap := fun _ => false
  entry := fun _ => ⟨0, 0, 0⟩
  mpcfg := 3

/-- The state of a CPU with four entries after `mpu_arch_init`. -/
def fourEntriesBoot : Rh850State := ⟨fourEntries.archInit, []⟩

theorem fourEntriesBoot_initial : fourEntriesBoot.Initial := by
  refine ⟨rfl, fourEntries, ?_, rfl⟩
  decide

/-- A page at 0x10000 with `PTE_HYP_FLAGS`. -/
def hypPage : MpRegion := ⟨0x10000, 64, 0x8080009B, .hypPrivate⟩

/-- The same page with `PTE_VM_FLAGS`. -/
def vmPage : MpRegion := ⟨0x10000, 64, 0x404000BF, .hypGlobal⟩

/-- Both spaces map the page, and the VM's mapping grows and goes. -/
def shareRun : List Rh850Call :=
  [.map .hyp hypPage, .map .vm vmPage, .update .vm { vmPage with size := 128 },
    .unmap .vm { vmPage with size := 128 }]

/-- Both spaces map the page, and the hypervisor unmaps it. -/
def ownerRun : List Rh850Call := [.map .hyp hypPage, .map .vm vmPage, .unmap .hyp hypPage]

/-- The hypervisor maps the page and unmaps it. -/
def lastRun : List Rh850Call := [.map .hyp hypPage, .unmap .hyp hypPage]

end Bao

import BaoHypervisor.PageTable
import BaoHypervisor.RecursiveMap
import BaoHypervisor.Bits64

/-!
# The page tables of Arm

`page_table.c` of Armv8-A.  The tables are words of physical memory, and the
hypervisor gets at them only through addresses its own MMU translates:
`pt_set_recursive` hangs the root of a table into the root of the CPU's, and
`pt_get_pte` computes the address at which an entry is seen through it.
`uintptr_t`, `vaddr_t` and `size_t` have `n` bits.
-/

namespace Bao

open RadixTable TableMemory RecursiveMap

/-- Tables of 512 entries of 8 bytes. -/
def armFormat : Format := ⟨9, 3⟩

/-- `PTE_ADDR_MSK`. -/
def pteAddrMsk : BitVec 64 := ((1#64 <<< (47 + 1)) - 1#64) &&& ~~~((1#64 <<< 12) - 1#64)

/-- `PTE_RSW_MSK`. -/
def pteRswMsk : BitVec 64 := ((1#64 <<< (55 + 4)) - 1#64) - ((1#64 <<< 55) - 1#64)

/-- `PTE_TYPE_MSK`. -/
abbrev pteTypeMsk : BitVec 64 := 0x3#64

/-- `PTE_RSW_RSRV`. -/
def pteRswRsrv : BitVec 64 := 0x3#64 <<< 55

/-- `PTE_TABLE` and `PTE_PAGE`. -/
abbrev pteTableType : BitVec 64 := 0x3#64

/-- `PTE_HYP_FLAGS`. -/
def pteHypFlags : BitVec 64 := (1#64 <<< 2) ||| (1#64 <<< 6) ||| (3#64 <<< 8) ||| (1#64 <<< 10)

/-- `pte_set`. -/
def armPteSet (addr type flags : BitVec 64) : BitVec 64 :=
  (addr &&& pteAddrMsk) ||| ((type ||| flags) &&& ~~~pteAddrMsk)

/-- `pte_check_rsw`. -/
def armPteCheckRsw (pte flag : BitVec 64) : Bool := pte &&& pteRswMsk == flag &&& pteRswMsk

/-- `pte_valid`. -/
def armPteValid (pte : BitVec 64) : Bool := pte &&& 1#64 != 0#64

/-- `pte_addr`. -/
def armPteAddr (pte : BitVec 64) : BitVec 64 := pte &&& pteAddrMsk

/-- What an entry is, with the bits beside the address as its flags. -/
def armSlot (pte : BitVec 64) : Slot (BitVec 64) :=
  if armPteValid pte then
    if pte &&& pteTypeMsk == pteTableType then
      .next ((armPteAddr pte).toNat / 2 ^ 12) (pte &&& ~~~pteAddrMsk)
    else .block (armPteAddr pte).toNat (pte &&& ~~~pteAddrMsk)
  else .hole (armPteCheckRsw pte pteRswRsrv)

/-- `struct page_table` with its `struct page_table_arch`; the root is a virtual
address. -/
structure ArmPageTable (n : Nat) where
  root : BitVec n
  dscr : Shape
  recMask : BitVec 64
  recInd : BitVec n

variable {n : Nat}

/-- The mask `pt_set_recursive` computes. -/
def recMaskOf (dscr : Shape) (cpuRecInd : BitVec n) : BitVec 64 :=
  (List.range dscr.lvls).foldl (fun mask i => mask ||| (cpuRecInd <<< dscr.off i).setWidth 64) 0#64

/-- `pt_get_pte`: the address of the entry. -/
def armPtGetPte (cpuPt pt : ArmPageTable n) (lvl : Nat) (va : BitVec n) : BitVec n :=
  let recIndOff := cpuPt.dscr.off (cpuPt.dscr.lvls - lvl - 1)
  let recIndLen := cpuPt.dscr.wdt (cpuPt.dscr.lvls - lvl - 1)
  let recIndMask := (bit64Mask recIndOff (recIndLen - recIndOff)).setWidth n
  let addr := (cpuPt.recMask &&& ~~~bit64Mask 0 recIndLen).setWidth n
  let addr := addr ||| ((pt.recInd <<< recIndOff) &&& recIndMask)
  addr ||| ((((va >>> pt.dscr.off lvl) * 8#n).setWidth 64) &&& bit64Mask 0 recIndOff).setWidth n

/-! ## Bits -/

/-- The bits of the mask: the index at every level. -/
theorem getLsbD_recMaskOf {dscr : Shape} {recInd : BitVec n} {j : Nat} (hj : j < 64) :
    (recMaskOf dscr recInd).getLsbD j = true ↔
      ∃ i, i < dscr.lvls ∧ dscr.off i ≤ j ∧ j < n ∧ recInd.getLsbD (j - dscr.off i) = true := by
  unfold recMaskOf
  induction dscr.lvls with
  | zero => simp
  | succ lvls ih =>
      rw [List.range_succ, List.foldl_append, List.foldl_cons, List.foldl_nil, BitVec.getLsbD_or,
        Bool.or_eq_true, ih, BitVec.getLsbD_setWidth, BitVec.getLsbD_shiftLeft]
      constructor
      · rintro (⟨i, hi, hrest⟩ | hlast)
        · exact ⟨i, by omega, hrest⟩
        · simp only [Bool.and_eq_true, decide_eq_true_eq, Bool.not_eq_true',
            decide_eq_false_iff_not] at hlast
          exact ⟨lvls, by omega, by omega, hlast.2.1.1, hlast.2.2⟩
      · rintro ⟨i, hi, hoff, hn, hbit⟩
        rcases Nat.lt_or_ge i lvls with hlt | hge
        · exact .inl ⟨i, hlt, hoff, hn, hbit⟩
        · have heq : i = lvls := by omega
          subst heq
          right
          simp [hj, hn, hoff, hbit]

/-- The bits of the address: the mask above the level that is entered, the index of
the table in it, and below it the address's, scaled to the size of an entry. -/
theorem getLsbD_armPtGetPte {cpuPt pt : ArmPageTable n} {lvl off len j : Nat} {va : BitVec n}
    (hoff : cpuPt.dscr.off (cpuPt.dscr.lvls - lvl - 1) = off)
    (hlen : cpuPt.dscr.wdt (cpuPt.dscr.lvls - lvl - 1) = len)
    (hpos : 0 < off) (hlt : off < len) (hfit : len ≤ n) (hn : n ≤ 64) (hj : j < n) :
    (armPtGetPte cpuPt pt lvl va).getLsbD j =
      if len ≤ j then cpuPt.recMask.getLsbD j
      else if off ≤ j then pt.recInd.getLsbD (j - off)
      else !decide (j < 3) && va.getLsbD (pt.dscr.off lvl + (j - 3)) := by
  have height : (va >>> pt.dscr.off lvl) * 8#n = (va >>> pt.dscr.off lvl) <<< 3 := by
    have hbytes : 8#n = BitVec.twoPow n 3 := by
      apply BitVec.eq_of_toNat_eq
      rw [BitVec.toNat_ofNat, BitVec.toNat_twoPow]
    rw [hbytes, BitVec.mul_twoPow_eq_shiftLeft]
  have hj64 : j < 64 := by omega
  unfold armPtGetPte
  dsimp only
  rw [hoff, hlen, height, BitVec.getLsbD_or, BitVec.getLsbD_or, BitVec.getLsbD_and,
    BitVec.getLsbD_shiftLeft, BitVec.getLsbD_setWidth, BitVec.getLsbD_setWidth,
    BitVec.getLsbD_setWidth, BitVec.getLsbD_and, BitVec.getLsbD_and, BitVec.getLsbD_not,
    BitVec.getLsbD_setWidth, BitVec.getLsbD_shiftLeft, BitVec.getLsbD_ushiftRight,
    getLsbD_bit64Mask (by omega) (by omega), getLsbD_bit64Mask (by omega) (by omega),
    getLsbD_bit64Mask (by omega) (by omega)]
  by_cases hhigh : len ≤ j
  · have h1 : ¬ j < len := by omega
    have h2 : ¬ j < off := by omega
    have h3 : ¬ j < off + (len - off) := by omega
    simp [hj, hj64, hhigh, h1, h2, h3]
  · by_cases hmid : off ≤ j
    · have h1 : j < len := by omega
      have h2 : ¬ j < off := by omega
      have h3 : j < off + (len - off) := by omega
      simp [hj, hj64, hhigh, hmid, h1, h2, h3]
    · have h1 : j < len := by omega
      have h2 : j < off := by omega
      simp [hj, hj64, hhigh, hmid, h1, h2]

/-! ## The descriptors -/

/-- A `struct page_table_dscr` with its arrays. -/
structure PageTableDscr where
  lvls : Nat
  lvlWdt : List Nat
  lvlOff : List Nat
  deriving DecidableEq

/-- `armv8_pt_dscr`, and `armv8_pt_s2_dscr` before it is patched. -/
def armv8PtDscr : PageTableDscr := ⟨4, [48, 39, 30, 21], [39, 30, 21, 12]⟩

/-- `parange_table`. -/
def parangeTable : List Nat := [32, 36, 40, 42, 44, 48]

/-- What `vmm_arch_init_tcr` makes of `vm_pt_dscr` for an address range of `bits` bits: below
44 the root is left out and the level below it becomes the root. -/
def vmmArchInitTcr (bits : Nat) (dscr : PageTableDscr) : PageTableDscr :=
  if bits < 44 then
    { lvls := dscr.lvls - 1
      lvlWdt := bits :: dscr.lvlWdt.drop 2
      lvlOff := dscr.lvlOff.drop 1 }
  else dscr

/-- The levels of `lvls` levels below an input of `wdt` bits. -/
def armShape (lvls wdt : Nat) (hpos : 0 < lvls) (hwdt : 12 + 9 * (lvls - 1) < wdt) : Shape where
  lvls := lvls
  off l := 12 + 9 * (lvls - 1 - l)
  wdt l := if l = 0 then wdt else 12 + 9 * (lvls - l)
  lvls_pos := hpos
  wdt_succ l hl := by
    rw [if_neg (Nat.succ_ne_zero l), Nat.add_comm l, Nat.sub_sub]
  off_lt_wdt l hl := by
    cases l with
    | zero => simpa using hwdt
    | succ l =>
        rw [if_neg (Nat.succ_ne_zero l)]
        omega

/-- The levels as a descriptor. -/
def dscrOf (S : Shape) : PageTableDscr :=
  ⟨S.lvls, (List.range S.lvls).map S.wdt, (List.range S.lvls).map S.off⟩

/-- **The VMs' descriptors**: three levels below an input of less than 44 bits. -/
theorem dscrOf_armShape {bits : Nat} (hpos : 0 < 3) (hbits : 12 + 9 * (3 - 1) < bits)
    (hlt : bits < 44) :
    dscrOf (armShape 3 bits hpos hbits) = vmmArchInitTcr bits armv8PtDscr := by
  rw [vmmArchInitTcr, if_pos hlt]
  rfl

/-! ## The window -/

/-- The levels of a table: 12 bits of page and 9 for every level below the root. -/
def ArmLevels (S : Shape) : Prop := ∀ l, l < S.lvls → S.off l = 12 + 9 * (S.lvls - 1 - l)

/-- **The CPU's own table** as `pt_set_recursive` leaves it. -/
structure ArmCpuTable (cpuPt : ArmPageTable n) : Prop where
  levels : ArmLevels cpuPt.dscr
  root_le : cpuPt.dscr.wdt 0 ≤ cpuPt.dscr.off 0 + 9
  wdt_le : cpuPt.dscr.wdt 0 ≤ n
  word_le : n ≤ 64
  recInd_lt : cpuPt.recInd.toNat < cpuPt.dscr.fan 0
  recMask_eq : cpuPt.recMask = recMaskOf cpuPt.dscr cpuPt.recInd

variable {cpuPt pt : ArmPageTable n} {lvl : Nat} {va : BitVec n} {S : Shape}

theorem ArmLevels.wdt_eq (h : ArmLevels S) {l : Nat} (hpos : 0 < l) (hl : l < S.lvls) :
    S.wdt l = S.off l + 9 := by
  obtain ⟨k, rfl⟩ : ∃ k, l = k + 1 := ⟨l - 1, by omega⟩
  rw [S.wdt_succ k hl, h k (by omega), h (k + 1) hl]
  omega

theorem ArmLevels.off_add (h : ArmLevels S) {i l : Nat} (hle : i ≤ l) (hl : l < S.lvls) :
    S.off i = S.off l + 9 * (l - i) := by
  rw [h i (by omega), h l hl]
  omega

theorem testBit_slot {l a t : Nat} :
    (slot S l a).testBit t = (decide (t < S.wdt l - S.off l) && a.testBit (S.off l + t)) := by
  rw [slot, Shape.fan, Shape.size, Nat.testBit_mod_two_pow, Nat.testBit_div_two_pow,
    Nat.add_comm t]

theorem slot_eq_of_bits {l a v : Nat} (hv : v < S.fan l)
    (h : ∀ t, t < S.wdt l - S.off l → a.testBit (S.off l + t) = v.testBit t) : slot S l a = v := by
  apply Nat.eq_of_testBit_eq
  intro t
  rw [testBit_slot]
  by_cases ht : t < S.wdt l - S.off l
  · rw [h t ht, decide_eq_true ht, Bool.true_and]
  · rw [decide_eq_false ht, Bool.false_and]
    have hpow : S.fan l ≤ 2 ^ t := Nat.pow_le_pow_right (by decide) (by omega)
    exact (Nat.testBit_lt_two_pow (Nat.lt_of_lt_of_le hv hpow)).symm

/-- The places of an address whose root entry is in the first page are places of a page. -/
theorem ArmLevels.slot_lt (h : ArmLevels S) {l a : Nat} (hl : l < S.lvls)
    (hroot : a / S.size 0 < 2 ^ 9) : slot S l a < 2 ^ 9 := by
  cases l with
  | zero => exact Nat.lt_of_le_of_lt (Nat.mod_le _ _) hroot
  | succ l =>
      have hwdt := h.wdt_eq (by omega) hl
      have hfan : S.fan (l + 1) = 2 ^ 9 := by
        rw [Shape.fan, hwdt, Nat.add_sub_cancel_left]
      rw [← hfan]
      exact TableMemory.slot_lt

/-- Their bits are bits of the address. -/
theorem ArmLevels.testBit_place (h : ArmLevels S) {l a t : Nat} (hl : l < S.lvls)
    (ha : a < 2 ^ S.wdt 0) (ht : t < 9) :
    a.testBit (S.off l + t) = (slot S l a).testBit t := by
  rw [testBit_slot]
  by_cases hin : t < S.wdt l - S.off l
  · rw [decide_eq_true hin, Bool.true_and]
  · rw [decide_eq_false hin, Bool.false_and]
    cases l with
    | zero =>
        have hpow : 2 ^ S.wdt 0 ≤ 2 ^ (S.off 0 + t) := Nat.pow_le_pow_right (by decide) (by omega)
        exact Nat.testBit_lt_two_pow (Nat.lt_of_lt_of_le ha hpow)
    | succ l =>
        have hwdt := h.wdt_eq (by omega) hl
        omega

namespace ArmCpuTable

theorem wdt_le_off (h : ArmCpuTable cpuPt) (k : Nat) (hk : k < cpuPt.dscr.lvls) :
    cpuPt.dscr.wdt k ≤ cpuPt.dscr.off k + 9 := by
  cases k with
  | zero => exact h.root_le
  | succ k => exact Nat.le_of_eq (h.levels.wdt_eq (by omega) hk)

theorem width (h : ArmCpuTable cpuPt) (k : Nat) (hk : k < cpuPt.dscr.lvls) : cpuPt.dscr.wdt k ≤ n :=
  Nat.le_trans (Shape.wdt_le_width hk) h.wdt_le

/-- A root entry of the CPU's table is an entry of every table of it. -/
theorem fan_le (h : ArmCpuTable cpuPt) {k : Nat} (hk : k < cpuPt.dscr.lvls) :
    cpuPt.dscr.fan 0 ≤ cpuPt.dscr.fan k := by
  have hroot := h.root_le
  apply Nat.pow_le_pow_right (by decide)
  cases k with
  | zero => exact Nat.le_refl _
  | succ k =>
      have := h.levels.wdt_eq (by omega) hk
      omega

theorem recInd_bit (h : ArmCpuTable cpuPt) {t : Nat}
    (ht : cpuPt.dscr.wdt 0 - cpuPt.dscr.off 0 ≤ t) : cpuPt.recInd.getLsbD t = false := by
  rw [BitVec.getLsbD]
  exact Nat.testBit_lt_two_pow (Nat.lt_of_lt_of_le h.recInd_lt
    (Nat.pow_le_pow_right (by decide) ht))

/-- The mask has the index at every level. -/
theorem recMask_bit (h : ArmCpuTable cpuPt) {k t : Nat} (hk : k < cpuPt.dscr.lvls)
    (ht : t < cpuPt.dscr.wdt k - cpuPt.dscr.off k) :
    cpuPt.recMask.getLsbD (cpuPt.dscr.off k + t) = cpuPt.recInd.getLsbD t := by
  have hwidth := h.width k hk
  have hword := h.word_le
  have hnine := h.wdt_le_off k hk
  have hroot := h.root_le
  have hoff := h.levels k hk
  rw [h.recMask_eq, Bool.eq_iff_iff, getLsbD_recMaskOf (by omega)]
  constructor
  · rintro ⟨i, hi, hle, -, hset⟩
    have hoffi := h.levels i hi
    have hshort : ¬ cpuPt.dscr.wdt 0 - cpuPt.dscr.off 0 ≤
        cpuPt.dscr.off k + t - cpuPt.dscr.off i := by
      intro hge
      rw [h.recInd_bit hge] at hset
      cases hset
    have heq : i = k := by omega
    rw [heq, Nat.add_sub_cancel_left] at hset
    exact hset
  · intro hset
    refine ⟨k, hk, by omega, by omega, ?_⟩
    rw [Nat.add_sub_cancel_left]
    exact hset

end ArmCpuTable

/-- **`pt_get_pte` computes the window of the entry**, for the addresses whose root
entry is in the first page of the root. -/
theorem isWindow_armPtGetPte (h : ArmCpuTable cpuPt) (hpt : ArmLevels pt.dscr)
    (hrec : pt.recInd.toNat < cpuPt.dscr.fan 0) (hlvls : pt.dscr.lvls ≤ cpuPt.dscr.lvls)
    (hlvl : lvl < pt.dscr.lvls) (hva : va.toNat < 2 ^ pt.dscr.wdt 0)
    (hroot : va.toNat / pt.dscr.size 0 < 2 ^ 9) :
    IsWindow armFormat cpuPt.dscr pt.dscr cpuPt.recInd.toNat pt.recInd.toNat lvl va.toNat
      (slot pt.dscr lvl va.toNat) (armPtGetPte cpuPt pt lvl va).toNat := by
  have hword := h.word_le
  have hK : cpuPt.dscr.lvls - lvl - 1 < cpuPt.dscr.lvls := by omega
  have hlt := cpuPt.dscr.off_lt_wdt _ hK
  have hwidth := h.width _ hK
  have hoff : cpuPt.dscr.off (cpuPt.dscr.lvls - lvl - 1) = 12 + 9 * lvl := by
    rw [h.levels _ hK]
    omega
  have hbits := fun j (hj : j < n) => @getLsbD_armPtGetPte _ _ pt _ _ _ _ va hoff rfl
    (by omega) (by omega) hwidth hword hj
  constructor
  · intro k hk
    have hwdt : cpuPt.dscr.wdt (cpuPt.dscr.lvls - lvl - 1) =
        cpuPt.dscr.off (cpuPt.dscr.lvls - lvl - 2) := by
      have hsucc := cpuPt.dscr.wdt_succ (cpuPt.dscr.lvls - lvl - 2) (by omega)
      rwa [show cpuPt.dscr.lvls - lvl - 2 + 1 = cpuPt.dscr.lvls - lvl - 1 by omega] at hsucc
    have hle : cpuPt.dscr.off (cpuPt.dscr.lvls - lvl - 2) ≤ cpuPt.dscr.off k :=
      Shape.off_le (by omega) (by omega)
    have hk' := h.width k (by omega)
    apply slot_eq_of_bits (Nat.lt_of_lt_of_le h.recInd_lt (h.fan_le (by omega)))
    intro t ht
    have hbit := hbits (cpuPt.dscr.off k + t) (by omega)
    rw [if_pos (by omega), h.recMask_bit (by omega) ht] at hbit
    exact hbit
  · rw [Nat.sub_right_comm]
    apply slot_eq_of_bits (Nat.lt_of_lt_of_le hrec (h.fan_le hK))
    intro t ht
    have hbit := hbits (cpuPt.dscr.off (cpuPt.dscr.lvls - lvl - 1) + t) (by omega)
    rw [if_neg (by omega), if_pos (by omega), hoff, Nat.add_sub_cancel_left] at hbit
    rw [hoff]
    exact hbit
  · intro i hi
    have hi' : cpuPt.dscr.lvls - lvl + i < cpuPt.dscr.lvls := by omega
    have hoffi : cpuPt.dscr.off (cpuPt.dscr.lvls - lvl + i) = 12 + 9 * (lvl - 1 - i) := by
      rw [h.levels _ hi']
      omega
    have hwdti := h.levels.wdt_eq (by omega) hi'
    have hsoff := hpt.off_add (i := i) (l := lvl) (by omega) hlvl
    have hplace := hpt.slot_lt (l := i) (by omega) hroot
    have hfan : cpuPt.dscr.fan (cpuPt.dscr.lvls - lvl + i) = 2 ^ 9 := by
      rw [Shape.fan, hwdti, Nat.add_sub_cancel_left]
    rw [← hfan] at hplace
    apply slot_eq_of_bits hplace
    intro t ht
    have hbit := hbits (cpuPt.dscr.off (cpuPt.dscr.lvls - lvl + i) + t) (by omega)
    have hlow : ¬ cpuPt.dscr.off (cpuPt.dscr.lvls - lvl + i) + t < 3 := by omega
    have hsum : pt.dscr.off lvl + (cpuPt.dscr.off (cpuPt.dscr.lvls - lvl + i) + t - 3) =
        pt.dscr.off i + t := by omega
    rw [if_neg (by omega), if_neg (by omega), decide_eq_false hlow, hsum] at hbit
    rw [← hpt.testBit_place (by omega) hva (by omega)]
    exact hbit
  · have hplace := hpt.slot_lt hlvl hroot
    apply Nat.eq_of_testBit_eq
    intro t
    rw [Nat.testBit_mod_two_pow, Nat.testBit_two_pow_mul]
    by_cases ht : t < 12
    · have hbit := hbits t (by omega)
      rw [if_neg (by omega), if_neg (by omega)] at hbit
      have hleft : (armPtGetPte cpuPt pt lvl va).toNat.testBit t =
          (!decide (t < 3) && va.getLsbD (pt.dscr.off lvl + (t - 3))) := hbit
      rw [show armFormat.bits + armFormat.bytes = 12 from rfl, show armFormat.bytes = 3 from rfl,
        decide_eq_true ht, Bool.true_and, hleft]
      by_cases hlow : t < 3
      · rw [decide_eq_true hlow, decide_eq_false (by omega)]
        rfl
      · rw [decide_eq_false hlow, decide_eq_true (by omega), Bool.not_false, Bool.true_and,
          Bool.true_and]
        exact hpt.testBit_place hlvl hva (by omega)
    · have hhigh : (slot pt.dscr lvl va.toNat).testBit (t - 3) = false :=
        Nat.testBit_lt_two_pow (Nat.lt_of_lt_of_le hplace
          (Nat.pow_le_pow_right (by decide) (by omega)))
      rw [show armFormat.bits + armFormat.bytes = 12 from rfl, show armFormat.bytes = 3 from rfl,
        decide_eq_false ht, hhigh, Bool.false_and, Bool.and_false]

/-- `pt_get_pte` takes the address modulo the span of the first page of the root. -/
theorem armPtGetPte_congr (h : ArmCpuTable cpuPt) (hpt : ArmLevels pt.dscr)
    (hlvls : pt.dscr.lvls ≤ cpuPt.dscr.lvls) (hlvl : lvl < pt.dscr.lvls) {va' : BitVec n}
    (heq : va.toNat % 2 ^ (pt.dscr.off 0 + 9) = va'.toNat % 2 ^ (pt.dscr.off 0 + 9)) :
    armPtGetPte cpuPt pt lvl va = armPtGetPte cpuPt pt lvl va' := by
  have hK : cpuPt.dscr.lvls - lvl - 1 < cpuPt.dscr.lvls := by omega
  have hlt := cpuPt.dscr.off_lt_wdt _ hK
  have hoff : cpuPt.dscr.off (cpuPt.dscr.lvls - lvl - 1) = 12 + 9 * lvl := by
    rw [h.levels _ hK]
    omega
  have hsoff := hpt.off_add (i := 0) (l := lvl) (by omega) hlvl
  apply BitVec.eq_of_getLsbD_eq
  intro j hj
  rw [getLsbD_armPtGetPte hoff rfl (by omega) (by omega) (h.width _ hK) h.word_le hj,
    getLsbD_armPtGetPte hoff rfl (by omega) (by omega) (h.width _ hK) h.word_le hj]
  split
  · rfl
  · split
    · rfl
    · next hlow =>
      have hbit := congrArg (Nat.testBit · (pt.dscr.off lvl + (j - 3))) heq
      rw [Nat.testBit_mod_two_pow, Nat.testBit_mod_two_pow,
        decide_eq_true (by omega), Bool.true_and, Bool.true_and] at hbit
      rw [BitVec.getLsbD, BitVec.getLsbD, hbit]

/-- **What `pt_get_pte` gives the hypervisor**: the entry of the address taken modulo
the span of 512 root entries, and a fault where the walk of that one ends in a hole
before.  In the root it is the entry the hardware reads for the address exactly when
that one is in the first page of the root. -/
theorem armPtGetPte_shows (h : ArmCpuTable cpuPt) (hpt : ArmLevels pt.dscr)
    (hrec : pt.recInd.toNat < cpuPt.dscr.fan 0) (hlvls : pt.dscr.lvls ≤ cpuPt.dscr.lvls)
    (hlvl : lvl < pt.dscr.lvls) (hva : va.toNat < 2 ^ pt.dscr.wdt 0) {F : Type} {m : Mem F}
    {c p : Nat} {f f' : F}
    (hself : m (c * 2 ^ armFormat.bits + cpuPt.recInd.toNat) = .next c f)
    (hroot : m (c * 2 ^ armFormat.bits + pt.recInd.toNat) = .next p f') :
    (∀ e, entryAt armFormat.bits pt.dscr m p (va.toNat % 2 ^ (pt.dscr.off 0 + 9)) lvl = some e →
      walk armFormat cpuPt.dscr m c (armPtGetPte cpuPt pt lvl va).toNat =
        some (e * 2 ^ armFormat.bytes)) ∧
    (∀ i e mark, i < lvl →
      entryAt armFormat.bits pt.dscr m p (va.toNat % 2 ^ (pt.dscr.off 0 + 9)) i = some e →
      m e = .hole mark →
      walk armFormat cpuPt.dscr m c (armPtGetPte cpuPt pt lvl va).toNat = none) ∧
    (lvl = 0 →
      (walk armFormat cpuPt.dscr m c (armPtGetPte cpuPt pt lvl va).toNat =
        (entryAt armFormat.bits pt.dscr m p va.toNat 0).map (· * 2 ^ armFormat.bytes) ↔
      va.toNat / pt.dscr.size 0 < 2 ^ armFormat.bits)) := by
  have hspan : 2 ^ (pt.dscr.off 0 + 9) = pt.dscr.size 0 * 2 ^ 9 := Nat.pow_add _ _ _
  have hle : va.toNat % 2 ^ (pt.dscr.off 0 + 9) ≤ va.toNat := Nat.mod_le _ _
  have hseen : (BitVec.ofNat n (va.toNat % 2 ^ (pt.dscr.off 0 + 9))).toNat =
      va.toNat % 2 ^ (pt.dscr.off 0 + 9) := by
    rw [BitVec.toNat_ofNat]
    exact Nat.mod_eq_of_lt (Nat.lt_of_le_of_lt hle va.isLt)
  have hindex : va.toNat % 2 ^ (pt.dscr.off 0 + 9) / pt.dscr.size 0 =
      va.toNat / pt.dscr.size 0 % 2 ^ 9 := by
    rw [hspan, Nat.mod_mul_right_div_self]
  have hw := @isWindow_armPtGetPte _ _ _ _ (BitVec.ofNat n (va.toNat % 2 ^ (pt.dscr.off 0 + 9)))
    h hpt hrec hlvls hlvl (by rw [hseen]; omega)
    (by rw [hseen, hindex]; exact Nat.mod_lt _ (Nat.two_pow_pos 9))
  rw [hseen, ← @armPtGetPte_congr _ _ _ _ va h hpt hlvls hlvl _ (by rw [hseen, Nat.mod_mod])] at hw
  refine ⟨?_, ?_, ?_⟩
  · intro e he
    obtain ⟨p', hp', rfl⟩ := entryAt_eq_some.mp he
    exact walk_window hw (by omega) hself hroot hp'
  · intro i e mark hi he hhole
    exact walk_window_hole hw (by omega) hself hroot hi he hhole
  · rintro rfl
    have hplace : ∀ a, a < 2 ^ pt.dscr.wdt 0 → slot pt.dscr 0 a = a / pt.dscr.size 0 := by
      intro a ha
      apply Nat.mod_eq_of_lt
      rw [Shape.size, Shape.fan, Nat.div_lt_iff_lt_mul (Nat.two_pow_pos _), ← Nat.pow_add]
      have := pt.dscr.off_lt_wdt 0 hlvl
      rwa [Nat.sub_add_cancel (Nat.le_of_lt this)]
    rw [walk_window hw (by omega) hself hroot rfl, entryAt, tableOf, Option.map_some,
      Option.map_some, hplace _ hva, hplace _ (Nat.lt_of_le_of_lt hle hva), hindex,
      Option.some.injEq]
    have hmod := Nat.mod_lt (va.toNat / pt.dscr.size 0) (Nat.two_pow_pos 9)
    constructor
    · intro heq
      have hplaces := Nat.eq_of_mul_eq_mul_right (Nat.two_pow_pos armFormat.bytes) heq
      have : armFormat.bits = 9 := rfl
      rw [this] at hplaces ⊢
      omega
    · intro hlt
      have hsame : va.toNat / pt.dscr.size 0 % 2 ^ 9 = va.toNat / pt.dscr.size 0 :=
        Nat.mod_eq_of_lt hlt
      rw [hsame]

theorem armLevels_pos {lvls : Nat} : 0 < lvls + 1 := Nat.succ_pos lvls

theorem armLevels_fit {lvls k : Nat} : 12 + 9 * lvls < 12 + 9 * lvls + (k + 1) :=
  Nat.lt_add_of_pos_right (Nat.succ_pos k)

/-- A CPU's descriptor, `armv8_pt_dscr`. -/
def armCpuShape : Shape := armShape 4 48 (@armLevels_pos 3) (@armLevels_fit 3 8)

/-- A VM's descriptor for 40 bits of address. -/
def armVmShape : Shape := armShape 3 40 (@armLevels_pos 2) (@armLevels_fit 2 9)

theorem armLevels_armCpuShape : ArmLevels armCpuShape := fun _ _ => rfl

theorem armLevels_armVmShape : ArmLevels armVmShape := fun _ _ => rfl

/-- The table of a CPU with the index `PT_CPU_REC_IND`, as `pt_set_recursive` leaves it. -/
def armCpuPt : ArmPageTable 64 := ⟨0#64, armCpuShape, recMaskOf armCpuShape 511#64, 511#64⟩

theorem armCpuTable_armCpuPt : ArmCpuTable armCpuPt where
  levels := armLevels_armCpuShape
  root_le := Nat.le_refl 48
  wdt_le := by decide
  word_le := Nat.le_refl 64
  recInd_lt := by decide
  recMask_eq := rfl

/-- A memory with the roots of a CPU and of a VM in pages 1 and 2, seen at the indices
`PT_CPU_REC_IND` and `PT_VM_REC_IND`. -/
def twoRoots (e : Nat) : Slot Unit :=
  if e = 1023 then .next 1 () else if e = 1022 then .next 2 () else .hole false

/-- The entry of the VM's root for its address 2^39 is not the one the hypervisor gets. -/
theorem armPtGetPte_alias :
    walk armFormat armCpuShape twoRoots 1
        (armPtGetPte armCpuPt ⟨0#64, armVmShape, 0#64, 510#64⟩ 0 (BitVec.ofNat 64 (2 ^ 39))).toNat ≠
      (entryAt armFormat.bits armVmShape twoRoots 2 (2 ^ 39) 0).map (· * 2 ^ armFormat.bytes) := by
  intro heq
  have hself : twoRoots (1 * 2 ^ armFormat.bits + armCpuPt.recInd.toNat) = .next 1 () := rfl
  have hroot : twoRoots (1 * 2 ^ armFormat.bits + (510#64).toNat) = .next 2 () := rfl
  have hiff := (@armPtGetPte_shows _ _ ⟨0#64, armVmShape, 0#64, 510#64⟩ 0
    (BitVec.ofNat 64 (2 ^ 39)) armCpuTable_armCpuPt armLevels_armVmShape (by decide) (by decide)
    (by decide) (by decide) _ _ _ _ _ _ hself hroot).2.2 rfl
  have hlt := hiff.mp heq
  exact absurd hlt (by decide)

end Bao

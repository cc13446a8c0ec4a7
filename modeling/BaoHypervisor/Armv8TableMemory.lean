import BaoHypervisor.Armv8PageTable

/-!
# Stores through the recursive mapping

`pt_set_recursive` of Armv8-A and `mem_alloc_pt`, store by store: each goes to a
virtual address, which the MMU of the CPU translates with the tables as they are at
that moment.
-/

namespace Bao

open RadixTable TableMemory RecursiveMap

/-- The memory the tables are in, by words of 8 bytes. -/
abbrev PtWords := Nat → BitVec 64

/-- The words as entries. -/
def armSlots (mem : PtWords) : Mem (BitVec 64) := fun e => armSlot (mem e)

/-- The CPU a function runs on: its `as.pt` and the page its MMU has as the root. -/
structure ArmCpu (n : Nat) where
  pt : ArmPageTable n
  page : Nat

variable {n : Nat} (cpu : ArmCpu n)

/-- The translation of the hypervisor's addresses, `arm_at_s1e2w`. -/
def hypWalk (mem : PtWords) (va : BitVec n) : Option Nat :=
  walk armFormat cpu.pt.dscr (armSlots mem) cpu.page va.toNat

/-- A load; `none` is a fault. -/
def hypLoad (mem : PtWords) (va : BitVec n) : Option (BitVec 64) :=
  (hypWalk cpu mem va).map fun pa => mem (pa / 2 ^ armFormat.bytes)

/-- A store. -/
def hypStore (mem : PtWords) (va : BitVec n) (w : BitVec 64) : Option PtWords :=
  (hypWalk cpu mem va).map fun pa => Function.update mem (pa / 2 ^ armFormat.bytes) w

/-- `pt_size`, with `pt_nentries`. -/
def ptSize (dscr : Shape) (lvl : Nat) : Nat := dscr.fan lvl * 2 ^ armFormat.bytes

/-- `pt_get`. -/
def armPtGet (cpuPt pt : ArmPageTable n) (lvl : Nat) (va : BitVec n) : BitVec n :=
  if lvl = 0 then pt.root
  else armPtGetPte cpuPt pt lvl va &&& ~~~(BitVec.ofNat n (ptSize pt.dscr lvl) - 1#n)

/-- The loop of `mem_alloc_pt` over the first entries of the table. -/
def fillTable (tempPt : BitVec n) (dflt : BitVec 64) : Nat → PtWords → Option PtWords
  | 0, mem => some mem
  | i + 1, mem => (fillTable tempPt dflt i mem).bind fun mem =>
      hypStore cpu mem (tempPt + BitVec.ofNat n (i * 2 ^ armFormat.bytes)) dflt

/-- `mem_alloc_pt`, given the page `mem_alloc_ppages` has for it. -/
def armMemAllocPt (pt : ArmPageTable n) (mem : PtWords) (parent : BitVec n) (lvl : Nat)
    (addr : BitVec n) (base : BitVec 64) : Option PtWords :=
  (hypLoad cpu mem parent).bind fun entry =>
    (hypStore cpu mem parent (armPteSet base pteTableType pteHypFlags)).bind fun mem =>
      fillTable cpu (armPtGet cpu.pt pt (lvl + 1) addr) (0#64 ||| (entry &&& pteRswMsk))
        (pt.dscr.fan (lvl + 1)) mem

/-! ## Words and entries -/

theorem getLsbD_pteAddrMsk (i : Nat) :
    pteAddrMsk.getLsbD i = (decide (12 ≤ i) && decide (i < 48)) := by
  rcases Nat.lt_or_ge i 64 with hlt | hge
  · have hall : ∀ k : Fin 64,
        pteAddrMsk.getLsbD k = (decide (12 ≤ k.val) && decide (k.val < 48)) := by
      decide
    exact hall ⟨i, hlt⟩
  · have hhigh : ¬ i < 48 := by omega
    rw [BitVec.getLsbD_of_ge _ _ hge, decide_eq_false hhigh, Bool.and_false]

/-- An aligned address is kept. -/
theorem and_pteAddrMsk {base : BitVec 64} (hal : base.toNat % 2 ^ 12 = 0)
    (hlt : base.toNat < 2 ^ 48) : base &&& pteAddrMsk = base := by
  apply BitVec.eq_of_getLsbD_eq
  intro i _
  rw [BitVec.getLsbD_and, getLsbD_pteAddrMsk]
  by_cases hlow : i < 12
  · have hbit : base.getLsbD i = false := by
      have hzero := congrArg (Nat.testBit · i) hal
      simp only [Nat.testBit_mod_two_pow, hlow, decide_true, Bool.true_and, Nat.zero_testBit]
        at hzero
      exact hzero
    rw [hbit, Bool.false_and]
  · by_cases hhigh : i < 48
    · rw [decide_eq_true (by omega), decide_eq_true hhigh, Bool.and_self, Bool.and_true]
    · have hbit : base.getLsbD i = false :=
        Nat.testBit_lt_two_pow
          (Nat.lt_of_lt_of_le hlt (Nat.pow_le_pow_right (by decide) (by omega)))
      rw [hbit, Bool.false_and]

private theorem merge_and (x y m : BitVec 64) : ((x &&& m) ||| (y &&& ~~~m)) &&& m = x &&& m := by
  apply BitVec.eq_of_getLsbD_eq
  intro i hi
  simp only [BitVec.getLsbD_and, BitVec.getLsbD_or, BitVec.getLsbD_not, hi, decide_true,
    Bool.true_and]
  cases m.getLsbD i <;> simp

private theorem merge_and_not (x y m : BitVec 64) :
    ((x &&& m) ||| (y &&& ~~~m)) &&& ~~~m = y &&& ~~~m := by
  apply BitVec.eq_of_getLsbD_eq
  intro i hi
  simp only [BitVec.getLsbD_and, BitVec.getLsbD_or, BitVec.getLsbD_not, hi, decide_true,
    Bool.true_and]
  cases m.getLsbD i <;> simp

/-- The bits of a written entry that are no address. -/
theorem armPteSet_and {base type flags low : BitVec 64} (hlow : ~~~pteAddrMsk &&& low = low) :
    armPteSet base type flags &&& low = (type ||| flags) &&& low := by
  rw [← hlow, ← BitVec.and_assoc, armPteSet, merge_and_not, BitVec.and_assoc]

/-- **An entry `pte_set` writes for a table** points to its page. -/
theorem armSlot_table {base : BitVec 64} (hal : base.toNat % 2 ^ 12 = 0)
    (hlt : base.toNat < 2 ^ 48) :
    armSlot (armPteSet base pteTableType pteHypFlags) = .next (base.toNat / 2 ^ 12)
      (pteTableType ||| pteHypFlags) := by
  have hvalid : armPteValid (armPteSet base pteTableType pteHypFlags) = true := by
    rw [armPteValid, armPteSet_and (by decide)]
    decide
  have htype : (armPteSet base pteTableType pteHypFlags &&& pteTypeMsk == pteTableType) = true := by
    rw [armPteSet_and (by decide)]
    decide
  have haddr : armPteAddr (armPteSet base pteTableType pteHypFlags) = base := by
    rw [armPteAddr, armPteSet, merge_and, and_pteAddrMsk hal hlt]
  have hflags : armPteSet base pteTableType pteHypFlags &&& ~~~pteAddrMsk =
      pteTableType ||| pteHypFlags := by
    rw [armPteSet, merge_and_not]
    decide
  rw [armSlot, if_pos hvalid, if_pos htype, haddr, hflags]

/-- **The entries of a new table** are holes marked as the entry it is for. -/
theorem armSlot_dflt (entry : BitVec 64) :
    armSlot (0#64 ||| (entry &&& pteRswMsk)) = .hole (armPteCheckRsw entry pteRswRsrv) := by
  have hinvalid : armPteValid (0#64 ||| (entry &&& pteRswMsk)) = false := by
    have hmask : pteRswMsk &&& 1#64 = 0#64 := by decide
    rw [armPteValid, BitVec.zero_or, BitVec.and_assoc, hmask, BitVec.and_zero]
    rfl
  have hmark : armPteCheckRsw (0#64 ||| (entry &&& pteRswMsk)) pteRswRsrv =
      armPteCheckRsw entry pteRswRsrv := by
    rw [armPteCheckRsw, armPteCheckRsw, BitVec.zero_or, BitVec.and_assoc, BitVec.and_self]
  rw [armSlot, hinvalid, hmark]
  rfl

/-! ## The new table -/

theorem toNat_page_mask (hn : 12 < n) (w : BitVec n) :
    (w &&& ~~~(BitVec.ofNat n (2 ^ 12) - 1#n)).toNat = w.toNat / 2 ^ 12 * 2 ^ 12 := by
  have hone : 1 < 2 ^ n := Nat.one_lt_two_pow (by omega)
  have hmask : BitVec.ofNat n (2 ^ 12) - 1#n = BitVec.ofNat n (2 ^ 12 - 1) :=
    BitVec.ofNat_sub_ofNat_of_le _ _ hone (by decide)
  apply Nat.eq_of_testBit_eq
  intro i
  rw [hmask, Nat.testBit_mul_two_pow, Nat.testBit_div_two_pow]
  change (w &&& ~~~BitVec.ofNat n (2 ^ 12 - 1)).getLsbD i = _
  rw [BitVec.getLsbD_and, BitVec.getLsbD_not, BitVec.getLsbD_ofNat, Nat.testBit_two_pow_sub_one]
  by_cases hlow : i < 12
  · have hnot : ¬ 12 ≤ i := by omega
    by_cases hi : i < n
    · simp only [hi, hlow, hnot, decide_true, decide_false, Bool.and_true, Bool.not_true,
        Bool.and_false, Bool.false_and]
    · simp only [hi, hnot, decide_false, Bool.and_false, Bool.false_and]
  · have hle : 12 ≤ i := by omega
    have hsub : i - 12 + 12 = i := by omega
    by_cases hi : i < n
    · simp only [hi, hlow, hle, hsub, decide_true, decide_false, Bool.and_false, Bool.not_false,
        Bool.and_true, Bool.true_and]
      rfl
    · have hbit : w.toNat.testBit i = false := BitVec.getLsbD_of_ge w i (by omega)
      simp only [hi, hsub, hbit, decide_false, Bool.false_and, Bool.and_false]

/-- The words once the first `k` entries of the new table are written. -/
def partFilled (mem : PtWords) (e q : Nat) (w dflt : BitVec 64) (k : Nat) : PtWords := fun x =>
  if x / 2 ^ armFormat.bits = q then
    if x % 2 ^ armFormat.bits < k then dflt else mem x
  else if x = e then w else mem x

/-- They are a table hung into the memory. -/
theorem armSlots_partFilled {mem : PtWords} {e q k : Nat} {w dflt flags : BitVec 64}
    (hw : armSlot w = .next q flags) :
    armSlots (partFilled mem e q w dflt k) = hang armFormat.bits (armSlots mem) e q flags
      fun i => if i < k then armSlot dflt else armSlot (mem (q * 2 ^ armFormat.bits + i)) := by
  funext x
  unfold armSlots partFilled hang
  by_cases hq : x / 2 ^ armFormat.bits = q
  · rw [if_pos hq, if_pos hq]
    have hx : q * 2 ^ armFormat.bits + x % 2 ^ armFormat.bits = x := by
      rw [← hq]
      exact Nat.div_add_mod' x _
    dsimp only
    by_cases hk : x % 2 ^ armFormat.bits < k
    · rw [if_pos hk, if_pos hk]
    · rw [if_neg hk, if_neg hk, hx]
  · rw [if_neg hq, if_neg hq]
    by_cases he : x = e
    · rw [if_pos he, if_pos he, hw]
    · rw [if_neg he, if_neg he]

theorem armSlots_filled {mem : PtWords} {e q : Nat} {w dflt flags : BitVec 64}
    (hw : armSlot w = .next q flags) :
    armSlots (partFilled mem e q w dflt (2 ^ armFormat.bits)) =
      hang armFormat.bits (armSlots mem) e q flags fun _ => armSlot dflt := by
  rw [armSlots_partFilled hw]
  funext x
  unfold hang
  dsimp only
  rw [if_pos (Nat.mod_lt x (Nat.two_pow_pos armFormat.bits))]

theorem partFilled_zero {mem : PtWords} {e q : Nat} {w dflt : BitVec 64}
    (he : e / 2 ^ armFormat.bits ≠ q) : partFilled mem e q w dflt 0 = Function.update mem e w := by
  funext x
  unfold partFilled
  by_cases hx : x = e
  · rw [hx, if_neg he, if_pos rfl, Function.update_self]
  · rw [Function.update_of_ne hx, if_neg hx, if_neg (Nat.not_lt_zero _)]
    split
    · rfl
    · rfl

/-- The next entry is written. -/
theorem partFilled_update {mem : PtWords} {e q k : Nat} {w dflt : BitVec 64}
    (hk : k < 2 ^ armFormat.bits) :
    Function.update (partFilled mem e q w dflt k) (q * 2 ^ armFormat.bits + k) dflt =
      partFilled mem e q w dflt (k + 1) := by
  funext x
  by_cases hx : x = q * 2 ^ armFormat.bits + k
  · subst hx
    rw [Function.update_self, partFilled, if_pos (place_div hk), place_mod hk, if_pos (by omega)]
  · rw [Function.update_of_ne hx, partFilled, partFilled]
    by_cases hq : x / 2 ^ armFormat.bits = q
    · have hsplit := Nat.div_add_mod' x (2 ^ armFormat.bits)
      have hne : x % 2 ^ armFormat.bits ≠ k := by
        rintro rfl
        rw [hq] at hsplit
        exact hx hsplit.symm
      have hiff : x % 2 ^ armFormat.bits < k ↔ x % 2 ^ armFormat.bits < k + 1 := by omega
      rw [if_pos hq, if_pos hq]
      simp only [hiff]
    · rw [if_neg hq, if_neg hq]

/-! ## Addresses that show the tables -/

/-- **The CPU sees the table** whose root is in page `p`: its own root has the entry for
itself and the entry for that one. -/
structure ArmSees (cpu : ArmCpu n) (pt : ArmPageTable n) (m : Mem (BitVec 64)) (p : Nat) :
    Prop where
  cpuTable : ArmCpuTable cpu.pt
  levels : ArmLevels pt.dscr
  recInd_lt : pt.recInd.toNat < cpu.pt.dscr.fan 0
  lvls_le : pt.dscr.lvls ≤ cpu.pt.dscr.lvls
  self : ∃ f, m (cpu.page * 2 ^ armFormat.bits + cpu.pt.recInd.toNat) = .next cpu.page f
  root : ∃ f, m (cpu.page * 2 ^ armFormat.bits + pt.recInd.toNat) = .next p f

variable {cpu} {pt : ArmPageTable n} {mem : PtWords} {p p' lvl : Nat} {va : BitVec n}

namespace ArmSees

theorem word_lt (h : ArmSees cpu pt (armSlots mem) p) : 12 < n := by
  have hpos := cpu.pt.dscr.lvls_pos
  have hoff := h.cpuTable.levels 0 hpos
  have hlt := cpu.pt.dscr.off_lt_wdt 0 hpos
  have hwdt := h.cpuTable.wdt_le
  omega

/-- `pt_get_pte` shows the entry. -/
theorem ptGetPte (h : ArmSees cpu pt (armSlots mem) p) (hlvl : lvl < pt.dscr.lvls)
    (hva : va.toNat < 2 ^ pt.dscr.wdt 0) (hroot : va.toNat / pt.dscr.size 0 < 2 ^ 9)
    (hp : tableOf armFormat.bits pt.dscr (armSlots mem) p va.toNat lvl = some p') :
    hypWalk cpu mem (armPtGetPte cpu.pt pt lvl va) =
      some ((p' * 2 ^ armFormat.bits + slot pt.dscr lvl va.toNat) * 2 ^ armFormat.bytes) := by
  obtain ⟨f, hself⟩ := h.self
  obtain ⟨f', hentry⟩ := h.root
  have hle := h.lvls_le
  exact walk_window (isWindow_armPtGetPte h.cpuTable h.levels h.recInd_lt hle hlvl hva hroot)
    (by omega) hself hentry hp

/-- `pt_get` shows the first entry of the table, and the others after it. -/
theorem ptGet (h : ArmSees cpu pt (armSlots mem) p) (hpos : 0 < lvl) (hlvl : lvl < pt.dscr.lvls)
    (hva : va.toNat < 2 ^ pt.dscr.wdt 0) (hroot : va.toNat / pt.dscr.size 0 < 2 ^ 9)
    (hp : tableOf armFormat.bits pt.dscr (armSlots mem) p va.toNat lvl = some p') {i : Nat}
    (hi : i < 2 ^ armFormat.bits) :
    hypWalk cpu mem (armPtGet cpu.pt pt lvl va + BitVec.ofNat n (i * 2 ^ armFormat.bytes)) =
      some ((p' * 2 ^ armFormat.bits + i) * 2 ^ armFormat.bytes) := by
  obtain ⟨f, hself⟩ := h.self
  obtain ⟨f', hentry⟩ := h.root
  have hle := h.lvls_le
  have hn := h.word_lt
  have hw := isWindow_armPtGetPte h.cpuTable h.levels h.recInd_lt hle hlvl hva hroot
  have hsize : ptSize pt.dscr lvl = 2 ^ 12 := by
    have hwdt := h.levels.wdt_eq hpos hlvl
    rw [ptSize, Shape.fan, hwdt, Nat.add_sub_cancel_left]
    rfl
  have hi' : i * 2 ^ armFormat.bytes < 2 ^ 12 := by
    have : i * 2 ^ 3 < 2 ^ 9 * 2 ^ 3 := Nat.mul_lt_mul_of_pos_right hi (by decide)
    exact this
  have hbase : (armPtGet cpu.pt pt lvl va).toNat =
      (armPtGetPte cpu.pt pt lvl va).toNat / 2 ^ 12 * 2 ^ 12 := by
    rw [armPtGet, if_neg (by omega), hsize, toNat_page_mask hn]
  -- the page the addresses are in ends where the addresses do
  have hlast : (armPtGetPte cpu.pt pt lvl va).toNat / 2 ^ 12 * 2 ^ 12 + 2 ^ 12 ≤ 2 ^ n := by
    obtain ⟨d, rfl⟩ := Nat.exists_eq_add_of_lt hn
    have hlt := (armPtGetPte cpu.pt pt lvl va).isLt
    have hpow : 2 ^ (12 + d + 1) = 2 ^ 12 * 2 ^ (d + 1) := by
      rw [← Nat.pow_add, Nat.add_assoc]
    rw [hpow] at hlt ⊢
    have hdiv := Nat.div_lt_of_lt_mul hlt
    calc (armPtGetPte cpu.pt pt lvl va).toNat / 2 ^ 12 * 2 ^ 12 + 2 ^ 12
        = ((armPtGetPte cpu.pt pt lvl va).toNat / 2 ^ 12 + 1) * 2 ^ 12 := by
          rw [Nat.add_mul, Nat.one_mul]
      _ ≤ 2 ^ (d + 1) * 2 ^ 12 := Nat.mul_le_mul_right _ hdiv
      _ = 2 ^ 12 * 2 ^ (d + 1) := Nat.mul_comm _ _
  have haddr : (armPtGet cpu.pt pt lvl va + BitVec.ofNat n (i * 2 ^ armFormat.bytes)).toNat =
      (armPtGetPte cpu.pt pt lvl va).toNat / 2 ^ 12 * 2 ^ 12 + i * 2 ^ armFormat.bytes := by
    rw [BitVec.toNat_add, hbase, BitVec.toNat_ofNat, Nat.mod_eq_of_lt (a := i * _) (by omega)]
    exact Nat.mod_eq_of_lt (by omega)
  have hoffs : ∀ k, k < cpu.pt.dscr.lvls →
      armFormat.bits + armFormat.bytes ≤ cpu.pt.dscr.off k := by
    intro k hk
    rw [h.cpuTable.levels k hk]
    exact Nat.le_add_right 12 _
  have hmove := @IsWindow.move _ _ _ _ _ _ _ _ _ hw hoffs (by omega) i
    (armPtGet cpu.pt pt lvl va + BitVec.ofNat n (i * 2 ^ armFormat.bytes)).toNat
  rw [haddr] at hmove
  refine @walk_window _ _ _ _ _ _ _ lvl _ i _ _ _ _ _ ?_ (by omega) hself hentry _ hp
  rw [haddr]
  apply hmove
  · change _ / 2 ^ 12 = _ / 2 ^ 12
    omega
  · change _ % 2 ^ 12 = 2 ^ 3 * i
    change i * 2 ^ 3 < 2 ^ 12 at hi'
    change (_ / 2 ^ 12 * 2 ^ 12 + i * 2 ^ 3) % 2 ^ 12 = _
    omega

/-- Memories with the same entries for the recursive mapping show the same. -/
theorem congr (h : ArmSees cpu pt (armSlots mem) p) {mem' : PtWords}
    (hself : armSlots mem' (cpu.page * 2 ^ armFormat.bits + cpu.pt.recInd.toNat) =
      armSlots mem (cpu.page * 2 ^ armFormat.bits + cpu.pt.recInd.toNat))
    (hroot : armSlots mem' (cpu.page * 2 ^ armFormat.bits + pt.recInd.toNat) =
      armSlots mem (cpu.page * 2 ^ armFormat.bits + pt.recInd.toNat)) :
    ArmSees cpu pt (armSlots mem') p :=
  ⟨h.cpuTable, h.levels, h.recInd_lt, h.lvls_le, hself ▸ h.self, hroot ▸ h.root⟩

/-- **The loop of `mem_alloc_pt`** writes the entries of the new table, as long as it
sees it meanwhile. -/
theorem fill {e q : Nat} {w dflt : BitVec 64} (hpos : 0 < lvl) (hlvl : lvl < pt.dscr.lvls)
    (hva : va.toNat < 2 ^ pt.dscr.wdt 0) (hroot : va.toNat / pt.dscr.size 0 < 2 ^ 9)
    (h : ∀ k, ArmSees cpu pt (armSlots (partFilled mem e q w dflt k)) p)
    (hq : ∀ k, tableOf armFormat.bits pt.dscr (armSlots (partFilled mem e q w dflt k)) p
      va.toNat lvl = some q) {k : Nat} (hk : k ≤ 2 ^ armFormat.bits) :
    fillTable cpu (armPtGet cpu.pt pt lvl va) dflt k (partFilled mem e q w dflt 0) =
      some (partFilled mem e q w dflt k) := by
  induction k with
  | zero => rfl
  | succ k ih =>
      have hk' : k < 2 ^ armFormat.bits := by omega
      rw [fillTable, ih (by omega), Option.bind_some, hypStore,
        (h k).ptGet hpos hlvl hva hroot (hq k) hk', Option.map_some,
        Nat.mul_div_cancel _ (Nat.two_pow_pos _), partFilled_update hk']

end ArmSees

end Bao

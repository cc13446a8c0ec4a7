import BaoHypervisor.Armv8TableMemory

/-!
# The page tables of all address spaces

Every CPU of an Armv8-A platform changes the tables of its own address space and of
its VM's through the recursive entries of its own root.  The tables lie in one memory
and the addresses the stores go to are translated with the tables themselves, so the
flat table by level and index that the rest of the memory code works on is a claim
about all of them at once: that it is what the memory shows, whatever is done.
-/

namespace Bao

open RadixTable TableMemory RecursiveMap

/-- What an entry of Armv8-A means at a level. -/
def armView : View (BitVec 64) where
  view lvls l
    | .hole mark => .hole mark
    | .block base flags => if l + 1 < lvls then .leaf base flags else .hole false
    | .next page flags => if l + 1 < lvls then .table else .leaf (page * 2 ^ 12) flags
  view_table := by
    intro lvls l s
    cases s with
    | hole mark => simp [Slot.page?]
    | block base flags =>
        by_cases hl : l + 1 < lvls
        · simp [Slot.page?, hl]
        · simp [Slot.page?, hl]
    | next page flags =>
        by_cases hl : l + 1 < lvls
        · simp [Slot.page?, hl]
        · simp [Slot.page?, hl]

/-- The address spaces of a platform: their descriptors, the pages of their roots, the
CPUs among them, and the root entries kept for the recursive mapping.  The roots take
one page each. -/
structure ArmSpaces (ι : Type) (n : Nat) where
  dscr : ι → Shape
  rootPage : ι → Nat
  isCpu : ι → Bool
  skip : ι → Nat → Bool
  levels : ∀ i, ArmLevels (dscr i)
  root_le : ∀ i, (dscr i).wdt 0 ≤ (dscr i).off 0 + 9
  lvls_le : ∀ x i, isCpu x = true → (dscr i).lvls ≤ (dscr x).lvls
  wdt_le : ∀ x, isCpu x = true → (dscr x).wdt 0 ≤ n
  word_le : n ≤ 64
  rootPage_lt : ∀ i, rootPage i < 2 ^ 36
  used : ∀ i, ∃ a, a < 2 ^ (dscr i).wdt 0 ∧ skip i (a / (dscr i).size 0) = false

/-- The memory and the `struct page_table` of every address space. -/
structure ArmTables (ι : Type) (n : Nat) where
  mem : PtWords
  pt : ι → ArmPageTable n

/-- The flat tables, and which root is hung into the root of a CPU at an index. -/
structure ArmFlat (ι : Type) where
  table : ι → Table (BitVec 64)
  hung : ι → Nat → Option ι

variable {ι : Type} {n : Nat} (G : ArmSpaces ι n)

/-- An address space as its tables in memory. -/
def ArmSpaces.space (i : ι) : Space := ⟨G.dscr i, G.rootPage i, G.skip i⟩

/-- The CPU with its own address space. -/
def ArmTables.cpu (s : ArmTables ι n) (x : ι) : ArmCpu n := ⟨s.pt x, G.rootPage x⟩

/-- What the memory code does with a table, on CPU `x` with the address space `i`:
`pt_set_recursive`, a store through `pt_get_pte`, and `mem_alloc_pt`. -/
inductive ArmPtOp (ι : Type) (n : Nat) where
  | setRecursive (x i : ι) (index : BitVec n)
  | write (x i : ι) (lvl : Nat) (va : BitVec n) (w : BitVec 64)
  | allocPt (x i : ι) (lvl : Nat) (va : BitVec n) (base : BitVec 64)

/-- Whether a new table's entries are marked: as the entry it replaces. -/
def markOf : Entry (BitVec 64) → Bool
  | .hole mark => mark
  | .table => false
  | .leaf _ flags => armPteCheckRsw flags pteRswRsrv

section Code

variable [DecidableEq ι]

/-- The `arch` fields as `pt_set_recursive` writes them; the index of the CPU's own table is
read after that of the table is written. -/
def recursiveArch (s : ArmTables ι n) (x i : ι) (index : BitVec n) : ι → ArmPageTable n :=
  let pt := Function.update s.pt i { s.pt i with recInd := index, recMask := 0#64 }
  Function.update pt i { pt i with recMask := recMaskOf (s.pt i).dscr (pt x).recInd }

/-- `pt_set_recursive`. -/
def ptSetRecursive (s : ArmTables ι n) (x i : ι) (index : BitVec n) : Option (ArmTables ι n) :=
  (hypWalk (s.cpu G x) s.mem (s.pt i).root).bind fun pa =>
    (hypStore (s.cpu G x) s.mem ((s.pt x).root + index * 8#n)
      (armPteSet (BitVec.ofNat 64 pa) pteTableType pteHypFlags)).map fun mem =>
        ⟨mem, recursiveArch s x i index⟩

/-- What the code does. -/
def ArmPtOp.run (s : ArmTables ι n) : ArmPtOp ι n → Option (ArmTables ι n)
  | .setRecursive x i index => ptSetRecursive G s x i index
  | .write x i lvl va w =>
      (hypStore (s.cpu G x) s.mem (armPtGetPte (s.pt x) (s.pt i) lvl va) w).map fun mem =>
        { s with mem := mem }
  | .allocPt x i lvl va base =>
      (armMemAllocPt (s.cpu G x) (s.pt i) s.mem (armPtGetPte (s.pt x) (s.pt i) lvl va) lvl va
        base).map fun mem => { s with mem := mem }

/-- What it means for the flat tables. -/
def ArmPtOp.spec (f : ArmFlat ι) : ArmPtOp ι n → ArmFlat ι
  | .setRecursive x i index =>
      { f with
        hung := Function.update f.hung x (Function.update (f.hung x) index.toNat (some i)) }
  | .write _ i lvl va w =>
      { f with
        table := Function.update f.table i (put (f.table i) lvl
          ((G.dscr i).index lvl va.toNat) (armView.view (G.dscr i).lvls lvl (armSlot w))) }
  | .allocPt _ i lvl va _ =>
      { f with
        table := Function.update f.table i (grow (G.dscr i) (f.table i) lvl
          ((G.dscr i).index lvl va.toNat) fun _ =>
            .hole (markOf (f.table i lvl ((G.dscr i).index lvl va.toNat)))) }

end Code

/-- The CPU has its own root and the address space's in its root. -/
def ArmTables.sees (s : ArmTables ι n) (f : ArmFlat ι) (x i : ι) : Prop :=
  f.hung x (s.pt x).recInd.toNat = some x ∧ f.hung x (s.pt i).recInd.toNat = some i

/-- An entry of the flat table that exists, of an address of the space. -/
def ArmFlat.reached (f : ArmFlat ι) (i : ι) (lvl : Nat) (va : BitVec n) : Prop :=
  lvl < (G.dscr i).lvls ∧ (G.space i).covers va.toNat ∧
    reaches (G.dscr i) (f.table i) va.toNat lvl = true

/-- **What the callers see to.**  The CPU's root and the other one are mapped where
`pt_set_recursive` is called, and the index is one that is kept for it.  A store goes to
an entry that exists and writes no table, and a table is made of a page that is none
yet, in the place of an entry that is no table. -/
def ArmPtOp.Ok (s : ArmTables ι n) (f : ArmFlat ι) : ArmPtOp ι n → Prop
  | .setRecursive x i index =>
      G.isCpu x = true ∧ (x = i ∨ G.isCpu i = false) ∧ index.toNat < (G.dscr x).fan 0 ∧
        G.skip x index.toNat = true ∧
        hypWalk (s.cpu G x) s.mem (s.pt i).root = some (G.rootPage i * 2 ^ 12) ∧
        hypWalk (s.cpu G x) s.mem ((s.pt x).root + index * 8#n) =
          some ((G.rootPage x * 2 ^ armFormat.bits + index.toNat) * 2 ^ armFormat.bytes)
  | .write x i lvl va w =>
      s.sees f x i ∧ f.reached G i lvl va ∧ (lvl + 1 < (G.dscr i).lvls → (armSlot w).page? = none)
  | .allocPt x i lvl va base =>
      s.sees f x i ∧ f.reached G i lvl va ∧ lvl + 1 < (G.dscr i).lvls ∧
        f.table i lvl ((G.dscr i).index lvl va.toNat) ≠ .table ∧
        base.toNat % 2 ^ 12 = 0 ∧ base.toNat < 2 ^ 48 ∧
        Fresh armFormat.bits (armSlots s.mem) G.space (base.toNat / 2 ^ 12)

/-- **The memory shows the flat tables.** -/
structure ArmTablesShow (s : ArmTables ι n) (f : ArmFlat ι) : Prop where
  dscr : ∀ i, (s.pt i).dscr = G.dscr i
  shows : ∀ i, Shows armFormat.bits (armSlots s.mem) armView (G.space i) (f.table i)
  apart : Apart armFormat.bits (armSlots s.mem) G.space
  hung : ∀ x idx i, f.hung x idx = some i →
    G.isCpu x = true ∧ idx < (G.dscr x).fan 0 ∧ G.skip x idx = true ∧
      ∃ fl, armSlots s.mem (G.rootPage x * 2 ^ armFormat.bits + idx) = .next (G.rootPage i) fl
  masks : ∀ x, f.hung x (s.pt x).recInd.toNat = some x →
    (s.pt x).recMask = recMaskOf (G.dscr x) (s.pt x).recInd

variable {G} {s : ArmTables ι n} {f : ArmFlat ι} {x i : ι} {lvl : Nat} {va : BitVec n}

/-! ## What a CPU sees -/

theorem ArmSpaces.narrow (i : ι) : Narrow armFormat.bits (G.space i) := by
  intro l hl
  apply Nat.pow_le_pow_right (by decide)
  change (G.dscr i).wdt l - (G.dscr i).off l ≤ 9
  cases l with
  | zero =>
      have := G.root_le i
      omega
  | succ l =>
      have := (G.levels i).wdt_eq (by omega) hl
      omega

/-- The root entries of an address are in the one page of the root. -/
theorem ArmSpaces.root_lt {a : Nat} (ha : a < 2 ^ (G.dscr i).wdt 0) :
    a / (G.dscr i).size 0 < 2 ^ 9 := by
  have hwdt := G.root_le i
  rw [Shape.size, Nat.div_lt_iff_lt_mul (Nat.two_pow_pos _), ← Nat.pow_add]
  exact Nat.lt_of_lt_of_le ha (Nat.pow_le_pow_right (by decide) (by omega))

namespace ArmTablesShow

/-- **A CPU sees the tables** that are hung into its root. -/
theorem armSees (h : ArmTablesShow G s f) (hsees : s.sees f x i) :
    ArmSees (s.cpu G x) (s.pt i) (armSlots s.mem) (G.rootPage i) := by
  obtain ⟨hcpu, hown, -, hself⟩ := h.hung x _ x hsees.1
  obtain ⟨-, hidx, -, hroot⟩ := h.hung x _ i hsees.2
  have hdscr : (s.cpu G x).pt.dscr = G.dscr x := h.dscr x
  constructor
  · constructor
    · rw [hdscr]
      exact G.levels x
    · rw [hdscr]
      exact G.root_le x
    · rw [hdscr]
      exact G.wdt_le x hcpu
    · exact G.word_le
    · rw [hdscr]
      exact hown
    · rw [hdscr]
      exact h.masks x hsees.1
  · rw [h.dscr i]
    exact G.levels i
  · rw [hdscr]
    exact hidx
  · rw [hdscr, h.dscr i]
    exact G.lvls_le x i hcpu
  · exact hself
  · exact hroot

/-- The entry of the walk, and that `pt_get_pte` shows it. -/
theorem entry (h : ArmTablesShow G s f) (hsees : s.sees f x i) (hreach : f.reached G i lvl va) :
    ∃ e, entryAt armFormat.bits (G.dscr i) (armSlots s.mem) (G.rootPage i) va.toNat lvl = some e ∧
      hypWalk (s.cpu G x) s.mem (armPtGetPte (s.pt x) (s.pt i) lvl va) =
        some (e * 2 ^ armFormat.bytes) ∧
      armView.view (G.dscr i).lvls lvl (armSlots s.mem e) =
        f.table i lvl ((G.dscr i).index lvl va.toNat) := by
  obtain ⟨hlvl, hcov, hreached⟩ := hreach
  obtain ⟨p, hp, hview⟩ := h.shows i va.toNat lvl hcov hlvl hreached
  have hdscr := h.dscr i
  have hwalk := @ArmSees.ptGetPte _ _ _ _ _ p lvl va (h.armSees hsees)
    (by rw [hdscr]; exact hlvl) (by rw [hdscr]; exact hcov.1)
    (by rw [hdscr]; exact ArmSpaces.root_lt hcov.1) (by rw [hdscr]; exact hp)
  rw [hdscr] at hwalk
  exact ⟨_, entryAt_eq_some.mpr ⟨p, hp, rfl⟩, hwalk, hview⟩

/-- **What is read through `pt_get_pte`** is the entry of the flat table. -/
theorem load (h : ArmTablesShow G s f) (hsees : s.sees f x i) (hreach : f.reached G i lvl va) :
    ∃ w, hypLoad (s.cpu G x) s.mem (armPtGetPte (s.pt x) (s.pt i) lvl va) = some w ∧
      armView.view (G.dscr i).lvls lvl (armSlot w) =
        f.table i lvl ((G.dscr i).index lvl va.toNat) := by
  obtain ⟨e, -, hwalk, hview⟩ := h.entry hsees hreach
  refine ⟨s.mem e, ?_, hview⟩
  rw [hypLoad, hwalk, Option.map_some, Nat.mul_div_cancel _ (Nat.two_pow_pos _)]

/-- An entry kept for the recursive mapping is the entry of no walk. -/
theorem skipped (h : ArmTablesShow G s f) {idx : Nat} (hidx : idx < (G.dscr x).fan 0)
    (hskip : G.skip x idx = true) {j : ι} {b k : Nat} (hb : (G.space j).covers b)
    (hk : k < (G.dscr j).lvls) :
    entryAt armFormat.bits (G.dscr j) (armSlots s.mem) (G.rootPage j) b k ≠
      some (G.rootPage x * 2 ^ armFormat.bits + idx) := by
  obtain ⟨a, ha⟩ := G.used x
  exact h.apart.skipped (i := x) ArmSpaces.narrow ha
    (Nat.lt_of_lt_of_le hidx (ArmSpaces.narrow x 0 (G.dscr x).lvls_pos)) hskip hb hk

/-- Different address spaces have different roots. -/
theorem rootPage_inj (h : ArmTablesShow G s f) {y : ι} (heq : G.rootPage x = G.rootPage y) :
    x = y := by
  obtain ⟨a, ha⟩ := G.used x
  obtain ⟨b, hb⟩ := G.used y
  exact (h.apart x y a b 0 0 (G.rootPage x) ha hb (G.dscr x).lvls_pos (G.dscr y).lvls_pos rfl
    (congrArg some heq.symm)).1

end ArmTablesShow

/-! ## What the MMUs translate -/

/-- The MMU's walk from a level on is the flat table's. -/
theorem ArmTablesShow.walkFrom (h : ArmTablesShow G s f) {a left l p : Nat}
    (ha : (G.space i).covers a) (hleft : l + left + 1 = (G.dscr i).lvls)
    (hreach : reaches (G.dscr i) (f.table i) a l = true)
    (hp : tableOf armFormat.bits (G.dscr i) (armSlots s.mem) (G.rootPage i) a l = some p) :
    RecursiveMap.walkFrom armFormat (G.dscr i) (armSlots s.mem) a (left + 1) l p =
      (lookup (G.dscr i) (f.table i) a (left + 1) l).map Prod.fst := by
  induction left generalizing l p with
  | zero =>
      obtain ⟨p', hp', hview⟩ := h.shows i a l ha (by change l < (G.dscr i).lvls; omega) hreach
      cases hp.symm.trans hp'
      have hlast : ¬ l + 1 < (G.dscr i).lvls := by omega
      have hsize : (G.dscr i).size l = 2 ^ 12 := by
        rw [Shape.size, G.levels i l (by omega)]
        congr 1
        omega
      change armView.view (G.dscr i).lvls l
        (armSlots s.mem (p * 2 ^ armFormat.bits + slot (G.dscr i) l a)) =
          f.table i l ((G.dscr i).index l a) at hview
      rw [RecursiveMap.walkFrom, lookup, ← hview]
      cases armSlots s.mem (p * 2 ^ armFormat.bits + slot (G.dscr i) l a) with
      | hole mark => rfl
      | block base flags =>
          simp only [armView, if_neg hlast, if_true, Option.map_none]
      | next page flags =>
          simp only [armView, if_neg hlast, Option.map_some, hsize]
          rfl
  | succ left ih =>
      obtain ⟨p', hp', hview⟩ := h.shows i a l ha (by change l < (G.dscr i).lvls; omega) hreach
      cases hp.symm.trans hp'
      have hl : l + 1 < (G.dscr i).lvls := by omega
      change armView.view (G.dscr i).lvls l
        (armSlots s.mem (p * 2 ^ armFormat.bits + slot (G.dscr i) l a)) =
          f.table i l ((G.dscr i).index l a) at hview
      rw [RecursiveMap.walkFrom, lookup, ← hview]
      cases hentry : armSlots s.mem (p * 2 ^ armFormat.bits + slot (G.dscr i) l a) with
      | hole mark => rfl
      | block base flags =>
          simp only [armView, if_pos hl, Nat.succ_ne_zero, if_false, Option.map_some]
      | next page flags =>
          simp only [armView, if_pos hl]
          apply ih (by omega)
          · rw [reaches_succ, ← hview, hentry]
            exact ⟨hreach, if_pos hl⟩
          · exact tableOf_succ.mpr ⟨p, hp, by rw [hentry]; rfl⟩

/-- **What the MMU translates** is what the flat table says. -/
theorem ArmTablesShow.walk (h : ArmTablesShow G s f) {a : Nat} (ha : (G.space i).covers a) :
    RecursiveMap.walk armFormat (G.dscr i) (armSlots s.mem) (G.rootPage i) a =
      (RadixTable.translate (G.dscr i) (f.table i) a).map Prod.fst := by
  obtain ⟨left, hleft⟩ : ∃ left, (G.dscr i).lvls = left + 1 :=
    ⟨(G.dscr i).lvls - 1, by have := (G.dscr i).lvls_pos; omega⟩
  rw [RecursiveMap.walk, RadixTable.translate, hleft]
  exact h.walkFrom ha (by omega) rfl rfl

/-! ## One step -/

theorem armSlots_update {mem : PtWords} {e : Nat} {w : BitVec 64} :
    armSlots (Function.update mem e w) = Function.update (armSlots mem) e (armSlot w) := by
  funext e'
  unfold armSlots
  by_cases he : e' = e
  · rw [he, Function.update_self, Function.update_self]
  · rw [Function.update_of_ne he, Function.update_of_ne he]

theorem hypStore_of_walk {cpu : ArmCpu n} {mem : PtWords} {e : Nat} {w : BitVec 64}
    (h : hypWalk cpu mem va = some (e * 2 ^ armFormat.bytes)) :
    hypStore cpu mem va w = some (Function.update mem e w) := by
  rw [hypStore, h, Option.map_some, Nat.mul_div_cancel _ (Nat.two_pow_pos _)]

/-- The entries for the recursive mapping survive what is done to the others. -/
theorem ArmTablesShow.hung_kept (h : ArmTablesShow G s f) {mem : PtWords}
    (hmem : ∀ x idx, idx < (G.dscr x).fan 0 → G.skip x idx = true →
      armSlots mem (G.rootPage x * 2 ^ armFormat.bits + idx) =
        armSlots s.mem (G.rootPage x * 2 ^ armFormat.bits + idx)) (x : ι) (idx : Nat) (i : ι)
    (hi : f.hung x idx = some i) :
    G.isCpu x = true ∧ idx < (G.dscr x).fan 0 ∧ G.skip x idx = true ∧
      ∃ fl, armSlots mem (G.rootPage x * 2 ^ armFormat.bits + idx) = .next (G.rootPage i) fl := by
  obtain ⟨hcpu, hidx, hskip, hroot⟩ := h.hung x idx i hi
  rw [← hmem x idx hidx hskip] at hroot
  exact ⟨hcpu, hidx, hskip, hroot⟩

variable [DecidableEq ι]

/-- **A store through `pt_get_pte`** puts the entry into the flat table. -/
theorem ArmTablesShow.write (h : ArmTablesShow G s f) {w : BitVec 64} (hsees : s.sees f x i)
    (hreach : f.reached G i lvl va)
    (hw : lvl + 1 < (G.dscr i).lvls → (armSlot w).page? = none) :
    ∃ s', ArmPtOp.run G s (.write x i lvl va w) = some s' ∧
      ArmTablesShow G s' (ArmPtOp.spec G f (.write x i lvl va w)) := by
  obtain ⟨e, he, hwalk, -⟩ := h.entry hsees hreach
  obtain ⟨hlvl, hcov, -⟩ := hreach
  refine ⟨{ s with mem := Function.update s.mem e w }, ?_, ?_⟩
  · rw [ArmPtOp.run, hypStore_of_walk hwalk]
    rfl
  · constructor
    · exact h.dscr
    · intro j
      rw [armSlots_update]
      exact Shows.store (V := armView) h.shows h.apart ArmSpaces.narrow hcov hlvl he hw j
    · rw [armSlots_update]
      exact h.apart.store ArmSpaces.narrow hcov hlvl he hw
    · apply h.hung_kept
      intro y idx hidx hskip
      rw [armSlots_update]
      apply Function.update_of_ne
      rintro rfl
      exact h.skipped hidx hskip hcov hlvl he
    · exact h.masks

theorem recursiveArch_other {index : BitVec n} {j : ι} (hj : j ≠ i) :
    recursiveArch s x i index j = s.pt j := by
  unfold recursiveArch
  dsimp only
  rw [Function.update_of_ne hj, Function.update_of_ne hj]

theorem recursiveArch_same {index : BitVec n} :
    recursiveArch s x i index i = { s.pt i with
      recInd := index
      recMask := recMaskOf (s.pt i).dscr
        (Function.update s.pt i { s.pt i with recInd := index, recMask := 0#64 } x).recInd } := by
  unfold recursiveArch
  dsimp only
  rw [Function.update_self, Function.update_self]

theorem spec_hung {index : BitVec n} {y : ι} {idx : Nat} :
    (ArmPtOp.spec G f (.setRecursive x i index)).hung y idx =
      if y = x ∧ idx = index.toNat then some i else f.hung y idx := by
  change Function.update f.hung x (Function.update (f.hung x) index.toNat (some i)) y idx = _
  by_cases hy : y = x
  · subst hy
    by_cases hidx : idx = index.toNat
    · rw [Function.update_self, hidx, Function.update_self, if_pos ⟨rfl, rfl⟩]
    · rw [Function.update_self, Function.update_of_ne hidx, if_neg fun h => hidx h.2]
  · rw [Function.update_of_ne hy, if_neg fun h => hy h.1]

/-- **`pt_set_recursive`** hangs the root into the CPU's and changes no table. -/
theorem ArmTablesShow.setRecursive (h : ArmTablesShow G s f) {index : BitVec n}
    (hok : ArmPtOp.Ok G s f (.setRecursive x i index)) :
    ∃ s', ArmPtOp.run G s (.setRecursive x i index) = some s' ∧
      ArmTablesShow G s' (ArmPtOp.spec G f (.setRecursive x i index)) := by
  obtain ⟨hcpu, hown, hidx, hskip, hroot, hentry⟩ := hok
  have hpage := G.rootPage_lt i
  have hpa : (BitVec.ofNat 64 (G.rootPage i * 2 ^ 12)).toNat = G.rootPage i * 2 ^ 12 := by
    rw [BitVec.toNat_ofNat]
    exact Nat.mod_eq_of_lt (by omega)
  have hslot := @armSlot_table (BitVec.ofNat 64 (G.rootPage i * 2 ^ 12))
    (by rw [hpa]; exact Nat.mul_mod_left _ _) (by rw [hpa]; omega)
  rw [hpa, Nat.mul_div_cancel _ (Nat.two_pow_pos 12)] at hslot
  refine ⟨⟨Function.update s.mem (G.rootPage x * 2 ^ armFormat.bits + index.toNat)
    (armPteSet (BitVec.ofNat 64 (G.rootPage i * 2 ^ 12)) pteTableType pteHypFlags),
    recursiveArch s x i index⟩, ?_, ?_⟩
  · rw [ArmPtOp.run, ptSetRecursive, hroot, Option.bind_some, hypStore_of_walk hentry,
      Option.map_some]
  · have hframe : ∀ j b k e, (G.space j).covers b → k < (G.space j).shape.lvls →
        entryAt armFormat.bits (G.space j).shape (armSlots s.mem) (G.space j).root b k = some e →
        Function.update (armSlots s.mem) (G.rootPage x * 2 ^ armFormat.bits + index.toNat)
          (armSlot (armPteSet (BitVec.ofNat 64 (G.rootPage i * 2 ^ 12)) pteTableType pteHypFlags))
          e = armSlots s.mem e := by
      intro j b k e hb hk he
      apply Function.update_of_ne
      rintro rfl
      exact h.skipped hidx hskip hb hk he
    constructor
    · intro j
      by_cases hj : j = i
      · subst hj
        dsimp only
        rw [recursiveArch_same]
        exact h.dscr j
      · dsimp only
        rw [recursiveArch_other hj]
        exact h.dscr j
    · intro j
      rw [armSlots_update]
      exact Shows.frame h.shows hframe j
    · rw [armSlots_update]
      exact h.apart.frame hframe
    · intro y idx j hj
      rw [armSlots_update]
      by_cases hsame : y = x ∧ idx = index.toNat
      · obtain ⟨rfl, rfl⟩ := hsame
        rw [spec_hung, if_pos ⟨rfl, rfl⟩] at hj
        cases hj
        refine ⟨hcpu, hidx, hskip, pteTableType ||| pteHypFlags, ?_⟩
        rw [Function.update_self, hslot]
      · have hold : f.hung y idx = some j := by
          rwa [spec_hung, if_neg hsame] at hj
        obtain ⟨hcpu', hidx', hskip', hroot'⟩ := h.hung y idx j hold
        refine ⟨hcpu', hidx', hskip', ?_⟩
        rw [Function.update_of_ne]
        · exact hroot'
        · intro heq
          have hplace := place_inj
            (Nat.lt_of_lt_of_le hidx' (ArmSpaces.narrow y 0 (G.dscr y).lvls_pos))
            (Nat.lt_of_lt_of_le hidx (ArmSpaces.narrow x 0 (G.dscr x).lvls_pos)) heq
          exact hsame ⟨h.rootPage_inj hplace.1, hplace.2⟩
    · intro y hy
      dsimp only at hy ⊢
      by_cases hyi : y = i
      · subst hyi
        rw [recursiveArch_same] at hy ⊢
        rcases hown with rfl | hcpu'
        · dsimp only
          rw [Function.update_self, h.dscr x]
        · -- a table that is no CPU's is in no root as its own
          exfalso
          rw [spec_hung] at hy
          split at hy
          · next hsame =>
            rw [hsame.1, hcpu] at hcpu'
            cases hcpu'
          · obtain ⟨hcpu, -⟩ := h.hung _ _ _ hy
            rw [hcpu] at hcpu'
            cases hcpu'
      · rw [recursiveArch_other hyi] at hy ⊢
        apply h.masks y
        rw [spec_hung] at hy
        split at hy
        · cases hy
          exact (hyi rfl).elim
        · exact hy

/-- The entries of a new table are marked as the entry was. -/
theorem markOf_view {lvls l : Nat} {w : BitVec 64} (hl : l + 1 < lvls)
    (hw : (armSlot w).page? = none) :
    markOf (armView.view lvls l (armSlot w)) = armPteCheckRsw w pteRswRsrv := by
  unfold armSlot at hw ⊢
  split
  · next hvalid =>
    rw [if_pos hvalid] at hw
    split
    · next htype =>
      rw [if_pos htype] at hw
      cases hw
    · have hmask : ~~~pteAddrMsk &&& pteRswMsk = pteRswMsk := by decide
      change markOf (if l + 1 < lvls then _ else _) = _
      rw [if_pos hl, markOf, armPteCheckRsw, armPteCheckRsw, BitVec.and_assoc, hmask]
  · rfl

/-- **`mem_alloc_pt`** grows the flat table. -/
theorem ArmTablesShow.allocPt (h : ArmTablesShow G s f) {base : BitVec 64}
    (hok : ArmPtOp.Ok G s f (.allocPt x i lvl va base)) :
    ∃ s', ArmPtOp.run G s (.allocPt x i lvl va base) = some s' ∧
      ArmTablesShow G s' (ArmPtOp.spec G f (.allocPt x i lvl va base)) := by
  obtain ⟨hsees, hreach, hl, hnone, hal, hlt, hfresh⟩ := hok
  have hdscr := h.dscr i
  have harm := h.armSees hsees
  obtain ⟨e, he, hwalk, hview⟩ := h.entry hsees hreach
  obtain ⟨hlvl, hcov, -⟩ := hreach
  obtain ⟨p, hp, hpe⟩ := entryAt_eq_some.mp he
  have hleaf : (armSlots s.mem e).page? = none := by
    rw [← hview, Ne, armView.view_table] at hnone
    cases hpage : (armSlots s.mem e).page? with
    | none => rfl
    | some q => exact (hnone ⟨hl, by rw [hpage]; rfl⟩).elim
  have hplace : e / 2 ^ armFormat.bits ≠ base.toNat / 2 ^ 12 := by
    rw [← hpe]
    exact hfresh.place ArmSpaces.narrow hcov hlvl hp
  have hslot := armSlot_table hal hlt
  have hparts := fun k => @armSlots_partFilled s.mem e _ k _ (0#64 ||| (s.mem e &&& pteRswMsk)) _
    hslot
  -- the entries for the recursive mapping are neither in the new table nor its entry
  have hkept : ∀ y idx, idx < (G.dscr y).fan 0 → G.skip y idx = true → ∀ g,
      hang armFormat.bits (armSlots s.mem) e (base.toNat / 2 ^ 12)
        (pteTableType ||| pteHypFlags) g (G.rootPage y * 2 ^ armFormat.bits + idx) =
      armSlots s.mem (G.rootPage y * 2 ^ armFormat.bits + idx) := by
    intro y idx hidx hskip g
    obtain ⟨a, ha⟩ := G.used y
    apply hang_other
    · rw [place_div (Nat.lt_of_lt_of_le hidx (ArmSpaces.narrow y 0 (G.dscr y).lvls_pos))]
      intro heq
      exact hfresh y a 0 ha (G.dscr y).lvls_pos (congrArg some heq)
    · rintro rfl
      exact h.skipped hidx hskip hcov hlvl he
  have hseen : ∀ k, ArmSees (s.cpu G x) (s.pt i) (armSlots (partFilled s.mem e
      (base.toNat / 2 ^ 12) (armPteSet base pteTableType pteHypFlags)
      (0#64 ||| (s.mem e &&& pteRswMsk)) k)) (G.rootPage i) := by
    intro k
    obtain ⟨-, hidx, hskip, -⟩ := h.hung x _ x hsees.1
    obtain ⟨-, hidx', hskip', -⟩ := h.hung x _ i hsees.2
    apply harm.congr
    · rw [hparts k]
      exact hkept x _ hidx hskip _
    · rw [hparts k]
      exact hkept x _ hidx' hskip' _
  have htable : ∀ k, tableOf armFormat.bits (s.pt i).dscr (armSlots (partFilled s.mem e
      (base.toNat / 2 ^ 12) (armPteSet base pteTableType pteHypFlags)
      (0#64 ||| (s.mem e &&& pteRswMsk)) k)) (G.rootPage i) va.toNat (lvl + 1) =
        some (base.toNat / 2 ^ 12) := by
    intro k
    rw [hdscr, hparts k]
    refine tableOf_succ.mpr ⟨p, @tableOf_hang _ _ _ _ _ _ _ _ _ G.space i _ _ hfresh
      ArmSpaces.narrow hleaf hcov hlvl hp, ?_⟩
    rw [hpe, hang_entry hplace]
    rfl
  have hfan : (s.pt i).dscr.fan (lvl + 1) = 2 ^ armFormat.bits := by
    have hwdt := (G.levels i).wdt_eq (l := lvl + 1) (by omega) hl
    rw [hdscr, Shape.fan, hwdt, Nat.add_sub_cancel_left]
    rfl
  have hfill := @ArmSees.fill _ _ _ _ _ (lvl + 1) va _ _ _ _ (by omega) (by rw [hdscr]; exact hl)
    (by rw [hdscr]; exact hcov.1) (by rw [hdscr]; exact ArmSpaces.root_lt hcov.1) hseen htable
    _ (Nat.le_refl _)
  rw [partFilled_zero hplace] at hfill
  refine ⟨⟨partFilled s.mem e (base.toNat / 2 ^ 12) (armPteSet base pteTableType pteHypFlags)
    (0#64 ||| (s.mem e &&& pteRswMsk)) (2 ^ armFormat.bits), s.pt⟩, ?_, ?_⟩
  · have hload : hypLoad (s.cpu G x) s.mem (armPtGetPte (s.pt x) (s.pt i) lvl va) =
        some (s.mem e) := by
      rw [hypLoad, hwalk, Option.map_some, Nat.mul_div_cancel _ (Nat.two_pow_pos _)]
    rw [ArmPtOp.run, armMemAllocPt, hload, Option.bind_some, hypStore_of_walk hwalk,
      Option.bind_some, hfan]
    exact congrArg (Option.map _) hfill
  · have hg : ∀ _ : Nat, (armSlot (0#64 ||| (s.mem e &&& pteRswMsk))).page? = none := by
      intro _
      rw [armSlot_dflt]
      rfl
    constructor
    · exact h.dscr
    · intro j
      rw [armSlots_filled hslot]
      have hshow := @Shows.hang _ _ _ _ _ _ _ armView _ _ _ _ (pteTableType ||| pteHypFlags) _
        h.shows h.apart hfresh ArmSpaces.narrow hcov hl he hleaf hg _ j
      have hmark : ∀ n : Nat, armView.view (G.dscr i).lvls (lvl + 1)
          (armSlot (0#64 ||| (s.mem e &&& pteRswMsk))) =
          .hole (markOf (f.table i lvl ((G.dscr i).index lvl va.toNat))) := by
        intro _
        rw [← hview, armSlots, markOf_view hl hleaf, armSlot_dflt]
        rfl
      have hgrow := funext hmark
      rw [show (G.space i).shape = G.dscr i from rfl, hgrow] at hshow
      exact hshow
    · rw [armSlots_filled hslot]
      exact h.apart.hang hfresh ArmSpaces.narrow hcov hl he hg
    · apply h.hung_kept
      intro y idx hidx hskip
      rw [armSlots_filled hslot]
      exact hkept y idx hidx hskip _
    · exact h.masks

/-! ## Runs -/

variable (G) in
/-- Every operation of the run is one its callers may do, where it comes. -/
def OkRun : List (ArmPtOp ι n) → ArmTables ι n → ArmFlat ι → Prop
  | [], _, _ => True
  | op :: ops, s, f =>
      ArmPtOp.Ok G s f op ∧
        ∀ s', ArmPtOp.run G s op = some s' → OkRun ops s' (ArmPtOp.spec G f op)

theorem ArmTablesShow.step (h : ArmTablesShow G s f) {op : ArmPtOp ι n}
    (hok : ArmPtOp.Ok G s f op) :
    ∃ s', ArmPtOp.run G s op = some s' ∧ ArmTablesShow G s' (ArmPtOp.spec G f op) := by
  cases op with
  | setRecursive x i index => exact h.setRecursive hok
  | write x i lvl va w => exact h.write hok.1 hok.2.1 hok.2.2
  | allocPt x i lvl va base => exact h.allocPt hok

theorem ArmTablesShow.run {ops : List (ArmPtOp ι n)} (h : ArmTablesShow G s f)
    (hok : OkRun G ops s f) :
    ∃ s', ops.foldlM (ArmPtOp.run G) s = some s' ∧
      ArmTablesShow G s' (ops.foldl (ArmPtOp.spec G) f) := by
  induction ops generalizing s f with
  | nil => exact ⟨s, rfl, h⟩
  | cons op ops ih =>
      obtain ⟨s1, hrun, hshow⟩ := h.step hok.1
      obtain ⟨s', hrest, hlast⟩ := ih hshow (hok.2 s1 hrun)
      refine ⟨s', ?_, hlast⟩
      rw [List.foldlM_cons, hrun]
      exact hrest

/-- A CPU whose root is in page 1. -/
def oneArmCpu : ArmSpaces Unit 64 where
  dscr _ := armCpuShape
  rootPage _ := 1
  isCpu _ := true
  skip _ idx := idx == 510 || idx == 511
  levels _ := armLevels_armCpuShape
  root_le _ := armCpuTable_armCpuPt.root_le
  lvls_le _ _ _ := Nat.le_refl _
  wdt_le _ _ := armCpuTable_armCpuPt.wdt_le
  word_le := armCpuTable_armCpuPt.word_le
  rootPage_lt _ := Nat.one_lt_two_pow (Nat.succ_ne_zero 35)
  used _ := ⟨0, Nat.two_pow_pos _, rfl⟩

/-- Its memory, with nothing but the entry for itself. -/
def oneArmCpuTables : ArmTables Unit 64 where
  mem e := if e = 1023 then armPteSet 0x1000#64 pteTableType pteHypFlags else 0#64
  pt _ := armCpuPt

def oneArmCpuFlat : ArmFlat Unit where
  table _ _ _ := .hole false
  hung _ idx := if idx = 511 then some () else none

/-- Its entries are holes, so that only the root is there. -/
theorem oneArmCpu_entry {a : Nat} (ha : (oneArmCpu.space ()).covers a) :
    armSlots oneArmCpuTables.mem (1 * 2 ^ armFormat.bits + slot armCpuShape 0 a) = .hole false := by
  have hlt : a / armCpuShape.size 0 < 2 ^ 9 := ArmSpaces.root_lt (G := oneArmCpu) (i := ()) ha.1
  have hslot : slot armCpuShape 0 a = a / armCpuShape.size 0 := Nat.mod_eq_of_lt hlt
  have hskip : slot armCpuShape 0 a ≠ 511 := by
    intro heq
    have hcov : oneArmCpu.skip () (a / armCpuShape.size 0) = false := ha.2
    rw [← hslot, heq] at hcov
    cases hcov
  have hne : 1 * 2 ^ armFormat.bits + slot armCpuShape 0 a ≠ 1023 := by
    change 1 * 2 ^ 9 + slot armCpuShape 0 a ≠ 1023
    omega
  change armSlot (if _ then _ else _) = _
  rw [if_neg hne]
  decide

theorem oneArmCpu_tableOf {a k p : Nat} (ha : (oneArmCpu.space ()).covers a)
    (h : tableOf armFormat.bits armCpuShape (armSlots oneArmCpuTables.mem) 1 a k = some p) :
    k = 0 ∧ p = 1 := by
  induction k generalizing p with
  | zero => exact ⟨rfl, (Option.some.inj h).symm⟩
  | succ k ih =>
      obtain ⟨q, hq, hpage⟩ := tableOf_succ.mp h
      obtain ⟨rfl, rfl⟩ := ih hq
      rw [oneArmCpu_entry ha] at hpage
      cases hpage

theorem oneArmCpu_show : ArmTablesShow oneArmCpu oneArmCpuTables oneArmCpuFlat := by
  constructor
  · exact fun _ => rfl
  · intro _ a l ha _ hreach
    cases l with
    | zero =>
        refine ⟨1, rfl, ?_⟩
        have hentry := oneArmCpu_entry ha
        change armView.view 4 0
          (armSlots oneArmCpuTables.mem (1 * 2 ^ armFormat.bits + slot armCpuShape 0 a)) = _
        rw [hentry]
        rfl
    | succ l => cases (reaches_succ.mp hreach).2
  · intro _ _ a b l k p ha hb hl _ hp hp'
    obtain ⟨rfl, rfl⟩ := oneArmCpu_tableOf ha hp
    obtain ⟨rfl, -⟩ := oneArmCpu_tableOf hb hp'
    have hzero : ∀ c, armCpuShape.index 0 c / armCpuShape.fan 0 = 0 :=
      fun c => Nat.div_eq_of_lt (Nat.mod_lt _ (Nat.two_pow_pos _))
    exact ⟨rfl, rfl, (hzero a).trans (hzero b).symm⟩
  · rintro ⟨⟩ idx ⟨⟩ hidx
    have h511 : idx = 511 := by
      by_contra hne
      rw [show oneArmCpuFlat.hung () idx = none from if_neg hne] at hidx
      cases hidx
    subst h511
    refine ⟨rfl, by decide, rfl, pteTableType ||| pteHypFlags, ?_⟩
    have hself : oneArmCpuTables.mem 1023 = armPteSet 0x1000#64 pteTableType pteHypFlags := by
      change (if 1023 = 1023 then armPteSet 0x1000#64 pteTableType pteHypFlags else 0#64) = _
      rw [if_pos rfl]
    change armSlot (oneArmCpuTables.mem 1023) = _
    rw [hself]
    exact @armSlot_table 0x1000#64 (by decide) (by decide)
  · exact fun _ _ => rfl

end Bao

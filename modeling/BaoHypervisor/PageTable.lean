import BaoHypervisor.Machine
import BaoHypervisor.RadixTable

/-!
# Page tables

What `mem.c` of the MMU build does with one page table: `pt_get_pte`,
`mem_alloc_pt` and `mem_expand_pte`.  A page table is kept by level and index, as
the recursive mapping shows it; the entry of a level that is not reached through
tables does not exist, and an access to it stops the run.  Only `pt_get_pte` of
RISC-V, which walks the tables, has NULL for it where the entry above is a hole.
-/

namespace Bao

open RadixTable

variable {F : Type}

/-- `struct section`; `last` is its field `end`. -/
structure Section where
  beg : Nat
  last : Nat
  shared : Bool
  deriving DecidableEq

/-- `AS_HYP`, `AS_HYP_CPY` and `AS_VM`. -/
inductive PtAsType where
  | hyp
  | hypCpy
  | vm
  deriving DecidableEq

/-- An address space: its `struct page_table_dscr`, the sections of its type, and
`PTE_HYP_FLAGS` and `PTE_VM_FLAGS`.  The addresses the hardware translates are
those whose part beyond the input of the table is `vaHigh`; `physWalk` is true on
RISC-V. -/
structure PtAddrSpace (M : Machine) (F : Type) where
  dscr : Shape
  asType : PtAsType
  sections : List Section
  hypFlags : F
  vmFlags : F
  vaHigh : Nat
  physWalk : Bool
  off_last : dscr.off (dscr.lvls - 1) = M.pageBits
  lvls_lt : dscr.lvls < M.wordCount
  sections_lt : ∀ sec ∈ sections, sec.last < M.wordCount

/-- The flags `mem_expand_pte` gives to the entries of a new table. -/
def PtAddrSpace.flags {M : Machine} (A : PtAddrSpace M F) : F :=
  match A.asType with
  | .hyp => A.hypFlags
  | _ => A.vmFlags

/-- The entries of the address space, the number of `mem_alloc_ppages` calls for
tables so far, and the pages passed to `mem_free_ppages`. -/
structure PtState (F : Type) where
  pte : Table F
  allocs : Nat
  freed : List (Nat × Nat)

/-- `mem_find_sec`. -/
def memFindSec (sections : List Section) (va : Nat) : Option Section :=
  sections.find? fun sec => decide (sec.beg ≤ va) && decide (va ≤ sec.last)

/-- `pte_table`. -/
def pteTable : Entry F → Bool
  | .table => true
  | _ => false

/-- `pte_check_rsw(pte, PTE_RSW_RSRV)`; a valid entry is not marked. -/
def pteRsrv : Entry F → Bool
  | .hole mark => mark
  | _ => false

/-- `pte_addr`. -/
def pteAddr : Entry F → Nat
  | .leaf base _ => base
  | _ => 0

/-- `pte_valid`. -/
def pteValid : Entry F → Bool
  | .hole _ => false
  | _ => true

variable {M : Machine} (A : PtAddrSpace M F) (canAlloc : Nat → Bool)

/-- `pt_get_pte`: the index of the entry, if it is reached. -/
def ptGetPte (t : Table F) (lvl va : Nat) : Option Nat :=
  if lvl < A.dscr.lvls ∧ reaches A.dscr t va lvl = true then some (A.dscr.index lvl va) else none

/-- A hole ends the walk for the address above level `lvl`. -/
def holeAbove (t : Table F) (va : Nat) : Nat → Bool
  | 0 => false
  | l + 1 => holeAbove t va l ||
      (reaches A.dscr t va l && !pteValid (t l (A.dscr.index l va)))

/-- `mem_alloc_pt`; whether it has a page for the table is up to the pools. -/
def memAllocPt (s : PtState F) (lvl i : Nat) : Bool × PtState F :=
  if canAlloc s.allocs then
    (true, { s with
      allocs := s.allocs + 1
      pte := grow A.dscr s.pte lvl i fun _ => .hole (pteRsrv (s.pte lvl i)) })
  else (false, { s with allocs := s.allocs + 1 })

/-- `mem_expand_pte`; `none` is an access to an entry that does not exist or a write
through the NULL of `mem_alloc_pt`. -/
def memExpandPte (s : PtState F) (va lvl : Nat) : Option (PtState F) :=
  if A.dscr.lvls - 1 ≤ lvl then some s
  else
    match ptGetPte A s.pte lvl va with
    | none => if A.physWalk = true ∧ holeAbove A s.pte va lvl = true then some s else none
    | some i =>
        match s.pte lvl i with
        | .table => some s
        | .hole rsv =>
            match memAllocPt A canAlloc s lvl i with
            | (true, s1) => some s1
            | (false, s1) => if rsv then none else some s1
        | .leaf paddr _ =>
            match memAllocPt A canAlloc s lvl i with
            | (true, s1) => some { s1 with
                pte := grow A.dscr s1.pte lvl i fun k =>
                  .leaf (paddr + k * A.dscr.size (lvl + 1)) A.flags }
            | (false, _) => none

/-- What the hardware translates the address to. -/
def memTranslates (t : Table F) (va : Nat) : Option (Nat × F) :=
  if va / 2 ^ A.dscr.wdt 0 = A.vaHigh then translate A.dscr t va else none

variable {A canAlloc} {t : Table F} {s s1 : PtState F} {lvl i va v : Nat}

/-! ## One entry -/

theorem ptGetPte_eq_some : ptGetPte A t lvl va = some i ↔
    lvl < A.dscr.lvls ∧ reaches A.dscr t va lvl = true ∧ i = A.dscr.index lvl va := by
  unfold ptGetPte
  split
  · next h =>
    constructor
    · intro heq
      exact ⟨h.1, h.2, (Option.some.inj heq).symm⟩
    · rintro ⟨-, -, rfl⟩
      rfl
  · next h =>
    constructor
    · exact nofun
    · rintro ⟨hlt, hreach, -⟩
      exact (h ⟨hlt, hreach⟩).elim

theorem div_size_eq_iff (hal : v % A.dscr.size lvl = 0) :
    va / A.dscr.size lvl = v / A.dscr.size lvl ↔ v ≤ va ∧ va < v + A.dscr.size lvl := by
  have hpos : 0 < A.dscr.size lvl := Shape.size_pos
  have hv := Nat.div_add_mod v (A.dscr.size lvl)
  have hva := Nat.div_add_mod va (A.dscr.size lvl)
  have hmod := Nat.mod_lt va hpos
  rw [hal, Nat.add_zero] at hv
  constructor
  · intro heq
    rw [heq, hv] at hva
    omega
  · rintro ⟨hlo, hhi⟩
    apply (Nat.div_eq_iff hpos).mpr
    rw [Nat.mul_comm, hv]
    omega

/-- **An entry cleared**: its span does not translate, everything else as before. -/
theorem memTranslates_clear (hl : lvl < A.dscr.lvls) (hreach : reaches A.dscr t v lvl = true)
    (hhigh : v / 2 ^ A.dscr.wdt 0 = A.vaHigh) (hal : v % A.dscr.size lvl = 0) (mark : Bool)
    (va : Nat) :
    memTranslates A (put t lvl (A.dscr.index lvl v) (.hole mark)) va =
      if v ≤ va ∧ va < v + A.dscr.size lvl then none else memTranslates A t va := by
  unfold memTranslates
  by_cases hin : va / 2 ^ A.dscr.wdt 0 = A.vaHigh
  · rw [if_pos hin, if_pos hin]
    have hiff := Shape.index_eq_iff hl (hin.trans hhigh.symm)
    rw [div_size_eq_iff hal] at hiff
    by_cases hspan : v ≤ va ∧ va < v + A.dscr.size lvl
    · rw [if_pos hspan]
      have hidx := hiff.mpr hspan
      exact translate_put_hole hl (reaches_congr hl hidx.symm hreach) hidx
    · rw [if_neg hspan]
      exact translate_put_other fun hidx => hspan (hiff.mp hidx)
  · rw [if_neg hin, if_neg hin]
    split
    · rfl
    · rfl

theorem memTranslates_grow_other (hsucc : lvl + 1 < A.dscr.lvls) {g : Nat → Entry F}
    (h : ¬ (A.dscr.index lvl va = i ∧ va / 2 ^ A.dscr.wdt 0 = A.vaHigh)) :
    memTranslates A (grow A.dscr t lvl i g) va = memTranslates A t va := by
  unfold memTranslates
  by_cases hhigh : va / 2 ^ A.dscr.wdt 0 = A.vaHigh
  · rw [if_pos hhigh, if_pos hhigh]
    exact translate_grow_other hsucc fun hidx => h ⟨hidx, hhigh⟩
  · rw [if_neg hhigh, if_neg hhigh]

/-- What `mem_expand_pte` does to the entry: nothing, or a hole or a leaf becomes a
table, for which there is a page. -/
theorem memExpandPte_cases (hl : lvl < A.dscr.lvls)
    (hreach : reaches A.dscr s.pte v lvl = true) (h : memExpandPte A canAlloc s v lvl = some s1) :
    s1.pte = s.pte ∨
    (lvl + 1 < A.dscr.lvls ∧ ∃ rsv, s.pte lvl (A.dscr.index lvl v) = .hole rsv ∧
      s1.pte = grow A.dscr s.pte lvl (A.dscr.index lvl v) fun _ => .hole rsv) ∨
    (lvl + 1 < A.dscr.lvls ∧ canAlloc s.allocs = true ∧
      ∃ base flags t, s.pte lvl (A.dscr.index lvl v) = .leaf base flags ∧
      t = grow A.dscr s.pte lvl (A.dscr.index lvl v) (fun _ => .hole false) ∧
      s1.pte = grow A.dscr t lvl (A.dscr.index lvl v) fun k =>
        .leaf (base + k * A.dscr.size (lvl + 1)) A.flags) := by
  unfold memExpandPte at h
  by_cases hlast : A.dscr.lvls - 1 ≤ lvl
  · rw [if_pos hlast] at h
    cases h
    exact .inl rfl
  · rw [if_neg hlast, ptGetPte_eq_some.mpr ⟨hl, hreach, rfl⟩] at h
    have hsucc : lvl + 1 < A.dscr.lvls := by omega
    simp only [memAllocPt] at h
    cases hentry : s.pte lvl (A.dscr.index lvl v) with
    | table =>
      rw [hentry] at h
      cases h
      exact .inl rfl
    | hole rsv =>
      simp only [hentry] at h
      cases hok : canAlloc s.allocs with
      | true =>
        rw [hok] at h
        cases h
        exact .inr (.inl ⟨hsucc, rsv, rfl, rfl⟩)
      | false =>
        rw [hok] at h
        cases rsv with
        | true => cases h
        | false =>
          cases h
          exact .inl rfl
    | leaf base flags =>
      simp only [hentry] at h
      cases hok : canAlloc s.allocs with
      | true =>
        rw [hok] at h
        cases h
        exact .inr (.inr ⟨hsucc, rfl, base, flags, _, rfl, rfl, rfl⟩)
      | false =>
        rw [hok] at h
        cases h

/-- **An entry expanded** translates as before, but for the flags of a leaf. -/
theorem memExpandPte_translates (hl : lvl < A.dscr.lvls)
    (hreach : reaches A.dscr s.pte v lvl = true) (h : memExpandPte A canAlloc s v lvl = some s1)
    (va : Nat) :
    memTranslates A s1.pte va = memTranslates A s.pte va ∨
    (A.dscr.index lvl va = A.dscr.index lvl v ∧ va / 2 ^ A.dscr.wdt 0 = A.vaHigh ∧
      ∃ base flags, s.pte lvl (A.dscr.index lvl v) = .leaf base flags ∧
        memTranslates A s.pte va = some (base + va % A.dscr.size lvl, flags) ∧
        memTranslates A s1.pte va = some (base + va % A.dscr.size lvl, A.flags)) := by
  by_cases hin : A.dscr.index lvl va = A.dscr.index lvl v ∧ va / 2 ^ A.dscr.wdt 0 = A.vaHigh
  · have hva : reaches A.dscr s.pte va lvl = true := reaches_congr hl hin.1.symm hreach
    have hat : ∀ t', memTranslates A t' va = translate A.dscr t' va := fun _ => if_pos hin.2
    rw [hat, hat]
    rcases memExpandPte_cases hl hreach h with
      hsame | ⟨hsucc, rsv, hentry, hgrow⟩ | ⟨hsucc, -, base, flags, t, hentry, ht, hgrow⟩
    · rw [hsame]
      exact .inl rfl
    · rw [hgrow, translate_grow_holes hsucc hva hin.1, ← hin.1] at *
      exact .inl (translate_hole hl hva hentry).symm
    · refine .inr ⟨hin.1, hin.2, base, flags, hentry, ?_, ?_⟩
      · rw [← hin.1] at hentry
        exact translate_leaf hl hva hentry
      · have hva' : reaches A.dscr t va lvl = true := by
          rwa [ht, reaches_grow (Nat.le_refl lvl)]
        rw [hgrow]
        exact translate_grow_leaves hsucc hva' hin.1
  · refine .inl ?_
    rcases memExpandPte_cases hl hreach h with
      hsame | ⟨hsucc, rsv, hentry, hgrow⟩ | ⟨hsucc, -, base, flags, t, hentry, ht, hgrow⟩
    · rw [hsame]
    · rw [hgrow, memTranslates_grow_other hsucc hin]
    · rw [hgrow, memTranslates_grow_other hsucc hin, ht, memTranslates_grow_other hsucc hin]

theorem pageSize_eq : A.dscr.size (A.dscr.lvls - 1) = M.pageSize := by
  rw [Shape.size, A.off_last]

theorem pageSize_dvd_size (hl : lvl < A.dscr.lvls) : M.pageSize ∣ A.dscr.size lvl := by
  rw [← pageSize_eq (A := A)]
  exact Shape.size_dvd (by omega) (by omega)

theorem memExpandPte_isSome (hl : lvl < A.dscr.lvls) (hreach : reaches A.dscr s.pte v lvl = true)
    (h : canAlloc s.allocs = true) : ∃ s1, memExpandPte A canAlloc s v lvl = some s1 := by
  simp only [memExpandPte, memAllocPt, ptGetPte_eq_some.mpr ⟨hl, hreach, rfl⟩, h, if_true]
  split
  · exact ⟨_, rfl⟩
  · split
    · exact ⟨_, rfl⟩
    · exact ⟨_, rfl⟩
    · exact ⟨_, rfl⟩

theorem high_eq_of_span (hl : lvl < A.dscr.lvls) (h : va / A.dscr.size lvl = v / A.dscr.size lvl) :
    va / 2 ^ A.dscr.wdt 0 = v / 2 ^ A.dscr.wdt 0 := by
  rw [Shape.div_width hl, Shape.div_width (a := v) hl, h]

theorem memTranslates_hole {rsv : Bool} (hl : lvl < A.dscr.lvls)
    (hreach : reaches A.dscr t v lvl = true) (hentry : t lvl (A.dscr.index lvl v) = .hole rsv)
    (hspan : va / A.dscr.size lvl = v / A.dscr.size lvl) : memTranslates A t va = none := by
  unfold memTranslates
  split
  · have hidx := (Shape.index_eq_iff hl (high_eq_of_span hl hspan)).mpr hspan
    rw [← hidx] at hentry
    exact translate_hole hl (reaches_congr hl hidx.symm hreach) hentry
  · rfl

theorem memTranslates_leaf {base : Nat} {flags : F} (hl : lvl < A.dscr.lvls)
    (hreach : reaches A.dscr t v lvl = true)
    (hentry : t lvl (A.dscr.index lvl v) = .leaf base flags)
    (hhigh : v / 2 ^ A.dscr.wdt 0 = A.vaHigh)
    (hspan : va / A.dscr.size lvl = v / A.dscr.size lvl) :
    memTranslates A t va = some (base + va % A.dscr.size lvl, flags) := by
  have hidx := (Shape.index_eq_iff hl (high_eq_of_span hl hspan)).mpr hspan
  rw [memTranslates, if_pos ((high_eq_of_span hl hspan).trans hhigh)]
  apply translate_leaf hl (reaches_congr hl hidx.symm hreach)
  rwa [hidx]

/-- Without a page for the table only a hole that is not reserved gets past
`mem_expand_pte`, unchanged. -/
theorem memExpandPte_noPage (hl : lvl + 1 < A.dscr.lvls)
    (hreach : reaches A.dscr s.pte v lvl = true)
    (hentry : s.pte lvl (A.dscr.index lvl v) ≠ .table) (hno : canAlloc s.allocs = false)
    (h : memExpandPte A canAlloc s v lvl = some s1) : s1.pte = s.pte := by
  have hlast : ¬ A.dscr.lvls - 1 ≤ lvl := by omega
  unfold memExpandPte memAllocPt at h
  rw [if_neg hlast, ptGetPte_eq_some.mpr ⟨by omega, hreach, rfl⟩] at h
  simp only [hno] at h
  cases he : s.pte lvl (A.dscr.index lvl v) with
  | table => exact (hentry he).elim
  | hole rsv =>
    simp only [he] at h
    cases rsv with
    | true => cases h
    | false =>
      cases h
      rfl
  | leaf base flags =>
    simp only [he] at h
    cases h

/-! ## An address space with Sv39 -/

/-- The three levels of Sv39. -/
def sv39 : Shape where
  lvls := 3
  off l := 30 - 9 * l
  wdt l := 39 - 9 * l
  lvls_pos := by decide
  wdt_succ := by omega
  off_lt_wdt := by omega

/-- An address space of the hypervisor on RISC-V, with `BAO_VAS_BASE`, `BAO_CPU_BASE`,
`BAO_VM_BASE` and `BAO_VAS_TOP` in its sections; the flag tells other flags than
`PTE_HYP_FLAGS`. -/
def sv39Hyp : PtAddrSpace Machine.mmu64 Bool where
  dscr := sv39
  asType := .hyp
  sections := [⟨0xffffffc000200000, 0xffffffc03fffffff, true⟩,
    ⟨0xffffffc000000000, 0xffffffc0001fffff, true⟩,
    ⟨0xffffffc040000000, 0xffffffdfffffffff, false⟩,
    ⟨0xffffffe000000000, 0xffffffefffffffff, true⟩]
  hypFlags := false
  vmFlags := true
  vaHigh := 0x1ffffff
  physWalk := true
  off_last := by decide
  lvls_lt := by decide
  sections_lt := by decide

/-- Tables with one page, at the given address, and nothing else. -/
def onePageMapped (va pa : Nat) : PtState Bool where
  pte := put (put (put (fun _ _ => .hole false) 0 (sv39.index 0 va) .table)
    1 (sv39.index 1 va) .table) 2 (sv39.index 2 va) (.leaf pa false)
  allocs := 0
  freed := []

end Bao

import BaoHypervisor.ColoredSearch
import BaoHypervisor.MemorySystem
import BaoHypervisor.PageCopy
import BaoHypervisor.PageInflate

/-!
# What a region of a VM is mapped to

`vm_map_mem_region` of `vm.c` on the MMU build, for a region at a fixed physical
address, and the region that `vm_init_ipc` makes of a shared memory.  What `mem_init`
has reserved is as many consecutive pages as the size asks for.  The plain path of
`mem_map` maps these; the coloured path maps as many pages of the colours, from the same
address on, and goes past the reservation where there are not enough of them in it.
-/

namespace Bao

open RadixTable

variable {F : Type} {M : Machine}

/-- The address space of a VM: its only section is everything, and the input of its table
is a word at most. -/
structure VmSpace (M : Machine) (F : Type) extends MapSpace M F where
  isVm : asType = .vm
  secs : sections = [⟨0, M.wordCount - 1, false⟩]
  width_le : dscr.wdt 0 ≤ M.wordBits

section

variable (A : MapSpace M F) (canAlloc : Nat → Bool)

/-- The writes of the coloured path of `mem_map` to the entries of the last level; `none`
is an access to an entry that does not exist. -/
def setPtes (flags : F) : List (Nat × Nat) → PtState F → Option (PtState F)
  | [], s => some s
  | (vaddr, paddr) :: rest, s =>
      match ptGetPte A.toPtAddrSpace s.pte (A.dscr.lvls - 1) vaddr with
      | none => none
      | some i =>
          setPtes flags rest
            { s with pte := put s.pte (A.dscr.lvls - 1) i (.leaf paddr flags) }

/-- `mem_map` of given pages, for at most `fuel` turns of each loop. -/
def memMapGiven (s : PtState F) (va : Nat) (ppages : Ppages) (numPages : Nat) (flags : F)
    (fuel : Nat) : Option (Bool × PtState F) :=
  if M.allClrs ppages.colors then memMap A canAlloc s va ppages.base numPages flags fuel
  else
    let vaddr := va / M.pageSize * M.pageSize
    if inOneSec A.sections vaddr
        ((vaddr + numPages * M.pageSize + (M.wordCount - 1)) % M.wordCount) then
      match memInflatePt A.toPtAddrSpace canAlloc s vaddr (numPages * M.pageSize) fuel with
      | none => none
      | some s =>
          match memMapClr M ppages fuel ppages.numPages vaddr 0 with
          | none => none
          | some writes => (setPtes A flags writes s).map fun s => (true, s)
    else some (false, s)

/-- `mem_alloc_map` of given pages; what `mem_map` answers is not looked at. -/
def memAllocMapGiven (s : PtState F) (section_ : Nat) (ppages : Ppages) (at_ : Option Nat)
    (numPages : Nat) (flags : F) (fuel : Nat) : Option (Option Nat × PtState F) :=
  match memAllocVpage A canAlloc s section_ at_ numPages fuel with
  | none => none
  | some (none, s) => some (none, s)
  | some (some va, s) =>
      (memMapGiven A canAlloc s va ppages numPages flags fuel).map fun r => (some va, r.2)

end

/-- `pa_reg` of `vm_map_mem_region`. -/
def paReg (M : Machine) (reg : VmMemRegion) : Ppages :=
  { memPpagesGet reg.phys (M.numPages reg.size) with colors := reg.colors }

/-- `vm_map_mem_region` for a region with `place_phys`; `none` is also its `ERROR`.
`INVALID_VA`, which is the last address, asks for any address and says that there is none. -/
def vmMapMemRegion (V : VmSpace M F) (canAlloc : Nat → Bool) (s : PtState F) (reg : VmMemRegion)
    (fuel : Nat) : Option (PtState F) :=
  let n := M.numPages reg.size
  let at_ := if reg.base = M.wordCount - 1 then none else some reg.base
  match memAllocMapGiven V.toMapSpace canAlloc s 0 (paReg M reg) at_ n V.vmFlags fuel with
  | none => none
  | some (va, s) => if va.getD (M.wordCount - 1) = reg.base then some s else none

/-- The region that `vm_init_ipc` maps for an IPC over a shared memory. -/
def ipcRegion (ipc : Ipc) (shmem : Shmem) : VmMemRegion where
  base := ipc.base
  size := if shmem.size < ipc.size then shmem.size else ipc.size
  colors := shmem.colors
  placePhys := true
  phys := shmem.phys

/-- A region that the VMs of the configuration map for what `mem_init` reserves: a region
with `place_phys`, or what `vm_init_ipc` makes of a shared memory with it. -/
inductive RegionOf (c : Config) : Owner → VmMemRegion → Prop
  | region {i j : Nat} {vm : VmConfig} {reg : VmMemRegion} (hvm : c.vmlist[i]? = some vm)
      (hreg : vm.regions[j]? = some reg) (hphys : reg.placePhys = true) :
      RegionOf c (.vmRegion i j) reg
  | ipc {k : Nat} {vm : VmConfig} {ipc : Ipc} {shmem : Shmem} (hvm : vm ∈ c.vmlist)
      (hipc : ipc ∈ vm.ipcs) (hid : ipc.shmemId = k) (hshmem : c.shmemlist[k]? = some shmem)
      (hphys : shmem.placePhys = true) : RegionOf c (.shmem k) (ipcRegion ipc shmem)

/-! ## What is added to the tables -/

/-- Whatever an address translates to, it did before, or the page is one of `Q`. -/
def AddsOnly (A : PtAddrSpace M F) (Q : Nat → Prop) (t t' : Table F) : Prop :=
  ∀ a pa, physAddr A t' a = some pa → physAddr A t a = some pa ∨ Q pa

variable {A : MapSpace M F} {canAlloc : Nat → Bool} {t t' t'' : Table F} {s s' : PtState F}
  {Q : Nat → Prop} {flags : F} {fuel n lvl i : Nat}

theorem AddsOnly.refl {B : PtAddrSpace M F} : AddsOnly B Q t t := fun _ _ h => .inl h

theorem AddsOnly.trans {B : PtAddrSpace M F} (h : AddsOnly B Q t t') (h' : AddsOnly B Q t' t'') :
    AddsOnly B Q t t'' := by
  intro a pa hpa
  rcases h' a pa hpa with hold | hnew
  · exact h a pa hold
  · exact .inr hnew

theorem AddsOnly.of_grown (h : Grown A t t') : AddsOnly A.toPtAddrSpace Q t t' := by
  intro a pa hpa
  left
  have hsame : memTranslates A.toPtAddrSpace t' a = memTranslates A.toPtAddrSpace t a :=
    memTranslates_congr fun _ l base flags => h.leaf a l base flags
  rwa [physAddr, hsame] at hpa

/-- A leaf of pages of `Q`. -/
theorem addsOnly_put {B : PtAddrSpace M F} {p : Nat}
    (hQ : ∀ x, x < B.dscr.size lvl → Q (p + x)) :
    AddsOnly B Q t (put t lvl i (.leaf p flags)) := by
  intro a pa hpa
  rw [physAddr, memTranslates] at hpa
  split at hpa
  · next hhigh =>
    obtain ⟨⟨pa', f⟩, htrans, rfl⟩ := Option.map_eq_some_iff.mp hpa
    by_cases hidx : B.dscr.index lvl a = i
    · obtain ⟨l, base, hleaf, rfl⟩ := exists_leaf htrans
      by_cases hl : l = lvl
      · subst hl
        have hentry := hleaf.entry
        rw [hidx, put_same] at hentry
        cases hentry
        exact .inr (hQ _ (Nat.mod_lt _ Shape.size_pos))
      · -- the walk does not get to the entry
        left
        rcases Nat.lt_or_ge l lvl with hlt | hge
        · have hold : LeafAt B.dscr t a l base f := by
            refine ⟨hleaf.lvl, ?_, ?_⟩
            · rw [← reaches_put (e := .leaf p flags) (i := i) (Nat.le_of_lt hlt)]
              exact hleaf.reach
            · rw [← hleaf.entry, put_other (.inl hl)]
          rw [physAddr, memTranslates, if_pos hhigh, hold.translate]
          rfl
        · have htable := table_above hleaf.reach (show lvl < l by omega)
          rw [hidx, put_same] at htable
          cases htable
    · left
      rw [physAddr, memTranslates, if_pos hhigh, ← translate_put_other hidx, htrans]
      rfl
  · cases hpa

theorem memExpandPte_adds {B : PtAddrSpace M F} {va : Nat}
    (h : memExpandPte B canAlloc s va lvl = some s') : AddsOnly B Q s.pte s'.pte := by
  cases hget : ptGetPte B s.pte lvl va with
  | some i =>
    obtain ⟨hl, hreach, -⟩ := ptGetPte_eq_some.mp hget
    intro a pa hpa
    left
    rcases memExpandPte_translates hl hreach h a with hsame | ⟨-, -, base, f, -, hold, hnew⟩
    · rwa [physAddr, hsame] at hpa
    · rw [physAddr, hnew] at hpa
      rw [physAddr, hold]
      exact hpa
  | none =>
    unfold memExpandPte at h
    rw [hget] at h
    split at h
    · cases h
      exact .refl
    · dsimp only at h
      split at h
      · cases h
        exact .refl
      · cases h

theorem inflateLevel_adds {B : PtAddrSpace M F} {top va : Nat}
    (h : inflateLevel B canAlloc top lvl fuel s va = some s') : AddsOnly B Q s.pte s'.pte := by
  induction fuel generalizing s va with
  | zero =>
    rw [inflateLevel] at h
    split at h
    · cases h
    · cases h
      exact .refl
  | succ fuel ih =>
    rw [inflateLevel] at h
    split at h
    · split at h
      · cases h
      · rename_i s1 hexpand
        exact (memExpandPte_adds hexpand).trans (ih h)
    · cases h
      exact .refl

theorem memInflatePt_adds {B : PtAddrSpace M F} {va length : Nat}
    (h : memInflatePt B canAlloc s va length fuel = some s') : AddsOnly B Q s.pte s'.pte := by
  have hlevels : ∀ left lvl (s : PtState F),
      inflateLevels B canAlloc fuel va ((va + length) % M.wordCount) left lvl s = some s' →
      AddsOnly B Q s.pte s'.pte := by
    intro left
    induction left with
    | zero =>
      intro lvl s h
      cases h
      exact .refl
    | succ left ih =>
      intro lvl s h
      rw [inflateLevels] at h
      split at h
      · cases h
      · rename_i s1 hlevel
        exact (inflateLevel_adds hlevel).trans (ih _ _ h)
  exact hlevels _ _ s h

/-! ## The plain path -/

/-- What is left to map are pages of `q` from the address on. -/
def LeftIn (M : Machine) (q : Ppages) (u : MapState F) : Prop :=
  u.left = 0 ∨ (q.base ≤ u.paddr ∧
    u.paddr + u.left * M.pageSize ≤ q.base + q.numPages * M.pageSize)

/-- **The inner loop** of `mem_map` maps pages of `q` and leaves pages of `q`. -/
theorem mapRun_adds {q : Ppages} {more : Nat} {u : MapState F} (flags : F)
    (hl : lvl < A.dscr.lvls) (hq : q.base + q.numPages * M.pageSize ≤ M.wordCount)
    (hleft : LeftIn M q u) :
    AddsOnly A.toPtAddrSpace (q.Covers M) u.s.pte (mapRun A flags lvl more i u).s.pte ∧
      LeftIn M q (mapRun A flags lvl more i u) := by
  have hsize := A.size_eq hl
  induction more generalizing i u with
  | zero => exact ⟨.refl, hleft⟩
  | succ more ih =>
    rw [mapRun]
    split
    · rename_i hroom
      obtain ⟨hlo, hhi⟩ := hleft.resolve_left (Nat.ne_of_gt hroom.1)
      have hmul := Nat.mul_le_mul_right M.pageSize hroom.2
      rw [hsize] at hmul
      have hput : AddsOnly A.toPtAddrSpace (q.Covers M) u.s.pte
          (put u.s.pte lvl i (.leaf u.paddr flags)) := by
        apply addsOnly_put
        intro x hx
        exact ⟨Nat.le_trans hlo (Nat.le_add_right _ _), by omega⟩
      have hrest : LeftIn M q
          { s := { u.s with pte := put u.s.pte lvl i (.leaf u.paddr flags) }
            vaddr := (u.vaddr + A.dscr.size lvl) % M.wordCount
            paddr := (u.paddr + A.dscr.size lvl) % M.wordCount
            left := u.left - A.dscr.size lvl / M.pageSize } := by
        have hsub : (u.left - A.dscr.size lvl / M.pageSize) * M.pageSize =
            u.left * M.pageSize - A.dscr.size lvl := by
          rw [Nat.sub_mul, hsize]
        rcases Nat.eq_zero_or_pos (u.left - A.dscr.size lvl / M.pageSize) with hzero | hpos
        · exact .inl hzero
        · -- with pages left the address does not wrap
          have hmore := Nat.le_mul_of_pos_left M.pageSize hpos
          have hpage : 0 < M.pageSize := M.pageSize_pos
          right
          dsimp only
          rw [hsub] at hmore ⊢
          rw [Nat.mod_eq_of_lt (show u.paddr + A.dscr.size lvl < M.wordCount by omega)]
          omega
      obtain ⟨hadds, hlast⟩ := ih (i := i + 1) hrest
      exact ⟨hput.trans hadds, hlast⟩
    · exact ⟨.refl, hleft⟩

/-- **The loop of `mem_map`** maps pages of `q` only. -/
theorem mapLoop_adds {q : Ppages} {u : MapState F}
    (hq : q.base + q.numPages * M.pageSize ≤ M.wordCount) (hleft : LeftIn M q u)
    (h : mapLoop A canAlloc flags fuel u = some s') :
    AddsOnly A.toPtAddrSpace (q.Covers M) u.s.pte s'.pte := by
  induction fuel generalizing u with
  | zero =>
    rw [mapLoop] at h
    split at h
    · cases h
    · cases h
      exact .refl
  | succ fuel ih =>
    rw [mapLoop] at h
    split at h
    · split at h
      · cases h
      · rename_i lvl s1 hwalk
        have hfound := mapWalk_found hwalk
        have hrun := fun more => @mapRun_adds F M A lvl (A.dscr.index lvl u.vaddr) q more
          { u with s := s1 } flags hfound.inside hq hleft
        obtain ⟨hadds, hlast⟩ := hrun (A.dscr.fan lvl - A.dscr.index lvl u.vaddr % A.dscr.fan lvl)
        exact (AddsOnly.of_grown hfound.grown).trans (hadds.trans (ih hlast h))
    · cases h
      exact .refl

/-- `mem_map` of consecutive pages. -/
theorem memMap_adds {q : Ppages} {va paddr : Nat} {ok : Bool}
    (hq : q.base + q.numPages * M.pageSize ≤ M.wordCount) (hlo : q.base ≤ paddr)
    (hhi : paddr + n * M.pageSize ≤ q.base + q.numPages * M.pageSize)
    (h : memMap A canAlloc s va paddr n flags fuel = some (ok, s')) :
    AddsOnly A.toPtAddrSpace (q.Covers M) s.pte s'.pte := by
  unfold memMap at h
  dsimp only at h
  split at h
  · obtain ⟨s1, hloop, heq⟩ := Option.map_eq_some_iff.mp h
    cases heq
    exact mapLoop_adds (u := ⟨s, va / M.pageSize * M.pageSize, paddr, n⟩) hq (.inr ⟨hlo, hhi⟩)
      hloop
  · cases h
    exact .refl

/-! ## The coloured path -/

theorem clrCount_ppNextClr {base colors index r : Nat} (hr : r < M.wordCount) (hle : index ≤ r)
    (h : ppNextClr M base colors fuel index = some r) :
    clrCount M base colors index (r + 1) = 1 := by
  rw [clrCount, Finset.card_eq_one]
  refine ⟨r, ?_⟩
  ext k
  rw [Finset.mem_filter, Finset.mem_Ico, Finset.mem_singleton]
  constructor
  · rintro ⟨⟨hlo, hhi⟩, hon⟩
    have hlast := (ppNextClr_between (by omega) hlo hon h).2
    omega
  · rintro rfl
    exact ⟨⟨hle, Nat.lt_succ_self k⟩, ppNextClr_onColor h⟩

/-- **Enough pages of the colours** in the first `m`: the listed ones are among them. -/
theorem memMapClr_inside {p : Ppages} {m va index : Nat} {l : List (Nat × Nat)}
    (hm : m ≤ M.pageCount) (hcount : n ≤ clrCount M p.base p.colors index m)
    (h : memMapClr M p fuel n va index = some l) :
    ∀ e ∈ l, ∃ r, r < m ∧ e.2 = (p.base + r * M.pageSize) % M.wordCount := by
  induction n generalizing va index l with
  | zero =>
    cases h
    exact fun e he => absurd he List.not_mem_nil
  | succ n ih =>
    rw [memMapClr] at h
    cases hnext : ppNextClr M p.base p.colors fuel index with
    | none =>
      rw [hnext] at h
      cases h
    | some r =>
      rw [hnext] at h
      obtain ⟨rest, hrest, rfl⟩ := Option.map_eq_some_iff.mp h
      obtain ⟨t, ht⟩ := Finset.card_pos.mp (Nat.lt_of_lt_of_le (Nat.succ_pos n) hcount)
      rw [Finset.mem_filter, Finset.mem_Ico] at ht
      obtain ⟨⟨hlo, hhi⟩, hon⟩ := ht
      have hword := M.four_pageCount_le_wordCount
      obtain ⟨hle, hr⟩ := ppNextClr_between (by omega) hlo hon hnext
      have hone := clrCount_ppNextClr (by omega) hle hnext
      have hsplit := @clrCount_split M p.base p.colors index (r + 1) m (by omega) (by omega)
      rw [Nat.mod_eq_of_lt (show r + 1 < M.wordCount by omega)] at hrest
      intro e he
      rcases List.mem_cons.mp he with rfl | he
      · exact ⟨r, by omega, rfl⟩
      · exact ih (by omega) hrest e he

theorem memMapClr_succ {p : Ppages} {va index : Nat} {l : List (Nat × Nat)}
    (hroom : index + M.colorNum * M.colorSize ≤ M.pageCount)
    (h : memMapClr M p fuel (n + 1) va index = some l) :
    ∃ r rest, l = (va, (p.base + r * M.pageSize) % M.wordCount) :: rest ∧
      memMapClr M p fuel n ((va + M.pageSize) % M.wordCount) (r + 1) = some rest ∧
      index ≤ r ∧ r < index + M.colorNum * M.colorSize ∧
      clrCount M p.base p.colors index (r + 1) = 1 := by
  rw [memMapClr] at h
  cases hnext : ppNextClr M p.base p.colors fuel index with
  | none =>
    rw [hnext] at h
    cases h
  | some r =>
    rw [hnext] at h
    obtain ⟨rest, hrest, rfl⟩ := Option.map_eq_some_iff.mp h
    have hword := M.four_pageCount_le_wordCount
    have hcolor := hasColor_of_onColor (ppNextClr_onColor hnext)
    obtain ⟨t, hlo, hhi, hon⟩ := exists_onColor p.base index hcolor (by omega)
    obtain ⟨hle, hr⟩ := ppNextClr_between (by omega) hlo hon hnext
    rw [Nat.mod_eq_of_lt (show r + 1 < M.wordCount by omega)] at hrest
    exact ⟨r, rest, rfl, hrest, hle, by omega, clrCount_ppNextClr (by omega) hle hnext⟩

/-- **The last page listed**: up to it there are as many pages of the colours as are
listed. -/
theorem memMapClr_last {p : Ppages} {va index : Nat} {l : List (Nat × Nat)}
    (hva : va < M.wordCount)
    (hroom : index + (n + 1) * (M.colorNum * M.colorSize) ≤ M.pageCount)
    (h : memMapClr M p fuel (n + 1) va index = some l) :
    ∃ before r, l = before ++ [((va + n * M.pageSize) % M.wordCount,
        (p.base + r * M.pageSize) % M.wordCount)] ∧ index ≤ r ∧ r < M.pageCount ∧
      clrCount M p.base p.colors index (r + 1) = n + 1 := by
  induction n generalizing va index l with
  | zero =>
    obtain ⟨r, rest, rfl, hrest, hle, hr, hone⟩ := memMapClr_succ (by omega) h
    cases hrest
    refine ⟨[], r, ?_, hle, by omega, hone⟩
    rw [Nat.zero_mul, Nat.add_zero, Nat.mod_eq_of_lt hva]
    rfl
  | succ n ih =>
    rw [Nat.succ_mul] at hroom
    obtain ⟨r, rest, rfl, hrest, hle, hr, hone⟩ := memMapClr_succ (by omega) h
    obtain ⟨before, r', rfl, hle', hr', hcount⟩ :=
      ih (Nat.mod_lt _ (Nat.two_pow_pos _)) (by omega) hrest
    refine ⟨(va, (p.base + r * M.pageSize) % M.wordCount) :: before, r', ?_, by omega, hr', ?_⟩
    · rw [Nat.mod_add_mod, Nat.add_assoc, Nat.add_comm M.pageSize, ← Nat.succ_mul]
      rfl
    · rw [clrCount_split (show index ≤ r + 1 by omega) (show r + 1 ≤ r' + 1 by omega), hone,
        hcount, Nat.add_comm]

theorem setPtes_adds {l : List (Nat × Nat)}
    (hQ : ∀ e ∈ l, ∀ x, x < M.pageSize → Q (e.2 + x)) (h : setPtes A flags l s = some s') :
    AddsOnly A.toPtAddrSpace Q s.pte s'.pte := by
  induction l generalizing s with
  | nil =>
    cases h
    exact .refl
  | cons e rest ih =>
    obtain ⟨hfirst, hrest⟩ := List.forall_mem_cons.mp hQ
    rw [setPtes] at h
    split at h
    · cases h
    · rename_i i hget
      have hput : AddsOnly A.toPtAddrSpace Q s.pte
          (put s.pte (A.dscr.lvls - 1) i (.leaf e.2 flags)) := by
        apply addsOnly_put
        rw [pageSize_eq (A := A.toPtAddrSpace)]
        exact hfirst
      exact hput.trans (ih hrest h)

theorem setPtes_last {before : List (Nat × Nat)} {va paddr : Nat}
    (h : setPtes A flags (before ++ [(va, paddr)]) s = some s') :
    LeafAt A.dscr s'.pte va (A.dscr.lvls - 1) paddr flags := by
  induction before generalizing s with
  | nil =>
    rw [List.nil_append, setPtes] at h
    split at h
    · cases h
    · rename_i i hget
      obtain ⟨hl, hreach, rfl⟩ := ptGetPte_eq_some.mp hget
      cases h
      exact leafAt_put hl hreach rfl
  | cons e before ih =>
    rw [List.cons_append, setPtes] at h
    split at h
    · cases h
    · exact ih h

/-! ## One region -/

/-- The region asks for pages of the reservation: all colours are allowed, or the
reservation has as many pages of its colours as the region has pages.  At `INVALID_VA`
nothing is mapped. -/
def ColorsFit (M : Machine) (reg : VmMemRegion) (q : Ppages) : Prop :=
  reg.base = M.wordCount - 1 ∨ M.allClrs reg.colors = true ∨
    M.numPages reg.size ≤ clrCount M reg.phys reg.colors 0 q.numPages

/-- The reservation is made for the region. -/
structure Reserves (M : Machine) (q : Ppages) (reg : VmMemRegion) : Prop where
  base : q.base = reg.phys
  pages : M.numPages reg.size ≤ q.numPages
  fits : q.Fits M

section

variable {V : VmSpace M F} {reg : VmMemRegion} {q : Ppages}

/-- The address that is translated through the entries of `x`. -/
def inInput (B : PtAddrSpace M F) (x : Nat) : Nat :=
  B.vaHigh * 2 ^ B.dscr.wdt 0 + x % 2 ^ B.dscr.wdt 0

theorem inInput_high {B : PtAddrSpace M F} (x : Nat) :
    inInput B x / 2 ^ B.dscr.wdt 0 = B.vaHigh := by
  have hpos := Nat.two_pow_pos (B.dscr.wdt 0)
  rw [inInput, Nat.mul_comm, Nat.mul_add_div hpos, Nat.div_eq_of_lt (Nat.mod_lt _ hpos),
    Nat.add_zero]

theorem inInput_mod {B : PtAddrSpace M F} (x : Nat) :
    inInput B x % 2 ^ B.dscr.wdt 0 = x % 2 ^ B.dscr.wdt 0 := by
  rw [inInput, Nat.mul_comm, Nat.mul_add_mod, Nat.mod_mod]

theorem inInput_index {B : PtAddrSpace M F} (hl : lvl < B.dscr.lvls) (x : Nat) :
    B.dscr.index lvl (inInput B x) = B.dscr.index lvl x := by
  rw [← Shape.index_mod_width hl, inInput_mod, Shape.index_mod_width hl]

theorem inInput_offset {B : PtAddrSpace M F} (hl : lvl < B.dscr.lvls) (x : Nat) :
    inInput B x % B.dscr.size lvl = x % B.dscr.size lvl := by
  have hdvd : B.dscr.size lvl ∣ 2 ^ B.dscr.wdt 0 :=
    Nat.pow_dvd_pow 2 (Nat.le_of_lt (Shape.off_lt_width hl))
  rw [← Nat.mod_mod_of_dvd _ hdvd, inInput_mod, Nat.mod_mod_of_dvd _ hdvd]

theorem VmSpace.inOneSec {first last : Nat} (hfirst : first < M.wordCount)
    (hlast : last < M.wordCount) : inOneSec V.sections first last = true := by
  have hfind : ∀ x, x < M.wordCount →
      memFindSec V.sections x = some ⟨0, M.wordCount - 1, false⟩ := by
    intro x hx
    rw [V.secs, memFindSec, List.find?_cons_of_pos]
    rw [Bool.and_eq_true, decide_eq_true_eq, decide_eq_true_eq]
    exact ⟨Nat.zero_le x, Nat.le_sub_one_of_lt hx⟩
  rw [Bao.inOneSec, hfind first hfirst, hfind last hlast, Option.isSome_some, Bool.true_and,
    beq_iff_eq]

/-- **What the call does** if it returns: the base is `INVALID_VA` and no address is found,
or the address space grants the base and `mem_map` is called with it. -/
theorem vmMapMemRegion_cases (h : vmMapMemRegion V canAlloc s reg fuel = some s') :
    (reg.base = M.wordCount - 1 ∧ Grown V.toMapSpace s.pte s'.pte) ∨
    (reg.base ≠ M.wordCount - 1 ∧ ∃ s₁ ok,
      memAllocVpage V.toMapSpace canAlloc s 0 (some reg.base) (M.numPages reg.size) fuel =
        some (some reg.base, s₁) ∧
      memMapGiven V.toMapSpace canAlloc s₁ reg.base (paReg M reg) (M.numPages reg.size) V.vmFlags
        fuel = some (ok, s')) := by
  unfold vmMapMemRegion memAllocMapGiven at h
  dsimp only at h
  cases halloc : memAllocVpage V.toMapSpace canAlloc s 0
      (if reg.base = M.wordCount - 1 then none else some reg.base) (M.numPages reg.size) fuel with
  | none =>
    rw [halloc] at h
    cases h
  | some r =>
    obtain ⟨va, s₁⟩ := r
    rw [halloc] at h
    obtain ⟨hgrown, hgrants⟩ := memAllocVpage_grants V.width_le halloc
    cases va with
    | none =>
      dsimp only [Option.getD_none] at h
      split at h
      · next hbase =>
        cases h
        exact .inl ⟨hbase.symm, hgrown⟩
      · cases h
    | some va =>
      dsimp only at h
      cases hmap : memMapGiven V.toMapSpace canAlloc s₁ va (paReg M reg) (M.numPages reg.size)
          V.vmFlags fuel with
      | none =>
        rw [hmap] at h
        cases h
      | some r =>
        rw [hmap] at h
        dsimp only [Option.map_some, Option.getD_some] at h
        split at h
        · next hva =>
          cases h
          have hpage := (hgrants va rfl).2.1
          rw [hva] at hpage halloc hmap
          have hne : reg.base ≠ M.wordCount - 1 := by
            -- the last address starts no page
            intro heq
            have hfour := M.four_le_pageSize
            have hdvd := Nat.dvd_of_mod_eq_zero hpage
            have hword : M.pageSize ∣ reg.base + 1 := by
              rw [heq, Nat.sub_add_cancel (Nat.two_pow_pos _)]
              exact ⟨M.pageCount, M.wordCount_eq.trans (Nat.mul_comm _ _)⟩
            have hone := Nat.le_of_dvd Nat.one_pos ((Nat.dvd_add_right hdvd).mp hword)
            omega
          rw [if_neg hne] at halloc
          exact .inr ⟨hne, s₁, r.1, halloc, hmap⟩
        · cases h

theorem memMapGiven_colored {p : Ppages} {va : Nat} {ok : Bool} (hcolors : ¬ M.allClrs p.colors)
    (hva : va < M.wordCount) (hpage : va % M.pageSize = 0)
    (h : memMapGiven V.toMapSpace canAlloc s va p n flags fuel = some (ok, s')) :
    ∃ s₁ writes, AddsOnly V.toPtAddrSpace Q s.pte s₁.pte ∧
      memMapClr M p fuel p.numPages va 0 = some writes ∧
      setPtes V.toMapSpace flags writes s₁ = some s' := by
  unfold memMapGiven at h
  rw [if_neg hcolors] at h
  dsimp only at h
  rw [Nat.div_mul_cancel (Nat.dvd_of_mod_eq_zero hpage),
    if_pos (V.inOneSec hva (Nat.mod_lt _ (Nat.two_pow_pos _)))] at h
  split at h
  · cases h
  · rename_i s₁ hinflate
    split at h
    · cases h
    · rename_i writes hwrites
      obtain ⟨s₂, hset, heq⟩ := Option.map_eq_some_iff.mp h
      cases heq
      exact ⟨s₁, writes, memInflatePt_adds hinflate, hwrites, hset⟩

/-- **Enough pages of the colours**: only pages of the reservation are added. -/
theorem vmMapMemRegion_adds (hq : Reserves M q reg) (hfit : ColorsFit M reg q)
    (h : vmMapMemRegion V canAlloc s reg fuel = some s') :
    AddsOnly V.toPtAddrSpace (q.Covers M) s.pte s'.pte := by
  obtain ⟨hpages, hword⟩ := hq.fits
  rcases vmMapMemRegion_cases h with ⟨-, hgrown⟩ | ⟨hbase, s₁, ok, halloc, hmap⟩
  · exact .of_grown hgrown
  · obtain ⟨hgrown, hgrants⟩ := memAllocVpage_grants V.width_le halloc
    obtain ⟨hva, hpage, -⟩ := hgrants _ rfl
    apply (AddsOnly.of_grown hgrown).trans
    by_cases hcolors : M.allClrs reg.colors
    · rw [memMapGiven, paReg, if_pos hcolors] at hmap
      apply memMap_adds hword (Nat.le_of_eq hq.base) _ hmap
      have hmul := Nat.mul_le_mul_right M.pageSize hq.pages
      rw [hq.base]
      exact Nat.add_le_add_left hmul _
    · have hcount := (hfit.resolve_left hbase).resolve_left hcolors
      obtain ⟨s₂, writes, hadds, hwrites, hset⟩ := memMapGiven_colored hcolors hva hpage hmap
      apply hadds.trans
      refine setPtes_adds ?_ hset
      intro e he x hx
      have hinside : ∀ e ∈ writes, ∃ r, r < q.numPages ∧
          e.2 = ((paReg M reg).base + r * M.pageSize) % M.wordCount :=
        memMapClr_inside (p := paReg M reg) (Nat.le_of_lt hpages) hcount hwrites
      obtain ⟨r, hr, hpa⟩ := hinside e he
      -- the page does not wrap, as the reservation does not
      have hmul := Nat.mul_le_mul_right M.pageSize hr
      rw [Nat.succ_mul] at hmul
      have hphys := hq.base
      have hlt : reg.phys + r * M.pageSize < M.wordCount := by omega
      rw [hpa]
      change q.base ≤ (reg.phys + r * M.pageSize) % M.wordCount + x ∧
        (reg.phys + r * M.pageSize) % M.wordCount + x < q.base + q.numPages * M.pageSize
      rw [Nat.mod_eq_of_lt hlt]
      exact ⟨by omega, by omega⟩

theorem Reserves.not_covers {r : Nat} (hq : Reserves M q reg) (hge : q.numPages ≤ r)
    (hr : r < M.pageCount) : ¬ q.Covers M ((reg.phys + r * M.pageSize) % M.wordCount) := by
  rintro ⟨hlo, hhi⟩
  have hphys := hq.base
  have hend := hq.fits.2
  have hmul := Nat.mul_le_mul_right M.pageSize hge
  have hword : r * M.pageSize < M.wordCount := by
    rw [M.wordCount_eq]
    exact Nat.mul_lt_mul_of_pos_right hr M.pageSize_pos
  rcases Nat.lt_or_ge (reg.phys + r * M.pageSize) M.wordCount with hin | hwrap
  · rw [Nat.mod_eq_of_lt hin] at hhi
    omega
  · -- beyond the end of the address space it starts again below the region
    rw [Nat.mod_eq_sub_mod hwrap, Nat.mod_eq_of_lt (by omega)] at hlo
    omega

theorem Reserves.last_outside {m r : Nat} (hq : Reserves M q reg) (hr : r < M.pageCount)
    (hshort : clrCount M reg.phys reg.colors 0 q.numPages < m)
    (hlisted : clrCount M reg.phys reg.colors 0 (r + 1) = m) :
    ¬ q.Covers M ((reg.phys + r * M.pageSize) % M.wordCount) := by
  apply hq.not_covers _ hr
  by_contra hlt
  have hsplit := @clrCount_split M reg.phys reg.colors 0 (r + 1) q.numPages (Nat.zero_le _)
    (by omega)
  omega

theorem mapped_in_input {B : PtAddrSpace M F} {va paddr l : Nat} {mark : Bool}
    (hpage : va % M.pageSize = 0) (hhole : HoleAt B.dscr t va l mark)
    (hleaf : LeafAt B.dscr t' va (B.dscr.lvls - 1) paddr flags) :
    physAddr B t (inInput B va) = none ∧ physAddr B t' (inInput B va) = some paddr := by
  have hbefore := hhole.congr (inInput_index hhole.lvl va).symm
  have hafter := hleaf.congr (inInput_index hleaf.lvl va).symm
  constructor
  · rw [physAddr, memTranslates, if_pos (inInput_high va), hbefore.translate]
    rfl
  · rw [physAddr_of_leaf (inInput_high va) hafter, inInput_offset hleaf.lvl, pageSize_eq, hpage,
      Nat.add_zero]

/-- **Too few pages of the colours**: a page outside the reservation is added. -/
theorem vmMapMemRegion_escapes (hq : Reserves M q reg)
    (hroom : q.numPages * (M.colorNum * M.colorSize) ≤ M.pageCount)
    (hfit : ¬ ColorsFit M reg q) (h : vmMapMemRegion V canAlloc s reg fuel = some s') :
    ¬ AddsOnly V.toPtAddrSpace (q.Covers M) s.pte s'.pte := by
  unfold ColorsFit at hfit
  push Not at hfit
  obtain ⟨hbase, hcolors, hcount⟩ := hfit
  rcases vmMapMemRegion_cases h with ⟨hlast, -⟩ | ⟨-, s₁, ok, halloc, hmap⟩
  · exact absurd hlast hbase
  · obtain ⟨-, hgrants⟩ := memAllocVpage_grants V.width_le halloc
    obtain ⟨hva, hpage, hfree⟩ := hgrants _ rfl
    obtain ⟨s₂, writes, -, hwrites, hset⟩ := memMapGiven_colored (Q := fun _ => False) hcolors
      hva hpage hmap
    obtain ⟨m, hm⟩ := Nat.exists_eq_add_of_le' (show 1 ≤ M.numPages reg.size by omega)
    have hwrites' : memMapClr M (paReg M reg) fuel (m + 1) reg.base 0 = some writes := by
      rw [← hm]
      exact hwrites
    have hperiods := Nat.mul_le_mul_right (M.colorNum * M.colorSize) hq.pages
    rw [hm] at hperiods hcount
    -- the last page of the region, which was not mapped before
    obtain ⟨before, r, rfl, -, hr, hlisted⟩ := memMapClr_last hva (by omega) hwrites'
    obtain ⟨-, l, hhole⟩ := hfree m (by omega)
    have haligned : (reg.base + m * M.pageSize) % M.wordCount % M.pageSize = 0 := by
      rw [Nat.mod_mod_of_dvd _ ⟨M.pageCount, M.wordCount_eq.trans (Nat.mul_comm _ _)⟩,
        Nat.add_mul_mod_self_right]
      exact hpage
    obtain ⟨hbefore, hafter⟩ := mapped_in_input haligned hhole (setPtes_last hset)
    intro hadds
    rcases hadds _ _ hafter with hold | hcovers
    · rw [hbefore] at hold
      cases hold
    · exact hq.last_outside hr hcount hlisted hcovers

end

/-! ## After `mem_init` -/

/-- **The region gets its own memory**: the reservation stands, only its pages are added to
the address space, and none of them is ever returned by `mem_alloc_ppages`, in any run
from `pools` whose requests stay inside the pools. -/
structure RegionConfined (p : Platform M) (c : Config) (pools : PoolState M) (V : VmSpace M F)
    (o : Owner) (s s' : PtState F) : Prop where
  kept : (ppagesFor p c o).Kept pools
  reserved : AddsOnly V.toPtAddrSpace ((ppagesFor p c o).Covers M) s.pte s'.pte
  apart : ∀ u u' colors n aligned out, (pageSystem pools).Reach PageOk u →
    PageOk u (.alloc colors n aligned out) → PageStep u (.alloc colors n aligned out) u' →
    ∀ a pa, physAddr V.toPtAddrSpace s'.pte a = some pa → out.Page M pa →
      physAddr V.toPtAddrSpace s.pte a = some pa

section

variable {p : Platform M} {c : Config} {o : Owner} {reg : VmMemRegion}

theorem numPages_mono {size size' : Nat} (hle : size ≤ size')
    (h : size' + (M.pageSize - 1) < M.wordCount) : M.numPages size ≤ M.numPages size' := by
  rw [M.numPages_eq h, M.numPages_eq (by omega)]
  exact Nat.div_le_div_right (Nat.add_le_add_right hle _)

theorem RegionOf.static (h : RegionOf c o reg) : o ∈ staticOwners p c := by
  cases h with
  | region hvm hreg hphys =>
    exact physRegions_static (mem_physRegions.mpr ⟨_, _, _, _, rfl, hvm, hreg, hphys⟩)
  | @ipc k vm ipc shmem hvm hipc hid hshmem hphys =>
    apply physShmems_static
    refine List.mem_filterMap.mpr ⟨(shmem, k), List.mk_mem_zipIdx_iff_getElem?.mpr hshmem, ?_⟩
    exact if_pos hphys

theorem RegionOf.reserves (h : RegionOf c o reg) (hwf : c.WellFormed M)
    (hwrap : c.ForEach (NoWrap M)) : Reserves M (ppagesFor p c o) reg := by
  have hfits := (allPlaced hwf hwrap o (h.static (p := p))).fits
  cases h with
  | @region i j vm reg hvm hreg hphys =>
    have hq : ppagesFor p c (.vmRegion i j) = memPpagesGet reg.phys (M.numPages reg.size) := by
      unfold ppagesFor
      simp only [hvm, Option.bind_some, hreg]
    rw [hq] at hfits ⊢
    exact ⟨rfl, Nat.le_refl _, hfits⟩
  | @ipc k vm ipc shmem hvm hipc hid hshmem hphys =>
    have hq : ppagesFor p c (.shmem k) = memPpagesGet shmem.phys (M.numPages shmem.size) := by
      unfold ppagesFor
      simp only [hshmem]
    have hsize : (ipcRegion ipc shmem).size ≤ shmem.size := by
      unfold ipcRegion
      dsimp only
      split
      · exact Nat.le_refl _
      · omega
    rw [hq] at hfits ⊢
    exact ⟨rfl, numPages_mono hsize (hwrap.2 shmem (List.mem_of_getElem? hshmem) hphys).1, hfits⟩

theorem Ppages.Kept.numPages_le {s : PoolState M} {q : Ppages} (h : q.Kept s)
    (hlayout : Layout s) : q.numPages ≤ 8 * M.bitmapPoolSize := by
  obtain ⟨i, pool, hpool, ⟨hlo, hhi⟩, -⟩ := h
  have hbits := hlayout.inUse i pool hpool
  have hroom := hlayout.room
  unfold PagePool.limit at hhi
  have hmul : q.numPages * M.pageSize ≤ pool.numPages * M.pageSize := by omega
  have hle := Nat.le_of_mul_le_mul_right hmul M.pageSize_pos
  omega

end

/-- **A region of a VM gets its own memory** where it asks for pages of the reservation, and
only there on a target whose bitmap pool has a bit for no more pages than the address space
has periods of the colours. -/
theorem vmMapMemRegion_confined_iff {p : Platform M} {c c' : Config} {flags : Owner → Bool}
    {s0 : PoolState M} {st : InitState M} {V : VmSpace M F} {s s' : PtState F} {o : Owner}
    {reg : VmMemRegion} (hapart : p.regions.Pairwise MemRegion.Apart) (hs0 : s0.Initial)
    (hinit : memInit p c flags s0 = some st) (hconfig : configInit p c = some c')
    (hwf : c'.WellFormed M) (hwrap : c'.ForEach (NoWrap M)) (hreg : RegionOf c' o reg)
    (hrun : vmMapMemRegion V canAlloc s reg fuel = some s') :
    (ColorsFit M reg (ppagesFor p c' o) → RegionConfined p c' st.pools V o s s') ∧
      (8 * M.bitmapPoolSize * (M.colorNum * M.colorSize) ≤ M.pageCount →
        (RegionConfined p c' st.pools V o s s' ↔ ColorsFit M reg (ppagesFor p c' o))) := by
  have hq : Reserves M (ppagesFor p c' o) reg := hreg.reserves hwf hwrap
  obtain ⟨hlayout, hkept, -⟩ := memInit_isolated hapart hs0 hconfig hwf hwrap hinit
  have hown := hkept o hreg.static
  have hconfined : ColorsFit M reg (ppagesFor p c' o) → RegionConfined p c' st.pools V o s s' := by
    intro hfit
    have hadds := vmMapMemRegion_adds hq hfit hrun
    have hnever := neverHandedOut hapart hs0 hinit hconfig hwf hwrap
    refine ⟨hown, hadds, ?_⟩
    intro u u' colors n aligned out hreach hok hstep a pa hpa hpage
    rcases hadds a pa hpa with hold | hcovers
    · exact hold
    · exact absurd hcovers ((hnever u hreach).2 u' colors n aligned out hok hstep pa hpage o
        hreg.static)
  refine ⟨hconfined, fun hpool => ⟨fun h => ?_, hconfined⟩⟩
  by_contra hfit
  have hmul := Nat.mul_le_mul_right (M.colorNum * M.colorSize) (hown.numPages_le hlayout)
  exact vmMapMemRegion_escapes hq (Nat.le_trans hmul hpool) hfit hrun h.reserved

/-! ## Two VMs next to each other -/

theorem sv39x4_wdt_succ (l : Nat) (_ : l + 1 < 3) :
    (if l + 1 = 0 then 41 else 39 - 9 * (l + 1)) = 30 - 9 * l := by
  rw [if_neg (Nat.succ_ne_zero l)]
  omega

theorem sv39x4_off_lt_wdt (l : Nat) (hl : l < 3) :
    30 - 9 * l < if l = 0 then 41 else 39 - 9 * l := by
  split
  · omega
  · omega

/-- The levels of the guest tables on RISC-V, with four root tables. -/
def sv39x4 : Shape where
  lvls := 3
  off l := 30 - 9 * l
  wdt l := if l = 0 then 41 else 39 - 9 * l
  lvls_pos := sv39.lvls_pos
  wdt_succ := sv39x4_wdt_succ
  off_lt_wdt := sv39x4_off_lt_wdt

/-- The address space of a guest. -/
def sv39x4Guest : VmSpace fourColors Bool where
  dscr := sv39x4
  asType := .vm
  sections := [⟨0, 0xffffffffffffffff, false⟩]
  hypFlags := false
  vmFlags := true
  vaHigh := 0
  physWalk := true
  off_last := by decide
  lvls_lt := by decide
  sections_lt := by decide
  lvlTerm := fun _ => true
  term_last := rfl
  term_succ := fun _ _ => rfl
  off_le := by decide
  isVm := rfl
  secs := rfl
  width_le := by decide

theorem fourColors_dvd_image : fourColors.pageSize ∣ 8 * 4096 := by decide

theorem eightPages_pos : 0 < 8 * 4096 := by decide

theorem fourCpus_pos : 0 < 4 * (4 * 4096) := by decide

/-- Memory of 64 pages, with the hypervisor in the first 32. -/
def onePoolPlatform : Platform fourColors where
  regions := [⟨0, 64 * 4096, fourColors.pageSize_dvd_zero, by decide, by decide, by decide⟩]
  memNonUnified := false
  memProtMpu := false
  vasBase := 0
  imgAddr := 0
  dataAddr := 0
  dataVmaStart := 0
  imageLoadSize := 8 * 4096
  imageNoloadSize := 8 * 4096
  vmImageSize := 0
  dataSize := 8 * 4096
  cpuNum := 4
  cpuBootAllocSize := 4 * 4096
  img_aligned := fourColors.pageSize_dvd_zero
  dataVma_aligned := fourColors.pageSize_dvd_zero
  load_aligned := fourColors_dvd_image
  noload_aligned := fourColors_dvd_image
  vmImage_aligned := fourColors.pageSize_dvd_zero
  data_aligned := fourColors_dvd_image
  cpuBoot_aligned := by decide
  load_pos := eightPages_pos
  noload_pos := eightPages_pos
  data_pos := eightPages_pos
  cpus_pos := fourCpus_pos
  load_fits := by decide
  cpus_fit := by decide

/-- A region of `n` pages from page 32 on with two of the four colours. -/
def halfColored (n : Nat) : VmMemRegion where
  base := 0x80000000
  size := n * 4096
  colors := 3
  placePhys := true
  phys := 32 * 4096

/-- That region and one of eight pages from page 40 on, each with the image of its VM. -/
def twoVms (n : Nat) : Config where
  vmlist :=
    [{ image := { loadAddr := 32 * 4096, size := 4096, separatelyLoaded := true }
       regions := [halfColored n]
       ipcs := [] },
     { image := { loadAddr := 40 * 4096, size := 4096, separatelyLoaded := true }
       regions := [{ base := 0x80000000, size := 8 * 4096, colors := 0, placePhys := true,
                     phys := 40 * 4096 }]
       ipcs := [] }]
  shmemlist := []

theorem twoVms_wellFormed {n : Nat} (hn : 0 < n) : (twoVms n).WellFormed fourColors := by
  refine ⟨?_, fun _ hshmem => absurd hshmem List.not_mem_nil⟩
  have hfirst : fourColors.pageSize ∣ 32 * 4096 := by decide
  intro vm hvm
  rcases List.mem_cons.mp hvm with rfl | hvm
  · refine ⟨⟨hfirst, Nat.succ_pos _⟩, fun reg hreg _ => ?_⟩
    obtain rfl := List.mem_singleton.mp hreg
    exact ⟨hfirst, Nat.mul_pos hn (by decide)⟩
  · obtain rfl := List.mem_singleton.mp hvm
    refine ⟨by decide, fun reg hreg _ => ?_⟩
    obtain rfl := List.mem_singleton.mp hreg
    decide

theorem twoVms_noWrap {n : Nat} (hn : n ≤ 32) : (twoVms n).ForEach (NoWrap fourColors) := by
  have hpages : ∀ first k, first + k ≤ 64 → NoWrap fourColors (first * 4096) (k * 4096) := by
    intro first k hle
    have hword : fourColors.wordCount = 2 ^ 64 := rfl
    have hpage : fourColors.pageSize = 4096 := rfl
    have hnum : fourColors.numPages (k * fourColors.pageSize) = k := by
      apply fourColors.numPages_mul
      rw [hpage]
      omega
    rw [hpage] at hnum
    rw [NoWrap, hnum, hword, hpage]
    omega
  refine ⟨?_, fun _ hshmem => absurd hshmem List.not_mem_nil⟩
  intro vm hvm
  rcases List.mem_cons.mp hvm with rfl | hvm
  · refine ⟨hpages 32 1 (by decide), fun reg hreg _ => ?_⟩
    obtain rfl := List.mem_singleton.mp hreg
    exact hpages 32 n (by omega)
  · obtain rfl := List.mem_singleton.mp hvm
    refine ⟨hpages 40 1 (by decide), fun reg hreg _ => ?_⟩
    obtain rfl := List.mem_singleton.mp hreg
    exact hpages 40 8 (by decide)

/-- Four pages are all of the two colours. -/
theorem vmMapMemRegion_confined_iff_four : ∃ st s',
    memInit onePoolPlatform (twoVms 4) (fun _ => false) (emptyPools _) = some st ∧
      vmMapMemRegion sv39x4Guest (fun _ => true) nothingMapped (halfColored 4) 20 = some s' ∧
      RegionConfined onePoolPlatform (twoVms 4) st.pools sv39x4Guest (.vmRegion 0 0)
        nothingMapped s' := by
  have hinit : (memInit onePoolPlatform (twoVms 4) (fun _ => false)
      (emptyPools _)).isSome = true := by decide +kernel
  obtain ⟨st, hst⟩ := Option.isSome_iff_exists.mp hinit
  have hrun : (vmMapMemRegion sv39x4Guest (fun _ => true) nothingMapped (halfColored 4)
      20).isSome = true := by decide +kernel
  obtain ⟨s', hs'⟩ := Option.isSome_iff_exists.mp hrun
  have hzero : (emptyPools fourColors).Initial := ⟨rfl, rfl, fun _ _ => rfl⟩
  have hfit : ColorsFit fourColors (halfColored 4)
      (ppagesFor onePoolPlatform (twoVms 4) (.vmRegion 0 0)) := .inr (.inr (by decide))
  exact ⟨st, s', hst, hs', (vmMapMemRegion_confined_iff (List.pairwise_singleton _ _) hzero hst rfl
    (twoVms_wellFormed (by decide)) (twoVms_noWrap (by decide))
    (@RegionOf.region _ _ _ ⟨⟨32 * 4096, 4096, true⟩, [halfColored 4], []⟩ _ rfl rfl rfl)
    hs').2 (by decide) |>.mpr hfit⟩

/-- **Half the colours**: of eight pages the fifth is the first page of the other VM. -/
theorem vmMapMemRegion_not_confined : ∃ st s',
    memInit onePoolPlatform (twoVms 8) (fun _ => false) (emptyPools _) = some st ∧
      RegionOf (twoVms 8) (.vmRegion 0 0) (halfColored 8) ∧
      vmMapMemRegion sv39x4Guest (fun _ => true) nothingMapped (halfColored 8) 20 = some s' ∧
      physAddr sv39x4Guest.toPtAddrSpace s'.pte 0x80004000 = some (40 * 4096) ∧
      (ppagesFor onePoolPlatform (twoVms 8) (.vmRegion 1 0)).Covers fourColors (40 * 4096) ∧
      ¬ RegionConfined onePoolPlatform (twoVms 8) st.pools sv39x4Guest (.vmRegion 0 0)
        nothingMapped s' := by
  have hinit : (memInit onePoolPlatform (twoVms 8) (fun _ => false)
      (emptyPools _)).isSome = true := by decide +kernel
  obtain ⟨st, hst⟩ := Option.isSome_iff_exists.mp hinit
  have hrun : (vmMapMemRegion sv39x4Guest (fun _ => true) nothingMapped (halfColored 8) 20).map
      (fun s => physAddr sv39x4Guest.toPtAddrSpace s.pte 0x80004000) = some (some (40 * 4096)) := by
    decide +kernel
  obtain ⟨s', hs', hphys⟩ := Option.map_eq_some_iff.mp hrun
  have hother : (ppagesFor onePoolPlatform (twoVms 8) (.vmRegion 1 0)).Covers fourColors
      (40 * 4096) := by
    unfold Ppages.Covers
    decide
  have hout : ¬ (ppagesFor onePoolPlatform (twoVms 8) (.vmRegion 0 0)).Covers fourColors
      (40 * 4096) := by
    unfold Ppages.Covers
    decide
  refine ⟨st, s', hst,
    @RegionOf.region _ _ _ ⟨⟨32 * 4096, 4096, true⟩, [halfColored 8], []⟩ _ rfl rfl rfl, hs', hphys,
    hother, ?_⟩
  intro h
  rcases h.reserved 0x80004000 (40 * 4096) hphys with hold | hcovers
  · cases hold
  · exact hout hcovers

end Bao

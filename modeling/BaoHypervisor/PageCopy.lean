import BaoHypervisor.PageMap

/-!
# Copying a mapping between two page tables

`mem_map_cpy` of the MMU build of `mem.c`.  At each turn it looks up the page or
superpage that the source address lies in and maps as many pages as a block of that
level has, or what is left to copy.  From the middle of a superpage on this goes past
its end, and what is mapped there follows it in physical memory, not in the source.
-/

namespace Bao

open RadixTable

variable {F : Type} {M : Machine}

/-- Where is copied from: the tables of another address space, with `lvl_term` of its
descriptor, or those that are copied to. -/
inductive CpySource (A : MapSpace M F) where
  | other (B : PtAddrSpace M F) (lvlTerm : Nat → Bool) (t : Table F)
  | same

namespace CpySource

variable {A : MapSpace M F}

def space : CpySource A → PtAddrSpace M F
  | other B _ _ => B
  | same => A.toPtAddrSpace

def lvlTerm : CpySource A → Nat → Bool
  | other _ lvlTerm _ => lvlTerm
  | same => A.lvlTerm

/-- The tables, where those copied to are `t`. -/
def table (src : CpySource A) (t : Table F) : Table F :=
  match src with
  | other _ _ t₀ => t₀
  | same => t

end CpySource

section

variable {A : MapSpace M F} (src : CpySource A)

/-- The walk of `mem_map_cpy` over the `more` levels from `lvl` on, to a `pte_page`: its
level and `pte_addr`. -/
def leafWalk (t : Table F) (vas : Nat) : Nat → Nat → Option (Nat × Nat)
  | 0, _ => none
  | more + 1, lvl =>
      match ptGetPte src.space t lvl vas with
      | none => none
      | some i =>
          match t lvl i with
          | .leaf base _ =>
              if src.lvlTerm lvl then some (lvl, base) else leafWalk t vas more (lvl + 1)
          | _ => leafWalk t vas more (lvl + 1)

/-- The loop of `mem_map_cpy`. -/
structure CpyState (F : Type) where
  s : PtState F
  vad : Nat
  vas : Nat
  count : Nat
  toMap : Nat

/-- One turn of the loop; what `mem_map` answers is not looked at. -/
def mapCpyTurn (canAlloc : Nat → Bool) (fuel : Nat) (u : CpyState F) : Option (CpyState F) :=
  match leafWalk src (src.table u.s.pte) u.vas src.space.dscr.lvls 0 with
  | none => none
  | some (lvl, base) =>
      let lvlSize := src.space.dscr.size lvl
      let size := if u.toMap < lvlSize then u.toMap else lvlSize
      let npages := M.numPages size
      let pa := (base + (u.vas - u.vas / lvlSize * lvlSize)) % M.wordCount
      (memMap A canAlloc u.s u.vad pa npages A.hypFlags fuel).map fun r =>
        { s := r.2
          vad := (u.vad + size) % M.wordCount
          vas := (u.vas + size) % M.wordCount
          count := u.count + npages
          toMap := u.toMap - size }

/-- The loop of `mem_map_cpy`, for at most as many turns as given. -/
def mapCpyLoop (canAlloc : Nat → Bool) (fuel n : Nat) : Nat → CpyState F → Option (PtState F)
  | 0, u => if u.count < n then none else some u.s
  | turns + 1, u =>
      if u.count < n then
        match mapCpyTurn src canAlloc fuel u with
        | none => none
        | some u => mapCpyLoop canAlloc fuel n turns u
      else some u.s

/-- `mem_map_cpy`, for at most `fuel` turns of each of its loops. -/
def memMapCpy (canAlloc : Nat → Bool) (s : PtState F) (asdSection : Nat) (vas : Nat)
    (vad : Option Nat) (n fuel : Nat) : Option (Option Nat × PtState F) :=
  match memAllocVpage A canAlloc s asdSection vad n fuel with
  | none => none
  | some (none, s) => some (none, s)
  | some (some va, s) =>
      (mapCpyLoop src canAlloc fuel n fuel ⟨s, va, vas, 0, n * M.pageSize % M.wordCount⟩).map
        fun s => (some va, s)

/-! ## The exact result -/

/-- The page of the source is mapped by a page or superpage. -/
structure SourcePage (t : Table F) (a : Nat) : Prop where
  high : a / 2 ^ src.space.dscr.wdt 0 = src.space.vaHigh
  leaf : ∃ lvl base flags, src.lvlTerm lvl = true ∧ LeafAt src.space.dscr t a lvl base flags ∧
    base % M.pageSize = 0 ∧ base + a % src.space.dscr.size lvl < M.wordCount

/-- The physical address that an address translates to. -/
def physAddr (B : PtAddrSpace M F) (t : Table F) (a : Nat) : Option Nat :=
  (memTranslates B t a).map Prod.fst

/-- **The source is aliased**: each page of the destination translates to what the page of
the source does, and no other page of the destination is touched. -/
structure Aliased (s s' : PtState F) (vas va n : Nat) : Prop where
  pages : ∀ k, k < n → physAddr A.toPtAddrSpace s'.pte (va + k * M.pageSize) =
    physAddr src.space (src.table s.pte) (vas + k * M.pageSize)
  others : ∀ a, a < va ∨ va + n * M.pageSize ≤ a →
    memTranslates A.toPtAddrSpace s'.pte a = memTranslates A.toPtAddrSpace s.pte a

/-- What one turn copies with `left` pages to go: the physical address and the number of
pages. -/
def cpyStep (t : Table F) (vas left : Nat) : Option (Nat × Nat) :=
  (leafWalk src t vas src.space.dscr.lvls 0).map fun r =>
    ((r.2 + vas % src.space.dscr.size r.1) % M.wordCount,
      min (src.space.dscr.size r.1 / M.pageSize) left)

/-- What a turn copies lies in one section of the destination, and the source goes on in
physical memory as far. -/
structure StepFine (t : Table F) (vas vad pa k : Nat) : Prop where
  inside : inOneSec A.sections vad ((vad + k * M.pageSize + (M.wordCount - 1)) % M.wordCount) = true
  follows : ∀ j, j < k → physAddr src.space t (vas + j * M.pageSize) =
    some ((pa + j * M.pageSize) % M.wordCount)

/-- All turns are fine. -/
def CpyFine (t : Table F) : Nat → Nat → Nat → Nat → Prop
  | 0, _, _, _ => True
  | turns + 1, vas, vad, left =>
      left = 0 ∨ ∃ pa k, cpyStep src t vas left = some (pa, k) ∧ StepFine src t vas vad pa k ∧
        CpyFine t turns (vas + k * M.pageSize) (vad + k * M.pageSize) (left - k)

end

variable {A : MapSpace M F} {src : CpySource A} {canAlloc : Nat → Bool} {t t' : Table F}
  {s s' : PtState F} {fuel turns n left vas vad va pa k lvl base top a : Nat} {flags : F}

/-! ## One turn -/

theorem leafWalk_of_leaf {L more : Nat} (hleaf : LeafAt src.space.dscr t vas L base flags)
    (hterm : src.lvlTerm L = true) (hle : lvl ≤ L) (hmore : lvl + more = src.space.dscr.lvls) :
    leafWalk src t vas more lvl = some (L, base) := by
  induction more generalizing lvl with
  | zero =>
    have hlt := hleaf.lvl
    omega
  | succ more ih =>
    have hget := ptGetPte_eq_some.mpr
      ⟨show lvl < src.space.dscr.lvls by omega, reaches_of_le hle hleaf.reach, rfl⟩
    rw [leafWalk, hget]
    dsimp only
    rcases Nat.eq_or_lt_of_le hle with rfl | hlt
    · rw [hleaf.entry]
      dsimp only
      rw [if_pos hterm]
    · rw [table_above hleaf.reach hlt]
      exact ih hlt (by omega)

theorem cpyStep_of_leaf (hleaf : LeafAt src.space.dscr t vas lvl base flags)
    (hterm : src.lvlTerm lvl = true) (left : Nat) :
    cpyStep src t vas left = some ((base + vas % src.space.dscr.size lvl) % M.wordCount,
      min (src.space.dscr.size lvl / M.pageSize) left) := by
  rw [cpyStep, leafWalk_of_leaf hleaf hterm (Nat.zero_le _) (Nat.zero_add _)]
  rfl

theorem physAddr_of_leaf {B : PtAddrSpace M F} (hhigh : a / 2 ^ B.dscr.wdt 0 = B.vaHigh)
    (hleaf : LeafAt B.dscr t a lvl base flags) :
    physAddr B t a = some (base + a % B.dscr.size lvl) := by
  rw [physAddr, memTranslates, if_pos hhigh, hleaf.translate]
  rfl

theorem SourcePage.step (h : SourcePage src t vas) (hleft : 0 < left) :
    ∃ lvl base pa k, leafWalk src t vas src.space.dscr.lvls 0 = some (lvl, base) ∧
      lvl < src.space.dscr.lvls ∧ k = min (src.space.dscr.size lvl / M.pageSize) left ∧
      pa = base + vas % src.space.dscr.size lvl ∧ base % M.pageSize = 0 ∧ pa < M.wordCount ∧
      cpyStep src t vas left = some (pa, k) ∧ 0 < k := by
  obtain ⟨lvl, base, flags, hterm, hleaf, hbase, hword⟩ := h.leaf
  have hpages : 0 < src.space.dscr.size lvl / M.pageSize := by
    apply Nat.div_pos _ M.pageSize_pos
    exact Nat.le_of_dvd Shape.size_pos (pageSize_dvd_size hleaf.lvl)
  refine ⟨lvl, base, _, _, leafWalk_of_leaf hleaf hterm (Nat.zero_le _) (Nat.zero_add _),
    hleaf.lvl, rfl, rfl, hbase, hword, ?_, ?_⟩
  · rw [cpyStep_of_leaf hleaf hterm, Nat.mod_eq_of_lt hword]
  · omega

/-- What a turn does, with its call of `mem_map`. -/
theorem mapCpyTurn_eq {u : CpyState F} (hpage : SourcePage src (src.table u.s.pte) u.vas)
    (hleft : 0 < left) (hword : left * M.pageSize < M.wordCount)
    (htoMap : u.toMap = left * M.pageSize) :
    ∃ pa k, cpyStep src (src.table u.s.pte) u.vas left = some (pa, k) ∧ 0 < k ∧ k ≤ left ∧
      pa < M.wordCount ∧ (u.vas % M.pageSize = 0 → pa % M.pageSize = 0) ∧
      mapCpyTurn src canAlloc fuel u =
        (memMap A canAlloc u.s u.vad pa k A.hypFlags fuel).map fun r =>
          { s := r.2
            vad := (u.vad + k * M.pageSize) % M.wordCount
            vas := (u.vas + k * M.pageSize) % M.wordCount
            count := u.count + k
            toMap := (left - k) * M.pageSize } := by
  obtain ⟨lvl, base, pa, k, hwalk, hl, hk, hpa, hbase, hpaWord, hstep, hpos⟩ := hpage.step hleft
  have hsize := Nat.div_mul_cancel (pageSize_dvd_size (A := src.space) hl)
  have hle : k ≤ left := by omega
  have hbytes : (if u.toMap < src.space.dscr.size lvl then u.toMap
      else src.space.dscr.size lvl) = k * M.pageSize := by
    rw [htoMap, ← hsize, hk]
    by_cases hlt : left < src.space.dscr.size lvl / M.pageSize
    · rw [if_pos (Nat.mul_lt_mul_of_pos_right hlt M.pageSize_pos), Nat.min_eq_right (by omega)]
    · have hmul := Nat.mul_le_mul_right M.pageSize (Nat.le_of_not_lt hlt)
      rw [if_neg (by omega), Nat.min_eq_left (by omega)]
  have hoff : u.vas - u.vas / src.space.dscr.size lvl * src.space.dscr.size lvl =
      u.vas % src.space.dscr.size lvl := by
    rw [Nat.mod_eq_sub_div_mul]
  have hnum : M.numPages (k * M.pageSize) = k := by
    apply M.numPages_mul
    exact Nat.lt_of_le_of_lt (Nat.mul_le_mul_right _ hle) hword
  refine ⟨pa, k, hstep, hpos, hle, hpaWord, ?_, ?_⟩
  · intro hvas
    rw [hpa, Nat.add_mod, hbase, Nat.mod_mod_of_dvd _ (pageSize_dvd_size hl), hvas]
    rfl
  · unfold mapCpyTurn
    rw [hwalk]
    dsimp only
    rw [hbytes, hoff, hnum, ← hpa, Nat.mod_eq_of_lt hpaWord, htoMap, Nat.sub_mul]

/-! ## All turns -/

/-- The loop before some of its turns: `left` pages from `vas` on are still to be copied to
`vad`; the source's are mapped as in `t₀`, the destination's are not. -/
structure Copying (src : CpySource A) (t₀ : Table F) (top n vas vad left : Nat) (u : CpyState F) :
    Prop where
  count : u.count + left = n
  toMap : u.toMap = left * M.pageSize
  atDst : u.vad = vad
  atSrc : 0 < left → u.vas = vas
  aligned : vas % M.pageSize = 0 ∧ vad % M.pageSize = 0
  fits : vas + left * M.pageSize ≤ M.wordCount
  room : RoomAbove A.toPtAddrSpace vad top
  last : vad + left * M.pageSize ≤ top
  pages : ∀ j, j < left → SourcePage src t₀ (vas + j * M.pageSize)
  agree : ∀ j, j < left → ∀ l base flags,
    LeafAt src.space.dscr (src.table u.s.pte) (vas + j * M.pageSize) l base flags ↔
      LeafAt src.space.dscr t₀ (vas + j * M.pageSize) l base flags
  apart : src = .same → ∀ j, j < left →
    vas + j * M.pageSize < vad ∨ vad + left * M.pageSize ≤ vas + j * M.pageSize
  holes : ∀ j, j < left → PageHole A u.s.pte (vad + j * M.pageSize)

theorem Copying.turn {t₀ : Table F} {u : CpyState F} (h : Copying src t₀ top n vas vad left u)
    (hleft : 0 < left) :
    ∃ pa k, cpyStep src t₀ vas left = some (pa, k) ∧ 0 < k ∧ k ≤ left ∧ pa < M.wordCount ∧
      pa % M.pageSize = 0 ∧ mapCpyTurn src canAlloc fuel u =
        (memMap A canAlloc u.s vad pa k A.hypFlags fuel).map fun r =>
          { s := r.2
            vad := (vad + k * M.pageSize) % M.wordCount
            vas := (vas + k * M.pageSize) % M.wordCount
            count := u.count + k
            toMap := (left - k) * M.pageSize } := by
  have hlast := h.last
  have hroom := h.room.room
  have hroot : 0 < A.dscr.size 0 := Shape.size_pos
  have hvas := h.atSrc hleft
  have hfirst := h.pages 0 hleft
  have hagree := h.agree 0 hleft
  rw [Nat.zero_mul, Nat.add_zero] at hfirst hagree
  have hnow : SourcePage src (src.table u.s.pte) u.vas := by
    rw [hvas]
    obtain ⟨lvl, base, flags, hterm, hleaf, hrest⟩ := hfirst.leaf
    exact ⟨hfirst.high, lvl, base, flags, hterm, (hagree lvl base flags).mpr hleaf, hrest⟩
  obtain ⟨pa, k, hstep, hk, hle, hpa, hal, hturn⟩ := @mapCpyTurn_eq F M A src canAlloc fuel left u
    hnow hleft (by omega) h.toMap
  rw [hvas] at hstep hal
  rw [hvas, h.atDst] at hturn
  refine ⟨pa, k, ?_, hk, hle, hpa, hal h.aligned.1, hturn⟩
  -- the leaf is the one the source had before
  obtain ⟨lvl, base, flags, hterm, hleaf, -⟩ := hfirst.leaf
  rw [cpyStep_of_leaf ((hagree lvl base flags).mpr hleaf) hterm] at hstep
  rw [cpyStep_of_leaf hleaf hterm]
  exact hstep

/-- **The rest of the loop** copies the rest. -/
theorem Copying.next {t₀ : Table F} {u : CpyState F} (h : Copying src t₀ top n vas vad left u)
    (hle : k ≤ left) (hsame : SameOutside A u.s.pte s'.pte vad k) :
    Copying src t₀ top n (vas + k * M.pageSize) (vad + k * M.pageSize) (left - k)
      { s := s'
        vad := (vad + k * M.pageSize) % M.wordCount
        vas := (vas + k * M.pageSize) % M.wordCount
        count := u.count + k
        toMap := (left - k) * M.pageSize } := by
  have hsplit : k * M.pageSize + (left - k) * M.pageSize = left * M.pageSize := by
    rw [← Nat.add_mul, Nat.add_sub_cancel' hle]
  have hcount := h.count
  have hfits := h.fits
  have hlast := h.last
  have hroom := h.room.room
  have hroot : 0 < A.dscr.size 0 := Shape.size_pos
  have haddr : ∀ x j, x + k * M.pageSize + j * M.pageSize = x + (k + j) * M.pageSize := by
    intro x j
    rw [Nat.add_mul, Nat.add_assoc]
  have hlt : ∀ {j}, j < left - k → (k + j) * M.pageSize < left * M.pageSize := by
    intro j hj
    exact Nat.mul_lt_mul_of_pos_right (by omega) M.pageSize_pos
  have hge : ∀ j, k * M.pageSize ≤ (k + j) * M.pageSize := by
    intro j
    exact Nat.mul_le_mul_right _ (Nat.le_add_right k j)
  refine ⟨?_, rfl, ?_, ?_, ⟨?_, ?_⟩, by omega, h.room.above (Nat.le_add_right _ _), by omega,
    ?_, ?_, ?_, ?_⟩
  · dsimp only
    omega
  · exact Nat.mod_eq_of_lt (by omega)
  · intro hmore
    have hone := Nat.mul_le_mul_right M.pageSize hmore
    have hpos := M.pageSize_pos
    exact Nat.mod_eq_of_lt (by omega)
  · rw [Nat.add_mul_mod_self_right]
    exact h.aligned.1
  · rw [Nat.add_mul_mod_self_right]
    exact h.aligned.2
  · intro j hj
    rw [haddr]
    exact h.pages (k + j) (by omega)
  · intro j hj l base flags
    have hbefore := h.agree (k + j) (by omega) l base flags
    rw [haddr]
    cases hsrc : src with
    | other B lvlTerm t =>
      rw [hsrc] at hbefore
      exact hbefore
    | same =>
      have hout := h.apart hsrc (k + j) (by omega)
      have hhigh := (h.pages (k + j) (by omega)).high
      have hmul := Nat.mul_le_mul_right M.pageSize hle
      rw [hsrc] at hbefore hhigh
      exact (hsame.leaf _ hhigh (by omega) l base flags).trans hbefore
  · intro hsrc j hj
    have hout := h.apart hsrc (k + j) (by omega)
    rw [haddr]
    omega
  · intro j hj
    rw [haddr]
    have hmul := hlt hj
    have hhigh := h.room.high (Nat.le_add_right vad ((k + j) * M.pageSize)) (by omega)
    apply hsame.hole _ hhigh _ (h.holes (k + j) (by omega))
    right
    exact Nat.add_le_add_left (hge j) vad

/-- **The loop returns** where there is a page for every table. -/
theorem Copying.runs {t₀ : Table F} {u : CpyState F} (h : Copying src t₀ top n vas vad left u)
    (fuel turns : Nat) (hpages : ∀ j, canAlloc j = true) (hfuel : n ≤ fuel) (hturns : left ≤ turns) :
    ∃ s', mapCpyLoop src canAlloc fuel n turns u = some s' := by
  induction turns generalizing left vas vad u with
  | zero =>
    have hcount := h.count
    refine ⟨u.s, ?_⟩
    rw [mapCpyLoop, if_neg (by omega)]
  | succ turns ih =>
    have hcount := h.count
    rw [mapCpyLoop]
    split
    · have hleft : 0 < left := by omega
      obtain ⟨pa, k, -, hk, hle, hpa, hal, hturn⟩ := @Copying.turn F M A src canAlloc fuel n left
        vas vad top t₀ u h hleft
      have hmul := Nat.mul_le_mul_right M.pageSize hle
      have hlast := h.last
      obtain ⟨⟨ok, s1⟩, hmap⟩ := @memMap_runs F M A canAlloc u.s A.hypFlags k vad pa top fuel hpages
        h.room (by omega) h.aligned.2 hal hpa (fun j hj => h.holes j (by omega)) (by omega)
      rw [hturn, hmap, Option.map_some]
      obtain ⟨-, hok, hno⟩ := memMap_maps h.room (by omega) h.aligned.2 hpa hmap
      have hsame : SameOutside A u.s.pte s1.pte vad k := by
        cases ok with
        | true => exact (hok rfl).toSameOutside
        | false =>
          rw [hno rfl]
          exact .of_grown .refl vad k
      exact ih (h.next hle hsame) (by omega)
    · exact ⟨u.s, rfl⟩

theorem mapCpyLoop_done {u : CpyState F} (hdone : ¬ u.count < n)
    (h : mapCpyLoop src canAlloc fuel n turns u = some s') : s' = u.s := by
  cases turns with
  | zero =>
    rw [mapCpyLoop, if_neg hdone] at h
    exact (Option.some.inj h).symm
  | succ turns =>
    rw [mapCpyLoop, if_neg hdone] at h
    exact (Option.some.inj h).symm

/-- **The pages of one turn** translate as the source exactly when the turn is fine. -/
theorem Copying.first {t₀ t₁ t₂ : Table F} {u : CpyState F} {ok : Bool}
    (h : Copying src t₀ top n vas vad left u) (hk : 0 < k) (hle : k ≤ left)
    (hok : ok = inOneSec A.sections vad ((vad + k * M.pageSize + (M.wordCount - 1)) % M.wordCount))
    (hmaps : ok = true → MapsTo A flags u.s.pte t₁ vad pa k)
    (hno : ok = false → t₁ = u.s.pte)
    (hrest : SameOutside A t₁ t₂ (vad + k * M.pageSize) (left - k)) :
    (∀ j, j < k → physAddr A.toPtAddrSpace t₂ (vad + j * M.pageSize) =
      physAddr src.space t₀ (vas + j * M.pageSize)) ↔ StepFine src t₀ vas vad pa k := by
  have hlast := h.last
  have hmul := Nat.mul_le_mul_right M.pageSize hle
  have hbelow : ∀ j, j < k → (vad + j * M.pageSize) / 2 ^ A.dscr.wdt 0 = A.vaHigh ∧
      vad + j * M.pageSize < vad + k * M.pageSize := by
    intro j hj
    have hlt := Nat.mul_lt_mul_of_pos_right hj M.pageSize_pos
    exact ⟨h.room.high (Nat.le_add_right _ _) (by omega), by omega⟩
  cases ok with
  | true =>
    have hdst : ∀ j, j < k → physAddr A.toPtAddrSpace t₂ (vad + j * M.pageSize) =
        some ((pa + j * M.pageSize) % M.wordCount) := by
      intro j hj
      obtain ⟨hhigh, hlt⟩ := hbelow j hj
      obtain ⟨l, base, hleaf, hpa⟩ := (hmaps rfl).pages j hj
      rw [physAddr_of_leaf hhigh ((hrest.leaf _ hhigh (.inl hlt) l base flags).mpr hleaf), hpa]
    constructor
    · intro hsame
      exact ⟨hok.symm, fun j hj => (hsame j hj).symm.trans (hdst j hj)⟩
    · intro hfine j hj
      exact (hdst j hj).trans (hfine.follows j hj).symm
  | false =>
    constructor
    · intro hsame
      exfalso
      obtain ⟨hhigh, hlt⟩ := hbelow 0 hk
      have hhole := h.holes 0 (by omega)
      rw [← hno rfl] at hhole
      obtain ⟨l, mark, -, hat⟩ := hrest.hole _ hhigh (.inl hlt) hhole
      have hpage := h.pages 0 (by omega)
      obtain ⟨lvl, base, flags', -, hleaf, -⟩ := hpage.leaf
      have hfirst := hsame 0 hk
      rw [physAddr_of_leaf hpage.high hleaf, physAddr, memTranslates, if_pos hhigh,
        hat.translate] at hfirst
      cases hfirst
    · intro hfine
      rw [hfine.inside] at hok
      cases hok

/-- **The loop copies the source exactly when all turns are fine**, and touches no other
page. -/
theorem Copying.exact {t₀ : Table F} {u : CpyState F} {N : Nat}
    (h : Copying src t₀ top n vas vad left u) (hN : left ≤ N)
    (hrun : mapCpyLoop src canAlloc fuel n turns u = some s') :
    SameOutside A u.s.pte s'.pte vad left ∧
      ((∀ j, j < left → physAddr A.toPtAddrSpace s'.pte (vad + j * M.pageSize) =
        physAddr src.space t₀ (vas + j * M.pageSize)) ↔ CpyFine src t₀ N vas vad left) := by
  have hcount := h.count
  induction N generalizing turns u left vas vad with
  | zero =>
    obtain rfl := Nat.le_zero.mp hN
    rw [mapCpyLoop_done (by omega) hrun]
    exact ⟨.of_grown .refl vad 0, iff_of_true (fun j hj => absurd hj (Nat.not_lt_zero j)) trivial⟩
  | succ N ih =>
    by_cases hzero : left = 0
    · subst hzero
      rw [mapCpyLoop_done (by omega) hrun]
      exact ⟨.of_grown .refl vad 0,
        iff_of_true (fun j hj => absurd hj (Nat.not_lt_zero j)) (.inl rfl)⟩
    · have hleft : 0 < left := Nat.pos_of_ne_zero hzero
      obtain ⟨turns, rfl⟩ : ∃ turns', turns = turns' + 1 := by
        cases turns with
        | zero =>
          rw [mapCpyLoop, if_pos (by omega)] at hrun
          cases hrun
        | succ turns => exact ⟨turns, rfl⟩
      obtain ⟨pa, k, hstep, hk, hle, hpa, hal, hturn⟩ := @Copying.turn F M A src canAlloc fuel n
        left vas vad top t₀ u h hleft
      have hmul := Nat.mul_le_mul_right M.pageSize hle
      have hlast := h.last
      rw [mapCpyLoop, if_pos (by omega), hturn] at hrun
      cases hmap : memMap A canAlloc u.s vad pa k A.hypFlags fuel with
      | none =>
        rw [hmap] at hrun
        cases hrun
      | some r =>
        obtain ⟨ok, s1⟩ := r
        rw [hmap, Option.map_some] at hrun
        obtain ⟨hok, hmaps, hno⟩ := memMap_maps h.room (by omega) h.aligned.2 hpa hmap
        have hsame : SameOutside A u.s.pte s1.pte vad k := by
          cases ok with
          | true => exact (hmaps rfl).toSameOutside
          | false =>
            rw [hno rfl]
            exact .of_grown .refl vad k
        have hnext := h.next hle hsame
        obtain ⟨hrest, hiff⟩ := ih hnext (by omega) hrun hnext.count
        have hfirst := h.first hk hle hok hmaps (fun hfalse => by rw [hno hfalse]) hrest
        have hall := hsame.trans hrest
        rw [Nat.add_sub_cancel' hle] at hall
        have haddr : ∀ x j, x + k * M.pageSize + j * M.pageSize = x + (k + j) * M.pageSize := by
          intro x j
          rw [Nat.add_mul, Nat.add_assoc]
        refine ⟨hall, ?_⟩
        constructor
        · intro hsource
          refine .inr ⟨pa, k, hstep, hfirst.mp fun j hj => hsource j (by omega), hiff.mp ?_⟩
          intro j hj
          rw [haddr, haddr]
          exact hsource (k + j) (by omega)
        · intro hfine j hj
          rcases hfine with hnone | ⟨pa', k', hstep', hturn', hfine⟩
          · exact absurd hnone hzero
          · rw [hstep] at hstep'
            cases hstep'
            rcases Nat.lt_or_ge j k with hlt | hge
            · exact hfirst.mpr hturn' j hlt
            · have hlater := hiff.mpr hfine (j - k) (by omega)
              rwa [haddr, haddr, Nat.add_sub_cancel' hge] at hlater

theorem memTranslates_congr {B : PtAddrSpace M F}
    (h : a / 2 ^ B.dscr.wdt 0 = B.vaHigh →
      ∀ l base flags, LeafAt B.dscr t' a l base flags ↔ LeafAt B.dscr t a l base flags) :
    memTranslates B t' a = memTranslates B t a := by
  unfold memTranslates
  split
  · next hhigh => exact translate_congr (h hhigh)
  · rfl

/-- The loop after `mem_alloc_vpage` has granted its pages. -/
theorem copying_start {s₁ : PtState F} {at_ : Option Nat} {asdSection : Nat}
    (hwdt : A.dscr.wdt 0 ≤ M.wordBits)
    (hvas : vas % M.pageSize = 0) (hfits : vas + n * M.pageSize ≤ M.wordCount)
    (hsource : ∀ j, j < n → SourcePage src (src.table s.pte) (vas + j * M.pageSize))
    (hgrant : memAllocVpage A canAlloc s asdSection at_ n fuel = some (some va, s₁))
    (hin : InsideInput A.toPtAddrSpace va n) :
    Grown A s.pte s₁.pte ∧ Copying src (src.table s.pte) (va + n * M.pageSize) n vas va n
      ⟨s₁, va, vas, 0, n * M.pageSize % M.wordCount⟩ := by
  obtain ⟨hgrown, hgranted⟩ := memAllocVpage_grants hwdt hgrant
  obtain ⟨hword, hva, hpages⟩ := hgranted va rfl
  have hr : RoomAbove A.toPtAddrSpace va (va + n * M.pageSize) := ⟨hin.1, hin.2.1, hin.2.2⟩
  have hroom := hr.room
  have hroot : 0 < A.dscr.size 0 := Shape.size_pos
  have hholes : ∀ j, j < n → PageHole A s₁.pte (va + j * M.pageSize) := by
    intro j hj
    have hlt := Nat.mul_lt_mul_of_pos_right hj M.pageSize_pos
    have hhole := (hpages j hj).1
    rwa [Nat.mod_eq_of_lt (by omega)] at hhole
  refine ⟨hgrown, Nat.zero_add n, Nat.mod_eq_of_lt (by omega), rfl, fun _ => rfl, ⟨hvas, hva⟩,
    hfits, hr, Nat.le_refl _, hsource, ?_, ?_, hholes⟩
  · intro j hj l base flags
    cases src with
    | other B lvlTerm t => exact Iff.rfl
    | same => exact hgrown.leaf _ l base flags
  · intro hsame j hj
    subst hsame
    -- a page of the source is mapped, those granted are not
    apply Classical.byContradiction
    intro hinside
    obtain ⟨q, hq⟩ := Nat.dvd_of_mod_eq_zero hvas
    obtain ⟨r, hr'⟩ := Nat.dvd_of_mod_eq_zero hva
    have hpage : vas + j * M.pageSize = va + (q + j - r) * M.pageSize := by
      have hle : r ≤ q + j := by
        apply Nat.le_of_mul_le_mul_left _ M.pageSize_pos
        rw [Nat.mul_add, ← hq, ← hr', Nat.mul_comm M.pageSize j]
        omega
      rw [hq, hr', Nat.sub_mul, Nat.add_mul, Nat.mul_comm M.pageSize q, Nat.mul_comm M.pageSize r]
      have hmul := Nat.mul_le_mul_right M.pageSize hle
      rw [Nat.add_mul] at hmul
      omega
    have hlt : q + j - r < n := by
      apply Nat.lt_of_mul_lt_mul_right (a := M.pageSize)
      omega
    obtain ⟨l, mark, -, hat⟩ := hholes (q + j - r) hlt
    rw [← hpage] at hat
    obtain ⟨lvl, base, flags, -, hleaf, -⟩ := (hsource j hj).leaf
    exact hat.not_leaf ((hgrown.leaf _ lvl base flags).mpr hleaf)

/-- **When the source is aliased.**  After every call that returns, the destination that
`mem_alloc_vpage` granted aliases the source if and only if each turn copies pages that
follow one another in physical memory to one section; and with a page for every table a
call returns. -/
theorem memMapCpy_aliased_iff {s₁ : PtState F} {vad : Option Nat} {asdSection granted : Nat}
    (hwdt : A.dscr.wdt 0 ≤ M.wordBits)
    (hvas : vas % M.pageSize = 0) (hfits : vas + n * M.pageSize ≤ M.wordCount)
    (hsource : ∀ j, j < n → SourcePage src (src.table s.pte) (vas + j * M.pageSize))
    (hgrant : memAllocVpage A canAlloc s asdSection vad n granted = some (some va, s₁))
    (hin : InsideInput A.toPtAddrSpace va n) :
    (∀ fuel r s', memMapCpy src canAlloc s asdSection vas vad n fuel = some (r, s') →
      r = some va ∧
        (Aliased src s s' vas va n ↔ CpyFine src (src.table s.pte) n vas va n)) ∧
    ((∀ j, canAlloc j = true) → ∃ enough, ∀ fuel, enough ≤ fuel →
      ∃ s', memMapCpy src canAlloc s asdSection vas vad n fuel = some (some va, s')) := by
  obtain ⟨hgrown, hstart⟩ := copying_start hwdt hvas hfits hsource hgrant hin
  constructor
  · intro fuel r s' hrun
    unfold memMapCpy at hrun
    cases halloc : memAllocVpage A canAlloc s asdSection vad n fuel with
    | none =>
      rw [halloc] at hrun
      cases hrun
    | some r' =>
      obtain rfl := memAllocVpage_unique hgrant halloc
      rw [halloc] at hrun
      obtain ⟨s₂, hloop, heq⟩ := Option.map_eq_some_iff.mp hrun
      cases heq
      obtain ⟨hsame, hiff⟩ := hstart.exact (Nat.le_refl n) hloop
      refine ⟨rfl, ?_⟩
      constructor
      · intro halias
        exact hiff.mp halias.pages
      · intro hfine
        refine ⟨hiff.mpr hfine, ?_⟩
        intro a hout
        apply memTranslates_congr
        intro hhigh l base flags
        exact (hsame.leaf a hhigh hout l base flags).trans (hgrown.leaf a l base flags)
  · intro hpages
    refine ⟨max n granted, fun fuel hfuel => ?_⟩
    obtain ⟨s', hloop⟩ := hstart.runs fuel fuel hpages (by omega) (by omega)
    refine ⟨s', ?_⟩
    rw [memMapCpy, memAllocVpage_mono (by omega) hgrant]
    dsimp only
    rw [hloop]
    rfl

/-- The address space of `sv39Hyp`, all of whose levels can map. -/
def sv39Map : MapSpace Machine.mmu64 Bool where
  toPtAddrSpace := sv39Hyp
  lvlTerm := fun _ => true
  term_last := rfl
  term_succ := fun _ _ => rfl
  off_le := by decide

/-- A guest with a superpage of 2 MB and a page after it that is elsewhere in memory. -/
def superpageAndPage : CpySource sv39Map :=
  .other { sv39Hyp with asType := .vm, vaHigh := 0 } (fun _ => true)
    (put (put (put (put (fun _ _ => .hole false) 0 (sv39.index 0 0x80200000) .table)
      1 (sv39.index 1 0x80200000) (.leaf 0x90200000 true))
      1 (sv39.index 1 0x80400000) .table)
      2 (sv39.index 2 0x80400000) (.leaf 0xa0000000 true))

/-- No tables yet. -/
def nothingMapped : PtState Bool where
  pte := fun _ _ => .hole false
  allocs := 0
  freed := []

theorem superpage_page {a : Nat} (hspan : a / 0x200000 = 0x401) :
    SourcePage superpageAndPage (superpageAndPage.table nothingMapped.pte) a := by
  have hlvl0 : sv39.index 0 a = sv39.index 0 0x80200000 := by
    change a / 2 ^ 30 % 2 ^ 9 = 2
    omega
  have hlvl1 : sv39.index 1 a = sv39.index 1 0x80200000 := by
    change a / 2 ^ 21 % 2 ^ 18 = 1025
    omega
  have htable : (superpageAndPage.table nothingMapped.pte) 0 (sv39.index 0 a) = .table := by
    rw [hlvl0]
    decide
  have hleaf : (superpageAndPage.table nothingMapped.pte) 1 (sv39.index 1 a) =
      .leaf 0x90200000 true := by
    rw [hlvl1]
    decide
  refine ⟨?_, 1, 0x90200000, true, rfl, ⟨by decide, ?_, hleaf⟩, by decide, ?_⟩
  · change a / 2 ^ 39 = 0
    omega
  · exact reaches_succ.mpr ⟨rfl, htable⟩
  · change 0x90200000 + a % 2 ^ 21 < 2 ^ 64
    omega

/-- Two pages in the middle of the superpage are aliased. -/
theorem memMapCpy_aliased_iff_middle : ∃ s',
    memMapCpy superpageAndPage (fun _ => true) nothingMapped 2 0x80203000 none 2 10 =
        some (some 0xffffffc040000000, s') ∧
      Aliased superpageAndPage nothingMapped s' 0x80203000 0xffffffc040000000 2 := by
  have hgrant : ∃ s₁, memAllocVpage sv39Map (fun _ => true) nothingMapped 2 none 2 10 =
      some (some 0xffffffc040000000, s₁) := ⟨_, rfl⟩
  obtain ⟨s₁, hgrant⟩ := hgrant
  have hpages : ∀ j, j < 2 → SourcePage superpageAndPage
      (superpageAndPage.table nothingMapped.pte) (0x80203000 + j * Machine.mmu64.pageSize) := by
    intro j hj
    apply superpage_page
    change (0x80203000 + j * 4096) / 0x200000 = 0x401
    omega
  have h := memMapCpy_aliased_iff (n := 2) (by decide) (by decide) (by decide) hpages hgrant
    ⟨by decide, by decide, by decide⟩
  have hrun : ∃ s', memMapCpy superpageAndPage (fun _ => true) nothingMapped 2 0x80203000 none 2
      10 = some (some 0xffffffc040000000, s') := ⟨_, rfl⟩
  obtain ⟨s', hrun⟩ := hrun
  refine ⟨s', hrun, (h.1 10 _ s' hrun).2.mpr (.inr ⟨0x90203000, 2, by decide, ?_, .inl rfl⟩)⟩
  refine ⟨by decide, ?_⟩
  intro j hj
  rcases show j = 0 ∨ j = 1 by omega with rfl | rfl
  · decide
  · decide

/-- **The last page of the superpage and the one after it**: the second page of the copy is
the one that follows the superpage in memory. -/
theorem memMapCpy_not_aliased : ∃ s',
    memMapCpy superpageAndPage (fun _ => true) nothingMapped 2 0x803ff000 none 2 10 =
        some (some 0xffffffc040000000, s') ∧
      SourcePage superpageAndPage (superpageAndPage.table nothingMapped.pte) 0x803ff000 ∧
      SourcePage superpageAndPage (superpageAndPage.table nothingMapped.pte) 0x80400000 ∧
      ¬ Aliased superpageAndPage nothingMapped s' 0x803ff000 0xffffffc040000000 2 := by
  have hrun : ∃ s', memMapCpy superpageAndPage (fun _ => true) nothingMapped 2 0x803ff000 none 2
      10 = some (some 0xffffffc040000000, s') ∧
      physAddr sv39Hyp s'.pte 0xffffffc040001000 = some 0x90400000 := ⟨_, rfl, rfl⟩
  obtain ⟨s', hrun, hsecond⟩ := hrun
  refine ⟨s', hrun, superpage_page (by decide), ?_, ?_⟩
  · exact ⟨by decide, 2, 0xa0000000, true, rfl, ⟨by decide, by decide, by decide⟩, by decide,
      by decide⟩
  · intro halias
    have hsame := halias.pages 1 (by decide)
    have hsource : physAddr superpageAndPage.space (superpageAndPage.table nothingMapped.pte)
        (0x803ff000 + 1 * Machine.mmu64.pageSize) = some 0xa0000000 := by
      decide
    rw [hsource] at hsame
    have hclash : some 0x90400000 = some 0xa0000000 := hsecond.symm.trans hsame
    revert hclash
    decide

end Bao

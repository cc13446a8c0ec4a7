import BaoHypervisor.UnmapExact
import BaoHypervisor.VpageAlloc

/-!
# Mapping consecutive pages

`mem_map` of the MMU build of `mem.c` for physical pages that are given and follow one
another.  It walks down from the root at each turn, makes tables of holes that it cannot
fill with one leaf, and then fills entries of one table as long as what is left is not
smaller than an entry; only the first of them is looked at before.
-/

namespace Bao

open RadixTable

variable {F : Type} {M : Machine}

section

variable (A : MapSpace M F) (canAlloc : Nat → Bool)

/-- `pt_pte_mappable`. -/
def ptPteMappable (e : Entry F) (lvl left vaddr paddr : Nat) : Bool :=
  !pteValid e && decide (A.dscr.size lvl ≤ left * M.pageSize % M.wordCount) &&
    decide (vaddr % A.dscr.size lvl = 0) && decide (paddr % A.dscr.size lvl = 0)

/-- The `for` loop of `mem_map` over the `more` levels from `lvl` on: the level to map at.
`none` is an access to an entry that does not exist or the `ERROR` of a page that is
mapped already. -/
def mapWalk (left vaddr paddr : Nat) : Nat → Nat → PtState F → Option (Nat × PtState F)
  | 0, _, _ => none
  | more + 1, lvl, s =>
      match ptGetPte A.toPtAddrSpace s.pte lvl vaddr with
      | none => none
      | some i =>
          if A.lvlTerm lvl then
            if ptPteMappable A (s.pte lvl i) lvl left vaddr paddr then some (lvl, s)
            else
              match s.pte lvl i with
              | .hole _ =>
                  if lvl + 1 < A.dscr.lvls then
                    mapWalk left vaddr paddr more (lvl + 1)
                      (memAllocPt A.toPtAddrSpace canAlloc s lvl i).2
                  else none
              | .table => mapWalk left vaddr paddr more (lvl + 1) s
              | .leaf _ _ => none
          else mapWalk left vaddr paddr more (lvl + 1) s

/-- What `mem_map` has still to map: the tables, `vaddr`, `paddr`, and `num_pages - count`. -/
structure MapState (F : Type) where
  s : PtState F
  vaddr : Nat
  paddr : Nat
  left : Nat

/-- The inner loop of `mem_map` over the entries of the table from index `i` on. -/
def mapRun (flags : F) (lvl : Nat) : Nat → Nat → MapState F → MapState F
  | 0, _, u => u
  | more + 1, i, u =>
      if 0 < u.left ∧ A.dscr.size lvl / M.pageSize ≤ u.left then
        mapRun flags lvl more (i + 1)
          { s := { u.s with pte := put u.s.pte lvl i (.leaf u.paddr flags) }
            vaddr := (u.vaddr + A.dscr.size lvl) % M.wordCount
            paddr := (u.paddr + A.dscr.size lvl) % M.wordCount
            left := u.left - A.dscr.size lvl / M.pageSize }
      else u

/-- The loop of `mem_map`, for at most `fuel` turns. -/
def mapLoop (flags : F) : Nat → MapState F → Option (PtState F)
  | 0, u => if 0 < u.left then none else some u.s
  | fuel + 1, u =>
      if 0 < u.left then
        match mapWalk A canAlloc u.left u.vaddr u.paddr A.dscr.lvls 0 u.s with
        | none => none
        | some (lvl, s) =>
            let i := A.dscr.index lvl u.vaddr
            mapLoop flags fuel
              (mapRun A flags lvl (A.dscr.fan lvl - i % A.dscr.fan lvl) i { u with s := s })
      else some u.s

/-- The addresses are in one section, the first and the last of them. -/
def inOneSec (sections : List Section) (first last : Nat) : Bool :=
  (memFindSec sections first).isSome && memFindSec sections first == memFindSec sections last

/-- `mem_map` of consecutive pages from `paddr` on, for at most `fuel` turns. -/
def memMap (s : PtState F) (va paddr numPages : Nat) (flags : F) (fuel : Nat) :
    Option (Bool × PtState F) :=
  let vaddr := va / M.pageSize * M.pageSize
  if inOneSec A.sections vaddr
      ((vaddr + numPages * M.pageSize + (M.wordCount - 1)) % M.wordCount) then
    (mapLoop A canAlloc flags fuel ⟨s, vaddr, paddr, numPages⟩).map fun s => (true, s)
  else some (false, s)

/-! ## What is mapped -/

/-- The page is mapped. -/
def PageAt (t : Table F) (a pa : Nat) (flags : F) : Prop :=
  ∃ l base, LeafAt A.dscr t a l base flags ∧ base + a % A.dscr.size l = pa

/-- Addresses that are not in the `n` pages from `v` on are mapped as before. -/
structure SameOutside (t t' : Table F) (v n : Nat) : Prop where
  leaf : ∀ a, a / 2 ^ A.dscr.wdt 0 = A.vaHigh → a < v ∨ v + n * M.pageSize ≤ a →
    ∀ l base flags, LeafAt A.dscr t' a l base flags ↔ LeafAt A.dscr t a l base flags
  hole : ∀ a, a / 2 ^ A.dscr.wdt 0 = A.vaHigh → a < v ∨ v + n * M.pageSize ≤ a →
    PageHole A t a → PageHole A t' a

/-- The `n` pages from `v` on are mapped to those from `p` on, and the others are as
before. -/
structure MapsTo (flags : F) (t t' : Table F) (v p n : Nat) : Prop
    extends SameOutside A t t' v n where
  pages : ∀ k, k < n → PageAt A t' (v + k * M.pageSize) ((p + k * M.pageSize) % M.wordCount) flags

end

variable {A : MapSpace M F} {canAlloc : Nat → Bool} {t t' t'' : Table F} {s s' : PtState F}
  {flags : F} {a i l lvl n m v p top : Nat}

theorem SameOutside.of_grown (h : Grown A t t') (v n : Nat) : SameOutside A t t' v n where
  leaf := fun a _ _ l base flags => h.leaf a l base flags
  hole := fun a _ _ hhole => h.hole a hhole

theorem SameOutside.trans (h : SameOutside A t t' v n)
    (h' : SameOutside A t' t'' (v + n * M.pageSize) m) : SameOutside A t t'' v (n + m) := by
  have hsum : v + (n + m) * M.pageSize = v + n * M.pageSize + m * M.pageSize := by
    rw [Nat.add_mul, Nat.add_assoc]
  refine ⟨?_, ?_⟩
  · intro a hhigh hout l base flags
    rw [hsum] at hout
    exact (h'.leaf a hhigh (by omega) l base flags).trans (h.leaf a hhigh (by omega) l base flags)
  · intro a hhigh hout hhole
    rw [hsum] at hout
    exact h'.hole a hhigh (by omega) (h.hole a hhigh (by omega) hhole)

theorem MapsTo.of_grown (flags : F) (h : Grown A t t') (v p : Nat) : MapsTo A flags t t' v p 0 where
  toSameOutside := .of_grown h v 0
  pages := fun _ hk => absurd hk (Nat.not_lt_zero _)

theorem MapsTo.trans (hr : RoomAbove A.toPtAddrSpace v top)
    (hlast : v + (n + m) * M.pageSize ≤ top) (h : MapsTo A flags t t' v p n)
    (h' : MapsTo A flags t' t'' (v + n * M.pageSize) ((p + n * M.pageSize) % M.wordCount) m) :
    MapsTo A flags t t'' v p (n + m) := by
  have hsum : v + (n + m) * M.pageSize = v + n * M.pageSize + m * M.pageSize := by
    rw [Nat.add_mul, Nat.add_assoc]
  rw [hsum] at hlast
  have hpage : 0 < M.pageSize := M.pageSize_pos
  refine ⟨h.toSameOutside.trans h'.toSameOutside, ?_⟩
  intro k hk
  rcases Nat.lt_or_ge k n with hlt | hge
  · have hbelow : v + k * M.pageSize < v + n * M.pageSize :=
      Nat.add_lt_add_left (Nat.mul_lt_mul_of_pos_right hlt hpage) v
    have hhigh := hr.high (Nat.le_add_right v (k * M.pageSize)) (by omega)
    obtain ⟨l, base, hleaf, hpa⟩ := h.pages k hlt
    exact ⟨l, base, (h'.leaf _ hhigh (.inl hbelow) l base flags).mpr hleaf, hpa⟩
  · have hnext := h'.pages (k - n) (by omega)
    have hk' : k * M.pageSize = n * M.pageSize + (k - n) * M.pageSize := by
      rw [← Nat.add_mul, Nat.add_sub_cancel' hge]
    rw [Nat.mod_add_mod, Nat.add_assoc, Nat.add_assoc, ← hk'] at hnext
    exact hnext

/-- **One entry filled** maps its pages. -/
theorem mapsTo_put (flags : F) (hl : lvl < A.dscr.lvls) (hreach : reaches A.dscr t v lvl = true)
    (hhigh : v / 2 ^ A.dscr.wdt 0 = A.vaHigh) (hal : v % A.dscr.size lvl = 0)
    (hpal : p % A.dscr.size lvl = 0) (hp : p < M.wordCount) :
    MapsTo A flags t (put t lvl (A.dscr.index lvl v) (.leaf p flags)) v p
      (A.dscr.size lvl / M.pageSize) := by
  have hpos : 0 < A.dscr.size lvl := Shape.size_pos
  have hsize := A.size_eq hl
  have hother : ∀ a, a / 2 ^ A.dscr.wdt 0 = A.vaHigh → a < v ∨ v + A.dscr.size lvl ≤ a →
      SameWalk A.dscr t (put t lvl (A.dscr.index lvl v) (.leaf p flags)) a := by
    intro a ha hout
    apply sameWalk_put
    intro hidx
    have hspan := (div_size_eq_iff hal).mp
      ((Shape.index_eq_iff hl (ha.trans hhigh.symm)).mp hidx)
    omega
  refine ⟨⟨?_, ?_⟩, ?_⟩
  · intro a ha hout l base flags
    rw [hsize] at hout
    exact (hother a ha hout).leaf
  · intro a ha hout hhole
    rw [hsize] at hout
    obtain ⟨l, mark, hterm, hat⟩ := hhole
    exact ⟨l, mark, hterm, (hother a ha hout).hole hat⟩
  · intro k hk
    have hidx := A.index_page hl hal hk
    have hlt : k * M.pageSize < A.dscr.size lvl := by
      rw [← hsize]
      exact Nat.mul_lt_mul_of_pos_right hk M.pageSize_pos
    have hoff : (v + k * M.pageSize) % A.dscr.size lvl = k * M.pageSize := by
      obtain ⟨q, rfl⟩ := Nat.dvd_of_mod_eq_zero hal
      rw [Nat.mul_add_mod, Nat.mod_eq_of_lt hlt]
    have hfits : p + k * M.pageSize < M.wordCount := by
      obtain ⟨q, rfl⟩ := Nat.dvd_of_mod_eq_zero hpal
      obtain ⟨c, hc⟩ := A.size_dvd hl
      rw [hc] at hp ⊢
      have hq : q + 1 ≤ c := Nat.lt_of_mul_lt_mul_left hp
      have hmul := Nat.mul_le_mul_left (A.dscr.size lvl) hq
      rw [Nat.mul_succ] at hmul
      omega
    refine ⟨lvl, p, leafAt_put hl (reaches_congr hl hidx.symm hreach) hidx, ?_⟩
    rw [hoff, Nat.mod_eq_of_lt hfits]

/-! ## The inner loop -/

theorem AtEntry.put {left addr j : Nat} {e : Entry F} (h : AtEntry A t lvl left i addr) :
    AtEntry A (RadixTable.put t lvl j e) lvl left i addr := by
  rcases h with hzero | ⟨hreach, hi, hleft⟩
  · exact .inl hzero
  · refine .inr ⟨?_, hi, hleft⟩
    rwa [reaches_put (Nat.le_refl lvl)]

theorem RoomAbove.above {B : PtAddrSpace M F} {w : Nat} (h : RoomAbove B v top) (hle : v ≤ w) :
    RoomAbove B w top where
  lo := Nat.le_trans h.lo hle
  hi := h.hi
  room := h.room

/-- What is left after some pages have been mapped. -/
structure MapsSome (A : MapSpace M F) (flags : F) (u u' : MapState F) (k : Nat) : Prop where
  maps : MapsTo A flags u.s.pte u'.s.pte u.vaddr u.paddr k
  le : k ≤ u.left
  left : u'.left = u.left - k
  vaddr : u'.vaddr = u.vaddr + k * M.pageSize
  paddr : u'.paddr = (u.paddr + k * M.pageSize) % M.wordCount

theorem MapsSome.none {u : MapState F} (hp : u.paddr < M.wordCount) : MapsSome A flags u u 0 where
  maps := .of_grown flags .refl _ _
  le := Nat.zero_le _
  left := rfl
  vaddr := by rw [Nat.zero_mul, Nat.add_zero]
  paddr := by rw [Nat.zero_mul, Nat.add_zero, Nat.mod_eq_of_lt hp]

theorem MapsSome.trans {u u' u'' : MapState F} {k k' : Nat}
    (hr : RoomAbove A.toPtAddrSpace u.vaddr top) (hlast : u.vaddr + u.left * M.pageSize ≤ top)
    (h : MapsSome A flags u u' k) (h' : MapsSome A flags u' u'' k') :
    MapsSome A flags u u'' (k + k') := by
  have hle : k + k' ≤ u.left := by
    have hk := h.le
    have hk' := h'.le
    have hleft := h.left
    omega
  have hmul := Nat.mul_le_mul_right M.pageSize hle
  have hmaps := h'.maps
  rw [h.vaddr, h.paddr] at hmaps
  refine ⟨h.maps.trans hr (by omega) hmaps, hle, ?_, ?_, ?_⟩
  · rw [h'.left, h.left, Nat.sub_sub]
  · rw [h'.vaddr, h.vaddr, Nat.add_mul, Nat.add_assoc]
  · rw [h'.paddr, h.paddr, Nat.mod_add_mod, Nat.add_mul, Nat.add_assoc]

theorem MapsSome.last {u u' : MapState F} {k : Nat} (h : MapsSome A flags u u' k) :
    u'.vaddr + u'.left * M.pageSize = u.vaddr + u.left * M.pageSize := by
  rw [h.vaddr, h.left, Nat.add_assoc, ← Nat.add_mul, Nat.add_sub_cancel' h.le]

/-- **The inner loop** maps whole entries, one at least where there is room for one. -/
theorem mapRun_maps {more : Nat} {u : MapState F} (flags : F) (hl : lvl < A.dscr.lvls)
    (hr : RoomAbove A.toPtAddrSpace u.vaddr top) (hlast : u.vaddr + u.left * M.pageSize ≤ top)
    (hat : AtEntry A u.s.pte lvl more i u.vaddr) (hal : u.vaddr % A.dscr.size lvl = 0)
    (hpal : u.paddr % A.dscr.size lvl = 0) (hp : u.paddr < M.wordCount) :
    ∃ k, MapsSome A flags u (mapRun A flags lvl more i u) k ∧
      (more ≠ 0 → A.dscr.size lvl / M.pageSize ≤ u.left → 0 < k) := by
  have hsize := A.size_eq hl
  have hpages : 0 < A.dscr.size lvl / M.pageSize := by
    apply Nat.div_pos _ M.pageSize_pos
    exact Nat.le_of_dvd Shape.size_pos (pageSize_dvd_size (A := A.toPtAddrSpace) hl)
  induction more generalizing i u with
  | zero => exact ⟨0, .none hp, fun hne => absurd rfl hne⟩
  | succ more ih =>
    rw [mapRun]
    split
    · rename_i hroom
      have hnext := hat.next hl
      rcases hat with hzero | ⟨hreach, rfl, -⟩
      · omega
      have hmul := Nat.mul_le_mul_right M.pageSize hroom.2
      rw [hsize] at hmul
      have hpos : 0 < A.dscr.size lvl := Shape.size_pos
      have hhigh := hr.high (Nat.le_refl _) (show u.vaddr < top by omega)
      have hone := mapsTo_put flags hl hreach hhigh hal hpal hp
      have hword := hr.room
      have hva : (u.vaddr + A.dscr.size lvl) % M.wordCount = u.vaddr + A.dscr.size lvl := by
        apply Nat.mod_eq_of_lt
        have hroot : 0 < A.dscr.size 0 := Shape.size_pos
        omega
      have hstep : MapsSome A flags u
          { s := { u.s with
              pte := put u.s.pte lvl (A.dscr.index lvl u.vaddr) (.leaf u.paddr flags) }
            vaddr := (u.vaddr + A.dscr.size lvl) % M.wordCount
            paddr := (u.paddr + A.dscr.size lvl) % M.wordCount
            left := u.left - A.dscr.size lvl / M.pageSize } (A.dscr.size lvl / M.pageSize) := by
        refine ⟨hone, hroom.2, rfl, ?_, ?_⟩
        · rw [hsize]
          exact hva
        · rw [hsize]
      have hrest : u.vaddr + A.dscr.size lvl +
          (u.left - A.dscr.size lvl / M.pageSize) * M.pageSize ≤ top := by
        rw [Nat.sub_mul, hsize]
        omega
      rw [hva] at hstep ⊢
      obtain ⟨k, hmaps, -⟩ := ih (u :=
          { s := { u.s with
              pte := put u.s.pte lvl (A.dscr.index lvl u.vaddr) (.leaf u.paddr flags) }
            vaddr := u.vaddr + A.dscr.size lvl
            paddr := (u.paddr + A.dscr.size lvl) % M.wordCount
            left := u.left - A.dscr.size lvl / M.pageSize })
        (hr.above (Nat.le_add_right _ _)) hrest hnext.put
        (by dsimp only; rw [Nat.add_mod_right]; exact hal)
        (by dsimp only; rw [Nat.mod_mod_of_dvd _ (A.size_dvd hl), Nat.add_mod_right]; exact hpal)
        (Nat.mod_lt _ (Nat.two_pow_pos _))
      exact ⟨_, hstep.trans hr hlast hmaps, fun _ _ => Nat.add_pos_left hpages k⟩
    · rename_i hroom
      refine ⟨0, .none hp, fun _ hle => ?_⟩
      omega

/-! ## The walk down -/

/-- The entry that the walk finds is reached, and both addresses start a span of its
size, for which there is room. -/
structure Found (A : MapSpace M F) (t t' : Table F) (left v p lvl : Nat) : Prop where
  grown : Grown A t t'
  inside : lvl < A.dscr.lvls
  reach : reaches A.dscr t' v lvl = true
  room : A.dscr.size lvl ≤ left * M.pageSize % M.wordCount
  vaddr : v % A.dscr.size lvl = 0
  paddr : p % A.dscr.size lvl = 0

theorem Found.of_grown {left : Nat} (hgrown : Grown A t t') (h : Found A t' t'' left v p lvl) :
    Found A t t'' left v p lvl :=
  ⟨hgrown.trans h.grown, h.inside, h.reach, h.room, h.vaddr, h.paddr⟩

theorem mapWalk_found {left more lvl' : Nat}
    (h : mapWalk A canAlloc left v p more lvl s = some (lvl', s')) :
    Found A s.pte s'.pte left v p lvl' := by
  induction more generalizing lvl s with
  | zero => cases h
  | succ more ih =>
    rw [mapWalk] at h
    split at h
    · cases h
    · rename_i i hget
      obtain ⟨hl, hreach, rfl⟩ := ptGetPte_eq_some.mp hget
      split at h
      · split at h
        · rename_i hmap
          cases h
          simp only [ptPteMappable, Bool.and_eq_true, decide_eq_true_eq] at hmap
          obtain ⟨⟨⟨-, hroom⟩, hva⟩, hpa⟩ := hmap
          exact ⟨.refl, hl, hreach, hroom, hva, hpa⟩
        · split at h
          · rename_i mark he
            split at h
            · rename_i hsucc
              cases halloc : memAllocPt A.toPtAddrSpace canAlloc s lvl (A.dscr.index lvl v) with
              | mk ok s1 =>
                rw [halloc] at h
                exact (ih h).of_grown (memAllocPt_grown hsucc he halloc).1
            · cases h
          · exact ih h
          · cases h
      · exact ih h

theorem mapWalk_runs {left L : Nat} {mark : Bool} (more lvl : Nat) (hpages : ∀ k, canAlloc k = true)
    (hleft : 0 < left) (hword : left * M.pageSize < M.wordCount) (hv : v % M.pageSize = 0)
    (hp : p % M.pageSize = 0) (hterm : A.lvlTerm L = true) (hhole : HoleAt A.dscr s.pte v L mark)
    (hle : lvl ≤ L) (hmore : lvl + more = A.dscr.lvls) :
    ∃ r, mapWalk A canAlloc left v p more lvl s = some r := by
  induction more generalizing lvl L s with
  | zero =>
    have hlt := hhole.lvl
    omega
  | succ more ih =>
    have hl : lvl < A.dscr.lvls := by omega
    have hreach := reaches_of_le hle hhole.reach
    rw [mapWalk, ptGetPte_eq_some.mpr ⟨hl, hreach, rfl⟩]
    dsimp only
    rcases Nat.eq_or_lt_of_le hle with rfl | hlt
    · rw [if_pos hterm, hhole.entry]
      split
      · exact ⟨_, rfl⟩
      · rename_i hmap
        have hsucc : lvl + 1 < A.dscr.lvls := by
          rcases Nat.lt_or_ge (lvl + 1) A.dscr.lvls with hsucc | hge
          · exact hsucc
          · -- an entry of the last level can always be mapped
            exfalso
            apply hmap
            have hlast : lvl = A.dscr.lvls - 1 := by omega
            have hone := Nat.le_mul_of_pos_left M.pageSize hleft
            simp only [ptPteMappable, hlast, pageSize_eq (A := A.toPtAddrSpace), hv, hp,
              Nat.mod_eq_of_lt hword, hone, pteValid, Bool.not_false, decide_true, Bool.and_self]
        dsimp only
        rw [if_pos hsucc]
        have halloc : (memAllocPt A.toPtAddrSpace canAlloc s lvl (A.dscr.index lvl v)).2.pte =
            grow A.dscr s.pte lvl (A.dscr.index lvl v) fun _ => .hole mark := by
          rw [memAllocPt, if_pos (hpages s.allocs), hhole.entry]
          rfl
        have hnext : HoleAt A.dscr
            (memAllocPt A.toPtAddrSpace canAlloc s lvl (A.dscr.index lvl v)).2.pte v (lvl + 1)
              mark := by
          rw [halloc]
          exact ⟨hsucc, reaches_grow_succ hhole.reach rfl, grow_entry hsucc rfl⟩
        exact ih (lvl + 1) (A.term_succ lvl hterm) hnext (Nat.le_refl _) (by omega)
    · have htable := table_above hhole.reach hlt
      have hunmappable : ptPteMappable A (.table : Entry F) lvl left v p = false := rfl
      rw [htable, hunmappable]
      split
      · exact ih (lvl + 1) hterm hhole hlt (by omega)
      · exact ih (lvl + 1) hterm hhole hlt (by omega)

theorem Found.maps {u : MapState F} (h : Found A u.s.pte s.pte u.left u.vaddr u.paddr lvl)
    (flags : F) (hr : RoomAbove A.toPtAddrSpace u.vaddr top)
    (hlast : u.vaddr + u.left * M.pageSize ≤ top) (hp : u.paddr < M.wordCount) :
    ∃ k, MapsSome A flags { u with s := s } (mapRun A flags lvl
        (A.dscr.fan lvl - A.dscr.index lvl u.vaddr % A.dscr.fan lvl) (A.dscr.index lvl u.vaddr)
          { u with s := s }) k ∧
      (A.dscr.size lvl / M.pageSize ≤ u.left → 0 < k) := by
  have hat : AtEntry A s.pte lvl (A.dscr.fan lvl - A.dscr.index lvl u.vaddr % A.dscr.fan lvl)
      (A.dscr.index lvl u.vaddr) u.vaddr := .inr ⟨h.reach, rfl, rfl⟩
  have hfan : A.dscr.index lvl u.vaddr % A.dscr.fan lvl < A.dscr.fan lvl :=
    Nat.mod_lt _ Shape.fan_pos
  obtain ⟨k, hsome, hpos⟩ := mapRun_maps (u := { u with s := s }) flags h.inside hr hlast hat
    h.vaddr h.paddr hp
  exact ⟨k, hsome, hpos (by omega)⟩

/-! ## All pages -/

/-- **The loop of `mem_map`**, if it returns, maps what it was given. -/
theorem mapLoop_maps {fuel : Nat} {u : MapState F} (hr : RoomAbove A.toPtAddrSpace u.vaddr top)
    (hlast : u.vaddr + u.left * M.pageSize ≤ top) (hp : u.paddr < M.wordCount)
    (h : mapLoop A canAlloc flags fuel u = some s') :
    MapsTo A flags u.s.pte s'.pte u.vaddr u.paddr u.left := by
  have hdone : ∀ {u : MapState F}, ¬ 0 < u.left → some u.s = some s' →
      MapsTo A flags u.s.pte s'.pte u.vaddr u.paddr u.left := by
    intro u hzero heq
    cases heq
    rw [Nat.eq_zero_of_not_pos hzero]
    exact .of_grown flags .refl _ _
  induction fuel generalizing u with
  | zero =>
    rw [mapLoop] at h
    split at h
    · cases h
    · next hzero => exact hdone hzero h
  | succ fuel ih =>
    rw [mapLoop] at h
    split at h
    · split at h
      · cases h
      · rename_i lvl s1 hwalk
        have hfound := mapWalk_found hwalk
        obtain ⟨k, hsome, -⟩ := hfound.maps flags hr hlast hp
        dsimp only at h
        generalize mapRun A flags lvl
          (A.dscr.fan lvl - A.dscr.index lvl u.vaddr % A.dscr.fan lvl)
            (A.dscr.index lvl u.vaddr) { u with s := s1 } = u' at hsome h
        have hva : u'.vaddr = u.vaddr + k * M.pageSize := hsome.vaddr
        have hleft : u'.left = u.left - k := hsome.left
        have hpa : u'.paddr = (u.paddr + k * M.pageSize) % M.wordCount := hsome.paddr
        have hk : k ≤ u.left := hsome.le
        have hsum : u'.vaddr + u'.left * M.pageSize = u.vaddr + u.left * M.pageSize := hsome.last
        have hrest := ih (u := u') (by rw [hva]; exact hr.above (Nat.le_add_right _ _))
          (by rw [hsum]; exact hlast)
          (by rw [hpa]; exact Nat.mod_lt _ (Nat.two_pow_pos _)) h
        rw [hva, hleft, hpa] at hrest
        have hgrown := MapsTo.of_grown flags hfound.grown u.vaddr u.paddr
        have hmaps := hsome.maps.trans hr (by rw [Nat.add_sub_cancel' hk]; exact hlast) hrest
        rw [Nat.add_sub_cancel' hk] at hmaps
        have hall := hgrown.trans (m := u.left) hr (by rw [Nat.zero_add]; exact hlast) (by
          rw [Nat.zero_mul, Nat.add_zero, Nat.add_zero, Nat.mod_eq_of_lt hp]
          exact hmaps)
        rwa [Nat.zero_add] at hall
    · next hzero => exact hdone hzero h

/-- **The loop of `mem_map` returns** where none of the pages is mapped and there is a
page for every table. -/
theorem mapLoop_runs {fuel : Nat} {u : MapState F} (flags : F) (hpages : ∀ k, canAlloc k = true)
    (hr : RoomAbove A.toPtAddrSpace u.vaddr top) (hlast : u.vaddr + u.left * M.pageSize ≤ top)
    (hva : u.vaddr % M.pageSize = 0) (hpa : u.paddr % M.pageSize = 0)
    (hp : u.paddr < M.wordCount)
    (hholes : ∀ k, k < u.left → PageHole A u.s.pte (u.vaddr + k * M.pageSize))
    (hfuel : u.left ≤ fuel) : ∃ s', mapLoop A canAlloc flags fuel u = some s' := by
  induction fuel generalizing u with
  | zero =>
    refine ⟨u.s, ?_⟩
    rw [mapLoop, if_neg (by omega)]
  | succ fuel ih =>
    rw [mapLoop]
    split
    · rename_i hleft
      obtain ⟨L, mark, hterm, hhole⟩ := hholes 0 hleft
      rw [Nat.zero_mul, Nat.add_zero] at hhole
      have hword : u.left * M.pageSize < M.wordCount := by
        have hroom := hr.room
        have hroot : 0 < A.dscr.size 0 := Shape.size_pos
        omega
      obtain ⟨⟨lvl, s1⟩, hwalk⟩ := mapWalk_runs A.dscr.lvls 0 hpages hleft hword
        hva hpa hterm hhole (Nat.zero_le L) (Nat.zero_add _)
      have hfound := mapWalk_found hwalk
      obtain ⟨k, hsome, hpos⟩ := hfound.maps flags hr hlast hp
      rw [hwalk]
      dsimp only
      generalize mapRun A flags lvl
        (A.dscr.fan lvl - A.dscr.index lvl u.vaddr % A.dscr.fan lvl)
          (A.dscr.index lvl u.vaddr) { u with s := s1 } = u' at hsome ⊢
      have hkpos : 0 < k := by
        apply hpos
        have hroom := hfound.room
        rw [Nat.mod_eq_of_lt hword, ← A.size_eq hfound.inside] at hroom
        exact Nat.le_of_mul_le_mul_right hroom M.pageSize_pos
      have hva' : u'.vaddr = u.vaddr + k * M.pageSize := hsome.vaddr
      have hleft' : u'.left = u.left - k := hsome.left
      have hpa' : u'.paddr = (u.paddr + k * M.pageSize) % M.wordCount := hsome.paddr
      have hk : k ≤ u.left := hsome.le
      have hsum : u'.vaddr + u'.left * M.pageSize = u.vaddr + u.left * M.pageSize := hsome.last
      apply ih
      · rw [hva']
        exact hr.above (Nat.le_add_right _ _)
      · rw [hsum]
        exact hlast
      · rw [hva', Nat.add_mul_mod_self_right]
        exact hva
      · rw [hpa', Nat.mod_mod_of_dvd _ ⟨M.pageCount, M.wordCount_eq.trans (Nat.mul_comm _ _)⟩,
          Nat.add_mul_mod_self_right]
        exact hpa
      · rw [hpa']
        exact Nat.mod_lt _ (Nat.two_pow_pos _)
      · intro j hj
        rw [hleft'] at hj
        have haddr : u'.vaddr + j * M.pageSize = u.vaddr + (k + j) * M.pageSize := by
          rw [hva', Nat.add_mul, Nat.add_assoc]
        have hbefore := hfound.grown.hole _ (hholes (k + j) (by omega))
        rw [haddr]
        have hmul := Nat.mul_lt_mul_of_pos_right (show k + j < u.left by omega) M.pageSize_pos
        apply hsome.maps.hole _ (hr.high (Nat.le_add_right _ _) (by omega)) _ hbefore
        right
        apply Nat.add_le_add_left
        exact Nat.mul_le_mul_right _ (Nat.le_add_right k j)
      · omega
    · exact ⟨u.s, rfl⟩

/-- **`mem_map`**, if it returns, maps pages of one section, and leaves the others alone. -/
theorem memMap_maps {fuel : Nat} {ok : Bool} (hr : RoomAbove A.toPtAddrSpace v top)
    (hlast : v + n * M.pageSize ≤ top) (hv : v % M.pageSize = 0) (hp : p < M.wordCount)
    (h : memMap A canAlloc s v p n flags fuel = some (ok, s')) :
    ok = inOneSec A.sections v ((v + n * M.pageSize + (M.wordCount - 1)) % M.wordCount) ∧
      (ok = true → MapsTo A flags s.pte s'.pte v p n) ∧ (ok = false → s' = s) := by
  unfold memMap at h
  dsimp only at h
  rw [Nat.div_mul_cancel (Nat.dvd_of_mod_eq_zero hv)] at h
  split at h
  · rename_i hsec
    obtain ⟨s1, hloop, heq⟩ := Option.map_eq_some_iff.mp h
    cases heq
    exact ⟨hsec.symm, fun _ => mapLoop_maps (u := ⟨s, v, p, n⟩) hr hlast hp hloop, nofun⟩
  · rename_i hsec
    cases h
    exact ⟨(eq_false_of_ne_true hsec).symm, nofun, fun _ => rfl⟩

theorem memMap_runs {fuel : Nat} (hpages : ∀ k, canAlloc k = true)
    (hr : RoomAbove A.toPtAddrSpace v top) (hlast : v + n * M.pageSize ≤ top)
    (hv : v % M.pageSize = 0) (hpa : p % M.pageSize = 0) (hp : p < M.wordCount)
    (hholes : ∀ k, k < n → PageHole A s.pte (v + k * M.pageSize)) (hfuel : n ≤ fuel) :
    ∃ r, memMap A canAlloc s v p n flags fuel = some r := by
  unfold memMap
  dsimp only
  rw [Nat.div_mul_cancel (Nat.dvd_of_mod_eq_zero hv)]
  split
  · obtain ⟨s', hloop⟩ := mapLoop_runs (u := ⟨s, v, p, n⟩) flags hpages hr hlast hv hpa hp hholes
      hfuel
    rw [hloop]
    exact ⟨_, rfl⟩
  · exact ⟨_, rfl⟩

end Bao

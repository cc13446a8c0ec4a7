import Mathlib.Data.Finset.Card
import BaoHypervisor.PageTable

/-!
# Expanding entries

`mem_expand_pte` gives an entry a table, and `mem_inflate_pt` does so for a whole
range and for all levels but the last.  The new table takes its flags from the type
of the address space, and each level of a range is walked with the stride of its
entries from an address that need not be aligned.
-/

namespace Bao

open RadixTable

variable {F : Type} {M : Machine}

/-! ## One entry -/

/-- Entry `k` of a table that does what the entry above it did. -/
def splitEntry (S : Shape) (lvl : Nat) (e : Entry F) (k : Nat) : Entry F :=
  match e with
  | .hole rsv => .hole rsv
  | .table => .table
  | .leaf base flags => .leaf (base + k * S.size (lvl + 1)) flags

/-- `mem_expand_pte` changes no translation: all addresses translate as before, each
entry of the new table is its part of the old entry, and no other entry is touched;
at the last level nothing is. -/
def ExpandKeeps (A : PtAddrSpace M F) (canAlloc : Nat → Bool) (s : PtState F) (va lvl : Nat) :
    Prop :=
  ∃ s1, memExpandPte A canAlloc s va lvl = some s1 ∧
    (∀ a, memTranslates A s1.pte a = memTranslates A s.pte a) ∧
    (lvl + 1 = A.dscr.lvls → s1 = s) ∧
    (lvl + 1 < A.dscr.lvls →
      s1.pte lvl (A.dscr.index lvl va) = .table ∧
      (∀ k, k < A.dscr.fan (lvl + 1) →
        s1.pte (lvl + 1) (A.dscr.index lvl va * A.dscr.fan (lvl + 1) + k) =
          splitEntry A.dscr lvl (s.pte lvl (A.dscr.index lvl va)) k) ∧
      ∀ l i, ¬ (l = lvl ∧ i = A.dscr.index lvl va) →
        ¬ (l = lvl + 1 ∧ i / A.dscr.fan (lvl + 1) = A.dscr.index lvl va) → s1.pte l i = s.pte l i)

variable {A : PtAddrSpace M F} {canAlloc : Nat → Bool} {s s1 : PtState F} {va lvl : Nat}

theorem grow_at {t : Table F} {i k : Nat} {g : Nat → Entry F} (hk : k < A.dscr.fan (lvl + 1)) :
    grow A.dscr t lvl i g (lvl + 1) (i * A.dscr.fan (lvl + 1) + k) = g k := by
  have hpos : 0 < A.dscr.fan (lvl + 1) := Shape.fan_pos
  have hdiv : (i * A.dscr.fan (lvl + 1) + k) / A.dscr.fan (lvl + 1) = i := by
    rw [Nat.mul_comm, Nat.mul_add_div hpos, Nat.div_eq_of_lt hk, Nat.add_zero]
  have hmod : (i * A.dscr.fan (lvl + 1) + k) % A.dscr.fan (lvl + 1) = k := by
    rw [Nat.mul_comm, Nat.mul_add_mod]
    exact Nat.mod_eq_of_lt hk
  have hne : ¬ (lvl + 1 = lvl ∧ i * A.dscr.fan (lvl + 1) + k = i) := by omega
  rw [grow, if_neg hne, if_pos ⟨rfl, hdiv⟩, hmod]

/-- **With a page for its table** a hole or a leaf becomes a table with the flags of
the address space. -/
theorem memExpandPte_split (hl : lvl + 1 < A.dscr.lvls)
    (hreach : reaches A.dscr s.pte va lvl = true) (hok : canAlloc s.allocs = true)
    (hentry : s.pte lvl (A.dscr.index lvl va) ≠ .table)
    (h : memExpandPte A canAlloc s va lvl = some s1) :
    s1.pte lvl (A.dscr.index lvl va) = .table ∧
    (∀ k, k < A.dscr.fan (lvl + 1) →
      s1.pte (lvl + 1) (A.dscr.index lvl va * A.dscr.fan (lvl + 1) + k) =
        match s.pte lvl (A.dscr.index lvl va) with
        | .leaf base _ => .leaf (base + k * A.dscr.size (lvl + 1)) A.flags
        | e => e) ∧
    ∀ l i, ¬ (l = lvl ∧ i = A.dscr.index lvl va) →
      ¬ (l = lvl + 1 ∧ i / A.dscr.fan (lvl + 1) = A.dscr.index lvl va) →
      s1.pte l i = s.pte l i := by
  have hlast : ¬ A.dscr.lvls - 1 ≤ lvl := by omega
  unfold memExpandPte memAllocPt at h
  rw [if_neg hlast, ptGetPte_eq_some.mpr ⟨by omega, hreach, rfl⟩] at h
  simp only [hok, if_true] at h
  cases he : s.pte lvl (A.dscr.index lvl va) with
  | table => exact (hentry he).elim
  | hole rsv =>
    simp only [he] at h
    cases h
    simp only
    exact ⟨grow_same, fun k hk => grow_at hk, fun l i hne hne' => grow_other hne hne'⟩
  | leaf base flags =>
    simp only [he] at h
    cases h
    simp only
    refine ⟨grow_same, fun k hk => grow_at hk, fun l i hne hne' => ?_⟩
    rw [grow_other hne hne', grow_other hne hne']

/-- **Expanding a superpage or a reserved entry keeps every translation** exactly when
the flags of the superpage are those of the address space; at the last level nothing
happens. -/
theorem memExpandPte_keeps_iff {i : Nat} (hget : ptGetPte A s.pte lvl va = some i)
    (hentry : s.pte lvl i ≠ .table) (hok : canAlloc s.allocs = true) :
    ExpandKeeps A canAlloc s va lvl ↔
      (lvl + 1 < A.dscr.lvls → ∀ base flags, s.pte lvl i = .leaf base flags → flags = A.flags) := by
  obtain ⟨hl, hreach, rfl⟩ := ptGetPte_eq_some.mp hget
  constructor
  · rintro ⟨s1, h, -, -, hsplit⟩ hsucc base flags he
    have hone := (memExpandPte_split hsucc hreach hok hentry h).2.1 0 Shape.fan_pos
    rw [(hsplit hsucc).2.1 0 Shape.fan_pos, he] at hone
    cases hone
    rfl
  · intro hflags
    obtain ⟨s1, h⟩ := memExpandPte_isSome hl hreach hok
    refine ⟨s1, h, fun a => ?_, fun hlast => ?_, fun hsucc => ?_⟩
    · rcases memExpandPte_translates hl hreach h a with hsame | ⟨-, -, b, f, he, hold, hnew⟩
      · exact hsame
      · rcases Nat.lt_or_ge (lvl + 1) A.dscr.lvls with hsucc | hge
        · rw [hold, hnew, hflags hsucc b f he]
        · -- the last level
          have hlast : A.dscr.lvls - 1 ≤ lvl := by omega
          rw [memExpandPte, if_pos hlast] at h
          cases h
          rfl
    · have hle : A.dscr.lvls - 1 ≤ lvl := by omega
      rw [memExpandPte, if_pos hle] at h
      exact (Option.some.inj h).symm
    · obtain ⟨htable, hnew, hother⟩ := memExpandPte_split hsucc hreach hok hentry h
      refine ⟨htable, fun k hk => ?_, hother⟩
      rw [hnew k hk]
      cases he : s.pte lvl (A.dscr.index lvl va) with
      | table => exact (hentry he).elim
      | hole rsv => rfl
      | leaf base flags =>
        rw [hflags hsucc base flags he]
        rfl

/-- Tables with a superpage of 2 MB at the given address. -/
def oneSuperpage (va pa : Nat) (flags : Bool) : PtState Bool where
  pte := put (put (fun _ _ => .hole false) 0 (sv39.index 0 va) .table)
    1 (sv39.index 1 va) (.leaf pa flags)
  allocs := 0
  freed := []

theorem memExpandPte_keeps_superpage :
    ExpandKeeps sv39Hyp (fun _ => true) (oneSuperpage 0xffffffe000200000 0x80000000 false)
      0xffffffe000203000 1 ↔
    (2 < 3 → ∀ base flags, Entry.leaf 0x80000000 false = .leaf base flags → flags = false) :=
  memExpandPte_keeps_iff (s := oneSuperpage 0xffffffe000200000 0x80000000 false)
    (i := 196609) (by decide) (by decide) rfl

/-- A superpage of the hypervisor in a copy of its address space gets the flags of a
guest's. -/
theorem memExpandPte_not_keeps :
    ptGetPte { sv39Hyp with asType := .hypCpy }
      (oneSuperpage 0xffffffe000200000 0x80000000 false).pte 1 0xffffffe000203000 = some 196609 ∧
    (oneSuperpage 0xffffffe000200000 0x80000000 false).pte 1 196609 =
      .leaf 0x80000000 sv39Hyp.hypFlags ∧
    ¬ ExpandKeeps { sv39Hyp with asType := .hypCpy } (fun _ => true)
      (oneSuperpage 0xffffffe000200000 0x80000000 false) 0xffffffe000203000 1 := by
  refine ⟨by decide, by decide, ?_⟩
  rintro ⟨s1, h, hkeep, -⟩
  have hold := hkeep 0xffffffe000200000
  have hnew : (memExpandPte { sv39Hyp with asType := .hypCpy } (fun _ => true)
      (oneSuperpage 0xffffffe000200000 0x80000000 false) 0xffffffe000203000 1).map (fun s =>
        memTranslates { sv39Hyp with asType := .hypCpy } s.pte 0xffffffe000200000) =
      some (some (0x80000000, true)) := by decide
  rw [h, Option.map_some, hold] at hnew
  exact absurd hnew (by decide)

/-! ## A range -/

section

variable (A : PtAddrSpace M F) (canAlloc : Nat → Bool)

/-- The loop of `mem_inflate_pt` over one level; `none` is a fault or a loop that is
not at its end after `fuel` turns. -/
def inflateLevel (top lvl : Nat) : Nat → PtState F → Nat → Option (PtState F)
  | 0, s, vaddr => if vaddr < top then none else some s
  | fuel + 1, s, vaddr =>
      if vaddr < top then
        match memExpandPte A canAlloc s vaddr lvl with
        | none => none
        | some s1 => inflateLevel top lvl fuel s1 ((vaddr + A.dscr.size lvl) % M.wordCount)
      else some s

/-- The `left` levels from `lvl` on. -/
def inflateLevels (fuel va top : Nat) : Nat → Nat → PtState F → Option (PtState F)
  | 0, _, s => some s
  | left + 1, lvl, s =>
      match inflateLevel A canAlloc top lvl fuel s va with
      | none => none
      | some s1 => inflateLevels fuel va top left (lvl + 1) s1

/-- `mem_inflate_pt`, for at most `fuel` turns of the loop of each level. -/
def memInflatePt (s : PtState F) (va length fuel : Nat) : Option (PtState F) :=
  inflateLevels A canAlloc fuel va ((va + length) % M.wordCount) (A.dscr.lvls - 1) 0 s

/-- An address of the range. -/
def InRange (M : Machine) (va length a : Nat) : Prop :=
  va ≤ a ∧ a < va + length ∧ a < M.wordCount

/-- `mem_inflate_pt` ends, and every page of the range has an entry of the last level,
reached through tables. -/
def InflatesAll (s : PtState F) (va length : Nat) : Prop :=
  ∃ fuel s1, memInflatePt A canAlloc s va length fuel = some s1 ∧
    ∀ a, InRange M va length a → reaches A.dscr s1.pte a (A.dscr.lvls - 1) = true

/-- The addresses that the loop of one level visits. -/
def levelVisits (va top lvl : Nat) : List Nat :=
  (List.range ((top - va + (A.dscr.size lvl - 1)) / A.dscr.size lvl)).map fun j =>
    va + j * A.dscr.size lvl

/-- The entries at the given addresses that are not tables yet. -/
def freshEntries (t : Table F) (lvl : Nat) (vs : List Nat) : Finset Nat :=
  ((vs.filter fun v => !reaches A.dscr t v (lvl + 1)).map (A.dscr.index lvl)).toFinset

/-- The tables that the `left` levels from `lvl` on need. -/
def tablesNeeded (t : Table F) (va top : Nat) : Nat → Nat → Nat
  | 0, _ => 0
  | left + 1, lvl =>
      (freshEntries A t lvl (levelVisits A va top lvl)).card + tablesNeeded t va top left (lvl + 1)

/-- The condition: no level's last step leaves the address space; at each level the
entry of each page is visited or already a table; and there is a page for each new
table. -/
structure InflateFine (s : PtState F) (va length : Nat) : Prop where
  ends : ∀ l, l + 1 < A.dscr.lvls → va < (va + length) % M.wordCount →
    (va + length) % M.wordCount + A.dscr.size l ≤ M.wordCount + va % A.dscr.size l
  visits : ∀ a, InRange M va length a → ∀ l, l + 1 < A.dscr.lvls →
    (∃ v ∈ levelVisits A va ((va + length) % M.wordCount) l,
      A.dscr.index l v = A.dscr.index l a) ∨ reaches A.dscr s.pte a (l + 1) = true
  pages : ∀ n, n < tablesNeeded A s.pte va ((va + length) % M.wordCount) (A.dscr.lvls - 1) 0 →
    canAlloc (s.allocs + n) = true

/-- The turns of one level, by the addresses they visit. -/
def expandAll (lvl : Nat) : List Nat → PtState F → Option (PtState F)
  | [], s => some s
  | v :: vs, s =>
      match memExpandPte A canAlloc s v lvl with
      | none => none
      | some s1 => expandAll lvl vs s1

end

/-! ### The loop of one level -/

variable {top fuel : Nat}

theorem levelVisits_cons (h : va < top) :
    levelVisits A va top lvl = va :: levelVisits A (va + A.dscr.size lvl) top lvl := by
  have hpos : 0 < A.dscr.size lvl := Shape.size_pos
  have hturns : (top - va + (A.dscr.size lvl - 1)) / A.dscr.size lvl =
      (top - (va + A.dscr.size lvl) + (A.dscr.size lvl - 1)) / A.dscr.size lvl + 1 := by
    rw [← Nat.add_div_right _ hpos]
    rcases Nat.lt_or_ge (va + A.dscr.size lvl) top with hlt | hge
    · congr 1
      omega
    · have hzero : top - (va + A.dscr.size lvl) = 0 := by omega
      have hone : ∀ x, A.dscr.size lvl ≤ x → x < 2 * A.dscr.size lvl → x / A.dscr.size lvl = 1 :=
        fun x hlo hhi => Nat.div_eq_of_lt_le (by omega) (by omega)
      rw [hzero, hone _ (by omega) (by omega), hone _ (by omega) (by omega)]
  unfold levelVisits
  rw [hturns, List.range_succ_eq_map, List.map_cons, Nat.zero_mul, Nat.add_zero, List.map_map]
  congr 2
  funext j
  simp only [Function.comp_apply, Nat.succ_mul]
  omega

theorem levelVisits_nil (h : ¬ va < top) : levelVisits A va top lvl = [] := by
  have hpos : 0 < A.dscr.size lvl := Shape.size_pos
  have hzero : (top - va + (A.dscr.size lvl - 1)) / A.dscr.size lvl = 0 :=
    Nat.div_eq_of_lt (by omega)
  rw [levelVisits, hzero]
  rfl

theorem mem_levelVisits {v : Nat} :
    v ∈ levelVisits A va top lvl ↔ ∃ j, v = va + j * A.dscr.size lvl ∧ v < top := by
  have hpos : 0 < A.dscr.size lvl := Shape.size_pos
  simp only [levelVisits, List.mem_map, List.mem_range]
  constructor
  · rintro ⟨j, hj, rfl⟩
    refine ⟨j, rfl, ?_⟩
    have hmul := (Nat.le_div_iff_mul_le hpos).mp (Nat.succ_le_of_lt hj)
    rw [Nat.succ_mul] at hmul
    omega
  · rintro ⟨j, rfl, hlt⟩
    refine ⟨j, ?_, rfl⟩
    apply Nat.lt_of_succ_le
    rw [Nat.le_div_iff_mul_le hpos, Nat.succ_mul]
    omega

/-- Whether the last step stays in the address space. -/
def StepsInside (A : PtAddrSpace M F) (va top lvl : Nat) : Prop :=
  va < top → top + A.dscr.size lvl ≤ M.wordCount + va % A.dscr.size lvl

theorem StepsInside.next (hin : StepsInside A va top lvl) (hlt : va < top) :
    va + A.dscr.size lvl < M.wordCount ∧ StepsInside A (va + A.dscr.size lvl) top lvl := by
  have hpos : 0 < A.dscr.size lvl := Shape.size_pos
  have hroom := hin hlt
  have hle := Nat.mod_le va (A.dscr.size lvl)
  have hdvd : A.dscr.size lvl ∣ M.wordCount := by
    apply Nat.pow_dvd_pow
    rcases Nat.lt_or_ge M.wordBits (A.dscr.off lvl) with hbig | hsmall
    · have hpow : M.wordCount < A.dscr.size lvl := Nat.pow_lt_pow_right (by decide) hbig
      omega
    · exact hsmall
  obtain ⟨c, hc⟩ := hdvd
  have hdiv := Nat.div_add_mod va (A.dscr.size lvl)
  have hmod := Nat.mod_lt va hpos
  rw [hc] at hroom
  have hquot : va / A.dscr.size lvl + 1 < c := by
    apply Nat.lt_of_mul_lt_mul_left (a := A.dscr.size lvl)
    rw [Nat.mul_succ]
    omega
  have hmul := Nat.mul_le_mul_left (A.dscr.size lvl) (Nat.succ_le_of_lt hquot)
  rw [Nat.mul_succ, Nat.mul_succ] at hmul
  refine ⟨by omega, fun _ => ?_⟩
  rw [Nat.add_mod_right]
  exact hin hlt

/-- **A level that ends** does so after the visits of its list. -/
theorem inflateLevel_of_expandAll (hin : StepsInside A va top lvl)
    (h : expandAll A canAlloc lvl (levelVisits A va top lvl) s = some s1) :
    ∃ least, ∀ fuel, least ≤ fuel → inflateLevel A canAlloc top lvl fuel s va = some s1 := by
  induction hvs : levelVisits A va top lvl generalizing va s with
  | nil =>
    have hge : ¬ va < top := by
      intro hlt
      rw [levelVisits_cons hlt] at hvs
      cases hvs
    rw [hvs] at h
    cases h
    refine ⟨0, fun fuel _ => ?_⟩
    cases fuel with
    | zero => exact if_neg hge
    | succ fuel => exact if_neg hge
  | cons v vs ih =>
    have hlt : va < top := by
      rcases Nat.lt_or_ge va top with hlt | hge
      · exact hlt
      · rw [levelVisits_nil (Nat.not_lt.mpr hge)] at hvs
        cases hvs
    rw [levelVisits_cons hlt] at hvs
    obtain ⟨hword, hnext⟩ := hin.next hlt
    rw [levelVisits_cons hlt, expandAll] at h
    cases hexp : memExpandPte A canAlloc s va lvl with
    | none =>
      rw [hexp] at h
      cases h
    | some s' =>
      rw [hexp] at h
      obtain ⟨least, hrun⟩ := ih hnext h (List.cons.inj hvs).2
      refine ⟨least + 1, fun fuel hle => ?_⟩
      obtain ⟨fuel, rfl⟩ := Nat.exists_eq_add_of_le' (Nat.le_trans (Nat.le_add_left 1 least) hle)
      rw [inflateLevel, if_pos hlt, hexp]
      simp only
      rw [Nat.mod_eq_of_lt hword]
      exact hrun fuel (by omega)

theorem inflateLevel_wraps (hva : va < M.wordCount) (hin : ¬ StepsInside A va top lvl) :
    inflateLevel A canAlloc top lvl fuel s va = none := by
  have hpos : 0 < A.dscr.size lvl := Shape.size_pos
  have hnot : va < top ∧ M.wordCount + va % A.dscr.size lvl < top + A.dscr.size lvl := by
    unfold StepsInside at hin
    omega
  obtain ⟨hlt, hroom⟩ := hnot
  induction fuel generalizing va s with
  | zero => exact if_pos hlt
  | succ fuel ih =>
    rw [inflateLevel, if_pos hlt]
    cases memExpandPte A canAlloc s va lvl with
    | none => rfl
    | some s1 =>
      have hnext : (va + A.dscr.size lvl) % M.wordCount % A.dscr.size lvl =
          va % A.dscr.size lvl ∧ (va + A.dscr.size lvl) % M.wordCount < top := by
        rcases Nat.lt_or_ge (A.dscr.off lvl) M.wordBits with hsmall | hbig
        · -- the entries divide the address space
          have hdvd : A.dscr.size lvl ∣ M.wordCount := Nat.pow_dvd_pow 2 (Nat.le_of_lt hsmall)
          have hmod : (va + A.dscr.size lvl) % M.wordCount % A.dscr.size lvl =
              va % A.dscr.size lvl := by
            rw [Nat.mod_mod_of_dvd _ hdvd, Nat.add_mod_right]
          refine ⟨hmod, ?_⟩
          obtain ⟨c, hc⟩ := hdvd
          generalize hw : (va + A.dscr.size lvl) % M.wordCount = w at hmod ⊢
          have hwlt : w < M.wordCount := by
            rw [← hw]
            exact Nat.mod_lt _ (Nat.two_pow_pos _)
          have hdiv := Nat.div_add_mod w (A.dscr.size lvl)
          have hquot : w / A.dscr.size lvl < c := by
            apply Nat.div_lt_of_lt_mul
            rwa [← hc]
          have hmul := Nat.mul_le_mul_left (A.dscr.size lvl) (Nat.succ_le_of_lt hquot)
          rw [Nat.mul_succ] at hmul
          omega
        · -- an entry spans the address space, and the step stays where it is
          have hdvd : M.wordCount ∣ A.dscr.size lvl := Nat.pow_dvd_pow 2 hbig
          have hstay : (va + A.dscr.size lvl) % M.wordCount = va := by
            rw [Nat.add_mod, Nat.mod_eq_zero_of_dvd hdvd, Nat.add_zero, Nat.mod_mod,
              Nat.mod_eq_of_lt hva]
          rw [hstay]
          exact ⟨rfl, hlt⟩
      apply ih (Nat.mod_lt _ (Nat.two_pow_pos _))
      · intro h
        have := h hnext.2
        rw [hnext.1] at this
        omega
      · exact hnext.2
      · rw [hnext.1]
        exact hroom

/-- A level that ends has made the visits of its list, and no step has left the
address space. -/
theorem expandAll_of_inflateLevel (hva : va < M.wordCount)
    (h : inflateLevel A canAlloc top lvl fuel s va = some s1) :
    StepsInside A va top lvl ∧
      expandAll A canAlloc lvl (levelVisits A va top lvl) s = some s1 := by
  have hin : StepsInside A va top lvl := by
    apply Classical.byContradiction
    intro hout
    rw [inflateLevel_wraps hva hout] at h
    cases h
  refine ⟨hin, ?_⟩
  induction fuel generalizing va s with
  | zero =>
    unfold inflateLevel at h
    split at h
    · cases h
    · next hge =>
      rw [levelVisits_nil hge]
      exact h
  | succ fuel ih =>
    unfold inflateLevel at h
    split at h
    · next hlt =>
      obtain ⟨hword, hnext⟩ := hin.next hlt
      rw [levelVisits_cons hlt, expandAll]
      cases hexp : memExpandPte A canAlloc s va lvl with
      | none =>
        rw [hexp] at h
        cases h
      | some s' =>
        rw [hexp] at h
        simp only at h ⊢
        rw [Nat.mod_eq_of_lt hword] at h
        exact ih hword h hnext
    · next hge =>
      rw [levelVisits_nil hge]
      exact h

/-! ### What the turns reach -/

/-- **One turn**: nothing happens to an entry that is a table already or is not
reached; else, where there is a page, its addresses reach the next level. -/
theorem memExpandPte_turn (hl : lvl + 1 < A.dscr.lvls)
    (h : memExpandPte A canAlloc s va lvl = some s1) :
    (s1 = s ∧ (reaches A.dscr s.pte va lvl = true → reaches A.dscr s.pte va (lvl + 1) = true)) ∨
    (reaches A.dscr s.pte va lvl = true ∧ reaches A.dscr s.pte va (lvl + 1) = false ∧
      s1.allocs = s.allocs + 1 ∧
      ((canAlloc s.allocs = false ∧ s1.pte = s.pte) ∨
        (canAlloc s.allocs = true ∧ ∀ a m, reaches A.dscr s1.pte a m = true ↔
          reaches A.dscr s.pte a m = true ∨ (m = lvl + 1 ∧ reaches A.dscr s.pte a lvl = true ∧
            A.dscr.index lvl a = A.dscr.index lvl va)))) := by
  have hlast : ¬ A.dscr.lvls - 1 ≤ lvl := by omega
  unfold memExpandPte at h
  rw [if_neg hlast] at h
  cases hreach : reaches A.dscr s.pte va lvl with
  | false =>
    have hget : ptGetPte A s.pte lvl va = none := by
      unfold ptGetPte
      rw [if_neg]
      rintro ⟨-, htrue⟩
      rw [hreach] at htrue
      cases htrue
    rw [hget] at h
    simp only at h
    split at h
    · cases h
      exact .inl ⟨rfl, fun h => by cases h⟩
    · cases h
  | true =>
    rw [ptGetPte_eq_some.mpr ⟨by omega, hreach, rfl⟩] at h
    simp only [memAllocPt] at h
    by_cases htable : s.pte lvl (A.dscr.index lvl va) = .table
    · rw [htable] at h
      cases h
      exact .inl ⟨rfl, fun _ => reaches_succ.mpr ⟨hreach, htable⟩⟩
    · refine .inr ⟨rfl, ?_, ?_⟩
      · rw [Bool.eq_false_iff]
        exact fun hnext => htable (reaches_succ.mp hnext).2
      · have hnew : ∀ rsv a m,
            reaches A.dscr (grow A.dscr s.pte lvl (A.dscr.index lvl va) fun _ => .hole rsv) a m =
              true ↔ reaches A.dscr s.pte a m = true ∨ (m = lvl + 1 ∧
                reaches A.dscr s.pte a lvl = true ∧
                A.dscr.index lvl a = A.dscr.index lvl va) := by
          intro rsv a m
          exact reaches_grow_iff hl htable fun k h => by cases h
        cases hentry : s.pte lvl (A.dscr.index lvl va) with
        | table => exact (htable hentry).elim
        | hole rsv =>
          simp only [hentry] at h
          cases hok : canAlloc s.allocs with
          | true =>
            rw [hok] at h
            cases h
            exact ⟨rfl, .inr ⟨rfl, hnew _⟩⟩
          | false =>
            rw [hok] at h
            cases rsv with
            | true => cases h
            | false =>
              cases h
              exact ⟨rfl, .inl ⟨rfl, rfl⟩⟩
        | leaf base flags =>
          simp only [hentry] at h
          cases hok : canAlloc s.allocs with
          | true =>
            rw [hok] at h
            cases h
            refine ⟨rfl, .inr ⟨rfl, fun a m => ?_⟩⟩
            simp only
            rw [grow_grow]
            exact reaches_grow_iff hl htable fun k h => by cases h
          | false =>
            rw [hok] at h
            cases h


/-- The turns of a level let only more be reached, at the next level, through the
entries visited. -/
theorem expandAll_reaches {vs : List Nat} {a m : Nat} (hl : lvl + 1 < A.dscr.lvls)
    (h : expandAll A canAlloc lvl vs s = some s1) :
    (reaches A.dscr s.pte a m = true → reaches A.dscr s1.pte a m = true) ∧
    (reaches A.dscr s1.pte a m = true → reaches A.dscr s.pte a m = true ∨
      (m = lvl + 1 ∧ ∃ v ∈ vs, A.dscr.index lvl v = A.dscr.index lvl a)) := by
  induction vs generalizing s with
  | nil =>
    cases h
    exact ⟨id, .inl⟩
  | cons v vs ih =>
    unfold expandAll at h
    cases hexp : memExpandPte A canAlloc s v lvl with
    | none =>
      rw [hexp] at h
      cases h
    | some s' =>
      rw [hexp] at h
      obtain ⟨hmono, hback⟩ := ih h
      have hlater : (∃ w ∈ vs, A.dscr.index lvl w = A.dscr.index lvl a) →
          ∃ w ∈ v :: vs, A.dscr.index lvl w = A.dscr.index lvl a :=
        fun ⟨w, hw, heq⟩ => ⟨w, List.mem_cons_of_mem v hw, heq⟩
      rcases memExpandPte_turn hl hexp with ⟨rfl, -⟩ | ⟨-, -, -, ⟨-, hpte⟩ | ⟨-, hiff⟩⟩
      · exact ⟨hmono, fun hend => (hback hend).imp id fun h' => ⟨h'.1, hlater h'.2⟩⟩
      · rw [hpte] at hmono hback
        exact ⟨hmono, fun hend => (hback hend).imp id fun h' => ⟨h'.1, hlater h'.2⟩⟩
      · refine ⟨fun hold => hmono ((hiff a m).mpr (.inl hold)), fun hend => ?_⟩
        rcases hback hend with hmid | ⟨hm, hw⟩
        · rcases (hiff a m).mp hmid with hold | ⟨hm, -, heq⟩
          · exact .inl hold
          · exact .inr ⟨hm, v, List.mem_cons_self, heq.symm⟩
        · exact .inr ⟨hm, hlater hw⟩

/-! ### The pages for the tables -/

theorem freshEntries_table {t : Table F} {v : Nat} {vs : List Nat}
    (h : reaches A.dscr t v (lvl + 1) = true) :
    freshEntries A t lvl (v :: vs) = freshEntries A t lvl vs := by
  unfold freshEntries
  rw [List.filter_cons_of_neg (by simp [h])]

theorem mem_freshEntries {t : Table F} {vs : List Nat} {i : Nat} :
    i ∈ freshEntries A t lvl vs ↔
      ∃ v ∈ vs, reaches A.dscr t v (lvl + 1) = false ∧ A.dscr.index lvl v = i := by
  simp only [freshEntries, List.mem_toFinset, List.mem_map, List.mem_filter, Bool.not_eq_true',
    and_assoc]

theorem freshEntries_new {t t' : Table F} {v : Nat} {vs : List Nat}
    (hreach : ∀ w ∈ v :: vs, reaches A.dscr t w lvl = true)
    (hfresh : reaches A.dscr t v (lvl + 1) = false)
    (hiff : ∀ a m, reaches A.dscr t' a m = true ↔ reaches A.dscr t a m = true ∨
      (m = lvl + 1 ∧ reaches A.dscr t a lvl = true ∧
        A.dscr.index lvl a = A.dscr.index lvl v)) :
    (freshEntries A t lvl (v :: vs)).card = (freshEntries A t' lvl vs).card + 1 := by
  have hnot : A.dscr.index lvl v ∉ freshEntries A t' lvl vs := by
    intro hin
    obtain ⟨w, hw, hno, heq⟩ := mem_freshEntries.mp hin
    have hyes := (hiff w (lvl + 1)).mpr
      (.inr ⟨rfl, hreach w (List.mem_cons_of_mem v hw), heq⟩)
    rw [hno] at hyes
    cases hyes
  have hinsert : freshEntries A t lvl (v :: vs) =
      insert (A.dscr.index lvl v) (freshEntries A t' lvl vs) := by
    ext i
    rw [Finset.mem_insert, mem_freshEntries, mem_freshEntries]
    constructor
    · rintro ⟨w, hw, hno, rfl⟩
      by_cases hsame : A.dscr.index lvl w = A.dscr.index lvl v
      · exact .inl hsame
      · refine .inr ⟨w, ?_, ?_, rfl⟩
        · rcases List.mem_cons.mp hw with rfl | hin
          · exact (hsame rfl).elim
          · exact hin
        · rw [Bool.eq_false_iff]
          intro hyes
          rcases (hiff w (lvl + 1)).mp hyes with hold | ⟨-, -, heq⟩
          · rw [hno] at hold
            cases hold
          · exact hsame heq
    · rintro (rfl | ⟨w, hw, hno, rfl⟩)
      · exact ⟨v, List.mem_cons_self, hfresh, rfl⟩
      · refine ⟨w, List.mem_cons_of_mem v hw, ?_, rfl⟩
        rw [Bool.eq_false_iff] at hno ⊢
        exact fun hold => hno ((hiff w (lvl + 1)).mpr (.inl hold))
  rw [hinsert, Finset.card_insert_of_notMem hnot]

/-- **With a page for each new table** the turns of a level make a table of each
entry visited. -/
theorem expandAll_runs {vs : List Nat} (hl : lvl + 1 < A.dscr.lvls)
    (hreach : ∀ v ∈ vs, reaches A.dscr s.pte v lvl = true)
    (hpages : ∀ n, n < (freshEntries A s.pte lvl vs).card → canAlloc (s.allocs + n) = true) :
    ∃ s1, expandAll A canAlloc lvl vs s = some s1 ∧
      s1.allocs = s.allocs + (freshEntries A s.pte lvl vs).card ∧
      ∀ v ∈ vs, reaches A.dscr s1.pte v (lvl + 1) = true := by
  induction vs generalizing s with
  | nil => exact ⟨s, rfl, rfl, nofun⟩
  | cons v vs ih =>
    have hv := hreach v List.mem_cons_self
    have hrest : ∀ w ∈ vs, reaches A.dscr s.pte w lvl = true :=
      fun w hw => hreach w (List.mem_cons_of_mem v hw)
    have hgo : ∀ s', memExpandPte A canAlloc s v lvl = some s' →
        reaches A.dscr s'.pte v (lvl + 1) = true →
        (∃ s1, expandAll A canAlloc lvl vs s' = some s1 ∧
          s1.allocs = s.allocs + (freshEntries A s.pte lvl (v :: vs)).card ∧
          ∀ w ∈ vs, reaches A.dscr s1.pte w (lvl + 1) = true) →
        ∃ s1, expandAll A canAlloc lvl (v :: vs) s = some s1 ∧
          s1.allocs = s.allocs + (freshEntries A s.pte lvl (v :: vs)).card ∧
          ∀ w ∈ v :: vs, reaches A.dscr s1.pte w (lvl + 1) = true := by
      rintro s' hexp hnow ⟨s1, hrun, hallocs, hall⟩
      refine ⟨s1, ?_, hallocs, fun w hw => ?_⟩
      · rw [expandAll, hexp]
        exact hrun
      · rcases List.mem_cons.mp hw with rfl | hin
        · exact (expandAll_reaches hl hrun).1 hnow
        · exact hall w hin
    cases hnext : reaches A.dscr s.pte v (lvl + 1) with
    | true =>
      have hexp : memExpandPte A canAlloc s v lvl = some s := by
        have htable := (reaches_succ.mp hnext).2
        have hlast : ¬ A.dscr.lvls - 1 ≤ lvl := by omega
        rw [memExpandPte, if_neg hlast, ptGetPte_eq_some.mpr ⟨by omega, hv, rfl⟩]
        simp only [htable]
      apply hgo s hexp hnext
      rw [freshEntries_table hnext] at hpages ⊢
      exact ih hrest hpages
    | false =>
      have hok : canAlloc s.allocs = true := by
        apply hpages 0
        apply Finset.card_pos.mpr
        exact ⟨_, mem_freshEntries.mpr ⟨v, List.mem_cons_self, hnext, rfl⟩⟩
      obtain ⟨s', hexp⟩ := memExpandPte_isSome (by omega) hv hok
      rcases memExpandPte_turn hl hexp with ⟨-, htable⟩ | ⟨-, -, hallocs, ⟨hno, -⟩ | ⟨-, hiff⟩⟩
      · rw [htable hv] at hnext
        cases hnext
      · rw [hok] at hno
        cases hno
      · have hcard := freshEntries_new hreach hnext hiff
        apply hgo s' hexp ((hiff v (lvl + 1)).mpr (.inr ⟨rfl, hv, rfl⟩))
        have hrest' : ∀ w ∈ vs, reaches A.dscr s'.pte w lvl = true :=
          fun w hw => (hiff w lvl).mpr (.inl (hrest w hw))
        obtain ⟨s1, hrun, hcount, hall⟩ := ih hrest' fun n hn => by
          have hpage := hpages (n + 1) (by omega)
          rw [hallocs]
          have hadd : s.allocs + 1 + n = s.allocs + (n + 1) := by omega
          rwa [hadd]
        exact ⟨s1, hrun, by omega, hall⟩

theorem expandAll_noPage {vs : List Nat} {a m : Nat} (hl : lvl + 1 < A.dscr.lvls)
    (hout : ∀ n, s.allocs ≤ n → canAlloc n = false)
    (h : expandAll A canAlloc lvl vs s = some s1) (hreach : reaches A.dscr s1.pte a m = true) :
    reaches A.dscr s.pte a m = true := by
  induction vs generalizing s with
  | nil =>
    cases h
    exact hreach
  | cons v vs ih =>
    unfold expandAll at h
    cases hexp : memExpandPte A canAlloc s v lvl with
    | none =>
      rw [hexp] at h
      cases h
    | some s' =>
      rw [hexp] at h
      rcases memExpandPte_turn hl hexp with
        ⟨rfl, -⟩ | ⟨-, -, hallocs, ⟨-, hpte⟩ | ⟨hok, -⟩⟩
      · exact ih hout h
      · rw [← hpte]
        exact ih (fun n hn => hout n (by omega)) h
      · rw [hout _ (Nat.le_refl _)] at hok
        cases hok

/-- **A level that makes a table of each entry visited** has had a page for each. -/
theorem expandAll_pages {vs : List Nat} (hl : lvl + 1 < A.dscr.lvls)
    (hpools : ∀ m n, m ≤ n → canAlloc n = true → canAlloc m = true)
    (hreach : ∀ v ∈ vs, reaches A.dscr s.pte v lvl = true)
    (h : expandAll A canAlloc lvl vs s = some s1)
    (hall : ∀ v ∈ vs, reaches A.dscr s1.pte v (lvl + 1) = true) :
    s1.allocs = s.allocs + (freshEntries A s.pte lvl vs).card ∧
      ∀ n, n < (freshEntries A s.pte lvl vs).card → canAlloc (s.allocs + n) = true := by
  induction vs generalizing s with
  | nil =>
    cases h
    exact ⟨rfl, fun n hn => absurd hn (Nat.not_lt_zero n)⟩
  | cons v vs ih =>
    have hv := hreach v List.mem_cons_self
    have hrest : ∀ w ∈ vs, reaches A.dscr s.pte w lvl = true :=
      fun w hw => hreach w (List.mem_cons_of_mem v hw)
    have hall' : ∀ w ∈ vs, reaches A.dscr s1.pte w (lvl + 1) = true :=
      fun w hw => hall w (List.mem_cons_of_mem v hw)
    unfold expandAll at h
    cases hexp : memExpandPte A canAlloc s v lvl with
    | none =>
      rw [hexp] at h
      cases h
    | some s' =>
      rw [hexp] at h
      rcases memExpandPte_turn hl hexp with
        ⟨rfl, htable⟩ | ⟨-, hnext, hallocs, ⟨hno, hpte⟩ | ⟨hok, hiff⟩⟩
      · rw [freshEntries_table (htable hv)]
        exact ih hrest h hall'
      · -- no page now, none later
        have hout : ∀ n, s'.allocs ≤ n → canAlloc n = false := by
          intro n hn
          rw [Bool.eq_false_iff]
          intro hyes
          rw [hpools _ n (by omega) hyes] at hno
          cases hno
        have hend := expandAll_noPage hl hout h (hall v List.mem_cons_self)
        rw [hpte, hnext] at hend
        cases hend
      · have hcard := freshEntries_new hreach hnext hiff
        have hrest' : ∀ w ∈ vs, reaches A.dscr s'.pte w lvl = true :=
          fun w hw => (hiff w lvl).mpr (.inl (hrest w hw))
        obtain ⟨hcount, hpages⟩ := ih hrest' h hall'
        refine ⟨by omega, fun n hn => ?_⟩
        cases n with
        | zero => exact hok
        | succ n =>
          have hpage := hpages n (by omega)
          rw [hallocs] at hpage
          have hadd : s.allocs + (n + 1) = s.allocs + 1 + n := by omega
          rwa [hadd]

/-! ### All levels -/

variable {length left : Nat}

/-- The condition for the `left` levels from `lvl` on. -/
structure LevelsFine (A : PtAddrSpace M F) (canAlloc : Nat → Bool) (s : PtState F)
    (va length left lvl : Nat) : Prop where
  ends : ∀ l, lvl ≤ l → l + 1 < A.dscr.lvls → StepsInside A va ((va + length) % M.wordCount) l
  visits : ∀ a, InRange M va length a → ∀ l, lvl ≤ l → l + 1 < A.dscr.lvls →
    (∃ v ∈ levelVisits A va ((va + length) % M.wordCount) l,
      A.dscr.index l v = A.dscr.index l a) ∨ reaches A.dscr s.pte a (l + 1) = true
  pages : ∀ n, n < tablesNeeded A s.pte va ((va + length) % M.wordCount) left lvl →
    canAlloc (s.allocs + n) = true

theorem inRange_of_visit {v : Nat} (h : v ∈ levelVisits A va ((va + length) % M.wordCount) lvl) :
    InRange M va length v := by
  obtain ⟨j, rfl, hlt⟩ := mem_levelVisits.mp h
  have hle := Nat.mod_le (va + length) M.wordCount
  have hword : (va + length) % M.wordCount < M.wordCount := Nat.mod_lt _ (Nat.two_pow_pos _)
  exact ⟨Nat.le_add_right _ _, by omega, by omega⟩

theorem freshEntries_congr {t t' : Table F} {vs : List Nat}
    (h : ∀ v, reaches A.dscr t' v (lvl + 1) = reaches A.dscr t v (lvl + 1)) :
    freshEntries A t' lvl vs = freshEntries A t lvl vs := by
  unfold freshEntries
  congr 3
  funext v
  rw [h v]

theorem tablesNeeded_congr {t t' : Table F}
    (h : ∀ v l, lvl < l → reaches A.dscr t' v l = reaches A.dscr t v l) :
    tablesNeeded A t' va top left lvl = tablesNeeded A t va top left lvl := by
  induction left generalizing lvl with
  | zero => rfl
  | succ left ih =>
    rw [tablesNeeded, tablesNeeded, freshEntries_congr fun v => h v _ (Nat.lt_succ_self lvl),
      ih fun v l hl => h v l (by omega)]

theorem expandAll_reaches_other {vs : List Nat} {a m : Nat} (hl : lvl + 1 < A.dscr.lvls)
    (h : expandAll A canAlloc lvl vs s = some s1) (hm : m ≠ lvl + 1) :
    reaches A.dscr s1.pte a m = reaches A.dscr s.pte a m := by
  obtain ⟨hmono, hback⟩ := expandAll_reaches (a := a) (m := m) hl h
  rw [Bool.eq_iff_iff]
  exact ⟨fun hend => (hback hend).elim id fun h' => absurd h'.1 hm, hmono⟩

theorem inflateLevels_reaches {a m : Nat} (hva : va < M.wordCount)
    (hlast : lvl + left + 1 = A.dscr.lvls) (hm : m ≤ lvl)
    (h : inflateLevels A canAlloc fuel va top left lvl s = some s1) :
    reaches A.dscr s1.pte a m = reaches A.dscr s.pte a m := by
  induction left generalizing lvl s with
  | zero =>
    cases h
    rfl
  | succ left ih =>
    unfold inflateLevels at h
    cases hlevel : inflateLevel A canAlloc top lvl fuel s va with
    | none =>
      rw [hlevel] at h
      cases h
    | some s' =>
      rw [hlevel] at h
      have hrun := (expandAll_of_inflateLevel hva hlevel).2
      rw [ih (by omega) (by omega) h]
      exact expandAll_reaches_other (by omega) hrun (by omega)

theorem reaches_of_visit {t : Table F} {a v : Nat} (hreach : reaches A.dscr t a lvl = true)
    (hv : reaches A.dscr t v (lvl + 1) = true) (heq : A.dscr.index lvl v = A.dscr.index lvl a) :
    reaches A.dscr t a (lvl + 1) = true := by
  refine reaches_succ.mpr ⟨hreach, ?_⟩
  rw [← heq]
  exact (reaches_succ.mp hv).2

theorem LevelsFine.runs (h : LevelsFine A canAlloc s va length left lvl)
    (hlast : lvl + left + 1 = A.dscr.lvls)
    (hin : ∀ a, InRange M va length a → reaches A.dscr s.pte a lvl = true) :
    ∃ least s1, (∀ fuel, least ≤ fuel → inflateLevels A canAlloc fuel va
      ((va + length) % M.wordCount) left lvl s = some s1) ∧
      ∀ a, InRange M va length a → reaches A.dscr s1.pte a (A.dscr.lvls - 1) = true := by
  induction left generalizing lvl s with
  | zero =>
    refine ⟨0, s, fun _ _ => rfl, ?_⟩
    have hlevel : A.dscr.lvls - 1 = lvl := by omega
    rwa [hlevel]
  | succ left ih =>
    have hl : lvl + 1 < A.dscr.lvls := by omega
    have hpages := h.pages
    rw [tablesNeeded] at hpages
    have hvisited : ∀ v ∈ levelVisits A va ((va + length) % M.wordCount) lvl,
        reaches A.dscr s.pte v lvl = true := fun v hv => hin v (inRange_of_visit hv)
    obtain ⟨s', hrun, hallocs, hall⟩ := expandAll_runs hl hvisited fun n hn =>
      hpages n (by omega)
    obtain ⟨least, hlevel⟩ := inflateLevel_of_expandAll (h.ends lvl (Nat.le_refl lvl) hl) hrun
    have hother : ∀ a m, m ≠ lvl + 1 → reaches A.dscr s'.pte a m = reaches A.dscr s.pte a m :=
      fun a m hm => expandAll_reaches_other hl hrun hm
    have hnext : LevelsFine A canAlloc s' va length left (lvl + 1) := by
      refine ⟨fun l hle => h.ends l (by omega), fun a ha l hle hl' => ?_, fun n hn => ?_⟩
      · rw [hother a (l + 1) (by omega)]
        exact h.visits a ha l (by omega) hl'
      · rw [tablesNeeded_congr fun v l hl' => hother v l (by omega)] at hn
        rw [hallocs, Nat.add_assoc]
        exact hpages _ (by omega)
    have hin' : ∀ a, InRange M va length a → reaches A.dscr s'.pte a (lvl + 1) = true := by
      intro a ha
      rcases h.visits a ha lvl (Nat.le_refl lvl) hl with ⟨v, hv, heq⟩ | hold
      · apply reaches_of_visit _ (hall v hv) heq
        rw [hother a lvl (by omega)]
        exact hin a ha
      · exact (expandAll_reaches hl hrun).1 hold
    obtain ⟨least', s1, hruns, hend⟩ := ih hnext (by omega) hin'
    refine ⟨max least least', s1, fun fuel hfuel => ?_, hend⟩
    rw [inflateLevels, hlevel fuel (by omega)]
    exact hruns fuel (by omega)

theorem LevelsFine.of_run (hva : va < M.wordCount)
    (hpools : ∀ m n, m ≤ n → canAlloc n = true → canAlloc m = true)
    (hlast : lvl + left + 1 = A.dscr.lvls)
    (h : inflateLevels A canAlloc fuel va ((va + length) % M.wordCount) left lvl s = some s1)
    (hend : ∀ a, InRange M va length a →
      reaches A.dscr s1.pte a (A.dscr.lvls - 1) = true) :
    LevelsFine A canAlloc s va length left lvl := by
  induction left generalizing lvl s with
  | zero =>
    refine ⟨fun l hle hl => ?_, fun a _ l hle hl => ?_, fun n hn => ?_⟩
    · omega
    · omega
    · exact absurd hn (Nat.not_lt_zero n)
  | succ left ih =>
    have hl : lvl + 1 < A.dscr.lvls := by omega
    unfold inflateLevels at h
    cases hlevel : inflateLevel A canAlloc ((va + length) % M.wordCount) lvl fuel s va with
    | none =>
      rw [hlevel] at h
      cases h
    | some s' =>
      rw [hlevel] at h
      obtain ⟨hsteps, hrun⟩ := expandAll_of_inflateLevel hva hlevel
      have hother : ∀ a m, m ≠ lvl + 1 → reaches A.dscr s'.pte a m = reaches A.dscr s.pte a m :=
        fun a m hm => expandAll_reaches_other hl hrun hm
      -- what the later levels leave alone
      have hnow : ∀ a, InRange M va length a → reaches A.dscr s'.pte a (lvl + 1) = true := by
        intro a ha
        rw [← inflateLevels_reaches hva (by omega) (Nat.le_refl _) h]
        exact reaches_of_le (by omega) (hend a ha)
      have hbefore : ∀ a, InRange M va length a → reaches A.dscr s.pte a lvl = true := by
        intro a ha
        rw [← hother a lvl (by omega)]
        exact reaches_of_le (Nat.le_succ lvl) (hnow a ha)
      obtain ⟨hallocs, hpages⟩ := expandAll_pages hl hpools
        (fun v hv => hbefore v (inRange_of_visit hv)) hrun
        fun v hv => hnow v (inRange_of_visit hv)
      have hnext := ih (by omega) h
      refine ⟨fun l hle hl' => ?_, fun a ha l hle hl' => ?_, fun n hn => ?_⟩
      · rcases Nat.eq_or_lt_of_le hle with rfl | hlt
        · exact hsteps
        · exact hnext.ends l hlt hl'
      · rcases Nat.eq_or_lt_of_le hle with rfl | hlt
        · rcases (expandAll_reaches hl hrun).2 (hnow a ha) with hold | ⟨-, hv⟩
          · exact .inr hold
          · exact .inl hv
        · rw [← hother a (l + 1) (by omega)]
          exact hnext.visits a ha l hlt hl'
      · rw [tablesNeeded, ← tablesNeeded_congr fun v l hl' => hother v l (by omega)] at hn
        rcases Nat.lt_or_ge n (freshEntries A s.pte lvl
          (levelVisits A va ((va + length) % M.wordCount) lvl)).card with hlt | hge
        · exact hpages n hlt
        · have hpage := hnext.pages (n - (freshEntries A s.pte lvl
            (levelVisits A va ((va + length) % M.wordCount) lvl)).card) (by omega)
          rw [hallocs] at hpage
          rwa [Nat.add_assoc, Nat.add_sub_cancel' hge] at hpage

/-- **Inflating a range gives each of its pages an entry of the last level** exactly
under the condition. -/
theorem memInflatePt_all_iff (hva : va < M.wordCount)
    (hpools : ∀ m n, m ≤ n → canAlloc n = true → canAlloc m = true) :
    InflatesAll A canAlloc s va length ↔ InflateFine A canAlloc s va length := by
  have hlast : 0 + (A.dscr.lvls - 1) + 1 = A.dscr.lvls := by
    have := A.dscr.lvls_pos
    omega
  constructor
  · rintro ⟨fuel, s1, h, hend⟩
    have hfine := LevelsFine.of_run hva hpools hlast h hend
    exact ⟨fun l hl => hfine.ends l (Nat.zero_le l) hl,
      fun a ha l hl => hfine.visits a ha l (Nat.zero_le l) hl, hfine.pages⟩
  · intro h
    have hfine : LevelsFine A canAlloc s va length (A.dscr.lvls - 1) 0 :=
      ⟨fun l _ hl => h.ends l hl, fun a ha l _ hl => h.visits a ha l hl, h.pages⟩
    obtain ⟨least, s1, hruns, hend⟩ := hfine.runs hlast fun _ _ => rfl
    exact ⟨least, s1, hruns least (Nat.le_refl _), hend⟩

/-- Two pages of one block of 2 MB, for which two tables are needed. -/
theorem memInflatePt_all_pages :
    InflatesAll sv39Hyp (fun n => decide (n < 2)) (onePageMapped 0xffffffc000000000 0x80000000)
      0xffffffe000000000 0x2000 := by
  have hpools : ∀ m n, m ≤ n → decide (n < 2) = true → decide (m < 2) = true := by
    intro m n hle h
    rw [decide_eq_true_eq] at h ⊢
    omega
  have hlvl : ∀ l, l + 1 < 3 → l = 0 ∨ l = 1 := by
    intro l hl
    omega
  apply (memInflatePt_all_iff (by decide) hpools).mpr
  refine ⟨fun l hl => ?_, fun a ha l hl => .inl ⟨0xffffffe000000000, ?_, ?_⟩, ?_⟩
  · rcases hlvl l hl with rfl | rfl
    · decide
    · decide
  · rcases hlvl l hl with rfl | rfl
    · decide
    · decide
  · obtain ⟨hlo, hhi, -⟩ := ha
    rcases hlvl l hl with rfl | rfl
    · change 0xffffffe000000000 / 2 ^ 30 % 2 ^ 9 = a / 2 ^ 30 % 2 ^ 9
      omega
    · change 0xffffffe000000000 / 2 ^ 21 % 2 ^ 18 = a / 2 ^ 21 % 2 ^ 18
      omega
  · decide

/-- A range of two pages across the border of two blocks of 2 MB: the second block is
not visited. -/
theorem memInflatePt_not_all :
    0xffffffe0001ff000 % Machine.mmu64.pageSize = 0 ∧
    ¬ InflatesAll sv39Hyp (fun _ => true) (onePageMapped 0xffffffc000000000 0x80000000)
      0xffffffe0001ff000 0x2000 := by
  refine ⟨by decide, ?_⟩
  rintro ⟨fuel, s1, h, hall⟩
  have hfine := LevelsFine.of_run (by decide) (fun _ _ _ _ => rfl) rfl h hall
  have hmissed := hfine.visits 0xffffffe000200000 ⟨by decide, by decide, by decide⟩ 1 (by decide)
    (by decide)
  exact absurd hmissed (by decide)

end Bao

import Mathlib.Data.Finset.Card
import Mathlib.Logic.Function.Basic

/-!
# Entries that users share

A table of `n` entries: whether an entry is taken, the range it covers, what each
user may do there, and how many users it has.  Users that want the same range may
share an entry.  `Serves` says that the table gives every user what it wants and
nothing else; it is kept when a user is let into an entry that is free or covers
the range wanted, when a user leaves, and when an entry with one user gets another
range.
-/

/-- Entries that are taken or free, with a range, the rights of each user, and a
count of the users. -/
@[ext]
structure RangeTable (K R P : Type) where
  alloc : Nat → Bool
  range : Nat → R
  use : K → Nat → P
  ref : Nat → Nat

namespace RangeTable

variable {K R P : Type} {t : RangeTable K R P} {n i j : Nat} {users : Finset K} {idle p : P}
  {want : K → R → P} {k k' : K} {r r' : R}

section Serves

variable [DecidableEq P]

/-- **The table serves its users**: an entry gives a user what it wants of the
entry's range, a range that is wanted is in one entry, and an entry is taken while
it has users. -/
structure Serves (t : RangeTable K R P) (n : Nat) (users : Finset K) (idle : P)
    (want : K → R → P) : Prop where
  granted : ∀ {k i}, i < n → t.use k i ≠ idle → t.use k i = want k (t.range i)
  held : ∀ {k r}, want k r ≠ idle → ∃ i, i < n ∧ t.range i = r ∧ t.use k i ≠ idle
  once : ∀ {k i j}, i < n → j < n → t.use k i ≠ idle → t.use k j ≠ idle →
    t.range i = t.range j → i = j
  member : ∀ {k i}, i < n → t.use k i ≠ idle → k ∈ users
  counted : ∀ {i}, i < n → t.ref i = (users.filter fun k => t.use k i ≠ idle).card
  taken : ∀ {i}, i < n → (t.alloc i = true ↔ t.ref i ≠ 0)

namespace Serves

theorem taken_of_use (h : t.Serves n users idle want) (hi : i < n) (huse : t.use k i ≠ idle) :
    t.alloc i = true := by
  apply (h.taken hi).mpr
  rw [h.counted hi]
  have hmem : k ∈ users.filter fun k => t.use k i ≠ idle :=
    Finset.mem_filter.mpr ⟨h.member hi huse, huse⟩
  exact Finset.card_ne_zero_of_mem hmem

theorem use_of_taken (h : t.Serves n users idle want) (hi : i < n) (htaken : t.alloc i = true) :
    ∃ k, t.use k i ≠ idle := by
  have hne := (h.taken hi).mp htaken
  rw [h.counted hi] at hne
  obtain ⟨k, hk⟩ := Finset.card_ne_zero.mp hne
  exact ⟨k, (Finset.mem_filter.mp hk).2⟩

theorem use_of_free (h : t.Serves n users idle want) (hi : i < n) (hfree : t.alloc i = false) :
    t.use k i = idle := by
  by_contra huse
  rw [h.taken_of_use hi huse] at hfree
  cases hfree

theorem empty (huse : ∀ k i, t.use k i = idle) (href : ∀ i, i < n → t.ref i = 0)
    (halloc : ∀ i, i < n → t.alloc i = false) (hwant : ∀ k r, want k r = idle) :
    t.Serves n users idle want where
  granted := fun _ hne => absurd (huse _ _) hne
  held := fun hne => absurd (hwant _ _) hne
  once := fun _ _ hne _ _ => absurd (huse _ _) hne
  member := fun _ hne => absurd (huse _ _) hne
  counted := by
    intro i hi
    rw [href i hi, eq_comm, Finset.card_eq_zero, Finset.filter_eq_empty_iff]
    exact fun k _ hne => hne (huse k i)
  taken := by
    intro i hi
    rw [href i hi, halloc i hi]
    simp

end Serves

end Serves

section Operations

variable [DecidableEq K]

/-- Let a user into an entry that covers a range. -/
def enable (t : RangeTable K R P) (i : Nat) (r : R) (k : K) (p : P) : RangeTable K R P where
  alloc := Function.update t.alloc i true
  range := Function.update t.range i r
  use := Function.update t.use k (Function.update (t.use k) i p)
  ref := Function.update t.ref i (t.ref i + 1)

/-- A user leaves an entry; the last one frees it, and its range becomes `r`. -/
def disable (t : RangeTable K R P) (i : Nat) (r : R) (k : K) (idle : P) : RangeTable K R P where
  alloc := if t.ref i = 1 then Function.update t.alloc i false else t.alloc
  range := if t.ref i = 1 then Function.update t.range i r else t.range
  use := Function.update t.use k (Function.update (t.use k) i idle)
  ref := Function.update t.ref i (t.ref i - 1)

/-- Give an entry another range. -/
def resize (t : RangeTable K R P) (i : Nat) (r : R) : RangeTable K R P :=
  { t with range := Function.update t.range i r }

/-- What users want after user `k` wants `p` of a range. -/
def ask [DecidableEq R] (want : K → R → P) (k : K) (r : R) (p : P) : K → R → P :=
  Function.update want k (Function.update (want k) r p)

theorem ask_self [DecidableEq R] : ask want k r p k r = p := by
  unfold ask
  rw [Function.update_self, Function.update_self]

theorem ask_of_ne [DecidableEq R] (h : ¬ (k' = k ∧ r' = r)) : ask want k r p k' r' = want k' r' := by
  unfold ask
  by_cases hk : k' = k
  · subst hk
    rw [Function.update_self, Function.update_of_ne fun hr => h ⟨rfl, hr⟩]
  · rw [Function.update_of_ne hk]

theorem ask_same [DecidableEq R] (h : want k r = p) : ask want k r p = want := by
  funext k' r'
  by_cases hboth : k' = k ∧ r' = r
  · rw [hboth.1, hboth.2, ask_self, h]
  · exact ask_of_ne hboth

theorem enable_use_of_ne (h : ¬ (k' = k ∧ j = i)) : (t.enable i r k p).use k' j = t.use k' j := by
  change Function.update t.use k (Function.update (t.use k) i p) k' j = t.use k' j
  by_cases hk : k' = k
  · subst hk
    rw [Function.update_self, Function.update_of_ne fun hj => h ⟨rfl, hj⟩]
  · rw [Function.update_of_ne hk]

@[simp] theorem enable_use_self : (t.enable i r k p).use k i = p := by
  change Function.update t.use k (Function.update (t.use k) i p) k i = p
  rw [Function.update_self, Function.update_self]

theorem disable_use_of_ne (h : ¬ (k' = k ∧ j = i)) :
    (t.disable i r k idle).use k' j = t.use k' j := enable_use_of_ne (t := t) (r := r) h

@[simp] theorem disable_use_self : (t.disable i r k idle).use k i = idle :=
  enable_use_self (t := t) (r := r)

end Operations

namespace Serves

variable [DecidableEq K] [DecidableEq R] [DecidableEq P]

/-- **A user is let in** to an entry that is free, or that covers the range. -/
theorem enable (h : t.Serves n users idle want) (hi : i < n) (hk : k ∈ users) (hp : p ≠ idle)
    (hwant : want k r = idle) (hentry : t.alloc i = true → t.range i = r) :
    (t.enable i r k p).Serves n users idle (ask want k r p) := by
  have hrange : ∀ {k'}, t.use k' i ≠ idle → t.range i = r :=
    fun huse => hentry (h.taken_of_use hi huse)
  have hrangeSelf : (t.enable i r k p).range i = r := Function.update_self ..
  have hrangeOf : ∀ {j}, j ≠ i → (t.enable i r k p).range j = t.range j :=
    fun hji => Function.update_of_ne hji ..
  -- the user has no rights to the range yet, in this entry or another
  have hnew : ∀ {j}, j < n → t.range j = r → t.use k j = idle := by
    intro j hj hr
    by_contra huse
    rw [h.granted hj huse, hr] at huse
    exact huse hwant
  have hnewi : t.use k i = idle := by
    by_contra huse
    exact huse (hnew hi (hrange huse))
  constructor
  case granted =>
    intro k' j hj huse
    by_cases hji : j = i
    · subst hji
      rw [hrangeSelf]
      by_cases hkk : k' = k
      · subst hkk
        rw [enable_use_self, ask_self]
      · rw [enable_use_of_ne fun hboth => hkk hboth.1] at huse ⊢
        rw [ask_of_ne fun hboth => hkk hboth.1, h.granted hj huse, hrange huse]
    · rw [enable_use_of_ne fun hboth => hji hboth.2] at huse ⊢
      rw [hrangeOf hji, ask_of_ne, h.granted hj huse]
      intro hboth
      rw [hboth.1] at huse
      exact huse (hnew hj hboth.2)
  case held =>
    intro k' r' hne
    by_cases hboth : k' = k ∧ r' = r
    · rw [hboth.1, hboth.2]
      refine ⟨i, hi, hrangeSelf, ?_⟩
      rw [enable_use_self]
      exact hp
    · rw [ask_of_ne hboth] at hne
      obtain ⟨j, hj, hr, huse⟩ := h.held hne
      refine ⟨j, hj, ?_, ?_⟩
      · by_cases hji : j = i
        · subst hji
          rw [hrangeSelf, ← hr, hrange huse]
        · rw [hrangeOf hji, hr]
      · rw [enable_use_of_ne]
        · exact huse
        · intro hsame
          rw [hsame.1, hsame.2] at huse
          exact huse hnewi
  case once =>
    have hother : ∀ {k' j}, j < n → j ≠ i → t.use k' j ≠ idle →
        (t.enable i r k p).use k' i ≠ idle → t.range j = r → False := by
      intro k' j hj hji huse husei hr
      by_cases hkk : k' = k
      · rw [hkk] at huse
        exact huse (hnew hj hr)
      · rw [enable_use_of_ne fun hboth => hkk hboth.1] at husei
        exact hji (h.once hj hi huse husei (hr.trans (hrange husei).symm))
    intro k' a b ha hb husea huseb heq
    by_cases hai : a = i
    · by_cases hbi : b = i
      · rw [hai, hbi]
      · rw [enable_use_of_ne fun hboth => hbi hboth.2] at huseb
        rw [hai, hrangeSelf, hrangeOf hbi] at heq
        rw [hai] at husea
        exact (hother hb hbi huseb husea heq.symm).elim
    · rw [enable_use_of_ne fun hboth => hai hboth.2] at husea
      by_cases hbi : b = i
      · rw [hbi, hrangeSelf, hrangeOf hai] at heq
        rw [hbi] at huseb
        exact (hother ha hai husea huseb heq).elim
      · rw [enable_use_of_ne fun hboth => hbi hboth.2] at huseb
        rw [hrangeOf hai, hrangeOf hbi] at heq
        exact h.once ha hb husea huseb heq
  case member =>
    intro k' j hj huse
    by_cases hkk : k' = k
    · rw [hkk]
      exact hk
    · rw [enable_use_of_ne fun hboth => hkk hboth.1] at huse
      exact h.member hj huse
  case counted =>
    intro j hj
    by_cases hji : j = i
    · subst hji
      have hfilter : (users.filter fun k' => (t.enable j r k p).use k' j ≠ idle) =
          insert k (users.filter fun k' => t.use k' j ≠ idle) := by
        ext k'
        rw [Finset.mem_insert, Finset.mem_filter, Finset.mem_filter]
        by_cases hkk : k' = k
        · simp [hkk, hk, hp]
        · rw [enable_use_of_ne fun hboth => hkk hboth.1]
          simp [hkk]
      have hnot : k ∉ users.filter fun k' => t.use k' j ≠ idle :=
        fun hmem => (Finset.mem_filter.mp hmem).2 hnewi
      rw [hfilter, Finset.card_insert_of_notMem hnot, ← h.counted hj]
      exact Function.update_self ..
    · have hfilter : (users.filter fun k' => (t.enable i r k p).use k' j ≠ idle) =
          users.filter fun k' => t.use k' j ≠ idle :=
        Finset.filter_congr fun k' _ => by rw [enable_use_of_ne fun hboth => hji hboth.2]
      rw [hfilter, ← h.counted hj]
      exact Function.update_of_ne hji ..
  case taken =>
    intro j hj
    change Function.update t.alloc i true j = true ↔ Function.update t.ref i (t.ref i + 1) j ≠ 0
    by_cases hji : j = i
    · rw [hji, Function.update_self, Function.update_self]
      simp
    · rw [Function.update_of_ne hji, Function.update_of_ne hji]
      exact h.taken hj

/-- **A user leaves.** -/
theorem disable (h : t.Serves n users idle want) (hi : i < n) (huse : t.use k i ≠ idle) :
    (t.disable i r k idle).Serves n users idle (ask want k (t.range i) idle) := by
  have hcount := h.counted hi
  -- the range changes only where nobody is left
  have hrangeOf : ∀ {k' j}, j < n → (t.disable i r k idle).use k' j ≠ idle →
      (t.disable i r k idle).range j = t.range j := by
    intro k' j hj hother
    unfold RangeTable.disable
    dsimp only
    by_cases hlast : t.ref i = 1
    · rw [if_pos hlast]
      refine Function.update_of_ne (fun hji => ?_) ..
      rw [hcount] at hlast
      obtain ⟨x, hx⟩ := Finset.card_eq_one.mp hlast
      have hkx : k ∈ users.filter fun k => t.use k i ≠ idle :=
        Finset.mem_filter.mpr ⟨h.member hi huse, huse⟩
      by_cases hkk : k' = k
      · rw [hkk, hji, disable_use_self] at hother
        exact hother rfl
      · rw [disable_use_of_ne fun hboth => hkk hboth.1, hji] at hother
        have hkx' : k' ∈ users.filter fun k => t.use k i ≠ idle :=
          Finset.mem_filter.mpr ⟨h.member hi hother, hother⟩
        rw [hx, Finset.mem_singleton] at hkx hkx'
        exact hkk (hkx'.trans hkx.symm)
    · rw [if_neg hlast]
  have huseOf : ∀ {k' j}, (t.disable i r k idle).use k' j ≠ idle →
      ¬ (k' = k ∧ j = i) ∧ t.use k' j ≠ idle := by
    intro k' j hother
    have hnot : ¬ (k' = k ∧ j = i) := by
      intro hboth
      rw [hboth.1, hboth.2, disable_use_self] at hother
      exact hother rfl
    rw [disable_use_of_ne hnot] at hother
    exact ⟨hnot, hother⟩
  constructor
  case granted =>
    intro k' j hj hother
    obtain ⟨hnot, huse'⟩ := huseOf hother
    rw [hrangeOf hj hother, disable_use_of_ne hnot, ask_of_ne, h.granted hj huse']
    intro hboth
    rw [hboth.1] at huse'
    exact hnot ⟨hboth.1, h.once hj hi huse' huse hboth.2⟩
  case held =>
    intro k' r' hne
    have hnot : ¬ (k' = k ∧ r' = t.range i) := by
      intro hboth
      rw [hboth.1, hboth.2, ask_self] at hne
      exact hne rfl
    rw [ask_of_ne hnot] at hne
    obtain ⟨j, hj, hr, huse'⟩ := h.held hne
    have hother : (t.disable i r k idle).use k' j ≠ idle := by
      rw [disable_use_of_ne]
      · exact huse'
      · intro hboth
        rw [hboth.2] at hr
        exact hnot ⟨hboth.1, hr.symm⟩
    exact ⟨j, hj, (hrangeOf hj hother).trans hr, hother⟩
  case once =>
    intro k' a b ha hb husea huseb heq
    rw [hrangeOf ha husea, hrangeOf hb huseb] at heq
    exact h.once ha hb (huseOf husea).2 (huseOf huseb).2 heq
  case member =>
    intro k' j hj hother
    exact h.member hj (huseOf hother).2
  case counted =>
    intro j hj
    by_cases hji : j = i
    · subst hji
      have hfilter : (users.filter fun k' => (t.disable j r k idle).use k' j ≠ idle) =
          (users.filter fun k' => t.use k' j ≠ idle).erase k := by
        ext k'
        rw [Finset.mem_erase, Finset.mem_filter, Finset.mem_filter]
        by_cases hkk : k' = k
        · simp [hkk]
        · rw [disable_use_of_ne fun hboth => hkk hboth.1]
          simp [hkk]
      have hmem : k ∈ users.filter fun k' => t.use k' j ≠ idle :=
        Finset.mem_filter.mpr ⟨h.member hj huse, huse⟩
      rw [hfilter, Finset.card_erase_of_mem hmem, ← h.counted hj]
      exact Function.update_self ..
    · have hfilter : (users.filter fun k' => (t.disable i r k idle).use k' j ≠ idle) =
          users.filter fun k' => t.use k' j ≠ idle :=
        Finset.filter_congr fun k' _ => by rw [disable_use_of_ne fun hboth => hji hboth.2]
      rw [hfilter, ← h.counted hj]
      exact Function.update_of_ne hji ..
  case taken =>
    intro j hj
    have hne := (h.taken hi).mp (h.taken_of_use hi huse)
    have hold := h.taken hj
    unfold RangeTable.disable
    dsimp only
    by_cases hji : j = i
    · subst hji
      rw [Function.update_self]
      by_cases hlast : t.ref j = 1
      · rw [if_pos hlast, Function.update_self, hlast]
        simp
      · rw [if_neg hlast, hold]
        omega
    · rw [Function.update_of_ne hji, ← hold]
      by_cases hlast : t.ref i = 1
      · rw [if_pos hlast, Function.update_of_ne hji]
      · rw [if_neg hlast]

/-- **The only user of an entry wants another range of it**, which it did not
want before. -/
theorem resize (h : t.Serves n users idle want) (hi : i < n) (huse : t.use k i ≠ idle)
    (honly : ∀ k', t.use k' i ≠ idle → k' = k) (hwant : r ≠ t.range i → want k r = idle) :
    (t.resize i r).Serves n users idle
      (ask (ask want k (t.range i) idle) k r (want k (t.range i))) := by
  have hrangeSelf : (t.resize i r).range i = r := Function.update_self ..
  have hrangeOf : ∀ {j}, j ≠ i → (t.resize i r).range j = t.range j :=
    fun hji => Function.update_of_ne hji ..
  -- no other entry gives the user anything of the two ranges
  have hnone : ∀ {j}, j < n → j ≠ i → t.use k j ≠ idle → t.range j ≠ t.range i ∧ t.range j ≠ r := by
    intro j hj hji hother
    have hold : t.range j ≠ t.range i := fun heq => hji (h.once hj hi hother huse heq)
    refine ⟨hold, fun heq => ?_⟩
    rw [h.granted hj hother, heq] at hother
    rw [heq] at hold
    exact hother (hwant hold)
  constructor
  case granted =>
    intro k' j hj hother
    by_cases hji : j = i
    · subst hji
      rw [hrangeSelf, honly k' hother, ask_self]
      exact h.granted hj huse
    · rw [hrangeOf hji]
      have hgrant := h.granted hj hother
      by_cases hkk : k' = k
      · subst hkk
        obtain ⟨hold, hnew⟩ := hnone hj hji hother
        rw [ask_of_ne fun hboth => hnew hboth.2, ask_of_ne fun hboth => hold hboth.2]
        exact hgrant
      · rw [ask_of_ne fun hboth => hkk hboth.1, ask_of_ne fun hboth => hkk hboth.1]
        exact hgrant
  case held =>
    intro k' r' hne
    by_cases hnew : k' = k ∧ r' = r
    · rw [hnew.1, hnew.2]
      exact ⟨i, hi, hrangeSelf, huse⟩
    · rw [ask_of_ne hnew] at hne
      have hold : ¬ (k' = k ∧ r' = t.range i) := by
        intro hboth
        rw [hboth.1, hboth.2, ask_self] at hne
        exact hne rfl
      rw [ask_of_ne hold] at hne
      obtain ⟨j, hj, hr, hother⟩ := h.held hne
      have hji : j ≠ i := by
        intro hji
        rw [hji] at hr hother
        exact hold ⟨honly k' hother, hr.symm⟩
      exact ⟨j, hj, (hrangeOf hji).trans hr, hother⟩
  case once =>
    intro k' a b ha hb husea huseb heq
    by_cases hai : a = i
    · by_cases hbi : b = i
      · rw [hai, hbi]
      · rw [hai] at husea
        rw [honly k' husea] at huseb
        rw [hai, hrangeSelf, hrangeOf hbi] at heq
        exact absurd heq.symm (hnone hb hbi huseb).2
    · by_cases hbi : b = i
      · rw [hbi] at huseb
        rw [honly k' huseb] at husea
        rw [hbi, hrangeSelf, hrangeOf hai] at heq
        exact absurd heq (hnone ha hai husea).2
      · rw [hrangeOf hai, hrangeOf hbi] at heq
        exact h.once ha hb husea huseb heq
  case member => exact fun hj hother => h.member hj hother
  case counted => exact fun hj => h.counted hj
  case taken => exact fun hj => h.taken hj

end Serves

end RangeTable

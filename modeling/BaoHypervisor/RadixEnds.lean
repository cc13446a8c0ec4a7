import BaoHypervisor.RadixTable

/-!
# Where a walk ends

The walk for an address ends at one leaf or at one hole.  A table put in the place
of a hole changes no walk that ends at a leaf, and moves those that ended at the hole
down by one level; an entry that is replaced concerns the walks through it.
-/

namespace RadixTable

variable {F : Type} (S : Shape) (t : Table F)

/-- The walk for the address ends at a leaf of level `l`. -/
structure LeafAt (a l base : Nat) (flags : F) : Prop where
  lvl : l < S.lvls
  reach : reaches S t a l = true
  entry : t l (S.index l a) = .leaf base flags

/-- The walk for the address ends at a hole of level `l`. -/
structure HoleAt (a l : Nat) (mark : Bool) : Prop where
  lvl : l < S.lvls
  reach : reaches S t a l = true
  entry : t l (S.index l a) = .hole mark

variable {S t} {t' : Table F} {a b i l l' base : Nat} {flags : F} {mark mark' : Bool}

theorem table_above (h : reaches S t a l' = true) (hlt : l < l') :
    t l (S.index l a) = .table := (reaches_succ.mp (reaches_of_le hlt h)).2

theorem le_of_reaches (h : reaches S t a l' = true) (hentry : t l (S.index l a) ≠ .table) :
    l' ≤ l := by
  rcases Nat.lt_or_ge l l' with hlt | hge
  · exact absurd (table_above h hlt) hentry
  · exact hge

theorem end_level {e e' : Entry F} (h : reaches S t a l = true) (he : t l (S.index l a) = e)
    (h' : reaches S t a l' = true) (he' : t l' (S.index l' a) = e') (hne : e ≠ .table)
    (hne' : e' ≠ .table) : l = l' := by
  apply Nat.le_antisymm
  · exact le_of_reaches h (by rw [he']; exact hne')
  · exact le_of_reaches h' (by rw [he]; exact hne)

theorem HoleAt.not_leaf (h : HoleAt S t a l mark) : ¬ LeafAt S t a l' base flags := by
  intro h'
  have hlvl := end_level h.reach h.entry h'.reach h'.entry nofun nofun
  subst hlvl
  have hentry := h.entry.symm.trans h'.entry
  cases hentry

theorem LeafAt.translate (h : LeafAt S t a l base flags) :
    translate S t a = some (base + a % S.size l, flags) := translate_leaf h.lvl h.reach h.entry

theorem HoleAt.translate (h : HoleAt S t a l mark) : RadixTable.translate S t a = none :=
  translate_hole h.lvl h.reach h.entry

theorem exists_leaf {pa : Nat} (h : translate S t a = some (pa, flags)) :
    ∃ l base, LeafAt S t a l base flags ∧ pa = base + a % S.size l := by
  have hwalk : ∀ left l, l + left = S.lvls → reaches S t a l = true →
      lookup S t a left l = some (pa, flags) →
      ∃ l base, LeafAt S t a l base flags ∧ pa = base + a % S.size l := by
    intro left
    induction left with
    | zero =>
      intro l _ _ hlook
      cases hlook
    | succ left ih =>
      intro l hsum hreach hlook
      rw [lookup] at hlook
      cases he : t l (S.index l a) with
      | hole mark =>
        rw [he] at hlook
        cases hlook
      | table =>
        rw [he] at hlook
        exact ih (l + 1) (by omega) (reaches_succ.mpr ⟨hreach, he⟩) hlook
      | leaf base flags' =>
        rw [he] at hlook
        cases hlook
        exact ⟨l, base, ⟨by omega, hreach, he⟩, rfl⟩
  exact hwalk S.lvls 0 (Nat.zero_add _) rfl h

theorem translate_congr
    (h : ∀ l base flags, LeafAt S t' a l base flags ↔ LeafAt S t a l base flags) :
    translate S t' a = translate S t a := by
  have hsome : ∀ {u u' : Table F} {r : Nat × F},
      (∀ l base flags, LeafAt S u a l base flags → LeafAt S u' a l base flags) →
      translate S u a = some r → translate S u' a = some r := by
    intro u u' r hleaf hr
    obtain ⟨pa, flags⟩ := r
    obtain ⟨l, base, hat, rfl⟩ := exists_leaf hr
    exact (hleaf l base flags hat).translate
  cases hr : translate S t a with
  | some r => exact hsome (fun l base flags => (h l base flags).mpr) hr
  | none =>
    cases hr' : translate S t' a with
    | none => rfl
    | some r =>
      rw [hsome (fun l base flags => (h l base flags).mp) hr'] at hr
      cases hr

/-! ## Walks that do not change -/

theorem LeafAt.congr (h : LeafAt S t a l base flags) (heq : S.index l a = S.index l b) :
    LeafAt S t b l base flags := by
  refine ⟨h.lvl, reaches_congr h.lvl heq h.reach, ?_⟩
  rw [← heq]
  exact h.entry

theorem HoleAt.congr (h : HoleAt S t a l mark) (heq : S.index l a = S.index l b) :
    HoleAt S t b l mark := by
  refine ⟨h.lvl, reaches_congr h.lvl heq h.reach, ?_⟩
  rw [← heq]
  exact h.entry

/-- The entries of the address are the same in both tables. -/
def SameWalk (S : Shape) (t t' : Table F) (a : Nat) : Prop :=
  ∀ m, t' m (S.index m a) = t m (S.index m a)

theorem SameWalk.leaf (h : SameWalk S t t' a) :
    LeafAt S t' a l base flags ↔ LeafAt S t a l base flags := by
  have hreach : reaches S t' a l = reaches S t a l := reaches_table_congr fun m _ => h m
  constructor
  · intro hleaf
    exact ⟨hleaf.lvl, hreach ▸ hleaf.reach, h l ▸ hleaf.entry⟩
  · intro hleaf
    exact ⟨hleaf.lvl, hreach ▸ hleaf.reach, (h l).trans hleaf.entry⟩

theorem SameWalk.hole (h : SameWalk S t t' a) (hhole : HoleAt S t a l mark) :
    HoleAt S t' a l mark := by
  have hreach : reaches S t' a l = reaches S t a l := reaches_table_congr fun m _ => h m
  exact ⟨hhole.lvl, hreach.trans hhole.reach, (h l).trans hhole.entry⟩

theorem sameWalk_put {e : Entry F} (h : S.index l a ≠ i) : SameWalk S t (put t l i e) a := by
  intro m
  apply put_other
  by_cases hm : m = l
  · rw [hm]
    exact .inr h
  · exact .inl hm

theorem sameWalk_grow {g : Nat → Entry F} (hl : l + 1 < S.lvls) (h : S.index l a ≠ i) :
    SameWalk S t (grow S t l i g) a := by
  intro m
  apply grow_other
  · intro hm
    obtain ⟨rfl, heq⟩ := hm
    exact h heq
  · intro hm
    obtain ⟨rfl, heq⟩ := hm
    rw [Shape.index_succ_div hl] at heq
    exact h heq

/-! ## An entry replaced -/

theorem leafAt_put (hl : l < S.lvls) (h : reaches S t a l = true) (hidx : S.index l a = i) :
    LeafAt S (put t l i (.leaf base flags)) a l base flags := by
  refine ⟨hl, ?_, ?_⟩
  · rwa [reaches_put (Nat.le_refl l)]
  · rw [hidx]
    exact put_same

theorem leafAt_put_mark (hentry : t l i = .hole mark) :
    LeafAt S (put t l i (.hole mark')) a l' base flags ↔ LeafAt S t a l' base flags := by
  by_cases hidx : S.index l a = i
  · have hput : put t l i (.hole mark') l i = .hole mark' := put_same
    have hsame : ∀ m, m ≠ l → put t l i (.hole mark') m (S.index m a) = t m (S.index m a) :=
      fun m hm => put_other (.inl hm)
    constructor
    · intro hleaf
      have hle := le_of_reaches hleaf.reach (by rw [hidx, hput]; nofun)
      have hne : l' ≠ l := by
        intro heq
        have hentry' := hleaf.entry
        rw [heq, hidx, hput] at hentry'
        cases hentry'
      have hreach := hleaf.reach
      rw [reaches_put hle] at hreach
      exact ⟨hleaf.lvl, hreach, (hsame l' hne).symm.trans hleaf.entry⟩
    · intro hleaf
      have hle := le_of_reaches hleaf.reach (by rw [hidx, hentry]; nofun)
      have hne : l' ≠ l := by
        intro heq
        have hentry' := hleaf.entry
        rw [heq, hidx, hentry] at hentry'
        cases hentry'
      refine ⟨hleaf.lvl, ?_, (hsame l' hne).trans hleaf.entry⟩
      rw [reaches_put hle]
      exact hleaf.reach
  · exact (sameWalk_put hidx).leaf

theorem HoleAt.put_mark (h : HoleAt S t a l' mark) (hentry : t l i = .hole mark') {m : Bool} :
    ∃ m', HoleAt S (put t l i (.hole m)) a l' m' ∧ (m' = m ∨ m' = mark) := by
  by_cases hidx : S.index l a = i
  · have hle := le_of_reaches h.reach (by rw [hidx, hentry]; nofun)
    have hreach : reaches S (put t l i (.hole m)) a l' = true := by
      rw [reaches_put hle]
      exact h.reach
    by_cases heq : l' = l
    · refine ⟨m, ⟨h.lvl, hreach, ?_⟩, .inl rfl⟩
      rw [heq, hidx]
      exact put_same
    · exact ⟨mark, ⟨h.lvl, hreach, (put_other (.inl heq)).trans h.entry⟩, .inr rfl⟩
  · exact ⟨mark, (sameWalk_put hidx).hole h, .inr rfl⟩

/-- A walk that ends at a hole after an entry has been replaced ends at that entry, or ended
there before. -/
theorem HoleAt.of_put {entry : Entry F} (h : HoleAt S (put t l i entry) a l' mark)
    (hne : entry ≠ .table) :
    (l' = l ∧ S.index l a = i ∧ entry = .hole mark) ∨ HoleAt S t a l' mark := by
  by_cases hidx : S.index l a = i
  · have hput : put t l i entry l (S.index l a) = entry := by
      rw [hidx]
      exact put_same
    have hle := le_of_reaches h.reach (by rw [hput]; exact hne)
    rcases Nat.eq_or_lt_of_le hle with rfl | hlt
    · exact .inl ⟨rfl, hidx, hput.symm.trans h.entry⟩
    · have hreach := h.reach
      rw [reaches_put hle] at hreach
      exact .inr ⟨h.lvl, hreach, (put_other (.inl (by omega))).symm.trans h.entry⟩
  · have hback : SameWalk S (put t l i entry) t a := fun m => (sameWalk_put hidx m).symm
    exact .inr (hback.hole h)

theorem HoleAt.of_put_mark (h : HoleAt S (put t l i (.hole true)) a l' false) :
    HoleAt S t a l' false := by
  rcases h.of_put nofun with ⟨-, -, hmark⟩ | hold
  · cases hmark
  · exact hold

/-! ## A table in the place of a hole -/

theorem leafAt_grow (hl : l + 1 < S.lvls) (hentry : t l i = .hole mark) :
    LeafAt S (grow S t l i fun _ => .hole mark') a l' base flags ↔
      LeafAt S t a l' base flags := by
  by_cases hidx : S.index l a = i
  · have hiff := @reaches_grow_iff F S t l l' a i (fun _ => .hole mark') hl (by rw [hentry]; nofun)
      (fun _ => nofun)
    constructor
    · intro hleaf
      rcases hiff.mp hleaf.reach with hreach | ⟨heq, -, -⟩
      · have hle := le_of_reaches hreach (by rw [hidx, hentry]; nofun)
        rcases Nat.lt_or_eq_of_le hle with hlt | rfl
        · have hsame : grow S t l i (fun _ => .hole mark') l' (S.index l' a) =
              t l' (S.index l' a) := grow_other (by omega) (by omega)
          exact ⟨hleaf.lvl, hreach, hsame.symm.trans hleaf.entry⟩
        · have htable := hleaf.entry
          rw [hidx, grow_same] at htable
          cases htable
      · subst heq
        have hhole := hleaf.entry
        rw [grow_entry hl hidx] at hhole
        cases hhole
    · intro hleaf
      have hle := le_of_reaches hleaf.reach (by rw [hidx, hentry]; nofun)
      have hlt : l' < l := by
        apply Nat.lt_of_le_of_ne hle
        intro heq
        have hhole := hleaf.entry
        rw [heq, hidx, hentry] at hhole
        cases hhole
      have hsame : grow S t l i (fun _ => .hole mark') l' (S.index l' a) =
          t l' (S.index l' a) := grow_other (by omega) (by omega)
      exact ⟨hleaf.lvl, hiff.mpr (.inl hleaf.reach), hsame.trans hleaf.entry⟩
  · exact (sameWalk_grow hl hidx).leaf

/-- The walks that ended at the hole end at a hole of its table, all others where they
did. -/
theorem HoleAt.grow (h : HoleAt S t a l' mark) (hl : l + 1 < S.lvls)
    (hentry : t l i = .hole mark') :
    (HoleAt S (RadixTable.grow S t l i fun _ => .hole mark') a l' mark) ∨
      (l' = l ∧ S.index l a = i ∧
        HoleAt S (RadixTable.grow S t l i fun _ => .hole mark') a (l + 1) mark') := by
  by_cases hidx : S.index l a = i
  · have hle := le_of_reaches h.reach (by rw [hidx, hentry]; nofun)
    rcases Nat.eq_or_lt_of_le hle with rfl | hlt
    · exact .inr ⟨rfl, hidx, hl, reaches_grow_succ h.reach hidx, grow_entry hl hidx⟩
    · have hsame : RadixTable.grow S t l i (fun _ => .hole mark') l' (S.index l' a) =
          t l' (S.index l' a) := grow_other (by omega) (by omega)
      have hreach : reaches S (RadixTable.grow S t l i fun _ => .hole mark') a l' = true := by
        rw [reaches_grow (Nat.le_of_lt hlt)]
        exact h.reach
      exact .inl ⟨h.lvl, hreach, hsame.trans h.entry⟩
  · exact .inl ((sameWalk_grow hl hidx).hole h)

theorem HoleAt.of_grow (h : HoleAt S (RadixTable.grow S t l i fun _ => .hole mark') a l' mark)
    (hl : l + 1 < S.lvls) (hentry : t l i = .hole mark') :
    ∃ l', HoleAt S t a l' mark := by
  by_cases hidx : S.index l a = i
  · have hiff := @reaches_grow_iff F S t l l' a i (fun _ => .hole mark') hl (by rw [hentry]; nofun)
      (fun _ => nofun)
    rcases hiff.mp h.reach with hreach | ⟨rfl, hreach, -⟩
    · have hle := le_of_reaches hreach (by rw [hidx, hentry]; nofun)
      rcases Nat.lt_or_eq_of_le hle with hlt | rfl
      · have hsame : RadixTable.grow S t l i (fun _ => .hole mark') l' (S.index l' a) =
            t l' (S.index l' a) := grow_other (by omega) (by omega)
        exact ⟨l', h.lvl, hreach, hsame.symm.trans h.entry⟩
      · have htable := h.entry
        rw [hidx, grow_same] at htable
        cases htable
    · have hhole := h.entry
      rw [grow_entry hl hidx] at hhole
      cases hhole
      exact ⟨l, by omega, hreach, by rw [hidx]; exact hentry⟩
  · have hback : SameWalk S (RadixTable.grow S t l i fun _ => .hole mark') t a :=
      fun m => (sameWalk_grow hl hidx m).symm
    exact ⟨l', hback.hole h⟩

end RadixTable

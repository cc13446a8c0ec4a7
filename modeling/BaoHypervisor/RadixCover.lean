import BaoHypervisor.RadixEnds

/-!
# Ranges of holes

A range is covered by holes when the walk of each of its addresses ends at a hole whose
span lies in the range.  One can go through such a range hole by hole: the first hole
starts where the range does, and the rest is covered again.  A table put in the place of
a hole refines the cover, and marks keep it.
-/

namespace RadixTable

variable {F : Type} (S : Shape)

/-- The span of the address's entry of level `l` lies in the range. -/
def SpanIn (v e a l : Nat) : Prop :=
  v ≤ a / S.size l * S.size l ∧ (a / S.size l + 1) * S.size l ≤ e

/-- Holes cover the range. -/
def HoleCover (t : Table F) (v e : Nat) : Prop :=
  ∀ a, v ≤ a → a < e → ∃ l mark, HoleAt S t a l mark ∧ SpanIn S v e a l

/-- The walks end where they did or, at a hole, further down at one like it. -/
structure Expands (t t' : Table F) : Prop where
  leaf : ∀ a l base flags, LeafAt S t' a l base flags ↔ LeafAt S t a l base flags
  hole : ∀ a l mark, HoleAt S t a l mark → ∃ l', l ≤ l' ∧ HoleAt S t' a l' mark
  back : ∀ a l mark, HoleAt S t' a l mark → ∃ l', HoleAt S t a l' mark

/-- No walk goes on below the last level. -/
def Ends (t : Table F) : Prop := ∀ a, reaches S t a S.lvls = false

variable {S} {t t' t'' : Table F} {a b e i l l' v x : Nat} {mark mark' : Bool}

/-! ## One walk -/

theorem HoleAt.unique (h : HoleAt S t a l mark) (h' : HoleAt S t a l' mark') :
    l = l' ∧ mark = mark' := by
  have hlvl := end_level h.reach h.entry h'.reach h'.entry nofun nofun
  subst hlvl
  have hentry := h.entry.symm.trans h'.entry
  cases hentry
  exact ⟨rfl, rfl⟩

theorem HoleAt.span (h : HoleAt S t a l mark) (hspan : b / S.size l = a / S.size l) :
    HoleAt S t b l mark := by
  apply h.congr
  rw [Shape.index, Shape.index, hspan]

theorem not_free_of_entry {entry : Entry F} (hreach : reaches S t a l = true)
    (hentry : t l (S.index l a) = entry) (htable : entry ≠ .table) (hhole : entry ≠ .hole false) :
    ¬ HoleAt S t a l' false := by
  intro hfree
  have hlvl := end_level hreach hentry hfree.reach hfree.entry htable nofun
  subst hlvl
  exact hhole (hentry.symm.trans hfree.entry)

theorem HoleAt.put_true (h : HoleAt S t a l' true) (hentry : t l i = .hole mark) :
    HoleAt S (put t l i (.hole true)) a l' true := by
  obtain ⟨m, hat, hmark⟩ := h.put_mark hentry (m := true)
  rcases hmark with rfl | rfl
  · exact hat
  · exact hat

theorem HoleAt.marked (h : HoleAt S t a l mark) :
    HoleAt S (put t l (S.index l a) (.hole true)) a l true where
  lvl := h.lvl
  reach := by
    rw [reaches_put (Nat.le_refl l)]
    exact h.reach
  entry := put_same

/-- A table of leaves in the place of a leaf is the end of no walk at a hole. -/
theorem HoleAt.of_grow_leaves {base : Nat} {flags : F} {g : Nat → Entry F}
    (h : HoleAt S (RadixTable.grow S t l i g) a l' mark) (hl : l + 1 < S.lvls)
    (hentry : t l i = .leaf base flags) (hg : ∀ k, ∃ base flags, g k = .leaf base flags) :
    HoleAt S t a l' mark := by
  by_cases hidx : S.index l a = i
  · have hnot : ∀ k, g k ≠ .table := by
      intro k htable
      obtain ⟨base, flags, hleaf⟩ := hg k
      rw [hleaf] at htable
      cases htable
    rcases (reaches_grow_iff hl (by rw [hentry]; nofun) hnot).mp h.reach with
      hreach | ⟨rfl, -, -⟩
    · have hle := le_of_reaches hreach (by rw [hidx, hentry]; nofun)
      rcases Nat.lt_or_eq_of_le hle with hlt | rfl
      · have hsame : RadixTable.grow S t l i g l' (S.index l' a) = t l' (S.index l' a) :=
          grow_other (by omega) (by omega)
        exact ⟨h.lvl, hreach, hsame.symm.trans h.entry⟩
      · have htable := h.entry
        rw [hidx, grow_same] at htable
        cases htable
    · obtain ⟨base, flags, hleaf⟩ := hg (S.index (l + 1) a % S.fan (l + 1))
      have hnew := h.entry
      rw [grow_entry hl hidx, hleaf] at hnew
      cases hnew
  · have hback : SameWalk S (RadixTable.grow S t l i g) t a :=
      fun m => (sameWalk_grow hl hidx m).symm
    exact hback.hole h

/-- **Below an entry** an address goes where the one at the same offset of any of its spans
goes. -/
theorem Shape.index_below (hle : l ≤ l') (hl : l' < S.lvls) (hidx : S.index l a = S.index l b)
    (hal : b % S.size l = 0) : S.index l' a = S.index l' (b + a % S.size l) := by
  have hpow : ∀ m, m < S.lvls → 2 ^ S.wdt 0 = S.size m * 2 ^ (S.wdt 0 - S.off m) := by
    intro m hm
    have hoff := Shape.off_lt_width (S := S) hm
    rw [Shape.size, ← Nat.pow_add]
    congr 1
    omega
  have hin : ∀ y, S.index l' y = y % 2 ^ S.wdt 0 / S.size l' := by
    intro y
    rw [Shape.index, hpow l' hl, Nat.mod_mul_right_div_self]
  have hmod : ∀ y, y % 2 ^ S.wdt 0 = y % S.size l + S.size l * S.index l y := by
    intro y
    rw [hpow l (by omega), Nat.mod_mul, Shape.index]
  obtain ⟨q, hq⟩ := Nat.dvd_of_mod_eq_zero hal
  have hpos : 0 < S.size l := Shape.size_pos
  have hlt := Nat.mod_lt a hpos
  have hoff : (b + a % S.size l) % S.size l = a % S.size l := by
    rw [hq, Nat.mul_add_mod, Nat.mod_eq_of_lt hlt]
  have hspan : S.index l (b + a % S.size l) = S.index l b := by
    rw [Shape.index, Shape.index, hq, Nat.mul_add_div hpos, Nat.div_eq_of_lt hlt,
      Nat.mul_div_cancel_left _ hpos, Nat.add_zero]
  rw [hin, hin, hmod a, hmod (b + a % S.size l), hoff, hspan, hidx]

/-! ## Walks that end -/

theorem Ends.table (h : Ends S t) (hl : l < S.lvls) (hreach : reaches S t a l = true)
    (hentry : t l (S.index l a) = .table) : l + 1 < S.lvls := by
  have hnext := reaches_succ.mpr ⟨hreach, hentry⟩
  rcases Nat.lt_or_ge (l + 1) S.lvls with hlt | hge
  · exact hlt
  · have heq : l + 1 = S.lvls := by omega
    rw [heq, h a] at hnext
    cases hnext

theorem Ends.put {entry : Entry F} (h : Ends S t) (hl : l < S.lvls) (hne : entry ≠ .table) :
    Ends S (put t l i entry) := by
  intro a
  apply eq_false_of_ne_true
  intro hreach
  by_cases hidx : S.index l a = i
  · have htable := table_above hreach hl
    rw [hidx, put_same] at htable
    exact hne htable
  · have hsame : reaches S (RadixTable.put t l i entry) a S.lvls = reaches S t a S.lvls :=
      reaches_table_congr fun m _ => sameWalk_put hidx m
    rw [hsame, h a] at hreach
    cases hreach

theorem Ends.grow {g : Nat → Entry F} (h : Ends S t) (hl : l + 1 < S.lvls)
    (hentry : t l i ≠ .table) (hg : ∀ k, g k ≠ .table) : Ends S (grow S t l i g) := by
  intro a
  apply eq_false_of_ne_true
  intro hreach
  rcases (reaches_grow_iff hl hentry hg).mp hreach with hold | ⟨hlvl, -, -⟩
  · rw [h a] at hold
    cases hold
  · omega

/-! ## Tables that expand -/

theorem Expands.refl : Expands S t t where
  leaf := fun _ _ _ _ => Iff.rfl
  hole := fun _ l _ h => ⟨l, Nat.le_refl l, h⟩
  back := fun _ l _ h => ⟨l, h⟩

theorem Expands.trans (h : Expands S t t') (h' : Expands S t' t'') : Expands S t t'' where
  leaf := fun a l base flags => (h'.leaf a l base flags).trans (h.leaf a l base flags)
  hole := by
    intro a l mark hhole
    obtain ⟨l', hle, hhole'⟩ := h.hole a l mark hhole
    obtain ⟨l'', hle', hhole''⟩ := h'.hole a l' mark hhole'
    exact ⟨l'', Nat.le_trans hle hle', hhole''⟩
  back := by
    intro a l mark hhole
    obtain ⟨l', hhole'⟩ := h'.back a l mark hhole
    exact h.back a l' mark hhole'

theorem expands_grow (hl : l + 1 < S.lvls) (hentry : t l i = .hole mark) :
    Expands S t (grow S t l i fun _ => .hole mark) where
  leaf := fun _ _ _ _ => leafAt_grow hl hentry
  hole := by
    intro a l' mark' hhole
    rcases hhole.grow hl hentry with hsame | ⟨rfl, hidx, hnext⟩
    · exact ⟨l', Nat.le_refl l', hsame⟩
    · have hmark := hhole.entry
      rw [hidx, hentry] at hmark
      cases hmark
      exact ⟨l' + 1, Nat.le_succ l', hnext⟩
  back := fun _ _ _ hhole => hhole.of_grow hl hentry

/-! ## Covers -/

theorem SpanIn.lower (h : SpanIn S v e a l) (hle : l ≤ l') (hl : l' < S.lvls) :
    SpanIn S v e a l' := by
  obtain ⟨q, hq⟩ := Shape.size_dvd hle hl
  obtain ⟨hlo, hhi⟩ := h
  rw [hq, ← Nat.div_div_eq_div_mul] at hlo hhi
  have hqpos : 0 < q := by
    apply Nat.pos_of_ne_zero
    intro hzero
    have hpos : 0 < S.size l := Shape.size_pos
    rw [hq, hzero] at hpos
    omega
  have hbelow : a / S.size l' / q * q ≤ a / S.size l' := Nat.div_mul_le_self _ q
  have habove : a / S.size l' + 1 ≤ (a / S.size l' / q + 1) * q := by
    rw [Nat.mul_comm]
    exact Nat.lt_mul_div_succ _ hqpos
  constructor
  · calc v ≤ a / S.size l' / q * (S.size l' * q) := hlo
      _ = a / S.size l' / q * q * S.size l' := by
        rw [Nat.mul_assoc, Nat.mul_comm q]
      _ ≤ a / S.size l' * S.size l' := Nat.mul_le_mul_right _ hbelow
  · calc (a / S.size l' + 1) * S.size l' ≤ (a / S.size l' / q + 1) * q * S.size l' :=
          Nat.mul_le_mul_right _ habove
      _ = (a / S.size l' / q + 1) * (S.size l' * q) := by
        rw [Nat.mul_assoc, Nat.mul_comm q]
      _ ≤ e := hhi

theorem div_mul_of_span (hal : x % S.size l = 0) (hle : x ≤ a) (hlt : a < x + S.size l) :
    a / S.size l = x / S.size l ∧ x / S.size l * S.size l = x := by
  have hstart : x / S.size l * S.size l = x := Nat.div_mul_cancel (Nat.dvd_of_mod_eq_zero hal)
  refine ⟨?_, hstart⟩
  apply (Nat.div_eq_iff Shape.size_pos).mpr
  omega

theorem not_free_of_span {entry : Entry F} (hl : l < S.lvls) (hreach : reaches S t x l = true)
    (hentry : t l (S.index l x) = entry) (htable : entry ≠ .table) (hhole : entry ≠ .hole false)
    (hal : x % S.size l = 0) :
    ∀ a, x ≤ a → a < x + S.size l → ∀ l', ¬ HoleAt S t a l' false := by
  intro a hle hlt l'
  have hidx : S.index l a = S.index l x := by
    rw [Shape.index, Shape.index, (div_mul_of_span hal hle hlt).1]
  apply not_free_of_entry (reaches_congr hl hidx.symm hreach) _ htable hhole
  rw [hidx]
  exact hentry

theorem HoleCover.nil : HoleCover S t v v := by
  intro a hle hlt
  omega

theorem HoleCover.snoc (h : HoleCover S t v x) (hle : v ≤ x) (hat : HoleAt S t x l mark)
    (hal : x % S.size l = 0) : HoleCover S t v (x + S.size l) := by
  intro a hlo hhi
  rcases Nat.lt_or_ge a x with hlt | hge
  · obtain ⟨l', mark', hat', hin⟩ := h a hlo hlt
    exact ⟨l', mark', hat', hin.1, Nat.le_trans hin.2 (Nat.le_add_right x _)⟩
  · obtain ⟨hspan, hstart⟩ := div_mul_of_span hal hge hhi
    refine ⟨l, mark, hat.span hspan, ?_, ?_⟩
    · rw [hspan, hstart]
      exact hle
    · exact Nat.le_of_eq (by rw [hspan, Nat.succ_mul, hstart])

theorem HoleCover.expands (h : HoleCover S t v e) (hexp : Expands S t t') :
    HoleCover S t' v e := by
  intro a hlo hhi
  obtain ⟨l, mark, hat, hin⟩ := h a hlo hhi
  obtain ⟨l', hle, hat'⟩ := hexp.hole a l mark hat
  exact ⟨l', mark, hat', hin.lower hle hat'.lvl⟩

theorem HoleCover.put_mark (h : HoleCover S t v e) (hentry : t l i = .hole mark) (m : Bool) :
    HoleCover S (put t l i (.hole m)) v e := by
  intro a hlo hhi
  obtain ⟨l', mark', hat, hin⟩ := h a hlo hhi
  obtain ⟨m', hat', -⟩ := hat.put_mark hentry (m := m)
  exact ⟨l', m', hat', hin⟩

/-- **The first hole** starts where the range does, and the rest is covered. -/
theorem HoleCover.head (h : HoleCover S t v e) (hlt : v < e) :
    ∃ l mark, HoleAt S t v l mark ∧ v % S.size l = 0 ∧ v + S.size l ≤ e ∧
      HoleCover S t (v + S.size l) e := by
  obtain ⟨l, mark, hat, hlo, hhi⟩ := h v (Nat.le_refl v) hlt
  have hpos : 0 < S.size l := Shape.size_pos
  have hstart : v / S.size l * S.size l = v := Nat.le_antisymm (Nat.div_mul_le_self v _) hlo
  have hal : v % S.size l = 0 := by
    have hdiv := Nat.div_add_mod v (S.size l)
    rw [Nat.mul_comm, hstart] at hdiv
    omega
  rw [Nat.succ_mul, hstart] at hhi
  refine ⟨l, mark, hat, hal, hhi, ?_⟩
  intro a hge hend
  obtain ⟨l', mark', hat', hin⟩ := h a (by omega) hend
  refine ⟨l', mark', hat', ?_, hin.2⟩
  -- a span that starts in the first one is the first one
  apply Nat.le_of_not_lt
  intro hinside
  have hfirst := div_mul_of_span hal hin.1 hinside
  have hpos' : 0 < S.size l' := Shape.size_pos
  have hsame : a / S.size l' * S.size l' / S.size l' = a / S.size l' :=
    Nat.mul_div_cancel _ hpos'
  have hlvl := ((hat'.span hsame).unique (hat.span hfirst.1)).1
  subst hlvl
  have hdiv : a / S.size l' = v / S.size l' := hsame.symm.trans hfirst.1
  have hmod := Nat.mod_lt a hpos'
  have hval := Nat.div_add_mod a (S.size l')
  rw [hdiv, Nat.mul_comm, hstart] at hval
  omega

end RadixTable

import Mathlib.Logic.Function.Basic
import Mathlib.Algebra.Group.Nat.Defs

/-!
# Multi-level translation tables

A table of several levels is kept flat: the entry of level `l` that an address
goes through has the address's bits from `off l` up to the width of the input as
its index, which is where a recursive mapping puts it in memory.  An entry that is
not reached through tables does not exist; its content does not matter.  Whatever
is changed at or below one entry changes the translation of the addresses that go
through it and of no others.
-/

namespace RadixTable

/-- The levels, for each the first and one past the last address bit that select
an entry of it; the root's are the input's. -/
structure Shape where
  lvls : Nat
  off : Nat → Nat
  wdt : Nat → Nat
  lvls_pos : 0 < lvls
  wdt_succ : ∀ l, l + 1 < lvls → wdt (l + 1) = off l
  off_lt_wdt : ∀ l, l < lvls → off l < wdt l

/-- A hole, which can be marked, a table of the next level, or the end of the walk. -/
inductive Entry (F : Type) where
  | hole (mark : Bool)
  | table
  | leaf (base : Nat) (flags : F)
  deriving DecidableEq

/-- The entries by level and index. -/
abbrev Table (F : Type) := Nat → Nat → Entry F

namespace Shape

variable (S : Shape)

/-- The addresses an entry spans. -/
def size (l : Nat) : Nat := 2 ^ S.off l

/-- The entries of one table. -/
def fan (l : Nat) : Nat := 2 ^ (S.wdt l - S.off l)

/-- The entry the address goes through. -/
def index (l a : Nat) : Nat := a / S.size l % 2 ^ (S.wdt 0 - S.off l)

variable {S} {l l' a b i : Nat}

theorem off_succ_lt (h : l + 1 < S.lvls) : S.off (l + 1) < S.off l := by
  rw [← S.wdt_succ l h]
  exact S.off_lt_wdt (l + 1) h

theorem off_le (hle : l ≤ l') (h : l' < S.lvls) : S.off l' ≤ S.off l := by
  induction l' with
  | zero =>
    have hzero : l = 0 := by omega
    exact Nat.le_of_eq (congrArg S.off hzero.symm)
  | succ l' ih =>
    rcases Nat.lt_or_ge l (l' + 1) with hlt | hge
    · have := off_succ_lt h
      have := ih (by omega) (by omega)
      omega
    · have heq : l = l' + 1 := by omega
      exact Nat.le_of_eq (congrArg S.off heq.symm)

theorem off_lt_width (h : l < S.lvls) : S.off l < S.wdt 0 := by
  have := off_le (Nat.zero_le l) h
  have := S.off_lt_wdt 0 S.lvls_pos
  omega

theorem wdt_le_width (h : l < S.lvls) : S.wdt l ≤ S.wdt 0 := by
  cases l with
  | zero => exact Nat.le_refl _
  | succ l =>
    rw [S.wdt_succ l h]
    exact Nat.le_of_lt (off_lt_width (by omega))

theorem size_pos : 0 < S.size l := Nat.two_pow_pos _

theorem fan_pos : 0 < S.fan l := Nat.two_pow_pos _

theorem size_succ (h : l + 1 < S.lvls) : S.size l = S.size (l + 1) * S.fan (l + 1) := by
  have := off_succ_lt h
  rw [size, size, fan, S.wdt_succ l h, ← Nat.pow_add]
  congr 1
  omega

theorem size_dvd (hle : l ≤ l') (h : l' < S.lvls) : S.size l' ∣ S.size l :=
  Nat.pow_dvd_pow 2 (off_le hle h)

theorem index_succ_div (h : l + 1 < S.lvls) :
    S.index (l + 1) a / S.fan (l + 1) = S.index l a := by
  have hlt := off_succ_lt h
  have hwidth := off_lt_width (S := S) (l := l) (by omega)
  have hsplit : S.wdt 0 - S.off (l + 1) = (S.off l - S.off (l + 1)) + (S.wdt 0 - S.off l) := by
    omega
  rw [index, fan, S.wdt_succ l h, hsplit, Nat.pow_add, Nat.mod_mul_right_div_self, index,
    Nat.div_div_eq_div_mul]
  congr 2
  rw [size_succ h, fan, S.wdt_succ l h]

theorem index_eq_of_le (hle : l ≤ l') (h : l' < S.lvls) (heq : S.index l' a = S.index l' b) :
    S.index l a = S.index l b := by
  induction l' with
  | zero =>
    have hzero : l = 0 := by omega
    rwa [hzero]
  | succ l' ih =>
    rcases Nat.lt_or_ge l (l' + 1) with hlt | hge
    · apply ih (by omega) (by omega)
      rw [← index_succ_div h, heq, index_succ_div h]
    · have hlast : l = l' + 1 := by omega
      rwa [hlast]

theorem div_size (h : l < S.lvls) :
    a / S.size l = a / 2 ^ S.wdt 0 * 2 ^ (S.wdt 0 - S.off l) + S.index l a := by
  have hwidth := off_lt_width h
  have hpow : S.size l * 2 ^ (S.wdt 0 - S.off l) = 2 ^ S.wdt 0 := by
    rw [size, ← Nat.pow_add]
    congr 1
    omega
  rw [index, ← hpow, ← Nat.div_div_eq_div_mul, Nat.mul_comm]
  exact (Nat.div_add_mod _ _).symm

theorem index_mod_width (h : l < S.lvls) : S.index l (a % 2 ^ S.wdt 0) = S.index l a := by
  have hwidth := off_lt_width h
  have hpow : S.size l * 2 ^ (S.wdt 0 - S.off l) = 2 ^ S.wdt 0 := by
    rw [size, ← Nat.pow_add]
    congr 1
    omega
  rw [index, index, ← hpow, Nat.mod_mul_right_div_self, Nat.mod_mod]

/-- **Addresses with the same part beyond the input** go through the same entry
exactly when they lie in the same span. -/
theorem index_eq_iff (h : l < S.lvls) (hhigh : a / 2 ^ S.wdt 0 = b / 2 ^ S.wdt 0) :
    S.index l a = S.index l b ↔ a / S.size l = b / S.size l := by
  rw [div_size (a := a) h, div_size (a := b) h, hhigh]
  omega

theorem index_succ_lt (h : l < S.lvls) (hlt : S.index l a % S.fan l + 1 < S.fan l) :
    S.index l a + 1 < 2 ^ (S.wdt 0 - S.off l) := by
  have hdvd : S.fan l ∣ 2 ^ (S.wdt 0 - S.off l) := by
    apply Nat.pow_dvd_pow
    have := wdt_le_width h
    omega
  have hidx : S.index l a < 2 ^ (S.wdt 0 - S.off l) := Nat.mod_lt _ (Nat.two_pow_pos _)
  rcases Nat.lt_or_ge (S.index l a + 1) (2 ^ (S.wdt 0 - S.off l)) with hlt' | hge
  · exact hlt'
  · have heq : S.index l a + 1 = 2 ^ (S.wdt 0 - S.off l) := by omega
    have hmod : (S.index l a + 1) % S.fan l = 0 := by
      rw [heq]
      exact Nat.mod_eq_zero_of_dvd hdvd
    rw [Nat.add_mod, Nat.mod_eq_of_lt (a := 1) (by omega), Nat.mod_eq_of_lt hlt] at hmod
    omega

theorem index_add_size (h : l < S.lvls) (hlt : S.index l a % S.fan l + 1 < S.fan l) :
    S.index l (a + S.size l) = S.index l a + 1 := by
  have hroom := index_succ_lt h hlt
  have hdiv : (a + S.size l) / S.size l = a / S.size l + 1 := Nat.add_div_right _ size_pos
  rw [index, hdiv, Nat.add_mod, Nat.mod_eq_of_lt (a := 1) (by omega)]
  exact Nat.mod_eq_of_lt hroom

theorem div_width (h : l < S.lvls) :
    a / 2 ^ S.wdt 0 = a / S.size l / 2 ^ (S.wdt 0 - S.off l) := by
  have hwidth := off_lt_width h
  rw [size, Nat.div_div_eq_div_mul, ← Nat.pow_add]
  congr 2
  omega

theorem high_add_size (h : l < S.lvls) (hlt : S.index l a % S.fan l + 1 < S.fan l) :
    (a + S.size l) / 2 ^ S.wdt 0 = a / 2 ^ S.wdt 0 := by
  have hroom := index_succ_lt h hlt
  have hdiv : (a + S.size l) / S.size l = a / S.size l + 1 := Nat.add_div_right _ size_pos
  have hsplit := div_size (a := a) h
  rw [div_width h, hdiv, hsplit, Nat.add_assoc, Nat.add_comm, Nat.add_mul_div_right _ _
    (Nat.two_pow_pos _), Nat.div_eq_of_lt hroom, Nat.zero_add]

end Shape

/-! ## The walk -/

variable {F : Type} (S : Shape) (t : Table F)

/-- The entry of level `l` exists for the address: it is reached through tables. -/
def reaches (a : Nat) : Nat → Bool
  | 0 => true
  | l + 1 => reaches a l && match t l (S.index l a) with
    | .table => true
    | _ => false

/-- The walk for the address over the `left` levels from `l` on. -/
def lookup (a : Nat) : Nat → Nat → Option (Nat × F)
  | 0, _ => none
  | left + 1, l =>
      match t l (S.index l a) with
      | .hole _ => none
      | .table => lookup a left (l + 1)
      | .leaf base flags => some (base + a % S.size l, flags)

/-- What the address translates to. -/
def translate (a : Nat) : Option (Nat × F) := lookup S t a S.lvls 0

/-- The table with one entry changed. -/
def put (l i : Nat) (e : Entry F) : Table F :=
  Function.update t l (Function.update (t l) i e)

/-- The table with the entry pointing to a new table with the given entries. -/
def grow (l i : Nat) (g : Nat → Entry F) : Table F := fun m j =>
  if m = l ∧ j = i then .table
  else if m = l + 1 ∧ j / S.fan (l + 1) = i then g (j % S.fan (l + 1))
  else t m j

variable {S t} {l l' a b i : Nat} {e : Entry F} {g : Nat → Entry F} {t' : Table F}

theorem put_same : put t l i e l i = e := by
  rw [put, Function.update_self, Function.update_self]

theorem put_other (h : l' ≠ l ∨ b ≠ i) : put t l i e l' b = t l' b := by
  unfold put
  by_cases hl : l' = l
  · subst hl
    rcases h with hne | hne
    · exact (hne rfl).elim
    · rw [Function.update_self, Function.update_of_ne hne]
  · rw [Function.update_of_ne hl]

theorem reaches_succ :
    reaches S t a (l + 1) = true ↔ reaches S t a l = true ∧ t l (S.index l a) = .table := by
  rw [reaches, Bool.and_eq_true]
  cases t l (S.index l a) with
  | hole mark => simp
  | table => simp
  | leaf base flags => simp

theorem reaches_of_le (hle : l ≤ l') (h : reaches S t a l' = true) : reaches S t a l = true := by
  induction l' with
  | zero =>
    have hzero : l = 0 := by omega
    rwa [hzero]
  | succ l' ih =>
    rcases Nat.lt_or_ge l (l' + 1) with hlt | hge
    · exact ih (by omega) (reaches_succ.mp h).1
    · have heq : l = l' + 1 := by omega
      rwa [heq]

theorem reaches_congr (h : l < S.lvls) (heq : S.index l a = S.index l b)
    (hreach : reaches S t a l = true) : reaches S t b l = true := by
  induction l with
  | zero => rfl
  | succ l ih =>
    rw [reaches_succ] at hreach ⊢
    have hprev : S.index l a = S.index l b := Shape.index_eq_of_le (Nat.le_succ l) h heq
    refine ⟨ih (by omega) hprev hreach.1, ?_⟩
    rw [← hprev]
    exact hreach.2

theorem reaches_sibling (h : l < S.lvls)
    (heq : S.index l a / S.fan l = S.index l b / S.fan l) (hreach : reaches S t a l = true) :
    reaches S t b l = true := by
  cases l with
  | zero => rfl
  | succ l =>
    rw [Shape.index_succ_div h, Shape.index_succ_div h] at heq
    rw [reaches_succ] at hreach ⊢
    refine ⟨reaches_congr (by omega) heq hreach.1, ?_⟩
    rw [← heq]
    exact hreach.2

theorem lookup_congr {left : Nat} (h : ∀ m, l ≤ m → t' m (S.index m a) = t m (S.index m a)) :
    lookup S t' a left l = lookup S t a left l := by
  induction left generalizing l with
  | zero => rfl
  | succ left ih =>
    rw [lookup, lookup, h l (Nat.le_refl l), ih fun m hm => h m (by omega)]

theorem reaches_table_congr (h : ∀ m, m < l → t' m (S.index m a) = t m (S.index m a)) :
    reaches S t' a l = reaches S t a l := by
  induction l with
  | zero => rfl
  | succ l ih => rw [reaches, reaches, h l (Nat.lt_succ_self l), ih fun m hm => h m (by omega)]

theorem translate_of_reaches (hl : l ≤ S.lvls) (h : reaches S t a l = true) :
    translate S t a = lookup S t a (S.lvls - l) l := by
  induction l with
  | zero => rfl
  | succ l ih =>
    obtain ⟨hprev, htable⟩ := reaches_succ.mp h
    have hleft : S.lvls - l = (S.lvls - (l + 1)) + 1 := by omega
    rw [ih (by omega) hprev, hleft, lookup, htable]

theorem translate_entry (hl : l < S.lvls) (h : reaches S t a l = true) :
    translate S t a = match t l (S.index l a) with
      | .hole _ => none
      | .table => lookup S t a (S.lvls - (l + 1)) (l + 1)
      | .leaf base flags => some (base + a % S.size l, flags) := by
  have hleft : S.lvls - l = (S.lvls - (l + 1)) + 1 := by omega
  rw [translate_of_reaches (by omega) h, hleft, lookup]

theorem translate_hole {mark : Bool} (hl : l < S.lvls) (h : reaches S t a l = true)
    (hentry : t l (S.index l a) = .hole mark) : translate S t a = none := by
  rw [translate_entry hl h, hentry]

theorem translate_leaf {base : Nat} {flags : F} (hl : l < S.lvls) (h : reaches S t a l = true)
    (hentry : t l (S.index l a) = .leaf base flags) :
    translate S t a = some (base + a % S.size l, flags) := by
  rw [translate_entry hl h, hentry]

/-! ## Changing one entry -/

/-- **An entry changed** concerns only the addresses that go through it. -/
theorem translate_put_other (h : S.index l a ≠ i) :
    translate S (put t l i e) a = translate S t a := by
  apply lookup_congr
  intro m _
  apply put_other
  by_cases hm : m = l
  · rw [hm]
    exact .inr h
  · exact .inl hm

theorem reaches_put (h : l' ≤ l) : reaches S (put t l i e) a l' = reaches S t a l' := by
  apply reaches_table_congr
  intro m hm
  apply put_other
  exact .inl (by omega)

theorem translate_put_hole {mark : Bool} (hl : l < S.lvls) (h : reaches S t a l = true)
    (hidx : S.index l a = i) : translate S (put t l i (.hole mark)) a = none := by
  have hreach : reaches S (put t l i (.hole mark)) a l = true := by
    rwa [reaches_put (Nat.le_refl l)]
  have hentry : put t l i (.hole mark) l (S.index l a) = .hole mark := by
    rw [hidx]
    exact put_same
  exact translate_hole hl hreach hentry

/-! ## A new table -/

theorem grow_same : grow S t l i g l i = .table := if_pos ⟨rfl, rfl⟩

theorem grow_other (h : ¬ (l' = l ∧ b = i)) (h' : ¬ (l' = l + 1 ∧ b / S.fan (l + 1) = i)) :
    grow S t l i g l' b = t l' b := by
  rw [grow, if_neg h, if_neg h']

/-- **A new table** concerns only the addresses that go through its entry. -/
theorem translate_grow_other (hl : l + 1 < S.lvls) (h : S.index l a ≠ i) :
    translate S (grow S t l i g) a = translate S t a := by
  apply lookup_congr
  intro m _
  apply grow_other
  · rintro ⟨rfl, heq⟩
    exact h heq
  · rintro ⟨rfl, heq⟩
    rw [Shape.index_succ_div hl] at heq
    exact h heq

theorem reaches_grow (h : l' ≤ l) : reaches S (grow S t l i g) a l' = reaches S t a l' := by
  apply reaches_table_congr
  intro m hm
  apply grow_other
  · rintro ⟨rfl, -⟩
    omega
  · rintro ⟨rfl, -⟩
    omega

theorem reaches_grow_succ (h : reaches S t a l = true) (hidx : S.index l a = i) :
    reaches S (grow S t l i g) a (l + 1) = true := by
  rw [reaches_succ, reaches_grow (Nat.le_refl l), hidx]
  exact ⟨h, grow_same⟩

theorem grow_entry (hl : l + 1 < S.lvls) (hidx : S.index l a = i) :
    grow S t l i g (l + 1) (S.index (l + 1) a) = g (S.index (l + 1) a % S.fan (l + 1)) := by
  have hdiv : S.index (l + 1) a / S.fan (l + 1) = i := by
    rw [Shape.index_succ_div hl, hidx]
  rw [grow, if_neg (by omega), if_pos ⟨rfl, hdiv⟩]

theorem grow_grow {g' : Nat → Entry F} : grow S (grow S t l i g) l i g' = grow S t l i g' := by
  funext m j
  by_cases hentry : m = l ∧ j = i
  · rw [hentry.1, hentry.2, grow_same, grow_same]
  · by_cases hnew : m = l + 1 ∧ j / S.fan (l + 1) = i
    · simp only [grow, if_neg hentry, if_pos hnew]
    · rw [grow_other hentry hnew, grow_other hentry hnew, grow_other hentry hnew]

/-- **What a new table lets reach**: the next level, for the addresses of its entry. -/
theorem reaches_grow_iff (hl : l + 1 < S.lvls) (hentry : t l i ≠ .table) (hg : ∀ k, g k ≠ .table) :
    reaches S (grow S t l i g) a l' = true ↔
      reaches S t a l' = true ∨ (l' = l + 1 ∧ reaches S t a l = true ∧ S.index l a = i) := by
  rcases Nat.lt_or_ge l l' with hlt | hge
  · by_cases hidx : S.index l a = i
    · have hold : ¬ reaches S t a l' = true := by
        intro h
        have htable := (reaches_succ.mp (reaches_of_le hlt h)).2
        rw [hidx] at htable
        exact hentry htable
      rcases Nat.lt_or_ge (l + 1) l' with hbelow | hnext
      · -- the walk ends in the new table
        have hnew : ¬ reaches S (grow S t l i g) a l' = true := by
          intro h
          have htable := (reaches_succ.mp (reaches_of_le hbelow h)).2
          rw [grow_entry hl hidx] at htable
          exact hg _ htable
        constructor
        · exact fun h => absurd h hnew
        · rintro (h | ⟨heq, -⟩)
          · exact absurd h hold
          · omega
      · have heq : l' = l + 1 := by omega
        rw [heq] at hold ⊢
        rw [reaches_succ, reaches_grow (Nat.le_refl l), hidx]
        constructor
        · exact fun h => .inr ⟨rfl, h.1, rfl⟩
        · rintro (h | ⟨-, h, -⟩)
          · exact absurd h hold
          · exact ⟨h, grow_same⟩
    · have hsame : reaches S (grow S t l i g) a l' = reaches S t a l' := by
        apply reaches_table_congr
        intro m _
        apply grow_other
        · rintro ⟨rfl, heq⟩
          exact hidx heq
        · rintro ⟨rfl, heq⟩
          rw [Shape.index_succ_div hl] at heq
          exact hidx heq
      rw [hsame]
      exact ⟨.inl, fun h => h.elim id fun h' => absurd h'.2.2 hidx⟩
  · rw [reaches_grow hge]
    exact ⟨.inl, fun h => h.elim id fun h' => by omega⟩

theorem translate_grow_holes {mark : Bool} (hl : l + 1 < S.lvls) (h : reaches S t a l = true)
    (hidx : S.index l a = i) : translate S (grow S t l i fun _ => .hole mark) a = none :=
  translate_hole hl (reaches_grow_succ h hidx) (grow_entry hl hidx)

/-- **A new table of leaves** that continue one another translates as one leaf. -/
theorem translate_grow_leaves {base : Nat} {flags : F} (hl : l + 1 < S.lvls)
    (h : reaches S t a l = true) (hidx : S.index l a = i) :
    translate S (grow S t l i fun k => .leaf (base + k * S.size (l + 1)) flags) a =
      some (base + a % S.size l, flags) := by
  rw [translate_leaf hl (reaches_grow_succ h hidx) (grow_entry hl hidx)]
  have hmod : S.index (l + 1) a % S.fan (l + 1) = a / S.size (l + 1) % S.fan (l + 1) := by
    have hdvd : S.fan (l + 1) ∣ 2 ^ (S.wdt 0 - S.off (l + 1)) := by
      apply Nat.pow_dvd_pow
      have := Shape.wdt_le_width hl
      omega
    exact Nat.mod_mod_of_dvd _ hdvd
  have hoffset : a % S.size l = a / S.size (l + 1) % S.fan (l + 1) * S.size (l + 1) +
      a % S.size (l + 1) := by
    rw [Shape.size_succ hl, Nat.mod_mul, Nat.mul_comm]
    exact Nat.add_comm _ _
  rw [hmod, hoffset, ← Nat.add_assoc]

end RadixTable

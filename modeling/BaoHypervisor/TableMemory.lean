import BaoHypervisor.RadixTable

/-!
# Translation tables in memory

The tables of several address spaces lie in one memory, a page each, and entries
point to pages.  The entry a walk comes to is found by following the pointers from
the root.  As long as no two tables share a page, storing to the entry of one walk
changes the flat table of that address space as `RadixTable.put` and
`RadixTable.grow` say, and no other address space.
-/

namespace TableMemory

open RadixTable

/-- A hole, which can be marked, the end of the walk, or a pointer to a page.  What
a pointer means in the last level is up to the format. -/
inductive Slot (F : Type) where
  | hole (mark : Bool)
  | block (base : Nat) (flags : F)
  | next (page : Nat) (flags : F)
  deriving DecidableEq

/-- The entries of the memory; a page has `2 ^ bits` of them. -/
abbrev Mem (F : Type) := Nat → Slot F

/-- The page an entry that is no last one points to. -/
def Slot.page? {F : Type} : Slot F → Option Nat
  | .next page _ => some page
  | _ => none

/-- An address space: its levels, the page of its root and the root entries that
are left out of consideration. -/
structure Space where
  shape : Shape
  root : Nat
  skip : Nat → Bool

/-- The addresses of the space. -/
def Space.covers (X : Space) (a : Nat) : Prop :=
  a < 2 ^ X.shape.wdt 0 ∧ X.skip (a / X.shape.size 0) = false

/-- The place of an entry in its table. -/
def slot (S : Shape) (l a : Nat) : Nat := a / S.size l % S.fan l

variable {F : Type} (bits : Nat) (S : Shape) (m : Mem F) (root : Nat)

/-- The page of the table of level `l` that the address goes through. -/
def tableOf (a : Nat) : Nat → Option Nat
  | 0 => some root
  | l + 1 =>
      match tableOf a l with
      | none => none
      | some p => (m (p * 2 ^ bits + slot S l a)).page?

/-- The entry of level `l` that the address goes through. -/
def entryAt (a l : Nat) : Option Nat :=
  (tableOf bits S m root a l).map fun p => p * 2 ^ bits + slot S l a

/-- The format of the entries: what one means at a level. -/
structure View (F : Type) where
  view : Nat → Nat → Slot F → Entry F
  view_table : ∀ lvls l s, view lvls l s = .table ↔ l + 1 < lvls ∧ s.page?.isSome

/-- **The memory shows the flat table**: every entry that is reached is found in
memory, with its content. -/
def Shows (V : View F) (X : Space) (t : Table F) : Prop :=
  ∀ a l, X.covers a → l < X.shape.lvls → reaches X.shape t a l = true →
    ∃ p, tableOf bits X.shape m X.root a l = some p ∧
      V.view X.shape.lvls l (m (p * 2 ^ bits + slot X.shape l a)) = t l (X.shape.index l a)

/-- **No two tables share a page**: neither of one space nor of two. -/
def Apart {ι : Type} (space : ι → Space) : Prop :=
  ∀ i j a b l k p, (space i).covers a → (space j).covers b →
    l < (space i).shape.lvls → k < (space j).shape.lvls →
    tableOf bits (space i).shape m (space i).root a l = some p →
    tableOf bits (space j).shape m (space j).root b k = some p →
    i = j ∧ l = k ∧ (space i).shape.index l a / (space i).shape.fan l =
      (space i).shape.index l b / (space i).shape.fan l

/-- The tables are no wider than a page. -/
def Narrow (X : Space) : Prop := ∀ l, l < X.shape.lvls → X.shape.fan l ≤ 2 ^ bits

variable {bits S m root} {a b l k p q e : Nat}

/-! ## Places -/

theorem slot_lt : slot S l a < S.fan l := Nat.mod_lt _ Shape.fan_pos

theorem slot_lt_page {X : Space} (hnarrow : Narrow bits X) (hl : l < X.shape.lvls) :
    slot X.shape l a < 2 ^ bits := Nat.lt_of_lt_of_le slot_lt (hnarrow l hl)

theorem index_mod_fan (h : l < S.lvls) : S.index l a % S.fan l = slot S l a := by
  have hdvd : S.fan l ∣ 2 ^ (S.wdt 0 - S.off l) := by
    apply Nat.pow_dvd_pow
    have := Shape.wdt_le_width h
    omega
  exact Nat.mod_mod_of_dvd _ hdvd

theorem index_eq_of_slot (h : l < S.lvls)
    (htable : S.index l a / S.fan l = S.index l b / S.fan l) (hslot : slot S l a = slot S l b) :
    S.index l a = S.index l b := by
  rw [← Nat.div_add_mod (S.index l a) (S.fan l), ← Nat.div_add_mod (S.index l b) (S.fan l),
    htable, index_mod_fan h, index_mod_fan h, hslot]

theorem place_inj {i j : Nat} (hi : i < 2 ^ bits) (hj : j < 2 ^ bits)
    (h : p * 2 ^ bits + i = q * 2 ^ bits + j) : p = q ∧ i = j := by
  have hpos := Nat.two_pow_pos bits
  have hpage : (p * 2 ^ bits + i) / 2 ^ bits = (q * 2 ^ bits + j) / 2 ^ bits := by rw [h]
  rw [Nat.mul_comm, Nat.mul_comm q, Nat.mul_add_div hpos, Nat.mul_add_div hpos,
    Nat.div_eq_of_lt hi, Nat.div_eq_of_lt hj] at hpage
  have hpq : p = q := by omega
  refine ⟨hpq, ?_⟩
  rw [hpq] at h
  omega

theorem place_div {i : Nat} (hi : i < 2 ^ bits) : (p * 2 ^ bits + i) / 2 ^ bits = p := by
  rw [Nat.mul_comm, Nat.mul_add_div (Nat.two_pow_pos bits), Nat.div_eq_of_lt hi, Nat.add_zero]

theorem place_mod {i : Nat} (hi : i < 2 ^ bits) : (p * 2 ^ bits + i) % 2 ^ bits = i := by
  rw [Nat.mul_comm, Nat.mul_add_mod, Nat.mod_eq_of_lt hi]

theorem tableOf_succ :
    tableOf bits S m root a (l + 1) = some q ↔
      ∃ p, tableOf bits S m root a l = some p ∧
        (m (p * 2 ^ bits + slot S l a)).page? = some q := by
  rw [tableOf]
  cases tableOf bits S m root a l with
  | none => simp
  | some p => simp

theorem entryAt_eq_some :
    entryAt bits S m root a l = some e ↔
      ∃ p, tableOf bits S m root a l = some p ∧ p * 2 ^ bits + slot S l a = e :=
  Option.map_eq_some_iff

/-- Memories that agree on the entries of a walk have the same walk. -/
theorem tableOf_congr {m' : Mem F}
    (h : ∀ k p, k < l → tableOf bits S m root a k = some p →
      (m' (p * 2 ^ bits + slot S k a)).page? = (m (p * 2 ^ bits + slot S k a)).page?) :
    tableOf bits S m' root a l = tableOf bits S m root a l := by
  induction l with
  | zero => rfl
  | succ l ih =>
      have hprev := ih fun k p hk => h k p (by omega)
      rw [tableOf, tableOf, hprev]
      cases htable : tableOf bits S m root a l with
      | none => rfl
      | some p => exact h l p (Nat.lt_succ_self l) htable

/-- Addresses of one table come to it by one walk. -/
theorem tableOf_of_index (hl : l < S.lvls)
    (h : S.index l a / S.fan l = S.index l b / S.fan l) :
    tableOf bits S m root a l = tableOf bits S m root b l := by
  induction l with
  | zero => rfl
  | succ l ih =>
      rw [Shape.index_succ_div hl, Shape.index_succ_div hl] at h
      have hslot : slot S l a = slot S l b := by
        rw [← index_mod_fan (by omega), h, index_mod_fan (by omega)]
      rw [tableOf, tableOf, ih (by omega) (by rw [h]), hslot]

theorem entryAt_of_index (hl : l < S.lvls) (h : S.index l a = S.index l b) :
    entryAt bits S m root a l = entryAt bits S m root b l := by
  have hslot : slot S l a = slot S l b := by
    rw [← index_mod_fan hl, h, index_mod_fan hl]
  have htable : tableOf bits S m root a l = tableOf bits S m root b l :=
    tableOf_of_index hl (by rw [h])
  rw [entryAt, entryAt, htable, hslot]

/-! ## What the memory shows -/

variable {V : View F} {X : Space} {t : Table F}

/-- An entry is reached exactly when its table is in memory. -/
theorem Shows.reaches_iff (h : Shows bits m V X t) (ha : X.covers a) (hl : l < X.shape.lvls) :
    reaches X.shape t a l = true ↔ (tableOf bits X.shape m X.root a l).isSome = true := by
  induction l with
  | zero => exact iff_of_true rfl rfl
  | succ l ih =>
      have hprev := ih (by omega)
      rw [reaches_succ, hprev]
      constructor
      · rintro ⟨hreach, htable⟩
        obtain ⟨p, hp, hview⟩ := h a l ha (by omega) (hprev.mpr hreach)
        rw [htable, V.view_table] at hview
        rw [tableOf, hp]
        exact hview.2
      · intro hsome
        obtain ⟨q, hq⟩ := Option.isSome_iff_exists.mp hsome
        obtain ⟨p, hp, hpage⟩ := tableOf_succ.mp hq
        have hreach : (tableOf bits X.shape m X.root a l).isSome = true := by
          rw [hp]
          rfl
        refine ⟨hreach, ?_⟩
        obtain ⟨p', hp', hview⟩ := h a l ha (by omega) (hprev.mpr hreach)
        cases hp.symm.trans hp'
        rw [← hview, V.view_table, hpage]
        exact ⟨hl, rfl⟩

theorem Shows.entry (h : Shows bits m V X t) (ha : X.covers a) (hl : l < X.shape.lvls)
    (hreach : reaches X.shape t a l = true) :
    ∃ e, entryAt bits X.shape m X.root a l = some e ∧
      V.view X.shape.lvls l (m e) = t l (X.shape.index l a) := by
  obtain ⟨p, hp, hview⟩ := h a l ha hl hreach
  exact ⟨_, entryAt_eq_some.mpr ⟨p, hp, rfl⟩, hview⟩

/-! ## Changing the memory

The spaces and what the memory shows of each stay fixed from here on. -/

section Changes

variable {ι : Type} {space : ι → Space} {t : ι → Table F} {i j : ι}

/-- **An entry belongs to one place** of one space. -/
theorem Apart.entry (h : Apart bits m space) (hnarrow : ∀ i, Narrow bits (space i))
    (ha : (space i).covers a) (hb : (space j).covers b)
    (hl : l < (space i).shape.lvls) (hk : k < (space j).shape.lvls)
    (hea : entryAt bits (space i).shape m (space i).root a l = some e)
    (heb : entryAt bits (space j).shape m (space j).root b k = some e) :
    i = j ∧ l = k ∧ (space i).shape.index l a = (space i).shape.index l b := by
  obtain ⟨p, hp, hpe⟩ := entryAt_eq_some.mp hea
  obtain ⟨q, hq, hqe⟩ := entryAt_eq_some.mp heb
  have hsame := place_inj (slot_lt_page (hnarrow i) hl) (slot_lt_page (hnarrow j) hk)
    (hpe.trans hqe.symm)
  rw [← hsame.1] at hq
  obtain ⟨rfl, rfl, htable⟩ := h i j a b l k p ha hb hl hk hp hq
  exact ⟨rfl, rfl, index_eq_of_slot hl htable hsame.2⟩

theorem tableOf_frame {m' : Mem F}
    (h : ∀ j b k e, (space j).covers b → k < (space j).shape.lvls →
      entryAt bits (space j).shape m (space j).root b k = some e → m' e = m e)
    (hb : (space j).covers b) (hk : k < (space j).shape.lvls) :
    tableOf bits (space j).shape m' (space j).root b k =
      tableOf bits (space j).shape m (space j).root b k := by
  apply tableOf_congr
  intro k' p hk' hp
  rw [h j b k' _ hb (by omega) (entryAt_eq_some.mpr ⟨p, hp, rfl⟩)]

/-- **Memory that holds no entry** can change. -/
theorem Shows.frame {m' : Mem F} (hshows : ∀ j, Shows bits m V (space j) (t j))
    (h : ∀ j b k e, (space j).covers b → k < (space j).shape.lvls →
      entryAt bits (space j).shape m (space j).root b k = some e → m' e = m e) (j : ι) :
    Shows bits m' V (space j) (t j) := by
  intro b k hb hk hreach
  obtain ⟨p, hp, hview⟩ := hshows j b k hb hk hreach
  refine ⟨p, (tableOf_frame h hb hk).trans hp, ?_⟩
  rw [h j b k _ hb hk (entryAt_eq_some.mpr ⟨p, hp, rfl⟩)]
  exact hview

theorem Apart.frame {m' : Mem F} (hapart : Apart bits m space)
    (h : ∀ j b k e, (space j).covers b → k < (space j).shape.lvls →
      entryAt bits (space j).shape m (space j).root b k = some e → m' e = m e) :
    Apart bits m' space := by
  intro j j' b c k k' p hb hc hk hk' hp hp'
  rw [tableOf_frame h hb hk] at hp
  rw [tableOf_frame h hc hk'] at hp'
  exact hapart j j' b c k k' p hb hc hk hk' hp hp'

/-- **A root entry left out of consideration** is the entry of no walk. -/
theorem Apart.skipped (hapart : Apart bits m space) (hnarrow : ∀ i, Narrow bits (space i))
    (ha : (space i).covers a) {n : Nat} (hn : n < 2 ^ bits) (hskip : (space i).skip n = true)
    (hb : (space j).covers b) (hk : k < (space j).shape.lvls) :
    entryAt bits (space j).shape m (space j).root b k ≠
      some ((space i).root * 2 ^ bits + n) := by
  intro he
  obtain ⟨p, hp, hplace⟩ := entryAt_eq_some.mp he
  obtain ⟨rfl, rfl⟩ := place_inj (slot_lt_page (hnarrow j) hk) hn hplace
  obtain ⟨rfl, rfl, -⟩ := hapart j i b a k 0 _ hb ha hk (space i).shape.lvls_pos hp rfl
  have hlt : b / (space j).shape.size 0 < (space j).shape.fan 0 := by
    have hwdt := (space j).shape.off_lt_wdt 0 hk
    rw [Shape.size, Shape.fan, Nat.div_lt_iff_lt_mul (Nat.two_pow_pos _), ← Nat.pow_add,
      Nat.sub_add_cancel (Nat.le_of_lt hwdt)]
    exact hb.1
  rw [slot, Nat.mod_eq_of_lt hlt, hb.2] at hskip
  cases hskip

/-- The walks after a store that hangs no table into the level are walks from before. -/
theorem tableOf_of_store {s : Slot F} (hapart : Apart bits m space)
    (hnarrow : ∀ i, Narrow bits (space i)) (ha : (space i).covers a)
    (hl : l < (space i).shape.lvls)
    (he : entryAt bits (space i).shape m (space i).root a l = some e)
    (hs : l + 1 < (space i).shape.lvls → s.page? = none)
    (hb : (space j).covers b) (hk : k < (space j).shape.lvls)
    (h : tableOf bits (space j).shape (Function.update m e s) (space j).root b k = some p) :
    tableOf bits (space j).shape m (space j).root b k = some p := by
  induction k generalizing p with
  | zero => exact h
  | succ k ih =>
      obtain ⟨q, hq, hpage⟩ := tableOf_succ.mp h
      have hq' := ih (by omega) hq
      have hne : q * 2 ^ bits + slot (space j).shape k b ≠ e := by
        intro heq
        obtain ⟨rfl, rfl, -⟩ := hapart.entry hnarrow ha hb hl (by omega) he
          (entryAt_eq_some.mpr ⟨q, hq', heq⟩)
        rw [heq, Function.update_self, hs hk] at hpage
        cases hpage
      rw [Function.update_of_ne hne] at hpage
      exact tableOf_succ.mpr ⟨q, hq', hpage⟩

/-- **A store to the entry of one walk** puts it into the flat table of that space;
the other spaces are as before. -/
theorem Shows.store {s : Slot F} (h : ∀ j, Shows bits m V (space j) (t j))
    (hapart : Apart bits m space) (hnarrow : ∀ i, Narrow bits (space i))
    (ha : (space i).covers a) (hl : l < (space i).shape.lvls)
    (he : entryAt bits (space i).shape m (space i).root a l = some e)
    (hs : l + 1 < (space i).shape.lvls → s.page? = none) [DecidableEq ι] (j : ι) :
    Shows bits (Function.update m e s) V (space j)
      (Function.update t i (put (t i) l ((space i).shape.index l a)
        (V.view (space i).shape.lvls l s)) j) := by
  have hentry : ∀ j b k p, (space j).covers b → k < (space j).shape.lvls →
      tableOf bits (space j).shape m (space j).root b k = some p →
      p * 2 ^ bits + slot (space j).shape k b = e →
      i = j ∧ l = k ∧ (space i).shape.index l a = (space i).shape.index l b :=
    fun j b k p hb hk hp heq =>
      hapart.entry hnarrow ha hb hl hk he (entryAt_eq_some.mpr ⟨p, hp, heq⟩)
  -- what the new flat table holds of the old one, and where it differs
  have hold : ∀ j b k, ¬ (i = j ∧ l = k ∧ (space i).shape.index l a = (space i).shape.index l b) →
      Function.update t i (put (t i) l ((space i).shape.index l a)
        (V.view (space i).shape.lvls l s)) j k ((space j).shape.index k b) =
      t j k ((space j).shape.index k b) := by
    intro j b k hne
    by_cases hij : j = i
    · subst hij
      rw [Function.update_self]
      apply put_other
      by_cases hkl : k = l
      · subst hkl
        exact .inr fun hidx => hne ⟨rfl, rfl, hidx.symm⟩
      · exact .inl hkl
    · rw [Function.update_of_ne hij]
  have hnew : V.view (space i).shape.lvls l s ≠ .table := by
    rw [Ne, V.view_table]
    rintro ⟨hlt, hsome⟩
    rw [hs hlt] at hsome
    cases hsome
  -- nothing below the stored entry is reached, so the walk is the one from before
  have hwalk : ∀ b k, (space j).covers b → k < (space j).shape.lvls →
      reaches (space j).shape (Function.update t i (put (t i) l ((space i).shape.index l a)
        (V.view (space i).shape.lvls l s)) j) b k = true →
      reaches (space j).shape (t j) b k = true ∧
        ∃ p, tableOf bits (space j).shape (Function.update m e s) (space j).root b k = some p ∧
          tableOf bits (space j).shape m (space j).root b k = some p := by
    intro b k hb
    induction k with
    | zero => exact fun _ _ => ⟨rfl, (space j).root, rfl, rfl⟩
    | succ k ih =>
        intro hk hreach
        rw [reaches_succ] at hreach
        obtain ⟨hprev, p, hp', hp⟩ := ih (by omega) hreach.1
        have hne : ¬ (i = j ∧ l = k ∧
            (space i).shape.index l a = (space i).shape.index l b) := by
          rintro ⟨rfl, rfl, hidx⟩
          have htable := hreach.2
          rw [Function.update_self, ← hidx, put_same] at htable
          exact hnew htable
        have htable := hreach.2
        rw [hold j b k hne] at htable
        have hreached : reaches (space j).shape (t j) b (k + 1) = true :=
          reaches_succ.mpr ⟨hprev, htable⟩
        obtain ⟨q, hq, -⟩ := h j b (k + 1) hb hk hreached
        obtain ⟨p', hp'', hpage⟩ := tableOf_succ.mp hq
        cases hp.symm.trans hp''
        have hplace : p * 2 ^ bits + slot (space j).shape k b ≠ e :=
          fun heq => hne (hentry j b k p hb (by omega) hp heq)
        refine ⟨hreached, q, tableOf_succ.mpr ⟨p, hp', ?_⟩, hq⟩
        rw [Function.update_of_ne hplace]
        exact hpage
  intro b k hb hk hreach
  obtain ⟨hprev, p, hp', hp⟩ := hwalk b k hb hk hreach
  refine ⟨p, hp', ?_⟩
  by_cases hsame : p * 2 ^ bits + slot (space j).shape k b = e
  · obtain ⟨rfl, rfl, hidx⟩ := hentry j b k p hb hk hp hsame
    rw [hsame, Function.update_self, Function.update_self, ← hidx, put_same]
  · have hne : ¬ (i = j ∧ l = k ∧ (space i).shape.index l a = (space i).shape.index l b) := by
      rintro ⟨rfl, rfl, hidx⟩
      rw [entryAt_of_index hl hidx] at he
      obtain ⟨q, hq, hqe⟩ := entryAt_eq_some.mp he
      cases hp.symm.trans hq
      exact hsame hqe
    rw [Function.update_of_ne hsame, hold j b k hne]
    obtain ⟨p', hp'', hview⟩ := h j b k hb hk hprev
    cases hp.symm.trans hp''
    exact hview

/-- **A store keeps the tables apart.** -/
theorem Apart.store {s : Slot F} (hapart : Apart bits m space)
    (hnarrow : ∀ i, Narrow bits (space i)) (ha : (space i).covers a)
    (hl : l < (space i).shape.lvls)
    (he : entryAt bits (space i).shape m (space i).root a l = some e)
    (hs : l + 1 < (space i).shape.lvls → s.page? = none) :
    Apart bits (Function.update m e s) space := by
  intro j j' b c k k' p hb hc hk hk' hp hp'
  exact hapart j j' b c k k' p hb hc hk hk'
    (tableOf_of_store hapart hnarrow ha hl he hs hb hk hp)
    (tableOf_of_store hapart hnarrow ha hl he hs hc hk' hp')

/-- The memory with a new page of entries and the entry that points to it. -/
def hang (bits : Nat) (m : Mem F) (e q : Nat) (flags : F) (g : Nat → Slot F) : Mem F := fun x =>
  if x / 2 ^ bits = q then g (x % 2 ^ bits)
  else if x = e then .next q flags
  else m x

/-- No table of the spaces is in the page. -/
def Fresh (bits : Nat) (m : Mem F) (space : ι → Space) (q : Nat) : Prop :=
  ∀ j b k, (space j).covers b → k < (space j).shape.lvls →
    tableOf bits (space j).shape m (space j).root b k ≠ some q

variable {flags : F} {g : Nat → Slot F}

theorem hang_new {x : Nat} (h : x / 2 ^ bits = q) : hang bits m e q flags g x = g (x % 2 ^ bits) :=
  if_pos h

theorem hang_entry (h : e / 2 ^ bits ≠ q) : hang bits m e q flags g e = .next q flags := by
  rw [hang, if_neg h, if_pos rfl]

theorem hang_other {x : Nat} (h : x / 2 ^ bits ≠ q) (hne : x ≠ e) :
    hang bits m e q flags g x = m x := by
  rw [hang, if_neg h, if_neg hne]

/-- No entry of a table of the spaces is in a fresh page. -/
theorem Fresh.place (h : Fresh bits m space q) (hnarrow : ∀ i, Narrow bits (space i))
    (hb : (space j).covers b) (hk : k < (space j).shape.lvls)
    (hp : tableOf bits (space j).shape m (space j).root b k = some p) :
    (p * 2 ^ bits + slot (space j).shape k b) / 2 ^ bits ≠ q := by
  rw [place_div (slot_lt_page (hnarrow j) hk)]
  intro heq
  rw [heq] at hp
  exact h j b k hb hk hp

/-- The walks of before go on as before. -/
theorem tableOf_hang (hfresh : Fresh bits m space q) (hnarrow : ∀ i, Narrow bits (space i))
    (hleaf : (m e).page? = none) (hb : (space j).covers b) (hk : k < (space j).shape.lvls)
    (h : tableOf bits (space j).shape m (space j).root b k = some p) :
    tableOf bits (space j).shape (hang bits m e q flags g) (space j).root b k = some p := by
  induction k generalizing p with
  | zero => exact h
  | succ k ih =>
      obtain ⟨p', hp', hpage⟩ := tableOf_succ.mp h
      have hne : p' * 2 ^ bits + slot (space j).shape k b ≠ e := by
        intro heq
        rw [heq, hleaf] at hpage
        cases hpage
      refine tableOf_succ.mpr ⟨p', ih (by omega) hp', ?_⟩
      rw [hang_other (hfresh.place hnarrow hb (by omega) hp') hne]
      exact hpage

/-- **The walks with the new table** are those of before and the one that comes to it. -/
theorem tableOf_of_hang (hfresh : Fresh bits m space q) (hnarrow : ∀ i, Narrow bits (space i))
    (hapart : Apart bits m space) (ha : (space i).covers a)
    (hl : l + 1 < (space i).shape.lvls)
    (he : entryAt bits (space i).shape m (space i).root a l = some e)
    (hg : ∀ n, (g n).page? = none) (hb : (space j).covers b) (hk : k < (space j).shape.lvls)
    (h : tableOf bits (space j).shape (hang bits m e q flags g) (space j).root b k = some p) :
    tableOf bits (space j).shape m (space j).root b k = some p ∨
      (p = q ∧ i = j ∧ k = l + 1 ∧
        (space i).shape.index l a = (space i).shape.index l b) := by
  induction k generalizing p with
  | zero => exact .inl h
  | succ k ih =>
      obtain ⟨p', hp', hpage⟩ := tableOf_succ.mp h
      rcases ih (by omega) hp' with hold | ⟨rfl, rfl, rfl, -⟩
      · have hplace := hfresh.place hnarrow hb (by omega) hold
        by_cases heq : p' * 2 ^ bits + slot (space j).shape k b = e
        · obtain ⟨rfl, rfl, hidx⟩ := hapart.entry hnarrow ha hb (by omega) (by omega) he
            (entryAt_eq_some.mpr ⟨p', hold, heq⟩)
          rw [heq] at hplace hpage
          rw [hang_entry hplace] at hpage
          exact .inr ⟨(Option.some.inj hpage).symm, rfl, rfl, hidx⟩
        · rw [hang_other hplace heq] at hpage
          exact .inl (tableOf_succ.mpr ⟨p', hold, hpage⟩)
      · rw [hang_new (place_div (slot_lt_page (hnarrow i) (by omega))), hg] at hpage
        cases hpage

/-- **A table hung into one walk** grows the flat table of that space; the other
spaces are as before. -/
theorem Shows.hang (h : ∀ j, Shows bits m V (space j) (t j)) (hapart : Apart bits m space)
    (hfresh : Fresh bits m space q) (hnarrow : ∀ i, Narrow bits (space i))
    (ha : (space i).covers a) (hl : l + 1 < (space i).shape.lvls)
    (he : entryAt bits (space i).shape m (space i).root a l = some e)
    (hleaf : (m e).page? = none) (hg : ∀ n, (g n).page? = none) [DecidableEq ι] (j : ι) :
    Shows bits (hang bits m e q flags g) V (space j)
      (Function.update t i (grow (space i).shape (t i) l ((space i).shape.index l a)
        fun n => V.view (space i).shape.lvls (l + 1) (g n)) j) := by
  obtain ⟨pe, hpe, hpee⟩ := entryAt_eq_some.mp he
  have heq : e / 2 ^ bits ≠ q := by
    rw [← hpee]
    exact hfresh.place hnarrow ha (by omega) hpe
  -- an entry reached before keeps its walk and, unless it is the one that gets the table,
  -- its content
  have hkept : ∀ b k, (space j).covers b → k < (space j).shape.lvls →
      reaches (space j).shape (t j) b k = true →
      ∃ p, tableOf bits (space j).shape (TableMemory.hang bits m e q flags g)
          (space j).root b k = some p ∧
        tableOf bits (space j).shape m (space j).root b k = some p ∧
        (p * 2 ^ bits + slot (space j).shape k b ≠ e →
          V.view (space j).shape.lvls k
            (TableMemory.hang bits m e q flags g (p * 2 ^ bits + slot (space j).shape k b)) =
          t j k ((space j).shape.index k b)) := by
    intro b k hb hk hreach
    obtain ⟨p, hp, hview⟩ := h j b k hb hk hreach
    refine ⟨p, tableOf_hang hfresh hnarrow hleaf hb hk hp, hp, fun hne => ?_⟩
    rw [hang_other (hfresh.place hnarrow hb hk hp) hne]
    exact hview
  intro b k hb hk hreach
  by_cases hij : j = i
  · subst hij
    rw [Function.update_self] at hreach ⊢
    have hnone : t j l ((space j).shape.index l a) ≠ .table := by
      have hreached : reaches (space j).shape (t j) a l = true := by
        rw [(h j).reaches_iff ha (by omega), hpe]
        rfl
      obtain ⟨e', he', hview⟩ := (h j).entry ha (by omega) hreached
      cases he.symm.trans he'
      rw [← hview, Ne, V.view_table, hleaf]
      rintro ⟨-, hsome⟩
      cases hsome
    have hleaves : ∀ n, V.view (space j).shape.lvls (l + 1) (g n) ≠ .table := by
      intro n
      rw [Ne, V.view_table, hg]
      rintro ⟨-, hsome⟩
      cases hsome
    rw [reaches_grow_iff hl hnone hleaves] at hreach
    rcases hreach with hold | ⟨rfl, hreach, hidx⟩
    · obtain ⟨p, hp', hp, hview⟩ := hkept b k hb hk hold
      refine ⟨p, hp', ?_⟩
      by_cases hsame : p * 2 ^ bits + slot (space j).shape k b = e
      · obtain ⟨-, rfl, hidx⟩ := hapart.entry hnarrow ha hb (by omega) hk he
          (entryAt_eq_some.mpr ⟨p, hp, hsame⟩)
        rw [hsame, hang_entry heq, ← hidx, grow_same, V.view_table]
        exact ⟨hl, rfl⟩
      · rw [hview hsame, grow_other]
        · rintro ⟨rfl, hidx⟩
          rw [entryAt_of_index (by omega) hidx.symm] at he
          obtain ⟨p', hp'', hpe'⟩ := entryAt_eq_some.mp he
          cases hp.symm.trans hp''
          exact hsame hpe'
        · rintro ⟨rfl, hidx⟩
          rw [Shape.index_succ_div hl] at hidx
          rw [reaches_succ, hidx] at hold
          exact hnone hold.2
    · obtain ⟨p, hp', hp, -⟩ := hkept b l hb (by omega) hreach
      have hplace : p * 2 ^ bits + slot (space j).shape l b = e := by
        rw [entryAt_of_index (by omega) hidx.symm] at he
        obtain ⟨p', hp'', hpe'⟩ := entryAt_eq_some.mp he
        cases hp.symm.trans hp''
        exact hpe'
      refine ⟨q, tableOf_succ.mpr ⟨p, hp', ?_⟩, ?_⟩
      · rw [hplace, hang_entry heq]
        rfl
      · have hslot := slot_lt_page (a := b) (hnarrow j) hk
        rw [hang_new (place_div hslot), place_mod hslot, grow_entry hl hidx,
          index_mod_fan hk]
  · rw [Function.update_of_ne hij] at hreach ⊢
    obtain ⟨p, hp', hp, hview⟩ := hkept b k hb hk hreach
    refine ⟨p, hp', hview fun hsame => ?_⟩
    obtain ⟨rfl, -⟩ := hapart.entry hnarrow ha hb (by omega) hk he
      (entryAt_eq_some.mpr ⟨p, hp, hsame⟩)
    exact hij rfl

/-- **A table in a fresh page** keeps the tables apart. -/
theorem Apart.hang (hapart : Apart bits m space)
    (hfresh : Fresh bits m space q) (hnarrow : ∀ i, Narrow bits (space i))
    (ha : (space i).covers a) (hl : l + 1 < (space i).shape.lvls)
    (he : entryAt bits (space i).shape m (space i).root a l = some e)
    (hg : ∀ n, (g n).page? = none) : Apart bits (hang bits m e q flags g) space := by
  intro j j' b c k k' p hb hc hk hk' hp hp'
  have hold := tableOf_of_hang hfresh hnarrow hapart ha hl he hg hb hk hp
  have hold' := tableOf_of_hang hfresh hnarrow hapart ha hl he hg hc hk' hp'
  rcases hold with hold | ⟨rfl, rfl, rfl, hidx⟩
  · rcases hold' with hold' | ⟨rfl, -⟩
    · exact hapart j j' b c k k' p hb hc hk hk' hold hold'
    · exact absurd hold (hfresh j b k hb hk)
  · rcases hold' with hold' | ⟨-, rfl, rfl, hidx'⟩
    · exact absurd hold' (hfresh j' c k' hc hk')
    · refine ⟨rfl, rfl, ?_⟩
      rw [Shape.index_succ_div hl, Shape.index_succ_div hl, ← hidx, hidx']

end Changes

end TableMemory

import BaoHypervisor.TableMemory

/-!
# Tables seen through themselves

A root table one of whose entries points to the root itself makes the tables
visible as memory: every time a walk goes through that entry it stays in the root
for one more level, so that it ends that many levels too early, in a table instead
of a page.  Another root hung into the first one is seen the same way.  The address
to use for an entry of a table is the window of that entry.
-/

namespace RecursiveMap

open RadixTable TableMemory

variable {F : Type}

/-- Tables of `2 ^ bits` entries of `2 ^ bytes` bytes. -/
structure Format where
  bits : Nat
  bytes : Nat

variable (G : Format) (C : Shape) (m : Mem F)

/-- The hardware's walk over the `left` levels from `l` on, in the table of page
`p`.  A pointer of the last level is the page the address is in. -/
def walkFrom (a : Nat) : Nat → Nat → Nat → Option Nat
  | 0, _, p => some (p * 2 ^ (G.bits + G.bytes) + a % 2 ^ (G.bits + G.bytes))
  | left + 1, l, p =>
      match m (p * 2 ^ G.bits + slot C l a) with
      | .hole _ => none
      | .block base _ => if left = 0 then none else some (base + a % C.size l)
      | .next q _ => walkFrom a left (l + 1) q

/-- What the hardware translates the address to, with the root in page `c`. -/
def walk (c a : Nat) : Option Nat := walkFrom G C m a C.lvls 0 c

/-- **The window of an entry**: an address that goes through the self entry `r` as
often as it has to, then through the entry `q` of the other root, then as the address
`va` does down to level `lvl`, and has the place of the entry as its offset. -/
structure IsWindow (S : Shape) (r q lvl va place w : Nat) : Prop where
  early : ∀ k, k + lvl + 1 < C.lvls → slot C k w = r
  enter : slot C (C.lvls - 1 - lvl) w = q
  follow : ∀ i, i < lvl → slot C (C.lvls - lvl + i) w = slot S i va
  offset : w % 2 ^ (G.bits + G.bytes) = 2 ^ G.bytes * place

variable {G C m} {S : Shape} {r q lvl va place w c p : Nat} {f f' : F}

/-- The self entry keeps the walk in the root. -/
theorem walkFrom_early (hw : IsWindow G C S r q lvl va place w)
    (hself : m (c * 2 ^ G.bits + r) = .next c f) {k : Nat} (hk : k + lvl < C.lvls) :
    walk G C m c w = walkFrom G C m w (C.lvls - k) k c := by
  induction k with
  | zero => rfl
  | succ k ih =>
      have hleft : C.lvls - k = (C.lvls - (k + 1)) + 1 := by omega
      rw [ih (by omega), hleft, walkFrom, hw.early k (by omega), hself]

/-- The walk of a window comes to the root it is for. -/
theorem walkFrom_enter (hw : IsWindow G C S r q lvl va place w) (hlvl : lvl < C.lvls)
    (hself : m (c * 2 ^ G.bits + r) = .next c f) (hroot : m (c * 2 ^ G.bits + q) = .next p f') :
    walk G C m c w = walkFrom G C m w lvl (C.lvls - lvl) p := by
  have hleft : C.lvls - (C.lvls - 1 - lvl) = lvl + 1 := by omega
  have hnext : C.lvls - 1 - lvl + 1 = C.lvls - lvl := by omega
  rw [walkFrom_early hw hself (k := C.lvls - 1 - lvl) (by omega), hleft, walkFrom, hw.enter, hroot]
  dsimp only
  rw [hnext]

/-- From there on it is the walk of the address. -/
theorem walkFrom_follow (hw : IsWindow G C S r q lvl va place w) {i p' : Nat} (hi : i ≤ lvl)
    (hp : tableOf G.bits S m p va i = some p') :
    walkFrom G C m w lvl (C.lvls - lvl) p =
      walkFrom G C m w (lvl - i) (C.lvls - lvl + i) p' := by
  induction i generalizing p' with
  | zero =>
      cases hp
      rfl
  | succ i ih =>
      obtain ⟨p0, hp0, hpage⟩ := tableOf_succ.mp hp
      have hleft : lvl - i = (lvl - (i + 1)) + 1 := by omega
      have hplace : slot C (C.lvls - lvl + i) w = slot S i va := hw.follow i (by omega)
      rw [ih (by omega) hp0, hleft, walkFrom, hplace]
      cases hentry : m (p0 * 2 ^ G.bits + slot S i va) with
      | hole mark =>
          rw [hentry] at hpage
          cases hpage
      | block base flags =>
          rw [hentry] at hpage
          cases hpage
      | next page flags =>
          rw [hentry] at hpage
          cases hpage
          rfl

/-- **A window shows the entry** of the table that the walk of the address comes to,
at the place it has in memory. -/
theorem walk_window (hw : IsWindow G C S r q lvl va place w) (hlvl : lvl < C.lvls)
    (hself : m (c * 2 ^ G.bits + r) = .next c f) (hroot : m (c * 2 ^ G.bits + q) = .next p f')
    {p' : Nat} (hp : tableOf G.bits S m p va lvl = some p') :
    walk G C m c w = some ((p' * 2 ^ G.bits + place) * 2 ^ G.bytes) := by
  rw [walkFrom_enter hw hlvl hself hroot, walkFrom_follow hw (Nat.le_refl lvl) hp, Nat.sub_self,
    walkFrom, hw.offset, Nat.pow_add, ← Nat.mul_assoc, Nat.add_mul, Nat.mul_comm (2 ^ G.bytes) place]

/-- The windows of one table lie in one page. -/
theorem IsWindow.move (hw : IsWindow G C S r q lvl va place w)
    (hoff : ∀ k, k < C.lvls → G.bits + G.bytes ≤ C.off k) (hlvl : lvl < C.lvls) {place' w' : Nat}
    (hpage : w' / 2 ^ (G.bits + G.bytes) = w / 2 ^ (G.bits + G.bytes))
    (hplace : w' % 2 ^ (G.bits + G.bytes) = 2 ^ G.bytes * place') :
    IsWindow G C S r q lvl va place' w' := by
  have hslot : ∀ k, k < C.lvls → slot C k w' = slot C k w := by
    intro k hk
    obtain ⟨d, hd⟩ := Nat.exists_eq_add_of_le (hoff k hk)
    rw [slot, slot, Shape.size, hd, Nat.pow_add, ← Nat.div_div_eq_div_mul, hpage,
      Nat.div_div_eq_div_mul]
  constructor
  · intro k hk
    rw [hslot k (by omega)]
    exact hw.early k hk
  · rw [hslot _ (by omega)]
    exact hw.enter
  · intro i hi
    rw [hslot _ (by omega)]
    exact hw.follow i hi
  · exact hplace

/-- **A window faults** where the walk of the address ends in a hole before. -/
theorem walk_window_hole (hw : IsWindow G C S r q lvl va place w) (hlvl : lvl < C.lvls)
    (hself : m (c * 2 ^ G.bits + r) = .next c f) (hroot : m (c * 2 ^ G.bits + q) = .next p f')
    {i e : Nat} {mark : Bool} (hi : i < lvl) (he : entryAt G.bits S m p va i = some e)
    (hhole : m e = .hole mark) : walk G C m c w = none := by
  obtain ⟨p', hp', rfl⟩ := entryAt_eq_some.mp he
  have hleft : lvl - i = (lvl - (i + 1)) + 1 := by omega
  rw [walkFrom_enter hw hlvl hself hroot, walkFrom_follow hw (Nat.le_of_lt hi) hp', hleft,
    walkFrom, hw.follow i hi, hhole]

end RecursiveMap

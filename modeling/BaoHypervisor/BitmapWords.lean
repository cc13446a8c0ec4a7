import BaoHypervisor.PoolSystem
import Mathlib.Algebra.GroupWithZero.Nat

/-!
# Words of the page-pool bitmaps

`pp_bitmap_alloc` counts in bytes, and the bitmap operations load and store words of 32
bits.  Each pool has its own lock, so the loads and stores of different pools interleave.
-/

namespace Bao

open BitMemory

/-- `BITMAP_SIZE`. -/
def bitmapSize (numBits bitsPerUnit : Nat) : Nat :=
  numBits / bitsPerUnit + if numBits % bitsPerUnit ≠ 0 then 1 else 0

/-- A bitmap that was given out: where it is in `bitmap_pool`, and the pages of its pool. -/
structure GivenBitmap where
  offset : Nat
  pages : Nat

namespace GivenBitmap

/-- The bit address of the bitmap. -/
def map (a : GivenBitmap) : Nat := 8 * a.offset

/-- The number of words with bits of the bitmap. -/
def granules (a : GivenBitmap) : Nat := bitmapSize a.pages 32

/-- The byte of `bitmap_pool` is in a word with bits of the bitmap. -/
def Touches (a : GivenBitmap) (byte : Nat) : Prop :=
  a.offset ≤ byte ∧ byte < a.offset + 4 * a.granules

end GivenBitmap

variable {M : Machine}

/-- Calls of `pp_bitmap_alloc`, one after the other: the bitmaps that they give out. -/
def givenBitmaps (s : PoolState M) : List Nat → List GivenBitmap
  | [] => []
  | n :: sizes =>
      match s.ppBitmapAlloc n with
      | some (bitmap, lastIndex) =>
          ⟨bitmap / 8, n⟩ :: givenBitmaps { s with lastIndex := lastIndex } sizes
      | none => givenBitmaps s sizes

/-! ## Updates that interleave -/

/-- `map[k] |= mask`, or `map[k] &= ~mask`. -/
structure WordUpdate where
  k : Nat
  mask : BitVec 32
  set : Bool

namespace WordUpdate

/-- The update is of bits of pages. -/
def On (u : WordUpdate) (a : GivenBitmap) : Prop :=
  u.k < a.granules ∧ ∀ j, u.mask.getLsbD j = true → 32 * u.k + j < a.pages

/-- The word that is stored, from the word that was loaded. -/
def result (u : WordUpdate) (v : BitVec 32) : BitVec 32 :=
  if u.set then v ||| u.mask else v &&& ~~~u.mask

/-- The load and the store with nothing in between. -/
def run (u : WordUpdate) (map : Nat) (m : Store) : Store :=
  setGranule m map u.k (u.result (granule m map u.k))

/-- What the update means for the bits of the pool. -/
def told (u : WordUpdate) (bit : Nat → Bool) (j : Nat) : Bool :=
  if 32 * u.k ≤ j ∧ u.mask.getLsbD (j - 32 * u.k) = true then u.set else bit j

end WordUpdate

/-- The memory, and the update of each pool that has loaded its word and not stored it. -/
structure UpdateState where
  bits : Store
  loaded : Nat → Option (WordUpdate × BitVec 32)

inductive UpdateEvent where
  | load (i : Nat) (u : WordUpdate)
  | store (i : Nat)

/-- Loads and stores under the locks of the pools, beside the bits that the completed
updates of each pool leave. -/
inductive UpdateStep (bs : List GivenBitmap) : UpdateState × (Nat → Nat → Bool) → UpdateEvent →
    UpdateState × (Nat → Nat → Bool) → Prop where
  | load {s : UpdateState} {told : Nat → Nat → Bool} {i : Nat} {a : GivenBitmap} {u : WordUpdate}
      (hpool : bs[i]? = some a) (hon : u.On a) (hidle : s.loaded i = none) :
      UpdateStep bs (s, told) (.load i u)
        ({ s with loaded := Function.update s.loaded i (some (u, granule s.bits a.map u.k)) }, told)
  | store {s : UpdateState} {told : Nat → Nat → Bool} {i : Nat} {a : GivenBitmap} {u : WordUpdate}
      {v : BitVec 32} (hpool : bs[i]? = some a) (hloaded : s.loaded i = some (u, v)) :
      UpdateStep bs (s, told) (.store i)
        (⟨setGranule s.bits a.map u.k (u.result v), Function.update s.loaded i none⟩,
          Function.update told i (u.told (told i)))

/-- The updates of all pools, in any order. -/
def updateSystem (bs : List GivenBitmap) :
    StepSystem (UpdateState × (Nat → Nat → Bool)) UpdateEvent where
  init p := (∀ i, p.1.loaded i = none) ∧
    ∀ (i : Nat) (a : GivenBitmap), bs[i]? = some a → ∀ j, j < a.pages → p.1.bits (a.map + j) = p.2 i j
  step := UpdateStep bs

/-- **The bitmaps do not interfere.** -/
structure BitmapsApart (M : Machine) (base : Nat) (bs : List GivenBitmap) : Prop where
  apart : ∀ (i j : Nat) (a b : GivenBitmap), bs[i]? = some a → bs[j]? = some b → i ≠ j →
    ∀ byte, a.Touches byte → ¬ b.Touches byte
  inside : ∀ a ∈ bs, a.offset + 4 * a.granules ≤ M.bitmapPoolSize
  aligned : ∀ a ∈ bs, (base + a.offset) % 4 = 0
  kept : ∀ s told, (updateSystem bs).Reachable (s, told) →
    ∀ (i : Nat) (a : GivenBitmap), bs[i]? = some a →
    ∀ j, j < a.pages → s.bits (a.map + j) = told i j
  others : ∀ (i j : Nat) (a b : GivenBitmap), bs[i]? = some a → bs[j]? = some b → i ≠ j →
    ∀ m k, k < b.pages →
    (∀ bit, bit < a.pages → bitmapSet m a.map bit (b.map + k) = m (b.map + k) ∧
      bitmapClear m a.map bit (b.map + k) = m (b.map + k)) ∧
    ∀ start n, 1 ≤ n → start + n ≤ a.pages →
      bitmapSetConsecutive m a.map start n (b.map + k) = m (b.map + k) ∧
      bitmapClearConsecutive m a.map start n (b.map + k) = m (b.map + k)
  searches : ∀ a ∈ bs, ∀ m m' : Store,
    (∀ j, j < 32 * a.granules → m (a.map + j) = m' (a.map + j)) → ∀ start n set,
      bitmapFindConsec M m a.map a.pages start n set =
        bitmapFindConsec M m' a.map a.pages start n set

/-! ## Where the bitmaps are -/

/-- The sizes for which a pool of `room` bytes has room, one after the other. -/
def taken (room : Nat) : List Nat → List Nat
  | [] => []
  | n :: sizes =>
      if n ≤ room * 8 then n :: taken (room - bitmapSize n 8) sizes else taken room sizes

/-- Bitmaps of these sizes, one behind the other. -/
def placed (offset : Nat) : List Nat → List GivenBitmap
  | [] => []
  | n :: sizes => ⟨offset, n⟩ :: placed (offset + bitmapSize n 8) sizes

/-- `bitmap_pool` begins at a word; every bitmap but the last one has bits in the last byte
of its last word; and the words of the last one end in `bitmap_pool`. -/
def SizesFit (M : Machine) (base : Nat) (sizes : List Nat) : Prop :=
  ∀ front last, taken M.bitmapPoolSize sizes = front ++ [last] →
    base % 4 = 0 ∧ (∀ n ∈ front, n % 32 = 0 ∨ 24 < n % 32) ∧
    (front.map (bitmapSize · 8)).sum + 4 * bitmapSize last 32 ≤ M.bitmapPoolSize

variable {base : Nat} {bs : List GivenBitmap} {a b : GivenBitmap} {m : Store} {u : WordUpdate}

theorem bitmapSize_mod_iff (n : Nat) :
    bitmapSize n 8 % 4 = 0 ↔ n % 32 = 0 ∨ 24 < n % 32 := by
  unfold bitmapSize
  split <;> omega

theorem four_bitmapSize (n : Nat) (h : n % 32 = 0 ∨ 24 < n % 32) :
    4 * bitmapSize n 32 = bitmapSize n 8 := by
  unfold bitmapSize
  split <;> split <;> omega

theorem givenBitmaps_eq (s : PoolState M) (sizes : List Nat) :
    givenBitmaps s sizes = placed s.lastIndex (taken (M.bitmapPoolSize - s.lastIndex) sizes) := by
  induction sizes generalizing s with
  | nil => rfl
  | cons n sizes ih =>
      rw [givenBitmaps, taken, PoolState.ppBitmapAlloc]
      by_cases hroom : n ≤ (M.bitmapPoolSize - s.lastIndex) * 8
      · rw [if_pos hroom, if_pos hroom, placed]
        dsimp only
        rw [ih, Nat.mul_div_cancel_left _ (by decide)]
        dsimp only
        rw [Nat.sub_sub]
        rfl
      · rw [if_neg hroom, if_neg hroom]
        exact ih s

/-- **Sizes that fit** keep the words apart, aligned and inside. -/
theorem placed_fit {front : List Nat} {last offset room : Nat} (halign : (base + offset) % 4 = 0)
    (hfront : ∀ n ∈ front, n % 32 = 0 ∨ 24 < n % 32)
    (hlast : offset + (front.map (bitmapSize · 8)).sum + 4 * bitmapSize last 32 ≤ room) :
    (∀ a ∈ placed offset (front ++ [last]), offset ≤ a.offset ∧ (base + a.offset) % 4 = 0 ∧
      a.offset + 4 * a.granules ≤ room) ∧
    (placed offset (front ++ [last])).Pairwise fun a b => a.offset + 4 * a.granules ≤ b.offset := by
  induction front generalizing offset with
  | nil =>
      have hone : placed offset ([] ++ [last]) = [⟨offset, last⟩] := rfl
      rw [hone]
      refine ⟨fun a ha => ?_, List.pairwise_singleton ..⟩
      rw [List.mem_singleton.mp ha]
      exact ⟨Nat.le_refl _, halign, by simpa [GivenBitmap.granules] using hlast⟩
  | cons n front ih =>
      have hn := hfront n List.mem_cons_self
      have hwords := four_bitmapSize n hn
      have hmod := (bitmapSize_mod_iff n).mpr hn
      rw [List.map_cons, List.sum_cons] at hlast
      have hnext : (base + (offset + bitmapSize n 8)) % 4 = 0 := by omega
      obtain ⟨hall, hpairs⟩ :=
        ih hnext (fun m hm => hfront m (List.mem_cons_of_mem n hm)) (by omega)
      rw [List.cons_append, placed]
      constructor
      · intro a ha
        rcases List.mem_cons.mp ha with rfl | ha
        · refine ⟨Nat.le_refl _, halign, ?_⟩
          dsimp only [GivenBitmap.granules]
          omega
        · obtain ⟨hle, hrest⟩ := hall a ha
          exact ⟨by omega, hrest⟩
      · refine List.pairwise_cons.mpr ⟨fun b hb => ?_, hpairs⟩
        have hle := (hall b hb).1
        dsimp only [GivenBitmap.granules]
        omega

/-- **Sizes whose words are aligned and inside** fit. -/
theorem fit_of_placed {front : List Nat} {last offset room : Nat}
    (h : ∀ a ∈ placed offset (front ++ [last]), (base + a.offset) % 4 = 0 ∧
      a.offset + 4 * a.granules ≤ room) :
    (base + offset) % 4 = 0 ∧ (∀ n ∈ front, n % 32 = 0 ∨ 24 < n % 32) ∧
    offset + (front.map (bitmapSize · 8)).sum + 4 * bitmapSize last 32 ≤ room := by
  induction front generalizing offset with
  | nil =>
      have hone := h ⟨offset, last⟩ List.mem_cons_self
      exact ⟨hone.1, by simp, by simpa [GivenBitmap.granules] using hone.2⟩
  | cons n front ih =>
      rw [List.cons_append, placed] at h
      obtain ⟨hnext, hfront, hlast⟩ := ih fun a ha => h a (List.mem_cons_of_mem _ ha)
      have hhere := (h ⟨offset, n⟩ List.mem_cons_self).1
      dsimp only at hhere
      have hn := (bitmapSize_mod_iff n).mp (by omega)
      refine ⟨hhere, fun m hm => ?_, ?_⟩
      · rcases List.mem_cons.mp hm with rfl | hm
        · exact hn
        · exact hfront m hm
      · rw [List.map_cons, List.sum_cons]
        omega

/-! ## Words that are apart -/

theorem setGranule_inside {map k j : Nat} (v : BitVec 32) (hj : j < 32) :
    setGranule m map k v (map + 32 * k + j) = v.getLsbD j := by
  have hin : map + 32 * k ≤ map + 32 * k + j ∧ map + 32 * k + j < map + 32 * k + 32 := by omega
  rw [setGranule, setWord, if_pos hin, Nat.add_sub_cancel_left]

theorem setGranule_other {map k p : Nat} (v : BitVec 32)
    (hp : p < map + 32 * k ∨ map + 32 * k + 32 ≤ p) : setGranule m map k v p = m p := by
  have hno : ¬ (map + 32 * k ≤ p ∧ p < map + 32 * k + 32) := by omega
  rw [setGranule, setWord, if_neg hno]

theorem granule_setGranule_other {map k map' k' : Nat} (v : BitVec 32)
    (h : map' + 32 * k' + 32 ≤ map + 32 * k ∨ map + 32 * k + 32 ≤ map' + 32 * k') :
    granule (setGranule m map k v) map' k' = granule m map' k' := by
  apply BitVec.eq_of_getLsbD_eq
  intro j hj
  rw [granule, granule, getLsbD_word, getLsbD_word, setGranule_other v (by omega)]

theorem GivenBitmap.page_lt {j : Nat} (hj : j < a.pages) : j < 32 * a.granules := by
  unfold GivenBitmap.granules bitmapSize
  split <;> omega

theorem words_apart {k k' : Nat} (h : ∀ byte, a.Touches byte → ¬ b.Touches byte)
    (hk : k < a.granules) (hk' : k' < b.granules) :
    b.map + 32 * k' + 32 ≤ a.map + 32 * k ∨ a.map + 32 * k + 32 ≤ b.map + 32 * k' := by
  rcases Nat.le_total (a.offset + 4 * k) (b.offset + 4 * k') with hle | hle
  · have hno := h (b.offset + 4 * k')
    simp only [GivenBitmap.Touches, GivenBitmap.map] at hno ⊢
    omega
  · have hno := h (a.offset + 4 * k)
    simp only [GivenBitmap.Touches, GivenBitmap.map] at hno ⊢
    omega

theorem page_apart {k j : Nat} (h : ∀ byte, a.Touches byte → ¬ b.Touches byte)
    (hk : k < a.granules) (hj : j < b.pages) :
    b.map + j < a.map + 32 * k ∨ a.map + 32 * k + 32 ≤ b.map + j := by
  have hgranules := GivenBitmap.page_lt hj
  have hword : j / 32 < b.granules := by omega
  have hwords := words_apart h hk hword
  omega

theorem told_eq {j : Nat} {told : Nat → Bool} (hlo : 32 * u.k ≤ j) (hhi : j < 32 * u.k + 32)
    (htold : m (a.map + j) = told j) :
    (u.result (granule m a.map u.k)).getLsbD (j - 32 * u.k) = u.told told j := by
  have hidx : a.map + 32 * u.k + (j - 32 * u.k) = a.map + j := by omega
  have hlt : j - 32 * u.k < 32 := by omega
  have hword : (granule m a.map u.k).getLsbD (j - 32 * u.k) = told j := by
    rw [granule, getLsbD_word, hidx, htold, decide_eq_true hlt, Bool.true_and]
  unfold WordUpdate.result WordUpdate.told
  cases hset : u.set with
  | true =>
      rw [if_pos rfl, BitVec.getLsbD_or, hword]
      cases hmask : u.mask.getLsbD (j - 32 * u.k) <;> simp [hlo]
  | false =>
      rw [if_neg Bool.false_ne_true, BitVec.getLsbD_and, BitVec.getLsbD_not, hword,
        decide_eq_true hlt, Bool.true_and]
      cases hmask : u.mask.getLsbD (j - 32 * u.k) <;> simp [hlo]

/-- The bitmaps hold what they were told, and a word that was loaded is still the one in
memory. -/
structure Kept (bs : List GivenBitmap) (p : UpdateState × (Nat → Nat → Bool)) : Prop where
  bits : ∀ (i : Nat) (a : GivenBitmap), bs[i]? = some a → ∀ j, j < a.pages →
    p.1.bits (a.map + j) = p.2 i j
  loaded : ∀ (i : Nat) (a : GivenBitmap) (u : WordUpdate) (v : BitVec 32), bs[i]? = some a →
    p.1.loaded i = some (u, v) → u.On a ∧ v = granule p.1.bits a.map u.k

/-- **One load or store.** -/
theorem Kept.step {p p' : UpdateState × (Nat → Nat → Bool)} {e : UpdateEvent}
    (hapart : ∀ (i j : Nat) (a b : GivenBitmap), bs[i]? = some a → bs[j]? = some b → i ≠ j →
      ∀ byte, a.Touches byte → ¬ b.Touches byte)
    (h : Kept bs p) (hstep : UpdateStep bs p e p') : Kept bs p' := by
  cases hstep with
  | @load s told i a u hpool hon hidle =>
      refine ⟨h.bits, fun i' a' u' v' hpool' hloaded' => ?_⟩
      dsimp only at hloaded'
      by_cases hi : i' = i
      · subst hi
        rw [Function.update_self] at hloaded'
        obtain ⟨rfl, rfl⟩ := Prod.mk.inj (Option.some.inj hloaded')
        obtain rfl := Option.some.inj (hpool.symm.trans hpool')
        exact ⟨hon, rfl⟩
      · rw [Function.update_of_ne hi] at hloaded'
        exact h.loaded i' a' u' v' hpool' hloaded'
  | @store s told i a u v hpool hloaded =>
      obtain ⟨hon, rfl⟩ := h.loaded i a u v hpool hloaded
      constructor
      · intro i' a' hpool' j hj
        dsimp only
        by_cases hi : i' = i
        · subst hi
          obtain rfl := Option.some.inj (hpool.symm.trans hpool')
          have htold := h.bits i' a hpool j hj
          rw [Function.update_self]
          by_cases hin : 32 * u.k ≤ j ∧ j < 32 * u.k + 32
          · have hidx : a.map + j = a.map + 32 * u.k + (j - 32 * u.k) := by omega
            rw [hidx, setGranule_inside _ (by omega)]
            exact told_eq hin.1 hin.2 htold
          · have hnot : ¬ (32 * u.k ≤ j ∧ u.mask.getLsbD (j - 32 * u.k) = true) := by
              rintro ⟨hlo, hmask⟩
              have hlt := BitVec.lt_of_getLsbD hmask
              omega
            rw [setGranule_other _ (by omega), WordUpdate.told, if_neg hnot]
            exact htold
        · rw [Function.update_of_ne hi,
            setGranule_other _ (page_apart (hapart i i' a a' hpool hpool' (Ne.symm hi)) hon.1 hj)]
          exact h.bits i' a' hpool' j hj
      · intro i' a' u' v' hpool' hloaded'
        dsimp only at hloaded' ⊢
        by_cases hi : i' = i
        · subst hi
          rw [Function.update_self] at hloaded'
          cases hloaded'
        · rw [Function.update_of_ne hi] at hloaded'
          obtain ⟨hon', rfl⟩ := h.loaded i' a' u' v' hpool' hloaded'
          have hwords := words_apart (hapart i i' a a' hpool hpool' (Ne.symm hi)) hon.1 hon'.1
          exact ⟨hon', (granule_setGranule_other _ hwords).symm⟩

theorem kept_reachable {p : UpdateState × (Nat → Nat → Bool)}
    (hapart : ∀ (i j : Nat) (a b : GivenBitmap), bs[i]? = some a → bs[j]? = some b → i ≠ j →
      ∀ byte, a.Touches byte → ¬ b.Touches byte)
    (h : (updateSystem bs).Reachable p) : Kept bs p := by
  have hinit : ∀ p, (updateSystem bs).init p → Kept bs p := by
    rintro p ⟨hidle, hbits⟩
    refine ⟨hbits, fun i a u v _ hloaded => ?_⟩
    rw [hidle i] at hloaded
    cases hloaded
  exact h.invariant hinit fun p e p' hp _ hstep => hp.step hapart hstep

/-! ## The bitmap operations as updates -/

theorem on_bit {bit : Nat} (set : Bool) (hbit : bit < a.pages) :
    WordUpdate.On ⟨bit / 32, 1#32 <<< (bit % 32), set⟩ a := by
  have hlt := GivenBitmap.page_lt hbit
  obtain ⟨-, hmask⟩ := isMask_bit bit
  refine ⟨?_, fun j hj => ?_⟩
  · dsimp only
    omega
  · have hone := (hmask j).symm.trans hj
    rw [Bool.and_eq_true, decide_eq_true_eq, decide_eq_true_eq] at hone
    dsimp only
    omega

theorem on_granuleMask (pos len : Nat) (hlen : 1 ≤ len) (hfit : pos % 32 + len ≤ 32)
    (hpages : pos + len ≤ a.pages) :
    WordUpdate.On ⟨pos / 32, granuleMask (pos % 32) len, true⟩ a := by
  have hlt := GivenBitmap.page_lt (a := a) (j := pos) (by omega)
  obtain ⟨-, hmask⟩ := isMask_granuleMask (pos % 32) len hlen hfit
  refine ⟨?_, fun j hj => ?_⟩
  · dsimp only
    omega
  · have hrange := (hmask j).symm.trans hj
    rw [Bool.and_eq_true, decide_eq_true_eq, decide_eq_true_eq] at hrange
    dsimp only
    omega

/-- Updates one after the other. -/
def runUpdates (map : Nat) (us : List WordUpdate) (m : Store) : Store :=
  us.foldl (fun m u => u.run map m) m

theorem runUpdates_append (map : Nat) (us vs : List WordUpdate) (m : Store) :
    runUpdates map (us ++ vs) m = runUpdates map vs (runUpdates map us m) :=
  List.foldl_append

theorem setGranules_updates (fuel : Nat) {pos count : Nat} (hpos : pos % 32 = 0)
    (hpages : pos + count ≤ a.pages) :
    ∃ us, (∀ u ∈ us, u.On a) ∧
      ∀ m, (setGranules m a.map fuel pos count).1 = runUpdates a.map us m := by
  induction fuel generalizing pos count with
  | zero => exact ⟨[], by simp, fun m => rfl⟩
  | succ fuel ih =>
      by_cases hle : 32 ≤ count
      · have hnext : (pos + 32) % 32 = 0 := by omega
        have hrest : pos + 32 + (count - 32) ≤ a.pages := by omega
        obtain ⟨us, hon, hrun⟩ := ih hnext hrest
        have hlt := GivenBitmap.page_lt (a := a) (j := pos) (by omega)
        have hfirst : WordUpdate.On ⟨pos / 32, ~~~0#32, true⟩ a := by
          refine ⟨by dsimp only; omega, fun j hj => ?_⟩
          have hj := BitVec.lt_of_getLsbD hj
          dsimp only
          omega
        refine ⟨⟨pos / 32, ~~~0#32, true⟩ :: us, fun u hu => ?_, fun m => ?_⟩
        · rcases List.mem_cons.mp hu with rfl | hu
          · exact hfirst
          · exact hon u hu
        · rw [setGranules, if_pos hle, hrun]
          rfl
      · exact ⟨[], by simp, fun m => by rw [setGranules, if_neg hle]; rfl⟩

/-- **The operations on pages of a pool** are updates of its bitmap. -/
theorem bitmap_updates (a : GivenBitmap) :
    (∀ bit, bit < a.pages → ∀ m, ∃ u u' : WordUpdate, u.On a ∧ u'.On a ∧
      bitmapSet m a.map bit = u.run a.map m ∧ bitmapClear m a.map bit = u'.run a.map m) ∧
    ∀ start n, 1 ≤ n → start + n ≤ a.pages → ∃ us, (∀ u ∈ us, u.On a) ∧
      ∀ m, bitmapSetConsecutive m a.map start n = runUpdates a.map us m := by
  refine ⟨fun bit hbit m => ⟨_, _, on_bit true hbit, on_bit false hbit, rfl, rfl⟩, ?_⟩
  intro start n hn hpages
  have hoff := Nat.mod_lt start (by decide : 0 < 32)
  obtain ⟨first, hfirst⟩ : ∃ first, first = min (32 - start % 32) n := ⟨_, rfl⟩
  have honFirst := on_granuleMask (a := a) start first (by omega) (by omega) (by omega)
  obtain ⟨us, pos, count, hon, hloop, hleft⟩ : ∃ (us : List WordUpdate) (pos count : Nat),
      (∀ u ∈ us, u.On a) ∧
      (∀ m, setGranules m a.map (n - first) (start + first) (n - first) =
        (runUpdates a.map us m, pos, count)) ∧
      (0 < count → pos % 32 = 0 ∧ count < 32 ∧ pos + count ≤ a.pages) := by
    by_cases hshort : n = first
    · -- the run ends in its first word
      refine ⟨[], start + first, 0, by simp, fun m => ?_, by simp⟩
      rw [hshort, Nat.sub_self]
      rfl
    · have hpos : (start + first) % 32 = 0 := by omega
      have hend : start + first + (n - first) ≤ a.pages := by omega
      obtain ⟨us, hon, hrun⟩ := setGranules_updates (n - first) hpos hend
      refine ⟨us, start + first + (n - first) / 32 * 32, (n - first) % 32, hon,
        fun m => Prod.ext (hrun m) ?_, by omega⟩
      rw [setGranules_eq m a.map hpos (Nat.le_refl _)]
  by_cases htail : 0 < count
  · obtain ⟨hzero, hcount, hend⟩ := hleft htail
    have honLast := on_granuleMask (a := a) pos count htail (by omega) hend
    rw [hzero] at honLast
    refine ⟨⟨start / 32, granuleMask (start % 32) first, true⟩ ::
      (us ++ [⟨pos / 32, granuleMask 0 count, true⟩]), fun u hu => ?_, fun m => ?_⟩
    · rcases List.mem_cons.mp hu with rfl | hu
      · exact honFirst
      · rcases List.mem_append.mp hu with hu | hu
        · exact hon u hu
        · rw [List.mem_singleton.mp hu]
          exact honLast
    · rw [bitmapSetConsecutive]
      dsimp only
      rw [← hfirst, hloop]
      dsimp only
      rw [if_pos htail, ← List.cons_append, runUpdates_append]
      rfl
  · refine ⟨⟨start / 32, granuleMask (start % 32) first, true⟩ :: us, fun u hu => ?_, fun m => ?_⟩
    · rcases List.mem_cons.mp hu with rfl | hu
      · exact honFirst
      · exact hon u hu
    · rw [bitmapSetConsecutive]
      dsimp only
      rw [← hfirst, hloop]
      dsimp only
      rw [if_neg htail]
      rfl

/-! ## Searches -/

section

variable {m' : Store} {map size n : Nat}

theorem granule_congr {k : Nat} (h : ∀ j, j < granuleEnd size → m (map + j) = m' (map + j))
    (hk : 32 * k < size) : granule m map k = granule m' map k := by
  have hend := granule_le_granuleEnd hk
  apply BitVec.eq_of_getLsbD_eq
  intro j hj
  rw [granule, granule, getLsbD_word, getLsbD_word, Nat.add_assoc, h _ (by omega)]

theorem bitmapGet_congr {bit : Nat} (h : ∀ j, j < granuleEnd size → m (map + j) = m' (map + j))
    (hbit : bit < size) : bitmapGet m map bit = bitmapGet m' map bit := by
  rw [bitmapGet_eq, bitmapGet_eq]
  exact h bit (Nat.lt_of_lt_of_le hbit (le_granuleEnd size))

theorem bitmapCountConsecutive_congr {start : Nat}
    (h : ∀ j, j < granuleEnd size → m (map + j) = m' (map + j)) (hstart : start < size) :
    bitmapCountConsecutive m map size start n = bitmapCountConsecutive m' map size start n := by
  have hwhole : ∀ set fuel pos count, countGranules m map size n set fuel pos count =
      countGranules m' map size n set fuel pos count := by
    intro set fuel
    induction fuel with
    | zero => exact fun pos count => rfl
    | succ fuel ih =>
        intro pos count
        rw [countGranules, countGranules, ih]
        by_cases hpos : pos < size
        · rw [granule_congr h (show 32 * (pos / 32) < size by omega)]
        · rw [if_neg (fun hall => hpos hall.1), if_neg (fun hall => hpos hall.1)]
  have hsingle : ∀ set fuel pos count, countSingle m map size n set fuel pos count =
      countSingle m' map size n set fuel pos count := by
    intro set fuel
    induction fuel with
    | zero => exact fun pos count => rfl
    | succ fuel ih =>
        intro pos count
        rw [countSingle, countSingle, ih]
        by_cases hpos : pos < size
        · rw [bitmapGet_congr h hpos]
        · rw [if_neg (fun hall => hpos hall.1), if_neg (fun hall => hpos hall.1)]
  have hfirst : countFirst m map start n = countFirst m' map start n := by
    rw [countFirst, countFirst, bitmapGet_congr h hstart,
      granule_congr h (show 32 * (start / 32) < size by omega)]
  rw [bitmapCountConsecutive, bitmapCountConsecutive, hfirst, bitmapGet_congr h hstart]
  simp only [hwhole, hsingle]

theorem findNthLoop_congr {nth left i count : Nat} {set : Bool}
    (h : ∀ j, j < granuleEnd size → m (map + j) = m' (map + j)) (hend : i + left ≤ size) :
    findNthLoop m map nth set left i count = findNthLoop m' map nth set left i count := by
  induction left generalizing i count with
  | zero => rfl
  | succ left ih =>
      rw [findNthLoop, findNthLoop, bitmapGet_congr h (by omega), ih (by omega), ih (by omega)]

theorem findConsecLoop_congr {fuel i : Nat}
    (h : ∀ j, j < granuleEnd size → m (map + j) = m' (map + j)) :
    findConsecLoop M m map size n fuel i = findConsecLoop M m' map size n fuel i ∨
    (size ≤ findConsecLoop M m map size n fuel i ∧
      size ≤ findConsecLoop M m' map size n fuel i) := by
  have hover : ∀ m fuel i, size ≤ i → size ≤ findConsecLoop M m map size n fuel i := by
    intro m fuel i hi
    cases fuel with
    | zero => exact hi
    | succ fuel =>
        rw [findConsecLoop, if_neg (Nat.not_lt.mpr hi)]
        exact hi
  induction fuel generalizing i with
  | zero => exact .inl rfl
  | succ fuel ih =>
      rw [findConsecLoop, findConsecLoop]
      by_cases hi : i < size
      · rw [if_pos hi, if_pos hi]
        dsimp only
        rw [bitmapCountConsecutive_congr h hi]
        split
        · by_cases hnext : i + bitmapCountConsecutive m' map size i n < size
          · rw [bitmapCountConsecutive_congr h hnext]
            exact ih
          · exact .inr ⟨hover _ _ _ (by omega), hover _ _ _ (by omega)⟩
        · exact .inl rfl
      · rw [if_neg hi, if_neg hi]
        exact .inl rfl

theorem bitmapFindConsec_congr (h : ∀ j, j < granuleEnd size → m (map + j) = m' (map + j))
    (start : Nat) (set : Bool) :
    bitmapFindConsec M m map size start n set = bitmapFindConsec M m' map size start n set := by
  have hnth : bitmapFindNth m map size 1 start set = bitmapFindNth m' map size 1 start set := by
    rw [bitmapFindNth, bitmapFindNth]
    by_cases hstart : start < size
    · rw [findNthLoop_congr h (by omega)]
    · rw [Nat.sub_eq_zero_of_le (Nat.not_lt.mp hstart)]
      rfl
  rw [bitmapFindConsec, bitmapFindConsec, hnth]
  cases bitmapFindNth m' map size 1 start set with
  | none => rfl
  | some i =>
      dsimp only
      rcases findConsecLoop_congr (M := M) (n := n) h with heq | ⟨hm, hm'⟩
      · rw [heq]
      · rw [if_pos hm, if_pos hm']

end

/-! ## The exact sizes -/

theorem placed_getElem_apart {sizes : List Nat} {offset i j : Nat}
    (hpairs : (placed offset sizes).Pairwise fun a b => a.offset + 4 * a.granules ≤ b.offset)
    (ha : (placed offset sizes)[i]? = some a) (hb : (placed offset sizes)[j]? = some b)
    (hij : i ≠ j) (byte : Nat) (htouch : a.Touches byte) : ¬ b.Touches byte := by
  obtain ⟨hi, rfl⟩ := List.getElem?_eq_some_iff.mp ha
  obtain ⟨hj, rfl⟩ := List.getElem?_eq_some_iff.mp hb
  rintro ⟨hlo, hhi⟩
  obtain ⟨hlo', hhi'⟩ := htouch
  rcases Nat.lt_or_gt_of_ne hij with hlt | hgt
  · have hle := List.pairwise_iff_getElem.mp hpairs i j hi hj hlt
    omega
  · have hle := List.pairwise_iff_getElem.mp hpairs j i hj hi hgt
    omega

theorem granuleEnd_pages (a : GivenBitmap) : granuleEnd a.pages = 32 * a.granules := by
  unfold granuleEnd GivenBitmap.granules bitmapSize
  split <;> omega

theorem bitmapsApart_of_words
    (hapart : ∀ (i j : Nat) (a b : GivenBitmap), bs[i]? = some a → bs[j]? = some b → i ≠ j →
      ∀ byte, a.Touches byte → ¬ b.Touches byte)
    (hinside : ∀ a ∈ bs, a.offset + 4 * a.granules ≤ M.bitmapPoolSize)
    (haligned : ∀ a ∈ bs, (base + a.offset) % 4 = 0) : BitmapsApart M base bs where
  apart := hapart
  inside := hinside
  aligned := haligned
  kept := fun s told h => (kept_reachable hapart h).bits
  others := by
    intro i j a b ha hb hij m k hk
    have hbit : ∀ bit, bit < a.pages → b.map + k < a.map + bit ∨ a.map + bit < b.map + k := by
      intro bit hbit
      have hlt := GivenBitmap.page_lt hbit
      have hpage := page_apart (k := bit / 32) (hapart i j a b ha hb hij) (by omega) hk
      omega
    refine ⟨fun bit hbit' => ?_, fun start n hn hend => ?_⟩
    · have hne := hbit bit hbit'
      rw [bitmapSet_eq, bitmapClear_eq]
      exact ⟨fill_other (by omega), fill_other (by omega)⟩
    · have hout : b.map + k < a.map + start ∨ a.map + start + n ≤ b.map + k := by
        by_contra hin
        have hne := hbit (b.map + k - a.map) (by omega)
        omega
      rw [bitmapSetConsecutive_eq m a.map start hn, bitmapClearConsecutive_eq]
      exact ⟨fill_other hout, fill_other hout⟩
  searches := by
    intro a ha m m' hsame start n set
    apply bitmapFindConsec_congr
    rw [granuleEnd_pages]
    exact hsame

end Bao

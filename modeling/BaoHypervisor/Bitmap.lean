import BaoHypervisor.BitMemory
import BaoHypervisor.Machine

/-!
# Bitmaps

The bitmap functions of `bitmap.h` and `bitmap.c`.  A `bitmap_t*` is the bit
address `map` of the bitmap in the store; a granule is a 32-bit word
(`BITMAP_GRANULE_LEN`), so the counting and setting loops handle a first
partial granule, then whole granules, then single bits.  The specifications below describe what each
loop does to the bits: in particular counting may run past `size` to the end
of the granule that contains the last bit.
-/

namespace Bao

open BitMemory

/-- `map[k]`. -/
def granule (m : Store) (map k : Nat) : BitVec 32 :=
  word 32 m (map + 32 * k)

/-- `map[k] = v`. -/
def setGranule (m : Store) (map k : Nat) (v : BitVec 32) : Store :=
  setWord m (map + 32 * k) v

/-- `BIT32_MASK(off, len)`.  A shift takes its amount modulo the register
width, so the unsupported length zero gives all ones from `off` on. -/
def granuleMask (off len : Nat) : BitVec 32 :=
  (((1#32 <<< ((len + (32 - 1)) % 32)) <<< 1) - 1#32) <<< off

/-- `bitmap_get`. -/
def bitmapGet (m : Store) (map bit : Nat) : Bool :=
  granule m map (bit / 32) &&& (1#32 <<< (bit % 32)) != 0#32

/-- `bitmap_set`. -/
def bitmapSet (m : Store) (map bit : Nat) : Store :=
  setGranule m map (bit / 32)
    (granule m map (bit / 32) ||| (1#32 <<< (bit % 32)))

/-- `bitmap_clear`. -/
def bitmapClear (m : Store) (map bit : Nat) : Store :=
  setGranule m map (bit / 32)
    (granule m map (bit / 32) &&& ~~~(1#32 <<< (bit % 32)))

/-- `bitmap_clear_consecutive`. -/
def bitmapClearConsecutive (m : Store) (map start : Nat) : Nat → Store
  | 0 => m
  | n + 1 => bitmapClear (bitmapClearConsecutive m map start n) map (start + n)

/-- The whole-granule loop of `bitmap_set_consecutive`. -/
def setGranules (m : Store) (map : Nat) : Nat → Nat → Nat → Store × Nat × Nat
  | 0, pos, count => (m, pos, count)
  | fuel + 1, pos, count =>
      if 32 ≤ count then
        setGranules
          (setGranule m map (pos / 32)
            (granule m map (pos / 32) ||| ~~~0#32))
          map fuel (pos + 32) (count - 32)
      else (m, pos, count)

/-- `bitmap_set_consecutive`. -/
def bitmapSetConsecutive (m : Store) (map start n : Nat) : Store :=
  let startOffset := start % 32
  let firstWordBits := min (32 - startOffset) n
  let m1 := setGranule m map (start / 32)
    (granule m map (start / 32) ||| granuleMask startOffset firstWordBits)
  let (m2, pos, count) :=
    setGranules m1 map (n - firstWordBits) (start + firstWordBits) (n - firstWordBits)
  if 0 < count then
    setGranule m2 map (pos / 32)
      (granule m2 map (pos / 32) ||| granuleMask 0 count)
  else m2

/-- The loop of `bitmap_find_nth`: `left` bits from `i` on remain. -/
def findNthLoop (m : Store) (map nth : Nat) (set : Bool) : Nat → Nat → Nat → Option Nat
  | 0, _, _ => none
  | left + 1, i, count =>
      if bitmapGet m map i = set then
        if count + 1 = nth then some i
        else findNthLoop m map nth set left (i + 1) (count + 1)
      else findNthLoop m map nth set left (i + 1) count

/-- `bitmap_find_nth`; `none` is the return value -1. -/
def bitmapFindNth (m : Store) (map size nth start : Nat) (set : Bool) : Option Nat :=
  if size = 0 ∨ nth = 0 then none else findNthLoop m map nth set (size - start) start 0

/-- The granule a run of bits of value `set` is compared with. -/
def uniformGranule (set : Bool) : BitVec 32 := if set then ~~~0#32 else 0#32

/-- The whole-granule loop of `bitmap_count_consecutive`. -/
def countGranules (m : Store) (map size n : Nat) (set : Bool) : Nat → Nat → Nat → Nat × Nat
  | 0, pos, count => (pos, count)
  | fuel + 1, pos, count =>
      if pos < size ∧ granule m map (pos / 32) ^^^ uniformGranule set = 0#32 ∧
          count < n then
        countGranules m map size n set fuel (pos + 32) (count + 32)
      else (pos, count)

/-- The single-bit loop of `bitmap_count_consecutive`. -/
def countSingle (m : Store) (map size n : Nat) (set : Bool) : Nat → Nat → Nat → Nat
  | 0, _, count => count
  | fuel + 1, pos, count =>
      if pos < size ∧ bitmapGet m map pos = set ∧ count < n then
        countSingle m map size n set fuel (pos + 1) (count + 1)
      else count

/-- The first, partial granule of `bitmap_count_consecutive`: position and
count after it. -/
def countFirst (m : Store) (map start n : Nat) : Nat × Nat :=
  let startOffset := start % 32
  let firstWordBits := min (32 - startOffset) n
  let initMask := granuleMask startOffset firstWordBits
  let mask := if bitmapGet m map start then initMask else ~~~initMask
  if (granule m map (start / 32) ^^^ mask) &&& initMask = 0#32 then
    (start + firstWordBits, firstWordBits)
  else (start, 0)

/-- `bitmap_count_consecutive`. -/
def bitmapCountConsecutive (m : Store) (map size start n : Nat) : Nat :=
  if n ≤ 1 then n
  else
    let set := bitmapGet m map start
    let first := countFirst m map start n
    let whole := countGranules m map size n set (size - first.1) first.1 first.2
    countSingle m map size n set (size - whole.1) whole.1 whole.2

/-- The loop of `bitmap_find_consec` from position `i` on. -/
def findConsecLoop (M : Machine) (m : Store) (map size n : Nat) : Nat → Nat → Nat
  | 0, i => i
  | fuel + 1, i =>
      if i < size then
        let count := bitmapCountConsecutive m map size i n
        if M.ssize count < M.ssize n then
          findConsecLoop M m map size n fuel
            (i + count + bitmapCountConsecutive m map size (i + count) M.sizeMax)
        else i
      else i

/-- `bitmap_find_consec`; `none` is the return value -1. -/
def bitmapFindConsec (M : Machine) (m : Store) (map size start n : Nat) (set : Bool) : Option Nat :=
  match bitmapFindNth m map size 1 start set with
  | none => none
  | some i =>
      let i := findConsecLoop M m map size n size i
      if size ≤ i then none else some i

/-! ## Masks and single bits -/

private theorem ones_of_length (k : Fin 32) :
    ((1#32 <<< ((k.val + 1 + (32 - 1)) % 32)) <<< 1) - 1#32 =
      BitVec.ofNat 32 (2 ^ (k.val + 1) - 1) := by
  revert k
  decide

theorem isMask_granuleMask (off len : Nat) (hlen : 1 ≤ len) (hfit : off + len ≤ 32) :
    IsMask (granuleMask off len) off len := by
  refine ⟨hfit, fun i => ?_⟩
  have hones := ones_of_length ⟨len - 1, by omega⟩
  simp only [Nat.sub_add_cancel hlen] at hones
  rw [granuleMask, hones, BitVec.getLsbD_shiftLeft, BitVec.getLsbD_ofNat,
    Nat.testBit_two_pow_sub_one]
  by_cases hlo : off ≤ i
  · by_cases hhi : i < off + len
    · have h1 : i < 32 := by omega
      have h2 : ¬ i < off := by omega
      have h3 : i - off < 32 := by omega
      have h4 : i - off < len := by omega
      simp only [h1, h2, h3, h4, hlo, hhi, decide_true, decide_false, Bool.not_false,
        Bool.and_self]
    · have h4 : ¬ i - off < len := by omega
      simp only [h4, hhi, decide_false, Bool.and_false]
  · have h2 : i < off := by omega
    simp only [h2, hlo, decide_true, decide_false, Bool.not_true, Bool.and_false, Bool.false_and]

theorem isMask_bit (bit : Nat) :
    IsMask (1#32 <<< (bit % 32)) (bit % 32) 1 := by
  have hlt := Nat.mod_lt bit (by decide : 0 < 32)
  have hmask := isMask_granuleMask (bit % 32) 1 (by omega) (by omega)
  have heq : granuleMask (bit % 32) 1 = 1#32 <<< (bit % 32) := by
    rw [granuleMask]
    rfl
  rwa [heq] at hmask

theorem granule_address (map bit : Nat) :
    map + 32 * (bit / 32) + bit % 32 = map + bit := by
  rw [Nat.add_assoc, Nat.div_add_mod]

@[simp] theorem bitmapGet_eq (m : Store) (map bit : Nat) : bitmapGet m map bit = m (map + bit) := by
  have hzero := word_xor_and_mask_eq_zero (m := m) (p := map + 32 * (bit / 32))
    (v := false) (isMask_bit bit) (fun i _ _ => BitVec.getLsbD_zero (i := i))
  rw [BitVec.xor_zero, granule_address] at hzero
  have hget : bitmapGet m map bit = true ↔ ¬ Uniform m false (map + bit) 1 := by
    rw [← hzero]
    simp [bitmapGet, granule]
  cases hm : m (map + bit) with
  | false =>
      have hu : Uniform m false (map + bit) 1 := fun j hj => by
        have : j = 0 := by omega
        rw [this, Nat.add_zero, hm]
      cases hbit : bitmapGet m map bit with
      | false => rfl
      | true => exact (hget.mp hbit hu).elim
  | true =>
      refine hget.mpr (fun hu => ?_)
      have := hu 0 (by decide)
      rw [Nat.add_zero, hm] at this
      cases this

@[simp] theorem bitmapSet_eq (m : Store) (map bit : Nat) :
    bitmapSet m map bit = fill m true (map + bit) 1 := by
  rw [bitmapSet, setGranule, granule, setWord_or_mask (isMask_bit bit), granule_address]

@[simp] theorem bitmapClear_eq (m : Store) (map bit : Nat) :
    bitmapClear m map bit = fill m false (map + bit) 1 := by
  rw [bitmapClear, setGranule, granule, setWord_and_not_mask (isMask_bit bit), granule_address]

theorem bitmapClearConsecutive_eq (m : Store) (map start n : Nat) :
    bitmapClearConsecutive m map start n = fill m false (map + start) n := by
  induction n with
  | zero => rw [bitmapClearConsecutive, fill_zero]
  | succ n ih =>
      rw [bitmapClearConsecutive, ih, bitmapClear_eq, ← Nat.add_assoc, fill_fill]

/-! ## Setting a run of bits -/

theorem isMask_allOnes : IsMask (~~~0#32) 0 32 := by
  refine ⟨by decide, fun i => ?_⟩
  rw [BitVec.getLsbD_not, BitVec.getLsbD_zero, Nat.zero_add]
  by_cases hi : i < 32
  · simp only [hi, decide_true, Nat.zero_le, Bool.not_false, Bool.and_self]
  · simp only [hi, decide_false, Bool.and_false, Bool.false_and]

theorem setGranule_ones (m : Store) {map pos : Nat} (hpos : pos % 32 = 0) :
    setGranule m map (pos / 32) (granule m map (pos / 32) ||| ~~~0#32) =
      fill m true (map + pos) 32 := by
  have haddr := granule_address map pos
  rw [hpos] at haddr
  rw [setGranule, granule, setWord_or_mask isMask_allOnes, haddr]

theorem setGranules_eq (m : Store) (map : Nat) {fuel pos count : Nat}
    (hpos : pos % 32 = 0) (hfuel : count ≤ fuel) :
    setGranules m map fuel pos count =
      (fill m true (map + pos) (count / 32 * 32),
        pos + count / 32 * 32, count % 32) := by
  induction fuel generalizing m pos count with
  | zero =>
      have hzero : count = 0 := by omega
      subst hzero
      simp [setGranules]
  | succ fuel ih =>
      rw [setGranules]
      by_cases hle : 32 ≤ count
      · have hdiv : count / 32 * 32 =
            32 + (count - 32) / 32 * 32 := by omega
        have hmod : (count - 32) % 32 = count % 32 := by omega
        rw [if_pos hle, setGranule_ones m hpos, ih _ (by omega) (by omega), ← Nat.add_assoc map,
          fill_fill, hdiv, hmod, Nat.add_assoc pos]
      · have hdiv : count / 32 = 0 := by omega
        rw [if_neg hle, hdiv, Nat.zero_mul, fill_zero, Nat.add_zero,
          Nat.mod_eq_of_lt (by omega)]

/-- **Setting a nonempty run sets exactly its bits.** -/
theorem bitmapSetConsecutive_eq (m : Store) (map start : Nat) {n : Nat} (hn : 1 ≤ n) :
    bitmapSetConsecutive m map start n = fill m true (map + start) n := by
  have hoff := Nat.mod_lt start (by decide : 0 < 32)
  rw [bitmapSetConsecutive]
  simp only
  rw [setGranule, granule, setWord_or_mask (isMask_granuleMask _ _ (by omega) (by omega)),
    granule_address]
  by_cases hshort : n ≤ 32 - start % 32
  · -- the run ends in its first granule
    have hfirst : min (32 - start % 32) n = n := by omega
    rw [hfirst, Nat.sub_self, setGranules]
    simp
  · have hfirst : min (32 - start % 32) n = 32 - start % 32 := by
      omega
    rw [hfirst, setGranules_eq _ map (by omega) (Nat.le_refl _)]
    simp only
    rw [← Nat.add_assoc map, fill_fill]
    by_cases htail : 0 < (n - (32 - start % 32)) % 32
    · have hrest := isMask_granuleMask 0
        ((n - (32 - start % 32)) % 32) (by omega) (by omega)
      rw [if_pos htail, setGranule, granule, setWord_or_mask hrest]
      have haddr : ∀ k : Nat, k % 32 = 0 →
          map + 32 * (k / 32) + 0 = map + k := by omega
      rw [haddr _ (by omega), ← Nat.add_assoc map, ← Nat.add_assoc map]
      rw [Nat.add_assoc (map + start), fill_fill]
      congr 1
      omega
    · rw [if_neg htail]
      congr 1
      omega

/-! ## Counting a run of bits -/

/-- The end of the granule that holds bit `size - 1`. -/
def granuleEnd (size : Nat) : Nat := (size + 31) / 32 * 32

theorem le_granuleEnd (size : Nat) : size ≤ granuleEnd size := by
  unfold granuleEnd
  omega

theorem granuleEnd_le (size : Nat) : granuleEnd size ≤ size + 31 := by
  unfold granuleEnd
  omega

theorem granule_le_granuleEnd {pos size : Nat} (hlt : pos < size) :
    pos / 32 * 32 + 32 ≤ granuleEnd size := by
  unfold granuleEnd
  omega

theorem uniformGranule_getLsbD (set : Bool) {i : Nat} (hi : i < 32) :
    (uniformGranule set).getLsbD i = set := by
  cases set with
  | false => simp [uniformGranule]
  | true => rw [uniformGranule, if_pos rfl, BitVec.getLsbD_not, BitVec.getLsbD_zero]; simp [hi]

theorem granule_xor_eq_zero {m : Store} {map pos : Nat} {set : Bool} (hpos : pos % 32 = 0) :
    granule m map (pos / 32) ^^^ uniformGranule set = 0#32 ↔ Uniform m set (map + pos) 32 := by
  have haddr := granule_address map pos
  rw [hpos, Nat.add_zero] at haddr
  rw [granule, word_xor_eq_zero (fun i hi => uniformGranule_getLsbD set hi), haddr]

/-- The first granule is counted exactly when its bits from `start` on agree. -/
theorem countFirst_eq (m : Store) (map start : Nat) {n : Nat} (hn : 1 ≤ n) :
    (Uniform m (m (map + start)) (map + start) (min (32 - start % 32) n) ∧
      countFirst m map start n =
        (start + min (32 - start % 32) n, min (32 - start % 32) n)) ∨
    (¬ Uniform m (m (map + start)) (map + start) (min (32 - start % 32) n) ∧
      countFirst m map start n = (start, 0)) := by
  have hoff := Nat.mod_lt start (by decide : 0 < 32)
  have hmask := isMask_granuleMask (start % 32) (min (32 - start % 32) n)
    (by omega) (by omega)
  -- the pattern agrees with the first bit on all masked bits
  have hpattern : ∀ i, start % 32 ≤ i → i < start % 32 + min (32 - start % 32) n →
      (if m (map + start) then granuleMask (start % 32) (min (32 - start % 32) n)
        else ~~~granuleMask (start % 32) (min (32 - start % 32) n)).getLsbD i =
        m (map + start) := by
    intro i hlo hhi
    have hi : i < 32 := by omega
    have hbit : (granuleMask (start % 32) (min (32 - start % 32) n)).getLsbD i = true := by
      rw [hmask.2 i]
      simp only [hlo, hhi, decide_true, Bool.and_self]
    cases hm : m (map + start) with
    | false => simp [hbit, hi]
    | true => simp [hbit]
  have hzero := word_xor_and_mask_eq_zero (m := m) (p := map + 32 * (start / 32)) hmask hpattern
  rw [granule_address] at hzero
  unfold countFirst
  simp only [bitmapGet_eq, granule]
  by_cases hu : Uniform m (m (map + start)) (map + start) (min (32 - start % 32) n)
  · exact .inl ⟨hu, if_pos (hzero.mpr hu)⟩
  · exact .inr ⟨hu, if_neg (fun h => hu (hzero.mp h))⟩

/-- What the granule loop keeps and where it stops.  The loop is entered at
an aligned position unless it has nothing to count. -/
theorem countGranules_spec {m : Store} {map : Nat} (size n start count : Nat) {set : Bool}
    {fuel : Nat} (hfuel : size - (start + count) ≤ fuel)
    (hu : Uniform m set (map + start) count) (hend : start + count ≤ granuleEnd size)
    (haligned : (start + count) % 32 = 0 ∨ n ≤ count ∨
      granule m map ((start + count) / 32) ^^^ uniformGranule set ≠ 0#32) :
    ∃ count', countGranules m map size n set fuel (start + count) count =
        (start + count', count') ∧
      count ≤ count' ∧ Uniform m set (map + start) count' ∧
      start + count' ≤ granuleEnd size ∧
      ((start + count) % 32 = 0 → n ≤ count' ∨ size ≤ start + count' ∧ (start + count') % 32 = 0 ∨
        ¬ Uniform m set (map + (start + count')) 32 ∧ start + count' < size ∧
          (start + count') % 32 = 0) := by
  induction fuel generalizing count with
  | zero =>
      refine ⟨count, rfl, Nat.le_refl _, hu, hend, fun hal => ?_⟩
      exact .inr (.inl ⟨by omega, hal⟩)
  | succ fuel ih =>
      rw [countGranules]
      by_cases hgo : start + count < size ∧
          granule m map ((start + count) / 32) ^^^ uniformGranule set = 0#32 ∧ count < n
      · obtain ⟨hlt, hmatch, hcount⟩ := hgo
        have hal : (start + count) % 32 = 0 := by
          rcases haligned with hal | hn | hne
          · exact hal
          · omega
          · exact (hne hmatch).elim
        have hnext : Uniform m set (map + start) (count + 32) :=
          uniform_append.mpr ⟨hu, by
            rw [Nat.add_assoc]
            exact (granule_xor_eq_zero hal).mp hmatch⟩
        have hroom := granule_le_granuleEnd hlt
        obtain ⟨count', heq, hle, hu', hend', hstop⟩ := ih (count + 32) (by omega) hnext
          (by omega) (.inl (by omega))
        rw [if_pos ⟨hlt, hmatch, hcount⟩, Nat.add_assoc start, heq]
        exact ⟨count', rfl, by omega, hu', hend', fun _ => hstop (by omega)⟩
      · rw [if_neg hgo]
        refine ⟨count, rfl, Nat.le_refl _, hu, hend, fun hal => ?_⟩
        rw [granule_xor_eq_zero hal] at hgo
        by_cases hn : n ≤ count
        · exact .inl hn
        · by_cases hsize : size ≤ start + count
          · exact .inr (.inl ⟨hsize, hal⟩)
          · exact .inr (.inr ⟨fun hu' => hgo ⟨by omega, hu', by omega⟩, by omega, hal⟩)

theorem countSingle_spec {m : Store} {map : Nat} (size n start count : Nat) {set : Bool}
    {fuel : Nat} (hfuel : size - (start + count) ≤ fuel)
    (hu : Uniform m set (map + start) count) (hend : start + count ≤ granuleEnd size) :
    ∃ count', countSingle m map size n set fuel (start + count) count = count' ∧
      count ≤ count' ∧ Uniform m set (map + start) count' ∧
      start + count' ≤ granuleEnd size ∧
      (n ≤ count' ∨ size ≤ start + count' ∨ m (map + (start + count')) ≠ set) := by
  induction fuel generalizing count with
  | zero =>
      refine ⟨count, rfl, Nat.le_refl _, hu, hend, .inr (.inl ?_)⟩
      omega
  | succ fuel ih =>
      rw [countSingle, bitmapGet_eq]
      by_cases hgo : start + count < size ∧ m (map + (start + count)) = set ∧ count < n
      · obtain ⟨hlt, hbit, hcount⟩ := hgo
        have hnext : Uniform m set (map + start) (count + 1) :=
          uniform_append.mpr ⟨hu, fun j hj => by
            have hj0 : j = 0 := by omega
            rw [hj0, Nat.add_zero, Nat.add_assoc, hbit]⟩
        have hroom := le_granuleEnd size
        obtain ⟨count', heq, hle, hrest⟩ := ih (count + 1) (by omega) hnext (by omega)
        rw [if_pos ⟨hlt, hbit, hcount⟩, Nat.add_assoc start, heq]
        exact ⟨count', rfl, by omega, hrest⟩
      · rw [if_neg hgo]
        refine ⟨count, rfl, Nat.le_refl _, hu, hend, ?_⟩
        by_cases hn : n ≤ count
        · exact .inl hn
        · by_cases hsize : size ≤ start + count
          · exact .inr (.inl hsize)
          · exact .inr (.inr (fun hbit => hgo ⟨by omega, hbit, by omega⟩))

/-- What `bitmap_count_consecutive` returns for a start inside the bitmap. -/
structure CountSpec (m : Store) (map size start n count : Nat) : Prop where
  /-- All counted bits have the value of the first. -/
  uniform : Uniform m (m (map + start)) (map + start) count
  /-- Counting never leaves the last granule. -/
  inGranule : start + count ≤ granuleEnd size
  /-- It stops early only at the end or at another value. -/
  stop : count < n → size ≤ start + count ∨ m (map + (start + count)) ≠ m (map + start)
  /-- A run up to the end of the last granule is counted to there. -/
  toEnd : Uniform m (m (map + start)) (map + start) (granuleEnd size - start) →
    n ≤ granuleEnd size - start → n ≤ count

/-- **Counting.** -/
theorem bitmapCountConsecutive_spec (m : Store) (map : Nat) {size start n : Nat}
    (hstart : start < size) (hn : 1 ≤ n) :
    CountSpec m map size start n (bitmapCountConsecutive m map size start n) := by
  have hroom := granule_le_granuleEnd hstart
  rw [bitmapCountConsecutive]
  by_cases hone : n ≤ 1
  · have hn1 : n = 1 := by omega
    subst hn1
    rw [if_pos hone]
    refine ⟨fun j hj => ?_, by omega, fun h => by omega, fun _ _ => Nat.le_refl _⟩
    have hj0 : j = 0 := by omega
    rw [hj0, Nat.add_zero]
  · rw [if_neg hone, bitmapGet_eq]
    simp only
    rcases countFirst_eq m map start hn with ⟨hu, hfirst⟩ | ⟨hu, hfirst⟩
    · -- the first granule agrees: either the request is met or the position is aligned
      rw [hfirst]
      obtain ⟨c1, hc1, hle1, hu1, hend1, hstop1⟩ := countGranules_spec size n start _
        (Nat.le_refl _) hu (by omega) (by omega)
      rw [hc1]
      obtain ⟨c2, hc2, hle2, hu2, hend2, hstop2⟩ := countSingle_spec size n start _
        (Nat.le_refl _) hu1 hend1
      simp only
      rw [hc2]
      refine ⟨hu2, hend2, fun hlt => ?_, fun hall hfit => ?_⟩
      · rcases hstop2 with h | h | h
        · omega
        · exact .inl h
        · exact .inr h
      · by_cases hmet : n ≤ min (32 - start % 32) n
        · omega
        · rcases hstop1 (by omega) with h | ⟨hsize, hal⟩ | ⟨hne, hlt, hal⟩
          · omega
          · have : granuleEnd size ≤ start + c1 := by
              unfold granuleEnd
              omega
            omega
          · refine (hne (fun j hj => ?_)).elim
            have hroom1 := granule_le_granuleEnd hlt
            have := hall (c1 + j) (by omega)
            rwa [Nat.add_assoc, ← Nat.add_assoc start, ← Nat.add_assoc map] at this
    · -- the run ends inside the first granule
      rw [hfirst]
      have hbad : granule m map (start / 32) ^^^ uniformGranule (m (map + start)) ≠ 0#32 := by
        intro hmatch
        refine hu (fun j hj => ?_)
        have haddr := granule_address map start
        rw [granule, word_xor_eq_zero (fun i hi => uniformGranule_getLsbD _ hi)] at hmatch
        have := hmatch (start % 32 + j) (by omega)
        rwa [← Nat.add_assoc, haddr] at this
      obtain ⟨c1, hc1, hle1, hu1, hend1, hstop1⟩ := countGranules_spec (m := m) size n
        start 0 (Nat.le_refl _) (fun j hj => absurd hj (Nat.not_lt_zero j)) (by omega)
        (.inr (.inr hbad))
      rw [Nat.add_zero] at hc1
      rw [hc1]
      obtain ⟨c2, hc2, hle2, hu2, hend2, hstop2⟩ := countSingle_spec size n start _
        (Nat.le_refl _) hu1 hend1
      simp only
      rw [hc2]
      refine ⟨hu2, hend2, fun hlt => ?_, fun hall hfit => ?_⟩
      · rcases hstop2 with h | h | h
        · omega
        · exact .inl h
        · exact .inr h
      · exact (hu (fun j hj => hall j (by omega))).elim

theorem CountSpec.pos {m : Store} {map size start n count : Nat}
    (h : CountSpec m map size start n count) (hstart : start < size) (hn : 1 ≤ n) :
    1 ≤ count := by
  rcases Nat.eq_zero_or_pos count with hzero | hpos
  · subst hzero
    rcases h.stop (by omega) with hs | hs
    · omega
    · exact (hs rfl).elim
  · exact hpos

/-! ## Searching -/

theorem findNthLoop_one_some {m : Store} {map i r : Nat} {set : Bool} {left : Nat}
    (h : findNthLoop m map 1 set left i 0 = some r) :
    i ≤ r ∧ r < i + left ∧ m (map + r) = set ∧ ∀ j, i ≤ j → j < r → m (map + j) ≠ set := by
  induction left generalizing i with
  | zero => cases h
  | succ left ih =>
      rw [findNthLoop, bitmapGet_eq] at h
      by_cases hbit : m (map + i) = set
      · rw [if_pos hbit, if_pos rfl] at h
        obtain rfl := Option.some.inj h
        exact ⟨Nat.le_refl _, by omega, hbit, fun j h1 h2 => by omega⟩
      · rw [if_neg hbit] at h
        obtain ⟨h1, h2, h3, h4⟩ := ih h
        refine ⟨by omega, by omega, h3, fun j hj1 hj2 => ?_⟩
        by_cases hj : j = i
        · rwa [hj]
        · exact h4 j (by omega) hj2

theorem findNthLoop_one_none {m : Store} {map i : Nat} {set : Bool} {left : Nat}
    (h : findNthLoop m map 1 set left i 0 = none) :
    ∀ j, i ≤ j → j < i + left → m (map + j) ≠ set := by
  induction left generalizing i with
  | zero => exact fun j h1 h2 => by omega
  | succ left ih =>
      rw [findNthLoop, bitmapGet_eq] at h
      by_cases hbit : m (map + i) = set
      · rw [if_pos hbit, if_pos rfl] at h
        cases h
      · rw [if_neg hbit] at h
        intro j h1 h2
        by_cases hj : j = i
        · rwa [hj]
        · exact ih h j (by omega) (by omega)

theorem bitmapFindNth_one_some {m : Store} {map size start r : Nat} {set : Bool}
    (h : bitmapFindNth m map size 1 start set = some r) :
    start ≤ r ∧ r < size ∧ m (map + r) = set ∧ ∀ j, start ≤ j → j < r → m (map + j) ≠ set := by
  rw [bitmapFindNth] at h
  by_cases hsize : size = 0 ∨ 1 = 0
  · rw [if_pos hsize] at h
    cases h
  · rw [if_neg hsize] at h
    obtain ⟨h1, h2, h3, h4⟩ := findNthLoop_one_some h
    exact ⟨h1, by omega, h3, h4⟩

theorem bitmapFindNth_one_none {m : Store} {map size start : Nat} {set : Bool}
    (h : bitmapFindNth m map size 1 start set = none) :
    ∀ j, start ≤ j → j < size → m (map + j) ≠ set := by
  intro j h1 h2
  rw [bitmapFindNth, if_neg (by omega)] at h
  exact findNthLoop_one_none h j h1 (by omega)

theorem bitmapFindNth_one_eq {m : Store} {map size start r : Nat} {set : Bool}
    (hlo : start ≤ r) (hhi : r < size) (hbit : m (map + r) = set)
    (hbefore : ∀ j, start ≤ j → j < r → m (map + j) ≠ set) :
    bitmapFindNth m map size 1 start set = some r := by
  cases hfind : bitmapFindNth m map size 1 start set with
  | none => exact (bitmapFindNth_one_none hfind r hlo hhi hbit).elim
  | some i =>
      obtain ⟨h1, h2, h3, h4⟩ := bitmapFindNth_one_some hfind
      rcases Nat.lt_trichotomy i r with hlt | heq | hgt
      · exact (hbefore i h1 hlt h3).elim
      · rw [heq]
      · exact (h4 r hlo hgt hbit).elim

variable (M : Machine)

/-- The signed comparison of the search loop, for a count inside a bitmap of
page size: requests from the sign bit on count as negative and never fail. -/
theorem count_short_iff {map size start n : Nat} {m : Store} (hsize : size ≤ M.pageCount)
    (hstart : start < size) (hn : 1 ≤ n) (hword : n < M.wordCount) :
    M.ssize (bitmapCountConsecutive m map size start n) < M.ssize n ↔
      bitmapCountConsecutive m map size start n < n ∧ n < 2 ^ (M.wordBits - 1) := by
  have hrun := (bitmapCountConsecutive_spec m map hstart hn).inGranule
  have hround := granuleEnd_le size
  have hroom := M.sixtyFour_le_pageCount
  have hsign := M.two_pageCount_le_signBit
  rw [M.ssize_of_lt (x := bitmapCountConsecutive m map size start n) (by omega)]
  by_cases hneg : n < 2 ^ (M.wordBits - 1)
  · rw [M.ssize_of_lt hneg]
    omega
  · have := M.ssize_neg (x := n) (by omega) hword
    omega

private theorem eq_of_ne_of_ne {a b c : Bool} (hab : a ≠ b) (hbc : b ≠ c) : a = c := by
  cases a <;> cases b <;> cases c <;> simp_all

/-- What the search loop steps over from a run of `count` bits that is too
short: that run and the run of the other value behind it. -/
structure SkipSpec (m : Store) (map size i count skip : Nat) (set : Bool) : Prop where
  pos : 1 ≤ count
  run : ∀ j, j < count → m (map + (i + j)) = set
  posSkip : i + count < size → 1 ≤ skip
  other : i + count < size → ∀ j, j < skip → m (map + (i + count + j)) ≠ set
  next : i + count + skip < size → m (map + (i + count + skip)) = set

/-- **A short run** is stepped over with the run behind it. -/
theorem skip_spec {m : Store} {map size n i : Nat} {set : Bool} (hn : 1 ≤ n)
    (hsize : size ≤ M.pageCount) (hlt : i < size) (hbit : m (map + i) = set)
    (hcount : bitmapCountConsecutive m map size i n < n) :
    SkipSpec m map size i (bitmapCountConsecutive m map size i n)
      (bitmapCountConsecutive m map size (i + bitmapCountConsecutive m map size i n) M.sizeMax)
      set := by
  have hrun := bitmapCountConsecutive_spec m map hlt hn
  have hmax : M.pageCount + 31 < M.sizeMax := by
    have := M.sixtyFour_le_pageCount
    have := M.two_pageCount_le_signBit
    have := M.signBit_lt_wordCount
    unfold Machine.sizeMax
    omega
  generalize hc : bitmapCountConsecutive m map size i n = count at *
  have hother : i + count < size → m (map + (i + count)) ≠ set := by
    intro hmid
    rcases hrun.stop hcount with h | h
    · omega
    · rwa [hbit] at h
  have hskip : i + count < size → CountSpec m map size (i + count) M.sizeMax
      (bitmapCountConsecutive m map size (i + count) M.sizeMax) :=
    fun hmid => bitmapCountConsecutive_spec m map hmid (by omega)
  refine ⟨hrun.pos hlt hn, fun j hj => ?_, fun hmid => (hskip hmid).pos hmid (by omega),
    fun hmid j hj => ?_, fun hin => ?_⟩
  · have hsame := hrun.uniform j hj
    rwa [Nat.add_assoc, hbit] at hsame
  · have hsame := (hskip hmid).uniform j hj
    rw [← Nat.add_assoc map, hsame]
    exact hother hmid
  · have hmid : i + count < size := by omega
    have hend := (hskip hmid).inGranule
    have hround := granuleEnd_le size
    rcases (hskip hmid).stop (by omega) with h | h
    · omega
    · exact eq_of_ne_of_ne h (hother hmid)

theorem findConsecLoop_spec {m : Store} {map size n i : Nat} {set : Bool}
    (fuel : Nat) (hn : 1 ≤ n) (hword : n < M.wordCount) (hsize : size ≤ M.pageCount)
    (hfuel : size - i ≤ fuel) (hbit : i < size → m (map + i) = set) :
    i ≤ findConsecLoop M m map size n fuel i ∧
      (findConsecLoop M m map size n fuel i < size →
        m (map + findConsecLoop M m map size n fuel i) = set ∧
        ¬ M.ssize (bitmapCountConsecutive m map size (findConsecLoop M m map size n fuel i) n)
          < M.ssize n) := by
  induction fuel generalizing i with
  | zero => exact ⟨Nat.le_refl _, fun h => by rw [findConsecLoop] at h; omega⟩
  | succ fuel ih =>
      rw [findConsecLoop]
      by_cases hlt : i < size
      · by_cases hshort : M.ssize (bitmapCountConsecutive m map size i n) < M.ssize n
        · have hcount := ((count_short_iff M hsize hlt hn hword).mp hshort).1
          have hskip := skip_spec M hn hsize hlt (hbit hlt) hcount
          have hpos := hskip.pos
          have hnext := hskip.next
          obtain ⟨hle, hres⟩ := ih (by omega) hnext
          rw [if_pos hlt]
          simp only
          rw [if_pos hshort]
          exact ⟨by omega, hres⟩
        · rw [if_pos hlt]
          simp only
          rw [if_neg hshort]
          exact ⟨Nat.le_refl _, fun _ => ⟨hbit hlt, hshort⟩⟩
      · rw [if_neg hlt]
        exact ⟨Nat.le_refl _, fun h => (hlt h).elim⟩

/-- **Finding a run.**  A run found starts inside the bitmap on a bit of the
value sought, and all its bits up to the end of the last granule agree; only
requests from the sign bit on are found without being counted. -/
theorem bitmapFindConsec_some {m : Store} {map size start n r : Nat} {set : Bool}
    (hn : 1 ≤ n) (hword : n < M.wordCount) (hsize : size ≤ M.pageCount)
    (h : bitmapFindConsec M m map size start n set = some r) :
    start ≤ r ∧ r < size ∧ m (map + r) = set ∧
      (n < 2 ^ (M.wordBits - 1) →
        Uniform m set (map + r) n ∧ r + n ≤ granuleEnd size) := by
  rw [bitmapFindConsec] at h
  cases hfind : bitmapFindNth m map size 1 start set with
  | none => rw [hfind] at h; cases h
  | some i =>
      rw [hfind] at h
      simp only at h
      obtain ⟨h1, h2, h3, h4⟩ := bitmapFindNth_one_some hfind
      obtain ⟨hle, hres⟩ := findConsecLoop_spec M size hn hword hsize
        (Nat.sub_le _ _) (fun _ => h3)
      by_cases hout : size ≤ findConsecLoop M m map size n size i
      · rw [if_pos hout] at h
        cases h
      · rw [if_neg hout] at h
        obtain rfl := Option.some.inj h
        obtain ⟨hset, hlong⟩ := hres (by omega)
        refine ⟨by omega, by omega, hset, fun hsmall => ?_⟩
        have hin : findConsecLoop M m map size n size i < size := by omega
        have hrun := bitmapCountConsecutive_spec m map hin hn
        have hcount : n ≤ bitmapCountConsecutive m map size
            (findConsecLoop M m map size n size i) n := by
          rw [count_short_iff M hsize hin hn hword] at hlong
          omega
        have hend := hrun.inGranule
        have huniform := hrun.uniform.mono hcount
        rw [hset] at huniform
        exact ⟨huniform, by omega⟩

theorem bitmapFindConsec_first {m : Store} {map size start n r : Nat} {set : Bool}
    (hfind : bitmapFindNth m map size 1 start set = some r)
    (hlong : ¬ M.ssize (bitmapCountConsecutive m map size r n) < M.ssize n) :
    bitmapFindConsec M m map size start n set = some r := by
  obtain ⟨-, hr, -, -⟩ := bitmapFindNth_one_some hfind
  obtain ⟨fuel, rfl⟩ : ∃ fuel, size = fuel + 1 := ⟨size - 1, by omega⟩
  have hstay : findConsecLoop M m map (fuel + 1) n (fuel + 1) r = r := by
    rw [findConsecLoop, if_pos hr]
    simp only
    rw [if_neg hlong]
  rw [bitmapFindConsec, hfind]
  simp only
  rw [hstay, if_neg (by omega)]

end Bao

import BaoHypervisor.BitMemory

/-!
# Copying memory

`memcpy` of `string.c`: words are copied as long as a whole one is left where both
pointers are aligned, and bytes after that; otherwise bytes only.  Pointers and
`size_t` are words of `2 ^ k` bytes, and the memory is the store of their bits.
-/

namespace Bao

open BitMemory

/-- `sizeof(unsigned long)`, which is `WORD_SIZE`. -/
abbrev longSize (k : Nat) : Nat := 2 ^ k

/-- The number of addresses. -/
abbrev addrCount (k : Nat) : Nat := 2 ^ (8 * longSize k)

/-- The byte at an address. -/
def byteAt (m : Store) (a : Nat) : BitVec 8 := word 8 m (8 * a)

/-- The variables of `memcpy` and the memory. -/
structure CopyState where
  m : Store
  i : Nat
  dst : Nat
  src : Nat

section

variable (k : Nat)

/-- The loop over words.  An access to a word that is not aligned faults; `none` is also
a loop that is not at its end after `fuel` turns. -/
def memcpyWords (count : Nat) : Nat → CopyState → Option CopyState
  | 0, u => if u.i < count then none else some u
  | fuel + 1, u =>
      if u.i < count then
        if (count + addrCount k - 1) % addrCount k <
            (u.i + (longSize k - 1)) % addrCount k then some u
        else if u.dst % longSize k = 0 ∧ u.src % longSize k = 0 then
          memcpyWords count fuel
            { m := setWord u.m (8 * u.dst) (word (8 * longSize k) u.m (8 * u.src))
              i := (u.i + longSize k) % addrCount k
              dst := (u.dst + longSize k) % addrCount k
              src := (u.src + longSize k) % addrCount k }
        else none
      else some u

/-- The loop over the bytes that are left, which moves the pointers on. -/
def memcpyTail (count : Nat) : Nat → CopyState → Option CopyState
  | 0, u => if u.i < count then none else some u
  | fuel + 1, u =>
      if u.i < count then
        memcpyTail count fuel
          { m := setWord u.m (8 * u.dst) (byteAt u.m u.src)
            i := (u.i + 1) % addrCount k
            dst := (u.dst + 1) % addrCount k
            src := (u.src + 1) % addrCount k }
      else some u

/-- The loop over all bytes from index `i` on. -/
def memcpyBytes (dst src count : Nat) : Nat → Nat → Store → Option Store
  | 0, i, m => if i < count then none else some m
  | fuel + 1, i, m =>
      if i < count then
        memcpyBytes dst src count fuel ((i + 1) % addrCount k)
          (setWord m (8 * ((dst + i) % addrCount k)) (byteAt m ((src + i) % addrCount k)))
      else some m

/-- `memcpy`, for at most `fuel` turns of each loop. -/
def memcpy (m : Store) (dst src count fuel : Nat) : Option (Nat × Store) :=
  if src &&& (longSize k - 1) = 0 ∧ dst &&& (longSize k - 1) = 0 then
    match memcpyWords k count fuel ⟨m, 0, dst, src⟩ with
    | none => none
    | some u =>
        if u.i ≤ (count + addrCount k - 1) % addrCount k then
          (memcpyTail k count fuel u).map fun u => (dst, u.m)
        else some (dst, u.m)
  else (memcpyBytes k dst src count fuel 0 m).map fun m => (dst, m)

/-- The arguments of a copy: two pointers, whose ranges are in the address
space and do not overlap. -/
structure CopyRanges where
  dst : Nat
  src : Nat
  count : Nat
  dst_lt : dst < addrCount k
  src_lt : src < addrCount k
  dst_fits : dst + count ≤ addrCount k
  src_fits : src + count ≤ addrCount k
  apart : src + count ≤ dst ∨ dst + count ≤ src

end

variable {k : Nat} {m : Store} {u : CopyState} {fuel : Nat}

theorem two_longSize_le : 2 * longSize k ≤ addrCount k := by
  have hk : k < 2 ^ k := Nat.lt_two_pow_self
  calc 2 * 2 ^ k = 2 ^ (k + 1) := by rw [Nat.pow_succ, Nat.mul_comm]
    _ ≤ 2 ^ (8 * 2 ^ k) := Nat.pow_le_pow_right (by decide) (by omega)

theorem longSize_dvd : longSize k ∣ addrCount k := by
  apply Nat.pow_dvd_pow
  have hk : k < 2 ^ k := Nat.lt_two_pow_self
  change k ≤ 8 * 2 ^ k
  omega

theorem CopyRanges.two_count_le (r : CopyRanges k) : 2 * r.count ≤ addrCount k := by
  have hdst := r.dst_fits
  have hsrc := r.src_fits
  have hapart := r.apart
  omega

theorem lastIndex {count : Nat} (hpos : 0 < count) (hle : count ≤ addrCount k) :
    (count + addrCount k - 1) % addrCount k = count - 1 := by
  have hsplit : count + addrCount k - 1 = count - 1 + addrCount k := by omega
  rw [hsplit, Nat.add_mod_right]
  exact Nat.mod_eq_of_lt (by omega)

/-- The first `n` bytes have been copied. -/
def copied (r : CopyRanges k) (m : Store) (n : Nat) : Store :=
  copyBits m (8 * r.src) (8 * r.dst) (8 * n)

/-- **Some more bytes** are read where nothing has been written yet. -/
theorem copied_add (r : CopyRanges k) (m : Store) {n j : Nat} (h : n + j ≤ r.count) :
    setWord (copied r m n) (8 * (r.dst + n)) (word (8 * j) (copied r m n) (8 * (r.src + n))) =
      copied r m (n + j) := by
  have hapart := r.apart
  rw [setWord_word, copied, Nat.mul_add 8 r.dst, Nat.mul_add 8 r.src, copyBits_copyBits (by omega),
    copied, Nat.mul_add]

/-- Where the loops stand after `u.i` bytes. -/
structure Copied (r : CopyRanges k) (m : Store) (u : CopyState) : Prop where
  le : u.i ≤ r.count
  m : u.m = copied r m u.i
  dst : u.dst = (r.dst + u.i) % addrCount k
  src : u.src = (r.src + u.i) % addrCount k

/-- A step of `j` bytes. -/
theorem Copied.step {r : CopyRanges k} {j : Nat} (h : Copied r m u) (hj : 0 < j)
    (hle : u.i + j ≤ r.count) :
    Copied r m
      { m := setWord u.m (8 * u.dst) (word (8 * j) u.m (8 * u.src))
        i := (u.i + j) % addrCount k
        dst := (u.dst + j) % addrCount k
        src := (u.src + j) % addrCount k } ∧ (u.i + j) % addrCount k = u.i + j := by
  have hdst := r.dst_fits
  have hsrc := r.src_fits
  have hword : (u.i + j) % addrCount k = u.i + j := by
    apply Nat.mod_eq_of_lt
    have htwo := r.two_count_le
    omega
  have hd : u.dst = r.dst + u.i := by
    rw [h.dst]
    exact Nat.mod_eq_of_lt (by omega)
  have hs : u.src = r.src + u.i := by
    rw [h.src]
    exact Nat.mod_eq_of_lt (by omega)
  refine ⟨⟨?_, ?_, ?_, ?_⟩, hword⟩
  · dsimp only
    omega
  · dsimp only
    rw [hword, hd, hs, h.m, copied_add r m hle]
  · dsimp only
    rw [hword, hd, Nat.add_assoc]
  · dsimp only
    rw [hword, hs, Nat.add_assoc]

/-- **The loop over words** ends, with less than a word left. -/
theorem memcpyWords_copied {r : CopyRanges k} (h : Copied r m u) (hfuel : r.count - u.i < fuel)
    (hd : u.dst % longSize k = 0) (hs : u.src % longSize k = 0) :
    ∃ u', memcpyWords k r.count fuel u = some u' ∧ Copied r m u' := by
  have hpos : 0 < longSize k := Nat.two_pow_pos k
  have hsize := two_longSize_le (k := k)
  have htwo := r.two_count_le
  induction fuel generalizing u with
  | zero => omega
  | succ fuel ih =>
      rw [memcpyWords]
      by_cases hlt : u.i < r.count
      · have hend : (u.i + (longSize k - 1)) % addrCount k = u.i + (longSize k - 1) :=
          Nat.mod_eq_of_lt (by omega)
        rw [if_pos hlt, lastIndex (by omega) (by omega), hend]
        by_cases hroom : r.count - 1 < u.i + (longSize k - 1)
        · rw [if_pos hroom]
          exact ⟨u, rfl, h⟩
        · rw [if_neg hroom, if_pos ⟨hd, hs⟩]
          obtain ⟨hnext, hi⟩ := h.step hpos (by omega)
          have haligned : ∀ a, a % longSize k = 0 → (a + longSize k) % addrCount k % longSize k = 0 := by
            intro a ha
            rw [Nat.mod_mod_of_dvd _ longSize_dvd, Nat.add_mod_right]
            exact ha
          apply ih hnext
          · dsimp only
            omega
          · exact haligned _ hd
          · exact haligned _ hs
      · rw [if_neg hlt]
        exact ⟨u, rfl, h⟩

/-- **The loop over the bytes that are left** copies them all. -/
theorem memcpyTail_copied {r : CopyRanges k} (h : Copied r m u) (hfuel : r.count - u.i ≤ fuel) :
    ∃ u', memcpyTail k r.count fuel u = some u' ∧ u'.m = copied r m r.count := by
  have hdone : ∀ {u : CopyState}, Copied r m u → ¬ u.i < r.count → u.m = copied r m r.count := by
    intro u h hge
    have heq : u.i = r.count := Nat.le_antisymm h.le (Nat.le_of_not_lt hge)
    rw [h.m, heq]
  induction fuel generalizing u with
  | zero =>
      have hge : ¬ u.i < r.count := by omega
      exact ⟨u, by rw [memcpyTail, if_neg hge], hdone h hge⟩
  | succ fuel ih =>
      rw [memcpyTail]
      by_cases hlt : u.i < r.count
      · rw [if_pos hlt]
        obtain ⟨hnext, hi⟩ := h.step Nat.one_pos hlt
        apply ih hnext
        dsimp only
        omega
      · rw [if_neg hlt]
        exact ⟨u, rfl, hdone h hlt⟩

/-- **The loop over all bytes.** -/
theorem memcpyBytes_copied {r : CopyRanges k} {i : Nat} (hi : i ≤ r.count)
    (hfuel : r.count - i ≤ fuel) :
    memcpyBytes k r.dst r.src r.count fuel i (copied r m i) = some (copied r m r.count) := by
  induction fuel generalizing i with
  | zero =>
      obtain rfl : i = r.count := by omega
      rw [memcpyBytes, if_neg (Nat.lt_irrefl _)]
  | succ fuel ih =>
      rw [memcpyBytes]
      by_cases hlt : i < r.count
      · have hdst := r.dst_fits
        have hsrc := r.src_fits
        have htwo := r.two_count_le
        rw [if_pos hlt, Nat.mod_eq_of_lt (show i + 1 < addrCount k by omega),
          Nat.mod_eq_of_lt (show r.dst + i < addrCount k by omega),
          Nat.mod_eq_of_lt (show r.src + i < addrCount k by omega), byteAt,
          copied_add r m (j := 1) hlt]
        exact ih hlt (by omega)
      · obtain rfl : i = r.count := by omega
        rw [if_neg (Nat.lt_irrefl _)]

theorem byteAt_copied (r : CopyRanges k) (m : Store) :
    (∀ i, i < r.count → byteAt (copied r m r.count) (r.dst + i) = byteAt m (r.src + i)) ∧
    ∀ a, a < r.dst ∨ r.dst + r.count ≤ a → byteAt (copied r m r.count) a = byteAt m a := by
  constructor
  · intro i hi
    apply BitVec.eq_of_getLsbD_eq
    intro j hj
    have hcopy := copyBits_inside (m := m) (p := 8 * r.src) (q := 8 * r.dst) (n := 8 * r.count)
      (j := 8 * i + j) (by omega)
    have hto : 8 * (r.dst + i) + j = 8 * r.dst + (8 * i + j) := by omega
    have hfrom : 8 * (r.src + i) + j = 8 * r.src + (8 * i + j) := by omega
    rw [byteAt, byteAt, getLsbD_word, getLsbD_word, hto, hfrom, copied, hcopy]
  · intro a ha
    apply BitVec.eq_of_getLsbD_eq
    intro j hj
    rw [byteAt, byteAt, getLsbD_word, getLsbD_word, copied, copyBits_other (by omega)]

end Bao

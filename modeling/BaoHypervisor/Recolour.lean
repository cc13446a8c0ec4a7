import BaoHypervisor.ColoredViews
import Mathlib.Data.Nat.Count

/-!
# Recolouring an image

`mem_map_reclr` maps an image into an address space with some of the colours: a
page of an allowed colour in place, any other page as a copy.  It counts the
copies beforehand, allocates that many pages, and at the end frees that many
pages of the other colours from the base of the image.  For whole periods of the
colour map the count multiplies with the number of zeros of the mask in a whole
word, not in the bits that stand for colours, so it is right only for an image
that is shorter than a period.
-/

namespace Bao

open BitMemory

variable {M : Machine}

/-- `~` of an `unsigned long`. -/
def wordNot (M : Machine) (x : Nat) : Nat := M.wordCount - (x + 1)

/-- `bit_count`. -/
def bitCount (M : Machine) (word : Nat) : Nat :=
  ((List.range M.wordBits).filter fun i => word.testBit i).length

/-- The number of pages that `mem_map_reclr` counts for copies. -/
def reclrdNum (M : Machine) (colors : Nat) (ppages : Ppages) (numPages : Nat) : Nat :=
  let period := M.colorNum * M.colorSize
  let whole := numPages / period * M.colorSize *
    bitCount M (wordNot M (colors &&& (2 ^ M.colorNum - 1)))
  let rest := (List.range (numPages % period)).filter fun i => !onColor M ppages.base i colors
  (whole + rest.length) % M.wordCount

/-- What a page of the image is mapped to, and for a copy where `memcpy` reads
and writes. -/
structure ReclrPage where
  pa : Nat
  copied : Option (Nat × Nat)
deriving DecidableEq

/-- The loop of `mem_map_reclr` over `n` pages of the image from page `i` on.
`hypMap` is what the hypervisor has the copies mapped to, and `copy` the number
of pages copied. -/
def reclrLoop (M : Machine) (colors base : Nat) (reclrd : Ppages) (hypMap : List (Nat × Nat))
    (fuel : Nat) : Nat → Nat → Nat → Nat → Option (List ReclrPage)
  | 0, _, _, _ => some []
  | n + 1, i, index, copy =>
      let paddr := base + i * M.pageSize
      if onColor M base i colors then
        (reclrLoop M colors base reclrd hypMap fuel n (i + 1) index copy).map
          (⟨paddr, none⟩ :: ·)
      else
        match hypMap[copy]?, ppNextClr M reclrd.base colors fuel index with
        | some (_, clrd), some index =>
            (reclrLoop M colors base reclrd hypMap fuel n (i + 1) ((index + 1) % M.wordCount)
              (copy + 1)).map
                (⟨(reclrd.base + index * M.pageSize) % M.wordCount, some (paddr, clrd)⟩ :: ·)
        | _, _ => none

/-- What `mem_map_reclr` leaves: the pools, the pages it allocated, the pages it
freed, and the pages of the image in order. -/
structure Reclr (M : Machine) where
  pools : PoolState M
  reclrd : Ppages
  unused : Ppages
  pages : List ReclrPage

/-- `mem_map_reclr`, with the copies mapped in the hypervisor at `reclrdVaBase`.
With nothing to recolour it leaves the image to `mem_map`, which maps it in
place. -/
def memMapReclr (s : PoolState M) (fuel colors : Nat) (ppages : Ppages)
    (numPages reclrdVaBase : Nat) : Option (Reclr M) :=
  let reclrd := reclrdNum M colors ppages numPages
  if M.allClrs colors || reclrd == 0 then
    some
      { pools := s
        reclrd := noPpages
        unused := noPpages
        pages := (List.range numPages).map fun i => ⟨ppages.base + i * M.pageSize, none⟩ }
  else do
    let (s, reclrdPpages) ← s.memAllocPpages fuel colors reclrd false
    let hypMap ← memMapClr M reclrdPpages fuel reclrdPpages.numPages reclrdVaBase 0
    let pages ← reclrLoop M colors ppages.base reclrdPpages hypMap fuel numPages 0 0 0
    let unusedPages : Ppages :=
      { base := ppages.base, numPages := reclrd, colors := wordNot M colors }
    let s ← s.memFreePpages fuel unusedPages
    some { pools := s, reclrd := reclrdPpages, unused := unusedPages, pages := pages }

/-- The pages of an image that are not of the colours, by their index. -/
def replaced (M : Machine) (colors base numPages : Nat) : List Nat :=
  (List.range numPages).filter fun i => !onColor M base i colors

/-- **Recolouring is exact.**  As many pages are allocated as are replaced; a
page of the colours stays in place, any other is mapped to the copy that was made
of it, an allocated page of the colours which no other page is mapped to; and
the pages freed, in a pool that holds the image as well, are those replaced. -/
structure ReclrExact (M : Machine) (colors base numPages : Nat) (r : Reclr M) : Prop where
  counts : r.reclrd.numPages = (replaced M colors base numPages).length
  length : r.pages.length = numPages
  inPlace : ∀ i, i < numPages → onColor M base i colors = true →
    r.pages[i]? = some ⟨base + i * M.pageSize, none⟩
  copied : ∃ copy : Nat → Nat,
    (∀ i ∈ replaced M colors base numPages,
      r.pages[i]? = some ⟨copy i, some (base + i * M.pageSize, copy i)⟩ ∧
        r.reclrd.Page M (copy i) ∧ onColor M (copy i) 0 colors = true) ∧
    ∀ i ∈ replaced M colors base numPages, ∀ j ∈ replaced M colors base numPages,
      copy i = copy j → i = j
  frees : ∀ a, r.unused.Page M a ↔
    ∃ i ∈ replaced M colors base numPages, a = base + i * M.pageSize
  clears : ∀ (pool : PagePool M) (k : Nat), base = pool.pageAddr k →
    k + numPages ≤ pool.numPages → ∃ enough, ∀ fuel, enough ≤ fuel → ∀ m,
      pool.memFreePpages fuel r.unused m =
        some (fillAt m false pool.bitmap ((replaced M colors base numPages).map (k + ·)))

/-! ## Counting pages of other colours -/

/-- A count below a multiple, of numbers that are told apart by their quotient
only. -/
theorem count_mul_div (q : Nat → Prop) [DecidablePred q] {size : Nat} (hsize : 0 < size)
    (num : Nat) : Nat.count (fun x => q (x / size)) (num * size) = Nat.count q num * size := by
  induction num with
  | zero => simp
  | succ num ih =>
      have hblock : Nat.count (fun k => q ((num * size + k) / size)) size =
          if q num then size else 0 := by
        by_cases hq : q num
        · rw [if_pos hq]
          apply Nat.count_of_forall
          intro k hk
          rw [Nat.mul_comm, Nat.mul_add_div hsize, Nat.div_eq_of_lt hk, Nat.add_zero]
          exact hq
        · rw [if_neg hq]
          apply Nat.count_of_forall_not
          intro k hk
          rw [Nat.mul_comm, Nat.mul_add_div hsize, Nat.div_eq_of_lt hk, Nat.add_zero]
          exact hq
      rw [Nat.succ_mul, Nat.count_add, ih, hblock, Nat.count_succ, Nat.add_mul]
      by_cases hq : q num
      · rw [if_pos hq, if_pos hq, Nat.one_mul]
      · rw [if_neg hq, if_neg hq, Nat.zero_mul]

theorem count_shift (p : Nat → Prop) [DecidablePred p] {period : Nat}
    (hp : ∀ x, p (x + period) ↔ p x) (start : Nat) :
    Nat.count (fun k => p (start + k)) period = Nat.count p period := by
  induction start with
  | zero => simp
  | succ start ih =>
      have hfirst := Nat.count_succ' (fun k => p (start + k)) period
      have hlast := Nat.count_succ (fun k => p (start + k)) period
      have hnext : Nat.count (fun k => p (start + (k + 1))) period =
          Nat.count (fun k => p (start + 1 + k)) period := by
        congr 1
        funext k
        rw [Nat.add_assoc, Nat.add_comm 1]
      rw [hnext] at hfirst
      simp only [hp, Nat.add_zero] at hfirst hlast
      omega

theorem length_filter_range (p : Nat → Bool) (n : Nat) :
    ((List.range n).filter p).length = Nat.count (fun i => p i = true) n := by
  rw [← List.countP_eq_length_filter, Nat.count]
  simp

/-- The colour with index `c` is not one of the colours. -/
def Lacks (colors c : Nat) : Prop := colors.testBit c = false

instance (colors c : Nat) : Decidable (Lacks colors c) := inferInstanceAs (Decidable (_ = _))

/-- A page number that is not of the colours. -/
def OffColor (M : Machine) (colors x : Nat) : Prop := Lacks colors (x / M.colorSize % M.colorNum)

instance (colors x : Nat) : Decidable (OffColor M colors x) :=
  inferInstanceAs (Decidable (Lacks _ _))

/-- The place of a page in the period of the colour map. -/
def clrOffset (M : Machine) (base : Nat) : Nat := base / M.pageSize % (M.colorNum * M.colorSize)

theorem onColor_eq_false_iff {colors base i : Nat} (hi : i < M.pageCount) :
    onColor M base i colors = false ↔ OffColor M colors (clrOffset M base + i) := by
  have hoff := Nat.mod_lt (base / M.pageSize) M.colorPeriod_pos
  have hperiod := M.colorPeriod_le
  have hword := M.four_pageCount_le_wordCount
  unfold onColor OffColor Lacks clrOffset
  dsimp only
  generalize base / M.pageSize % (M.colorNum * M.colorSize) = offset at hoff ⊢
  have hlt : i + offset < M.wordCount := by
    omega
  rw [Nat.mod_eq_of_lt hlt, Nat.add_comm i]

theorem offColor_add_period (colors x : Nat) :
    OffColor M colors (x + M.colorNum * M.colorSize) ↔ OffColor M colors x := by
  unfold OffColor
  rw [Nat.add_mul_div_right _ _ M.colorSize_pos, Nat.add_mod_right]

theorem length_replaced {colors base n : Nat} (hn : n ≤ M.pageCount) :
    (replaced M colors base n).length =
      Nat.count (fun i => OffColor M colors (clrOffset M base + i)) n := by
  rw [replaced, length_filter_range]
  apply Nat.le_antisymm
  · apply Nat.count_mono_left
    intro i hi hoff
    apply (onColor_eq_false_iff (Nat.lt_of_lt_of_le hi hn)).mp
    simpa using hoff
  · apply Nat.count_mono_left
    intro i hi hoff
    simpa using (onColor_eq_false_iff (Nat.lt_of_lt_of_le hi hn)).mpr hoff

/-- The colours that are not in the map. -/
def offColors (M : Machine) (colors : Nat) : Nat := Nat.count (Lacks colors) M.colorNum

theorem count_period (colors : Nat) :
    Nat.count (OffColor M colors) (M.colorNum * M.colorSize) =
      offColors M colors * M.colorSize := by
  have hq : ∀ x, x < M.colorNum * M.colorSize →
      (OffColor M colors x ↔ Lacks colors (x / M.colorSize)) := by
    intro x hx
    unfold OffColor
    rw [Nat.mod_eq_of_lt (Nat.div_lt_of_lt_mul (by rwa [Nat.mul_comm] at hx))]
  rw [offColors, ← count_mul_div (Lacks colors) M.colorSize_pos]
  apply Nat.le_antisymm
  · exact Nat.count_mono_left fun x hx hoff => (hq x hx).mp hoff
  · exact Nat.count_mono_left fun x hx hoff => (hq x hx).mpr hoff

theorem count_add_period (colors offset n : Nat) :
    Nat.count (fun i => OffColor M colors (offset + i)) (n + M.colorNum * M.colorSize) =
      Nat.count (fun i => OffColor M colors (offset + i)) n + offColors M colors * M.colorSize := by
  have hshift : Nat.count (fun k => OffColor M colors (offset + (n + k)))
      (M.colorNum * M.colorSize) =
        Nat.count (fun k => OffColor M colors (offset + n + k)) (M.colorNum * M.colorSize) := by
    congr 1
    funext k
    rw [Nat.add_assoc]
  rw [Nat.count_add, hshift, count_shift _ (offColor_add_period colors), count_period]

theorem count_periods (colors offset q r : Nat) :
    Nat.count (fun i => OffColor M colors (offset + i)) (q * (M.colorNum * M.colorSize) + r) =
      q * (offColors M colors * M.colorSize) +
        Nat.count (fun i => OffColor M colors (offset + i)) r := by
  induction q with
  | zero => simp
  | succ q ih =>
      have hsum : (q + 1) * (M.colorNum * M.colorSize) + r =
          q * (M.colorNum * M.colorSize) + r + M.colorNum * M.colorSize := by
        rw [Nat.succ_mul]
        omega
      rw [hsum, count_add_period, ih, Nat.succ_mul]
      omega

theorem testBit_wordNot {x i : Nat} (hx : x < M.wordCount) (hi : i < M.wordBits) :
    (wordNot M x).testBit i = !x.testBit i := by
  rw [wordNot, Nat.testBit_two_pow_sub_succ hx, decide_eq_true hi, Bool.true_and]

/-- **The bits counted**: a zero for every colour that is not in the map, and
one for every bit of the word that stands for no colour. -/
theorem bitCount_complement (colors : Nat) (hbits : M.colorNum ≤ M.wordBits) :
    bitCount M (wordNot M (colors &&& (2 ^ M.colorNum - 1))) =
      offColors M colors + (M.wordBits - M.colorNum) := by
  have hmask : colors &&& (2 ^ M.colorNum - 1) < M.wordCount := by
    apply Nat.lt_of_le_of_lt Nat.and_le_right
    have hpow : 2 ^ M.colorNum ≤ M.wordCount := Nat.pow_le_pow_right (by decide) hbits
    have hpos : 0 < 2 ^ M.colorNum := Nat.two_pow_pos M.colorNum
    omega
  have hbit : ∀ i, i < M.wordBits →
      ((wordNot M (colors &&& (2 ^ M.colorNum - 1))).testBit i = true ↔
        (i < M.colorNum → Lacks colors i)) := by
    intro i hi
    rw [testBit_wordNot hmask hi, Nat.testBit_and, Nat.testBit_two_pow_sub_one, Lacks]
    by_cases hc : i < M.colorNum
    · simp [hc]
    · simp [hc]
  have hsum : M.wordBits = M.colorNum + (M.wordBits - M.colorNum) := by
    omega
  rw [bitCount, length_filter_range]
  conv_lhs => rw [hsum, Nat.count_add]
  congr 1
  · rw [offColors]
    apply Nat.le_antisymm
    · exact Nat.count_mono_left fun i hi hset => (hbit i (by omega)).mp hset hi
    · exact Nat.count_mono_left fun i hi hset => (hbit i (by omega)).mpr fun _ => hset
  · apply Nat.count_of_forall
    intro k hk
    exact (hbit _ (by omega)).mpr fun hlt => by omega

/-- **The count of the copies**: one too many for each page of each whole period
and each bit of the word without a colour. -/
theorem reclrdNum_eq {colors base n : Nat} (hn : n < M.pageCount)
    (hbits : M.colorNum ≤ M.wordBits) (hpage : M.wordBits ≤ M.pageSize) :
    reclrdNum M colors (memPpagesGet base n) n = (replaced M colors base n).length +
      n / (M.colorNum * M.colorSize) * (M.colorSize * (M.wordBits - M.colorNum)) := by
  have hpos := M.colorPeriod_pos
  have hsplit := Nat.div_add_mod' n (M.colorNum * M.colorSize)
  have hrestLt := Nat.mod_lt n hpos
  have hall := @length_replaced M colors base n (Nat.le_of_lt hn)
  have hrest := @length_replaced M colors base (n % (M.colorNum * M.colorSize))
    (Nat.le_trans (Nat.mod_le n (M.colorNum * M.colorSize)) (Nat.le_of_lt hn))
  rw [← hsplit, count_periods, ← hrest, hsplit] at hall
  have hle : (replaced M colors base (n % (M.colorNum * M.colorSize))).length ≤
      n % (M.colorNum * M.colorSize) := by
    have hfilter := List.length_filter_le (fun i => !onColor M base i colors)
      (List.range (n % (M.colorNum * M.colorSize)))
    rwa [List.length_range] at hfilter
  have hcount : reclrdNum M colors (memPpagesGet base n) n =
      (n / (M.colorNum * M.colorSize) * M.colorSize *
        (offColors M colors + (M.wordBits - M.colorNum)) +
          (replaced M colors base (n % (M.colorNum * M.colorSize))).length) % M.wordCount := by
    rw [← bitCount_complement colors hbits]
    rfl
  have hoff : offColors M colors ≤ M.colorNum := Nat.count_le _
  -- The sum is at most a word's bits for each page, and so a word.
  have hsum : offColors M colors + (M.wordBits - M.colorNum) ≤ M.wordBits := by
    omega
  have hbound : n / (M.colorNum * M.colorSize) * M.colorSize *
      (offColors M colors + (M.wordBits - M.colorNum)) +
        (replaced M colors base (n % (M.colorNum * M.colorSize))).length < M.wordCount := by
    have hone := M.colorNum_pos
    have hwide : M.colorSize ≤ M.colorNum * M.colorSize := Nat.le_mul_of_pos_left _ hone
    calc n / (M.colorNum * M.colorSize) * M.colorSize *
            (offColors M colors + (M.wordBits - M.colorNum)) +
              (replaced M colors base (n % (M.colorNum * M.colorSize))).length
        ≤ n / (M.colorNum * M.colorSize) * (M.colorNum * M.colorSize) * M.pageSize +
            n % (M.colorNum * M.colorSize) * M.pageSize := by
          apply Nat.add_le_add
          · exact Nat.mul_le_mul (Nat.mul_le_mul_left _ hwide) (Nat.le_trans hsum hpage)
          · exact Nat.le_trans hle (Nat.le_mul_of_pos_right _ M.pageSize_pos)
      _ = n * M.pageSize := by
          rw [← Nat.add_mul, hsplit]
      _ < M.wordCount := PagePool.bytes_lt hn
  rw [hcount, Nat.mod_eq_of_lt hbound, hall, Nat.mul_add, Nat.mul_assoc, Nat.mul_assoc,
    Nat.mul_comm M.colorSize (offColors M colors)]
  omega

/-! ## The other colours -/

theorem allClrs_eq_false_iff {colors : Nat} : M.allClrs colors = false ↔
    HasColor M colors ∧ ∃ c, c < M.colorNum ∧ Lacks colors c := by
  constructor
  · intro h
    refine ⟨exists_color h, ?_⟩
    apply Classical.byContradiction
    intro hnone
    simp only [Machine.allClrs, Bool.or_eq_false_iff, beq_eq_false_iff_ne] at h
    apply h.2
    apply Nat.eq_of_testBit_eq
    intro c
    rw [Nat.testBit_and, Nat.testBit_two_pow_sub_one]
    by_cases hc : c < M.colorNum
    · have hset : colors.testBit c = true := by
        apply eq_true_of_ne_false
        intro hlacks
        exact hnone ⟨c, hc, hlacks⟩
      rw [hset, decide_eq_true hc]
      rfl
    · rw [decide_eq_false hc, Bool.and_false]
  · intro h
    obtain ⟨⟨c, hc, hset⟩, d, hd, hlacks⟩ := h
    have hbit : ∀ i, i < M.colorNum →
        (colors &&& (2 ^ M.colorNum - 1)).testBit i = colors.testBit i := by
      intro i hi
      rw [Nat.testBit_and, Nat.testBit_two_pow_sub_one, decide_eq_true hi, Bool.and_true]
    simp only [Machine.allClrs, Bool.or_eq_false_iff, beq_eq_false_iff_ne]
    constructor
    · intro hzero
      have hnone := hbit c hc
      rw [hzero, Nat.zero_testBit, hset] at hnone
      cases hnone
    · intro hfull
      have hall := hbit d hd
      rw [hfull, Nat.testBit_two_pow_sub_one, decide_eq_true hd, hlacks] at hall
      cases hall

theorem allClrs_wordNot {colors : Nat} (hcolors : M.allClrs colors = false)
    (hword : colors < M.wordCount) (hbits : M.colorNum ≤ M.wordBits) :
    M.allClrs (wordNot M colors) = false := by
  obtain ⟨⟨c, hc, hset⟩, d, hd, hlacks⟩ := allClrs_eq_false_iff.mp hcolors
  apply allClrs_eq_false_iff.mpr
  refine ⟨⟨d, hd, ?_⟩, c, hc, ?_⟩
  · rw [testBit_wordNot hword (by omega), hlacks]
    rfl
  · rw [Lacks, testBit_wordNot hword (by omega), hset]
    rfl

theorem onColor_wordNot {colors : Nat} (hword : colors < M.wordCount)
    (hbits : M.colorNum ≤ M.wordBits) (base i : Nat) :
    onColor M base i (wordNot M colors) = !onColor M base i colors := by
  unfold onColor
  dsimp only
  have hlt := Nat.mod_lt ((i + base / M.pageSize % (M.colorNum * M.colorSize)) % M.wordCount /
    M.colorSize) M.colorNum_pos
  exact testBit_wordNot hword (by omega)

/-- **The pages of a colour map in an interval**, listed by `pp_next_clr`. -/
theorem clrPages_filter (base colors n : Nat) {a : Nat} (ha : a + n ≤ M.pageCount) :
    ∃ enough, ∀ fuel, enough ≤ fuel →
      clrPages M base colors fuel
        ((List.range' a n).filter fun i => onColor M base i colors).length a =
          some ((List.range' a n).filter fun i => onColor M base i colors) := by
  induction n generalizing a with
  | zero => exact ⟨0, fun _ _ => rfl⟩
  | succ n ih =>
      obtain ⟨enough, hrest⟩ := ih (show a + 1 + n ≤ M.pageCount by omega)
      rw [List.range'_succ]
      by_cases hon : onColor M base a colors = true
      · rw [List.filter_cons_of_pos (by exact hon)]
        refine ⟨enough + 1, fun fuel hfuel => ?_⟩
        rw [List.length_cons, clrPages, ppNextClr_self (by omega) hon]
        dsimp only
        rw [hrest fuel (by omega)]
        rfl
      · rw [List.filter_cons_of_neg (by exact hon)]
        refine ⟨enough + 1, fun fuel hfuel => ?_⟩
        obtain ⟨fuel, rfl⟩ := Nat.exists_eq_add_of_le' (show 1 ≤ fuel by omega)
        have hlist := hrest fuel (by omega)
        generalize (List.range' (a + 1) n).filter (fun i => onColor M base i colors) = l
          at hlist ⊢
        cases l with
        | nil => rfl
        | cons i rest =>
            rw [List.length_cons, clrPages] at hlist ⊢
            have hword := M.four_pageCount_le_wordCount
            have hstep : ppNextClr M base colors (fuel + 1) a =
                ppNextClr M base colors fuel (a + 1) := by
              rw [ppNextClr, if_neg hon, Nat.mod_eq_of_lt (by omega)]
            cases hnext : ppNextClr M base colors fuel (a + 1) with
            | none =>
                rw [hnext] at hlist
                cases hlist
            | some j =>
                rw [hnext] at hlist
                rw [hstep, hnext]
                dsimp only at hlist ⊢
                obtain ⟨rest', hrest', heq⟩ := Option.map_eq_some_iff.mp hlist
                rw [clrPages_mono (Nat.le_succ fuel) hrest', Option.map_some, heq]

theorem clrPages_replaced {colors n : Nat} (base : Nat) (hword : colors < M.wordCount)
    (hbits : M.colorNum ≤ M.wordBits) (hn : n ≤ M.pageCount) :
    ∃ fuel, clrPages M base (wordNot M colors) fuel (replaced M colors base n).length 0 =
      some (replaced M colors base n) := by
  obtain ⟨enough, hlist⟩ := clrPages_filter base (wordNot M colors) n
    (show 0 + n ≤ M.pageCount by omega)
  have hsame : (List.range' 0 n).filter (fun i => onColor M base i (wordNot M colors)) =
      replaced M colors base n := by
    rw [replaced, List.range_eq_range']
    congr 1
    funext i
    exact onColor_wordNot hword hbits base i
  have henough := hlist enough (Nat.le_refl _)
  rw [hsame] at henough
  exact ⟨enough, henough⟩

theorem mem_replaced {colors base n i : Nat} :
    i ∈ replaced M colors base n ↔ i < n ∧ onColor M base i colors = false := by
  rw [replaced, List.mem_filter, List.mem_range, Bool.not_eq_true']

/-! ## The loop -/

/-- The pages from page `i` on are in place or copies, at the addresses given in
order. -/
inductive Recoloured (M : Machine) (colors base : Nat) :
    Nat → Nat → List Nat → List ReclrPage → Prop
  | done {i : Nat} {addrs : List Nat} : Recoloured M colors base 0 i addrs []
  | inPlace {n i : Nat} {addrs : List Nat} {pages : List ReclrPage}
      (hon : onColor M base i colors = true)
      (hrest : Recoloured M colors base n (i + 1) addrs pages) :
      Recoloured M colors base (n + 1) i addrs (⟨base + i * M.pageSize, none⟩ :: pages)
  | copied {n i addr : Nat} {addrs : List Nat} {pages : List ReclrPage}
      (hoff : onColor M base i colors = false)
      (hrest : Recoloured M colors base n (i + 1) addrs pages) :
      Recoloured M colors base (n + 1) i (addr :: addrs)
        (⟨addr, some (base + i * M.pageSize, addr)⟩ :: pages)

/-- The address of page `r` of a range. -/
def clrAddr (M : Machine) (p : Ppages) (r : Nat) : Nat := (p.base + r * M.pageSize) % M.wordCount

/-- **The loop** copies to the pages that the hypervisor has mapped, in order. -/
theorem reclrLoop_recoloured {colors base fuel fuel' n i index copy : Nat} {p : Ppages}
    {hypMap : List (Nat × Nat)} {l : List Nat} {pages : List ReclrPage}
    (hl : clrPages M p.base colors fuel' l.length index = some l)
    (hin : ∀ r ∈ l, r < M.pageCount)
    (hmap : (hypMap.drop copy).map Prod.snd = l.map (clrAddr M p))
    (h : reclrLoop M colors base p hypMap fuel n i index copy = some pages) :
    Recoloured M colors base n i (l.map (clrAddr M p)) pages := by
  induction n generalizing i index copy l pages with
  | zero =>
      cases h
      exact .done
  | succ n ih =>
      rw [reclrLoop] at h
      by_cases hon : onColor M base i colors = true
      · rw [if_pos hon] at h
        obtain ⟨rest, hrest, rfl⟩ := Option.map_eq_some_iff.mp h
        exact .inPlace hon (ih hl hin hmap hrest)
      · rw [if_neg hon] at h
        split at h
        · rename_i va clrd r hentry hnext
          obtain ⟨rest, hrest, rfl⟩ := Option.map_eq_some_iff.mp h
          cases l with
          | nil =>
              have hnil : hypMap.drop copy = [] := List.map_eq_nil_iff.mp hmap
              have hlen := List.drop_eq_nil_iff.mp hnil
              rw [List.getElem?_eq_none hlen] at hentry
              cases hentry
          | cons r' l =>
              rw [List.length_cons, clrPages] at hl
              cases hnext' : ppNextClr M p.base colors fuel' index with
              | none =>
                  rw [hnext'] at hl
                  cases hl
              | some r'' =>
                  rw [hnext'] at hl
                  dsimp only at hl
                  obtain ⟨l', hl', hcons⟩ := Option.map_eq_some_iff.mp hl
                  obtain ⟨rfl, rfl⟩ := List.cons.inj hcons
                  have hsame : r = r'' := by
                    have h1 := ppNextClr_mono (Nat.le_max_left fuel fuel') hnext
                    have h2 := ppNextClr_mono (Nat.le_max_right fuel fuel') hnext'
                    rw [h1] at h2
                    exact Option.some.inj h2
                  subst hsame
                  obtain ⟨hr, hin⟩ := List.forall_mem_cons.mp hin
                  have hword := M.four_pageCount_le_wordCount
                  rw [Nat.mod_eq_of_lt (show r + 1 < M.wordCount by omega)] at hrest
                  obtain ⟨hlt, hget⟩ := List.getElem?_eq_some_iff.mp hentry
                  rw [List.drop_eq_getElem_cons hlt, List.map_cons, List.map_cons] at hmap
                  obtain ⟨hhead, htail⟩ := List.cons.inj hmap
                  rw [hget] at hhead
                  dsimp only at hhead
                  have hoff := eq_false_of_ne_true hon
                  rw [List.map_cons, hhead]
                  exact .copied hoff (ih hl' hin htail hrest)
        · cases h

theorem reclrLoop_runs {colors base fuel n i index copy : Nat} {p : Ppages}
    {hypMap : List (Nat × Nat)} {l : List Nat}
    (hl : clrPages M p.base colors fuel l.length index = some l)
    (hin : ∀ r ∈ l, r < M.pageCount) (hlen : copy + l.length ≤ hypMap.length)
    (hcount : ((List.range' i n).filter fun i => !onColor M base i colors).length ≤ l.length) :
    ∃ pages, reclrLoop M colors base p hypMap fuel n i index copy = some pages := by
  induction n generalizing i index copy l with
  | zero => exact ⟨[], rfl⟩
  | succ n ih =>
      rw [List.range'_succ] at hcount
      rw [reclrLoop]
      by_cases hon : onColor M base i colors = true
      · rw [List.filter_cons_of_neg (by simp [hon])] at hcount
        obtain ⟨rest, hrest⟩ := ih hl hin hlen hcount
        rw [if_pos hon, hrest]
        exact ⟨_, rfl⟩
      · rw [List.filter_cons_of_pos (by simp [hon]), List.length_cons] at hcount
        cases l with
        | nil =>
            rw [List.length_nil] at hcount
            omega
        | cons r l =>
            rw [List.length_cons] at hcount hlen
            rw [List.length_cons, clrPages] at hl
            cases hnext : ppNextClr M p.base colors fuel index with
            | none =>
                rw [hnext] at hl
                cases hl
            | some r' =>
                rw [hnext] at hl
                dsimp only at hl
                obtain ⟨l', hl', hcons⟩ := Option.map_eq_some_iff.mp hl
                obtain ⟨rfl, rfl⟩ := List.cons.inj hcons
                obtain ⟨hr, hin⟩ := List.forall_mem_cons.mp hin
                have hword := M.four_pageCount_le_wordCount
                obtain ⟨rest, hrest⟩ := @ih (i + 1) (r' + 1) (copy + 1) l' hl' hin (by omega)
                  (by omega)
                rw [if_neg hon, List.getElem?_eq_getElem (show copy < hypMap.length by omega)]
                dsimp only
                rw [Nat.mod_eq_of_lt (show r' + 1 < M.wordCount by omega), hrest]
                exact ⟨_, rfl⟩

theorem Recoloured.pages {colors base n i : Nat} {addrs : List Nat} {pages : List ReclrPage}
    (h : Recoloured M colors base n i addrs pages) (hnodup : addrs.Nodup) :
    pages.length = n ∧
    (∀ k, i ≤ k → k < i + n → onColor M base k colors = true →
      pages[k - i]? = some ⟨base + k * M.pageSize, none⟩) ∧
    ∃ copy : Nat → Nat,
      (∀ k, i ≤ k → k < i + n → onColor M base k colors = false → copy k ∈ addrs ∧
        pages[k - i]? = some ⟨copy k, some (base + k * M.pageSize, copy k)⟩) ∧
      ∀ k k', i ≤ k → k < k' → k' < i + n → onColor M base k colors = false →
        onColor M base k' colors = false → copy k ≠ copy k' := by
  induction h with
  | done =>
      refine ⟨rfl, fun k hlow hhigh _ => ?_, fun _ => 0, fun k hlow hhigh _ => ?_,
        fun k k' hlow hlt hhigh _ _ => ?_⟩
      · omega
      · omega
      · omega
  | @inPlace n i addrs pages hon _ ih =>
      obtain ⟨hlen, hplace, copy, hcopy, hown⟩ := ih hnodup
      have hnext : ∀ k, i ≤ k → onColor M base k colors = false → i + 1 ≤ k := by
        intro k hlow hoff
        rcases Nat.lt_or_eq_of_le hlow with hlt | heq
        · exact hlt
        · rw [← heq, hon] at hoff
          cases hoff
      refine ⟨by rw [List.length_cons, hlen], ?_, copy, ?_, ?_⟩
      · intro k hlow hhigh honk
        rcases Nat.lt_or_eq_of_le hlow with hlt | heq
        · rw [show k - i = k - (i + 1) + 1 by omega, List.getElem?_cons_succ]
          exact hplace k hlt (by omega) honk
        · rw [← heq, Nat.sub_self]
          rfl
      · intro k hlow hhigh hoff
        have hlt := hnext k hlow hoff
        rw [show k - i = k - (i + 1) + 1 by omega, List.getElem?_cons_succ]
        exact hcopy k hlt (by omega) hoff
      · intro k k' hlow hlt hhigh hoff hoff'
        exact hown k k' (hnext k hlow hoff) hlt (by omega) hoff hoff'
  | @copied n i addr addrs pages hoff _ ih =>
      obtain ⟨hnew, hnodup⟩ := List.nodup_cons.mp hnodup
      obtain ⟨hlen, hplace, copy, hcopy, hown⟩ := ih hnodup
      refine ⟨by rw [List.length_cons, hlen], ?_, Function.update copy i addr, ?_, ?_⟩
      · intro k hlow hhigh honk
        rcases Nat.lt_or_eq_of_le hlow with hlt | heq
        · rw [show k - i = k - (i + 1) + 1 by omega, List.getElem?_cons_succ]
          exact hplace k hlt (by omega) honk
        · rw [← heq, hoff] at honk
          cases honk
      · intro k hlow hhigh hoffk
        rcases Nat.lt_or_eq_of_le hlow with hlt | heq
        · obtain ⟨hmem, hpage⟩ := hcopy k hlt (by omega) hoffk
          rw [show k - i = k - (i + 1) + 1 by omega, List.getElem?_cons_succ,
            Function.update_of_ne (by omega)]
          exact ⟨List.mem_cons_of_mem _ hmem, hpage⟩
        · rw [← heq, Nat.sub_self, Function.update_self]
          exact ⟨List.mem_cons_self, rfl⟩
      · intro k k' hlow hlt hhigh hoffk hoffk'
        rw [Function.update_of_ne (show k' ≠ i by omega)]
        rcases Nat.lt_or_eq_of_le hlow with hlow | heq
        · rw [Function.update_of_ne (by omega)]
          exact hown k k' hlow hlt (by omega) hoffk hoffk'
        · rw [← heq, Function.update_self]
          intro hsame
          exact hnew (hsame ▸ (hcopy k' (by omega) (by omega) hoffk').1)

theorem Recoloured.of_nil {colors base n i : Nat} {pages : List ReclrPage}
    (h : Recoloured M colors base n i [] pages) {k : Nat} (hlow : i ≤ k) (hhigh : k < i + n) :
    onColor M base k colors = true := by
  obtain ⟨-, -, copy, hcopy, -⟩ := h.pages List.nodup_nil
  apply eq_true_of_ne_false
  intro hoff
  exact List.not_mem_nil (hcopy k hlow hhigh hoff).1

/-! ## The pages for the copies -/

/-- The pages of a coloured block, listed from its base. -/
structure CopyPages (M : Machine) (p : Ppages) (l : List Nat) : Prop where
  listed : ∃ fuel, clrPages M p.base p.colors fuel l.length 0 = some l
  length : l.length = p.numPages
  small : ∀ r ∈ l, r < M.pageCount
  fits : ∀ r ∈ l, p.base + r * M.pageSize < M.wordCount
  increasing : l.Pairwise (· < ·)
  colored : ∀ r ∈ l, onColor M (p.base + r * M.pageSize) 0 p.colors = true

theorem CopyPages.empty {p : Ppages} (hzero : p.numPages = 0) : CopyPages M p [] where
  listed := ⟨0, rfl⟩
  length := hzero.symm
  small := fun _ hr => absurd hr List.not_mem_nil
  fits := fun _ hr => absurd hr List.not_mem_nil
  increasing := List.Pairwise.nil
  colored := fun _ hr => absurd hr List.not_mem_nil

/-- What `pp_alloc_clr` takes. -/
theorem CopyPages.of_takes {m m' : Store} {pool pool' : PagePool M} {n colors : Nat}
    {out : Ppages} {l : List Nat} (hcolors : HasColor M colors)
    (h : pool.TakesClr m m' pool' n colors out l) :
    out.numPages = n ∧ out.colors = colors ∧ ∃ l', CopyPages M out l' := by
  have hblock := h.block hcolors
  obtain ⟨hpages, hlen, ⟨fuel, first, hl, hon, rfl⟩, -, -⟩ := h
  refine ⟨rfl, rfl, ?_⟩
  by_cases hzero : n = 0
  · exact ⟨[], .empty hzero⟩
  · have hlt := pool.numPages_lt
    have hword := M.four_pageCount_le_wordCount
    obtain ⟨first', hfirst, hbase, -⟩ := hblock.start hzero
    have hsame : first' = first := pageAddr_inj hbase.symm
    subst hsame
    have hin : ∀ k ∈ l, k < M.pageCount := by
      intro k hk
      exact Nat.lt_trans (hpages.free k hk).1 hlt
    obtain ⟨l', hl', rfl⟩ := clrPages_unshift hcolors (Nat.lt_trans hfirst hlt)
      (Nat.zero_le M.pageCount) hin hl
    rw [List.length_map] at hlen
    have hmem : ∀ r ∈ l', first' + r ∈ l'.map (first' + ·) := by
      intro r hr
      exact List.mem_map_of_mem hr
    have hsmall : ∀ r ∈ l', first' + r < M.pageCount := by
      intro r hr
      exact hin _ (hmem r hr)
    refine ⟨l', ⟨fuel, by rw [hlen]; exact hl'⟩, hlen, ?_, ?_, ?_, ?_⟩
    · intro r hr
      have hr := hsmall r hr
      omega
    · intro r hr
      dsimp only
      rw [← PagePool.pageAddr, PagePool.pageAddr_add]
      exact pool.pageAddr_lt (hpages.free _ (hmem r hr)).1
    · have hmap := List.pairwise_map.mp hpages.increasing
      exact hmap.imp fun hlt => by omega
    · intro r hr
      have hcolor := hpages.colored _ (hmem r hr)
      have hr := hsmall r hr
      dsimp only
      rw [onColor_shift (by omega), Nat.add_zero, onColor_shift (by omega)]
      exact hcolor

/-- **A coloured allocation** grants nothing, or as many pages of the colours as
were asked for. -/
theorem memAllocPpages_copyPages {s s' : PoolState M} {fuel colors n : Nat} {out : Ppages}
    (hcolors : M.allClrs colors = false)
    (h : s.memAllocPpages fuel colors n false = some (s', out)) :
    out.numPages = 0 ∨
      (out.numPages = n ∧ out.colors = colors ∧ ∃ l, CopyPages M out l) := by
  have hloop : ∀ (pools : List (PagePool M)) (i : Nat) (t : PoolState M) (pages : Ppages),
      pages.numPages = 0 →
      PoolState.allocFrom fuel colors n false pools i t pages = some (s', out) →
      out.numPages = 0 ∨ (out.numPages = n ∧ out.colors = colors ∧ ∃ l, CopyPages M out l) := by
    intro pools
    induction pools with
    | nil =>
        intro i t pages hzero hrun
        cases hrun
        exact .inl hzero
    | cons pool pools ih =>
        intro i t pages hzero hrun
        rw [PoolState.allocFrom, if_pos (by rw [hcolors]; rfl)] at hrun
        cases halloc : pool.ppAllocClr t.bits n colors fuel pages with
        | none =>
            rw [halloc] at hrun
            cases hrun
        | some r =>
            obtain ⟨ok, pages', m, pool'⟩ := r
            rw [halloc] at hrun
            rcases PagePool.ppAllocClr_cases halloc with ⟨rfl, l, htakes⟩ | ⟨rfl, hnone, -, -⟩
            · cases hrun
              exact .inr (CopyPages.of_takes (exists_color hcolors) htakes)
            · exact ih (i + 1) _ pages' hnone hrun
  exact hloop s.pools 0 s noPpages rfl h

theorem memMapClr_mono {p : Ppages} {fuel fuel' n va index : Nat} {l : List (Nat × Nat)}
    (hle : fuel ≤ fuel') (h : memMapClr M p fuel n va index = some l) :
    memMapClr M p fuel' n va index = some l := by
  induction n generalizing va index l with
  | zero => exact h
  | succ n ih =>
      rw [memMapClr] at h ⊢
      cases hnext : ppNextClr M p.base p.colors fuel index with
      | none =>
          rw [hnext] at h
          cases h
      | some i =>
          rw [hnext] at h
          rw [ppNextClr_mono hle hnext]
          dsimp only at h ⊢
          obtain ⟨rest, hrest, rfl⟩ := Option.map_eq_some_iff.mp h
          rw [ih hrest, Option.map_some]

theorem CopyPages.hypMap {p : Ppages} {l : List Nat} {va fuel : Nat} {hypMap : List (Nat × Nat)}
    (h : CopyPages M p l) (hva : va < M.wordCount)
    (hrun : memMapClr M p fuel p.numPages va 0 = some hypMap) :
    hypMap.map Prod.snd = l.map (clrAddr M p) := by
  obtain ⟨fuel', hl⟩ := h.listed
  rw [h.length] at hl
  have hmap := memMapClr_eq hl h.small hva
  have h1 := memMapClr_mono (Nat.le_max_left fuel fuel') hrun
  have h2 := memMapClr_mono (Nat.le_max_right fuel fuel') hmap
  rw [h1] at h2
  rw [Option.some.inj h2]
  apply List.ext_getElem?
  intro i
  rw [List.getElem?_map, List.getElem?_mapIdx, List.getElem?_map, Option.map_map]
  rfl

theorem CopyPages.clrAddr_eq {p : Ppages} {l : List Nat} (h : CopyPages M p l) {r : Nat}
    (hr : r ∈ l) : clrAddr M p r = p.base + r * M.pageSize := Nat.mod_eq_of_lt (h.fits r hr)

theorem CopyPages.nodup {p : Ppages} {l : List Nat} (h : CopyPages M p l) :
    (l.map (clrAddr M p)).Nodup := by
  apply List.Nodup.map_on
  · intro r hr r' hr' heq
    rw [h.clrAddr_eq hr, h.clrAddr_eq hr'] at heq
    exact Nat.eq_of_mul_eq_mul_right M.pageSize_pos (Nat.add_left_cancel heq)
  · exact h.increasing.imp Nat.ne_of_lt

theorem CopyPages.page {p : Ppages} {l : List Nat} (h : CopyPages M p l)
    (hcolors : M.allClrs p.colors = false) {a : Nat} (ha : a ∈ l.map (clrAddr M p)) :
    p.Page M a ∧ onColor M a 0 p.colors = true := by
  obtain ⟨r, hr, rfl⟩ := List.mem_map.mp ha
  obtain ⟨fuel, hl⟩ := h.listed
  rw [h.length] at hl
  rw [h.clrAddr_eq hr]
  constructor
  · unfold Ppages.Page
    rw [if_neg (by rw [hcolors]; exact Bool.false_ne_true)]
    exact ⟨fuel, l, r, hl, hr, rfl⟩
  · exact h.colored r hr

/-! ## The pages that are freed -/

/-- The pages given to `mem_free_ppages`, if the count is right. -/
theorem unused_page_iff {colors base n : Nat} (hcolors : M.allClrs colors = false)
    (hword : colors < M.wordCount) (hbits : M.colorNum ≤ M.wordBits) (hn : n ≤ M.pageCount)
    (a : Nat) :
    Ppages.Page M ⟨base, (replaced M colors base n).length, wordNot M colors⟩ a ↔
      ∃ i ∈ replaced M colors base n, a = base + i * M.pageSize := by
  obtain ⟨fuel, hl⟩ := clrPages_replaced base hword hbits hn
  apply page_colored_iff (allClrs_wordNot hcolors hword hbits) M.pageCount_pos
  · simp
  · intro i hi
    exact Nat.lt_of_lt_of_le (mem_replaced.mp hi).1 hn
  · exact hl

theorem unused_clears {colors base n k : Nat} {pool : PagePool M}
    (hcolors : M.allClrs colors = false) (hword : colors < M.wordCount)
    (hbits : M.colorNum ≤ M.wordBits) (hn : n ≤ M.pageCount) (hbase : base = pool.pageAddr k)
    (hk : k + n ≤ pool.numPages) :
    ∃ enough, ∀ fuel, enough ≤ fuel → ∀ m, pool.memFreePpages fuel
        ⟨base, (replaced M colors base n).length, wordNot M colors⟩ m =
      some (fillAt m false pool.bitmap ((replaced M colors base n).map (k + ·))) := by
  obtain ⟨fuel, hl⟩ := clrPages_replaced base hword hbits hn
  have hother := exists_color (allClrs_wordNot hcolors hword hbits)
  have hlt := pool.numPages_lt
  have hblock : pool.Block ⟨base, (replaced M colors base n).length, wordNot M colors⟩
      ((replaced M colors base n).map (k + ·)) := by
    refine ⟨?_, by rw [List.length_map], hother, ?_⟩
    · intro j hj
      obtain ⟨i, hi, rfl⟩ := List.mem_map.mp hj
      have hin := (mem_replaced.mp hi).1
      omega
    · intro hne
      have hpos : 0 < n := by
        apply Nat.pos_of_ne_zero
        intro hzero
        apply hne
        rw [hzero]
        rfl
      refine ⟨k, by omega, hbase, fuel, ?_⟩
      have hshift : clrPages M pool.base (wordNot M colors) fuel
          (replaced M colors base n).length (k + 0) =
            some ((replaced M colors base n).map (k + ·)) := by
        apply clrPages_shift hother (by omega) (Nat.zero_le _)
        · intro i hi
          exact Nat.lt_of_lt_of_le (mem_replaced.mp hi).1 hn
        · rw [← PagePool.pageAddr, ← hbase]
          exact hl
      exact hshift
  exact hblock.freed ⟨rfl, rfl, rfl⟩

/-! ## The whole function -/

theorem freed_ends {p : Ppages} (pool : PagePool M) (hcolors : M.allClrs p.colors = false) :
    ∃ enough, ∀ fuel, enough ≤ fuel → ∀ m, ∃ m', pool.memFreePpages fuel p m = some m' := by
  obtain ⟨enough, l, hl⟩ := clrPages_total (exists_color hcolors) pool.base p.numPages
    ((p.base - pool.base) / M.pageSize)
  refine ⟨enough, fun fuel hfuel m => ?_⟩
  unfold PagePool.memFreePpages
  by_cases hin : M.inRange p.base pool.base (pool.numPages * M.pageSize) = true
  · rw [if_pos hin]
    dsimp only
    rw [if_neg (by rw [hcolors]; exact Bool.false_ne_true)]
    exact ⟨_, PagePool.freeClr_of_pages (clrPages_mono hfuel hl) m⟩
  · rw [if_neg hin]
    exact ⟨m, rfl⟩

theorem memFreePpages_ends (s : PoolState M) {p : Ppages} (hcolors : M.allClrs p.colors = false) :
    ∃ enough, ∀ fuel, enough ≤ fuel → ∃ s', s.memFreePpages fuel p = some s' := by
  have hloop : ∀ pools : List (PagePool M), ∃ enough, ∀ fuel, enough ≤ fuel → ∀ m, ∃ m',
      pools.foldl (fun m pool => m.bind (pool.memFreePpages fuel p)) (some m) = some m' := by
    intro pools
    induction pools with
    | nil => exact ⟨0, fun _ _ m => ⟨m, rfl⟩⟩
    | cons pool rest ih =>
        obtain ⟨enough, hpool⟩ := freed_ends pool hcolors
        obtain ⟨enough', hrest⟩ := ih
        refine ⟨max enough enough', fun fuel hfuel m => ?_⟩
        obtain ⟨m', hm'⟩ := hpool fuel (Nat.le_trans (Nat.le_max_left _ _) hfuel) m
        rw [List.foldl_cons, Option.bind_some, hm']
        exact hrest fuel (Nat.le_trans (Nat.le_max_right _ _) hfuel) m'
  obtain ⟨enough, hfold⟩ := hloop s.pools
  refine ⟨enough, fun fuel hfuel => ?_⟩
  obtain ⟨m', hm'⟩ := hfold fuel hfuel s.bits
  refine ⟨{ s with bits := m' }, ?_⟩
  rw [PoolState.memFreePpages, hm']
  rfl

theorem reclrdNum_eq_iff {colors base n : Nat} (hn : n < M.pageCount)
    (hbits : M.colorNum ≤ M.wordBits) (hpage : M.wordBits ≤ M.pageSize) :
    reclrdNum M colors (memPpagesGet base n) n = (replaced M colors base n).length ↔
      n < M.colorNum * M.colorSize ∨ M.colorNum = M.wordBits := by
  have hpos := M.colorPeriod_pos
  have hsize := M.colorSize_pos
  rw [reclrdNum_eq hn hbits hpage, Nat.add_eq_left, Nat.mul_eq_zero, Nat.mul_eq_zero,
    Nat.div_eq_zero_iff]
  omega

theorem lt_period_of_replaced {colors base n : Nat} (hcolors : M.allClrs colors = false)
    (hn : n < M.pageCount) (hnone : (replaced M colors base n).length = 0) :
    n < M.colorNum * M.colorSize := by
  have hpos := M.colorPeriod_pos
  obtain ⟨-, c, hc, hlacks⟩ := allClrs_eq_false_iff.mp hcolors
  have hoff : 0 < offColors M colors := by
    have hstep := Nat.count_succ (Lacks colors) c
    rw [if_pos hlacks] at hstep
    have hmono : Nat.count (Lacks colors) (c + 1) ≤ offColors M colors :=
      Nat.count_monotone _ hc
    omega
  have hcount := @length_replaced M colors base n (Nat.le_of_lt hn)
  rw [← Nat.div_add_mod' n (M.colorNum * M.colorSize), count_periods,
    Nat.div_add_mod' n (M.colorNum * M.colorSize), hnone] at hcount
  have hwhole : n / (M.colorNum * M.colorSize) * (offColors M colors * M.colorSize) = 0 := by
    omega
  rcases Nat.mul_eq_zero.mp hwhole with hzero | hzero
  · exact (Nat.div_eq_zero_iff.mp hzero).resolve_left (by omega)
  · exact absurd hzero (Nat.mul_ne_zero (by omega) (Nat.ne_of_gt M.colorSize_pos))

theorem reclrExact_inPlace {s : PoolState M} {colors base n : Nat}
    (hnone : (replaced M colors base n).length = 0) :
    ReclrExact M colors base n
      { pools := s
        reclrd := noPpages
        unused := noPpages
        pages := (List.range n).map fun i => ⟨base + i * M.pageSize, none⟩ } := by
  have hnil : replaced M colors base n = [] := List.eq_nil_of_length_eq_zero hnone
  refine ⟨hnone.symm, ?_, ?_, ⟨fun _ => 0, ?_, ?_⟩, ?_, ?_⟩
  · simp
  · intro i hi hon
    rw [List.getElem?_map, List.getElem?_range hi]
    rfl
  · intro i hi
    rw [hnil] at hi
    cases hi
  · intro i hi
    rw [hnil] at hi
    cases hi
  · intro a
    rw [hnil]
    constructor
    · intro hpage
      exact absurd hpage (not_page_of_empty rfl)
    · intro hpage
      obtain ⟨i, hi, -⟩ := hpage
      cases hi
  · intro pool k hbase hk
    refine ⟨0, fun fuel hfuel m => ?_⟩
    rw [hnil, PagePool.memFreePpages]
    simp only [noPpages, PagePool.freeClr, bitmapClearConsecutive, ite_self, fillAt, List.map_nil]

/-- **Recolouring with the right count** is exact. -/
theorem reclrExact_of_count {s : PoolState M} {colors base n fuel : Nat} {p : Ppages}
    {l : List Nat} {hypMap : List (Nat × Nat)} {pages : List ReclrPage} {va : Nat}
    (hcolors : M.allClrs colors = false) (hword : colors < M.wordCount)
    (hbits : M.colorNum ≤ M.wordBits) (hn : n < M.pageCount) (hva : va < M.wordCount)
    (hcount : p.numPages = (replaced M colors base n).length) (hclr : p.colors = colors)
    (hl : CopyPages M p l) (hmap : memMapClr M p fuel p.numPages va 0 = some hypMap)
    (hloop : reclrLoop M colors base p hypMap fuel n 0 0 0 = some pages) :
    ReclrExact M colors base n
      { pools := s
        reclrd := p
        unused := ⟨base, p.numPages, wordNot M colors⟩
        pages := pages } := by
  subst hclr
  obtain ⟨fuel', hlisted⟩ := hl.listed
  have hrun := reclrLoop_recoloured hlisted hl.small (hl.hypMap hva hmap) hloop
  obtain ⟨hlen, hplace, copy, hcopy, hown⟩ := hrun.pages hl.nodup
  have hin : ∀ i ∈ replaced M p.colors base n, i < 0 + n ∧ onColor M base i p.colors = false := by
    intro i hi
    rw [Nat.zero_add]
    exact mem_replaced.mp hi
  refine ⟨hcount, hlen, ?_, ⟨copy, ?_, ?_⟩, ?_, ?_⟩
  · intro i hi hon
    exact hplace i (Nat.zero_le i) (by omega) hon
  · intro i hi
    obtain ⟨hlt, hoff⟩ := hin i hi
    obtain ⟨hmem, hpage⟩ := hcopy i (Nat.zero_le i) hlt hoff
    exact ⟨hpage, hl.page hcolors hmem⟩
  · intro i hi j hj hsame
    obtain ⟨hlti, hoffi⟩ := hin i hi
    obtain ⟨hltj, hoffj⟩ := hin j hj
    rcases Nat.lt_trichotomy i j with hlt | heq | hgt
    · exact absurd hsame (hown i j (Nat.zero_le i) hlt hltj hoffi hoffj)
    · exact heq
    · exact absurd hsame.symm (hown j i (Nat.zero_le j) hgt hlti hoffj hoffi)
  · intro a
    dsimp only
    rw [hcount]
    exact unused_page_iff hcolors hword hbits (Nat.le_of_lt hn) a
  · intro pool k hbase hk
    dsimp only
    rw [hcount]
    exact unused_clears hcolors hword hbits (Nat.le_of_lt hn) hbase hk

/-- The pool of sixteen pages with an image in the last seven. -/
def sixteenWithImage : PoolState fourColors where
  bits := fun b => decide (9 ≤ b)
  lastIndex := 2
  pools := [sixteenPages]

/-- A pool of 264 pages with an image in the last eight. -/
def largePool : PagePool fourColors where
  base := 8 * 4096
  numPages := 264
  free := 256
  last := 0
  bitmap := 0
  aligned := by decide
  numPages_lt := by decide
  fits := by decide

def largeWithImage : PoolState fourColors where
  bits := fun b => decide (256 ≤ b)
  lastIndex := 9
  pools := [largePool]

end Bao

import BaoHypervisor.PageAlloc

/-!
# Mapping a VM image in place

`vm_map_img_rgn_inplace` maps a memory region of a VM in three calls: the pages
below the image, the image, and the pages above it.  Each count is rounded up to
whole pages, and the third call starts at the rounded end of the image.  If the
size of the image is not a multiple of the page size, then both the image and
what is above it count the page in which the image ends, so the third call goes
one page past the region.
-/

namespace Bao

variable {M : Machine}

/-- The image of `struct vm_config`. -/
structure VmConfigImg where
  baseAddr : Nat
  loadAddr : Nat
  size : Nat
deriving DecidableEq

/-- The range of `struct vm_mem_region`; the other fields are for regions that
are placed. -/
structure VmRegionRange where
  base : Nat
  size : Nat
deriving DecidableEq

/-- A call that maps pages of the VM: `mem_alloc_map` at a fixed address, over
given or over fresh physical pages, and `mem_map_reclr`. -/
inductive MapCall
  | allocMap (page : Option Ppages) (at_ numPages : Nat)
  | mapReclr (va : Nat) (ppages : Ppages) (numPages : Nat)
deriving DecidableEq

/-- `vm_map_img_rgn_inplace` for a VM with the colours `colors`: the calls it
makes.  A difference of addresses is one of words. -/
def vmMapImgRgnInplace (M : Machine) (colors : Nat) (image : VmConfigImg) (reg : VmRegionRange) :
    List MapCall :=
  let sub := fun a b => (a + M.wordCount - b) % M.wordCount
  let imgBase := image.baseAddr
  let imgSize := image.size
  let nBefore := M.numPages (sub imgBase reg.base)
  let nAft := M.numPages
    (sub ((reg.base + reg.size) % M.wordCount) ((imgBase + imgSize) % M.wordCount))
  let nImg := M.numPages imgSize
  let paImg := memPpagesGet image.loadAddr nImg
  [.allocMap none reg.base nBefore,
    if M.allClrs colors then .allocMap (some paImg) imgBase nImg else .mapReclr imgBase paImg nImg,
    .allocMap none ((imgBase + M.numPages imgSize * M.pageSize) % M.wordCount) nAft]

/-- What a page of the VM is mapped to: a page from the pool, or the page of the
image at a physical address, in place or recoloured. -/
inductive Backing
  | fresh
  | image (pa : Nat)
deriving DecidableEq

/-- The address a call maps from. -/
def MapCall.va : MapCall → Nat
  | .allocMap _ at_ _ => at_
  | .mapReclr va _ _ => va

/-- The number of pages that a call maps. -/
def MapCall.numPages : MapCall → Nat
  | .allocMap _ _ n => n
  | .mapReclr _ _ n => n

/-- The physical pages that a call is given. -/
def MapCall.given : MapCall → Option Ppages
  | .allocMap page _ _ => page
  | .mapReclr _ ppages _ => some ppages

/-- What a call maps page `p` of the VM to, if it maps it. -/
def MapCall.backing (M : Machine) (c : MapCall) (p : Nat) : Option Backing :=
  if c.va / M.pageSize ≤ p ∧ p < c.va / M.pageSize + c.numPages then
    match c.given with
    | none => some .fresh
    | some pa => some (.image (pa.base + (p - c.va / M.pageSize) * M.pageSize))
  else none

/-- The region and the image start at pages, the region is of whole pages inside
the address space, and the image is inside the region. -/
structure ImgInRgn (M : Machine) (image : VmConfigImg) (reg : VmRegionRange) : Prop where
  regBase : M.pageSize ∣ reg.base
  regSize : M.pageSize ∣ reg.size
  word : reg.size < M.wordCount
  fits : reg.base + reg.size ≤ M.wordCount
  imgBase : M.pageSize ∣ image.baseAddr
  above : reg.base ≤ image.baseAddr
  below : image.baseAddr + image.size ≤ reg.base + reg.size

/-- The pages of the VM that the bytes of the image are in. -/
def InImage (M : Machine) (image : VmConfigImg) (p : Nat) : Prop :=
  image.baseAddr ≤ p * M.pageSize ∧ p * M.pageSize < image.baseAddr + image.size

/-- The pages of the VM in the region. -/
def InRegion (M : Machine) (reg : VmRegionRange) (p : Nat) : Prop :=
  reg.base ≤ p * M.pageSize ∧ p * M.pageSize < reg.base + reg.size

/-- **Every page of the region is mapped once**, those of the image to its
physical pages, and no other page is mapped. -/
def MapsOnce (M : Machine) (calls : List MapCall) (image : VmConfigImg) (reg : VmRegionRange) :
    Prop :=
  ∀ p, (InImage M image p → calls.filterMap (fun c => c.backing M p) =
      [.image (image.loadAddr + (p * M.pageSize - image.baseAddr))]) ∧
    (InRegion M reg p → ¬ InImage M image p →
      calls.filterMap (fun c => c.backing M p) = [.fresh]) ∧
    (¬ InRegion M reg p → calls.filterMap (fun c => c.backing M p) = [])

/-! ## The page counts -/

/-- `NUM_PAGES` is the number of pages that the bytes need. -/
theorem numPages_of_between {size k : Nat} (hlow : size ≤ k * M.pageSize)
    (hhigh : k * M.pageSize < size + M.pageSize) (hk : k < M.pageCount) :
    M.numPages size = k := by
  have hpos := M.pageSize_pos
  have hfit : (k + 1) * M.pageSize ≤ M.wordCount := by
    rw [M.wordCount_eq]
    exact Nat.mul_le_mul_right _ hk
  rw [Nat.succ_mul] at hfit
  rw [M.numPages_eq (by omega)]
  apply Nat.div_eq_of_lt_le
  · omega
  · rw [Nat.succ_mul]
    omega

theorem word_sub {a b : Nat} (hle : b ≤ a) (ha : a ≤ M.wordCount) (hlt : a - b < M.wordCount) :
    (a % M.wordCount + M.wordCount - b % M.wordCount) % M.wordCount = a - b := by
  have hpos : 0 < M.wordCount := Nat.two_pow_pos _
  by_cases hb : b = M.wordCount
  · have hab : a = b := by omega
    rw [hab, hb, Nat.mod_self, Nat.zero_add, Nat.sub_zero, Nat.mod_self, Nat.sub_self]
  · rw [Nat.mod_eq_of_lt (show b < M.wordCount by omega)]
    by_cases hwrap : a = M.wordCount
    · rw [hwrap, Nat.mod_self, Nat.zero_add]
      apply Nat.mod_eq_of_lt
      omega
    · rw [Nat.mod_eq_of_lt (show a < M.wordCount by omega)]
      have hsum : a + M.wordCount - b = a - b + M.wordCount := by
        omega
      rw [hsum, Nat.add_mod_right, Nat.mod_eq_of_lt hlt]

/-- A region and an image in pages: the image has `q` pages and `r` bytes, and
`above` pages follow the `q` pages in the region. -/
structure ImagePages (M : Machine) (image : VmConfigImg) (reg : VmRegionRange)
    (first imgFirst q r above : Nat) : Prop where
  regBase : reg.base = first * M.pageSize
  imgBase : image.baseAddr = imgFirst * M.pageSize
  imgSize : image.size = q * M.pageSize + r
  rest : r < M.pageSize
  le : first ≤ imgFirst
  regEnd : reg.base + reg.size = (imgFirst + q + above) * M.pageSize
  ends : imgFirst + q + above ≤ M.pageCount
  small : imgFirst + q + above < first + M.pageCount
  room : r ≠ 0 → 0 < above

theorem ImgInRgn.pages {image : VmConfigImg} {reg : VmRegionRange}
    (h : ImgInRgn M image reg) :
    ∃ first imgFirst q r above, ImagePages M image reg first imgFirst q r above := by
  have hpos := M.pageSize_pos
  obtain ⟨first, hfirst⟩ := h.regBase
  obtain ⟨num, hnum⟩ := h.regSize
  obtain ⟨imgFirst, himg⟩ := h.imgBase
  rw [Nat.mul_comm] at hfirst hnum himg
  have hsize := (Nat.div_add_mod' image.size M.pageSize).symm
  have hrest := Nat.mod_lt image.size hpos
  have habove := h.above
  have hbelow := h.below
  have hword := h.word
  have hfits := h.fits
  rw [hfirst, hnum, ← Nat.add_mul] at hbelow hfits
  rw [hfirst, himg] at habove
  rw [himg, hsize, ← Nat.add_assoc, ← Nat.add_mul] at hbelow
  rw [hnum, M.wordCount_eq] at hword
  rw [M.wordCount_eq] at hfits
  have hle := Nat.le_of_mul_le_mul_right habove hpos
  have hnumLt := Nat.lt_of_mul_lt_mul_right hword
  have hends := Nat.le_of_mul_le_mul_right hfits hpos
  have hin : imgFirst + image.size / M.pageSize ≤ first + num := by
    apply Nat.le_of_mul_le_mul_right _ hpos
    omega
  obtain ⟨above, hrem⟩ := Nat.exists_eq_add_of_le hin
  refine ⟨first, imgFirst, image.size / M.pageSize, image.size % M.pageSize, above, hfirst, himg,
    hsize, hrest, hle, ?_, by omega, by omega, ?_⟩
  · rw [hfirst, hnum, ← Nat.add_mul, hrem]
  · intro hne
    apply Nat.pos_of_ne_zero
    intro hzero
    rw [hrem, hzero, Nat.add_zero] at hbelow
    omega

namespace ImagePages

variable {image : VmConfigImg} {reg : VmRegionRange} {first imgFirst q r above colors : Nat}

/-- The pages of the image, the last of them perhaps in part. -/
def imgPages (q r : Nat) : Nat := if r = 0 then q else q + 1

/-- **The three calls**, in pages. -/
theorem calls (h : ImagePages M image reg first imgFirst q r above) (colors : Nat) :
    ∃ imgCall : MapCall, imgCall.va = imgFirst * M.pageSize ∧
      imgCall.numPages = imgPages q r ∧
      imgCall.given = some (memPpagesGet image.loadAddr (imgPages q r)) ∧
      vmMapImgRgnInplace M colors image reg =
        [.allocMap none (first * M.pageSize) (imgFirst - first), imgCall,
          .allocMap none ((imgFirst + imgPages q r) % M.pageCount * M.pageSize) above] := by
  have hpos := M.pageSize_pos
  have hends := h.ends
  have hle := h.le
  have hsmall := h.small
  have hroom := h.room
  have hrest := h.rest
  have hendWord : (imgFirst + q + above) * M.pageSize ≤ M.wordCount := by
    rw [M.wordCount_eq]
    exact Nat.mul_le_mul_right _ hends
  have hpart : r ≤ above * M.pageSize := by
    by_cases hzero : r = 0
    · omega
    · have hone : 1 * M.pageSize ≤ above * M.pageSize := Nat.mul_le_mul_right _ (hroom hzero)
      omega
  have hsplit : (imgFirst + q + above) * M.pageSize =
      imgFirst * M.pageSize + q * M.pageSize + above * M.pageSize := by
    rw [Nat.add_mul, Nat.add_mul]
  have habove : above * M.pageSize < M.wordCount := by
    rw [M.wordCount_eq]
    exact Nat.mul_lt_mul_of_pos_right (by omega) hpos
  have hbelow : imgFirst * M.pageSize - first * M.pageSize = (imgFirst - first) * M.pageSize :=
    (Nat.sub_mul _ _ _).symm
  have hbelowLt : (imgFirst - first) * M.pageSize < M.wordCount := by
    rw [M.wordCount_eq]
    exact Nat.mul_lt_mul_of_pos_right (by omega) hpos
  have hbases : first * M.pageSize ≤ imgFirst * M.pageSize := Nat.mul_le_mul_right _ hle
  have hbefore : M.numPages ((image.baseAddr + M.wordCount - reg.base) % M.wordCount) =
      imgFirst - first := by
    have hsum : imgFirst * M.pageSize + M.wordCount - first * M.pageSize =
        (imgFirst - first) * M.pageSize + M.wordCount := by
      omega
    rw [h.imgBase, h.regBase, hsum, Nat.add_mod_right, Nat.mod_eq_of_lt hbelowLt]
    exact M.numPages_mul hbelowLt
  have himg : M.numPages image.size = imgPages q r := by
    rw [h.imgSize, imgPages]
    by_cases hzero : r = 0
    · rw [if_pos hzero]
      exact numPages_of_between (by omega) (by omega) (by omega)
    · rw [if_neg hzero]
      have hone := hroom hzero
      apply numPages_of_between
      · rw [Nat.succ_mul]
        omega
      · rw [Nat.succ_mul]
        omega
      · omega
  have haft : M.numPages (((reg.base + reg.size) % M.wordCount + M.wordCount -
      (image.baseAddr + image.size) % M.wordCount) % M.wordCount) = above := by
    have hdiff : (imgFirst + q + above) * M.pageSize -
        (imgFirst * M.pageSize + (q * M.pageSize + r)) = above * M.pageSize - r := by
      omega
    rw [h.regEnd, h.imgBase, h.imgSize, word_sub (by omega) hendWord (by omega), hdiff]
    exact numPages_of_between (by omega) (by omega) (by omega)
  have hthird : (image.baseAddr + imgPages q r * M.pageSize) % M.wordCount =
      (imgFirst + imgPages q r) % M.pageCount * M.pageSize := by
    rw [h.imgBase, ← Nat.add_mul, M.wordCount_eq, Nat.mul_mod_mul_right]
  have hcalls : vmMapImgRgnInplace M colors image reg =
      [.allocMap none (first * M.pageSize) (imgFirst - first),
        if M.allClrs colors then
          .allocMap (some (memPpagesGet image.loadAddr (imgPages q r))) (imgFirst * M.pageSize)
            (imgPages q r)
        else .mapReclr (imgFirst * M.pageSize) (memPpagesGet image.loadAddr (imgPages q r))
          (imgPages q r),
        .allocMap none ((imgFirst + imgPages q r) % M.pageCount * M.pageSize) above] := by
    rw [vmMapImgRgnInplace]
    dsimp only
    rw [hbefore, haft, himg, hthird, h.imgBase, h.regBase]
  rw [hcalls]
  by_cases hcolors : M.allClrs colors = true
  · rw [if_pos hcolors]
    exact ⟨_, rfl, rfl, rfl, rfl⟩
  · rw [if_neg hcolors]
    exact ⟨_, rfl, rfl, rfl, rfl⟩

theorem inImage_iff (h : ImagePages M image reg first imgFirst q r above) {p : Nat} :
    InImage M image p ↔ imgFirst ≤ p ∧ p < imgFirst + imgPages q r := by
  have hpos := M.pageSize_pos
  have hrest := h.rest
  rw [InImage, h.imgBase, h.imgSize, imgPages]
  constructor
  · intro hin
    obtain ⟨hlow, hhigh⟩ := hin
    refine ⟨Nat.le_of_mul_le_mul_right hlow hpos, ?_⟩
    by_cases hzero : r = 0
    · rw [if_pos hzero]
      rw [hzero, Nat.add_zero, ← Nat.add_mul] at hhigh
      exact Nat.lt_of_mul_lt_mul_right hhigh
    · rw [if_neg hzero]
      have hnext : p * M.pageSize < (imgFirst + (q + 1)) * M.pageSize := by
        rw [Nat.add_mul, Nat.succ_mul]
        omega
      exact Nat.lt_of_mul_lt_mul_right hnext
  · intro hin
    obtain ⟨hlow, hhigh⟩ := hin
    refine ⟨Nat.mul_le_mul_right _ hlow, ?_⟩
    by_cases hzero : r = 0
    · rw [if_pos hzero] at hhigh
      have hlt := Nat.mul_lt_mul_of_pos_right hhigh hpos
      rw [Nat.add_mul] at hlt
      omega
    · rw [if_neg hzero] at hhigh
      have hle : p * M.pageSize ≤ (imgFirst + q) * M.pageSize :=
        Nat.mul_le_mul_right _ (by omega)
      rw [Nat.add_mul] at hle
      omega

theorem inRegion_iff (h : ImagePages M image reg first imgFirst q r above) {p : Nat} :
    InRegion M reg p ↔ first ≤ p ∧ p < imgFirst + q + above := by
  have hpos := M.pageSize_pos
  rw [InRegion, h.regEnd, h.regBase]
  constructor
  · intro hin
    obtain ⟨hlow, hhigh⟩ := hin
    exact ⟨Nat.le_of_mul_le_mul_right hlow hpos, Nat.lt_of_mul_lt_mul_right hhigh⟩
  · intro hin
    obtain ⟨hlow, hhigh⟩ := hin
    exact ⟨Nat.mul_le_mul_right _ hlow, Nat.mul_lt_mul_of_pos_right hhigh hpos⟩

theorem backing_eq {c : MapCall} {t : Nat} (hva : c.va = t * M.pageSize) (p : Nat) :
    c.backing M p = if t ≤ p ∧ p < t + c.numPages then
      match c.given with
      | none => some .fresh
      | some pa => some (.image (pa.base + (p - t) * M.pageSize))
    else none := by
  rw [MapCall.backing, hva, Nat.mul_div_cancel _ M.pageSize_pos]

theorem backing_fresh (t n p : Nat) : (MapCall.allocMap none (t * M.pageSize) n).backing M p =
    if t ≤ p ∧ p < t + n then some .fresh else none :=
  backing_eq rfl p

theorem mapsOnce (h : ImagePages M image reg first imgFirst q 0 above) :
    MapsOnce M (vmMapImgRgnInplace M colors image reg) image reg := by
  obtain ⟨imgCall, hva, hnum, hgiven, hcalls⟩ := h.calls colors
  have hends := h.ends
  have hle := h.le
  have hzero : imgPages q 0 = q := if_pos rfl
  rw [hzero] at hnum hgiven hcalls
  intro p
  rw [h.inImage_iff, h.inRegion_iff, hcalls, hzero, h.imgBase]
  have hbelow : (MapCall.allocMap none (first * M.pageSize) (imgFirst - first)).backing M p =
      if first ≤ p ∧ p < imgFirst then some .fresh else none := by
    rw [backing_fresh, Nat.add_sub_cancel' hle]
  have himg : imgCall.backing M p = if imgFirst ≤ p ∧ p < imgFirst + q then
      some (.image (image.loadAddr + (p - imgFirst) * M.pageSize)) else none := by
    rw [backing_eq hva, hnum, hgiven]
    rfl
  have habove : (MapCall.allocMap none ((imgFirst + q) % M.pageCount * M.pageSize)
      above).backing M p =
        if imgFirst + q ≤ p ∧ p < imgFirst + q + above then some .fresh else none := by
    rw [backing_fresh]
    by_cases hend : imgFirst + q = M.pageCount
    · have hnone : above = 0 := by
        omega
      rw [hnone, if_neg (by omega), if_neg (by omega)]
    · rw [Nat.mod_eq_of_lt (by omega)]
  have hoffset : (p - imgFirst) * M.pageSize = p * M.pageSize - imgFirst * M.pageSize :=
    Nat.sub_mul _ _ _
  simp only [List.filterMap_cons, List.filterMap_nil, hbelow, himg, habove]
  refine ⟨?_, ?_, ?_⟩
  · intro hin
    rw [if_neg (by omega), if_pos hin, if_neg (by omega), hoffset]
  · intro hin hnot
    by_cases hlow : p < imgFirst
    · rw [if_pos ⟨hin.1, hlow⟩, if_neg (by omega), if_neg (by omega)]
    · rw [if_neg (by omega), if_neg hnot, if_pos (by omega)]
  · intro hout
    rw [if_neg (by omega), if_neg (by omega), if_neg (by omega)]

/-- An image that ends within a page: the last call maps a page that is not in
the region. -/
theorem not_mapsOnce (h : ImagePages M image reg first imgFirst q r above) (hrest : r ≠ 0) :
    ¬ MapsOnce M (vmMapImgRgnInplace M colors image reg) image reg := by
  obtain ⟨imgCall, -, -, -, hcalls⟩ := h.calls colors
  have hends := h.ends
  have hle := h.le
  have hsmall := h.small
  have hroom := h.room hrest
  have hpages : imgPages q r = q + 1 := if_neg hrest
  rw [hpages] at hcalls
  intro hmaps
  -- the last page of the last call
  have houtside : ∃ p, ¬ (first ≤ p ∧ p < imgFirst + q + above) ∧
      (imgFirst + (q + 1)) % M.pageCount ≤ p ∧
        p < (imgFirst + (q + 1)) % M.pageCount + above := by
    by_cases hend : imgFirst + (q + 1) = M.pageCount
    · rw [hend, Nat.mod_self]
      exact ⟨0, by omega, by omega, by omega⟩
    · rw [Nat.mod_eq_of_lt (by omega)]
      exact ⟨imgFirst + q + above, by omega, by omega, by omega⟩
  obtain ⟨p, hout, hlow, hhigh⟩ := houtside
  have hnone := (hmaps p).2.2 (fun hin => hout (h.inRegion_iff.mp hin))
  have hback : (MapCall.allocMap none ((imgFirst + (q + 1)) % M.pageCount * M.pageSize)
      above).backing M p = some .fresh := by
    rw [backing_fresh, if_pos ⟨hlow, hhigh⟩]
  rw [hcalls] at hnone
  have hmem := List.filterMap_eq_nil_iff.mp hnone
    (.allocMap none ((imgFirst + (q + 1)) % M.pageCount * M.pageSize) above) (by simp)
  rw [hback] at hmem
  cases hmem

end ImagePages

end Bao

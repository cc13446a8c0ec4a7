import BaoHypervisor.ObjPool
import BaoHypervisor.StepSystem

/-!
# Object pools by pointer

Callers of a pool have pointers and ids.  An allocation makes a pointer from a
slot by multiplication, a lookup from an id in the same way, and a free finds
the slot of a pointer by subtraction and division.  Over every history of
calls, with stray, misaligned and double frees, a slot is in use exactly from
its allocation to its free, and no slot in use is handed out.
-/

namespace Bao

open BitMemory EventHistory

variable {M : Machine} {α : Type}

/-- `struct objpool` with the array of objects at `pool`.  As every object of
C the array has a size that `ptrdiff_t` holds, and it ends before the last byte
of the address space. -/
structure ObjPoolPtr (M : Machine) (α : Type) extends ObjPool α where
  pool : Nat
  objsize : Nat
  objsize_pos : 0 < objsize
  size_lt : objsize * num < 2 ^ (M.wordBits - 1)
  fits : pool + objsize * num < M.sizeMax

namespace ObjPoolPtr

variable {p p' : ObjPoolPtr M α} {n k : Nat}

/-- `objpool_init`, which clears the objects and the bytes of the bitmap. -/
def objpoolInit (p : ObjPoolPtr M α) (zero : α) : ObjPoolPtr M α :=
  let bytes := p.num / 8 + if p.num % 8 ≠ 0 then 1 else 0
  { p with
    objs := fun _ => zero
    bitmap := fun b => if b < bytes * 8 then false else p.bitmap b }

/-- The pointer to slot `n`. -/
def addr (p : ObjPoolPtr M α) (n : Nat) : Nat := (p.pool + p.objsize * n) % M.wordCount

/-- `objpool_alloc_with_id`: the pointer, the id and the pool afterwards. -/
def objpoolAllocWithId (p : ObjPoolPtr M α) : Option Nat × Nat × ObjPoolPtr M α :=
  let n : Int := match bitmapFindNth p.bitmap 0 p.num 1 0 false with
    | none => -1
    | some i => M.ssize i
  if 0 ≤ n then
    (some (p.addr n.toNat), n.toNat, { p with bitmap := bitmapSet p.bitmap 0 n.toNat })
  else (none, M.sizeMax, p)

/-- `objpool_alloc`. -/
def objpoolAlloc (p : ObjPoolPtr M α) : Option Nat × ObjPoolPtr M α :=
  let answer := p.objpoolAllocWithId
  (answer.1, answer.2.2)

/-- `objpool_free`; a stray pointer only gives a warning. -/
def objpoolFree (p : ObjPoolPtr M α) (obj : Nat) : ObjPoolPtr M α :=
  let offset := (obj + M.wordCount - p.pool) % M.wordCount
  let inPool := M.inRange obj p.pool (p.objsize * p.num % M.wordCount)
  let aligned := offset % p.objsize = 0
  if inPool ∧ aligned then { p with bitmap := bitmapClear p.bitmap 0 (offset / p.objsize) } else p

/-- `objpool_get_by_id`. -/
def objpoolGetById (p : ObjPoolPtr M α) (id : Nat) : Option Nat :=
  if id < p.num then some (p.addr id) else none

/-! ## Pointers and slots -/

theorem num_lt (p : ObjPoolPtr M α) : p.num < 2 ^ (M.wordBits - 1) := by
  have hle : p.num ≤ p.objsize * p.num := Nat.le_mul_of_pos_left _ p.objsize_pos
  exact Nat.lt_of_le_of_lt hle p.size_lt

theorem slot_le (p : ObjPoolPtr M α) (hn : n < p.num) :
    p.objsize * n + p.objsize ≤ p.objsize * p.num := by
  have hmul := Nat.mul_le_mul_left p.objsize hn
  rwa [Nat.mul_succ] at hmul

theorem addr_eq (p : ObjPoolPtr M α) (hn : n < p.num) : p.addr n = p.pool + p.objsize * n := by
  have hslot := p.slot_le hn
  have hfits := p.fits
  have hmax : M.sizeMax < M.wordCount := Nat.sub_lt (Nat.two_pow_pos _) (by decide)
  exact Nat.mod_eq_of_lt (by omega)

/-- **Two slots have two pointers.** -/
theorem addr_inj (p : ObjPoolPtr M α) (hn : n < p.num) (hk : k < p.num)
    (heq : p.addr n = p.addr k) : n = k := by
  rw [p.addr_eq hn, p.addr_eq hk] at heq
  exact Nat.eq_of_mul_eq_mul_left p.objsize_pos (by omega)

/-- **An allocation** answers the pointer and the id of the slot that the pool
of slots takes, or fails with it. -/
theorem objpoolAllocWithId_eq (p : ObjPoolPtr M α) :
    p.objpoolAllocWithId = match p.toObjPool.objpoolAllocWithId with
      | none => (none, M.sizeMax, p)
      | some (n, q) => (some (p.addr n), n, { p with bitmap := q.bitmap }) := by
  rw [objpoolAllocWithId, ObjPool.objpoolAllocWithId]
  cases hfind : bitmapFindNth p.bitmap 0 p.num 1 0 false with
  | none => rfl
  | some n =>
      obtain ⟨-, hlt, -, -⟩ := bitmapFindNth_one_some hfind
      have hsign := p.num_lt
      have hn : M.ssize n = n := M.ssize_of_lt (by omega)
      simp only [hn, Int.natCast_nonneg, if_true, Int.toNat_natCast]

/-- `in_range` of a pointer in the array. -/
theorem inRange_iff (p : ObjPoolPtr M α) {obj : Nat} (hobj : obj < M.wordCount) :
    M.inRange obj p.pool (p.objsize * p.num % M.wordCount) = true ↔
      p.pool ≤ obj ∧ obj < p.pool + p.objsize * p.num := by
  have hfits := p.fits
  have hmax : M.sizeMax = M.wordCount - 1 := rfl
  rw [Nat.mod_eq_of_lt (by omega), Machine.inRange]
  by_cases hlast : obj + 1 < M.wordCount
  · rw [M.rangeInRange_of_lt hlast (by omega)]
    omega
  · -- the end of the last byte is saturated
    have hone : 1 < M.wordCount := Nat.one_lt_two_pow (by have := M.pageBits_room; omega)
    rw [Machine.rangeInRange, M.limit_of_le (by omega) hone, M.limit_of_le (by omega) (by omega),
      Bool.and_eq_true, decide_eq_true_eq, decide_eq_true_eq]
    omega

/-- **The pointers that a free accepts** are those of the slots, and it finds
the slot. -/
theorem objpoolFree_cases (p : ObjPoolPtr M α) {obj : Nat} (hobj : obj < M.wordCount) :
    (∃ n, n < p.num ∧ obj = p.addr n ∧
        p.objpoolFree obj = { p with bitmap := bitmapClear p.bitmap 0 n }) ∨
      ((∀ n, n < p.num → obj ≠ p.addr n) ∧ p.objpoolFree obj = p) := by
  have hfits := p.fits
  have hmax : M.sizeMax = M.wordCount - 1 := rfl
  rw [objpoolFree]
  by_cases hin : p.pool ≤ obj ∧ obj < p.pool + p.objsize * p.num
  · have hsub : obj + M.wordCount - p.pool = obj - p.pool + M.wordCount := by omega
    have hoffset : (obj + M.wordCount - p.pool) % M.wordCount = obj - p.pool := by
      rw [hsub, Nat.add_mod_right, Nat.mod_eq_of_lt (by omega)]
    rw [hoffset]
    by_cases haligned : (obj - p.pool) % p.objsize = 0
    · have hdiv : p.objsize * ((obj - p.pool) / p.objsize) = obj - p.pool :=
        Nat.mul_div_cancel' (Nat.dvd_of_mod_eq_zero haligned)
      have hn : (obj - p.pool) / p.objsize < p.num :=
        Nat.div_lt_of_lt_mul (by omega)
      left
      refine ⟨(obj - p.pool) / p.objsize, hn, ?_, if_pos ⟨(p.inRange_iff hobj).mpr hin, haligned⟩⟩
      rw [p.addr_eq hn, hdiv]
      omega
    · right
      refine ⟨fun n hn heq => haligned ?_, if_neg fun hok => haligned hok.2⟩
      rw [heq, p.addr_eq hn, Nat.add_sub_cancel_left, Nat.mul_mod_right]
  · right
    refine ⟨fun n hn heq => hin ?_, if_neg fun hok => hin ((p.inRange_iff hobj).mp hok.1)⟩
    have hslot := p.slot_le hn
    have hpos := p.objsize_pos
    rw [heq, p.addr_eq hn]
    omega

theorem objpoolGetById_of_lt (p : ObjPoolPtr M α) (hn : n < p.num) :
    p.objpoolGetById n = some (p.addr n) := if_pos hn

end ObjPoolPtr

/-! ## Histories of calls -/

/-- The calls on a pool; a pointer can be any word. -/
inductive ObjPoolCall (M : Machine)
  | alloc
  | allocWithId
  | getById (id : Nat)
  | free (obj : Fin M.wordCount)

/-- A call with the pointer and the id it gave. -/
structure ObjPoolCalled (M : Machine) where
  call : ObjPoolCall M
  obj : Option Nat
  id : Option Nat

namespace ObjPoolCalled

/-- The call is an allocation and gave the pointer. -/
def Allocates (c : ObjPoolCalled M) (obj : Nat) : Prop :=
  (c.call = .alloc ∨ c.call = .allocWithId) ∧ c.obj = some obj

/-- The call is a free of the pointer. -/
def Frees (c : ObjPoolCalled M) (obj : Nat) : Prop :=
  ∃ q : Fin M.wordCount, c.call = .free q ∧ q.val = obj

end ObjPoolCalled

/-- The object at `obj` was allocated, and not freed since. -/
def ObjInUse (h : List (ObjPoolCalled M)) (obj : Nat) : Prop :=
  Since (fun c : ObjPoolCalled M => c.Frees obj) (fun c => c.Allocates obj) h

namespace ObjPoolPtr

/-- A call on the pool. -/
def call (p : ObjPoolPtr M α) (c : ObjPoolCall M) : ObjPoolCalled M × ObjPoolPtr M α :=
  match c with
  | .alloc => (⟨c, p.objpoolAlloc.1, none⟩, p.objpoolAlloc.2)
  | .allocWithId =>
      (⟨c, p.objpoolAllocWithId.1, some p.objpoolAllocWithId.2.1⟩, p.objpoolAllocWithId.2.2)
  | .getById id => (⟨c, p.objpoolGetById id, none⟩, p)
  | .free obj => (⟨c, none, none⟩, p.objpoolFree obj)

end ObjPoolPtr

/-- The calls on a pool after `objpool_init`, whatever its memory held. -/
def objpoolSystem (M : Machine) (α : Type) : StepSystem (ObjPoolPtr M α) (ObjPoolCall M) :=
  .ofNext (fun p => ∃ before zero, p = ObjPoolPtr.objpoolInit before zero) (fun _ _ => True)
    fun c p => (p.call c).2

/-- The history of the calls, the newest first. -/
def objpoolHistory (p : ObjPoolPtr M α) (c : ObjPoolCall M) (h : List (ObjPoolCalled M)) :
    List (ObjPoolCalled M) := (p.call c).1 :: h

/-! ## What a call does -/

namespace ObjPoolPtr

variable {p p' : ObjPoolPtr M α} {h : List (ObjPoolCalled M)}

/-- The pool has the same array. -/
structure SameArray (p p' : ObjPoolPtr M α) : Prop where
  num : p'.num = p.num
  addr : p'.addr = p.addr

/-- **An allocation** takes a slot that is not in use, or all are. -/
theorem objpoolAllocWithId_cases (p : ObjPoolPtr M α) :
    (∃ n p', n < p.num ∧ ¬ p.Used n ∧ p.objpoolAllocWithId = (some (p.addr n), n, p') ∧
        SameArray p p' ∧ ∀ k, p'.Used k ↔ p.Used k ∨ k = n) ∨
      ((∀ n, n < p.num → p.Used n) ∧ p.objpoolAllocWithId = (none, M.sizeMax, p)) := by
  rw [objpoolAllocWithId_eq]
  cases halloc : p.toObjPool.objpoolAllocWithId with
  | some answer =>
      obtain ⟨n, q⟩ := answer
      obtain ⟨hlt, hnot, hnum, -, hused⟩ := ObjPool.objpoolAllocWithId_some halloc
      refine .inl ⟨n, _, hlt, hnot, rfl, ⟨rfl, rfl⟩, fun k => ?_⟩
      rw [← hused k, ObjPool.Used, ObjPool.Used, hnum]
  | none =>
      refine .inr ⟨fun n hn => ?_, rfl⟩
      rw [ObjPool.objpoolAllocWithId] at halloc
      cases hfind : bitmapFindNth p.bitmap 0 p.num 1 0 false with
      | some i =>
          rw [hfind] at halloc
          cases halloc
      | none =>
          have hbit := bitmapFindNth_one_none hfind n (Nat.zero_le n) hn
          rw [Nat.zero_add] at hbit
          exact ⟨hn, by simpa using hbit⟩

/-- **A free** clears the slot that the pointer is the start of, or does
nothing. -/
theorem objpoolFree_used (p : ObjPoolPtr M α) {obj : Nat} (hobj : obj < M.wordCount) :
    SameArray p (p.objpoolFree obj) ∧
      ∀ k, (p.objpoolFree obj).Used k ↔ p.Used k ∧ obj ≠ p.addr k := by
  rcases p.objpoolFree_cases hobj with ⟨n, hn, heq, hfree⟩ | ⟨hstray, hfree⟩
  · have hslots : (p.objpoolFree obj).bitmap = (p.toObjPool.objpoolFree n).bitmap := by
      rw [hfree, ObjPool.objpoolFree, if_pos hn]
    rw [hfree] at hslots ⊢
    refine ⟨⟨rfl, rfl⟩, fun k => ?_⟩
    have hused := ObjPool.objpoolFree_used p.toObjPool n k
    rw [ObjPool.Used, ObjPool.objpoolFree_num, ← hslots] at hused
    rw [ObjPool.Used, hused, heq]
    constructor
    · intro hk
      exact ⟨hk.1, fun haddr => hk.2 (p.addr_inj hn hk.1.1 haddr).symm⟩
    · intro hk
      exact ⟨hk.1, fun hkn => hk.2 (by rw [hkn])⟩
  · rw [hfree]
    refine ⟨⟨rfl, rfl⟩, fun k => ?_⟩
    rw [and_iff_left_of_imp]
    exact fun hused => hstray k hused.1

/-- A free of a pointer that is not the start of a slot in use changes
nothing. -/
theorem objpoolFree_stray (p : ObjPoolPtr M α) {obj : Nat} (hobj : obj < M.wordCount)
    (hstray : ∀ n, p.Used n → obj ≠ p.addr n) : p.objpoolFree obj = p := by
  rcases p.objpoolFree_cases hobj with ⟨n, hn, heq, hfree⟩ | ⟨-, hfree⟩
  · have hclear : p.bitmap n = false := by
      by_contra hset
      exact hstray n ⟨hn, eq_true_of_ne_false hset⟩ heq
    have hsame : bitmapClear p.bitmap 0 n = p.bitmap := by
      rw [bitmapClear_eq]
      funext b
      by_cases hb : b = n
      · rw [hb, fill_inside (by omega) (by omega), hclear]
      · exact fill_other (by omega)
    rw [hfree, hsame]
  · exact hfree

theorem objpoolInit_used (p : ObjPoolPtr M α) (zero : α) (n : Nat) :
    ¬ (p.objpoolInit zero).Used n := by
  intro hused
  obtain ⟨hn, hbit⟩ := hused
  have hlt : n < p.num := hn
  have hbyte : n < (p.num / 8 + if p.num % 8 ≠ 0 then 1 else 0) * 8 := by
    split <;> omega
  have hclear : (p.objpoolInit zero).bitmap n = false := if_pos hbyte
  rw [hclear] at hbit
  cases hbit

end ObjPoolPtr

/-! ## The invariant -/

theorem objInUse_cons {h : List (ObjPoolCalled M)} {c : ObjPoolCalled M} {obj : Nat} :
    ObjInUse (c :: h) obj ↔ c.Allocates obj ∨ (¬ c.Frees obj ∧ ObjInUse h obj) := Since.cons_iff

/-- The bits say which slots are in use, every allocation gave a slot with its
id, and none that was in use. -/
structure ObjPoolInv (p : ObjPoolPtr M α) (h : List (ObjPoolCalled M)) : Prop where
  used : ∀ n, n < p.num → (p.Used n ↔ ObjInUse h (p.addr n))
  given : ∀ a ∈ h, ∀ obj, a.Allocates obj →
    ∃ n, n < p.num ∧ obj = p.addr n ∧ ∀ id, a.id = some id → id = n
  fresh : ∀ later a earlier obj, h = later ++ a :: earlier → a.Allocates obj →
    ¬ ObjInUse earlier obj

namespace ObjPoolInv

variable {p p' : ObjPoolPtr M α} {h : List (ObjPoolCalled M)} {c : ObjPoolCalled M}

theorem fresh_cons (hinv : ObjPoolInv p h) (hc : ∀ obj, c.Allocates obj → ¬ ObjInUse h obj)
    (later : List (ObjPoolCalled M)) (a : ObjPoolCalled M) (earlier : List (ObjPoolCalled M))
    (obj : Nat) (hsplit : c :: h = later ++ a :: earlier) (ha : a.Allocates obj) :
    ¬ ObjInUse earlier obj := by
  cases later with
  | nil =>
      cases hsplit
      exact hc obj ha
  | cons b later =>
      cases hsplit
      exact hinv.fresh later a earlier obj rfl ha

theorem keep (hinv : ObjPoolInv p h) (hsame : p.SameArray p') (hno : ∀ obj, ¬ c.Allocates obj)
    (hused : ∀ n, n < p.num → (p'.Used n ↔ p.Used n ∧ ¬ c.Frees (p.addr n))) :
    ObjPoolInv p' (c :: h) := by
  refine ⟨fun n hn => ?_, fun a ha obj halloc => ?_,
    hinv.fresh_cons fun obj halloc => absurd halloc (hno obj)⟩
  · rw [hsame.num] at hn
    rw [hused n hn, hsame.addr, objInUse_cons, hinv.used n hn, and_comm]
    simp only [hno, false_or]
  · rcases List.mem_cons.mp ha with heq | ha
    · rw [heq] at halloc
      exact absurd halloc (hno obj)
    · rw [hsame.num, hsame.addr]
      exact hinv.given a ha obj halloc

theorem take (hinv : ObjPoolInv p h) (hsame : p.SameArray p') {n : Nat} (hn : n < p.num)
    (hnot : ¬ p.Used n) (hused : ∀ k, p'.Used k ↔ p.Used k ∨ k = n)
    (hcall : c.call = .alloc ∨ c.call = .allocWithId) (hobj : c.obj = some (p.addr n))
    (hid : ∀ id, c.id = some id → id = n) : ObjPoolInv p' (c :: h) := by
  have hallocates : ∀ obj, c.Allocates obj ↔ obj = p.addr n := by
    intro obj
    rw [ObjPoolCalled.Allocates, and_iff_right hcall, hobj, Option.some_inj, eq_comm]
  have hfrees : ∀ obj, ¬ c.Frees obj := by
    intro obj hfree
    obtain ⟨q, hq, -⟩ := hfree
    rw [hq] at hcall
    rcases hcall with hcall | hcall <;> cases hcall
  refine ⟨fun k hk => ?_, fun a ha obj halloc => ?_, hinv.fresh_cons fun obj halloc => ?_⟩
  · rw [hsame.num] at hk
    rw [hused, hsame.addr, objInUse_cons, hallocates, hinv.used k hk, or_comm,
      and_iff_right (hfrees _)]
    have hiff : k = n ↔ p.addr k = p.addr n :=
      ⟨fun heq => by rw [heq], fun heq => p.addr_inj hk hn heq⟩
    rw [hiff]
  · rw [hsame.num, hsame.addr]
    rcases List.mem_cons.mp ha with heq | ha
    · rw [heq] at halloc ⊢
      exact ⟨n, hn, (hallocates obj).mp halloc, hid⟩
    · exact hinv.given a ha obj halloc
  · rw [(hallocates obj).mp halloc, ← hinv.used n hn]
    exact hnot

theorem quiet (hinv : ObjPoolInv p h) (hno : ∀ obj, ¬ c.Allocates obj)
    (hfrees : ∀ obj, ¬ c.Frees obj) : ObjPoolInv p (c :: h) := by
  refine hinv.keep ⟨rfl, rfl⟩ hno fun n _ => ?_
  rw [and_iff_left (hfrees _)]

/-- **Every call** keeps the invariant. -/
theorem call (hinv : ObjPoolInv p h) (c : ObjPoolCall M) :
    ObjPoolInv (p.call c).2 ((p.call c).1 :: h) := by
  cases c with
  | alloc =>
      rcases p.objpoolAllocWithId_cases with ⟨n, p', hn, hnot, heq, hsame, hused⟩ | ⟨-, heq⟩
      · simp only [ObjPoolPtr.call, ObjPoolPtr.objpoolAlloc, heq]
        exact hinv.take hsame hn hnot hused (.inl rfl) rfl fun id hid => by cases hid
      · simp only [ObjPoolPtr.call, ObjPoolPtr.objpoolAlloc, heq]
        apply hinv.quiet
        · intro obj hall
          cases hall.2
        · intro obj hfree
          obtain ⟨q, hq, -⟩ := hfree
          cases hq
  | allocWithId =>
      rcases p.objpoolAllocWithId_cases with ⟨n, p', hn, hnot, heq, hsame, hused⟩ | ⟨-, heq⟩
      · simp only [ObjPoolPtr.call, heq]
        exact hinv.take hsame hn hnot hused (.inr rfl) rfl fun id hid => (Option.some.inj hid).symm
      · simp only [ObjPoolPtr.call, heq]
        apply hinv.quiet
        · intro obj hall
          cases hall.2
        · intro obj hfree
          obtain ⟨q, hq, -⟩ := hfree
          cases hq
  | getById id =>
      apply hinv.quiet
      · intro obj hall
        rcases hall.1 with hcall | hcall <;> cases hcall
      · intro obj hfree
        obtain ⟨q, hq, -⟩ := hfree
        cases hq
  | free obj =>
      obtain ⟨hsame, hused⟩ := p.objpoolFree_used obj.isLt
      refine hinv.keep hsame ?_ fun n _ => ?_
      · intro other hall
        cases hall.2
      · rw [ObjPoolPtr.call, hused]
        refine and_congr_right fun _ => not_congr ⟨fun heq => ⟨obj, rfl, heq⟩, fun hfree => ?_⟩
        obtain ⟨q, hq, heq⟩ := hfree
        cases hq
        exact heq

end ObjPoolInv

theorem objpool_inv {p : ObjPoolPtr M α} {h : List (ObjPoolCalled M)}
    (hreach : ((objpoolSystem M α).watch [] objpoolHistory).Reachable (p, h)) :
    ObjPoolInv p h := by
  have hinit : ∀ s, ((objpoolSystem M α).watch [] objpoolHistory).init s →
      ObjPoolInv s.1 s.2 := by
    intro s hinit
    obtain ⟨⟨before, zero, hp⟩, hh⟩ := hinit
    rw [hp, hh]
    refine ⟨fun n _ => ?_, fun a ha => absurd ha List.not_mem_nil, ?_⟩
    · refine iff_of_false (ObjPoolPtr.objpoolInit_used before zero n) fun huse => ?_
      obtain ⟨recent, a, older, hsplit, -⟩ := huse
      exact List.append_ne_nil_of_right_ne_nil recent (List.cons_ne_nil a older) hsplit.symm
    · intro later a earlier obj hsplit
      exact absurd hsplit.symm
        (List.append_ne_nil_of_right_ne_nil later (List.cons_ne_nil a earlier))
  have hstep : ∀ s c s', ObjPoolInv s.1 s.2 → True →
      ((objpoolSystem M α).watch [] objpoolHistory).step s c s' → ObjPoolInv s'.1 s'.2 := by
    intro s c s' hinv _ hstep
    obtain ⟨⟨-, hp⟩, hh⟩ := hstep
    rw [hp, hh]
    exact hinv.call c
  exact hreach.invariant hinit hstep

/-- **A pool hands out no slot twice**: between two allocations of an object it
is freed, an allocation fails if and only if every slot is in use, the id of an
allocation looks up its object, and a free of anything but a slot in use
changes nothing. -/
structure ObjPoolSafe (p : ObjPoolPtr M α) (h : List (ObjPoolCalled M)) : Prop where
  freed : ∀ later a between b earlier obj, h = later ++ a :: (between ++ b :: earlier) →
    a.Allocates obj → b.Allocates obj → ∃ c ∈ between, c.Frees obj
  full : (p.objpoolAllocWithId.1 = none ↔ ∀ n, n < p.num → ObjInUse h (p.addr n)) ∧
    (p.objpoolAlloc.1 = none ↔ ∀ n, n < p.num → ObjInUse h (p.addr n))
  byId : ∀ a ∈ h, ∀ obj id, a.Allocates obj → a.id = some id → p.objpoolGetById id = some obj
  stray : ∀ obj < M.wordCount, (∀ n, n < p.num → ObjInUse h (p.addr n) → obj ≠ p.addr n) →
    p.objpoolFree obj = p

/-- **In every history** of calls a pool is safe. -/
theorem objpool_safe {p : ObjPoolPtr M α} {h : List (ObjPoolCalled M)}
    (hreach : ((objpoolSystem M α).watch [] objpoolHistory).Reachable (p, h)) :
    ObjPoolSafe p h := by
  have hinv := objpool_inv hreach
  have hfull : p.objpoolAllocWithId.1 = none ↔ ∀ n, n < p.num → ObjInUse h (p.addr n) := by
    rcases p.objpoolAllocWithId_cases with ⟨n, p', hn, hnot, heq, -⟩ | ⟨hall, heq⟩
    · rw [heq]
      refine iff_of_false (Option.some_ne_none _) fun hall => hnot ?_
      exact (hinv.used n hn).mpr (hall n hn)
    · rw [heq]
      exact iff_of_true rfl fun n hn => (hinv.used n hn).mp (hall n hn)
  refine ⟨?_, ⟨hfull, hfull⟩, ?_, ?_⟩
  · intro later a between b earlier obj hsplit ha hb
    by_contra hnone
    refine hinv.fresh later a _ obj hsplit ha ⟨between, b, earlier, rfl, hb, fun c hc hfree => ?_⟩
    exact hnone ⟨c, hc, hfree⟩
  · intro a ha obj id halloc hid
    obtain ⟨n, hn, heq, hids⟩ := hinv.given a ha obj halloc
    rw [hids id hid, heq, p.objpoolGetById_of_lt hn]
  · intro obj hobj hstray
    refine p.objpoolFree_stray hobj fun n hused => hstray n hused.1 ?_
    exact (hinv.used n hused.1).mp hused

/-- Nine objects of 24 bytes, over memory full of ones. -/
def ninePool : ObjPoolPtr Machine.mmu64 Nat where
  num := 9
  bitmap := fun _ => true
  objs := fun _ => 7
  pool := 0x80001000
  objsize := 24
  objsize_pos := by decide
  size_lt := by decide
  fits := by decide

/-- Two allocations, a misaligned, a good and a double free, and an allocation. -/
def nineCalls : List (ObjPoolCall Machine.mmu64) :=
  [.allocWithId, .alloc, .free 0x80001004, .free 0x80001000, .free 0x80001000, .allocWithId]

/-- A history in which a slot is freed and handed out again. -/
theorem objpool_safe_nine :
    ObjPoolSafe
      (StepSystem.runBy (fun c p => (ObjPoolPtr.call p c).2) nineCalls (ninePool.objpoolInit 0))
      (StepSystem.seenBy (fun c p => (ObjPoolPtr.call p c).2) objpoolHistory nineCalls
        (ninePool.objpoolInit 0) []) :=
  objpool_safe (StepSystem.Meets.watch (fun _ _ _ h => h)
    (.init ⟨⟨ninePool, 0, rfl⟩, rfl⟩) (by decide))

end Bao

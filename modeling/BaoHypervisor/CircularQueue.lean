import BaoHypervisor.BoundedFifo
import Mathlib.Data.Nat.ModEq

/-!
# The circular queue

`circular_queue.h`: a buffer of `capacity` elements with the indices of its
oldest and newest element, both -1 when the queue is empty.  A push and a pop
each run under the queue's lock and are one step here.  The indices are C
integers; the queue's users check at compile time that its capacity is
positive and below `INT_MAX`, so their arithmetic never overflows.

`Holds cq q` says that the buffer holds the queue `q`, and the operations are
shown to be those of a bounded queue of exactly `capacity` elements.
-/

namespace Bao

/-- `struct circular_queue`; an element of type `α` stands for the `elem_size`
bytes at its index. -/
structure CircularQueue (α : Type) where
  buf : Nat → α
  capacity : Nat
  front : Int
  rear : Int

namespace CircularQueue

variable {α : Type}

/-- `circular_queue_init`. -/
def init (buf : Nat → α) (capacity : Nat) : CircularQueue α :=
  { buf := buf, capacity := capacity, front := -1, rear := -1 }

/-- `circular_queue_is_full`. -/
def isFull (cq : CircularQueue α) : Bool :=
  decide ((cq.rear + 1).tmod cq.capacity = cq.front)

/-- `circular_queue_is_empty`. -/
def isEmpty (cq : CircularQueue α) : Bool := decide (cq.front = -1)

/-- `circular_queue_push`. -/
def push (cq : CircularQueue α) (data : α) : Bool × CircularQueue α :=
  if cq.isFull then (false, cq)
  else
    let front := if cq.front = -1 then 0 else cq.front
    let rear := (cq.rear + 1).tmod cq.capacity
    (true,
      { cq with
        front := front
        rear := rear
        buf := fun i => if i = rear.toNat then data else cq.buf i })

/-- `circular_queue_pop`. -/
def pop (cq : CircularQueue α) : Option α × CircularQueue α :=
  if cq.isEmpty then (none, cq)
  else
    (some (cq.buf cq.front.toNat),
      if cq.front = cq.rear then { cq with front := -1, rear := -1 }
      else { cq with front := (cq.front + 1).tmod cq.capacity })

/-- The buffer holds the elements of `q`, the oldest at index `front`, and the
indices that follow it wrap at the capacity. -/
structure Holds (cq : CircularQueue α) (q : List α) : Prop where
  capacity_pos : 0 < cq.capacity
  length_le : q.length ≤ cq.capacity
  empty : q = [] → cq.front = -1 ∧ cq.rear = -1
  indices : q ≠ [] → ∃ f, f < cq.capacity ∧ cq.front = (f : Int) ∧
    cq.rear = ((f + (q.length - 1)) % cq.capacity : Nat) ∧
    ∀ i, (hi : i < q.length) → cq.buf ((f + i) % cq.capacity) = q[i]

theorem next_index (x capacity : Nat) :
    ((x : Int) + 1).tmod capacity = ((x + 1) % capacity : Nat) := by
  have hcast : (x : Int) + 1 = ((x + 1 : Nat) : Int) := by omega
  rw [hcast, Int.ofNat_tmod]

theorem index_inj {f i j capacity : Nat} (hi : i < capacity) (hj : j < capacity)
    (h : (f + i) % capacity = (f + j) % capacity) : i = j := by
  have hmod : i % capacity = j % capacity := Nat.ModEq.add_left_cancel' f h
  rwa [Nat.mod_eq_of_lt hi, Nat.mod_eq_of_lt hj] at hmod

theorem next_rear {f len capacity : Nat} (hlen : 0 < len) :
    ((f + (len - 1)) % capacity + 1) % capacity = (f + len) % capacity := by
  rw [Nat.mod_add_mod, Nat.add_assoc, Nat.sub_add_cancel hlen]

theorem next_front (f i capacity : Nat) :
    ((f + 1) % capacity + i) % capacity = (f + (i + 1)) % capacity := by
  rw [Nat.mod_add_mod, Nat.add_assoc, Nat.add_comm 1 i]

theorem holds_init (buf : Nat → α) {capacity : Nat} (h : 0 < capacity) :
    (init buf capacity).Holds [] where
  capacity_pos := h
  length_le := Nat.zero_le _
  empty := fun _ => ⟨rfl, rfl⟩
  indices := fun hne => (hne rfl).elim

/-- The queue is full exactly when `capacity` elements are in it. -/
theorem Holds.isFull_iff {cq : CircularQueue α} {q : List α} (h : cq.Holds q) :
    cq.isFull = true ↔ q.length = cq.capacity := by
  have hpos := h.capacity_pos
  rw [isFull, decide_eq_true_eq]
  by_cases hq : q = []
  · obtain ⟨hfront, hrear⟩ := h.empty hq
    rw [hfront, hrear, hq]
    simp only [Int.reduceNeg, Int.reduceAdd, Int.zero_tmod, List.length_nil]
    omega
  · obtain ⟨f, hf, hfront, hrear, _⟩ := h.indices hq
    have hlen : 0 < q.length := List.length_pos_iff.mpr hq
    have hle := h.length_le
    rw [hrear, hfront, next_index, next_rear hlen]
    constructor
    · intro heq
      have hback : (f + q.length) % cq.capacity = f := by exact_mod_cast heq
      by_cases hfull : q.length = cq.capacity
      · exact hfull
      · have hzero := @index_inj f q.length 0 cq.capacity (by omega) hpos (by
          rw [hback, Nat.add_zero, Nat.mod_eq_of_lt hf])
        omega
    · intro hfull
      rw [hfull, Nat.add_mod_right, Nat.mod_eq_of_lt hf]

theorem Holds.isEmpty_iff {cq : CircularQueue α} {q : List α} (h : cq.Holds q) :
    cq.isEmpty = true ↔ q = [] := by
  rw [isEmpty, decide_eq_true_eq]
  constructor
  · intro hfront
    by_cases hq : q = []
    · exact hq
    · obtain ⟨f, _, hf, _⟩ := h.indices hq
      omega
  · intro hq
    exact (h.empty hq).1

theorem Holds.pushed {cq : CircularQueue α} {q : List α} (h : cq.Holds q) (data : α)
    (hroom : q.length < cq.capacity) :
    (cq.push data).1 = true ∧ (cq.push data).2.Holds (q ++ [data]) := by
  have hnot : ¬ cq.isFull = true := by
    rw [h.isFull_iff]
    omega
  have hpos := h.capacity_pos
  -- the new element goes to offset `q.length` from the front
  obtain ⟨f, hf, hfront, hrear, hslots⟩ : ∃ f, f < cq.capacity ∧
      (if cq.front = -1 then 0 else cq.front) = (f : Int) ∧
      (cq.rear + 1).tmod cq.capacity = ((f + q.length) % cq.capacity : Nat) ∧
      ∀ i, (hi : i < q.length) → cq.buf ((f + i) % cq.capacity) = q[i] := by
    by_cases hq : q = []
    · obtain ⟨hfront, hrear⟩ := h.empty hq
      refine ⟨0, hpos, by simp [hfront], by simp [hrear, hq], ?_⟩
      intro i hi
      simp [hq] at hi
    · obtain ⟨f, hf, hfront, hrear, hslots⟩ := h.indices hq
      have hlen : 0 < q.length := List.length_pos_iff.mpr hq
      have hneg : ¬ (f : Int) = -1 := by omega
      refine ⟨f, hf, by rw [hfront, if_neg hneg], ?_, hslots⟩
      rw [hrear, next_index, next_rear hlen]
  rw [push, if_neg hnot]
  refine ⟨rfl, ⟨hpos, ?_, fun hnil => by simp at hnil, fun _ => ⟨f, hf, hfront, ?_, ?_⟩⟩⟩
  · rw [List.length_append, List.length_singleton]
    exact hroom
  · rw [List.length_append, List.length_singleton, Nat.add_sub_cancel]
    exact hrear
  · intro i hi
    simp only [hrear, Int.toNat_natCast]
    rw [List.length_append, List.length_singleton] at hi
    by_cases hlast : i = q.length
    · subst hlast
      simp
    · have hne : (f + i) % cq.capacity ≠ (f + q.length) % cq.capacity :=
        fun heq => hlast (index_inj (by omega) hroom heq)
      rw [if_neg hne, hslots i (by omega), List.getElem_append_left]

theorem Holds.popped {cq : CircularQueue α} {x : α} {q : List α} (h : cq.Holds (x :: q)) :
    cq.pop.1 = some x ∧ cq.pop.2.Holds q := by
  have hnot : ¬ cq.isEmpty = true := by
    rw [h.isEmpty_iff]
    simp
  obtain ⟨f, hf, hfront, hrear, hslots⟩ := h.indices (by simp)
  have hpos := h.capacity_pos
  have hle := h.length_le
  rw [List.length_cons, Nat.add_sub_cancel] at hrear
  rw [List.length_cons] at hle
  rw [pop, if_neg hnot]
  have hhead : cq.buf cq.front.toNat = x := by
    have hzero := hslots 0 (by simp)
    rw [Nat.add_zero, Nat.mod_eq_of_lt hf, List.getElem_cons_zero] at hzero
    rw [hfront, Int.toNat_natCast, hzero]
  have hrest : q.length ≤ cq.capacity := Nat.le_of_succ_le hle
  refine ⟨by rw [hhead], ?_⟩
  by_cases hone : cq.front = cq.rear
  · -- the only element: both indices are invalidated
    have hnil : q = [] := by
      rw [hfront, hrear] at hone
      have hback : f = (f + q.length) % cq.capacity := by exact_mod_cast hone
      have hzero := @index_inj f q.length 0 cq.capacity (by omega) hpos (by
        rw [← hback, Nat.add_zero, Nat.mod_eq_of_lt hf])
      exact List.eq_nil_of_length_eq_zero hzero
    rw [if_pos hone]
    exact ⟨hpos, hrest, fun _ => ⟨rfl, rfl⟩, fun hne => (hne hnil).elim⟩
  · have hq : q ≠ [] := by
      intro hnil
      rw [hfront, hrear, hnil, List.length_nil, Nat.add_zero, Nat.mod_eq_of_lt hf] at hone
      exact hone rfl
    have hlen : 0 < q.length := List.length_pos_iff.mpr hq
    rw [if_neg hone]
    refine ⟨hpos, hrest, fun hnil => (hq hnil).elim, fun _ =>
      ⟨(f + 1) % cq.capacity, Nat.mod_lt _ hpos, ?_, ?_, ?_⟩⟩
    · show (cq.front + 1).tmod cq.capacity = _
      rw [hfront, next_index]
    · show cq.rear = _
      rw [hrear, next_front, Nat.sub_add_cancel hlen]
    · intro i hi
      show cq.buf _ = _
      rw [next_front, hslots (i + 1) (by simpa using hi), List.getElem_cons_succ]

/-- The operations of the circular queue. -/
def impl : BoundedFifo.Impl (CircularQueue α) α where
  push := push
  pop := pop

@[simp] theorem push_capacity (cq : CircularQueue α) (data : α) :
    (cq.push data).2.capacity = cq.capacity := by
  unfold push
  split <;> rfl

@[simp] theorem pop_capacity (cq : CircularQueue α) : cq.pop.2.capacity = cq.capacity := by
  unfold pop
  split
  · rfl
  · split <;> rfl

theorem Holds.push_fails_iff {cq : CircularQueue α} {q : List α} (h : cq.Holds q) (data : α) :
    (cq.push data).1 = false ↔ q.length = cq.capacity := by
  rw [← h.isFull_iff]
  unfold push
  by_cases hfull : cq.isFull = true
  · simp [hfull]
  · simp [hfull]

theorem push_failed {cq : CircularQueue α} {data : α} (h : (cq.push data).1 = false) :
    (cq.push data).2 = cq := by
  unfold push at h ⊢
  by_cases hfull : cq.isFull = true
  · rw [if_pos hfull]
  · rw [if_neg hfull] at h
    cases h

/-- **The circular queue is a bounded queue of exactly its capacity.** -/
theorem simulates (cap : Nat) :
    BoundedFifo.Simulates (impl (α := α)) cap (fun cq q => cq.Holds q ∧ cq.capacity = cap) where
  push := by
    intro cq q x hrel
    obtain ⟨h, rfl⟩ := hrel
    show (cq.push x).1 = _ ∧ (cq.push x).2.Holds _ ∧ (cq.push x).2.capacity = _
    by_cases hroom : q.length < cq.capacity
    · obtain ⟨hok, hnext⟩ := h.pushed x hroom
      rw [BoundedFifo.push_of_room x hroom]
      exact ⟨hok, hnext, push_capacity cq x⟩
    · have hle := h.length_le
      have hfail : (cq.push x).1 = false := (h.push_fails_iff x).mpr (by omega)
      rw [push_failed hfail, hfail, BoundedFifo.push, if_neg hroom]
      exact ⟨rfl, h, rfl⟩
  pop := by
    intro cq q hrel
    obtain ⟨h, rfl⟩ := hrel
    show cq.pop.1 = _ ∧ cq.pop.2.Holds _ ∧ cq.pop.2.capacity = _
    cases q with
    | nil =>
        have hempty : cq.pop = (none, cq) := by rw [pop, if_pos (h.isEmpty_iff.mpr rfl)]
        rw [hempty]
        exact ⟨rfl, h, rfl⟩
    | cons x q =>
        obtain ⟨hx, hnext⟩ := h.popped
        exact ⟨hx, hnext, pop_capacity cq⟩

end CircularQueue

end Bao

import Mathlib.Algebra.Group.Nat.Defs

/-!
# Bounded first-in first-out queues

The queue as a list with the oldest element first, of which at most `cap` are
kept.  A history of operations answers with what each operation returned.  An
implementation that simulates the two operations gives the same answers on every
history.
-/

namespace BoundedFifo

variable {α : Type}

/-- Queue `x` unless `cap` elements are queued. -/
def push (cap : Nat) (q : List α) (x : α) : Bool × List α :=
  if q.length < cap then (true, q ++ [x]) else (false, q)

/-- Take the oldest element. -/
def pop : List α → Option α × List α
  | [] => (none, [])
  | x :: q => (some x, q)

/-- One operation of a history. -/
inductive Op (α : Type)
  | push (x : α)
  | pop

/-- What an operation returned. -/
inductive Answer (α : Type)
  | pushed (ok : Bool)
  | popped (x : Option α)

/-- A history of operations: the answers and the queue after it. -/
def run (cap : Nat) : List α → List (Op α) → List (Answer α) × List α
  | q, [] => ([], q)
  | q, .push x :: ops =>
      let rest := run cap (push cap q x).2 ops
      (.pushed (push cap q x).1 :: rest.1, rest.2)
  | q, .pop :: ops =>
      let rest := run cap (pop q).2 ops
      (.popped (pop q).1 :: rest.1, rest.2)

theorem push_of_room {cap : Nat} {q : List α} (x : α) (h : q.length < cap) :
    push cap q x = (true, q ++ [x]) := by
  rw [push, if_pos h]

/-- The operations of an implementation with states `σ`. -/
structure Impl (σ α : Type) where
  push : σ → α → Bool × σ
  pop : σ → Option α × σ

/-- `rel` relates the states of an implementation to the queues they stand
for, and every operation returns what the queue would. -/
structure Simulates {σ : Type} (I : Impl σ α) (cap : Nat) (rel : σ → List α → Prop) : Prop where
  push : ∀ s q x, rel s q →
    (I.push s x).1 = (BoundedFifo.push cap q x).1 ∧
      rel (I.push s x).2 (BoundedFifo.push cap q x).2
  pop : ∀ s q, rel s q →
    (I.pop s).1 = (BoundedFifo.pop q).1 ∧ rel (I.pop s).2 (BoundedFifo.pop q).2

/-- A history of operations of an implementation. -/
def Impl.run {σ : Type} (I : Impl σ α) : σ → List (Op α) → List (Answer α) × σ
  | s, [] => ([], s)
  | s, .push x :: ops =>
      let rest := run I (I.push s x).2 ops
      (.pushed (I.push s x).1 :: rest.1, rest.2)
  | s, .pop :: ops =>
      let rest := run I (I.pop s).2 ops
      (.popped (I.pop s).1 :: rest.1, rest.2)

/-- **Simulation rule.**  A simulating implementation answers every history
like the queue, and still stands for the queue afterwards. -/
theorem Simulates.run {σ : Type} {I : Impl σ α} {cap : Nat} {rel : σ → List α → Prop}
    (h : Simulates I cap rel) {s : σ} {q : List α} (hrel : rel s q) (ops : List (Op α)) :
    (I.run s ops).1 = (BoundedFifo.run cap q ops).1 ∧
      rel (I.run s ops).2 (BoundedFifo.run cap q ops).2 := by
  induction ops generalizing s q with
  | nil => exact ⟨rfl, hrel⟩
  | cons op ops ih =>
      cases op with
      | push x =>
          obtain ⟨hanswer, hnext⟩ := h.push s q x hrel
          obtain ⟨hrest, hlast⟩ := ih hnext
          exact ⟨by simp only [Impl.run, BoundedFifo.run, hanswer, hrest], hlast⟩
      | pop =>
          obtain ⟨hanswer, hnext⟩ := h.pop s q hrel
          obtain ⟨hrest, hlast⟩ := ih hnext
          exact ⟨by simp only [Impl.run, BoundedFifo.run, hanswer, hrest], hlast⟩

end BoundedFifo

import Mathlib.Algebra.Group.Nat.Defs

/-!
# Writes that wait in queues

Writes are numbered as they are issued.  A write takes effect at once, or waits
in a queue; from the front of its queue it takes effect, or is sent on to
another queue.  The writes of one class take effect in the order of their
numbers when none of them overtakes another: a new one joins the queue in which
the others wait, or finds none waiting, and one that is sent on leaves none
behind.  No write is lost.
-/

namespace WriteOrder

variable {κ : Type}

/-- A write: its class and its number. -/
structure Item (κ : Type) where
  cls : κ
  num : Nat

/-- The queues, the writes that took effect with the latest first, and how many
were issued. -/
structure Desk (κ : Type) where
  queue : Nat → List (Item κ)
  done : List (Item κ)
  issued : Nat

namespace Desk

/-- No write of the class waits in the queue. -/
def Clear (s : Desk κ) (q : Nat) (c : κ) : Prop := ∀ i ∈ s.queue q, i.cls ≠ c

/-- One step that lets no write overtake another of its class. -/
inductive Step (s s' : Desk κ) : Prop
  | direct (c : κ) (hfree : ∀ q, s.Clear q c)
      (hqueue : ∀ q, s'.queue q = s.queue q) (hdone : s'.done = ⟨c, s.issued⟩ :: s.done)
      (hissued : s'.issued = s.issued + 1)
  | enqueue (c : κ) (q : Nat) (hone : ∀ q', q' ≠ q → s.Clear q' c)
      (hlast : s'.queue q = s.queue q ++ [⟨c, s.issued⟩])
      (hqueue : ∀ q', q' ≠ q → s'.queue q' = s.queue q') (hdone : s'.done = s.done)
      (hissued : s'.issued = s.issued + 1)
  | handle (i : Item κ) (q : Nat) (hfront : s.queue q = i :: s'.queue q)
      (hqueue : ∀ q', q' ≠ q → s'.queue q' = s.queue q') (hdone : s'.done = i :: s.done)
      (hissued : s'.issued = s.issued)
  | sendOn (i : Item κ) (q q' : Nat) (hne : q' ≠ q) (hfront : s.queue q = i :: s'.queue q)
      (halone : s'.Clear q i.cls) (hlast : s'.queue q' = s.queue q' ++ [i])
      (hqueue : ∀ r, r ≠ q → r ≠ q' → s'.queue r = s.queue r) (hdone : s'.done = s.done)
      (hissued : s'.issued = s.issued)
  | rest (hqueue : ∀ q, s'.queue q = s.queue q) (hdone : s'.done = s.done)
      (hissued : s'.issued = s.issued)

/-- The writes of a class wait in one queue, in order, behind all those that
took effect; every write that was issued waits or took effect. -/
structure InOrder (s : Desk κ) : Prop where
  sorted : ∀ q, (s.queue q).Pairwise fun i j => i.cls = j.cls → i.num < j.num
  oneQueue : ∀ {q q' : Nat} {i j : Item κ}, i ∈ s.queue q → j ∈ s.queue q' → i.cls = j.cls → q = q'
  fresh : ∀ {q : Nat} {i : Item κ}, i ∈ s.queue q → i.num < s.issued
  doneFresh : ∀ {i : Item κ}, i ∈ s.done → i.num < s.issued
  behind : ∀ {q : Nat} {i j : Item κ}, i ∈ s.queue q → j ∈ s.done → i.cls = j.cls → j.num < i.num
  effects : s.done.Pairwise fun i j => i.cls = j.cls → j.num < i.num
  kept : ∀ n, n < s.issued → (∃ i ∈ s.done, i.num = n) ∨ ∃ q, ∃ i ∈ s.queue q, i.num = n

namespace InOrder

variable {s s' : Desk κ}

theorem start (hqueue : ∀ q, s.queue q = []) (hdone : s.done = []) (hissued : s.issued = 0) :
    s.InOrder where
  sorted q := by
    rw [hqueue]
    exact .nil
  oneQueue hi := by
    rw [hqueue] at hi
    cases hi
  fresh hi := by
    rw [hqueue] at hi
    cases hi
  doneFresh hi := by
    rw [hdone] at hi
    cases hi
  behind hi := by
    rw [hqueue] at hi
    cases hi
  effects := by
    rw [hdone]
    exact .nil
  kept n hn := by
    rw [hissued] at hn
    exact (Nat.not_lt_zero n hn).elim

theorem direct (h : s.InOrder) {c : κ} (hfree : ∀ q, s.Clear q c)
    (hqueue : ∀ q, s'.queue q = s.queue q) (hdone : s'.done = ⟨c, s.issued⟩ :: s.done)
    (hissued : s'.issued = s.issued + 1) : s'.InOrder where
  sorted q := by
    rw [hqueue]
    exact h.sorted q
  oneQueue hi hj := by
    rw [hqueue] at hi hj
    exact h.oneQueue hi hj
  fresh hi := by
    rw [hqueue] at hi
    have := h.fresh hi
    omega
  doneFresh hi := by
    rw [hdone] at hi
    rcases List.mem_cons.mp hi with rfl | hi
    · rw [hissued]
      exact Nat.lt_succ_self _
    · have := h.doneFresh hi
      omega
  behind {q i j} hi hj hcls := by
    rw [hqueue] at hi
    rw [hdone] at hj
    rcases List.mem_cons.mp hj with rfl | hj
    · exact (hfree q i hi hcls).elim
    · exact h.behind hi hj hcls
  effects := by
    rw [hdone]
    exact List.pairwise_cons.mpr ⟨fun j hj _ => h.doneFresh hj, h.effects⟩
  kept n hn := by
    rw [hissued] at hn
    rcases Nat.lt_or_ge n s.issued with hlt | hge
    · rcases h.kept n hlt with ⟨i, hi, hnum⟩ | ⟨q, i, hi, hnum⟩
      · exact Or.inl ⟨i, by rw [hdone]; exact List.mem_cons_of_mem _ hi, hnum⟩
      · exact Or.inr ⟨q, i, by rw [hqueue]; exact hi, hnum⟩
    · exact Or.inl ⟨⟨c, s.issued⟩, by rw [hdone]; exact List.mem_cons_self,
        Nat.le_antisymm hge (Nat.lt_succ_iff.mp hn)⟩

theorem enqueue (h : s.InOrder) {c : κ} {q : Nat} (hone : ∀ q', q' ≠ q → s.Clear q' c)
    (hlast : s'.queue q = s.queue q ++ [⟨c, s.issued⟩])
    (hqueue : ∀ q', q' ≠ q → s'.queue q' = s.queue q') (hdone : s'.done = s.done)
    (hissued : s'.issued = s.issued + 1) : s'.InOrder := by
  have hmem : ∀ {q' : Nat} {i : Item κ}, i ∈ s'.queue q' →
      i ∈ s.queue q' ∨ (q' = q ∧ i = ⟨c, s.issued⟩) := by
    intro q' i hi
    by_cases hq : q' = q
    · rw [hq, hlast, List.mem_append, List.mem_singleton] at hi
      exact hi.imp (fun hold => hq ▸ hold) fun hnew => ⟨hq, hnew⟩
    · rw [hqueue q' hq] at hi
      exact Or.inl hi
  refine ⟨fun q' => ?_, fun {q₁ q₂ i j} hi hj hcls => ?_, fun hi => ?_, fun hi => ?_,
    fun {q' i j} hi hj hcls => ?_, ?_, fun n hn => ?_⟩
  · by_cases hq : q' = q
    · rw [hq, hlast]
      refine List.pairwise_append.mpr ⟨h.sorted q, List.pairwise_singleton _ _, ?_⟩
      intro i hi j hj _
      rw [List.mem_singleton.mp hj]
      exact h.fresh hi
    · rw [hqueue q' hq]
      exact h.sorted q'
  · rcases hmem hi with hi' | ⟨hq₁, rfl⟩
    · rcases hmem hj with hj' | ⟨hq₂, rfl⟩
      · exact h.oneQueue hi' hj' hcls
      · by_cases hq : q₁ = q
        · rw [hq, hq₂]
        · exact (hone q₁ hq i hi' hcls).elim
    · rcases hmem hj with hj' | ⟨hq₂, rfl⟩
      · by_cases hq : q₂ = q
        · rw [hq, hq₁]
        · exact (hone q₂ hq j hj' hcls.symm).elim
      · rw [hq₁, hq₂]
  · rw [hissued]
    rcases hmem hi with hi' | ⟨-, rfl⟩
    · exact Nat.lt_succ_of_lt (h.fresh hi')
    · exact Nat.lt_succ_self _
  · rw [hdone] at hi
    rw [hissued]
    exact Nat.lt_succ_of_lt (h.doneFresh hi)
  · rw [hdone] at hj
    rcases hmem hi with hi' | ⟨-, rfl⟩
    · exact h.behind hi' hj hcls
    · exact h.doneFresh hj
  · rw [hdone]
    exact h.effects
  · rw [hissued] at hn
    have hold : ∀ {q' : Nat} {i : Item κ}, i ∈ s.queue q' → i ∈ s'.queue q' := by
      intro q' i hi
      by_cases hq : q' = q
      · rw [hq] at hi
        rw [hq, hlast]
        exact List.mem_append_left _ hi
      · rw [hqueue q' hq]
        exact hi
    rcases Nat.lt_or_ge n s.issued with hlt | hge
    · rcases h.kept n hlt with ⟨i, hi, hnum⟩ | ⟨q', i, hi, hnum⟩
      · exact Or.inl ⟨i, by rw [hdone]; exact hi, hnum⟩
      · exact Or.inr ⟨q', i, hold hi, hnum⟩
    · refine Or.inr ⟨q, ⟨c, s.issued⟩, ?_, Nat.le_antisymm hge (Nat.lt_succ_iff.mp hn)⟩
      rw [hlast]
      exact List.mem_append_right _ (List.mem_singleton.mpr rfl)

/-- What leaves the front of a queue is the oldest of its class, so it may take
effect. -/
theorem handle (h : s.InOrder) {i : Item κ} {q : Nat} (hfront : s.queue q = i :: s'.queue q)
    (hqueue : ∀ q', q' ≠ q → s'.queue q' = s.queue q') (hdone : s'.done = i :: s.done)
    (hissued : s'.issued = s.issued) : s'.InOrder := by
  have hi : i ∈ s.queue q := by
    rw [hfront]
    exact List.mem_cons_self
  have hsorted := h.sorted q
  rw [hfront, List.pairwise_cons] at hsorted
  have hmem : ∀ {q' : Nat} {j : Item κ}, j ∈ s'.queue q' → j ∈ s.queue q' := by
    intro q' j hj
    by_cases hq : q' = q
    · rw [hq] at hj
      rw [hq, hfront]
      exact List.mem_cons_of_mem _ hj
    · rw [hqueue q' hq] at hj
      exact hj
  refine ⟨fun q' => ?_, fun hj hj' => h.oneQueue (hmem hj) (hmem hj'), fun hj => ?_, fun hj => ?_,
    fun {q' j j'} hj hj' hcls => ?_, ?_, fun n hn => ?_⟩
  · by_cases hq : q' = q
    · rw [hq]
      exact hsorted.2
    · rw [hqueue q' hq]
      exact h.sorted q'
  · rw [hissued]
    exact h.fresh (hmem hj)
  · rw [hdone] at hj
    rw [hissued]
    rcases List.mem_cons.mp hj with rfl | hj
    · exact h.fresh hi
    · exact h.doneFresh hj
  · rw [hdone] at hj'
    rcases List.mem_cons.mp hj' with rfl | hj'
    · have hq := h.oneQueue (hmem hj) hi hcls
      rw [hq] at hj
      exact hsorted.1 j hj hcls.symm
    · exact h.behind (hmem hj) hj' hcls
  · rw [hdone]
    exact List.pairwise_cons.mpr ⟨fun j hj hcls => h.behind hi hj hcls, h.effects⟩
  · rw [hissued] at hn
    rcases h.kept n hn with ⟨j, hj, hnum⟩ | ⟨q', j, hj, hnum⟩
    · exact Or.inl ⟨j, by rw [hdone]; exact List.mem_cons_of_mem _ hj, hnum⟩
    · by_cases hq : q' = q
      · rw [hq, hfront] at hj
        rcases List.mem_cons.mp hj with rfl | hj
        · exact Or.inl ⟨j, by rw [hdone]; exact List.mem_cons_self, hnum⟩
        · exact Or.inr ⟨q, j, hj, hnum⟩
      · exact Or.inr ⟨q', j, by rw [hqueue q' hq]; exact hj, hnum⟩

theorem sendOn (h : s.InOrder) {i : Item κ} {q q' : Nat} (hne : q' ≠ q)
    (hfront : s.queue q = i :: s'.queue q) (halone : s'.Clear q i.cls)
    (hlast : s'.queue q' = s.queue q' ++ [i])
    (hqueue : ∀ r, r ≠ q → r ≠ q' → s'.queue r = s.queue r) (hdone : s'.done = s.done)
    (hissued : s'.issued = s.issued) : s'.InOrder := by
  have hi : i ∈ s.queue q := by
    rw [hfront]
    exact List.mem_cons_self
  have hsorted := h.sorted q
  rw [hfront, List.pairwise_cons] at hsorted
  -- what waits now waited before in the same queue and is of another class, or is `i`
  have hmem : ∀ {r : Nat} {j : Item κ}, j ∈ s'.queue r →
      (j ∈ s.queue r ∧ j.cls ≠ i.cls) ∨ (r = q' ∧ j = i) := by
    intro r j hj
    by_cases hr : r = q
    · rw [hr] at hj
      refine Or.inl ⟨?_, halone j hj⟩
      rw [hr, hfront]
      exact List.mem_cons_of_mem _ hj
    · have hother : ∀ {j : Item κ}, j ∈ s.queue r → j.cls ≠ i.cls :=
        fun hj hcls => hr (h.oneQueue hj hi hcls)
      by_cases hr' : r = q'
      · rw [hr', hlast, List.mem_append, List.mem_singleton] at hj
        rcases hj with hj | hj
        · rw [← hr'] at hj
          exact Or.inl ⟨hj, hother hj⟩
        · exact Or.inr ⟨hr', hj⟩
      · rw [hqueue r hr hr'] at hj
        exact Or.inl ⟨hj, hother hj⟩
  refine ⟨fun r => ?_, fun {r r' j j'} hj hj' hcls => ?_, fun hj => ?_, fun hj => ?_,
    fun {r j j'} hj hj' hcls => ?_, ?_, fun n hn => ?_⟩
  · by_cases hr : r = q
    · rw [hr]
      exact hsorted.2
    · by_cases hr' : r = q'
      · rw [hr', hlast]
        refine List.pairwise_append.mpr ⟨h.sorted q', List.pairwise_singleton _ _, ?_⟩
        intro j hj j' hj' hcls
        rw [List.mem_singleton.mp hj'] at hcls
        exact (hne (h.oneQueue hj hi hcls)).elim
      · rw [hqueue r hr hr']
        exact h.sorted r
  · rcases hmem hj with ⟨hold, hcj⟩ | ⟨hr, rfl⟩
    · rcases hmem hj' with ⟨hold', -⟩ | ⟨-, rfl⟩
      · exact h.oneQueue hold hold' hcls
      · exact (hcj hcls).elim
    · rcases hmem hj' with ⟨-, hcj'⟩ | ⟨hr', -⟩
      · exact (hcj' hcls.symm).elim
      · rw [hr, hr']
  · rw [hissued]
    rcases hmem hj with ⟨hold, -⟩ | ⟨-, rfl⟩
    · exact h.fresh hold
    · exact h.fresh hi
  · rw [hdone] at hj
    rw [hissued]
    exact h.doneFresh hj
  · rw [hdone] at hj'
    rcases hmem hj with ⟨hold, -⟩ | ⟨-, rfl⟩
    · exact h.behind hold hj' hcls
    · exact h.behind hi hj' hcls
  · rw [hdone]
    exact h.effects
  · rw [hissued] at hn
    rcases h.kept n hn with ⟨j, hj, hnum⟩ | ⟨r, j, hj, hnum⟩
    · exact Or.inl ⟨j, by rw [hdone]; exact hj, hnum⟩
    · have hnew : i ∈ s'.queue q' := by
        rw [hlast]
        exact List.mem_append_right _ (List.mem_singleton.mpr rfl)
      by_cases hr : r = q
      · rw [hr, hfront] at hj
        rcases List.mem_cons.mp hj with rfl | hj
        · exact Or.inr ⟨q', j, hnew, hnum⟩
        · exact Or.inr ⟨q, j, hj, hnum⟩
      · by_cases hr' : r = q'
        · rw [hr'] at hj
          exact Or.inr ⟨q', j, by rw [hlast]; exact List.mem_append_left _ hj, hnum⟩
        · exact Or.inr ⟨r, j, by rw [hqueue r hr hr']; exact hj, hnum⟩

theorem rest (h : s.InOrder) (hqueue : ∀ q, s'.queue q = s.queue q) (hdone : s'.done = s.done)
    (hissued : s'.issued = s.issued) : s'.InOrder := by
  have hsame : s' = s := by
    cases s
    cases s'
    have hq := funext hqueue
    dsimp only at hq hdone hissued
    rw [hq, hdone, hissued]
  rw [hsame]
  exact h

/-- **A step** that lets no write overtake another keeps the order. -/
theorem step (h : s.InOrder) (hstep : Step s s') : s'.InOrder := by
  cases hstep with
  | direct c hfree hqueue hdone hissued => exact h.direct hfree hqueue hdone hissued
  | enqueue c q hone hlast hqueue hdone hissued => exact h.enqueue hone hlast hqueue hdone hissued
  | handle i q hfront hqueue hdone hissued => exact h.handle hfront hqueue hdone hissued
  | sendOn i q q' hne hfront halone hlast hqueue hdone hissued =>
    exact h.sendOn hne hfront halone hlast hqueue hdone hissued
  | rest hqueue hdone hissued => exact h.rest hqueue hdone hissued

/-- **Program order.**  The numbers of the writes of a class that took effect,
with the latest first. -/
theorem effects_of_class [DecidableEq κ] (h : s.InOrder) (c : κ) :
    ((s.done.filter fun i => decide (i.cls = c)).map Item.num).Pairwise (· > ·) := by
  rw [List.pairwise_map, List.pairwise_filter]
  refine h.effects.imp fun {i j} hij hi hj => hij ?_
  rw [of_decide_eq_true hi, of_decide_eq_true hj]

end InOrder

end Desk

end WriteOrder

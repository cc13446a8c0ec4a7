import Mathlib.Data.List.TakeWhile
import Mathlib.Algebra.Group.Nat.Defs
import Mathlib.Logic.Function.Basic

/-!
# Chains of pointers

A heap of nodes is the map from a node to the pointer stored in it.  A segment
says which nodes are passed on the way from one pointer to another, so that a
list of nodes stands for the memory that holds it.  `walk` is the loop that goes
along a chain up to the first node at which it has to stop, and `relink` stores
a pointer behind the last node that was passed.
-/

namespace PointerChain

variable {N : Type}

/-- From the pointer `p` on, `nodes` are passed before the pointer `q` is found. -/
def Segment (next : N → Option N) : Option N → List N → Option N → Prop
  | p, [], q => p = q
  | p, n :: nodes, q => p = some n ∧ Segment next (next n) nodes q

variable {next next' : N → Option N} {p q r : Option N} {n : N} {nodes before after : List N}

theorem segment_append : Segment next p (before ++ after) q ↔
    ∃ r, Segment next p before r ∧ Segment next r after q := by
  induction before generalizing p with
  | nil => simp [Segment]
  | cons n before ih =>
      simp only [List.cons_append, Segment, ih]
      constructor
      · rintro ⟨hp, r, hbefore, hafter⟩
        exact ⟨r, ⟨hp, hbefore⟩, hafter⟩
      · rintro ⟨r, ⟨hp, hbefore⟩, hafter⟩
        exact ⟨hp, r, hbefore, hafter⟩

theorem Segment.congr (h : Segment next p nodes q) (hsame : ∀ n ∈ nodes, next' n = next n) :
    Segment next' p nodes q := by
  induction nodes generalizing p with
  | nil => exact h
  | cons n nodes ih =>
      obtain ⟨hp, hrest⟩ := h
      refine ⟨hp, ?_⟩
      rw [hsame n List.mem_cons_self]
      exact ih hrest fun m hm => hsame m (List.mem_cons_of_mem n hm)

theorem Segment.head (h : Segment next p nodes none) : p = nodes.head? := by
  cases nodes with
  | nil => exact h
  | cons n nodes => exact h.1

/-! ## The loop along a chain -/

/-- The loop from `cur`, with the node before it, up to the first node that `stop`
names or the null pointer; `none` is a loop that is not at its end after `fuel` turns. -/
def walk (next : N → Option N) (stop : N → Bool) :
    Nat → Option N → Option N → Option (Option N × Option N)
  | _, none, prev => some (none, prev)
  | 0, some n, prev => if stop n then some (some n, prev) else none
  | fuel + 1, some n, prev =>
      if stop n then some (some n, prev) else walk next stop fuel (next n) (some n)

/-- The nodes that the loop passes, and those it has not passed. -/
def passed (stop : N → Bool) (nodes : List N) : List N := nodes.takeWhile fun n => !stop n

def ahead (stop : N → Bool) (nodes : List N) : List N := nodes.dropWhile fun n => !stop n

variable {stop : N → Bool} {fuel : Nat} {prev : Option N} {x : Option N × Option N}

theorem passed_append_ahead (stop : N → Bool) (nodes : List N) :
    passed stop nodes ++ ahead stop nodes = nodes :=
  List.takeWhile_append_dropWhile

theorem passed_cons : passed stop (n :: nodes) = if stop n then [] else n :: passed stop nodes := by
  cases h : stop n with
  | true => simp [passed, h]
  | false => simp [passed, h]

theorem ahead_cons : ahead stop (n :: nodes) = if stop n then n :: nodes else ahead stop nodes := by
  cases h : stop n with
  | true => simp [ahead, h]
  | false => simp [ahead, h]

theorem not_stop_of_passed (h : n ∈ passed stop nodes) : stop n = false := by
  simpa using List.mem_takeWhile_imp h

theorem stop_of_ahead (h : ahead stop nodes = n :: after) : stop n = true := by
  have hhead := List.head?_dropWhile_not (fun m => !stop m) nodes
  unfold ahead at h
  rw [h] at hhead
  simpa using hhead

/-- **Where the loop ends**, if it does. -/
theorem walk_some (h : Segment next p nodes none) (hwalk : walk next stop fuel p prev = some x) :
    x = ((ahead stop nodes).head?, (passed stop nodes).getLast?.or prev) := by
  induction nodes generalizing p prev fuel with
  | nil =>
      obtain rfl : p = none := h
      cases fuel with
      | zero => exact (Option.some.inj hwalk).symm
      | succ fuel => exact (Option.some.inj hwalk).symm
  | cons n nodes ih =>
      obtain ⟨rfl, hrest⟩ := h
      rw [ahead_cons, passed_cons]
      cases hstop : stop n with
      | true =>
          cases fuel with
          | zero =>
              rw [walk, if_pos hstop] at hwalk
              exact (Option.some.inj hwalk).symm
          | succ fuel =>
              rw [walk, if_pos hstop] at hwalk
              exact (Option.some.inj hwalk).symm
      | false =>
          have hgo : ¬ stop n = true := by simp [hstop]
          cases fuel with
          | zero =>
              rw [walk, if_neg hgo] at hwalk
              cases hwalk
          | succ fuel =>
              rw [walk, if_neg hgo] at hwalk
              rw [ih hrest hwalk]
              cases hpassed : passed stop nodes with
              | nil => simp
              | cons m rest => simp [List.getLast?_cons]

/-- **The loop ends** after as many turns as there are nodes. -/
theorem walk_ends (stop : N → Bool) (prev : Option N) (h : Segment next p nodes none)
    (hfuel : nodes.length ≤ fuel) : ∃ x, walk next stop fuel p prev = some x := by
  induction nodes generalizing p prev fuel with
  | nil =>
      obtain rfl : p = none := h
      cases fuel with
      | zero => exact ⟨_, rfl⟩
      | succ fuel => exact ⟨_, rfl⟩
  | cons n nodes ih =>
      obtain ⟨rfl, hrest⟩ := h
      cases fuel with
      | zero => exact absurd hfuel (by simp)
      | succ fuel =>
          rw [walk]
          split
          · exact ⟨_, rfl⟩
          · exact ih _ hrest (by simpa using hfuel)

/-! ## A pointer stored behind a node -/

variable [DecidableEq N]

/-- The pointer `q` behind the node `prev`, or in the place of the first pointer. -/
def relink (next : N → Option N) (first prev q : Option N) : (N → Option N) × Option N :=
  match prev with
  | some n => (Function.update next n q, first)
  | none => (next, q)

/-- **Behind the last of the nodes** there is the pointer that was stored. -/
theorem Segment.relink (h : Segment next p before r) (hnodup : before.Nodup) (q : Option N) :
    Segment (relink next p before.getLast? q).1 (relink next p before.getLast? q).2 before q := by
  rcases List.eq_nil_or_concat before with rfl | ⟨front, n, rfl⟩
  · rfl
  · rw [List.concat_eq_append] at h hnodup ⊢
    obtain ⟨m, hfront, hlast⟩ := segment_append.mp h
    have hnew : n ∉ front := fun hmem =>
      (List.nodup_append.mp hnodup).2.2 n hmem n List.mem_cons_self rfl
    have hsplit : PointerChain.relink next p (front ++ [n]).getLast? q =
        (Function.update next n q, p) := by simp [PointerChain.relink]
    rw [hsplit]
    refine segment_append.mpr ⟨m, hfront.congr fun k hk => ?_, hlast.1, ?_⟩
    · apply Function.update_of_ne
      rintro rfl
      exact hnew hk
    · exact Function.update_self n q next

theorem relink_other (hn : n ∉ before) : (relink next p before.getLast? q).1 n = next n := by
  unfold relink
  split
  · next m hm =>
      apply Function.update_of_ne
      rintro rfl
      exact hn (List.mem_of_getLast? hm)
  · rfl

end PointerChain

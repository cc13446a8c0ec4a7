import BaoHypervisor.PointerChain
import BaoHypervisor.StepSystem
import Mathlib.Data.List.Nodup

/-!
# Linked lists

The lists of `list.h`: a node is linked in through the pointer at its start, and a
list has a pointer to its first and to its last node.  Every operation holds the lock
of the list.  The memory of all nodes is one map, so that a node that is not on this
list may be on another one, and be changed there at any time.
-/

namespace Bao

open PointerChain

variable {N : Type}

/-- `struct list`, with the pointers of the nodes in memory. -/
structure LinkedList (N : Type) where
  next : N → Option N
  head : Option N
  tail : Option N

namespace LinkedList

section

variable [DecidableEq N]

/-- `*node = p`. -/
def setNext (s : LinkedList N) (node : N) (p : Option N) : LinkedList N :=
  { s with next := Function.update s.next node p }

/-- `*prev = p`, or `list->head = p` where there is no node before. -/
def setLink (s : LinkedList N) (prev p : Option N) : LinkedList N :=
  let linked := relink s.next s.head prev p
  { s with next := linked.1, head := linked.2 }

/-- `list_init`. -/
def listInit (s : LinkedList N) : LinkedList N := { s with head := none, tail := none }

/-- `list_push`; nothing is done for a null pointer. -/
def listPush (s : LinkedList N) (node : Option N) : LinkedList N :=
  match node with
  | none => s
  | some n =>
      let s := s.setNext n none
      let s := match s.tail with
        | some t => s.setNext t (some n)
        | none => s
      let s := { s with tail := some n }
      match s.head with
      | some _ => s
      | none => { s with head := some n }

/-- `list_pop`: the node taken off, and the list afterwards. -/
def listPop (s : LinkedList N) : Option N × LinkedList N :=
  match s.head with
  | none => (none, s)
  | some temp =>
      let s := { s with head := s.next temp }
      let s := match s.head with
        | some _ => s
        | none => { s with tail := none }
      (some temp, s.setNext temp none)

/-- `list_rm`, for at most `fuel` turns of its loop. -/
def listRm (s : LinkedList N) (node : Option N) (fuel : Nat) : Option (LinkedList N) :=
  match node with
  | none => some s
  | some n =>
      match walk s.next (· == n) fuel s.head none with
      | none => none
      | some (none, _) => some s
      | some (some temp, tempPrev) =>
          let s := s.setLink tempPrev (s.next temp)
          some (if s.tail = some n then { s with tail := tempPrev } else s)

/-- `list_insert_ordered`, for at most `fuel` turns of its loop. -/
def listInsertOrdered (s : LinkedList N) (node : Option N) (cmp : N → N → Int) (fuel : Nat) :
    Option (LinkedList N) :=
  match node with
  | none => some s
  | some n =>
      let s := s.setNext n none
      match walk s.next (fun cur => decide (0 < cmp cur n)) fuel s.head none with
      | none => none
      | some (cur, tail) =>
          let s := match cur with
            | some _ => s.setNext n cur
            | none => { s with tail := some n }
          some (s.setLink tail (some n))

end

/-! ## What a list holds -/

/-- The list holds the nodes `l`: its chain passes each of them once and ends, and it
starts at the first and its tail is the last of them, or both are null. -/
structure Holds (s : LinkedList N) (l : List N) : Prop where
  chain : Segment s.next s.head l none
  nodup : l.Nodup
  head : s.head = l.head?
  tail : s.tail = l.getLast?

/-- A comparison, which orders the nodes. -/
structure Compares (cmp : N → N → Int) : Prop where
  swap : ∀ a b, 0 < cmp a b → cmp b a ≤ 0
  trans : ∀ a b c, cmp a b ≤ 0 → cmp b c ≤ 0 → cmp a c ≤ 0

/-- No node comes after one that it compares below. -/
def Sorted (cmp : N → N → Int) (l : List N) : Prop := l.Pairwise fun a b => cmp a b ≤ 0

/-- The node in its place: behind the nodes up to the first that compares above it. -/
def insertOrdered (cmp : N → N → Int) (node : N) (l : List N) : List N :=
  l.takeWhile (fun a => decide (cmp a node ≤ 0)) ++
    node :: l.dropWhile fun a => decide (cmp a node ≤ 0)

variable {s s' : LinkedList N} {l : List N} {n : N} {node : Option N} {cmp : N → N → Int}
  {fuel : Nat}

theorem Holds.init : (listInit s).Holds [] where
  chain := rfl
  nodup := List.nodup_nil
  head := rfl
  tail := rfl

theorem Holds.congr (h : s.Holds l) (hhead : s'.head = s.head) (htail : s'.tail = s.tail)
    (hnext : ∀ n ∈ l, s'.next n = s.next n) : s'.Holds l where
  chain := by
    rw [hhead]
    exact h.chain.congr hnext
  nodup := h.nodup
  head := hhead.trans h.head
  tail := htail.trans h.tail

variable [DecidableEq N]

theorem Holds.setNext (h : s.Holds l) (hn : n ∉ l) (p : Option N) : (s.setNext n p).Holds l := by
  refine h.congr rfl rfl fun m hm => ?_
  apply Function.update_of_ne
  rintro rfl
  exact hn hm

/-! ## The operations -/

/-- **A pointer stored behind the nodes `before`** puts the chain that starts there in
the place of what came after them. -/
theorem segment_setLink {before : List N} {q : Option N} (rest after : List N)
    (hchain : Segment s.next s.head (before ++ rest) none) (hafter : Segment s.next q after none)
    (hnodup : (before ++ after).Nodup) :
    Segment (s.setLink before.getLast? q).next (s.setLink before.getLast? q).head
      (before ++ after) none := by
  obtain ⟨hbefore, -, hapart⟩ := List.nodup_append.mp hnodup
  obtain ⟨r, hfirst, -⟩ := segment_append.mp hchain
  refine segment_append.mpr ⟨q, hfirst.relink hbefore q, hafter.congr fun m hm => ?_⟩
  exact relink_other fun hmem => hapart m hmem m hm rfl

/-- **`list_push`** appends. -/
theorem Holds.push (h : s.Holds l) (hn : n ∉ l) : (s.listPush (some n)).Holds (l ++ [n]) := by
  have hnodup : (l ++ [n]).Nodup := by simpa using List.Nodup.concat hn h.nodup
  have hs := h.setNext hn none
  have hown : Segment (s.setNext n none).next (some n) [n] none := ⟨rfl, Function.update_self ..⟩
  have hchain := segment_setLink [] _ (by simpa using hs.chain) hown hnodup
  have heq : s.listPush (some n) =
      { (s.setNext n none).setLink l.getLast? (some n) with tail := some n } := by
    cases l with
    | nil => simp [listPush, LinkedList.setNext, setLink, relink, h.head, h.tail]
    | cons m rest =>
        rw [← h.tail]
        have htail := h.tail
        rw [List.getLast?_eq_some_getLast (List.cons_ne_nil m rest)] at htail
        simp [listPush, LinkedList.setNext, setLink, relink, h.head, htail]
  rw [heq]
  exact ⟨hchain, hnodup, hchain.head, List.getLast?_concat.symm⟩

/-- **`list_pop`** takes the first node. -/
theorem Holds.pop (h : s.Holds l) : s.listPop.1 = l.head? ∧ s.listPop.2.Holds l.tail := by
  have hhead := h.head
  cases l with
  | nil =>
      unfold listPop
      rw [hhead]
      exact ⟨rfl, h⟩
  | cons n rest =>
      obtain ⟨-, hrest⟩ := h.chain
      obtain ⟨hn, hnodup⟩ := List.nodup_cons.mp h.nodup
      have hafter : Holds { s with head := s.next n, tail := rest.getLast? } rest :=
        ⟨hrest, hnodup, hrest.head, rfl⟩
      have heq : s.listPop =
          (some n, LinkedList.setNext { s with head := s.next n, tail := rest.getLast? } n none) := by
        have hnext := hrest.head
        have htail := h.tail
        cases rest with
        | nil => simp_all [listPop, LinkedList.setNext]
        | cons m rest =>
            rw [List.getLast?_cons_cons] at htail
            simp_all [listPop, LinkedList.setNext]
      rw [heq]
      exact ⟨rfl, hafter.setNext hn none⟩

/-- **`list_rm`** deletes the node, and leaves the list alone if it is absent. -/
theorem Holds.rm (h : s.Holds l) (hrm : s.listRm (some n) fuel = some s') : s'.Holds (l.erase n) := by
  unfold listRm at hrm
  dsimp only at hrm
  cases hwalk : walk s.next (· == n) fuel s.head none with
  | none =>
      rw [hwalk] at hrm
      cases hrm
  | some x =>
      obtain rfl := walk_some h.chain hwalk
      rw [hwalk] at hrm
      have hsplit := passed_append_ahead (· == n) l
      have hbefore : n ∉ passed (· == n) l := fun hmem => by
        simpa using not_stop_of_passed hmem
      cases hahead : ahead (· == n) l with
      | nil =>
          rw [hahead, List.append_nil] at hsplit
          rw [hahead] at hrm
          cases hrm
          rw [hsplit] at hbefore
          rwa [List.erase_of_not_mem hbefore]
      | cons m after =>
          obtain rfl : m = n := by simpa using stop_of_ahead hahead
          rw [hahead] at hsplit hrm
          generalize passed (· == m) l = before at hsplit hbefore hrm
          subst hsplit
          obtain ⟨r, -, hr, hrest⟩ := segment_append.mp h.chain
          obtain ⟨hnodup, hnodup', hapart⟩ := List.nodup_append.mp h.nodup
          obtain ⟨hm, hafter⟩ := List.nodup_cons.mp hnodup'
          have hboth : (before ++ after).Nodup :=
            List.nodup_append.mpr ⟨hnodup, hafter, fun a ha b hb =>
              hapart a ha b (List.mem_cons_of_mem m hb)⟩
          have hchain := segment_setLink _ _ h.chain hrest hboth
          rw [List.erase_append_right _ hbefore, List.erase_cons_head]
          simp only [List.head?_cons, Option.or_none, Option.some.injEq] at hrm
          have htail : (s.setLink before.getLast? (s.next m)).tail = (m :: after).getLast? := by
            have hlast := h.tail
            rwa [List.getLast?_append_cons] at hlast
          cases after with
          | nil =>
              -- the last node is removed
              rw [if_pos (htail.trans List.getLast?_singleton)] at hrm
              subst hrm
              exact ⟨hchain, hboth, hchain.head, by rw [List.append_nil]⟩
          | cons k rest =>
              have hlast := List.getLast?_eq_some_getLast (List.cons_ne_nil k rest)
              rw [List.getLast?_cons_cons] at htail
              have hother : ¬ (s.setLink before.getLast? (s.next m)).tail = some m := by
                rw [htail, hlast]
                intro heq
                exact hm (Option.some.inj heq ▸ List.getLast_mem (List.cons_ne_nil k rest))
              rw [if_neg hother] at hrm
              subst hrm
              exact ⟨hchain, hboth, hchain.head, by rw [htail, List.getLast?_append_cons]⟩

omit [DecidableEq N] in
theorem insertOrdered_eq : insertOrdered cmp n l =
    passed (fun a => decide (0 < cmp a n)) l ++ n :: ahead (fun a => decide (0 < cmp a n)) l := by
  have hstop : (fun a => decide (cmp a n ≤ 0)) = fun a => !decide (0 < cmp a n) := by
    funext a
    rw [← decide_not]
    exact decide_eq_decide.mpr Int.not_lt.symm
  rw [insertOrdered, hstop]
  rfl

/-- **`list_insert_ordered`** puts the node in its place. -/
theorem Holds.insert (h : s.Holds l) (hn : n ∉ l)
    (hins : s.listInsertOrdered (some n) cmp fuel = some s') : s'.Holds (insertOrdered cmp n l) := by
  have hs := h.setNext hn none
  unfold listInsertOrdered at hins
  dsimp only at hins
  cases hwalk : walk (s.setNext n none).next (fun a => decide (0 < cmp a n)) fuel
      (s.setNext n none).head none with
  | none =>
      rw [hwalk] at hins
      cases hins
  | some x =>
      obtain rfl := walk_some hs.chain hwalk
      rw [hwalk, Option.or_none] at hins
      rw [insertOrdered_eq]
      have hsplit := passed_append_ahead (fun a => decide (0 < cmp a n)) l
      generalize passed (fun a => decide (0 < cmp a n)) l = before at hsplit hins ⊢
      generalize ahead (fun a => decide (0 < cmp a n)) l = after at hsplit hins ⊢
      subst hsplit
      have hboth : (before ++ n :: after).Nodup := by
        rw [List.nodup_middle]
        exact List.nodup_cons.mpr ⟨hn, h.nodup⟩
      obtain ⟨r, -, hafter⟩ := segment_append.mp hs.chain
      have hown : (s.setNext n none).next n = none := Function.update_self ..
      have hlast := hs.tail
      cases after with
      | nil =>
          cases hins
          have hchain := segment_setLink (s := { s.setNext n none with tail := some n }) _ [n]
            hs.chain ⟨rfl, hown⟩ hboth
          exact ⟨hchain, hboth, hchain.head, by rw [List.getLast?_append_cons]; rfl⟩
      | cons m rest =>
          cases hins
          have hs' := hs.setNext hn (some m)
          obtain ⟨r', -, hrest⟩ := segment_append.mp hs'.chain
          have hlink : Segment ((s.setNext n none).setNext n (some m)).next (some n)
              (n :: m :: rest) none := by
            refine ⟨rfl, ?_⟩
            have hnext : ((s.setNext n none).setNext n (some m)).next n = some m :=
              Function.update_self ..
            rw [hnext]
            exact ⟨rfl, hrest.2⟩
          have hchain := segment_setLink _ _ hs'.chain hlink hboth
          refine ⟨hchain, hboth, hchain.head, ?_⟩
          rw [List.getLast?_append_cons] at hlast
          rw [List.getLast?_append_cons, List.getLast?_cons_cons]
          exact hlast

omit [DecidableEq N] in
/-- **Sorted insertion** keeps a list sorted, and the node comes behind all nodes it
compares equal to, and before those that compare above it. -/
theorem sorted_insertOrdered (hcmp : Compares cmp) (hsorted : Sorted cmp l) (n : N) :
    Sorted cmp (insertOrdered cmp n l) ∧ ∃ before after, l = before ++ after ∧
      insertOrdered cmp n l = before ++ n :: after ∧ (∀ a ∈ before, cmp a n ≤ 0) ∧
      ∀ a ∈ after, 0 < cmp a n := by
  have hsplit := passed_append_ahead (fun a => decide (0 < cmp a n)) l
  have hbefore : ∀ a ∈ passed (fun a => decide (0 < cmp a n)) l, cmp a n ≤ 0 := fun a ha => by
    simpa using not_stop_of_passed ha
  have hafter : ∀ a ∈ ahead (fun a => decide (0 < cmp a n)) l, 0 < cmp a n := by
    cases hahead : ahead (fun a => decide (0 < cmp a n)) l with
    | nil => exact fun a ha => absurd ha List.not_mem_nil
    | cons m rest =>
        have hm : 0 < cmp m n := by simpa using stop_of_ahead hahead
        rw [← hsplit, hahead] at hsorted
        have hrest := (List.pairwise_cons.mp (List.pairwise_append.mp hsorted).2.1).1
        intro a ha
        rcases List.mem_cons.mp ha with rfl | hmem
        · exact hm
        · apply Int.not_le.mp
          intro hle
          exact absurd (hcmp.trans m a n (hrest a hmem) hle) (Int.not_le.mpr hm)
  rw [insertOrdered_eq]
  generalize passed (fun a => decide (0 < cmp a n)) l = before at hsplit hbefore ⊢
  generalize ahead (fun a => decide (0 < cmp a n)) l = after at hsplit hafter ⊢
  subst hsplit
  refine ⟨?_, before, after, rfl, rfl, hbefore, hafter⟩
  obtain ⟨hfirst, hsecond, hcross⟩ := List.pairwise_append.mp hsorted
  refine List.pairwise_append.mpr ⟨hfirst, List.pairwise_cons.mpr ⟨?_, hsecond⟩, ?_⟩
  · exact fun a ha => hcmp.swap a n (hafter a ha)
  · intro a ha b hb
    rcases List.mem_cons.mp hb with rfl | hmem
    · exact hbefore a ha
    · exact hcross a ha b hmem

theorem Holds.rm_ends (h : s.Holds l) (node : Option N) (hfuel : l.length ≤ fuel) :
    ∃ s', s.listRm node fuel = some s' := by
  cases node with
  | none => exact ⟨s, rfl⟩
  | some n =>
      obtain ⟨x, hwalk⟩ := walk_ends (· == n) none h.chain hfuel
      rw [listRm, hwalk]
      obtain ⟨_ | temp, prev⟩ := x
      · exact ⟨_, rfl⟩
      · exact ⟨_, rfl⟩

theorem Holds.insert_ends (h : s.Holds l) (hn : n ∉ l) (cmp : N → N → Int)
    (hfuel : l.length ≤ fuel) : ∃ s', s.listInsertOrdered (some n) cmp fuel = some s' := by
  obtain ⟨x, hwalk⟩ := walk_ends (fun a => decide (0 < cmp a n)) none
    (h.setNext hn none).chain hfuel
  exact ⟨_, by rw [listInsertOrdered, hwalk]⟩

/-! ## Runs -/

/-- A completed call with its argument and result, or a change of nodes that are not
on the list. -/
inductive ListEvent (N : Type) where
  | push (node : Option N)
  | pop (result : Option N)
  | rm (node : Option N)
  | insertOrdered (node : Option N) (cmp : N → N → Int)
  | elsewhere

/-- The sequence after the call. -/
def ListEvent.sequence : ListEvent N → List N → List N
  | .push (some n), l => l ++ [n]
  | .pop _, l => l.tail
  | .rm (some n), l => l.erase n
  | .insertOrdered (some n) cmp, l => LinkedList.insertOrdered cmp n l
  | _, l => l

/-- One call, with the sequence beside the list.  A node that is added is not on the
list; a call that does not return makes no step. -/
inductive ListStep : LinkedList N × List N → ListEvent N → LinkedList N × List N → Prop
  | push {s : LinkedList N} {l : List N} {node : Option N} (hnew : ∀ n, node = some n → n ∉ l) :
      ListStep (s, l) (.push node) (s.listPush node, (ListEvent.push node).sequence l)
  | pop {s : LinkedList N} {l : List N} :
      ListStep (s, l) (.pop s.listPop.1) (s.listPop.2, l.tail)
  | rm {s s' : LinkedList N} {l : List N} {node : Option N} {fuel : Nat}
      (hcall : s.listRm node fuel = some s') :
      ListStep (s, l) (.rm node) (s', (ListEvent.rm node).sequence l)
  | insertOrdered {s s' : LinkedList N} {l : List N} {node : Option N} {cmp : N → N → Int}
      {fuel : Nat} (hnew : ∀ n, node = some n → n ∉ l)
      (hcall : s.listInsertOrdered node cmp fuel = some s') :
      ListStep (s, l) (.insertOrdered node cmp) (s', (ListEvent.insertOrdered node cmp).sequence l)
  | elsewhere {s s' : LinkedList N} {l : List N} (hhead : s'.head = s.head)
      (htail : s'.tail = s.tail) (hnext : ∀ n ∈ l, s'.next n = s.next n) :
      ListStep (s, l) .elsewhere (s', l)

/-- The operations in any order on an initialised list. -/
def listSystem : StepSystem (LinkedList N × List N) (ListEvent N) where
  init p := ∃ s : LinkedList N, p = (s.listInit, [])
  step := ListStep

/-- **One call.** -/
theorem Holds.step {p p' : LinkedList N × List N} {e : ListEvent N} (h : p.1.Holds p.2)
    (hstep : ListStep p e p') : p'.1.Holds p'.2 := by
  cases hstep with
  | @push s l node hnew =>
      cases node with
      | none => exact h
      | some n => exact Holds.push h (hnew n rfl)
  | pop => exact (Holds.pop h).2
  | @rm s s' l node fuel hcall =>
      cases node with
      | none =>
          cases hcall
          exact h
      | some n => exact Holds.rm h hcall
  | @insertOrdered s s' l node cmp fuel hnew hcall =>
      cases node with
      | none =>
          cases hcall
          exact h
      | some n => exact Holds.insert h (hnew n rfl) hcall
  | elsewhere hhead htail hnext => exact Holds.congr h hhead htail hnext

/-- **Lists stay well formed.**  After every sequence of calls the list holds what the
sequence of the same operations does; the next pop takes its first node, the next
removal and the next insertion of a node end, and an insertion keeps a sorted list
sorted, with the node behind all equal ones. -/
theorem lists_well_formed (h : listSystem.Reachable (s, l)) :
    s.Holds l ∧ s.listPop.1 = l.head? ∧
    (∀ node, ∃ least, ∀ fuel, least ≤ fuel → ∃ s', s.listRm node fuel = some s') ∧
    (∀ n, n ∉ l → ∀ cmp, ∃ least, ∀ fuel, least ≤ fuel →
      ∃ s', s.listInsertOrdered (some n) cmp fuel = some s') ∧
    ∀ cmp, Compares cmp → Sorted cmp l → ∀ n,
      Sorted cmp (insertOrdered cmp n l) ∧ ∃ before after, l = before ++ after ∧
        insertOrdered cmp n l = before ++ n :: after ∧ (∀ a ∈ before, cmp a n ≤ 0) ∧
        ∀ a ∈ after, 0 < cmp a n := by
  have hholds : s.Holds l := by
    have hinit : ∀ p, (listSystem (N := N)).init p → p.1.Holds p.2 := by
      rintro p ⟨s, rfl⟩
      exact .init
    exact h.invariant hinit fun p e p' hp _ hstep => hp.step hstep
  refine ⟨hholds, hholds.pop.1, fun node => ⟨l.length, fun fuel => hholds.rm_ends node⟩, ?_, ?_⟩
  · exact fun n hn cmp => ⟨l.length, fun fuel => hholds.insert_ends hn cmp⟩
  · exact fun cmp hcmp hsorted => sorted_insertOrdered hcmp hsorted

/-- Node 2 is pushed, and node 1 put before it in the order of `vmpu_node_cmp`. -/
theorem lists_well_formed_two : ∃ s : LinkedList Nat, s.Holds [1, 2] := by
  let cmp : Nat → Nat → Int := fun a b => if b < a then 1 else if a < b then -1 else 0
  let empty : LinkedList Nat := ⟨fun _ => none, none, none⟩
  have hstart : listSystem.Reachable (empty.listInit, []) := .init ⟨empty, rfl⟩
  have hpush := hstart.step trivial (@ListStep.push _ _ _ _ (some 2) fun _ _ => List.not_mem_nil)
  have hins := hpush.step trivial (@ListStep.insertOrdered _ _ _ _ _ (some 1) cmp 1 (by decide) rfl)
  exact ⟨_, (lists_well_formed hins).1⟩

end LinkedList

end Bao

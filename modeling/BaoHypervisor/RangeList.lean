import Mathlib.Algebra.Group.Nat.Defs

/-!
# Lists of ranges in increasing order

A list of items, each of which stands for the range `[lo a, hi a)`.  The list
is `Apart` when every range ends where a later one starts or before it, so
nonempty ranges are pairwise disjoint and strictly ordered by their start.
The operations are those of an ordered linked list: insertion by a comparison
function, removal of one item, and the replacement of two neighbours by one
range that spans both.
-/

namespace RangeList

variable {α : Type} {lo hi lo' hi' : α → ℕ} {l : List α} {a b : α}

/-- Every range ends at or before the start of each later one. -/
def Apart (lo hi : α → ℕ) (l : List α) : Prop := l.Pairwise fun a b => hi a ≤ lo b

/-- Insertion in front of the first item that compares greater. -/
def insertOrdered (cmp : α → α → Int) (a : α) : List α → List α
  | [] => [a]
  | b :: bs => if 0 < cmp b a then a :: b :: bs else b :: insertOrdered cmp a bs

theorem mem_insertOrdered {cmp : α → α → Int} :
    b ∈ insertOrdered cmp a l ↔ b = a ∨ b ∈ l := by
  induction l with
  | nil => simp [insertOrdered]
  | cons c cs ih =>
      rw [insertOrdered]
      by_cases hc : 0 < cmp c a
      · rw [if_pos hc, List.mem_cons]
      · rw [if_neg hc, List.mem_cons, ih, List.mem_cons]
        constructor
        · rintro (h | h | h)
          · exact .inr (.inl h)
          · exact .inl h
          · exact .inr (.inr h)
        · rintro (h | h | h)
          · exact .inr (.inl h)
          · exact .inl h
          · exact .inr (.inr h)

theorem insertOrdered_perm (cmp : α → α → Int) (a : α) (l : List α) :
    (insertOrdered cmp a l).Perm (a :: l) := by
  induction l with
  | nil => exact List.Perm.refl _
  | cons b bs ih =>
      rw [insertOrdered]
      by_cases hb : 0 < cmp b a
      · rw [if_pos hb]
      · rw [if_neg hb]
        exact (ih.cons b).trans (List.Perm.swap a b bs)

theorem Apart.congr (h : Apart lo hi l)
    (hlo : ∀ a ∈ l, lo' a = lo a) (hhi : ∀ a ∈ l, hi' a = hi a) : Apart lo' hi' l := by
  refine List.Pairwise.imp_of_mem ?_ h
  intro a b ha hb hab
  rw [hhi a ha, hlo b hb]
  exact hab

theorem Apart.sublist {l' : List α} (h : Apart lo hi l) (hsub : l'.Sublist l) : Apart lo hi l' :=
  List.Pairwise.sublist hsub h

theorem Apart.increasing (h : Apart lo hi l) (hne : ∀ a ∈ l, lo a < hi a) :
    l.Pairwise fun a b => lo a < lo b := by
  refine List.Pairwise.imp_of_mem ?_ h
  intro a b ha _ hab
  exact Nat.lt_of_lt_of_le (hne a ha) hab

theorem Apart.nodup (h : Apart lo hi l) (hne : ∀ a ∈ l, lo a < hi a) : l.Nodup := by
  refine (h.increasing hne).imp ?_
  rintro a _ hab rfl
  exact Nat.lt_irrefl _ hab

theorem Apart.disjoint (h : Apart lo hi l) (ha : a ∈ l) (hb : b ∈ l) (hab : a ≠ b) :
    hi a ≤ lo b ∨ hi b ≤ lo a := by
  induction l with
  | nil => cases ha
  | cons c cs ih =>
      obtain ⟨hhead, htail⟩ := List.pairwise_cons.mp h
      rcases List.mem_cons.mp ha with rfl | ha'
      · rcases List.mem_cons.mp hb with rfl | hb'
        · exact absurd rfl hab
        · exact .inl (hhead b hb')
      · rcases List.mem_cons.mp hb with rfl | hb'
        · exact .inr (hhead a ha')
        · exact ih htail ha' hb'

/-- **Ordered insertion keeps ranges apart** when the new range meets none. -/
theorem Apart.insertOrdered {cmp : α → α → Int} (h : Apart lo hi l)
    (hcmp : ∀ b ∈ l, 0 < cmp b a ↔ lo a < lo b) (hne : ∀ b ∈ l, lo b < hi b)
    (ha : lo a < hi a) (hdisj : ∀ b ∈ l, hi a ≤ lo b ∨ hi b ≤ lo a) :
    Apart lo hi (insertOrdered cmp a l) := by
  induction l with
  | nil => exact List.pairwise_singleton _ _
  | cons c cs ih =>
      obtain ⟨hhead, htail⟩ := List.pairwise_cons.mp h
      have hc := hdisj c List.mem_cons_self
      have hnec := hne c List.mem_cons_self
      rw [RangeList.insertOrdered]
      by_cases hgt : 0 < cmp c a
      · rw [if_pos hgt]
        have hlt := (hcmp c List.mem_cons_self).mp hgt
        have hac : hi a ≤ lo c := by omega
        refine List.pairwise_cons.mpr ⟨?_, h⟩
        intro b hb
        rcases List.mem_cons.mp hb with rfl | hb'
        · exact hac
        · have := hhead b hb'
          omega
      · rw [if_neg hgt]
        have hle : ¬ lo a < lo c := fun hlt => hgt ((hcmp c List.mem_cons_self).mpr hlt)
        have hrec := ih htail (fun b hb => hcmp b (List.mem_cons_of_mem _ hb))
          (fun b hb => hne b (List.mem_cons_of_mem _ hb))
          (fun b hb => hdisj b (List.mem_cons_of_mem _ hb))
        refine List.pairwise_cons.mpr ⟨?_, hrec⟩
        intro b hb
        rcases mem_insertOrdered.mp hb with rfl | hb'
        · omega
        · exact hhead b hb'

/-- **Merging neighbours keeps ranges apart.**  The range of `a` grows to that
of both and `b` leaves the list. -/
theorem Apart.merge {pre post : List α} (h : Apart lo hi (pre ++ a :: b :: post))
    (hlo : ∀ c, lo' c = lo c) (hother : ∀ c ∈ pre ++ post, hi' c = hi c)
    (hgrow : hi' a = hi b) : Apart lo' hi' (pre ++ a :: post) := by
  obtain ⟨hpre, hrest, hcross⟩ := List.pairwise_append.mp h
  obtain ⟨-, hb⟩ := List.pairwise_cons.mp hrest
  obtain ⟨hbpost, hpost⟩ := List.pairwise_cons.mp hb
  refine List.pairwise_append.mpr ⟨?_, List.pairwise_cons.mpr ⟨?_, ?_⟩, ?_⟩
  · exact Apart.congr hpre (fun c _ => hlo c) (fun c hc => hother c (List.mem_append_left _ hc))
  · intro c hc
    rw [hgrow, hlo]
    exact hbpost c hc
  · exact Apart.congr hpost (fun c _ => hlo c) (fun c hc => hother c (List.mem_append_right _ hc))
  · intro c hc d hd
    rw [hother c (List.mem_append_left _ hc), hlo]
    rcases List.mem_cons.mp hd with rfl | hd'
    · exact hcross c hc d List.mem_cons_self
    · exact hcross c hc d (List.mem_cons_of_mem _ (List.mem_cons_of_mem _ hd'))

end RangeList

import Mathlib.Order.Lattice
import Mathlib.Data.List.Basic

/-!
# The first best of a scan

A loop over candidates keeps the best one so far and replaces it only by a
strictly better one.  What it ends with is the first of the best: `scan_cases`.
Where smaller keys are better, the order on keys is the dual one.
-/

namespace PriorityScan

variable {ι κ : Type} [LinearOrder κ] {ready : ι → Bool} {key : ι → κ}

/-- One round: the best key so far and its candidate. -/
def round (ready : ι → Bool) (key : ι → κ) (best : κ × ι) (i : ι) : κ × ι :=
  if ready i && decide (best.1 < key i) then (key i, i) else best

/-- The whole loop. -/
def scan (ready : ι → Bool) (key : ι → κ) (start : κ × ι) (l : List ι) : κ × ι :=
  l.foldl (round ready key) start

/-- A candidate with no better one in the list and no equal one before it. -/
structure FirstBest (ready : ι → Bool) (key : ι → κ) (l : List ι) (i : ι) : Prop where
  isReady : ready i = true
  place : ∃ before after, l = before ++ i :: after ∧
    (∀ j ∈ before, ready j = true → key j < key i) ∧
    ∀ j ∈ after, ready j = true → key j ≤ key i

namespace FirstBest

variable {l : List ι} {i j : ι}

theorem mem (h : FirstBest ready key l i) : i ∈ l := by
  obtain ⟨before, after, hl, -, -⟩ := h.place
  rw [hl]
  exact List.mem_append_right _ List.mem_cons_self

theorem head (hi : ready i = true) (hl : ∀ j ∈ l, ready j = true → key j ≤ key i) :
    FirstBest ready key (i :: l) i :=
  ⟨hi, [], l, rfl, fun _ hj => absurd hj List.not_mem_nil, hl⟩

theorem cons (h : FirstBest ready key l i) (hj : ready j = true → key j < key i) :
    FirstBest ready key (j :: l) i := by
  obtain ⟨before, after, hl, hbefore, hafter⟩ := h.place
  refine ⟨h.isReady, j :: before, after, by rw [hl]; rfl, fun k hk => ?_, hafter⟩
  rcases List.mem_cons.mp hk with heq | hk
  · rw [heq]
    exact hj
  · exact hbefore k hk

theorem best (h : FirstBest ready key l i) {lt : ι → ι → Prop} (hsorted : l.Pairwise lt)
    (hj : j ∈ l) (hready : ready j = true) :
    key j < key i ∨ key j = key i ∧ (j = i ∨ lt i j) := by
  obtain ⟨before, after, hl, hbefore, hafter⟩ := h.place
  rw [hl] at hj hsorted
  rcases List.mem_append.mp hj with hj | hj
  · exact Or.inl (hbefore j hj hready)
  · rcases List.mem_cons.mp hj with heq | hj
    · exact Or.inr ⟨by rw [heq], Or.inl heq⟩
    · rcases lt_or_eq_of_le (hafter j hj hready) with hlt | heq
      · exact Or.inl hlt
      · have htail := (List.pairwise_append.mp hsorted).2.1
        exact Or.inr ⟨heq, Or.inr (List.rel_of_pairwise_cons htail hj)⟩

end FirstBest

/-- **What a scan finds**: nothing better than it started with, or the first of
the best. -/
theorem scan_cases (start : κ × ι) (l : List ι) :
    (scan ready key start l = start ∧ ∀ j ∈ l, ready j = true → key j ≤ start.1) ∨
      (start.1 < (scan ready key start l).1 ∧
        key (scan ready key start l).2 = (scan ready key start l).1 ∧
        FirstBest ready key l (scan ready key start l).2) := by
  induction l generalizing start with
  | nil => exact Or.inl ⟨rfl, fun _ hj => absurd hj List.not_mem_nil⟩
  | cons i l ih =>
    change (scan ready key (round ready key start i) l = start ∧ _) ∨
      (start.1 < (scan ready key (round ready key start i) l).1 ∧
        key (scan ready key (round ready key start i) l).2 =
          (scan ready key (round ready key start i) l).1 ∧
        FirstBest ready key (i :: l) (scan ready key (round ready key start i) l).2)
    unfold round
    split
    · rename_i htaken
      obtain ⟨hready, hlt⟩ := Bool.and_eq_true_iff.mp htaken
      have hlt : start.1 < key i := of_decide_eq_true hlt
      rcases ih (key i, i) with ⟨hscan, hrest⟩ | ⟨hbetter, hkey, hfirst⟩
      · rw [hscan]
        exact Or.inr ⟨hlt, rfl, .head hready hrest⟩
      · refine Or.inr ⟨hlt.trans hbetter, hkey, hfirst.cons fun _ => ?_⟩
        rw [hkey]
        exact hbetter
    · rename_i hskipped
      have hle : ready i = true → key i ≤ start.1 := by
        intro hready
        by_contra hgt
        exact hskipped (Bool.and_eq_true_iff.mpr ⟨hready, decide_eq_true (not_le.mp hgt)⟩)
      rcases ih start with ⟨hscan, hrest⟩ | ⟨hbetter, hkey, hfirst⟩
      · refine Or.inl ⟨hscan, fun j hj hready => ?_⟩
        rcases List.mem_cons.mp hj with heq | hj
        · rw [heq] at hready ⊢
          exact hle hready
        · exact hrest j hj hready
      · refine Or.inr ⟨hbetter, hkey, hfirst.cons fun hready => ?_⟩
        rw [hkey]
        exact (hle hready).trans_lt hbetter

end PriorityScan

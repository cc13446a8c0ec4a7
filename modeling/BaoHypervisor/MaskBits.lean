import BaoHypervisor.WordRegs

/-!
# Masks whose bits are moved

A mask over one numbering is turned into a mask over another one, bit by bit, by
a map that some numbers have no image under.
-/

namespace MaskBits

variable {w : Nat}

/-- Bit `i` of the mask is moved. -/
def move (f : Nat → Option Nat) (mask out : BitVec w) (i : Nat) : BitVec w :=
  match f i with
  | some place => if mask.getLsbD i then out ||| 1#w <<< place else out
  | none => out

/-- The first `len` bits of the mask, moved. -/
def route (f : Nat → Option Nat) (len : Nat) (mask : BitVec w) : BitVec w :=
  (List.range len).foldl (move f mask) 0#w

variable {f : Nat → Option Nat}

theorem getLsbD_move (mask out : BitVec w) (i p : Nat) :
    (move f mask out i).getLsbD p = true ↔
      out.getLsbD p = true ∨ p < w ∧ mask.getLsbD i = true ∧ f i = some p := by
  unfold move
  cases hplace : f i with
  | none =>
      exact ⟨Or.inl, fun h => h.resolve_right fun h => by cases h.2.2⟩
  | some place =>
      dsimp only
      by_cases hset : mask.getLsbD i = true
      · have hbit : (1#w <<< place).getLsbD p = true ↔ p < w ∧ some place = some p := by
          by_cases hp : p < w
          · rw [WordRegs.getLsbD_mask hp, decide_eq_true_eq, Option.some.injEq]
            exact ⟨fun h => ⟨hp, h.symm⟩, fun h => h.2.symm⟩
          · rw [BitVec.getLsbD_of_ge _ _ (Nat.le_of_not_lt hp)]
            exact iff_of_false Bool.false_ne_true fun h => hp h.1
        rw [if_pos hset, BitVec.getLsbD_or, Bool.or_eq_true, hbit]
        simp [hset]
      · rw [if_neg hset]
        exact ⟨Or.inl, fun h => h.resolve_right fun h => hset h.2.1⟩

/-- **The bits of a moved mask** are the images of its bits. -/
theorem getLsbD_route (mask : BitVec w) (len p : Nat) :
    (route f len mask).getLsbD p = true ↔
      p < w ∧ ∃ i, i < len ∧ mask.getLsbD i = true ∧ f i = some p := by
  unfold route
  induction len with
  | zero => simp
  | succ k ih =>
      rw [List.range_succ, List.foldl_append, List.foldl_cons, List.foldl_nil, getLsbD_move, ih]
      constructor
      · intro h
        rcases h with ⟨hp, i, hi, hrest⟩ | ⟨hp, hrest⟩
        · exact ⟨hp, i, by omega, hrest⟩
        · exact ⟨hp, k, by omega, hrest⟩
      · intro h
        obtain ⟨hp, i, hi, hrest⟩ := h
        by_cases heq : i = k
        · exact Or.inr ⟨hp, heq ▸ hrest⟩
        · exact Or.inl ⟨hp, i, by omega, hrest⟩

theorem route_congr {mask mask' : BitVec w} {len : Nat}
    (h : ∀ i p, f i = some p → mask.getLsbD i = mask'.getLsbD i) :
    route f len mask = route f len mask' := by
  apply BitVec.eq_of_getLsbD_eq
  intro p hp
  rw [Bool.eq_iff_iff, getLsbD_route, getLsbD_route]
  refine and_congr_right fun _ => exists_congr fun i => and_congr_right fun _ => ?_
  exact and_congr_left fun hi => by rw [h i p hi]

end MaskBits

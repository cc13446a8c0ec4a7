import Mathlib.Logic.Function.Basic
import Mathlib.Algebra.Group.Nat.Defs

/-!
# Tables of ternary match entries

An entry is a value and a mask of the bits of it that do not count.  Two entries
meet exactly when their values agree outside both masks, and an entry that meets
one with a wider mask lies within it.  In a table where every key hits at most
one entry, writing an entry that meets no other keeps that so.
-/

namespace TernaryMatch

variable {w : Nat}

/-- A value and the bits of it that do not count. -/
structure Pattern (w : Nat) where
  mask : BitVec w
  id : BitVec w
  deriving DecidableEq

namespace Pattern

variable {p q r : Pattern w} {x : BitVec w}

/-- The key agrees with the value on every bit that counts. -/
def Matches (p : Pattern w) (x : BitVec w) : Prop := (x ^^^ p.id) &&& ~~~p.mask = 0#w

instance (p : Pattern w) (x : BitVec w) : Decidable (p.Matches x) :=
  inferInstanceAs (Decidable (_ = _))

/-- Some key matches both. -/
def Meets (p q : Pattern w) : Prop := ∃ x, p.Matches x ∧ q.Matches x

/-- No bit counts for `q` that does not count for `p`. -/
def MaskLe (p q : Pattern w) : Prop :=
  ∀ k, k < w → p.mask.getLsbD k = true → q.mask.getLsbD k = true

theorem matches_iff :
    p.Matches x ↔ ∀ k, k < w → p.mask.getLsbD k = false → x.getLsbD k = p.id.getLsbD k := by
  unfold Matches
  constructor
  · intro h k hk hmask
    have hbit := congrArg (fun v => v.getLsbD k) h
    simp only [BitVec.getLsbD_and, BitVec.getLsbD_xor, BitVec.getLsbD_not, BitVec.getLsbD_zero,
      hk, hmask, decide_true, Bool.not_false, Bool.and_true] at hbit
    simpa using hbit
  · intro h
    apply BitVec.eq_of_getLsbD_eq
    intro k hk
    simp only [BitVec.getLsbD_and, BitVec.getLsbD_xor, BitVec.getLsbD_not, BitVec.getLsbD_zero,
      hk, decide_true, Bool.true_and]
    cases hmask : p.mask.getLsbD k with
    | false => simp [h k hk hmask]
    | true => simp

/-- **Entries meet** exactly when their values agree outside both masks. -/
theorem meets_iff :
    p.Meets q ↔ ∀ k, k < w → p.mask.getLsbD k = false → q.mask.getLsbD k = false →
      p.id.getLsbD k = q.id.getLsbD k := by
  constructor
  · rintro ⟨x, hp, hq⟩ k hk hpm hqm
    rw [matches_iff] at hp hq
    exact (hp k hk hpm).symm.trans (hq k hk hqm)
  · intro h
    -- the bits that count for `p` from `p`, the others from `q`
    refine ⟨(p.id &&& ~~~p.mask) ||| (q.id &&& p.mask), ?_, ?_⟩
    · rw [matches_iff]
      intro k hk hpm
      simp only [BitVec.getLsbD_or, BitVec.getLsbD_and, BitVec.getLsbD_not, hk, hpm, decide_true,
        Bool.not_false, Bool.and_true, Bool.and_false, Bool.or_false]
    · rw [matches_iff]
      intro k hk hqm
      simp only [BitVec.getLsbD_or, BitVec.getLsbD_and, BitVec.getLsbD_not, hk, decide_true,
        Bool.true_and]
      cases hpm : p.mask.getLsbD k with
      | false => simp [h k hk hpm hqm]
      | true => simp

theorem Meets.symm (h : p.Meets q) : q.Meets p := by
  obtain ⟨x, hp, hq⟩ := h
  exact ⟨x, hq, hp⟩

/-- **An entry lies within** one with a wider mask that it meets. -/
theorem Meets.within (h : p.Meets q) (hmask : p.MaskLe q) (hx : p.Matches x) : q.Matches x := by
  rw [meets_iff] at h
  rw [matches_iff] at hx ⊢
  intro k hk hqm
  have hpm : p.mask.getLsbD k = false := by
    cases hbit : p.mask.getLsbD k with
    | false => rfl
    | true =>
      rw [hmask k hk hbit] at hqm
      cases hqm
  rw [hx k hk hpm, h k hk hpm hqm]

theorem Meets.wider (h : p.Meets q) (hqr : q.Meets r) (hmask : q.MaskLe r) : p.Meets r := by
  obtain ⟨x, hp, hq⟩ := h
  exact ⟨x, hp, hqr.within hmask hq⟩

end Pattern

/-! ## Tables -/

variable {ι : Type} {t : ι → Option (Pattern w)} {i j : ι} {p q : Pattern w} {x : BitVec w}

/-- The key matches the entry, which is valid. -/
def Hits (t : ι → Option (Pattern w)) (i : ι) (x : BitVec w) : Prop :=
  ∃ p, t i = some p ∧ p.Matches x

/-- Every key hits at most one entry. -/
def OneHit (t : ι → Option (Pattern w)) : Prop :=
  ∀ i j x, Hits t i x → Hits t j x → i = j

theorem OneHit.eq_of_meets (h : OneHit t) (hi : t i = some p) (hj : t j = some q)
    (hmeet : p.Meets q) : i = j := by
  obtain ⟨x, hp, hq⟩ := hmeet
  exact h i j x ⟨p, hi, hp⟩ ⟨q, hj, hq⟩

variable [DecidableEq ι]

theorem hits_update_other {o : Option (Pattern w)} (hij : j ≠ i) :
    Hits (Function.update t i o) j x ↔ Hits t j x := by
  unfold Hits
  rw [Function.update_of_ne hij]

theorem hits_update_self : Hits (Function.update t i (some p)) i x ↔ p.Matches x := by
  unfold Hits
  rw [Function.update_self]
  constructor
  · rintro ⟨q, hq, hx⟩
    cases hq
    exact hx
  · intro hx
    exact ⟨p, rfl, hx⟩

/-- **Writing an entry** that meets no other keeps one hit for every key. -/
theorem OneHit.update (h : OneHit t) (hfree : ∀ j q, j ≠ i → t j = some q → ¬ q.Meets p) :
    OneHit (Function.update t i (some p)) := by
  have hapart : ∀ j x, j ≠ i → Hits t j x → ¬ p.Matches x := by
    rintro j x hj ⟨q, hq, hx⟩ hp
    exact hfree j q hj hq ⟨x, hx, hp⟩
  intro j k x hj hk
  by_cases hji : j = i
  · by_cases hki : k = i
    · rw [hji, hki]
    · rw [hji, hits_update_self] at hj
      rw [hits_update_other hki] at hk
      exact (hapart k x hki hk hj).elim
  · rw [hits_update_other hji] at hj
    by_cases hki : k = i
    · rw [hki, hits_update_self] at hk
      exact (hapart j x hji hj hk).elim
    · rw [hits_update_other hki] at hk
      exact h j k x hj hk

theorem Hits.update (h : Hits t j x)
    (hwide : ∀ q, t i = some q → q.Meets p ∧ q.MaskLe p) :
    Hits (Function.update t i (some p)) j x := by
  by_cases hji : j = i
  · subst hji
    obtain ⟨q, hq, hx⟩ := h
    obtain ⟨hmeet, hmask⟩ := hwide q hq
    rw [hits_update_self]
    exact hmeet.within hmask hx
  · rw [hits_update_other hji]
    exact h

end TernaryMatch

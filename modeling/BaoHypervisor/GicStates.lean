import Mathlib.Algebra.Group.Nat.Defs

/-!
# Interrupt states of a GIC

What a GIC keeps about each interrupt, pending and active, and what software
and the guest do to it: an abstract machine over any set of interrupts.  An SGI
of a GIC with banked sources is pending once for each CPU that raised it.

`Short` compares two such states when one of them may have handed the pending
state on to another component.
-/

namespace Bao

/-- Pending and active state of one interrupt, and the CPUs it is pending
from. -/
structure GicInt where
  pending : Bool
  active : Bool
  sources : BitVec 8
deriving DecidableEq

/-- An interrupt that is neither pending nor active. -/
def GicInt.idle : GicInt := ⟨false, false, 0#8⟩

/-- What can happen to an interrupt. -/
inductive GicAct
  | setPending (on : Bool)
  | setActive (on : Bool)
  | source (cpu : Nat)
  | ack
  | ackSource (cpu : Nat)
deriving DecidableEq

/-- The state of an interrupt after it happened. -/
def GicAct.apply (act : GicAct) (g : GicInt) : GicInt :=
  match act with
  | .setPending on => { g with pending := on }
  | .setActive on => { g with active := on }
  | .source cpu => { g with pending := true, sources := g.sources ||| 1#8 <<< cpu }
  | .ack => { g with pending := false, active := true }
  | .ackSource cpu =>
      let rest := g.sources &&& ~~~(1#8 <<< cpu)
      { pending := decide (rest ≠ 0#8), active := true, sources := rest }

section Machine

variable {κ : Type} [DecidableEq κ]

/-- The states of all interrupts after at most one of them acted. -/
def gicStep (act : Option (κ × GicAct)) (g : κ → GicInt) : κ → GicInt :=
  match act with
  | none => g
  | some (k, a) => fun k' => if k' = k then a.apply (g k') else g k'

@[simp] theorem gicStep_none (g : κ → GicInt) : gicStep none g = g := rfl

@[simp] theorem gicStep_same (k : κ) (a : GicAct) (g : κ → GicInt) :
    gicStep (some (k, a)) g k = a.apply (g k) := if_pos rfl

theorem gicStep_other {k k' : κ} (a : GicAct) (g : κ → GicInt) (h : k' ≠ k) :
    gicStep (some (k, a)) g k' = g k' := if_neg h

end Machine

/-- The second state is the first, or lacks its pending state where that may
have been handed on. -/
def Short (handed : Prop) (g g' : GicInt) : Prop :=
  g' = g ∨ handed ∧ g' = { g with pending := false }

namespace Short

variable {handed handed' : Prop} {g g' g'' : GicInt}

theorem refl (handed : Prop) (g : GicInt) : Short handed g g := Or.inl rfl

theorem trans (h : Short handed g g') (h' : Short handed g' g'') : Short handed g g'' := by
  rcases h' with rfl | ⟨hh, rfl⟩
  · exact h
  · refine Or.inr ⟨hh, ?_⟩
    rcases h with rfl | ⟨-, rfl⟩ <;> rfl

theorem mono (himp : handed → handed') (h : Short handed g g') : Short handed' g g' :=
  h.imp id (And.imp_left himp)

theorem apply (a : GicAct) (h : Short handed g g') : Short handed (a.apply g) (a.apply g') := by
  rcases h with rfl | ⟨hh, rfl⟩
  · exact refl handed _
  · cases a with
    | setActive on => exact Or.inr ⟨hh, rfl⟩
    | _ => exact Or.inl rfl

theorem step {κ : Type} [DecidableEq κ] (act : Option (κ × GicAct)) {f f' : κ → GicInt} {k : κ}
    (h : Short handed (f k) (f' k)) : Short handed (gicStep act f k) (gicStep act f' k) := by
  cases act with
  | none => exact h
  | some p =>
    obtain ⟨k', a⟩ := p
    by_cases hk : k = k'
    · subst hk
      rw [gicStep_same, gicStep_same]
      exact h.apply a
    · rw [gicStep_other a f hk, gicStep_other a f' hk]
      exact h

end Short

end Bao

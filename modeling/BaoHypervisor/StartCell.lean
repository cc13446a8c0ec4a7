import Mathlib.Data.List.Basic

/-!
# Starting a processor

What may happen to a processor that others start and that stops itself.  A
call is accepted only while the processor is off; it is then pending until the
processor is started with what the call gave, enters there and runs.  A call at
any other time is refused.  A history that the automaton accepts therefore has
one start for each accepted call, in the same order, and a stop between two
accepted calls.
-/

namespace StartCell

/-- The processor runs, is off, is to be started with `x`, or will enter with
`x` next. -/
inductive Power (α : Type) where
  | running
  | off
  | pending (x : α)
  | ready (x : α)
  deriving DecidableEq

/-- A call with `x` that is accepted or refused, a start and an entry with `x`,
a stop, a power-down that is to end with an entry with `x`, and a reset of a
processor that is not running. -/
inductive Event (α : Type) where
  | call (x : α) (ok : Bool)
  | start (x : α)
  | enter (x : α)
  | stop
  | suspend (x : α)
  | reset
  deriving DecidableEq

variable {α : Type} [DecidableEq α]

/-- What an event makes of a state that allows it. -/
def next : Power α → Event α → Option (Power α)
  | .off, .call x true => some (.pending x)
  | .running, .call _ false => some .running
  | .pending x, .call _ false => some (.pending x)
  | .ready x, .call _ false => some (.ready x)
  | .pending x, .start y => if x = y then some (.ready x) else none
  | .ready x, .enter y => if x = y then some .running else none
  | .running, .stop => some .off
  | .running, .suspend x => some (.ready x)
  | .off, .reset => some .off
  | .pending x, .reset => some (.pending x)
  | .ready x, .reset => some (.ready x)
  | _, _ => none

/-- The state after a history, the oldest event first, if it is allowed. -/
def replay (p : Power α) : List (Event α) → Option (Power α)
  | [] => some p
  | e :: es => (next p e).bind fun q => replay q es

theorem replay_append (p : Power α) (l₁ l₂ : List (Event α)) :
    replay p (l₁ ++ l₂) = (replay p l₁).bind fun q => replay q l₂ := by
  induction l₁ generalizing p with
  | nil => rfl
  | cons e es ih =>
      rw [List.cons_append, replay, replay]
      cases next p e with
      | none => rfl
      | some q => exact ih q

theorem replay_concat {p q q' : Power α} {l : List (Event α)} {e : Event α}
    (h : replay p l = some q) (hnext : next q e = some q') : replay p (l ++ [e]) = some q' := by
  rw [replay_append, h, Option.bind_some, replay, hnext]
  rfl

/-- What the accepted calls of a history gave. -/
def accepted (l : List (Event α)) : List α :=
  l.filterMap fun
    | .call x true => some x
    | _ => none

/-- What the starts of a history were made with. -/
def starts (l : List (Event α)) : List α :=
  l.filterMap fun
    | .start x => some x
    | _ => none

/-- What the processor is to be started with. -/
def Power.pendings : Power α → List α
  | .pending x => [x]
  | _ => []

theorem next_pendings {p q : Power α} {e : Event α} (h : next p e = some q) :
    p.pendings ++ accepted [e] = starts [e] ++ q.pendings := by
  cases e with
  | call x ok => cases p <;> cases ok <;> cases h <;> rfl
  | start y =>
      cases p with
      | pending x =>
          by_cases hxy : x = y
          · simp only [next, hxy, if_true, Option.some.injEq] at h
            rw [hxy, ← h]
            rfl
          · simp only [next, hxy, if_false] at h
            cases h
      | running => cases h
      | off => cases h
      | ready x => cases h
  | enter y =>
      cases p with
      | ready x =>
          by_cases hxy : x = y
          · simp only [next, hxy, if_true, Option.some.injEq] at h
            rw [← h]
            rfl
          · simp only [next, hxy, if_false] at h
            cases h
      | running => cases h
      | off => cases h
      | pending x => cases h
  | stop =>
      cases p with
      | running =>
          cases h
          rfl
      | off => cases h
      | pending y => cases h
      | ready y => cases h
  | suspend x =>
      cases p with
      | running =>
          cases h
          rfl
      | off => cases h
      | pending y => cases h
      | ready y => cases h
  | reset => cases p <;> cases h <;> rfl

/-- **Each accepted call is started exactly once**, in the order of the calls,
except for one that is still pending. -/
theorem replay_accepted {p q : Power α} {l : List (Event α)} (h : replay p l = some q) :
    p.pendings ++ accepted l = starts l ++ q.pendings := by
  induction l generalizing p with
  | nil =>
      cases h
      simp [accepted, starts]
  | cons e es ih =>
      rw [replay] at h
      obtain ⟨p', hp', hrest⟩ := Option.bind_eq_some_iff.mp h
      have hone := next_pendings hp'
      have htail := ih hrest
      have hacc : accepted (e :: es) = accepted [e] ++ accepted es := by
        rw [accepted, accepted, accepted, ← List.filterMap_append, List.singleton_append]
      have hst : starts (e :: es) = starts [e] ++ starts es := by
        rw [starts, starts, starts, ← List.filterMap_append, List.singleton_append]
      rw [hacc, hst, ← List.append_assoc, hone, List.append_assoc, htail, List.append_assoc]

theorem replay_stop {p : Power α} {l : List (Event α)} (h : replay p l = some .off)
    (hp : p ≠ .off) : Event.stop ∈ l := by
  induction l generalizing p with
  | nil => exact absurd (Option.some.inj h) hp
  | cons e es ih =>
      rw [replay] at h
      obtain ⟨p', hp', hrest⟩ := Option.bind_eq_some_iff.mp h
      by_cases hoff : p' = .off
      · have hstop : e = .stop := by
          rw [hoff] at hp'
          cases e with
          | stop => rfl
          | call x ok => cases p <;> cases ok <;> cases hp'
          | start y =>
              cases p with
              | pending z =>
                  simp only [next] at hp'
                  split at hp'
                  · cases hp'
                  · cases hp'
              | running => cases hp'
              | off => cases hp'
              | ready z => cases hp'
          | enter y =>
              cases p with
              | ready z =>
                  simp only [next] at hp'
                  split at hp'
                  · cases hp'
                  · cases hp'
              | running => cases hp'
              | off => cases hp'
              | pending z => cases hp'
          | suspend x => cases p <;> cases hp'
          | reset =>
              cases p with
              | off => exact absurd rfl hp
              | running => cases hp'
              | pending x => cases hp'
              | ready x => cases hp'
        rw [hstop]
        exact List.mem_cons_self
      · exact List.mem_cons_of_mem _ (ih hrest hoff)

theorem next_accepted {p q : Power α} {x : α} (h : next p (.call x true) = some q) :
    p = .off ∧ q = .pending x := by
  cases p with
  | off => exact ⟨rfl, (Option.some.inj h).symm⟩
  | running => cases h
  | pending y => cases h
  | ready y => cases h

/-- **One accepted call a cycle.**  Between two accepted calls the processor
was started with what the first one gave, and stopped; what else was started
was accepted in between. -/
theorem replay_between {p q : Power α} {l₁ l₂ l₃ : List (Event α)} {x y : α}
    (h : replay p (l₁ ++ .call x true :: l₂ ++ .call y true :: l₃) = some q) :
    starts l₂ = x :: accepted l₂ ∧ Event.stop ∈ l₂ := by
  rw [List.append_assoc, replay_append] at h
  obtain ⟨p₁, _, h₁⟩ := Option.bind_eq_some_iff.mp h
  rw [List.cons_append, replay] at h₁
  obtain ⟨p₂, hp₂, h₂⟩ := Option.bind_eq_some_iff.mp h₁
  obtain ⟨_, hpend⟩ := next_accepted hp₂
  rw [replay_append] at h₂
  obtain ⟨p₃, hp₃, h₃⟩ := Option.bind_eq_some_iff.mp h₂
  rw [replay] at h₃
  obtain ⟨p₄, hp₄, _⟩ := Option.bind_eq_some_iff.mp h₃
  obtain ⟨hoff, _⟩ := next_accepted hp₄
  rw [hpend, hoff] at hp₃
  refine ⟨?_, replay_stop hp₃ (by intro heq; cases heq)⟩
  have hacc := replay_accepted hp₃
  change [x] ++ accepted l₂ = starts l₂ ++ [] at hacc
  rw [List.append_nil] at hacc
  exact hacc.symm

end StartCell

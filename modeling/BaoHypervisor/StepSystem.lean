import Mathlib.Data.List.Basic
import Mathlib.Algebra.Group.Nat.Defs

/-!
# Runs of a nondeterministic step system

A system has initial states and a labelled step relation.  `Reach` collects
the states of those runs whose steps all meet a side condition on the state
before the step and the label; with the condition that is always true these
are the reachable states.  Every safety result is then two goals, initial
states and one step, by `Reach.invariant`.  `watch` lets an observer follow a
run: what it should see is then an invariant too, and `EventHistory.Since` is
for observers that keep a history.  `ofNext` makes a system of steps with one
outcome, whose runs can be given by their labels; `Meets.same` compares two
runs by what they put out.  `Replay.Plays` is for systems
that replicate a state by sending its changes: a replica is in step with its
master when its own state, played through the messages still queued, is the
master's.
-/

/-- Initial states and labelled steps. -/
structure StepSystem (σ ε : Type) where
  init : σ → Prop
  step : σ → ε → σ → Prop

namespace StepSystem

variable {σ ε : Type} (S : StepSystem σ ε)

/-- The states of the runs all of whose steps meet `ok`. -/
inductive Reach (ok : σ → ε → Prop) : σ → Prop
  | init {s : σ} (hinit : S.init s) : Reach ok s
  | step {s s' : σ} {e : ε} (hreach : Reach ok s) (hok : ok s e)
      (hstep : S.step s e s') : Reach ok s'

/-- The states of all runs. -/
abbrev Reachable (s : σ) : Prop := S.Reach (fun _ _ => True) s

variable {S}

/-- **Invariant rule.**  What holds initially and is kept by every step that
meets `ok` holds in every state of such a run. -/
theorem Reach.invariant {ok : σ → ε → Prop} {Inv : σ → Prop}
    (hinit : ∀ s, S.init s → Inv s)
    (hstep : ∀ s e s', Inv s → ok s e → S.step s e s' → Inv s')
    {s : σ} (h : S.Reach ok s) : Inv s := by
  induction h with
  | init hi => exact hinit _ hi
  | step _ hok hs ih => exact hstep _ _ _ ih hok hs

theorem Reach.mono {ok ok' : σ → ε → Prop} (himp : ∀ s e, ok s e → ok' s e)
    {s : σ} (h : S.Reach ok s) : S.Reach ok' s := by
  induction h with
  | init hi => exact .init hi
  | step _ hok hs ih => exact .step ih (himp _ _ hok) hs

/-- The system with an observer beside it, whose state follows from the state
before each step and the label. -/
def watch {τ : Type} (S : StepSystem σ ε) (start : τ) (observe : σ → ε → τ → τ) :
    StepSystem (σ × τ) ε where
  init p := S.init p.1 ∧ p.2 = start
  step p e p' := S.step p.1 e p'.1 ∧ p'.2 = observe p.1 e p.2

/-! ## Systems whose steps have one outcome -/

/-- The system with the given effect of each label, where it is enabled. -/
def ofNext (init : σ → Prop) (enabled : ε → σ → Prop) (next : ε → σ → σ) : StepSystem σ ε where
  init := init
  step s e s' := enabled e s ∧ s' = next e s

/-- The state after labels one after the other. -/
def runBy (next : ε → σ → σ) (es : List ε) (s : σ) : σ := es.foldl (fun s e => next e s) s

/-- Every label is enabled where it comes up, and meets `ok` there. -/
def Meets (enabled : ε → σ → Prop) (next : ε → σ → σ) (ok : σ → ε → Prop) : List ε → σ → Prop
  | [], _ => True
  | e :: es, s => enabled e s ∧ ok s e ∧ Meets enabled next ok es (next e s)

variable {init : σ → Prop} {enabled : ε → σ → Prop} {next : ε → σ → σ} {ok : σ → ε → Prop}

instance decidableMeets [∀ e s, Decidable (enabled e s)] [∀ s e, Decidable (ok s e)] :
    ∀ (es : List ε) (s : σ), Decidable (Meets enabled next ok es s)
  | [], _ => .isTrue trivial
  | e :: es, s =>
      have := decidableMeets es (next e s)
      inferInstanceAs (Decidable (enabled e s ∧ ok s e ∧ Meets enabled next ok es (next e s)))

theorem Meets.reach {es : List ε} {s : σ} (hs : (ofNext init enabled next).Reach ok s)
    (h : Meets enabled next ok es s) : (ofNext init enabled next).Reach ok (runBy next es s) := by
  induction es generalizing s with
  | nil => exact hs
  | cons e es ih => exact ih (.step hs h.2.1 ⟨h.1, rfl⟩) h.2.2

theorem Meets.fromInit {es : List ε} {s : σ} (hs : init s) (h : Meets enabled next ok es s) :
    (ofNext init enabled next).Reach ok (runBy next es s) := h.reach (.init hs)

/-- The observer's state after labels one after the other. -/
def seenBy {τ : Type} (next : ε → σ → σ) (observe : σ → ε → τ → τ) : List ε → σ → τ → τ
  | [], _, t => t
  | e :: es, s, t => seenBy next observe es (next e s) (observe s e t)

theorem Meets.watch {τ : Type} {observe : σ → ε → τ → τ} {start t : τ} {okWatch : σ × τ → ε → Prop}
    (hok : ∀ s t e, ok s e → okWatch (s, t) e) {es : List ε} {s : σ}
    (hs : ((ofNext init enabled next).watch start observe).Reach okWatch (s, t))
    (h : Meets enabled next ok es s) :
    ((ofNext init enabled next).watch start observe).Reach okWatch
      (runBy next es s, seenBy next observe es s t) := by
  induction es generalizing s t with
  | nil => exact hs
  | cons e es ih => exact ih (.step hs (hok s t e h.2.1) ⟨⟨h.1, rfl⟩, rfl⟩) h.2.2

/-- What labels one after the other put out. -/
def outputs {β : Type} (next : ε → σ → σ) (out : ε → σ → β) : List ε → σ → List β
  | [], _ => []
  | e :: es, s => out e s :: outputs next out es (next e s)

/-- **Two runs.**  Labels that correspond, and cannot be told apart by one step
that meets `ok`, cannot be told apart by a run. -/
theorem Meets.same {β : Type} {out : ε → σ → β} {R : ε → ε → Prop}
    (hone : ∀ s e e', R e e' → ok s e → ok s e' → next e s = next e' s ∧ out e s = out e' s)
    {es es' : List ε} (hR : List.Forall₂ R es es') {s : σ} (h : Meets enabled next ok es s)
    (h' : Meets enabled next ok es' s) :
    runBy next es s = runBy next es' s ∧ outputs next out es s = outputs next out es' s := by
  induction hR generalizing s with
  | nil => exact ⟨rfl, rfl⟩
  | @cons e e' es es' hee' _ ih =>
    obtain ⟨hnext, hout⟩ := hone s e e' hee' h.2.1 h'.2.1
    have htail := h'.2.2
    rw [← hnext] at htail
    obtain ⟨hrun, houts⟩ := ih h.2.2 htail
    constructor
    · change runBy next es (next e s) = runBy next es' (next e' s)
      rw [← hnext]
      exact hrun
    · change out e s :: outputs next out es (next e s) = out e' s :: outputs next out es' (next e' s)
      rw [← hnext, hout, houts]

end StepSystem

/-! ## Histories, the newest event first -/

namespace EventHistory

variable {α : Type} {p q : α → Prop} {h : List α}

/-- An event of kind `q` has happened after the last one of kind `p`. -/
def Since (p q : α → Prop) (h : List α) : Prop :=
  ∃ recent a older, h = recent ++ a :: older ∧ q a ∧ ∀ b ∈ recent, ¬ p b

theorem Since.now {a : α} (ha : q a) : Since p q (a :: h) :=
  ⟨[], a, h, rfl, ha, fun _ hb => absurd hb List.not_mem_nil⟩

theorem Since.later {b : α} (hs : Since p q h) (hb : ¬ p b) : Since p q (b :: h) := by
  obtain ⟨recent, a, older, hh, ha, hrecent⟩ := hs
  refine ⟨b :: recent, a, older, by rw [hh]; rfl, ha, fun c hc => ?_⟩
  rcases List.mem_cons.mp hc with heq | hc
  · rw [heq]
    exact hb
  · exact hrecent c hc

/-- The newest event is of kind `q`, or it is not of kind `p` and one of kind `q`
has happened before. -/
theorem Since.cons_iff {b : α} : Since p q (b :: h) ↔ q b ∨ (¬ p b ∧ Since p q h) := by
  constructor
  · intro hs
    obtain ⟨recent, a, older, hh, ha, hrecent⟩ := hs
    cases recent with
    | nil =>
      cases hh
      exact .inl ha
    | cons c recent =>
      cases hh
      exact .inr ⟨hrecent b List.mem_cons_self, recent, a, older, rfl, ha,
        fun c hc => hrecent c (List.mem_cons_of_mem b hc)⟩
  · intro hs
    rcases hs with hb | ⟨hb, hs⟩
    · exact .now hb
    · exact hs.later hb

theorem Since.append {new : List α} (hs : Since p q h) (hnew : ∀ b ∈ new, ¬ p b) :
    Since p q (new ++ h) := by
  induction new with
  | nil => exact hs
  | cons b new ih =>
    exact (ih fun c hc => hnew c (List.mem_cons_of_mem b hc)).later (hnew b List.mem_cons_self)

theorem Since.among {new : List α} {a : α} (hmem : a ∈ new) (ha : q a) (hnew : ∀ b ∈ new, ¬ p b) :
    Since p q (new ++ h) := by
  obtain ⟨recent, older, hsplit⟩ := List.append_of_mem hmem
  refine ⟨recent, a, older ++ h, ?_, ha, fun b hb => hnew b ?_⟩
  · rw [hsplit, List.append_assoc]
    rfl
  · rw [hsplit]
    exact List.mem_append_left _ hb

/-- **Taken once.**  Every event of kind `p` comes after one of kind `q` that no
other of kind `p` has come after. -/
def Preceded (p q : α → Prop) (h : List α) : Prop :=
  ∀ later a earlier, h = later ++ a :: earlier → p a → Since p q earlier

theorem Preceded.nil : Preceded p q [] := by
  intro later a earlier hsplit
  exact absurd hsplit.symm (List.append_ne_nil_of_right_ne_nil later (List.cons_ne_nil _ _))

theorem Preceded.cons {b : α} (hall : Preceded p q h) (hb : p b → Since p q h) :
    Preceded p q (b :: h) := by
  intro later a earlier hsplit ha
  cases later with
  | nil =>
    cases hsplit
    exact hb ha
  | cons c later =>
    cases hsplit
    exact hall later a earlier rfl ha

theorem Preceded.append {new : List α} (hall : Preceded p q h) (hnew : ∀ b ∈ new, ¬ p b) :
    Preceded p q (new ++ h) := by
  induction new with
  | nil => exact hall
  | cons b new ih =>
    exact (ih fun c hc => hnew c (List.mem_cons_of_mem b hc)).cons fun hb =>
      absurd hb (hnew b List.mem_cons_self)

end EventHistory

namespace Replay

variable {σ μ : Type} {ok : σ → μ → Prop} {apply : σ → μ → σ}

/-- The messages `ms` take the state `s` to `t`, each one acceptable where it
is applied. -/
inductive Plays (ok : σ → μ → Prop) (apply : σ → μ → σ) : σ → List μ → σ → Prop
  | nil {s : σ} : Plays ok apply s [] s
  | cons {s t : σ} {m : μ} {ms : List μ} (hok : ok s m) (h : Plays ok apply (apply s m) ms t) :
      Plays ok apply s (m :: ms) t

theorem Plays.one {s : σ} {m : μ} (hok : ok s m) : Plays ok apply s [m] (apply s m) :=
  .cons hok .nil

theorem Plays.append {s t u : σ} {ms ns : List μ} (h : Plays ok apply s ms t)
    (h' : Plays ok apply t ns u) : Plays ok apply s (ms ++ ns) u := by
  induction h with
  | nil => exact h'
  | cons hok _ ih => exact .cons hok (ih h')

theorem Plays.head {s t : σ} {m : μ} {ms : List μ} (h : Plays ok apply s (m :: ms) t) :
    ok s m ∧ Plays ok apply (apply s m) ms t := by
  cases h with
  | cons hok h => exact ⟨hok, h⟩

theorem Plays.of_nil {s t : σ} (h : Plays ok apply s [] t) : s = t := by
  cases h
  rfl

end Replay

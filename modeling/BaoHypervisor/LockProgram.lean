import BaoHypervisor.StepSystem
import Mathlib.Data.Fintype.Card
import Mathlib.Logic.Relation
import Mathlib.Order.WellFounded

/-!
# Programs that take locks

Programs over a shared state that read it, change it, and take and release
locks, run by any number of processors whose steps interleave.  Asking for a
lock and getting it are two steps, so that a processor can be seen waiting.

Locks have ranks.  A program is `Ordered` if it asks for locks of lower rank
than those it holds, or of the same rank where locks of that rank nest, and
releases them in the reverse order.  Then only a request for a lock of the rank
of one that is held can close a ring of waiting processors: `no_deadlock`.
-/

namespace LockProgram

/-- The rank of each lock, and which may be asked for while one of the same
rank is held. -/
structure Ranking (L : Type) where
  rank : L → Nat
  nests : L → Bool

/-- A lock may be asked for under another one. -/
def Ranking.Under {L : Type} (R : Ranking L) (l m : L) : Prop :=
  R.rank l < R.rank m ∨ (R.nests l = true ∧ R.rank l = R.rank m)

theorem Ranking.Under.le {L : Type} {R : Ranking L} {l m : L} (h : R.Under l m) :
    R.rank l ≤ R.rank m := by
  rcases h with hlt | ⟨-, heq⟩ <;> omega

/-- A program with a result. -/
inductive Prog (σ L α : Type) : Type
  | pure (a : α)
  | read (k : σ → Prog σ L α)
  | write (f : σ → σ) (p : Prog σ L α)
  | lock (l : L) (p : Prog σ L α)
  | unlock (l : L) (p : Prog σ L α)

namespace Prog

variable {σ L α β : Type}

/-- One program after another. -/
def bind : Prog σ L α → (α → Prog σ L β) → Prog σ L β
  | .pure a, f => f a
  | .read k, f => .read fun s => (k s).bind f
  | .write g p, f => .write g (p.bind f)
  | .lock l p, f => .lock l (p.bind f)
  | .unlock l p, f => .unlock l (p.bind f)

instance : Monad (Prog σ L) where
  pure := Prog.pure
  bind := Prog.bind

/-- The shared state. -/
def get : Prog σ L σ := .read .pure

/-- A change of the shared state. -/
def modify (f : σ → σ) : Prog σ L Unit := .write f (.pure ())

/-- A program that runs with a lock taken. -/
def locked (l : L) (p : Prog σ L α) : Prog σ L α :=
  .lock l (p.bind fun a => .unlock l (.pure a))

/-- What a program does when nobody comes between. -/
def exec : Prog σ L α → σ → α × σ
  | .pure a, s => (a, s)
  | .read k, s => (k s).exec s
  | .write f p, s => p.exec (f s)
  | .lock _ p, s => p.exec s
  | .unlock _ p, s => p.exec s

@[simp] theorem exec_pure (a : α) (s : σ) : (Pure.pure a : Prog σ L α).exec s = (a, s) := rfl

@[simp] theorem exec_bind (p : Prog σ L α) (f : α → Prog σ L β) (s : σ) :
    (p >>= f).exec s = (f (p.exec s).1).exec (p.exec s).2 := by
  change (p.bind f).exec s = _
  induction p generalizing s with
  | pure a => rfl
  | read k ih => exact ih s s
  | write g p ih => exact ih (g s)
  | lock l p ih => exact ih s
  | unlock l p ih => exact ih s

@[simp] theorem exec_get (s : σ) : (get : Prog σ L σ).exec s = (s, s) := rfl

@[simp] theorem exec_modify (f : σ → σ) (s : σ) :
    (modify f : Prog σ L Unit).exec s = ((), f s) := rfl

@[simp high] theorem exec_get_bind (f : σ → Prog σ L α) (s : σ) :
    ((get : Prog σ L σ) >>= f).exec s = (f s).exec s := rfl

@[simp high] theorem exec_modify_bind (g : σ → σ) (f : Unit → Prog σ L α) (s : σ) :
    ((modify g : Prog σ L Unit) >>= f).exec s = (f ()).exec (g s) := rfl

@[simp] theorem exec_locked (l : L) (p : Prog σ L α) (s : σ) :
    (locked l p).exec s = p.exec s := by
  change ((p >>= fun a => .unlock l (.pure a) : Prog σ L α)).exec s = _
  rw [exec_bind]
  rfl

@[simp] theorem exec_ite (c : Prop) [Decidable c] (p q : Prog σ L α) (s : σ) :
    (if c then p else q).exec s = if c then p.exec s else q.exec s := by
  split <;> rfl

/-- Started with the locks `held`, the program asks for locks in the order of
their ranks, releases the last one first, and ends with `left`. -/
def Ordered (R : Ranking L) : List L → Prog σ L α → List L → Prop
  | held, .pure _, left => held = left
  | held, .read k, left => ∀ s, Ordered R held (k s) left
  | held, .write _ p, left => Ordered R held p left
  | held, .lock l p, left => (∀ m ∈ held, R.Under l m) ∧ Ordered R (l :: held) p left
  | held, .unlock l p, left => ∃ rest, held = l :: rest ∧ Ordered R rest p left

namespace Ordered

variable {R : Ranking L} {held mid left : List L} {p : Prog σ L α}

theorem pure (a : α) : Ordered R held (Pure.pure a : Prog σ L α) held := rfl

theorem get : Ordered R held (Prog.get : Prog σ L σ) held := fun _ => rfl

theorem modify (f : σ → σ) : Ordered R held (Prog.modify f : Prog σ L Unit) held := rfl

theorem bind {f : α → Prog σ L β} (h : Ordered R held p mid)
    (hf : ∀ a, Ordered R mid (f a) left) : Ordered R held (p >>= f) left := by
  change Ordered R held (p.bind f) left
  induction p generalizing held with
  | pure a =>
    have heq : held = mid := h
    subst heq
    exact hf a
  | read k ih => exact fun s => ih s (h s)
  | write g p ih => exact ih h
  | lock l p ih => exact ⟨h.1, ih h.2⟩
  | unlock l p ih =>
    obtain ⟨rest, heq, hrest⟩ := h
    exact ⟨rest, heq, ih hrest⟩

/-- **Lock, run, unlock.** -/
theorem locked {l : L} (hl : ∀ m ∈ held, R.Under l m)
    (h : Ordered R (l :: held) p (l :: held)) : Ordered R held (Prog.locked l p) held :=
  ⟨hl, bind h fun _ => ⟨held, rfl, rfl⟩⟩

end Ordered

/-- The program is ordered and gives back what it takes, wherever the locks
that are held all meet `H`. -/
def Within (R : Ranking L) (H : L → Prop) (p : Prog σ L α) : Prop :=
  ∀ held, (∀ m ∈ held, H m) → p.Ordered R held held

namespace Within

variable {R : Ranking L} {H H' : L → Prop} {p : Prog σ L α}

theorem mono (h : Within R H' p) (himp : ∀ m, H m → H' m) : Within R H p :=
  fun held hheld => h held fun m hm => himp m (hheld m hm)

@[simp] theorem pure (a : α) : Within R H (Pure.pure a : Prog σ L α) := fun _ _ => .pure a

@[simp] theorem get : Within R H (Prog.get : Prog σ L σ) := fun _ _ => .get

@[simp] theorem modify (f : σ → σ) : Within R H (Prog.modify f : Prog σ L Unit) :=
  fun _ _ => .modify f

theorem bind {f : α → Prog σ L β} (h : Within R H p) (hf : ∀ a, Within R H (f a)) :
    Within R H (p >>= f) :=
  fun held hheld => (h held hheld).bind fun a => hf a held hheld

theorem get_bind {f : σ → Prog σ L β} (hf : ∀ s, Within R H (f s)) :
    Within R H ((Prog.get : Prog σ L σ) >>= f) := get.bind hf

theorem modify_bind {g : σ → σ} {f : Unit → Prog σ L β} (hf : Within R H (f ())) :
    Within R H ((Prog.modify g : Prog σ L Unit) >>= f) := (modify g).bind fun _ => hf

theorem locked {l : L} (hl : ∀ m, H m → R.Under l m) (himp : ∀ m, H m → H' m) (hself : H' l)
    (h : Within R H' p) : Within R H (Prog.locked l p) := by
  intro held hheld
  refine .locked (fun m hm => hl m (hheld m hm)) (h (l :: held) fun m hm => ?_)
  rcases List.mem_cons.mp hm with heq | hm
  · rw [heq]
    exact hself
  · exact himp m (hheld m hm)

end Within

end Prog

/-- A processor: outside all calls, in a program, or waiting for a lock. -/
inductive Thread (σ L : Type)
  | idle
  | runs (p : Prog σ L Unit)
  | waits (l : L) (p : Prog σ L Unit)

/-- The shared state, who holds each lock, and the processors. -/
structure Config (σ L : Type) where
  shared : σ
  holder : L → Option Nat
  threads : Nat → Thread σ L

/-- A processor makes a call, or goes on. -/
inductive Move (γ : Type)
  | call (c : γ)
  | go
deriving DecidableEq

/-- The calls processors make: when they can, and the program of each. -/
structure Workload (σ L γ : Type) where
  init : σ → Prop
  cpus : Nat
  ready : Nat → γ → σ → Prop
  body : Nat → γ → Prog σ L Unit

section Steps

variable {σ L γ : Type}

namespace Config

/-- A processor's thread changed. -/
def setThread (c : Config σ L) (v : Nat) (t : Thread σ L) : Config σ L :=
  { c with threads := fun w => if w = v then t else c.threads w }

/-- A lock given to a processor or to nobody. -/
def setHolder [DecidableEq L] (c : Config σ L) (l : L) (owner : Option Nat) : Config σ L :=
  { c with holder := fun m => if m = l then owner else c.holder m }

@[simp] theorem setThread_same (c : Config σ L) (v : Nat) (t : Thread σ L) :
    (c.setThread v t).threads v = t := if_pos rfl

theorem setThread_other (c : Config σ L) {v w : Nat} (t : Thread σ L) (h : w ≠ v) :
    (c.setThread v t).threads w = c.threads w := if_neg h

/-- A processor's next step in a program. -/
def go [DecidableEq L] (v : Nat) (c : Config σ L) : Config σ L :=
  match c.threads v with
  | .idle => c
  | .runs (.pure _) => c.setThread v .idle
  | .runs (.read k) => c.setThread v (.runs (k c.shared))
  | .runs (.write f p) => { c.setThread v (.runs p) with shared := f c.shared }
  | .runs (.lock l p) => c.setThread v (.waits l p)
  | .runs (.unlock l p) => (c.setThread v (.runs p)).setHolder l none
  | .waits l p => (c.setThread v (.runs p)).setHolder l (some v)

/-- A processor outside all programs stays, and one that waits goes on when
the lock is free. -/
def CanGo (v : Nat) (c : Config σ L) : Prop :=
  match c.threads v with
  | .idle => False
  | .runs _ => True
  | .waits l _ => c.holder l = none

/-- A processor waits for a lock that the other one holds. -/
def Blocks (c : Config σ L) (v w : Nat) : Prop :=
  ∃ l p, c.threads v = .waits l p ∧ c.holder l = some w

/-- A set of processors each of which waits for a lock that one of the set
holds. -/
def Deadlocked (c : Config σ L) (S : Nat → Prop) : Prop :=
  (∃ v, S v) ∧ ∀ v, S v → ∃ w, S w ∧ c.Blocks v w

end Config

namespace Workload

variable (W : Workload σ L γ)

/-- When a move can be made. -/
def Enabled (c : Config σ L) (e : Nat × Move γ) : Prop :=
  e.1 < W.cpus ∧
    match e.2 with
    | .call a => (match c.threads e.1 with | .idle => True | _ => False) ∧ W.ready e.1 a c.shared
    | .go => c.CanGo e.1

/-- The configuration after a move. -/
def next [DecidableEq L] (c : Config σ L) (e : Nat × Move γ) : Config σ L :=
  match e.2 with
  | .call a => c.setThread e.1 (.runs (W.body e.1 a))
  | .go => c.go e.1

/-- All interleavings of the calls. -/
def system [DecidableEq L] : StepSystem (Config σ L) (Nat × Move γ) where
  init c := W.init c.shared ∧ (∀ l, c.holder l = none) ∧ ∀ v, c.threads v = .idle
  step c e c' := W.Enabled c e ∧ c' = W.next c e

/-- The configuration after moves made one after the other. -/
def run [DecidableEq L] (moves : List (Nat × Move γ)) (c : Config σ L) : Config σ L :=
  moves.foldl W.next c

/-- Every move can be made where it comes up, and meets `ok` there. -/
def Meets [DecidableEq L] (ok : Config σ L → Nat × Move γ → Prop) :
    List (Nat × Move γ) → Config σ L → Prop
  | [], _ => True
  | e :: moves, c => W.Enabled c e ∧ ok c e ∧ Meets ok moves (W.next c e)

/-- Nobody has called anything yet. -/
def start (s : σ) : Config σ L := ⟨s, fun _ => none, fun _ => .idle⟩

variable {W}

instance [DecidableEq L] (c : Config σ L) (v : Nat) : Decidable (c.CanGo v) := by
  unfold Config.CanGo
  cases c.threads v <;> infer_instance

instance [DecidableEq L] [∀ v a s, Decidable (W.ready v a s)] (c : Config σ L)
    (e : Nat × Move γ) : Decidable (W.Enabled c e) := by
  obtain ⟨v, move⟩ := e
  unfold Enabled
  cases move with
  | go => infer_instance
  | call a =>
    dsimp only
    cases c.threads v <;> infer_instance

instance decidableMeets [DecidableEq L] (ok : Config σ L → Nat × Move γ → Prop)
    [∀ v a s, Decidable (W.ready v a s)] [∀ c e, Decidable (ok c e)] :
    ∀ (moves : List (Nat × Move γ)) (c : Config σ L), Decidable (W.Meets ok moves c)
  | [], _ => .isTrue trivial
  | e :: moves, c =>
      have := decidableMeets ok moves (W.next c e)
      inferInstanceAs (Decidable (W.Enabled c e ∧ ok c e ∧ W.Meets ok moves (W.next c e)))

theorem Meets.reach [DecidableEq L] {ok : Config σ L → Nat × Move γ → Prop}
    {moves : List (Nat × Move γ)} {c : Config σ L} (hc : W.system.Reach ok c)
    (h : W.Meets ok moves c) : W.system.Reach ok (W.run moves c) := by
  induction moves generalizing c with
  | nil => exact hc
  | cons e moves ih => exact ih (.step hc h.2.1 ⟨h.1, rfl⟩) h.2.2

theorem Meets.fromStart [DecidableEq L] {ok : Config σ L → Nat × Move γ → Prop}
    {moves : List (Nat × Move γ)} {s : σ} (hs : W.init s) (h : W.Meets ok moves (start s)) :
    W.system.Reach ok (W.run moves (start s)) :=
  h.reach (.init ⟨hs, fun _ => rfl, fun _ => rfl⟩)

end Workload

/-- A processor does not ask for a lock that nests, of the rank of one it
holds, when the lock is held by itself or by a processor that waits for it
directly or through others. -/
def ClosesNoRing (R : Ranking L) (c : Config σ L) (e : Nat × Move γ) : Prop :=
  match e.2, c.threads e.1 with
  | .go, .runs (.lock l _) => R.nests l = true →
      ∀ m, c.holder m = some e.1 → R.rank m = R.rank l →
        ∀ w, c.holder l = some w → ¬ Relation.ReflTransGen c.Blocks w e.1
  | _, _ => True

/-- A processor does not ask for a lock that nests, of the rank of one it
holds, when the lock is held by itself or by a processor that waits for a lock
that nests. -/
def AsksApart (R : Ranking L) (c : Config σ L) (e : Nat × Move γ) : Prop :=
  match e.2, c.threads e.1 with
  | .go, .runs (.lock l _) => R.nests l = true →
      ∀ m, c.holder m = some e.1 → R.rank m = R.rank l →
        ∀ w, c.holder l = some w → w ≠ e.1 ∧ ∀ m p, c.threads w = .waits m p → R.nests m = false
  | _, _ => True

end Steps

/-! ## Rings of waiting processors -/

section Rings

variable {σ L γ : Type} {R : Ranking L} {cpus : Nat} {c c' : Config σ L}
variable {v : Nat}

/-- The locks a processor holds are among those its program counts on. -/
def HoldsAt (c : Config σ L) (v : Nat) (held : List L) : Prop :=
  ∀ l, c.holder l = some v → l ∈ held

/-- What is left of a processor's program is ordered, whether it waits or
not. -/
def ThreadOk (R : Ranking L) (c : Config σ L) (v : Nat) : Thread σ L → Prop
  | .idle => HoldsAt c v []
  | .runs p => ∃ held, HoldsAt c v held ∧ p.Ordered R held []
  | .waits l p => ∃ held, HoldsAt c v held ∧ (∀ m ∈ held, R.Under l m) ∧
      p.Ordered R (l :: held) []

/-- Every processor is in an ordered program, only those of the workload are in
one at all, and no ring of processors wait for one another. -/
structure Tidy (R : Ranking L) (cpus : Nat) (c : Config σ L) : Prop where
  threads : ∀ v, ThreadOk R c v (c.threads v)
  bound : ∀ v, c.threads v ≠ .idle → v < cpus
  rings : ∀ v, ¬ Relation.TransGen c.Blocks v v

theorem ThreadOk.frame {t : Thread σ L} (h : ThreadOk R c v t)
    (hholder : ∀ l, c'.holder l = some v → c.holder l = some v) : ThreadOk R c' v t := by
  cases t with
  | idle => exact fun l hl => h l (hholder l hl)
  | runs p =>
    obtain ⟨held, hheld, hp⟩ := h
    exact ⟨held, fun l hl => hheld l (hholder l hl), hp⟩
  | waits l p =>
    obtain ⟨held, hheld, hrest⟩ := h
    exact ⟨held, fun m hm => hheld m (hholder m hm), hrest⟩

/-- A new edge from `v` only: a ring after it was one before, or leads from the
lock's holder back to `v`. -/
theorem ring_through {r r' : Nat → Nat → Prop} {new : Nat → Prop}
    (hnew : ∀ x y, r' x y → r x y ∨ (x = v ∧ new y)) {x y : Nat}
    (h : Relation.TransGen r' x y) :
    Relation.TransGen r x y ∨
      ∃ w, new w ∧ Relation.ReflTransGen r w y ∧ Relation.ReflTransGen r' x v := by
  induction h with
  | single hedge =>
    rcases hnew _ _ hedge with hold | ⟨rfl, hw⟩
    · exact Or.inl (.single hold)
    · exact Or.inr ⟨_, hw, .refl, .refl⟩
  | tail hpath hedge ih =>
    rcases hnew _ _ hedge with hold | ⟨rfl, hw⟩
    · rcases ih with hbefore | ⟨w, hw, hafter, hto⟩
      · exact Or.inl (hbefore.tail hold)
      · exact Or.inr ⟨w, hw, hafter.tail hold, hto⟩
    · exact Or.inr ⟨_, hw, .refl, hpath.to_reflTransGen⟩

/-- **A request closes a ring** only if a path leads from the holder of the
lock to the processor that asks. -/
theorem ring_of_request {r r' : Nat → Nat → Prop} {w : Nat}
    (hnew : ∀ x y, r' x y → r x y ∨ (x = v ∧ y = w)) (hold : ∀ x, ¬ Relation.TransGen r x x)
    {x : Nat} (h : Relation.TransGen r' x x) : Relation.ReflTransGen r w v := by
  rcases ring_through hnew h with hring | ⟨_, rfl, hafter, hto⟩
  · exact (hold x hring).elim
  · rcases Relation.reflTransGen_iff_eq_or_transGen.mp hto with heq | hpath
    · rw [heq]
      exact hafter
    · rcases ring_through hnew hpath with hbefore | ⟨_, rfl, hback, -⟩
      · exact hafter.trans hbefore.to_reflTransGen
      · exact hback

theorem ring_avoids {r r' : Nat → Nat → Prop} (hv : ∀ y, ¬ r' v y)
    (hnew : ∀ x y, r' x y → y ≠ v → r x y) {x y : Nat} (h : Relation.TransGen r' x y)
    (hy : y ≠ v) : Relation.TransGen r x y := by
  induction h with
  | single hedge => exact .single (hnew _ _ hedge hy)
  | @tail b y hpath hedge ih =>
    have hb : b ≠ v := by
      intro hb
      rw [hb] at hedge
      exact hv _ hedge
    exact (ih hb).tail (hnew _ _ hedge hy)

namespace Tidy

theorem path_rank (h : Tidy R cpus c) {l : L} {w y : Nat} (hw : c.holder l = some w)
    (hpath : Relation.ReflTransGen c.Blocks w y) :
    ∃ m, c.holder m = some y ∧ R.rank m ≤ R.rank l := by
  induction hpath with
  | refl => exact ⟨l, hw, Nat.le_refl _⟩
  | @tail b y _ hedge ih =>
    obtain ⟨m, hm, hle⟩ := ih
    obtain ⟨m', p, hwaits, hholder⟩ := hedge
    have hok := h.threads b
    rw [hwaits] at hok
    obtain ⟨held, hheld, hrank, -⟩ := hok
    exact ⟨m', hholder, Nat.le_trans (hrank m (hheld m hm)).le hle⟩

/-- **Asking for a lock** closes no ring, if the condition holds or every lock
held has a higher rank. -/
theorem request_rings (h : Tidy R cpus c) {l : L} {p : Prog σ L Unit}
    (hunder : ∀ m, c.holder m = some v → R.Under l m)
    (hok : R.nests l = true → ∀ m, c.holder m = some v → R.rank m = R.rank l →
      ∀ w, c.holder l = some w → ¬ Relation.ReflTransGen c.Blocks w v) (x : Nat) :
    ¬ Relation.TransGen (c.setThread v (.waits l p)).Blocks x x := by
  intro hring
  have hnew : ∀ x y, (c.setThread v (.waits l p)).Blocks x y →
      c.Blocks x y ∨ (x = v ∧ c.holder l = some y) := by
    intro x y hedge
    obtain ⟨m, q, hwaits, hholder⟩ := hedge
    by_cases hx : x = v
    · subst hx
      rw [Config.setThread_same] at hwaits
      cases hwaits
      exact Or.inr ⟨rfl, hholder⟩
    · rw [Config.setThread_other c _ hx] at hwaits
      exact Or.inl ⟨m, q, hwaits, hholder⟩
  cases hl : c.holder l with
  | none =>
    refine h.rings x (Relation.TransGen.mono (fun x y hedge => ?_) x x hring)
    rcases hnew x y hedge with hold | ⟨-, hy⟩
    · exact hold
    · rw [hl] at hy
      cases hy
  | some w =>
    have hpath : Relation.ReflTransGen c.Blocks w v := by
      refine ring_of_request (fun x y hedge => ?_) h.rings hring
      rcases hnew x y hedge with hold | ⟨hx, hy⟩
      · exact Or.inl hold
      · rw [hl] at hy
        exact Or.inr ⟨hx, (Option.some.inj hy).symm⟩
    obtain ⟨m, hm, hle⟩ := h.path_rank hl hpath
    rcases hunder m hm with hlt | ⟨hnests, heq⟩
    · omega
    · exact hok hnests m hm heq.symm w hl hpath

/-- A thread that waited for nobody and does not start to, with no lock given
to anyone. -/
theorem quiet_rings (h : Tidy R cpus c) {t : Thread σ L} (ht : ∀ l p, t ≠ .waits l p)
    (hthreads : ∀ w, c'.threads w = if w = v then t else c.threads w)
    (hholder : ∀ l w, c'.holder l = some w → c.holder l = some w) (x : Nat) :
    ¬ Relation.TransGen c'.Blocks x x := by
  intro hring
  refine h.rings x (Relation.TransGen.mono (fun x y hedge => ?_) x x hring)
  obtain ⟨l, p, hwaits, hl⟩ := hedge
  rw [hthreads] at hwaits
  split at hwaits
  · exact (ht l p hwaits).elim
  · exact ⟨l, p, hwaits, hholder l y hl⟩

/-- **Getting a lock** closes no ring: the processor goes on. -/
theorem grant_rings [DecidableEq L] (h : Tidy R cpus c) {l : L} {p : Prog σ L Unit} (x : Nat) :
    ¬ Relation.TransGen ((c.setThread v (.runs p)).setHolder l (some v)).Blocks x x := by
  intro hring
  have hv : ∀ y, ¬ ((c.setThread v (.runs p)).setHolder l (some v)).Blocks v y := by
    intro y hedge
    obtain ⟨m, q, hwaits, -⟩ := hedge
    change (c.setThread v (.runs p)).threads v = _ at hwaits
    rw [Config.setThread_same] at hwaits
    cases hwaits
  have hnew : ∀ x y, ((c.setThread v (.runs p)).setHolder l (some v)).Blocks x y → y ≠ v →
      c.Blocks x y := by
    intro x y hedge hy
    obtain ⟨m, q, hwaits, hholder⟩ := hedge
    by_cases hx : x = v
    · subst hx
      exact (hv y ⟨m, q, hwaits, hholder⟩).elim
    · change (c.setThread v (.runs p)).threads x = _ at hwaits
      rw [Config.setThread_other c _ hx] at hwaits
      refine ⟨m, q, hwaits, ?_⟩
      change (if m = l then some v else c.holder m) = some y at hholder
      split at hholder
      · exact (hy (Option.some.inj hholder).symm).elim
      · exact hholder
  have hx : x ≠ v := by
    intro hx
    rw [hx] at hring
    obtain ⟨y, hedge, -⟩ := Relation.TransGen.head'_iff.mp hring
    exact hv y hedge
  exact h.rings x (ring_avoids hv hnew hring hx)

theorem step (h : Tidy R cpus c) {t : Thread σ L} (hv : v < cpus)
    (hthreads : ∀ w, c'.threads w = if w = v then t else c.threads w)
    (hholder : ∀ l w, w ≠ v → c'.holder l = some w → c.holder l = some w)
    (ht : ThreadOk R c' v t) (hrings : ∀ x, ¬ Relation.TransGen c'.Blocks x x) :
    Tidy R cpus c' where
  threads w := by
    rw [hthreads]
    split
    · rename_i hw
      rw [hw]
      exact ht
    · rename_i hw
      exact (h.threads w).frame fun l hl => hholder l w hw hl
  bound w hw := by
    rw [hthreads] at hw
    split at hw
    · rename_i heq
      rw [heq]
      exact hv
    · exact h.bound w hw
  rings := hrings

theorem go [DecidableEq L] (h : Tidy R cpus c) (hv : v < cpus) (hcan : c.CanGo v)
    (hok : ClosesNoRing R c ((v, .go) : Nat × Move γ)) : Tidy R cpus (c.go v) := by
  have hthread := h.threads v
  unfold Config.go
  unfold Config.CanGo at hcan
  unfold ClosesNoRing at hok
  cases hat : c.threads v with
  | idle =>
    rw [hat] at hcan
    exact hcan.elim
  | waits l p =>
    rw [hat] at hthread hcan
    dsimp only at hcan ⊢
    obtain ⟨held, hheld, -, hp⟩ := hthread
    refine h.step hv (fun _ => rfl) (fun m w hw hm => ?_) ⟨l :: held, fun m hm => ?_, hp⟩
      h.grant_rings
    · change (if m = l then some v else c.holder m) = some w at hm
      split at hm
      · exact (hw (Option.some.inj hm).symm).elim
      · exact hm
    · change (if m = l then some v else c.holder m) = some v at hm
      split at hm
      · rename_i heq
        rw [heq]
        exact List.mem_cons_self
      · exact List.mem_cons_of_mem _ (hheld m hm)
  | runs p =>
    rw [hat] at hthread
    obtain ⟨held, hheld, hp⟩ := hthread
    cases p with
    | pure a =>
      have hnil : held = [] := hp
      rw [hnil] at hheld
      exact h.step hv (fun _ => rfl) (fun _ _ _ hm => hm) hheld
        (h.quiet_rings (fun _ _ ht => by cases ht) (fun _ => rfl) fun _ _ hm => hm)
    | read k =>
      exact h.step hv (fun _ => rfl) (fun _ _ _ hm => hm) ⟨held, hheld, hp c.shared⟩
        (h.quiet_rings (fun _ _ ht => by cases ht) (fun _ => rfl) fun _ _ hm => hm)
    | write f p =>
      exact h.step hv (fun _ => rfl) (fun _ _ _ hm => hm) ⟨held, hheld, hp⟩
        (h.quiet_rings (fun _ _ ht => by cases ht) (fun _ => rfl) fun _ _ hm => hm)
    | lock l p =>
      rw [hat] at hok
      exact h.step hv (fun _ => rfl) (fun _ _ _ hm => hm) ⟨held, hheld, hp.1, hp.2⟩
        (h.request_rings (fun m hm => hp.1 m (hheld m hm)) hok)
    | unlock l p =>
      obtain ⟨rest, heq, hrest⟩ := hp
      have hdrop : ∀ m w, (if m = l then none else c.holder m) = some w →
          m ≠ l ∧ c.holder m = some w := by
        intro m w hm
        split at hm
        · cases hm
        · rename_i hne
          exact ⟨hne, hm⟩
      refine h.step hv (fun _ => rfl) (fun m w _ hm => (hdrop m w hm).2)
        ⟨rest, fun m hm => ?_, hrest⟩
        (h.quiet_rings (fun _ _ ht => by cases ht) (fun _ => rfl) fun m w hm => (hdrop m w hm).2)
      obtain ⟨hne, hm⟩ := hdrop m v hm
      have hmem := hheld m hm
      rw [heq] at hmem
      exact (List.mem_cons.mp hmem).resolve_left hne

/-- A processor that waits on a chain that leads to `v`, for a lock under one
that `v` asks for, waits for a lock that nests. -/
theorem apart [DecidableEq L] (h : Tidy R cpus c) {e : Nat × Move γ} (hok : AsksApart R c e) :
    ClosesNoRing R c e := by
  obtain ⟨v, move⟩ := e
  cases move with
  | call a => trivial
  | go =>
    have hthread := h.threads v
    unfold AsksApart at hok
    unfold ClosesNoRing
    dsimp only at hok ⊢
    cases hat : c.threads v with
    | idle => trivial
    | waits l p => trivial
    | runs p =>
      cases p with
      | lock l p =>
        rw [hat] at hok hthread
        obtain ⟨held, hheld, hunder, -⟩ := hthread
        intro hnests m hm hrank w hw hpath
        obtain ⟨hne, hwaiting⟩ := hok hnests m hm hrank w hw
        rcases Relation.ReflTransGen.cases_head hpath with heq | ⟨y, hedge, hrest⟩
        · exact hne heq
        · obtain ⟨m', q, hwaits, hholder⟩ := hedge
          have hwok := h.threads w
          rw [hwaits] at hwok
          obtain ⟨heldw, hheldw, hunderw, -⟩ := hwok
          obtain ⟨n, hn, hle⟩ := h.path_rank hholder hrest
          have hdown := (hunder n (hheld n hn)).le
          rcases hunderw l (hheldw l hw) with hlt | ⟨hnests', -⟩
          · omega
          · rw [hwaiting m' q hwaits] at hnests'
            cases hnests'
      | _ => trivial

theorem not_deadlocked (h : Tidy R cpus c) (S : Nat → Prop) : ¬ c.Deadlocked S := by
  intro hdead
  obtain ⟨⟨v, hv⟩, hall⟩ := hdead
  have hlt : ∀ w, S w → w < cpus := by
    intro w hw
    obtain ⟨_, -, l, p, hwaits, -⟩ := hall w hw
    refine h.bound w fun hidle => ?_
    rw [hidle] at hwaits
    cases hwaits
  let after : Fin cpus → Fin cpus → Prop := fun i j => Relation.TransGen c.Blocks j i
  have : IsTrans (Fin cpus) after := ⟨fun _ _ _ hij hjk => hjk.trans hij⟩
  have : Std.Irrefl after := ⟨fun i => h.rings i⟩
  have : Finite (Fin cpus) := .intro (.refl _)
  have hwf : WellFounded after := Finite.wellFounded_of_trans_of_irrefl after
  obtain ⟨last, hlast, hmin⟩ := hwf.has_min {i | S i} ⟨⟨v, hlt v hv⟩, hv⟩
  obtain ⟨w, hw, hedge⟩ := hall last hlast
  exact hmin ⟨w, hlt w hw⟩ hw (.single hedge)

end Tidy

/-- **No deadlock.**  When every call's program is ordered, and nobody asks for
a lock of the rank of one it holds in a way that closes a ring, no set of
processors wait for one another in any state of the run. -/
theorem no_deadlock [DecidableEq L] {W : Workload σ L γ}
    (hbody : ∀ v a, (W.body v a).Ordered R [] []) {ok : Config σ L → Nat × Move γ → Prop}
    (hrings : ∀ c e, Tidy R W.cpus c → ok c e → ClosesNoRing R c e) {c : Config σ L}
    (h : W.system.Reach ok c) (S : Nat → Prop) : ¬ c.Deadlocked S := by
  refine Tidy.not_deadlocked (?_ : Tidy R W.cpus c) S
  refine h.invariant (fun c hc => ?_) fun c e c' hc hok hstep => ?_
  · obtain ⟨-, hholder, hidle⟩ := hc
    refine ⟨fun v => ?_, fun v hv => (hv (hidle v)).elim, fun v hring => ?_⟩
    · rw [hidle]
      intro l hl
      rw [hholder] at hl
      cases hl
    · obtain ⟨w, hedge, -⟩ := Relation.TransGen.head'_iff.mp hring
      obtain ⟨l, p, hwaits, -⟩ := hedge
      rw [hidle] at hwaits
      cases hwaits
  · obtain ⟨v, move⟩ := e
    obtain ⟨⟨hv, hen⟩, hnext⟩ := hstep
    rw [hnext]
    cases move with
    | go => exact hc.go hv hen (hrings c _ hc hok)
    | call a =>
      have hthread := hc.threads v
      dsimp only at hen hv
      cases hat : c.threads v with
      | idle =>
        rw [hat] at hthread
        exact hc.step hv (fun _ => rfl) (fun _ _ _ hm => hm) ⟨[], hthread, hbody v a⟩
          (hc.quiet_rings (fun _ _ ht => by cases ht) (fun _ => rfl) fun _ _ hm => hm)
      | runs p =>
        rw [hat] at hen
        exact hen.1.elim
      | waits l p =>
        rw [hat] at hen
        exact hen.1.elim

end Rings

end LockProgram

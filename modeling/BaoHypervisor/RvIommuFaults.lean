import BaoHypervisor.Bits64
import BaoHypervisor.CircularQueue
import BaoHypervisor.StepSystem

/-!
# The fault queue of the RISC-V IOMMU

`rv_iommu_fq_irq_handler` and the queue it drains.  The IOMMU appends a record for
every fault and raises `ipsr.fip`; the handler reads and writes its registers one at a
time while more faults come in.  The registers behave as the IOMMU's specification
says: `fqcsr.fqmf`, `fqcsr.fqof` and `ipsr.fip` are cleared by writing one to them, the
last one only as long as there is no error, and a fault finds no place in the queue while
it is off, full or in error.
-/

namespace Bao

namespace RvIommu

/-- `struct fq_entry`. -/
structure FqEntry where
  tags : BitVec 64
  iotval : BitVec 64
  iotval2 : BitVec 64
  deriving DecidableEq

/-- `FQ_N_ENTRIES`. -/
abbrev fqEntries : Nat := 64

/-- `(fqh + 1) & FQ_INDEX_MASK`. -/
def fqNext (fqh : Nat) : Nat := (fqh + 1) % 2 ^ 32 &&& (2 ^ (5 + 1) - 1)

/-- The fields of `fqcsr`. -/
structure FqCsr where
  en : Bool
  ie : Bool
  mf : Bool
  of : Bool
  deriving DecidableEq

/-- `RV_IOMMU_XQCSR_EN_BIT`, `RV_IOMMU_XQCSR_IE_BIT`, `RV_IOMMU_XQCSR_MF_BIT` and
`RV_IOMMU_FQCSR_OF_BIT`. -/
abbrev fqcsrEn : BitVec 32 := 1#32 <<< 0
abbrev fqcsrIe : BitVec 32 := 1#32 <<< 1
abbrev fqcsrMf : BitVec 32 := 1#32 <<< 8
abbrev fqcsrOf : BitVec 32 := 1#32 <<< 9

/-- `RV_IOMMU_FQCSR_DEFAULT`. -/
def fqcsrDefault : BitVec 32 := fqcsrEn ||| fqcsrIe ||| fqcsrMf ||| fqcsrOf

/-- `RV_IOMMU_FQCSR_CLEAR_ERR`. -/
def fqcsrClearErr : BitVec 32 := fqcsrMf ||| fqcsrOf

/-- What a load of `fqcsr` gives. -/
def FqCsr.load (c : FqCsr) : BitVec 32 :=
  (if c.en then fqcsrEn else 0#32) ||| (if c.ie then fqcsrIe else 0#32) |||
    (if c.mf then fqcsrMf else 0#32) ||| (if c.of then fqcsrOf else 0#32)

/-- What a store does: the enables are replaced, the errors cleared by one. -/
def FqCsr.store (c : FqCsr) (w : BitVec 32) : FqCsr where
  en := w.getLsbD 0
  ie := w.getLsbD 1
  mf := c.mf && !w.getLsbD 8
  of := c.of && !w.getLsbD 9

/-- What the handler prints. -/
inductive FqOut where
  | memoryFault
  | full
  | record (cause did iotval iotval2 : BitVec 64)
  deriving DecidableEq

/-- The line for a record. -/
def FqEntry.report (r : FqEntry) : FqOut :=
  .record (bit64Extract r.tags 0 12) (bit64Extract r.tags 40 24) r.iotval r.iotval2

/-- Where the handler is: before it runs, and before each of its accesses. -/
inductive FqPhase where
  | idle
  | entered
  | fipSeen
  | errSeen
  | errDone
  | fipCleared
  | headRead (fqh : Nat)
  | draining (fqh fqt : Nat)
  | halted
  deriving DecidableEq

/-- The queue and its registers, the handler, what it has printed, and the records the
IOMMU has put into the queue since it was enabled. -/
structure FqSystem where
  fq : Nat → FqEntry
  fqh : Nat
  fqt : Nat
  csr : FqCsr
  fip : Bool
  phase : FqPhase
  out : List FqOut
  written : List FqEntry

/-- A fault of a device. -/
def FqSystem.fault (r : FqEntry) (s : FqSystem) : FqSystem :=
  if s.csr.en = false ∨ s.csr.mf = true ∨ s.csr.of = true then s
  else if fqNext s.fqt = s.fqh then
    { s with csr := { s.csr with of := true }, fip := s.fip || s.csr.ie }
  else
    { s with
      fq := Function.update s.fq s.fqt r
      fqt := fqNext s.fqt
      fip := s.fip || s.csr.ie
      written := s.written ++ [r] }

/-- A fault whose record cannot be stored. -/
def FqSystem.memFault (s : FqSystem) : FqSystem :=
  if s.csr.en = false ∨ s.csr.mf = true ∨ s.csr.of = true then s
  else { s with csr := { s.csr with mf := true }, fip := s.fip || s.csr.ie }

/-- The warnings about the error bits. -/
def errWarnings (csr : BitVec 32) : List FqOut :=
  (if csr &&& fqcsrMf != 0#32 then [.memoryFault] else []) ++
    (if csr &&& fqcsrOf != 0#32 then [.full] else [])

/-- The next access of `rv_iommu_fq_irq_handler`; the first one is its entry. -/
def FqSystem.handle (s : FqSystem) : FqSystem :=
  match s.phase with
  | .idle => { s with phase := .entered }
  | .entered => { s with phase := if s.fip then .fipSeen else .halted }
  | .fipSeen =>
      if s.csr.load &&& (fqcsrMf ||| fqcsrOf) != 0#32 then
        { s with phase := .errSeen, out := s.out ++ errWarnings s.csr.load }
      else { s with phase := .errDone }
  | .errSeen => { s with phase := .errDone, csr := s.csr.store fqcsrClearErr }
  | .errDone => { s with phase := .fipCleared, fip := s.csr.ie && (s.csr.mf || s.csr.of) }
  | .fipCleared => { s with phase := .headRead s.fqh }
  | .headRead fqh => { s with phase := .draining fqh s.fqt }
  | .draining fqh fqt =>
      if fqh ≠ fqt then
        { s with phase := .draining (fqNext fqh) fqt, out := s.out ++ [(s.fq fqh).report] }
      else { s with phase := .idle, fqh := fqh }
  | .halted => s

/-- A fault, a fault that is not recorded, or the handler's turn. -/
inductive FqStep where
  | fault (r : FqEntry)
  | memFault
  | handler

/-- The handler is entered when its interrupt is pending. -/
def FqStep.enabled : FqStep → FqSystem → Prop
  | .handler, s => s.phase = .idle → s.fip = true
  | _, _ => True

def FqStep.next : FqStep → FqSystem → FqSystem
  | .fault r, s => s.fault r
  | .memFault, s => s.memFault
  | .handler, s => s.handle

/-- As `rv_iommu_init` leaves it, with the queue enabled. -/
def FqSystem.Start (s : FqSystem) : Prop :=
  s.fqh = 0 ∧ s.fqt = 0 ∧ s.fip = false ∧ s.phase = .idle ∧ s.out = [] ∧ s.written = [] ∧
    ∃ c, s.csr = FqCsr.store c fqcsrDefault

/-- The queue and its handler. -/
def faultSystem : StepSystem FqSystem FqStep := .ofNext FqSystem.Start FqStep.enabled FqStep.next

/-- The records among the output. -/
def recordsOut (out : List FqOut) : List FqOut :=
  out.filter fun o => match o with
    | .record .. => true
    | _ => false

/-- What holds between the accesses: `H` records have been given back, `P` printed, and
those in between and after are still in the queue.  A record the handler has not seen has
its interrupt pending. -/
structure FqInv (s : FqSystem) (H P : Nat) : Prop where
  head : s.fqh = H % fqEntries
  tail : s.fqt = s.written.length % fqEntries
  head_le : H ≤ P
  printed_le : P ≤ s.written.length
  room : s.written.length < H + fqEntries
  held : ∀ i (hi : i < s.written.length), H ≤ i → s.fq (i % fqEntries) = s.written[i]
  out : recordsOut s.out = (s.written.take P).map FqEntry.report
  enables : s.csr.en = s.csr.ie
  phase : match s.phase with
    | .idle | .fipSeen | .errSeen | .errDone => P = H ∧ (H < s.written.length → s.fip = true)
    | .entered => P = H ∧ s.fip = true
    | .fipCleared => P = H
    | .headRead fqh => P = H ∧ fqh = H % fqEntries
    | .draining fqh fqt => fqh = P % fqEntries ∧ ∃ T, fqt = T % fqEntries ∧ P ≤ T ∧
        T ≤ s.written.length ∧ (T < s.written.length → s.fip = true)
    | .halted => False

variable {s s' : FqSystem} {H P : Nat} {r : FqEntry}

/-! ## The queue -/

theorem fqNext_mod (a : Nat) : fqNext (a % fqEntries) = (a + 1) % fqEntries := by
  have hlt : a % fqEntries < 64 := Nat.mod_lt a (by decide)
  have hword : (a % fqEntries + 1) % 2 ^ 32 = a % fqEntries + 1 := Nat.mod_eq_of_lt (by omega)
  rw [fqNext, hword, Nat.and_two_pow_sub_one_eq_mod]
  exact Nat.mod_add_mod a fqEntries 1

/-- Records less than a queue apart have different places. -/
theorem place_ne {a b : Nat} (hab : a < b) (hlt : b < a + fqEntries) :
    a % fqEntries ≠ b % fqEntries := by
  intro heq
  have hinj := @CircularQueue.index_inj a 0 (b - a) fqEntries (by decide) (by omega)
    (by rw [Nat.add_zero, Nat.add_sub_cancel' (Nat.le_of_lt hab)]; exact heq)
  omega

theorem recordsOut_append (out more : List FqOut) :
    recordsOut (out ++ more) = recordsOut out ++ recordsOut more := List.filter_append _ _

theorem recordsOut_errWarnings (csr : BitVec 32) : recordsOut (errWarnings csr) = [] := by
  unfold errWarnings
  split
  · split
    · rfl
    · rfl
  · split
    · rfl
    · rfl

/-- The IOMMU writes to the queue only while it is on, with its interrupt. -/
theorem FqInv.on (h : FqInv s H P)
    (hon : ¬ (s.csr.en = false ∨ s.csr.mf = true ∨ s.csr.of = true)) : s.csr.ie = true := by
  rw [← h.enables]
  cases hcsr : s.csr.en with
  | true => rfl
  | false => exact (hon (.inl hcsr)).elim

/-- **An interrupt is raised** for what the queue holds now. -/
theorem FqInv.raise (h : FqInv s H P) (hroom : s'.written.length < H + fqEntries)
    (hlen : s.written.length ≤ s'.written.length) (hqueue : s'.fqh = s.fqh ∧ s'.phase = s.phase ∧
      s'.fqt = s'.written.length % fqEntries ∧ s'.fip = true)
    (hheld : ∀ i (hi : i < s'.written.length), H ≤ i → s'.fq (i % fqEntries) = s'.written[i])
    (hout : recordsOut s'.out = (s'.written.take P).map FqEntry.report)
    (henables : s'.csr.en = s'.csr.ie) : FqInv s' H P := by
  obtain ⟨hhead, hphase', htail, hfip⟩ := hqueue
  have hprinted := h.printed_le
  refine ⟨hhead.trans h.head, htail, h.head_le, by omega, hroom, hheld, hout, henables, ?_⟩
  have hphase := h.phase
  rw [hphase', hfip]
  cases hp : s.phase with
  | idle | fipSeen | errSeen | errDone | entered =>
      rw [hp] at hphase
      exact ⟨hphase.1, by simp⟩
  | fipCleared | headRead | halted =>
      rw [hp] at hphase
      exact hphase
  | draining fqh fqt =>
      rw [hp] at hphase
      obtain ⟨hh, T, hT⟩ := hphase
      exact ⟨hh, T, hT.1, hT.2.1, by omega, fun _ => rfl⟩

/-- **A fault** is put behind the others, or is lost. -/
theorem FqInv.fault (h : FqInv s H P) : FqInv (s.fault r) H P := by
  unfold FqSystem.fault
  split
  · exact h
  · next hon =>
    have hfip : (s.fip || s.csr.ie) = true := by rw [h.on hon, Bool.or_true]
    split
    · exact h.raise h.room (Nat.le_refl _) ⟨rfl, rfl, h.tail, hfip⟩ h.held h.out h.enables
    · next hfree =>
      have hlen : (s.written ++ [r]).length = s.written.length + 1 := List.length_append
      have hroom : s.written.length + 1 < H + fqEntries := by
        have hlt := h.room
        rw [h.tail, h.head, fqNext_mod] at hfree
        rcases Nat.lt_or_ge (s.written.length + 1) (H + fqEntries) with hlt' | hge
        · exact hlt'
        · have heq : s.written.length + 1 = H + fqEntries := by omega
          rw [heq, Nat.add_mod_right] at hfree
          exact (hfree rfl).elim
      refine h.raise (by dsimp only; omega) (by dsimp only; omega) ⟨rfl, rfl, ?_, hfip⟩ ?_ ?_
        h.enables
      · dsimp only
        rw [hlen, h.tail, fqNext_mod]
      · intro i hi hHi
        dsimp only at hi ⊢
        rw [h.tail]
        rcases Nat.lt_or_ge i s.written.length with hlt | hge
        · rw [Function.update_of_ne (place_ne hlt (by have := h.room; omega)), h.held i hlt hHi,
            List.getElem_append_left hlt]
        · have heq : i = s.written.length := by omega
          subst heq
          rw [Function.update_self, List.getElem_append_right (Nat.le_refl _)]
          simp only [Nat.sub_self, List.getElem_cons_zero]
      · dsimp only
        rw [List.take_append_of_le_length h.printed_le]
        exact h.out

theorem FqInv.memFault (h : FqInv s H P) : FqInv s.memFault H P := by
  unfold FqSystem.memFault
  split
  · exact h
  · next hon =>
    have hfip : (s.fip || s.csr.ie) = true := by rw [h.on hon, Bool.or_true]
    exact h.raise h.room (Nat.le_refl _) ⟨rfl, rfl, h.tail, hfip⟩ h.held h.out h.enables

/-! ## The handler -/

/-- **One access of the handler** prints at most one more record and gives back those
that are printed. -/
theorem FqInv.handle (h : FqInv s H P) (hen : s.phase = .idle → s.fip = true) :
    ∃ H' P', FqInv s.handle H' P' := by
  have hphase := h.phase
  unfold FqSystem.handle
  cases hp : s.phase with
  | idle =>
      rw [hp] at hphase
      exact ⟨H, P, { h with phase := ⟨hphase.1, hen hp⟩ }⟩
  | entered =>
      rw [hp] at hphase
      refine ⟨H, P, { h with phase := ?_ }⟩
      dsimp only
      rw [hphase.2, if_pos rfl]
      exact ⟨hphase.1, fun _ => rfl⟩
  | fipSeen =>
      rw [hp] at hphase
      dsimp only
      split
      · refine ⟨H, P, { h with phase := hphase, out := ?_ }⟩
        rw [recordsOut_append, recordsOut_errWarnings, List.append_nil]
        exact h.out
      · exact ⟨H, P, { h with phase := hphase }⟩
  | errSeen =>
      rw [hp] at hphase
      exact ⟨H, P, { h with phase := hphase, enables := rfl }⟩
  | errDone =>
      rw [hp] at hphase
      exact ⟨H, P, { h with phase := hphase.1 }⟩
  | fipCleared =>
      rw [hp] at hphase
      exact ⟨H, P, { h with phase := ⟨hphase, h.head⟩ }⟩
  | headRead fqh =>
      rw [hp] at hphase
      obtain ⟨rfl, hfqh⟩ := hphase
      refine ⟨P, P, { h with phase := ?_ }⟩
      exact ⟨hfqh, s.written.length, h.tail, h.printed_le, Nat.le_refl _,
        fun hlt => (Nat.lt_irrefl _ hlt).elim⟩
  | draining fqh fqt =>
      rw [hp] at hphase
      obtain ⟨hfqh, T, hfqt, hPT, hTW, hlate⟩ := hphase
      have hroom := h.room
      have hHP := h.head_le
      dsimp only
      split
      · next hne =>
        have hlt : P < T := by
          rcases Nat.lt_or_ge P T with hlt | hge
          · exact hlt
          · have heq : P = T := by omega
            rw [hfqh, hfqt, heq] at hne
            exact (hne rfl).elim
        have hPW : P < s.written.length := by omega
        have hrecord : s.fq fqh = s.written[P] := by
          rw [hfqh]
          exact h.held P hPW hHP
        refine ⟨H, P + 1, { h with
          head_le := by omega
          printed_le := hPW
          out := ?_
          phase := ⟨by rw [hfqh, fqNext_mod], T, hfqt, hlt, hTW, hlate⟩ }⟩
        rw [recordsOut_append, h.out, hrecord, List.take_succ_eq_append_getElem hPW,
          List.map_append]
        rfl
      · next heq =>
        have hPT' : P = T := by
          rcases Nat.lt_or_ge P T with hlt | hge
          · have hdiff := place_ne hlt (by omega)
            rw [← hfqh, ← hfqt] at hdiff
            exact (heq hdiff).elim
          · omega
        subst hPT'
        exact ⟨P, P, { h with
          head := hfqh
          head_le := Nat.le_refl _
          room := Nat.lt_of_lt_of_le hroom (Nat.add_le_add_right hHP _)
          held := fun i hi hPi => h.held i hi (by omega)
          phase := ⟨rfl, hlate⟩ }⟩
  | halted =>
      rw [hp] at hphase
      exact hphase.elim

theorem fqInv_start (h : s.Start) : FqInv s 0 0 := by
  obtain ⟨hhead, htail, hfip, hphase, hout, hwritten, c, hcsr⟩ := h
  refine ⟨hhead, ?_, Nat.le_refl _, Nat.zero_le _, ?_, ?_, ?_, ?_, ?_⟩
  · rw [htail, hwritten]
    rfl
  · rw [hwritten]
    decide
  · intro i hi
    rw [hwritten] at hi
    exact absurd hi (Nat.not_lt_zero i)
  · rw [hout]
    rfl
  · rw [hcsr]
    rfl
  · rw [hphase]
    refine ⟨rfl, ?_⟩
    rw [hwritten]
    exact fun hlt => (Nat.lt_irrefl _ hlt).elim

theorem fqInv_reachable (h : faultSystem.Reachable s) : ∃ H P, FqInv s H P := by
  have hstart : ∀ s, faultSystem.init s → ∃ H P, FqInv s H P := fun _ hs => ⟨0, 0, fqInv_start hs⟩
  refine StepSystem.Reach.invariant hstart ?_ h
  rintro s e s' ⟨H, P, hinv⟩ - ⟨hen, rfl⟩
  cases e with
  | fault r => exact ⟨H, P, hinv.fault⟩
  | memFault => exact ⟨H, P, hinv.memFault⟩
  | handler => exact hinv.handle hen

/-- **Every fault that is recorded is printed once, in its order.**  The handler never
takes its interrupt for another one; what it has printed are the first records the IOMMU
put into the queue, whenever they came; and when it has returned and its interrupt is
not pending, they are all of them. -/
theorem faults_printed (h : faultSystem.Reachable s) :
    s.phase ≠ .halted ∧ ∃ n, n ≤ s.written.length ∧
      recordsOut s.out = (s.written.take n).map FqEntry.report ∧
      (s.phase = .idle → s.fip = false → n = s.written.length) := by
  obtain ⟨H, P, hinv⟩ := fqInv_reachable h
  have hphase := hinv.phase
  refine ⟨?_, P, hinv.printed_le, hinv.out, ?_⟩
  · intro hhalted
    rw [hhalted] at hphase
    exact hphase
  · intro hidle hfip
    rw [hidle] at hphase
    obtain ⟨rfl, hpending⟩ := hphase
    rcases Nat.lt_or_ge P s.written.length with hlt | hge
    · have hset := hpending hlt
      rw [hfip] at hset
      cases hset
    · exact Nat.le_antisymm hinv.printed_le hge

/-- The queue as `rv_iommu_init` leaves it. -/
def fqStart : FqSystem where
  fq _ := ⟨0#64, 0#64, 0#64⟩
  fqh := 0
  fqt := 0
  csr := FqCsr.store ⟨false, false, false, false⟩ fqcsrDefault
  fip := false
  phase := .idle
  out := []
  written := []

theorem fqStart_start : fqStart.Start := ⟨rfl, rfl, rfl, rfl, rfl, rfl, _, rfl⟩

instance : ∀ e s, Decidable (FqStep.enabled e s)
  | .fault _, _ => .isTrue trivial
  | .memFault, _ => .isTrue trivial
  | .handler, s => inferInstanceAs (Decidable (s.phase = .idle → s.fip = true))

/-- A fault while the handler drains the queue is left for its next run, which is pending. -/
theorem faults_printed_two :
    ∃ s, faultSystem.Reachable s ∧ s.phase = .idle ∧ s.fip = true ∧ s.written.length = 2 ∧
      ∃ n, n ≤ s.written.length ∧ recordsOut s.out = (s.written.take n).map FqEntry.report := by
  have hreach : faultSystem.Reachable (StepSystem.runBy FqStep.next
      ([.fault ⟨1#64, 2#64, 3#64⟩] ++ List.replicate 6 .handler ++ [.fault ⟨4#64, 5#64, 6#64⟩] ++
        List.replicate 2 .handler) fqStart) :=
    StepSystem.Meets.fromInit fqStart_start (by decide)
  obtain ⟨-, n, hn, hout, -⟩ := faults_printed hreach
  exact ⟨_, hreach, by decide, by decide, by decide, n, hn, hout⟩

/-! ## After an error -/

/-- The queue is off, and nothing has come in since `written`. -/
structure FqOff (written : List FqEntry) (s : FqSystem) : Prop where
  en : s.csr.en = false
  ie : s.csr.ie = false
  written : s.written = written
  fip : s.phase ≠ .entered → s.phase ≠ .fipSeen → s.phase ≠ .errSeen → s.phase ≠ .errDone →
    s.fip = false
  phase : s.phase ≠ .entered ∧ s.phase ≠ .fipSeen ∧ s.phase ≠ .errSeen

theorem FqOff.fault {written : List FqEntry} (h : FqOff written s) : s.fault r = s := by
  rw [FqSystem.fault, if_pos (.inl h.en)]

theorem FqOff.memFault {written : List FqEntry} (h : FqOff written s) : s.memFault = s := by
  rw [FqSystem.memFault, if_pos (.inl h.en)]

theorem FqOff.handle {written : List FqEntry} (h : FqOff written s)
    (hen : s.phase = .idle → s.fip = true) : FqOff written s.handle := by
  unfold FqSystem.handle
  cases hp : s.phase with
  | idle =>
      have hfip := h.fip (by simp [hp]) (by simp [hp]) (by simp [hp]) (by simp [hp])
      rw [hen hp] at hfip
      cases hfip
  | entered => exact (h.phase.1 hp).elim
  | fipSeen => exact (h.phase.2.1 hp).elim
  | errSeen => exact (h.phase.2.2 hp).elim
  | errDone =>
      refine ⟨h.en, h.ie, h.written, fun _ _ _ _ => ?_, by simp⟩
      dsimp only
      rw [h.ie, Bool.false_and]
  | fipCleared | headRead =>
      exact ⟨h.en, h.ie, h.written,
        fun _ _ _ _ => h.fip (by simp [hp]) (by simp [hp]) (by simp [hp]) (by simp [hp]), by simp⟩
  | draining fqh fqt =>
      have hfip := h.fip (by simp [hp]) (by simp [hp]) (by simp [hp]) (by simp [hp])
      dsimp only
      split
      · exact ⟨h.en, h.ie, h.written, fun _ _ _ _ => hfip, by simp⟩
      · exact ⟨h.en, h.ie, h.written, fun _ _ _ _ => hfip, by simp⟩
  | halted => exact h

end RvIommu

end Bao

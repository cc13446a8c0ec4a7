import BaoHypervisor.SmmuV2

/-!
# Stream isolation

Every step from a state in which the allocated entries are the valid ones and no
two of them meet is one of four: there is no context bank, an entry includes the
request already, there is no free entry, or the first free entry is written.
The last is the only one that can go wrong.  The entries it released stay valid
in the hardware, and the group mark of the one it writes stays set.
-/

namespace Bao

open BitMemory TernaryMatch

variable {P : SmmuPlat} {s s1 s' : Smmu} {r : StreamRequest} {added : List StreamRequest}

/-- What holds of the driver and the hardware before and after every call. -/
structure SmmuInv (P : SmmuPlat) (s : Smmu) : Prop where
  oneHit : OneHit (streamTable P s)
  valid : ∀ sme, sme < P.smeNum → (s.smeBitmap sme = true ↔ (s.smr sme).getLsbD 31 = true)
  groups : ∀ sme, sme < P.smeNum → (s.grpBitmap sme = true ↔ s.lastGroup sme = some true)
  fresh : ∀ sme, sme < P.smeNum → (s.smr sme).getLsbD 31 = false → s.lastGroup sme = none
  banks : ∀ vm ctx, s.ctxId vm = some ctx → ctx < P.ctxNum ∧ s.ctxbankBitmap ctx = true ∧
    s.bank ctx = some ⟨P.rootPt vm, vm⟩
  live : ∀ sme, sme < P.smeNum → s.smeBitmap sme = true → s.ctxbankBitmap (s.smeGetCtx sme) = true

/-- What the request is for hits an entry of the VM's bank. -/
def HitsBank (P : SmmuPlat) (s : Smmu) (r : StreamRequest) : Prop :=
  ∀ sid, (r.pattern P).Matches sid →
    ∃ ctx, s.ctxId r.vm = some ctx ∧ ∃ sme, Hits (streamTable P s) sme sid ∧ s.smeGetCtx sme = ctx

namespace SmmuInv

variable {sme e e' vm ctx : Nat}

theorem streamTable_of_alloc (hinv : SmmuInv P s) (hlt : sme < P.smeNum)
    (halloc : s.smeBitmap sme = true) : streamTable P s sme = some (smrPattern (s.smr sme)) :=
  if_pos ⟨hlt, (hinv.valid sme hlt).mp halloc⟩

theorem alloc_of_streamTable (hinv : SmmuInv P s) {q : Pattern 15}
    (h : streamTable P s sme = some q) :
    sme < P.smeNum ∧ s.smeBitmap sme = true ∧ q = smrPattern (s.smr sme) := by
  unfold streamTable at h
  split at h
  · next hin =>
    cases h
    exact ⟨hin.1, (hinv.valid sme hin.1).mpr hin.2, rfl⟩
  · cases h

/-- **The invariant is isolation**, with what has been added. -/
theorem isolated (hinv : SmmuInv P s) (hadded : ∀ r ∈ added, HitsBank P s r) :
    StreamIsolated P s added := by
  refine ⟨hinv.oneHit, ?_, ?_, ?_⟩
  · intro r hr sid hsid
    obtain ⟨ctx, hctx, sme, hhit, hbound⟩ := hadded r hr sid hsid
    obtain ⟨-, -, hbank⟩ := hinv.banks r.vm ctx hctx
    refine ⟨ctx, hctx, hbank, ⟨sme, hhit, hbound⟩, fun other hother => ?_⟩
    rw [hinv.oneHit other sme sid hother hhit]
    exact hbound
  · intro sme hlt
    rw [Smmu.smeIsGroup, bitmapGet_at]
    exact hinv.groups sme hlt
  · intro sme hlt
    rw [bitmapGet_at]
    exact hinv.valid sme hlt

theorem eq_of_meets (hinv : SmmuInv P s) (hlt : e < P.smeNum) (hlt' : e' < P.smeNum)
    (halloc : s.smeBitmap e = true) (halloc' : s.smeBitmap e' = true)
    (hmeet : (smrPattern (s.smr e)).Meets (smrPattern (s.smr e'))) : e = e' :=
  hinv.oneHit.eq_of_meets (hinv.streamTable_of_alloc hlt halloc)
    (hinv.streamTable_of_alloc hlt' halloc') hmeet

/-! ## A new context bank -/

theorem withBank (hinv : SmmuInv P s) (hlt : ctx < P.ctxNum)
    (hfree : s.ctxbankBitmap ctx = false) : SmmuInv P (s.withBank P vm ctx) := by
  have hset : ∀ b, (s.withBank P vm ctx).ctxbankBitmap b =
      (decide (b = ctx) || s.ctxbankBitmap b) := fun b => bitmapSet_apply _ _ _
  refine ⟨hinv.oneHit, hinv.valid, hinv.groups, hinv.fresh, ?_, ?_⟩
  · intro vm' ctx' hctx'
    by_cases hvm : vm' = vm
    · have hself : (s.withBank P vm ctx).ctxId vm' = some ctx := by
        rw [hvm]
        exact Function.update_self ..
      rw [hself] at hctx'
      cases hctx'
      refine ⟨hlt, ?_, ?_⟩
      · rw [hset]
        simp
      · rw [hvm]
        exact Function.update_self ..
    · have hother : (s.withBank P vm ctx).ctxId vm' = s.ctxId vm' := Function.update_of_ne hvm ..
      rw [hother] at hctx'
      obtain ⟨hlt', hbit, hbank⟩ := hinv.banks vm' ctx' hctx'
      have hne : ctx' ≠ ctx := by
        rintro rfl
        rw [hfree] at hbit
        cases hbit
      refine ⟨hlt', ?_, ?_⟩
      · rw [hset, hbit, Bool.or_true]
      · exact (Function.update_of_ne hne ..).trans hbank
  · intro sme hsme halloc
    have hlive : s.ctxbankBitmap (s.smeGetCtx sme) = true := hinv.live sme hsme halloc
    change (s.withBank P vm ctx).ctxbankBitmap (s.smeGetCtx sme) = true
    rw [hset, hlive, Bool.or_true]

end SmmuInv

theorem HitsBank.withBank {vm ctx : Nat} (h : HitsBank P s r) (hnone : s.ctxId vm = none) :
    HitsBank P (s.withBank P vm ctx) r := by
  intro sid hsid
  obtain ⟨c, hc, hrest⟩ := h sid hsid
  have hne : r.vm ≠ vm := by
    intro heq
    rw [heq, hnone] at hc
    cases hc
  exact ⟨c, (Function.update_of_ne hne ..).trans hc, hrest⟩

/-! ## The search -/

/-- The request meets the allocated entry `e`. -/
def MeetsEntry (P : SmmuPlat) (s : Smmu) (r : StreamRequest) (e : Nat) : Prop :=
  e < P.smeNum ∧ s.smeBitmap e = true ∧ (smrPattern (s.smr e)).Meets (r.pattern P)

variable {ctx stop sme : Nat} {m : Store}

/-- **Found.**  When an entry includes the request nothing has been released. -/
theorem Searched.included (hs : Searched s (r.prepMask P) r.prepId ctx r.group 0 P.smeNum true
    stop m) (hinv : SmmuInv P s) :
    m = s.smeBitmap ∧ MeetsEntry P s r stop ∧ s.smeGetCtx stop = ctx ∧
      (r.pattern P).MaskLe (smrPattern (s.smr stop)) ∧ ∀ e, MeetsEntry P s r e → e = stop := by
  obtain ⟨hlt, halloc, hdiff, hmerge, hge⟩ := hs.found rfl
  have hmeet := Smmu.diffId_eq_zero.mp hdiff
  have hnarrow := Smmu.mergeable_narrower hmerge hge
  have honly : ∀ e, MeetsEntry P s r e → e = stop := by
    rintro e ⟨he, halloc', hmeet'⟩
    exact hinv.eq_of_meets he hlt halloc' halloc (hmeet'.wider hmeet.symm hnarrow)
  refine ⟨?_, ⟨hlt, halloc, hmeet⟩, (Smmu.mergeable_ctx hmerge).symm, hnarrow, honly⟩
  funext b
  rw [hs.released b]
  cases hbit : s.smeBitmap b with
  | false => rfl
  | true =>
    have hkept : ¬ ((0 ≤ b ∧ b < stop) ∧ s.diffId (r.prepMask P) r.prepId b = 0#32) := by
      rintro ⟨⟨-, hb⟩, hd⟩
      have := honly b ⟨by omega, hbit, Smmu.diffId_eq_zero.mp hd⟩
      omega
    rw [← Bool.decide_and, decide_eq_false hkept]
    rfl

/-- **Not found.**  Every entry the request meets is narrower, of the same bank,
and has been released. -/
theorem Searched.absorbed (hs : Searched s (r.prepMask P) r.prepId ctx r.group 0 P.smeNum false
    stop m) :
    (∀ e, MeetsEntry P s r e → s.smeGetCtx e = ctx ∧ s.smeGetMask e < r.prepMask P ∧
      (smrPattern (s.smr e)).MaskLe (r.pattern P)) ∧
    ∀ b, b < P.smeNum → (m b = true ↔ s.smeBitmap b = true ∧ ¬ MeetsEntry P s r b) := by
  have hstop := hs.complete rfl
  constructor
  · rintro e ⟨hlt, halloc, hmeet⟩
    obtain ⟨hmerge, hmask⟩ := hs.merged e (Nat.zero_le e) (by omega) halloc
      (Smmu.diffId_eq_zero.mpr hmeet)
    exact ⟨(Smmu.mergeable_ctx hmerge).symm, hmask, Smmu.mergeable_wider hmerge hmask⟩
  · intro b hb
    have hin : 0 ≤ b ∧ b < stop := by omega
    rw [hs.released b]
    simp only [hin, MeetsEntry, hb, Smmu.diffId_eq_zero, and_self, decide_true, Bool.true_and,
      Bool.and_eq_true, Bool.not_eq_true', decide_eq_false_iff_not, true_and]
    constructor
    · rintro ⟨hbit, hno⟩
      exact ⟨hbit, fun hyes => hno hyes.2⟩
    · rintro ⟨hbit, hno⟩
      exact ⟨hbit, fun hyes => hno ⟨hbit, hyes⟩⟩

/-! ## Writing the first free entry -/

/-- The state in which the released entries are free in the bitmap. -/
def Smmu.released (s : Smmu) (m : Store) : Smmu := { s with smeBitmap := m }

/-- What leads to the last branch: the entries the request meets are narrower and
of the VM's bank, they are free in `m`, and `sme` is the first free one. -/
structure Rewrites (P : SmmuPlat) (s : Smmu) (r : StreamRequest) (ctx sme : Nat) (m : Store) :
    Prop where
  ctxId : s.ctxId r.vm = some ctx
  narrower : ∀ e, MeetsEntry P s r e → s.smeGetCtx e = ctx ∧ s.smeGetMask e < r.prepMask P ∧
    (smrPattern (s.smr e)).MaskLe (r.pattern P)
  free : ∀ b, b < P.smeNum → (m b = true ↔ s.smeBitmap b = true ∧ ¬ MeetsEntry P s r b)
  lt : sme < P.smeNum
  first : m sme = false ∧ ∀ j, j < sme → m j = true

namespace Rewrites

variable (hw : Rewrites P s r ctx sme m) {e : Nat}
include hw

theorem absorbs_iff (he : e < P.smeNum) : Absorbs P s r e ↔ MeetsEntry P s r e := by
  unfold Absorbs
  rw [bitmapGet_at, Smmu.diffId_eq_zero]
  constructor
  · rintro ⟨halloc, -, hmeet, -⟩
    exact ⟨he, halloc, hmeet⟩
  · intro hmeet
    obtain ⟨hctx, hmask, -⟩ := hw.narrower e hmeet
    refine ⟨hmeet.2.1, ?_, hmeet.2.2, hmask⟩
    rw [hw.ctxId, hctx]

/-- In place means: the only entry the request meets is the one written, which is
marked as a group only if the request is for a group. -/
theorem inPlace_iff : AbsorbsInPlace P s r ↔ ∀ e, MeetsEntry P s r e → e = sme ∧
    (s.grpBitmap sme = true → r.group = true) := by
  constructor
  · intro hplace e hmeet
    have he := hmeet.1
    obtain ⟨honly, hbefore, hgroup⟩ := hplace e he ((hw.absorbs_iff he).mpr hmeet)
    have hreleased : m e = false := by
      cases hbit : m e with
      | false => rfl
      | true => exact (((hw.free e he).mp hbit).2 hmeet).elim
    have hfirst : ∀ j, j < e → m j = true := by
      intro j hj
      have hjlt : j < P.smeNum := by omega
      refine (hw.free j hjlt).mpr ⟨?_, fun hmj => ?_⟩
      · exact (bitmapGet_at _ _).symm.trans (hbefore j hj)
      · have := honly j hjlt ((hw.absorbs_iff hjlt).mpr hmj)
        omega
    have heq : e = sme := by
      rcases Nat.lt_trichotomy e sme with hlt | heq | hgt
      · rw [hw.first.2 e hlt] at hreleased
        cases hreleased
      · exact heq
      · have hm := hfirst sme hgt
        rw [hw.first.1] at hm
        cases hm
    refine ⟨heq, fun hgrp => hgroup ?_⟩
    rw [Smmu.smeIsGroup, bitmapGet_at, heq]
    exact hgrp
  · intro hall e he habs
    obtain ⟨rfl, hgroup⟩ := hall e ((hw.absorbs_iff he).mp habs)
    refine ⟨fun e' he' habs' => ?_, fun free hlt => ?_, fun hgrp => hgroup ?_⟩
    · exact (hall e' ((hw.absorbs_iff he').mp habs')).1
    · rw [bitmapGet_at]
      exact ((hw.free free (by omega)).mp (hw.first.2 free hlt)).1
    · rwa [Smmu.smeIsGroup, bitmapGet_at] at hgrp

theorem streamTable_eq : streamTable P ((s.released m).withEntry P r ctx sme) =
    Function.update (streamTable P s) sme (some (r.pattern P)) := by
  funext e
  by_cases heq : e = sme
  · subst heq
    rw [Function.update_self]
    unfold streamTable
    have hsmr : ((s.released m).withEntry P r ctx e).smr e = _ := Function.update_self ..
    rw [hsmr, if_pos ⟨hw.lt, written_valid _ _⟩, written_pattern]
  · rw [Function.update_of_ne heq]
    have hsmr : ((s.released m).withEntry P r ctx sme).smr e = s.smr e :=
      Function.update_of_ne heq ..
    unfold streamTable
    rw [hsmr]

theorem meets_here (halloc : s.smeBitmap sme = true) : MeetsEntry P s r sme := by
  refine Classical.byContradiction fun hno => ?_
  have hkept := (hw.free sme hw.lt).mpr ⟨halloc, hno⟩
  rw [hw.first.1] at hkept
  cases hkept

omit hw in
/-- What is written at other entries than `sme` is what was there. -/
theorem other (he : e ≠ sme) : ((s.released m).withEntry P r ctx sme).smr e = s.smr e ∧
    ((s.released m).withEntry P r ctx sme).smeGetCtx e = s.smeGetCtx e ∧
    ((s.released m).withEntry P r ctx sme).lastGroup e = s.lastGroup e ∧
    ((s.released m).withEntry P r ctx sme).grpBitmap e = s.grpBitmap e ∧
    ((s.released m).withEntry P r ctx sme).smeBitmap e = m e := by
  refine ⟨Function.update_of_ne he .., ?_, Function.update_of_ne he .., ?_, ?_⟩
  · exact congrArg s2crCbndx (Function.update_of_ne he ..)
  · change (if r.group = true then bitmapSet s.grpBitmap 0 sme else s.grpBitmap) e = _
    split
    · rw [bitmapSet_apply]
      simp [he]
    · rfl
  · change bitmapSet m 0 sme e = _
    rw [bitmapSet_apply]
    simp [he]

omit hw in
/-- What is written at `sme`. -/
theorem here (hctx : ctx < 256) :
    (((s.released m).withEntry P r ctx sme).smr sme).getLsbD 31 = true ∧
    ((s.released m).withEntry P r ctx sme).smeGetCtx sme = ctx ∧
    ((s.released m).withEntry P r ctx sme).lastGroup sme = some r.group ∧
    ((s.released m).withEntry P r ctx sme).grpBitmap sme = (r.group || s.grpBitmap sme) ∧
    ((s.released m).withEntry P r ctx sme).smeBitmap sme = true := by
  refine ⟨?_, ?_, Function.update_self .., ?_, ?_⟩
  · have hsmr : ((s.released m).withEntry P r ctx sme).smr sme = _ := Function.update_self ..
    rw [hsmr]
    exact written_valid _ _
  · have hs2cr : ((s.released m).withEntry P r ctx sme).s2cr sme = _ := Function.update_self ..
    rw [Smmu.smeGetCtx, hs2cr]
    exact s2crCbndx_written _ hctx
  · change (if r.group = true then bitmapSet s.grpBitmap 0 sme else s.grpBitmap) sme = _
    cases r.group with
    | false => rfl
    | true =>
      rw [if_pos rfl, bitmapSet_apply]
      simp
  · change bitmapSet m 0 sme sme = true
    rw [bitmapSet_apply]
    simp

theorem ctx_lt (hinv : SmmuInv P s) : ctx < 256 ∧ s.ctxbankBitmap ctx = true := by
  obtain ⟨hlt, hbit, -⟩ := hinv.banks r.vm ctx hw.ctxId
  have := P.ctx_num_le
  exact ⟨by omega, hbit⟩

/-- **In place nothing goes wrong.** -/
theorem kept (hinv : SmmuInv P s) (hall : ∀ e, MeetsEntry P s r e → e = sme ∧
    (s.grpBitmap sme = true → r.group = true)) :
    SmmuInv P ((s.released m).withEntry P r ctx sme) := by
  obtain ⟨hctx, hbank⟩ := hw.ctx_lt hinv
  obtain ⟨hvalid, hbound, hlast, hgrp, hbit⟩ := @here P s r ctx sme m hctx
  -- a free entry has never been written
  have hmark : s.grpBitmap sme = true → r.group = true := by
    intro hset
    cases halloc : s.smeBitmap sme with
    | true =>
      exact (hall sme (hw.meets_here halloc)).2 hset
    | false =>
      have hinvalid : (s.smr sme).getLsbD 31 = false := by
        cases hv : (s.smr sme).getLsbD 31 with
        | false => rfl
        | true =>
          rw [(hinv.valid sme hw.lt).mpr hv] at halloc
          cases halloc
      have hnone := hinv.fresh sme hw.lt hinvalid
      rw [(hinv.groups sme hw.lt).mp hset] at hnone
      cases hnone
  refine ⟨?_, ?_, ?_, ?_, hinv.banks, ?_⟩
  · rw [hw.streamTable_eq]
    refine hinv.oneHit.update fun j q hj hq hmeet => ?_
    obtain ⟨hlt, halloc, rfl⟩ := hinv.alloc_of_streamTable hq
    exact hj (hall j ⟨hlt, halloc, hmeet⟩).1
  · intro e he
    by_cases heq : e = sme
    · rw [heq, hvalid, hbit]
    · obtain ⟨hsmr, -, -, -, hm⟩ := other heq
      rw [hsmr, hm, hw.free e he, ← hinv.valid e he]
      constructor
      · intro h
        exact h.1
      · intro h
        exact ⟨h, fun hmeet => heq (hall e hmeet).1⟩
  · intro e he
    by_cases heq : e = sme
    · rw [heq, hgrp, hlast]
      cases hg : r.group with
      | true => simp
      | false =>
        cases hset : s.grpBitmap sme with
        | false => simp
        | true =>
          rw [hmark hset] at hg
          cases hg
    · obtain ⟨-, -, hl, hg, -⟩ := other heq
      rw [hl, hg]
      exact hinv.groups e he
  · intro e he hinvalid
    by_cases heq : e = sme
    · rw [heq, hvalid] at hinvalid
      cases hinvalid
    · obtain ⟨hsmr, -, hl, -, -⟩ := other heq
      rw [hsmr] at hinvalid
      rw [hl]
      exact hinv.fresh e he hinvalid
  · intro e he halloc
    change s.ctxbankBitmap _ = true
    by_cases heq : e = sme
    · rw [heq, hbound]
      exact hbank
    · obtain ⟨-, hc, -, -, hm⟩ := other heq
      rw [hm] at halloc
      rw [hc]
      exact hinv.live e he ((hw.free e he).mp halloc).1

theorem hitsBank {r' : StreamRequest} (hinv : SmmuInv P s) (h : HitsBank P s r') :
    HitsBank P ((s.released m).withEntry P r ctx sme) r' := by
  intro sid hsid
  obtain ⟨c, hc, e, hhit, hbound⟩ := h sid hsid
  refine ⟨c, hc, e, ?_, ?_⟩
  · rw [hw.streamTable_eq]
    apply hhit.update
    intro q hq
    obtain ⟨hlt, halloc, rfl⟩ := hinv.alloc_of_streamTable hq
    have hmeet := hw.meets_here halloc
    exact ⟨hmeet.2.2, (hw.narrower sme hmeet).2.2⟩
  · by_cases heq : e = sme
    · -- the entry replaced was bound to the same bank
      subst heq
      obtain ⟨q, hq, -⟩ := hhit
      obtain ⟨-, halloc, -⟩ := hinv.alloc_of_streamTable hq
      obtain ⟨hsame, -, -⟩ := hw.narrower e (hw.meets_here halloc)
      obtain ⟨-, hnew, -, -, -⟩ := @here P s r ctx e m
        (hw.ctx_lt hinv).1
      rw [hnew, ← hbound, hsame]
    · obtain ⟨-, hctx, -, -, -⟩ := other heq
      rw [hctx]
      exact hbound

theorem hitsBank_new (hinv : SmmuInv P s) :
    HitsBank P ((s.released m).withEntry P r ctx sme) r := by
  intro sid hsid
  refine ⟨ctx, hw.ctxId, sme, ?_, ?_⟩
  · rw [hw.streamTable_eq, hits_update_self]
    exact hsid
  · exact (here (hw.ctx_lt hinv).1).2.1

/-- **Isolation afterwards** means that the call was in place. -/
theorem inPlace_of_isolated (hinv : SmmuInv P s)
    (hiso : StreamIsolated P ((s.released m).withEntry P r ctx sme) added) {e : Nat}
    (hmeet : MeetsEntry P s r e) : e = sme ∧ (s.grpBitmap sme = true → r.group = true) := by
  constructor
  · refine Decidable.byContradiction fun heq => ?_
    have he := hmeet.1
    obtain ⟨hsmr, -, -, -, hm⟩ := other heq
    have hvalid := hiso.valid e he
    rw [bitmapGet_at, hsmr, hm] at hvalid
    have hkept := hvalid.mpr ((hinv.valid e he).mp hmeet.2.1)
    exact ((hw.free e he).mp hkept).2 hmeet
  · intro hset
    obtain ⟨-, -, hlast, hgrp, -⟩ := @here P s r ctx sme m
      (hw.ctx_lt hinv).1
    have hgroups := hiso.groups sme hw.lt
    rw [Smmu.smeIsGroup, bitmapGet_at, hgrp, hlast, hset, Bool.or_true] at hgroups
    exact Option.some.inj (hgroups.mp rfl)

end Rewrites

/-! ## One call -/

/-- The VM of the request has the bank `ctx` in `s1`: it had it before, or it has
just been given it. -/
structure HasBank (P : SmmuPlat) (s : Smmu) (r : StreamRequest) (ctx : Nat) (s1 : Smmu) : Prop where
  inv : SmmuInv P s1
  ctxId : s1.ctxId r.vm = some ctx
  hits : ∀ r', HitsBank P s r' → HitsBank P s1 r'
  entries : s1.smr = s.smr ∧ s1.s2cr = s.s2cr ∧ s1.smeBitmap = s.smeBitmap ∧
    s1.grpBitmap = s.grpBitmap
  before : ∀ e, e < P.smeNum → s.smeBitmap e = true →
    (s.ctxId r.vm = some (s.smeGetCtx e) ↔ s.smeGetCtx e = ctx)

/-- `iommu_vm_arch_init_ctx` from a state of the invariant. -/
theorem SmmuInv.initCtx (hinv : SmmuInv P s) {o : Option Nat}
    (h : iommuVmArchInitCtx P s r.vm = some (o, s1)) :
    (o = none ∧ s.ctxId r.vm = none ∧ s1 = s) ∨ ∃ ctx, o = some ctx ∧ HasBank P s r ctx s1 := by
  rcases iommuVmArchInitCtx_cases h with
    ⟨ctx, ho, hctx, rfl⟩ | hnone | ⟨ctx, ho, hnone, hlt, hfree, rfl⟩
  · refine .inr ⟨ctx, ho, hinv, hctx, fun _ hr => hr, ⟨rfl, rfl, rfl, rfl⟩, fun e _ _ => ?_⟩
    rw [hctx]
    constructor
    · intro heq
      exact (Option.some.inj heq).symm
    · intro heq
      rw [heq]
  · exact .inl hnone
  · refine .inr ⟨ctx, ho, hinv.withBank hlt hfree, Function.update_self .., fun _ hr =>
      hr.withBank hnone, ⟨rfl, rfl, rfl, rfl⟩, fun e he halloc => ?_⟩
    -- no entry is bound to a bank that was free
    have hlive := hinv.live e he halloc
    rw [hnone]
    constructor
    · exact nofun
    · intro heq
      rw [heq, hfree] at hlive
      cases hlive

namespace HasBank

variable (hb : HasBank P s r ctx s1) {e : Nat}
include hb

theorem absorbs_iff (he : e < P.smeNum) : Absorbs P s r e ↔ Absorbs P s1 r e := by
  obtain ⟨hsmr, hs2cr, hbits, hgrp⟩ := hb.entries
  have hctx : s1.smeGetCtx e = s.smeGetCtx e := by rw [Smmu.smeGetCtx, hs2cr, Smmu.smeGetCtx]
  have hdiff : s1.diffId (r.prepMask P) r.prepId e = s.diffId (r.prepMask P) r.prepId e := by
    simp only [Smmu.diffId, Smmu.smeGetId, Smmu.smeGetMask, hsmr]
  have hmask : s1.smeGetMask e = s.smeGetMask e := by rw [Smmu.smeGetMask, hsmr, Smmu.smeGetMask]
  unfold Absorbs
  rw [bitmapGet_at, bitmapGet_at, hbits, hctx, hdiff, hmask, hb.ctxId]
  constructor
  · rintro ⟨halloc, hown, hrest⟩
    exact ⟨halloc, congrArg some ((hb.before e he halloc).mp hown).symm, hrest⟩
  · rintro ⟨halloc, hown, hrest⟩
    exact ⟨halloc, (hb.before e he halloc).mpr (Option.some.inj hown).symm, hrest⟩

theorem inPlace_iff : AbsorbsInPlace P s r ↔ AbsorbsInPlace P s1 r := by
  obtain ⟨-, -, hbits, hgrp⟩ := hb.entries
  unfold AbsorbsInPlace Smmu.smeIsGroup
  rw [hbits, hgrp]
  constructor
  · intro hplace e he habs
    obtain ⟨honly, hrest⟩ := hplace e he ((hb.absorbs_iff he).mpr habs)
    exact ⟨fun e' he' habs' => honly e' he' ((hb.absorbs_iff he').mpr habs'), hrest⟩
  · intro hplace e he habs
    obtain ⟨honly, hrest⟩ := hplace e he ((hb.absorbs_iff he).mp habs)
    exact ⟨fun e' he' habs' => honly e' he' ((hb.absorbs_iff he').mp habs'), hrest⟩

end HasBank

/-- **A call that returns** leaves the entries as they are, and removes none, or
it writes the first free one. -/
theorem SmmuInv.call_cases (hinv : SmmuInv P s) {ok : Bool}
    (h : iommuVmArchAdd P s r = some (ok, s')) :
    (SmmuInv P s' ∧ (∀ r', HitsBank P s r' → HitsBank P s' r') ∧ (ok = true → HitsBank P s' r) ∧
      ∀ e, e < P.smeNum → ¬ Absorbs P s r e) ∨
    (ok = true ∧ ∃ s1 ctx sme m, HasBank P s r ctx s1 ∧ Rewrites P s1 r ctx sme m ∧
      s' = (s1.released m).withEntry P r ctx sme) := by
  unfold iommuVmArchAdd at h
  cases hinit : iommuVmArchInitCtx P s r.vm with
  | none =>
    rw [hinit] at h
    cases h
  | some p =>
    obtain ⟨o, s1⟩ := p
    rw [hinit] at h
    rcases hinv.initCtx hinit with ⟨rfl, hnone, rfl⟩ | ⟨ctx, rfl, hb⟩
    · cases h
      refine .inl ⟨hinv, fun _ hr => hr, nofun, fun e _ habs => ?_⟩
      have hown := habs.2.1
      rw [hnone] at hown
      cases hown
    · simp only at h
      have hmeets : ∀ e, e < P.smeNum → Absorbs P s r e →
          MeetsEntry P s1 r e ∧ s1.smeGetMask e < r.prepMask P := by
        intro e he habs
        obtain ⟨halloc, -, hdiff, hmask⟩ := (hb.absorbs_iff he).mp habs
        rw [bitmapGet_at] at halloc
        exact ⟨⟨he, halloc, Smmu.diffId_eq_zero.mp hdiff⟩, hmask⟩
      cases hsearch : smmuCompatibleSmeExists P s1 (r.prepMask P) r.prepId ctx r.group with
      | none =>
        rw [hsearch] at h
        cases h
      | some q =>
        obtain ⟨included, s2⟩ := q
        obtain ⟨stop, m, rfl, hs⟩ := compatibleSmeLoop_spec hsearch
        rw [Nat.zero_add] at hs
        rw [hsearch] at h
        cases included with
        | true =>
          cases h
          obtain ⟨hm, hstop, hown, hnarrow, honly⟩ := hs.included hb.inv
          have hsame : { s1 with smeBitmap := m } = s1 := by rw [hm]
          rw [hsame]
          refine .inl ⟨hb.inv, hb.hits, fun _ sid hsid => ?_, fun e he habs => ?_⟩
          · have hentry := hb.inv.streamTable_of_alloc hstop.1 hstop.2.1
            refine ⟨ctx, hb.ctxId, stop, ⟨_, hentry, ?_⟩, hown⟩
            exact hstop.2.2.symm.within hnarrow hsid
          · obtain ⟨hmeet, hlt⟩ := hmeets e he habs
            rw [honly e hmeet] at hlt
            exact (hs.found rfl).2.2.2.2 hlt
        | false =>
          obtain ⟨hnarrower, hfree⟩ := hs.absorbed
          obtain ⟨-, hbank, -⟩ := hb.inv.banks r.vm ctx hb.ctxId
          rcases iommuVmArchAddSme_cases (s := { s1 with smeBitmap := m }) hbank h with
            ⟨rfl, rfl, hfull⟩ | ⟨sme, rfl, hlt, hsme, hfirst, rfl⟩
          · -- every entry is taken, so none has been released
            have hsame : { s1 with smeBitmap := m } = s1 := by
              have hm : m = s1.smeBitmap := by
                funext b
                by_cases hb : b < P.smeNum
                · exact (hfull b hb).trans ((hfree b hb).mp (hfull b hb)).1.symm
                · have hout : ¬ (0 ≤ b ∧ b < stop) := by
                    have := hs.stop_le
                    omega
                  rw [hs.released b, decide_eq_false hout]
                  simp
              rw [hm]
            rw [hsame]
            refine .inl ⟨hb.inv, hb.hits, nofun, fun e he habs => ?_⟩
            exact ((hfree e he).mp (hfull e he)).2 (hmeets e he habs).1
          · exact .inr ⟨rfl, s1, ctx, sme, m, hb,
              ⟨hb.ctxId, hnarrower, hfree, hlt, hsme, hfirst⟩, rfl⟩

/-! ## Runs -/

theorem smmuNext_eq (added : List StreamRequest) {ok : Bool} (h : iommuVmArchAdd P s r = some (ok, s')) :
    smmuNext P r s = s' ∧ noteAdded P s r added = if ok then r :: added else added := by
  unfold smmuNext noteAdded
  rw [h]
  cases ok with
  | false => exact ⟨rfl, rfl⟩
  | true => exact ⟨rfl, rfl⟩

/-- **One call.**  In place it keeps the invariant, and if it keeps the streams
isolated it was in place. -/
theorem SmmuInv.call (hinv : SmmuInv P s) (hadded : ∀ r ∈ added, HitsBank P s r)
    (h : (iommuVmArchAdd P s r).isSome = true) :
    (AbsorbsInPlace P s r → SmmuInv P (smmuNext P r s) ∧
      ∀ r' ∈ noteAdded P s r added, HitsBank P (smmuNext P r s) r') ∧
    (StreamIsolated P (smmuNext P r s) (noteAdded P s r added) → AbsorbsInPlace P s r) := by
  obtain ⟨⟨ok, s'⟩, hcall⟩ := Option.isSome_iff_exists.mp h
  obtain ⟨hnext, hnote⟩ := smmuNext_eq added hcall
  rw [hnext, hnote]
  -- what is on the list afterwards was there before or is the request
  have hlist : ∀ r', r' ∈ (if ok then r :: added else added) →
      r' ∈ added ∨ (ok = true ∧ r' = r) := by
    intro r' hr'
    cases ok with
    | false => exact .inl hr'
    | true =>
      rcases List.mem_cons.mp hr' with heq | hmem
      · exact .inr ⟨rfl, heq⟩
      · exact .inl hmem
  rcases hinv.call_cases hcall with ⟨hinv', hkeep, hnew, hnone⟩ |
    ⟨rfl, s1, ctx, sme, m, hb, hw, rfl⟩
  · refine ⟨fun _ => ⟨hinv', fun r' hr' => ?_⟩, fun _ e he habs => (hnone e he habs).elim⟩
    rcases hlist r' hr' with hold | ⟨hok, rfl⟩
    · exact hkeep r' (hadded r' hold)
    · exact hnew hok
  · rw [hb.inPlace_iff, hw.inPlace_iff]
    refine ⟨fun hall => ⟨hw.kept hb.inv hall, fun r' hr' => ?_⟩, fun hiso e hmeet => ?_⟩
    · rcases hlist r' hr' with hold | ⟨-, rfl⟩
      · exact hw.hitsBank hb.inv (hb.hits r' (hadded r' hold))
      · exact hw.hitsBank_new hb.inv
    · exact hw.inPlace_of_isolated hb.inv hiso hmeet

theorem SmmuInit.inv (hinit : SmmuInit P s) : SmmuInv P s := by
  have hinvalid : ∀ sme, sme < P.smeNum → (s.smr sme).getLsbD 31 = false := by
    intro sme hlt
    rw [hinit.smr sme hlt]
    rfl
  refine ⟨?_, ?_, ?_, ?_, ?_, ?_⟩
  · rintro i j x ⟨p, hp, -⟩
    unfold streamTable at hp
    split at hp
    · next hin =>
      rw [hinvalid i hin.1] at hin
      cases hin.2
    · cases hp
  · intro sme hlt
    rw [← bitmapGet_at s.smeBitmap, hinit.smeBitmap sme hlt, hinvalid sme hlt]
  · intro sme hlt
    rw [← bitmapGet_at s.grpBitmap, hinit.grpBitmap sme hlt, hinit.lastGroup sme]
    constructor
    · exact nofun
    · exact nofun
  · intro sme _ _
    exact hinit.lastGroup sme
  · intro vm ctx hctx
    rw [hinit.ctxId vm] at hctx
    cases hctx
  · intro sme hlt halloc
    rw [← bitmapGet_at s.smeBitmap, hinit.smeBitmap sme hlt] at halloc
    cases halloc

theorem smmu_run_inv {p : Smmu × List StreamRequest}
    (h : (smmuSystem P).Reach (fun p r => AbsorbsInPlace P p.1 r) p) :
    SmmuInv P p.1 ∧ ∀ r ∈ p.2, HitsBank P p.1 r := by
  apply h.invariant
  · rintro ⟨s, added⟩ ⟨hinit, hnil⟩
    refine ⟨SmmuInit.inv hinit, fun r hr => ?_⟩
    change added = [] at hnil
    rw [hnil] at hr
    exact absurd hr List.not_mem_nil
  · rintro ⟨s, added⟩ r ⟨s', added'⟩ ⟨hinv, hadded⟩ hok ⟨⟨hen, hs'⟩, hadded'⟩
    change s' = smmuNext P r s at hs'
    change added' = noteAdded P s r added at hadded'
    rw [hs', hadded']
    exact (hinv.call hadded hen).1 hok

/-- **Stream isolation.**  In a run whose calls all are in place the streams are
isolated in every state, and the next call keeps them so exactly when it is in
place too. -/
theorem smmu_streamIsolated {p : Smmu × List StreamRequest}
    (h : (smmuSystem P).Reach (fun p r => AbsorbsInPlace P p.1 r) p) :
    StreamIsolated P p.1 p.2 ∧ ∀ r p', (smmuSystem P).step p r p' →
      (StreamIsolated P p'.1 p'.2 ↔ AbsorbsInPlace P p.1 r) := by
  obtain ⟨hinv, hadded⟩ := smmu_run_inv h
  refine ⟨hinv.isolated hadded, ?_⟩
  rintro r ⟨s', added'⟩ ⟨⟨hen, hs'⟩, hadded'⟩
  change s' = smmuNext P r p.1 at hs'
  change added' = noteAdded P p.1 r p.2 at hadded'
  rw [hs', hadded']
  obtain ⟨hkept, hback⟩ := hinv.call hadded hen
  constructor
  · exact hback
  · intro hplace
    obtain ⟨hinv', hadded''⟩ := hkept hplace
    exact hinv'.isolated hadded''

/-- Four entries and two banks, no global masks. -/
def smmuPlatSmall : SmmuPlat where
  smeNum := 4
  ctxNum := 2
  sme_num_le := by decide
  ctx_num_le := by decide
  globalMask _ := 0#32
  rootPt vm := 0x1000 * (vm + 1)

/-- After `smmu_init`. -/
def smmuStart : Smmu where
  smr _ := 0#32
  s2cr _ := 0#32
  bank _ := none
  smeBitmap _ := false
  grpBitmap _ := false
  ctxbankBitmap _ := false
  ctxId _ := none
  lastGroup _ := none

theorem smmuStart_init : SmmuInit smmuPlatSmall smmuStart :=
  ⟨fun _ _ => rfl, fun _ _ => by rw [bitmapGet_at]; rfl, fun _ _ => by rw [bitmapGet_at]; rfl,
    fun _ _ => by rw [bitmapGet_at]; rfl, fun _ => rfl, fun _ => rfl⟩

/-- A group, a device of another VM, a wider group in the place of the first and a
device that is in it. -/
def smmuGoodRun : List StreamRequest :=
  [⟨0, 1#32, 0x10#32⟩, ⟨1, 0#32, 0x20#32⟩, ⟨0, 3#32, 0x10#32⟩, ⟨0, 0#32, 0x12#32⟩]

/-- The run is in place throughout. -/
theorem smmu_streamIsolated_run :
    StreamIsolated smmuPlatSmall (StepSystem.runBy (smmuNext smmuPlatSmall) smmuGoodRun smmuStart)
      (StepSystem.seenBy (smmuNext smmuPlatSmall) (noteAdded smmuPlatSmall) smmuGoodRun
        smmuStart []) := by
  have hrun : StepSystem.Meets (fun r s => (iommuVmArchAdd smmuPlatSmall s r).isSome = true)
      (smmuNext smmuPlatSmall) (AbsorbsInPlace smmuPlatSmall) smmuGoodRun smmuStart := by
    decide +kernel
  have hreach : (smmuSystem smmuPlatSmall).Reach (fun p r => AbsorbsInPlace smmuPlatSmall p.1 r)
      (StepSystem.runBy (smmuNext smmuPlatSmall) smmuGoodRun smmuStart,
        StepSystem.seenBy (smmuNext smmuPlatSmall) (noteAdded smmuPlatSmall) smmuGoodRun
          smmuStart []) :=
    hrun.watch (fun _ _ _ hok => hok) (.init ⟨smmuStart_init, rfl⟩)
  have hiso := (smmu_streamIsolated hreach).1
  dsimp only at hiso
  exact hiso

/-- Two groups that a third one includes. -/
def smmuTwoAbsorbed : List StreamRequest :=
  [⟨0, 1#32, 0x10#32⟩, ⟨0, 1#32, 0x12#32⟩, ⟨0, 3#32, 0x10#32⟩]

theorem smmu_reachable (rs : List StreamRequest) (h : StepSystem.Meets
    (fun r s => (iommuVmArchAdd smmuPlatSmall s r).isSome = true) (smmuNext smmuPlatSmall)
    (fun _ _ => True) rs smmuStart) : (smmuSystem smmuPlatSmall).Reachable
      (StepSystem.runBy (smmuNext smmuPlatSmall) rs smmuStart,
        StepSystem.seenBy (smmuNext smmuPlatSmall) (noteAdded smmuPlatSmall) rs smmuStart []) :=
  h.watch (fun _ _ _ _ => trivial) (.init ⟨smmuStart_init, rfl⟩)

/-- **Not isolated.**  The second group's entry stays valid when it is absorbed:
stream id 0x12 hits two entries, one of which is not allocated; and when a device
gets that entry afterwards it is marked as a group. -/
theorem smmu_not_streamIsolated :
    ∃ p p', (smmuSystem smmuPlatSmall).Reachable p ∧ (smmuSystem smmuPlatSmall).Reachable p' ∧
      (¬ StreamIsolated smmuPlatSmall p.1 p.2 ∧ ¬ StreamIsolated smmuPlatSmall p'.1 p'.2) ∧
      (Hits (streamTable smmuPlatSmall p.1) 0 0x12#15 ∧
        Hits (streamTable smmuPlatSmall p.1) 1 0x12#15) ∧
      (bitmapGet p.1.smeBitmap 0 1 = false ∧ (p.1.smr 1).getLsbD 31 = true) ∧
      (p'.1.smeIsGroup 1 = true ∧ p'.1.lastGroup 1 = some false) := by
  have hfirst := smmu_reachable smmuTwoAbsorbed (by decide +kernel)
  have hthen := smmu_reachable (smmuTwoAbsorbed ++ [⟨0, 0#32, 0x40#32⟩]) (by decide +kernel)
  refine ⟨_, _, hfirst, hthen, ⟨fun hiso => ?_, fun hiso => ?_⟩, ⟨⟨_, rfl, ?_⟩, ⟨_, rfl, ?_⟩⟩,
    ⟨?_, ?_⟩, ?_, ?_⟩
  · have hvalid := (hiso.valid 1 (by decide)).mpr (by decide +kernel)
    exact absurd hvalid (by decide +kernel)
  · have hgroup := (hiso.groups 1 (by decide)).mp (by decide +kernel)
    exact absurd hgroup (by decide +kernel)
  all_goals decide +kernel

end Bao

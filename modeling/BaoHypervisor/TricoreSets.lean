import BaoHypervisor.StepSystem
import BaoHypervisor.TricoreTables

/-!
# What the protection sets of a TriCore CPU grant

Address spaces map, update and unmap regions.  The protection sets grant what was
asked for, and nothing else, as long as a region gets an entry of its own in the
code table, and an update or a removal meets an entry of its address space.
-/

namespace Bao

/-! ## The system -/

/-- The MPU of a CPU, and the regions of the address spaces. -/
structure TricoreState where
  mpu : TricoreMpu
  asked : Asked

/-- A call for the address space with an id. -/
inductive TricoreCall
  | map (as : Nat) (mpr : MpRegion)
  | update (as : Nat) (mpr : MpRegion)
  | unmap (as : Nat) (mpr : MpRegion)

/-- The address space of a call. -/
def TricoreCall.as : TricoreCall → Nat
  | .map as _ => as
  | .update as _ => as
  | .unmap as _ => as

/-- The region of a call. -/
def TricoreCall.region : TricoreCall → MpRegion
  | .map _ mpr => mpr
  | .update _ mpr => mpr
  | .unmap _ mpr => mpr

/-- What callers keep to: a region does not reach past the address space, it is
apart from the others of its address space, and one that is updated is there. -/
def TricoreCall.Promised (c : TricoreCall) (s : TricoreState) : Prop :=
  c.region.base + c.region.size ≤ 2 ^ 32 ∧
    match c with
    | .map as mpr => ∀ e ∈ s.asked.entries, e.1.1 = as →
        e.1.2 + e.2.1 ≤ mpr.base ∨ mpr.base + mpr.size ≤ e.1.2
    | .update as mpr => 0 < mpr.size ∧ (s.asked.lookup (as, mpr.base)).isSome = true ∧
        ∀ e ∈ s.asked.entries, e.1.1 = as → e.1.2 ≠ mpr.base →
          e.1.2 + e.2.1 ≤ mpr.base ∨ mpr.base + mpr.size ≤ e.1.2
    | .unmap _ _ => True

instance TricoreCall.decidablePromised (c : TricoreCall) (s : TricoreState) :
    Decidable (c.Promised s) := by
  unfold TricoreCall.Promised
  rcases c with _ | _ <;> infer_instance

/-- What a call answers, and the MPU after it. -/
def TricoreCall.run (c : TricoreCall) (m : TricoreMpu) : Bool × TricoreMpu :=
  match c with
  | .map as mpr => m.mpuMap as mpr
  | .update _ mpr => m.mpuUpdate mpr
  | .unmap as mpr => m.mpuUnmap as mpr

/-- What a call asks for: a region more, if it succeeds, another size and other
flags for the region of the address space with the base, or a region less. -/
def TricoreCall.register (c : TricoreCall) (ok : Bool) (asked : Asked) : Asked :=
  match c with
  | .map as mpr => if ok then asked.insert (as, mpr.base) (mpr.size, mpr.memFlags) else asked
  | .update as mpr => asked.insert (as, mpr.base) (mpr.size, mpr.memFlags)
  | .unmap as mpr =>
    match asked.lookup (as, mpr.base) with
    | some (size, _) => if size = mpr.size then asked.erase (as, mpr.base) else asked
    | none => asked

/-- A call, on the MPU and on what was asked for. -/
def TricoreCall.next (c : TricoreCall) (s : TricoreState) : TricoreState where
  mpu := (c.run s.mpu).2
  asked := c.register (c.run s.mpu).1 s.asked

/-- After `mpu_init` of an MPU that comes out of reset: no set is enabled for an
entry. -/
def TricoreState.Initial (s : TricoreState) : Prop :=
  s.asked = ∅ ∧ ∃ m : TricoreMpu, (∀ psid, m.dpre psid = 0 ∧ m.dpwe psid = 0 ∧ m.cpxe psid = 0) ∧
    s.mpu = m.mpuInit

/-- The calls for the address spaces of a CPU. -/
def tricoreSystem : StepSystem TricoreState TricoreCall :=
  .ofNext TricoreState.Initial TricoreCall.Promised TricoreCall.next

/-- **Every entry a call needs is there, and the entries it meets are its own**:
the address space has a protection set; a region that is mapped finds an entry in
each table that it needs; if it shares an entry of the data table then the number of
that entry stands for no entry of the code table but its own, and if it shares one of
the code table then it has the same number in the data table; an update keeps the
flags and changes entries nobody else uses; and the entries that `mpu_unmap` finds
are used by the address space. -/
def TricoreCall.MeetsOwn (s : TricoreState) (c : TricoreCall) : Prop :=
  c.region.base + c.region.size < 2 ^ 32 ∧
    match c with
    | .map as mpr => mpr.size = 0 ∨ as < 8 ∧
        (dataPick mpr.memFlags ≠ (false, false) →
          (s.mpu.dataFindRegion mpr).isSome = true ∨ s.mpu.dataEntryAllocate.1.isSome = true) ∧
        (codePick mpr.memFlags = true →
          if (s.mpu.codeFindRegion mpr).isSome then
            dataPick mpr.memFlags ≠ (false, false) ∧
              s.mpu.dataFindRegion mpr = s.mpu.codeFindRegion mpr
          else s.mpu.codeEntryAllocate.1.isSome = true ∧
            (dataPick mpr.memFlags ≠ (false, false) →
              ∀ i ∈ s.mpu.dataFindRegion mpr,
                i < mpuCodeMaxNumEntries → s.mpu.codeEntryAllocate.1 = some i))
    | .update as mpr =>
        (∀ x ∈ s.asked.lookup (as, mpr.base), dataPick x.2 = dataPick mpr.memFlags ∧
          codePick x.2 = codePick mpr.memFlags) ∧
        (∀ i ∈ s.mpu.data.firstBase mpuDataMaxNumEntries mpr,
          ∀ k < 8, s.mpu.dataView.use k i ≠ (false, false) → k = as) ∧
        (∀ i ∈ s.mpu.code.firstBase mpuCodeMaxNumEntries mpr,
          ∀ k < 8, s.mpu.codeView.use k i ≠ false → k = as)
    | .unmap as mpr =>
        (∀ i ∈ s.mpu.dataFindRegion mpr, s.mpu.dataView.use as i ≠ (false, false)) ∧
        (∀ i ∈ s.mpu.codeFindRegion mpr, s.mpu.codeView.use as i ≠ false)

instance TricoreCall.decidableMeetsOwn (s : TricoreState) (c : TricoreCall) :
    Decidable (c.MeetsOwn s) := by
  unfold TricoreCall.MeetsOwn
  rcases c with _ | _ <;> infer_instance

/-- **The two tables serve what the address spaces asked for.** -/
structure TricoreState.Sharing (s : TricoreState) : Prop where
  regular : s.asked.Regular
  data : s.mpu.dataView.Serves mpuDataMaxNumEntries (Finset.range 8) (false, false)
    (s.asked.wanted dataPick (false, false))
  code : s.mpu.codeView.Serves mpuCodeMaxNumEntries (Finset.range 8) false
    (s.asked.wanted codePick false)

/-! ## The calls -/

namespace TricoreState.Sharing

open RangeTable (ask ask_same)

variable {s : TricoreState} {as : Nat} {mpr : MpRegion}

theorem initial (h : s.Initial) : s.Sharing := by
  obtain ⟨hasked, m, hreset, hm⟩ := h
  have hzero : ∀ reg : Nat → BitVec 32, (∀ psid, reg psid = 0) → ∀ p i, getPsBit reg p i = false := by
    intro reg hreg p i
    unfold getPsBit
    rw [hreg p]
    simp
  have hidle : ∀ {P : Type} (pick : Nat → P) (idle : P) (k : Nat) (r : BitVec 32 × BitVec 32),
      s.asked.wanted pick idle k r = idle := by
    intro P pick idle k r
    rw [hasked]
    rfl
  refine ⟨?_, ?_, ?_⟩
  · rw [hasked]
    exact ⟨fun hlook => (by cases hlook), fun hlook => (by cases hlook)⟩
  · rw [hm]
    refine RangeTable.Serves.empty (fun k i => ?_) (fun i hi => ?_) (fun i hi => ?_) (hidle _ _)
    · exact Prod.ext (hzero _ (fun psid => (hreset psid).2.1) k i)
        (hzero _ (fun psid => (hreset psid).1) k i)
    · exact congrArg MpuNode.refCounter (if_pos hi)
    · exact if_pos hi
  · rw [hm]
    refine RangeTable.Serves.empty (fun k i => ?_) (fun i hi => ?_) (fun i hi => ?_) (hidle _ _)
    · change (_ && getPsBit m.cpxe k i) = false
      rw [hzero _ (fun psid => (hreset psid).2.2), Bool.and_false]
    · exact congrArg MpuNode.refCounter (if_pos hi)
    · exact if_pos hi

theorem lookup_none (h : s.Sharing) (hpromised : (TricoreCall.map as mpr).Promised s)
    (hpos : mpr.size ≠ 0) : s.asked.lookup (as, mpr.base) = none := by
  cases hlook : s.asked.lookup (as, mpr.base) with
  | none => rfl
  | some x =>
    obtain ⟨size, flags⟩ := x
    obtain ⟨-, hsize, -⟩ := h.regular.fits hlook
    have hapart := hpromised.2 _ (AList.mem_lookup_iff.mp hlook) rfl
    dsimp only at hapart
    omega

theorem wanted_idle (h : s.Sharing) (hpromised : (TricoreCall.map as mpr).Promised s)
    (hfits : mpr.base + mpr.size < 2 ^ 32) (hpos : mpr.size ≠ 0) {P : Type} (pick : Nat → P)
    (idle : P) : s.asked.wanted pick idle as mpr.bounds = idle := by
  rw [Asked.wanted_bounds hfits h.regular, h.lookup_none hpromised hpos]

end TricoreState.Sharing

/-- The data part of `mpu_map`: the data table serves the region too, and of the code
table only the execute bit of the data entry may be written. -/
structure TricoreState.DataPart (s : TricoreState) (as : Nat) (mpr : MpRegion)
    (dataMpid : Option Nat) (m : TricoreMpu) : Prop where
  run : (if mpr.memFlags.testBit 0 || mpr.memFlags.testBit 1 then
    s.mpu.mapData as mpr (s.mpu.dataFindRegion mpr) else (none, s.mpu)) = (dataMpid, m)
  serves : m.dataView.Serves mpuDataMaxNumEntries (Finset.range 8) (false, false)
    (RangeTable.ask (s.asked.wanted dataPick (false, false)) as mpr.bounds (dataPick mpr.memFlags))
  code : m.code = s.mpu.code
  cpxe : m.cpxe = s.mpu.cpxe ∧ (dataPick mpr.memFlags = (false, false) ∨
      s.mpu.dataFindRegion mpr = none ∨ codePick mpr.memFlags = false) ∨
    ∃ i, s.mpu.dataFindRegion mpr = some i ∧ i < mpuDataMaxNumEntries ∧
      codePick mpr.memFlags = true ∧ dataPick mpr.memFlags ≠ (false, false) ∧
      m.cpxe = setPsBit s.mpu.cpxe as i true

namespace TricoreState.DataPart

open RangeTable (ask ask_same)

variable {s : TricoreState} {as : Nat} {mpr : MpRegion} {dataMpid : Option Nat} {m : TricoreMpu}

theorem exists_of (h : s.Sharing) (has : as < 8)
    (hidle : s.asked.wanted dataPick (false, false) as mpr.bounds = (false, false))
    (hdata : dataPick mpr.memFlags ≠ (false, false) →
      (s.mpu.dataFindRegion mpr).isSome = true ∨ s.mpu.dataEntryAllocate.1.isSome = true) :
    ∃ dataMpid m, s.DataPart as mpr dataMpid m := by
  cases hneeds : mpr.memFlags.testBit 0 || mpr.memFlags.testBit 1 with
  | false =>
    obtain ⟨hwrite, hread⟩ := Bool.or_eq_false_iff.mp hneeds
    have hpick : dataPick mpr.memFlags = (false, false) := Prod.ext hwrite hread
    refine ⟨none, s.mpu, by rw [hneeds]; rfl, ?_, rfl, Or.inl ⟨rfl, Or.inl hpick⟩⟩
    rw [hpick, ask_same hidle]
    exact h.data
  | true =>
    have hpick : dataPick mpr.memFlags ≠ (false, false) := by
      intro heq
      obtain ⟨hwrite, hread⟩ := Prod.mk.inj heq
      rw [hwrite, hread] at hneeds
      cases hneeds
    obtain ⟨i, m, hmap, hi, hview, hbounds, hcode, hcpxe⟩ :=
      TricoreMpu.mapData_spec h.data has hidle (hdata hpick)
    refine ⟨some i, m, by rw [hneeds]; exact hmap, ?_, hcode, ?_⟩
    · rw [hview]
      exact h.data.enable hi (Finset.mem_range.mpr has) hpick hidle hbounds
    · rcases hcpxe with ⟨hsame, hwhy⟩ | ⟨hfind, hexec, hset⟩
      · exact Or.inl ⟨hsame, Or.inr hwhy⟩
      · exact Or.inr ⟨i, hfind, hi, hexec, hpick, hset⟩

theorem code_skipped (hd : s.DataPart as mpr dataMpid m) (hexec : codePick mpr.memFlags = false) :
    m.codeView = s.mpu.codeView := by
  rcases hd.cpxe with ⟨hsame, -⟩ | ⟨-, -, -, hflag, -⟩
  · exact TricoreMpu.codeView_congr hd.code hsame
  · rw [hexec] at hflag
    cases hflag

theorem code_shared (hd : s.DataPart as mpr dataMpid m) (hexec : codePick mpr.memFlags = true)
    {c : Nat} (hneeds : dataPick mpr.memFlags ≠ (false, false))
    (hfind : s.mpu.dataFindRegion mpr = some c) : m.cpxe = setPsBit s.mpu.cpxe as c true := by
  rcases hd.cpxe with ⟨-, hnot | hnot | hnot⟩ | ⟨i, hi, -, -, -, hwrite⟩
  · exact absurd hnot hneeds
  · rw [hfind] at hnot
    cases hnot
  · rw [hexec] at hnot
    cases hnot
  · rw [hfind] at hi
    rw [Option.some.inj hi]
    exact hwrite

theorem serves_code (hd : s.DataPart as mpr dataMpid m) (h : s.Sharing) (has : as < 8)
    (hidle : s.asked.wanted codePick false as mpr.bounds = false)
    (hcode : if (s.mpu.codeFindRegion mpr).isSome then
        dataPick mpr.memFlags ≠ (false, false) ∧
          s.mpu.dataFindRegion mpr = s.mpu.codeFindRegion mpr
      else s.mpu.codeEntryAllocate.1.isSome = true ∧
        (dataPick mpr.memFlags ≠ (false, false) →
          ∀ i ∈ s.mpu.dataFindRegion mpr,
            i < mpuCodeMaxNumEntries → s.mpu.codeEntryAllocate.1 = some i))
    (hexec : codePick mpr.memFlags = true) :
    (m.mapCode as mpr (s.mpu.codeFindRegion mpr) dataMpid).dataView = m.dataView ∧
      (m.mapCode as mpr (s.mpu.codeFindRegion mpr) dataMpid).codeView.Serves mpuCodeMaxNumEntries
        (Finset.range 8) false (ask (s.asked.wanted codePick false) as mpr.bounds true) := by
  cases hfindCode : s.mpu.codeFindRegion mpr with
  | some c =>
    rw [hfindCode, if_pos Option.isSome_some] at hcode
    obtain ⟨hneeds, hfind⟩ := hcode
    obtain ⟨hc, hset, hbounds⟩ := MpuTable.findRegion_some hfindCode
    obtain ⟨hview, hdataView⟩ := TricoreMpu.mapCode_found mpr dataMpid has hd.code hfindCode
      (hd.code_shared hexec hneeds hfind)
    refine ⟨hdataView, ?_⟩
    rw [hview]
    exact h.code.enable hc (Finset.mem_range.mpr has) (by decide) hidle fun _ => hbounds
  | none =>
    rw [hfindCode, if_neg (by decide)] at hcode
    obtain ⟨hfree, honly⟩ := hcode
    obtain ⟨c, hc⟩ := Option.isSome_iff_exists.mp hfree
    have hset : m.cpxe = s.mpu.cpxe ∨ ∃ i, i < mpuDataMaxNumEntries ∧
        m.cpxe = setPsBit s.mpu.cpxe as i true ∧ (i < mpuCodeMaxNumEntries → i = c) := by
      rcases hd.cpxe with ⟨hsame, -⟩ | ⟨i, hfind, hi, -, hneeds, hset⟩
      · exact Or.inl hsame
      · refine Or.inr ⟨i, hi, hset, fun hin => ?_⟩
        have hsame := honly hneeds i hfind hin
        rw [hc] at hsame
        exact (Option.some.inj hsame).symm
    obtain ⟨hlt, hfreeBit, hview, hdataView⟩ :=
      TricoreMpu.mapCode_spec mpr dataMpid has hd.code hc hset
    refine ⟨hdataView, ?_⟩
    rw [hview]
    refine h.code.enable hlt (Finset.mem_range.mpr has) (by decide) hidle fun hset => ?_
    rw [show s.mpu.codeView.alloc c = false from hfreeBit] at hset
    cases hset

end TricoreState.DataPart

namespace TricoreState.Sharing

open RangeTable (ask ask_same)

variable {s : TricoreState} {as : Nat} {mpr : MpRegion}

/-- **`mpu_map`.** -/
theorem map (h : s.Sharing) (hpromised : (TricoreCall.map as mpr).Promised s)
    (hown : (TricoreCall.map as mpr).MeetsOwn s) :
    ((TricoreCall.map as mpr).next s).Sharing := by
  have hfits : mpr.base + mpr.size < 2 ^ 32 := hown.1
  by_cases hpos : mpr.size = 0
  · have hnext : (TricoreCall.map as mpr).next s = s := by
      have hrun : (TricoreCall.map as mpr).run s.mpu = (false, s.mpu) := if_pos hpos
      unfold TricoreCall.next
      rw [hrun]
      rfl
    rw [hnext]
    exact h
  obtain ⟨has, hdata, hcode⟩ := hown.2.resolve_left hpos
  have hnone := h.lookup_none hpromised hpos
  have hidle := h.wanted_idle hpromised hfits hpos codePick false
  obtain ⟨dataMpid, m, hd⟩ := DataPart.exists_of h has
    (h.wanted_idle hpromised hfits hpos dataPick (false, false)) hdata
  have hrun : (TricoreCall.map as mpr).run s.mpu = (true,
      if mpr.memFlags.testBit 2 then m.mapCode as mpr (s.mpu.codeFindRegion mpr) dataMpid
      else m) := by
    change s.mpu.mpuMap as mpr = _
    unfold TricoreMpu.mpuMap
    dsimp only
    rw [if_neg hpos, hd.run]
  have hasked : ((TricoreCall.map as mpr).next s).asked =
      s.asked.insert (as, mpr.base) (mpr.size, mpr.memFlags) := by
    unfold TricoreCall.next
    rw [hrun]
    rfl
  have hmpu : ((TricoreCall.map as mpr).next s).mpu =
      if mpr.memFlags.testBit 2 then m.mapCode as mpr (s.mpu.codeFindRegion mpr) dataMpid
      else m := by
    unfold TricoreCall.next
    rw [hrun]
  have hregular : Asked.Regular (s.asked.insert (as, mpr.base) (mpr.size, mpr.memFlags)) :=
    h.regular.insert has (Nat.pos_of_ne_zero hpos) hfits fun hlook _ =>
      hpromised.2 _ (AList.mem_lookup_iff.mp hlook) rfl
  have hentries : ((TricoreCall.map as mpr).next s).mpu.dataView = m.dataView ∧
      ((TricoreCall.map as mpr).next s).mpu.codeView.Serves mpuCodeMaxNumEntries (Finset.range 8)
        false (ask (s.asked.wanted codePick false) as mpr.bounds (codePick mpr.memFlags)) := by
    rw [hmpu]
    cases hexec : mpr.memFlags.testBit 2 with
    | false =>
      have hpick : codePick mpr.memFlags = false := hexec
      rw [if_neg Bool.false_ne_true, hpick, ask_same hidle, hd.code_skipped hpick]
      exact ⟨rfl, h.code⟩
    | true =>
      have hpick : codePick mpr.memFlags = true := hexec
      rw [if_pos rfl, hpick]
      exact hd.serves_code h has hidle (hcode hpick) hpick
  constructor
  · rw [hasked]
    exact hregular
  · rw [hasked, hentries.1, Asked.wanted_insert hfits hnone]
    exact hd.serves
  · rw [hasked, Asked.wanted_insert hfits hnone]
    exact hentries.2

/-- **`mpu_update`.** -/
theorem update (h : s.Sharing) (hpromised : (TricoreCall.update as mpr).Promised s)
    (hown : (TricoreCall.update as mpr).MeetsOwn s) :
    ((TricoreCall.update as mpr).next s).Sharing := by
  have hfits : mpr.base + mpr.size < 2 ^ 32 := hown.1
  obtain ⟨hflags, hdata, hcode⟩ := hown.2
  obtain ⟨hpos, hsome, hapart⟩ := hpromised.2
  obtain ⟨⟨old, flags⟩, hlook⟩ := Option.isSome_iff_exists.mp hsome
  obtain ⟨hdataFlags, hcodeFlags⟩ := hflags (old, flags) hlook
  have has := (h.regular.fits hlook).1
  have hasked : ((TricoreCall.update as mpr).next s).asked =
      s.asked.insert (as, mpr.base) (mpr.size, mpr.memFlags) := rfl
  constructor
  · rw [hasked]
    exact h.regular.insert has hpos hfits fun hother hne =>
      hapart _ (AList.mem_lookup_iff.mp hother) rfl hne
  · have hserves := serves_updateUpper (t := s.mpu.data) h.data h.regular rfl rfl hfits hlook
      hdataFlags hdata
    have hview : ((TricoreCall.update as mpr).next s).mpu.dataView =
        { s.mpu.dataView with
          range := (s.mpu.data.updateUpper mpuDataMaxNumEntries mpr).bounds } := by
      change TricoreMpu.dataView { s.mpu with
        data := s.mpu.data.updateUpper mpuDataMaxNumEntries mpr
        code := s.mpu.code.updateUpper mpuCodeMaxNumEntries mpr } = _
      rw [MpuTable.updateUpper_eq s.mpu.data]
      rfl
    rw [hasked, hview]
    exact hserves
  · have hserves := serves_updateUpper (t := s.mpu.code) h.code h.regular rfl rfl hfits hlook
      hcodeFlags hcode
    have hview : ((TricoreCall.update as mpr).next s).mpu.codeView =
        { s.mpu.codeView with
          range := (s.mpu.code.updateUpper mpuCodeMaxNumEntries mpr).bounds } := by
      change TricoreMpu.codeView { s.mpu with
        data := s.mpu.data.updateUpper mpuDataMaxNumEntries mpr
        code := s.mpu.code.updateUpper mpuCodeMaxNumEntries mpr } = _
      rw [MpuTable.updateUpper_eq s.mpu.code]
      rfl
    rw [hasked, hview]
    exact hserves

theorem wanted_unmap (h : s.Sharing) (hfits : mpr.base + mpr.size < 2 ^ 32) (ok : Bool) {P : Type}
    (pick : Nat → P) (idle : P) :
    Asked.wanted pick idle ((TricoreCall.unmap as mpr).register ok s.asked) =
      ask (s.asked.wanted pick idle) as mpr.bounds idle := by
  unfold TricoreCall.register
  dsimp only
  have hwanted : s.asked.wanted pick idle as mpr.bounds =
      match s.asked.lookup (as, mpr.base) with
      | some (size, flags) => if mpr.size = size then pick flags else idle
      | none => idle := Asked.wanted_bounds hfits h.regular
  split
  · rename_i size flags hlook
    by_cases hsize : size = mpr.size
    · rw [if_pos hsize]
      rw [hsize] at hlook
      exact Asked.wanted_erase hfits hlook
    · rw [hlook] at hwanted
      rw [if_neg hsize, ask_same (hwanted.trans (if_neg fun heq => hsize heq.symm))]
  · rename_i hlook
    rw [hlook] at hwanted
    rw [ask_same hwanted]

/-- **`mpu_unmap`.** -/
theorem unmap (h : s.Sharing) (hown : (TricoreCall.unmap as mpr).MeetsOwn s) :
    ((TricoreCall.unmap as mpr).next s).Sharing := by
  have hfits : mpr.base + mpr.size < 2 ^ 32 := hown.1
  obtain ⟨hdata, hcode⟩ := hown.2
  have hasked : ((TricoreCall.unmap as mpr).next s).asked =
      (TricoreCall.unmap as mpr).register ((TricoreCall.unmap as mpr).run s.mpu).1 s.asked := rfl
  have hmpu : ((TricoreCall.unmap as mpr).next s).mpu =
      (s.mpu.unmapData as (s.mpu.dataFindRegion mpr)).unmapCode as
        (s.mpu.codeFindRegion mpr) := rfl
  constructor
  · rw [hasked]
    unfold TricoreCall.register
    dsimp only
    split
    · split
      · exact h.regular.erase
      · exact h.regular
    · exact h.regular
  · rw [hasked, hmpu, h.wanted_unmap hfits, TricoreMpu.unmapCode_dataView]
    cases hfind : s.mpu.dataFindRegion mpr with
    | none =>
      rw [ask_same (wanted_of_findRegion_none h.data rfl rfl hfind)]
      exact h.data
    | some i =>
      obtain ⟨hi, -, hbounds⟩ := MpuTable.findRegion_some hfind
      have huse := hdata i hfind
      rw [TricoreMpu.unmapData_dataView (Finset.mem_range.mp (h.data.member hi huse)) hi,
        ← show s.mpu.dataView.range i = mpr.bounds from hbounds]
      exact h.data.disable hi huse
  · rw [hasked, hmpu, h.wanted_unmap hfits]
    have hsame : (s.mpu.unmapData as (s.mpu.dataFindRegion mpr)).code = s.mpu.code ∧
        (s.mpu.unmapData as (s.mpu.dataFindRegion mpr)).cpxe = s.mpu.cpxe :=
      TricoreMpu.unmapData_code
    cases hfind : s.mpu.codeFindRegion mpr with
    | none =>
      rw [ask_same (wanted_of_findRegion_none h.code rfl rfl hfind)]
      rw [show (s.mpu.unmapData as (s.mpu.dataFindRegion mpr)).unmapCode as none =
        s.mpu.unmapData as (s.mpu.dataFindRegion mpr) from rfl,
        TricoreMpu.codeView_congr hsame.1 hsame.2]
      exact h.code
    | some i =>
      obtain ⟨hi, -, hbounds⟩ := MpuTable.findRegion_some hfind
      have huse := hcode i hfind
      rw [TricoreMpu.unmapCode_codeView (Finset.mem_range.mp (h.code.member hi huse)) hi,
        TricoreMpu.codeView_congr hsame.1 hsame.2,
        ← show s.mpu.codeView.range i = mpr.bounds from hbounds]
      exact h.code.disable hi huse

end TricoreState.Sharing

/-! ## What the protection sets grant -/

/-- **The access an address space asked for**: one of its regions covers the
address, with the flag. -/
def Asked.Grants (asked : Asked) (k : Nat) (acc : Access) (a : Nat) : Prop :=
  ∃ base size flags, asked.lookup (k, base) = some (size, flags) ∧
    flags.testBit acc.bit = true ∧ base ≤ a ∧ a < base + size

section Grants

variable {P : Type} [DecidableEq P] {v : RangeTable Nat (BitVec 32 × BitVec 32) P} {k max a : Nat}
  {idle : P} {pick : Nat → P} {asked : Asked}

theorem covers_iff (h : v.Serves max (Finset.range 8) idle (asked.wanted pick idle))
    (hregular : asked.Regular) (has : P → Bool) (hidle : has idle = false) :
    (∃ i, i < max ∧ has (v.use k i) = true ∧ Between (v.range i) a) ↔
      ∃ base size flags, asked.lookup (k, base) = some (size, flags) ∧
        has (pick flags) = true ∧ base ≤ a ∧ a < base + size := by
  have hne : ∀ {p : P}, has p = true → p ≠ idle := by
    intro p hp heq
    rw [heq, hidle] at hp
    cases hp
  constructor
  · rintro ⟨i, hi, huse, hlower, hupper⟩
    have hgrant := h.granted hi (hne huse)
    rw [hgrant] at huse
    obtain ⟨size, flags, hlook, hend, hpick⟩ := Asked.lookup_of_wanted (hne huse)
    have hfits := (hregular.fits hlook).2.2
    rw [hpick] at huse
    rw [hend, Asked.toNat_end hfits] at hupper
    exact ⟨_, size, flags, hlook, huse, hlower, hupper⟩
  · rintro ⟨base, size, flags, hlook, hflag, hlower, hupper⟩
    have hfits := (hregular.fits hlook).2.2
    have hwanted : asked.wanted pick idle k
        (BitVec.ofNat 32 base, BitVec.ofNat 32 (base + size)) = pick flags := by
      unfold Asked.wanted
      dsimp only
      rw [Asked.toNat_base hfits, hlook]
      exact if_pos rfl
    have hsome : asked.wanted pick idle k
        (BitVec.ofNat 32 base, BitVec.ofNat 32 (base + size)) ≠ idle := by
      rw [hwanted]
      exact hne hflag
    obtain ⟨i, hi, hrange, huse⟩ := h.held hsome
    refine ⟨i, hi, ?_, ?_⟩
    · rw [h.granted hi huse, hrange, hwanted]
      exact hflag
    · rw [hrange]
      unfold Between
      dsimp only
      rw [Asked.toNat_base hfits, Asked.toNat_end hfits]
      exact ⟨hlower, hupper⟩

end Grants

/-- **The protection sets grant what was asked for** and nothing else. -/
theorem TricoreState.Sharing.allows_iff {s : TricoreState} (h : s.Sharing) (k : Nat) (acc : Access)
    (a : Nat) : s.mpu.Allows k acc a ↔ s.asked.Grants k acc a := by
  cases acc with
  | write => exact covers_iff h.data h.regular Prod.fst rfl
  | read => exact covers_iff h.data h.regular Prod.snd rfl
  | exec =>
    refine Iff.trans ?_ (covers_iff h.code h.regular id rfl)
    refine exists_congr fun i => and_congr_right fun hi => and_congr_left fun _ => ?_
    change _ ↔ (decide (i < mpuCodeMaxNumEntries) && getPsBit s.mpu.cpxe k i) = true
    rw [decide_eq_true hi, Bool.true_and]

/-- **What a call does**: the sets grant what was asked for; a region that
`mpu_map` says it mapped has the permissions of its flags, and no other address has
more than before; a call that fails leaves the MPU as it was; and the access of the
other address spaces stays. -/
structure TricoreCall.Exact (c : TricoreCall) (s : TricoreState) : Prop where
  granted : ∀ k acc a, (c.next s).mpu.Allows k acc a ↔ (c.next s).asked.Grants k acc a
  mapped : ∀ {as mpr}, c = .map as mpr → (c.run s.mpu).1 = true → ∀ acc a,
    (c.next s).mpu.Allows as acc a ↔
      if mpr.base ≤ a ∧ a < mpr.base + mpr.size then mpr.memFlags.testBit acc.bit = true
      else s.mpu.Allows as acc a
  failed : (c.run s.mpu).1 = false → (c.next s).mpu = s.mpu
  others : ∀ k acc a, k ≠ c.as → ((c.next s).mpu.Allows k acc a ↔ s.mpu.Allows k acc a)

section Calls

variable {s : TricoreState} {c : TricoreCall} {as k a : Nat} {mpr : MpRegion} {acc : Access}

theorem TricoreCall.run_failed (h : (c.run s.mpu).1 = false) : (c.run s.mpu).2 = s.mpu := by
  cases c with
  | map as mpr =>
    change (s.mpu.mpuMap as mpr).1 = false at h
    change (s.mpu.mpuMap as mpr).2 = s.mpu
    unfold TricoreMpu.mpuMap at h ⊢
    dsimp only at h ⊢
    by_cases hpos : mpr.size = 0
    · rw [if_pos hpos]
    · rw [if_neg hpos] at h
      cases h
  | update as mpr => cases h
  | unmap as mpr =>
    obtain ⟨hdata, hcode⟩ := Bool.or_eq_false_iff.mp h
    change (s.mpu.unmapData as (s.mpu.dataFindRegion mpr)).unmapCode as
      (s.mpu.codeFindRegion mpr) = s.mpu
    rw [Option.isSome_eq_false_iff, Option.isNone_iff_eq_none] at hdata hcode
    rw [hdata, hcode]
    rfl

theorem TricoreCall.register_other {ok : Bool} {base : Nat} (hk : k ≠ c.as) :
    (c.register ok s.asked).lookup (k, base) = s.asked.lookup (k, base) := by
  have hne : ∀ {b}, (k, base) ≠ (c.as, b) := fun heq => hk (Prod.mk.inj heq).1
  cases c with
  | map as mpr =>
    unfold TricoreCall.register
    cases ok with
    | true => exact AList.lookup_insert_ne hne
    | false => rfl
  | update as mpr => exact AList.lookup_insert_ne hne
  | unmap as mpr =>
    unfold TricoreCall.register
    dsimp only
    split
    · split
      · exact AList.lookup_erase_ne hne
      · rfl
    · rfl

theorem TricoreState.Sharing.grants_map (h : s.Sharing)
    (hpromised : (TricoreCall.map as mpr).Promised s) (hpos : mpr.size ≠ 0) :
    Asked.Grants (s.asked.insert (as, mpr.base) (mpr.size, mpr.memFlags)) as acc a ↔
      if mpr.base ≤ a ∧ a < mpr.base + mpr.size then mpr.memFlags.testBit acc.bit = true
      else s.asked.Grants as acc a := by
  have hnone := h.lookup_none hpromised hpos
  -- the other regions are those from before, and have no address in this one
  have hother : ∀ {base size flags}, s.asked.lookup (as, base) = some (size, flags) →
      base ≠ mpr.base ∧ (base + size ≤ mpr.base ∨ mpr.base + mpr.size ≤ base) := by
    intro base size flags hlook
    refine ⟨fun heq => ?_, hpromised.2 _ (AList.mem_lookup_iff.mp hlook) rfl⟩
    rw [heq, hnone] at hlook
    cases hlook
  have hinsert : ∀ {base}, base ≠ mpr.base →
      (s.asked.insert (as, mpr.base) (mpr.size, mpr.memFlags)).lookup (as, base) =
        s.asked.lookup (as, base) :=
    fun hne => AList.lookup_insert_ne fun heq => hne (Prod.mk.inj heq).2
  by_cases hin : mpr.base ≤ a ∧ a < mpr.base + mpr.size
  · rw [if_pos hin]
    constructor
    · rintro ⟨base, size, flags, hlook, hflag, hlower, hupper⟩
      by_cases hbase : base = mpr.base
      · rw [hbase, AList.lookup_insert] at hlook
        rw [(Prod.mk.inj (Option.some.inj hlook)).2]
        exact hflag
      · rw [hinsert hbase] at hlook
        have hapart := (hother hlook).2
        omega
    · intro hflag
      exact ⟨mpr.base, mpr.size, mpr.memFlags, AList.lookup_insert _, hflag, hin.1, hin.2⟩
  · rw [if_neg hin]
    constructor
    · rintro ⟨base, size, flags, hlook, hflag, hlower, hupper⟩
      by_cases hbase : base = mpr.base
      · rw [hbase, AList.lookup_insert] at hlook
        obtain ⟨hsize, -⟩ := Prod.mk.inj (Option.some.inj hlook)
        omega
      · rw [hinsert hbase] at hlook
        exact ⟨base, size, flags, hlook, hflag, hlower, hupper⟩
    · rintro ⟨base, size, flags, hlook, hrest⟩
      exact ⟨base, size, flags, (hinsert (hother hlook).1).trans hlook, hrest⟩

end Calls

theorem TricoreState.Sharing.next {s : TricoreState} {c : TricoreCall} (h : s.Sharing)
    (hpromised : c.Promised s) (hown : c.MeetsOwn s) : (c.next s).Sharing := by
  cases c with
  | map as mpr => exact h.map hpromised hown
  | update as mpr => exact h.update hpromised hown
  | unmap as mpr => exact h.unmap hown

/-- **The protection sets grant exactly what was asked for**, after every call of a
run whose calls all find the entries they need and meet entries of their own. -/
theorem tricore_sets_exact {s : TricoreState} {c : TricoreCall}
    (hreach : tricoreSystem.Reach (fun s c => c.MeetsOwn s) s) (hpromised : c.Promised s)
    (hown : c.MeetsOwn s) : c.Exact s := by
  have hstep : ∀ s c s', TricoreState.Sharing s → TricoreCall.MeetsOwn s c →
      tricoreSystem.step s c s' → s'.Sharing := by
    intro s c s' h hown hstep
    rw [hstep.2]
    exact h.next hstep.1 hown
  have h := hreach.invariant (fun _ hinit => TricoreState.Sharing.initial hinit) hstep
  have hnext := h.next hpromised hown
  refine ⟨hnext.allows_iff, ?_, TricoreCall.run_failed, ?_⟩
  · rintro as mpr rfl htrue acc a
    have hpos : mpr.size ≠ 0 := by
      intro hzero
      have hrun : (TricoreCall.map as mpr).run s.mpu = (false, s.mpu) := if_pos hzero
      rw [hrun] at htrue
      cases htrue
    have hasked : ((TricoreCall.map as mpr).next s).asked =
        s.asked.insert (as, mpr.base) (mpr.size, mpr.memFlags) := by
      unfold TricoreCall.next
      rw [htrue]
      rfl
    rw [hnext.allows_iff, hasked, h.grants_map hpromised hpos, h.allows_iff]
  · intro k acc a hk
    rw [hnext.allows_iff, h.allows_iff]
    unfold Asked.Grants TricoreCall.next
    dsimp only
    simp only [TricoreCall.register_other hk]

/-! ## Two address spaces -/

/-- An MPU that comes out of reset, after `mpu_init`. -/
def tricoreBoot : TricoreState where
  mpu :=
    let table : MpuTable := ⟨fun _ => false, fun _ => 0, fun _ => 0, fun _ => ⟨none, 0, 0⟩⟩
    TricoreMpu.mpuInit ⟨table, table, fun _ => 0, fun _ => 0, fun _ => 0⟩
  asked := ∅

theorem tricoreBoot_initial : tricoreBoot.Initial := ⟨rfl, _, fun _ => ⟨rfl, rfl, rfl⟩, rfl⟩

/-- A page of shared memory. -/
def sharedPage (memFlags : Nat) : MpRegion := ⟨0x1000, 64, memFlags, .vmAny⟩

/-- A page of code. -/
def codePage (i : Nat) : MpRegion := ⟨0x10000 + 64 * i, 64, ptePermX, .vmAny⟩

/-- The MPU after calls from the start. -/
def tricoreAfter (calls : List TricoreCall) : TricoreState :=
  StepSystem.runBy TricoreCall.next calls tricoreBoot

theorem tricoreAfter_reach {calls : List TricoreCall} {ok : TricoreState → TricoreCall → Prop}
    (h : StepSystem.Meets TricoreCall.Promised TricoreCall.next ok calls tricoreBoot) :
    tricoreSystem.Reach ok (tricoreAfter calls) := h.fromInit tricoreBoot_initial

/-- The hypervisor maps its image, and two VMs share a page that one of them may
only read. -/
def sharedRun : List TricoreCall :=
  [.map 0 ⟨0x8000, 4096, 7, .hypImage⟩, .map 1 (sharedPage 3), .map 2 (sharedPage 2)]

/-- When the VM that may write leaves, the other one may still read. -/
theorem tricore_sets_exact_shared :
    (TricoreCall.unmap 1 (sharedPage 3)).Exact (tricoreAfter sharedRun) ∧
      (tricoreAfter (sharedRun ++ [.unmap 1 (sharedPage 3)])).mpu.Allows 2 .read 0x1020 ∧
      ¬ (tricoreAfter (sharedRun ++ [.unmap 1 (sharedPage 3)])).mpu.Allows 1 .read 0x1020 := by
  have hmeets : StepSystem.Meets TricoreCall.Promised TricoreCall.next
      (fun s c => TricoreCall.MeetsOwn s c) sharedRun tricoreBoot := by
    decide +kernel
  have hexact := tricore_sets_exact (tricoreAfter_reach hmeets)
    (c := .unmap 1 (sharedPage 3)) (by decide +kernel) (by decide +kernel)
  exact ⟨hexact, by decide +kernel, by decide +kernel⟩

/-- A VM has two pages, and a second VM maps the one that is first in the code
table and second in the data table: the second VM may not execute it. -/
def reusedRun : List TricoreCall := [.map 1 ⟨0x2000, 64, 3, .vmAny⟩, .map 1 (sharedPage 7)]

/-- A VM has a page of code and a page of data, which a second VM maps with
`exec`: the number of the data entry lets the second VM execute the page of code. -/
def crossedRun : List TricoreCall := [.map 1 (codePage 0), .map 1 (sharedPage 3)]

/-- A VM may execute a page of a second VM that only writes and reads it. -/
def dependentRun : List TricoreCall := [.map 1 (sharedPage 7), .map 2 (sharedPage 3)]

/-- A VM uses every entry of the code table. -/
def fullRun : List TricoreCall := (List.range mpuCodeMaxNumEntries).map fun i => .map 1 (codePage i)

/-- **`mpu_map` says true without granting**, when the code entry is in use or the
table is full; it grants the execution of what is not in the region; and `mpu_unmap`
for one VM takes the execution of a page from another. -/
theorem tricore_sets_differ :
    (∃ s c, tricoreSystem.Reachable s ∧ TricoreCall.Promised c s ∧ ¬ c.Exact s) ∧
    (∃ s, tricoreSystem.Reachable s ∧
      (TricoreCall.run (.map 2 (sharedPage 7)) s.mpu).1 = true ∧
      ¬ (TricoreCall.next (.map 2 (sharedPage 7)) s).mpu.Allows 2 .exec 0x1020) ∧
    (∃ s, tricoreSystem.Reachable s ∧ ¬ s.mpu.Allows 2 .exec 0x10000 ∧
      (TricoreCall.next (.map 2 (sharedPage 7)) s).mpu.Allows 2 .exec 0x10000) ∧
    (∃ s, tricoreSystem.Reachable s ∧ s.mpu.Allows 1 .exec 0x1020 ∧
      ¬ (TricoreCall.next (.unmap 2 (sharedPage 3)) s).mpu.Allows 1 .exec 0x1020) ∧
    ∃ s, tricoreSystem.Reachable s ∧ s.mpu.codeEntryAllocate.1 = none ∧
      (TricoreCall.run (.map 2 (sharedPage 7)) s.mpu).1 = true ∧
      (TricoreCall.next (.map 2 (sharedPage 7)) s).mpu.data.bitmap 0 = true := by
  have hreach : ∀ {calls : List TricoreCall}, StepSystem.Meets TricoreCall.Promised
      TricoreCall.next (fun _ _ => True) calls tricoreBoot →
      tricoreSystem.Reachable (tricoreAfter calls) := fun h => tricoreAfter_reach h
  have hreused : tricoreSystem.Reachable (tricoreAfter reusedRun) := hreach (by decide +kernel)
  have hcrossed : tricoreSystem.Reachable (tricoreAfter crossedRun) := hreach (by decide +kernel)
  have hdependent : tricoreSystem.Reachable (tricoreAfter dependentRun) :=
    hreach (by decide +kernel)
  have hfull : tricoreSystem.Reachable (tricoreAfter fullRun) := hreach (by decide +kernel)
  have htrue : (TricoreCall.run (.map 2 (sharedPage 7)) (tricoreAfter reusedRun).mpu).1 = true := by
    decide +kernel
  have hdenied : ¬ (TricoreCall.next (.map 2 (sharedPage 7))
      (tricoreAfter reusedRun)).mpu.Allows 2 .exec 0x1020 := by
    decide +kernel
  have hpromised : (TricoreCall.map 2 (sharedPage 7)).Promised (tricoreAfter reusedRun) := by
    decide +kernel
  refine ⟨⟨_, _, hreused, hpromised, fun h => hdenied ?_⟩, ⟨_, hreused, htrue, hdenied⟩,
    ⟨_, hcrossed, by decide +kernel, by decide +kernel⟩,
    ⟨_, hdependent, by decide +kernel, by decide +kernel⟩,
    ⟨_, hfull, by decide +kernel, by decide +kernel, by decide +kernel⟩⟩
  rw [h.mapped rfl htrue]
  decide

end Bao

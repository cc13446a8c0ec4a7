import BaoHypervisor.VmpuRegions

/-!
# Runs of the virtual MPU

The address spaces of one CPU, each initialised by `as_init`, under any
sequence of mappings, unmappings and copies of mappings.  The regions stay
disjoint in every run whose mapped regions fit (`MapFits`); a run of two
mappings that overlap shows that the condition is needed.
-/

namespace Bao

open RangeList AddrSpace VmpuCpu

variable {σ : Type}

/-- The address spaces, by their address, and what they share. -/
structure VmpuHeap (σ : Type) where
  spaces : Nat → AddrSpace
  mpu : σ
  shared : Nat
  sent : List (Nat × SharedRegion)

/-- The state an operation on the address space `p` works on. -/
def VmpuHeap.view (s : VmpuHeap σ) (p : Nat) : VmpuState σ := ⟨s.spaces p, s.mpu, s.shared, s.sent⟩

/-- The heap after an operation on the address space `p`. -/
def VmpuHeap.put (s : VmpuHeap σ) (p : Nat) (st : VmpuState σ) : VmpuHeap σ where
  spaces := fun q => if q = p then st.as else s.spaces q
  mpu := st.mpu
  shared := st.shared
  sent := st.sent

/-- The calls on address spaces; `release` is another CPU that handles
messages and frees their shared regions. -/
inductive VmpuEvent
  | map (p : Nat) (mpr : MpRegion) (broadcast locked : Bool)
  | unmapRange (p vaddr size : Nat) (broadcast : Bool)
  | unmap (p at_ numPages : Nat) (freePpages : Bool)
  | mapCpy (ass asd : Nat) (asdSection : AsSec) (vas vad numPages : Nat)
  | release (n : Nat)

/-- One call that returns.  A call that stops in `ERROR`, follows a null
pointer or waits for a lock that is never released makes no step. -/
inductive VmpuStep (C : VmpuCpu σ) : VmpuHeap σ → VmpuEvent → VmpuHeap σ → Prop
  | map {s : VmpuHeap σ} {p fuel : Nat} {mpr : MpRegion} {broadcast locked ok : Bool}
      {st : VmpuState σ} (h : C.memMap fuel (s.view p) mpr broadcast locked = some (ok, st)) :
      VmpuStep C s (.map p mpr broadcast locked) (s.put p st)
  | unmapRange {s : VmpuHeap σ} {p fuel vaddr size : Nat} {broadcast ok : Bool}
      {st : VmpuState σ} (h : C.memUnmapRange fuel (s.view p) vaddr size broadcast = some (ok, st)) :
      VmpuStep C s (.unmapRange p vaddr size broadcast) (s.put p st)
  | unmap {s : VmpuHeap σ} {p fuel at_ numPages : Nat} {freePpages : Bool}
      {freed : Option Ppages} {st : VmpuState σ}
      (h : C.memUnmap fuel (s.view p) at_ numPages freePpages = some (freed, st)) :
      VmpuStep C s (.unmap p at_ numPages freePpages) (s.put p st)
  | mapCpy {s : VmpuHeap σ} {ass asd fuel vas vad numPages va : Nat} {asdSection : AsSec}
      {st : VmpuState σ}
      (h : C.memMapCpy fuel (s.spaces ass) (decide (ass = asd)) (s.view asd) asdSection vas vad
        numPages = some (va, st)) :
      VmpuStep C s (.mapCpy ass asd asdSection vas vad numPages) (s.put asd st)
  | release {s : VmpuHeap σ} {n : Nat} :
      VmpuStep C s (.release n) { s with shared := s.shared - n }

/-- Every address space has just been through `as_init`. -/
def VmpuHeap.Initial (C : VmpuCpu σ) (s : VmpuHeap σ) : Prop :=
  ∀ p, ∃ before type id, s.spaces p = asInit C.arch.pteInvalid before type id

/-- The runs of the vMPU calls on one CPU. -/
def vmpuSystem (C : VmpuCpu σ) : StepSystem (VmpuHeap σ) VmpuEvent where
  init := VmpuHeap.Initial C
  step := VmpuStep C

/-- The valid entries cover pairwise disjoint ranges, and the ordered list has
exactly them, each once, strictly increasing by base. -/
structure VmpuDisjoint (as : AddrSpace) : Prop where
  disjoint : ∀ i j a, as.Valid i → as.Valid j → as.Covers i a → as.Covers j a → i = j
  listed : ∀ i, i ∈ as.orderedList ↔ as.Valid i
  once : as.orderedList.Nodup
  increasing : as.orderedList.Pairwise fun i j => as.base i < as.base j

/-- No range wraps around the address space. -/
def VmpuEvent.NoWrap (C : VmpuCpu σ) (s : VmpuHeap σ) : VmpuEvent → Prop
  | .map _ mpr _ _ => mpr.base + mpr.size < C.machine.wordCount
  | .unmapRange _ vaddr size _ => vaddr + size < C.machine.wordCount
  | .unmap _ at_ numPages _ =>
      at_ + numPages * C.machine.pageSize % C.machine.wordCount < C.machine.wordCount
  | .mapCpy ass _ _ vas _ numPages =>
      ∀ i, memVmpuGetEntryByAddr C.machine (s.spaces ass) vas = some i →
        (s.spaces ass).base i + numPages * C.machine.pageSize % C.machine.wordCount <
          C.machine.wordCount
  | .release _ => True

/-- No range wraps, and a region that is mapped is contained in a valid entry
or meets none. -/
def VmpuEvent.Fits (C : VmpuCpu σ) (s : VmpuHeap σ) : VmpuEvent → Prop
  | .map p mpr _ _ => MapFits C.machine (s.spaces p) mpr
  | .mapCpy ass asd asdSection vas _ numPages =>
      ∀ i, memVmpuGetEntryByAddr C.machine (s.spaces ass) vas = some i →
        MapFits C.machine (s.spaces asd)
          { ((s.spaces ass).node i).region with
            asSec := asdSection
            size := numPages * C.machine.pageSize % C.machine.wordCount }
  | e => e.NoWrap C s

/-- `as_init` leaves no entry, whatever the memory held. -/
theorem asInit_eq (pteInvalid : Nat) (as : AddrSpace) (type : AsType) (id : Nat) :
    asInit pteInvalid as type id =
      ⟨id, type, 0, [], fun _ => clearMpe pteInvalid .free, false⟩ := by
  have hfold : ∀ (l : List Mpid) (as : AddrSpace), as.orderedList = [] →
      l.foldl (memVmpuFreeEntry pteInvalid) as =
        { as with node := fun i => if i ∈ l then clearMpe pteInvalid .free else as.node i } := by
    intro l
    induction l with
    | nil =>
        intro as _
        simp
    | cons i l ih =>
        intro as hnil
        have hfree : memVmpuFreeEntry pteInvalid as i =
            as.setNode i (clearMpe pteInvalid .free) := by
          unfold memVmpuFreeEntry memVmpuClearEntry setNode
          simp only [hnil, List.erase_nil, AddrSpace.mk.injEq, true_and, and_true]
          funext k
          by_cases hk : k = i
          · simp [hk, clearMpe]
          · simp [hk]
        have hrec := ih (as.setNode i (clearMpe pteInvalid .free)) hnil
        rw [List.foldl_cons, hfree, hrec]
        unfold setNode
        simp only [AddrSpace.mk.injEq, true_and, and_true]
        funext k
        by_cases hk : k = i
        · subst hk
          simp
        · simp [hk]
  rw [asInit, hfold _ _ rfl]
  simp

theorem asInit_wf (M : Machine) (pteInvalid : Nat) (as : AddrSpace) (type : AsType) (id : Nat) :
    (asInit pteInvalid as type id).Wf M := by
  rw [asInit_eq]
  have hno : ∀ i, ¬ Valid ⟨id, type, 0, [], fun _ => clearMpe pteInvalid .free, false⟩ i := by
    intro i hi
    cases hi
  refine ⟨?_, List.Pairwise.nil, ?_, ?_⟩
  · intro i
    exact iff_of_false List.not_mem_nil (hno i)
  · intro i hi
    exact absurd hi (hno i)
  · intro i hi
    exact absurd hi (hno i)

theorem AddrSpace.Wf.vmpuDisjoint {M : Machine} {as : AddrSpace} (h : as.Wf M) :
    VmpuDisjoint as where
  disjoint := fun _ _ _ hi hj hia hja => h.covers_unique hi hj hia hja
  listed := h.listed
  once := h.nodup
  increasing := h.increasing

variable {C : VmpuCpu σ}

theorem memMapCpy_wf {fuel : Nat} {ass : AddrSpace} {same : Bool} {st st' : VmpuState σ}
    {asdSection : AsSec} {vas vad numPages va : Nat} (hwf : st.as.Wf C.machine)
    (hfits : ∀ i, ass.memVmpuGetEntryByAddr C.machine vas = some i →
      MapFits C.machine st.as
        { (ass.node i).region with
          asSec := asdSection
          size := numPages * C.machine.pageSize % C.machine.wordCount })
    (h : C.memMapCpy fuel ass same st asdSection vas vad numPages = some (va, st')) :
    st'.as.Wf C.machine := by
  rw [memMapCpy] at h
  dsimp only at h
  split at h
  · split at h
    · cases h
    · split at h
      · cases h
      · rename_i i hentry
        split at h
        · cases h
          exact hwf
        · obtain ⟨⟨mapped, st1⟩, hmap, h⟩ := Option.bind_eq_some_iff.mp h
          cases h
          exact memMap_wf hwf (hfits i hentry) hmap
  · cases h
    exact hwf

theorem memUnmap_wf {fuel at_ numPages : Nat} {freePpages : Bool} {freed : Option Ppages}
    {st st' : VmpuState σ} (hwf : st.as.Wf C.machine)
    (hfit : at_ + numPages * C.machine.pageSize % C.machine.wordCount < C.machine.wordCount)
    (h : C.memUnmap fuel st at_ numPages freePpages = some (freed, st')) :
    st'.as.Wf C.machine := by
  obtain ⟨⟨unmapped, st1⟩, hrange, h⟩ := Option.bind_eq_some_iff.mp h
  cases h
  exact memUnmapRange_wf hwf hfit hrange

theorem put_wf {s : VmpuHeap σ} {M : Machine} (h : ∀ p, (s.spaces p).Wf M) {p : Nat}
    {st : VmpuState σ} (hst : st.as.Wf M) (q : Nat) : ((s.put p st).spaces q).Wf M := by
  show (if q = p then st.as else s.spaces q).Wf M
  split
  · exact hst
  · exact h q

theorem vmpuStep_wf {s s' : VmpuHeap σ} {e : VmpuEvent}
    (hwf : ∀ p, (s.spaces p).Wf C.machine) (hok : e.Fits C s) (hstep : VmpuStep C s e s') :
    ∀ p, (s'.spaces p).Wf C.machine := by
  cases hstep with
  | @map p _ mpr _ _ _ _ h =>
      have hview : (s.view p).as.Wf C.machine := hwf p
      have hfits : MapFits C.machine (s.view p).as mpr := hok
      exact put_wf hwf (memMap_wf hview hfits h)
  | @unmapRange p _ _ _ _ _ _ h =>
      have hview : (s.view p).as.Wf C.machine := hwf p
      exact put_wf hwf (memUnmapRange_wf hview hok h)
  | @unmap p _ _ _ _ _ _ h =>
      have hview : (s.view p).as.Wf C.machine := hwf p
      exact put_wf hwf (memUnmap_wf hview hok h)
  | @mapCpy ass asd _ vas _ numPages _ asdSection _ h =>
      have hview : (s.view asd).as.Wf C.machine := hwf asd
      have hfits : ∀ i, (s.spaces ass).memVmpuGetEntryByAddr C.machine vas = some i →
          MapFits C.machine (s.view asd).as
            { ((s.spaces ass).node i).region with
              asSec := asdSection
              size := numPages * C.machine.pageSize % C.machine.wordCount } := hok
      exact put_wf hwf (memMapCpy_wf hview hfits h)
  | release => exact hwf

/-- An MPU that accepts every region. -/
def openMpu : MpuArch Unit where
  pteInvalid := 0
  mpuGranularity := 4096
  mpuPermsCompatible := fun perms1 perms2 => perms1 == perms2
  mpuMap := fun mpu _ mpr _ => (true, mpr.memFlags, mpu)
  mpuUpdate := fun mpu _ _ => (true, mpu)
  mpuUnmap := fun mpu _ _ => (true, mpu)

/-- The only CPU of a platform with that MPU. -/
def openCpu : VmpuCpu Unit where
  machine := Machine.mmu64
  arch := openMpu
  cpuNum := 1
  sharedRegionPoolSize := 128
  id := 0
  vcpuVmCpus := none

/-- A hypervisor address space without entries. -/
def noRegions : AddrSpace := ⟨0, .hyp, 0, [], fun _ => clearMpe 0 .free, false⟩

/-- Address spaces after `as_init`. -/
def freshHeap : VmpuHeap Unit := ⟨fun _ => noRegions, (), 0, []⟩

theorem freshHeap_initial : (vmpuSystem openCpu).init freshHeap := by
  intro p
  exact ⟨noRegions, .hyp, 0, (asInit_eq 0 noRegions .hyp 0).symm⟩

/-- The first `n` pages, for the hypervisor. -/
def lowPages (n : Nat) : MpRegion := ⟨0, n * 4096, 1, .hypGlobal⟩

theorem lowPages_fits (n : Nat) (hn : n * 4096 < 2 ^ 64) :
    VmpuEvent.Fits openCpu freshHeap (.map 0 (lowPages n) false false) := by
  refine .inr ⟨?_, .inr ?_⟩
  · show 0 + n * 4096 < 2 ^ 64
    omega
  · intro i hi
    cases hi

/-- The heap with the first page mapped. -/
def onePageHeap : VmpuHeap Unit :=
  freshHeap.put 0
    { as := (noRegions.setNode 0 { clearMpe 0 .free with state := .invalid }).memVmpuSetEntry 0
        (lowPages 1) false
      mpu := ()
      shared := 0
      sent := [] }

theorem onePage_mapped :
    VmpuStep openCpu freshHeap (.map 0 (lowPages 1) false false) onePageHeap :=
  @VmpuStep.map _ _ _ _ 1 _ _ _ true _ rfl

end Bao

import BaoHypervisor.RemioRequests
import Mathlib.Data.List.Nodup

/-!
# What the Remote I/O initialisation leaves behind

`remio_init` enters the devices of all VMs one by one: the first loop links
the two sides of a device by their bind key, the last one writes the VM of
each side and the CPU id `(cpuid_t)-1`.  This file carries both loops with an
invariant about the entries already seen, and concludes what an accepted
configuration gives when every bind key has a backend in one VM and a frontend
in another.
-/

namespace Bao

/-- The role on the other side of a device. -/
def RemioDevType.other : RemioDevType → RemioDevType
  | .backend => .frontend
  | .frontend => .backend

/-- The side of a device with the role `type`. -/
def RemioDevice.side (dev : RemioDevice) : RemioDevType → RemioEndpoint
  | .backend => dev.backend
  | .frontend => dev.frontend

/-- VM `vm` has the role `type` for the device with the key. -/
def RemioPlatform.Has (p : RemioPlatform) (vm : Nat) (type : RemioDevType) (bindKey : Nat) : Prop :=
  ∃ dev ∈ p.remioDevs vm, dev.type = type ∧ dev.bindKey = bindKey

/-- **Each key pairs two VMs.**  No device uses the key that marks an unlinked
side, the opposite side of every device is configured as well, and no VM has
both sides of a device. -/
structure RemioPlatform.Paired (p : RemioPlatform) : Prop where
  marker : ∀ vm type key, p.Has vm type key → key ≠ p.machine.sizeMax
  opposite : ∀ vm type key, p.Has vm type key → ∃ vm', p.Has vm' type.other key
  apart : ∀ vm type key, p.Has vm type key → ¬ p.Has vm type.other key

theorem RemioDevType.eq_or_other (type type' : RemioDevType) :
    type' = type ∨ type' = type.other := by
  cases type <;> cases type' <;> simp [RemioDevType.other]

theorem RemioDevType.other_ne (type : RemioDevType) : type.other ≠ type := by
  cases type <;> decide

theorem RemioPlatform.Paired.both {p : RemioPlatform} (hp : p.Paired) {vm key : Nat}
    {type : RemioDevType} (h : p.Has vm type key) (type' : RemioDevType) :
    ∃ vm', p.Has vm' type' key := by
  rcases RemioDevType.eq_or_other type type' with rfl | rfl
  · exact ⟨vm, h⟩
  · exact hp.opposite vm type key h

theorem mem_allRemioDevs {p : RemioPlatform} {vm : Nat} {dev : RemioDev} :
    (vm, dev) ∈ allRemioDevs p.vmlist ↔ dev ∈ p.remioDevs vm := by
  rw [allRemioDevs, List.mem_flatMap, RemioPlatform.remioDevs]
  constructor
  · rintro ⟨⟨devs, i⟩, hvm, hmem⟩
    obtain ⟨dev', hdev', heq⟩ := List.mem_map.mp hmem
    obtain ⟨rfl, rfl⟩ := Prod.mk.inj heq
    have hget : p.vmlist[i]? = some devs := List.mem_zipIdx_iff_getElem?.mp hvm
    rw [List.getD_eq_getElem?_getD, hget]
    exact hdev'
  · intro hmem
    cases hget : p.vmlist[vm]? with
    | none =>
        rw [List.getD_eq_getElem?_getD, hget] at hmem
        exact (List.not_mem_nil hmem).elim
    | some devs =>
        rw [List.getD_eq_getElem?_getD, hget] at hmem
        exact ⟨(devs, vm), List.mem_zipIdx_iff_getElem?.mpr hget,
          List.mem_map.mpr ⟨dev, hmem, rfl⟩⟩

/-! ## Loops over the entries -/

/-- What every loop body keeps, about the elements already seen, holds of all
elements after the loop. -/
theorem foldlM_prefix {α β : Type} {f : β → α → Option β} {P : List α → β → Prop} {l : List α}
    {b b' : β} (h0 : P [] b)
    (hstep : ∀ done a rest b b', l = done ++ a :: rest → P done b → f b a = some b' →
      P (done ++ [a]) b')
    (h : l.foldlM f b = some b') : P l b' := by
  have hgo : ∀ (rest done : List α) (b : β), done ++ rest = l → P done b →
      rest.foldlM f b = some b' → P l b' := by
    intro rest
    induction rest with
    | nil =>
        intro done b hl hb h
        obtain rfl := Option.some.inj h
        rw [List.append_nil] at hl
        exact hl ▸ hb
    | cons a rest ih =>
        intro done b hl hb h
        rw [List.foldlM_cons] at h
        obtain ⟨b1, hb1, h⟩ := Option.bind_eq_some_iff.mp h
        refine ih (done ++ [a]) b1 ?_ (hstep done a rest b b1 hl.symm hb hb1) h
        rw [List.append_assoc, List.singleton_append]
        exact hl
  exact hgo l [] b rfl h0 h

/-! ## Linking the sides -/

/-- The role and the key of an entry. -/
def roleOf (e : Nat × RemioDev) : RemioDevType × Nat := (e.2.type, e.2.bindKey)

@[simp] theorem linkEndpoint_bindKey (dev : RemioDev) (device : RemioDevice) :
    (linkEndpoint dev device).bindKey = device.bindKey := by
  unfold linkEndpoint
  split <;> rfl

@[simp] theorem linkEndpoint_ready (dev : RemioDev) (device : RemioDevice) :
    (linkEndpoint dev device).ready = device.ready := by
  unfold linkEndpoint
  split <;> rfl

@[simp] theorem linkEndpoint_side_same (dev : RemioDev) (device : RemioDevice) :
    ((linkEndpoint dev device).side dev.type).bindKey = dev.bindKey ∧
      ((linkEndpoint dev device).side dev.type).ready = false := by
  unfold linkEndpoint
  cases dev.type <;> exact ⟨rfl, rfl⟩

@[simp] theorem linkEndpoint_side_other (dev : RemioDev) (device : RemioDevice) :
    (linkEndpoint dev device).side dev.type.other = device.side dev.type.other := by
  unfold linkEndpoint
  cases dev.type <;> rfl

/-- **What the search of the first loop finds**: a device that has the entry's
side already, or the first one that has the opposite side, or nothing. -/
theorem remioLink_cases (dev : RemioDev) (devices : List RemioDevice) (n : Nat) :
    (remioLink dev devices n = none ∧
      ∃ device ∈ devices, (device.side dev.type).bindKey = dev.bindKey) ∨
    (∃ d device, remioLink dev devices n = some (some (n + d)) ∧ devices[d]? = some device ∧
      (device.side dev.type.other).bindKey = dev.bindKey ∧
      (device.side dev.type).bindKey ≠ dev.bindKey) ∨
    (remioLink dev devices n = some none ∧
      ∀ device ∈ devices, ∀ type, (device.side type).bindKey ≠ dev.bindKey) := by
  induction devices generalizing n with
  | nil => exact .inr (.inr ⟨rfl, fun device h => (List.not_mem_nil h).elim⟩)
  | cons device rest ih =>
      have hown : ((dev.bindKey = device.backend.bindKey ∧ dev.type = .backend) ∨
          (dev.bindKey = device.frontend.bindKey ∧ dev.type = .frontend)) ↔
          (device.side dev.type).bindKey = dev.bindKey := by
        cases dev.type <;> simp [RemioDevice.side, eq_comm]
      have hother : ((dev.type = .backend ∧ dev.bindKey = device.frontend.bindKey) ∨
          (dev.type = .frontend ∧ dev.bindKey = device.backend.bindKey)) ↔
          (device.side dev.type.other).bindKey = dev.bindKey := by
        cases dev.type <;> simp [RemioDevice.side, RemioDevType.other, eq_comm]
      rw [remioLink]
      simp only [hown, hother]
      by_cases h1 : (device.side dev.type).bindKey = dev.bindKey
      · rw [if_pos h1]
        exact .inl ⟨rfl, device, List.mem_cons_self, h1⟩
      · rw [if_neg h1]
        by_cases h2 : (device.side dev.type.other).bindKey = dev.bindKey
        · rw [if_pos h2]
          exact .inr (.inl ⟨0, device, rfl, rfl, h2, h1⟩)
        · rw [if_neg h2]
          rcases ih (n + 1) with ⟨heq, found, hmem, hfound⟩ | ⟨d, found, heq, hget, hfound⟩ |
            ⟨heq, hall⟩
          · exact .inl ⟨heq, found, List.mem_cons_of_mem _ hmem, hfound⟩
          · refine .inr (.inl ⟨d + 1, found, ?_, hget, hfound⟩)
            rw [heq, Nat.add_assoc, Nat.add_comm 1 d]
          · refine .inr (.inr ⟨heq, fun found hmem type => ?_⟩)
            rcases List.mem_cons.mp hmem with rfl | hmem
            · rcases RemioDevType.eq_or_other dev.type type with rfl | rfl
              · exact h1
              · exact h2
            · exact hall found hmem type

/-- **The first loop**, after the entries `done`: the devices have different
keys, each of an entry, a linked side has the key of its device and any other
the marker, the side of every entry is linked, and no side is ready. -/
structure RemioLinked (M : Machine) (done : List (Nat × RemioDev)) (devices : List RemioDevice) :
    Prop where
  nodup : (devices.map RemioDevice.bindKey).Nodup
  keyed : ∀ device ∈ devices, ∃ e ∈ done, e.2.bindKey = device.bindKey
  sides : ∀ device ∈ devices, ∀ type, (device.side type).bindKey = device.bindKey ∨
    (device.side type).bindKey = M.sizeMax
  entered : ∀ e ∈ done, ∃ device ∈ devices, device.bindKey = e.2.bindKey ∧
    (device.side e.2.type).bindKey = e.2.bindKey
  once : (done.map roleOf).Nodup
  idle : ∀ device ∈ devices, device.ready = false ∧ ∀ type, (device.side type).ready = false

theorem eq_of_bindKey {devices : List RemioDevice}
    (hnodup : (devices.map RemioDevice.bindKey).Nodup) {a b : RemioDevice} (ha : a ∈ devices)
    (hb : b ∈ devices) (h : a.bindKey = b.bindKey) : a = b :=
  List.inj_on_of_nodup_map hnodup ha hb h

theorem mem_modify {α : Type} {l : List α} {d : Nat} {a b : α} {f : α → α} (hd : l[d]? = some a)
    (h : b ∈ l.modify d f) : b = f a ∨ b ∈ l := by
  obtain ⟨i, hi⟩ := List.mem_iff_getElem?.mp h
  rw [List.getElem?_modify] at hi
  obtain ⟨old, hold, hb⟩ := Option.map_eq_some_iff.mp hi
  by_cases hid : d = i
  · subst hid
    obtain rfl := Option.some.inj (hd.symm.trans hold)
    simp only [if_true] at hb
    exact .inl hb.symm
  · simp only [if_neg hid] at hb
    exact .inr (hb ▸ List.mem_of_getElem? hold)

theorem mem_modify_of_ne {α : Type} {l : List α} {d : Nat} {a b : α} {f : α → α}
    (hd : l[d]? = some a) (hb : b ∈ l) (hne : b ≠ a) : b ∈ l.modify d f := by
  obtain ⟨i, hi⟩ := List.mem_iff_getElem?.mp hb
  have hid : d ≠ i := by
    rintro rfl
    exact hne (Option.some.inj (hi.symm.trans hd))
  refine List.mem_iff_getElem?.mpr ⟨i, ?_⟩
  rw [List.getElem?_modify, hi]
  simp [hid]

theorem mem_modify_self {α : Type} {l : List α} {d : Nat} {a : α} {f : α → α}
    (hd : l[d]? = some a) : f a ∈ l.modify d f := by
  refine List.mem_iff_getElem?.mpr ⟨d, ?_⟩
  rw [List.getElem?_modify, hd]
  simp

theorem modify_keys {devices : List RemioDevice} {d : Nat} {f : RemioDevice → RemioDevice}
    (hf : ∀ device, (f device).bindKey = device.bindKey) :
    (devices.modify d f).map RemioDevice.bindKey = devices.map RemioDevice.bindKey := by
  refine List.ext_getElem? fun i => ?_
  rw [List.getElem?_map, List.getElem?_modify, List.getElem?_map]
  cases devices[i]? with
  | none => rfl
  | some device =>
      by_cases hd : d = i
      · simp [hd, hf]
      · simp [hd]

/-- No entry with the role and key of an entry that found a free side was seen
before. -/
theorem RemioLinked.fresh {M : Machine} {done : List (Nat × RemioDev)}
    {devices : List RemioDevice} {e : Nat × RemioDev} (hl : RemioLinked M done devices)
    (hfree : ∀ device ∈ devices, device.bindKey = e.2.bindKey →
      (device.side e.2.type).bindKey ≠ e.2.bindKey) :
    ((done ++ [e]).map roleOf).Nodup := by
  rw [List.map_append, List.map_singleton, List.nodup_append]
  refine ⟨hl.once, List.nodup_singleton _, ?_⟩
  intro role hrole role' hrole' heq
  rw [List.mem_singleton] at hrole'
  obtain ⟨e', he', hrole⟩ := List.mem_map.mp hrole
  obtain ⟨htype, hkey⟩ := Prod.mk.inj (hrole.trans (heq.trans hrole'))
  obtain ⟨device, hdevice, hsame, hside⟩ := hl.entered e' he'
  rw [hkey] at hsame hside
  rw [htype] at hside
  exact hfree device hdevice hsame hside

/-- **One entry of the first loop.** -/
theorem RemioLinked.addDev {M : Machine} {devNum : Nat} {done : List (Nat × RemioDev)}
    {devices devices' : List RemioDevice} {e : Nat × RemioDev} (hl : RemioLinked M done devices)
    (hmarker : e.2.bindKey ≠ M.sizeMax)
    (h : remioAddDev M devNum devices e.2 = some devices') :
    RemioLinked M (done ++ [e]) devices' := by
  have hmem : ∀ {e' : Nat × RemioDev}, e' ∈ done → e' ∈ done ++ [e] :=
    fun h => List.mem_append_left _ h
  have hself : e ∈ done ++ [e] := List.mem_append_right _ (List.mem_singleton.mpr rfl)
  rw [remioAddDev] at h
  rcases remioLink_cases e.2 devices 0 with ⟨heq, _⟩ | ⟨d, device, heq, hget, hother, hown⟩ |
    ⟨heq, hnone⟩
  · rw [heq] at h
    cases h
  · -- the opposite side of the device is there
    rw [heq, Nat.zero_add] at h
    obtain rfl := Option.some.inj h
    have hdevice := List.mem_of_getElem? hget
    have hkey : device.bindKey = e.2.bindKey := by
      rcases hl.sides device hdevice e.2.type.other with h | h
      · rw [← h, hother]
      · exact (hmarker (hother.symm.trans h)).elim
    have hthe : ∀ found ∈ devices, found.bindKey = e.2.bindKey → found = device := fun found hf h =>
      eq_of_bindKey hl.nodup hf hdevice (h.trans hkey.symm)
    constructor
    · rw [modify_keys (linkEndpoint_bindKey e.2)]
      exact hl.nodup
    · intro found hfound
      rcases mem_modify hget hfound with rfl | hfound
      · exact ⟨e, hself, by rw [linkEndpoint_bindKey, hkey]⟩
      · obtain ⟨e', he', hkey'⟩ := hl.keyed found hfound
        exact ⟨e', hmem he', hkey'⟩
    · intro found hfound type
      rcases mem_modify hget hfound with rfl | hfound
      · rw [linkEndpoint_bindKey]
        rcases RemioDevType.eq_or_other e.2.type type with rfl | rfl
        · exact .inl ((linkEndpoint_side_same e.2 device).1.trans hkey.symm)
        · rw [linkEndpoint_side_other]
          exact hl.sides device hdevice _
      · exact hl.sides found hfound type
    · intro e' he'
      rcases List.mem_append.mp he' with he' | he'
      · obtain ⟨found, hfound, hsame, hside⟩ := hl.entered e' he'
        by_cases hf : found = device
        · subst hf
          refine ⟨_, mem_modify_self hget, by rw [linkEndpoint_bindKey, hsame], ?_⟩
          rcases RemioDevType.eq_or_other e.2.type e'.2.type with htype | htype
          · rw [htype, (linkEndpoint_side_same e.2 found).1, ← hkey, hsame]
          · rw [htype, linkEndpoint_side_other, ← htype, hside]
        · exact ⟨found, mem_modify_of_ne hget hfound hf, hsame, hside⟩
      · obtain rfl := List.mem_singleton.mp he'
        exact ⟨_, mem_modify_self hget, by rw [linkEndpoint_bindKey, hkey],
          (linkEndpoint_side_same e'.2 device).1⟩
    · refine hl.fresh fun found hfound hsame => ?_
      rw [hthe found hfound hsame]
      exact hown
    · intro found hfound
      rcases mem_modify hget hfound with rfl | hfound
      · obtain ⟨hready, hsides⟩ := hl.idle device hdevice
        refine ⟨by rw [linkEndpoint_ready, hready], fun type => ?_⟩
        rcases RemioDevType.eq_or_other e.2.type type with rfl | rfl
        · exact (linkEndpoint_side_same e.2 device).2
        · rw [linkEndpoint_side_other]
          exact hsides _
      · exact hl.idle found hfound
  · -- a new device
    rw [heq] at h
    simp only at h
    by_cases hroom : devices.length < (if devNum = 0 then 1 else devNum)
    · rw [if_pos hroom] at h
      obtain rfl := Option.some.inj h
      have hnew : ∀ found ∈ devices, found.bindKey ≠ e.2.bindKey := by
        intro found hfound hsame
        obtain ⟨e', he', hkey'⟩ := hl.keyed found hfound
        obtain ⟨found', hfound', hsame', hside'⟩ := hl.entered e' he'
        refine hnone found' hfound' e'.2.type ?_
        rw [hside', hkey', hsame]
      constructor
      · rw [List.map_append, List.nodup_append]
        refine ⟨hl.nodup, List.nodup_singleton _, ?_⟩
        intro key hkey key' hkey' heq'
        obtain ⟨found, hfound, rfl⟩ := List.mem_map.mp hkey
        rw [List.map_singleton, List.mem_singleton, linkEndpoint_bindKey] at hkey'
        exact hnew found hfound (heq'.trans hkey')
      · intro found hfound
        rcases List.mem_append.mp hfound with hfound | hfound
        · obtain ⟨e', he', hkey'⟩ := hl.keyed found hfound
          exact ⟨e', hmem he', hkey'⟩
        · obtain rfl := List.mem_singleton.mp hfound
          exact ⟨e, hself, by rw [linkEndpoint_bindKey]; rfl⟩
      · intro found hfound type
        rcases List.mem_append.mp hfound with hfound | hfound
        · exact hl.sides found hfound type
        · obtain rfl := List.mem_singleton.mp hfound
          rcases RemioDevType.eq_or_other e.2.type type with rfl | rfl
          · exact .inl (by rw [(linkEndpoint_side_same e.2 _).1, linkEndpoint_bindKey]; rfl)
          · refine .inr ?_
            rw [linkEndpoint_side_other]
            cases e.2.type <;> rfl
      · intro e' he'
        rcases List.mem_append.mp he' with he' | he'
        · obtain ⟨found, hfound, hrest⟩ := hl.entered e' he'
          exact ⟨found, List.mem_append_left _ hfound, hrest⟩
        · obtain rfl := List.mem_singleton.mp he'
          exact ⟨_, List.mem_append_right _ (List.mem_singleton.mpr rfl),
            by rw [linkEndpoint_bindKey]; rfl, (linkEndpoint_side_same e'.2 _).1⟩
      · exact hl.fresh fun found hfound hsame => (hnew found hfound hsame).elim
      · intro found hfound
        rcases List.mem_append.mp hfound with hfound | hfound
        · exact hl.idle found hfound
        · obtain rfl := List.mem_singleton.mp hfound
          refine ⟨by rw [linkEndpoint_ready]; rfl, fun type => ?_⟩
          rcases RemioDevType.eq_or_other e.2.type type with rfl | rfl
          · exact (linkEndpoint_side_same e.2 _).2
          · rw [linkEndpoint_side_other]
            cases e.2.type <;> rfl
    · rw [if_neg hroom] at h
      cases h

/-! ## Writing the VM of each side -/

/-- The VM, the interrupt and the CPU id that the last loop writes to the side
of an entry. -/
def configEndpoint (M : Machine) (vmId : Nat) (dev : RemioDev) (device : RemioDevice) :
    RemioDevice :=
  match dev.type with
  | .backend =>
      { device with
        backend := { device.backend with
          vmId := vmId, interrupt := dev.interrupt, cpuId := M.sizeMax } }
  | .frontend =>
      { device with
        frontend := { device.frontend with
          vmId := vmId, interrupt := dev.interrupt, cpuId := M.sizeMax } }

@[simp] theorem configEndpoint_bindKey (M : Machine) (vmId : Nat) (dev : RemioDev)
    (device : RemioDevice) : (configEndpoint M vmId dev device).bindKey = device.bindKey := by
  unfold configEndpoint
  split <;> rfl

@[simp] theorem configEndpoint_ready (M : Machine) (vmId : Nat) (dev : RemioDev)
    (device : RemioDevice) : (configEndpoint M vmId dev device).ready = device.ready := by
  unfold configEndpoint
  split <;> rfl

theorem configEndpoint_side_same (M : Machine) (vmId : Nat) (dev : RemioDev)
    (device : RemioDevice) :
    ((configEndpoint M vmId dev device).side dev.type).vmId = vmId ∧
      ((configEndpoint M vmId dev device).side dev.type).cpuId = M.sizeMax ∧
      ((configEndpoint M vmId dev device).side dev.type).ready = (device.side dev.type).ready := by
  unfold configEndpoint
  cases dev.type <;> exact ⟨rfl, rfl, rfl⟩

@[simp] theorem configEndpoint_side_other (M : Machine) (vmId : Nat) (dev : RemioDev)
    (device : RemioDevice) :
    (configEndpoint M vmId dev device).side dev.type.other = device.side dev.type.other := by
  unfold configEndpoint
  cases dev.type <;> rfl

theorem remioConfigDev_some {M : Machine} {vmId : Nat} {devices devices' : List RemioDevice}
    {dev : RemioDev} (h : remioConfigDev M vmId devices dev = some devices') :
    ∃ d device, devices[d]? = some device ∧ device.bindKey = dev.bindKey ∧
      devices' = devices.modify d (configEndpoint M vmId dev) := by
  rw [remioConfigDev] at h
  cases hfind : remioFindDevByBindKey devices dev.bindKey with
  | none =>
      rw [hfind] at h
      cases h
  | some d =>
      rw [hfind] at h
      obtain ⟨device, hget, hkey⟩ := remioFindDevByBindKey_some hfind
      exact ⟨d, device, hget, hkey, (Option.some.inj h).symm⟩

/-- **The last loop**, after the entries `done`: keys and readiness are as the
first loop left them, and a side whose entry was seen has the VM of such an
entry and the CPU id `(cpuid_t)-1`. -/
structure RemioConfigured (M : Machine) (linked : List RemioDevice)
    (done : List (Nat × RemioDev)) (devices : List RemioDevice) : Prop where
  keys : devices.map RemioDevice.bindKey = linked.map RemioDevice.bindKey
  idle : ∀ device ∈ devices, device.ready = false ∧ ∀ type, (device.side type).ready = false
  written : ∀ e ∈ done, ∀ device ∈ devices, device.bindKey = e.2.bindKey →
    (device.side e.2.type).cpuId = M.sizeMax ∧
      ∃ e' ∈ done, roleOf e' = roleOf e ∧ (device.side e.2.type).vmId = e'.1

/-- **One entry of the last loop.** -/
theorem RemioConfigured.configDev {M : Machine} {linked devices devices' : List RemioDevice}
    {done : List (Nat × RemioDev)} {e : Nat × RemioDev}
    (hc : RemioConfigured M linked done devices) (hnodup : (linked.map RemioDevice.bindKey).Nodup)
    (h : remioConfigDev M e.1 devices e.2 = some devices') :
    RemioConfigured M linked (done ++ [e]) devices' := by
  obtain ⟨d, device, hget, hkey, rfl⟩ := remioConfigDev_some h
  have hdevice := List.mem_of_getElem? hget
  have hself : e ∈ done ++ [e] := List.mem_append_right _ (List.mem_singleton.mpr rfl)
  have hkeys : (devices.modify d (configEndpoint M e.1 e.2)).map RemioDevice.bindKey =
      devices.map RemioDevice.bindKey := modify_keys (configEndpoint_bindKey M e.1 e.2)
  have hnodup' : ((devices.modify d (configEndpoint M e.1 e.2)).map RemioDevice.bindKey).Nodup := by
    rw [hkeys, hc.keys]
    exact hnodup
  have hchanged := mem_modify_self (f := configEndpoint M e.1 e.2) hget
  obtain ⟨hvm, hcpu, hready⟩ := configEndpoint_side_same M e.1 e.2 device
  constructor
  · rw [hkeys, hc.keys]
  · intro found hfound
    rcases mem_modify hget hfound with rfl | hfound
    · obtain ⟨hidle, hsides⟩ := hc.idle device hdevice
      refine ⟨by rw [configEndpoint_ready, hidle], fun type => ?_⟩
      rcases RemioDevType.eq_or_other e.2.type type with rfl | rfl
      · rw [hready, hsides]
      · rw [configEndpoint_side_other, hsides]
    · exact hc.idle found hfound
  · intro e' he' found hfound hsame
    -- the device of the new entry is the changed one
    have hthe : found.bindKey = e.2.bindKey → found = configEndpoint M e.1 e.2 device := by
      intro hk
      exact eq_of_bindKey hnodup' hfound hchanged
        (by rw [configEndpoint_bindKey, hk, hkey])
    by_cases hrole : roleOf e' = roleOf e
    · obtain ⟨htype, hk⟩ := Prod.mk.inj hrole
      rw [hthe (hsame.trans hk), htype]
      exact ⟨hcpu, e, hself, hrole.symm, hvm⟩
    · have hold : e' ∈ done := by
        rcases List.mem_append.mp he' with he' | he'
        · exact he'
        · exact (hrole (by rw [List.mem_singleton.mp he'])).elim
      have hmore : ∀ {q : Nat → Prop}, (∃ e1 ∈ done, roleOf e1 = roleOf e' ∧ q e1.1) →
          ∃ e1 ∈ done ++ [e], roleOf e1 = roleOf e' ∧ q e1.1 := by
        rintro q ⟨e1, he1, h1⟩
        exact ⟨e1, List.mem_append_left _ he1, h1⟩
      rcases mem_modify hget hfound with rfl | hfound
      · rw [configEndpoint_bindKey] at hsame
        rcases RemioDevType.eq_or_other e.2.type e'.2.type with htype | htype
        · exact (hrole (Prod.ext htype (hsame.symm.trans hkey))).elim
        · obtain ⟨hcpu', hvm'⟩ := hc.written e' hold device hdevice hsame
          rw [htype, configEndpoint_side_other, ← htype]
          exact ⟨hcpu', hmore hvm'⟩
      · obtain ⟨hcpu', hvm'⟩ := hc.written e' hold found hfound hsame
        exact ⟨hcpu', hmore hvm'⟩

/-! ## The accepted configuration -/

/-- **What an accepted configuration of paired keys gives**: different devices
have different keys, each side belongs to a VM that has this role for the
device, waits for its CPU, and is not ready. -/
structure RemioSetup (p : RemioPlatform) (devices : List RemioDevice) : Prop where
  nodup : (devices.map RemioDevice.bindKey).Nodup
  idle : ∀ device ∈ devices, device.ready = false ∧ ∀ type, (device.side type).ready = false
  role : ∀ device ∈ devices, ∀ type, p.Has (device.side type).vmId type device.bindKey
  unassigned : ∀ device ∈ devices, ∀ type, (device.side type).cpuId = p.machine.sizeMax

theorem remioInit_loops {p : RemioPlatform} {devices : List RemioDevice}
    (hmarker : ∀ vm type key, p.Has vm type key → key ≠ p.machine.sizeMax)
    (h : remioInit p.machine p.devNum p.vmlist = some devices) :
    ∃ linked, RemioLinked p.machine (allRemioDevs p.vmlist) linked ∧
      RemioConfigured p.machine linked (allRemioDevs p.vmlist) devices := by
  rw [remioInit] at h
  obtain ⟨linked, hlinked, h⟩ := Option.bind_eq_some_iff.mp h
  have hempty : RemioLinked p.machine [] [] :=
    ⟨List.nodup_nil, by simp, by simp, by simp, List.nodup_nil, by simp⟩
  have hl : RemioLinked p.machine (allRemioDevs p.vmlist) linked := by
    refine foldlM_prefix hempty (fun done e rest b b' hsplit hb hadd => ?_) hlinked
    refine hb.addDev (hmarker e.1 e.2.type e.2.bindKey ⟨e.2, ?_, rfl, rfl⟩) hadd
    refine mem_allRemioDevs.mp ?_
    rw [hsplit]
    exact List.mem_append_right _ List.mem_cons_self
  refine ⟨linked, hl, ?_⟩
  split at h
  · cases h
  · split at h
    · cases h
    · have hstart : RemioConfigured p.machine linked [] linked := ⟨rfl, hl.idle, by simp⟩
      exact foldlM_prefix hstart
        (fun done e rest b b' _ hb hconfig => hb.configDev hl.nodup hconfig) h

/-- **An accepted configuration of paired keys is set up.** -/
theorem remioInit_setup {p : RemioPlatform} (hp : p.Paired) {devices : List RemioDevice}
    (h : remioInit p.machine p.devNum p.vmlist = some devices) : RemioSetup p devices := by
  obtain ⟨linked, hl, hc⟩ := remioInit_loops hp.marker h
  -- both sides of a device were entered
  have hentry : ∀ device ∈ devices, ∀ type, ∃ e ∈ allRemioDevs p.vmlist,
      roleOf e = (type, device.bindKey) := by
    intro device hdevice type
    have hkey : device.bindKey ∈ linked.map RemioDevice.bindKey := by
      rw [← hc.keys]
      exact List.mem_map_of_mem hdevice
    obtain ⟨device', hdevice', heq⟩ := List.mem_map.mp hkey
    obtain ⟨e, he, hek⟩ := hl.keyed device' hdevice'
    have hhas : p.Has e.1 e.2.type device.bindKey :=
      ⟨e.2, mem_allRemioDevs.mp he, rfl, hek.trans heq⟩
    obtain ⟨vm, dev, hdev, htype, hk⟩ := hp.both hhas type
    exact ⟨(vm, dev), mem_allRemioDevs.mpr hdev, Prod.ext htype hk⟩
  refine ⟨by rw [hc.keys]; exact hl.nodup, hc.idle, fun device hdevice type => ?_,
    fun device hdevice type => ?_⟩
  · obtain ⟨e, he, hrole⟩ := hentry device hdevice type
    obtain ⟨rfl, hk⟩ := Prod.mk.inj hrole
    obtain ⟨-, e', he', hrole', hvm⟩ := hc.written e he device hdevice hk.symm
    obtain ⟨htype', hk'⟩ := Prod.mk.inj hrole'
    rw [hvm]
    exact ⟨e'.2, mem_allRemioDevs.mp he', htype', hk'.trans hk⟩
  · obtain ⟨e, he, hrole⟩ := hentry device hdevice type
    obtain ⟨rfl, hk⟩ := Prod.mk.inj hrole
    exact (hc.written e he device hdevice hk.symm).1

/-- **One VM a role.**  In an accepted configuration a role of a key belongs to
one VM. -/
theorem remioInit_unique {p : RemioPlatform} (hp : p.Paired) {devices : List RemioDevice}
    (h : remioInit p.machine p.devNum p.vmlist = some devices) {vm vm' key : Nat}
    {type : RemioDevType} (hvm : p.Has vm type key) (hvm' : p.Has vm' type key) : vm = vm' := by
  obtain ⟨linked, hl, -⟩ := remioInit_loops hp.marker h
  obtain ⟨dev, hdev, htype, hkey⟩ := hvm
  obtain ⟨dev', hdev', htype', hkey'⟩ := hvm'
  have hsame : roleOf (vm, dev) = roleOf (vm', dev') :=
    Prod.ext (htype.trans htype'.symm) (hkey.trans hkey'.symm)
  have heq := List.inj_on_of_nodup_map hl.once (mem_allRemioDevs.mpr hdev)
    (mem_allRemioDevs.mpr hdev') hsame
  exact congrArg Prod.fst heq

end Bao

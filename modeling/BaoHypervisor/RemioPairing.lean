import BaoHypervisor.RemioSetup
import Mathlib.Data.List.Induction

/-!
# Which configurations the Remote I/O initialisation accepts

The first loop of `remio_init` has one device for each bind key seen so far, in the
order of their first entries, and each side is the entry with this role and key or
still unlinked.  The check afterwards compares totals, so that unpaired keys can
cancel out; what is left to stop them is the shared memory, which an unlinked side
has zeroed.
-/

namespace Bao

variable {M : Machine} {devNum : Nat}

/-- The bind keys of the entries, in the order of their first entries. -/
def keysOf (es : List (Nat × RemioDev)) : List Nat :=
  es.foldl (fun ks e => if e.2.bindKey ∈ ks then ks else ks ++ [e.2.bindKey]) []

/-- The entry with the given role and key. -/
def entryOf (es : List (Nat × RemioDev)) (type : RemioDevType) (key : Nat) :
    Option (Nat × RemioDev) :=
  es.find? fun e => decide (roleOf e = (type, key))

/-- A side after the first loop: linked to its entry or not at all. -/
def linkedSide (M : Machine) (es : List (Nat × RemioDev)) (type : RemioDevType) (key : Nat) :
    RemioEndpoint :=
  match entryOf es type key with
  | none => unlinkedEndpoint M
  | some e => { unlinkedEndpoint M with bindKey := e.2.bindKey, shmem := e.2.shmem }

/-- The device of a key after the first loop. -/
def linkedDevice (M : Machine) (es : List (Nat × RemioDev)) (key : Nat) : RemioDevice :=
  { newRemioDevice M key with
    backend := linkedSide M es .backend key
    frontend := linkedSide M es .frontend key }

/-- The devices after the first loop. -/
def linkedDevices (M : Machine) (es : List (Nat × RemioDev)) : List RemioDevice :=
  (keysOf es).map (linkedDevice M es)

/-- The role and key occurs. -/
def Configured (es : List (Nat × RemioDev)) (type : RemioDevType) (key : Nat) : Prop :=
  ∃ e ∈ es, roleOf e = (type, key)

/-- The first loop can enter `e` after `done`: its role and key is new; if its key is
the marker of unlinked sides, both sides of all keys so far are there; and a new key
has room in the pool of devices. -/
structure Admits (M : Machine) (devNum : Nat) (done : List (Nat × RemioDev))
    (e : Nat × RemioDev) : Prop where
  fresh : ¬ Configured done e.2.type e.2.bindKey
  marker : e.2.bindKey = M.sizeMax → ∀ key ∈ keysOf done, ∀ type, Configured done type key
  room : e.2.bindKey ∉ keysOf done →
    (keysOf done).length < if devNum = 0 then 1 else devNum

/-- Each entry can be entered after those before it. -/
def AdmitsAll (M : Machine) (devNum : Nat) (es : List (Nat × RemioDev)) : Prop :=
  ∀ done e rest, es = done ++ e :: rest → Admits M devNum done e

/-! ## Keys and entries -/

variable {es done : List (Nat × RemioDev)} {e : Nat × RemioDev} {key : Nat}
  {type : RemioDevType}

theorem keysOf_append : keysOf (done ++ [e]) =
    if e.2.bindKey ∈ keysOf done then keysOf done else keysOf done ++ [e.2.bindKey] := by
  unfold keysOf
  rw [List.foldl_append]
  rfl

theorem mem_keysOf : key ∈ keysOf es ↔ ∃ e ∈ es, e.2.bindKey = key := by
  induction es using List.reverseRecOn with
  | nil => exact ⟨fun h => absurd h List.not_mem_nil, fun ⟨e, he, _⟩ => absurd he List.not_mem_nil⟩
  | append_singleton done e ih =>
    have hsplit : (∃ a ∈ done ++ [e], a.2.bindKey = key) ↔
        (∃ a ∈ done, a.2.bindKey = key) ∨ e.2.bindKey = key := by
      simp only [List.mem_append, List.mem_singleton, or_and_right, exists_or, exists_eq_left]
    rw [hsplit, ← ih, keysOf_append]
    by_cases hin : e.2.bindKey ∈ keysOf done
    · rw [if_pos hin]
      constructor
      · exact .inl
      · rintro (h | rfl)
        · exact h
        · exact hin
    · rw [if_neg hin, List.mem_append, List.mem_singleton]
      exact or_congr Iff.rfl eq_comm

theorem keysOf_nodup (es : List (Nat × RemioDev)) : (keysOf es).Nodup := by
  induction es using List.reverseRecOn with
  | nil => exact List.nodup_nil
  | append_singleton done e ih =>
    rw [keysOf_append]
    by_cases hin : e.2.bindKey ∈ keysOf done
    · rwa [if_pos hin]
    · rw [if_neg hin]
      exact List.nodup_append.mpr ⟨ih, List.nodup_singleton _, fun a ha b hb heq => by
        rw [List.mem_singleton] at hb
        exact hin (hb ▸ heq ▸ ha)⟩

theorem Configured.mem_keysOf (h : Configured es type key) : key ∈ keysOf es := by
  obtain ⟨e, he, hrole⟩ := h
  exact Bao.mem_keysOf.mpr ⟨e, he, (Prod.mk.inj hrole).2⟩

theorem exists_configured (h : key ∈ keysOf es) : ∃ type, Configured es type key := by
  obtain ⟨e, he, rfl⟩ := mem_keysOf.mp h
  exact ⟨e.2.type, e, he, rfl⟩

theorem entryOf_none : entryOf es type key = none ↔ ¬ Configured es type key := by
  unfold entryOf Configured
  simp only [List.find?_eq_none, decide_eq_true_eq, not_exists, not_and]

theorem entryOf_some (h : entryOf es type key = some e) : e ∈ es ∧ roleOf e = (type, key) := by
  unfold entryOf at h
  have hrole := List.find?_some h
  rw [decide_eq_true_eq] at hrole
  exact ⟨List.mem_of_find?_eq_some h, hrole⟩

theorem entryOf_append (hfresh : ¬ Configured done e.2.type e.2.bindKey) :
    entryOf (done ++ [e]) type key =
      if roleOf e = (type, key) then some e else entryOf done type key := by
  by_cases hrole : roleOf e = (type, key)
  · obtain ⟨rfl, rfl⟩ := Prod.mk.inj hrole
    have hnone := entryOf_none.mpr hfresh
    unfold entryOf at hnone ⊢
    rw [if_pos hrole, List.find?_append, hnone, List.find?_singleton, decide_eq_true hrole]
    rfl
  · rw [if_neg hrole, entryOf, List.find?_append, List.find?_singleton, decide_eq_false hrole,
      if_neg Bool.false_ne_true, Option.or_none]
    rfl

/-! ## One entry of the first loop -/

theorem linkedSide_bindKey : (linkedSide M es type key).bindKey = key ∨
    (linkedSide M es type key).bindKey = M.sizeMax := by
  unfold linkedSide
  cases h : entryOf es type key with
  | none => exact .inr rfl
  | some e => exact .inl (Prod.mk.inj (entryOf_some h).2).2

theorem linkedSide_configured (h : Configured es type key) :
    (linkedSide M es type key).bindKey = key := by
  unfold linkedSide
  cases hentry : entryOf es type key with
  | none => exact absurd h (entryOf_none.mp hentry)
  | some e => exact (Prod.mk.inj (entryOf_some hentry).2).2

theorem linkedSide_unlinked (h : ¬ Configured es type key) :
    linkedSide M es type key = unlinkedEndpoint M := by
  rw [linkedSide, entryOf_none.mpr h]

theorem linkedDevice_side (type : RemioDevType) :
    (linkedDevice M es key).side type = linkedSide M es type key := by
  cases type with
  | frontend => rfl
  | backend => rfl

theorem linkedDevice_same (hfresh : ¬ Configured done e.2.type e.2.bindKey) :
    linkedDevice M (done ++ [e]) e.2.bindKey =
      linkEndpoint e.2 (linkedDevice M done e.2.bindKey) := by
  have hown : linkedSide M (done ++ [e]) e.2.type e.2.bindKey =
      { linkedSide M done e.2.type e.2.bindKey with
        bindKey := e.2.bindKey, shmem := e.2.shmem, ready := false } := by
    have hrole : roleOf e = (e.2.type, e.2.bindKey) := rfl
    rw [linkedSide_unlinked hfresh, linkedSide, entryOf_append hfresh, if_pos hrole]
    rfl
  have hother : linkedSide M (done ++ [e]) e.2.type.other e.2.bindKey =
      linkedSide M done e.2.type.other e.2.bindKey := by
    have hne : ¬ roleOf e = (e.2.type.other, e.2.bindKey) :=
      fun h => e.2.type.other_ne (Prod.mk.inj h).1.symm
    rw [linkedSide, entryOf_append hfresh, if_neg hne]
    rfl
  unfold linkedDevice linkEndpoint
  cases htype : e.2.type with
  | backend =>
    rw [htype] at hown hother
    simp only [RemioDevType.other] at hother
    simp only [hown, hother]
  | frontend =>
    rw [htype] at hown hother
    simp only [RemioDevType.other] at hother
    simp only [hown, hother]

theorem linkedDevice_other (hfresh : ¬ Configured done e.2.type e.2.bindKey)
    (hne : key ≠ e.2.bindKey) :
    linkedDevice M (done ++ [e]) key = linkedDevice M done key := by
  have hside : ∀ type, linkedSide M (done ++ [e]) type key = linkedSide M done type key := by
    intro type
    have hrole : ¬ roleOf e = (type, key) := fun h => hne (Prod.mk.inj h).2.symm
    rw [linkedSide, entryOf_append hfresh, if_neg hrole]
    rfl
  rw [linkedDevice, hside, hside]
  rfl

theorem map_modify_of_nodup {α : Type} {ks : List Nat} (hnodup : ks.Nodup) {d k : Nat}
    (hd : ks[d]? = some k) {f f' : Nat → α} {g : α → α} (hsame : f' k = g (f k))
    (hother : ∀ k', k' ≠ k → f' k' = f k') : (ks.map f).modify d g = ks.map f' := by
  refine List.ext_getElem? fun i => ?_
  rw [List.getElem?_modify, List.getElem?_map, List.getElem?_map]
  cases hi : ks[i]? with
  | none => rfl
  | some k' =>
    by_cases hid : d = i
    · subst hid
      obtain rfl := Option.some.inj (hd.symm.trans hi)
      simp only [Option.map_some, if_true, hsame]
      rfl
    · have hne : k' ≠ k := by
        rintro rfl
        have hlt := (List.getElem?_eq_some_iff.mp hd).1
        exact hid ((List.getElem?_inj hlt hnodup).mp (hd.trans hi.symm))
      simp only [Option.map_some, if_neg hid, hother k' hne]
      rfl

theorem remioLink_passes {dev : RemioDev} {devices : List RemioDevice} {n d i : Nat}
    {device : RemioDevice} (h : remioLink dev devices n = some (some (n + d))) (hi : i < d)
    (hget : devices[i]? = some device) (type : RemioDevType) :
    (device.side type).bindKey ≠ dev.bindKey := by
  induction devices generalizing n d i with
  | nil => cases hget
  | cons first rest ih =>
    rw [remioLink] at h
    split at h
    · cases h
    · next hown =>
      split at h
      · have := Option.some.inj (Option.some.inj h)
        omega
      · next hother =>
        obtain ⟨d, rfl⟩ := Nat.exists_eq_add_of_le' (Nat.lt_of_le_of_lt (Nat.zero_le i) hi)
        cases i with
        | zero =>
          obtain rfl := Option.some.inj hget
          intro hkey
          cases htype : dev.type with
          | backend =>
            cases type with
            | backend => exact hown (.inl ⟨hkey.symm, htype⟩)
            | frontend => exact hother (.inl ⟨htype, hkey.symm⟩)
          | frontend =>
            cases type with
            | backend => exact hother (.inr ⟨htype, hkey.symm⟩)
            | frontend => exact hown (.inr ⟨hkey.symm, htype⟩)
        | succ i =>
          have hadd : n + (d + 1) = n + 1 + d := by omega
          rw [hadd] at h
          exact ih h (by omega) hget

/-- **Entering an entry** that can be entered. -/
theorem remioAddDev_linked (hadmits : Admits M devNum done e) :
    remioAddDev M devNum (linkedDevices M done) e.2 = some (linkedDevices M (done ++ [e])) := by
  have hfresh := hadmits.fresh
  have hmap : ∀ {key}, key ∈ keysOf done → linkedDevice M done key ∈ linkedDevices M done :=
    fun h => List.mem_map_of_mem h
  rw [remioAddDev]
  rcases remioLink_cases e.2 (linkedDevices M done) 0 with
    ⟨heq, device, hdevice, hown⟩ | ⟨d, device, heq, hget, hother, hown⟩ | ⟨heq, hnone⟩
  · -- the side is taken, or is unlinked and the key is the marker
    exfalso
    obtain ⟨key, hkey, rfl⟩ := List.mem_map.mp hdevice
    rw [linkedDevice_side] at hown
    by_cases hconf : Configured done e.2.type key
    · rw [linkedSide_configured hconf] at hown
      rw [← hown] at hfresh
      exact hfresh hconf
    · rw [linkedSide_unlinked hconf] at hown
      exact hconf (hadmits.marker hown.symm key hkey e.2.type)
  · -- the device with the other side
    rw [heq, Nat.zero_add]
    simp only
    rw [linkedDevices, List.getElem?_map] at hget
    obtain ⟨key, hd, rfl⟩ := Option.map_eq_some_iff.mp hget
    have hkey := List.mem_of_getElem? hd
    rw [linkedDevice_side] at hother
    have hsame : key = e.2.bindKey := by
      by_cases hconf : Configured done e.2.type.other key
      · rwa [linkedSide_configured hconf] at hother
      · rw [linkedSide_unlinked hconf] at hother
        exact absurd (hadmits.marker hother.symm key hkey _) hconf
    subst hsame
    rw [linkedDevices, linkedDevices, keysOf_append, if_pos hkey]
    congr 1
    exact map_modify_of_nodup (keysOf_nodup done) hd (linkedDevice_same hfresh)
      fun k hne => linkedDevice_other hfresh hne
  · -- a new device
    have hnew : e.2.bindKey ∉ keysOf done := by
      intro hin
      obtain ⟨type, hconf⟩ := exists_configured hin
      apply hnone _ (hmap hin) type
      rw [linkedDevice_side, linkedSide_configured hconf]
    have hroom := hadmits.room hnew
    rw [heq]
    simp only
    rw [if_pos (by rwa [linkedDevices, List.length_map]), linkedDevices, linkedDevices,
      keysOf_append, if_neg hnew, List.map_append, List.map_singleton, linkedDevice_same hfresh]
    have hblank : linkedDevice M done e.2.bindKey = newRemioDevice M e.2.bindKey := by
      have hside : ∀ type, linkedSide M done type e.2.bindKey = unlinkedEndpoint M :=
        fun type => linkedSide_unlinked fun hconf => hnew hconf.mem_keysOf
      rw [linkedDevice, hside, hside]
      rfl
    have hrest : (keysOf done).map (linkedDevice M (done ++ [e])) =
        (keysOf done).map (linkedDevice M done) := by
      apply List.map_congr_left
      intro k hk
      apply linkedDevice_other hfresh
      rintro rfl
      exact hnew hk
    rw [hblank, hrest]

/-! ## An entry that cannot be entered -/

/-- An entry with the marker as its key has been linked to the device of another key:
both sides of the device look unlinked, and no device has the marker as its key. -/
def RemioStuck (M : Machine) (devices : List RemioDevice) : Prop :=
  (∀ device ∈ devices, device.bindKey ≠ M.sizeMax) ∧
    ∃ device ∈ devices, ∀ type, (device.side type).bindKey = M.sizeMax

theorem RemioStuck.of_link {devices : List RemioDevice} {d : Nat} {device : RemioDevice}
    {dev : RemioDev} (hkey : dev.bindKey = M.sizeMax) (hget : devices[d]? = some device)
    (hother : (device.side dev.type.other).bindKey = dev.bindKey)
    (hkeys : ∀ device ∈ devices, device.bindKey ≠ M.sizeMax) :
    RemioStuck M (devices.modify d (linkEndpoint dev)) := by
  constructor
  · intro found hfound
    rcases mem_modify hget hfound with rfl | hin
    · rw [linkEndpoint_bindKey]
      exact hkeys device (List.mem_of_getElem? hget)
    · exact hkeys found hin
  · refine ⟨_, mem_modify_self hget, fun type => ?_⟩
    rcases RemioDevType.eq_or_other dev.type type with rfl | rfl
    · rw [(linkEndpoint_side_same dev device).1, hkey]
    · rw [linkEndpoint_side_other, hother, hkey]

/-- **A stuck loop stays stuck**: nothing gets the marker as its key any more. -/
theorem RemioStuck.addDev {devices devices' : List RemioDevice} {dev : RemioDev}
    (hs : RemioStuck M devices) (h : remioAddDev M devNum devices dev = some devices') :
    RemioStuck M devices' := by
  obtain ⟨hkeys, blank, hblank, hsides⟩ := hs
  rw [remioAddDev] at h
  rcases remioLink_cases dev devices 0 with
    ⟨heq, -⟩ | ⟨d, device, heq, hget, hother, hown⟩ | ⟨heq, hnone⟩
  · rw [heq] at h
    cases h
  · rw [heq, Nat.zero_add] at h
    obtain rfl := Option.some.inj h
    by_cases hkey : dev.bindKey = M.sizeMax
    · exact .of_link hkey hget hother hkeys
    · -- another device is linked
      constructor
      · intro found hfound
        rcases mem_modify hget hfound with rfl | hin
        · rw [linkEndpoint_bindKey]
          exact hkeys device (List.mem_of_getElem? hget)
        · exact hkeys found hin
      · refine ⟨blank, mem_modify_of_ne hget hblank ?_, hsides⟩
        rintro rfl
        exact hkey (hother.symm.trans (hsides _))
  · rw [heq] at h
    simp only at h
    have hkey : dev.bindKey ≠ M.sizeMax := fun hk =>
      hnone blank hblank dev.type ((hsides dev.type).trans hk.symm)
    by_cases hroom : devices.length < if devNum = 0 then 1 else devNum
    · rw [if_pos hroom] at h
      obtain rfl := Option.some.inj h
      constructor
      · intro found hfound
        rcases List.mem_append.mp hfound with hin | hnew
        · exact hkeys found hin
        · obtain rfl := List.mem_singleton.mp hnew
          rw [linkEndpoint_bindKey]
          exact hkey
      · exact ⟨blank, List.mem_append_left _ hblank, hsides⟩
    · rw [if_neg hroom] at h
      cases h

theorem AdmitsAll.append :
    AdmitsAll M devNum (done ++ [e]) ↔ AdmitsAll M devNum done ∧ Admits M devNum done e := by
  constructor
  · intro h
    refine ⟨fun pre a rest heq => h pre a (rest ++ [e]) ?_, h done e [] rfl⟩
    rw [heq, List.append_assoc, List.cons_append]
  · rintro ⟨hdone, he⟩ pre a rest heq
    rcases List.eq_nil_or_concat rest with rfl | ⟨rest', b, rfl⟩
    · obtain ⟨rfl, hsame⟩ := List.append_inj' heq rfl
      cases hsame
      exact he
    · rw [List.concat_eq_append, ← List.cons_append, ← List.append_assoc] at heq
      obtain ⟨hpre, -⟩ := List.append_inj' heq rfl
      exact hdone pre a rest' hpre

theorem AdmitsAll.before_marker (h : AdmitsAll M devNum done) {i j : Nat} (hij : i < j)
    (hi : (keysOf done)[i]? = some key) (hj : (keysOf done)[j]? = some M.sizeMax)
    (type : RemioDevType) : Configured done type key := by
  induction done using List.reverseRecOn with
  | nil => cases hi
  | append_singleton done e ih =>
    obtain ⟨hdone, hadmits⟩ := AdmitsAll.append.mp h
    have hmore : Configured done type key → Configured (done ++ [e]) type key :=
      fun ⟨a, ha, hrole⟩ => ⟨a, List.mem_append_left _ ha, hrole⟩
    rw [keysOf_append] at hi hj
    by_cases hin : e.2.bindKey ∈ keysOf done
    · rw [if_pos hin] at hi hj
      exact hmore (ih hdone hi hj)
    · rw [if_neg hin] at hi hj
      rcases Nat.lt_or_ge j (keysOf done).length with hlt | hge
      · rw [List.getElem?_append_left (by omega)] at hi
        rw [List.getElem?_append_left hlt] at hj
        exact hmore (ih hdone hi hj)
      · -- the marker is the new key
        have hlast : j = (keysOf done).length := by
          have := (List.getElem?_eq_some_iff.mp hj).1
          rw [List.length_append, List.length_singleton] at this
          omega
        rw [hlast, List.getElem?_append_right (Nat.le_refl _), Nat.sub_self,
          List.getElem?_singleton, if_pos rfl] at hj
        rw [List.getElem?_append_left (by omega)] at hi
        exact hmore (hadmits.marker (Option.some.inj hj) key (List.mem_of_getElem? hi) type)

/-- **An entry that cannot be entered** ends in the `ERROR` or leaves the loop stuck,
with the marker as a key. -/
theorem remioAddDev_refused (hdone : AdmitsAll M devNum done) (hno : ¬ Admits M devNum done e)
    {devices : List RemioDevice}
    (h : remioAddDev M devNum (linkedDevices M done) e.2 = some devices) :
    RemioStuck M devices ∧ e.2.bindKey = M.sizeMax := by
  have hmap : ∀ {key}, key ∈ keysOf done → linkedDevice M done key ∈ linkedDevices M done :=
    fun h => List.mem_map_of_mem h
  rw [remioAddDev] at h
  rcases remioLink_cases e.2 (linkedDevices M done) 0 with
    ⟨heq, -⟩ | ⟨d, device, heq, hget, hother, hown⟩ | ⟨heq, hnone⟩
  · rw [heq] at h
    cases h
  · have hpass : ∀ i, i < d → ∀ found, (linkedDevices M done)[i]? = some found → ∀ type,
        (found.side type).bindKey ≠ e.2.bindKey :=
      fun i hi found hfound type => remioLink_passes heq hi hfound type
    rw [heq, Nat.zero_add] at h
    obtain rfl := Option.some.inj h
    have hat := hget
    rw [linkedDevices, List.getElem?_map] at hget
    obtain ⟨key, hd, rfl⟩ := Option.map_eq_some_iff.mp hget
    rw [linkedDevice_side] at hother hown
    by_cases hmarker : e.2.bindKey = M.sizeMax
    · refine ⟨?_, hmarker⟩
      rw [← linkedDevice_side] at hother
      refine .of_link hmarker hat hother fun found hfound hkey => ?_
      -- a device with the marker as its key would have been found first
      obtain ⟨key', hkey', rfl⟩ := List.mem_map.mp hfound
      obtain rfl : key' = M.sizeMax := hkey
      obtain ⟨j, hj⟩ := List.mem_iff_getElem?.mp hkey'
      have hblank : ∀ type, (linkedSide M done type M.sizeMax).bindKey = M.sizeMax := by
        intro type
        have hcases : (linkedSide M done type M.sizeMax).bindKey = M.sizeMax ∨
            (linkedSide M done type M.sizeMax).bindKey = M.sizeMax := linkedSide_bindKey
        exact hcases.elim id id
      rcases Nat.lt_trichotomy j d with hlt | rfl | hgt
      · have hseen := hpass j hlt _ (by rw [linkedDevices, List.getElem?_map, hj]; rfl) e.2.type
        rw [linkedDevice_side, hblank] at hseen
        exact hseen hmarker.symm
      · obtain rfl := Option.some.inj (hd.symm.trans hj)
        rw [hblank] at hown
        exact hown hmarker.symm
      · have hconf := hdone.before_marker hgt hd hj e.2.type.other
        rw [linkedDevice_side, linkedSide_configured hconf] at hother
        rw [hother, hmarker] at hown
        exact hown (hblank _)
    · -- the other side is there, so the entry is only refused if it is not new
      exfalso
      have hsame : Configured done e.2.type.other key ∧ key = e.2.bindKey := by
        by_cases hconf : Configured done e.2.type.other key
        · rw [linkedSide_configured hconf] at hother
          exact ⟨hconf, hother⟩
        · rw [linkedSide_unlinked hconf] at hother
          exact absurd hother.symm hmarker
      obtain ⟨hconf, rfl⟩ := hsame
      refine hno ⟨fun hthere => hown (linkedSide_configured hthere), fun hk => absurd hk hmarker,
        fun hnew => absurd hconf.mem_keysOf hnew⟩
  · rw [heq] at h
    simp only at h
    have hsides : ∀ key ∈ keysOf done, ∀ type,
        (linkedSide M done type key).bindKey ≠ e.2.bindKey := by
      intro key hkey type
      rw [← linkedDevice_side]
      exact hnone _ (hmap hkey) type
    have hnew : e.2.bindKey ∉ keysOf done := by
      intro hin
      obtain ⟨type, hconf⟩ := exists_configured hin
      exact hsides _ hin type (linkedSide_configured hconf)
    by_cases hroom : (linkedDevices M done).length < if devNum = 0 then 1 else devNum
    · exfalso
      rw [linkedDevices, List.length_map] at hroom
      refine hno ⟨fun hconf => hnew hconf.mem_keysOf, fun hk key hkey type => ?_, fun _ => hroom⟩
      apply Classical.byContradiction
      intro hconf
      apply hsides key hkey type
      rw [linkedSide_unlinked hconf, hk]
      rfl
    · rw [if_neg hroom] at h
      cases h

/-! ## The loops -/

/-- The first loop of `remio_init`. -/
def remioLinks (M : Machine) (devNum : Nat) (es : List (Nat × RemioDev)) :
    Option (List RemioDevice) :=
  es.foldlM (fun devices e => remioAddDev M devNum devices e.2) []

theorem remioLinks_append : remioLinks M devNum (done ++ [e]) =
    (remioLinks M devNum done).bind fun devices => remioAddDev M devNum devices e.2 := by
  rw [remioLinks, List.foldlM_append]
  cases h : remioLinks M devNum done with
  | none =>
    rw [remioLinks] at h
    rw [h]
    rfl
  | some devices =>
    rw [remioLinks] at h
    rw [h]
    exact Option.bind_fun_some _

theorem remioLinks_admitted (h : AdmitsAll M devNum es) :
    remioLinks M devNum es = some (linkedDevices M es) := by
  induction es using List.reverseRecOn with
  | nil => rfl
  | append_singleton done e ih =>
    obtain ⟨hdone, hadmits⟩ := AdmitsAll.append.mp h
    rw [remioLinks_append, ih hdone, Option.bind_some]
    exact remioAddDev_linked hadmits

/-- Otherwise the first loop ends in the `ERROR` or stuck. -/
theorem remioLinks_refused (hno : ¬ AdmitsAll M devNum es) {devices : List RemioDevice}
    (h : remioLinks M devNum es = some devices) :
    RemioStuck M devices ∧ ∃ e ∈ es, e.2.bindKey = M.sizeMax := by
  induction es using List.reverseRecOn generalizing devices with
  | nil =>
    refine absurd ?_ hno
    intro done e rest heq
    cases done with
    | nil => cases heq
    | cons a l => cases heq
  | append_singleton done e ih =>
    rw [remioLinks_append] at h
    obtain ⟨before, hbefore, hadd⟩ := Option.bind_eq_some_iff.mp h
    by_cases hdone : AdmitsAll M devNum done
    · rw [remioLinks_admitted hdone] at hbefore
      obtain rfl := Option.some.inj hbefore
      have hrefused : ¬ Admits M devNum done e := fun hadmits =>
        hno (AdmitsAll.append.mpr ⟨hdone, hadmits⟩)
      obtain ⟨hstuck, hkey⟩ := remioAddDev_refused hdone hrefused hadd
      exact ⟨hstuck, e, List.mem_append_right _ (List.mem_singleton.mpr rfl), hkey⟩
    · obtain ⟨hstuck, a, ha, hkey⟩ := ih hdone hbefore
      exact ⟨hstuck.addDev hadd, a, List.mem_append_left _ ha, hkey⟩

/-- The last loop of `remio_init`. -/
def remioConfigs (M : Machine) (es : List (Nat × RemioDev)) (devices : List RemioDevice) :
    Option (List RemioDevice) :=
  es.foldlM (fun devices e => remioConfigDev M e.1 devices e.2) devices

theorem remioConfigs_stuck {devices : List RemioDevice}
    (hkeys : ∀ device ∈ devices, device.bindKey ≠ M.sizeMax)
    (hmarker : ∃ e ∈ es, e.2.bindKey = M.sizeMax) : remioConfigs M es devices = none := by
  induction es generalizing devices with
  | nil =>
    obtain ⟨e, he, -⟩ := hmarker
    exact absurd he List.not_mem_nil
  | cons e rest ih =>
    rw [remioConfigs, List.foldlM_cons]
    cases h : remioConfigDev M e.1 devices e.2 with
    | none => rfl
    | some devices' =>
      obtain ⟨d, device, hget, hkey, rfl⟩ := remioConfigDev_some h
      have hdevice := List.mem_of_getElem? hget
      apply ih
      · intro found hfound
        rcases mem_modify hget hfound with rfl | hin
        · rw [configEndpoint_bindKey]
          exact hkeys device hdevice
        · exact hkeys found hin
      · obtain ⟨a, ha, hsame⟩ := hmarker
        rcases List.mem_cons.mp ha with rfl | hin
        · exact absurd (hkey.trans hsame) (hkeys device hdevice)
        · exact ⟨a, hin, hsame⟩

/-- A side after the last loop: the VM and the interrupt of its entry are written. -/
def configuredSide (M : Machine) (done : List (Nat × RemioDev)) (type : RemioDevType) (key : Nat)
    (side : RemioEndpoint) : RemioEndpoint :=
  match entryOf done type key with
  | none => side
  | some e => { side with vmId := e.1, interrupt := e.2.interrupt, cpuId := M.sizeMax }

/-- The device of a key after the last loop has seen the entries `done`. -/
def configuredDevice (M : Machine) (es done : List (Nat × RemioDev)) (key : Nat) : RemioDevice :=
  { linkedDevice M es key with
    backend := configuredSide M done .backend key (linkedSide M es .backend key)
    frontend := configuredSide M done .frontend key (linkedSide M es .frontend key) }

theorem configuredDevice_same (hfresh : ¬ Configured done e.2.type e.2.bindKey) :
    configuredDevice M es (done ++ [e]) e.2.bindKey =
      configEndpoint M e.1 e.2 (configuredDevice M es done e.2.bindKey) := by
  have hown : ∀ side, configuredSide M (done ++ [e]) e.2.type e.2.bindKey side =
      { configuredSide M done e.2.type e.2.bindKey side with
        vmId := e.1, interrupt := e.2.interrupt, cpuId := M.sizeMax } := by
    intro side
    have hrole : roleOf e = (e.2.type, e.2.bindKey) := rfl
    rw [configuredSide, entryOf_append hfresh, if_pos hrole, configuredSide,
      entryOf_none.mpr hfresh]
  have hother : ∀ side, configuredSide M (done ++ [e]) e.2.type.other e.2.bindKey side =
      configuredSide M done e.2.type.other e.2.bindKey side := by
    intro side
    have hne : ¬ roleOf e = (e.2.type.other, e.2.bindKey) :=
      fun h => e.2.type.other_ne (Prod.mk.inj h).1.symm
    rw [configuredSide, entryOf_append hfresh, if_neg hne]
    rfl
  unfold configuredDevice configEndpoint
  cases htype : e.2.type with
  | backend =>
    rw [htype] at hown hother
    simp only [RemioDevType.other] at hother
    simp only [hown, hother]
  | frontend =>
    rw [htype] at hown hother
    simp only [RemioDevType.other] at hother
    simp only [hown, hother]

theorem configuredDevice_other (hfresh : ¬ Configured done e.2.type e.2.bindKey)
    (hne : key ≠ e.2.bindKey) :
    configuredDevice M es (done ++ [e]) key = configuredDevice M es done key := by
  have hside : ∀ type side, configuredSide M (done ++ [e]) type key side =
      configuredSide M done type key side := by
    intro type side
    have hrole : ¬ roleOf e = (type, key) := fun h => hne (Prod.mk.inj h).2.symm
    rw [configuredSide, entryOf_append hfresh, if_neg hrole]
    rfl
  rw [configuredDevice, hside, hside]
  rfl

/-- **The last loop** writes the entries seen. -/
theorem remioConfigs_linked (hdone : AdmitsAll M devNum done)
    (hin : ∀ e ∈ done, e.2.bindKey ∈ keysOf es) :
    remioConfigs M done (linkedDevices M es) =
      some ((keysOf es).map (configuredDevice M es done)) := by
  induction done using List.reverseRecOn with
  | nil => rfl
  | append_singleton done e ih =>
    obtain ⟨hbefore, hadmits⟩ := AdmitsAll.append.mp hdone
    have hrun := ih hbefore fun a ha => hin a (List.mem_append_left _ ha)
    unfold remioConfigs at hrun ⊢
    rw [List.foldlM_append, hrun]
    have hkey := hin e (List.mem_append_right _ (List.mem_singleton.mpr rfl))
    cases h : remioConfigDev M e.1 ((keysOf es).map (configuredDevice M es done)) e.2 with
    | none =>
      exfalso
      unfold remioConfigDev at h
      cases hfind : remioFindDevByBindKey ((keysOf es).map (configuredDevice M es done))
          e.2.bindKey with
      | none =>
        have hall := List.findIdx?_eq_none_iff.mp hfind _ (List.mem_map_of_mem hkey)
        rw [beq_eq_false_iff_ne] at hall
        exact hall rfl
      | some d =>
        rw [hfind] at h
        cases h
    | some devices =>
      obtain ⟨d, device, hget, hsame, rfl⟩ := remioConfigDev_some h
      rw [List.getElem?_map] at hget
      obtain ⟨k, hd, rfl⟩ := Option.map_eq_some_iff.mp hget
      obtain rfl : k = e.2.bindKey := hsame
      have hwritten : configuredDevice M es (done ++ [e]) e.2.bindKey =
          configEndpoint M e.1 e.2 (configuredDevice M es done e.2.bindKey) :=
        configuredDevice_same hadmits.fresh
      have hmap := map_modify_of_nodup (keysOf_nodup es) hd hwritten
        fun k hne => configuredDevice_other hadmits.fresh hne
      change (remioConfigDev M e.1 _ e.2 >>= pure) = _
      rw [bind_pure, h, hmap]

/-! ## The accepted configurations -/

/-- The checks of `remio_init`: all entries can be entered, the totals are equal, and
the two sides of each device agree on the shared memory. -/
structure Accepted (M : Machine) (devNum : Nat) (es : List (Nat × RemioDev)) : Prop where
  admits : AdmitsAll M devNum es
  totals : es.countP (fun e => e.2.type = .frontend) = es.countP (fun e => e.2.type = .backend)
  shmem : ∀ key ∈ keysOf es,
    (linkedSide M es .backend key).shmem = (linkedSide M es .frontend key).shmem

/-- **What `remio_init` returns.** -/
theorem remioInit_eq_some {vmlist : List (List RemioDev)} {devices : List RemioDevice} :
    remioInit M devNum vmlist = some devices ↔
      Accepted M devNum (allRemioDevs vmlist) ∧
        devices = (keysOf (allRemioDevs vmlist)).map
          (configuredDevice M (allRemioDevs vmlist) (allRemioDevs vmlist)) := by
  generalize hes : allRemioDevs vmlist = es
  have hunfold : remioInit M devNum vmlist = (remioLinks M devNum es).bind fun linked =>
      if es.countP (fun e => e.2.type = .frontend) ≠ es.countP (fun e => e.2.type = .backend) then
        none
      else if linked.any (fun dev => dev.backend.shmem ≠ dev.frontend.shmem) then none
      else remioConfigs M es linked := by
    rw [← hes]
    rfl
  rw [hunfold]
  by_cases hadmits : AdmitsAll M devNum es
  · rw [remioLinks_admitted hadmits, Option.bind_some]
    have hcheck : (linkedDevices M es).any (fun dev => dev.backend.shmem ≠ dev.frontend.shmem) =
        true ↔ ¬ ∀ key ∈ keysOf es,
          (linkedSide M es .backend key).shmem = (linkedSide M es .frontend key).shmem := by
      rw [linkedDevices, List.any_map, List.any_eq_true]
      simp only [Function.comp_apply, decide_eq_true_eq, Classical.not_forall, exists_prop]
      rfl
    by_cases htotals : es.countP (fun e => e.2.type = .frontend) =
        es.countP (fun e => e.2.type = .backend)
    · rw [if_neg (not_not.mpr htotals)]
      by_cases hshmem : ∀ key ∈ keysOf es,
          (linkedSide M es .backend key).shmem = (linkedSide M es .frontend key).shmem
      · rw [if_neg (fun h => hcheck.mp h hshmem),
          remioConfigs_linked hadmits fun e he => mem_keysOf.mpr ⟨e, he, rfl⟩]
        constructor
        · intro h
          exact ⟨⟨hadmits, htotals, hshmem⟩, (Option.some.inj h).symm⟩
        · rintro ⟨-, rfl⟩
          rfl
      · rw [if_pos (hcheck.mpr hshmem)]
        exact ⟨nofun, fun h => absurd h.1.shmem hshmem⟩
    · rw [if_pos htotals]
      exact ⟨nofun, fun h => absurd h.1.totals htotals⟩
  · constructor
    · intro h
      obtain ⟨linked, hlinked, hrest⟩ := Option.bind_eq_some_iff.mp h
      obtain ⟨hstuck, hmarker⟩ := remioLinks_refused hadmits hlinked
      rw [remioConfigs_stuck hstuck.1 hmarker] at hrest
      split at hrest
      · cases hrest
      · split at hrest
        · cases hrest
        · cases hrest
    · exact fun h => absurd h.1.admits hadmits

/-! ## Pairing -/

/-- The key has exactly one backend and one frontend, which are linked to one device
that carries the key, with their VM, interrupt and shared memory. -/
def PairedDevice (es : List (Nat × RemioDev)) (devices : List RemioDevice) (key : Nat) : Prop :=
  ∃ device ∈ devices, device.bindKey = key ∧
    (∀ other ∈ devices, other.bindKey = key → other = device) ∧
    (∀ type, (es.map roleOf).count (type, key) = 1 ∧
      ∃ e ∈ es, roleOf e = (type, key) ∧ (device.side type).bindKey = key ∧
        (device.side type).vmId = e.1 ∧ (device.side type).interrupt = e.2.interrupt ∧
        (device.side type).shmem = e.2.shmem) ∧
    device.backend.shmem = device.frontend.shmem

/-- Where `remio_init` returns all keys that occur are paired. -/
def RejectsBadPairs (M : Machine) (devNum : Nat) (vmlist : List (List RemioDev)) : Prop :=
  ∀ devices, remioInit M devNum vmlist = some devices →
    ∀ key, (∃ e ∈ allRemioDevs vmlist, e.2.bindKey = key) →
      PairedDevice (allRemioDevs vmlist) devices key

/-- The configurations that slip through: all entries can be entered, the totals of
backends and frontends are equal, the two sides of a key agree on the shared memory,
and there are entries without an opposite side, all of which leave the shared memory
empty. -/
structure SlipsThrough (M : Machine) (devNum : Nat) (es : List (Nat × RemioDev)) : Prop where
  admits : AdmitsAll M devNum es
  totals : es.countP (fun e => e.2.type = .frontend) = es.countP (fun e => e.2.type = .backend)
  agree : ∀ a ∈ es, ∀ b ∈ es, a.2.bindKey = b.2.bindKey → a.2.shmem = b.2.shmem
  lone : ∃ a ∈ es, ¬ Configured es a.2.type.other a.2.bindKey
  empty : ∀ a ∈ es, ¬ Configured es a.2.type.other a.2.bindKey → a.2.shmem = ⟨0, 0, 0⟩

theorem AdmitsAll.once (h : AdmitsAll M devNum es) : (es.map roleOf).Nodup := by
  induction es using List.reverseRecOn with
  | nil => exact List.nodup_nil
  | append_singleton done e ih =>
    obtain ⟨hdone, hadmits⟩ := AdmitsAll.append.mp h
    rw [List.map_append, List.map_singleton]
    refine List.nodup_append.mpr ⟨ih hdone, List.nodup_singleton _, ?_⟩
    intro a ha b hb heq
    rw [List.mem_singleton] at hb
    obtain ⟨e', he', rfl⟩ := List.mem_map.mp ha
    exact hadmits.fresh ⟨e', he', heq.trans hb⟩

theorem entryOf_self (hnodup : (es.map roleOf).Nodup) (he : e ∈ es) :
    entryOf es e.2.type e.2.bindKey = some e := by
  cases h : entryOf es e.2.type e.2.bindKey with
  | none => exact absurd ⟨e, he, rfl⟩ (entryOf_none.mp h)
  | some a =>
    obtain ⟨ha, hrole⟩ := entryOf_some h
    rw [List.inj_on_of_nodup_map hnodup ha he hrole]

theorem linkedSide_shmem (hnodup : (es.map roleOf).Nodup) (he : e ∈ es) :
    (linkedSide M es e.2.type e.2.bindKey).shmem = e.2.shmem := by
  rw [linkedSide, entryOf_self hnodup he]

theorem shmem_sides (h : ∀ key ∈ keysOf es,
      (linkedSide M es .backend key).shmem = (linkedSide M es .frontend key).shmem)
    (he : e ∈ es) : (linkedSide M es e.2.type e.2.bindKey).shmem =
      (linkedSide M es e.2.type.other e.2.bindKey).shmem := by
  have hkey := h e.2.bindKey (mem_keysOf.mpr ⟨e, he, rfl⟩)
  cases e.2.type with
  | backend => exact hkey
  | frontend => exact hkey.symm

/-- **What slips through** is what is accepted with an entry without an opposite
side. -/
theorem slipsThrough_iff : SlipsThrough M devNum es ↔
    Accepted M devNum es ∧ ∃ a ∈ es, ¬ Configured es a.2.type.other a.2.bindKey := by
  constructor
  · intro h
    have hnodup := h.admits.once
    refine ⟨⟨h.admits, h.totals, fun key hkey => ?_⟩, h.lone⟩
    -- one side has an entry; the other one too, or it is empty
    have hside : ∀ type, Configured es type key →
        (linkedSide M es type key).shmem = (linkedSide M es type.other key).shmem := by
      rintro type ⟨a, ha, hrole⟩
      obtain ⟨rfl, rfl⟩ := Prod.mk.inj hrole
      rw [linkedSide_shmem hnodup ha]
      by_cases hconf : Configured es a.2.type.other a.2.bindKey
      · obtain ⟨b, hb, hrole'⟩ := hconf
        obtain ⟨htype, hkey'⟩ := Prod.mk.inj hrole'
        rw [← htype, ← hkey', linkedSide_shmem hnodup hb]
        exact h.agree a ha b hb hkey'.symm
      · rw [linkedSide_unlinked hconf]
        exact h.empty a ha hconf
    obtain ⟨type, hconf⟩ := exists_configured hkey
    cases type with
    | backend => exact hside _ hconf
    | frontend => exact (hside _ hconf).symm
  · rintro ⟨hacc, hlone⟩
    have hnodup := hacc.admits.once
    refine ⟨hacc.admits, hacc.totals, fun a ha b hb hkey => ?_, hlone, fun a ha hconf => ?_⟩
    · have hsides := shmem_sides hacc.shmem ha
      rw [linkedSide_shmem hnodup ha] at hsides
      rcases RemioDevType.eq_or_other a.2.type b.2.type with htype | htype
      · have hrole : roleOf a = roleOf b := Prod.ext htype.symm hkey
        rw [List.inj_on_of_nodup_map hnodup ha hb hrole]
      · rw [hsides, ← htype, hkey, linkedSide_shmem hnodup hb]
    · have hsides := shmem_sides hacc.shmem ha
      rw [linkedSide_shmem hnodup ha, linkedSide_unlinked hconf] at hsides
      exact hsides

/-- **An accepted configuration without lone entries is paired.** -/
theorem Accepted.paired (h : Accepted M devNum es)
    (hboth : ∀ a ∈ es, Configured es a.2.type.other a.2.bindKey) (hkey : key ∈ keysOf es) :
    PairedDevice es ((keysOf es).map (configuredDevice M es es)) key := by
  have hnodup := h.admits.once
  refine ⟨configuredDevice M es es key, List.mem_map_of_mem hkey, rfl, ?_, fun type => ?_, ?_⟩
  · intro other hother hsame
    obtain ⟨k, -, rfl⟩ := List.mem_map.mp hother
    obtain rfl : k = key := hsame
    rfl
  · have hconf : Configured es type key := by
      obtain ⟨type', a, ha, hrole⟩ := exists_configured hkey
      obtain ⟨rfl, rfl⟩ := Prod.mk.inj hrole
      rcases RemioDevType.eq_or_other a.2.type type with rfl | rfl
      · exact ⟨a, ha, rfl⟩
      · exact hboth a ha
    obtain ⟨e, he, hrole⟩ := hconf
    refine ⟨List.count_eq_one_of_mem hnodup ?_, e, he, hrole, ?_⟩
    · rw [← hrole]
      exact List.mem_map_of_mem he
    · obtain ⟨rfl, rfl⟩ := Prod.mk.inj hrole
      have hside : (configuredDevice M es es e.2.bindKey).side e.2.type =
          configuredSide M es e.2.type e.2.bindKey (linkedSide M es e.2.type e.2.bindKey) := by
        cases e.2.type with
        | backend => rfl
        | frontend => rfl
      rw [hside, configuredSide, entryOf_self hnodup he]
      exact ⟨linkedSide_configured ⟨e, he, rfl⟩, rfl, rfl, linkedSide_shmem hnodup he⟩
  · have hsame := h.shmem key hkey
    have hkeep : ∀ type side, (configuredSide M es type key side).shmem = side.shmem := by
      intro type side
      unfold configuredSide
      cases entryOf es type key with
      | none => rfl
      | some e => rfl
    change (configuredSide M es .backend key _).shmem = (configuredSide M es .frontend key _).shmem
    rw [hkeep, hkeep]
    exact hsame

/-- **All bad pairings are rejected** exactly where the configuration is not one of
those that slip through. -/
theorem remioInit_rejects_iff {vmlist : List (List RemioDev)} :
    RejectsBadPairs M devNum vmlist ↔ ¬ SlipsThrough M devNum (allRemioDevs vmlist) := by
  rw [slipsThrough_iff]
  constructor
  · rintro hrejects ⟨hacc, a, ha, hlone⟩
    obtain ⟨device, -, -, -, hsides, -⟩ := hrejects _ (remioInit_eq_some.mpr ⟨hacc, rfl⟩)
      a.2.bindKey ⟨a, ha, rfl⟩
    obtain ⟨-, e, he, hrole, -⟩ := hsides a.2.type.other
    exact hlone ⟨e, he, hrole⟩
  · intro hno devices hrun key hkey
    obtain ⟨hacc, rfl⟩ := remioInit_eq_some.mp hrun
    refine hacc.paired (fun a ha => ?_) (mem_keysOf.mpr hkey)
    exact Classical.byContradiction fun hlone => hno ⟨hacc, a, ha, hlone⟩

/-- A VM's device without shared memory. -/
def emptyDev (type : RemioDevType) (bindKey : Nat) : RemioDev where
  va := 0x50000000
  size := 0x1000
  interrupt := 47
  bindKey := bindKey
  type := type
  shmem := ⟨0, 0, 0⟩

/-- A backend with one key and a frontend with another one are accepted. -/
theorem remioInit_not_rejects :
    ¬ RejectsBadPairs Machine.mmu64 2 [[emptyDev .backend 1], [emptyDev .frontend 2]] := by
  intro h
  obtain ⟨devices, hrun⟩ : ∃ devices, remioInit Machine.mmu64 2
      [[emptyDev .backend 1], [emptyDev .frontend 2]] = some devices := ⟨_, rfl⟩
  obtain ⟨device, -, -, -, hsides, -⟩ := h devices hrun 1 ⟨(0, emptyDev .backend 1), by decide, rfl⟩
  exact absurd (hsides .frontend).1 (by decide)

end Bao

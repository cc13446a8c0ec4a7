import BaoHypervisor.Bitmap

/-!
# Object pools

A pool of `num` objects with one bit per slot, set while the slot is in use.
An object's address is its slot: slot `n` of the array is the pointer
`pool + objsize * n`.
-/

namespace Bao

open BitMemory

/-- `struct objpool` with its array of objects. -/
structure ObjPool (α : Type) where
  num : Nat
  bitmap : Store
  objs : Nat → α

namespace ObjPool

variable {α : Type}

/-- `objpool_init`: no slot in use, every object zero. -/
def objpoolInit (num : Nat) (zero : α) : ObjPool α where
  num := num
  bitmap := fun _ => false
  objs := fun _ => zero

/-- `objpool_alloc_with_id`: the slot and its id are the first clear bit. -/
def objpoolAllocWithId (p : ObjPool α) : Option (Nat × ObjPool α) :=
  match bitmapFindNth p.bitmap 0 p.num 1 0 false with
  | none => none
  | some n => some (n, { p with bitmap := bitmapSet p.bitmap 0 n })

/-- `objpool_get_by_id`. -/
def objpoolGetById (p : ObjPool α) (id : Nat) : Option Nat :=
  if id < p.num then some id else none

/-- `objpool_free` of the start of slot `n`. -/
def objpoolFree (p : ObjPool α) (n : Nat) : ObjPool α :=
  if n < p.num then { p with bitmap := bitmapClear p.bitmap 0 n } else p

/-- Write the object in slot `n`. -/
def setObj (p : ObjPool α) (n : Nat) (obj : α) : ObjPool α :=
  { p with objs := fun k => if k = n then obj else p.objs k }

/-- Slot `n` exists and is in use. -/
def Used (p : ObjPool α) (n : Nat) : Prop := n < p.num ∧ p.bitmap n = true

@[simp] theorem setObj_num (p : ObjPool α) (n : Nat) (obj : α) : (p.setObj n obj).num = p.num := rfl

@[simp] theorem setObj_used (p : ObjPool α) (n k : Nat) (obj : α) :
    (p.setObj n obj).Used k ↔ p.Used k := Iff.rfl

@[simp] theorem setObj_same (p : ObjPool α) (n : Nat) (obj : α) : (p.setObj n obj).objs n = obj :=
  if_pos rfl

theorem setObj_other {p : ObjPool α} {n k : Nat} {obj : α} (h : k ≠ n) :
    (p.setObj n obj).objs k = p.objs k :=
  if_neg h

theorem objpoolAllocWithId_some {p p' : ObjPool α} {n : Nat}
    (h : p.objpoolAllocWithId = some (n, p')) :
    n < p.num ∧ ¬ p.Used n ∧ p'.num = p.num ∧ p'.objs = p.objs ∧
      ∀ k, p'.Used k ↔ p.Used k ∨ k = n := by
  rw [objpoolAllocWithId] at h
  cases hfind : bitmapFindNth p.bitmap 0 p.num 1 0 false with
  | none => rw [hfind] at h; cases h
  | some i =>
      rw [hfind] at h
      obtain ⟨rfl, rfl⟩ := Prod.mk.inj (Option.some.inj h)
      obtain ⟨-, hlt, hclear, -⟩ := bitmapFindNth_one_some hfind
      rw [Nat.zero_add] at hclear
      refine ⟨hlt, fun hused => ?_, rfl, rfl, fun k => ?_⟩
      · rw [hused.2] at hclear
        cases hclear
      · unfold Used
        simp only [bitmapSet_eq, Nat.zero_add]
        by_cases hk : k = i
        · rw [hk, fill_inside (Nat.le_refl _) (by omega)]
          simp [hlt]
        · rw [fill_other (by omega)]
          simp [hk]

theorem objpoolGetById_some {p : ObjPool α} {id n : Nat} :
    p.objpoolGetById id = some n ↔ id < p.num ∧ n = id := by
  rw [objpoolGetById]
  by_cases h : id < p.num
  · simp [h, eq_comm]
  · simp [h]

@[simp] theorem objpoolFree_num (p : ObjPool α) (n : Nat) : (p.objpoolFree n).num = p.num := by
  unfold objpoolFree
  split <;> rfl

@[simp] theorem objpoolFree_objs (p : ObjPool α) (n : Nat) : (p.objpoolFree n).objs = p.objs := by
  unfold objpoolFree
  split <;> rfl

theorem objpoolFree_used (p : ObjPool α) (n k : Nat) :
    (p.objpoolFree n).Used k ↔ p.Used k ∧ k ≠ n := by
  by_cases hlt : n < p.num
  · rw [objpoolFree, if_pos hlt]
    unfold Used
    simp only [bitmapClear_eq, Nat.zero_add]
    by_cases hk : k = n
    · rw [hk, fill_inside (Nat.le_refl _) (by omega)]
      simp
    · rw [fill_other (by omega)]
      simp [hk]
  · rw [objpoolFree, if_neg hlt]
    unfold Used
    constructor
    · rintro ⟨hk, hbit⟩
      exact ⟨⟨hk, hbit⟩, by omega⟩
    · exact fun h => h.1

end ObjPool

end Bao

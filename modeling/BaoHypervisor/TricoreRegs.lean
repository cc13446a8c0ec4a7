import Mathlib.Data.Fin.VecNotation
import Mathlib.Data.Fintype.Basic
import Mathlib.Logic.Function.Basic
import Mathlib.Tactic.FinCases

/-!
# The registers of a guest on TriCore

`vcpu_readreg` and `vcpu_writereg` of `arch/tricore/vm.c`.  The general registers of a vCPU
are in its lower context, in its upper context and, for the four global ones, beside them.
The functions take the number of a register, `n` for `A[n]` and `16 + n` for `D[n]`, and
find its word through two tables.
-/

namespace Bao.Tricore

/-- A general register. -/
inductive TcReg
  | a (num : Fin 16)
  | d (num : Fin 16)
deriving DecidableEq

/-- The number of a register. -/
def TcReg.number : TcReg → Nat
  | a num => num
  | d num => num + 16

theorem TcReg.number_lt (r : TcReg) : r.number < 32 := by
  rcases r with num | num
  · exact Nat.lt_trans num.isLt (by decide)
  · exact Nat.add_lt_add_right num.isLt 16

/-- The words of `struct lower_context`. -/
inductive LowerWord
  | pcxi | a11 | a2 | a3 | d0 | d1 | d2 | d3 | a4 | a5 | a6 | a7 | d4 | d5 | d6 | d7
deriving DecidableEq

/-- The words of `struct upper_context`. -/
inductive UpperWord
  | pcxi | csaPsw | a10 | a11 | d8 | d9 | d10 | d11 | a12 | a13 | a14 | a15 | d12 | d13 | d14 | d15
deriving DecidableEq

/-- `struct arch_regs`. -/
structure ArchRegs where
  lowerCtx : LowerWord → BitVec 32
  upperCtx : UpperWord → BitVec 32
  a0 : BitVec 32
  a1 : BitVec 32
  a8 : BitVec 32
  a9 : BitVec 32

/-- `lower_array`: the words of the lower context in their order. -/
def lowerArray : List LowerWord :=
  [.pcxi, .a11, .a2, .a3, .d0, .d1, .d2, .d3, .a4, .a5, .a6, .a7, .d4, .d5, .d6, .d7]

/-- `upper_array`. -/
def upperArray : List UpperWord :=
  [.pcxi, .csaPsw, .a10, .a11, .d8, .d9, .d10, .d11, .a12, .a13, .a14, .a15, .d12, .d13, .d14, .d15]

/-- `CSA_SIZE`. -/
def csaSize : Nat := 16

/-- `NOT_IN_CSA`. -/
def notInCsa : Int := -1

/-- `a_lut`. -/
def aLut : List Int :=
  [notInCsa, notInCsa, 2, 3, 8, 9, 10, 11, notInCsa, notInCsa, 2, 3, 8, 9, 10, 11]

/-- `d_lut`. -/
def dLut : List Int := [4, 5, 6, 7, 12, 13, 14, 15, 4, 5, 6, 7, 12, 13, 14, 15]

/-- `a_reg ? reg : reg - CSA_SIZE`, on unsigned words. -/
def vcpuRegNum (reg : BitVec 32) : Nat :=
  if reg.toNat < 15 then reg.toNat else (reg - BitVec.ofNat 32 csaSize).toNat

/-- `vcpu_readreg`; `none` is its `ERROR`, or an index behind a table. -/
def vcpuReadreg (regs : ArchRegs) (reg : BitVec 32) : Option (BitVec 32) :=
  let aReg := decide (reg.toNat < 15)
  let regNum := vcpuRegNum reg
  if 32 < reg.toNat ∨ csaSize < regNum then none
  else if aReg ∧ aLut[regNum]? = some notInCsa then
    match regNum with
    | 0 => some regs.a0
    | 1 => some regs.a1
    | 8 => some regs.a8
    | 9 => some regs.a9
    | _ => some 0#32
  else
    let lut := if aReg then aLut else dLut
    lut[regNum]?.bind fun i =>
      if regNum < 8 then lowerArray[i.toNat]?.map regs.lowerCtx
      else upperArray[i.toNat]?.map regs.upperCtx

/-- `vcpu_writereg`. -/
def vcpuWritereg (regs : ArchRegs) (reg val : BitVec 32) : Option ArchRegs :=
  let aReg := decide (reg.toNat < 15)
  let regNum := vcpuRegNum reg
  if 32 < reg.toNat ∨ csaSize < regNum then none
  else if aReg ∧ aLut[regNum]? = some notInCsa then
    match regNum with
    | 0 => some { regs with a0 := val }
    | 1 => some { regs with a1 := val }
    | 8 => some { regs with a8 := val }
    | 9 => some { regs with a9 := val }
    | _ => some regs
  else
    let lut := if aReg then aLut else dLut
    lut[regNum]?.bind fun i =>
      if regNum < 8 then lowerArray[i.toNat]?.map fun word =>
        { regs with lowerCtx := Function.update regs.lowerCtx word val }
      else upperArray[i.toNat]?.map fun word =>
        { regs with upperCtx := Function.update regs.upperCtx word val }

/-- `vcpu_readpc`. -/
def vcpuReadpc (regs : ArchRegs) : BitVec 32 := regs.lowerCtx .a11

/-- `vcpu_writepc`. -/
def vcpuWritepc (regs : ArchRegs) (pc : BitVec 32) : ArchRegs :=
  { regs with lowerCtx := Function.update regs.lowerCtx .a11 pc }

/-! ## Where the registers are -/

/-- A word of `struct arch_regs`. -/
inductive RegWord
  | lower (word : LowerWord)
  | upper (word : UpperWord)
  | a0 | a1 | a8 | a9
deriving DecidableEq

/-- Where a trap leaves a register of the guest. -/
def TcReg.word : TcReg → RegWord
  | a num =>
      ![.a0, .a1, .lower .a2, .lower .a3, .lower .a4, .lower .a5, .lower .a6, .lower .a7, .a8, .a9,
        .upper .a10, .upper .a11, .upper .a12, .upper .a13, .upper .a14, .upper .a15] num
  | d num =>
      ![.lower .d0, .lower .d1, .lower .d2, .lower .d3, .lower .d4, .lower .d5, .lower .d6,
        .lower .d7, .upper .d8, .upper .d9, .upper .d10, .upper .d11, .upper .d12, .upper .d13,
        .upper .d14, .upper .d15] num

namespace ArchRegs

def get (regs : ArchRegs) : RegWord → BitVec 32
  | .lower word => regs.lowerCtx word
  | .upper word => regs.upperCtx word
  | .a0 => regs.a0
  | .a1 => regs.a1
  | .a8 => regs.a8
  | .a9 => regs.a9

def set (regs : ArchRegs) (word : RegWord) (val : BitVec 32) : ArchRegs :=
  match word with
  | .lower word => { regs with lowerCtx := Function.update regs.lowerCtx word val }
  | .upper word => { regs with upperCtx := Function.update regs.upperCtx word val }
  | .a0 => { regs with a0 := val }
  | .a1 => { regs with a1 := val }
  | .a8 => { regs with a8 := val }
  | .a9 => { regs with a9 := val }

variable (regs : ArchRegs) (val : BitVec 32)

@[simp] theorem get_set_same (word : RegWord) : (regs.set word val).get word = val := by
  cases word with
  | lower word => exact Function.update_self word val regs.lowerCtx
  | upper word => exact Function.update_self word val regs.upperCtx
  | a0 => rfl
  | a1 => rfl
  | a8 => rfl
  | a9 => rfl

theorem get_set_other {word other : RegWord} (h : other ≠ word) :
    (regs.set word val).get other = regs.get other := by
  cases word with
  | lower word =>
      cases other with
      | lower other => exact Function.update_of_ne (fun heq => h (congrArg _ heq)) val regs.lowerCtx
      | _ => rfl
  | upper word =>
      cases other with
      | upper other => exact Function.update_of_ne (fun heq => h (congrArg _ heq)) val regs.upperCtx
      | _ => rfl
  | _ => cases other <;> first | rfl | exact absurd rfl h

end ArchRegs

theorem TcReg.word_injective : Function.Injective TcReg.word := by
  intro r r' h
  rcases r with num | num <;> rcases r' with num' | num' <;> revert h <;> revert num num' <;> decide

/-- The access functions reach the register and no other word, and no other register is there. -/
structure TcReg.Reached (r : TcReg) : Prop where
  read : ∀ regs, vcpuReadreg regs (BitVec.ofNat 32 r.number) = some (regs.get r.word)
  written : ∀ regs val, ∃ regs', vcpuWritereg regs (BitVec.ofNat 32 r.number) val = some regs' ∧
    regs'.get r.word = val ∧ ∀ word, word ≠ r.word → regs'.get word = regs.get word
  alone : ∀ other : TcReg, other.word = r.word → other = r

theorem vcpuReadreg_eq {r : TcReg} (h : r ≠ .a 15) (regs : ArchRegs) :
    vcpuReadreg regs (BitVec.ofNat 32 r.number) = some (regs.get r.word) := by
  rcases r with num | num
  · fin_cases num <;> first | rfl | exact absurd rfl h
  · fin_cases num <;> rfl

theorem vcpuWritereg_eq {r : TcReg} (h : r ≠ .a 15) (regs : ArchRegs) (val : BitVec 32) :
    vcpuWritereg regs (BitVec.ofNat 32 r.number) val = some (regs.set r.word val) := by
  rcases r with num | num
  · fin_cases num <;> first | rfl | exact absurd rfl h
  · fin_cases num <;> rfl

theorem vcpuReadreg_a15 (regs : ArchRegs) :
    vcpuReadreg regs (BitVec.ofNat 32 (TcReg.a 15).number) = none := rfl

/-- **The registers that the access functions reach** are all but `A[15]`. -/
theorem TcReg.reached_iff {r : TcReg} : r.Reached ↔ r ≠ .a 15 := by
  constructor
  · rintro hreached rfl
    have hread := hreached.read ⟨fun _ => 0#32, fun _ => 0#32, 0#32, 0#32, 0#32, 0#32⟩
    rw [vcpuReadreg_a15] at hread
    cases hread
  · intro h
    refine ⟨vcpuReadreg_eq h, fun regs val => ⟨regs.set r.word val, vcpuWritereg_eq h regs val,
      regs.get_set_same val _, fun word hword => regs.get_set_other val hword⟩,
      fun other hword => TcReg.word_injective hword⟩

end Bao.Tricore

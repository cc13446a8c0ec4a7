import BaoHypervisor.SmmuV2
import BaoHypervisor.TricoreRegs

/-!
# Emulated accesses on TriCore

The decoder of `arch/tricore/decode.c` and the trap handler that calls it.  A guest's load or
store to an emulated device traps; `l2_dmem_prot_trap_handler` decodes the instruction,
steps over it and calls the device's handler.  What the instructions are is said by a table
after the comments of the decoder and the formats of the architecture.
-/

namespace Bao.Tricore

/-- `struct emul_access`. -/
structure TcAccess where
  addr : BitVec 32
  write : Bool
  signExt : Bool
  width : Nat
  reg : BitVec 32
  regWidth : Nat

/-- `decode_16b_access`. -/
def decode16bAccess (ins : BitVec 32) (emul : TcAccess) : Bool × TcAccess :=
  match (bit32Extract ins 0 8).toNat with
  | 0xD8 | 0xCC -- LD.A
  | 0xF8 | 0xEC => -- ST.A
      (true, { emul with reg := 15, regWidth := 4 })
  | 0xC4 | 0xD4 | 0xC8 -- LD.A
  | 0xE4 | 0xF4 | 0xE8 => -- ST.A
      (true, { emul with reg := bit32Extract ins 8 4, regWidth := 4 })
  | 0x0C -- LD.BU
  | 0x2C => -- ST.B
      (false, { emul with reg := 15 + 16, regWidth := 1 })
  | 0x04 | 0x14 | 0x08 -- LD.BU
  | 0x24 | 0x34 | 0x28 => -- ST.B
      (true, { emul with reg := bit32Extract ins 8 4 + 16, regWidth := 1 })
  | 0x8C -- LD.H
  | 0xAC => -- ST.H
      (true, { emul with regWidth := 2 })
  | 0x84 | 0x94 | 0x88 -- LD.H
  | 0xA4 | 0xB4 | 0xA8 => -- ST.H
      (true, { emul with reg := bit32Extract ins 8 4 + 16, regWidth := 2 })
  | 0x58 | 0x4C -- LD.W
  | 0x78 | 0x6C => -- ST.W
      (true, { emul with reg := 15 + 16, regWidth := 4 })
  | 0x44 | 0x54 | 0x48 -- LD.W
  | 0x64 | 0x74 | 0x68 => -- ST.W
      (true, { emul with reg := bit32Extract ins 8 4 + 16, regWidth := 4 })
  | _ => (false, emul)

/-- `decode_32b_access`. -/
def decode32bAccess (ins : BitVec 32) (emul : TcAccess) : Bool × TcAccess :=
  let subOpc := (bit32Extract ins 22 4).toNat
  let subOpc2 := (bit32Extract ins 26 2).toNat
  match (bit32Extract ins 0 8).toNat with
  | 0x85 -- LD.A / LD.W / LD.D / LD.DA
  | 0xA5 => -- ST.A / ST.W / ST.D / ST.DA
      (true, { emul with
        reg := if 1 < subOpc2 then bit32Extract ins 8 4 else bit32Extract ins 8 4 + 16
        regWidth := if subOpc2 % 2 = 0 then 4 else 8 })
  | 0x09 | 0x29 -- LD.B, LD.BU, LD.H, LD.HU, LD.W, LD.D, LD.A, LD.DA, LD.Q, LD.DD
  | 0xA9 | 0x89 => -- ST.B, ST.H, ST.W, ST.D, ST.A, ST.DA, ST.Q, ST.DD
      (true, { emul with
        reg := if subOpc = 0x6 ∨ subOpc = 0x7 then bit32Extract ins 8 4
          else bit32Extract ins 8 4 + 16
        regWidth := if subOpc = 0x0 then 1 else if subOpc = 0x9 then 16
          else if subOpc = 0x2 ∨ subOpc = 0x8 then 2 else if subOpc = 0x4 ∨ subOpc = 0x6 then 4
          else 8 })
  | 0xB5 -- ST.A
  | 0x99 => -- LD.A
      (true, { emul with reg := bit32Extract ins 8 4, regWidth := 4 })
  | 0x25 -- ST.B / ST.H
  | 0x05 => -- LD.B / LD.H / LD.BU / LD.HU
      (true, { emul with
        reg := bit32Extract ins 8 4 + 16
        regWidth := if subOpc2 < 2 then 1 else 2 })
  | 0xE9 -- ST.B
  | 0x79 | 0x39 => -- LD.B / LD.BU
      (true, { emul with reg := bit32Extract ins 8 4 + 16, regWidth := 1 })
  | 0xF9 -- ST.H
  | 0xB9 | 0xC9 => -- LD.H / LD.HU
      (true, { emul with reg := bit32Extract ins 8 4 + 16, regWidth := 2 })
  | 0x59 -- ST.W
  | 0x19 => -- LD.W
      (true, { emul with reg := bit32Extract ins 8 4 + 16, regWidth := 4 })
  | 0x65 -- ST.Q
  | 0x45 => -- LD.Q
      (true, { emul with reg := bit32Extract ins 8 4 + 16, regWidth := 2 })
  | 0xD5 => -- ST.T, with a warning
      (false, emul)
  | _ => (false, emul)

/-- A device's handler: the registers after the access; `none` when it fails, or stops in an
`ERROR`. -/
abbrev EmulHandler := TcAccess → ArchRegs → Option ArchRegs

/-- How a trap ends: with an `ERROR`, after a call of the device's handler, or without one. -/
inductive TrapOutcome
  | error
  | emulated (acc : TcAccess) (regs : ArchRegs)
  | skipped (regs : ArchRegs)

/-- The decoder for the length of the instruction, which is in the lowest bit. -/
def decodeTrapped (ins : BitVec 32) (emul : TcAccess) : Bool × TcAccess :=
  if (bit32Extract ins 0 8).toNat % 2 = 0 then decode16bAccess ins emul
  else decode32bAccess ins emul

/-- `l2_dmem_prot_trap_handler` for an access to `addr` by the instruction `ins`.  The local
`emul` has any contents at first. -/
def l2DmemProtTrapHandler (handler : Option EmulHandler) (addr ins isWrite : BitVec 32)
    (emul : TcAccess) (regs : ArchRegs) : TrapOutcome :=
  match handler with
  | none => .error
  | some handler =>
      let opcode := (bit32Extract ins 0 8).toNat
      let (reg, emul) := decodeTrapped ins emul
      let regs := vcpuWritepc regs (vcpuReadpc regs + if opcode % 2 = 0 then 2 else 4)
      if reg then
        let emul := { emul with
          addr := addr, width := emul.regWidth, write := isWrite != 0, signExt := false }
        match handler emul regs with
        | none => .error
        | some regs => .emulated emul regs
      else .skipped regs

/-! ## The loads and stores -/

/-- The loads and stores of the decoder's table that move a register. -/
inductive TcMnemonic
  | ldA | stA | ldDa | stDa
  | ldB | ldBu | stB | ldH | ldHu | stH | ldW | stW | ldD | stD | ldQ | stQ | ldDd | stDd

namespace TcMnemonic

/-- The bytes that it moves. -/
def width : TcMnemonic → Nat
  | ldB | ldBu | stB => 1
  | ldH | ldHu | stH | ldQ | stQ => 2
  | ldA | stA | ldW | stW => 4
  | ldDa | stDa | ldD | stD => 8
  | ldDd | stDd => 16

/-- The register that it moves. -/
def reg (m : TcMnemonic) (num : Fin 16) : TcReg :=
  match m with
  | ldA | stA | ldDa | stDa => .a num
  | _ => .d num

end TcMnemonic

/-- Where an instruction has its register and the rest of its opcode: the register is number
15, or in the bits 8 to 11; more of the opcode is in the bits 26 and 27 or 22 to 25. -/
inductive TcFormat
  | implicit
  | plain
  | abs (sub : Nat)
  | bo (sub : Nat)
deriving DecidableEq

namespace TcFormat

def num (format : TcFormat) (ins : BitVec 32) : Fin 16 :=
  match format with
  | implicit => 15
  | _ => (ins.extractLsb' 8 4).toFin

def Fits (format : TcFormat) (sub sub2 : Nat) : Prop :=
  match format with
  | abs n => sub2 = n
  | bo n => sub = n
  | _ => True

end TcFormat

/-- An entry of the decoder's table. -/
structure TcEntry where
  mnemonic : TcMnemonic
  opcodes : List Nat
  format : TcFormat

/-- The decoder's table.  ST.T is not in it: it moves no register. -/
def tcTable : List TcEntry :=
  [⟨.ldA, [0xD8, 0xCC], .implicit⟩, ⟨.stA, [0xF8, 0xEC], .implicit⟩,
    ⟨.ldA, [0xC4, 0xD4, 0xC8], .plain⟩, ⟨.stA, [0xE4, 0xF4, 0xE8], .plain⟩,
    ⟨.ldBu, [0x0C], .implicit⟩, ⟨.stB, [0x2C], .implicit⟩,
    ⟨.ldBu, [0x04, 0x14, 0x08], .plain⟩, ⟨.stB, [0x24, 0x34, 0x28], .plain⟩,
    ⟨.ldH, [0x8C], .implicit⟩, ⟨.stH, [0xAC], .implicit⟩,
    ⟨.ldH, [0x84, 0x94, 0x88], .plain⟩, ⟨.stH, [0xA4, 0xB4, 0xA8], .plain⟩,
    ⟨.ldW, [0x58, 0x4C], .implicit⟩, ⟨.stW, [0x78, 0x6C], .implicit⟩,
    ⟨.ldW, [0x44, 0x54, 0x48], .plain⟩, ⟨.stW, [0x64, 0x74, 0x68], .plain⟩,
    -- absolute addressing
    ⟨.ldW, [0x85], .abs 0⟩, ⟨.ldD, [0x85], .abs 1⟩, ⟨.ldA, [0x85], .abs 2⟩, ⟨.ldDa, [0x85], .abs 3⟩,
    ⟨.stW, [0xA5], .abs 0⟩, ⟨.stD, [0xA5], .abs 1⟩, ⟨.stA, [0xA5], .abs 2⟩, ⟨.stDa, [0xA5], .abs 3⟩,
    ⟨.ldB, [0x05], .abs 0⟩, ⟨.ldBu, [0x05], .abs 1⟩, ⟨.ldH, [0x05], .abs 2⟩, ⟨.ldHu, [0x05], .abs 3⟩,
    ⟨.stB, [0x25], .abs 0⟩, ⟨.stH, [0x25], .abs 2⟩, ⟨.stQ, [0x65], .plain⟩, ⟨.ldQ, [0x45], .plain⟩,
    -- base and short offset, and the circular and bit-reverse modes
    ⟨.ldB, [0x09, 0x29], .bo 0⟩, ⟨.ldBu, [0x09, 0x29], .bo 1⟩, ⟨.ldH, [0x09, 0x29], .bo 2⟩,
    ⟨.ldHu, [0x09, 0x29], .bo 3⟩, ⟨.ldW, [0x09, 0x29], .bo 4⟩, ⟨.ldD, [0x09, 0x29], .bo 5⟩,
    ⟨.ldA, [0x09, 0x29], .bo 6⟩, ⟨.ldDa, [0x09, 0x29], .bo 7⟩, ⟨.ldQ, [0x09, 0x29], .bo 8⟩,
    ⟨.ldDd, [0x09, 0x29], .bo 9⟩,
    ⟨.stB, [0xA9, 0x89], .bo 0⟩, ⟨.stH, [0xA9, 0x89], .bo 2⟩, ⟨.stW, [0xA9, 0x89], .bo 4⟩,
    ⟨.stD, [0xA9, 0x89], .bo 5⟩, ⟨.stA, [0xA9, 0x89], .bo 6⟩, ⟨.stDa, [0xA9, 0x89], .bo 7⟩,
    ⟨.stQ, [0xA9, 0x89], .bo 8⟩, ⟨.stDd, [0xA9, 0x89], .bo 9⟩,
    -- base and long offset
    ⟨.stA, [0xB5], .plain⟩, ⟨.ldA, [0x99], .plain⟩, ⟨.stB, [0xE9], .plain⟩, ⟨.ldB, [0x79], .plain⟩,
    ⟨.ldBu, [0x39], .plain⟩, ⟨.stH, [0xF9], .plain⟩, ⟨.ldH, [0xC9], .plain⟩, ⟨.ldHu, [0xB9], .plain⟩,
    ⟨.stW, [0x59], .plain⟩, ⟨.ldW, [0x19], .plain⟩]

/-- The instruction word is one of the entry. -/
def TcEntry.Encodes (e : TcEntry) (ins : BitVec 32) : Prop :=
  (bit32Extract ins 0 8).toNat ∈ e.opcodes ∧
    e.format.Fits (bit32Extract ins 22 4).toNat (bit32Extract ins 26 2).toNat

/-- The register that the instruction moves. -/
def TcEntry.reg (e : TcEntry) (ins : BitVec 32) : TcReg := e.mnemonic.reg (e.format.num ins)

/-- A successful decode of the word sets register and width to the instruction's. -/
def DecodedExactly (ins : BitVec 32) : Prop :=
  ∀ e ∈ tcTable, e.Encodes ins → ∀ emul, (decodeTrapped ins emul).1 = true →
    (decodeTrapped ins emul).2.reg = BitVec.ofNat 32 (e.reg ins).number ∧
    (decodeTrapped ins emul).2.regWidth = e.mnemonic.width

/-- The trap handler emulates the instruction on its register with its width, or reports an
error. -/
def HandledExactly (ins : BitVec 32) : Prop :=
  ∀ handler addr isWrite emul regs,
    l2DmemProtTrapHandler handler addr ins isWrite emul regs = .error ∨
    ∃ e ∈ tcTable, e.Encodes ins ∧ ∃ acc regs',
      l2DmemProtTrapHandler handler addr ins isWrite emul regs = .emulated acc regs' ∧
      acc.reg = BitVec.ofNat 32 (e.reg ins).number ∧ acc.width = e.mnemonic.width

/-- The entries that the decoder has wrong: the 16-bit LD.BU, ST.B, LD.H and ST.H of `D[15]`,
and LD.BU and LD.HU with a short offset. -/
def DecodeSlip (ins : BitVec 32) : Prop :=
  (bit32Extract ins 0 8).toNat ∈ [0x0C, 0x2C, 0x8C, 0xAC] ∨
    (bit32Extract ins 0 8).toNat ∈ [0x09, 0x29] ∧ (bit32Extract ins 22 4).toNat ∈ [1, 3]

/-! ## The decoder against the table -/

section Decode

variable {ins : BitVec 32} {emul : TcAccess} {e : TcEntry}

theorem bit32Extract_a (ins : BitVec 32) :
    bit32Extract ins 8 4 = BitVec.ofNat 32 (TcReg.a (ins.extractLsb' 8 4).toFin).number := by
  have hnumber : (TcReg.a (ins.extractLsb' 8 4).toFin).number = (ins.extractLsb' 8 4).toNat := rfl
  apply BitVec.eq_of_getLsbD_eq
  intro i hi
  rw [getLsbD_bit32Extract ins 8 (by decide) (by decide), hnumber, BitVec.getLsbD_ofNat,
    BitVec.testBit_toNat, BitVec.getLsbD_extractLsb', decide_eq_true hi, Bool.true_and]

theorem bit32Extract_d (ins : BitVec 32) :
    bit32Extract ins 8 4 + 16 =
      BitVec.ofNat 32 (TcReg.d (ins.extractLsb' 8 4).toFin).number := by
  rw [bit32Extract_a]
  exact (BitVec.ofNat_add _ 16).symm

/-- **Every entry of the table that is not a slip is decoded to its register and width.** -/
theorem decodeTrapped_of_mem (he : e ∈ tcTable) (hins : e.Encodes ins) (hok : ¬ DecodeSlip ins) :
    decodeTrapped ins emul = (true, { emul with
      reg := BitVec.ofNat 32 (e.reg ins).number
      regWidth := e.mnemonic.width }) := by
  obtain ⟨hop, hfits⟩ := hins
  unfold DecodeSlip at hok
  unfold decodeTrapped decode16bAccess decode32bAccess TcEntry.reg
  rw [bit32Extract_d, bit32Extract_a]
  generalize (bit32Extract ins 0 8).toNat = opcode at *
  generalize (bit32Extract ins 22 4).toNat = sub at *
  generalize (bit32Extract ins 26 2).toNat = sub2 at *
  fin_cases he <;> fin_cases hop <;>
    first
    | rfl
    | exact absurd (Or.inl (by decide)) hok
    | (cases hfits; rfl)
    | (cases hfits; exact absurd (Or.inr (by decide)) hok)

theorem decodedExactly_of_ok (hok : ¬ DecodeSlip ins) : DecodedExactly ins := by
  intro e he hins emul _
  rw [decodeTrapped_of_mem he hins hok]
  exact ⟨rfl, rfl⟩

theorem handledExactly_of_ok (he : e ∈ tcTable) (hins : e.Encodes ins) (hok : ¬ DecodeSlip ins) :
    HandledExactly ins := by
  intro handler addr isWrite emul regs
  cases handler with
  | none => exact Or.inl rfl
  | some handler =>
      simp only [l2DmemProtTrapHandler, decodeTrapped_of_mem he hins hok, if_true]
      split
      · exact Or.inl rfl
      · exact Or.inr ⟨e, he, hins, _, _, rfl, rfl, rfl⟩

/-- A device that does every access. -/
def acceptAll : EmulHandler := fun _ regs => some regs

theorem HandledExactly.decoded (h : HandledExactly ins) (emul : TcAccess) :
    ∃ e ∈ tcTable, e.Encodes ins ∧ (decodeTrapped ins emul).1 = true ∧
      (decodeTrapped ins emul).2.reg = BitVec.ofNat 32 (e.reg ins).number ∧
      (decodeTrapped ins emul).2.regWidth = e.mnemonic.width := by
  have hout := h (some acceptAll) 0 0 emul ⟨fun _ => 0, fun _ => 0, 0, 0, 0, 0⟩
  simp only [l2DmemProtTrapHandler, acceptAll] at hout
  split at hout
  · rename_i hdecoded
    rcases hout with herr | ⟨e, he, hins, acc, regs', hacc, hreg, hwidth⟩
    · cases herr
    · cases hacc
      exact ⟨e, he, hins, hdecoded, hreg, hwidth⟩
  · rcases hout with herr | ⟨e, he, hins, acc, regs', hacc, _⟩
    · cases herr
    · cases hacc

theorem decode_halfword_slip (hop : (bit32Extract ins 0 8).toNat ∈ [0x8C, 0xAC])
    (emul : TcAccess) : (decodeTrapped ins emul).2.reg = emul.reg := by
  unfold decodeTrapped decode16bAccess
  generalize (bit32Extract ins 0 8).toNat = opcode at *
  fin_cases hop <;> rfl

theorem decode_byte_slip (hop : (bit32Extract ins 0 8).toNat ∈ [0x0C, 0x2C]) (emul : TcAccess) :
    (decodeTrapped ins emul).1 = false := by
  unfold decodeTrapped decode16bAccess
  generalize (bit32Extract ins 0 8).toNat = opcode at *
  fin_cases hop <;> rfl

theorem decode_unsigned_slip (hop : (bit32Extract ins 0 8).toNat ∈ [0x09, 0x29])
    (hsub : (bit32Extract ins 22 4).toNat ∈ [1, 3]) (emul : TcAccess) :
    (decodeTrapped ins emul).2.regWidth = 8 := by
  unfold decodeTrapped decode32bAccess
  generalize (bit32Extract ins 0 8).toNat = opcode at *
  generalize (bit32Extract ins 22 4).toNat = sub at *
  fin_cases hop <;> fin_cases hsub <;> rfl

theorem format_of_width_eight (he : e ∈ tcTable) (hwidth : e.mnemonic.width = 8) {opcode : Nat}
    (hop : opcode ∈ [0x09, 0x29]) (hmem : opcode ∈ e.opcodes) :
    e.format = .bo 5 ∨ e.format = .bo 7 := by
  have hall : ∀ opcode ∈ [0x09, 0x29], ∀ e ∈ tcTable, e.mnemonic.width = 8 →
      opcode ∈ e.opcodes → e.format = .bo 5 ∨ e.format = .bo 7 := by decide
  exact hall opcode hop e he hwidth hmem

theorem not_slip_of_handled (h : HandledExactly ins) : ¬ DecodeSlip ins := by
  -- the local variable of the handler may hold a number that no register has
  obtain ⟨e, he, hins, hret, hreg, hwidth⟩ := h.decoded ⟨0, false, false, 0, 32, 0⟩
  rintro (hop | ⟨hop, hsub⟩)
  · by_cases hbyte : (bit32Extract ins 0 8).toNat ∈ [0x0C, 0x2C]
    · rw [decode_byte_slip hbyte] at hret
      cases hret
    · have hhalf : (bit32Extract ins 0 8).toNat ∈ [0x8C, 0xAC] := by
        simp only [List.mem_cons, List.not_mem_nil, or_false] at hop hbyte ⊢
        omega
      rw [decode_halfword_slip hhalf] at hreg
      have hnat := congrArg BitVec.toNat hreg
      rw [BitVec.toNat_ofNat, Nat.mod_eq_of_lt] at hnat
      · exact absurd hnat.symm (Nat.ne_of_lt (e.reg ins).number_lt)
      · exact Nat.lt_trans (e.reg ins).number_lt (by decide)
  · rw [decode_unsigned_slip hop hsub] at hwidth
    have hfits := hins.2
    rcases format_of_width_eight he hwidth.symm hop hins.1 with hformat | hformat
    · rw [hformat] at hfits
      rw [show (bit32Extract ins 22 4).toNat = 5 from hfits] at hsub
      revert hsub
      decide
    · rw [hformat] at hfits
      rw [show (bit32Extract ins 22 4).toNat = 7 from hfits] at hsub
      revert hsub
      decide

end Decode

/-- **When decoding and trap handling are exact**: for the loads and stores of the table but
the slips; the registers that can then be accessed are all but `A[15]`. -/
theorem tricore_access_exact_iff (ins : BitVec 32) (r : TcReg) :
    (DecodedExactly ins ∧ HandledExactly ins ↔
      (∃ e ∈ tcTable, e.Encodes ins) ∧ ¬ DecodeSlip ins) ∧
    (r.Reached ↔ r ≠ .a 15) := by
  refine ⟨⟨fun ⟨_, hhandled⟩ => ?_, fun ⟨⟨e, he, hins⟩, hok⟩ => ?_⟩, TcReg.reached_iff⟩
  · obtain ⟨e, he, hins, _⟩ := hhandled.decoded ⟨0, false, false, 0, 0, 0⟩
    exact ⟨⟨e, he, hins⟩, not_slip_of_handled hhandled⟩
  · exact ⟨decodedExactly_of_ok hok, handledExactly_of_ok he hins hok⟩

/-- A load of an unsigned byte, `LD.BU D[15], [A0]0`, is skipped; a load of an unsigned
half-word, `LD.HU D[0], [A0]0`, is decoded as one of a double-word; and `A[15]` cannot be
read. -/
theorem tricore_access_slips :
    (∀ handler addr isWrite emul regs,
      l2DmemProtTrapHandler (some handler) addr 0x000C#32 isWrite emul regs =
        .skipped (vcpuWritepc regs (vcpuReadpc regs + 2))) ∧
    ¬ HandledExactly 0x000C#32 ∧ ¬ DecodedExactly 0x08C00009#32 ∧ ¬ (TcReg.a 15).Reached := by
  refine ⟨fun handler addr isWrite emul regs => rfl, fun h => ?_, fun h => ?_, fun h => ?_⟩
  · exact not_slip_of_handled h (Or.inl (by decide))
  · have hsub : (bit32Extract 0x08C00009#32 22 4).toNat = 3 := by decide
    have hdecoded := h ⟨.ldHu, [0x09, 0x29], .bo 3⟩ (by simp [tcTable]) ⟨by decide, hsub⟩
      ⟨0, false, false, 0, 0, 0⟩ rfl
    exact absurd hdecoded.2 (by decide)
  · exact TcReg.reached_iff.mp h rfl

end Bao.Tricore

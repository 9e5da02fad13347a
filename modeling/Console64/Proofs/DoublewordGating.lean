import Console64.Proofs.DecodeAgreement
import Console64.Proofs.FirstVisit

/-!
# 64-bit operations are gated

Outside kernel mode the instructions on doublewords are reserved unless 64-bit addressing
is on.  Every one of them asks before it does anything else, so that a program that may not
use it finds nothing changed, with two exceptions: the moves between a general register and
a doubleword of the floating-point unit do not ask.

## Key results

- `Instruction.isDoubleword`: the instructions on doublewords
- `Machine.execute_of_gated`: all but two of them raise an exception and do nothing else
- `Machine.doubleword_refused_iff`: the same by both ways to carry them out, and what the
  two moves do instead
-/

namespace Console64

namespace Instruction

/-! ## Instructions on doublewords -/

/-- The opcodes of immediate arithmetic, loads and stores on doublewords. -/
def doublewordOpcodes : List UInt32 :=
  [0x18, 0x19, 0x1A, 0x1B, 0x27, 0x2C, 0x2D, 0x34, 0x37, 0x3C, 0x3F]

example : doublewordOpcodes.map (fun op => nameIn primaryNames op.toNat) =
    ["DADDI", "DADDIU", "LDL", "LDR", "LWU", "SDL", "SDR", "LLD", "LD", "SCD", "SD"] := by
  decide

/-- The function codes of shifts, multiplication, division and arithmetic on doublewords. -/
def doublewordFunctions : List UInt32 :=
  [0x14, 0x16, 0x17, 0x1C, 0x1D, 0x1E, 0x1F, 0x2C, 0x2D, 0x2E, 0x2F, 0x38, 0x3A, 0x3B, 0x3C,
    0x3E, 0x3F]

example : doublewordFunctions.map (fun f => nameIn specialNames f.toNat) =
    ["DSLLV", "DSRLV", "DSRAV", "DMULT", "DMULTU", "DDIV", "DDIVU", "DADD", "DADDU", "DSUB",
      "DSUBU", "DSLL", "DSRL", "DSRA", "DSLL32", "DSRL32", "DSRA32"] := by
  decide

/-- The instruction moves a doubleword from a coprocessor (1) or to it (5). -/
def movesDoubleword (i : Instruction) : Bool := i.fmt = 0x01 || i.fmt = 0x05

/-- The instruction works on doublewords. -/
def isDoubleword (i : Instruction) : Bool :=
  if i.opcode = 0x00 then doublewordFunctions.contains i.funct
  else if i.opcode = 0x10 || i.opcode = 0x11 then i.movesDoubleword
  else doublewordOpcodes.contains i.opcode

/-- DMFC1 and DMTC1: the doubleword is in the floating-point unit. -/
def movesFloatDoubleword (i : Instruction) : Bool := i.opcode = 0x11 && i.movesDoubleword

/-- The coprocessor that the instruction belongs to, if it is one of the two. -/
def coprocessor? (i : Instruction) : Option UInt8 :=
  if i.opcode = 0x10 then some 0 else if i.opcode = 0x11 then some 1 else none

end Instruction

/-! ## Asking first -/

namespace Cpu

section
variable {c : Cpu}

/-- The first condition of an instruction is noted, and nothing else happens. -/
theorem raise_of_clear (h : c.cop0.pending = none) (code : ExceptionCode) :
    c.raise code = { c with cop0.pending := some (.general code) } := by
  simp only [raise, recordCondition, Cop0.recordCondition, h, Option.any_none,
    Bool.false_eq_true, ↓reduceIte, Condition.faultAddress]

/-- An instruction that needs 64 bits is refused where they are not allowed, -/
theorem ifWide_of_narrow (h : c.cop0.wideOperations = false) (f : Cpu → Cpu) :
    c.ifWide f = c.raise .reservedInstruction := by
  rw [ifWide, h, if_neg Bool.false_ne_true]

/-- Every function code on doublewords asks first. -/
private theorem performSpecial_of_narrow (h : c.cop0.wideOperations = false) {i : Instruction}
    (hfunct : i.funct ∈ Instruction.doublewordFunctions) (pc : UInt64) :
    c.performSpecial i pc = c.raise .reservedInstruction := by
  simp only [Instruction.doublewordFunctions, List.mem_cons, List.not_mem_nil, or_false] at hfunct
  rcases hfunct with hf | hf | hf | hf | hf | hf | hf | hf | hf | hf | hf | hf | hf | hf | hf |
    hf | hf <;> simp only [performSpecial, hf, ifWide_of_narrow h]

/-- So do the moves of doublewords from and to the system control coprocessor. -/
private theorem performCop0_of_narrow (h : c.cop0.wideOperations = false) {i : Instruction}
    (husable : c.cop0.status.usable 0 = true) (hmove : i.movesDoubleword = true) :
    c.performCop0 i = c.raise .reservedInstruction := by
  have hfmt : i.fmt = 0x01 ∨ i.fmt = 0x05 := by simpa [Instruction.movesDoubleword] using hmove
  rw [performCop0, husable, Bool.not_true, Bool.and_false, if_neg Bool.false_ne_true]
  rcases hfmt with hfmt | hfmt <;> simp only [hfmt, ifWide_of_narrow h]

end

/-- The moves of a doubleword between a general register and the floating-point unit. -/
def moveFloatDoubleword (c : Cpu) (i : Instruction) : Cpu :=
  if i.fmt = 0x01 then c.setGpr i.rt (c.fpu.readDouble i.fs)
  else { c with fpu := c.fpu.writeDouble i.fs (c.reg i.rt) }

/-- The moves note nothing. -/
theorem pending_moveFloatDoubleword (c : Cpu) (i : Instruction) :
    (c.moveFloatDoubleword i).cop0.pending = c.cop0.pending := by
  simp only [moveFloatDoubleword]
  split <;> rfl

end Cpu

namespace Machine

variable {m : Machine}

/-- The machine with a reserved instruction noted, and nothing else changed. -/
def refusing (m : Machine) : Machine :=
  { m with cpu := { m.cpu with cop0.pending := some (.general .reservedInstruction) } }

/-- and so is one that accesses memory. -/
theorem ifWide_of_narrow (h : m.cpu.cop0.wideOperations = false) (x : MachineM Unit) :
    ifWide x m = .ok () ⟨m.cpu.raise .reservedInstruction, m.bus⟩ := by
  have hasked : withCpu (·.cop0.wideOperations) m = .ok false m := by
    rw [← h]
    rfl
  rw [ifWide, bind_of_ok hasked]
  rfl

/-- An instruction inside the CPU leaves the bus alone. -/
private theorem execute_perform {i : Instruction} {c : Cpu} (pc : UInt64)
    (hop : i.opcode ∈ ([0x00, 0x10, 0x11, 0x18, 0x19] : List UInt32))
    (h : m.cpu.perform i pc = c) : execute i pc m = .ok () ⟨c, m.bus⟩ := by
  simp only [List.mem_cons, List.not_mem_nil, or_false] at hop
  subst h
  rcases hop with hop | hop | hop | hop | hop <;> simp only [execute, hop] <;> rfl

/-- All but two instructions on doublewords raise an exception and do nothing else. -/
theorem execute_of_gated {i : Instruction} (hdouble : i.isDoubleword = true)
    (hgated : i.movesFloatDoubleword = false) (hwide : m.cpu.cop0.wideOperations = false)
    (husable : ∀ unit, i.coprocessor? = some unit → m.cpu.cop0.status.usable unit = true)
    (pc : UInt64) :
    execute i pc m = .ok () ⟨m.cpu.raise .reservedInstruction, m.bus⟩ := by
  have hnarrow := Cpu.ifWide_of_narrow hwide
  rw [Instruction.isDoubleword] at hdouble
  split at hdouble
  case isTrue hop =>
    refine execute_perform pc (by simp [hop]) ?_
    simp only [Cpu.perform, hop]
    exact Cpu.performSpecial_of_narrow hwide (List.contains_iff_mem.mp hdouble) pc
  case isFalse hspecial =>
    split at hdouble
    case isTrue hmove =>
      have hfloat : i.opcode ≠ 0x11 := by
        simpa [Instruction.movesFloatDoubleword, hdouble] using hgated
      have hop : i.opcode = 0x10 := by simpa [hfloat] using hmove
      refine execute_perform pc (by simp [hop]) ?_
      simp only [Cpu.perform, hop]
      exact Cpu.performCop0_of_narrow hwide (husable 0 (by simp [Instruction.coprocessor?, hop]))
        hdouble
    case isFalse =>
      -- The others are opcodes of their own, inside the CPU or with memory
      have hop := List.contains_iff_mem.mp hdouble
      simp only [Instruction.doublewordOpcodes, List.mem_cons, List.not_mem_nil, or_false] at hop
      rcases hop with hop | hop | hop | hop | hop | hop | hop | hop | hop | hop | hop
      case inl | inr.inl =>
        refine execute_perform pc (by simp [hop]) ?_
        simp only [Cpu.perform, hop, hnarrow]
      all_goals simp only [execute, hop, ifWide_of_narrow hwide]

/-- The two others move a doubleword if only their unit is usable. -/
theorem execute_floatMove {i : Instruction} (hmove : i.movesFloatDoubleword = true)
    (husable : m.cpu.cop0.status.usable 1 = true) (pc : UInt64) :
    execute i pc m = .ok () ⟨m.cpu.followStatus.moveFloatDoubleword i, m.bus⟩ := by
  obtain ⟨hop, hfmt⟩ : i.opcode = 0x11 ∧ (i.fmt = 0x01 ∨ i.fmt = 0x05) := by
    simpa [Instruction.movesFloatDoubleword, Instruction.movesDoubleword] using hmove
  refine execute_perform pc (by simp [hop]) ?_
  simp only [Cpu.perform, hop, Cpu.ifFpuUsable, husable, ↓reduceIte]
  rcases hfmt with hfmt | hfmt <;> simp only [Cpu.performFpu, Cpu.moveFloatDoubleword, hfmt] <;> rfl

/-- The work of an instruction on doublewords where those are off, its coprocessor is usable
and nothing is noted.  Decoded or not, it does the same.  It notes a reserved instruction and
changes nothing else, neither a register nor memory, exactly if it is not a move between a
general register and a doubleword of the floating-point unit.  Those two moves are done. -/
theorem doubleword_refused_iff {word : UInt32} (hdouble : (Instruction.mk word).isDoubleword = true)
    (hwide : m.cpu.cop0.wideOperations = false)
    (husable : ∀ unit, (Instruction.mk word).coprocessor? = some unit →
      m.cpu.cop0.status.usable unit = true)
    (hclear : m.cpu.cop0.pending = none) (pc : UInt64) :
    runOp (Op.decode word) pc m = execute ⟨word⟩ pc m ∧
    (execute ⟨word⟩ pc m = .ok () m.refusing ↔
      (Instruction.mk word).movesFloatDoubleword = false) ∧
    ((Instruction.mk word).movesFloatDoubleword = true →
      execute ⟨word⟩ pc m = .ok () ⟨m.cpu.followStatus.moveFloatDoubleword ⟨word⟩, m.bus⟩) := by
  have hmoves : (Instruction.mk word).movesFloatDoubleword = true →
      execute ⟨word⟩ pc m = .ok () ⟨m.cpu.followStatus.moveFloatDoubleword ⟨word⟩, m.bus⟩ := by
    intro hmove
    have hop : (Instruction.mk word).opcode = 0x11 := by
      have h := hmove
      simp only [Instruction.movesFloatDoubleword, Bool.and_eq_true, decide_eq_true_eq] at h
      exact h.1
    exact execute_floatMove hmove (husable 1 (by simp [Instruction.coprocessor?, hop])) pc
  refine ⟨by rw [runOp_decode], ⟨fun hrefused => ?_, fun hgated => ?_⟩, hmoves⟩
  · cases hmove : (Instruction.mk word).movesFloatDoubleword with
    | false => rfl
    | true =>
      -- After a move nothing is noted
      have hpending := congrArg (fun r => (stateOf r).cpu.cop0.pending)
        ((hmoves hmove).symm.trans hrefused)
      simp only [stateOf_ok, Cpu.pending_moveFloatDoubleword] at hpending
      exact nomatch hclear.symm.trans hpending
  · rw [execute_of_gated hdouble hgated hwide husable pc, Cpu.raise_of_clear hclear]
    rfl

/-- A user program under 32-bit addressing that may use the floating-point unit. -/
def narrowUser : Machine :=
  let m := loaded 0 [(8, 0x123456789ABCDEF0)] []
  { m with cpu := m.cpu.writeStatus 0x20000010 }

/-- A load of a doubleword is refused there. -/
theorem narrowUser_refused :
    runOp (Op.decode 0xDD090000) 0 narrowUser = .ok () narrowUser.refusing ∧
      execute ⟨0xDD090000⟩ 0 narrowUser = .ok () narrowUser.refusing := by
  obtain ⟨hdecoded, hrefused, -⟩ := @doubleword_refused_iff narrowUser 0xDD090000
    (by decide +kernel) (by decide +kernel) (fun unit h => nomatch h) (by decide +kernel) 0
  have hexecute := hrefused.mpr (by decide +kernel)
  exact ⟨hdecoded.trans hexecute, hexecute⟩

/-- A move of a doubleword to the floating-point unit is not: no exception is noted, and the
register of the unit holds all 64 bits. -/
theorem narrowUser_moves :
    (Instruction.mk 0x44A81000).isDoubleword = true ∧
      narrowUser.cpu.cop0.wideOperations = false ∧
      narrowUser.cpu.cop0.status.usable 1 = true ∧ narrowUser.cpu.cop0.pending = none ∧
      narrowUser.cpu.fpu.readDouble 2 = 0 ∧
      ∃ m', execute ⟨0x44A81000⟩ 0 narrowUser = .ok () m' ∧
        runOp (Op.decode 0x44A81000) 0 narrowUser = .ok () m' ∧
        m'.cpu.cop0.pending = none ∧ m'.cpu.fpu.readDouble 2 = 0x123456789ABCDEF0 := by
  refine ⟨by decide +kernel, by decide +kernel, by decide +kernel, by decide +kernel,
    by decide +kernel, _, rfl, ?_, by decide +kernel, by decide +kernel⟩
  rw [runOp_decode]
  rfl

end Machine

end Console64

import Console64.Proofs.AddressMapping
import Console64.Proofs.BranchForm
import Mathlib.Data.Nat.Init

/-!
# What an instruction can do to the CPU

An instruction either raises an exception, and then it has changed nothing but what
describes the exception, or it raises none, and then, outside the system control
coprocessor, it leaves the TLB and nearly all of that coprocessor alone.  Only branches
redirect the flow of control.

## Key results

- `Cpu.Raised` / `Cpu.Completed`: the two ways in which an instruction goes
- `Cpu.perform_effect`: every instruction inside the CPU goes one of them
- `Cpu.performCop0_effect`: the same for the system control coprocessor
- `Fpu.execute_trapsClean`: a trapping operation keeps the floating-point registers
-/

namespace Console64

/-- The condition comes from the instruction itself, not from outside. -/
def Condition.Synchronous : Condition → Prop
  | .reset | .cacheError => False
  | _ => True

/-! ## The floating-point unit -/

namespace Fpu

/-- If the operation traps, it has changed no more than the control word. -/
def TrapsClean (u : Fpu) (result : Fpu × Bool) : Prop :=
  result.2 = true → result.1.registers = u.registers ∧ result.1.wide = u.wide

/-- The causes are recorded, and tested, before the result is written. -/
private theorem complete_trapsClean (u : Fpu) (cause : UInt32) (write : Fpu → Fpu) :
    u.TrapsClean (u.complete cause write) := by
  simp only [TrapsClean, complete, commit]
  split
  case h_1 hcommit =>
    split at hcommit <;> cases hcommit
    -- The commit has refused, so the unit is as it was but for the control word
    exact fun _ => ⟨rfl, rfl⟩
  case h_2 => exact fun h => nomatch h

/-- Conversions to integers are completed like the other operations, also where they are refused. -/
private theorem toInteger_trapsClean (u : Fpu) (i : Instruction) (f : FloatFormat)
    (mode : RoundingMode) (long : Bool) : u.TrapsClean (u.toInteger i f mode long) := by
  simp only [toInteger, unimplemented]
  repeat' split
  all_goals exact complete_trapsClean u _ _

/-- So are all operations on floating-point numbers. -/
private theorem executeFloat_trapsClean (u : Fpu) (i : Instruction) (f : FloatFormat) :
    u.TrapsClean (u.executeFloat i f) := by
  simp only [executeFloat]
  -- One case for each operation, each rounding mode and each kind of comparison
  repeat' split
  all_goals first
    | exact toInteger_trapsClean u i f _ _
    | exact complete_trapsClean u _ _

/-- An operation that traps keeps the registers. -/
theorem execute_trapsClean (u : Fpu) (i : Instruction) : u.TrapsClean (u.execute i) := by
  simp only [execute]
  split
  · exact executeFloat_trapsClean u i _
  · split
    · simp only [executeInteger]
      split <;> exact complete_trapsClean u _ _
    · exact complete_trapsClean u _ _

/-- A new control word may trap by itself; the registers are not its business. -/
theorem writeControl_trapsClean (u : Fpu) (r : RegisterIndex) (v : UInt32) :
    u.TrapsClean (u.writeControl r v) := by
  simp only [writeControl]
  split <;> exact fun _ => ⟨rfl, rfl⟩

end Fpu

namespace Cpu

/-! ## The two ways -/

/-- The instruction has raised an exception and done nothing else: of the floating-point
unit the control word may tell the reason, and its register mode follows the status. -/
def Raised (c c' : Cpu) : Prop :=
  ∃ (k : Condition) (fpu : Fpu), k.Synchronous ∧ fpu.registers = c.fpu.registers ∧
    (fpu.wide = c.fpu.wide ∨ fpu.wide = c.cop0.status.fr) ∧
    c' = ({ c with fpu } : Cpu).recordCondition k

/-- The instruction has raised no exception.  The TLB is the same, and so is the system
control coprocessor, where a linked load may have left its address. -/
structure Completed (i : Instruction) (pc : UInt64) (c c' : Cpu) : Prop where
  tlb : c'.tlb = c.tlb
  cop0 : c'.cop0 = c.cop0 ∨ ∃ v, c'.cop0 = c.cop0.put Cop0.linkAddress v
  /-- Only branches redirect the flow of control. -/
  flow : i.branch? pc = none → c'.flow = c.flow

/-- The instruction has gone one of the two ways. -/
def Effect (i : Instruction) (pc : UInt64) (c c' : Cpu) : Prop :=
  c.Raised c' ∨ Completed i pc c c'

/-! ## Steps of an instruction -/

/-- To record a condition of its own is all that the instruction does then. -/
theorem raised_recordCondition (c : Cpu) {k : Condition} (h : k.Synchronous) :
    c.Raised (c.recordCondition k) := ⟨k, c.fpu, h, rfl, .inl rfl, rfl⟩

/-- So is to raise an exception. -/
theorem raised_raise (c : Cpu) (code : ExceptionCode) : c.Raised (c.raise code) :=
  raised_recordCondition c trivial

/-- Following the status belongs to the work of either way. -/
theorem Raised.of_followStatus {c c' : Cpu} (h : c.followStatus.Raised c') : c.Raised c' := by
  obtain ⟨k, fpu, hk, hregs, hwide, rfl⟩ := h
  exact ⟨k, fpu, hk, hregs, .inr (by rcases hwide with h | h <;> exact h), rfl⟩

variable {i : Instruction} {pc : UInt64}

/-- The register mode is none of the parts that have to be kept. -/
theorem Completed.of_followStatus {c c' : Cpu} (h : Completed i pc c.followStatus c') :
    Completed i pc c c' :=
  ⟨h.tlb, h.cop0, h.flow⟩

/-- So either way may begin with it. -/
theorem Effect.of_followStatus {c c' : Cpu} (h : Effect i pc c.followStatus c') :
    Effect i pc c c' :=
  h.imp .of_followStatus .of_followStatus

/-- What touches none of the parts that an instruction has to keep. -/
theorem Completed.of_eq {c c' : Cpu} (htlb : c'.tlb = c.tlb) (hcop0 : c'.cop0 = c.cop0)
    (hflow : c'.flow = c.flow) : Completed i pc c c' := ⟨htlb, .inl hcop0, fun _ => hflow⟩

section
variable (c : Cpu)

/-- A result in a general register. -/
theorem completed_setGpr (r : RegisterIndex) (v : UInt64) : Completed i pc c (c.setGpr r v) :=
  .of_eq rfl rfl rfl

/-- An operation that only has a result raises nothing. -/
private theorem effect_setGpr (r : RegisterIndex) (v : UInt64) : Effect i pc c (c.setGpr r v) :=
  .inr (completed_setGpr c r v)

/-- Nor does one with its result in HI and LO. -/
private theorem effect_setHiLo (hi lo : UInt64) : Effect i pc c (c.setHiLo hi lo) :=
  .inr (.of_eq rfl rfl rfl)

/-- An overflow takes the place of the result. -/
private theorem effect_setOrOverflow (r : RegisterIndex) (v : Option UInt64) :
    Effect i pc c (c.setOrOverflow r v) := by
  cases v with
  | some v => exact effect_setGpr c r v
  | none => exact .inl (raised_raise c _)

/-- A trap is an exception if its condition holds, and nothing otherwise. -/
private theorem effect_trapIf (b : Bool) : Effect i pc c (c.trapIf b) := by
  cases b with
  | true => exact .inl (raised_raise c _)
  | false => exact .inr (.of_eq rfl rfl rfl)

/-- An operation that is not allowed raises an exception instead. -/
private theorem effect_ifWide {f : Cpu → Cpu} (h : Effect i pc c (f c)) :
    Effect i pc c (c.ifWide f) := by
  simp only [ifWide]
  split
  · exact h
  · exact .inl (raised_raise c _)

/-- Division by zero has its own results, but raises nothing. -/
private theorem effect_divide (i : Instruction) (pc : UInt64) (c : Cpu) (a b : UInt64) :
    Effect i pc c (c.divide32 a b) ∧ Effect i pc c (c.divideUnsigned32 a b) ∧
      Effect i pc c (c.divide64 a b) ∧ Effect i pc c (c.divideUnsigned64 a b) := by
  simp only [divide32, divideUnsigned32, divide64, divideUnsigned64]
  refine ⟨?_, ?_, ?_, ?_⟩ <;> split <;> exact effect_setHiLo c _ _

/-- The FPU traps with its registers as they were, or it has the result. -/
private theorem effect_setFpu {result : Fpu × Bool} (h : c.fpu.TrapsClean result) :
    Effect i pc c (c.setFpu result) := by
  simp only [setFpu]
  split
  case isTrue htrap =>
    obtain ⟨hregs, hwide⟩ := h htrap
    exact .inl ⟨.general .floatingPoint, result.1, trivial, hregs, .inl hwide, rfl⟩
  case isFalse => exact .inr (.of_eq rfl rfl rfl)

/-- An FPU that is not usable raises an exception; otherwise the instruction starts with its
mode. -/
private theorem effect_ifFpuUsable {f : Cpu → Cpu}
    (h : Effect i pc c.followStatus (f c.followStatus)) : Effect i pc c (c.ifFpuUsable f) := by
  simp only [ifFpuUsable]
  split
  · exact h.of_followStatus
  · exact .inl (raised_recordCondition c trivial)

/-- A branch raises nothing by itself. -/
private theorem Completed.of_branch {b : Branch} (h : i.branch? pc = some b) :
    Completed i pc c (b.take pc c) := by
  have hne : i.branch? pc ≠ none := fun hnone => nomatch h.symm.trans hnone
  obtain ⟨gpr, pc', nextPc, branchPending, heq⟩ := b.take_keeps pc c
  rw [heq]
  exact ⟨rfl, .inl rfl, fun hnone => absurd hnone hne⟩

/-- Every branch goes one of the two ways. -/
private theorem effect_branch {b : Branch} (h : i.branch? pc = some b) :
    Effect i pc c (c.perform i pc) := by
  rw [perform_branch h]
  simp only [Branch.run]
  split
  · exact effect_ifFpuUsable c (.inr (.of_branch _ h))
  · exact .inr (.of_branch c h)

/-! ## Instructions inside the CPU -/

/-- The operations of opcode 0, without its jumps. -/
private theorem effect_performSpecial (h : i.branch? pc = none) (hop : i.opcode = 0x00) :
    Effect i pc c (c.performSpecial i pc) := by
  obtain ⟨hd, hdu, hdd, hddu⟩ := effect_divide i pc c (c.reg i.rs) (c.reg i.rt)
  simp only [performSpecial]
  split
  -- Two of the function codes are jumps
  case h_7 hf | h_8 hf => simp [Instruction.branch?, hop, hf] at h
  -- Every other one is an update of one kind; only multiplications have to be unfolded for that
  all_goals first
    | with_reducible exact effect_setGpr c _ _
    | with_reducible exact effect_ifWide c (effect_setGpr c _ _)
    | with_reducible exact effect_setOrOverflow c _ _
    | with_reducible exact effect_ifWide c (effect_setOrOverflow c _ _)
    | with_reducible exact effect_trapIf c _
    | with_reducible assumption
    | with_reducible exact effect_ifWide c ‹_›
    | exact .inl (raised_raise c _)
    | exact effect_setHiLo c _ _
    | exact effect_ifWide c (effect_setHiLo c _ _)

/-- The traps of opcode 1, without its branches. -/
private theorem effect_performRegisterImmediate (h : i.branch? pc = none) (hop : i.opcode = 0x01) :
    Effect i pc c (c.performRegisterImmediate i pc) := by
  simp only [performRegisterImmediate]
  split
  case h_5 | h_6 | h_7 | h_8 | h_9 | h_10 => exact effect_trapIf c _
  case h_15 => exact .inl (raised_raise c _)
  -- All others are branches
  all_goals
    rename_i hrt
    simp [Instruction.branch?, hop, hrt] at h

/-- The instructions of the FPU, without its branches. -/
private theorem effect_performFpu (h : i.branch? pc = none) (hop : i.opcode = 0x11) :
    Effect i pc c (performFpu i pc c) := by
  simp only [performFpu]
  split
  -- Moves from the unit and into it, the control register, and then what it computes
  case h_1 | h_2 | h_3 => exact effect_setGpr c _ _
  case h_4 | h_5 => exact .inr (.of_eq rfl rfl rfl)
  case h_6 => exact effect_setFpu c (Fpu.writeControl_trapsClean _ _ _)
  case h_7 hfmt => simp [Instruction.branch?, hop, hfmt] at h
  case h_8 | h_9 | h_10 | h_11 => exact effect_setFpu c (Fpu.execute_trapsClean _ i)
  case h_12 => exact .inl (raised_raise c _)

/-- The second coprocessor can only raise an exception. -/
private theorem effect_performCop2 : Effect i pc c c.performCop2 := by
  simp only [performCop2]
  split
  · exact .inl (raised_raise c _)
  · exact .inl (raised_recordCondition c trivial)

/-- Outside the system control coprocessor every instruction inside the CPU goes one of
the two ways. -/
theorem perform_effect (i : Instruction) (pc : UInt64) (h : i.opcode ≠ 0x10) :
    Effect i pc c (c.perform i pc) := by
  cases hb : i.branch? pc with
  | some b => exact effect_branch c hb
  | none =>
    simp only [perform]
    split
    -- In the order of the opcodes; those that branch have been dealt with
    case h_1 hop => exact effect_performSpecial c hb hop
    case h_2 hop => exact effect_performRegisterImmediate c hb hop
    case h_17 hop => exact absurd hop h
    case h_18 hop => exact effect_ifFpuUsable c (effect_performFpu _ hb hop)
    case h_19 => exact effect_performCop2 c
    case h_3 hop | h_4 hop | h_5 hop | h_6 hop | h_7 hop | h_8 hop | h_20 hop | h_21 hop | h_22 hop
      | h_23 hop => simp [Instruction.branch?, hop] at hb
    case h_24 => exact effect_ifWide c (effect_setOrOverflow c _ _)
    case h_25 => exact effect_ifWide c (effect_setGpr c _ _)
    all_goals first
      | with_reducible exact effect_setGpr c _ _
      | with_reducible exact effect_setOrOverflow c _ _
      | exact .inl (raised_recordCondition c trivial)
      | exact .inr (.of_eq rfl rfl rfl)

end

end Cpu

/-! ## The system control coprocessor -/

namespace Instruction

/-- ERET. -/
def isExceptionReturn (i : Instruction) : Bool :=
  i.opcode = 0x10 && 0x10 ≤ i.fmt && i.funct = 0x18

/-- MTC0 and DMTC0 to register `r`. -/
def writesCop0 (i : Instruction) (r : RegisterIndex) : Bool :=
  i.opcode = 0x10 && (i.fmt = 0x04 || i.fmt = 0x05) && i.rd = r

end Instruction

namespace Cop0

/-- The status word and what is decoded from it. -/
def statusState (c : Cop0) : UInt64 × StatusFlags := (c.get statusWord, c.status)

/-- The status is in a register of its own. -/
theorem statusState_put (c : Cop0) (r : RegisterIndex) (v : UInt64) (h : r ≠ statusWord) :
    (c.put r v).statusState = c.statusState := by
  simp only [statusState, get_put, if_neg h]
  rfl

/-- The cause is in another one. -/
theorem statusState_setCause (c : Cop0) (word : UInt64) :
    (c.setCause word).statusState = c.statusState :=
  statusState_put c causeWord (low32 word) (by decide)

/-- The registers that describe the address at fault. -/
def faultRegisters : List RegisterIndex := [badAddress, context, entryHi, extendedContext]

/-- An address at fault is left in these registers and in no others. -/
theorem get_recordFault (c : Cop0) (a : UInt64) {r : RegisterIndex} (h : r ∉ faultRegisters) :
    (c.recordFault a).get r = c.get r := by
  simp only [faultRegisters, List.mem_cons, List.not_mem_nil, or_false, not_or] at h
  obtain ⟨hbad, hcontext, hhi, hextended⟩ := h
  simp only [recordFault, get_put, if_neg (Ne.symm hbad), if_neg (Ne.symm hcontext),
    if_neg (Ne.symm hhi), if_neg (Ne.symm hextended)]

/-- So is what else is noted with a condition. -/
theorem get_recordCondition (c : Cop0) (k : Condition) {r : RegisterIndex}
    (h : r ∉ faultRegisters) : (c.recordCondition k).get r = c.get r := by
  simp only [recordCondition]
  split
  · rfl
  · cases k.faultAddress with
    | none => rfl
    | some a => exact c.get_recordFault a h

/-- All that a noted condition changes outside the registers is that it is noted. -/
theorem recordCondition_eq (c : Cop0) (k : Condition) :
    ∃ registers pending, c.recordCondition k = { c with registers, pending } := by
  simp only [recordCondition]
  split
  · exact ⟨_, _, rfl⟩
  · cases k.faultAddress <;> exact ⟨_, _, rfl⟩

/-- When nothing was noted before, the condition is. -/
theorem pending_recordCondition {c : Cop0} (h : c.pending = none) (k : Condition) :
    (c.recordCondition k).pending = some k := by
  simp [recordCondition, h]

/-- In any case something is noted then. -/
theorem pending_recordCondition_ne_none (c : Cop0) (k : Condition) :
    (c.recordCondition k).pending ≠ none := by
  intro h
  cases hpending : c.pending with
  | none => cases (pending_recordCondition hpending k).symm.trans h
  | some p =>
    simp only [recordCondition, hpending] at h
    split at h
    · cases hpending.symm.trans h
    · cases h

/-- What is noted with a condition leaves the status as it is. -/
theorem statusState_recordCondition (c : Cop0) (k : Condition) :
    (c.recordCondition k).statusState = c.statusState := by
  obtain ⟨registers, pending, heq⟩ := c.recordCondition_eq k
  have hword := c.get_recordCondition k (r := statusWord) (by decide)
  simp only [statusState, hword]
  rw [heq]

/-- A write to another register keeps the status, and no write notes a condition. -/
theorem write_keeps (c : Cop0) (r : RegisterIndex) (v : UInt64) :
    (c.write r v).pending = c.pending ∧
      (r ≠ statusWord → (c.write r v).statusState = c.statusState) := by
  simp only [write]
  split
  case h_2 =>
    refine ⟨rfl, fun _ => ?_⟩
    -- A new compare value takes the timer back in the cause
    show (Cop0.setCause _ _).statusState = _
    rw [statusState_setCause, statusState_put _ _ _ (by decide)]
  case h_3 => exact ⟨rfl, fun h => absurd rfl h⟩
  case h_4 => exact ⟨rfl, fun _ => statusState_setCause c _⟩
  case h_5 =>
    exact ⟨rfl, fun _ => by
      rw [statusState_put _ random _ (by decide), statusState_put _ wired _ (by decide)]⟩
  all_goals first
    | exact ⟨rfl, fun _ => rfl⟩
    | exact ⟨rfl, fun h => statusState_put c _ _ (by first | decide | exact h)⟩

end Cop0

namespace Cpu

/-- An instruction of the system control coprocessor has raised no exception. -/
structure CompletedCop0 (i : Instruction) (c c' : Cpu) : Prop where
  pending : c'.cop0.pending = c.cop0.pending
  flow : i.isExceptionReturn = false → c'.flow = c.flow
  status : i.isExceptionReturn = false → i.writesCop0 Cop0.statusWord = false →
    c'.cop0.statusState = c.cop0.statusState

section
variable (c : Cpu) {i : Instruction}

/-- A write changes the status only if it is one to the status. -/
private theorem completedCop0_writeCop0 (hop : i.opcode = 0x10)
    (hfmt : i.fmt = 0x04 ∨ i.fmt = 0x05) (v : UInt64) :
    CompletedCop0 i c (c.writeCop0 i.rd v) := by
  simp only [writeCop0]
  split
  -- The write to the status is the one that is excepted
  case isTrue hrd =>
    have hwrites : i.writesCop0 Cop0.statusWord = true := by
      rcases hfmt with hfmt | hfmt <;> simp [Instruction.writesCop0, hop, hfmt, hrd]
    have hne : i.writesCop0 Cop0.statusWord ≠ false := by simp [hwrites]
    exact ⟨rfl, fun _ => rfl, fun _ h => absurd h hne⟩
  case isFalse hrd =>
    obtain ⟨hpending, hstatus⟩ := c.cop0.write_keeps i.rd v
    exact ⟨hpending, fun _ => rfl, fun _ _ => hstatus hrd⟩

/-- To read an entry of the TLB is to write four registers, none of them the status. -/
private theorem completedCop0_readEntry : CompletedCop0 i c c.readEntry := by
  refine ⟨rfl, fun _ => rfl, fun _ _ => ?_⟩
  simp only [readEntry]
  rw [Cop0.statusState_put _ _ _ (by decide), Cop0.statusState_put _ _ _ (by decide),
    Cop0.statusState_put _ _ _ (by decide), Cop0.statusState_put _ _ _ (by decide)]

/-- An instruction of the system control coprocessor raises an exception or keeps what is
noted; the status and the flow of control change by the two that are meant to. -/
theorem performCop0_effect (hop : i.opcode = 0x10) :
    c.Raised (c.performCop0 i) ∨ CompletedCop0 i c (c.performCop0 i) := by
  -- Moves of doublewords are guarded
  have hwide : ∀ f : Cpu → Cpu, c.Raised (f c) ∨ CompletedCop0 i c (f c) →
      c.Raised (c.ifWide f) ∨ CompletedCop0 i c (c.ifWide f) := by
    intro f h
    simp only [ifWide]
    split
    · exact h
    · exact .inl (raised_raise c _)
  simp only [performCop0]
  split
  · exact .inl (raised_recordCondition c trivial)
  · split
    -- The four moves, and then what has a function code
    case h_1 => exact .inr ⟨rfl, fun _ => rfl, fun _ _ => rfl⟩
    case h_2 => exact hwide _ (.inr ⟨rfl, fun _ => rfl, fun _ _ => rfl⟩)
    case h_3 hfmt => exact .inr (completedCop0_writeCop0 c hop (.inl hfmt) _)
    case h_4 hfmt => exact hwide _ (.inr (completedCop0_writeCop0 c hop (.inr hfmt) _))
    case h_5 =>
      split
      case isTrue => exact .inl (raised_raise c _)
      case isFalse hfmt =>
        split
        case h_1 => exact .inr (completedCop0_readEntry c)
        case h_2 | h_3 => exact .inr ⟨rfl, fun _ => rfl, fun _ _ => rfl⟩
        case h_4 =>
          exact .inr ⟨rfl, fun _ => rfl, fun _ _ => Cop0.statusState_put _ _ _ (by decide)⟩
        -- The exception return is the other one that is excepted
        case h_5 hfunct =>
          have hreturn : i.isExceptionReturn = true := by
            simp [Instruction.isExceptionReturn, hop, hfunct, UInt32.not_lt.mp hfmt]
          have hne : i.isExceptionReturn ≠ false := by simp [hreturn]
          refine .inr ⟨?_, fun h => absurd h hne, fun h => absurd h hne⟩
          simp only [exceptionReturn, Cop0.leave]
          split <;> rfl
        case h_6 => exact .inl (raised_raise c _)

end

end Cpu

end Console64

import Console64.Proofs.FaultPoint
import Console64.Proofs.FirstVisit

/-!
# Classes of instructions

The compiler of blocks sorts instruction words by tables of its own: a branch takes its delay
slot along and ends the block with it, and some other words end the block by themselves.  This
file proves the tables right by what the interpreter does with the words.  A word of neither
class leaves the flow of control and the address mapping as they are, and one that is not among
the branches never asks for a delay slot.

## Key results

- `Op.endsBlock_decode` / `Op.isControlFlow_decode`: the classes, read off the word
- `Op.endsBlock_of_isControlFlow`: they are disjoint
- `Machine.branchPending_execute`: only branches have a delay slot
- `Machine.classes_sound`: all of it together
-/

namespace Console64

namespace Op

/-! ## The tables of the compiler -/

/-- An operation of its own for opcode 0 stands for a word that nothing asks to end a block. -/
private theorem endsBlock_decodeSpecial {i : Instruction} (h : i.opcode = 0x00) :
    (decodeSpecial i).endsBlock = mustEndBlock i.word := by
  have htable : mustEndBlock i.word =
      (i.funct = 0x0C || i.funct = 0x0D || (0x30 ≤ i.funct && i.funct < 0x37)) := by
    simp only [mustEndBlock, h]
  rw [htable, decodeSpecial]
  split
  case h_40 => exact htable
  all_goals
    rename_i hf
    rw [hf]
    rfl

/-- A word ends a block exactly if it is among those that have to, whatever operation stands
for it. -/
theorem endsBlock_decode (word : UInt32) : (decode word).endsBlock = mustEndBlock word := by
  rw [decode]
  -- The two tables are gone through side by side
  split
  case h_1 h => exact endsBlock_decodeSpecial h
  case h_2 h =>
    have htable : mustEndBlock word =
        (0x08 ≤ (Instruction.mk word).rt.val && (Instruction.mk word).rt.val < 0x0F) := by
      simp only [mustEndBlock, h]
    split
    case h_3 => rfl
    all_goals
      rename_i hrt
      rw [htable, hrt]
      rfl
  case h_30 => rfl
  all_goals
    rename_i h
    simp only [mustEndBlock, h]
    rfl

/-- Of the instructions told apart by `funct`, JR and JALR are the branches. -/
private theorem isControlFlow_decodeSpecial {i : Instruction} (pc : UInt64) (h : i.opcode = 0x00) :
    (decodeSpecial i).isControlFlow = (i.branch? pc).isSome := by
  simp only [Instruction.branch?, h]
  rw [decodeSpecial]
  split
  case h_40 =>
    have hbranch : interpretedBranch i.word = false := by simp [interpretedBranch, h]
    rw [interpreted, isControlFlow, hbranch]
    -- The two jumps have operations of their own
    split
    case h_1 hf | h_2 hf => exact absurd hf (by assumption)
    case h_3 => rfl
  all_goals
    rename_i hf
    simp only [hf]
    rfl

/-- A word is control flow for the compiler exactly if it has the form of a branch. -/
theorem isControlFlow_decode (word : UInt32) (pc : UInt64) :
    (decode word).isControlFlow = ((Instruction.mk word).branch? pc).isSome := by
  rw [decode]
  split
  case h_1 h => exact isControlFlow_decodeSpecial pc h
  case h_2 h =>
    simp only [Instruction.branch?, h]
    split
    case h_3 =>
      have htable : interpretedBranch word = ((Instruction.mk word).rt.val < 0x04 ||
          (0x10 ≤ (Instruction.mk word).rt.val && (Instruction.mk word).rt.val < 0x14)) := by
        simp [interpretedBranch, h]
      rw [interpreted, isControlFlow, htable]
      split
      case h_1 hrt | h_2 hrt => exact absurd hrt (by assumption)
      case h_9 =>
        -- No number is left between the bounds
        simp only [Option.isSome_none, Bool.or_eq_false_iff, Bool.and_eq_false_iff,
          decide_eq_false_iff_not]
        grind
      all_goals
        rename_i hrt
        rw [hrt]
        rfl
    all_goals
      rename_i hrt
      simp only [hrt]
      rfl
  case h_30 =>
    rw [interpreted, isControlFlow, interpretedBranch]
    split
    case h_1 h => exact absurd h (by assumption)
    case h_2 h =>
      simp only [Instruction.branch?, h]
      split
      case isTrue hfmt => rw [hfmt]; rfl
      case isFalse hfmt => exact decide_eq_false hfmt
    case h_3 h | h_4 h | h_5 h | h_6 h =>
      simp only [Instruction.branch?, h]
      rfl
    case h_7 =>
      rw [Instruction.branch?]
      split
      all_goals first
        | exact absurd ‹_› (by assumption)
        | rfl
  all_goals
    rename_i h
    simp only [Instruction.branch?, h]
    rfl

/-- No word is in both classes. -/
theorem endsBlock_of_isControlFlow {word : UInt32} (h : (decode word).isControlFlow = true) :
    (decode word).endsBlock = false := by
  rw [isControlFlow_decode word 0] at h
  rw [endsBlock_decode, mustEndBlock]
  -- Only three of the opcodes that branch are in a table of their own
  split
  case h_1 hop =>
    simp only [Instruction.branch?, hop] at h
    split at h
    case h_1 hf | h_2 hf =>
      rw [hf]
      rfl
    case h_3 => cases h
  case h_2 hop =>
    simp only [Instruction.branch?, hop] at h
    split at h
    case h_9 => cases h
    all_goals
      rename_i hrt
      rw [hrt]
      rfl
  case h_3 hop | h_4 hop => simp [Instruction.branch?, hop] at h
  case h_5 hop =>
    simp only [Instruction.branch?, hop] at h
    split at h
    case isTrue hfmt =>
      rw [hfmt]
      rfl
    case isFalse => cases h
  case h_6 => rfl

/-- The instructions of the system control coprocessor end a block. -/
theorem opcode_ne_of_endsBlock {word : UInt32} (h : (decode word).endsBlock = false) :
    (Instruction.mk word).opcode ≠ 0x10 := by
  rw [endsBlock_decode] at h
  intro hop
  simp [mustEndBlock, hop] at h

end Op

/-! ## What the interpreter does -/

namespace Cpu

/-- Raising an exception leaves the flow of control, the status and the TLB to what follows. -/
theorem Raised.keeps {c c' : Cpu} (h : c.Raised c') :
    c'.flow = c.flow ∧ c'.cop0.statusState = c.cop0.statusState ∧ c'.tlb = c.tlb ∧
      c'.cop0.pending ≠ none := by
  obtain ⟨k, fpu, -, -, -, rfl⟩ := h
  exact ⟨rfl, c.cop0.statusState_recordCondition k, rfl, c.cop0.pending_recordCondition_ne_none k⟩

/-- So does an instruction that completes, if it is no branch, and it keeps the address space
too. -/
theorem Completed.keeps {i : Instruction} {pc : UInt64} {c c' : Cpu} (h : Completed i pc c c')
    (hbranch : i.branch? pc = none) :
    c'.flow = c.flow ∧ c'.cop0.statusState = c.cop0.statusState ∧ c'.tlb = c.tlb ∧
      c'.cop0.get Cop0.entryHi = c.cop0.get Cop0.entryHi := by
  refine ⟨h.flow hbranch, ?_⟩
  rcases h.cop0 with hcop0 | ⟨v, hcop0⟩ <;> rw [hcop0]
  · exact ⟨rfl, h.tlb, rfl⟩
  · -- The address of a linked load has a register of its own
    refine ⟨Cop0.statusState_put _ _ _ (by decide), h.tlb, ?_⟩
    rw [Cop0.get_put, if_neg (by decide)]

/-- Among the instructions of the system control coprocessor only the return from an exception
redirects the flow of control, and it has no delay slot. -/
theorem branchPending_performCop0 {i : Instruction} {c : Cpu} (hop : i.opcode = 0x10)
    (h : c.branchPending = false) : (c.performCop0 i).branchPending = false := by
  -- What raises an exception does not branch, and ERET clears what was pending
  rcases c.performCop0_effect hop with ⟨k, fpu, -, -, -, hcpu⟩ | hcompleted
  · rw [hcpu]
    exact h
  · cases hreturn : i.isExceptionReturn with
    | false => exact (congrArg (·.2.2) (hcompleted.flow hreturn)).trans h
    | true =>
      simp only [Instruction.isExceptionReturn, Bool.and_eq_true, decide_eq_true_eq] at hreturn
      obtain ⟨⟨-, hfmt⟩, hfunct⟩ := hreturn
      simp only [performCop0]
      split
      · exact h
      · split
        case h_1 heq | h_2 heq | h_3 heq | h_4 heq =>
          rw [heq] at hfmt
          exact absurd hfmt (by decide)
        case h_5 => rw [if_neg (UInt32.not_lt.mpr hfmt), hfunct]; rfl

end Cpu

namespace Machine

variable {word : UInt32} {pc : UInt64} {m : Machine}

/-- An instruction of neither class keeps the flow of control, the status and the TLB.  It keeps
the address space as well, unless it raises an exception. -/
theorem execute_keeps (hbranch : (Op.decode word).isControlFlow = false)
    (hends : (Op.decode word).endsBlock = false) :
    (stateOf (execute ⟨word⟩ pc m)).cpu.flow = m.cpu.flow ∧
      (stateOf (execute ⟨word⟩ pc m)).cpu.cop0.statusState = m.cpu.cop0.statusState ∧
      (stateOf (execute ⟨word⟩ pc m)).cpu.tlb = m.cpu.tlb ∧
      ((stateOf (execute ⟨word⟩ pc m)).cpu.cop0.get Cop0.entryHi = m.cpu.cop0.get Cop0.entryHi ∨
        (m.cpu.Raised (stateOf (execute ⟨word⟩ pc m)).cpu ∧
          (stateOf (execute ⟨word⟩ pc m)).cpu.cop0.pending ≠ none)) := by
  rw [Op.isControlFlow_decode word pc, Option.isSome_eq_false_iff, Option.isNone_iff_eq_none]
    at hbranch
  cases h : execute ⟨word⟩ pc m with
  | error e m' =>
    -- A bus fault comes before anything is changed
    obtain ⟨fpu, hcpu⟩ := execute_fault h
    rw [stateOf_error, hcpu]
    exact ⟨rfl, rfl, rfl, .inl rfl⟩
  | ok u m' =>
    rw [stateOf_ok]
    rcases execute_cases h with ⟨hraised, -⟩ | hcompleted | ⟨hop, -, -⟩
    · obtain ⟨hflow, hstatus, htlb, hpending⟩ := hraised.keeps
      exact ⟨hflow, hstatus, htlb, .inr ⟨hraised, hpending⟩⟩
    · obtain ⟨hflow, hstatus, htlb, hspace⟩ := hcompleted.keeps hbranch
      exact ⟨hflow, hstatus, htlb, .inl hspace⟩
    · exact absurd hop (Op.opcode_ne_of_endsBlock hends)

/-- Only a branch asks for a delay slot. -/
theorem branchPending_execute (hbranch : (Op.decode word).isControlFlow = false)
    (h : m.cpu.branchPending = false) :
    (stateOf (execute ⟨word⟩ pc m)).cpu.branchPending = false := by
  -- Outside the other class nothing redirects; within it only an error or ERET may
  cases hends : (Op.decode word).endsBlock with
  | false => exact (congrArg (·.2.2) (execute_keeps hbranch hends).1).trans h
  | true =>
    rw [Op.isControlFlow_decode word pc, Option.isSome_eq_false_iff, Option.isNone_iff_eq_none]
      at hbranch
    cases hrun : execute ⟨word⟩ pc m with
    | error e m' =>
      obtain ⟨fpu, hcpu⟩ := execute_fault hrun
      rw [stateOf_error, hcpu]
      exact h
    | ok u m' =>
      rw [stateOf_ok]
      rcases execute_cases hrun with ⟨hraised, -⟩ | hcompleted | ⟨hop, hcpu, -⟩
      · exact (congrArg (·.2.2) hraised.keeps.1).trans h
      · exact (congrArg (·.2.2) (hcompleted.keeps hbranch).1).trans h
      · rw [hcpu]
        exact Cpu.branchPending_performCop0 hop h

/-- The CPU after the instruction `word` at `pc` has been begun and carried out, also where a bus
fault has cut it short.  It has not been retired yet. -/
def performed (word : UInt32) (pc : UInt64) (m : Machine) : Cpu :=
  (stateOf (execute ⟨word⟩ pc ⟨m.cpu.begin pc word, m.bus⟩)).cpu

/-- The classes of the compiler describe what the interpreter does, for every word and in every
state of the machine.
* An instruction of neither class leaves the flow of control as beginning it has left it, and it
  keeps the status, the TLB and, unless it raises an exception, the address space.
* One that is no branch does not ask for a delay slot.
* No word is in both classes. -/
theorem classes_sound (word : UInt32) (pc : UInt64) (m : Machine) :
    ((Op.decode word).isControlFlow = false → (Op.decode word).endsBlock = false →
      (performed word pc m).flow = (m.cpu.begin pc word).flow ∧
        (performed word pc m).cop0.statusState = m.cpu.cop0.statusState ∧
        (performed word pc m).tlb = m.cpu.tlb ∧
        ((performed word pc m).cop0.get Cop0.entryHi = m.cpu.cop0.get Cop0.entryHi ∨
          ((m.cpu.begin pc word).Raised (performed word pc m) ∧
            (performed word pc m).cop0.pending ≠ none))) ∧
    ((Op.decode word).isControlFlow = false → (performed word pc m).branchPending = false) ∧
    ¬((Op.decode word).isControlFlow = true ∧ (Op.decode word).endsBlock = true) := by
  refine ⟨fun hbranch hends => execute_keeps hbranch hends, fun hbranch =>
    branchPending_execute hbranch rfl, fun ⟨hbranch, hends⟩ => ?_⟩
  exact Bool.noConfusion ((Op.endsBlock_of_isControlFlow hbranch).symm.trans hends)

/-- An unaligned load that raises nothing, as it is carried out: the next instruction follows, with
no delay slot in between, in the same address space. -/
theorem classes_sound_loadLeft :
    (Op.decode 0x89880101).isControlFlow = false ∧ (Op.decode 0x89880101).endsBlock = false ∧
      ∃ m : Machine, m.cpu.flow = (0xFFFFFFFF80000100, 0xFFFFFFFF80000104, false) ∧
        (performed 0x89880101 0xFFFFFFFF80000100 m).cop0.pending = none ∧
        (performed 0x89880101 0xFFFFFFFF80000100 m).flow =
          (0xFFFFFFFF80000104, 0xFFFFFFFF80000108, false) ∧
        (performed 0x89880101 0xFFFFFFFF80000100 m).cop0.get Cop0.entryHi =
          m.cpu.cop0.get Cop0.entryHi ∧
        (performed 0x89880101 0xFFFFFFFF80000100 m).branchPending = false := by
  have hbranch : (Op.decode 0x89880101).isControlFlow = false := rfl
  have hends : (Op.decode 0x89880101).endsBlock = false := rfl
  obtain ⟨hkeeps, hslot, -⟩ := classes_sound 0x89880101 0xFFFFFFFF80000100
    (loaded 0xFFFFFFFF80000100 [(12, 0xFFFFFFFF80000010)] [])
  obtain ⟨hflow, -, -, hspace⟩ := hkeeps hbranch hends
  have hquiet : (performed 0x89880101 0xFFFFFFFF80000100
      (loaded 0xFFFFFFFF80000100 [(12, 0xFFFFFFFF80000010)] [])).cop0.pending = none := by
    decide +kernel
  refine ⟨hbranch, hends, _, rfl, hquiet, hflow, ?_, hslot hbranch⟩
  rcases hspace with hsame | ⟨-, hpending⟩
  · exact hsame
  · exact absurd hquiet hpending

end Machine

end Console64

import Console64.Proofs.FaultPoint
import Console64.Proofs.InstructionRuns
import Mathlib.Logic.Relation

/-!
# The control state between calls

Between two calls register 0 holds zero, nothing is noted, and where no branch is pending
the two program counters are one instruction apart.  A block relies on this when it
compares one program counter only.  The invariant holds after every step of the
interpreter and every call of the recompiler, on any bus, also after those that a bus
fault has cut short.

## Key results

- `Cpu.Orderly`: the invariant
- `Machine.orderly_carryOut`: one instruction preserves it
- `Machine.orderly_step` / `Recompiler.orderly_executeWithin`: so do a step and a call
- `Cpu.orderly_of_calls`: and so does any number of steps and calls
-/

namespace Console64

namespace Cpu

/-- Without a pending branch, the next instruction but one follows the next. -/
def InLine (c : Cpu) : Prop := c.branchPending = false → c.nextPc = c.pc + 4

/-- What holds of the CPU between calls. -/
structure Orderly (c : Cpu) : Prop where
  zero : c.reg 0 = 0
  quiet : c.cop0.pending = none
  inLine : c.InLine

/-! ## One instruction -/

/-- Whether the program counters are in line depends on the flow of control only. -/
theorem InLine.of_flow {c c' : Cpu} (h : c.InLine) (hflow : c'.flow = c.flow) : c'.InLine := by
  simp only [flow, Prod.mk.injEq] at hflow
  obtain ⟨hpc, hnext, hpending⟩ := hflow
  simp only [InLine, hpc, hnext, hpending]
  exact h

/-- A jump from outside sets both counters, -/
theorem inLine_jumpTo (c : Cpu) (pc : UInt64) : (c.jumpTo pc).InLine := fun _ => rfl

/-- and so does the start of an instruction. -/
theorem inLine_begin (c : Cpu) (pc : UInt64) (word : UInt32) : (c.begin pc word).InLine :=
  fun _ => rfl

/-- A branch that skips its delay slot leaves the counters in line; any other is pending. -/
private theorem inLine_take (b : Branch) (pc : UInt64) (c : Cpu) : (b.take pc c).InLine := by
  intro hpending
  have hflow := b.flow_take pc c
  split at hflow
  · simp only [flow, Prod.mk.injEq] at hflow
    rw [hflow.1, hflow.2.1]
  · simp only [flow, Prod.mk.injEq] at hflow
    rw [hflow.2.2] at hpending
    cases hpending

/-- Noting a condition leaves the counters alone. -/
private theorem inLine_of_raised {c c' : Cpu} (h : c.InLine) (hraised : c.Raised c') :
    c'.InLine := by
  obtain ⟨k, fpu, -, -, -, rfl⟩ := hraised
  exact h.of_flow rfl

/-- So it is with a branch that may be refused instead: then nothing is taken. -/
private theorem inLine_run {b : Branch} {pc : UInt64} {c : Cpu} (h : c.InLine) :
    (b.run pc c).InLine := by
  simp only [Branch.run, ifFpuUsable]
  split
  · split
    · exact inLine_take b pc _
    · exact inLine_of_raised h (c.raised_recordCondition trivial)
  · exact inLine_take b pc c

/-- The coprocessor sets them when an exception is left, and otherwise leaves them alone. -/
private theorem inLine_performCop0 {i : Instruction} {c : Cpu} (h : c.InLine)
    (hop : i.opcode = 0x10) : (c.performCop0 i).InLine := by
  rcases c.performCop0_effect hop with hraised | hcompleted
  · exact inLine_of_raised h hraised
  · cases hreturn : i.isExceptionReturn with
    | false => exact h.of_flow (hcompleted.flow hreturn)
    | true =>
      -- Unless the coprocessor is not usable, the return sets both counters
      obtain ⟨⟨-, hfmt⟩, hfunct⟩ : (i.opcode = 0x10 ∧ 0x10 ≤ i.fmt) ∧ i.funct = 0x18 := by
        simpa [Instruction.isExceptionReturn] using hreturn
      simp only [performCop0]
      split
      · exact h.of_flow rfl
      · split
        case h_1 hfmt' | h_2 hfmt' | h_3 hfmt' | h_4 hfmt' =>
          exact absurd hfmt (by rw [hfmt']; decide)
        case h_5 =>
          rw [if_neg (UInt32.not_lt.mpr hfmt), hfunct]
          exact inLine_jumpTo _ _

/-- Retiring makes the rest of the invariant hold, whatever the instruction has left. -/
theorem orderly_retire {c : Cpu} (h : c.InLine) : c.retire.1.Orderly := by
  have hzero : c.ended.reg 0 = 0 := c.reg_ended 0
  cases hretire : c.retire with
  | mk c' onPath =>
    -- An instruction goes on in line, or the handler begins at its vector
    cases onPath with
    | true =>
      obtain ⟨hnone, rfl⟩ := retire_true hretire
      exact ⟨hzero, c.cop0.ticked_keeps.1.trans hnone, h.of_flow rfl⟩
    | false =>
      obtain ⟨target, cop0, hservice, rfl⟩ := retire_false hretire
      have hquiet : cop0.pending = none := by
        rw [← c.ended.cop0.pending_service c.ended.exceptionSite, hservice]
      exact ⟨hzero, hquiet, inLine_jumpTo _ _⟩

/-- The start of an instruction keeps register 0 and what is noted, and so does a bus fault
in the middle of it. -/
theorem Orderly.cutShort {c c' : Cpu} (h : c.Orderly) (pc : UInt64) (word : UInt32)
    (hfault : ∃ fpu, c' = { c.begin pc word with fpu }) : c'.Orderly := by
  obtain ⟨fpu, rfl⟩ := hfault
  exact ⟨h.zero, h.quiet, inLine_begin c pc word⟩

end Cpu

namespace Machine

/-- An instruction that succeeds leaves the counters in line. -/
private theorem inLine_execute {i : Instruction} {pc : UInt64} {m m' : Machine}
    (hline : m.cpu.InLine) (h : execute i pc m = .ok () m') : m'.cpu.InLine := by
  cases hb : i.branch? pc with
  | some b =>
    rw [execute_branch hb] at h
    cases h
    exact Cpu.inLine_run hline
  | none =>
    -- An instruction that does not branch leaves no slot behind; ERET goes where it goes
    rcases execute_cases h with ⟨hraised, -⟩ | hcompleted | ⟨hop, hcpu, -⟩
    · exact Cpu.inLine_of_raised hline hraised
    · exact hline.of_flow (hcompleted.flow hb)
    · rw [hcpu]
      exact Cpu.inLine_performCop0 hline hop

/-- An instruction preserves the invariant, at whatever address it is carried out. -/
theorem orderly_carryOut (word : UInt32) (pc : UInt64) {m : Machine} (h : m.cpu.Orderly) :
    (stateOf (carryOut word pc m)).cpu.Orderly := by
  have hbegin : modifyCpu (·.begin pc word) m = .ok () ⟨m.cpu.begin pc word, m.bus⟩ := rfl
  rw [carryOut, interpret, bind_assoc, bind_of_ok hbegin]
  cases hrun : execute ⟨word⟩ pc ⟨m.cpu.begin pc word, m.bus⟩ with
  | ok u m' =>
    rw [bind_of_ok hrun]
    exact Cpu.orderly_retire (inLine_execute (m.cpu.inLine_begin pc word) hrun)
  | error e m' =>
    rw [bind_of_error hrun]
    exact h.cutShort pc word (execute_fault hrun)

end Machine

/-! ## Runs -/

/-- An event preserves the invariant, with or without an instruction. -/
private theorem Cpu.Orderly.next {c : Cpu} (e : Cpu.Event) (h : c.Orderly) :
    (c.next e).Orderly := by
  cases e with
  | carriedOut word pc bus => exact Machine.orderly_carryOut word pc (m := ⟨c, bus⟩) h
  | refused k => exact Cpu.orderly_retire (Cpu.inLine_begin _ _ _)

/-- So does a step of the interpreter. -/
theorem Machine.orderly_step {m : Machine} (h : m.cpu.Orderly) :
    (stateOf (step m)).cpu.Orderly :=
  (comesTo_step (.refl m.cpu)).preserves Cpu.Orderly.next h

/-- So does a call of the recompiler, whether it succeeds or fails. -/
theorem Recompiler.orderly_executeWithin (budget : Nat) {s : RunState} (h : s.2.cpu.Orderly) :
    (stateOf (executeWithin budget s)).2.cpu.Orderly :=
  (comesTo_executeWithin budget s).preserves Cpu.Orderly.next h

namespace Cpu

/-- Work that a CPU is driven by: a step of the interpreter or a call of the recompiler, in
any state and on any bus; it leaves the second CPU, whether it succeeds or fails. -/
inductive Call : Cpu → Cpu → Prop
  | step (c : Cpu) (bus : Bus) : Call c (stateOf (Machine.step ⟨c, bus⟩)).cpu
  | execute (c : Cpu) (budget : Nat) (r : Recompiler) (bus : Bus) :
    Call c (stateOf (Recompiler.executeWithin budget (r, ⟨c, bus⟩))).2.cpu

/-- The CPU has just been made, or told where to go on. -/
def Started (c : Cpu) : Prop := c = initial ∨ ∃ (d : Cpu) (pc : UInt64), c = d.jumpTo pc

/-- Once a CPU with zero in register 0 and nothing noted has been started, then after any
number of steps and calls, on any buses and whether or not they ended in a fault, register
0 holds zero, nothing is noted, and unless a branch is pending the instruction after the
next one follows it. -/
theorem orderly_of_calls {c c' : Cpu} (hstarted : c.Started) (hzero : c.reg 0 = 0)
    (hquiet : c.cop0.pending = none) (hcalls : Relation.ReflTransGen Call c c') :
    c'.reg 0 = 0 ∧ c'.cop0.pending = none ∧
      (c'.branchPending = false → c'.nextPc = c'.pc + 4) := by
  -- A machine that has been started goes on in line
  have hstart : c.Orderly := by
    rcases hstarted with rfl | ⟨d, pc, rfl⟩
    · exact ⟨hzero, hquiet, fun _ => rfl⟩
    · exact ⟨hzero, hquiet, inLine_jumpTo d pc⟩
  suffices h : c'.Orderly from ⟨h.zero, h.quiet, h.inLine⟩
  induction hcalls with
  | refl => exact hstart
  | tail _ hcall ih =>
    cases hcall with
    | step bus => exact Machine.orderly_step ih
    | execute budget r bus => exact Recompiler.orderly_executeWithin budget ih

/-- A machine that is about to load from an address behind which there is no device. -/
def faulting : Machine :=
  .loaded 0xFFFFFFFF80000100 [(13, 0xFFFFFFFFA5000000)] [(.rdram, 0x100, 0x8DA80000)]

/-- Its step fails between the start and the end of the instruction. -/
theorem orderly_of_faulting_load :
    ∃ e m, Machine.step faulting = .error e m ∧
      m.cpu.flow = (0xFFFFFFFF80000104, 0xFFFFFFFF80000108, false) ∧
      m.cpu.reg 0 = 0 ∧ m.cpu.cop0.pending = none ∧
      (m.cpu.branchPending = false → m.cpu.nextPc = m.cpu.pc + 4) := by
  -- The run is evaluated once; the invariant is what the theorem gives
  have hrun : (match Machine.step faulting with
      | .error _ m => m.cpu.flow == (0xFFFFFFFF80000104, 0xFFFFFFFF80000108, false)
      | .ok _ _ => false) = true := by
    decide +kernel
  have hcall : Call faulting.cpu (stateOf (Machine.step faulting)).cpu :=
    .step faulting.cpu faulting.bus
  split at hrun
  case h_1 e m hfault =>
    rw [hfault, stateOf_error] at hcall
    exact ⟨e, m, hfault, eq_of_beq hrun,
      orderly_of_calls (.inr ⟨initial.setGpr 13 0xFFFFFFFFA5000000, _, rfl⟩) rfl rfl
        (.single hcall)⟩
  case h_2 => exact nomatch hrun

end Cpu

end Console64

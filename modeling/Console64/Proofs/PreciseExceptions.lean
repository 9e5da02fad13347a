import Console64.Proofs.BusUse
import Console64.Proofs.FirstVisit

/-!
# Exceptions are precise

An instruction that raises an exception leaves the program's state as it found it.  So the
handler can repair what was in the way and have the instruction carried out again as if
nothing had happened.

## Key results

- `Machine.Untouched`: nothing has changed but what describes an exception
- `Machine.execute_precise`: so it is with every instruction that raises one
-/

namespace Console64

namespace Machine

/-- Nothing has changed between two machines but what describes an exception: where the
address at fault is left, the control word of the floating-point unit, and the condition
noted.  What is decoded from the status goes with the status. -/
structure Untouched (m m' : Machine) : Prop where
  bus : m'.bus = m.bus
  gpr : m'.cpu.gpr = m.cpu.gpr
  hi : m'.cpu.hi = m.cpu.hi
  lo : m'.cpu.lo = m.cpu.lo
  floats : m'.cpu.fpu.registers = m.cpu.fpu.registers
  floatMode : m'.cpu.fpu.wide = m.cpu.fpu.wide ∨ m'.cpu.fpu.wide = m.cpu.cop0.status.fr
  tlb : m'.cpu.tlb = m.cpu.tlb
  linked : m'.cpu.linked = m.cpu.linked
  pc : m'.cpu.pc = m.cpu.pc
  nextPc : m'.cpu.nextPc = m.cpu.nextPc
  branchPending : m'.cpu.branchPending = m.cpu.branchPending
  inDelaySlot : m'.cpu.inDelaySlot = m.cpu.inDelaySlot
  current : (m'.cpu.currentPc, m'.cpu.currentWord) = (m.cpu.currentPc, m.cpu.currentWord)
  trace : m'.cpu.trace = m.cpu.trace
  cop0 : ∀ r, r ≠ Cop0.badAddress → r ≠ Cop0.context → r ≠ Cop0.extendedContext →
    r ≠ Cop0.entryHi → m'.cpu.cop0.get r = m.cpu.cop0.get r
  addressSpace : m'.cpu.cop0.addressSpace = m.cpu.cop0.addressSpace
  decoded : (m'.cpu.cop0.status, m'.cpu.cop0.cause) = (m.cpu.cop0.status, m.cpu.cop0.cause)
  timer : (m'.cpu.cop0.halfCycle, m'.cpu.cop0.timerOnLine7, m'.cpu.cop0.timerPending) =
    (m.cpu.cop0.halfCycle, m.cpu.cop0.timerOnLine7, m.cpu.cop0.timerPending)

/-- What the CPU is left with when an instruction raises an exception. -/
private theorem untouched_of_raised {m m' : Machine} (h : m.cpu.Raised m'.cpu)
    (hbus : m'.bus = m.bus) : Untouched m m' := by
  obtain ⟨c, bus⟩ := m
  obtain ⟨c', bus'⟩ := m'
  obtain ⟨k, fpu, -, hfloats, hmode, hcpu⟩ := h
  dsimp only at hfloats hmode hcpu hbus
  subst hcpu hbus
  -- Recording a condition writes the address registers and nothing else of the coprocessor
  obtain ⟨registers, pending, heq⟩ := c.cop0.recordCondition_eq k
  have hspace := congrArg Prod.snd (c.cop0.mapping_recordCondition k)
  refine {
    bus := rfl, gpr := rfl, hi := rfl, lo := rfl, floats := hfloats, floatMode := hmode
    tlb := rfl, linked := rfl, pc := rfl, nextPc := rfl, branchPending := rfl
    inDelaySlot := rfl, current := rfl, trace := rfl
    cop0 := fun r hbad hcontext hextended hhi => ?_
    addressSpace := hspace, decoded := ?_, timer := ?_ }
  · have hfault : r ∉ Cop0.faultRegisters := by
      simp [Cop0.faultRegisters, hbad, hcontext, hextended, hhi]
    exact c.cop0.get_recordCondition k hfault
  · simp only [Cpu.recordCondition, heq]
  · simp only [Cpu.recordCondition, heq]

/-- Exceptions are precise.  When an instruction that found nothing noted ends without a bus
fault and has noted a condition, nothing has changed but what describes the exception. -/
theorem execute_precise {word : UInt32} {pc : UInt64} {m m' : Machine} {k : Condition}
    (hclear : m.cpu.cop0.pending = none) (h : execute ⟨word⟩ pc m = .ok () m')
    (hraised : m'.cpu.cop0.pending = some k) : Untouched m m' := by
  -- An instruction that goes the other way notes nothing
  have hquiet : ∀ {c' : Cpu}, c'.cop0.pending = m.cpu.cop0.pending → m'.cpu = c' → False := by
    intro c' hpending hcpu
    rw [hcpu, hpending, hclear] at hraised
    exact nomatch hraised
  rcases execute_cases h with ⟨hcpu, hbus⟩ | hcompleted | ⟨hop, hcpu, hbus⟩
  · exact untouched_of_raised hcpu hbus
  · refine (hquiet ?_ rfl).elim
    rcases hcompleted.cop0 with hcop0 | ⟨v, hcop0⟩ <;> rw [hcop0]
    rfl
  · rcases m.cpu.performCop0_effect hop with heffect | hcompleted
    · exact untouched_of_raised (hcpu ▸ heffect) hbus
    · exact (hquiet hcompleted.pending hcpu).elim

/-- A load of the word at address 1, which is not aligned. -/
theorem untouched_of_misaligned_load :
    ∃ m', execute ⟨0x8C080001⟩ 0xFFFFFFFF80000000 (loaded 0xFFFFFFFF80000000 [] []) = .ok () m' ∧
      m'.cpu.cop0.pending = some (.address .addressErrorLoad 1) ∧
      Untouched (loaded 0xFFFFFFFF80000000 [] []) m' := by
  refine ⟨_, rfl, rfl, ?_⟩
  have hrun : execute ⟨0x8C080001⟩ 0xFFFFFFFF80000000 (loaded 0xFFFFFFFF80000000 [] []) =
      .ok () _ := rfl
  exact execute_precise rfl hrun rfl

end Machine

end Console64

import Console64.Proofs.CallTrace
import Console64.Proofs.Confinement

/-!
# Runs as sequences of instructions

A step of the interpreter, a run of a block and a call of the recompiler all drive the CPU
in the same way: one instruction after the other is carried out, up to its end or to a
fault of the bus.  What every instruction preserves is therefore preserved by all of them.

## Key results

- `Cpu.Event` / `Cpu.next`: an instruction, or the failed fetch of one, and what it leaves
- `Machine.comesTo_step`, `Block.comesTo_run`, `Recompiler.comesTo_executeWithin`: whatever
  drives a CPU leaves it as some events do
- `Cpu.ComesTo.preserves`: what each event preserves is preserved by all work
-/

namespace Console64

namespace Cpu

/-- What happens to a CPU at a time. -/
inductive Event where
  /-- The instruction `word` is carried out at `pc`, as far as the bus lets it. -/
  | carriedOut (word : UInt32) (pc : UInt64) (bus : Bus)
  /-- The instruction that is due cannot be fetched. -/
  | refused (k : Condition)

/-- The CPU after an event. -/
def next (c : Cpu) : Event → Cpu
  | .carriedOut word pc bus => (stateOf (Machine.carryOut word pc ⟨c, bus⟩)).cpu
  | .refused k => ((c.recordCondition k).begin c.pc 0).retire.1

/-- The CPU after one event after the other. -/
def after (c : Cpu) (events : List Event) : Cpu := events.foldl next c

/-- Events after other events. -/
theorem after_append (c : Cpu) (events events' : List Event) :
    c.after (events ++ events') = (c.after events).after events' := List.foldl_append

/-- Events lead from the one CPU to the other. -/
def ComesTo (c c' : Cpu) : Prop := ∃ events, c' = c.after events

namespace ComesTo

/-- No events, the same CPU. -/
theorem refl (c : Cpu) : c.ComesTo c := ⟨[], rfl⟩

/-- One event more. -/
theorem next {c c' : Cpu} (h : c.ComesTo c') (e : Event) : c.ComesTo (c'.next e) := by
  obtain ⟨events, rfl⟩ := h
  exact ⟨events ++ [e], by rw [after_append]; rfl⟩

/-- What each event preserves, all of them do. -/
theorem preserves {holds : Cpu → Prop} (hnext : ∀ {c} e, holds c → holds (c.next e)) {c c' : Cpu}
    (h : c.ComesTo c') (hc : holds c) : holds c' := by
  obtain ⟨events, rfl⟩ := h
  induction events generalizing c with
  | nil => exact hc
  | cons e events ih => exact ih (hnext e hc)

end ComesTo

end Cpu

namespace Machine

/-- A step is one event, if it gets as far as that. -/
theorem comesTo_step {c : Cpu} {m : Machine} (h : c.ComesTo m.cpu) :
    c.ComesTo (stateOf (step m)).cpu := by
  obtain ⟨d, bus⟩ := m
  rw [step_eq, stateOf_bind_pure]
  rcases stepOnPath_run d with ⟨k, -, hrun⟩ | ⟨p, -, hrun⟩
  · -- The fetch has raised an exception, which is taken at once
    rw [hrun bus]
    exact h.next (.refused k)
  · rw [hrun bus]
    cases hfetch : onBus (Bus.readValue p 4) ⟨d, bus⟩ with
    | error e m' =>
      rw [bind_of_error hfetch, stateOf_error, onBus_cpu_error hfetch]
      exact h
    | ok v m' =>
      obtain ⟨d', bus'⟩ := m'
      obtain rfl : d' = d := onBus_cpu hfetch
      rw [bind_of_ok hfetch]
      have hevent := h.next (.carriedOut v.toUInt32 d'.pc bus')
      simp only [Cpu.next, carryOut, interpret, bind_assoc] at hevent
      exact hevent

end Machine

namespace Block

/-- The words of a block are events, one for each. -/
private theorem comesTo_runFrom {b : Block} {pc : UInt64} {retired : Nat}
    {writes : List ByteRange} {code : List DecodedWord} {c : Cpu} {m : Machine}
    (h : c.ComesTo m.cpu) : c.ComesTo (stateOf (b.runFrom pc retired writes code m)).cpu := by
  -- Induction on the words left; taking the log does not touch the CPU
  induction code generalizing pc retired writes m with
  | nil => exact h
  | cons d rest ih =>
    have hevent := h.next (.carriedOut d.word pc m.bus)
    rw [runFrom_cons]
    cases hd : b.runInstruction d pc m with
    | error e m₁ =>
      rw [Cpu.next, runInstruction_error hd] at hevent
      exact hevent
    | ok answer m₁ =>
      obtain ⟨intact, more⟩ := answer
      obtain ⟨onPath, m₂, hrun, -, -, rfl⟩ := runInstruction_ok hd
      rw [Cpu.next, hrun] at hevent
      dsimp only
      split
      · exact hevent
      · exact ih hevent

/-- A run of a block is one event for each of its instructions, wherever it ends. -/
theorem comesTo_run (b : Block) {c : Cpu} {m : Machine} (h : c.ComesTo m.cpu) :
    c.ComesTo (stateOf (b.run m)).cpu := comesTo_runFrom h

end Block

namespace Recompiler

/-- Each part of a call consists of events. -/
private theorem accounting_comesTo (c : Cpu) : Accounting fun _ _ s => c.ComesTo s.2.cpu where
  prepare := by
    intro _ _ s h
    obtain ⟨result, s₁, hprepare, hprepared⟩ := prepare_run s.1 s.2
    -- Preparing looks at memory only
    rw [hprepare, stateOf_ok, hprepared.peeks.1]
    exact h
  interpret := by
    intro _ _ s reason h
    -- A step is one event, and a block is several of them
    have hstep := Machine.comesTo_step h
    rw [interpretOne_run]
    cases hrun : Machine.step s.2 <;> rw [hrun] at hstep <;> exact hstep
  block := by
    intro _ _ s b h
    obtain ⟨r, m⟩ := s
    have hblock := b.comesTo_run h
    rw [runBlock_run]
    cases hrun : b.run m <;> rw [hrun] at hblock <;> exact hblock
  chain := fun h => h

/-- So does the call, whether it succeeds or fails. -/
theorem comesTo_executeWithin (budget : Nat) (s : RunState) :
    s.2.cpu.ComesTo (stateOf (executeWithin budget s)).2.cpu :=
  @Accounting.executeWithin _ (accounting_comesTo s.2.cpu) [] [] s budget (.refl _)

end Recompiler

end Console64

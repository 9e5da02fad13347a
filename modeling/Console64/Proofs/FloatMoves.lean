import Console64.Proofs.BusUse
import Console64.Proofs.FirstVisit
import Console64.Proofs.FloatRegisters

/-!
# Moves to the floating-point registers and back

Words and doubles come to the floating-point registers from general registers and from memory, and
go back there.  The instructions go through the views of the register file, and set the mode that
the status asks for first.  So what was moved there is found again in the same mode, whatever
happens in between that leaves the registers alone.

## Key results

- `Machine.registers_execute`: what an instruction that moves something there writes
- `Machine.Moves`: a run of the machine with the writes that it makes
- `Machine.float_registers`: the views after any writes, and what is moved back
-/

namespace Console64

/-- The instruction moves a word or a double into a floating-point register: MTC1, DMTC1, LWC1 or
LDC1. -/
def Instruction.entersFloat (i : Instruction) : Bool :=
  if i.opcode = 0x11 then i.fmt = 0x04 || i.fmt = 0x05 else i.opcode = 0x31 || i.opcode = 0x35

/-- The write of a pattern of format `f`. -/
def FpuWrite.ofFloat (f : FloatFormat) (r : RegisterIndex) (v : UInt64) : FpuWrite :=
  match f with
  | .single => word r v.toUInt32
  | .double => double r v

/-- It writes the pattern in that format. -/
theorem Fpu.apply_ofFloat (u : Fpu) (f : FloatFormat) (r : RegisterIndex) (v : UInt64) :
    u.apply (.ofFloat f r v) = u.writeFloat f r v := by
  cases f <;> rfl

namespace Machine

/-- The floating-point registers are in the mode that the status asks for. -/
def following (m : Machine) : Machine := { m with cpu := m.cpu.followStatus }

/-- What a load to a floating-point register writes: nothing if it raises an exception or fails. -/
def loadedFloat (i : Instruction) (f : FloatFormat) (size : Nat) (m : Machine) : List FpuWrite :=
  match load (m.cpu.effectiveAddress i) size m.following with
  | .ok (some v) _ => [.ofFloat f i.ft v]
  | _ => []

/-- What the instruction writes to the floating-point registers: nothing if they are not usable. -/
def floatWrites (i : Instruction) (m : Machine) : List FpuWrite :=
  if m.cpu.cop0.status.usable 1 then
    match i.opcode with
    | 0x11 =>
      match i.fmt with
      | 0x04 => [.word i.fs (m.cpu.reg i.rt).toUInt32]
      | 0x05 => [.double i.fs (m.cpu.reg i.rt)]
      | _ => []
    | 0x31 => m.loadedFloat i .single 4
    | 0x35 => m.loadedFloat i .double 8
    | _ => []
  else []

/-! ## What the instructions do -/

variable {i : Instruction} {pc : UInt64} {m m' : Machine}

/-- A load leaves the floating-point unit alone. -/
theorem fpu_load {a : UInt64} {size : Nat} {v : Option UInt64} (h : load a size m = .ok v m') :
    m'.cpu.fpu = m.cpu.fpu := by
  obtain ⟨physical, m₁, htranslate, hload⟩ := bind_eq_ok h
  rcases m.cpu.translateAligned_cases a size .load with ⟨p, -, -, heq⟩ | ⟨k, -, heq⟩
  · simp only [onCpu, heq] at htranslate
    cases htranslate
    obtain ⟨w, m₂, hread, hanswer⟩ := bind_eq_ok hload
    cases hanswer
    rw [onBus_cpu hread]
  · -- The exception is noted in the other coprocessor
    simp only [onCpu, heq] at htranslate
    cases htranslate
    cases hload
    rfl

/-- With the coprocessor usable the registers are put into the mode of the status, and then the work
is done; -/
theorem ifFpuUsable_of_usable (h : m.cpu.cop0.status.usable 1 = true) (x : MachineM Unit) :
    ifFpuUsable x m = x m.following := by
  have hasked : withCpu (·.cop0.status.usable 1) m = .ok true m := by
    rw [← h]
    rfl
  rw [ifFpuUsable, bind_of_ok hasked]
  rfl

/-- otherwise an exception is noted instead. -/
theorem ifFpuUsable_of_unusable (h : m.cpu.cop0.status.usable 1 = false) (x : MachineM Unit) :
    ifFpuUsable x m = .ok () ⟨m.cpu.recordCondition (.coprocessorUnusable 1), m.bus⟩ := by
  have hasked : withCpu (·.cop0.status.usable 1) m = .ok false m := by
    rw [← h]
    rfl
  rw [ifFpuUsable, bind_of_ok hasked]
  rfl

/-- The instructions of the unit change the CPU alone, -/
private theorem execute_fpu (hop : i.opcode = 0x11) :
    execute i pc m = .ok () ⟨m.cpu.ifFpuUsable (Cpu.performFpu i pc), m.bus⟩ := by
  simp only [execute, hop]
  show EStateM.Result.ok () (Machine.mk (m.cpu.perform i pc) m.bus) = _
  simp only [Cpu.perform, hop]

/-- in the mode of the status if it is usable. -/
private theorem execute_fpu_of_usable (hop : i.opcode = 0x11)
    (h : m.cpu.cop0.status.usable 1 = true) :
    execute i pc m = .ok () ⟨Cpu.performFpu i pc m.cpu.followStatus, m.bus⟩ := by
  rw [execute_fpu hop, Cpu.ifFpuUsable, h]
  rfl

/-- A load to a floating-point register. -/
private theorem registers_loadFloat {f : FloatFormat} {size : Nat}
    (h : loadFloat i f size m.following = .ok () m') :
    m'.cpu.fpu.registers =
      (m.following.cpu.fpu.writeAll (m.loadedFloat i f size)).registers := by
  obtain ⟨v, m₁, hload, huse⟩ := bind_eq_ok (x := load (m.cpu.effectiveAddress i) size) h
  have hfpu := fpu_load hload
  rw [loadedFloat, hload]
  -- A load that is refused writes nothing
  cases v with
  | none =>
    cases huse
    exact congrArg Fpu.registers hfpu
  | some v =>
    cases huse
    show (m₁.cpu.fpu.writeFloat f i.ft v).registers = _
    rw [hfpu, ← Fpu.apply_ofFloat]
    rfl

/-- An instruction that moves something to the floating-point registers makes its writes, in the
mode of the status, and no others. -/
theorem registers_execute (hin : i.entersFloat = true) (hrun : execute i pc m = .ok () m') :
    m'.cpu.fpu.registers =
      ((m.cpu.fpu.inMode m.cpu.cop0.status.fr).writeAll (m.floatWrites i)).registers := by
  rw [floatWrites]
  -- Nothing is written by an instruction that only notes an exception
  cases husable : m.cpu.cop0.status.usable 1 with
  | false =>
    rw [Instruction.entersFloat] at hin
    split at hin
    case isTrue hop =>
      rw [execute_fpu hop, Cpu.ifFpuUsable, husable] at hrun
      cases hrun
      rfl
    case isFalse =>
      have hop : i.opcode = 0x31 ∨ i.opcode = 0x35 := by simpa using hin
      rcases hop with hop | hop <;>
      · simp only [execute, hop, ifFpuUsable_of_unusable husable] at hrun
        cases hrun
        rfl
  | true =>
    rw [if_pos rfl]
    rw [Instruction.entersFloat] at hin
    split at hin
    case isTrue hop =>
      rw [execute_fpu_of_usable hop husable] at hrun
      have hfmt : i.fmt = 0x04 ∨ i.fmt = 0x05 := by simpa using hin
      cases hrun
      rcases hfmt with hfmt | hfmt <;> simp only [hop, Cpu.performFpu, hfmt] <;> rfl
    case isFalse =>
      have hop : i.opcode = 0x31 ∨ i.opcode = 0x35 := by simpa using hin
      rcases hop with hop | hop <;>
      · simp only [execute, hop, ifFpuUsable_of_usable husable] at hrun
        simp only [hop]
        exact registers_loadFloat hrun

/-! ## Runs -/

/-- The machine comes from one state to the other, while these writes are made to the
floating-point registers by instructions that move something there in one register mode.  In
between anything may happen that leaves the registers alone. -/
inductive Moves (wide : Bool) (m : Machine) : List FpuWrite → Machine → Prop
  | refl : Moves wide m [] m
  | move {ws : List FpuWrite} {m₁ m₂ : Machine} {i : Instruction} {pc : UInt64}
      (h : Moves wide m ws m₁) (hin : i.entersFloat = true)
      (hmode : m₁.cpu.cop0.status.fr = wide) (hrun : execute i pc m₁ = .ok () m₂) :
      Moves wide m (ws ++ m₁.floatWrites i) m₂
  | other {ws : List FpuWrite} {m₁ m₂ : Machine} (h : Moves wide m ws m₁)
      (hkept : m₂.cpu.fpu.registers = m₁.cpu.fpu.registers) : Moves wide m ws m₂

/-- What becomes of the registers in a run is what the writes make of them. -/
theorem Moves.registers {wide : Bool} {ws : List FpuWrite} (h : Moves wide m ws m') :
    m'.cpu.fpu.registers = ((m.cpu.fpu.inMode wide).writeAll ws).registers := by
  induction h with
  | refl => rfl
  | @move ws m₁ m₂ i pc hbefore hin hmode hrun ih =>
    -- What has been written before leaves the mode, so that the rest is written in the same one
    have hwide : (m₁.cpu.fpu.inMode wide).wide = ((m.cpu.fpu.inMode wide).writeAll ws).wide :=
      (Fpu.wide_writeAll (m.cpu.fpu.inMode wide) ws).symm
    calc m₂.cpu.fpu.registers
      _ = ((m₁.cpu.fpu.inMode wide).writeAll (m₁.floatWrites i)).registers := by
        rw [registers_execute hin hrun, hmode]
      _ = (((m.cpu.fpu.inMode wide).writeAll ws).writeAll (m₁.floatWrites i)).registers :=
        Fpu.registers_writeAll_congr (u := m₁.cpu.fpu.inMode wide) ih hwide _
      _ = ((m.cpu.fpu.inMode wide).writeAll (ws ++ m₁.floatWrites i)).registers := by
        rw [Fpu.writeAll, Fpu.writeAll, Fpu.writeAll, List.foldl_append]
  | other hbefore hkept ih => exact hkept.trans ih

/-! ## Moving back -/

/-- The instructions that move something out of the floating-point registers find the views of
`file` there: MFC1, DMFC1, SWC1 and SDC1. -/
structure ReadsBack (m : Machine) (file : Fpu) : Prop where
  word : ∀ (i : Instruction) (pc : UInt64), i.opcode = 0x11 → i.fmt = 0x00 →
    execute i pc m =
      .ok () ⟨m.cpu.followStatus.setGpr i.rt (signExtend32 (file.readWord i.fs)), m.bus⟩
  double : ∀ (i : Instruction) (pc : UInt64), i.opcode = 0x11 → i.fmt = 0x01 →
    execute i pc m = .ok () ⟨m.cpu.followStatus.setGpr i.rt (file.readDouble i.fs), m.bus⟩
  storedWord : ∀ (i : Instruction) (pc : UInt64), i.opcode = 0x39 →
    execute i pc m =
      discard (store (m.cpu.effectiveAddress i) 4 (file.readWord i.ft).toUInt64) m.following
  storedDouble : ∀ (i : Instruction) (pc : UInt64), i.opcode = 0x3D →
    execute i pc m =
      discard (store (m.cpu.effectiveAddress i) 8 (file.readDouble i.ft)) m.following

/-- So they do, if the registers and the mode are those of the file. -/
theorem readsBack {file : Fpu} (husable : m.cpu.cop0.status.usable 1 = true)
    (hmode : m.cpu.cop0.status.fr = file.wide) (hregisters : m.cpu.fpu.registers = file.registers) :
    m.ReadsBack file := by
  have hword : ∀ r, m.cpu.followStatus.fpu.readWord r = file.readWord r :=
    Fpu.readWord_congr (u := m.cpu.followStatus.fpu) hregisters hmode
  have hdouble : ∀ r, m.cpu.followStatus.fpu.readDouble r = file.readDouble r :=
    Fpu.readDouble_congr (u := m.cpu.followStatus.fpu) hregisters hmode
  -- The two moves to the integer side and the two stores, each by the register that it reads
  refine ⟨?word, ?double, ?storedWord, ?storedDouble⟩
  case word =>
    intro i pc hop hfmt
    rw [execute_fpu_of_usable hop husable, ← hword]
    simp only [Cpu.performFpu, hfmt]
  case double =>
    intro i pc hop hfmt
    rw [execute_fpu_of_usable hop husable, ← hdouble]
    simp only [Cpu.performFpu, hfmt]
  case storedWord =>
    intro i pc hop
    simp only [execute, hop, ifFpuUsable_of_usable husable, ← hword]
    rfl
  case storedDouble =>
    intro i pc hop
    simp only [execute, hop, ifFpuUsable_of_usable husable, ← hdouble]
    rfl

/-- The two views of the floating-point registers make one register file, in either mode.  What
is moved there in a run is found there again in the same mode. -/
theorem float_registers :
    (∀ (u : Fpu) (ws : List FpuWrite), Fpu.Views u ws) ∧
      ∀ {wide : Bool} {m m' : Machine} {ws : List FpuWrite}, Moves wide m ws m' →
        m'.cpu.cop0.status.usable 1 = true → m'.cpu.cop0.status.fr = wide →
        m'.ReadsBack ((m.cpu.fpu.inMode wide).writeAll ws) := by
  refine ⟨Fpu.views, ?_⟩
  intro wide m m' ws hmoves husable hmode
  have hfile : ((m.cpu.fpu.inMode wide).writeAll ws).wide = wide := Fpu.wide_writeAll _ ws
  exact readsBack husable (hmode.trans hfile.symm) hmoves.registers

/-- A machine with narrow registers, and a word each in a general register and in memory. -/
def pairing : Machine :=
  let m := loaded 0 [(8, 0x01234567), (9, 0xFFFFFFFFA0000100)] [(.rdram, 0x100, 0x89ABCDEF)]
  { m with cpu := m.cpu.writeStatus 0x20000000 }

/-- MTC1 $8, $f3 and LWC1 $f2, 0($9) make up the double that DMFC1 $10, $f2 reads. -/
theorem float_registers_pairing :
    ∃ m', Moves false pairing [.word 3 0x01234567, .word 2 0x89ABCDEF] m' ∧
      execute ⟨0x442A1000⟩ 8 m' =
        .ok () ⟨m'.cpu.followStatus.setGpr 10 0x0123456789ABCDEF, m'.bus⟩ := by
  -- The two moves are evaluated, and the double that is read back is the theorem's
  obtain ⟨m₁, hfirst⟩ := exists_ok_of_answerOf (r := execute ⟨0x44881800⟩ 0 pairing) (a := ())
    (by decide +kernel)
  have hm₁ : m₁ = stateOf (execute ⟨0x44881800⟩ 0 pairing) := by rw [hfirst]; rfl
  obtain ⟨m', hsecond⟩ := exists_ok_of_answerOf (r := execute ⟨0xC5220000⟩ 4 m₁) (a := ())
    (by rw [hm₁]; decide +kernel)
  have hm' : m' = stateOf (execute ⟨0xC5220000⟩ 4 m₁) := by rw [hsecond]; rfl
  have hwrites : pairing.floatWrites ⟨0x44881800⟩ ++ m₁.floatWrites ⟨0xC5220000⟩ =
      [.word 3 0x01234567, .word 2 0x89ABCDEF] := by
    rw [hm₁]
    decide +kernel
  have hmoves : Moves false pairing [.word 3 0x01234567, .word 2 0x89ABCDEF] m' := by
    have hone : Moves false pairing _ m₁ :=
      .move .refl (by decide) (by decide +kernel) hfirst
    rw [← hwrites]
    exact .move hone (by decide) (by rw [hm₁]; decide +kernel) hsecond
  have hback := float_registers.2 hmoves (by rw [hm', hm₁]; decide +kernel)
    (by rw [hm', hm₁]; decide +kernel)
  have hdouble : ((pairing.cpu.fpu.inMode false).writeAll
      [.word 3 0x01234567, .word 2 0x89ABCDEF]).readDouble 2 = 0x0123456789ABCDEF := by
    decide +kernel
  refine ⟨m', hmoves, (hback.double ⟨0x442A1000⟩ 8 (by decide) (by decide)).trans ?_⟩
  rw [← hdouble]
  rfl

end Machine

end Console64

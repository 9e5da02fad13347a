import Console64.Block.Execute
import Console64.Proofs.Frame

/-!
# Decoded operations ↔ instruction words

This file proves that the two ways to carry out an instruction word agree: taken
apart by `Op.decode` and run by `Machine.runOp`, or left to `Machine.execute`.
They agree on every word and in every state of the machine, faults included.

## Key results

- `runOp_decode`: both ways are the same work on the machine
- `runInstruction_run`: an instruction of a block is begun, carried out and retired as
  the interpreter does it, except that its writes are taken from the log
- `execute_staticTarget`: the target that a decoded branch announces is the one the
  interpreter jumps to
- `decode_agrees`: all of it together
-/

namespace Console64

/-! ## Arithmetic of the two forms -/

/-- Adding 32 to a shift amount does not overflow, so it commutes with widening. -/
theorem Instruction.toUInt64_sa_add (i : Instruction) :
    (i.sa + 32).toUInt64 = i.sa.toUInt64 + 32 := by
  have hlt : i.sa.toNat < 32 := by
    simp only [Instruction.sa, UInt32.toNat_and]
    exact Nat.lt_of_le_of_lt Nat.and_le_right (by decide)
  apply UInt64.toNat_inj.mp
  simp only [UInt32.toNat_toUInt64, UInt32.toNat_add, UInt64.toNat_add, UInt32.toNat_ofNat,
    UInt64.toNat_ofNat]
  omega

/-- A 16-bit value shifted up as a register or as a word has the same image. -/
theorem signExtend16_shift (h : UInt16) :
    signExtend16 h <<< (16 : UInt64) = signExtend32 (h.toUInt32 <<< 16) := by
  apply UInt64.eq_of_toBitVec_eq
  simp only [signExtend16, signExtend32]
  ext k hk
  simp [BitVec.getElem_signExtend, BitVec.msb_eq_getLsbD_last]
  -- Zeros, then the sixteen bits, then copies of the sign
  by_cases h16 : k < 16
  · simp [h16, show k < 32 by omega]
  · by_cases h32 : k < 32
    · simp [h16, h32, show k - 16 < 16 by omega]
    · have hge : ¬k - 16 < 16 := by omega
      simp [h16, h32, hge]

/-- The signed reading of a register is zero only for zero. -/
private theorem eq_zero_iff_toInt (a : UInt64) : a = 0 ↔ a.toInt64.toInt = 0 := by
  constructor
  · rintro rfl
    rfl
  · intro h
    have h : a.toInt64 = 0 := Int64.toInt_inj.mp h
    rw [← UInt64.toUInt64_toInt64 a, h]
    rfl

/-- The two tests for a positive register agree. -/
theorem lessSigned_zero (a : UInt64) : lessSigned 0 a = (!isNegative a && a ≠ 0) := by
  simp only [lessSigned, isNegative]
  rw [Bool.eq_iff_iff]
  simp [Int64.lt_iff_toInt_lt, eq_zero_iff_toInt]
  omega

/-! ## One word, both ways -/

namespace Machine

/-- The interpreter leaves opcode 0 to `Cpu.performSpecial`. -/
private theorem execute_special (i : Instruction) (pc : UInt64) (h : i.opcode = 0) :
    execute i pc = modifyCpu (·.performSpecial i pc) := by
  simp only [execute, Cpu.perform, h]
  rfl

/-- The interpreter leaves opcode 1 to `Cpu.performRegisterImmediate`. -/
private theorem execute_registerImmediate (i : Instruction) (pc : UInt64) (h : i.opcode = 1) :
    execute i pc = modifyCpu (·.performRegisterImmediate i pc) := by
  simp only [execute, Cpu.perform, h]
  rfl

/-- Opcode 0: the decoded operation is what the function code says. -/
private theorem runOp_decodeSpecial (i : Instruction) (pc : UInt64) (h : i.opcode = 0) :
    runOp (Op.decodeSpecial i) pc = modifyCpu (·.performSpecial i pc) := by
  unfold Op.decodeSpecial
  split
  case h_40 => exact execute_special i pc h
  all_goals
    rename_i hf
    simp only [runOp, Cpu.performSpecial, hf]
    try rfl
  -- Left: the shifts whose amount the decoder widens or masks in another place
  case h_1 | h_2 =>
    simp only [Cpu.runShift, ShiftOp.apply, ShiftOp.isWide, UInt32.toUInt32_toUInt64,
      Bool.false_eq_true, ↓reduceIte]
  case h_4 | h_5 =>
    simp only [Cpu.runShift, ShiftOp.apply, ShiftOp.isWide, ShiftOp.amountMask,
      UInt64.toUInt32_and, Bool.false_eq_true, ↓reduceIte]
    rfl
  case h_37 | h_38 | h_39 =>
    rw [Instruction.toUInt64_sa_add]
    rfl

/-- A decoded word does the same work as the word itself. -/
theorem runOp_decode (word : UInt32) (pc : UInt64) :
    runOp (Op.decode word) pc = execute ⟨word⟩ pc := by
  unfold Op.decode
  dsimp only
  split
  case h_1 h => rw [execute_special _ _ h, runOp_decodeSpecial _ _ h]
  case h_2 h =>
    rw [execute_registerImmediate _ _ h]
    -- Two of the branches have operations of their own
    split
    case h_3 => exact execute_registerImmediate _ _ h
    all_goals
      rename_i ht
      simp only [runOp, Cpu.performRegisterImmediate, ht]
      rfl
  case h_30 => rfl
  all_goals
    rename_i h
    simp only [execute, h]
    -- This closes the loads and stores
    try rfl
  all_goals simp only [runOp, Cpu.perform, h]
  -- The rest stays inside the CPU, and the tests of its branches read differently
  case h_5 | h_6 =>
    simp only [beq_true, beq_false, decide_not]
    rfl
  case h_7 | h_8 =>
    simp only [SignTest.holds, lessSigned_zero]
    rfl
  case h_16 =>
    simp only [signExtend16_shift]
    rfl
  all_goals rfl

/-! ## Whole instructions -/

/-- Begin the instruction `word` at `pc`, and carry it out straight from its fields. -/
def interpret (word : UInt32) (pc : UInt64) : MachineM Unit := do
  modifyCpu (·.begin pc word)
  execute ⟨word⟩ pc

/-- Begin the instruction `word` at `pc`, and carry out what it decodes to. -/
def runDecoded (word : UInt32) (pc : UInt64) : MachineM Unit := do
  modifyCpu (·.begin pc word)
  runOp (Op.decode word) pc

/-- The whole of an instruction after its fetch. -/
def carryOut (word : UInt32) (pc : UInt64) : MachineM Bool := do
  interpret word pc
  retire

/-- Take the writes that the bus has recorded. -/
def takeWrites : MachineM (List ByteRange) := onBus fun bus =>
  let (writes, bus) := bus.takeWrites
  .ok writes bus

/-- Beginning an instruction commutes with the choice of how to carry it out. -/
theorem runDecoded_eq (word : UInt32) (pc : UInt64) : runDecoded word pc = interpret word pc := by
  simp only [runDecoded, interpret, runOp_decode]

/-- A step whose fetch succeeds carries out the word fetched. -/
theorem step_of_fetch {m m' : Machine} {word : UInt32}
    (h : fetch m.cpu.pc m = .ok (some word) m') :
    step m = (carryOut word m.cpu.pc >>= fun _ => pure ()) m' := by
  have hpc : withCpu (·.pc) m = .ok m.cpu.pc m := rfl
  rw [step, bind_of_ok hpc, bind_of_ok h]
  simp only [carryOut, interpret, bind_assoc]
  rfl

end Machine

/-- An instruction of a block does what the interpreter does, and hands over the writes
at the end: when it is carried out without a fault, only the log differs. -/
theorem Block.runInstruction_eq (b : Block) (d : DecodedWord) (pc : UInt64) :
    b.runInstruction d pc = (do
      let onPath ← Machine.carryOut d.word pc
      let writes ← Machine.takeWrites
      return (onPath && !writes.any b.overlaps, writes)) := by
  -- The CPU retires the instruction and the bus hands over its log: either may go first
  have hswap : ∀ m, (do
      let writes ← Machine.takeWrites
      let onPath ← Machine.retire
      return (onPath && !writes.any b.overlaps, writes) : MachineM _) m = (do
      let onPath ← Machine.retire
      let writes ← Machine.takeWrites
      return (onPath && !writes.any b.overlaps, writes) : MachineM _) m := fun _ => rfl
  simp only [Block.runInstruction, Machine.carryOut, Machine.interpret, d.op_eq,
    Machine.runOp_decode, bind_assoc]
  funext m
  refine congrFun (congrArg _ (funext fun _ => congrArg _ (funext fun _ => funext hswap))) m

/-! ## Static targets -/

/-- The condition under which a branch or jump is taken. -/
def Op.taken (op : Op) (c : Cpu) : Bool :=
  match op with
  | .branchEqual equal rs rt _ => (c.reg rs == c.reg rt) == equal
  | .branchSign test rs _ => test.holds (c.reg rs)
  | _ => true

/-- The CPU after a jump at `pc` has left its return address, if it does. -/
def Op.leaveReturn (op : Op) (pc : UInt64) (c : Cpu) : Cpu :=
  match op with
  | .jump true _ => c.setGpr 31 (pc + 8)
  | _ => c

/-- A target that can be told from the word is where the interpreter goes when the
branch is taken, and it does nothing else but leave a return address. -/
theorem Machine.execute_staticTarget {word : UInt32} {pc t : UInt64}
    (h : (Op.decode word).staticTarget pc = some t) (m : Machine) :
    Machine.execute ⟨word⟩ pc m =
      .ok () ⟨((Op.decode word).leaveReturn pc m.cpu).branch t ((Op.decode word).taken m.cpu),
        m.bus⟩ := by
  rw [← Machine.runOp_decode]
  -- Only three operations announce a target
  cases hop : Op.decode word with
  | branchEqual equal rs rt offset =>
    rw [hop] at h
    cases h
    rfl
  | branchSign test rs offset =>
    rw [hop] at h
    cases h
    rfl
  | jump linked target =>
    rw [hop] at h
    cases h
    cases linked <;> rfl
  | _ =>
    rw [hop] at h
    exact nomatch h

/-! ## Agreement -/

/-- What an instruction of a block does from a given machine, told by what the
interpreter does. -/
theorem Block.runInstruction_run (b : Block) (d : DecodedWord) (pc : UInt64) (m : Machine) :
    b.runInstruction d pc m =
      match Machine.carryOut d.word pc m with
      | .ok onPath m' =>
        .ok (onPath && !m'.bus.takeWrites.1.any b.overlaps, m'.bus.takeWrites.1)
          { m' with bus := m'.bus.takeWrites.2 }
      | .error e m' => .error e m' := by
  rw [Block.runInstruction_eq]
  cases h : Machine.carryOut d.word pc m with
  | ok onPath m' => exact bind_of_ok h
  | error e m' => exact bind_of_error h

/-- On every word, at every address and from every machine, decoding first makes no
difference: not to the answer or fault, not to the CPU or a device, not before the end
of the instruction and not after it.  In a block, all that differs is that the log has
been taken.  And a target that decoding announces is the interpreter's. -/
theorem decode_agrees (word : UInt32) (pc : UInt64) :
    (∀ m, Machine.runDecoded word pc m = Machine.interpret word pc m) ∧
    (∀ m, (Machine.runDecoded word pc >>= fun _ => Machine.retire) m =
      (Machine.interpret word pc >>= fun _ => Machine.retire) m) ∧
    (∀ (b : Block) m, b.runInstruction { word } pc m =
      match Machine.carryOut word pc m with
      | .ok onPath m' =>
        .ok (onPath && !m'.bus.takeWrites.1.any b.overlaps, m'.bus.takeWrites.1)
          { m' with bus := m'.bus.takeWrites.2 }
      | .error e m' => .error e m') ∧
    ∀ t, (Op.decode word).staticTarget pc = some t → ∀ m,
      Machine.execute ⟨word⟩ pc m =
        .ok () ⟨((Op.decode word).leaveReturn pc m.cpu).branch t
          ((Op.decode word).taken m.cpu), m.bus⟩ := by
  refine ⟨fun m => ?_, fun m => ?_, fun b m => ?_, fun t ht m => ?_⟩
  · rw [Machine.runDecoded_eq]
  · rw [Machine.runDecoded_eq]
  · exact b.runInstruction_run { word } pc m
  · exact Machine.execute_staticTarget ht m

end Console64

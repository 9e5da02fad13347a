import Console64.Machine.Basic

/-! # The interpreter

One instruction at a time, straight from its fields.  Instructions that stay
inside the CPU are functions on it (`Cpu.perform`); those that use memory are
work on the whole machine (`Machine.execute`).  `step` fetches, carries out and
retires one instruction. -/

namespace Console64

namespace Cpu

/-! ## Instructions on registers -/

/-- Opcode 0: operations on registers, by their function code. -/
def performSpecial (c : Cpu) (i : Instruction) (pc : UInt64) : Cpu :=
  let rs := c.reg i.rs
  let rt := c.reg i.rt
  let sa := i.sa.toUInt64
  let rtWord := rt.toUInt32
  let set := c.setGpr i.rd
  let set32 (w : UInt32) := c.setGpr i.rd (signExtend32 w)
  match i.funct with
  | 0x00 => set32 (rtWord <<< i.sa) -- SLL
  | 0x02 => set32 (rtWord >>> i.sa) -- SRL
  | 0x03 => set32 (shiftRightSigned rt sa).toUInt32 -- SRA works on the whole register
  | 0x04 => set32 (rtWord <<< (rs.toUInt32 &&& 0x1F)) -- SLLV
  | 0x06 => set32 (rtWord >>> (rs.toUInt32 &&& 0x1F)) -- SRLV
  | 0x07 => set32 (shiftRightSigned rt (rs &&& 0x1F)).toUInt32 -- SRAV
  | 0x08 => c.branch rs true -- JR
  | 0x09 => (c.setGpr i.rd (pc + 8)).branch rs true -- JALR
  | 0x0C => c.raise .syscall -- SYSCALL
  | 0x0D => c.raise .breakpoint -- BREAK
  | 0x0F => c -- SYNC
  | 0x10 => set c.hi -- MFHI
  | 0x11 => c.setHi rs -- MTHI
  | 0x12 => set c.lo -- MFLO
  | 0x13 => c.setLo rs -- MTLO
  | 0x14 => c.ifWide (·.setGpr i.rd (rt <<< (rs &&& 0x3F))) -- DSLLV
  | 0x16 => c.ifWide (·.setGpr i.rd (rt >>> (rs &&& 0x3F))) -- DSRLV
  | 0x17 => c.ifWide (·.setGpr i.rd (shiftRightSigned rt (rs &&& 0x3F))) -- DSRAV
  | 0x18 => c.multiply32 rs rt -- MULT
  | 0x19 => c.multiplyUnsigned32 rs rt -- MULTU
  | 0x1A => c.divide32 rs rt -- DIV
  | 0x1B => c.divideUnsigned32 rs rt -- DIVU
  | 0x1C => c.ifWide (·.multiply64 rs rt) -- DMULT
  | 0x1D => c.ifWide (·.multiplyUnsigned64 rs rt) -- DMULTU
  | 0x1E => c.ifWide (·.divide64 rs rt) -- DDIV
  | 0x1F => c.ifWide (·.divideUnsigned64 rs rt) -- DDIVU
  | 0x20 => c.setOrOverflow i.rd ((addChecked32 rs.toUInt32 rtWord).map signExtend32) -- ADD
  | 0x21 => set32 (rs.toUInt32 + rtWord) -- ADDU
  | 0x22 => c.setOrOverflow i.rd ((subChecked32 rs.toUInt32 rtWord).map signExtend32) -- SUB
  | 0x23 => set32 (rs.toUInt32 - rtWord) -- SUBU
  | 0x24 => set (rs &&& rt) -- AND
  | 0x25 => set (rs ||| rt) -- OR
  | 0x26 => set (rs ^^^ rt) -- XOR
  | 0x27 => set (~~~(rs ||| rt)) -- NOR
  | 0x2A => set (flag (lessSigned rs rt)) -- SLT
  | 0x2B => set (flag (rs < rt)) -- SLTU
  | 0x2C => c.ifWide (·.setOrOverflow i.rd (addChecked64 rs rt)) -- DADD
  | 0x2D => c.ifWide (·.setGpr i.rd (rs + rt)) -- DADDU
  | 0x2E => c.ifWide (·.setOrOverflow i.rd (subChecked64 rs rt)) -- DSUB
  | 0x2F => c.ifWide (·.setGpr i.rd (rs - rt)) -- DSUBU
  | 0x30 => c.trapIf (!lessSigned rs rt) -- TGE
  | 0x31 => c.trapIf (rt ≤ rs) -- TGEU
  | 0x32 => c.trapIf (lessSigned rs rt) -- TLT
  | 0x33 => c.trapIf (rs < rt) -- TLTU
  | 0x34 => c.trapIf (rs = rt) -- TEQ
  | 0x36 => c.trapIf (rs ≠ rt) -- TNE
  | 0x38 => c.ifWide (·.setGpr i.rd (rt <<< sa)) -- DSLL
  | 0x3A => c.ifWide (·.setGpr i.rd (rt >>> sa)) -- DSRL
  | 0x3B => c.ifWide (·.setGpr i.rd (shiftRightSigned rt sa)) -- DSRA
  | 0x3C => c.ifWide (·.setGpr i.rd (rt <<< (sa + 32))) -- DSLL32
  | 0x3E => c.ifWide (·.setGpr i.rd (rt >>> (sa + 32))) -- DSRL32
  | 0x3F => c.ifWide (·.setGpr i.rd (shiftRightSigned rt (sa + 32))) -- DSRA32
  | _ => c.raise .reservedInstruction

/-- Opcode 1: branches and traps on one register, by the second register field. -/
def performRegisterImmediate (c : Cpu) (i : Instruction) (pc : UInt64) : Cpu :=
  let rs := c.reg i.rs
  let immediate := i.signedImmediate
  let target := i.branchTarget pc
  let negative := isNegative rs
  let linked := c.setGpr 31 (pc + 8)
  match i.rt.val with
  | 0x00 => c.branch target negative -- BLTZ
  | 0x01 => c.branch target (!negative) -- BGEZ
  | 0x02 => c.branchLikely target negative -- BLTZL
  | 0x03 => c.branchLikely target (!negative) -- BGEZL
  | 0x08 => c.trapIf (!lessSigned rs immediate) -- TGEI
  | 0x09 => c.trapIf (immediate ≤ rs) -- TGEIU
  | 0x0A => c.trapIf (lessSigned rs immediate) -- TLTI
  | 0x0B => c.trapIf (rs < immediate) -- TLTIU
  | 0x0C => c.trapIf (rs = immediate) -- TEQI
  | 0x0E => c.trapIf (rs ≠ immediate) -- TNEI
  | 0x10 => linked.branch target negative -- BLTZAL
  | 0x11 => linked.branch target (!negative) -- BGEZAL
  | 0x12 => linked.branchLikely target negative -- BLTZALL
  | 0x13 => linked.branchLikely target (!negative) -- BGEZALL
  | _ => c.raise .reservedInstruction

/-! ## The system control coprocessor -/

/-- The entry that a write to the TLB stores: an entry is global
only if both halves say so. -/
def entryFromRegisters (c : Cpu) : TlbEntry :=
  let lo0 := c.cop0.get Cop0.entryLo0
  let lo1 := c.cop0.get Cop0.entryLo1
  let isGlobal := lo0 &&& lo1 &&& 1
  { pageMask := (c.cop0.get Cop0.pageMask).toUInt32
    hi := c.cop0.get Cop0.entryHi
    lo0 := (lo0 &&& ~~~1) ||| isGlobal
    lo1 := (lo1 &&& ~~~1) ||| isGlobal }

/-- The entry number in a coprocessor register. -/
def entryIndex (c : Cpu) (r : RegisterIndex) : Fin 32 := Fin.ofNat 32 (c.cop0.get r).toNat

/-- TLBWI and TLBWR: write the entry that register `r` numbers. -/
def writeEntry (c : Cpu) (r : RegisterIndex) : Cpu :=
  { c with tlb := c.tlb.write (c.entryIndex r) c.entryFromRegisters }

/-- TLBR: read the entry that the index register numbers. -/
def readEntry (c : Cpu) : Cpu :=
  let e := c.tlb.read (c.entryIndex Cop0.index)
  let isGlobal := e.lo0 &&& e.lo1 &&& 1
  { c with
    cop0 := (((c.cop0.put Cop0.pageMask e.pageMask.toUInt64).put Cop0.entryHi e.hi).put
      Cop0.entryLo0 ((e.lo0 &&& ~~~1) ||| isGlobal)).put
      Cop0.entryLo1 ((e.lo1 &&& ~~~1) ||| isGlobal) }

/-- TLBP: find the entry for the address in the entry register. -/
def probeEntry (c : Cpu) : Cpu :=
  let found := match c.tlb.probe (c.cop0.get Cop0.entryHi) with
    | some n => UInt64.ofNat n.val
    | none => 0x80000000
  { c with cop0 := c.cop0.put Cop0.index found }

/-- ERET: leave an exception, without a delay slot. -/
def exceptionReturn (c : Cpu) : Cpu :=
  let (target, cop0) := c.cop0.leave
  { { c with cop0 }.followStatus with linked := false }.jumpTo target

/-- Opcode 16: coprocessor registers, the TLB, exception return.
Outside kernel mode the coprocessor has to be usable. -/
def performCop0 (c : Cpu) (i : Instruction) : Cpu :=
  if c.cop0.privilege ≠ .kernel && !c.cop0.status.usable 0 then
    c.recordCondition (.coprocessorUnusable 0)
  else
    let rt := c.reg i.rt
    match i.fmt with
    | 0x00 => c.setGpr i.rt (signExtend32 (c.cop0.get i.rd).toUInt32) -- MFC0
    | 0x01 => c.ifWide fun c => c.setGpr i.rt (c.cop0.get i.rd) -- DMFC0
    | 0x04 => c.writeCop0 i.rd (signExtend32 rt.toUInt32) -- MTC0
    | 0x05 => c.ifWide (·.writeCop0 i.rd rt) -- DMTC0
    | fmt =>
      if fmt < 0x10 then c.raise .reservedInstruction
      else
        match i.funct with
        | 0x01 => c.readEntry
        | 0x02 => c.writeEntry Cop0.index
        | 0x06 => c.writeEntry Cop0.random
        | 0x08 => c.probeEntry
        | 0x18 => c.exceptionReturn
        | _ => c.raise .reservedInstruction

/-! ## The floating-point unit -/

/-- `f`, if the floating-point unit may be used. -/
@[inline] def ifFpuUsable (c : Cpu) (f : Cpu → Cpu) : Cpu :=
  if c.cop0.status.usable 1 then f c.followStatus else c.recordCondition (.coprocessorUnusable 1)

/-- Take over the unit after an operation that may trap. -/
def setFpu (c : Cpu) (result : Fpu × Bool) : Cpu :=
  let c := { c with fpu := result.1 }
  if result.2 then c.raise .floatingPoint else c

/-- BC1F, BC1T and their likely forms: bit 0 of the register field is the
condition branched on, bit 1 tells a likely branch. -/
def conditionBranch (c : Cpu) (i : Instruction) (pc : UInt64) : Cpu :=
  let target := i.branchTarget pc
  let taken := c.fpu.condition == (i.rt.val % 2 == 1)
  if i.rt.val / 2 % 2 = 0 then c.branch target taken else c.branchLikely target taken

/-- Opcode 17, for a usable unit. -/
def performFpu (i : Instruction) (pc : UInt64) (c : Cpu) : Cpu :=
  let rt := c.reg i.rt
  match i.fmt with
  | 0x00 => c.setGpr i.rt (signExtend32 (c.fpu.readWord i.fs)) -- MFC1
  | 0x01 => c.setGpr i.rt (c.fpu.readDouble i.fs) -- DMFC1
  | 0x02 => c.setGpr i.rt (signExtend32 (c.fpu.readControl i.fs)) -- CFC1
  | 0x04 => { c with fpu := c.fpu.writeWord i.fs rt.toUInt32 } -- MTC1
  | 0x05 => { c with fpu := c.fpu.writeDouble i.fs rt } -- DMTC1
  | 0x06 => c.setFpu (c.fpu.writeControl i.fs rt.toUInt32) -- CTC1
  | 0x08 => c.conditionBranch i pc
  | 0x10 | 0x11 | 0x14 | 0x15 => c.setFpu (c.fpu.execute i)
  | _ => c.raise .reservedInstruction

/-- Opcode 18: there is no such coprocessor. -/
def performCop2 (c : Cpu) : Cpu :=
  if c.cop0.status.usable 2 then c.raise .reservedInstruction
  else c.recordCondition (.coprocessorUnusable 2)

/-! ## All instructions without memory access -/

/-- Carry out an instruction that does not use memory. -/
def perform (c : Cpu) (i : Instruction) (pc : UInt64) : Cpu :=
  let rs := c.reg i.rs
  let rt := c.reg i.rt
  let signed := i.signedImmediate
  let unsigned := i.unsignedImmediate
  let positive := !isNegative rs && rs ≠ 0
  match i.opcode with
  | 0x00 => c.performSpecial i pc
  | 0x01 => c.performRegisterImmediate i pc
  | 0x02 => c.branch (i.jumpTarget pc) true -- J
  | 0x03 => (c.setGpr 31 (pc + 8)).branch (i.jumpTarget pc) true -- JAL
  | 0x04 => c.branch (i.branchTarget pc) (rs = rt) -- BEQ
  | 0x05 => c.branch (i.branchTarget pc) (rs ≠ rt) -- BNE
  | 0x06 => c.branch (i.branchTarget pc) (!positive) -- BLEZ
  | 0x07 => c.branch (i.branchTarget pc) positive -- BGTZ
  | 0x08 =>
    c.setOrOverflow i.rt ((addChecked32 rs.toUInt32 signed.toUInt32).map signExtend32) -- ADDI
  | 0x09 => c.setGpr i.rt (signExtend32 (rs.toUInt32 + signed.toUInt32)) -- ADDIU
  | 0x0A => c.setGpr i.rt (flag (lessSigned rs signed)) -- SLTI
  | 0x0B => c.setGpr i.rt (flag (rs < signed)) -- SLTIU
  | 0x0C => c.setGpr i.rt (rs &&& unsigned) -- ANDI
  | 0x0D => c.setGpr i.rt (rs ||| unsigned) -- ORI
  | 0x0E => c.setGpr i.rt (rs ^^^ unsigned) -- XORI
  | 0x0F => c.setGpr i.rt (signExtend32 (i.immediate.toUInt32 <<< 16)) -- LUI
  | 0x10 => c.performCop0 i
  | 0x11 => c.ifFpuUsable (performFpu i pc)
  | 0x12 => c.performCop2
  | 0x14 => c.branchLikely (i.branchTarget pc) (rs = rt) -- BEQL
  | 0x15 => c.branchLikely (i.branchTarget pc) (rs ≠ rt) -- BNEL
  | 0x16 => c.branchLikely (i.branchTarget pc) (!positive) -- BLEZL
  | 0x17 => c.branchLikely (i.branchTarget pc) positive -- BGTZL
  | 0x18 => c.ifWide (·.setOrOverflow i.rt (addChecked64 rs signed)) -- DADDI
  | 0x19 => c.ifWide (·.setGpr i.rt (rs + signed)) -- DADDIU
  | 0x2F => c -- CACHE
  | 0x32 | 0x36 | 0x3A | 0x3E => c.recordCondition (.coprocessorUnusable 2)
  | _ => c.raise .reservedInstruction

/-- The address that a load or store uses. -/
def effectiveAddress (c : Cpu) (i : Instruction) : UInt64 := c.reg i.rs + i.signedImmediate

/-- Remember a linked load: its reservation, and where it was. -/
def link (c : Cpu) (a : UInt64) : Cpu :=
  let c := { c with linked := true }
  match c.resolve a .load with
  | .ok physical => { c with cop0 := c.cop0.put Cop0.linkAddress (physical >>> 4).toUInt64 }
  | .error _ => c

end Cpu

/-! ## Merging parts of words

The instructions for unaligned data transfer the part of a word on one side of an
address: `left` from the address to the end of its word, into the high end of
the register, and `right` from the start of the word to the address. -/

/-- A register word after the left part of `memory` is loaded, for an address
`k` bytes into its word. -/
def mergeLeft32 (register memory k : UInt32) : UInt32 :=
  let shift := 8 * k
  (register &&& ~~~(0xFFFFFFFF <<< shift)) ||| (memory <<< shift)

/-- The same for the right part. -/
def mergeRight32 (register memory k : UInt32) : UInt32 :=
  let shift := 8 * (3 - k)
  (register &&& ~~~(0xFFFFFFFF >>> shift)) ||| (memory >>> shift)

/-- The same for the left part of a doubleword. -/
def mergeLeft64 (register memory k : UInt64) : UInt64 :=
  let shift := 8 * k
  (register &&& ~~~(0xFFFFFFFFFFFFFFFF <<< shift)) ||| (memory <<< shift)

/-- The same for the right part of a doubleword. -/
def mergeRight64 (register memory k : UInt64) : UInt64 :=
  let shift := 8 * (7 - k)
  (register &&& ~~~(0xFFFFFFFFFFFFFFFF >>> shift)) ||| (memory >>> shift)

namespace Machine

/-! ## Instructions on memory -/

/-- `x`, if 64-bit operations may be used. -/
@[inline] def ifWide (x : MachineM Unit) : MachineM Unit := do
  if ← withCpu (·.cop0.wideOperations) then x
  else modifyCpu (·.raise .reservedInstruction)

/-- Load and, unless an exception is raised, hand the value on. -/
@[inline] def loading (a : UInt64) (size : Nat) (use : UInt64 → Cpu → Cpu) : MachineM Unit := do
  match ← load a size with
  | some v => modifyCpu (use v)
  | none => pure ()

/-- Load `size` bytes into a register; `extend` fills the rest of it. -/
def loadRegister (i : Instruction) (size : Nat) (extend : UInt64 → UInt64) : MachineM Unit := do
  let a ← withCpu (·.effectiveAddress i)
  loading a size fun v c => c.setGpr i.rt (extend v)

/-- Load into a register and link. -/
def loadLinked (i : Instruction) (size : Nat) (extend : UInt64 → UInt64) : MachineM Unit := do
  let a ← withCpu (·.effectiveAddress i)
  loading a size fun v c => (c.setGpr i.rt (extend v)).link a

/-- Store the low `size` bytes of a register. -/
def storeRegister (i : Instruction) (size : Nat) : MachineM Unit := do
  let a ← withCpu (·.effectiveAddress i)
  let v ← withCpu (·.reg i.rt)
  discard (store a size v)

/-- Store a register if a linked load has been made; it is set to one if the
store was done, and to zero without a link. -/
def storeConditional (i : Instruction) (size : Nat) : MachineM Unit := do
  let a ← withCpu (·.effectiveAddress i)
  let v ← withCpu (·.reg i.rt)
  if ← withCpu (·.linked) then
    if ← store a size v then modifyCpu (·.setGpr i.rt 1)
  else modifyCpu (·.setGpr i.rt 0)

/-- Load a part of a word into a register. -/
def loadPart32 (i : Instruction) (merge : UInt32 → UInt32 → UInt32 → UInt32) : MachineM Unit := do
  let a ← withCpu (·.effectiveAddress i)
  loading (a &&& ~~~3) 4 fun v c =>
    c.setGpr i.rt (signExtend32 (merge (c.reg i.rt).toUInt32 v.toUInt32 (a &&& 3).toUInt32))

/-- Load a part of a doubleword into a register. -/
def loadPart64 (i : Instruction) (merge : UInt64 → UInt64 → UInt64 → UInt64) : MachineM Unit := do
  let a ← withCpu (·.effectiveAddress i)
  loading (a &&& ~~~7) 8 fun v c => c.setGpr i.rt (merge (c.reg i.rt) v (a &&& 7))

/-- Store the high end of the low `size` bytes of a register, from the address to
the end of its word. -/
def storeLeft (i : Instruction) (size : Nat) : MachineM Unit := do
  let a ← withCpu (·.effectiveAddress i)
  let v ← withCpu (·.reg i.rt)
  let k := (a % UInt64.ofNat size).toNat
  discard (storeBytes a ((BigEndian.bytes size v).take (size - k)))

/-- Store the low end of a register, from the start of the address's word to the
address. -/
def storeRight (i : Instruction) (size : Nat) : MachineM Unit := do
  let a ← withCpu (·.effectiveAddress i)
  let v ← withCpu (·.reg i.rt)
  let k := (a % UInt64.ofNat size).toNat
  discard (storeBytes (a - UInt64.ofNat k) ((BigEndian.bytes size v).drop (size - 1 - k)))

/-- `x`, if the floating-point unit may be used. -/
@[inline] def ifFpuUsable (x : MachineM Unit) : MachineM Unit := do
  if ← withCpu (·.cop0.status.usable 1) then
    modifyCpu (·.followStatus)
    x
  else modifyCpu (·.recordCondition (.coprocessorUnusable 1))

/-- Load a floating-point register. -/
def loadFloat (i : Instruction) (f : FloatFormat) (size : Nat) : MachineM Unit := do
  let a ← withCpu (·.effectiveAddress i)
  loading a size fun v c => { c with fpu := c.fpu.writeFloat f i.ft v }

/-- Store a floating-point register. -/
def storeFloat (i : Instruction) (f : FloatFormat) (size : Nat) : MachineM Unit := do
  let a ← withCpu (·.effectiveAddress i)
  let v ← withCpu (·.fpu.readFloat f i.ft)
  discard (store a size v)

/-- Carry out the instruction `i` at `pc`. -/
def execute (i : Instruction) (pc : UInt64) : MachineM Unit :=
  match i.opcode with
  | 0x1A => ifWide (loadPart64 i mergeLeft64) -- LDL
  | 0x1B => ifWide (loadPart64 i mergeRight64) -- LDR
  | 0x20 => loadRegister i 1 (signExtend8 ·.toUInt8) -- LB
  | 0x21 => loadRegister i 2 (signExtend16 ·.toUInt16) -- LH
  | 0x22 => loadPart32 i mergeLeft32 -- LWL
  | 0x23 => loadRegister i 4 (signExtend32 ·.toUInt32) -- LW
  | 0x24 => loadRegister i 1 id -- LBU
  | 0x25 => loadRegister i 2 id -- LHU
  | 0x26 => loadPart32 i mergeRight32 -- LWR
  | 0x27 => ifWide (loadRegister i 4 id) -- LWU
  | 0x28 => storeRegister i 1 -- SB
  | 0x29 => storeRegister i 2 -- SH
  | 0x2A => storeLeft i 4 -- SWL
  | 0x2B => storeRegister i 4 -- SW
  | 0x2C => ifWide (storeLeft i 8) -- SDL
  | 0x2D => ifWide (storeRight i 8) -- SDR
  | 0x2E => storeRight i 4 -- SWR
  | 0x30 => loadLinked i 4 (signExtend32 ·.toUInt32) -- LL
  | 0x31 => ifFpuUsable (loadFloat i .single 4) -- LWC1
  | 0x34 => ifWide (loadLinked i 8 id) -- LLD
  | 0x35 => ifFpuUsable (loadFloat i .double 8) -- LDC1
  | 0x37 => ifWide (loadRegister i 8 id) -- LD
  | 0x38 => storeConditional i 4 -- SC
  | 0x39 => ifFpuUsable (storeFloat i .single 4) -- SWC1
  | 0x3C => ifWide (storeConditional i 8) -- SCD
  | 0x3D => ifFpuUsable (storeFloat i .double 8) -- SDC1
  | 0x3F => ifWide (storeRegister i 8) -- SD
  | _ => modifyCpu (·.perform i pc)

/-- End the instruction being carried out; the answer tells that execution goes
on where it left off. -/
def retire : MachineM Bool := onCpu fun c => let (c, onPath) := c.retire; (onPath, c)

/-- Carry out one instruction.  Exceptions and interrupts redirect the flow of
control; only bus faults are errors. -/
def step : MachineM Unit := do
  let pc ← withCpu (·.pc)
  let word ← fetch pc
  modifyCpu (·.begin pc (word.getD 0))
  match word with
  | some w => execute ⟨w⟩ pc
  | none => pure ()
  discard retire

end Machine

end Console64

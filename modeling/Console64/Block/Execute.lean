import Console64.Block.Compile
import Console64.Machine.Interpreter

/-! # Running blocks

Each operation of a block is begun, carried out and retired exactly as the
interpreter does it, so timing and exceptions stay the same.  A block is left
early when the flow of control leaves it, and also when it has written over
itself: the words behind are then read anew. -/

namespace Console64

/-- `v` shifted; the 32-bit shifts work on the low half of it and fill the upper
half with the sign, except that `sra` shifts the whole register first. -/
def ShiftOp.apply (op : ShiftOp) (v n : UInt64) : UInt64 :=
  match op with
  | .sll => signExtend32 (v.toUInt32 <<< n.toUInt32)
  | .srl => signExtend32 (v.toUInt32 >>> n.toUInt32)
  | .sra => signExtend32 (shiftRightSigned v n).toUInt32
  | .dsll => v <<< n
  | .dsrl => v >>> n
  | .dsra => shiftRightSigned v n

/-- The shift is a 64-bit operation. -/
def ShiftOp.isWide : ShiftOp → Bool
  | .sll | .srl | .sra => false
  | .dsll | .dsrl | .dsra => true

/-- The part of a register that counts as a shift amount. -/
def ShiftOp.amountMask (op : ShiftOp) : UInt64 := if op.isWide then 0x3F else 0x1F

/-- The test holds of `v`. -/
def SignTest.holds (test : SignTest) (v : UInt64) : Bool :=
  match test with
  | .lez => !lessSigned 0 v
  | .gtz => lessSigned 0 v
  | .ltz => lessSigned v 0
  | .gez => !lessSigned v 0

/-- `v`, read with this size, as a register holds it. -/
def MemorySize.extend (size : MemorySize) (signed : Bool) (v : UInt64) : UInt64 :=
  if signed then
    match size with
    | .byte => signExtend8 v.toUInt8
    | .half => signExtend16 v.toUInt16
    | .word => signExtend32 v.toUInt32
    | .double => v
  else v

namespace Cpu

/-- Carry out an operation on a register and a signed immediate. -/
def runImmediate (c : Cpu) (op : ImmediateOp) (rs rt : RegisterIndex) (operand : UInt16) : Cpu :=
  let a := c.reg rs
  let b := signExtend16 operand
  match op with
  | .addi => c.setOrOverflow rt ((addChecked32 a.toUInt32 b.toUInt32).map signExtend32)
  | .addiu => c.setGpr rt (signExtend32 (a.toUInt32 + b.toUInt32))
  | .daddi => c.ifWide (·.setOrOverflow rt (addChecked64 a b))
  | .daddiu => c.ifWide (·.setGpr rt (a + b))
  | .slti => c.setGpr rt (flag (lessSigned a b))
  | .sltiu => c.setGpr rt (flag (a < b))

/-- Carry out an operation on a register and an unsigned immediate. -/
def runLogical (c : Cpu) (op : LogicalOp) (rs rt : RegisterIndex) (operand : UInt16) : Cpu :=
  let a := c.reg rs
  let b := operand.toUInt64
  match op with
  | .andi => c.setGpr rt (a &&& b)
  | .ori => c.setGpr rt (a ||| b)
  | .xori => c.setGpr rt (a ^^^ b)

/-- Carry out an operation on two registers. -/
def runRegister (c : Cpu) (op : RegisterOp) (rs rt rd : RegisterIndex) : Cpu :=
  let a := c.reg rs
  let b := c.reg rt
  match op with
  | .add => c.setOrOverflow rd ((addChecked32 a.toUInt32 b.toUInt32).map signExtend32)
  | .addu => c.setGpr rd (signExtend32 (a.toUInt32 + b.toUInt32))
  | .sub => c.setOrOverflow rd ((subChecked32 a.toUInt32 b.toUInt32).map signExtend32)
  | .subu => c.setGpr rd (signExtend32 (a.toUInt32 - b.toUInt32))
  | .dadd => c.ifWide (·.setOrOverflow rd (addChecked64 a b))
  | .daddu => c.ifWide (·.setGpr rd (a + b))
  | .dsub => c.ifWide (·.setOrOverflow rd (subChecked64 a b))
  | .dsubu => c.ifWide (·.setGpr rd (a - b))
  | .and => c.setGpr rd (a &&& b)
  | .or => c.setGpr rd (a ||| b)
  | .xor => c.setGpr rd (a ^^^ b)
  | .nor => c.setGpr rd (~~~(a ||| b))
  | .slt => c.setGpr rd (flag (lessSigned a b))
  | .sltu => c.setGpr rd (flag (a < b))

/-- Carry out a shift by `n`. -/
def runShift (c : Cpu) (op : ShiftOp) (rt rd : RegisterIndex) (n : UInt64) : Cpu :=
  let shifted := fun (c : Cpu) => c.setGpr rd (op.apply (c.reg rt) n)
  if op.isWide then c.ifWide shifted else shifted c

/-- Carry out a multiplication or division. -/
def runMultiplier (c : Cpu) (op : MultiplierOp) (rs rt : RegisterIndex) : Cpu :=
  let a := c.reg rs
  let b := c.reg rt
  match op with
  | .mult => c.multiply32 a b
  | .multu => c.multiplyUnsigned32 a b
  | .div => c.divide32 a b
  | .divu => c.divideUnsigned32 a b

/-- Read a half of the multiplier's result. -/
def runMoveFrom (c : Cpu) (half : MultiplierHalf) (rd : RegisterIndex) : Cpu :=
  match half with
  | .hi => c.setGpr rd c.hi
  | .lo => c.setGpr rd c.lo

/-- Write a half of the multiplier's result. -/
def runMoveTo (c : Cpu) (half : MultiplierHalf) (rs : RegisterIndex) : Cpu :=
  match half with
  | .hi => c.setHi (c.reg rs)
  | .lo => c.setLo (c.reg rs)

/-- Carry out a jump at `pc`. -/
def runJump (c : Cpu) (linked : Bool) (target : UInt32) (pc : UInt64) : Cpu :=
  let c := if linked then c.setGpr 31 (pc + 8) else c
  c.branch (jumpAddress pc target) true

end Cpu

namespace Machine

/-- Carry out a load. -/
def runLoad (size : MemorySize) (signed : Bool) (rs rt : RegisterIndex) (offset : UInt16) :
    MachineM Unit :=
  let go : MachineM Unit := do
    let a ← withCpu fun c => c.reg rs + signExtend16 offset
    loading a size.bytes fun v c => c.setGpr rt (size.extend signed v)
  -- A word that fills the upper half with zeros is for 64-bit mode as well
  if size = .double || (size = .word && !signed) then ifWide go else go

/-- Carry out a store. -/
def runStore (size : MemorySize) (rs rt : RegisterIndex) (offset : UInt16) : MachineM Unit :=
  let go : MachineM Unit := do
    let a ← withCpu fun c => c.reg rs + signExtend16 offset
    let v ← withCpu (·.reg rt)
    discard (store a size.bytes v)
  if size = .double then ifWide go else go

/-- Carry out an operation at `pc`. -/
def runOp (op : Op) (pc : UInt64) : MachineM Unit :=
  match op with
  | .immediate op rs rt operand => modifyCpu (·.runImmediate op rs rt operand)
  | .logical op rs rt operand => modifyCpu (·.runLogical op rs rt operand)
  | .loadUpper rt operand => modifyCpu (·.setGpr rt (signExtend16 operand <<< (16 : UInt64)))
  | .register op rs rt rd => modifyCpu (·.runRegister op rs rt rd)
  | .shift op rt rd n => modifyCpu (·.runShift op rt rd n.toUInt64)
  | .shiftVariable op rs rt rd =>
    modifyCpu fun c => c.runShift op rt rd (c.reg rs &&& op.amountMask)
  | .multiplier op rs rt => modifyCpu (·.runMultiplier op rs rt)
  | .moveFrom half rd => modifyCpu (·.runMoveFrom half rd)
  | .moveTo half rs => modifyCpu (·.runMoveTo half rs)
  | .load size signed rs rt offset => runLoad size signed rs rt offset
  | .store size rs rt offset => runStore size rs rt offset
  | .branchEqual equal rs rt offset =>
    modifyCpu fun c => c.branch (branchAddress pc offset) ((c.reg rs == c.reg rt) == equal)
  | .branchSign test rs offset =>
    modifyCpu fun c => c.branch (branchAddress pc offset) (test.holds (c.reg rs))
  | .jump linked target => modifyCpu (·.runJump linked target pc)
  | .jumpRegister rs => modifyCpu fun c => c.branch (c.reg rs) true
  | .jumpRegisterLinked rs rd =>
    modifyCpu fun c => (c.setGpr rd (pc + 8)).branch (c.reg rs) true
  | .interpret word _ => execute ⟨word⟩ pc

end Machine

/-- How a run of a block ended, and how many instructions it retired. -/
inductive BlockExit where
  /-- All of it ran, and no jump is pending. -/
  | completed (retired : Nat)
  /-- All of it ran, up to the delay slot of its branch. -/
  | jumped (retired : Nat)
  /-- Execution went another way, or the block wrote over itself. -/
  | redirected (retired : Nat)
  deriving DecidableEq, Repr, Inhabited

/-- Instructions retired. -/
def BlockExit.retired : BlockExit → Nat
  | .completed n | .jumped n | .redirected n => n

/-- A finished run: how it ended, and what it wrote to main memory. -/
structure BlockRun where
  exit : BlockExit
  writes : List ByteRange

namespace Block

/-- The block shares a byte with a range of physical memory. -/
def overlaps (b : Block) (r : ByteRange) : Bool :=
  r.start < b.stop.toNat && b.start.toNat < r.stop

/-- How a run ends that comes to the end of the block. -/
def finalExit (b : Block) (retired : Nat) : BlockExit :=
  if b.hasControlFlow then .jumped retired else .completed retired

/-- Carry out one instruction of the block, at `pc`.  The answer tells whether
execution goes on where it left off and the block is still as it was compiled;
with it come the writes to main memory. -/
def runInstruction (b : Block) (d : DecodedWord) (pc : UInt64) :
    MachineM (Bool × List ByteRange) := do
  Machine.modifyCpu (·.begin pc d.word)
  Machine.runOp d.op pc
  -- Taken after every instruction, so that a store into the block is seen before the next one
  let writes ← Machine.onBus fun bus =>
    let (writes, bus) := bus.takeWrites
    .ok writes bus
  let onPath ← Machine.retire
  return (onPath && !writes.any b.overlaps, writes)

/-- Carry out the instructions from `pc` on, after `retired` others. -/
def runFrom (b : Block) (pc : UInt64) (retired : Nat) (writes : List ByteRange) :
    List DecodedWord → MachineM BlockRun
  | [] => return ⟨b.finalExit retired, writes⟩
  | d :: rest => do
    let (intact, more) ← b.runInstruction d pc
    let writes := writes ++ more
    let retired := retired + 1
    if !intact then return ⟨.redirected retired, writes⟩
    if rest.isEmpty then return ⟨b.finalExit retired, writes⟩
    -- The instruction behind may have been skipped
    if (← Machine.withCpu (·.pc)) ≠ pc + 4 then return ⟨.redirected retired, writes⟩
    b.runFrom (pc + 4) retired writes rest

/-- Run the block from the machine's current instruction on.  A bus fault ends
the run, and what it had collected of its writes is gone. -/
def run (b : Block) : MachineM BlockRun := do
  b.runFrom (← Machine.withCpu (·.pc)) 0 [] b.code

end Block

end Console64

import Console64.Cpu.Instruction

/-! # Decoded operations

What a compiled block consists of: instruction words, each with the operation
that it stands for, so that a word is taken apart once and not each time it is
carried out.  Common instructions have operations of their own; every other word
is left to the interpreter.

Branch offsets stay relative: a block serves every virtual address at which its
physical code is seen. -/

namespace Console64

/-- Operations on a register and a signed immediate. -/
inductive ImmediateOp where
  | addi
  | addiu
  | daddi
  | daddiu
  | slti
  | sltiu
  deriving DecidableEq, Repr

/-- Operations on a register and an unsigned immediate. -/
inductive LogicalOp where
  | andi
  | ori
  | xori
  deriving DecidableEq, Repr

/-- Operations on two registers. -/
inductive RegisterOp where
  | add
  | addu
  | sub
  | subu
  | dadd
  | daddu
  | dsub
  | dsubu
  | and
  | or
  | xor
  | nor
  | slt
  | sltu
  deriving DecidableEq, Repr

/-- Shifts, by a fixed amount or by a register. -/
inductive ShiftOp where
  | sll
  | srl
  | sra
  | dsll
  | dsrl
  | dsra
  deriving DecidableEq, Repr

/-- Operations of the multiplier. -/
inductive MultiplierOp where
  | mult
  | multu
  | div
  | divu
  deriving DecidableEq, Repr

/-- The halves of the multiplier's result. -/
inductive MultiplierHalf where
  | hi
  | lo
  deriving DecidableEq, Repr

/-- Tests of one register against zero. -/
inductive SignTest where
  | lez
  | gtz
  | ltz
  | gez
  deriving DecidableEq, Repr

/-- The size of a value in memory. -/
inductive MemorySize where
  | byte
  | half
  | word
  | double
  deriving DecidableEq, Repr

/-- The size in bytes. -/
def MemorySize.bytes : MemorySize → Nat
  | .byte => 1
  | .half => 2
  | .word => 4
  | .double => 8

/-- What an instruction word stands for. -/
inductive Op where
  | immediate (op : ImmediateOp) (rs rt : RegisterIndex) (operand : UInt16)
  | logical (op : LogicalOp) (rs rt : RegisterIndex) (operand : UInt16)
  | loadUpper (rt : RegisterIndex) (operand : UInt16)
  | register (op : RegisterOp) (rs rt rd : RegisterIndex)
  | shift (op : ShiftOp) (rt rd : RegisterIndex) (amount : UInt32)
  | shiftVariable (op : ShiftOp) (rs rt rd : RegisterIndex)
  | multiplier (op : MultiplierOp) (rs rt : RegisterIndex)
  | moveFrom (half : MultiplierHalf) (rd : RegisterIndex)
  | moveTo (half : MultiplierHalf) (rs : RegisterIndex)
  | load (size : MemorySize) (signed : Bool) (rs rt : RegisterIndex) (offset : UInt16)
  | store (size : MemorySize) (rs rt : RegisterIndex) (offset : UInt16)
  /-- A branch on whether two registers are equal, or on whether they are not. -/
  | branchEqual (equal : Bool) (rs rt : RegisterIndex) (offset : UInt16)
  /-- A branch on the sign of a register. -/
  | branchSign (test : SignTest) (rs : RegisterIndex) (offset : UInt16)
  | jump (linked : Bool) (target : UInt32)
  | jumpRegister (rs : RegisterIndex)
  | jumpRegisterLinked (rs rd : RegisterIndex)
  /-- Anything else.  `endsBlock` marks what may change address mapping, privilege or
  the flow of control without a delay slot. -/
  | interpret (word : UInt32) (endsBlock : Bool)
  deriving DecidableEq, Repr

namespace Op

/-- Interpreted instructions with a delay slot: likely branches, branches that
link, and branches on the floating-point condition. -/
def interpretedBranch (word : UInt32) : Bool :=
  let i : Instruction := ⟨word⟩
  match i.opcode with
  | 0x01 => i.rt.val < 0x04 || (0x10 ≤ i.rt.val && i.rt.val < 0x14)
  | 0x11 => i.fmt = 0x08
  | 0x14 | 0x15 | 0x16 | 0x17 => true
  | _ => false

/-- Interpreted instructions that nothing may follow in a block: calls and traps,
all traffic with the system control coprocessor, cache maintenance, and writes
to the floating-point control register, which may trap. -/
def mustEndBlock (word : UInt32) : Bool :=
  let i : Instruction := ⟨word⟩
  match i.opcode with
  | 0x00 => i.funct = 0x0C || i.funct = 0x0D || (0x30 ≤ i.funct && i.funct < 0x37)
  | 0x01 => 0x08 ≤ i.rt.val && i.rt.val < 0x0F
  | 0x10 | 0x2F => true
  | 0x11 => i.fmt = 0x06
  | _ => false

/-- A word left to the interpreter. -/
def interpreted (word : UInt32) : Op := .interpret word (mustEndBlock word)

/-- The operations of opcode 0. -/
def decodeSpecial (i : Instruction) : Op :=
  match i.funct with
  | 0x00 => .shift .sll i.rt i.rd i.sa
  | 0x02 => .shift .srl i.rt i.rd i.sa
  | 0x03 => .shift .sra i.rt i.rd i.sa
  | 0x04 => .shiftVariable .sll i.rs i.rt i.rd
  | 0x06 => .shiftVariable .srl i.rs i.rt i.rd
  | 0x07 => .shiftVariable .sra i.rs i.rt i.rd
  | 0x08 => .jumpRegister i.rs
  | 0x09 => .jumpRegisterLinked i.rs i.rd
  | 0x10 => .moveFrom .hi i.rd
  | 0x11 => .moveTo .hi i.rs
  | 0x12 => .moveFrom .lo i.rd
  | 0x13 => .moveTo .lo i.rs
  | 0x14 => .shiftVariable .dsll i.rs i.rt i.rd
  | 0x16 => .shiftVariable .dsrl i.rs i.rt i.rd
  | 0x17 => .shiftVariable .dsra i.rs i.rt i.rd
  | 0x18 => .multiplier .mult i.rs i.rt
  | 0x19 => .multiplier .multu i.rs i.rt
  | 0x1A => .multiplier .div i.rs i.rt
  | 0x1B => .multiplier .divu i.rs i.rt
  | 0x20 => .register .add i.rs i.rt i.rd
  | 0x21 => .register .addu i.rs i.rt i.rd
  | 0x22 => .register .sub i.rs i.rt i.rd
  | 0x23 => .register .subu i.rs i.rt i.rd
  | 0x24 => .register .and i.rs i.rt i.rd
  | 0x25 => .register .or i.rs i.rt i.rd
  | 0x26 => .register .xor i.rs i.rt i.rd
  | 0x27 => .register .nor i.rs i.rt i.rd
  | 0x2A => .register .slt i.rs i.rt i.rd
  | 0x2B => .register .sltu i.rs i.rt i.rd
  | 0x2C => .register .dadd i.rs i.rt i.rd
  | 0x2D => .register .daddu i.rs i.rt i.rd
  | 0x2E => .register .dsub i.rs i.rt i.rd
  | 0x2F => .register .dsubu i.rs i.rt i.rd
  | 0x38 => .shift .dsll i.rt i.rd i.sa
  | 0x3A => .shift .dsrl i.rt i.rd i.sa
  | 0x3B => .shift .dsra i.rt i.rd i.sa
  | 0x3C => .shift .dsll i.rt i.rd (i.sa + 32)
  | 0x3E => .shift .dsrl i.rt i.rd (i.sa + 32)
  | 0x3F => .shift .dsra i.rt i.rd (i.sa + 32)
  | _ => interpreted i.word

/-- What a word stands for. -/
def decode (word : UInt32) : Op :=
  let i : Instruction := ⟨word⟩
  match i.opcode with
  | 0x00 => decodeSpecial i
  | 0x01 =>
    match i.rt.val with
    | 0x00 => .branchSign .ltz i.rs i.immediate
    | 0x01 => .branchSign .gez i.rs i.immediate
    | _ => interpreted word
  | 0x02 => .jump false i.target
  | 0x03 => .jump true i.target
  | 0x04 => .branchEqual true i.rs i.rt i.immediate
  | 0x05 => .branchEqual false i.rs i.rt i.immediate
  | 0x06 => .branchSign .lez i.rs i.immediate
  | 0x07 => .branchSign .gtz i.rs i.immediate
  | 0x08 => .immediate .addi i.rs i.rt i.immediate
  | 0x09 => .immediate .addiu i.rs i.rt i.immediate
  | 0x0A => .immediate .slti i.rs i.rt i.immediate
  | 0x0B => .immediate .sltiu i.rs i.rt i.immediate
  | 0x0C => .logical .andi i.rs i.rt i.immediate
  | 0x0D => .logical .ori i.rs i.rt i.immediate
  | 0x0E => .logical .xori i.rs i.rt i.immediate
  | 0x0F => .loadUpper i.rt i.immediate
  | 0x18 => .immediate .daddi i.rs i.rt i.immediate
  | 0x19 => .immediate .daddiu i.rs i.rt i.immediate
  | 0x20 => .load .byte true i.rs i.rt i.immediate
  | 0x21 => .load .half true i.rs i.rt i.immediate
  | 0x23 => .load .word true i.rs i.rt i.immediate
  | 0x24 => .load .byte false i.rs i.rt i.immediate
  | 0x25 => .load .half false i.rs i.rt i.immediate
  | 0x27 => .load .word false i.rs i.rt i.immediate
  | 0x28 => .store .byte i.rs i.rt i.immediate
  | 0x29 => .store .half i.rs i.rt i.immediate
  | 0x2B => .store .word i.rs i.rt i.immediate
  | 0x37 => .load .double false i.rs i.rt i.immediate
  | 0x3F => .store .double i.rs i.rt i.immediate
  | _ => interpreted word

/-- The operation is a branch or jump with a delay slot. -/
def isControlFlow : Op → Bool
  | .branchEqual .. | .branchSign .. | .jump .. | .jumpRegister _ | .jumpRegisterLinked .. => true
  | .interpret word _ => interpretedBranch word
  | _ => false

/-- Nothing may follow the operation in a block. -/
def endsBlock : Op → Bool
  | .interpret _ ends => ends
  | _ => false

/-- Where a branch or jump at `pc` goes, if that can be told from its word. -/
def staticTarget (pc : UInt64) : Op → Option UInt64
  | .branchEqual _ _ _ offset | .branchSign _ _ offset => some (branchAddress pc offset)
  | .jump _ target => some (jumpAddress pc target)
  | _ => none

end Op

/-- An instruction word, taken apart. -/
structure DecodedWord where
  word : UInt32
  op : Op := Op.decode word
  op_eq : op = Op.decode word := by rfl

end Console64

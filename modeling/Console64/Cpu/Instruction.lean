import Console64.BigEndian
import Console64.Cpu.RegisterIndex
import Console64.Text.Hex

/-! # Instruction words

A MIPS III instruction is one 32-bit word.  The names of its fields are those of
the four layouts:

    R  opcode:6 rs:5 rt:5 rd:5 sa:5 funct:6
    I  opcode:6 rs:5 rt:5 immediate:16
    J  opcode:6 target:26
    F  opcode:6 fmt:5 ft:5 fs:5 fd:5 funct:6 -/

namespace Console64

/-- Where a branch at `pc` goes: words counted from its delay slot. -/
def branchAddress (pc : UInt64) (offset : UInt16) : UInt64 :=
  pc + 4 + (signExtend16 offset <<< (2 : UInt64))

/-- Where a jump at `pc` goes: inside the 256 MiB block of its delay slot. -/
def jumpAddress (pc : UInt64) (target : UInt32) : UInt64 :=
  ((pc + 4) &&& ~~~0x0FFFFFFF) ||| (target.toUInt64 <<< (2 : UInt64))

/-- An instruction word. -/
structure Instruction where
  word : UInt32
  deriving DecidableEq, Repr, Inhabited

namespace Instruction

/-- The five bits from bit `shift` on. -/
def field (i : Instruction) (shift : UInt32) : RegisterIndex :=
  Fin.ofNat 32 (i.word >>> shift).toNat

def opcode (i : Instruction) : UInt32 := i.word >>> 26

def rs (i : Instruction) : RegisterIndex := i.field 21

def rt (i : Instruction) : RegisterIndex := i.field 16

def rd (i : Instruction) : RegisterIndex := i.field 11

def sa (i : Instruction) : UInt32 := (i.word >>> 6) &&& 0x1F

def funct (i : Instruction) : UInt32 := i.word &&& 0x3F

def immediate (i : Instruction) : UInt16 := i.word.toUInt16

def target (i : Instruction) : UInt32 := i.word &&& 0x03FFFFFF

/-- The format of a floating-point instruction. -/
def fmt (i : Instruction) : UInt32 := (i.word >>> 21) &&& 0x1F

def ft (i : Instruction) : RegisterIndex := i.rt

def fs (i : Instruction) : RegisterIndex := i.rd

def fd (i : Instruction) : RegisterIndex := i.field 6

/-- The immediate as a signed number. -/
def signedImmediate (i : Instruction) : UInt64 := signExtend16 i.immediate

/-- The immediate as an unsigned number. -/
def unsignedImmediate (i : Instruction) : UInt64 := i.immediate.toUInt64

/-- Where a branch at `pc` goes. -/
def branchTarget (i : Instruction) (pc : UInt64) : UInt64 := branchAddress pc i.immediate

/-- Where a jump at `pc` goes. -/
def jumpTarget (i : Instruction) (pc : UInt64) : UInt64 := jumpAddress pc i.target

/-! ## Names -/

/-- Shown for words that encode nothing. -/
def unknownName : String := "???"

/-- Names by opcode. -/
def primaryNames : List String :=
  ["SPECIAL", "REGIMM", "J", "JAL", "BEQ", "BNE", "BLEZ", "BGTZ",
    "ADDI", "ADDIU", "SLTI", "SLTIU", "ANDI", "ORI", "XORI", "LUI",
    "COP0", "COP1", "COP2", "???", "BEQL", "BNEL", "BLEZL", "BGTZL",
    "DADDI", "DADDIU", "LDL", "LDR", "???", "???", "???", "???",
    "LB", "LH", "LWL", "LW", "LBU", "LHU", "LWR", "LWU",
    "SB", "SH", "SWL", "SW", "SDL", "SDR", "SWR", "CACHE",
    "LL", "LWC1", "LWC2", "???", "LLD", "LDC1", "LDC2", "LD",
    "SC", "SWC1", "SWC2", "???", "SCD", "SDC1", "SDC2", "SD"]

/-- Names by function code, for opcode 0. -/
def specialNames : List String :=
  ["SLL", "???", "SRL", "SRA", "SLLV", "???", "SRLV", "SRAV",
    "JR", "JALR", "???", "???", "SYSCALL", "BREAK", "???", "SYNC",
    "MFHI", "MTHI", "MFLO", "MTLO", "DSLLV", "???", "DSRLV", "DSRAV",
    "MULT", "MULTU", "DIV", "DIVU", "DMULT", "DMULTU", "DDIV", "DDIVU",
    "ADD", "ADDU", "SUB", "SUBU", "AND", "OR", "XOR", "NOR",
    "???", "???", "SLT", "SLTU", "DADD", "DADDU", "DSUB", "DSUBU",
    "TGE", "TGEU", "TLT", "TLTU", "TEQ", "???", "TNE", "???",
    "DSLL", "???", "DSRL", "DSRA", "DSLL32", "???", "DSRL32", "DSRA32"]

/-- Names by the register field, for opcode 1. -/
def registerImmediateNames : List String :=
  ["BLTZ", "BGEZ", "BLTZL", "BGEZL", "???", "???", "???", "???",
    "TGEI", "TGEIU", "TLTI", "TLTIU", "TEQI", "???", "TNEI", "???",
    "BLTZAL", "BGEZAL", "BLTZALL", "BGEZALL"]

/-- Entry `n` of a list of names. -/
def nameIn (names : List String) (n : Nat) : String := names[n]?.getD unknownName

/-- The instruction's name. -/
def mnemonic (i : Instruction) : String :=
  if i.word = 0 then "NOP"
  else if i.opcode = 0 then nameIn specialNames i.funct.toNat
  else if i.opcode = 1 then nameIn registerImmediateNames i.rt.val
  else nameIn primaryNames i.opcode.toNat

/-- The instruction as text: its name in a column of eight, then the word. -/
def describe (i : Instruction) : String :=
  String.ofList (i.mnemonic.toList.rightpad 8 ' ') ++ " " ++ Hex.word i.word

end Instruction

end Console64

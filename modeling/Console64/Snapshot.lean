import Console64.Cpu.Basic

/-! # Register dumps

A copy of what is worth showing of a CPU, and its text. -/

namespace Console64

/-- A copy of the CPU's registers. -/
structure RegisterSnapshot where
  pc : UInt64
  nextPc : UInt64
  gpr : Vector UInt64 32
  hi : UInt64
  lo : UInt64
  status : UInt64
  cause : UInt64
  epc : UInt64
  count : UInt64
  compare : UInt64
  deriving DecidableEq, Repr

namespace RegisterSnapshot

/-- Copy a CPU's registers. -/
def ofCpu (c : Cpu) : RegisterSnapshot where
  pc := c.pc
  nextPc := c.nextPc
  gpr := c.gpr
  hi := c.hi
  lo := c.lo
  status := c.cop0.get Cop0.statusWord
  cause := c.cop0.get Cop0.causeWord
  epc := c.cop0.get Cop0.epc
  count := c.cop0.get Cop0.count
  compare := c.cop0.get Cop0.compare

/-- The names of the general registers. -/
def registerNames : List String :=
  ["r0", "at", "v0", "v1", "a0", "a1", "a2", "a3", "t0", "t1", "t2", "t3", "t4", "t5", "t6", "t7",
    "s0", "s1", "s2", "s3", "s4", "s5", "s6", "s7", "t8", "t9", "k0", "k1", "gp", "sp", "s8", "ra"]

/-- Sixteen digits of a register. -/
def digits (v : UInt64) : String := Hex.digits 16 v.toNat

/-- A register that holds a word: eight digits, more only for more bits. -/
def word (v : UInt64) : String := Hex.marked 8 v.toNat

/-- One register with its name, in columns. -/
def cell (name : String) (v : UInt64) : String :=
  String.ofList (name.toList.leftpad 2 ' ') ++ " " ++ digits v ++ "  "

/-- The general registers, four in a row. -/
def registerRows (s : RegisterSnapshot) : List String :=
  let cells := List.zipWith cell registerNames s.gpr.toList
  (List.range 8).map fun row => String.join ((cells.drop (4 * row)).take 4)

/-- The rows of the dump. -/
def rows (s : RegisterSnapshot) : List String :=
  ["pc " ++ Hex.double s.pc ++ "  next " ++ Hex.double s.nextPc] ++ s.registerRows ++
    ["hi " ++ digits s.hi ++ "  lo " ++ digits s.lo,
      "status " ++ word s.status ++ "  cause " ++ word s.cause ++ "  epc " ++
        Hex.double s.epc,
      "count " ++ word s.count ++ "  compare " ++ word s.compare]

/-- The dump as text. -/
def describe (s : RegisterSnapshot) : String := String.intercalate "\n" s.rows

end RegisterSnapshot

end Console64

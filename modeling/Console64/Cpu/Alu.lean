import Console64.Cpu.Basic

/-! # Integer arithmetic

The operations on general registers.  32-bit results fill the upper half of the
register with their sign. -/

namespace Console64

/-- Shift right, filling with the sign. -/
def shiftRightSigned (v n : UInt64) : UInt64 := (v.toInt64 >>> n.toInt64).toUInt64

/-- `a` is less than `b` as signed numbers. -/
def lessSigned (a b : UInt64) : Bool := a.toInt64 < b.toInt64

def isNegative (a : UInt64) : Bool := lessSigned a 0

/-- One for true, zero for false. -/
def flag (b : Bool) : UInt64 := if b then 1 else 0

/-- The 32-bit sum, unless it overflows as a signed number. -/
def addChecked32 (a b : UInt32) : Option UInt32 :=
  if a.toBitVec.saddOverflow b.toBitVec then none else some (a + b)

/-- The 32-bit difference, unless it overflows as a signed number. -/
def subChecked32 (a b : UInt32) : Option UInt32 :=
  if a.toBitVec.ssubOverflow b.toBitVec then none else some (a - b)

/-- The 64-bit sum, unless it overflows as a signed number. -/
def addChecked64 (a b : UInt64) : Option UInt64 :=
  if a.toBitVec.saddOverflow b.toBitVec then none else some (a + b)

/-- The 64-bit difference, unless it overflows as a signed number. -/
def subChecked64 (a b : UInt64) : Option UInt64 :=
  if a.toBitVec.ssubOverflow b.toBitVec then none else some (a - b)

namespace Cpu

/-- Both multiplier registers. -/
def setHiLo (c : Cpu) (hi lo : UInt64) : Cpu := { c with hi, lo }

/-- A checked result goes to a register; without one, there is an overflow. -/
def setOrOverflow (c : Cpu) (r : RegisterIndex) : Option UInt64 → Cpu
  | some v => c.setGpr r v
  | none => c.raise .overflow

/-- A 64-bit operation: reserved where those are off. -/
@[inline] def ifWide (c : Cpu) (f : Cpu → Cpu) : Cpu :=
  if c.cop0.wideOperations then f c else c.raise .reservedInstruction

/-- A trap instruction whose condition is `b`. -/
def trapIf (c : Cpu) (b : Bool) : Cpu := if b then c.raise .trap else c

/-- A product of 32-bit numbers, given in 64 bits. -/
def setProduct32 (c : Cpu) (product : UInt64) : Cpu :=
  c.setHiLo (signExtend32 (product >>> 32).toUInt32) (signExtend32 product.toUInt32)

def multiply32 (c : Cpu) (a b : UInt64) : Cpu :=
  c.setProduct32 (signExtend32 a.toUInt32 * signExtend32 b.toUInt32)

def multiplyUnsigned32 (c : Cpu) (a b : UInt64) : Cpu :=
  c.setProduct32 (a.toUInt32.toUInt64 * b.toUInt32.toUInt64)

def multiply64 (c : Cpu) (a b : UInt64) : Cpu :=
  c.setHiLo (UInt64.ofInt (a.toInt64.toInt * b.toInt64.toInt / 0x10000000000000000)) (a * b)

def multiplyUnsigned64 (c : Cpu) (a b : UInt64) : Cpu :=
  c.setHiLo (UInt64.ofNat (a.toNat * b.toNat / 0x10000000000000000)) (a * b)

/-- The quotient that a signed division by zero leaves. -/
def quotientByZero (dividendNegative : Bool) : UInt64 :=
  if dividendNegative then 1 else 0xFFFFFFFFFFFFFFFF

/-- Signed division: quotient toward zero, remainder with the dividend's sign. -/
def divide32 (c : Cpu) (a b : UInt64) : Cpu :=
  let dividend := a.toUInt32.toInt32
  let divisor := b.toUInt32.toInt32
  if divisor = 0 then
    -- There is no exception: the remainder is the dividend
    c.setHiLo (signExtend32 dividend.toUInt32) (quotientByZero (dividend < 0))
  else
    c.setHiLo (signExtend32 (dividend % divisor).toUInt32)
      (signExtend32 (dividend / divisor).toUInt32)

def divideUnsigned32 (c : Cpu) (a b : UInt64) : Cpu :=
  let dividend := a.toUInt32
  let divisor := b.toUInt32
  if divisor = 0 then c.setHiLo (signExtend32 dividend) 0xFFFFFFFFFFFFFFFF
  else c.setHiLo (signExtend32 (dividend % divisor)) (signExtend32 (dividend / divisor))

def divide64 (c : Cpu) (a b : UInt64) : Cpu :=
  let dividend := a.toInt64
  let divisor := b.toInt64
  if divisor = 0 then c.setHiLo a (quotientByZero (dividend < 0))
  else c.setHiLo (dividend % divisor).toUInt64 (dividend / divisor).toUInt64

def divideUnsigned64 (c : Cpu) (a b : UInt64) : Cpu :=
  if b = 0 then c.setHiLo a 0xFFFFFFFFFFFFFFFF else c.setHiLo (a % b) (a / b)

end Cpu

end Console64

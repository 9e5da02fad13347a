import Console64.Cpu.Instruction
import Console64.Fpu.Arithmetic

/-! # The floating-point unit

Thirty-two registers of 64 bits.  In the narrow register mode they are sixteen
pairs: a word in an odd register is the upper half of its even partner, and
doubles live in even registers only.

Every operation first records its causes (`commit`).  If one of them traps,
nothing else changes; otherwise the flags are added and the result is written. -/

namespace Console64

/-- The floating-point unit. -/
structure Fpu where
  registers : Vector UInt64 32 := Vector.replicate 32 0
  control : UInt32 := 0
  /-- All thirty-two registers are independent. -/
  wide : Bool := false

namespace Fpu

/-- What the identification register reads as. -/
def identification : UInt32 := 0x00000A00

/-- The even register of a pair. -/
def evenOf (r : RegisterIndex) : RegisterIndex := Fin.ofNat 32 (r.val - r.val % 2)

/-- A word in this register is the lower half of it. -/
def holdsLowHalf (u : Fpu) (r : RegisterIndex) : Bool := u.wide || r.val % 2 = 0

/-- Change a register. -/
def put (u : Fpu) (r : RegisterIndex) (v : UInt64) : Fpu :=
  { u with registers := replaceAt u.registers r v }

def readWord (u : Fpu) (r : RegisterIndex) : UInt32 :=
  if u.holdsLowHalf r then (u.registers.get r).toUInt32
  else (u.registers.get (evenOf r) >>> 32).toUInt32

def writeWord (u : Fpu) (r : RegisterIndex) (v : UInt32) : Fpu :=
  if u.holdsLowHalf r then
    u.put r ((u.registers.get r &&& 0xFFFFFFFF00000000) ||| v.toUInt64)
  else
    u.put (evenOf r)
      ((u.registers.get (evenOf r) &&& 0xFFFFFFFF) ||| (v.toUInt64 <<< (32 : UInt64)))

def readDouble (u : Fpu) (r : RegisterIndex) : UInt64 :=
  u.registers.get (if u.wide then r else evenOf r)

def writeDouble (u : Fpu) (r : RegisterIndex) (v : UInt64) : Fpu :=
  u.put (if u.wide then r else evenOf r) v

/-- The pattern of a number of format `f`. -/
def readFloat (u : Fpu) (f : FloatFormat) (r : RegisterIndex) : UInt64 :=
  match f with
  | .single => (u.readWord r).toUInt64
  | .double => u.readDouble r

/-- Write the pattern of a number of format `f`. -/
def writeFloat (u : Fpu) (f : FloatFormat) (r : RegisterIndex) (v : UInt64) : Fpu :=
  match f with
  | .single => u.writeWord r v.toUInt32
  | .double => u.writeDouble r v

def condition (u : Fpu) : Bool := ControlWord.condition u.control

def roundingMode (u : Fpu) : RoundingMode := ControlWord.roundingMode u.control

/-- A control register. -/
def readControl (u : Fpu) (r : RegisterIndex) : UInt32 :=
  if r = 0 then identification else if r = 31 then u.control else 0

/-- Write a control register; the answer tells whether a cause written traps. -/
def writeControl (u : Fpu) (r : RegisterIndex) (v : UInt32) : Fpu × Bool :=
  if r = 31 then
    -- A cause that is written and enabled traps at once
    let word := v &&& ControlWord.writable
    ({ u with control := word }, ControlWord.causes word &&& ControlWord.trapping word ≠ 0)
  else (u, false)

/-- Record the causes of an operation; the answer tells whether it traps. -/
def commit (u : Fpu) (cause : UInt32) : Fpu × Bool :=
  let word := ControlWord.withCauses u.control cause
  -- A trap leaves the causes, but adds to no flag
  if cause &&& ControlWord.trapping word ≠ 0 then ({ u with control := word }, true)
  else ({ u with control := ControlWord.withFlags word cause }, false)

/-- Record the causes and, unless one traps, do `write`. -/
@[inline] def complete (u : Fpu) (cause : UInt32) (write : Fpu → Fpu) : Fpu × Bool :=
  match u.commit cause with
  | (u, true) => (u, true)
  | (u, false) => (write u, false)

/-- An operation that the unit leaves to software. -/
def unimplemented (u : Fpu) : Fpu × Bool := u.complete ControlWord.unimplemented id

/-- The floating-point format that a format field names. -/
def floatFormat? (fmt : UInt32) : Option FloatFormat :=
  if fmt = 16 then some .single else if fmt = 17 then some .double else none

/-- Add, subtract, multiply, divide, square root. -/
def arithmetic (u : Fpu) (i : Instruction) (f : FloatFormat) (op : FloatOperation) : Fpu × Bool :=
  let (r, cause) := f.compute op u.roundingMode (u.readFloat f i.fs) (u.readFloat f i.ft)
  u.complete cause (·.writeFloat f i.fd r)

/-- Absolute value (5), move (6) and negation (7) work on the pattern. -/
def signOperation (u : Fpu) (i : Instruction) (f : FloatFormat) : Fpu × Bool :=
  let x := u.readFloat f i.fs
  let r :=
    if i.funct = 5 then f.magnitude x
    else if i.funct = 6 then x
    else x ^^^ f.signBit
  -- A move does not look at what it moves
  let cause := if i.funct ≠ 6 && f.isNaN x then ControlWord.invalid else 0
  u.complete cause (·.writeFloat f i.fd r)

/-- The least and the greatest integer of 32 (`long` off) or 64 bits. -/
def integerRange (long : Bool) : Int × Int :=
  if long then (-0x8000000000000000, 0x7FFFFFFFFFFFFFFF) else (-0x80000000, 0x7FFFFFFF)

/-- Convert to an integer.  What is no number, or too large, is left to
software. -/
def toInteger (u : Fpu) (i : Instruction) (f : FloatFormat) (mode : RoundingMode)
    (long : Bool) : Fpu × Bool :=
  let x := u.readFloat f i.fs
  if !f.isFinite x then u.unimplemented
  else
    let exact := f.value x
    let n := mode.toInt exact
    let (least, greatest) := integerRange long
    if n < least || greatest < n then u.unimplemented
    else
      let cause := if Dyadic.ofInt n = exact then 0 else ControlWord.inexact
      u.complete cause fun u =>
        if long then u.writeDouble i.fd (Int64.ofInt n).toUInt64
        else u.writeWord i.fd (Int32.ofInt n).toUInt32

/-- Convert to a floating-point format from the other one or from an integer
of 32 (format field 20) or 64 bits (21). -/
def toFloat (u : Fpu) (i : Instruction) (f : FloatFormat) : Fpu × Bool :=
  let mode := u.roundingMode
  let ofInt (n : Int) := f.round mode (n < 0) (Dyadic.ofInt n)
  let (r, cause) :=
    if i.fmt = 20 then ofInt (u.readWord i.fs).toInt32.toInt
    else if i.fmt = 21 then ofInt (u.readDouble i.fs).toInt64.toInt
    else
      let source := (floatFormat? i.fmt).getD .double
      f.convert source mode (u.readFloat source i.fs)
  u.complete cause (·.writeFloat f i.fd r)

/-- Compare.  Bit 3 of the condition makes unordered operands an error. -/
def compare (u : Fpu) (i : Instruction) (f : FloatFormat) : Fpu × Bool :=
  let a := u.readFloat f i.fs
  let b := u.readFloat f i.ft
  let cause := if (f.isNaN a || f.isNaN b) && i.funct &&& 8 ≠ 0 then ControlWord.invalid else 0
  u.complete cause fun u =>
    { u with control := ControlWord.withCondition u.control (f.holds i.funct a b) }

/-- The operations on floating-point operands. -/
def executeFloat (u : Fpu) (i : Instruction) (f : FloatFormat) : Fpu × Bool :=
  match i.funct with
  | 0x00 => u.arithmetic i f .add
  | 0x01 => u.arithmetic i f .sub
  | 0x02 => u.arithmetic i f .mul
  | 0x03 => u.arithmetic i f .div
  | 0x04 => u.arithmetic i f .sqrt
  | 0x05 | 0x06 | 0x07 => u.signOperation i f
  | 0x08 | 0x09 | 0x0A | 0x0B => u.toInteger i f (.ofBits i.funct) true
  | 0x0C | 0x0D | 0x0E | 0x0F => u.toInteger i f (.ofBits i.funct) false
  -- There is no conversion of a format to itself
  | 0x20 => if f = .single then u.unimplemented else u.toFloat i .single
  | 0x21 => if f = .double then u.unimplemented else u.toFloat i .double
  | 0x24 => u.toInteger i f u.roundingMode false
  | 0x25 => u.toInteger i f u.roundingMode true
  | funct => if 0x30 ≤ funct then u.compare i f else u.unimplemented

/-- The operations on integer operands: conversions only. -/
def executeInteger (u : Fpu) (i : Instruction) : Fpu × Bool :=
  match i.funct with
  | 0x20 => u.toFloat i .single
  | 0x21 => u.toFloat i .double
  | _ => u.unimplemented

/-- Carry out a computational instruction; the answer tells whether it traps. -/
def execute (u : Fpu) (i : Instruction) : Fpu × Bool :=
  match floatFormat? i.fmt with
  | some f => u.executeFloat i f
  | none => if i.fmt = 20 || i.fmt = 21 then u.executeInteger i else u.unimplemented

end Fpu

end Console64

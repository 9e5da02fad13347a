/-! # Floating-point control

The control word holds the rounding mode, sticky flags, enables, the causes of
the last operation, the condition and the flush mode. -/

namespace Console64

/-- Where inexact results go. -/
inductive RoundingMode where
  | nearest
  | zero
  | up
  | down
  deriving DecidableEq, Repr, Inhabited

namespace RoundingMode

/-- The mode that two bits select. -/
def ofBits (bits : UInt32) : RoundingMode :=
  if bits &&& 3 = 0 then nearest
  else if bits &&& 3 = 1 then zero
  else if bits &&& 3 = 2 then up
  else down

/-- `x` as an integer. -/
def toInt (mode : RoundingMode) (x : Dyadic) : Int :=
  match mode with
  | down => x.toRat.floor
  | up => x.toRat.ceil
  | zero => if x < 0 then x.toRat.ceil else x.toRat.floor
  | nearest =>
    let low := x.toRat.floor
    let rest := x - Dyadic.ofInt low
    let half := Dyadic.ofIntWithPrec 1 1
    if half < rest || (rest = half && low % 2 = 1) then low + 1 else low

end RoundingMode

/-! ## The control word -/

namespace ControlWord

/-- Causes of an operation, in the order of the flag, enable and cause fields. -/
def inexact : UInt32 := 0x01

def underflow : UInt32 := 0x02

def overflow : UInt32 := 0x04

def divideByZero : UInt32 := 0x08

def invalid : UInt32 := 0x10

/-- The unit cannot carry the operation out: has no flag, always traps. -/
def unimplemented : UInt32 := 0x20

/-- The condition that comparisons set. -/
def conditionBit : UInt32 := 0x00800000

/-- The bits that exist. -/
def writable : UInt32 := 0x0183FFFF

/-- The field of causes. -/
def causeField : UInt32 := 0x0003F000

/-- The causes recorded in the word. -/
def causes (word : UInt32) : UInt32 := (word >>> 12) &&& 0x3F

/-- The causes that trap. -/
def trapping (word : UInt32) : UInt32 := ((word >>> 7) &&& 0x1F) ||| unimplemented

/-- Record the causes of an operation. -/
def withCauses (word cause : UInt32) : UInt32 := (word &&& ~~~causeField) ||| (cause <<< 12)

/-- Add the causes of an operation to the sticky flags. -/
def withFlags (word cause : UInt32) : UInt32 := word ||| ((cause &&& 0x1F) <<< 2)

def condition (word : UInt32) : Bool := word &&& conditionBit ≠ 0

def withCondition (word : UInt32) (on : Bool) : UInt32 :=
  if on then word ||| conditionBit else word &&& ~~~conditionBit

def roundingMode (word : UInt32) : RoundingMode := .ofBits word

end ControlWord

end Console64

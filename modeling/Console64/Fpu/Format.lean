/-! # Binary floating-point formats

A number is held as its bit pattern.  The magnitude bits of the patterns are in
the order of the numbers, which gives comparison and neighbours; `value` is the
exact number behind a finite pattern, and `nearest` goes back, rounding to the
nearest number and ties to even. -/

namespace Console64

/-- The two formats that the unit computes in. -/
inductive FloatFormat where
  | single
  | double
  deriving DecidableEq, Repr, Inhabited

namespace FloatFormat

/-- Width of the fraction field. -/
def fractionBits : FloatFormat → Nat
  | single => 23
  | double => 52

/-- Width of the exponent field. -/
def exponentBits : FloatFormat → Nat
  | single => 8
  | double => 11

/-- The sign bit, all other bits zero. -/
def signBit : FloatFormat → UInt64
  | single => 0x80000000
  | double => 0x8000000000000000

/-- The pattern of positive infinity. -/
def infinity : FloatFormat → UInt64
  | single => 0x7F800000
  | double => 0x7FF0000000000000

/-- The pattern of the least positive number with a full fraction. -/
def leastNormal : FloatFormat → UInt64
  | single => 0x00800000
  | double => 0x0010000000000000

/-- A pattern that is not a number. -/
def quietNaN : FloatFormat → UInt64
  | single => 0x7FC00000
  | double => 0x7FF8000000000000

/-- The difference between the exponent field and the exponent. -/
def bias (f : FloatFormat) : Nat := 1 <<< (f.exponentBits - 1) - 1

/-- The least positive number is two to minus this. -/
def leastPrecision (f : FloatFormat) : Nat := f.bias + f.fractionBits - 1

/-- The pattern without its sign. -/
def magnitude (f : FloatFormat) (bits : UInt64) : UInt64 := bits &&& (f.signBit - 1)

/-- The sign bit is set. -/
def isNegative (f : FloatFormat) (bits : UInt64) : Bool := bits &&& f.signBit ≠ 0

def isNaN (f : FloatFormat) (bits : UInt64) : Bool := f.infinity < f.magnitude bits

def isInfinite (f : FloatFormat) (bits : UInt64) : Bool := f.magnitude bits = f.infinity

def isFinite (f : FloatFormat) (bits : UInt64) : Bool := f.magnitude bits < f.infinity

def isZero (f : FloatFormat) (bits : UInt64) : Bool := f.magnitude bits = 0

/-- Not zero, but too small for a full fraction. -/
def isTiny (f : FloatFormat) (bits : UInt64) : Bool :=
  !f.isZero bits && f.magnitude bits < f.leastNormal

/-- A magnitude with a sign. -/
def withSign (f : FloatFormat) (negative : Bool) (magnitude : UInt64) : UInt64 :=
  if negative then f.signBit ||| magnitude else magnitude

/-- Numbers, infinities included, are ordered as these keys; both zeros have
the same one. -/
def orderKey (f : FloatFormat) (bits : UInt64) : Int :=
  if f.isNegative bits then -(f.magnitude bits).toNat else (f.magnitude bits).toNat

/-- The number behind a finite pattern. -/
def value (f : FloatFormat) (bits : UInt64) : Dyadic :=
  let m := (f.magnitude bits).toNat
  let exponent := m >>> f.fractionBits
  let fraction := m % (1 <<< f.fractionBits)
  -- Only a full fraction has a leading one that is not in the pattern
  let significand := if exponent = 0 then fraction else fraction + 1 <<< f.fractionBits
  let signed : Int := if f.isNegative bits then -significand else significand
  .ofIntWithPrec signed (f.leastPrecision - ((exponent - 1 : Nat) : Int))

/-- `n / d` to the nearest natural number, ties to even. -/
def divNearest (n d : Nat) : Nat :=
  let q := n / d
  let twice := 2 * (n % d)
  if d < twice || (twice = d && q % 2 = 1) then q + 1 else q

/-- The magnitude of the number nearest to `x`, ties to even.  Where the
distance to the next greater number is `2 ^ q` times the least one, it counts
those steps. -/
def nearest (f : FloatFormat) : Dyadic → UInt64
  | .zero => 0
  | .ofOdd n precision _ =>
    let top : Int := n.natAbs.log2 - precision
    let q : Nat := (top - f.fractionBits + f.leastPrecision).toNat
    let shift : Int := q - f.leastPrecision + precision
    let steps := if shift ≤ 0 then n.natAbs <<< (-shift).toNat
      else divNearest n.natAbs (1 <<< shift.toNat)
    -- A carry out of the fraction goes into the exponent by itself
    let pattern := q <<< f.fractionBits + steps
    if f.infinity.toNat ≤ pattern then f.infinity else UInt64.ofNat pattern

end FloatFormat

end Console64

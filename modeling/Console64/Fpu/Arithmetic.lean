import Console64.Fpu.Control
import Console64.Fpu.Format

/-! # Floating-point arithmetic

Each operation is carried out to the nearest number first.  `residue` tells on
which side of that the exact result lies; it decides whether the operation was
inexact and, through `directed`, where the other rounding modes put the result.

The residue of a sum is computed in the format itself, that of the other
operations exactly, and one too small for the format counts as none. -/

namespace Console64

/-- The arithmetic operations. -/
inductive FloatOperation where
  | add
  | sub
  | mul
  | div
  | sqrt
  deriving DecidableEq, Repr, Inhabited

namespace FloatOperation

/-- The second operand takes part. -/
def isBinary (op : FloatOperation) : Bool := op ≠ sqrt

/-- The operation on single numbers, to the nearest. -/
def onSingle (op : FloatOperation) (a b : Float32) : Float32 :=
  match op with
  | add => a + b
  | sub => a - b
  | mul => a * b
  | div => a / b
  | sqrt => a.sqrt

/-- The operation on double numbers, to the nearest. -/
def onDouble (op : FloatOperation) (a b : Float) : Float :=
  match op with
  | add => a + b
  | sub => a - b
  | mul => a * b
  | div => a / b
  | sqrt => a.sqrt

end FloatOperation

namespace FloatFormat

/-- The operation on patterns, to the nearest. -/
def operate (f : FloatFormat) (op : FloatOperation) (a b : UInt64) : UInt64 :=
  match f with
  | single => (op.onSingle (.ofBits a.toUInt32) (.ofBits b.toUInt32)).toBits.toUInt64
  | double => (op.onDouble (.ofBits a) (.ofBits b)).toBits

/-- What the sum `r` of `a` and `b` leaves over. -/
@[inline] def sumRest {α : Type} [Sub α] [Add α] (a b r : α) : α :=
  let second := r - a
  (a - (r - second)) + (b - second)

/-- The pattern of what the sum `r` of `a` and `b` leaves over. -/
def sumResidue (f : FloatFormat) (a b r : UInt64) : UInt64 :=
  match f with
  | single =>
    (sumRest (Float32.ofBits a.toUInt32) (.ofBits b.toUInt32)
      (.ofBits r.toUInt32)).toBits.toUInt64
  | double => (sumRest (Float.ofBits a) (.ofBits b) (.ofBits r)).toBits

/-- The sign of a residue, where one of at most half the least number counts as
zero. -/
def residueSign (f : FloatFormat) (x : Dyadic) : Ordering :=
  let half := Dyadic.ofIntWithPrec 1 (f.leastPrecision + 1)
  if half < x then .gt else if x < -half then .lt else .eq

/-- The sign of a pattern's number. -/
def signOf (f : FloatFormat) (bits : UInt64) : Ordering :=
  if f.isZero bits then .eq
  else if f.isNaN bits || f.isNegative bits then .lt
  else .gt

/-- How the exact result of an operation on finite numbers compares with its
finite result `r`. -/
def residue (f : FloatFormat) (op : FloatOperation) (a b r : UInt64) : Ordering :=
  match op with
  | .add => f.signOf (f.sumResidue a b r)
  | .sub => f.signOf (f.sumResidue a (b ^^^ f.signBit) r)
  | .mul => f.residueSign (f.value a * f.value b - f.value r)
  | .div =>
    -- Compared after multiplying by the divisor, whose sign turns the order around
    let excess := f.residueSign (f.value r * f.value b - f.value a)
    if f.isNegative b then excess else excess.swap
  | .sqrt => (f.residueSign (f.value r * f.value r - f.value a)).swap

/-- The number next to a finite `r`, upwards or downwards. -/
def neighbour (f : FloatFormat) (r : UInt64) (up : Bool) : UInt64 :=
  -- The neighbours of zero are the least numbers of either sign
  if f.isZero r then f.withSign (!up) 1
  else if f.isNegative r = up then r - 1
  else r + 1

/-- An overflow stays infinite only in the modes that round away from the
finite numbers. -/
def overflowed (f : FloatFormat) (mode : RoundingMode) (r : UInt64) : UInt64 :=
  let clamp := match mode with
    | .nearest => false
    | .zero => true
    | .up => f.isNegative r
    | .down => !f.isNegative r
  -- The pattern below that of infinity is the greatest number
  if clamp then r - 1 else r

/-- Move an inexact result from the nearest number to where the mode puts it;
`above` tells that the exact result lies above `r`. -/
def directed (f : FloatFormat) (mode : RoundingMode) (r : UInt64) (above : Bool) : UInt64 :=
  if f.isInfinite r then f.overflowed mode r
  else
    match mode with
    | .nearest => r
    | .zero => if !f.isZero r && f.isNegative r = above then f.neighbour r above else r
    | .up => if above then f.neighbour r true else r
    | .down => if above then r else f.neighbour r false

open ControlWord in
/-- An operation's result and causes. -/
def compute (f : FloatFormat) (op : FloatOperation) (mode : RoundingMode) (a b : UInt64) :
    UInt64 × UInt32 :=
  let r := f.operate op a b
  if f.isNaN a || (op.isBinary && f.isNaN b) || f.isNaN r then (r, invalid)
  else if op = .div && f.isZero b && f.isFinite a then (r, divideByZero)
  else if !f.isFinite a || (op.isBinary && !f.isFinite b) then (r, 0)
  else if f.isInfinite r then (f.directed mode r false, overflow ||| inexact)
  else
    match f.residue op a b r with
    | .eq => (r, 0)
    | side =>
      let r := f.directed mode r (side = .gt)
      (r, if f.isTiny r then underflow ||| inexact else inexact)

open ControlWord in
/-- A number in this format, and the causes of rounding it. -/
def round (f : FloatFormat) (mode : RoundingMode) (negative : Bool) (x : Dyadic) :
    UInt64 × UInt32 :=
  let r := f.withSign negative (f.nearest x)
  if f.isInfinite r then (f.directed mode r false, overflow ||| inexact)
  else if f.value r = x then (r, 0)
  else (f.directed mode r (f.value r < x), inexact)

open ControlWord in
/-- A pattern of format `source` in format `f`, and the causes of converting it. -/
def convert (f source : FloatFormat) (mode : RoundingMode) (bits : UInt64) : UInt64 × UInt32 :=
  let negative := source.isNegative bits
  if source.isNaN bits then (f.quietNaN, invalid)
  else if source.isInfinite bits then (f.withSign negative f.infinity, 0)
  else f.round mode negative (source.value bits)

/-- The comparison that the low four bits of a condition select: bit 0 holds of
unordered operands, bit 1 of equal ones, bit 2 of a first that is less. -/
def holds (f : FloatFormat) (condition : UInt32) (a b : UInt64) : Bool :=
  if f.isNaN a || f.isNaN b then condition &&& 1 ≠ 0
  else
    (f.orderKey a = f.orderKey b && condition &&& 2 ≠ 0) ||
      (f.orderKey a < f.orderKey b && condition &&& 4 ≠ 0)

end FloatFormat

end Console64

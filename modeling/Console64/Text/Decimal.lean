/-! # Decimal text

Whole numbers in decimal digits, most significant first, and fixed point numbers
with a given number of places. -/

namespace Console64.Decimal

/-- The value of a digit. -/
def digitValue (c : Char) : Option Nat := if c.isDigit then some (c.toNat - '0'.toNat) else none

/-- The number that digits write; there has to be one at least. -/
def readDigits : List Char → Option Nat
  | [] => none
  | digits => (digits.mapM digitValue).map (·.foldl (10 * · + ·) 0)

/-- The number that digits write, with or without a plus sign in front, if it is
below `limit`. -/
def readBelow (limit : Nat) (text : List Char) : Option Nat :=
  let number := match text with
    | '+' :: digits => readDigits digits
    | digits => readDigits digits
  number.filter (· < limit)

/-- The quotient of two numbers, a half rounded up, with `places` digits after
the point. -/
def quotient (places numerator denominator : Nat) : String :=
  let scale := Nat.pow 10 places
  let n := (2 * numerator * scale + denominator) / (2 * denominator)
  let digits := String.ofList ((toString (n % scale)).toList.leftpad places '0')
  toString (n / scale) ++ "." ++ digits

end Console64.Decimal

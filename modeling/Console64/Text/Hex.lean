/-! # Hexadecimal text

Upper-case digits, padded with zeros to a least width and never cut. -/

namespace Console64.Hex

/-- The digits of `n` in base sixteen, at least `width` of them. -/
def digits (width n : Nat) : String :=
  String.ofList (((Nat.toDigits 16 n).map Char.toUpper).leftpad width '0')

/-- `digits` behind the marker `0x`. -/
def marked (width n : Nat) : String := "0x" ++ digits width n

/-- A 32-bit word: eight digits behind the marker. -/
def word (w : UInt32) : String := marked 8 w.toNat

/-- A 64-bit value: sixteen digits behind the marker. -/
def double (v : UInt64) : String := marked 16 v.toNat

end Console64.Hex

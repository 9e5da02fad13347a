/-! # Big-endian words

Memory is byte addressed and every multi-byte value in it has its most
significant byte first.  `bytes` and `value` go between a value and its bytes;
`lane` and `setLane` address one byte of a 32-bit word, lane 0 being the most
significant. -/

namespace Console64.BigEndian

/-- The `n` low bytes of `v`, the most significant of them first. -/
def bytes : Nat → UInt64 → List UInt8
  | 0, _ => []
  | n + 1, v => (v >>> UInt64.ofNat (8 * n)).toUInt8 :: bytes n v

/-- There are as many bytes as were asked for. -/
@[simp] theorem length_bytes (n : Nat) (v : UInt64) : (bytes n v).length = n := by
  induction n with
  | zero => rfl
  | succ n ih => simp [bytes, ih]

/-- The number that a run of bytes spells, modulo `2 ^ 64`. -/
def value (bs : List UInt8) : UInt64 :=
  bs.foldl (fun acc b => (acc <<< 8) ||| b.toUInt64) 0

/-- No bytes spell zero. -/
@[simp] theorem value_nil : value [] = 0 := rfl

/-- Byte lane `i` of a 32-bit word. -/
def lane (w : UInt32) (i : Nat) : UInt8 :=
  (w >>> UInt32.ofNat (8 * (3 - i))).toUInt8

/-- `w` with byte lane `i` replaced. -/
def setLane (w : UInt32) (i : Nat) (b : UInt8) : UInt32 :=
  let shift := UInt32.ofNat (8 * (3 - i))
  (w &&& ~~~((0xFF : UInt32) <<< shift)) ||| (b.toUInt32 <<< shift)

/-- The byte at `i`, zero past the end. -/
def byteAt (data : ByteArray) (i : Nat) : UInt8 :=
  if h : i < data.size then data[i] else 0

/-- The 32-bit word at `i`, its bytes zero past the end. -/
def wordAt (data : ByteArray) (i : Nat) : UInt32 :=
  ((byteAt data i).toUInt32 <<< 24) ||| ((byteAt data (i + 1)).toUInt32 <<< 16) |||
    ((byteAt data (i + 2)).toUInt32 <<< 8) ||| (byteAt data (i + 3)).toUInt32

/-- Replace the bytes from `i` on; what lies past the end is dropped. -/
def setBytes (data : ByteArray) (i : Nat) : List UInt8 → ByteArray
  | [] => data
  | byte :: rest =>
    setBytes (if h : i < data.size then data.set i byte else data) (i + 1) rest

end Console64.BigEndian

namespace Console64

/-- The 64-bit register image of a 32-bit value: bit 31 fills the upper half. -/
def signExtend32 (w : UInt32) : UInt64 := w.toInt32.toInt64.toUInt64

/-- The 64-bit register image of a 16-bit value. -/
def signExtend16 (h : UInt16) : UInt64 := h.toInt16.toInt64.toUInt64

/-- The 64-bit register image of a byte. -/
def signExtend8 (b : UInt8) : UInt64 := b.toInt8.toInt64.toUInt64

end Console64

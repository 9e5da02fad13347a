/-! # CRC-32

The cyclic redundancy check with the reflected polynomial `0xEDB88320`, all ones
at the start and complemented at the end. -/

namespace Console64.Crc32

/-- Shift one bit out of the remainder. -/
def shift (r : UInt32) : UInt32 :=
  if r &&& 1 = 1 then (r >>> 1) ^^^ 0xEDB88320 else r >>> 1

/-- Take one byte into the remainder. -/
def step (r : UInt32) (byte : UInt8) : UInt32 :=
  let r := r ^^^ byte.toUInt32
  shift (shift (shift (shift (shift (shift (shift (shift r)))))))

/-- The check of a run of bytes. -/
def ofBytes (bytes : List UInt8) : UInt32 := ~~~(bytes.foldl step 0xFFFFFFFF)

end Console64.Crc32

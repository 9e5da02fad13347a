import Console64.Cartridge.BootChip

/-! # Boot checksums

The boot code sums the first megabyte of game code and refuses to start unless
the header holds the result.  `compute` is that sum, `update` writes it into the
header. -/

namespace Console64.Checksum

/-- First byte of the summed area. -/
def start : Nat := 0x1000

/-- Length of the summed area. -/
def length : Nat := 0x100000

/-- The boot code words that the `x105` sum mixes in start here. -/
def x105Table : Nat := 0x0750

/-- The accumulators of the sum. -/
structure Sums where
  t1 : UInt32
  t2 : UInt32
  t3 : UInt32
  t4 : UInt32
  t5 : UInt32
  t6 : UInt32
  deriving DecidableEq, Repr

/-- All accumulators at the seed. -/
def Sums.seeded (seed : UInt32) : Sums := ⟨seed, seed, seed, seed, seed, seed⟩

/-- `w` turned left by `n` bits, for `n` below 32. -/
def rotateLeft (w n : UInt32) : UInt32 := (w <<< n) ||| (w >>> (32 - n))

/-- Take the word `w` into the sum; `mixed` replaces the fifth accumulator in
the first where it is given. -/
def Sums.step (s : Sums) (w : UInt32) (mixed : Option UInt32) : Sums :=
  let t6 := s.t6 + w
  let t4 := if t6 < w then s.t4 + 1 else s.t4
  let r := rotateLeft w (w &&& 0x1F)
  let t5 := s.t5 + r
  let t2 := if w < s.t2 then s.t2 ^^^ r else s.t2 ^^^ t6 ^^^ w
  { t1 := s.t1 + (mixed.getD t5 ^^^ w), t2, t3 := s.t3 ^^^ w, t4, t5, t6 }

/-- The pair of checksum words at the end of the sum. -/
def Sums.result (s : Sums) : BootChip → UInt32 × UInt32
  | .x103 => ((s.t6 ^^^ s.t4) + s.t3, (s.t5 ^^^ s.t2) + s.t1)
  | .x106 => (s.t6 * s.t4 + s.t3, s.t5 * s.t2 + s.t1)
  | _ => (s.t6 ^^^ s.t4 ^^^ s.t3, s.t5 ^^^ s.t2 ^^^ s.t1)

/-- Take word `i` of the summed area. -/
def stepAt (data : ByteArray) (chip : BootChip) (s : Sums) (i : Nat) : Sums :=
  let mixed := if chip = .x105 then some (BigEndian.wordAt data (x105Table + (i * 4) % 256))
    else none
  s.step (BigEndian.wordAt data (start + 4 * i)) mixed

/-- The checksum words of an image in the machine's own byte order. -/
def compute (data : ByteArray) (chip : BootChip) : Except CartridgeError (UInt32 × UInt32) :=
  if data.size < start + length then .error (.tooSmall data.size)
  else
    let sums := (List.range (length / 4)).foldl (stepAt data chip) (.seeded chip.checksumSeed)
    .ok (sums.result chip)

/-- Write the checksum words into the header. -/
def update (data : ByteArray) (chip : BootChip) :
    Except CartridgeError (ByteArray × UInt32 × UInt32) := do
  let (crc1, crc2) ← compute data chip
  let words := BigEndian.bytes 4 crc1.toUInt64 ++ BigEndian.bytes 4 crc2.toUInt64
  return (BigEndian.setBytes data 0x10 words, crc1, crc2)

end Console64.Checksum

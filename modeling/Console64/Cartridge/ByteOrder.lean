import Console64.BigEndian
import Console64.Cartridge.Error

/-! # Byte orders of cartridge images

Images are stored in one of three byte orders, told apart by their first word.
All three permute bytes inside an aligned group: `laneMask` is what has to be
changed in the index of a byte. -/

namespace Console64

/-- The order in which the bytes of an image are stored. -/
inductive ByteOrder where
  /-- The machine's own order. -/
  | bigEndian
  /-- The two bytes of each pair exchanged. -/
  | byteSwapped
  /-- The four bytes of each word reversed. -/
  | littleEndian
  deriving DecidableEq, Repr, Inhabited

namespace ByteOrder

/-- First word of an image in the machine's own order. -/
def magic : UInt32 := 0x80371240

/-- The byte order that the first word of an image tells. -/
def ofMagic (word : UInt32) : Except CartridgeError ByteOrder :=
  if word = 0x80371240 then .ok bigEndian
  else if word = 0x37804012 then .ok byteSwapped
  else if word = 0x40123780 then .ok littleEndian
  else .error (.unknownFormat word)

/-- The index bits that the order flips; one less than the size of its groups. -/
def laneMask : ByteOrder → Nat
  | bigEndian => 0
  | byteSwapped => 1
  | littleEndian => 3

/-- Where byte `i` of an image of `size` bytes is stored.  The bytes after the
last whole group stay where they are. -/
def sourceIndex (order : ByteOrder) (size i : Nat) : Nat :=
  if i / (order.laneMask + 1) < size / (order.laneMask + 1) then i ^^^ order.laneMask else i

/-- Bring an image into the machine's own order. -/
def normalize (order : ByteOrder) (data : ByteArray) : ByteArray :=
  ⟨Array.ofFn fun i : Fin data.size => BigEndian.byteAt data (order.sourceIndex data.size i)⟩

end ByteOrder

end Console64

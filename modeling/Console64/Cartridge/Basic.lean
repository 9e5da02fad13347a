import Console64.Cartridge.BootChip

/-! # Cartridges

An image in the machine's own byte order, with its header and boot chip.  It is
read only: stores are dropped, and loads past its end give zero. -/

namespace Console64

/-- A cartridge in the slot. -/
structure Cartridge where
  data : ByteArray
  header : CartridgeHeader
  chip : BootChip

namespace Cartridge

/-- Recognise, normalise and describe an image. -/
def ofBytes (data : ByteArray) : Except CartridgeError Cartridge := do
  if data.size < CartridgeHeader.size then
    throw (.tooSmall data.size)
  let order ← ByteOrder.ofMagic (BigEndian.wordAt data 0)
  let data := order.normalize data
  let header ← CartridgeHeader.parse data order
  return { data, header, chip := .detect data }

/-- The cartridge in a file, or in what the host says instead of its contents. -/
def ofFile (contents : Except String ByteArray) : Except CartridgeError Cartridge :=
  match contents with
  | .ok data => ofBytes data
  | .error reason => .error (.unreadable reason)

/-- `length` bytes from `offset` on. -/
def load (c : Cartridge) (offset length : Nat) : List UInt8 :=
  (List.range length).map fun i => BigEndian.byteAt c.data (offset + i)

end Cartridge

end Console64

import Console64.Cartridge.ByteOrder
import Console64.Text.Blank
import Console64.Text.Utf8

/-! # Cartridge headers

The first 64 bytes of an image, in the machine's own byte order. -/

namespace Console64

/-- The television standard that a cartridge is made for. -/
inductive TvStandard where
  | pal
  | ntsc
  | mpal
  deriving DecidableEq, Repr, Inhabited

namespace TvStandard

/-- The number that the boot code expects for the standard. -/
def bootValue : TvStandard → UInt64
  | pal => 0
  | ntsc => 1
  | mpal => 2

/-- The standard of the country that a header names. -/
def ofCountry (code : UInt8) : TvStandard :=
  if code ∈ ("DFIPSUXY".toList.map fun c => c.toNat.toUInt8) then pal
  else if code = 'B'.toNat.toUInt8 then mpal
  else ntsc

end TvStandard

/-- What a cartridge says about itself. -/
structure CartridgeHeader where
  order : ByteOrder
  piTiming : UInt32
  clockRate : UInt32
  entryPoint : UInt32
  release : UInt32
  crc1 : UInt32
  crc2 : UInt32
  name : String
  gameCode : List UInt8
  country : UInt8
  version : UInt8
  tv : TvStandard
  deriving DecidableEq, Repr

namespace CartridgeHeader

/-- Size of the header in bytes. -/
def size : Nat := 0x40

/-- The title: twenty bytes of text, without zeros and blanks around it. -/
def title (data : ByteArray) : String :=
  let bytes := (List.range 20).map fun i => BigEndian.byteAt data (0x20 + i)
  String.ofList (trimBy (fun c => c = '\x00' || isBlank c) (Utf8.decodeLossy bytes))

/-- Read the header of an image in the machine's own byte order; `order` is the
one in which it was stored. -/
def parse (data : ByteArray) (order : ByteOrder) : Except CartridgeError CartridgeHeader :=
  if data.size < size then .error (.tooSmall data.size)
  else
    let word := BigEndian.wordAt data
    let byte := BigEndian.byteAt data
    .ok
      { order
        piTiming := word 0x00
        clockRate := word 0x04
        entryPoint := word 0x08
        release := word 0x0C
        crc1 := word 0x10
        crc2 := word 0x14
        name := title data
        gameCode := [byte 0x3B, byte 0x3C, byte 0x3D, byte 0x3E]
        country := byte 0x3E
        version := byte 0x3F
        tv := .ofCountry (byte 0x3E) }

end CartridgeHeader

end Console64

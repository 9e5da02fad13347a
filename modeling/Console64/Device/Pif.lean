import Console64.Device.Joybus

/-! # The boot ROM and the serial command memory

A window of 1984 bytes of boot ROM followed by 64 bytes of command memory.
Commands run when a store covers the last byte, the control byte. -/

namespace Console64

/-- Boot ROM, command memory and the four controllers. -/
structure Pif where
  rom : ByteArray := .empty
  ram : Joybus.Memory := Vector.replicate _ 0
  romDisabled : Bool := false
  controllers : Vector Controller 4 := Vector.replicate 4 {}

namespace Pif

/-- Size of the boot ROM window. -/
def romSize : Nat := 0x7C0

/-- Size of the command memory. -/
def ramSize : Nat := Joybus.memorySize

/-- Physical address of the command memory. -/
def ramAddress : UInt32 := 0x1FC007C0

/-- Offset of the control byte in the device. -/
def controlOffset : Nat := romSize + Joybus.control

/-- Install a boot ROM; bytes past the window are ignored. -/
def loadRom (p : Pif) (bytes : ByteArray) : Pif :=
  { p with rom := bytes.extract 0 romSize, romDisabled := false }

/-- The byte at `offset`: ROM unless it is disabled, then command memory, then
zero. -/
def byteAt (p : Pif) (offset : Nat) : UInt8 :=
  if offset < romSize then
    if p.romDisabled then 0 else p.rom[offset]?.getD 0
  else p.ram[offset - romSize]?.getD 0

/-- `length` bytes from `offset` on. -/
def load (p : Pif) (offset length : Nat) : List UInt8 :=
  (List.range length).map fun i => p.byteAt (offset + i)

/-- Store one byte; only the command memory takes it. -/
def storeByte (p : Pif) (offset : Nat) (byte : UInt8) : Pif :=
  if offset < romSize then p
  else { p with ram := p.ram.setIfInBounds (offset - romSize) byte }

/-- Store a run of bytes, first to last. -/
def store (p : Pif) (offset : Nat) : List UInt8 → Pif
  | [] => p
  | byte :: rest => (p.storeByte offset byte).store (offset + 1) rest

/-- The control byte. -/
def command (p : Pif) : UInt8 := p.ram[Joybus.control]

/-- Bit 0 of the control byte: answer the packets. -/
def answerPackets (p : Pif) : Pif :=
  let (ram, controllers) := Joybus.scan p.ram p.controllers
  { p with ram, controllers }

/-- Bit 6 of the control byte: clear everything but the control byte. -/
def clearPackets (p : Pif) : Pif :=
  { p with ram := Vector.ofFn fun i => if i.val < Joybus.control then 0 else p.ram[i] }

/-- Carry out the control byte: packets, ROM lock, clearing.  Afterwards the
control byte is `0x80` if a checksum was to be verified, and else zero. -/
def processCommands (p : Pif) : Pif :=
  -- What is asked for is looked up once, before the packets are answered
  let command := p.command
  let p := if command &&& 0x01 ≠ 0 then p.answerPackets else p
  let p := if command &&& 0x10 ≠ 0 then { p with romDisabled := true } else p
  let p := if command &&& 0x40 ≠ 0 then p.clearPackets else p
  -- Bit 5 asks for the checksum to be verified, bit 7 is the verdict of an earlier store
  let verdict : UInt8 := if command &&& 0xA0 ≠ 0 then 0x80 else 0
  { p with ram := p.ram.set Joybus.control verdict }

/-- The side effect of a store of `length` bytes at `offset`. -/
def settle (p : Pif) (offset length : Nat) : Pif :=
  if offset ≤ controlOffset && controlOffset < offset + length then p.processCommands else p

end Pif

end Console64

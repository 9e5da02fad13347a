import Console64.Register.Map

/-! # PI: block transfers between cartridge and main memory

A store into a length register starts a transfer, which runs to its end inside
the store.  `begin` and `finish` are what the registers do around the copy;
`abort` is what they do when the copy fails. -/

namespace Console64

/-- The PI registers, and the number of transfers that ran to their end. -/
structure PeripheralInterface where
  registers : RegisterMap
  transfers : Nat := 0

namespace PeripheralInterface

/-- Slots of the register map. -/
@[match_pattern] abbrev dramSlot : Nat := 0
@[match_pattern] abbrev cartridgeSlot : Nat := 1
/-- Its store copies main memory to the cartridge. -/
@[match_pattern] abbrev readLengthSlot : Nat := 2
/-- Its store copies the cartridge to main memory. -/
@[match_pattern] abbrev writeLengthSlot : Nat := 3
@[match_pattern] abbrev statusSlot : Nat := 4

/-- Number of registers. -/
def count : Nat := 13

def busyFlag : UInt32 := 0x01

def interruptFlag : UInt32 := 0x08

/-- All registers zero. -/
def initial : PeripheralInterface where
  registers := .ofWords "PI" 0x100000
    [.single "PI_DRAM_ADDR" 1, .single "PI_CART_ADDR" 1, .single "PI_RD_LEN" 1,
      .single "PI_WR_LEN" 1, .dual "PI_STATUS" 1, .single "PI_BSD_DOM1_LAT" 1,
      .single "PI_BSD_DOM1_PWD" 1, .single "PI_BSD_DOM1_PGS" 1, .single "PI_BSD_DOM1_RLS" 1,
      .single "PI_BSD_DOM2_LAT" 1, .single "PI_BSD_DOM2_PWD" 1, .single "PI_BSD_DOM2_PGS" 1,
      .single "PI_BSD_DOM2_RLS" 1]

/-- The status that loads see. -/
def status (p : PeripheralInterface) : UInt32 := p.registers.visible statusSlot

def publishStatus (p : PeripheralInterface) (status : UInt32) : PeripheralInterface :=
  { p with registers := p.registers.publish statusSlot status }

/-- Both address registers. -/
def setAddresses (p : PeripheralInterface) (dram cartridge : UInt32) : PeripheralInterface :=
  { p with registers := (p.registers.set dramSlot dram).set cartridgeSlot cartridge }

/-- Where a transfer takes place in main memory: 24 bits, even. -/
def dramAddress (p : PeripheralInterface) : UInt32 :=
  p.registers.stored dramSlot &&& 0x00FFFFFE

/-- Where a transfer takes place on the cartridge side: even. -/
def cartridgeAddress (p : PeripheralInterface) : UInt32 :=
  p.registers.stored cartridgeSlot &&& 0xFFFFFFFE

/-- Bytes moved for a value of a length register. -/
def transferLength (register : UInt32) : Nat := (register &&& 0x00FFFFFF).toNat + 1

/-- A transfer starts: the addresses lose the bits that do not count, and the
busy flag shows. -/
def begin (p : PeripheralInterface) : PeripheralInterface :=
  (p.setAddresses p.dramAddress p.cartridgeAddress).publishStatus (p.status ||| busyFlag)

/-- A transfer of `length` bytes that began at `dram` and `cartridge` is done. -/
def finish (p : PeripheralInterface) (dram cartridge : UInt32) (length : Nat) :
    PeripheralInterface :=
  -- The addresses are those of the start, whatever the copy has done to the registers
  let count := UInt32.ofNat length
  let status := p.status &&& ~~~busyFlag
  { (p.setAddresses ((dram + count) &&& 0x00FFFFFF) (cartridge + count)).publishStatus
      (status ||| interruptFlag) with
    transfers := p.transfers + 1 }

/-- A transfer failed: only the busy flag goes. -/
def abort (p : PeripheralInterface) : PeripheralInterface :=
  p.publishStatus (p.status &&& ~~~busyFlag)

/-- A STATUS store: bit 0 resets the status. -/
def reset (p : PeripheralInterface) (command : UInt32) : PeripheralInterface :=
  if command &&& 0x01 ≠ 0 then p.publishStatus 0 else p

/-- A STATUS store: bit 1 acknowledges the interrupt. -/
def acknowledges (command : UInt32) : Bool := command &&& 0x02 ≠ 0

/-- The interrupt flag goes. -/
def acknowledge (p : PeripheralInterface) : PeripheralInterface :=
  p.publishStatus (p.status &&& ~~~interruptFlag)

end PeripheralInterface

end Console64

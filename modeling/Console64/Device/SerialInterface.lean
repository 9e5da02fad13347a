import Console64.Register.Map

/-! # SI: transfers between the command memory and main memory

Both directions move 64 bytes; the value stored does not matter, since the
command memory has one place only. -/

namespace Console64

/-- Which way the 64 bytes go. -/
inductive SerialTransfer where
  | pifToDram
  | dramToPif
  deriving DecidableEq, Repr

/-- The SI registers, and the last transfers (main memory address and
direction), newest last. -/
structure SerialInterface where
  registers : RegisterMap
  recent : Array (UInt32 × SerialTransfer) := #[]

namespace SerialInterface

/-- Slots of the register map. -/
@[match_pattern] abbrev dramSlot : Nat := 0
@[match_pattern] abbrev toDramSlot : Nat := 1
@[match_pattern] abbrev toPifSlot : Nat := 2
@[match_pattern] abbrev statusSlot : Nat := 3

def interruptFlag : UInt32 := 0x1000

/-- Bytes moved by one transfer. -/
def transferLength : Nat := 64

/-- How many transfers are remembered. -/
def recentLimit : Nat := 64

/-- All registers zero. -/
def initial : SerialInterface where
  registers := .ofLayout "SI" 0x100000
    [(0x00, .single "SI_DRAM_ADDR" 1), (0x04, .single "SI_PIF_ADDR_RD64B" 1),
      (0x10, .single "SI_PIF_ADDR_WR64B" 1), (0x18, .dual "SI_STATUS" 1)]

/-- The status that loads see. -/
def status (s : SerialInterface) : UInt32 := s.registers.visible statusSlot

/-- Where a transfer takes place in main memory. -/
def dramAddress (s : SerialInterface) : UInt32 := s.registers.stored dramSlot &&& 0x00FFFFFF

/-- Remember a transfer, forgetting the oldest when there are too many. -/
def remember (s : SerialInterface) (dram : UInt32) (direction : SerialTransfer) :
    SerialInterface :=
  let kept := if s.recent.size = recentLimit then s.recent.extract 1 s.recent.size else s.recent
  { s with recent := kept.push (dram, direction) }

/-- A transfer is done: it is remembered and the interrupt flag shows. -/
def finish (s : SerialInterface) (dram : UInt32) (direction : SerialTransfer) :
    SerialInterface :=
  let s := s.remember dram direction
  { s with registers := s.registers.publish statusSlot (s.status ||| interruptFlag) }

/-- The interrupt flag goes. -/
def acknowledge (s : SerialInterface) : SerialInterface :=
  { s with registers := s.registers.publish statusSlot (s.status &&& ~~~interruptFlag) }

end SerialInterface

end Console64

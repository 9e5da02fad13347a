import Console64.Register.Map

/-! # MI: the interrupt controller

Six devices raise interrupts here; the ones that the mask lets through drive one
line of the CPU.

    0x00 MODE     stores set and clear mode bits, loads give the mode
    0x04 VERSION
    0x08 INTR     pending interrupts
    0x0C MASK     stores set and clear mask bits, loads give the mask -/

namespace Console64

/-- The sources of interrupts, in bit order. -/
inductive Interrupt where
  | sp | si | ai | vi | pi | dp
  deriving DecidableEq, Repr

namespace Interrupt

/-- Every source, in bit order. -/
def all : List Interrupt := [sp, si, ai, vi, pi, dp]

/-- The source's bit in INTR and MASK. -/
def bit : Interrupt → UInt32
  | sp => 0x01
  | si => 0x02
  | ai => 0x04
  | vi => 0x08
  | pi => 0x10
  | dp => 0x20

end Interrupt

/-- A pair of command bits: `clear` turns `flags` off, then `set` turns them on. -/
def applyPair (command clear set flags word : UInt32) : UInt32 :=
  let word := if command &&& ((1 : UInt32) <<< clear) ≠ 0 then word &&& ~~~flags else word
  if command &&& ((1 : UInt32) <<< set) ≠ 0 then word ||| flags else word

/-- The interrupt controller's registers. -/
structure MipsInterface where
  registers : RegisterMap

namespace MipsInterface

/-- Slots of the register map. -/
@[match_pattern] abbrev modeSlot : Nat := 0
@[match_pattern] abbrev versionSlot : Nat := 1
@[match_pattern] abbrev interruptSlot : Nat := 2
@[match_pattern] abbrev maskSlot : Nat := 3

/-- The version that retail machines report. -/
def retailVersion : UInt32 := 0x02020102

/-- All registers zero. -/
def initial : MipsInterface where
  registers := .ofWords "MI" 0x100000
    [.dual "MI_MODE" 1, .readOnly "MI_VERSION" 1, .readOnly "MI_INTR" 1, .dual "MI_MASK" 1]

def version (m : MipsInterface) : UInt32 := m.registers.visible versionSlot

def setVersion (m : MipsInterface) (version : UInt32) : MipsInterface :=
  { m with registers := m.registers.set versionSlot version }

/-- The pending interrupts, one bit each. -/
def pending (m : MipsInterface) : UInt32 := m.registers.visible interruptSlot

/-- The interrupts let through, one bit each. -/
def mask (m : MipsInterface) : UInt32 := m.registers.visible maskSlot

def raise (m : MipsInterface) (source : Interrupt) : MipsInterface :=
  { m with registers := m.registers.publish interruptSlot (m.pending ||| source.bit) }

def clear (m : MipsInterface) (source : Interrupt) : MipsInterface :=
  { m with registers := m.registers.publish interruptSlot (m.pending &&& ~~~source.bit) }

/-- An interrupt is pending that the mask lets through. -/
def asserted (m : MipsInterface) : Bool := m.pending &&& m.mask &&& 0x3F ≠ 0

/-- A MODE store: the low seven bits are taken as they are, pairs of bits clear
and set init mode, test mode and register mode, and bit 11 acknowledges DP. -/
def writeMode (m : MipsInterface) (command : UInt32) : MipsInterface :=
  let mode := (m.registers.visible modeSlot &&& ~~~0x7F) ||| (command &&& 0x7F)
  let mode := applyPair command 7 8 0x80 mode
  let mode := applyPair command 9 10 0x100 mode
  let mode := applyPair command 12 13 0x200 mode
  let m := { m with registers := m.registers.publish modeSlot mode }
  if command &&& 0x800 ≠ 0 then m.clear .dp else m

/-- One step of a MASK store: of two command bits, the lower alone clears the
source's mask bit and the upper alone sets it. -/
def applyMask (command mask : UInt32) (source : Nat) : UInt32 :=
  let bit : UInt32 := 1 <<< UInt32.ofNat source
  let pair := (command >>> UInt32.ofNat (2 * source)) &&& 3
  -- Both command bits together change nothing
  if pair = 1 then mask &&& ~~~bit
  else if pair = 2 then mask ||| bit
  else mask

/-- A MASK store: two command bits for each source. -/
def writeMask (m : MipsInterface) (command : UInt32) : MipsInterface :=
  let mask := (List.range 6).foldl (applyMask command) m.mask
  { m with registers := m.registers.publish maskSlot mask }

/-- The side effect of a store into one register. -/
def settleSlot (m : MipsInterface) (slot : Nat) : MipsInterface :=
  let command := m.registers.stored slot
  match slot with
  | modeSlot => m.writeMode command
  | maskSlot => m.writeMask command
  | _ => m

/-- The side effects of a store of `length` bytes at `offset`. -/
def settle (m : MipsInterface) (offset length : Nat) : MipsInterface :=
  (m.registers.touched offset length).foldl settleSlot m

end MipsInterface

end Console64

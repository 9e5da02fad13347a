import Console64.Text.Hex

/-! # Bus faults

Failures of the bus itself: a hole in the address map, a device asked for bytes
that it does not own.  They are never exceptions of the running program. -/

namespace Console64

/-- Why a bus access could not be carried out. -/
inductive BusError where
  /-- No device answers at this physical address. -/
  | unmapped (address : UInt32)
  /-- The span runs past the end of the device. -/
  | outOfRange (device : String) (offset length : Nat)
  /-- A register block cannot be placed at this offset. -/
  | layout (device : String) (offset : Nat)
  /-- A block copy stopped after `count` bytes. -/
  | copyAborted (count : Nat) (cause : BusError)
  /-- A transfer started another one more often than the bus allows. -/
  | nestedTooDeep
  deriving DecidableEq, Repr, Inhabited

/-- The text shown for a bus fault. -/
def BusError.message : BusError → String
  | .unmapped address => "no device mapped at physical address " ++ Hex.word address
  | .outOfRange device offset length =>
    s!"{device}: {length}-byte access at offset " ++ Hex.marked 0 offset ++
      " falls outside the device"
  | .layout device offset =>
    s!"{device}: register layout rejected at offset " ++ Hex.marked 0 offset
  | .copyAborted count _ => s!"DMA copy aborted after {count} bytes"
  | .nestedTooDeep => "DMA transfers nested too deeply"

end Console64

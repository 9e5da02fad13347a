import Console64.Bus.Region
import Console64.Bus.WriteLog
import Console64.Cartridge.Basic
import Console64.Device.AudioInterface
import Console64.Device.Pif
import Console64.Device.PeripheralInterface
import Console64.Device.Rdram
import Console64.Device.SerialInterface
import Console64.Device.SignalProcessor
import Console64.Device.VideoInterface

/-! # The bus and its devices

`Bus` holds every device.  `deviceLoad` and `deviceStore` are what the owner of a
region does with a span inside it; they cannot fail, since a span is checked
against the address map before it gets here. -/

namespace Console64

/-- All devices, and the log of main memory writes. -/
structure Bus where
  rdram : Rdram
  rdramRegisters : RegisterMap
  sp : SignalProcessor
  dpCommand : RegisterMap
  dpSpan : RegisterMap
  mi : MipsInterface
  vi : VideoInterface
  ai : AudioInterface
  pi : PeripheralInterface
  ri : RegisterMap
  si : SerialInterface
  cartridge : Cartridge
  pif : Pif
  writes : WriteLog

/-- Work on the bus that may end in a fault.  What was done before the fault
stays done. -/
abbrev BusM := EStateM BusError Bus

namespace Bus

/-- The devices after power-on, with `rdramSize` bytes of main memory. -/
def initial (cartridge : Cartridge) (rdramSize : Nat) : Bus where
  rdram := .zero rdramSize
  rdramRegisters := .plain "RDRAM regs" 10 Region.rdramRegisters.size
  sp := .initial
  dpCommand := .plain "DP command" 8 Region.dpCommand.size
  dpSpan := .plain "DP span" 4 Region.dpSpan.size
  mi := .initial
  vi := .initial
  ai := .initial
  pi := .initial
  ri := .plain "RI" 8 Region.ri.size
  si := .initial
  cartridge := cartridge
  pif := {}
  writes := {}

/-- `length` bytes of a region from `offset` on.  Only the signal processor
changes when it is read. -/
def deviceLoad (bus : Bus) (region : Region) (offset length : Nat) : List UInt8 × Bus :=
  match region with
  | .rdram => (bus.rdram.load offset length, bus)
  | .rdramRegisters => (bus.rdramRegisters.load offset length, bus)
  | .sp =>
    -- A load of the semaphore takes it
    let (bytes, sp) := bus.sp.load offset length
    (bytes, { bus with sp })
  | .dpCommand => (bus.dpCommand.load offset length, bus)
  | .dpSpan => (bus.dpSpan.load offset length, bus)
  | .mi => (bus.mi.registers.load offset length, bus)
  | .vi => (bus.vi.registers.load offset length, bus)
  | .ai => (bus.ai.registers.load offset length, bus)
  | .pi => (bus.pi.registers.load offset length, bus)
  | .ri => (bus.ri.load offset length, bus)
  | .si => (bus.si.registers.load offset length, bus)
  | .cartridge => (bus.cartridge.load offset length, bus)
  | .pif => (bus.pif.load offset length, bus)

/-- Store bytes into a region, without the side effects that follow. -/
def deviceStore (bus : Bus) (region : Region) (offset : Nat) (data : List UInt8) : Bus :=
  match region with
  | .rdram => { bus with rdram := bus.rdram.store offset data }
  | .rdramRegisters => { bus with rdramRegisters := bus.rdramRegisters.store offset data }
  | .sp => { bus with sp := bus.sp.store offset data }
  | .dpCommand => { bus with dpCommand := bus.dpCommand.store offset data }
  | .dpSpan => { bus with dpSpan := bus.dpSpan.store offset data }
  | .mi => { bus with mi.registers := bus.mi.registers.store offset data }
  | .vi => { bus with vi.registers := bus.vi.registers.store offset data }
  | .ai => { bus with ai.registers := bus.ai.registers.store offset data }
  | .pi => { bus with pi.registers := bus.pi.registers.store offset data }
  | .ri => { bus with ri := bus.ri.store offset data }
  | .si => { bus with si.registers := bus.si.registers.store offset data }
  -- The image is read-only: what is stored there is lost, without a fault
  | .cartridge => bus
  | .pif => { bus with pif := bus.pif.store offset data }

/-- Record a store into main memory. -/
def noteStore (bus : Bus) (region : Region) (offset length : Nat) : Bus :=
  match region with
  | .rdram => { bus with writes := bus.writes.note ⟨offset, length⟩ }
  | _ => bus

/-- Start or stop recording main memory writes. -/
def watchWrites (bus : Bus) (on : Bool) : Bus := { bus with writes := bus.writes.watch on }

/-- The main memory ranges written since they were last taken. -/
def takeWrites (bus : Bus) : List ByteRange × Bus :=
  let (ranges, writes) := bus.writes.take
  (ranges, { bus with writes })

def raise (bus : Bus) (source : Interrupt) : Bus := { bus with mi := bus.mi.raise source }

def acknowledge (bus : Bus) (source : Interrupt) : Bus := { bus with mi := bus.mi.clear source }

/-- Let `cycles` CPU cycles pass for the video interface. -/
def advanceVideo (bus : Bus) (cycles : Nat) : Bus :=
  let (vi, hit) := bus.vi.advance (UInt64.ofNat cycles)
  let bus := { bus with vi }
  if hit then bus.raise .vi else bus

end Bus

end Console64

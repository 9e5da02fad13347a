import Console64.Bus.Basic

/-! # Moving bytes over the bus

A span is routed either as a whole (`aligned`) or byte by byte (`unaligned`).
Either way it is checked against the address map before any device is touched.

After a store, the device's side effects follow (`postStore`).  Some of them are
block copies over the same bus, whose stores have side effects in turn; the
depth of that nesting is what `nestedCopy` counts. -/

namespace Console64

/-- How a span is routed. -/
inductive Transfer where
  /-- The whole span belongs to the device at its first address. -/
  | aligned
  /-- The owner is looked up for every byte. -/
  | unaligned
  deriving DecidableEq, Repr

/-- A block copy as devices see it: from, to, length. -/
abbrev BlockCopy := UInt32 → UInt32 → Nat → BusM Unit

/-- A part of a span that lies in one region without a gap. -/
structure Run where
  region : Region
  offset : Nat
  length : Nat
  deriving DecidableEq, Repr

namespace Bus

/-- Split a span of `length` bytes into runs, first to last.  Addresses wrap at
the end of the address space. -/
def runs (address : UInt32) : (length : Nat) → Except BusError (List Run)
  | 0 => .ok []
  | length + 1 => do
    -- Every byte is looked up before any device is touched, so that a hole refuses the whole span
    let (region, offset) ← Region.resolve address
    let rest ← runs (address + 1) length
    match rest with
    | r :: others =>
      if r.region = region && r.offset = offset + 1 then
        return ⟨region, offset, r.length + 1⟩ :: others
      else return ⟨region, offset, 1⟩ :: r :: others
    | [] => return [⟨region, offset, 1⟩]

/-- The whole span as one run of the device at its first address. -/
def alignedRun (address : UInt32) (length : Nat) : Except BusError Run := do
  let (region, offset) ← Region.resolve address
  if region.size < offset + length then
    throw (.outOfRange region.name offset length)
  return ⟨region, offset, length⟩

/-- The runs of a span. -/
def route (transfer : Transfer) (address : UInt32) (length : Nat) :
    Except BusError (List Run) :=
  match transfer with
  | .aligned => do return [← alignedRun address length]
  | .unaligned => runs address length

/-- Load the runs in order. -/
def loadRuns (bus : Bus) : List Run → List UInt8 × Bus
  | [] => ([], bus)
  | r :: rest =>
    let (bytes, bus) := bus.deviceLoad r.region r.offset r.length
    let (others, bus) := bus.loadRuns rest
    (bytes ++ others, bus)

/-- Load a span. -/
def loadSpan (transfer : Transfer) (address : UInt32) (length : Nat) : BusM (List UInt8) :=
  fun bus =>
    match route transfer address length with
    | .error e => .error e bus
    | .ok runs =>
      let (bytes, bus) := bus.loadRuns runs
      .ok bytes bus

/-! ## Side effects of stores -/

/-- Do `x`, and turn a fault into a value. -/
@[inline] def attempt {α : Type} (x : BusM α) : BusM (Except BusError α) := fun bus =>
  match x bus with
  | .ok a bus => .ok (.ok a) bus
  | .error e bus => .ok (.error e) bus

/-- Do `x` again with what it leaves: a fault, or nothing. -/
def rethrow : Option BusError → BusM Unit
  | some e => throw e
  | none => pure ()

/-- A PI transfer; `toDram` tells the direction. -/
def peripheralTransfer (copy : BlockCopy) (toDram : Bool) (register : UInt32) : BusM Unit := do
  modify fun bus => { bus with pi := bus.pi.begin }
  -- The addresses are read once: a transfer nested in the copy may change the registers
  let dram := (← get).pi.dramAddress
  let cartridge := (← get).pi.cartridgeAddress
  let length := PeripheralInterface.transferLength register
  match ← attempt (if toDram then copy cartridge dram length else copy dram cartridge length) with
  | .ok _ =>
    modify fun bus => { bus with pi := bus.pi.finish dram cartridge length }.raise .pi
  | .error e =>
    modify fun bus => { bus with pi := bus.pi.abort }
    throw e

/-- What a store into one PI register sets off. -/
def peripheralStored (copy : BlockCopy) (slot : Nat) : BusM Unit := do
  let value := (← get).pi.registers.stored slot
  match slot with
  | PeripheralInterface.readLengthSlot => peripheralTransfer copy false value
  | PeripheralInterface.writeLengthSlot => peripheralTransfer copy true value
  | PeripheralInterface.statusSlot =>
    modify fun bus => { bus with pi := bus.pi.reset value }
    if PeripheralInterface.acknowledges value then
      modify fun bus => { bus with pi := bus.pi.acknowledge }.acknowledge .pi
  | _ => pure ()

/-- An SI transfer. -/
def serialTransfer (copy : BlockCopy) (direction : SerialTransfer) : BusM Unit := do
  let dram := (← get).si.dramAddress
  match direction with
  | .pifToDram => copy Pif.ramAddress dram SerialInterface.transferLength
  | .dramToPif => copy dram Pif.ramAddress SerialInterface.transferLength
  modify fun bus => { bus with si := bus.si.finish dram direction }.raise .si

/-- What a store into one SI register sets off. -/
def serialStored (copy : BlockCopy) (slot : Nat) : BusM Unit :=
  match slot with
  | SerialInterface.toDramSlot => serialTransfer copy .pifToDram
  | SerialInterface.toPifSlot => serialTransfer copy .dramToPif
  | SerialInterface.statusSlot =>
    modify fun bus => { bus with si := bus.si.acknowledge }.acknowledge .si
  | _ => pure ()

/-- Copy the pieces of an SP transfer in order, up to the first fault.  The
answer is where the transfer stands then. -/
def copyPieces (copy : BlockCopy) (direction : SignalTransfer) :
    List SignalProcessor.Piece → SignalProcessor.Position →
    BusM (SignalProcessor.Position × Option BusError)
  | [], p => return (p, none)
  | piece :: rest, p => do
    let memory := SignalProcessor.memoryBase + piece.memory
    let length := piece.length.toNat
    match ← attempt (match direction with
      | .dramToMemory => copy piece.dram memory length
      | .memoryToDram => copy memory piece.dram length) with
    | .ok _ => copyPieces copy direction rest piece.next
    | .error e => return (p, some e)

/-- An SP transfer. -/
def signalTransfer (copy : BlockCopy) (direction : SignalTransfer) (register : UInt32) :
    BusM Unit := do
  modify fun bus => { bus with sp := bus.sp.begin }
  let sp := (← get).sp
  let bank := sp.transferBank
  let (position, fault) ← copyPieces copy direction (sp.pieces register) sp.transferStart
  modify fun bus => { bus with sp := bus.sp.finish direction bank register position }
  rethrow fault

/-- What a store into one SP register sets off. -/
def signalStored (copy : BlockCopy) (slot : Nat) : BusM Unit := do
  let value := (← get).sp.registers.stored slot
  match slot with
  | SignalProcessor.readLengthSlot => signalTransfer copy .dramToMemory value
  | SignalProcessor.writeLengthSlot => signalTransfer copy .memoryToDram value
  | SignalProcessor.statusSlot =>
    modify fun bus =>
      let (sp, mi) := bus.sp.writeStatus bus.mi value
      { bus with sp, mi }
  | SignalProcessor.semaphoreSlot =>
    modify fun bus => { bus with sp := bus.sp.releaseSemaphore }
  | _ => pure ()

/-- The side effects of a store of `length` bytes at `offset`, one register
after the other; a fault in one leaves the rest undone. -/
def postStore (copy : BlockCopy) (region : Region) (offset length : Nat) : BusM Unit := do
  match region with
  | .sp =>
    -- A store that begins in the memory window has no side effect
    unless offset < SignalProcessor.memoryWindow do
      ((← get).sp.registers.touched offset length).forM (signalStored copy)
  | .mi => modify fun bus => { bus with mi := bus.mi.settle offset length }
  | .vi =>
    if VideoInterface.currentSlot ∈ (← get).vi.registers.touched offset length then
      modify (·.acknowledge .vi)
  | .ai =>
    if AudioInterface.statusSlot ∈ (← get).ai.registers.touched offset length then
      modify (·.acknowledge .ai)
  | .pi => ((← get).pi.registers.touched offset length).forM (peripheralStored copy)
  | .si => ((← get).si.registers.touched offset length).forM (serialStored copy)
  | .pif => modify fun bus => { bus with pif := bus.pif.settle offset length }
  | _ => pure ()

/-! ## Stores and copies -/

/-- Store into one device, and let the side effects follow. -/
def storeRun (copy : BlockCopy) (region : Region) (offset : Nat) (data : List UInt8) :
    BusM Unit := do
  modify fun bus =>
    (bus.deviceStore region offset data).noteStore region offset data.length
  postStore copy region offset data.length

/-- Store the runs in order, each with its share of the data. -/
def storeRuns (copy : BlockCopy) : List Run → List UInt8 → BusM Unit
  | [], _ => pure ()
  | r :: rest, data => do
    storeRun copy r.region r.offset (data.take r.length)
    storeRuns copy rest (data.drop r.length)

/-- Store a span. -/
def storeSpan (copy : BlockCopy) (transfer : Transfer) (address : UInt32) (data : List UInt8) :
    BusM Unit := fun bus =>
  match route transfer address data.length with
  | .error e => .error e bus
  | .ok runs => storeRuns copy runs data bus

/-- Bytes that a block copy moves at a time. -/
def copyUnit : Nat := 4

/-- The last `units` units of a block copy of `length` bytes, of which `done`
bytes have been moved. -/
def copyUnits (copy : BlockCopy) (source target : UInt32) (length : Nat) :
    (units done : Nat) → BusM Unit
  | 0, _ => pure ()
  | units + 1, done => do
    -- The last unit may be a short one
    let n := min copyUnit (length - done)
    let shift := UInt32.ofNat done
    -- A fault tells how many bytes had arrived before its unit
    EStateM.adaptExcept (BusError.copyAborted done) do
      let bytes ← loadSpan .unaligned (source + shift) n
      storeSpan copy .unaligned (target + shift) bytes
    copyUnits copy source target length units (done + n)

/-- A block copy, whose stores copy through `copy` in turn. -/
def copyThrough (copy : BlockCopy) : BlockCopy := fun source target length =>
  copyUnits copy source target length ((length + copyUnit - 1) / copyUnit) 0

/-- The block copy handed to devices, good for `depth` more levels of transfers
that start transfers. -/
def nestedCopy : (depth : Nat) → BlockCopy
  | 0 => fun _ _ _ => throw .nestedTooDeep
  | depth + 1 => copyThrough (nestedCopy depth)

/-- What starts a transfer, two addresses and a length, takes this many bytes of
main memory. -/
def transferCommand : Nat := 12

/-- Levels of nested transfers that the bus carries out: a chain in which each
transfer brings in the command of the next may run through all commands that
fit into main memory. -/
def nestingLimit : Nat := Rdram.fullSize / transferCommand

/-! ## The bus as the CPU and the host see it -/

/-- Load `length` bytes. -/
def load (transfer : Transfer) (address : UInt32) (length : Nat) : BusM (List UInt8) :=
  loadSpan transfer address length

/-- Store bytes. -/
def store (transfer : Transfer) (address : UInt32) (data : List UInt8) : BusM Unit :=
  storeSpan (nestedCopy nestingLimit) transfer address data

/-- Copy `length` bytes; the answer is how many were moved. -/
def copy (source target : UInt32) (length : Nat) : BusM Nat := do
  copyThrough (nestedCopy nestingLimit) source target length
  return length

/-- A span whose length is a power of two that divides its address goes as a
whole, any other one byte by byte. -/
def transferFor (address : UInt32) (length : Nat) : Transfer :=
  if length.isPowerOfTwo && address.toNat % length = 0 then .aligned else .unaligned

/-- Load `length` bytes, routed by their alignment. -/
def read (address : UInt32) (length : Nat) : BusM (List UInt8) :=
  load (transferFor address length) address length

/-- Store bytes, routed by their alignment. -/
def write (address : UInt32) (data : List UInt8) : BusM Unit :=
  store (transferFor address data.length) address data

/-- Load a value of `size` bytes. -/
def readValue (address : UInt32) (size : Nat) : BusM UInt64 :=
  return BigEndian.value (← read address size)

/-- Load a 32-bit word. -/
def readWord (address : UInt32) : BusM UInt32 := return (← readValue address 4).toUInt32

/-- Store the low `size` bytes of a value. -/
def writeValue (address : UInt32) (size : Nat) (value : UInt64) : BusM Unit :=
  write address (BigEndian.bytes size value)

end Bus

end Console64

import Console64.Device.MipsInterface

/-! # SP: the signal processor's memory and registers

Eight kilobytes of memory, two banks of four, fill the window below `0x40000`
over and over; the registers follow at `0x40000`.  The processor itself is not
run: when it is released it halts again at once with the broke flag set, as if
its task had come to its end.

`piecesOf` lists what a transfer copies, piece by piece, each with the register
values that hold after it. -/

namespace Console64

/-- Which way a transfer goes. -/
inductive SignalTransfer where
  | dramToMemory
  | memoryToDram
  deriving DecidableEq, Repr

/-- The SP memory and registers. -/
structure SignalProcessor where
  registers : RegisterMap

namespace SignalProcessor

/-- Physical address of the memory. -/
def memoryBase : UInt32 := 0x04000000

/-- Size of the memory in bytes. -/
def memorySize : Nat := 0x2000

/-- Offsets below this one reach the memory. -/
def memoryWindow : Nat := 0x40000

/-- Size of one of the two banks. -/
def bankSize : UInt32 := 0x1000

/-- Slots of the register map. -/
@[match_pattern] abbrev memorySlot : Nat := 0
@[match_pattern] abbrev memoryAddressSlot : Nat := 1
@[match_pattern] abbrev dramAddressSlot : Nat := 2
@[match_pattern] abbrev readLengthSlot : Nat := 3
@[match_pattern] abbrev writeLengthSlot : Nat := 4
@[match_pattern] abbrev statusSlot : Nat := 5
@[match_pattern] abbrev semaphoreSlot : Nat := 8
@[match_pattern] abbrev pcSlot : Nat := 9

def haltFlag : UInt32 := 0x0001

def brokeFlag : UInt32 := 0x0002

def busyFlag : UInt32 := 0x0004

def singleStepFlag : UInt32 := 0x0020

def interruptOnBreakFlag : UInt32 := 0x0040

/-- The flag of signal `n`. -/
def signalFlag (n : Nat) : UInt32 := (1 : UInt32) <<< UInt32.ofNat (7 + n)

/-- The status that loads see. -/
def status (s : SignalProcessor) : UInt32 := s.registers.visible statusSlot

def publishStatus (s : SignalProcessor) (status : UInt32) : SignalProcessor :=
  { s with registers := s.registers.publish statusSlot status }

/-- Halted, everything else zero. -/
def initial : SignalProcessor where
  registers := .set
    (.ofLayout "SP" 0x100000
      [(0, .single "SP_MEM" (memorySize / 4)),
        (0x40000, .single "SP_MEM_ADDR" 1), (0x40004, .single "SP_DRAM_ADDR" 1),
        (0x40008, .dual "SP_RD_LEN" 1), (0x4000C, .dual "SP_WR_LEN" 1),
        (0x40010, .dual "SP_STATUS" 1), (0x40014, .readOnly "SP_DMA_FULL" 1),
        (0x40018, .readOnly "SP_DMA_BUSY" 1), (0x4001C, .dual "SP_SEMAPHORE" 1),
        (0x80000, .single "SP_PC" 1), (0x80004, .single "SP_IBIST" 1)])
    statusSlot haltFlag

def pc (s : SignalProcessor) : UInt32 := s.registers.stored pcSlot &&& 0xFFC

def halted (s : SignalProcessor) : Bool := s.status &&& haltFlag ≠ 0

def halt (s : SignalProcessor) : SignalProcessor := s.publishStatus (s.status ||| haltFlag)

/-- Copy bytes into the memory at `offset`; what does not fit is left out. -/
def loadMemory (s : SignalProcessor) (offset : Nat) (data : List UInt8) :
    Except BusError SignalProcessor :=
  match s.registers.slots[memorySlot]? with
  | none => .ok s
  | some slot => do
    let (block, _) ← slot.block.write offset (data.take (memorySize - offset))
    return { s with registers := s.registers.modifyBlock memorySlot fun _ => block }

/-- The memory word that holds the byte at `offset`. -/
def memoryWord (s : SignalProcessor) (offset : UInt32) : UInt32 :=
  (s.registers.slots[memorySlot]?).elim 0 fun slot =>
    slot.block.visible ((offset.toNat % memorySize) / 4)

/-- `length` bytes from `offset` on.  A span that starts in the memory window
stays in the memory, and wraps at its end; any other load that reaches the
semaphore takes it. -/
def load (s : SignalProcessor) (offset length : Nat) : List UInt8 × SignalProcessor :=
  if offset < memoryWindow then
    ((List.range length).map fun i => s.registers.byteAt ((offset + i) % memorySize), s)
  else
    -- The bytes show the semaphore as it was before it is taken
    let bytes := s.registers.load offset length
    if semaphoreSlot ∈ s.registers.touched offset length then
      (bytes, { s with registers := s.registers.publish semaphoreSlot 1 })
    else (bytes, s)

/-- Store into the memory, wrapping at its end. -/
def storeMemory (m : RegisterMap) (offset : Nat) : List UInt8 → RegisterMap
  | [] => m
  | byte :: rest => storeMemory (m.storeByte (offset % memorySize) byte) (offset + 1) rest

/-- Store a run of bytes; like `load`, a span that starts in the memory window
stays in the memory. -/
def store (s : SignalProcessor) (offset : Nat) (data : List UInt8) : SignalProcessor :=
  if offset < memoryWindow then { s with registers := storeMemory s.registers offset data }
  else { s with registers := s.registers.store offset data }

/-- Where a transfer stands: offset inside the bank, and main memory address of
the row. -/
structure Position where
  memory : UInt32
  dram : UInt32
  deriving DecidableEq, Repr

/-- One contiguous copy of a transfer, and where the transfer stands after it. -/
structure Piece where
  memory : UInt32
  dram : UInt32
  length : UInt32
  next : Position
  deriving DecidableEq, Repr

/-- The bank that a transfer uses. -/
def transferBank (s : SignalProcessor) : UInt32 :=
  s.registers.stored memoryAddressSlot &&& bankSize

/-- Where a transfer starts. -/
def transferStart (s : SignalProcessor) : Position where
  memory := s.registers.stored memoryAddressSlot &&& 0xFF8
  dram := s.registers.stored dramAddressSlot &&& 0x00FFFFF8

/-- Bytes in a row, for a value of a length register. -/
def rowLength (register : UInt32) : UInt32 := ((register &&& 0xFFF) ||| 7) + 1

/-- Number of rows. -/
def rowCount (register : UInt32) : Nat := ((register >>> 12) &&& 0xFF).toNat + 1

/-- Bytes left out of main memory after each row. -/
def rowSkip (register : UInt32) : UInt32 := (register >>> 20) &&& 0xFFF

/-- The pieces of one row: it wraps inside its bank, so there are one or two. -/
def rowPieces (bank length skip : UInt32) (start : Position) : List Piece :=
  -- Rows are `skip` apart in main memory, and follow each other in the bank
  let nextDram := (start.dram + (length + skip)) &&& 0x00FFFFFF
  let first := bankSize - start.memory
  if length ≤ first then
    [⟨bank + start.memory, start.dram, length,
      ⟨(start.memory + length) &&& (bankSize - 1), nextDram⟩⟩]
  else
    [⟨bank + start.memory, start.dram, first, ⟨0, start.dram⟩⟩,
      ⟨bank, start.dram + first, length - first,
        ⟨(length - first) &&& (bankSize - 1), nextDram⟩⟩]

/-- The pieces of `rows` rows. -/
def piecesOf (bank length skip : UInt32) : (rows : Nat) → Position → List Piece
  | 0, _ => []
  | rows + 1, p =>
    let row := rowPieces bank length skip p
    row ++ piecesOf bank length skip rows (row.getLast?.elim p (·.next))

/-- What a transfer with this value of the length register copies. -/
def pieces (s : SignalProcessor) (register : UInt32) : List Piece :=
  piecesOf s.transferBank (rowLength register) (rowSkip register) (rowCount register)
    s.transferStart

/-- A transfer starts: the busy flag shows. -/
def begin (s : SignalProcessor) : SignalProcessor := s.publishStatus (s.status ||| busyFlag)

/-- A transfer has stopped at `p`: the address registers show where, the length
register shows the row skip, and the busy flag goes. -/
def finish (s : SignalProcessor) (direction : SignalTransfer) (bank register : UInt32)
    (p : Position) : SignalProcessor :=
  let lengthSlot := match direction with
    | .dramToMemory => readLengthSlot
    | .memoryToDram => writeLengthSlot
  let registers := ((s.registers.set memoryAddressSlot (bank ||| p.memory)).set
    dramAddressSlot p.dram).publish lengthSlot ((rowSkip register <<< 20) ||| 0xFF8)
  let s := { s with registers }
  s.publishStatus (s.status &&& ~~~busyFlag)

/-- Clear the semaphore. -/
def releaseSemaphore (s : SignalProcessor) : SignalProcessor :=
  { s with registers := s.registers.set semaphoreSlot 0 }

/-- The status after the set and clear pairs of a STATUS store. -/
def commandedStatus (command status : UInt32) : UInt32 :=
  let status := applyPair command 0 1 haltFlag status
  let status := applyPair command 5 6 singleStepFlag status
  let status := applyPair command 7 8 interruptOnBreakFlag status
  let status := (List.range 8).foldl
    (fun status n =>
      applyPair command (UInt32.ofNat (9 + 2 * n)) (UInt32.ofNat (10 + 2 * n)) (signalFlag n)
        status)
    status
  -- A store can take the broke flag back, but not set it
  if command &&& 0x04 ≠ 0 then status &&& ~~~brokeFlag else status

/-- The interrupt line after a STATUS store: cleared by bit 3, raised by bit 4
or by the break of a released processor. -/
def commandedInterrupt (command : UInt32) (broke : Bool) (m : MipsInterface) : MipsInterface :=
  let m := if command &&& 0x08 ≠ 0 then m.clear .sp else m
  if command &&& 0x10 ≠ 0 || broke then m.raise .sp else m

/-- A STATUS store.  A released processor halts at once with the broke flag. -/
def writeStatus (s : SignalProcessor) (m : MipsInterface) (command : UInt32) :
    SignalProcessor × MipsInterface :=
  let status := commandedStatus command s.status
  -- The processor would run now, and its task is over at once
  let released := status &&& haltFlag = 0
  let broke := released && status &&& interruptOnBreakFlag ≠ 0
  let status := if released then status ||| haltFlag ||| brokeFlag else status
  (s.publishStatus status, commandedInterrupt command broke m)

end SignalProcessor

end Console64

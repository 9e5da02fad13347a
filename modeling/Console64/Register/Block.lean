import Console64.BigEndian
import Console64.Bus.Error

/-! # Register blocks

A run of 32-bit registers as the bus sees it: big-endian bytes.

A *dual* block keeps two copies of every word: the CPU loads from the visible
one, which the device publishes, and stores into the other, which the device
consumes.  A *single* block has one copy for both.  `byteAt` is the view of the
visible side; `storeByte` is the only way in which the CPU changes a block. -/

namespace Console64

/-- Whether loads and stores share their words. -/
inductive Buffering where
  | single
  | dual
  deriving DecidableEq, Repr

/-- What the CPU may do with a block. -/
inductive RegisterAccess where
  | readWrite
  /-- Stores are ignored. -/
  | readOnly
  /-- Loads give zero. -/
  | writeOnly
  deriving DecidableEq, Repr

/-- The words behind a block. -/
inductive RegisterWords (n : Nat) where
  | single (words : Vector UInt32 n)
  | dual (visible stored : Vector UInt32 n)
  deriving DecidableEq, Repr

namespace RegisterWords

variable {n : Nat}

/-- All words zero. -/
def zero : Buffering → RegisterWords n
  | .single => .single (Vector.replicate n 0)
  | .dual => .dual (Vector.replicate n 0) (Vector.replicate n 0)

def buffering : RegisterWords n → Buffering
  | single _ => .single
  | dual _ _ => .dual

/-- The side that loads see. -/
def visible : RegisterWords n → Vector UInt32 n
  | single words => words
  | dual visible _ => visible

/-- The side that stores change. -/
def stored : RegisterWords n → Vector UInt32 n
  | single words => words
  | dual _ stored => stored

/-- Change the visible side. -/
@[inline] def onVisible (f : Vector UInt32 n → Vector UInt32 n) : RegisterWords n → RegisterWords n
  | single words => single (f words)
  | dual visible stored => dual (f visible) stored

/-- Change the stored side. -/
@[inline] def onStored (f : Vector UInt32 n → Vector UInt32 n) : RegisterWords n → RegisterWords n
  | single words => single (f words)
  | dual visible stored => dual visible (f stored)

/-- A change of the side that loads see is seen, -/
@[simp] theorem visible_onVisible (f : Vector UInt32 n → Vector UInt32 n) (w : RegisterWords n) :
    (w.onVisible f).visible = f w.visible := by cases w <;> rfl

/-- and one of the side that stores change is there. -/
@[simp] theorem stored_onStored (f : Vector UInt32 n → Vector UInt32 n) (w : RegisterWords n) :
    (w.onStored f).stored = f w.stored := by cases w <;> rfl

/-- Neither changes how many copies there are: -/
@[simp] theorem buffering_onVisible (f : Vector UInt32 n → Vector UInt32 n)
    (w : RegisterWords n) : (w.onVisible f).buffering = w.buffering := by cases w <;> rfl

/-- not this one either. -/
@[simp] theorem buffering_onStored (f : Vector UInt32 n → Vector UInt32 n)
    (w : RegisterWords n) : (w.onStored f).buffering = w.buffering := by cases w <;> rfl

end RegisterWords

/-- The words that a store touched, both ends included. -/
structure WordSpan where
  first : Nat
  last : Nat
  deriving DecidableEq, Repr

/-- Word `index` lies in the span. -/
def WordSpan.contains (s : WordSpan) (index : Nat) : Bool :=
  s.first ≤ index && index ≤ s.last

/-- A named run of registers. -/
structure RegisterBlock where
  name : String
  size : Nat
  words : RegisterWords size
  access : RegisterAccess

namespace RegisterBlock

/-- `size` zero words. -/
def make (name : String) (size : Nat) (buffering : Buffering) (access : RegisterAccess) :
    RegisterBlock :=
  { name, size, words := .zero buffering, access }

/-- One copy of each word, for loads and stores. -/
def single (name : String) (size : Nat) : RegisterBlock := make name size .single .readWrite

/-- A visible and a stored copy of each word. -/
def dual (name : String) (size : Nat) : RegisterBlock := make name size .dual .readWrite

/-- Loads only. -/
def readOnly (name : String) (size : Nat) : RegisterBlock := make name size .single .readOnly

/-- Stores only. -/
def writeOnly (name : String) (size : Nat) : RegisterBlock := make name size .single .writeOnly

/-- Length of the block in bytes. -/
def sizeBytes (b : RegisterBlock) : Nat := 4 * b.size

/-- The word that loads see. -/
def visible (b : RegisterBlock) (index : Nat) : UInt32 := b.words.visible[index]?.getD 0

/-- The word that the CPU stored last. -/
def stored (b : RegisterBlock) (index : Nat) : UInt32 := b.words.stored[index]?.getD 0

/-- Show a value of the device to the CPU. -/
def publish (b : RegisterBlock) (index : Nat) (value : UInt32) : RegisterBlock :=
  { b with words := b.words.onVisible (·.setIfInBounds index value) }

/-- Replace what the CPU stored. -/
def setStored (b : RegisterBlock) (index : Nat) (value : UInt32) : RegisterBlock :=
  { b with words := b.words.onStored (·.setIfInBounds index value) }

/-- Force both sides of a word. -/
def set (b : RegisterBlock) (index : Nat) (value : UInt32) : RegisterBlock :=
  (b.publish index value).setStored index value

/-- What a one-byte load at byte `offset` gives. -/
def byteAt (b : RegisterBlock) (offset : Nat) : UInt8 :=
  if b.access = .writeOnly then 0 else BigEndian.lane (b.visible (offset / 4)) (offset % 4)

/-- What a one-byte store at byte `offset` does. -/
def storeByte (b : RegisterBlock) (offset : Nat) (byte : UInt8) : RegisterBlock :=
  if b.access = .readOnly then b
  else
    { b with
      words := b.words.onStored fun ws =>
        ws.setIfInBounds (offset / 4)
          (BigEndian.setLane (ws[offset / 4]?.getD 0) (offset % 4) byte) }

/-- Store a run of bytes, first to last. -/
def storeBytes (b : RegisterBlock) (offset : Nat) : List UInt8 → RegisterBlock
  | [] => b
  | byte :: rest => (b.storeByte offset byte).storeBytes (offset + 1) rest

/-- The span of `length` bytes at `offset` lies inside the block. -/
def checkSpan (b : RegisterBlock) (offset length : Nat) : Except BusError Unit :=
  if b.sizeBytes < offset + length then .error (.outOfRange b.name offset length) else .ok ()

/-- Load `length` bytes. -/
def read (b : RegisterBlock) (offset length : Nat) : Except BusError (List UInt8) := do
  b.checkSpan offset length
  return (List.range length).map fun i => b.byteAt (offset + i)

/-- Store bytes.  The second part of the answer is the words touched, none when
the block ignores the store. -/
def write (b : RegisterBlock) (offset : Nat) (data : List UInt8) :
    Except BusError (RegisterBlock × Option WordSpan) := do
  b.checkSpan offset data.length
  if data.isEmpty || b.access = .readOnly then
    return (b, none)
  else
    return (b.storeBytes offset data, some ⟨offset / 4, (offset + data.length - 1) / 4⟩)

end RegisterBlock

end Console64

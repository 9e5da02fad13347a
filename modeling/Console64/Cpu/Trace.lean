import Console64.Cpu.Instruction

/-! # Traces of retired instructions

A ring that keeps the latest instructions.  `recent` lists the newest of them,
oldest first. -/

namespace Console64

/-- An instruction that has been carried out. -/
structure RetiredInstruction where
  pc : UInt64
  word : UInt32
  delaySlot : Bool
  deriving DecidableEq, Repr, Inhabited

/-- The instruction as a line of text; a star marks a delay slot. -/
def RetiredInstruction.describe (r : RetiredInstruction) : String :=
  Hex.double r.pc ++ (if r.delaySlot then "* " else "  ") ++ Instruction.describe ⟨r.word⟩

/-- A ring of at most `capacity` entries. -/
structure TraceLog where
  capacity : Nat
  entries : Array RetiredInstruction := #[]
  /-- Where the next entry goes. -/
  next : Nat := 0

namespace TraceLog

/-- An empty ring; there is none of capacity zero. -/
def ofCapacity? (capacity : Nat) : Option TraceLog :=
  if capacity = 0 then none else some { capacity }

/-- Add an entry, over the oldest one when the ring is full. -/
def push (t : TraceLog) (r : RetiredInstruction) : TraceLog :=
  { t with
    entries :=
      if t.entries.size < t.capacity then t.entries.push r
      else t.entries.setIfInBounds t.next r
    next := (t.next + 1) % t.capacity }

/-- Number of entries. -/
def size (t : TraceLog) : Nat := t.entries.size

def isEmpty (t : TraceLog) : Bool := t.entries.isEmpty

/-- Where the newest `n` entries start, for `n` at most the size. -/
def startOf (t : TraceLog) (n : Nat) : Nat :=
  if t.size < t.capacity then t.size - n else (t.next + t.capacity - n) % t.capacity

/-- The newest `n` entries, or all of them, oldest first. -/
def recent (t : TraceLog) (n : Nat) : List RetiredInstruction :=
  let n := min n t.size
  (List.range n).filterMap fun i => t.entries[(t.startOf n + i) % t.size]?

end TraceLog

end Console64

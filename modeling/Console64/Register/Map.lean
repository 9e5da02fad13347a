import Console64.Register.Block

/-! # Register maps

Register blocks at fixed byte offsets of a device.  Between the blocks lie
holes, which read as zero and swallow stores.  `place` accepts only layouts
whose blocks are word aligned, not empty, inside the device and disjoint.

`byteAt` is what a load of one byte gives, `storeByte` what a store of one byte
does; `load` and `store` are the two over a span that is known to lie inside the
device.  `read` and `write` check that, and go through the span one block or hole
at a time.  `touched` lists the slots whose side effects a store sets off. -/

namespace Console64

/-- A block and where it starts. -/
structure RegisterSlot where
  base : Nat
  block : RegisterBlock

namespace RegisterSlot

/-- First offset past the block. -/
def stop (s : RegisterSlot) : Nat := s.base + s.block.sizeBytes

/-- `offset` lies in the block. -/
def contains (s : RegisterSlot) (offset : Nat) : Bool := s.base ≤ offset && offset < s.stop

/-- The block shares a byte with `[start, stop)`. -/
def overlaps (s : RegisterSlot) (start stop : Nat) : Bool := start < s.stop && s.base < stop

end RegisterSlot

/-- The registers of one device.  Slots are numbered in the order in which they
were placed. -/
structure RegisterMap where
  device : String
  size : Nat
  slots : Array RegisterSlot

namespace RegisterMap

/-- A device of `size` bytes without registers. -/
def empty (device : String) (size : Nat) : RegisterMap := { device, size, slots := #[] }

/-- A block may be placed at `offset`. -/
def accepts (m : RegisterMap) (offset : Nat) (block : RegisterBlock) : Bool :=
  offset % 4 = 0 && block.sizeBytes ≠ 0 && offset + block.sizeBytes ≤ m.size &&
    !m.slots.any (·.overlaps offset (offset + block.sizeBytes))

/-- Add a slot without looking at what is there; `place` is the checked form. -/
def push (m : RegisterMap) (offset : Nat) (block : RegisterBlock) : RegisterMap :=
  { m with slots := m.slots.push ⟨offset, block⟩ }

/-- Place a block at `offset`. -/
def place (m : RegisterMap) (offset : Nat) (block : RegisterBlock) :
    Except BusError RegisterMap :=
  if m.accepts offset block then .ok (m.push offset block)
  else .error (.layout m.device offset)

/-- Place blocks back to back from `offset`. -/
def placeAll (m : RegisterMap) (offset : Nat) : List RegisterBlock → Except BusError RegisterMap
  | [] => .ok m
  | block :: rest => do (← m.place offset block).placeAll (offset + block.sizeBytes) rest

/-- Place blocks back to back from the start of the device. -/
def sequential (device : String) (size : Nat) (blocks : List RegisterBlock) :
    Except BusError RegisterMap :=
  (empty device size).placeAll 0 blocks

/-- A fixed layout: blocks at given offsets. -/
def ofLayout (device : String) (size : Nat) (layout : List (Nat × RegisterBlock)) :
    RegisterMap :=
  layout.foldl (fun m (offset, block) => m.push offset block) (empty device size)

/-- A fixed layout of one-word blocks, back to back from offset zero. -/
def ofWords (device : String) (size : Nat) (blocks : List RegisterBlock) : RegisterMap :=
  ofLayout device size (blocks.mapIdx fun i block => (4 * i, block))

/-- The slot whose block holds the byte at `offset`. -/
def locate (m : RegisterMap) (offset : Nat) : Option Nat :=
  m.slots.findIdx? (·.contains offset)

/-- What a one-byte load at `offset` gives. -/
def byteAt (m : RegisterMap) (offset : Nat) : UInt8 :=
  match m.slots.find? (·.contains offset) with
  | some s => s.block.byteAt (offset - s.base)
  | none => 0

/-- Change the block of one slot. -/
@[inline] def modifyBlock (m : RegisterMap) (slot : Nat) (f : RegisterBlock → RegisterBlock) :
    RegisterMap :=
  { m with slots := m.slots.modify slot fun s => { s with block := f s.block } }

/-- What a one-byte store at `offset` does. -/
def storeByte (m : RegisterMap) (offset : Nat) (byte : UInt8) : RegisterMap :=
  match m.locate offset with
  | some slot =>
    { m with
      slots := m.slots.modify slot fun s =>
        { s with block := s.block.storeByte (offset - s.base) byte } }
  | none => m

/-- `length` bytes from `offset` on. -/
def load (m : RegisterMap) (offset length : Nat) : List UInt8 :=
  (List.range length).map fun i => m.byteAt (offset + i)

/-- Store a run of bytes, first to last. -/
def store (m : RegisterMap) (offset : Nat) : List UInt8 → RegisterMap
  | [] => m
  | byte :: rest => (m.storeByte offset byte).store (offset + 1) rest

/-- Where the first block past `offset` starts; the end of the device if there is none. -/
def nextMapped (m : RegisterMap) (offset : Nat) : Nat :=
  ((m.slots.toList.map (·.base)).filter (offset < ·)).min?.getD m.size

/-- How many of `length` bytes from `offset` on lie in the block or in the hole that
`offset` is in. -/
def segment (m : RegisterMap) (offset length : Nat) : Nat :=
  match m.slots.find? (·.contains offset) with
  | some s => min length (s.stop - offset)
  | none => min length (m.nextMapped offset - offset)

/-- What is mapped next lies further on. -/
theorem lt_nextMapped {m : RegisterMap} {offset : Nat} (h : offset < m.size) :
    offset < m.nextMapped offset := by
  unfold nextMapped
  cases hmin : ((m.slots.toList.map (·.base)).filter (offset < ·)).min? with
  | none => exact h
  | some base => exact of_decide_eq_true (List.mem_filter.mp (List.min?_mem hmin)).2

/-- Inside the device there is always something to go on with. -/
theorem segment_pos {m : RegisterMap} {offset length : Nat} (h : offset + length ≤ m.size)
    (hlength : 0 < length) : 0 < m.segment offset length := by
  unfold segment
  split
  case h_1 s hfind =>
    have hstop := Array.find?_some hfind
    simp only [RegisterSlot.contains, Bool.and_eq_true, decide_eq_true_eq] at hstop
    omega
  case h_2 =>
    have hnext : offset < m.nextMapped offset := lt_nextMapped (by omega)
    omega

/-- A segment is part of the span. -/
theorem segment_le (m : RegisterMap) (offset length : Nat) : m.segment offset length ≤ length := by
  unfold segment
  split <;> exact Nat.min_le_left _ _

/-- Load bytes from one block, or from a hole. -/
def readSegment (m : RegisterMap) (offset length : Nat) : Except BusError (List UInt8) :=
  match m.slots.find? (·.contains offset) with
  | some s => s.block.read (offset - s.base) length
  | none => .ok (List.replicate length 0)

/-- Load a span, one block or hole after the other. -/
def readSegments (m : RegisterMap) (offset length : Nat) (inside : offset + length ≤ m.size) :
    Except BusError (List UInt8) :=
  if hlength : length = 0 then .ok []
  else do
    let n := m.segment offset length
    have := m.segment_le offset length
    have := segment_pos inside (Nat.pos_of_ne_zero hlength)
    let bytes ← m.readSegment offset n
    let others ← m.readSegments (offset + n) (length - n) (by omega)
    return bytes ++ others
termination_by length

/-- Store bytes into one block, or into a hole. -/
def writeSegment (m : RegisterMap) (offset : Nat) (data : List UInt8) :
    Except BusError RegisterMap :=
  match m.locate offset with
  | some slot => (m.slots[slot]?).elim (.ok m) fun s => do
    let (block, _) ← s.block.write (offset - s.base) data
    return m.modifyBlock slot fun _ => block
  | none => .ok m

/-- Writing it does not change the size of the device. -/
theorem size_writeSegment {m m' : RegisterMap} {offset : Nat} {data : List UInt8}
    (h : m.writeSegment offset data = .ok m') : m'.size = m.size := by
  unfold writeSegment at h
  -- The segment goes to the block that begins there, or to a hole
  split at h
  case h_1 slot _ =>
    cases hslot : m.slots[slot]? with
    | none =>
      rw [hslot] at h
      cases h
      rfl
    | some s =>
      rw [hslot] at h
      cases hwrite : s.block.write (offset - s.base) data with
      | error e =>
        simp only [Option.elim_some, hwrite] at h
        exact nomatch h
      | ok written =>
        simp only [Option.elim_some, hwrite] at h
        cases h
        rfl
  case h_2 =>
    cases h
    rfl

/-- Store a run of bytes, one block or hole after the other. -/
def writeSegments (m : RegisterMap) (offset : Nat) (data : List UInt8)
    (inside : offset + data.length ≤ m.size) : Except BusError RegisterMap :=
  if hdata : data = [] then .ok m
  else
    let n := m.segment offset data.length
    have := m.segment_le offset data.length
    have := segment_pos inside (List.length_pos_iff.mpr hdata)
    match h : m.writeSegment offset (data.take n) with
    | .error e => .error e
    | .ok m' =>
      m'.writeSegments (offset + n) (data.drop n) (by
        rw [size_writeSegment h, List.length_drop]
        omega)
termination_by data.length
decreasing_by
  rw [List.length_drop]
  omega

/-- Load `length` bytes, refused past the end of the device. -/
def read (m : RegisterMap) (offset length : Nat) : Except BusError (List UInt8) :=
  if inside : offset + length ≤ m.size then m.readSegments offset length inside
  else .error (.outOfRange m.device offset length)

/-- Store a run of bytes, refused past the end of the device. -/
def write (m : RegisterMap) (offset : Nat) (data : List UInt8) : Except BusError RegisterMap :=
  if inside : offset + data.length ≤ m.size then m.writeSegments offset data inside
  else .error (.outOfRange m.device offset data.length)

/-- The slots that own a byte of `[offset, offset + length)`, in order. -/
def touched (m : RegisterMap) (offset length : Nat) : List Nat :=
  (List.range m.slots.size).filter fun i =>
    (m.slots[i]?).any (·.overlaps offset (offset + length))

/-- The value that the CPU stored into a one-word register. -/
def stored (m : RegisterMap) (slot : Nat) : UInt32 :=
  (m.slots[slot]?).elim 0 (·.block.stored 0)

/-- The value that the CPU sees in a one-word register. -/
def visible (m : RegisterMap) (slot : Nat) : UInt32 :=
  (m.slots[slot]?).elim 0 (·.block.visible 0)

/-- Change what the CPU sees in a one-word register. -/
def publish (m : RegisterMap) (slot : Nat) (value : UInt32) : RegisterMap :=
  m.modifyBlock slot (·.publish 0 value)

/-- Force both sides of a one-word register. -/
def set (m : RegisterMap) (slot : Nat) (value : UInt32) : RegisterMap :=
  m.modifyBlock slot (·.set 0 value)

end RegisterMap

/-- A register file without behaviour of its own: `count` registers that keep
what was stored. -/
def RegisterMap.plain (device : String) (count size : Nat) : RegisterMap :=
  .ofWords device size (List.replicate count (.single device 1))

end Console64

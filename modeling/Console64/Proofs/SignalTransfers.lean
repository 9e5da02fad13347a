import Console64.Proofs.CartridgeFetch
import Console64.Proofs.RegisterBytes
import Console64.Proofs.SignalRows
import Mathlib.Data.Nat.Bitwise

/-!
# Transfers of the signal processor

A store into one of the length registers of the SP copies rows of bytes between its memory and
main memory.  The pieces of the rows are block copies between these two, each four bytes at a
time.  None of them can fail, whatever is in the registers, and all of them together come to
moving one byte after the other.

## Key results

- `Bus.memories_storeMemory`, `Bus.memories_storeDram`: a store into one memory of what the other
  one holds moves byte after byte
- `Bus.exists_moved_pieces`: so do the block copies of all pieces, one after the other
- `Bus.signal_rows`: what a transfer moves, and what it leaves in the registers
-/

namespace Console64

namespace SignalProcessor

/-- The byte of the memory at `n`, zero where there is none. -/
def memoryByte (s : SignalProcessor) (n : Nat) : UInt8 :=
  if n < memorySize then s.registers.byteAt n else 0

/-- The memory is the first of the registers, at the start of the window, -/
private theorem memory_layout :
    initial.registers.layout[memorySlot]? = some ⟨0, memorySize / 4, .single, .readWrite⟩ := by
  decide +kernel

/-- and the status is one of those behind it. -/
theorem statusSlot_layout :
    initial.registers.layout[statusSlot]? = some ⟨0x40010, 1, .dual, .readWrite⟩ := by
  decide +kernel

section
variable {m : RegisterMap} (h : m.layout = initial.registers.layout)
include h

/-- So the memory answers for every offset in it. -/
private theorem locate_memory {offset : Nat} (hoffset : offset < memorySize) :
    m.locate offset = some memorySlot := by
  rw [RegisterMap.locate_eq, h, Array.findIdx?_eq_some_iff_getElem]
  obtain ⟨hsize, hshape⟩ := Array.getElem?_eq_some_iff.mp memory_layout
  refine ⟨hsize, ?_, fun j hj => absurd hj (Nat.not_lt_zero j)⟩
  rw [hshape]
  rw [RegisterShape.contains, Bool.and_eq_true]
  exact ⟨decide_eq_true (Nat.zero_le offset), decide_eq_true hoffset⟩

/-- A byte that is stored into the memory is there, and nothing else in it has changed. -/
private theorem memoryByte_storeByte {offset : Nat} (hoffset : offset < memorySize) (byte : UInt8)
    (n : Nat) :
    memoryByte ⟨m.storeByte offset byte⟩ n = if n = offset then byte else memoryByte ⟨m⟩ n := by
  have hshape : m.layout[memorySlot]? = some ⟨0, memorySize / 4, .single, .readWrite⟩ := by
    rw [h, memory_layout]
  have hstored := RegisterMap.byteAt_storeByte (locate_memory h hoffset) hshape byte n
  simp only [memoryByte, hstored]
  by_cases hn : n = offset
  · rw [if_pos hn, if_pos hn.symm, if_pos (by omega)]
  · rw [if_neg hn, if_neg (Ne.symm hn)]

/-- Nor has it when something is done to another register. -/
private theorem memoryByte_of_ne {slot : Nat} (hne : slot ≠ memorySlot)
    {f : RegisterBlock → RegisterBlock} (hlayout : (m.modifyBlock slot f).layout = m.layout) :
    memoryByte ⟨m.modifyBlock slot f⟩ = memoryByte ⟨m⟩ := by
  funext n
  simp only [memoryByte]
  by_cases hn : n < memorySize
  · rw [if_pos hn, if_pos hn, RegisterMap.byteAt_of_ne (locate_memory h hn) hne hlayout]
  · rw [if_neg hn, if_neg hn]

omit h in
/-- Registers that have a copy of their own for stores are seen as they were. -/
theorem visible_storeMemory {slot : Nat} {shape : RegisterShape}
    (hshape : m.layout[slot]? = some shape) (hhides : shape.hidesStores = true) (offset : Nat)
    (data : List UInt8) : (storeMemory m offset data).visible slot = m.visible slot := by
  induction data generalizing m offset with
  | nil => rfl
  | cons byte rest ih =>
    have hlayout := RegisterMap.layout_storeByte m (offset % memorySize) byte
    have hrest := ih (hlayout ▸ hshape) (offset + 1)
    exact hrest.trans (RegisterMap.visible_storeByte hshape hhides _ byte)

/-- So the status stays as it is. -/
private theorem status_storeMemory (offset : Nat) (data : List UInt8) :
    status ⟨storeMemory m offset data⟩ = status ⟨m⟩ := by
  have hshape : m.layout[statusSlot]? = some ⟨0x40010, 1, .dual, .readWrite⟩ := by
    rw [h, statusSlot_layout]
  exact visible_storeMemory hshape rfl offset data

end

/-- Bytes stored one after the other are two stores, one behind the other. -/
private theorem storeMemory_append (m : RegisterMap) (offset : Nat) (data data' : List UInt8) :
    storeMemory m offset (data ++ data') =
      storeMemory (storeMemory m offset data) (offset + data.length) data' := by
  induction data generalizing m offset with
  | nil => rfl
  | cons byte rest ih =>
    rw [List.cons_append, storeMemory, storeMemory, ih, List.length_cons, Nat.add_assoc,
      Nat.add_comm 1]

end SignalProcessor

namespace Bus

/-- What the memory of the SP and main memory hold. -/
def memories (bus : Bus) : Memories where
  memory := bus.sp.memoryByte
  dram := bus.rdram.byteAt

/-! ## One memory stored into the other -/

section
variable {bus : Bus} (h : bus.sp.registers.layout = SignalProcessor.initial.registers.layout)
include h

/-- What main memory holds, stored into the memory of the SP. -/
theorem memories_storeMemory (installed : Nat) {memory length : Nat} (dram : Nat)
    (hmemory : memory + length ≤ SignalProcessor.memorySize) :
    memories { bus with
      sp.registers := SignalProcessor.storeMemory bus.sp.registers memory
        (bytesFrom bus.rdram.byteAt dram length) } =
      (ByteMove.span memory dram length).foldl (Memories.move installed .dramToMemory)
        bus.memories := by
  induction length generalizing memory dram bus with
  | zero => rfl
  | succ length ih =>
    -- The induction is on the bytes that are left, so the bus changes under it
    have hoffset : memory < SignalProcessor.memorySize := by omega
    -- The first byte, and then the others from the bus that it leaves
    have hfirst : memories { bus with
        sp.registers := bus.sp.registers.storeByte memory (bus.rdram.byteAt dram) } =
          Memories.move installed .dramToMemory bus.memories ⟨memory, dram⟩ := by
      simp only [memories, Memories.move, Memories.mk.injEq, and_true]
      funext n
      exact SignalProcessor.memoryByte_storeByte h hoffset _ n
    rw [bytesFrom_succ, SignalProcessor.storeMemory, Nat.mod_eq_of_lt hoffset, ByteMove.span_succ,
      List.foldl_cons, ← hfirst]
    have hlayout : (bus.sp.registers.storeByte memory (bus.rdram.byteAt dram)).layout =
        SignalProcessor.initial.registers.layout := (RegisterMap.layout_storeByte _ _ _).trans h
    have hrest : memory + 1 + length ≤ SignalProcessor.memorySize := by omega
    generalize hnext : bus.sp.registers.storeByte memory (bus.rdram.byteAt dram) = next at hlayout ⊢
    exact @ih { bus with sp.registers := next } hlayout (memory + 1) (dram + 1) hrest

end

/-- What the memory of the SP holds, stored into main memory. -/
theorem memories_storeDram (bus : Bus) (memory dram length : Nat) (writes : WriteLog) :
    memories { bus with
      rdram := bus.rdram.store dram (bytesFrom bus.sp.memoryByte memory length), writes } =
      (ByteMove.span memory dram length).foldl (Memories.move bus.rdram.size .memoryToDram)
        bus.memories := by
  induction length generalizing memory dram bus with
  | zero => rfl
  | succ length ih =>
    -- Here too the first byte, and then the others
    have hfirst : memories { bus with
        rdram := bus.rdram.storeByte dram (bus.sp.memoryByte memory) } =
          Memories.move bus.rdram.size .memoryToDram bus.memories ⟨memory, dram⟩ := by
      simp only [memories, Memories.move, Memories.mk.injEq, true_and]
      funext n
      have hhere : (dram = n ∧ dram < bus.rdram.size) ↔ (n = dram ∧ n < bus.rdram.size) := by
        constructor
        · rintro ⟨rfl, hlt⟩
          exact ⟨rfl, hlt⟩
        · rintro ⟨rfl, hlt⟩
          exact ⟨rfl, hlt⟩
      simp only [Rdram.byteAt_storeByte, hhere]
    rw [bytesFrom_succ, Rdram.store, ByteMove.span_succ, List.foldl_cons, ← hfirst]
    have hrest := ih { bus with rdram := bus.rdram.storeByte dram (bus.sp.memoryByte memory) }
      (memory + 1) (dram + 1)
    rw [Rdram.size_storeByte] at hrest
    exact hrest

/-! ## The block copy of a piece -/

/-- So many bytes have been moved, and nothing else has changed but the log: not the registers of
the SP either. -/
structure Moved (direction : SignalTransfer) (ws : List ByteMove) (s t : Bus) : Prop where
  frame : CopyFrame s t
  installed : t.rdram.size = s.rdram.size
  layout : t.sp.registers.layout = s.sp.registers.layout
  status : t.sp.status = s.sp.status
  memories : t.memories = ws.foldl (Memories.move s.rdram.size direction) s.memories

/-- Nothing has been moved yet. -/
theorem Moved.refl (direction : SignalTransfer) (s : Bus) : Moved direction [] s s :=
  ⟨.refl s, rfl, rfl, rfl, rfl⟩

/-- What one stretch moves, and then another, is moved by both. -/
theorem Moved.trans {direction : SignalTransfer} {ws ws' : List ByteMove} {s t u : Bus}
    (h : Moved direction ws s t) (h' : Moved direction ws' t u) :
    Moved direction (ws ++ ws') s u where
  frame := h.frame.trans h'.frame
  installed := h'.installed.trans h.installed
  layout := h'.layout.trans h.layout
  status := h'.status.trans h.status
  memories := by rw [h'.memories, h.memories, h.installed, List.foldl_append]

/-- A store into the window of the memory is no more than that: it starts nothing. -/
private theorem storeRun_sp (copy : BlockCopy) {offset : Nat}
    (hoffset : offset < SignalProcessor.memoryWindow) (data : List UInt8) (bus : Bus) :
    storeRun copy .sp offset data bus = .ok () { bus with
      sp.registers := SignalProcessor.storeMemory bus.sp.registers offset data } := by
  have hrun : storeRun copy .sp offset data bus =
      postStore copy .sp offset data.length { bus with sp := bus.sp.store offset data } := rfl
  rw [hrun, SignalProcessor.store, if_pos hoffset]
  simp only [postStore, hoffset]
  rfl

/-- The units of a copy to the memory of the SP are one store. -/
private theorem storeArrivals_sp (copy : BlockCopy) {units offset : Nat} {data : List UInt8}
    (hdata : data.length = copyUnit * units)
    (hoffset : offset + data.length ≤ SignalProcessor.memorySize) (bus : Bus) :
    storeArrivals copy .sp (Arrival.units offset units data) bus = .ok () { bus with
      sp.registers := SignalProcessor.storeMemory bus.sp.registers offset data } := by
  induction units generalizing offset data bus with
  | zero =>
    rw [Nat.mul_zero, List.length_eq_zero_iff] at hdata
    subst hdata
    rfl
  | succ units ih =>
    rw [Nat.mul_succ] at hdata
    rw [SignalProcessor.memorySize] at hoffset
    have hwindow : offset < SignalProcessor.memoryWindow := by
      rw [SignalProcessor.memoryWindow]
      omega
    have hfirst : (data.take copyUnit).length = copyUnit := by
      rw [List.length_take]
      omega
    have hrest : (data.drop copyUnit).length = copyUnit * units := by
      rw [List.length_drop]
      omega
    -- The first unit, and what follows it right behind
    rw [Arrival.units, storeArrivals_cons]
    refine (bind_of_ok (storeRun_sp copy hwindow _ bus)).trans ?_
    rw [ih hrest (by rw [hrest, SignalProcessor.memorySize]; omega)]
    have hwhole := SignalProcessor.storeMemory_append bus.sp.registers offset (data.take copyUnit)
      (data.drop copyUnit)
    rw [List.take_append_drop, hfirst] at hwhole
    rw [hwhole]

/-- What is loaded from the memory are its bytes, and loads do not change it. -/
private theorem deviceLoad_memory {offset n : Nat}
    (hoffset : offset + n ≤ SignalProcessor.memorySize) (bus : Bus) :
    bus.deviceLoad .sp offset n = (bytesFrom bus.sp.memoryByte offset n, bus) := by
  have hwindow : offset < SignalProcessor.memoryWindow := by
    rw [SignalProcessor.memorySize] at hoffset
    rw [SignalProcessor.memoryWindow]
    omega
  simp only [deviceLoad, SignalProcessor.load, if_pos hwindow, bytesFrom, Prod.mk.injEq, and_true]
  -- Inside the memory no byte is taken from around its end
  apply List.map_congr_left
  intro i hi
  have hi : offset + i < SignalProcessor.memorySize := by
    have := List.mem_range.mp hi
    omega
  rw [SignalProcessor.memoryByte, if_pos hi, Nat.mod_eq_of_lt hi]

section
variable {piece : SignalProcessor.Piece} (hinside : piece.Inside)
include hinside

/-- Both ends of a piece lie in their device, the one at the start of the SP and the other at that
of main memory. -/
private theorem piece_ends :
    Region.sp.base + piece.memory.toNat =
        (SignalProcessor.memoryBase + piece.memory).toNat ∧
      Region.rdram.base + piece.dram.toNat = piece.dram.toNat ∧
      piece.memory.toNat + piece.length.toNat ≤ Region.sp.size ∧
      piece.dram.toNat + piece.length.toNat ≤ Region.rdram.size := by
  obtain ⟨hmemory, hdram, -⟩ := hinside
  rw [SignalProcessor.memorySize] at hmemory
  have hbase : SignalProcessor.memoryBase.toNat = 0x04000000 := rfl
  refine ⟨?_, Nat.zero_add _, ?_, ?_⟩
  · rw [UInt32.toNat_add, hbase, Region.base]
    omega
  · show piece.memory.toNat + piece.length.toNat ≤ 0x00100000
    omega
  · rw [Region.size]
    omega

/-- A piece is copied into the memory of the SP. -/
private theorem exists_moved_toMemory (copy : BlockCopy) {bus : Bus}
    (h : bus.sp.registers.layout = SignalProcessor.initial.registers.layout) :
    ∃ t, copyThrough copy piece.dram (SignalProcessor.memoryBase + piece.memory)
        piece.length.toNat bus = .ok () t ∧ Moved .dramToMemory piece.moves bus t := by
  obtain ⟨hmemory, hdram, hsp, hrdram⟩ := piece_ends hinside
  obtain ⟨units, hunits⟩ := hinside.units
  -- Main memory loads without an effect, and the store stays inside the window of the memory
  have hload : ∀ (bus : Bus) (offset n : Nat),
      offset + n ≤ piece.dram.toNat + piece.length.toNat →
      bus.deviceLoad .rdram offset n = (bytesFrom bus.rdram.byteAt offset n, bus) :=
    fun _ _ _ _ => rfl
  have hstore : ∀ (bus : Bus) (offset : Nat) (data : List UInt8),
      offset + data.length ≤ piece.memory.toNat + piece.length.toNat → ∃ bus',
        storeRun copy .sp offset data bus = .ok () bus' ∧
          bus'.rdram.byteAt = bus.rdram.byteAt := by
    intro bus offset data hoffset
    refine ⟨_, storeRun_sp copy ?_ data bus, rfl⟩
    have hbound := hinside.memory
    rw [SignalProcessor.memorySize] at hbound
    rw [SignalProcessor.memoryWindow]
    omega
  have hlength : (bytesFrom bus.rdram.byteAt piece.dram.toNat piece.length.toNat).length =
      piece.length.toNat := length_bytesFrom _ _ _
  refine ⟨_, (copyThrough_inside hload hstore hdram hmemory hrdram hsp hunits bus).trans
    (storeArrivals_sp copy (hlength.trans hunits) (by rw [hlength]; exact hinside.memory) bus), ?_⟩
  exact ⟨rfl, rfl, SignalProcessor.layout_storeMemory _ _ _,
    SignalProcessor.status_storeMemory h _ _, memories_storeMemory h _ _ hinside.memory⟩

/-- A piece is copied out of it. -/
private theorem exists_moved_toDram (copy : BlockCopy) (bus : Bus) :
    ∃ t, copyThrough copy (SignalProcessor.memoryBase + piece.memory) piece.dram
        piece.length.toNat bus = .ok () t ∧ Moved .memoryToDram piece.moves bus t := by
  obtain ⟨hmemory, hdram, hsp, hrdram⟩ := piece_ends hinside
  obtain ⟨units, hunits⟩ := hinside.units
  -- The memory answers itself while the run is inside its window
  have hload : ∀ (bus : Bus) (offset n : Nat),
      offset + n ≤ piece.memory.toNat + piece.length.toNat →
      bus.deviceLoad .sp offset n = (bytesFrom bus.sp.memoryByte offset n, bus) :=
    fun bus offset n hoffset => deviceLoad_memory (Nat.le_trans hoffset hinside.memory) bus
  have hstore : ∀ (bus : Bus) (offset : Nat) (data : List UInt8),
      offset + data.length ≤ piece.dram.toNat + piece.length.toNat → ∃ bus',
        storeRun copy .rdram offset data bus = .ok () bus' ∧
          bus'.sp.memoryByte = bus.sp.memoryByte := fun _ _ _ _ => ⟨_, rfl, rfl⟩
  have hlength : (bytesFrom bus.sp.memoryByte piece.memory.toNat piece.length.toNat).length =
      copyUnit * units := (length_bytesFrom _ _ _).trans hunits
  obtain ⟨writes, hrun⟩ := storeArrivals_rdram copy (Arrival.units piece.dram.toNat units
    (bytesFrom bus.sp.memoryByte piece.memory.toNat piece.length.toNat)) bus
  rw [Rdram.store_units _ (Nat.le_of_eq hlength.symm),
    List.take_of_length_le (Nat.le_of_eq hlength)] at hrun
  refine ⟨_, (copyThrough_inside hload hstore hmemory hdram hsp hrdram hunits bus).trans hrun, ?_⟩
  exact ⟨rfl, Rdram.size_store _ _ _, rfl, rfl, memories_storeDram bus _ _ _ _⟩

end

/-! ## All pieces -/

/-- The pieces of a transfer are copied one after the other. -/
theorem exists_moved_pieces (copy : BlockCopy) (direction : SignalTransfer)
    {pieces : List SignalProcessor.Piece} (hinside : ∀ piece ∈ pieces, piece.Inside)
    (p : SignalProcessor.Position) {bus : Bus}
    (h : bus.sp.registers.layout = SignalProcessor.initial.registers.layout) :
    ∃ t, copyPieces (copyThrough copy) direction pieces p bus =
        .ok (pieces.getLast?.elim p (·.next), none) t ∧
      Moved direction (pieces.flatMap SignalProcessor.Piece.moves) bus t := by
  induction pieces generalizing p bus with
  | nil => exact ⟨bus, rfl, .refl direction bus⟩
  | cons piece rest ih =>
    rw [List.forall_mem_cons] at hinside
    -- The next position is that of the last piece, whichever that is
    have hlast : (piece :: rest).getLast?.elim p (·.next) =
        rest.getLast?.elim piece.next (·.next) := by
      rw [List.getLast?_cons]
      cases rest.getLast? with
      | none => rfl
      | some last => rfl
    rw [hlast, List.flatMap_cons]
    cases direction with
    | dramToMemory =>
      obtain ⟨t, hcopy, hfirst⟩ := exists_moved_toMemory hinside.1 copy h
      obtain ⟨u, hrest, hmoved⟩ := ih hinside.2 piece.next (hfirst.layout.trans h)
      exact ⟨u, (bind_attempt_of_ok hcopy).trans hrest, hfirst.trans hmoved⟩
    | memoryToDram =>
      obtain ⟨t, hcopy, hfirst⟩ := exists_moved_toDram hinside.1 copy bus
      obtain ⟨u, hrest, hmoved⟩ := ih hinside.2 piece.next (hfirst.layout.trans h)
      exact ⟨u, (bind_attempt_of_ok hcopy).trans hrest, hfirst.trans hmoved⟩

end Bus

/-! ## The registers -/

namespace SignalTransfer

/-- The register whose store starts transfers in this direction. -/
def lengthSlot : SignalTransfer → Nat
  | dramToMemory => SignalProcessor.readLengthSlot
  | memoryToDram => SignalProcessor.writeLengthSlot

/-- Where it is among the registers of the SP, -/
def lengthOffset : SignalTransfer → Nat
  | dramToMemory => 0x40008
  | memoryToDram => 0x4000C

/-- and on the bus. -/
def lengthAddress : SignalTransfer → UInt32
  | dramToMemory => 0x04040008
  | memoryToDram => 0x0404000C

end SignalTransfer

namespace SignalProcessor

/-- Each of the two has a copy of its own for stores, and a word stored in it touches no other. -/
private theorem length_layout (d : SignalTransfer) :
    initial.registers.layout[d.lengthSlot]? = some ⟨d.lengthOffset, 1, .dual, .readWrite⟩ ∧
      (∀ i < 4, initial.registers.locate (d.lengthOffset + i) = some d.lengthSlot) ∧
      initial.registers.touched d.lengthOffset 4 = [d.lengthSlot] := by
  cases d <;> decide +kernel

/-- The address registers have none. -/
private theorem address_layout :
    initial.registers.layout[memoryAddressSlot]? = some ⟨0x40000, 1, .single, .readWrite⟩ ∧
      initial.registers.layout[dramAddressSlot]? = some ⟨0x40004, 1, .single, .readWrite⟩ := by
  decide +kernel

/-- A transfer starts at a row of one of the banks. -/
theorem transferStart_atRow (s : SignalProcessor) : s.transferStart.AtRow := by
  refine ⟨?_, ?_, ?_⟩
  · rw [transferStart, UInt32.toNat_and]
    exact Nat.lt_of_le_of_lt Nat.and_le_right (by decide)
  -- The low three bits are masked, so what is left is a multiple of four
  · have hlow : ∀ n : Nat, (n &&& 0xFF8) % 2 ^ 2 = 0 := by
      intro n
      rw [Nat.and_mod_two_pow]
      exact Nat.and_zero _
    rw [transferStart, UInt32.toNat_and]
    exact Nat.dvd_of_mod_eq_zero (hlow _)
  · rw [transferStart, UInt32.toNat_and]
    exact Nat.lt_of_le_of_lt Nat.and_le_right (by decide)

/-! ### What is asked for -/

/-- Bytes in a row: the low 12 bits of the length, made up to a multiple of eight. -/
def rowBytes (v : UInt64) : Nat := ((v.toUInt32 &&& 0xFFF) ||| 7).toNat + 1

/-- Rows: the number in the next eight bits, and one. -/
def rowTotal (v : UInt64) : Nat := ((v.toUInt32 >>> 12) &&& 0xFF).toNat + 1

/-- Bytes left out of main memory after each row: the upper 12 bits. -/
def rowGap (v : UInt64) : Nat := (v.toUInt32 >>> 20).toNat

/-- Where the transfer starts in the memory of the SP: SP_MEM_ADDR (register 1), without the bits
that do not count. -/
def firstAddress (s : SignalProcessor) : UInt32 := s.registers.stored 1 &&& 0x1FF8

/-- The bank of that address. -/
def firstBank (s : SignalProcessor) : Nat := (s.firstAddress &&& 0x1000).toNat

/-- Its offset in the bank. -/
def firstOffset (s : SignalProcessor) : Nat := (s.firstAddress &&& 0xFFF).toNat

/-- Where the transfer starts in main memory: SP_DRAM_ADDR (register 2), likewise. -/
def firstDram (s : SignalProcessor) : Nat := (s.registers.stored 2 &&& 0x00FFFFF8).toNat

/-- The bytes that a transfer moves, row by row. -/
def requestedMoves (s : SignalProcessor) (v : UInt64) : List ByteMove :=
  rowsMoves s.firstBank s.firstOffset s.firstDram (rowBytes v) (rowBytes v + rowGap v) (rowTotal v)

/-- The length of a row, less one, fits in 12 bits. -/
private theorem or_seven_lt (register : UInt32) : ((register &&& 0xFFF) ||| 7).toNat < 2 ^ 12 := by
  rw [UInt32.toNat_or, UInt32.toNat_and]
  exact Nat.or_lt_two_pow (Nat.and_lt_two_pow _ (by decide)) (by decide)

/-- The device reads the length of a row in this way, -/
theorem toNat_rowLength (v : UInt64) : (rowLength v.toUInt32).toNat = rowBytes v := by
  have hlt := or_seven_lt v.toUInt32
  have hone : (1 : UInt32).toNat = 1 := rfl
  rw [rowLength, UInt32.toNat_add, hone]
  exact Nat.mod_eq_of_lt (by omega)

/-- the number of rows, -/
theorem rowCount_eq (v : UInt64) : rowCount v.toUInt32 = rowTotal v := rfl

/-- the gap between them, -/
theorem toNat_rowSkip (v : UInt64) : (rowSkip v.toUInt32).toNat = rowGap v := by
  have hlt : (v.toUInt32 >>> 20).toNat < 2 ^ 12 := by
    have hword := v.toUInt32.toNat_lt
    show v.toUInt32.toNat >>> 20 < _
    rw [Nat.shiftRight_eq_div_pow]
    omega
  rw [rowSkip, UInt32.toNat_and]
  exact (Nat.and_two_pow_sub_one_eq_mod _ 12).trans (Nat.mod_eq_of_lt hlt)

/-- the bank, -/
theorem toNat_transferBank (s : SignalProcessor) : s.transferBank.toNat = s.firstBank := by
  rw [firstBank, firstAddress, UInt32.and_assoc]
  rfl

/-- and where to start in both memories. -/
theorem toNat_transferStart (s : SignalProcessor) :
    s.transferStart.memory.toNat = s.firstOffset ∧ s.transferStart.dram.toNat = s.firstDram := by
  rw [firstOffset, firstAddress, UInt32.and_assoc]
  exact ⟨rfl, rfl⟩

/-- There are two banks. -/
private theorem transferBank_or (s : SignalProcessor) :
    s.transferBank.toNat = 0 ∨ s.transferBank.toNat = 0x1000 := by
  rw [transferBank, UInt32.toNat_and]
  have hbit := Nat.and_two_pow (s.registers.stored memoryAddressSlot).toNat 12
  cases hset : (s.registers.stored memoryAddressSlot).toNat.testBit 12 with
  | false =>
    rw [hset] at hbit
    exact .inl hbit
  | true =>
    rw [hset] at hbit
    exact .inr hbit

/-- Its rows are as long as the register can say, and some multiple of eight bytes. -/
theorem rowShape (s : SignalProcessor) (v : UInt64) :
    RowShape s.transferBank (rowLength v.toUInt32) (rowSkip v.toUInt32) := by
  have hlt := or_seven_lt v.toUInt32
  -- The low bits are all set, and one more makes it a multiple of four
  have hlow : ((v.toUInt32 &&& 0xFFF) ||| 7).toNat % 2 ^ 2 = 3 := by
    rw [UInt32.toNat_or, Nat.or_mod_two_pow]
    have hfour : (v.toUInt32 &&& 0xFFF).toNat % 2 ^ 2 < 4 := Nat.mod_lt _ (by decide)
    generalize (v.toUInt32 &&& 0xFFF).toNat % 2 ^ 2 = low at hfour
    interval_cases low <;> rfl
  have hlength := toNat_rowLength v
  rw [rowBytes] at hlength
  refine ⟨transferBank_or s, ?_, ?_, ?_⟩
  · omega
  · omega
  · rw [rowSkip, UInt32.toNat_and]
    exact Nat.lt_of_le_of_lt Nat.and_le_right (by decide)

section
variable {s : SignalProcessor} (h : s.registers.layout = initial.registers.layout)
  (direction : SignalTransfer) (bank register : UInt32) (p : Position)

/-- The end of a transfer: both addresses, the length register that started it, and the status. -/
private theorem finish_eq :
    let registers := ((s.registers.set memoryAddressSlot (bank ||| p.memory)).set dramAddressSlot
      p.dram).publish direction.lengthSlot ((rowSkip register <<< 20) ||| 0xFF8)
    s.finish direction bank register p =
      publishStatus ⟨registers⟩ (status ⟨registers⟩ &&& ~~~busyFlag) := by
  cases direction <;> rfl

/-- The register that starts a transfer is neither an address, nor the status, nor the memory. -/
private theorem lengthSlot_ne :
    direction.lengthSlot ≠ memoryAddressSlot ∧ direction.lengthSlot ≠ dramAddressSlot ∧
      direction.lengthSlot ≠ statusSlot ∧ direction.lengthSlot ≠ memorySlot := by
  cases direction <;> decide

include h

/-- What a transfer leaves in the address registers. -/
private theorem holds_finish :
    (s.finish direction bank register p).registers.Holds memoryAddressSlot (bank ||| p.memory) ∧
      (s.finish direction bank register p).registers.Holds dramAddressSlot p.dram := by
  obtain ⟨hmemory, hdram⟩ := address_layout
  rw [← h] at hmemory hdram
  obtain ⟨hne, hne', -, -⟩ := lengthSlot_ne direction
  rw [finish_eq]
  constructor
  -- What is published afterwards goes to the lengths and the status
  · have hset := RegisterMap.holds_set hmemory Nat.one_pos (bank ||| p.memory)
    exact ((hset.set (by decide) _).publish hne _).publish (by decide) _
  · have hsecond : (s.registers.set memoryAddressSlot
        (bank ||| p.memory)).layout[dramAddressSlot]? = some ⟨0x40004, 1, .single, .readWrite⟩ := by
      rw [RegisterMap.layout_set, hdram]
    have hset := RegisterMap.holds_set hsecond Nat.one_pos p.dram
    exact (hset.publish hne' _).publish (by decide) _

/-- The busy flag goes. -/
theorem status_finish :
    (s.finish direction bank register p).status = s.status &&& ~~~busyFlag := by
  -- The writeback reaches the addresses and the length, and none of those is the status
  obtain ⟨-, -, hne, -⟩ := lengthSlot_ne direction
  rw [finish_eq]
  generalize hregisters : ((s.registers.set memoryAddressSlot (bank ||| p.memory)).set
    dramAddressSlot p.dram).publish direction.lengthSlot ((rowSkip register <<< 20) ||| 0xFF8) =
      registers
  have hshape : registers.layout[statusSlot]? = some ⟨0x40010, 1, .dual, .readWrite⟩ := by
    rw [← hregisters, RegisterMap.layout_publish, RegisterMap.layout_set, RegisterMap.layout_set, h,
      statusSlot_layout]
  have hkept : status ⟨registers⟩ = s.status := by
    rw [← hregisters]
    exact (RegisterMap.visible_of_ne _ hne _).trans
      ((RegisterMap.visible_of_ne _ (by decide) _).trans
        (RegisterMap.visible_of_ne _ (by decide) _))
  rw [hkept]
  exact RegisterMap.visible_publish hshape Nat.one_pos _

/-- The memory is not concerned. -/
private theorem memoryByte_finish :
    (s.finish direction bank register p).memoryByte = s.memoryByte := by
  obtain ⟨-, -, -, hne⟩ := lengthSlot_ne direction
  have hfirst : (s.registers.set memoryAddressSlot (bank ||| p.memory)).layout =
      initial.registers.layout := (RegisterMap.layout_set _ _ _).trans h
  have hsecond := (RegisterMap.layout_set _ dramAddressSlot p.dram).trans hfirst
  -- Four registers are changed, one after the other, and none of them is the memory
  have hthird := (RegisterMap.layout_publish _ direction.lengthSlot
    ((rowSkip register <<< 20) ||| 0xFF8)).trans hsecond
  have hlength := memoryByte_of_ne hsecond hne (hthird.trans hsecond.symm)
  rw [finish_eq]
  refine (memoryByte_of_ne hthird (by decide) (RegisterMap.layout_publish _ _ _)).trans ?_
  refine hlength.trans ?_
  refine (memoryByte_of_ne hfirst (by decide) (RegisterMap.layout_set _ _ _)).trans ?_
  exact memoryByte_of_ne h (by decide) (RegisterMap.layout_set _ _ _)

/-- So it had come. -/
theorem status_begin : s.begin.status = s.status ||| busyFlag := by
  have hshape : s.registers.layout[statusSlot]? = some ⟨0x40010, 1, .dual, .readWrite⟩ := by
    rw [h, statusSlot_layout]
  exact RegisterMap.visible_publish hshape Nat.one_pos _

end

end SignalProcessor

namespace Bus

/-- The bus when a word has been stored in a register of the SP. -/
def storeSignal (bus : Bus) (slot : Nat) (value : UInt32) : Bus :=
  { bus with sp.registers := bus.sp.registers.modifyBlock slot (·.setStored 0 value) }

/-- This changes no layout. -/
theorem Wired.storeSignal {bus : Bus} (h : bus.Wired) (slot : Nat) (value : UInt32) :
    (bus.storeSignal slot value).Wired := by
  apply h.of_layouts_eq
  simp only [layouts, Bus.storeSignal, RegisterMap.layout_setStored]

/-- The bus as the pieces of a transfer find it: the length is in its register, and the transfer
has begun. -/
def signalBegun (bus : Bus) (direction : SignalTransfer) (register : UInt32) : Bus :=
  DeviceStep.signalBegin.apply (bus.storeSignal direction.lengthSlot register)

/-- It is the bus from before, but for the SP. -/
private theorem signalBegun_eq (bus : Bus) (direction : SignalTransfer) (register : UInt32) :
    bus.signalBegun direction register =
      { bus with sp := (bus.signalBegun direction register).sp } := by
  simp only [signalBegun, DeviceStep.apply, storeSignal]

/-- Nothing but the SP has changed. -/
private theorem signalBegun_frame (bus : Bus) (direction : SignalTransfer) (register : UInt32) :
    CopyFrame bus (bus.signalBegun direction register) := by
  simp only [CopyFrame, signalBegun, DeviceStep.apply, storeSignal]

/-- The addresses are those from before. -/
private theorem addresses_signalBegun (bus : Bus) (direction : SignalTransfer)
    (register : UInt32) :
    (bus.signalBegun direction register).sp.transferBank = bus.sp.transferBank ∧
      (bus.signalBegun direction register).sp.transferStart = bus.sp.transferStart := by
  obtain ⟨hmemory, hdram, -, -⟩ := SignalProcessor.lengthSlot_ne direction
  have hkept : ∀ slot, SignalProcessor.statusSlot ≠ slot → direction.lengthSlot ≠ slot →
      (bus.signalBegun direction register).sp.registers.stored slot =
        bus.sp.registers.stored slot := fun slot hstatus hlength =>
    (RegisterMap.stored_of_ne _ hstatus _).trans (RegisterMap.stored_of_ne _ hlength _)
  have hfirst := hkept SignalProcessor.memoryAddressSlot (by decide) hmemory
  have hsecond := hkept SignalProcessor.dramAddressSlot (by decide) hdram
  simp only [SignalProcessor.transferBank, SignalProcessor.transferStart, hfirst, hsecond, and_self]

section
variable {bus : Bus} (h : bus.Wired)
include h

/-- A word stored in a length register is taken over, and the transfer that it starts is all that it
touches. -/
private theorem writeValue_length (direction : SignalTransfer) (v : UInt64) :
    writeValue direction.lengthAddress 4 v bus =
      signalTransfer (nestedCopy nestingLimit) direction v.toUInt32
        (bus.storeSignal direction.lengthSlot v.toUInt32) := by
  obtain ⟨hshape, hlocate, htouched⟩ := SignalProcessor.length_layout direction
  have haddress : Region.sp.base + direction.lengthOffset = direction.lengthAddress.toNat := by
    cases direction <;> rfl
  have haligned : transferFor direction.lengthAddress 4 = .aligned := by
    cases direction <;> rfl
  have hinside : direction.lengthOffset + 4 ≤ Region.sp.size ∧
      ¬ direction.lengthOffset < SignalProcessor.memoryWindow := by
    cases direction <;> decide
  rw [← h.sp] at hshape
  -- The word arrives in one slot, and the slots touched are that one
  have hword : bus.sp.registers.store direction.lengthOffset (BigEndian.bytes 4 v) =
      bus.sp.registers.modifyBlock direction.lengthSlot (·.setStored 0 v.toUInt32) :=
    RegisterMap.store_word hshape Nat.one_pos nofun
      (fun i hi => (RegisterMap.locate_congr h.sp _).trans (hlocate i hi)) v
  have hvalue : (bus.storeSignal direction.lengthSlot v.toUInt32).sp.registers.stored
      direction.lengthSlot = v.toUInt32 := RegisterMap.stored_setStored hshape Nat.one_pos _
  have htouches : (bus.storeSignal direction.lengthSlot v.toUInt32).sp.registers.touched
      direction.lengthOffset 4 = [direction.lengthSlot] := by
    rw [← htouched]
    apply RegisterMap.touched_congr
    rw [← h.sp]
    exact RegisterMap.layout_setStored _ _ _ _
  have hstored : (bus.deviceStore .sp direction.lengthOffset (BigEndian.bytes 4 v)).noteStore .sp
      direction.lengthOffset 4 = bus.storeSignal direction.lengthSlot v.toUInt32 := by
    simp only [deviceStore, noteStore, SignalProcessor.store, if_neg hinside.2, hword, storeSignal]
  rw [writeValue_word haddress haligned hinside.1, hstored]
  generalize bus.storeSignal direction.lengthSlot v.toUInt32 = s at hvalue htouches ⊢
  -- What comes after the store is the side effect of that slot, with the value that is in it now
  have hrun : postStore (nestedCopy nestingLimit) .sp direction.lengthOffset 4 s =
      (s.sp.registers.touched direction.lengthOffset 4).forM
        (signalStored (nestedCopy nestingLimit)) s := by
    simp only [postStore, hinside.2, if_false]
    rfl
  have hslot : signalStored (nestedCopy nestingLimit) direction.lengthSlot s =
      signalTransfer (nestedCopy nestingLimit) direction
        (s.sp.registers.stored direction.lengthSlot) s := by
    cases direction <;> rfl
  rw [hrun, htouches, ← hvalue, ← hslot]
  exact congrFun bind_pure_unit _

/-- The layout of the SP is then still the one it has in every run. -/
private theorem layout_storeSignal (slot : Nat) (w : UInt32) :
    (bus.storeSignal slot w).sp.registers.layout = SignalProcessor.initial.registers.layout :=
  (RegisterMap.layout_setStored _ _ _ _).trans h.sp

/-- The transfer has begun, and otherwise nothing has changed. -/
private theorem signalBegun_kept (direction : SignalTransfer) (register : UInt32) :
    (bus.signalBegun direction register).sp.registers.layout =
        SignalProcessor.initial.registers.layout ∧
      (bus.signalBegun direction register).memories = bus.memories ∧
      (bus.signalBegun direction register).sp.status =
        bus.sp.status ||| SignalProcessor.busyFlag := by
  obtain ⟨-, -, hstatus, hmemory⟩ := SignalProcessor.lengthSlot_ne direction
  have hstored := layout_storeSignal h direction.lengthSlot register
  have hbegun : (bus.signalBegun direction register).sp.registers.layout =
      (bus.storeSignal direction.lengthSlot register).sp.registers.layout :=
    RegisterMap.layout_publish _ _ _
  refine ⟨hbegun.trans hstored, ?_, ?_⟩
  -- Neither the length that is stored nor the busy flag is a byte of the memory
  · have hfirst := SignalProcessor.memoryByte_of_ne h.sp hmemory (hstored.trans h.sp.symm)
    have hsecond := SignalProcessor.memoryByte_of_ne hstored (by decide) hbegun
    have hbytes : (bus.signalBegun direction register).sp.memoryByte = bus.sp.memoryByte :=
      hsecond.trans hfirst
    rw [memories, hbytes, signalBegun_eq, memories]
  · have hkept : (bus.storeSignal direction.lengthSlot register).sp.status = bus.sp.status :=
      RegisterMap.visible_of_ne _ hstatus _
    rw [← hkept]
    exact SignalProcessor.status_begin hstored

end

/-! ## Whole transfers -/

/-- If the pieces are copied, a transfer is done. -/
private theorem signalTransfer_of_ok {copy : BlockCopy} {direction : SignalTransfer}
    {register : UInt32} {bus t : Bus} {p : SignalProcessor.Position}
    (h : let begun := DeviceStep.signalBegin.apply bus
      copyPieces copy direction (begun.sp.pieces register) begun.sp.transferStart begun =
        .ok (p, none) t) :
    signalTransfer copy direction register bus = .ok ()
      ((DeviceStep.signalFinish direction (DeviceStep.signalBegin.apply bus).sp.transferBank
        register p).apply t) := by
  unfold signalTransfer
  exact (bind_of_ok rfl).trans ((bind_of_ok rfl).trans ((bind_of_ok h).trans rfl))

/-- A transfer of rows is done.  The bit `0x04` of the status is the busy flag. -/
structure RowsMoved (direction : SignalTransfer) (v : UInt64) (before after : Bus) : Prop where
  run : writeValue direction.lengthAddress 4 v before = .ok () after
  memories : after.memories = (before.sp.requestedMoves v).foldl
    (Memories.move before.rdram.size direction) before.memories
  others : ∀ n,
    ((∀ w ∈ before.sp.requestedMoves v, w.memory ≠ n) →
      after.sp.memoryByte n = before.sp.memoryByte n) ∧
    ((∀ w ∈ before.sp.requestedMoves v, w.dram ≠ n) →
      after.rdram.byteAt n = before.rdram.byteAt n)
  outside : ∀ n, n < before.sp.firstBank ∨ before.sp.firstBank + 0x1000 ≤ n →
    after.sp.memoryByte n = before.sp.memoryByte n
  installed : after.rdram.size = before.rdram.size
  elsewhere : CopyFrame before after
  memoryAddress : after.sp.registers.Holds 1
    (UInt32.ofNat (before.sp.firstBank + (before.sp.firstOffset +
      SignalProcessor.rowTotal v * SignalProcessor.rowBytes v) % 0x1000))
  dramAddress : after.sp.registers.Holds 2
    (UInt32.ofNat (SignalProcessor.rowStart before.sp.firstDram
      (SignalProcessor.rowBytes v + SignalProcessor.rowGap v) (SignalProcessor.rowTotal v)))
  status : after.sp.status = before.sp.status &&& ~~~0x04

/-- The bank and the offset in it make up an address. -/
private theorem bank_or {bank offset : UInt32} (hbank : bank.toNat = 0 ∨ bank.toNat = 0x1000)
    (hoffset : offset.toNat < 0x1000) :
    bank ||| offset = UInt32.ofNat (bank.toNat + offset.toNat) := by
  rw [← UInt32.toNat_inj, UInt32.toNat_or, UInt32.toNat_ofNat_of_lt' (by
    show _ < 2 ^ 32
    omega)]
  rcases hbank with hbank | hbank
  -- In the first bank there is nothing to join, and in the second bit 12 is above the offset
  · rw [hbank, Nat.zero_or, Nat.zero_add]
  · rw [hbank]
    exact (Nat.two_pow_add_eq_or_of_lt (i := 12) hoffset 1).symm

section
variable {bus : Bus} (h : bus.Wired) (direction : SignalTransfer) (v : UInt64)
include h

/-- A word stored in a length register has the pieces of all rows copied, and then the transfer
ends where they have led. -/
private theorem exists_moved_rows :
    ∃ t next, writeValue direction.lengthAddress 4 v bus = .ok ()
        ((DeviceStep.signalFinish direction bus.sp.transferBank v.toUInt32 next).apply t) ∧
      Moved direction (bus.sp.requestedMoves v) (bus.signalBegun direction v.toUInt32) t ∧
      next.memory.toNat = (bus.sp.firstOffset +
        SignalProcessor.rowTotal v * SignalProcessor.rowBytes v) % 0x1000 ∧
      next.dram.toNat = SignalProcessor.rowStart bus.sp.firstDram
        (SignalProcessor.rowBytes v + SignalProcessor.rowGap v) (SignalProcessor.rowTotal v) := by
  obtain ⟨next, hcovers, hplace⟩ := SignalProcessor.exists_piecesOf (bus.sp.rowShape v)
    (SignalProcessor.rowCount v.toUInt32) bus.sp.transferStart_atRow
  -- What the device reads off its registers is what they ask for
  rw [SignalProcessor.toNat_rowLength, SignalProcessor.toNat_rowSkip,
    bus.sp.toNat_transferStart.1, bus.sp.toNat_transferStart.2,
    SignalProcessor.rowCount_eq] at hcovers hplace
  rw [bus.sp.toNat_transferBank] at hcovers
  obtain ⟨hbank, hstart⟩ := addresses_signalBegun bus direction v.toUInt32
  have hlayout := (signalBegun_kept h direction v.toUInt32).1
  obtain ⟨depth, hdepth⟩ := exists_nestingLimit
  obtain ⟨t, hrun, hmoved⟩ := exists_moved_pieces (nestedCopy depth) direction hcovers.inside
    bus.sp.transferStart hlayout
  rw [hcovers.last] at hrun
  rw [hcovers.moves] at hmoved
  refine ⟨t, next, ?_, hmoved, hplace⟩
  rw [writeValue_length h, hdepth, ← hbank]
  apply signalTransfer_of_ok
  show copyPieces _ direction ((bus.signalBegun direction v.toUInt32).sp.pieces v.toUInt32)
    (bus.signalBegun direction v.toUInt32).sp.transferStart _ = _
  rw [SignalProcessor.pieces, hbank, hstart]
  exact hrun

/-- A word stored in a length register moves the rows that the registers ask for, in either
direction and whatever the registers say: it moves their bytes one by one, and no others.  Then
the addresses are where the next row would start, and the SP is no longer busy. -/
theorem signal_rows : ∃ t, RowsMoved direction v bus t := by
  obtain ⟨t, next, hrun, hmoved, hmemory, hdram⟩ := exists_moved_rows h direction v
  obtain ⟨hlayout, hmemories, hbusy⟩ := signalBegun_kept h direction v.toUInt32
  have hsame : (bus.signalBegun direction v.toUInt32).rdram = bus.rdram := by rw [signalBegun_eq]
  have hwired := hmoved.layout.trans hlayout
  -- The end of the transfer writes addresses and status, neither of which is in a memory
  have hbytes := SignalProcessor.memoryByte_finish hwired direction bus.sp.transferBank v.toUInt32
    next
  have hmoves : ((DeviceStep.signalFinish direction bus.sp.transferBank v.toUInt32 next).apply
      t).memories = (bus.sp.requestedMoves v).foldl
        (Memories.move bus.rdram.size direction) bus.memories := by
    rw [← hmemories, ← hsame, ← hmoved.memories]
    simp only [DeviceStep.apply, memories, hbytes]
  have hothers := Memories.foldl_move_of_ne bus.rdram.size direction
    (bus.sp.requestedMoves v) bus.memories
  rw [← hmoves] at hothers
  obtain ⟨hholds, hholds'⟩ := SignalProcessor.holds_finish hwired direction bus.sp.transferBank
    v.toUInt32 next
  -- The addresses are those of the next row, joined with the bank again
  have hoffset : next.memory.toNat < 0x1000 := by
    rw [hmemory]
    exact Nat.mod_lt _ (by decide)
  rw [bank_or bus.sp.transferBank_or hoffset, hmemory, bus.sp.toNat_transferBank] at hholds
  rw [← UInt32.ofNat_toNat (x := next.dram), hdram] at hholds'
  have hstatus := SignalProcessor.status_finish hwired direction bus.sp.transferBank v.toUInt32 next
  rw [hmoved.status, hbusy, set_clear] at hstatus
  have hend : CopyFrame t
      ((DeviceStep.signalFinish direction bus.sp.transferBank v.toUInt32 next).apply t) := by
    simp only [CopyFrame, DeviceStep.apply]
  exact ⟨_,
    { run := hrun
      memories := hmoves
      others := hothers
      outside := by
        intro n hn
        apply (hothers n).1
        intro w hw
        have hbank := SignalProcessor.memory_of_mem_rowsMoves hw
        omega
      installed := by simp only [DeviceStep.apply, hmoved.installed, hsame]
      elsewhere := ((signalBegun_frame bus direction v.toUInt32).trans hmoved.frame).trans hend
      memoryAddress := hholds
      dramAddress := hholds'
      status := hstatus }⟩

end

/-- Two rows of sixteen bytes, eight bytes apart, to the end of the second bank and around it. -/
theorem signal_rows_around :
    let bus := ((Bus.initial .smallest 0x120).storeSignal 1 0x1FFF).storeSignal 2 0x100
    (bus.sp.firstBank = 0x1000 ∧ bus.sp.firstOffset = 0xFF8 ∧ bus.sp.firstDram = 0x100) ∧
      (SignalProcessor.rowBytes 0x0080100F = 16 ∧ SignalProcessor.rowTotal 0x0080100F = 2 ∧
        SignalProcessor.rowGap 0x0080100F = 8) ∧
      ∃ t, RowsMoved .dramToMemory 0x0080100F bus t ∧
        t.sp.registers.Holds 1 0x1018 ∧ t.sp.registers.Holds 2 0x130 := by
  intro bus
  have hwired : bus.Wired :=
    ((wired_initial .smallest 0x120).storeSignal _ _).storeSignal _ _
  obtain ⟨t, hmoved⟩ := signal_rows hwired .dramToMemory 0x0080100F
  have hfirst : bus.sp.firstBank = 0x1000 ∧ bus.sp.firstOffset = 0xFF8 ∧
      bus.sp.firstDram = 0x100 := by
    decide +kernel
  have hmemory := hmoved.memoryAddress
  have hdram := hmoved.dramAddress
  rw [hfirst.1, hfirst.2.1] at hmemory
  rw [hfirst.2.2] at hdram
  exact ⟨hfirst, by decide, t, hmoved, hmemory, hdram⟩

end Bus

end Console64

import Console64.Proofs.CommandMemory
import Console64.Proofs.DeviceCopy
import Console64.Proofs.DeviceSteps
import Console64.Proofs.FirstVisit

/-!
# Frames to the command memory and back

A store into one register of the SI takes 64 bytes of main memory to the command memory, a store
into another one takes them back.  On the way they cross the bus in sixteen units, each of which
the command memory sees as a store of its own.  Only the last of them reaches the control byte.

## Key results

- `Pif.carriedOut_frame`: of the units of a frame, only the last one has commands carried out,
  and it finds the whole frame
- `Bus.writeValue_toPif`, `Bus.writeValue_toDram`: what each transfer does
- `Bus.serial_round_trip`: what both do, one after the other
-/

namespace Console64

/-! ## Frames that arrive at the command memory -/

namespace Arrival

/-- The control byte of the command memory is among the bytes. -/
def completes (w : Arrival) : Bool :=
  w.offset ≤ Pif.controlOffset && Pif.controlOffset < w.offset + w.data.length

end Arrival

namespace Pif

/-- Bytes arrive, and commands are carried out if they reach the control byte. -/
def arrive (p : Pif) (w : Arrival) : Pif := (p.store w.offset w.data).settle w.offset w.data.length

/-- The frames on which commands are carried out while bytes arrive. -/
def carriedOut (p : Pif) : List Arrival → List Joybus.Memory
  | [] => []
  | w :: ws =>
    if w.completes then (p.store w.offset w.data).ram :: (p.arrive w).carriedOut ws
    else (p.arrive w).carriedOut ws

/-- Bytes that reach the control byte are stored, and commands carried out; -/
theorem arrive_of_completes {p : Pif} {w : Arrival} (h : w.completes = true) :
    p.arrive w = (p.store w.offset w.data).processCommands := if_pos h

/-- others are just stored. -/
theorem arrive_of_not_completes {p : Pif} {w : Arrival} (h : w.completes = false) :
    p.arrive w = p.store w.offset w.data := if_neg (Bool.eq_false_iff.mp h)

/-- Units that end before the control byte are stored, and nothing else. -/
private theorem arrive_units {n offset : Nat} {data : List UInt8} (p : Pif)
    (hlength : Bus.copyUnit * n ≤ data.length)
    (hbefore : offset + Bus.copyUnit * n ≤ controlOffset) :
    (Arrival.units offset n data).foldl arrive p = p.store offset (data.take (Bus.copyUnit * n)) ∧
      p.carriedOut (Arrival.units offset n data) = [] := by
  induction n generalizing p offset data with
  | zero => exact ⟨by simp [Arrival.units, store], rfl⟩
  | succ n ih =>
    rw [Nat.mul_succ] at hlength hbefore
    have hunit : (data.take Bus.copyUnit).length = Bus.copyUnit := by
      rw [List.length_take]
      omega
    -- A unit that ends before the control byte does not reach it
    have hpartial : Arrival.completes ⟨offset, data.take Bus.copyUnit⟩ = false := by
      simp only [Arrival.completes, hunit, Bool.and_eq_false_iff, decide_eq_false_iff_not]
      omega
    have hrest : Bus.copyUnit * n ≤ (data.drop Bus.copyUnit).length := by
      rw [List.length_drop]
      omega
    have hbehind : offset + Bus.copyUnit + Bus.copyUnit * n ≤ controlOffset := by omega
    obtain ⟨hstored, hnone⟩ := ih (p.store offset (data.take Bus.copyUnit)) hrest hbehind
    rw [Arrival.units, List.foldl_cons, carriedOut, arrive_of_not_completes hpartial, hpartial]
    refine ⟨?_, hnone⟩
    rw [hstored, Nat.mul_succ, Nat.add_comm (Bus.copyUnit * n), List.take_add, store_append, hunit]

/-- What arrives later is carried out on what earlier bytes have left. -/
theorem carriedOut_append (p : Pif) (ws ws' : List Arrival) :
    p.carriedOut (ws ++ ws') = p.carriedOut ws ++ (ws.foldl arrive p).carriedOut ws' := by
  induction ws generalizing p with
  | nil => rfl
  | cons w ws ih =>
    simp only [List.cons_append, carriedOut, ih, List.foldl_cons]
    split <;> rfl

/-- The units of a frame have commands carried out once, on the frame. -/
theorem carriedOut_frame (p : Pif) (frame : Joybus.Memory) :
    (Arrival.units romSize 16 frame.toList).foldl arrive p =
        { p with ram := frame }.processCommands ∧
      p.carriedOut (Arrival.units romSize 16 frame.toList) = [frame] := by
  have hlength : frame.toList.length = 64 := Vector.length_toList
  have hsplit := Arrival.units_add romSize 15 1 frame.toList
  have hpart : Bus.copyUnit * 15 ≤ frame.toList.length := by
    rw [hlength]
    decide
  have hbefore : romSize + Bus.copyUnit * 15 ≤ controlOffset := by decide
  obtain ⟨hfirst, hnone⟩ := arrive_units p hpart hbefore
  -- The last unit brings the control byte
  have hlast : Arrival.units (romSize + Bus.copyUnit * 15) 1
      (frame.toList.drop (Bus.copyUnit * 15)) =
        [⟨romSize + 60, frame.toList.drop 60⟩] := by
    rw [Arrival.units, Arrival.units, List.take_of_length_le]
    · rfl
    · rw [List.length_drop, hlength]
      decide
  have hcompletes : Arrival.completes ⟨romSize + 60, frame.toList.drop 60⟩ = true := by
    simp only [Arrival.completes, List.length_drop, hlength]
    rfl
  have hframe : (p.store romSize (frame.toList.take 60)).store (romSize + 60)
      (frame.toList.drop 60) = { p with ram := frame } := by
    have htake : (frame.toList.take 60).length = 60 := by
      rw [List.length_take, hlength]
      rfl
    have happend := store_append p romSize (frame.toList.take 60) (frame.toList.drop 60)
    rw [htake, List.take_append_drop, store_frame] at happend
    exact happend.symm
  rw [show 15 + 1 = 16 from rfl] at hsplit
  rw [hsplit, hlast, List.foldl_append, carriedOut_append, hfirst, hnone, List.nil_append,
    List.foldl_cons, List.foldl_nil, arrive_of_completes hcompletes, carriedOut, if_pos hcompletes]
  show (Pif.store (p.store romSize (frame.toList.take 60)) _ _).processCommands = _ ∧
    [(Pif.store (p.store romSize (frame.toList.take 60)) _ _).ram] = [frame]
  rw [hframe]
  exact ⟨rfl, rfl⟩

/-- The command memory as the bus reads it. -/
theorem bytesFrom_romSize (p : Pif) : bytesFrom p.byteAt romSize 64 = p.ram.toList := by
  apply List.ext_getElem
  · simp
  intro i hi hi'
  simp only [length_bytesFrom] at hi
  simp [bytesFrom, byteAt, hi]

end Pif

/-! ## Frames that arrive in main memory -/

namespace Rdram

/-- The 64 bytes at `offset`, zero past the installed size. -/
def frame (m : Rdram) (offset : Nat) : Joybus.Memory := Vector.ofFn fun i => m.byteAt (offset + i)

/-- Its bytes as the bus reads them. -/
theorem toList_frame (m : Rdram) (offset : Nat) :
    (m.frame offset).toList = bytesFrom m.byteAt offset 64 := by
  apply List.ext_getElem
  · simp
  intro i hi hi'
  simp [bytesFrom, frame]

/-- The units of a copy are one store. -/
theorem store_units {n offset : Nat} {data : List UInt8} (m : Rdram)
    (hlength : Bus.copyUnit * n ≤ data.length) :
    (Arrival.units offset n data).foldl (fun m w => m.store w.offset w.data) m =
      m.store offset (data.take (Bus.copyUnit * n)) := by
  induction n generalizing m offset data with
  | zero => simp [Arrival.units, store]
  | succ n ih =>
    rw [Nat.mul_succ] at hlength
    have hunit : (data.take Bus.copyUnit).length = Bus.copyUnit := by
      rw [List.length_take]
      omega
    rw [Arrival.units, List.foldl_cons, ih _ (by rw [List.length_drop]; omega), Nat.mul_succ,
      Nat.add_comm (Bus.copyUnit * n), List.take_add, store_append, hunit]

end Rdram

namespace Bus

/-- Stores into the PIF are just such arrivals, -/
theorem storeArrivals_pif (copy : BlockCopy) (ws : List Arrival) (bus : Bus) :
    storeArrivals copy .pif ws bus =
      .ok () { bus with pif := ws.foldl Pif.arrive bus.pif } := by
  induction ws generalizing bus with
  | nil => rfl
  | cons w ws ih =>
    rw [storeArrivals_cons]
    have hrun : storeRun copy .pif w.offset w.data bus =
        .ok () { bus with pif := bus.pif.arrive w } := rfl
    rw [bind_of_ok hrun, ih]
    rfl

/-- and stores into main memory change nothing else but the log. -/
theorem storeArrivals_rdram (copy : BlockCopy) (ws : List Arrival) (bus : Bus) :
    ∃ writes, storeArrivals copy .rdram ws bus =
      .ok () { bus with
        rdram := ws.foldl (fun m w => m.store w.offset w.data) bus.rdram
        writes := writes } := by
  induction ws generalizing bus with
  | nil => exact ⟨bus.writes, rfl⟩
  | cons w ws ih =>
    -- A run that is stored moves its bytes, and the log has one more entry
    rw [storeArrivals_cons]
    have hrun : storeRun copy .rdram w.offset w.data bus =
        .ok () { bus with
          rdram := bus.rdram.store w.offset w.data
          writes := bus.writes.note ⟨w.offset, w.data.length⟩ } := rfl
    obtain ⟨writes, hrest⟩ := ih { bus with
      rdram := bus.rdram.store w.offset w.data
      writes := bus.writes.note ⟨w.offset, w.data.length⟩ }
    exact ⟨writes, (bind_of_ok hrun).trans hrest⟩

/-- A copy of 64 bytes from main memory to the command memory. -/
theorem nestedCopy_toPif (depth : Nat) {dram : UInt32} (hdram : dram.toNat < 0x01000000)
    (bus : Bus) :
    nestedCopy (depth + 1) dram Pif.ramAddress SerialInterface.transferLength bus =
      storeArrivals (nestedCopy depth) .pif
        (Arrival.units Pif.romSize 16 (bus.rdram.frame dram.toNat).toList) bus := by
  -- Loads of the source change nothing, and stores to the command memory leave it alone
  have hload : ∀ (bus : Bus) (offset n : Nat), offset + n ≤ dram.toNat + 64 →
      bus.deviceLoad .rdram offset n = (bytesFrom bus.rdram.byteAt offset n, bus) :=
    fun _ _ _ _ => rfl
  have hstore : ∀ (bus : Bus) (offset : Nat) (data : List UInt8),
      offset + data.length ≤ Pif.romSize + 64 → ∃ bus',
        storeRun (nestedCopy depth) .pif offset data bus = .ok () bus' ∧
          bus'.rdram.byteAt = bus.rdram.byteAt := fun _ _ _ _ => ⟨_, rfl, rfl⟩
  have hsource : Region.rdram.base + dram.toNat = dram.toNat := Nat.zero_add _
  have htarget : Region.pif.base + Pif.romSize = Pif.ramAddress.toNat := rfl
  have hinside : dram.toNat + 64 ≤ Region.rdram.size := by
    show dram.toNat + 64 ≤ 0x03F00000
    omega
  have hunits : SerialInterface.transferLength = copyUnit * 16 := rfl
  rw [Rdram.toList_frame]
  exact copyThrough_inside hload hstore hsource htarget hinside (by decide) hunits bus

/-- A copy of 64 bytes from the command memory to main memory. -/
theorem nestedCopy_toDram (depth : Nat) {dram : UInt32} (hdram : dram.toNat < 0x01000000)
    (bus : Bus) :
    nestedCopy (depth + 1) Pif.ramAddress dram SerialInterface.transferLength bus =
      storeArrivals (nestedCopy depth) .rdram
        (Arrival.units dram.toNat 16 bus.pif.ram.toList) bus := by
  -- As above, with source and target exchanged
  have hload : ∀ (bus : Bus) (offset n : Nat), offset + n ≤ Pif.romSize + 64 →
      bus.deviceLoad .pif offset n = (bytesFrom bus.pif.byteAt offset n, bus) :=
    fun _ _ _ _ => rfl
  have hstore : ∀ (bus : Bus) (offset : Nat) (data : List UInt8),
      offset + data.length ≤ dram.toNat + 64 → ∃ bus',
        storeRun (nestedCopy depth) .rdram offset data bus = .ok () bus' ∧
          bus'.pif.byteAt = bus.pif.byteAt := fun _ _ _ _ => ⟨_, rfl, rfl⟩
  have hsource : Region.pif.base + Pif.romSize = Pif.ramAddress.toNat := rfl
  have htarget : Region.rdram.base + dram.toNat = dram.toNat := Nat.zero_add _
  have hinside : dram.toNat + 64 ≤ Region.rdram.size := by
    show dram.toNat + 64 ≤ 0x03F00000
    omega
  have hunits : SerialInterface.transferLength = copyUnit * 16 := rfl
  rw [← Pif.bytesFrom_romSize]
  exact copyThrough_inside hload hstore hsource htarget (by decide) hinside hunits bus

/-! ## The registers -/

/-- The bus when a word has been stored in a register of the SI. -/
def storeSerial (bus : Bus) (slot : Nat) (value : UInt32) : Bus :=
  { bus with si.registers := bus.si.registers.modifyBlock slot (·.setStored 0 value) }

/-- Only one register holds the address. -/
theorem dramAddress_storeSerial (bus : Bus) {slot : Nat} (h : slot ≠ SerialInterface.dramSlot)
    (value : UInt32) : (bus.storeSerial slot value).si.dramAddress = bus.si.dramAddress :=
  congrArg (· &&& 0x00FFFFFF) (RegisterMap.stored_of_ne _ h _)

/-- Only one register holds the status. -/
theorem status_storeSerial (bus : Bus) {slot : Nat} (h : slot ≠ SerialInterface.statusSlot)
    (value : UInt32) : (bus.storeSerial slot value).si.status = bus.si.status :=
  RegisterMap.visible_of_ne _ h _

/-- The registers of the SI that are stored to. -/
inductive SerialRegister where
  | dram | toDram | toPif
  deriving DecidableEq, Repr

namespace SerialRegister

def slot : SerialRegister → Nat
  | dram => SerialInterface.dramSlot
  | toDram => SerialInterface.toDramSlot
  | toPif => SerialInterface.toPifSlot

def offset : SerialRegister → Nat
  | dram => 0x00
  | toDram => 0x04
  | toPif => 0x10

/-- The physical address. -/
def address (r : SerialRegister) : UInt32 := 0x04800000 + UInt32.ofNat r.offset

/-- What the layout says of it. -/
theorem layout (r : SerialRegister) :
    SerialInterface.initial.registers.layout[r.slot]? = some ⟨r.offset, 1, .single, .readWrite⟩ ∧
      (∀ i < 4, SerialInterface.initial.registers.locate (r.offset + i) = some r.slot) ∧
      SerialInterface.initial.registers.touched r.offset 4 = [r.slot] := by
  cases r <;> decide +kernel

end SerialRegister

/-- A word stored in a register of the SI replaces what was there. -/
theorem Wired.store_serial {bus : Bus} (h : bus.Wired) (r : SerialRegister) (v : UInt64) :
    bus.si.registers.store r.offset (BigEndian.bytes 4 v) =
      bus.si.registers.modifyBlock r.slot (·.setStored 0 v.toUInt32) := by
  obtain ⟨hshape, hlocate, -⟩ := r.layout
  rw [← h.si] at hshape
  exact RegisterMap.store_word hshape Nat.one_pos nofun
    (fun i hi => (RegisterMap.locate_congr h.si _).trans (hlocate i hi)) v

/-- Then the side effect of that register follows. -/
theorem writeValue_serial {bus : Bus} (h : bus.Wired) (r : SerialRegister) (v : UInt64) :
    writeValue r.address 4 v bus =
      serialStored (nestedCopy nestingLimit) r.slot (bus.storeSerial r.slot v.toUInt32) := by
  have haddress : Region.si.base + r.offset = r.address.toNat := by
    cases r <;> rfl
  have haligned : transferFor r.address 4 = .aligned := by
    cases r <;> rfl
  have hinside : r.offset + 4 ≤ Region.si.size := by
    cases r <;> decide
  have htouched : (bus.storeSerial r.slot v.toUInt32).si.registers.touched r.offset 4 =
      [r.slot] := by
    refine (RegisterMap.touched_congr ?_ _ _).trans r.layout.2.2
    rw [← h.si]
    exact RegisterMap.layout_setStored _ _ _ _
  -- The store has replaced the word, and its side effect is that of the one slot it touches
  have hstored : (bus.deviceStore .si r.offset (BigEndian.bytes 4 v)).noteStore .si r.offset 4 =
      bus.storeSerial r.slot v.toUInt32 := by
    rw [storeSerial, ← h.store_serial]
    rfl
  rw [writeValue_word haddress haligned hinside, hstored]
  show (((bus.storeSerial r.slot v.toUInt32).si.registers.touched r.offset 4).forM
    (serialStored (nestedCopy nestingLimit)) : BusM PUnit) _ = _
  rw [htouched]
  exact congrFun bind_pure_unit _

/-- This changes no layout. -/
theorem Wired.storeSerial {bus : Bus} (h : bus.Wired) (slot : Nat) (value : UInt32) :
    (bus.storeSerial slot value).Wired := by
  refine h.of_layouts_eq ?_
  simp only [layouts, Bus.storeSerial, RegisterMap.layout_setStored]

/-- A transfer is done: it is remembered, its flag shows and the interrupt is raised. -/
def finishSerial (bus : Bus) (dram : UInt32) (direction : SerialTransfer) : Bus :=
  { bus with si := bus.si.finish dram direction }.raise .si

/-- What is left when a transfer is done. -/
theorem Wired.finishSerial {bus : Bus} (h : bus.Wired) (dram : UInt32)
    (direction : SerialTransfer) :
    (bus.finishSerial dram direction).Wired ∧
      (bus.finishSerial dram direction).si.status =
        bus.si.status ||| SerialInterface.interruptFlag ∧
      (bus.finishSerial dram direction).mi.pending = bus.mi.pending ||| Interrupt.si.bit := by
  have hstatus := SerialInterface.statusSlot_layout h.si
  have hpending := MipsInterface.interruptSlot_layout h.mi
  refine ⟨h.step (.serialFinish dram direction), ?_, ?_⟩
  · exact RegisterMap.visible_publish hstatus Nat.one_pos _
  · exact RegisterMap.visible_publish hpending Nat.one_pos _

/-! ## Transfers -/

/-- The address of the next transfer has been stored, and nothing else has changed. -/
structure Addressed (a : UInt64) (s t : Bus) : Prop where
  run : writeValue SerialRegister.dram.address 4 a s = .ok () t
  address : t.si.dramAddress = a.toUInt32 &&& 0x00FFFFFF
  pif : t.pif = s.pif
  rdram : t.rdram = s.rdram
  status : t.si.status = s.si.status
  mi : t.mi = s.mi

/-- Storing `v` has sent a frame of main memory to the command memory.  The store comes to the
sixteen units of the frame that arrive there, which have commands carried out once, on the
frame. -/
structure FrameSent (v : UInt64) (s t : Bus) : Prop where
  run : writeValue SerialRegister.toPif.address 4 v s = .ok () t
  arrivals : ∃ copy, writeValue SerialRegister.toPif.address 4 v s = (do
    storeArrivals copy .pif
      (Arrival.units Pif.romSize 16 (s.rdram.frame s.si.dramAddress.toNat).toList)
    modify fun done : Bus => done.finishSerial s.si.dramAddress .dramToPif : BusM Unit)
      (s.storeSerial SerialInterface.toPifSlot v.toUInt32)
  once : s.pif.carriedOut
    (Arrival.units Pif.romSize 16 (s.rdram.frame s.si.dramAddress.toNat).toList) =
      [s.rdram.frame s.si.dramAddress.toNat]
  pif : t.pif = { s.pif with ram := s.rdram.frame s.si.dramAddress.toNat }.processCommands
  rdram : t.rdram = s.rdram
  status : t.si.status = s.si.status ||| SerialInterface.interruptFlag
  pending : t.mi.pending = s.mi.pending ||| Interrupt.si.bit

/-- Storing `v` has fetched the command memory to main memory.  The store comes to stores into
main memory, so that no commands are carried out. -/
structure FrameFetched (v : UInt64) (s t : Bus) : Prop where
  run : writeValue SerialRegister.toDram.address 4 v s = .ok () t
  arrivals : ∃ copy, writeValue SerialRegister.toDram.address 4 v s = (do
    storeArrivals copy .rdram (Arrival.units s.si.dramAddress.toNat 16 s.pif.ram.toList)
    modify fun done : Bus => done.finishSerial s.si.dramAddress .pifToDram : BusM Unit)
      (s.storeSerial SerialInterface.toDramSlot v.toUInt32)
  pif : t.pif = s.pif
  installed : t.rdram.size = s.rdram.size
  inside : ∀ i (hi : i < 64), s.si.dramAddress.toNat + i < s.rdram.size →
    t.rdram.byteAt (s.si.dramAddress.toNat + i) = s.pif.ram[i]
  outside : ∀ a, a < s.si.dramAddress.toNat ∨ s.si.dramAddress.toNat + 64 ≤ a ∨ s.rdram.size ≤ a →
    t.rdram.byteAt a = s.rdram.byteAt a
  status : t.si.status = s.si.status ||| SerialInterface.interruptFlag
  pending : t.mi.pending = s.mi.pending ||| Interrupt.si.bit

variable {bus : Bus}

/-- A word stored in the address register is the next address, and sets nothing off. -/
theorem writeValue_dram (h : bus.Wired) (a : UInt64) :
    ∃ t, Addressed a bus t ∧ t.Wired := by
  refine ⟨bus.storeSerial SerialInterface.dramSlot a.toUInt32, ?_, h.storeSerial _ _⟩
  -- The register keeps the whole word, and shows 24 bits of it as the address
  have hshape : bus.si.registers.layout[SerialInterface.dramSlot]? =
      some ⟨0x00, 1, .single, .readWrite⟩ := by
    rw [h.si]
    decide +kernel
  exact
    { run := writeValue_serial h .dram a
      address := congrArg (· &&& 0x00FFFFFF) (RegisterMap.stored_setStored hshape Nat.one_pos _)
      pif := rfl
      rdram := rfl
      status := status_storeSerial bus (by decide) _
      mi := rfl }

/-- A transfer takes place in the first part of main memory. -/
theorem toNat_dramAddress_lt (si : SerialInterface) : si.dramAddress.toNat < 0x01000000 := by
  rw [SerialInterface.dramAddress, UInt32.toNat_and]
  exact Nat.and_lt_two_pow _ (n := 24) (by decide)

/-- A frame is sent: what a copy does, and then the transfer is done. -/
theorem serialStored_toPif (copy : BlockCopy) (bus : Bus) :
    serialStored copy SerialInterface.toPifSlot bus = (do
      copy bus.si.dramAddress Pif.ramAddress SerialInterface.transferLength
      modify fun done : Bus => done.finishSerial bus.si.dramAddress
        .dramToPif : BusM Unit) bus := rfl

/-- A frame is fetched likewise. -/
theorem serialStored_toDram (copy : BlockCopy) (bus : Bus) :
    serialStored copy SerialInterface.toDramSlot bus = (do
      copy Pif.ramAddress bus.si.dramAddress SerialInterface.transferLength
      modify fun done : Bus => done.finishSerial bus.si.dramAddress
        .pifToDram : BusM Unit) bus := rfl

/-- Transfers may start transfers at least once. -/
theorem exists_nestingLimit : ∃ depth, nestingLimit = depth + 1 := ⟨nestingLimit - 1, by decide⟩

/-- A store into the register that sends a frame is a sequence of stores into the command
memory. -/
theorem writeValue_toPif_arrivals (h : bus.Wired) (v : UInt64) :
    ∃ copy, writeValue SerialRegister.toPif.address 4 v bus = (do
      storeArrivals copy .pif
        (Arrival.units Pif.romSize 16 (bus.rdram.frame bus.si.dramAddress.toNat).toList)
      modify fun done : Bus => done.finishSerial bus.si.dramAddress .dramToPif : BusM Unit)
        (bus.storeSerial SerialInterface.toPifSlot v.toUInt32) := by
  obtain ⟨depth, hdepth⟩ := exists_nestingLimit
  refine ⟨nestedCopy depth, ?_⟩
  have hslot : SerialRegister.toPif.slot = SerialInterface.toPifSlot := rfl
  rw [writeValue_serial h .toPif, hdepth, hslot, serialStored_toPif,
    dramAddress_storeSerial bus (by decide)]
  exact bind_of_eq (nestedCopy_toPif depth (toNat_dramAddress_lt bus.si) _)

/-- A store into the register that fetches one is a sequence of stores into main memory. -/
theorem writeValue_toDram_arrivals (h : bus.Wired) (v : UInt64) :
    ∃ copy, writeValue SerialRegister.toDram.address 4 v bus = (do
      storeArrivals copy .rdram (Arrival.units bus.si.dramAddress.toNat 16 bus.pif.ram.toList)
      modify fun done : Bus => done.finishSerial bus.si.dramAddress .pifToDram : BusM Unit)
        (bus.storeSerial SerialInterface.toDramSlot v.toUInt32) := by
  obtain ⟨depth, hdepth⟩ := exists_nestingLimit
  refine ⟨nestedCopy depth, ?_⟩
  have hslot : SerialRegister.toDram.slot = SerialInterface.toDramSlot := rfl
  rw [writeValue_serial h .toDram, hdepth, hslot, serialStored_toDram,
    dramAddress_storeSerial bus (by decide)]
  exact bind_of_eq (nestedCopy_toDram depth (toNat_dramAddress_lt bus.si) _)

/-- A frame is sent whatever the address is: it is masked, -/
theorem writeValue_toPif (h : bus.Wired) (v : UInt64) :
    ∃ t, FrameSent v bus t ∧ t.Wired := by
  obtain ⟨copy, harrivals⟩ := writeValue_toPif_arrivals h v
  have hrun := storeArrivals_pif copy
    (Arrival.units Pif.romSize 16 (bus.rdram.frame bus.si.dramAddress.toNat).toList)
    (bus.storeSerial SerialInterface.toPifSlot v.toUInt32)
  -- The last unit has the commands carried out
  obtain ⟨hprocessed, honce⟩ :=
    Pif.carriedOut_frame bus.pif (bus.rdram.frame bus.si.dramAddress.toNat)
  rw [show (bus.storeSerial SerialInterface.toPifSlot v.toUInt32).pif = bus.pif from rfl,
    hprocessed] at hrun
  have hwired : Wired { bus.storeSerial SerialInterface.toPifSlot v.toUInt32 with
      pif := { bus.pif with
        ram := bus.rdram.frame bus.si.dramAddress.toNat }.processCommands } :=
    (h.storeSerial _ _).of_layouts_eq rfl
  obtain ⟨hdone, hflag, hraised⟩ := hwired.finishSerial bus.si.dramAddress .dramToPif
  refine ⟨_, ?_, hdone⟩
  exact
    { run := harrivals.trans (bind_of_ok hrun)
      arrivals := ⟨copy, harrivals⟩
      once := honce
      pif := rfl
      rdram := rfl
      status := hflag.trans (congrArg (· ||| _) (status_storeSerial bus (by decide) _))
      pending := hraised }

/-- and likewise it is fetched. -/
theorem writeValue_toDram (h : bus.Wired) (v : UInt64) :
    ∃ t, FrameFetched v bus t ∧ t.Wired := by
  obtain ⟨copy, harrivals⟩ := writeValue_toDram_arrivals h v
  have hlength : bus.pif.ram.toList.length = 64 := Vector.length_toList
  obtain ⟨writes, hrun⟩ := storeArrivals_rdram copy
    (Arrival.units bus.si.dramAddress.toNat 16 bus.pif.ram.toList)
    (bus.storeSerial SerialInterface.toDramSlot v.toUInt32)
  -- The units make up the command memory
  rw [Rdram.store_units _ (by rw [hlength]; decide),
    List.take_of_length_le (by rw [hlength]; decide)]
    at hrun
  have hwired : Wired { bus.storeSerial SerialInterface.toDramSlot v.toUInt32 with
      rdram := bus.rdram.store bus.si.dramAddress.toNat bus.pif.ram.toList
      writes := writes } := (h.storeSerial _ _).of_layouts_eq rfl
  obtain ⟨hdone, hflag, hraised⟩ := hwired.finishSerial bus.si.dramAddress .pifToDram
  refine ⟨_, ?_, hdone⟩
  exact
    { run := harrivals.trans (bind_of_ok hrun)
      arrivals := ⟨copy, harrivals⟩
      pif := rfl
      installed := Rdram.size_store _ _ _
      inside := by
        intro i hi hinstalled
        refine (Rdram.byteAt_store _ _ _ _).trans ?_
        rw [if_pos ⟨Nat.le_add_right _ _, hinstalled⟩, Nat.add_sub_cancel_left]
        simp [hi]
      outside := by
        intro a ha
        refine (Rdram.byteAt_store _ _ _ _).trans ?_
        by_cases hin : bus.si.dramAddress.toNat ≤ a ∧ a < bus.rdram.size
        · rw [if_pos hin, List.getElem?_eq_none (by omega), Option.getD_none]
        · rw [if_neg hin]
      status := hflag.trans (congrArg (· ||| _) (status_storeSerial bus (by decide) _))
      pending := hraised }

/-- For all values stored, and on every bus whose registers are where they were at power-on, which
no request changes (`Wired.perform`): a frame is addressed and sent, another place is addressed
and the command memory fetched there.  All four stores succeed. -/
theorem serial_round_trip (h : bus.Wired) (a v a' v' : UInt64) :
    ∃ s t u w, Addressed a bus s ∧ FrameSent v s t ∧ Addressed a' t u ∧ FrameFetched v' u w ∧
      w.Wired := by
  obtain ⟨s, haddressed, hs⟩ := writeValue_dram h a
  obtain ⟨t, hsent, ht⟩ := writeValue_toPif hs v
  obtain ⟨u, haddressed', hu⟩ := writeValue_dram ht a'
  obtain ⟨w, hfetched, hw⟩ := writeValue_toDram hu v'
  exact ⟨s, t, u, w, haddressed, hsent, haddressed', hfetched, hw⟩

/-- A frame that asks the first channel what it is. -/
def identityQuery : Joybus.Memory :=
  (((Vector.replicate _ 0).set 0 0x01).set 1 0x03).set Joybus.control 0x01 Joybus.control_lt

/-- The bus at power-on, but for such a frame in main memory. -/
def asking : Bus :=
  { initial .smallest 0x120 with rdram := (Rdram.zero 0x120).store 0x40 identityQuery.toList }

/-- The answer arrives behind the question. -/
theorem serial_round_trip_asking :
    asking.Wired ∧ ∃ s t u w, Addressed 0x40 asking s ∧ FrameSent 0 s t ∧ Addressed 0x80 t u ∧
      FrameFetched 0 u w ∧ w.rdram.byteAt 0x83 = 0x05 := by
  have hwired : asking.Wired :=
    (wired_initial .smallest 0x120).of_layouts_eq (by simp only [layouts, asking])
  obtain ⟨s, t, u, w, haddressed, hsent, haddressed', hfetched, -⟩ :=
    serial_round_trip hwired 0x40 0 0x80 0
  -- Both addresses are kept as they are, and the frame fits into what is installed
  have hfrom : s.si.dramAddress.toNat = 0x40 := by
    rw [haddressed.address]
    decide
  have hto : u.si.dramAddress.toNat = 0x80 := by
    rw [haddressed'.address]
    decide
  have hinstalled : u.rdram.size = 0x120 := by
    rw [haddressed'.rdram, hsent.rdram, haddressed.rdram]
    decide +kernel
  have hanswered : u.pif.ram[3] = 0x05 := by
    have hframe : asking.rdram.frame 0x40 = identityQuery := by decide +kernel
    rw [haddressed'.pif, hsent.pif, hfrom, haddressed.pif, haddressed.rdram, hframe]
    decide +kernel
  have hbyte := hfetched.inside 3 (by decide) (by rw [hto, hinstalled]; decide)
  rw [hto, hanswered] at hbyte
  exact ⟨hwired, s, t, u, w, haddressed, hsent, haddressed', hfetched, hbyte⟩

end Bus

end Console64

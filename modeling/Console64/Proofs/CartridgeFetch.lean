import Console64.Proofs.BlockCopies
import Console64.Proofs.InterruptStatus
import Console64.Proofs.SerialRoundTrip

/-!
# Transfers from the cartridge

A store into one register of the PI copies from the cartridge address to main memory, up to
16 MiB at a time, and past the end of what is installed.  If all of the source is mapped, the
addresses move on and the interrupt is raised; if not, the store fails, and the addresses stay
where the transfer began.

## Key results

- `Bus.copyThrough_toDram`: a copy to main memory touches no registers but those it reads, and
  it fails exactly if some of the source is unmapped
- `Bus.writeValue_peripheral`: a word stored in a register of the PI sets off its side effect
- `Bus.cartridge_fetch`: what a transfer leaves, when it is done and when it fails
-/

namespace Console64

namespace Bus

/-! ## Copies to main memory -/

/-- A load may change the signal processor, and no other device, -/
private theorem copyFrame_deviceLoad (bus : Bus) (region : Region) (offset length : Nat) :
    CopyFrame bus (bus.deviceLoad region offset length).2 := by
  cases region <;> rfl

/-- however many runs it has. -/
private theorem copyFrame_loadRuns (bus : Bus) (rs : List Run) :
    CopyFrame bus (bus.loadRuns rs).2 := by
  induction rs generalizing bus with
  | nil => exact .refl bus
  | cons r rest ih => exact (copyFrame_deviceLoad bus r.region r.offset r.length).trans (ih _)

/-- A load succeeds if the whole span is mapped. -/
private theorem loadSpan_mapped {a : UInt32} {length : Nat}
    (h : ∀ i < length, Mapped (a + UInt32.ofNat i)) (bus : Bus) :
    ∃ bytes t, loadSpan .unaligned a length bus = .ok bytes t ∧ CopyFrame bus t := by
  obtain ⟨rs, hrs⟩ := exists_runs h
  refine ⟨(bus.loadRuns rs).1, _, ?_, copyFrame_loadRuns bus rs⟩
  simp only [loadSpan, route, hrs]

/-- How a copy to main memory can end, in a bus that has been copied to. -/
inductive DramOutcome (source : UInt32) (length : Nat) (s : Bus) :
    EStateM.Result BusError Bus Unit → Prop
  | complete {t : Bus} (hframe : CopyFrame s t)
    (hmapped : ∀ i < length, Mapped (source + UInt32.ofNat i)) :
    DramOutcome source length s (.ok () t)
  | aborted {t : Bus} {e : BusError} (hframe : CopyFrame s t)
    (hun : ∃ i < length, Unmapped (source + UInt32.ofNat i)) :
    DramOutcome source length s (.error e t)

/-- Bytes inside main memory are stored. -/
private theorem storeSpan_toDram (copy : BlockCopy) {a : UInt32} {data : List UInt8}
    (h : a.toNat + data.length ≤ Region.rdram.size) (bus : Bus) :
    ∃ t, storeSpan copy .unaligned a data bus = .ok () t ∧ CopyFrame bus t := by
  cases data with
  | nil => exact ⟨bus, rfl, .refl bus⟩
  | cons byte rest =>
    have hbase : Region.rdram.base + a.toNat = a.toNat := Nat.zero_add _
    exact ⟨_, storeSpan_inside hbase h (Nat.succ_pos _) bus, rfl⟩

/-- The units of a copy, `k` of which have been moved: they all arrive, or one of them is not
mapped. -/
private theorem copyUnits_toDram (copy : BlockCopy) {source target : UInt32} {length : Nat}
    (hinside : target.toNat + length ≤ Region.rdram.size) {units k : Nat}
    (hunits : units + k = (length + 3) / 4) {s bus : Bus} (hframe : CopyFrame s bus)
    (hmapped : ∀ i < min (4 * k) length, Mapped (source + UInt32.ofNat i)) :
    DramOutcome source length s
      (copyUnits copy source target length units (min (4 * k) length) bus) := by
  induction units generalizing k bus with
  | zero =>
    have hall : min (4 * k) length = length := by omega
    rw [hall] at hmapped
    exact .complete hframe hmapped
  | succ units ih =>
    have hdone : min (4 * k) length = 4 * k := by omega
    obtain ⟨n, hn⟩ : ∃ n, min copyUnit (length - 4 * k) = n := ⟨_, rfl⟩
    have hcount : min 4 (length - 4 * k) = n := hn
    rw [hdone] at hmapped ⊢
    -- The unit is mapped, so it is loaded and stored, or it is not and the copy ends here
    rcases mapped_span (source + UInt32.ofNat (4 * k)) n with hsource | hun
    · obtain ⟨bytes, t, hload, hloaded⟩ := loadSpan_mapped hsource bus
      have hlength : bytes.length = n := length_loadSpan hload
      have hbase : Region.rdram.base + target.toNat = target.toNat := Nat.zero_add _
      have hplace := toNat_add_inside hbase (by omega : target.toNat + 4 * k ≤ _)
      rw [Region.base, Nat.zero_add] at hplace
      have hfits : (target + UInt32.ofNat (4 * k)).toNat + bytes.length ≤ Region.rdram.size := by
        omega
      obtain ⟨u, hstore, hstored⟩ := storeSpan_toDram copy hfits t
      have hnext : 4 * k + n = min (4 * (k + 1)) length := by omega
      rw [copyUnits_of_ok hn hload hstore, hnext]
      apply ih (by omega) (hframe.trans (hloaded.trans hstored))
      intro i hi
      by_cases hold : i < 4 * k
      · exact hmapped i hold
      · obtain ⟨m, rfl⟩ := Nat.exists_eq_add_of_le (Nat.le_of_not_lt hold)
        rw [← add_ofNat_add]
        exact hsource m (by omega)
    · obtain ⟨i, hi, hun, hload⟩ := loadSpan_unmapped hun bus
      rw [copyUnits_of_error hn (.inl hload)]
      rw [add_ofNat_add] at hun
      exact .aborted hframe ⟨4 * k + i, by omega, hun⟩

/-- A copy to main memory, of whatever: it changes no other device but the signal processor. -/
theorem copyThrough_toDram (copy : BlockCopy) (source : UInt32) {target : UInt32} {length : Nat}
    (hinside : target.toNat + length ≤ Region.rdram.size) (bus : Bus) :
    DramOutcome source length bus (copyThrough copy source target length bus) := by
  have hstart : min (4 * 0) length = 0 := Nat.zero_min length
  have hmapped : ∀ i < min (4 * 0) length, Mapped (source + UInt32.ofNat i) := by
    rw [hstart]
    exact fun i hi => absurd hi (Nat.not_lt_zero i)
  have houtcome := copyUnits_toDram copy hinside rfl (.refl bus) hmapped
  rwa [hstart] at houtcome

/-! ## The registers of the PI -/

/-- The bus when a word has been stored in a register of the PI. -/
def storePeripheral (bus : Bus) (slot : Nat) (value : UInt32) : Bus :=
  { bus with pi.registers := bus.pi.registers.modifyBlock slot (·.setStored 0 value) }

/-- The registers that say where a transfer takes place and how long it is. -/
private theorem peripheral_layout : ∀ slot < PeripheralInterface.statusSlot,
    PeripheralInterface.initial.registers.layout[slot]? =
        some ⟨4 * slot, 1, .single, .readWrite⟩ ∧
      (∀ i < 4, PeripheralInterface.initial.registers.locate (4 * slot + i) = some slot) ∧
      PeripheralInterface.initial.registers.touched (4 * slot) 4 = [slot] := by
  decide +kernel

/-- They are words at the start of the PI. -/
private theorem peripheral_address : ∀ slot < PeripheralInterface.statusSlot,
    Region.pi.base + 4 * slot = (0x04600000 + UInt32.ofNat (4 * slot)).toNat ∧
      transferFor (0x04600000 + UInt32.ofNat (4 * slot)) 4 = .aligned ∧
      4 * slot + 4 ≤ Region.pi.size := by
  decide +kernel

/-- This changes no layout. -/
theorem Wired.storePeripheral {bus : Bus} (h : bus.Wired) (slot : Nat) (value : UInt32) :
    (bus.storePeripheral slot value).Wired := by
  apply h.of_layouts_eq
  simp only [layouts, Bus.storePeripheral, RegisterMap.layout_setStored]

section
variable {bus : Bus} (h : bus.Wired)
include h

/-- A word stored in one of these registers is there, and then its side effect follows. -/
theorem writeValue_peripheral {slot : Nat} (hslot : slot < PeripheralInterface.statusSlot)
    (v : UInt64) :
    writeValue (0x04600000 + UInt32.ofNat (4 * slot)) 4 v bus =
      peripheralStored (nestedCopy nestingLimit) slot (bus.storePeripheral slot v.toUInt32) := by
  obtain ⟨hshape, hlocate, htouched⟩ := peripheral_layout slot hslot
  obtain ⟨haddress, haligned, hinside⟩ := peripheral_address slot hslot
  rw [← h.pi] at hshape
  have hword : bus.pi.registers.store (4 * slot) (BigEndian.bytes 4 v) =
      bus.pi.registers.modifyBlock slot (·.setStored 0 v.toUInt32) :=
    RegisterMap.store_word hshape Nat.one_pos nofun
      (fun i hi => (RegisterMap.locate_congr h.pi _).trans (hlocate i hi)) v
  have htouches : (bus.storePeripheral slot v.toUInt32).pi.registers.touched (4 * slot) 4 =
      [slot] := by
    rw [← htouched]
    apply RegisterMap.touched_congr
    rw [← h.pi]
    exact RegisterMap.layout_setStored _ _ _ _
  -- The store has replaced the word, and its side effect is that of the one slot it touches
  have hstored : (bus.deviceStore .pi (4 * slot) (BigEndian.bytes 4 v)).noteStore .pi (4 * slot) 4 =
      bus.storePeripheral slot v.toUInt32 := by
    rw [storePeripheral, ← hword]
    rfl
  rw [writeValue_word haddress haligned hinside, hstored]
  show (((bus.storePeripheral slot v.toUInt32).pi.registers.touched (4 * slot) 4).forM
    (peripheralStored (nestedCopy nestingLimit)) : BusM PUnit) _ = _
  rw [htouches]
  exact congrFun bind_pure_unit _

end

end Bus

namespace PeripheralInterface

section
variable {p : PeripheralInterface} (h : p.registers.layout = initial.registers.layout)
include h

/-- Both address registers hold what they are set to, whatever the status. -/
private theorem holds_setAddresses (dram cartridge status : UInt32) :
    ((p.setAddresses dram cartridge).publishStatus status).registers.Holds dramSlot dram ∧
      ((p.setAddresses dram cartridge).publishStatus status).registers.Holds cartridgeSlot
        cartridge := by
  -- The two addresses are ordinary slots, and the three slots are distinct
  have hdram : p.registers.layout[dramSlot]? = some ⟨0x00, 1, .single, .readWrite⟩ := by
    rw [h]
    decide +kernel
  have hcartridge : (p.registers.set dramSlot dram).layout[cartridgeSlot]? =
      some ⟨0x04, 1, .single, .readWrite⟩ := by
    rw [RegisterMap.layout_set, h]
    decide +kernel
  constructor
  · have hset := RegisterMap.holds_set hdram Nat.one_pos dram
    have hboth := hset.set (by decide : cartridgeSlot ≠ dramSlot) cartridge
    exact hboth.publish (by decide : statusSlot ≠ dramSlot) status
  · have hset := RegisterMap.holds_set hcartridge Nat.one_pos cartridge
    exact hset.publish (by decide : statusSlot ≠ cartridgeSlot) status

/-- At the start, what does not count is gone from the addresses. -/
private theorem holds_begin :
    p.begin.registers.Holds dramSlot p.dramAddress ∧
      p.begin.registers.Holds cartridgeSlot p.cartridgeAddress := by
  rw [begin]
  exact holds_setAddresses h _ _ _

/-- So they are the same from then on. -/
private theorem addresses_begin :
    p.begin.dramAddress = p.dramAddress ∧ p.begin.cartridgeAddress = p.cartridgeAddress := by
  obtain ⟨hdram, hcartridge⟩ := holds_begin h
  constructor
  · rw [dramAddress, hdram.1, dramAddress, UInt32.and_assoc, UInt32.and_self]
  · rw [cartridgeAddress, hcartridge.1, cartridgeAddress, UInt32.and_assoc, UInt32.and_self]

/-- At the end they have moved on. -/
private theorem holds_finish (dram cartridge : UInt32) (length : Nat) :
    (p.finish dram cartridge length).registers.Holds dramSlot
        ((dram + UInt32.ofNat length) &&& 0x00FFFFFF) ∧
      (p.finish dram cartridge length).registers.Holds cartridgeSlot
        (cartridge + UInt32.ofNat length) := by
  rw [finish]
  exact holds_setAddresses h _ _ _

end

/-- Failing does not move them. -/
private theorem holds_abort {p : PeripheralInterface} {slot : Nat} {w : UInt32}
    (hslot : statusSlot ≠ slot) (h : p.registers.Holds slot w) :
    p.abort.registers.Holds slot w := h.publish hslot _

end PeripheralInterface

namespace Bus

/-- A PI transfer is a copy, and then its end. -/
private theorem peripheralTransfer_toDram (copy : BlockCopy) (register : UInt32) (bus : Bus) :
    let s := DeviceStep.peripheralBegin.apply bus
    peripheralTransfer copy true register bus =
      match copy s.pi.cartridgeAddress s.pi.dramAddress
          (PeripheralInterface.transferLength register) s with
      | .ok _ t => .ok () ((DeviceStep.peripheralFinish s.pi.dramAddress s.pi.cartridgeAddress
          (PeripheralInterface.transferLength register)).apply t)
      | .error e t => .error e (DeviceStep.peripheralAbort.apply t) := by
  intro s
  cases hcopy : copy s.pi.cartridgeAddress s.pi.dramAddress
      (PeripheralInterface.transferLength register) s with
  | ok u t => exact bind_attempt_of_ok hcopy
  | error e t => exact bind_attempt_of_error hcopy

/-- The bus as the copy of a transfer finds it: the length is in its register, and the registers
show that the transfer has begun. -/
def transferBegun (bus : Bus) (v : UInt64) : Bus :=
  DeviceStep.peripheralBegin.apply
    (bus.storePeripheral PeripheralInterface.writeLengthSlot v.toUInt32)

/-- It is the bus from before, but for these registers. -/
private theorem transferBegun_eq (bus : Bus) (v : UInt64) :
    bus.transferBegun v = { bus with pi := (bus.transferBegun v).pi } := by
  simp only [transferBegun, DeviceStep.apply, storePeripheral]

/-- Bytes that the value stored in PI_WR_LEN asks for: the number in its low 24 bits, and one. -/
def fetchLength (v : UInt64) : Nat := (v.toUInt32 &&& 0x00FFFFFF).toNat + 1

/-- Where they go in main memory: the 24 bits of PI_DRAM_ADDR (register 0), and even. -/
def fetchTarget (bus : Bus) : UInt32 := bus.pi.registers.stored 0 &&& 0x00FFFFFE

/-- Where they come from: PI_CART_ADDR (register 1), and even. -/
def fetchSource (bus : Bus) : UInt32 := bus.pi.registers.stored 1 &&& 0xFFFFFFFE

/-- The device reads its registers in the same way: how much there is to move, -/
theorem transferLength_eq (v : UInt64) :
    PeripheralInterface.transferLength v.toUInt32 = fetchLength v := rfl

/-- where to, -/
theorem dramAddress_eq (bus : Bus) : bus.pi.dramAddress = bus.fetchTarget := rfl

/-- and where from. -/
theorem cartridgeAddress_eq (bus : Bus) : bus.pi.cartridgeAddress = bus.fetchSource := rfl

/-- A transfer from the cartridge is done.  The image starts at `0x10000000`; the status has the
busy flag `0x01` and the interrupt flag `0x08`, and MI_INTR the bit `0x10` for this interrupt. -/
structure Fetched (v : UInt64) (before after : Bus) : Prop where
  run : writeValue 0x0460000C 4 v before = .ok () after
  image : ∀ i < fetchLength v, before.fetchTarget.toNat + i < before.rdram.size →
    after.rdram.byteAt (before.fetchTarget.toNat + i) =
      BigEndian.byteAt before.cartridge.data (before.fetchSource.toNat + i - 0x10000000)
  others : ∀ n, (∀ i < fetchLength v, before.fetchTarget.toNat + i ≠ n) →
    after.rdram.byteAt n = before.rdram.byteAt n
  installed : after.rdram.size = before.rdram.size
  elsewhere : after =
    { before with rdram := after.rdram, writes := after.writes, pi := after.pi, mi := after.mi }
  dram : after.pi.registers.Holds 0
    ((before.fetchTarget + UInt32.ofNat (fetchLength v)) &&& 0x00FFFFFF)
  cartridge : after.pi.registers.Holds 1 (before.fetchSource + UInt32.ofNat (fetchLength v))
  status : after.pi.status = (before.pi.status &&& ~~~0x01) ||| 0x08
  pending : after.mi.pending = before.mi.pending ||| 0x10

/-- A transfer from the cartridge has failed. -/
structure FetchFailed (v : UInt64) (e : BusError) (before after : Bus) : Prop where
  run : writeValue 0x0460000C 4 v before = .error e after
  dram : after.pi.registers.Holds 0 before.fetchTarget
  cartridge : after.pi.registers.Holds 1 before.fetchSource
  status : after.pi.status = before.pi.status &&& ~~~0x01
  interrupts : after.mi = before.mi

/-- However long a transfer is and wherever it goes, it stays in the window of main memory. -/
private theorem fetch_span (bus : Bus) (v : UInt64) :
    bus.fetchTarget.toNat + fetchLength v ≤ Region.rdram.size := by
  have hdram : bus.fetchTarget.toNat ≤ 0x00FFFFFE := by
    rw [fetchTarget, UInt32.toNat_and]
    exact Nat.and_le_right
  have hlength : (v.toUInt32 &&& 0x00FFFFFF).toNat ≤ 0x00FFFFFF := by
    rw [UInt32.toNat_and]
    exact Nat.and_le_right
  rw [fetchLength, Region.size]
  omega

/-- The copy cannot reach these registers: it ends in main memory. -/
private theorem fetch_outcome (bus : Bus) (v : UInt64) :
    DramOutcome bus.fetchSource (fetchLength v) (bus.transferBegun v)
      (nestedCopy nestingLimit bus.fetchSource bus.fetchTarget (fetchLength v)
        (bus.transferBegun v)) := by
  obtain ⟨depth, hdepth⟩ := exists_nestingLimit
  rw [hdepth]
  exact copyThrough_toDram (nestedCopy depth) _ (fetch_span bus v) _

/-- The length does not move the addresses. -/
private theorem addresses_storeLength (bus : Bus) (w : UInt32) :
    let stored := bus.storePeripheral PeripheralInterface.writeLengthSlot w
    stored.fetchTarget = bus.fetchTarget ∧ stored.fetchSource = bus.fetchSource :=
  ⟨congrArg (· &&& 0x00FFFFFE) (RegisterMap.stored_of_ne _ (by decide) _),
    congrArg (· &&& 0xFFFFFFFE) (RegisterMap.stored_of_ne _ (by decide) _)⟩

section
variable {bus : Bus} (h : bus.Wired) (v : UInt64)
include h

/-- The registers are laid out as they were, -/
private theorem layout_storePeripheral (slot : Nat) (w : UInt32) :
    (bus.storePeripheral slot w).pi.registers.layout =
      PeripheralInterface.initial.registers.layout :=
  (RegisterMap.layout_setStored _ _ _ _).trans h.pi

/-- What the store of a length comes to: a copy, and then its end. -/
private theorem writeValue_fetch :
    writeValue 0x0460000C 4 v bus =
      match nestedCopy nestingLimit bus.fetchSource bus.fetchTarget (fetchLength v)
          (bus.transferBegun v) with
      | .ok _ t => .ok () ((DeviceStep.peripheralFinish bus.fetchTarget
          bus.fetchSource (fetchLength v)).apply t)
      | .error e t => .error e (DeviceStep.peripheralAbort.apply t) := by
  have hslot : PeripheralInterface.writeLengthSlot < PeripheralInterface.statusSlot := by decide
  have hshape := (peripheral_layout PeripheralInterface.writeLengthSlot hslot).1
  rw [← h.pi] at hshape
  have hvalue : (bus.storePeripheral PeripheralInterface.writeLengthSlot
      v.toUInt32).pi.registers.stored PeripheralInterface.writeLengthSlot = v.toUInt32 :=
    RegisterMap.stored_setStored hshape Nat.one_pos _
  -- Neither the length nor the begin of the transfer moves the addresses
  obtain ⟨hdram, hcartridge⟩ := addresses_storeLength bus v.toUInt32
  obtain ⟨hdram', hcartridge'⟩ := PeripheralInterface.addresses_begin
    (layout_storePeripheral h PeripheralInterface.writeLengthSlot v.toUInt32)
  have hrun := writeValue_peripheral h hslot v
  show writeValue (0x04600000 + UInt32.ofNat (4 * PeripheralInterface.writeLengthSlot)) 4 v bus = _
  rw [hrun]
  show peripheralTransfer (nestedCopy nestingLimit) true ((bus.storePeripheral
    PeripheralInterface.writeLengthSlot v.toUInt32).pi.registers.stored
      PeripheralInterface.writeLengthSlot) (bus.storePeripheral _ v.toUInt32) = _
  rw [hvalue, peripheralTransfer_toDram]
  simp only [DeviceStep.apply, hdram', hcartridge', dramAddress_eq, cartridgeAddress_eq,
    transferLength_eq, hdram, hcartridge]
  rfl

/-- While the copy goes on, the registers show what they showed, and the busy flag. -/
private theorem status_transferBegun :
    (bus.transferBegun v).pi.status = bus.pi.status ||| PeripheralInterface.busyFlag := by
  have hkept : (bus.storePeripheral PeripheralInterface.writeLengthSlot v.toUInt32).pi.status =
      bus.pi.status := RegisterMap.visible_of_ne _ (by decide) _
  rw [← hkept]
  exact PeripheralInterface.status_begin (layout_storePeripheral h _ _)

/-- and so they are once the transfer has begun. -/
private theorem layout_transferBegun :
    (bus.transferBegun v).pi.registers.layout =
      PeripheralInterface.initial.registers.layout := by
  simp only [transferBegun, DeviceStep.apply, PeripheralInterface.begin,
    PeripheralInterface.publishStatus, PeripheralInterface.setAddresses, RegisterMap.layout_publish,
    RegisterMap.layout_set, layout_storePeripheral h]

/-- The addresses are in their registers while the copy goes on. -/
private theorem holds_transferBegun :
    (bus.transferBegun v).pi.registers.Holds PeripheralInterface.dramSlot bus.fetchTarget ∧
      (bus.transferBegun v).pi.registers.Holds PeripheralInterface.cartridgeSlot
        bus.fetchSource := by
  obtain ⟨hdram, hcartridge⟩ := addresses_storeLength bus v.toUInt32
  rw [← hdram, ← hcartridge]
  exact PeripheralInterface.holds_begin (layout_storePeripheral h _ _)

/-- If the copy fails, the addresses stay and nothing is signalled. -/
private theorem fetchFailed_of_error {e : BusError} {t : Bus}
    (hcopy : nestedCopy nestingLimit bus.fetchSource bus.fetchTarget (fetchLength v)
      (bus.transferBegun v) = .error e t) :
    FetchFailed v e bus (DeviceStep.peripheralAbort.apply t) := by
  have houtcome := fetch_outcome bus v
  rw [hcopy] at houtcome
  cases houtcome with
  -- The abort begins from a bus that differs from the one before in main memory alone
  | aborted hframe _ =>
    obtain ⟨hdram, hcartridge⟩ := holds_transferBegun h v
    have hlayout := layout_transferBegun h v
    have hstatus := status_transferBegun h v
    have hmi : (bus.transferBegun v).mi = bus.mi := by rw [transferBegun_eq]
    rw [← hframe.pi] at hdram hcartridge hlayout hstatus
    have hdone : t.pi.abort.status = t.pi.status &&& ~~~PeripheralInterface.busyFlag :=
      PeripheralInterface.status_publishStatus hlayout _
    rw [hstatus, set_clear] at hdone
    exact
      { run := by rw [writeValue_fetch h v, hcopy]
        dram := PeripheralInterface.holds_abort (by decide) hdram
        cartridge := PeripheralInterface.holds_abort (by decide) hcartridge
        status := hdone
        interrupts := hframe.mi.trans hmi }

end

/-! ## Transfers from the cartridge domain -/

/-- The bytes that a transfer moves lie in main memory. -/
private theorem toNat_fetchTarget (bus : Bus) (v : UInt64) {i : Nat} (hi : i < fetchLength v) :
    (bus.fetchTarget + UInt32.ofNat i).toNat = bus.fetchTarget.toNat + i ∧
      Region.rdram.contains (bus.fetchTarget + UInt32.ofNat i).toNat = true := by
  have hspan := fetch_span bus v
  have hbase : Region.rdram.base + bus.fetchTarget.toNat = bus.fetchTarget.toNat :=
    Nat.zero_add _
  have hplace := toNat_add_inside hbase (by omega : bus.fetchTarget.toNat + i ≤ _)
  have hcontains := contains_inside hplace (by omega)
  rw [← Nat.add_assoc, hbase] at hplace
  exact ⟨hplace.symm, hcontains⟩

/-- All of the source lies in the cartridge domain, from `0x10000000` to below `0x1FC00000`. -/
def FromCartridge (bus : Bus) (v : UInt64) : Prop :=
  0x10000000 ≤ bus.fetchSource.toNat ∧ bus.fetchSource.toNat + fetchLength v ≤ 0x1FC00000

/-- That is the window of the cartridge. -/
theorem FromCartridge.window {bus : Bus} {v : UInt64} (h : bus.FromCartridge v) :
    Region.cartridge.base ≤ bus.fetchSource.toNat ∧
      bus.fetchSource.toNat + fetchLength v ≤ Region.cartridge.stop := h

section
variable {bus : Bus} {v : UInt64} (hsource : bus.FromCartridge v)
include hsource

/-- So the source does not go around the address space. -/
private theorem toNat_fetchSource {i : Nat} (hi : i < fetchLength v) :
    (bus.fetchSource + UInt32.ofNat i).toNat = bus.fetchSource.toNat + i ∧
      Region.cartridge.contains (bus.fetchSource + UInt32.ofNat i).toNat = true := by
  obtain ⟨hbase, hstop⟩ := hsource.window
  rw [Region.stop] at hstop
  have hoffset : Region.cartridge.base +
      (bus.fetchSource.toNat - Region.cartridge.base) = bus.fetchSource.toNat :=
    Nat.add_sub_cancel' hbase
  have hplace := toNat_add_inside hoffset
    (by omega : bus.fetchSource.toNat - Region.cartridge.base + i ≤ _)
  have hcontains := contains_inside hplace (by omega)
  rw [← Nat.add_assoc, hoffset] at hplace
  exact ⟨hplace.symm, hcontains⟩

/-- The bytes there are those of the image, and zeros past its end. -/
private theorem byteOn_fetchSource {s : Bus} {i : Nat} (hi : i < fetchLength v) :
    s.byteOn (bus.fetchSource + UInt32.ofNat i) =
      BigEndian.byteAt s.cartridge.data (bus.fetchSource.toNat + i - 0x10000000) := by
  obtain ⟨haddress, hcontains⟩ := toNat_fetchSource hsource hi
  have hbyte : ∀ n, s.byteOf .cartridge n = BigEndian.byteAt s.cartridge.data n := fun _ => rfl
  simp only [byteOn, Region.resolve_of_contains hcontains, hbyte, haddress]
  rfl

/-- All of it is memory that code may be read from, and answers. -/
private theorem fetchSource_code {i : Nat} (hi : i < fetchLength v) :
    inCodeMemory (bus.fetchSource + UInt32.ofNat i) = true ∧
      Mapped (bus.fetchSource + UInt32.ofNat i) := by
  obtain ⟨haddress, hcontains⟩ := toNat_fetchSource hsource hi
  refine ⟨?_, _, Region.resolve_of_contains hcontains⟩
  rw [inCodeMemory, hcontains, Bool.or_true]

/-- From there to main memory can be copied, and nothing is missing. -/
private theorem copyable_fetch :
    Copyable bus.fetchSource bus.fetchTarget (fetchLength v) ∧
      ∀ i < fetchLength v, BothMapped bus.fetchSource bus.fetchTarget i := by
  have htarget := fun i => toNat_fetchTarget bus v (i := i)
  constructor
  · apply Copyable.of_code
    · exact fun i hi => .inl (fetchSource_code hsource hi).1
    · intro i hi
      rw [inCodeMemory, (htarget i hi).2]
      exact .inl (Bool.true_or _)
    · intro i hi k hk heq
      -- The one lies in the cartridge and the other one in main memory
      have hspan := fetch_span bus v
      have hsame := congrArg UInt32.toNat heq
      rw [(toNat_fetchSource hsource hi).1, (htarget k hk).1] at hsame
      obtain ⟨hbase, -⟩ := hsource
      simp only [Region.size] at hspan
      omega
  · intro i hi
    exact ⟨(fetchSource_code hsource hi).2, _, Region.resolve_of_contains (htarget i hi).2⟩

/-- So the copy is carried out. -/
private theorem exists_copied :
    ∃ t, nestedCopy nestingLimit bus.fetchSource bus.fetchTarget (fetchLength v)
        (bus.transferBegun v) = .ok () t ∧
      Copied bus.fetchSource bus.fetchTarget (fetchLength v) (bus.transferBegun v)
        t := by
  obtain ⟨hcopyable, hall⟩ := copyable_fetch hsource
  obtain ⟨depth, hdepth⟩ := exists_nestingLimit
  rw [hdepth]
  exact (copyThrough_outcome (nestedCopy depth) hcopyable (bus.transferBegun v)).of_mapped hall

/-- The bytes that have arrived are those of the image, and nothing else has changed. -/
private theorem bytes_of_copied {t : Bus}
    (hcopied : Copied bus.fetchSource bus.fetchTarget (fetchLength v)
      (bus.transferBegun v) t) :
    (∀ i < fetchLength v, bus.fetchTarget.toNat + i < bus.rdram.size →
      t.rdram.byteAt (bus.fetchTarget.toNat + i) = BigEndian.byteAt bus.cartridge.data
        (bus.fetchSource.toNat + i - 0x10000000)) ∧
    ∀ n, (∀ i < fetchLength v, bus.fetchTarget.toNat + i ≠ n) →
      t.rdram.byteAt n = bus.rdram.byteAt n := by
  have hrdram : (bus.transferBegun v).rdram = bus.rdram := by rw [transferBegun_eq]
  have hdata : (bus.transferBegun v).cartridge = bus.cartridge := by rw [transferBegun_eq]
  constructor
  · intro i hi hinstalled
    obtain ⟨haddress, hcontains⟩ := toNat_fetchTarget bus v hi
    obtain ⟨hcode, hmapped⟩ := fetchSource_code hsource hi
    have harrived := hcopied.arrived i hi hcontains (by rw [haddress, hrdram]; exact hinstalled)
    -- Memory of the cartridge answers without a side effect, so that the load is a read of its byte
    rw [read_byteOn (quiet_of_inCodeMemory hcode) hmapped, byteOn_fetchSource hsource hi, haddress,
      answerOf, Option.some_inj, List.cons.injEq, hdata] at harrived
    exact harrived.1.symm
  · intro n hn
    rw [← hrdram]
    -- A byte that lies elsewhere is not the destination of any byte of the copy
    apply hcopied.others n
    intro i hi _
    rw [(toNat_fetchTarget bus v hi).1]
    exact hn i hi

end

section
variable {bus : Bus} (h : bus.Wired) {v : UInt64}
include h

/-- The bytes of the image are in main memory, the addresses have moved on and the interrupt is
raised. -/
private theorem exists_fetched (hsource : bus.FromCartridge v) : ∃ t, Fetched v bus t := by
  obtain ⟨t, hcopy, hcopied⟩ := exists_copied hsource
  obtain ⟨himage, hothers⟩ := bytes_of_copied hsource hcopied
  -- But for main memory and the log, the copy has left what the transfer had begun with
  have helsewhere : t = { bus with
      rdram := t.rdram, writes := t.writes, pi := (bus.transferBegun v).pi } := by
    rw [transferBegun_eq] at hcopied
    exact hcopied.elsewhere
  have hinstalled : t.rdram.size = bus.rdram.size := by
    rw [hcopied.installed, transferBegun_eq]
  have hpi : t.pi = (bus.transferBegun v).pi := by rw [helsewhere]
  have hmi : t.mi = bus.mi := by rw [helsewhere]
  have hlayout := layout_transferBegun h v
  have hstatus := status_transferBegun h v
  rw [← hpi] at hlayout hstatus
  obtain ⟨hdram, hcartridge⟩ := PeripheralInterface.holds_finish hlayout bus.fetchTarget
    bus.fetchSource (fetchLength v)
  have hdone := PeripheralInterface.status_finish hlayout bus.fetchTarget
    bus.fetchSource (fetchLength v)
  rw [hstatus, set_clear] at hdone
  have hpending : (t.mi.raise .pi).pending = bus.mi.pending ||| Interrupt.pi.bit := by
    rw [hmi]
    exact MipsInterface.pending_raise h.mi .pi
  exact ⟨(DeviceStep.peripheralFinish bus.fetchTarget bus.fetchSource
      (fetchLength v)).apply t,
    { run := by rw [writeValue_fetch h v, hcopy]
      image := himage
      others := hothers
      installed := hinstalled
      elsewhere := congrArg (fun s : Bus => { s with
        pi := t.pi.finish bus.fetchTarget bus.fetchSource (fetchLength v)
        mi := t.mi.raise .pi }) helsewhere
      dram := hdram
      cartridge := hcartridge
      status := hdone
      pending := hpending }⟩

/-- A store of the length that fails is a copy that does. -/
private theorem fetchFailed_of_run {e : BusError} {t : Bus}
    (hrun : writeValue 0x0460000C 4 v bus = .error e t) : FetchFailed v e bus t := by
  have htransfer := writeValue_fetch h v
  rw [hrun] at htransfer
  -- The store fails only if its copy does
  cases hcopy : nestedCopy nestingLimit bus.fetchSource bus.fetchTarget (fetchLength v)
      (bus.transferBegun v) with
  | ok u s =>
    rw [hcopy] at htransfer
    exact nomatch htransfer
  | error e' s =>
    rw [hcopy] at htransfer
    cases htransfer
    exact fetchFailed_of_error h v hcopy

/-- A word stored in the register for lengths has the bytes of the cartridge copied to main
memory, whatever is in the registers.  If all of them lie in the cartridge domain, they are
copied, the addresses move on and the interrupt is raised.  If some of the source is unmapped, the
copy fails; if the copy fails, its error is the answer; and whenever there is an error, the
addresses stay and nothing is signalled. -/
theorem cartridge_fetch (v : UInt64) :
    (bus.FromCartridge v → ∃ t, Fetched v bus t) ∧
    ((∃ i < fetchLength v, Unmapped (bus.fetchSource + UInt32.ofNat i)) →
      ∃ e s, nestedCopy nestingLimit bus.fetchSource bus.fetchTarget (fetchLength v)
        (bus.transferBegun v) = .error e s) ∧
    (∀ e s, nestedCopy nestingLimit bus.fetchSource bus.fetchTarget (fetchLength v)
        (bus.transferBegun v) = .error e s → ∃ t, FetchFailed v e bus t) ∧
    ∀ e t, writeValue 0x0460000C 4 v bus = .error e t → FetchFailed v e bus t := by
  refine ⟨exists_fetched h, ?_, fun e s hcopy => ⟨_, fetchFailed_of_error h v hcopy⟩,
    fun e t => fetchFailed_of_run h⟩
  rintro ⟨i, hi, hun⟩
  have houtcome := fetch_outcome bus v
  generalize nestedCopy nestingLimit _ _ _ _ = result at houtcome ⊢
  cases houtcome with
  | complete _ hmapped => exact absurd hun (hmapped i hi).not_unmapped
  | aborted _ _ => exact ⟨_, _, rfl⟩

end

/-- Thirty-two bytes to the end of installed memory: from the start of the cartridge, where they
arrive, and from where nothing answers. -/
theorem cartridge_fetch_small :
    let bus := fun source => ((Bus.initial .smallest 0x120).storePeripheral 0
      0x101).storePeripheral 1 source
    (bus 0x10000001).fetchTarget = 0x100 ∧ (bus 0x10000001).fetchSource = 0x10000000 ∧
      fetchLength 31 = 32 ∧ (∃ t, Fetched 31 (bus 0x10000001) t) ∧
      ∃ e t, FetchFailed 31 e (bus 0x05000000) t := by
  intro bus
  have hwired : ∀ source, (bus source).Wired := by
    intro source
    exact ((wired_initial .smallest 0x120).storePeripheral _ _).storePeripheral _ _
  have hfrom : (bus 0x10000001).FromCartridge 31 := by
    rw [FromCartridge]
    decide +kernel
  have hfirst : (bus 0x05000000).fetchSource + UInt32.ofNat 0 = 0x05000000 := by
    decide +kernel
  refine ⟨by decide +kernel, by decide +kernel, by decide,
    (cartridge_fetch (hwired 0x10000001) 31).1 hfrom, ?_⟩
  obtain ⟨-, hunmapped, hfailed, -⟩ := cartridge_fetch (hwired 0x05000000) 31
  obtain ⟨e, s, hcopy⟩ := hunmapped ⟨0, by decide, by rw [hfirst]; rfl⟩
  exact ⟨e, hfailed e s hcopy⟩

end Bus

end Console64

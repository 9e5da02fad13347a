import Console64.Device.MipsInterface
import Mathlib.Tactic.IntervalCases

/-!
# Layouts of register maps

Which registers a device has is settled when it is made; afterwards only the words in them
change.  This file takes the words away: what is left is the layout, which no store and no device
changes, and which alone tells where an address leads and what a store touches.

## Key results

- `RegisterMap.layout_store`, `RegisterMap.layout_modifyBlock`: the layout stays
- `RegisterMap.touched_congr`: the layout tells which registers a store touches
- `RegisterMap.store_word`: a word stored into a register replaces what was stored there
-/

namespace Console64

namespace BigEndian

/-- The four bytes of a word, the highest first. -/
theorem bytes_four (v : UInt64) :
    bytes 4 v = [(v >>> 24).toUInt8, (v >>> 16).toUInt8, (v >>> 8).toUInt8, v.toUInt8] := by
  simp [bytes]

/-- Four lanes of a word replaced by the bytes of another one. -/
theorem setLane_bytes (w : UInt32) (v : UInt64) :
    setLane (setLane (setLane (setLane w 0 (v >>> 24).toUInt8) 1 (v >>> 16).toUInt8) 2
      (v >>> 8).toUInt8) 3 v.toUInt8 = v.toUInt32 := by
  apply UInt32.toBitVec_inj.mp
  ext i hi
  simp only [setLane]
  -- Bit by bit; the bytes are not to be merged into the word before that
  interval_cases i <;> simp [-UInt64.toUInt32_toUInt8]

end BigEndian

namespace RegisterBlock

/-- A byte stored in a block does not change its size, -/
@[simp] theorem size_storeByte (b : RegisterBlock) (offset : Nat) (byte : UInt8) :
    (b.storeByte offset byte).size = b.size := by
  unfold storeByte
  split <;> rfl

/-- its access, -/
@[simp] theorem access_storeByte (b : RegisterBlock) (offset : Nat) (byte : UInt8) :
    (b.storeByte offset byte).access = b.access := by
  unfold storeByte
  split <;> rfl

/-- or whether it has a second copy of its words. -/
@[simp] theorem buffering_storeByte (b : RegisterBlock) (offset : Nat) (byte : UInt8) :
    (b.storeByte offset byte).words.buffering = b.words.buffering := by
  by_cases h : b.access = .readOnly
  · rw [storeByte, if_pos h]
  · rw [storeByte, if_neg h]
    exact RegisterWords.buffering_onStored _ _

/-- With two copies of each word, or none that can be stored to, a store is not seen. -/
theorem visible_storeByte {b : RegisterBlock} (h : b.words.buffering = .dual ∨ b.access = .readOnly)
    (offset : Nat) (byte : UInt8) (index : Nat) :
    (b.storeByte offset byte).visible index = b.visible index := by
  by_cases haccess : b.access = .readOnly
  · rw [storeByte, if_pos haccess]
  · have hdual := h.resolve_right haccess
    rw [storeByte, if_neg haccess]
    cases hwords : b.words with
    | single words =>
      rw [hwords] at hdual
      exact nomatch hdual
    | dual visible stored => simp only [RegisterBlock.visible, hwords, RegisterWords.onStored,
        RegisterWords.visible]

/-- Four bytes stored into the first word of a block replace what was stored there. -/
theorem storeByte_word (b : RegisterBlock) (hsize : 0 < b.size) (haccess : b.access ≠ .readOnly)
    (v : UInt64) :
    (((b.storeByte 0 (v >>> 24).toUInt8).storeByte 1 (v >>> 16).toUInt8).storeByte 2
      (v >>> 8).toUInt8).storeByte 3 v.toUInt8 = b.setStored 0 v.toUInt32 := by
  obtain ⟨name, size, words, access⟩ := b
  have hbyte : ∀ (words : RegisterWords size) (offset : Nat) (byte : UInt8),
      storeByte ⟨name, size, words, access⟩ offset byte =
        ⟨name, size, words.onStored fun ws =>
          ws.setIfInBounds (offset / 4)
            (BigEndian.setLane (ws[offset / 4]?.getD 0) (offset % 4) byte), access⟩ :=
    fun _ _ _ => if_neg haccess
  rw [hbyte, hbyte, hbyte, hbyte]
  -- Each byte finds what the one before it has left in the word
  simp only at hsize
  cases words <;> simp [setStored, RegisterWords.onStored, hsize, BigEndian.setLane_bytes]

end RegisterBlock

/-! ## Shapes -/

/-- A register block without its words. -/
structure RegisterShape where
  base : Nat
  size : Nat
  buffering : Buffering
  access : RegisterAccess
  deriving DecidableEq, Repr

namespace RegisterShape

/-- First offset past the block. -/
def stop (s : RegisterShape) : Nat := s.base + 4 * s.size

/-- `offset` lies in the block. -/
def contains (s : RegisterShape) (offset : Nat) : Bool := s.base ≤ offset && offset < s.stop

/-- The block shares a byte with `[start, stop)`. -/
def overlaps (s : RegisterShape) (start stop : Nat) : Bool := start < s.stop && s.base < stop

/-- Stores to the block are not seen: they go to the other copy, or nowhere. -/
def hidesStores (s : RegisterShape) : Bool := s.buffering = .dual || s.access = .readOnly

end RegisterShape

/-- Where the block lies, and what it is. -/
def RegisterSlot.shape (s : RegisterSlot) : RegisterShape where
  base := s.base
  size := s.block.size
  buffering := s.block.words.buffering
  access := s.block.access

namespace RegisterMap

/-- The registers of a device, without their words. -/
def layout (m : RegisterMap) : Array RegisterShape := m.slots.map (·.shape)

/-- A change of the words of one block leaves the layout alone. -/
theorem layout_modify {m : RegisterMap} {slot : Nat} {f : RegisterSlot → RegisterSlot}
    (h : ∀ s, (f s).shape = s.shape) :
    layout { m with slots := m.slots.modify slot f } = m.layout := by
  apply Array.ext_getElem?
  intro i
  simp only [layout, Array.getElem?_map, Array.getElem?_modify]
  split
  · cases m.slots[i]? with
    | none => rfl
    | some s => exact congrArg some (h s)
  · rfl

/-- So does a change of the block that keeps its shape: -/
theorem layout_modifyBlock (m : RegisterMap) (slot : Nat) {f : RegisterBlock → RegisterBlock}
    (h : ∀ s : RegisterSlot, RegisterSlot.shape { s with block := f s.block } = s.shape) :
    (m.modifyBlock slot f).layout = m.layout := layout_modify h

/-- a word that is stored, -/
@[simp] theorem layout_setStored (m : RegisterMap) (slot index : Nat) (value : UInt32) :
    (m.modifyBlock slot (·.setStored index value)).layout = m.layout := by
  refine layout_modifyBlock m slot fun s => ?_
  simp only [RegisterSlot.shape, RegisterBlock.setStored, RegisterWords.buffering_onStored]

/-- one that is published, -/
@[simp] theorem layout_publish (m : RegisterMap) (slot : Nat) (value : UInt32) :
    (m.publish slot value).layout = m.layout := by
  refine layout_modifyBlock m slot fun s => ?_
  simp only [RegisterSlot.shape, RegisterBlock.publish, RegisterWords.buffering_onVisible]

/-- one that is set on both sides, -/
@[simp] theorem layout_set (m : RegisterMap) (slot : Nat) (value : UInt32) :
    (m.set slot value).layout = m.layout := by
  refine layout_modifyBlock m slot fun s => ?_
  simp only [RegisterSlot.shape, RegisterBlock.set, RegisterBlock.publish, RegisterBlock.setStored,
    RegisterWords.buffering_onVisible, RegisterWords.buffering_onStored]

/-- a byte, -/
@[simp] theorem layout_storeByte (m : RegisterMap) (offset : Nat) (byte : UInt8) :
    (m.storeByte offset byte).layout = m.layout := by
  unfold storeByte
  split
  · refine layout_modify fun s => ?_
    simp only [RegisterSlot.shape, RegisterBlock.size_storeByte, RegisterBlock.access_storeByte,
      RegisterBlock.buffering_storeByte]
  · rfl

/-- and several. -/
@[simp] theorem layout_store (m : RegisterMap) (offset : Nat) (data : List UInt8) :
    (m.store offset data).layout = m.layout := by
  induction data generalizing m offset with
  | nil => rfl
  | cons byte rest ih => rw [store, ih, layout_storeByte]

/-- What the layout tells of a register is true of it. -/
theorem exists_slot {m : RegisterMap} {slot : Nat} {shape : RegisterShape}
    (h : m.layout[slot]? = some shape) : ∃ s, m.slots[slot]? = some s ∧ s.shape = shape := by
  simpa only [layout, Array.getElem?_map, Option.map_eq_some_iff] using h

/-- Which register holds a byte depends on the layout alone. -/
theorem locate_eq (m : RegisterMap) (offset : Nat) :
    m.locate offset = m.layout.findIdx? (·.contains offset) := by
  rw [layout, Array.findIdx?_map]
  rfl

/-- Maps that are laid out alike have the byte in the same register, -/
theorem locate_congr {m m' : RegisterMap} (h : m.layout = m'.layout) (offset : Nat) :
    m.locate offset = m'.locate offset := by
  rw [locate_eq, locate_eq, h]

/-- So does what a store touches: the registers that the layout has there, in order. -/
theorem touched_eq (m : RegisterMap) (offset length : Nat) :
    m.touched offset length = (List.range m.layout.size).filter fun i =>
      (m.layout[i]?).any (·.overlaps offset (offset + length)) := by
  simp only [touched, layout, Array.size_map, Array.getElem?_map, Option.any_map]
  rfl

/-- and a store touches the same registers of both. -/
theorem touched_congr {m m' : RegisterMap} (h : m.layout = m'.layout) (offset length : Nat) :
    m.touched offset length = m'.touched offset length := by
  rw [touched_eq, touched_eq, h]

/-- The layout tells whether a register is among them. -/
theorem mem_touched_of_layout {m : RegisterMap} {slot : Nat} {shape : RegisterShape}
    (h : m.layout[slot]? = some shape) (offset length : Nat) :
    slot ∈ m.touched offset length ↔ shape.overlaps offset (offset + length) = true := by
  have hlt : slot < m.layout.size := (Array.getElem?_eq_some_iff.mp h).1
  simp only [touched_eq, List.mem_filter, List.mem_range, hlt, true_and, h, Option.any_some]

/-! ## One-word stores -/

/-- A register changed twice is changed once, by both changes. -/
theorem modify_modify (slots : Array RegisterSlot) (slot : Nat)
    (f g : RegisterSlot → RegisterSlot) :
    (slots.modify slot f).modify slot g = slots.modify slot fun s => g (f s) := by
  apply Array.ext_getElem?
  intro i
  simp only [Array.getElem?_modify]
  split
  · simp only [Option.map_map, Function.comp_def]
  · rfl

/-- A byte is stored into the register that it is located in. -/
theorem storeByte_of_locate {m : RegisterMap} {offset slot : Nat} (h : m.locate offset = some slot)
    (byte : UInt8) :
    m.storeByte offset byte =
      { m with
        slots := m.slots.modify slot fun s =>
          { s with block := s.block.storeByte (offset - s.base) byte } } := by
  rw [storeByte, h]

/-- A word stored at the start of a register replaces what was stored there. -/
theorem store_word {m : RegisterMap} {slot : Nat} {shape : RegisterShape}
    (h : m.layout[slot]? = some shape) (hsize : 0 < shape.size) (haccess : shape.access ≠ .readOnly)
    (hlocate : ∀ i < 4, m.locate (shape.base + i) = some slot) (v : UInt64) :
    m.store shape.base (BigEndian.bytes 4 v) = m.modifyBlock slot (·.setStored 0 v.toUInt32) := by
  obtain ⟨s, hslot, rfl⟩ := exists_slot h
  have hlocated : ∀ m' : RegisterMap, m'.layout = m.layout → ∀ i < 4,
      m'.locate (s.base + i) = some slot := fun m' hm i hi =>
    (locate_congr hm _).trans (hlocate i hi)
  show m.store s.base (BigEndian.bytes 4 v) = _
  simp only [BigEndian.bytes_four, store]
  -- All four bytes go to the same register
  rw [storeByte_of_locate (hlocated _ (by simp only [layout_storeByte]) 3 (by omega)),
    storeByte_of_locate (hlocated _ (by simp only [layout_storeByte]) 2 (by omega)),
    storeByte_of_locate (hlocated _ (by simp only [layout_storeByte]) 1 (by omega)),
    storeByte_of_locate (show m.locate s.base = some slot from hlocated m rfl 0 (by omega))]
  simp only [modify_modify, modifyBlock]
  congr 1
  apply Array.ext_getElem?
  intro i
  simp only [Array.getElem?_modify]
  split
  case isFalse => rfl
  case isTrue heq =>
    subst heq
    rw [hslot, Option.map_some, Option.map_some, ← s.block.storeByte_word hsize haccess]
    simp only [Nat.sub_self, Nat.add_sub_cancel_left]

/-! ## What a register holds -/

/-- The registers once one of them has been changed. -/
theorem slots_modifyBlock (m : RegisterMap) (slot other : Nat) (f : RegisterBlock → RegisterBlock) :
    (m.modifyBlock slot f).slots[other]? =
      if slot = other then (m.slots[other]?).map fun s => { s with block := f s.block }
      else m.slots[other]? := Array.getElem?_modify

/-- What another register has stored stays as it was, -/
theorem stored_of_ne (m : RegisterMap) {slot other : Nat} (h : slot ≠ other)
    (f : RegisterBlock → RegisterBlock) :
    (m.modifyBlock slot f).stored other = m.stored other := by
  rw [stored, slots_modifyBlock, if_neg h, stored]

/-- and so does what is seen of it. -/
theorem visible_of_ne (m : RegisterMap) {slot other : Nat} (h : slot ≠ other)
    (f : RegisterBlock → RegisterBlock) :
    (m.modifyBlock slot f).visible other = m.visible other := by
  rw [visible, slots_modifyBlock, if_neg h, visible]

/-- What is stored is there. -/
theorem stored_setStored {m : RegisterMap} {slot : Nat} {shape : RegisterShape}
    (h : m.layout[slot]? = some shape) (hsize : 0 < shape.size) (value : UInt32) :
    (m.modifyBlock slot (·.setStored 0 value)).stored slot = value := by
  obtain ⟨s, hslot, rfl⟩ := exists_slot h
  have hsome : 0 < s.block.size := hsize
  rw [stored, slots_modifyBlock, if_pos rfl, hslot]
  simp [RegisterBlock.stored, RegisterBlock.setStored, hsome]

/-- What is seen of such a register is not changed by stores. -/
theorem visible_storeByte {m : RegisterMap} {slot : Nat} {shape : RegisterShape}
    (h : m.layout[slot]? = some shape) (hhides : shape.hidesStores = true) (offset : Nat)
    (byte : UInt8) : (m.storeByte offset byte).visible slot = m.visible slot := by
  obtain ⟨s, hslot, rfl⟩ := exists_slot h
  unfold storeByte
  split
  case h_2 => rfl
  case h_1 other _ =>
    simp only [visible, Array.getElem?_modify]
    split
    case isFalse => rfl
    -- A store goes to the copy that is not shown, or is not let in
    case isTrue heq =>
      have hkept : s.block.words.buffering = .dual ∨ s.block.access = .readOnly :=
        (Bool.or_eq_true_iff.mp hhides).imp of_decide_eq_true of_decide_eq_true
      rw [hslot]
      exact RegisterBlock.visible_storeByte hkept _ _ _

/-- So it is with several bytes. -/
theorem visible_store {m : RegisterMap} {slot : Nat} {shape : RegisterShape}
    (h : m.layout[slot]? = some shape) (hhides : shape.hidesStores = true) (offset : Nat)
    (data : List UInt8) : (m.store offset data).visible slot = m.visible slot := by
  induction data generalizing m offset with
  | nil => rfl
  | cons byte rest ih =>
    rw [store, ih (by rw [layout_storeByte]; exact h), visible_storeByte h hhides]

/-- What is published is seen. -/
theorem visible_publish {m : RegisterMap} {slot : Nat} {shape : RegisterShape}
    (h : m.layout[slot]? = some shape) (hsize : 0 < shape.size) (value : UInt32) :
    (m.publish slot value).visible slot = value := by
  obtain ⟨s, hslot, rfl⟩ := exists_slot h
  have hsome : 0 < s.block.size := hsize
  rw [visible, publish, slots_modifyBlock, if_pos rfl, hslot]
  simp [RegisterBlock.visible, RegisterBlock.publish, hsome]

/-- Both sides of the register hold the value: what was stored and what is seen. -/
def Holds (m : RegisterMap) (slot : Nat) (value : UInt32) : Prop :=
  m.stored slot = value ∧ m.visible slot = value

/-- Both sides are set. -/
theorem holds_set {m : RegisterMap} {slot : Nat} {shape : RegisterShape}
    (h : m.layout[slot]? = some shape) (hsize : 0 < shape.size) (value : UInt32) :
    (m.set slot value).Holds slot value := by
  obtain ⟨s, hslot, rfl⟩ := exists_slot h
  have hsome : 0 < s.block.size := hsize
  rw [Holds, stored, visible, set, slots_modifyBlock, if_pos rfl, hslot]
  constructor
  · simp [RegisterBlock.stored, RegisterBlock.set, RegisterBlock.publish, RegisterBlock.setStored,
      hsome]
  · cases hwords : s.block.words <;>
      simp [RegisterBlock.visible, RegisterBlock.set, RegisterBlock.publish,
        RegisterBlock.setStored, RegisterWords.onVisible, RegisterWords.onStored,
        RegisterWords.visible, hwords, hsome]

/-- A register is not concerned with changes of others. -/
theorem Holds.of_ne {m : RegisterMap} {slot other : Nat} {value : UInt32}
    (h : m.Holds other value) (hne : slot ≠ other) (f : RegisterBlock → RegisterBlock) :
    (m.modifyBlock slot f).Holds other value :=
  ⟨(stored_of_ne m hne f).trans h.1, (visible_of_ne m hne f).trans h.2⟩

/-- Another register may be set, -/
theorem Holds.set {m : RegisterMap} {slot other : Nat} {value : UInt32} (h : m.Holds other value)
    (hne : slot ≠ other) (w : UInt32) : (m.set slot w).Holds other value := h.of_ne hne _

/-- and another one published. -/
theorem Holds.publish {m : RegisterMap} {slot other : Nat} {value : UInt32}
    (h : m.Holds other value) (hne : slot ≠ other) (w : UInt32) :
    (m.publish slot w).Holds other value := h.of_ne hne _

end RegisterMap

end Console64

import Console64.Proofs.RegisterLayout

/-!
# Bytes in registers

Registers are words, and the bus stores bytes into them: one lane of a word is replaced, in the
register that the byte is located in.  Where loads see what has been stored, the registers are
like any other memory: a byte that is stored is there, and no other byte has changed.

## Key results

- `BigEndian.lane_setLane`: a lane that is replaced is there, and the other ones are kept
- `RegisterMap.byteAt_storeByte`: so it is with a byte of the registers
- `RegisterMap.value_load_word`: a word loaded from a register is what the register shows
-/

namespace Console64

namespace BigEndian

/-- The shift to a lane is one of those that a word has. -/
private theorem toNat_laneShift (i : Nat) :
    ((UInt32.ofNat (8 * (3 - i))).toBitVec % 32).toNat = 8 * (3 - i) := by
  show 8 * (3 - i) % 2 ^ 32 % 32 = 8 * (3 - i)
  omega

/-- A lane holds the bits from where it starts. -/
private theorem getLsbD_lane (w : UInt32) {i k : Nat} (hk : k < 8) :
    (lane w i).toBitVec.getLsbD k = w.toBitVec.getLsbD (8 * (3 - i) + k) := by
  rw [lane, UInt32.toBitVec_toUInt8, BitVec.getLsbD_setWidth, decide_eq_true hk, Bool.true_and,
    UInt32.toBitVec_shiftRight, BitVec.ushiftRight_eq', toNat_laneShift,
    BitVec.getLsbD_ushiftRight]

/-- In a word with one lane replaced, these bits are the byte's. -/
private theorem getLsbD_setLane (w : UInt32) (byte : UInt8) {i k : Nat} (hk : k < 32) :
    (setLane w i byte).toBitVec.getLsbD k =
      if 8 * (3 - i) ≤ k ∧ k < 8 * (3 - i) + 8 then byte.toBitVec.getLsbD (k - 8 * (3 - i))
      else w.toBitVec.getLsbD k := by
  have hmask : ∀ n, (0xFF : UInt32).toBitVec.getLsbD n = decide (n < 8) := by
    intro n
    show (2 ^ 8 - 1 : Nat).testBit n = decide (n < 8)
    exact Nat.testBit_two_pow_sub_one 8 n
  have hbyte : ∀ n < 32, byte.toUInt32.toBitVec.getLsbD n = byte.toBitVec.getLsbD n := by
    intro n hn
    rw [UInt8.toBitVec_toUInt32, BitVec.getLsbD_setWidth, decide_eq_true hn, Bool.true_and]
  simp only [setLane, UInt32.toBitVec_or, UInt32.toBitVec_and, UInt32.toBitVec_not,
    UInt32.toBitVec_shiftLeft, BitVec.shiftLeft_eq', toNat_laneShift,
    BitVec.getLsbD_or, BitVec.getLsbD_and, BitVec.getLsbD_not, BitVec.getLsbD_shiftLeft, hmask,
    decide_eq_true hk, Bool.true_and, hbyte _ (by omega : k - 8 * (3 - i) < 32)]
  -- Below the lane, inside it or above it
  rcases Nat.lt_or_ge k (8 * (3 - i)) with hbelow | hstart
  · simp [hbelow, Nat.not_le.mpr hbelow]
  · by_cases hstop : k < 8 * (3 - i) + 8
    · simp [Nat.not_lt.mpr hstart, hstart, hstop, (by omega : k - 8 * (3 - i) < 8)]
    · simp [hstop, (by omega : 8 ≤ k - 8 * (3 - i))]

/-- A lane that is replaced is there, and the other ones are kept. -/
theorem lane_setLane (w : UInt32) (byte : UInt8) {i j : Nat} (hi : i < 4) (hj : j < 4) :
    lane (setLane w i byte) j = if i = j then byte else lane w j := by
  apply UInt8.toBitVec_inj.mp
  apply BitVec.eq_of_getLsbD_eq
  intro k hk
  rw [getLsbD_lane _ hk, getLsbD_setLane w byte (by omega)]
  by_cases hij : i = j
  · subst hij
    rw [if_pos (by omega), if_pos rfl, Nat.add_sub_cancel_left]
  · rw [if_neg (by omega), if_neg hij, getLsbD_lane w hk]

/-- A word is the value of its four lanes. -/
theorem value_lanes (w : UInt32) :
    (value [lane w 0, lane w 1, lane w 2, lane w 3]).toUInt32 = w := by
  apply UInt32.toBitVec_inj.mp
  ext i hi
  simp only [value, lane]
  -- Bit by bit; the bytes are not to be merged into the word before that
  interval_cases i <;> simp [-UInt32.toUInt64_toUInt8, -UInt32.toUInt32_toUInt8]

end BigEndian

namespace RegisterBlock

/-- A byte stored into a block with one copy of each word is there, and no other has changed. -/
theorem byteAt_storeByte {b : RegisterBlock} (hbuffering : b.words.buffering = .single)
    (haccess : b.access = .readWrite) {offset : Nat} (hoffset : offset < 4 * b.size) (byte : UInt8)
    (other : Nat) :
    (b.storeByte offset byte).byteAt other = if offset = other then byte else b.byteAt other := by
  obtain ⟨name, size, words, access⟩ := b
  cases words with
  | dual visible stored => exact nomatch hbuffering
  | single words =>
    subst haccess
    have hindex : offset / 4 < size := by
      change offset < 4 * size at hoffset
      omega
    have hstored : (storeByte ⟨name, size, .single words, .readWrite⟩ offset byte).byteAt other =
        BigEndian.lane ((words.setIfInBounds (offset / 4) (BigEndian.setLane
          (words[offset / 4]?.getD 0) (offset % 4) byte))[other / 4]?.getD 0) (other % 4) := rfl
    have hkept : byteAt ⟨name, size, .single words, .readWrite⟩ other =
        BigEndian.lane (words[other / 4]?.getD 0) (other % 4) := rfl
    rw [hstored, hkept, Vector.getElem?_setIfInBounds]
    -- The byte is in the word that is written, or in another word of the block
    by_cases hword : offset / 4 = other / 4
    · rw [if_pos hword, if_pos hindex, Option.getD_some, hword,
        BigEndian.lane_setLane _ _ (Nat.mod_lt _ (by decide)) (Nat.mod_lt _ (by decide))]
      simp only [show offset % 4 = other % 4 ↔ offset = other by omega]
    · rw [if_neg hword, if_neg (by omega)]

end RegisterBlock

namespace RegisterMap

/-- A byte is read in the register that it is located in. -/
theorem byteAt_eq (m : RegisterMap) (offset : Nat) :
    m.byteAt offset =
      ((m.locate offset).bind fun slot => m.slots[slot]?).elim 0 fun s =>
        s.block.byteAt (offset - s.base) := by
  rw [byteAt, Array.find?_eq_bind_findIdx?_getElem?, locate]
  cases (m.slots.findIdx? (·.contains offset)).bind fun slot => m.slots[slot]? with
  | none => rfl
  | some s => rfl

/-- A word loaded from a register is what the register shows. -/
theorem value_load_word {m : RegisterMap} {slot : Nat} {shape : RegisterShape}
    (h : m.layout[slot]? = some shape) (haccess : shape.access ≠ .writeOnly)
    (hlocate : ∀ i < 4, m.locate (shape.base + i) = some slot) :
    (BigEndian.value (m.load shape.base 4)).toUInt32 = m.visible slot := by
  obtain ⟨s, hslot, rfl⟩ := exists_slot h
  have hreads : s.block.access ≠ .writeOnly := haccess
  -- Each byte of the word is that lane of what the register shows
  have hbyte : ∀ i < 4, m.byteAt (s.base + i) = BigEndian.lane (m.visible slot) i := by
    intro i hi
    have hword : i / 4 = 0 := by omega
    have hlane : i % 4 = i := by omega
    have hhere : m.locate (s.base + i) = some slot := hlocate i hi
    rw [byteAt_eq, hhere, Option.bind_some, hslot, Option.elim_some, Nat.add_sub_cancel_left,
      RegisterBlock.byteAt, if_neg hreads, hword, hlane, visible, hslot, Option.elim_some]
  have hload : m.load s.base 4 = (List.range 4).map (BigEndian.lane (m.visible slot)) :=
    List.map_congr_left fun i hi => hbyte i (List.mem_range.mp hi)
  show (BigEndian.value (m.load s.base 4)).toUInt32 = m.visible slot
  rw [hload]
  exact BigEndian.value_lanes (m.visible slot)

/-- A byte lies in the register that it is located in. -/
private theorem contains_of_locate {m : RegisterMap} {offset slot : Nat} {s : RegisterSlot}
    (h : m.locate offset = some slot) (hslot : m.slots[slot]? = some s) :
    s.contains offset = true := by
  obtain ⟨hsize, hcontains, -⟩ := Array.findIdx?_eq_some_iff_getElem.mp h
  rw [Array.getElem?_eq_getElem hsize, Option.some_inj] at hslot
  rwa [hslot] at hcontains

/-- A byte stored where loads see it is there, and no other byte has changed. -/
theorem byteAt_storeByte {m : RegisterMap} {offset slot base size : Nat}
    (hlocate : m.locate offset = some slot)
    (hshape : m.layout[slot]? = some ⟨base, size, .single, .readWrite⟩) (byte : UInt8)
    (other : Nat) :
    (m.storeByte offset byte).byteAt other = if offset = other then byte else m.byteAt other := by
  obtain ⟨s, hslot, hs⟩ := exists_slot hshape
  obtain ⟨-, -, hbuffering, haccess⟩ := RegisterShape.mk.inj hs
  rw [byteAt_eq, byteAt_eq m other, locate_congr (layout_storeByte m offset byte),
    storeByte_of_locate hlocate]
  -- The other byte belongs to no register, to the same one, or to another
  cases hother : m.locate other with
  | none =>
    have hne : offset ≠ other := by
      rintro rfl
      exact nomatch hlocate.symm.trans hother
    rw [if_neg hne]
    rfl
  | some i =>
    simp only [Option.bind_some, Array.getElem?_modify]
    by_cases hsame : slot = i
    · subst hsame
      have hstart := contains_of_locate hlocate hslot
      have hend := contains_of_locate hother hslot
      simp only [RegisterSlot.contains, Bool.and_eq_true, decide_eq_true_eq] at hstart hend
      rw [RegisterSlot.stop, RegisterBlock.sizeBytes] at hstart hend
      rw [if_pos rfl, hslot, Option.map_some, Option.elim_some, Option.elim_some,
        RegisterBlock.byteAt_storeByte hbuffering haccess (by omega)]
      simp only [show offset - s.base = other - s.base ↔ offset = other by omega]
    · have hne : offset ≠ other := by
        rintro rfl
        exact hsame (Option.some_inj.mp (hlocate.symm.trans hother))
      rw [if_neg hsame, if_neg hne]

/-- What is done to one register does not show in the bytes of another. -/
theorem byteAt_of_ne {m : RegisterMap} {offset slot other : Nat}
    (hlocate : m.locate offset = some other) (hne : slot ≠ other)
    {f : RegisterBlock → RegisterBlock} (hlayout : (m.modifyBlock slot f).layout = m.layout) :
    (m.modifyBlock slot f).byteAt offset = m.byteAt offset := by
  rw [byteAt_eq, byteAt_eq m, locate_congr hlayout, hlocate, Option.bind_some, Option.bind_some,
    slots_modifyBlock, if_neg hne]

end RegisterMap

end Console64

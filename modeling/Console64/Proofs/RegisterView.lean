import Console64.Proofs.RegisterPlacement

/-!
# Register maps as bytes

A span of a device is read and written one block or hole at a time.  In a map that has been built
by placing blocks, this comes to reading and writing one byte after the other, and each byte is a
lane of one word of the block that holds it.

## Key results

- `RegisterMap.readSegments_eq`, `RegisterMap.writeSegments_eq`: blocks and holes one after the
  other are bytes one after the other
- `RegisterMap.takes_store`: what a store leaves of each block
- `RegisterMap.bytes_faithful`: what is read, what is written and what is touched, byte by byte
-/

namespace Console64

namespace RegisterBlock

/-- A byte of the words that loads see. -/
def visibleByte (b : RegisterBlock) (k : Nat) : UInt8 :=
  BigEndian.lane (b.visible (k / 4)) (k % 4)

/-- A byte of the words that stores change. -/
def storedByte (b : RegisterBlock) (k : Nat) : UInt8 :=
  BigEndian.lane (b.stored (k / 4)) (k % 4)

/-- With one copy of each word, loads see what was stored. -/
theorem visibleByte_of_single {b : RegisterBlock} (h : b.words.buffering = .single) (k : Nat) :
    b.visibleByte k = b.storedByte k := by
  obtain ⟨name, size, words, access⟩ := b
  cases words with
  | single words => rfl
  | dual visible stored => exact nomatch h

/-- A byte that is stored is there, if the block can be stored to, and no other has changed. -/
theorem storedByte_storeByte (b : RegisterBlock) {offset : Nat} (hoffset : offset < b.sizeBytes)
    (byte : UInt8) (k : Nat) :
    (b.storeByte offset byte).storedByte k =
      if b.access ≠ .readOnly ∧ offset = k then byte else b.storedByte k := by
  by_cases haccess : b.access = .readOnly
  · rw [storeByte, if_pos haccess, if_neg fun h => h.1 haccess]
  · have hindex : offset / 4 < b.size := by
      rw [sizeBytes] at hoffset
      omega
    have hstored : (b.storeByte offset byte).stored (k / 4) =
        ((b.words.stored.setIfInBounds (offset / 4) (BigEndian.setLane
          (b.words.stored[offset / 4]?.getD 0) (offset % 4) byte))[k / 4]?).getD 0 := by
      rw [storeByte, if_neg haccess]
      simp only [stored, RegisterWords.stored_onStored]
    rw [storedByte, hstored, Vector.getElem?_setIfInBounds]
    -- Another byte of the same word is another lane of it
    by_cases hword : offset / 4 = k / 4
    · rw [if_pos hword, if_pos hindex, Option.getD_some, hword,
        BigEndian.lane_setLane _ _ (Nat.mod_lt _ (by decide)) (Nat.mod_lt _ (by decide))]
      simp only [show offset % 4 = k % 4 ↔ offset = k by omega, ne_eq, haccess, not_false_eq_true,
        true_and]
      rfl
    · rw [if_neg hword, if_neg fun h => hword (congrArg (· / 4) h.2)]
      rfl

/-- Stores into a block that cannot be stored to. -/
theorem storeBytes_readOnly {b : RegisterBlock} (h : b.access = .readOnly) (offset : Nat)
    (data : List UInt8) : b.storeBytes offset data = b := by
  induction data generalizing offset with
  | nil => rfl
  | cons byte rest ih => rw [storeBytes, storeByte, if_pos h, ih]

/-- A load inside the block succeeds. -/
theorem read_eq {b : RegisterBlock} {offset length : Nat} (h : offset + length ≤ b.sizeBytes) :
    b.read offset length = .ok ((List.range length).map fun i => b.byteAt (offset + i)) := by
  rw [read, checkSpan, if_neg (Nat.not_lt.mpr h)]
  rfl

/-- So does a store. -/
theorem exists_write_eq {b : RegisterBlock} {offset : Nat} {data : List UInt8}
    (h : offset + data.length ≤ b.sizeBytes) :
    ∃ span, b.write offset data = .ok (b.storeBytes offset data, span) := by
  rw [write, checkSpan, if_neg (Nat.not_lt.mpr h)]
  simp only [bind, Except.bind, pure, Except.pure]
  split
  case isFalse => exact ⟨_, rfl⟩
  case isTrue hignored =>
    -- There is nothing to store, or nowhere to store it
    rw [Bool.or_eq_true, List.isEmpty_iff, decide_eq_true_eq] at hignored
    refine ⟨none, ?_⟩
    rcases hignored with rfl | haccess
    · rfl
    · rw [storeBytes_readOnly haccess]

end RegisterBlock

namespace RegisterMap

/-! ## One block or hole -/

/-- Bytes loaded are those of the first stretch and those behind it, -/
theorem load_append (m : RegisterMap) (offset a b : Nat) :
    m.load offset (a + b) = m.load offset a ++ m.load (offset + a) b := by
  simp only [load, List.range_add, List.map_append, List.map_map, Function.comp_def, Nat.add_assoc]

/-- and stores of two stretches are one store. -/
theorem store_append (m : RegisterMap) (offset : Nat) (data data' : List UInt8) :
    m.store offset (data ++ data') = (m.store offset data).store (offset + data.length) data' := by
  induction data generalizing m offset with
  | nil => rfl
  | cons byte rest ih =>
    rw [List.cons_append, store, store, ih, List.length_cons, Nat.add_assoc, Nat.add_comm 1]

/-- A store leaves the size of the device, -/
@[simp] theorem size_store (m : RegisterMap) (offset : Nat) (data : List UInt8) :
    (m.store offset data).size = m.size := by
  induction data generalizing m offset with
  | nil => rfl
  | cons byte rest ih =>
    rw [store, ih, storeByte]
    split <;> rfl

/-- its name -/
@[simp] theorem device_store (m : RegisterMap) (offset : Nat) (data : List UInt8) :
    (m.store offset data).device = m.device := by
  induction data generalizing m offset with
  | nil => rfl
  | cons byte rest ih =>
    rw [store, ih, storeByte]
    split <;> rfl

/-- and the order of its blocks. -/
theorem Laid.store {m : RegisterMap} (h : m.Laid) (offset : Nat) (data : List UInt8) :
    (m.store offset data).Laid := h.congr (layout_store m offset data) (size_store m offset data)

/-- A slot is left as it is. -/
private theorem modifyBlock_self {m : RegisterMap} {slot : Nat} {s : RegisterSlot}
    (hs : m.slots[slot]? = some s) : (m.modifyBlock slot fun _ => s.block) = m := by
  have hslots : (m.modifyBlock slot fun _ => s.block).slots = m.slots := by
    apply Array.ext_getElem?
    intro i
    rw [slots_modifyBlock]
    split
    case isFalse => rfl
    case isTrue heq =>
      rw [← heq, hs]
      rfl
  exact congrArg (fun slots => { m with slots }) hslots

section
variable {m : RegisterMap} (h : m.Laid)
include h

/-- Bytes that all lie in one block are stored into that block. -/
theorem store_of_inside {slot offset : Nat} {s : RegisterSlot} (hs : m.slots[slot]? = some s)
    (hbase : s.base ≤ offset) {data : List UInt8} (hstop : offset + data.length ≤ s.stop) :
    m.store offset data =
      m.modifyBlock slot fun _ => s.block.storeBytes (offset - s.base) data := by
  induction data generalizing m s offset with
  | nil => exact (modifyBlock_self hs).symm
  | cons byte rest ih =>
    rw [List.length_cons] at hstop
    have hlocate := locate_of_contains h hs
      (RegisterSlot.contains_iff.mpr ⟨hbase, (by omega : offset < s.stop)⟩)
    -- The first byte changes the block, and leaves it where it is
    let changed : RegisterSlot := { s with block := s.block.storeByte (offset - s.base) byte }
    have hchanged : (m.storeByte offset byte).slots[slot]? = some changed := by
      rw [storeByte_of_locate hlocate]
      simp only [Array.getElem?_modify, if_true, hs, Option.map_some, changed]
    have hend : changed.stop = s.stop := by
      simp only [changed, RegisterSlot.stop, RegisterBlock.sizeBytes, RegisterBlock.size_storeByte]
    have hlaid : (m.storeByte offset byte).Laid := h.store offset [byte]
    have hstart : changed.base = s.base := rfl
    have hrest := ih hlaid hchanged (by omega : changed.base ≤ offset + 1) (by omega)
    have hplace : offset + 1 - s.base = offset - s.base + 1 := by omega
    rw [store, hrest, storeByte_of_locate hlocate]
    simp only [modifyBlock, modify_modify, RegisterBlock.storeBytes, changed, hplace]

/-- One block or hole is read byte by byte. -/
theorem readSegment_eq {offset length : Nat} (hlength : length ≤ m.segment offset length) :
    m.readSegment offset length = .ok (m.load offset length) := by
  unfold segment at hlength
  unfold readSegment
  -- In a block the bytes are its own, and in a hole they are zero
  cases hfind : m.slots.find? (·.contains offset) with
  | some s =>
    simp only [hfind] at hlength ⊢
    have hs := Array.mem_of_find?_eq_some hfind
    have hfound := Array.find?_some hfind
    have hstart := RegisterSlot.contains_iff.mp hfound
    have hbytes : ∀ i ∈ List.range length, s.block.byteAt (offset - s.base + i) =
        m.byteAt (offset + i) := by
      intro i hi
      rw [List.mem_range] at hi
      have hcontains : s.contains (offset + i) = true :=
        RegisterSlot.contains_iff.mpr ⟨by omega, by omega⟩
      rw [byteAt_of_contains h hs hcontains, Nat.sub_add_comm hstart.1]
    have hfits : offset - s.base + length ≤ s.block.sizeBytes := by
      simp only [RegisterSlot.stop] at hlength hstart
      omega
    rw [RegisterBlock.read_eq hfits, load, List.map_congr_left hbytes]
  | none =>
    simp only [hfind] at hlength ⊢
    have hbytes : ∀ i ∈ List.range length, (0 : UInt8) = m.byteAt (offset + i) := by
      intro i hi
      rw [List.mem_range] at hi
      exact (byteAt_of_hole (not_contains_of_lt_nextMapped hfind (Nat.le_add_right _ _)
        (by omega))).symm
    rw [load, ← List.map_congr_left hbytes, List.map_const', List.length_range]

/-- One block or hole is written byte by byte. -/
theorem writeSegment_eq {offset : Nat} {data : List UInt8}
    (hlength : data.length ≤ m.segment offset data.length) :
    m.writeSegment offset data = .ok (m.store offset data) := by
  unfold segment at hlength
  unfold writeSegment
  cases hfind : m.slots.find? (·.contains offset) with
  | some s =>
    simp only [hfind] at hlength
    obtain ⟨slot, hs⟩ := Array.mem_iff_getElem?.mp (Array.mem_of_find?_eq_some hfind)
    have hfound := Array.find?_some hfind
    have hstart := RegisterSlot.contains_iff.mp hfound
    have hfits : offset - s.base + data.length ≤ s.block.sizeBytes := by
      simp only [RegisterSlot.stop] at hlength hstart
      omega
    obtain ⟨span, hwrite⟩ := RegisterBlock.exists_write_eq hfits
    rw [locate_of_contains h hs hfound, store_of_inside h hs hstart.1 (by omega)]
    simp only [hs, Option.elim_some, hwrite]
    rfl
  | none =>
    simp only [hfind] at hlength
    have hlocate : ∀ i < data.length, m.locate (offset + i) = none := by
      intro i hi
      exact Array.findIdx?_eq_none_iff.mpr
        (not_contains_of_lt_nextMapped hfind (Nat.le_add_right _ _) (by omega))
    rw [show m.locate offset = none from
      Array.findIdx?_eq_none_iff.mpr (not_contains_of_find? hfind)]
    -- Nothing of the data goes anywhere
    clear hfind hlength h
    simp only [Except.ok.injEq]
    induction data generalizing offset with
    | nil => rfl
    | cons byte rest ih =>
      have hfirst := hlocate 0 (Nat.succ_pos _)
      rw [Nat.add_zero] at hfirst
      rw [store, storeByte, hfirst]
      apply ih
      intro i hi
      have hnext := hlocate (i + 1) (Nat.succ_lt_succ hi)
      rwa [Nat.add_comm i 1, ← Nat.add_assoc] at hnext

end

/-! ## A whole span -/

/-- A part of a block or hole is one too. -/
private theorem segment_segment (m : RegisterMap) (offset length : Nat) :
    m.segment offset length ≤ m.segment offset (m.segment offset length) := by
  unfold segment
  cases m.slots.find? (·.contains offset) with
  | some s =>
    dsimp only
    omega
  | none =>
    dsimp only
    omega

section
variable {m : RegisterMap} (h : m.Laid)
include h

/-- Blocks and holes one after the other are bytes one after the other. -/
theorem readSegments_eq {offset length : Nat} (inside : offset + length ≤ m.size) :
    m.readSegments offset length inside = .ok (m.load offset length) := by
  -- Induction on what is left of the span
  induction length using Nat.strongRecOn generalizing offset with
  | ind length ih =>
    rw [readSegments]
    split
    case isTrue hnone =>
      subst hnone
      rfl
    case isFalse hsome =>
      have hpos := segment_pos inside (Nat.pos_of_ne_zero hsome)
      have hle := m.segment_le offset length
      have hsplit : length = m.segment offset length + (length - m.segment offset length) := by
        omega
      dsimp only
      rw [readSegment_eq h (segment_segment m offset length), ih _ (by omega)]
      conv_rhs => rw [hsplit, load_append]
      rfl

/-- So it is with writes. -/
theorem writeSegments_eq {offset : Nat} {data : List UInt8}
    (inside : offset + data.length ≤ m.size) :
    m.writeSegments offset data inside = .ok (m.store offset data) := by
  -- As before, but the map changes as it goes
  induction hlength : data.length using Nat.strongRecOn generalizing m offset data with
  | ind length ih =>
    subst hlength
    rw [writeSegments]
    split
    case isTrue hnone =>
      subst hnone
      rfl
    case isFalse hsome =>
      have hpos := segment_pos inside (List.length_pos_iff.mpr hsome)
      have hle := m.segment_le offset data.length
      have htake : (data.take (m.segment offset data.length)).length =
          m.segment offset data.length := List.length_take_of_le hle
      have hfirst : m.writeSegment offset (data.take (m.segment offset data.length)) =
          .ok (m.store offset (data.take (m.segment offset data.length))) := by
        apply writeSegment_eq h
        rw [htake]
        exact segment_segment m offset data.length
      dsimp only
      split
      case h_1 e herror =>
        rw [hfirst] at herror
        cases herror
      case h_2 m' hok =>
        rw [hfirst] at hok
        cases hok
        rw [ih _ (by rw [List.length_drop]; omega) (h.store _ _) _ rfl]
        conv_rhs => rw [← List.take_append_drop (m.segment offset data.length) data, store_append,
          htake]

/-- Inside the device a read is a load, -/
theorem read_eq_load {offset length : Nat} (inside : offset + length ≤ m.size) :
    m.read offset length = .ok (m.load offset length) := by
  rw [read, dif_pos inside, readSegments_eq h]

/-- and a write a store. -/
theorem write_eq_store {offset : Nat} {data : List UInt8} (inside : offset + data.length ≤ m.size) :
    m.write offset data = .ok (m.store offset data) := by
  rw [write, dif_pos inside, writeSegments_eq h]

end

end RegisterMap

/-! ## What a store leaves of a block -/

/-- What a block becomes when `data` is stored at `offset` of the device.  If it can be stored
to, the bytes of the span that it holds are replaced among its stored ones; loads see that if
there is one copy of each word.  Nothing else changes. -/
structure RegisterSlot.Takes (offset : Nat) (data : List UInt8) (s s' : RegisterSlot) : Prop where
  base : s'.base = s.base
  name : s'.block.name = s.block.name
  size : s'.block.size = s.block.size
  buffering : s'.block.words.buffering = s.block.words.buffering
  access : s'.block.access = s.block.access
  stored : ∀ k < s.block.sizeBytes, s'.block.storedByte k =
    if s.block.access ≠ .readOnly ∧ offset ≤ s.base + k then
      (data[s.base + k - offset]?).getD (s.block.storedByte k)
    else s.block.storedByte k
  visible : ∀ k < s.block.sizeBytes, s'.block.visibleByte k =
    if s.block.words.buffering = .single then s'.block.storedByte k else s.block.visibleByte k

namespace RegisterSlot.Takes

variable {offset : Nat} {data data' : List UInt8} {s s' s'' : RegisterSlot}

/-- Nothing happens to a block that holds no byte of the span. -/
theorem of_outside (h : ∀ a, offset ≤ a → a < offset + data.length → s.contains a = false) :
    s.Takes offset data s where
  base := rfl
  name := rfl
  size := rfl
  buffering := rfl
  access := rfl
  stored k hk := by
    split
    case isFalse => rfl
    -- A byte of the block that could take a value lies behind the span
    case isTrue hcan =>
      have hcontains : s.contains (s.base + k) = true :=
        contains_iff.mpr ⟨Nat.le_add_right _ _, Nat.add_lt_add_left hk _⟩
      have hpast : ¬s.base + k < offset + data.length := fun hlt =>
        Bool.eq_false_iff.mp (h _ hcan.2 hlt) hcontains
      rw [List.getElem?_eq_none (by omega), Option.getD_none]
  visible k _ := by
    split
    case isTrue hsingle => exact RegisterBlock.visibleByte_of_single hsingle k
    case isFalse => rfl

/-- One store after the other. -/
theorem append (h : s.Takes offset data s') (h' : s'.Takes (offset + data.length) data' s'') :
    s.Takes offset (data ++ data') s'' where
  base := h'.base.trans h.base
  name := h'.name.trans h.name
  size := h'.size.trans h.size
  buffering := h'.buffering.trans h.buffering
  access := h'.access.trans h.access
  stored k hk := by
    have hk' : k < s'.block.sizeBytes := by rwa [RegisterBlock.sizeBytes, h.size]
    rw [h'.stored k hk', h.stored k hk, h.access, h.base]
    by_cases haccess : s.block.access = .readOnly
    · simp only [ne_eq, haccess, not_true_eq_false, false_and, if_false]
    · simp only [ne_eq, haccess, not_false_eq_true, true_and]
      -- The byte is before the span, in its first part or behind that
      rcases Nat.lt_or_ge (s.base + k) offset with hbefore | hstart
      · rw [if_neg (by omega), if_neg (by omega), if_neg (by omega)]
      · rw [if_pos hstart, if_pos hstart]
        rcases Nat.lt_or_ge (s.base + k) (offset + data.length) with hfirst | hsecond
        · rw [if_neg (by omega), List.getElem?_append_left (by omega)]
        · rw [if_pos hsecond, List.getElem?_append_right (by omega),
            List.getElem?_eq_none (by omega : data.length ≤ s.base + k - offset), Option.getD_none,
            Nat.sub_add_eq]
  visible k hk := by
    have hk' : k < s'.block.sizeBytes := by rwa [RegisterBlock.sizeBytes, h.size]
    rw [h'.visible k hk', h.buffering]
    split
    case isTrue => rfl
    case isFalse hdual => rw [h.visible k hk, if_neg hdual]

end RegisterSlot.Takes

namespace RegisterMap

/-- One byte, stored into the block that holds it. -/
private theorem takes_storeByte_block (s : RegisterSlot) {offset : Nat}
    (hcontains : s.contains offset = true) (byte : UInt8) :
    s.Takes offset [byte] { s with block := s.block.storeByte (offset - s.base) byte } where
  base := rfl
  name := by
    unfold RegisterBlock.storeByte
    split <;> rfl
  size := RegisterBlock.size_storeByte _ _ _
  buffering := RegisterBlock.buffering_storeByte _ _ _
  access := RegisterBlock.access_storeByte _ _ _
  stored k hk := by
    rw [RegisterSlot.contains_iff, RegisterSlot.stop] at hcontains
    rw [RegisterBlock.storedByte_storeByte _ (by omega)]
    by_cases haccess : s.block.access = .readOnly
    · simp only [ne_eq, haccess, not_true_eq_false, false_and, if_false]
    -- Before the byte, at it or behind it
    · simp only [ne_eq, haccess, not_false_eq_true, true_and]
      rcases Nat.lt_trichotomy (s.base + k) offset with hbefore | hhere | hbehind
      · rw [if_neg (by omega), if_neg (by omega)]
      · rw [if_pos (by omega), if_pos (by omega), show s.base + k - offset = 0 by omega]
        rfl
      · rw [if_neg (by omega), if_pos (by omega),
          List.getElem?_eq_none (by simp only [List.length_singleton]; omega), Option.getD_none]
  visible k _ := by
    split
    case isTrue hsingle =>
      exact RegisterBlock.visibleByte_of_single
        ((RegisterBlock.buffering_storeByte _ _ _).trans hsingle) k
    case isFalse hother =>
      have hdual : s.block.words.buffering = .dual := by
        cases hbuffering : s.block.words.buffering with
        | single => exact absurd hbuffering hother
        | dual => rfl
      exact congrArg (BigEndian.lane · (k % 4))
        (RegisterBlock.visible_storeByte (.inl hdual) (offset - s.base) byte (k / 4))

section
variable {m : RegisterMap} (h : m.Laid)
include h

/-- A byte goes into the block that holds it, and leaves the others alone. -/
private theorem takes_storeByte (offset : Nat) (byte : UInt8) {i : Nat} {s : RegisterSlot}
    (hs : m.slots[i]? = some s) :
    ∃ s', (m.storeByte offset byte).slots[i]? = some s' ∧ s.Takes offset [byte] s' := by
  by_cases hcontains : s.contains offset = true
  · refine ⟨_, ?_, takes_storeByte_block s hcontains byte⟩
    rw [storeByte_of_locate (locate_of_contains h hs hcontains)]
    simp only [Array.getElem?_modify, if_true, hs, Option.map_some]
  · refine ⟨s, ?_, .of_outside fun a hstart hend => ?_⟩
    · -- The byte goes to another block, or nowhere
      unfold storeByte
      split
      case h_1 j hlocate =>
        have hne : j ≠ i := by
          rintro rfl
          obtain ⟨hj, hfound, -⟩ := Array.findIdx?_eq_some_iff_getElem.mp hlocate
          rw [Array.getElem?_eq_getElem hj, Option.some_inj] at hs
          exact hcontains (hs ▸ hfound)
        simp only [Array.getElem?_modify, if_neg hne, hs]
      case h_2 => exact hs
    · rw [List.length_singleton] at hend
      have hsame : a = offset := by omega
      rw [hsame]
      exact Bool.eq_false_iff.mpr hcontains

/-- A store of any length does to each block what it should. -/
theorem takes_store (offset : Nat) (data : List UInt8) {i : Nat} {s : RegisterSlot}
    (hs : m.slots[i]? = some s) :
    ∃ s', (m.store offset data).slots[i]? = some s' ∧ s.Takes offset data s' := by
  induction data generalizing m offset s with
  | nil =>
    refine ⟨s, hs, .of_outside fun a hstart hend => ?_⟩
    rw [List.length_nil] at hend
    omega
  | cons byte rest ih =>
    obtain ⟨s₁, hs₁, hfirst⟩ := takes_storeByte h offset byte hs
    obtain ⟨s₂, hs₂, hrest⟩ := ih (h.store offset [byte]) (offset + 1) hs₁
    exact ⟨s₂, hs₂, hfirst.append hrest⟩

end

/-! ## Maps that have been built -/

/-- Maps as they come about: blocks are placed, and then the registers are used. -/
inductive Built : RegisterMap → Prop
  | sequential {device : String} {size : Nat} {blocks : List RegisterBlock} {m : RegisterMap}
    (h : RegisterMap.sequential device size blocks = .ok m) : Built m
  | place {m m' : RegisterMap} (h : Built m) {offset : Nat} {block : RegisterBlock}
    (hplace : m.place offset block = .ok m') : Built m'
  | write {m m' : RegisterMap} (h : Built m) {offset : Nat} {data : List UInt8}
    (hwrite : m.write offset data = .ok m') : Built m'
  | publish {m : RegisterMap} (h : Built m) (slot : Nat) (value : UInt32) :
    Built (m.publish slot value)
  | set {m : RegisterMap} (h : Built m) (slot : Nat) (value : UInt32) : Built (m.set slot value)

/-- Their blocks are well laid, and stores leave them so. -/
theorem Built.laid {m : RegisterMap} (h : m.Built) : m.Laid := by
  induction h with
  | sequential h => exact (laid_empty _ _).placeAll h
  | place _ hplace ih => exact ih.place hplace
  -- A write that is out of range has no map of its own
  | @write m m' _ offset data hwrite ih =>
    by_cases hinside : offset + data.length ≤ m.size
    · rw [write_eq_store ih hinside] at hwrite
      cases hwrite
      exact ih.store offset data
    · rw [RegisterMap.write, dif_neg hinside] at hwrite
      exact nomatch hwrite
  | publish _ slot value ih => exact ih.congr (layout_publish _ slot value) rfl
  | set _ slot value ih => exact ih.congr (layout_set _ slot value) rfl

/-- The bytes are those of the blocks: the lane that loads see, and zero where there is no block
or one that cannot be loaded from. -/
structure Shows (m : RegisterMap) (offset : Nat) (bytes : List UInt8) : Prop where
  block : ∀ i < bytes.length, ∀ s ∈ m.slots, s.contains (offset + i) = true →
    bytes[i]? = some
      (if s.block.access = .writeOnly then 0 else s.block.visibleByte (offset + i - s.base))
  hole : ∀ i < bytes.length, (∀ s ∈ m.slots, s.contains (offset + i) = false) →
    bytes[i]? = some 0

/-- The second map is the first one with `data` stored at `offset`. -/
structure Stored (m : RegisterMap) (offset : Nat) (data : List UInt8) (m' : RegisterMap) :
    Prop where
  device : m'.device = m.device
  size : m'.size = m.size
  count : m'.slots.size = m.slots.size
  slots : ∀ (i : Nat) (s : RegisterSlot), m.slots[i]? = some s →
    ∃ s', m'.slots[i]? = some s' ∧ s.Takes offset data s'

/-- A load shows the bytes of the blocks, -/
theorem shows_load {m : RegisterMap} (h : m.Laid) (offset length : Nat) :
    m.Shows offset (m.load offset length) := by
  have hbyte : ∀ i < (m.load offset length).length,
      (m.load offset length)[i]? = some (m.byteAt (offset + i)) := by
    intro i hi
    simp only [load, List.length_map, List.length_range] at hi
    simp only [load, List.getElem?_map, List.getElem?_range hi, Option.map_some]
  constructor
  -- A byte of a block is that of its register; one of a hole is zero
  · intro i hi s hs hcontains
    rw [hbyte i hi, byteAt_of_contains h hs hcontains]
    rfl
  · intro i hi hnone
    rw [hbyte i hi, byteAt_of_hole hnone]

/-- and a store changes them as it should. -/
theorem stored_store {m : RegisterMap} (h : m.Laid) (offset : Nat) (data : List UInt8) :
    m.Stored offset data (m.store offset data) where
  device := device_store m offset data
  size := size_store m offset data
  count := by
    have hlayout := congrArg Array.size (layout_store m offset data)
    simpa only [layout, Array.size_map] using hlayout
  slots _ _ hs := takes_store h offset data hs

/-- A map that has been built is a view of its blocks.  They are well laid.  Inside the device a
span is read as the bytes of the blocks in it, a store replaces these bytes where that is allowed
and nothing else, and it touches the blocks that own one of them.  Past the end of the device
nothing is read or written. -/
theorem bytes_faithful {m : RegisterMap} (h : m.Built) :
    m.Laid ∧
    (∀ offset length, 0 < length → offset + length ≤ m.size →
      (∃ bytes, m.read offset length = .ok bytes ∧ bytes.length = length ∧ m.Shows offset bytes) ∧
      (∀ data : List UInt8, data.length = length →
        ∃ m', m.write offset data = .ok m' ∧ m.Stored offset data m') ∧
      (m.touched offset length).Pairwise (· < ·) ∧
      ∀ i, i ∈ m.touched offset length ↔ ∃ s, m.slots[i]? = some s ∧
        ∃ a, offset ≤ a ∧ a < offset + length ∧ s.contains a = true) ∧
    ∀ offset length, m.size < offset + length →
      m.read offset length = .error (.outOfRange m.device offset length) ∧
      ∀ data : List UInt8, data.length = length →
        m.write offset data = .error (.outOfRange m.device offset length) := by
  -- The parts are the lemmas on loads, stores and the registers that are touched
  have hlaid := h.laid
  refine ⟨hlaid, fun offset length hpos hinside => ⟨?_, ?_, pairwise_touched m offset length,
    fun i => mem_touched hlaid hpos⟩, fun offset length hpast => ⟨?_, ?_⟩⟩
  · have hlength : (m.load offset length).length = length := by simp [load]
    exact ⟨_, read_eq_load hlaid hinside, hlength, shows_load hlaid offset length⟩
  · rintro data rfl
    exact ⟨_, write_eq_store hlaid hinside, stored_store hlaid offset data⟩
  · rw [read, dif_neg (Nat.not_le.mpr hpast)]
  · rintro data rfl
    rw [write, dif_neg (Nat.not_le.mpr hpast)]

/-- Two words back to back, the second of them for stores only, and after a hole two words in two
copies.  A store of twelve bytes goes from the second block to the third; the last bytes of the
device belong to no block, and behind them there is nothing. -/
theorem bytes_faithful_of_three :
    let m := RegisterMap.ofLayout "device" 0x40
      [(0x00, .single "first" 1), (0x04, .writeOnly "second" 1), (0x10, .dual "third" 2)]
    m.Built ∧ m.Laid ∧
      (∃ bytes, m.read 0x02 0x10 = .ok bytes ∧ bytes.length = 0x10 ∧ m.Shows 0x02 bytes) ∧
      (∃ m', m.write 0x06 (List.replicate 12 0xFF) = .ok m' ∧
        m.Stored 0x06 (List.replicate 12 0xFF) m') ∧
      (1 ∈ m.touched 0x06 12 ∧ 2 ∈ m.touched 0x06 12) ∧
      m.read 0x3E 4 = .error (.outOfRange "device" 0x3E 4) := by
  intro m
  have hempty : (empty "device" 0x40).Built :=
    .sequential (show RegisterMap.sequential "device" 0x40 [] = .ok _ from rfl)
  have hplaced : ∀ {m : RegisterMap} {offset : Nat} {block : RegisterBlock}, m.Built →
      m.accepts offset block = true → (m.push offset block).Built :=
    fun h haccepts => h.place (if_pos haccepts)
  have hbuilt : m.Built :=
    hplaced (hplaced (hplaced hempty (by decide +kernel)) (by decide +kernel)) (by decide +kernel)
  obtain ⟨hlaid, hinside, houtside⟩ := bytes_faithful hbuilt
  have hsecond : m.slots[1]? = some ⟨0x04, .writeOnly "second" 1⟩ := rfl
  have hthird : m.slots[2]? = some ⟨0x10, .dual "third" 2⟩ := rfl
  obtain ⟨hread, -, -⟩ := hinside 0x02 0x10 (by decide) (by decide)
  obtain ⟨-, hwrite, -, htouched⟩ := hinside 0x06 12 (by decide) (by decide)
  exact ⟨hbuilt, hlaid, hread, hwrite _ rfl,
    ⟨(htouched 1).mpr ⟨_, hsecond, 0x06, by decide, by decide, by decide⟩,
      (htouched 2).mpr ⟨_, hthird, 0x10, by decide, by decide, by decide⟩⟩,
    (houtside 0x3E 4 (by decide)).1⟩

end RegisterMap

end Console64

import Console64.Proofs.RegisterBytes

/-!
# Where registers are placed

A register map is built by placing blocks, and `place` accepts a block only where it fits.  So in
a map that has been built an offset belongs to one block at most, and what is found there does
not depend on the order in which the blocks were placed.

## Key results

- `RegisterMap.Laid.place`, `RegisterMap.Laid.placeAll`: the blocks that are placed are word
  aligned, not empty, inside the device and disjoint
- `RegisterMap.locate_of_contains`, `RegisterMap.find?_of_contains`: the block that holds an
  offset is the one that is found
- `RegisterMap.not_contains_of_lt_nextMapped`: a hole reaches to the next block
- `RegisterMap.mem_touched`: what a span touches is the blocks that own a byte of it
-/

namespace Console64

namespace RegisterSlot

/-- A block holds the offsets from its base to its end, -/
theorem contains_iff {s : RegisterSlot} {offset : Nat} :
    s.contains offset = true ↔ s.base ≤ offset ∧ offset < s.stop := by
  rw [contains, Bool.and_eq_true, decide_eq_true_eq, decide_eq_true_eq]

/-- and overlaps a span if each begins in front of the other's end. -/
theorem overlaps_iff {s : RegisterSlot} {start stop : Nat} :
    s.overlaps start stop = true ↔ start < s.stop ∧ s.base < stop := by
  rw [overlaps, Bool.and_eq_true, decide_eq_true_eq, decide_eq_true_eq]

/-- The two blocks have no byte in common. -/
def Apart (s t : RegisterSlot) : Prop := s.stop ≤ t.base ∨ t.stop ≤ s.base

/-- Neither of the two comes first. -/
theorem Apart.symm {s t : RegisterSlot} (h : s.Apart t) : t.Apart s := Or.symm h

end RegisterSlot

namespace RegisterMap

/-- The blocks lie as `place` asks for. -/
structure Laid (m : RegisterMap) : Prop where
  aligned : ∀ s ∈ m.slots, s.base % 4 = 0
  nonempty : ∀ s ∈ m.slots, 0 < s.block.sizeBytes
  inside : ∀ s ∈ m.slots, s.stop ≤ m.size
  apart : ∀ (i j : Nat) (s t : RegisterSlot), m.slots[i]? = some s → m.slots[j]? = some t → i ≠ j →
    s.Apart t

/-- The layout and the size of the device tell whether a map is well laid. -/
theorem Laid.congr {m m' : RegisterMap} (h : m.Laid) (hlayout : m'.layout = m.layout)
    (hsize : m'.size = m.size) : m'.Laid := by
  -- In the same place of the other map is a block of the same shape
  have hother : ∀ (i : Nat) (s : RegisterSlot), m'.slots[i]? = some s →
      ∃ t, m.slots[i]? = some t ∧ t.base = s.base ∧ t.block.size = s.block.size := by
    intro i s hs
    have hshape : m.layout[i]? = some s.shape := by
      rw [← hlayout, layout, Array.getElem?_map, hs, Option.map_some]
    obtain ⟨t, ht, heq⟩ := exists_slot hshape
    exact ⟨t, ht, congrArg RegisterShape.base heq, congrArg RegisterShape.size heq⟩
  have hmem : ∀ s ∈ m'.slots, ∃ t ∈ m.slots, t.base = s.base ∧ t.block.size = s.block.size := by
    intro s hs
    obtain ⟨i, hi⟩ := Array.mem_iff_getElem?.mp hs
    obtain ⟨t, ht, heq⟩ := hother i s hi
    exact ⟨t, Array.mem_of_getElem? ht, heq⟩
  constructor
  case aligned =>
    intro s hs
    obtain ⟨t, ht, hbase, -⟩ := hmem s hs
    exact hbase ▸ h.aligned t ht
  case nonempty =>
    intro s hs
    obtain ⟨t, ht, -, hwords⟩ := hmem s hs
    have := h.nonempty t ht
    simp only [RegisterBlock.sizeBytes] at this ⊢
    omega
  case inside =>
    intro s hs
    obtain ⟨t, ht, hbase, hwords⟩ := hmem s hs
    have := h.inside t ht
    simp only [RegisterSlot.stop, RegisterBlock.sizeBytes] at this ⊢
    omega
  case apart =>
    intro i j s s' hs hs' hne
    obtain ⟨t, ht, hbase, hwords⟩ := hother i s hs
    obtain ⟨t', ht', hbase', hwords'⟩ := hother j s' hs'
    have := h.apart i j t t' ht ht' hne
    simp only [RegisterSlot.Apart, RegisterSlot.stop, RegisterBlock.sizeBytes] at this ⊢
    omega

/-- Without blocks there is nothing to ask for. -/
theorem laid_empty (device : String) (size : Nat) : (empty device size).Laid where
  aligned s hs := absurd hs (Array.not_mem_empty s)
  nonempty s hs := absurd hs (Array.not_mem_empty s)
  inside s hs := absurd hs (Array.not_mem_empty s)
  apart i j s t hs := by simp [empty] at hs

/-! ## Placing blocks -/

/-- A block is placed if it is accepted, and otherwise refused. -/
theorem place_eq_ok {m m' : RegisterMap} {offset : Nat} {block : RegisterBlock}
    (h : m.place offset block = .ok m') :
    m.accepts offset block = true ∧ m' = m.push offset block := by
  unfold place at h
  split at h
  case isTrue haccepts =>
    cases h
    exact ⟨haccepts, rfl⟩
  case isFalse => exact nomatch h

/-- What has to be true of a block that is accepted. -/
theorem accepts_iff {m : RegisterMap} {offset : Nat} {block : RegisterBlock} :
    m.accepts offset block = true ↔ offset % 4 = 0 ∧ 0 < block.sizeBytes ∧
      offset + block.sizeBytes ≤ m.size ∧ ∀ s ∈ m.slots, s.Apart ⟨offset, block⟩ := by
  simp only [accepts, Bool.and_eq_true, decide_eq_true_eq, Bool.not_eq_true', Array.any_eq_false',
    RegisterSlot.overlaps_iff, RegisterSlot.Apart, ne_eq, and_assoc, Nat.pos_iff_ne_zero]
  -- Blocks that do not overlap are apart
  refine and_congr_right fun _ => and_congr_right fun _ => and_congr_right fun _ =>
    forall₂_congr fun s _ => ?_
  simp only [RegisterSlot.stop]
  omega

/-- A block that is accepted joins the others. -/
theorem Laid.push {m : RegisterMap} (h : m.Laid) {offset : Nat} {block : RegisterBlock}
    (haccepts : m.accepts offset block = true) : (m.push offset block).Laid := by
  obtain ⟨haligned, hpos, hfits, hfree⟩ := accepts_iff.mp haccepts
  have hmem : ∀ s ∈ (m.push offset block).slots, s ∈ m.slots ∨ s = ⟨offset, block⟩ := fun s hs =>
    Array.mem_push.mp hs
  -- A slot is an old one, or the last one
  have hslot : ∀ (i : Nat) (s : RegisterSlot), (m.push offset block).slots[i]? = some s →
      m.slots[i]? = some s ∨ i = m.slots.size ∧ s = ⟨offset, block⟩ := by
    intro i s hs
    simp only [RegisterMap.push, Array.getElem?_push] at hs
    split at hs
    case isTrue hlast => exact .inr ⟨hlast, (Option.some.inj hs).symm⟩
    case isFalse => exact .inl hs
  constructor
  case aligned =>
    intro s hs
    rcases hmem s hs with hold | rfl
    · exact h.aligned s hold
    · exact haligned
  case nonempty =>
    intro s hs
    rcases hmem s hs with hold | rfl
    · exact h.nonempty s hold
    · exact hpos
  case inside =>
    intro s hs
    rcases hmem s hs with hold | rfl
    · exact h.inside s hold
    · exact hfits
  case apart =>
    intro i j s t hs ht hne
    rcases hslot i s hs with hs | ⟨rfl, rfl⟩ <;> rcases hslot j t ht with ht | ⟨rfl, rfl⟩
    · exact h.apart i j s t hs ht hne
    · exact hfree s (Array.mem_of_getElem? hs)
    · exact (hfree t (Array.mem_of_getElem? ht)).symm
    · exact absurd rfl hne

/-- So placing a block keeps the map well laid, -/
theorem Laid.place {m m' : RegisterMap} (h : m.Laid) {offset : Nat} {block : RegisterBlock}
    (hplace : m.place offset block = .ok m') : m'.Laid := by
  obtain ⟨haccepts, rfl⟩ := place_eq_ok hplace
  exact h.push haccepts

/-- and so does placing several, each behind the one before. -/
theorem Laid.placeAll {m m' : RegisterMap} (h : m.Laid) {offset : Nat} {blocks : List RegisterBlock}
    (hplace : m.placeAll offset blocks = .ok m') : m'.Laid := by
  induction blocks generalizing m offset with
  | nil =>
    cases hplace
    exact h
  | cons block rest ih =>
    rw [RegisterMap.placeAll] at hplace
    -- The blocks are placed one by one, each behind those that are there
    cases hfirst : m.place offset block with
    | error e =>
      rw [hfirst] at hplace
      exact nomatch hplace
    | ok placed =>
      rw [hfirst] at hplace
      exact ih (h.place hfirst) hplace

/-! ## What is found at an offset -/

section
variable {m : RegisterMap} (h : m.Laid)
include h

/-- The block that holds an offset is the one that is found there. -/
theorem locate_of_contains {i offset : Nat} {s : RegisterSlot} (hs : m.slots[i]? = some s)
    (hcontains : s.contains offset = true) : m.locate offset = some i := by
  obtain ⟨hi, rfl⟩ := Array.getElem?_eq_some_iff.mp hs
  refine Array.findIdx?_eq_some_iff_getElem.mpr ⟨hi, hcontains, fun j hj hother => ?_⟩
  have hapart := h.apart i j _ _ hs (Array.getElem?_eq_getElem (Nat.lt_trans hj hi))
    (Nat.ne_of_gt hj)
  rw [RegisterSlot.contains_iff] at hcontains hother
  unfold RegisterSlot.Apart at hapart
  omega

/-- It is found among all of them. -/
theorem find?_of_contains {offset : Nat} {s : RegisterSlot} (hs : s ∈ m.slots)
    (hcontains : s.contains offset = true) : m.slots.find? (·.contains offset) = some s := by
  obtain ⟨i, hi⟩ := Array.mem_iff_getElem?.mp hs
  have hlocate := locate_of_contains h hi hcontains
  rw [locate] at hlocate
  rw [Array.find?_eq_bind_findIdx?_getElem?, hlocate, Option.bind_some, hi]

/-- A byte of a block is read there. -/
theorem byteAt_of_contains {offset : Nat} {s : RegisterSlot} (hs : s ∈ m.slots)
    (hcontains : s.contains offset = true) :
    m.byteAt offset = s.block.byteAt (offset - s.base) := by
  rw [byteAt, find?_of_contains h hs hcontains]

/-- What a span touches is the blocks that own a byte of it. -/
theorem mem_touched {offset length i : Nat} (hlength : 0 < length) :
    i ∈ m.touched offset length ↔ ∃ s, m.slots[i]? = some s ∧
      ∃ a, offset ≤ a ∧ a < offset + length ∧ s.contains a = true := by
  have howns : ∀ s ∈ m.slots, s.overlaps offset (offset + length) = true ↔
      ∃ a, offset ≤ a ∧ a < offset + length ∧ s.contains a = true := by
    intro s hs
    have hpos := h.nonempty s hs
    simp only [RegisterSlot.overlaps_iff, RegisterSlot.contains_iff]
    constructor
    · rintro ⟨hstop, hbase⟩
      -- The first byte that both have
      refine ⟨max offset s.base, Nat.le_max_left _ _, ?_, Nat.le_max_right _ _, ?_⟩
      · omega
      · simp only [RegisterSlot.stop] at hstop ⊢
        omega
    · rintro ⟨a, hstart, hend, hbase, hstop⟩
      omega
  simp only [touched, List.mem_filter, List.mem_range, Option.any_eq_true]
  constructor
  · rintro ⟨-, s, hs, hoverlaps⟩
    exact ⟨s, hs, (howns s (Array.mem_of_getElem? hs)).mp hoverlaps⟩
  · rintro ⟨s, hs, hbyte⟩
    exact ⟨(Array.getElem?_eq_some_iff.mp hs).1, s, hs,
      (howns s (Array.mem_of_getElem? hs)).mpr hbyte⟩

end

/-- Each is touched once, in order. -/
theorem pairwise_touched (m : RegisterMap) (offset length : Nat) :
    (m.touched offset length).Pairwise (· < ·) := List.pairwise_lt_range.filter _

/-- Where no block is found there is none. -/
theorem not_contains_of_find? {m : RegisterMap} {offset : Nat}
    (h : m.slots.find? (·.contains offset) = none) : ∀ s ∈ m.slots, s.contains offset = false := by
  intro s hs
  exact Bool.eq_false_iff.mpr (Array.find?_eq_none.mp h s hs)

/-- No block, no byte. -/
theorem byteAt_of_hole {m : RegisterMap} {offset : Nat}
    (h : ∀ s ∈ m.slots, s.contains offset = false) : m.byteAt offset = 0 := by
  have hnone : m.slots.find? (·.contains offset) = none :=
    Array.find?_eq_none.mpr fun s hs => Bool.eq_false_iff.mp (h s hs)
  rw [byteAt, hnone]

/-- A hole reaches to the next block. -/
theorem not_contains_of_lt_nextMapped {m : RegisterMap} {offset a : Nat}
    (h : m.slots.find? (·.contains offset) = none) (hstart : offset ≤ a)
    (hend : a < m.nextMapped offset) : ∀ s ∈ m.slots, s.contains a = false := by
  intro s hs
  have hoffset := Bool.eq_false_iff.mp (not_contains_of_find? h s hs)
  rw [ne_eq, RegisterSlot.contains_iff] at hoffset
  refine Bool.eq_false_iff.mpr fun hcontains => ?_
  rw [RegisterSlot.contains_iff] at hcontains
  -- The block starts past the offset, so the next one starts no later
  have hmem : s.base ∈ (m.slots.toList.map (·.base)).filter (offset < ·) := by
    refine List.mem_filter.mpr ⟨List.mem_map.mpr ⟨s, Array.mem_toList_iff.mpr hs, rfl⟩, ?_⟩
    exact decide_eq_true (by omega)
  unfold nextMapped at hend
  cases hmin : ((m.slots.toList.map (·.base)).filter (offset < ·)).min? with
  | none =>
    rw [List.min?_eq_none_iff.mp hmin] at hmem
    exact nomatch hmem
  | some base =>
    rw [hmin, Option.getD_some] at hend
    have := (List.min?_eq_some_iff.mp hmin).2 s.base hmem
    omega

end RegisterMap

end Console64

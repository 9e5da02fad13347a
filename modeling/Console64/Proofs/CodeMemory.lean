import Console64.Engine.Recompiler
import Console64.Proofs.WriteTracking

/-!
# Words of code

What a fetch finds at a physical address.  In main memory and in the cartridge this
depends on four bytes, which only a recorded write can change.  Elsewhere it does not, and
among the registers of the signal processor a fetch even has side effects.

## Key results

- `Bus.readWord_of_quiet`: reading code anywhere else changes nothing
- `Bus.wordAt_eq_of_tracked`: a word of code memory is the same until the log covers a byte
  of it
-/

namespace Console64

/-- The address lies in main memory or in the cartridge. -/
def inCodeMemory (a : UInt32) : Bool :=
  Region.rdram.contains a.toNat || Region.cartridge.contains a.toNat

/-- The address lies below both ends of code memory. -/
theorem lt_of_inCodeMemory {a : UInt32} (h : inCodeMemory a = true) : a.toNat < 0x1FC00000 := by
  simp only [inCodeMemory, Region.contains, Bool.or_eq_true, Bool.and_eq_true,
    decide_eq_true_eq] at h
  simp only [Region.stop, Region.base, Region.size] at h
  omega

/-- Code memory consists of whole pages. -/
theorem inCodeMemory_of_page {a b : UInt32} (h : inCodeMemory a = true)
    (hpage : a.toNat / 4096 = b.toNat / 4096) : inCodeMemory b = true := by
  simp only [inCodeMemory, Region.contains, Bool.or_eq_true, Bool.and_eq_true,
    decide_eq_true_eq] at h ⊢
  simp only [Region.stop, Region.base, Region.size] at h ⊢
  omega

/-- The address does not lie among the registers of the signal processor. -/
def quiet (a : UInt32) : Bool :=
  !(Region.sp.contains a.toNat &&
    decide (SignalProcessor.memoryWindow ≤ a.toNat - Region.sp.base))

/-- Such addresses lie below the registers of the signal processor or behind its window. -/
theorem quiet_iff {a : UInt32} : quiet a = true ↔ a.toNat < 0x04040000 ∨ 0x04100000 ≤ a.toNat := by
  simp only [quiet, Region.contains, Bool.not_eq_true', Bool.and_eq_false_iff,
    decide_eq_false_iff_not]
  simp only [Region.stop, Region.base, Region.size, SignalProcessor.memoryWindow]
  omega

/-- The registers fill whole pages. -/
theorem quiet_of_page {a b : UInt32} (h : quiet a = true)
    (hpage : a.toNat / 4096 = b.toNat / 4096) :
    quiet b = true := by
  rw [quiet_iff] at h ⊢
  omega

/-- Code memory is quiet. -/
theorem quiet_of_inCodeMemory {a : UInt32} (h : inCodeMemory a = true) : quiet a = true := by
  simp only [inCodeMemory, Region.contains, Bool.or_eq_true, Bool.and_eq_true,
    decide_eq_true_eq] at h
  simp only [Region.stop, Region.base, Region.size] at h
  rw [quiet_iff]
  omega

/-- An address belongs to the region whose window it lies in. -/
theorem Region.resolve_of_contains {a : UInt32} {r : Region} (h : r.contains a.toNat = true) :
    Region.resolve a = .ok (r, a.toNat - r.base) := by
  have hall : ∀ s : Region, s ∈ Region.all := by
    intro s
    cases s <;> decide
  simp only [Region.resolve]
  cases hfind : Region.all.find? (·.contains a.toNat) with
  | none => exact absurd h (List.find?_eq_none.mp hfind r (hall r))
  | some s =>
    have hs := List.find?_some hfind
    have heq : s = r := by
      -- Only one window holds the address
      apply Decidable.byContradiction
      intro hne
      have hdisjoint := Region.disjoint_windows s (hall s) r (hall r) hne
      simp only [Region.contains, Bool.and_eq_true, decide_eq_true_eq] at h hs
      omega
    rw [heq]

/-- There is nothing where nothing is mapped. -/
theorem quiet_of_unmapped {a : UInt32} {e : BusError} (h : Region.resolve a = .error e) :
    quiet a = true := by
  have hnot : Region.sp.contains a.toNat = false := by
    rw [← Bool.not_eq_true]
    intro hsp
    rw [Region.resolve_of_contains hsp] at h
    exact nomatch h
  simp only [quiet, hnot, Bool.false_and, Bool.not_false]

namespace Bus

/-- The word that a fetch finds at a physical address, if it finds one. -/
def wordAt (bus : Bus) (a : UInt32) : Option UInt32 :=
  match readWord a bus with
  | .ok word _ => some word
  | .error _ _ => none

/-- A byte of code memory. -/
def codeByte (bus : Bus) (a : Nat) : UInt8 :=
  if Region.rdram.contains a then bus.rdram.byteAt a
  else BigEndian.byteAt bus.cartridge.data (a - Region.cartridge.base)

/-- A word of code memory. -/
def codeWord (bus : Bus) (a : UInt32) : UInt32 :=
  (BigEndian.value ((List.range 4).map fun i => bus.codeByte (a.toNat + i))).toUInt32

/-- An aligned load of a word goes to one device as a whole. -/
private theorem read_four {bus : Bus} {a : UInt32} {r : Region} (halign : a.toNat % 4 = 0)
    (h : r.contains a.toNat = true) (hfits : a.toNat - r.base + 4 ≤ r.size) :
    read a 4 bus =
      .ok (bus.deviceLoad r (a.toNat - r.base) 4).1 (bus.deviceLoad r (a.toNat - r.base) 4).2 := by
  have hpower : Nat.isPowerOfTwo 4 := ⟨2, rfl⟩
  have htransfer : transferFor a 4 = .aligned := by
    simp only [transferFor, hpower, halign, decide_true, Bool.and_self, ↓reduceIte]
  have hroute : route .aligned a 4 = .ok [⟨r, a.toNat - r.base, 4⟩] := by
    simp only [route, alignedRun, Region.resolve_of_contains h, bind, Except.bind]
    rw [if_neg (Nat.not_lt.mpr hfits)]
    rfl
  simp only [read, load, loadSpan, htransfer, hroute, loadRuns, List.append_nil]

/-- Four bytes of code, as the device that owns them loads them. -/
private theorem read_code {a : UInt32} (halign : a.toNat % 4 = 0) (h : inCodeMemory a = true)
    (bus : Bus) :
    read a 4 bus = .ok ((List.range 4).map fun i => bus.codeByte (a.toNat + i)) bus := by
  simp only [inCodeMemory, Bool.or_eq_true] at h
  -- The two devices that hold code, each at its own offset
  rcases h with hrdram | hcart
  · have hbounds := hrdram
    simp only [Region.contains, Bool.and_eq_true, decide_eq_true_eq] at hbounds
    simp only [Region.stop, Region.base, Region.size] at hbounds
    rw [read_four halign hrdram (by simp only [Region.base, Region.size]; omega)]
    have hbytes : (bus.deviceLoad .rdram (a.toNat - Region.rdram.base) 4).1 =
        (List.range 4).map fun i => bus.codeByte (a.toNat + i) := by
      apply List.map_congr_left
      intro i hi
      rw [List.mem_range] at hi
      have hin : Region.rdram.contains (a.toNat + i) = true := by
        simp only [Region.contains, Bool.and_eq_true, decide_eq_true_eq]
        simp only [Region.stop, Region.base, Region.size]
        omega
      rw [codeByte, if_pos hin]
      rfl
    rw [hbytes]
    rfl
  · have hbounds := hcart
    simp only [Region.contains, Bool.and_eq_true, decide_eq_true_eq] at hbounds
    simp only [Region.stop, Region.base, Region.size] at hbounds
    rw [read_four halign hcart (by simp only [Region.base, Region.size]; omega)]
    have hbytes : (bus.deviceLoad .cartridge (a.toNat - Region.cartridge.base) 4).1 =
        (List.range 4).map fun i => bus.codeByte (a.toNat + i) := by
      apply List.map_congr_left
      intro i hi
      rw [List.mem_range] at hi
      have hout : ¬Region.rdram.contains (a.toNat + i) = true := by
        simp only [Region.contains, Bool.and_eq_true, decide_eq_true_eq]
        simp only [Region.stop, Region.base, Region.size]
        omega
      have hoffset : a.toNat + i - Region.cartridge.base = a.toNat - Region.cartridge.base + i := by
        simp only [Region.base]
        omega
      rw [codeByte, if_neg hout, hoffset]
    rw [hbytes]
    rfl

/-- Reading code has no side effect. -/
theorem readWord_of_inCodeMemory {a : UInt32} (halign : a.toNat % 4 = 0)
    (h : inCodeMemory a = true) (bus : Bus) : readWord a bus = .ok (bus.codeWord a) bus := by
  have hvalue : readValue a 4 bus = .ok (BigEndian.value _) bus :=
    bind_of_ok (read_code halign h bus)
  exact bind_of_ok hvalue

/-- It is the word that the compiler finds there. -/
theorem wordAt_of_inCodeMemory {a : UInt32} (halign : a.toNat % 4 = 0)
    (h : inCodeMemory a = true) (bus : Bus) : bus.wordAt a = some (bus.codeWord a) := by
  simp only [wordAt, readWord_of_inCodeMemory halign h]

/-- A load of an aligned word goes to at most one device, and changes it only among the
registers of the signal processor. -/
private theorem read_of_quiet {a : UInt32} (halign : a.toNat % 4 = 0) (h : quiet a = true)
    (bus : Bus) : stateOf (read a 4 bus) = bus := by
  have hpower : Nat.isPowerOfTwo 4 := ⟨2, rfl⟩
  have htransfer : transferFor a 4 = .aligned := by
    simp only [transferFor, hpower, halign, decide_true, Bool.and_self, ↓reduceIte]
  simp only [read, load, loadSpan, htransfer]
  cases hroute : route .aligned a 4 with
  | error e => rfl
  | ok runs =>
    simp only [route, alignedRun, bind, Except.bind] at hroute
    cases hres : Region.resolve a with
    | error e =>
      rw [hres] at hroute
      cases hroute
    | ok owner =>
      obtain ⟨region, offset⟩ := owner
      rw [hres] at hroute
      dsimp only at hroute
      by_cases hfits : region.size < offset + 4
      · rw [if_pos hfits] at hroute
        cases hroute
      · rw [if_neg hfits] at hroute
        cases hroute
        obtain ⟨hbase, hlt⟩ := resolve_lt hres
        -- The signal processor is read in its memory, and no other load has side effects
        cases region with
        | sp =>
          have hmemory : offset < SignalProcessor.memoryWindow := by
            rw [quiet_iff] at h
            simp only [Region.base, Region.size] at hbase hlt
            simp only [SignalProcessor.memoryWindow]
            omega
          simp only [loadRuns, deviceLoad, SignalProcessor.load, if_pos hmemory]
          rfl
        | _ => rfl

/-- Reading code changes nothing, except among the registers of the signal processor. -/
theorem readWord_of_quiet {a : UInt32} (halign : a.toNat % 4 = 0) (h : quiet a = true)
    (bus : Bus) : stateOf (readWord a bus) = bus := by
  have hread := read_of_quiet halign h bus
  -- Whether the load succeeds or not, the value that is made of its bytes asks for no more
  cases hrun : read a 4 bus with
  | ok bytes t =>
    rw [hrun] at hread
    have hvalue : readValue a 4 bus = .ok (BigEndian.value bytes) t := bind_of_ok hrun
    rw [readWord, bind_of_ok hvalue]
    exact hread
  | error e t =>
    rw [hrun] at hread
    have hvalue : readValue a 4 bus = .error e t := bind_of_error hrun
    rw [readWord, bind_of_error hvalue]
    exact hread

/-- A fetch from nowhere fails with nothing done. -/
theorem readWord_unmapped {a : UInt32} {e : BusError} (h : Region.resolve a = .error e)
    (bus : Bus) : readWord a bus = .error e bus := by
  have hroute : ∀ transfer, route transfer a 4 = .error e := by
    intro transfer
    cases transfer <;> simp only [route, alignedRun, runs, h, bind, Except.bind]
  have hread : read a 4 bus = .error e bus := by
    simp only [read, load, loadSpan, hroute]
  have hvalue : readValue a 4 bus = .error e bus := bind_of_error hread
  exact bind_of_error hvalue

/-- What is at an address does not depend on the log. -/
theorem wordAt_devices (bus : Bus) (a : UInt32) : bus.devices.wordAt a = bus.wordAt a := by
  have hsame : frame.same bus bus.devices := rfl
  cases h : readWord a bus with
  | ok word t =>
    obtain ⟨t', h', _⟩ := (readWord_respects a).same_ok hsame h
    simp only [wordAt, h, h']
  | error e t =>
    obtain ⟨t', h', _⟩ := (readWord_respects a).same_error hsame h
    simp only [wordAt, h, h']

/-- A word of code is the same until the log covers a byte of it. -/
theorem wordAt_eq_of_tracked {s t : Bus} (htracked : Tracked s t)
    (hwatch : s.writes.watching = true) {a : UInt32} (halign : a.toNat % 4 = 0)
    (h : inCodeMemory a = true) (hclear : ∀ i < 4, ¬t.writes.Covers (a.toNat + i)) :
    t.wordAt a = s.wordAt a := by
  -- The cartridge is never written to, and main memory not unrecorded
  have hbyte : ∀ i < 4, t.codeByte (a.toNat + i) = s.codeByte (a.toNat + i) := by
    intro i hi
    simp only [codeByte, htracked.cartridge]
    split
    · apply Decidable.byContradiction
      intro hne
      exact hclear i hi (htracked.changed hwatch hne)
    · rfl
  rw [wordAt_of_inCodeMemory halign h, wordAt_of_inCodeMemory halign h, codeWord, codeWord]
  have hbytes : ((List.range 4).map fun i => t.codeByte (a.toNat + i)) =
      (List.range 4).map fun i => s.codeByte (a.toNat + i) :=
    List.map_congr_left fun i hi => hbyte i (List.mem_range.mp hi)
  rw [hbytes]

end Bus

end Console64

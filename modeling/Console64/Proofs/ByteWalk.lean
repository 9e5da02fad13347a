import Console64.Proofs.BlockCopies
import Console64.Proofs.BusScript

/-!
# Unaligned loads byte by byte

A span that is routed byte by byte is cut where its owner changes, and each device is given a
whole run.  Whether that is the same as one load for each byte depends on the device: it must
give each byte of a run what it gives that byte alone.

All devices do, with one exception.  The signal processor decides by the first byte of a run
whether the run goes to its memory or to its registers, so that a run that begins in front of
the registers gets bytes of the memory in their place.  `servedFrom` tells which byte is served
instead.

## Key results

- `Bus.runs_cross`: a span that leaves a region is a run to the end of it and the runs of the rest
- `Bus.loadSpan_cross`: so is the load of it
- `Bus.deviceLoad_run`: the bytes that a device gives a run
- `Bus.loadSpan_served`: the bytes of an unaligned load, by induction on what is left of the span
- `Bus.unaligned_walk`: an unaligned load is a walk over the addresses that serve it
- `Bus.marked_strays`: a load that runs into the registers, where the two answers differ
-/

namespace Console64

/-- Where the semaphore is. -/
theorem SignalProcessor.semaphoreSlot_layout {s : SignalProcessor}
    (h : s.registers.layout = initial.registers.layout) :
    s.registers.layout[semaphoreSlot]? = some ⟨0x4001C, 1, .dual, .readWrite⟩ := by
  rw [h]
  decide +kernel

/-- Whether a device answers can be computed. -/
theorem mapped_iff {a : UInt32} : Mapped a ↔ (Region.resolve a).isOk = true := by
  rw [Mapped]
  cases Region.resolve a with
  | ok owner => exact ⟨fun _ => rfl, fun _ => ⟨owner, rfl⟩⟩
  | error e => simp [Except.isOk, Except.toBool]

instance (a : UInt32) : Decidable (Mapped a) := decidable_of_iff _ mapped_iff.symm

/-- Mapped addresses lie below the end of the last window. -/
theorem Mapped.toNat_lt {a : UInt32} (h : Mapped a) : a.toNat < 0x1FD00000 := by
  obtain ⟨⟨region, offset⟩, hres⟩ := h
  obtain ⟨hbase, hlt⟩ := Bus.resolve_lt hres
  have hstop : region.base + region.size ≤ 0x1FD00000 := by cases region <;> decide
  omega

namespace Bus

variable {bus : Bus} {address : UInt32} {region : Region} {offset length n : Nat}

/-! ## Spans and walks -/

/-- The addresses of a span, first to last. -/
def span (address : UInt32) (length : Nat) : List UInt32 :=
  (List.range length).map fun i => address + UInt32.ofNat i

/-- One load after the other, of a byte each. -/
def walk : List UInt32 → BusM (List UInt8)
  | [] => pure []
  | a :: rest => do
    let byte ← load .unaligned a 1
    let others ← walk rest
    return byte ++ others

/-- The addresses of a span are so many from the first one on, -/
theorem mem_span {a : UInt32} :
    a ∈ span address length ↔ ∃ i < length, address + UInt32.ofNat i = a := by
  simp only [span, List.mem_map, List.mem_range]

/-- and what is true of each place is true of each address. -/
theorem forall_span {P : UInt32 → Prop} :
    (∀ a ∈ span address length, P a) ↔ ∀ i < length, P (address + UInt32.ofNat i) := by
  simp only [span, List.forall_mem_map, List.mem_range]

/-- A span in two parts. -/
theorem span_add (address : UInt32) (n length : Nat) :
    span address (n + length) = span address n ++ span (address + UInt32.ofNat n) length := by
  simp only [span, List.range_add, List.map_append, List.map_map, Function.comp_def,
    add_ofNat_add]

/-- A span that is mapped everywhere does not wrap. -/
theorem toNat_span (hmapped : ∀ a ∈ span address length, Mapped a) {i : Nat} (hi : i < length) :
    (address + UInt32.ofNat i).toNat = address.toNat + i := by
  induction i with
  | zero => rw [add_ofNat_zero, Nat.add_zero]
  | succ i ih =>
    have hlast := (hmapped _ (mem_span.mpr ⟨i, by omega, rfl⟩)).toNat_lt
    rw [ih (by omega)] at hlast
    have hstep : address + UInt32.ofNat (i + 1) = address + UInt32.ofNat i + 1 := by
      rw [UInt32.ofNat_add, ← UInt32.add_assoc]
      rfl
    rw [hstep, UInt32.toNat_add, ih (by omega), UInt32.toNat_one, Nat.mod_eq_of_lt (by omega)]
    rfl

/-! ## Runs -/

/-- The first run begins where the span does. -/
private theorem resolve_head {r : Run} {others : List Run}
    (h : runs address length = .ok (r :: others)) :
    Region.resolve address = .ok (r.region, r.offset) := by
  cases length with
  | zero => exact nomatch h
  | succ length =>
    obtain ⟨region, offset, rest, hres, -, hfirst | ⟨n, others', -, hfirst⟩⟩ := runs_succ h
    · cases hfirst
      exact hres
    · cases hfirst
      exact hres

/-- A span that leaves a region is a run to the end of it, and the runs of the rest. -/
theorem runs_cross (haddress : region.base + offset = address.toNat)
    (hend : offset + n = region.size) (hpos : 0 < n) {rest : List Run}
    (hrest : runs (address + UInt32.ofNat n) length = .ok rest) :
    runs address (n + length) = .ok (⟨region, offset, n⟩ :: rest) := by
  -- Induction on the run, from its last byte to its first
  induction n generalizing address offset with
  | zero => exact absurd hpos (Nat.lt_irrefl 0)
  | succ n ih =>
    have hres := resolve_inside haddress (by omega : offset < region.size)
    rw [Nat.succ_add, runs, hres]
    rcases Nat.eq_zero_or_pos n with rfl | hn
    · have hnext : (address + 1).toNat = region.base + region.size := by
        rw [← hend]
        exact (toNat_add_inside haddress (Nat.le_of_eq hend)).symm
      rw [Nat.zero_add]
      have hrest' : runs (address + 1) length = .ok rest := hrest
      rw [hrest']
      cases rest with
      | nil => rfl
      | cons r others =>
        -- What follows belongs to another region
        have hother : r.region ≠ region := by
          rintro rfl
          obtain ⟨hbase, hlt⟩ := resolve_lt (resolve_head hrest')
          omega
        simp [bind, Except.bind, pure, Except.pure, hother]
    · have hnext : region.base + (offset + 1) = (address + 1).toNat :=
        toNat_add_inside haddress (by omega)
      have htail := ih hnext (by omega) hn (by rw [add_one_add]; exact hrest)
      rw [htail]
      simp [bind, Except.bind, pure, Except.pure]

/-- A load of such a span loads that run, and then the rest. -/
theorem loadSpan_cross (haddress : region.base + offset = address.toNat)
    (hend : offset + n = region.size) (hpos : 0 < n) {bytes others : List UInt8} {mid after : Bus}
    (hfirst : bus.deviceLoad region offset n = (bytes, mid))
    (hrest : loadSpan .unaligned (address + UInt32.ofNat n) length mid = .ok others after) :
    loadSpan .unaligned address (n + length) bus = .ok (bytes ++ others) after := by
  simp only [loadSpan, route] at hrest ⊢
  cases hruns : runs (address + UInt32.ofNat n) length with
  | error e =>
    rw [hruns] at hrest
    cases hrest
  | ok rest =>
    rw [hruns] at hrest
    injection hrest with hothers hafter
    simp only [runs_cross haddress hend hpos hruns, loadRuns, hfirst, hothers, hafter]

/-! ## What a device gives a run -/

/-- The byte that the device of a region gives at `offset`, in a run that begins at `start`. -/
def runByte (bus : Bus) (region : Region) (start offset : Nat) : UInt8 :=
  if region = .sp ∧ start < SignalProcessor.memoryWindow then
    bus.sp.registers.byteAt (offset % SignalProcessor.memorySize)
  else bus.byteOf region offset

/-- The address belongs to the SP semaphore, which a load takes. -/
def OnSemaphore (a : UInt32) : Prop := 0x0404001C ≤ a.toNat ∧ a.toNat < 0x04040020

instance (a : UInt32) : Decidable (OnSemaphore a) := inferInstanceAs (Decidable (_ ∧ _))

/-- The semaphore is in its place. -/
private theorem Wired.semaphore (h : bus.Wired) :
    bus.sp.registers.layout[SignalProcessor.semaphoreSlot]? =
      some ⟨0x4001C, 1, .dual, .readWrite⟩ := SignalProcessor.semaphoreSlot_layout h.sp

/-- Behind the memory window each byte is that of a register. -/
private theorem byteOf_register (hbehind : SignalProcessor.memoryWindow ≤ offset) :
    bus.byteOf .sp offset = bus.sp.registers.byteAt offset := by
  simp only [byteOf, deviceLoad, SignalProcessor.load, if_neg (Nat.not_lt.mpr hbehind)]
  split <;> rfl

/-- Loads outside of the semaphore change nothing, and give each byte of a run by itself. -/
theorem deviceLoad_run (h : bus.Wired) (hpos : 0 < length)
    (hfree : ∀ i < length, region = .sp → ¬ (0x4001C ≤ offset + i ∧ offset + i < 0x40020)) :
    bus.deviceLoad region offset length =
      (bytesFrom (bus.runByte region offset) offset length, bus) := by
  cases region with
  | sp =>
    by_cases hstart : offset < SignalProcessor.memoryWindow
    · simp only [deviceLoad, SignalProcessor.load, bytesFrom, runByte, hstart, and_self, if_true]
    · have huntouched : SignalProcessor.semaphoreSlot ∉
          bus.sp.registers.touched offset length := by
        rw [RegisterMap.mem_touched_of_layout h.semaphore]
        simp only [RegisterShape.overlaps, RegisterShape.stop, Bool.and_eq_true, decide_eq_true_eq]
        rintro ⟨hbelow, habove⟩
        have hbelow : offset < 0x40020 := of_decide_eq_true hbelow
        -- The first byte of the run that is not in front of the semaphore
        exact hfree (max offset 0x4001C - offset) (by omega) rfl (by omega)
      simp only [deviceLoad, SignalProcessor.load, if_neg hstart, if_neg huntouched, bytesFrom,
        RegisterMap.load, Prod.mk.injEq, and_true]
      apply List.map_congr_left
      intro i _
      rw [runByte, if_neg (fun hmemory => hstart hmemory.2), byteOf_register (by omega)]
  | _ => rfl

/-! ## The bytes of an unaligned load -/

/-- The address lies behind the memory window of the SP, and the run in which a load from
`address` on reaches it begins inside that window. -/
def Strays (address a : UInt32) : Prop :=
  address.toNat < 0x04040000 ∧ 0x04040000 ≤ a.toNat ∧ a.toNat < 0x04100000

instance (address a : UInt32) : Decidable (Strays address a) :=
  inferInstanceAs (Decidable (_ ∧ _ ∧ _))

/-- The address whose byte an unaligned load from `address` on gives for the one at `a`: where
it strays, an address of the SP memory, as if the window went on. -/
def servedFrom (address a : UInt32) : UInt32 :=
  if Strays address a then
    SignalProcessor.memoryBase + UInt32.ofNat (a.toNat % SignalProcessor.memorySize)
  else a

/-- The byte at an address in the memory window. -/
private theorem byteOn_memory {a : UInt32} (hstart : 0x04000000 ≤ a.toNat)
    (hend : a.toNat < 0x04040000) :
    bus.byteOn a = bus.sp.registers.byteAt (a.toNat % SignalProcessor.memorySize) := by
  -- An address of the window is an offset from its base
  have ha : Region.sp.base + (a.toNat - 0x04000000) = a.toNat := by
    simp only [Region.base]
    omega
  have hwindow : a.toNat - 0x04000000 < SignalProcessor.memoryWindow := by
    simp only [SignalProcessor.memoryWindow]
    omega
  have hoffset : (a.toNat - 0x04000000) % SignalProcessor.memorySize =
      a.toNat % SignalProcessor.memorySize := by
    simp only [SignalProcessor.memorySize]
    omega
  rw [byteOn_of_resolve (resolve_inside ha (by simp only [Region.size]; omega)),
    byteOf_window bus hwindow, hoffset]

/-- In the SP memory, which repeats in its window. -/
theorem toNat_served {a : UInt32} (h : Strays address a) :
    (servedFrom address a).toNat = 0x04000000 + a.toNat % SignalProcessor.memorySize := by
  rw [servedFrom, if_pos h, UInt32.toNat_add, UInt32.toNat_ofNat',
    show SignalProcessor.memoryBase.toNat = 0x04000000 from rfl, SignalProcessor.memorySize]
  omega

/-- A run that begins in the memory window gives bytes of the memory, also behind the window. -/
private theorem memory_served (haddress : Region.sp.base + offset = address.toNat)
    (hstart : offset < SignalProcessor.memoryWindow) {i : Nat}
    (hi : offset + i < Region.sp.size) :
    bus.sp.registers.byteAt ((offset + i) % SignalProcessor.memorySize) =
      bus.byteOn (servedFrom address (address + UInt32.ofNat i)) := by
  have ha := toNat_add_inside haddress (Nat.le_of_lt hi)
  simp only [Region.base, Region.size, SignalProcessor.memoryWindow] at haddress ha hi hstart
  have hoffset : (offset + i) % SignalProcessor.memorySize =
      (address + UInt32.ofNat i).toNat % SignalProcessor.memorySize := by
    simp only [SignalProcessor.memorySize]
    omega
  rw [hoffset]
  by_cases hstrays : Strays address (address + UInt32.ofNat i)
  · -- The byte of the memory that would be there if the window went on
    have hserved := toNat_served hstrays
    rw [SignalProcessor.memorySize] at hserved
    rw [byteOn_memory (by omega) (by omega), hserved, SignalProcessor.memorySize]
    congr 1
    omega
  · rw [servedFrom, if_neg hstrays, byteOn_memory (by omega)]
    rw [Strays] at hstrays
    omega

/-- A load that begins anywhere else does not stray in its first run. -/
private theorem not_strays (haddress : region.base + offset = address.toNat)
    (hother : ¬ (region = .sp ∧ offset < SignalProcessor.memoryWindow)) {a : UInt32}
    (hbelow : a.toNat < region.base + region.size) : ¬ Strays address a := by
  have hwindow : region ≠ .sp → region.base + region.size ≤ 0x04000000 ∨
      0x04100000 ≤ region.base := by
    cases region <;> decide
  rintro ⟨hbefore, hbehind, hend⟩
  by_cases hsp : region = .sp
  · subst hsp
    simp only [Region.base, SignalProcessor.memoryWindow, true_and] at haddress hother
    omega
  · have := hwindow hsp
    omega

/-- The run that a load begins with gives what serves its addresses. -/
private theorem runByte_served (haddress : region.base + offset = address.toNat) {i : Nat}
    (hi : offset + i < region.size) :
    bus.runByte region offset (offset + i) =
      bus.byteOn (servedFrom address (address + UInt32.ofNat i)) := by
  have ha := toNat_add_inside haddress (Nat.le_of_lt hi)
  by_cases hmemory : region = .sp ∧ offset < SignalProcessor.memoryWindow
  · rw [runByte, if_pos hmemory]
    obtain ⟨rfl, hstart⟩ := hmemory
    exact memory_served haddress hstart hi
  · rw [runByte, if_neg hmemory, servedFrom,
      if_neg (not_strays haddress hmemory (by rw [← ha]; exact Nat.add_lt_add_left hi _)),
      byteOn_of_resolve (resolve_inside ha hi)]

/-- What the first run of a load gives. -/
private theorem deviceLoad_served (h : bus.Wired) (haddress : region.base + offset = address.toNat)
    (hpos : 0 < length) (hinside : offset + length ≤ region.size)
    (hfree : ∀ a ∈ span address length, ¬ OnSemaphore a) :
    bus.deviceLoad region offset length =
      ((span address length).map fun a => bus.byteOn (servedFrom address a), bus) := by
  -- No offset of the run is that of the semaphore
  have hoff : ∀ i < length, region = .sp → ¬ (0x4001C ≤ offset + i ∧ offset + i < 0x40020) := by
    rintro i hi rfl hsemaphore
    have ha := toNat_add_inside haddress (by omega : offset + i ≤ Region.sp.size)
    apply forall_span.mp hfree i hi
    rw [OnSemaphore, ← ha]
    simp only [Region.base]
    omega
  rw [deviceLoad_run h hpos hoff, bytesFrom, span, List.map_map]
  congr 1
  apply List.map_congr_left
  intro i hi
  have hi : i < length := List.mem_range.mp hi
  exact runByte_served haddress (by omega)

/-- Past the end of a region a load strays as one that begins there. -/
private theorem servedFrom_cross (haddress : region.base + offset = address.toNat)
    (hoffset : offset < region.size) {next a : UInt32}
    (hnext : next.toNat = region.base + region.size) (ha : next.toNat ≤ a.toNat) :
    servedFrom address a = servedFrom next a := by
  have hstop : region.base + region.size ≤ 0x04000000 ∨
      0x04100000 ≤ region.base + region.size := by
    cases region <;> decide
  have hsame : Strays address a ↔ Strays next a := by
    simp only [Strays]
    omega
  simp only [servedFrom, hsame]

/-- An unaligned load that keeps off the semaphore gives the bytes at the addresses that serve
it, and changes nothing. -/
theorem loadSpan_served (h : bus.Wired) (hmapped : ∀ a ∈ span address length, Mapped a)
    (hfree : ∀ a ∈ span address length, ¬ OnSemaphore a) :
    loadSpan .unaligned address length bus =
      .ok ((span address length).map fun a => bus.byteOn (servedFrom address a)) bus := by
  -- Induction on what is left of the span, one region after the other
  induction length using Nat.strong_induction_on generalizing address with
  | _ length ih =>
    rcases Nat.eq_zero_or_pos length with rfl | hpos
    · rfl
    obtain ⟨⟨region, offset⟩, hres⟩ := hmapped address (mem_span.mpr ⟨0, hpos, UInt32.add_zero _⟩)
    obtain ⟨haddress, hoffset⟩ := resolve_lt hres
    by_cases hinside : offset + length ≤ region.size
    · rw [loadSpan_inside haddress hinside hpos, deviceLoad_served h haddress hpos hinside hfree]
    · obtain ⟨n, hn⟩ : ∃ n, offset + n = region.size := ⟨region.size - offset, by omega⟩
      obtain ⟨left, rfl⟩ : ∃ left, length = n + left := ⟨length - n, by omega⟩
      have hnext := toNat_add_inside haddress (Nat.le_of_eq hn)
      simp only [span_add, List.forall_mem_append] at hmapped hfree
      have hfirst := deviceLoad_served h haddress (by omega) (Nat.le_of_eq hn) hfree.1
      have hrest := ih left (by omega) hmapped.2 hfree.2
      -- What serves the rest does not depend on where the load began
      have hserved : (span (address + UInt32.ofNat n) left).map (fun a =>
          bus.byteOn (servedFrom (address + UInt32.ofNat n) a)) =
          (span (address + UInt32.ofNat n) left).map fun a =>
            bus.byteOn (servedFrom address a) := by
        apply List.map_congr_left
        intro a ha
        obtain ⟨i, hi, rfl⟩ := mem_span.mp ha
        rw [servedFrom_cross haddress hoffset (hn ▸ hnext.symm)]
        rw [toNat_span hmapped.2 hi]
        exact Nat.le_add_right _ _
      rw [loadSpan_cross haddress hn (by omega) hfirst hrest, hserved, span_add, List.map_append]

/-! ## Loads and walks -/

/-- A load of one byte gives that byte. -/
private theorem load_byte (h : bus.Wired) {a : UInt32} (hmapped : Mapped a)
    (hfree : ¬ OnSemaphore a) : load .unaligned a 1 bus = .ok [bus.byteOn a] bus := by
  have hspan : span a 1 = [a] := by rw [span, List.range_one, List.map_singleton, add_ofNat_zero]
  have hhere : servedFrom a a = a := if_neg fun ⟨hbefore, hbehind, _⟩ => by omega
  rw [load, loadSpan_served h (by simpa [hspan] using hmapped) (by simpa [hspan] using hfree),
    hspan, List.map_singleton, hhere]

/-- So does a walk, one address after the other. -/
theorem walk_eq (h : bus.Wired) {addresses : List UInt32}
    (hmapped : ∀ a ∈ addresses, Mapped a ∧ ¬ OnSemaphore a) :
    walk addresses bus = .ok (addresses.map bus.byteOn) bus := by
  induction addresses with
  | nil => rfl
  | cons a rest ih =>
    rw [List.forall_mem_cons] at hmapped
    obtain ⟨⟨hfirst, hfree⟩, hrest⟩ := hmapped
    rw [walk, bind_of_ok (load_byte h hfirst hfree), bind_of_ok (ih hrest)]
    rfl

/-- The address that serves another one is mapped like it, and not the semaphore either. -/
private theorem served_free {a : UInt32} (hmapped : Mapped a) (hfree : ¬ OnSemaphore a) :
    Mapped (servedFrom address a) ∧ ¬ OnSemaphore (servedFrom address a) := by
  by_cases hstrays : Strays address a
  · have hserved := toNat_served hstrays
    rw [SignalProcessor.memorySize] at hserved
    refine ⟨⟨(.sp, a.toNat % 0x2000), resolve_inside hserved.symm ?_⟩, ?_⟩
    · simp only [Region.size]
      omega
    · rw [OnSemaphore]
      omega
  · rw [servedFrom, if_neg hstrays]
    exact ⟨hmapped, hfree⟩

/-- An unaligned load of mapped addresses that keeps off the semaphore succeeds and changes
nothing, and its bytes are those of a walk, byte by byte, over the addresses that serve it.
Unless it strays, these are the addresses of the span. -/
theorem unaligned_walk (h : bus.Wired) (hmapped : ∀ a ∈ span address length, Mapped a)
    (hfree : ∀ a ∈ span address length, ¬ OnSemaphore a) :
    (∃ bytes, load .unaligned address length bus = .ok bytes bus ∧ bytes.length = length) ∧
    load .unaligned address length bus = walk ((span address length).map (servedFrom address)) bus ∧
    ((∀ a ∈ span address length, ¬ Strays address a) →
      load .unaligned address length bus = walk (span address length) bus) := by
  -- Byte by byte, each of them from where the first run of the load serves it
  have hload := loadSpan_served h hmapped hfree
  have hwalk : load .unaligned address length bus =
      walk ((span address length).map (servedFrom address)) bus := by
    rw [load, hload, walk_eq h, List.map_map]
    · rfl
    · intro a' ha'
      obtain ⟨a, ha, rfl⟩ := List.mem_map.mp ha'
      exact served_free (hmapped a ha) (hfree a ha)
  refine ⟨⟨_, hload, ?_⟩, hwalk, fun hstays => ?_⟩
  · rw [List.length_map, span, List.length_map, List.length_range]
  · have hsame : (span address length).map (servedFrom address) = span address length :=
      (List.map_congr_left fun a ha => if_neg (hstays a ha)).trans (List.map_id _)
    rw [hwalk, hsame]

/-- At the end of main memory a load goes on in the registers behind it; in front of the SP
registers it goes on in the SP memory, and gives the first two bytes of that. -/
theorem unaligned_walk_at_borders :
    let bus := initial .smallest 0x120
    load .unaligned 0x03EFFFFE 4 bus =
        walk [0x03EFFFFE, 0x03EFFFFF, 0x03F00000, 0x03F00001] bus ∧
      load .unaligned 0x0403FFFE 4 bus =
        walk [0x0403FFFE, 0x0403FFFF, 0x04000000, 0x04000001] bus := by
  intro bus
  have hwired : bus.Wired := wired_initial _ _
  have hdram : ∀ a ∈ span 0x03EFFFFE 4, Mapped a ∧ ¬ OnSemaphore a ∧ ¬ Strays 0x03EFFFFE a :=
    forall_span.mpr (by decide)
  have hsp : ∀ a ∈ span 0x0403FFFE 4, Mapped a ∧ ¬ OnSemaphore a :=
    forall_span.mpr (by decide)
  constructor
  · exact (unaligned_walk hwired (fun a ha => (hdram a ha).1)
      (fun a ha => (hdram a ha).2.1)).2.2 fun a ha => (hdram a ha).2.2
  · exact (unaligned_walk hwired (fun a ha => (hsp a ha).1) (fun a ha => (hsp a ha).2)).2.1

/-- The signal processor with one byte stored into its memory. -/
def marked : Bus := perform [.store .aligned 0x04000000 [0xFF]] (initial .smallest 0x120)

/-- A load of two bytes runs from the SP memory into the SP registers, and gives the first byte of
the memory for that of the first register. -/
theorem marked_strays :
    marked.Wired ∧ (∀ a ∈ span 0x0403FFFF 2, Mapped a ∧ ¬ OnSemaphore a) ∧
      answerOf (load .unaligned 0x0403FFFF 2 marked) = some [0, 0xFF] ∧
      answerOf (walk (span 0x0403FFFF 2) marked) = some [0, 0] := by
  refine ⟨(wired_initial _ _).perform _, forall_span.mpr (by decide), ?_, ?_⟩
  · decide +kernel
  · decide +kernel

end Bus

end Console64

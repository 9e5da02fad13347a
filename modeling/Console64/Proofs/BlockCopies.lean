import Console64.Proofs.DeviceCopy
import Console64.Proofs.FirstVisit
import Console64.Proofs.TransferRequests

/-!
# Block copies as copies of bytes

A block copy moves four bytes at a time; each four are split into runs of single devices on
the way out and on the way in, and any of them may turn out to be unmapped.  Into main
memory and the cartridge, none of this shows: byte after byte arrives, up to the first four
bytes of which one is unmapped on either side, and nothing else changes.

## Key results

- `Bus.loadSpan_quiet` / `Bus.loadSpan_unmapped`: a load of some bytes loads each of them, or
  fails at one that is unmapped
- `Bus.Copied`: so many bytes have arrived, and nothing else has changed
- `Bus.Copied.chunk`: what the next four bytes do to that
- `Bus.copyThrough_outcome`: a block copy ends with all bytes, or at an unmapped address
- `Bus.copy_exact`: how many bytes are moved, and what a copy answers
-/

namespace Console64

/-- A device answers at the address. -/
def Mapped (a : UInt32) : Prop := ∃ owner, Region.resolve a = .ok owner

/-- No device answers at the address. -/
def Unmapped (a : UInt32) : Prop := Region.resolve a = .error (.unmapped a)

/-- An address is one or the other, -/
theorem mapped_or_unmapped (a : UInt32) : Mapped a ∨ Unmapped a := by
  simp only [Mapped, Unmapped, Region.resolve]
  split
  · exact .inl ⟨_, rfl⟩
  · exact .inr rfl

/-- and not both. -/
theorem Mapped.not_unmapped {a : UInt32} (h : Mapped a) : ¬ Unmapped a := by
  obtain ⟨owner, howner⟩ := h
  intro hun
  exact nomatch howner.symm.trans hun

/-- A span is mapped everywhere, or at some address it is not. -/
theorem mapped_span (a : UInt32) (length : Nat) :
    (∀ i < length, Mapped (a + UInt32.ofNat i)) ∨ ∃ i < length, Unmapped (a + UInt32.ofNat i) := by
  by_cases hun : ∃ i < length, Unmapped (a + UInt32.ofNat i)
  · exact .inr hun
  · left
    intro i hi
    apply (mapped_or_unmapped _).resolve_right
    intro hthere
    exact hun ⟨i, hi, hthere⟩

/-- Places in a span are counted from any byte of it: -/
theorem add_ofNat_add (a : UInt32) (i k : Nat) :
    a + UInt32.ofNat i + UInt32.ofNat k = a + UInt32.ofNat (i + k) := by
  rw [UInt32.ofNat_add, UInt32.add_assoc]

/-- from the first, -/
theorem add_ofNat_zero (a : UInt32) : a + UInt32.ofNat 0 = a := UInt32.add_zero a

/-- or from the one behind it. -/
theorem add_one_add (a : UInt32) (i : Nat) :
    a + 1 + UInt32.ofNat i = a + UInt32.ofNat (i + 1) := by
  rw [Nat.add_comm i 1]
  exact add_ofNat_add a 1 i

namespace Bus

/-! ## Loads byte by byte -/

/-- The byte that a device shows at `offset`. -/
def byteOf (bus : Bus) (region : Region) (offset : Nat) : UInt8 :=
  (bus.deviceLoad region offset 1).1.headD 0

/-- The byte at an address, zero if it is unmapped. -/
def byteOn (bus : Bus) (a : UInt32) : UInt8 :=
  match Region.resolve a with
  | .ok (region, offset) => bus.byteOf region offset
  | .error _ => 0

/-- The bytes from an address on. -/
def bytesOn (bus : Bus) (a : UInt32) (length : Nat) : List UInt8 :=
  bytesFrom (fun i => bus.byteOn (a + UInt32.ofNat i)) 0 length

/-- The bytes can be loaded without side effects: they do not reach the registers of the signal
processor. -/
def Run.Quiet (r : Run) : Prop :=
  r.region = .sp → r.offset + r.length ≤ SignalProcessor.memoryWindow

/-- In its window the memory of the signal processor repeats. -/
theorem byteOf_window (bus : Bus) {offset : Nat} (h : offset < SignalProcessor.memoryWindow) :
    bus.byteOf .sp offset = bus.sp.registers.byteAt (offset % SignalProcessor.memorySize) := by
  simp only [byteOf, deviceLoad, SignalProcessor.load, if_pos h]
  rfl

/-- So what is loaded from the window are its bytes, and the loads change nothing. -/
private theorem deviceLoad_sp (bus : Bus) {offset length : Nat}
    (hlength : offset + length ≤ SignalProcessor.memoryWindow) (hpos : 0 < length) :
    bus.deviceLoad .sp offset length = (bytesFrom (bus.byteOf .sp) offset length, bus) := by
  have hstart : offset < SignalProcessor.memoryWindow := by omega
  simp only [deviceLoad, SignalProcessor.load, if_pos hstart, bytesFrom, Prod.mk.injEq, and_true]
  apply List.map_congr_left
  intro i hi
  have hi : i < length := List.mem_range.mp hi
  exact (byteOf_window bus (by omega)).symm

/-- A load shows what is there, and outside the registers of the signal processor it changes
nothing. -/
private theorem deviceLoad_quiet (bus : Bus) {r : Run} (h : Run.Quiet r) (hpos : 0 < r.length) :
    bus.deviceLoad r.region r.offset r.length =
      (bytesFrom (bus.byteOf r.region) r.offset r.length, bus) := by
  obtain ⟨region, offset, length⟩ := r
  cases region with
  | sp => exact deviceLoad_sp bus (h rfl) hpos
  | _ => rfl

/-- The first of the bytes, and those behind it. -/
private theorem bytesOn_succ (bus : Bus) (a : UInt32) (length : Nat) :
    bus.bytesOn a (length + 1) = bus.byteOn a :: bus.bytesOn (a + 1) length := by
  rw [bytesOn, bytesFrom_succ, add_ofNat_zero, bytesOn]
  simp only [bytesFrom, Nat.zero_add, add_one_add, Nat.add_comm 1]

/-- The byte at an address is that of the device which answers there. -/
theorem byteOn_of_resolve {bus : Bus} {a : UInt32} {region : Region} {offset : Nat}
    (h : Region.resolve a = .ok (region, offset)) : bus.byteOn a = bus.byteOf region offset := by
  rw [byteOn, h]

/-- A quiet address in the signal processor is in the window of its memory. -/
private theorem lt_window_of_quiet {a : UInt32} (h : quiet a = true) {offset : Nat}
    (hresolve : Region.resolve a = .ok (.sp, offset)) :
    offset + 1 ≤ SignalProcessor.memoryWindow := by
  obtain ⟨hbase, hlt⟩ := resolve_lt hresolve
  rw [quiet_iff] at h
  simp only [Region.base, Region.size] at hbase hlt
  simp only [SignalProcessor.memoryWindow]
  omega

/-- The runs of a span show its bytes, one after the other. -/
private theorem loadRuns_quiet (bus : Bus) {a : UInt32} {length : Nat}
    (hquiet : ∀ i < length, quiet (a + UInt32.ofNat i) = true) {rs : List Run}
    (h : runs a length = .ok rs) :
    (∀ r ∈ rs, Run.Quiet r ∧ 0 < r.length) ∧
      rs.flatMap (fun r => bytesFrom (bus.byteOf r.region) r.offset r.length) =
        bus.bytesOn a length := by
  induction length generalizing a rs with
  | zero =>
    cases h
    exact ⟨fun r hr => (nomatch hr), rfl⟩
  | succ length ih =>
    have hfirst := hquiet 0 (Nat.succ_pos length)
    rw [add_ofNat_zero] at hfirst
    have hlater : ∀ i < length, quiet (a + 1 + UInt32.ofNat i) = true := by
      intro i hi
      rw [add_one_add]
      exact hquiet (i + 1) (Nat.succ_lt_succ hi)
    -- The first byte is a run of its own, or lengthens the one behind it
    obtain ⟨region, offset, rest, hresolve, hrest, rfl | ⟨n, others, rfl, rfl⟩⟩ := runs_succ h
    · obtain ⟨hruns, hbytes⟩ := ih hlater hrest
      have hhead : Run.Quiet ⟨region, offset, 1⟩ := by
        rintro rfl
        exact lt_window_of_quiet hfirst hresolve
      refine ⟨List.forall_mem_cons.mpr ⟨⟨hhead, Nat.one_pos⟩, hruns⟩, ?_⟩
      rw [List.flatMap_cons, hbytes, bytesOn_succ, byteOn_of_resolve hresolve]
      rfl
    · obtain ⟨hruns, hbytes⟩ := ih hlater hrest
      rw [List.forall_mem_cons] at hruns
      obtain ⟨⟨hquietHead, -⟩, hothers⟩ := hruns
      have hhead : Run.Quiet ⟨region, offset, n + 1⟩ := by
        intro hsp
        have hend := hquietHead hsp
        dsimp only at hend ⊢
        omega
      refine ⟨List.forall_mem_cons.mpr ⟨⟨hhead, Nat.succ_pos n⟩, hothers⟩, ?_⟩
      rw [List.flatMap_cons] at hbytes ⊢
      rw [bytesFrom_succ, List.cons_append, hbytes, bytesOn_succ, byteOn_of_resolve hresolve]

/-- So the loads from them give these bytes and change nothing. -/
private theorem loadRuns_eq (bus : Bus) {rs : List Run}
    (h : ∀ r ∈ rs, Run.Quiet r ∧ 0 < r.length) :
    bus.loadRuns rs =
      (rs.flatMap (fun r => bytesFrom (bus.byteOf r.region) r.offset r.length), bus) := by
  induction rs with
  | nil => rfl
  | cons r rest ih =>
    rw [List.forall_mem_cons] at h
    simp only [loadRuns, deviceLoad_quiet bus h.1.1 h.1.2, ih h.2, List.flatMap_cons]

/-- Runs are found where everything is mapped. -/
theorem exists_runs {a : UInt32} {length : Nat}
    (h : ∀ i < length, Mapped (a + UInt32.ofNat i)) : ∃ rs, runs a length = .ok rs := by
  induction length generalizing a with
  | zero => exact ⟨[], rfl⟩
  | succ length ih =>
    obtain ⟨owner, howner⟩ := h 0 (Nat.succ_pos length)
    rw [add_ofNat_zero] at howner
    have hlater : ∀ i < length, Mapped (a + 1 + UInt32.ofNat i) := by
      intro i hi
      rw [add_one_add]
      exact h (i + 1) (Nat.succ_lt_succ hi)
    obtain ⟨rest, hrest⟩ := ih hlater
    -- The first byte joins the run behind it, or is a run of its own
    simp only [runs, howner, hrest, bind, Except.bind]
    split
    · split
      · exact ⟨_, rfl⟩
      · exact ⟨_, rfl⟩
    · exact ⟨_, rfl⟩

/-- Otherwise the first unmapped address is reported. -/
private theorem runs_unmapped {a : UInt32} {length : Nat}
    (h : ∃ i < length, Unmapped (a + UInt32.ofNat i)) :
    ∃ i < length, Unmapped (a + UInt32.ofNat i) ∧
      runs a length = .error (.unmapped (a + UInt32.ofNat i)) := by
  induction length generalizing a with
  | zero =>
    obtain ⟨i, hi, -⟩ := h
    exact absurd hi (Nat.not_lt_zero i)
  | succ length ih =>
    -- If the first address is mapped, it is one further on
    rcases mapped_or_unmapped a with ⟨owner, howner⟩ | hfirst
    · have hlater : ∃ i < length, Unmapped (a + 1 + UInt32.ofNat i) := by
        obtain ⟨i, hi, hun⟩ := h
        cases i with
        | zero =>
          rw [add_ofNat_zero] at hun
          exact absurd hun (Mapped.not_unmapped ⟨owner, howner⟩)
        | succ i => exact ⟨i, Nat.lt_of_succ_lt_succ hi, by rwa [add_one_add]⟩
      obtain ⟨i, hi, hun, hruns⟩ := ih hlater
      rw [add_one_add] at hun hruns
      exact ⟨i + 1, Nat.succ_lt_succ hi, hun, by simp only [runs, howner, hruns, bind, Except.bind]⟩
    · refine ⟨0, Nat.succ_pos length, ?_, ?_⟩
      · rwa [add_ofNat_zero]
      · rw [Unmapped] at hfirst
        simp only [runs, hfirst, bind, Except.bind, add_ofNat_zero]

/-- A span that is mapped everywhere is loaded byte by byte. -/
theorem loadSpan_quiet {a : UInt32} {length : Nat}
    (hquiet : ∀ i < length, quiet (a + UInt32.ofNat i) = true)
    (hmapped : ∀ i < length, Mapped (a + UInt32.ofNat i)) (bus : Bus) :
    loadSpan .unaligned a length bus = .ok (bus.bytesOn a length) bus := by
  obtain ⟨rs, hrs⟩ := exists_runs hmapped
  obtain ⟨hruns, hbytes⟩ := loadRuns_quiet bus hquiet hrs
  simp only [loadSpan, route, hrs, loadRuns_eq bus hruns, hbytes]

/-- One that is not fails at an unmapped address, with nothing done. -/
theorem loadSpan_unmapped {a : UInt32} {length : Nat}
    (h : ∃ i < length, Unmapped (a + UInt32.ofNat i)) (bus : Bus) :
    ∃ i < length, Unmapped (a + UInt32.ofNat i) ∧
      loadSpan .unaligned a length bus = .error (.unmapped (a + UInt32.ofNat i)) bus := by
  obtain ⟨i, hi, hun, hruns⟩ := runs_unmapped h
  exact ⟨i, hi, hun, by simp only [loadSpan, route, hruns]⟩

/-- A store into such a span fails in the same way. -/
theorem storeSpan_unmapped (copy : BlockCopy) {a : UInt32} {data : List UInt8}
    (h : ∃ i < data.length, Unmapped (a + UInt32.ofNat i)) (bus : Bus) :
    ∃ i < data.length, Unmapped (a + UInt32.ofNat i) ∧
      storeSpan copy .unaligned a data bus = .error (.unmapped (a + UInt32.ofNat i)) bus := by
  obtain ⟨i, hi, hun, hruns⟩ := runs_unmapped h
  exact ⟨i, hi, hun, by simp only [storeSpan, route, hruns]⟩

/-- A read of one byte answers with that byte. -/
theorem read_byteOn {a : UInt32} (hquiet : quiet a = true) (hmapped : Mapped a) (bus : Bus) :
    read a 1 bus = .ok [bus.byteOn a] bus := by
  obtain ⟨⟨region, offset⟩, hresolve⟩ := hmapped
  obtain ⟨hbase, hlt⟩ := resolve_lt hresolve
  -- One byte is always aligned, and quiet addresses keep off the registers
  have haligned : transferFor a 1 = .aligned := by
    have hpower : Nat.isPowerOfTwo 1 := ⟨0, rfl⟩
    simp only [transferFor, hpower, Nat.mod_one, decide_true, Bool.and_self, if_true]
  have hrun : Run.Quiet ⟨region, offset, 1⟩ := by
    rintro rfl
    exact lt_window_of_quiet hquiet hresolve
  have hload := loadSpan_aligned hbase (by omega : offset + 1 ≤ region.size) Nat.one_pos bus
  rw [read, haligned, load, hload, deviceLoad_quiet bus hrun Nat.one_pos,
    byteOn_of_resolve hresolve]
  rfl

/-! ## What has arrived -/

/-- The first `count` bytes have been copied to main memory, as far as it is installed, and
nothing else has changed but the log. -/
structure Copied (source target : UInt32) (count : Nat) (before after : Bus) : Prop where
  elsewhere : after = { before with rdram := after.rdram, writes := after.writes }
  installed : after.rdram.size = before.rdram.size
  arrived : ∀ i < count, Region.rdram.contains (target + UInt32.ofNat i).toNat = true →
    (target + UInt32.ofNat i).toNat < before.rdram.size →
    answerOf (read (source + UInt32.ofNat i) 1 before) =
      some [after.rdram.byteAt (target + UInt32.ofNat i).toNat]
  others : ∀ n, (∀ i < count, Region.rdram.contains (target + UInt32.ofNat i).toNat = true →
      (target + UInt32.ofNat i).toNat ≠ n) →
    after.rdram.byteAt n = before.rdram.byteAt n

/-- The copies that are told about here: none of the source bytes is a register of the signal
processor, the target lies in main memory, in the cartridge or nowhere, and no byte belongs to
both. -/
structure Copyable (source target : UInt32) (length : Nat) : Prop where
  quiet : ∀ i < length, quiet (source + UInt32.ofNat i) = true
  code : ∀ i < length, inCodeMemory (target + UInt32.ofNat i) = true ∨
    Unmapped (target + UInt32.ofNat i)
  disjoint : ∀ i < length, ∀ k < length, source + UInt32.ofNat i ≠ target + UInt32.ofNat k

/-- Nowhere is no device whose loads have effects. -/
private theorem quiet_of_unmapped {a : UInt32} (h : Unmapped a) : quiet a = true := by
  rw [quiet, Bool.not_eq_true', Bool.and_eq_false_iff]
  left
  apply Decidable.byContradiction
  intro hsp
  rw [Bool.not_eq_false] at hsp
  exact Mapped.not_unmapped ⟨_, Region.resolve_of_contains hsp⟩ h

/-- Both ends in main memory, in the cartridge or nowhere will do. -/
theorem Copyable.of_code {source target : UInt32} {length : Nat}
    (hsource : ∀ i < length, inCodeMemory (source + UInt32.ofNat i) = true ∨
      Unmapped (source + UInt32.ofNat i))
    (htarget : ∀ i < length, inCodeMemory (target + UInt32.ofNat i) = true ∨
      Unmapped (target + UInt32.ofNat i))
    (hdisjoint : ∀ i < length, ∀ k < length, source + UInt32.ofNat i ≠ target + UInt32.ofNat k) :
    Copyable source target length where
  quiet := fun i hi => (hsource i hi).elim quiet_of_inCodeMemory quiet_of_unmapped
  code := htarget
  disjoint := hdisjoint

/-- Two spans that go around the whole address space would meet. -/
private theorem Copyable.length_lt {source target : UInt32} {length : Nat}
    (h : Copyable source target length) : length < UInt32.size := by
  apply Decidable.byContradiction
  intro hlong
  have hdiff : (source - target).toNat < length :=
    Nat.lt_of_lt_of_le (source - target).toNat_lt (Nat.le_of_not_lt hlong)
  apply h.disjoint 0 (by omega) (source - target).toNat hdiff
  rw [add_ofNat_zero, UInt32.ofNat_toNat, UInt32.add_comm, UInt32.sub_add_cancel]

/-- Different bytes of a span have different addresses. -/
private theorem add_ofNat_inj {a : UInt32} {i k : Nat}
    (hi : i < UInt32.size) (hk : k < UInt32.size)
    (h : a + UInt32.ofNat i = a + UInt32.ofNat k) : i = k := by
  have heq := congrArg UInt32.toNat ((UInt32.add_right_inj a).mp h)
  rwa [UInt32.toNat_ofNat_of_lt' hi, UInt32.toNat_ofNat_of_lt' hk] at heq

/-- Main memory begins at address zero. -/
private theorem rdram_contains_iff {n : Nat} :
    Region.rdram.contains n = true ↔ n < Region.rdram.size := by
  simp only [Region.contains, Bool.and_eq_true, decide_eq_true_eq]
  simp only [Region.stop, Region.base]
  omega

/-- Nothing has been copied yet. -/
theorem Copied.refl (source target : UInt32) (bus : Bus) : Copied source target 0 bus bus where
  elsewhere := rfl
  installed := rfl
  arrived := fun i hi => absurd hi (Nat.not_lt_zero i)
  others := fun _ _ => rfl

section
variable {source target : UInt32} {length count : Nat} {before bus : Bus}

/-- The source does not change on the way. -/
private theorem Copied.byteOn_eq (h : Copyable source target length)
    (hcopied : Copied source target count before bus) (hcount : count ≤ length) {i : Nat}
    (hi : i < length) :
    bus.byteOn (source + UInt32.ofNat i) = before.byteOn (source + UInt32.ofNat i) := by
  simp only [byteOn]
  cases hresolve : Region.resolve (source + UInt32.ofNat i) with
  | error e => rfl
  | ok owner =>
    obtain ⟨region, offset⟩ := owner
    dsimp only
    -- Of what bytes are read from, only main memory changes, and only in the target
    cases region with
    | rdram =>
      have hoffset : offset = (source + UInt32.ofNat i).toNat := by
        have hbase := (resolve_lt hresolve).1
        simp only [Region.base] at hbase
        omega
      apply hcopied.others offset
      intro k hk _ heq
      rw [hoffset] at heq
      exact h.disjoint i hi k (by omega) (UInt32.toNat_inj.mp heq).symm
    | _ =>
      rw [hcopied.elsewhere]
      rfl

/-- A part of the target that is mapped lies in one region. -/
private theorem Copyable.target_inside (h : Copyable source target length) {n : Nat}
    (hpos : 0 < n) (hn : count + n ≤ length)
    (hmapped : ∀ i < n, Mapped (target + UInt32.ofNat count + UInt32.ofNat i)) :
    ∃ (region : Region) (offset : Nat), (region = .rdram ∨ region = .cartridge) ∧
      region.base + offset = (target + UInt32.ofNat count).toNat ∧ offset + n ≤ region.size := by
  have hcode : ∀ i < n, inCodeMemory (target + UInt32.ofNat count + UInt32.ofNat i) = true := by
    intro i hi
    have hunless := h.code (count + i) (by omega)
    rw [← add_ofNat_add] at hunless
    exact hunless.resolve_right (hmapped i hi).not_unmapped
  obtain ⟨region, hregion, hcontains⟩ : ∃ region : Region,
      (region = .rdram ∨ region = .cartridge) ∧
        region.contains (target + UInt32.ofNat count).toNat = true := by
    have hfirst := hcode 0 hpos
    rw [add_ofNat_zero, inCodeMemory, Bool.or_eq_true] at hfirst
    rcases hfirst with hrdram | hcartridge
    · exact ⟨.rdram, .inl rfl, hrdram⟩
    · exact ⟨.cartridge, .inr rfl, hcartridge⟩
  obtain ⟨hbase, hlt⟩ := resolve_lt (Region.resolve_of_contains hcontains)
  refine ⟨region, _, hregion, hbase, ?_⟩
  apply Decidable.byContradiction
  intro hlong
  -- The first byte behind the region would be in code memory as well
  have hstop := hcode (region.size - ((target + UInt32.ofNat count).toNat - region.base)) (by omega)
  simp only [inCodeMemory, Region.contains] at hstop
  rw [← toNat_add_inside hbase (by omega)] at hstop
  rw [Nat.add_sub_cancel' (Nat.le_of_lt hlt)] at hstop
  rcases hregion with rfl | rfl <;> revert hstop <;> decide

/-- Bytes that are stored into the cartridge are lost. -/
private theorem Copied.append_cartridge (hcopied : Copied source target count before bus)
    {offset n : Nat} (hbase : Region.cartridge.base + offset = (target + UInt32.ofNat count).toNat)
    (hlength : offset + n ≤ Region.cartridge.size) :
    Copied source target (count + n) before bus where
  elsewhere := hcopied.elsewhere
  installed := hcopied.installed
  arrived := by
    intro i hi hrdram
    by_cases hold : i < count
    · exact hcopied.arrived i hold hrdram
    · -- The byte would lie in the cartridge and in main memory
      have haddress := toNat_add_inside hbase (by omega : offset + (i - count) ≤ _)
      rw [add_ofNat_add, Nat.add_sub_cancel' (Nat.le_of_not_lt hold)] at haddress
      rw [rdram_contains_iff, ← haddress] at hrdram
      simp only [Region.base, Region.size] at hrdram
      omega
  others := fun n' hn' => hcopied.others n' fun i hi => hn' i (by omega)

/-- Bytes that are stored into main memory are there. -/
private theorem Copied.append_rdram (h : Copyable source target length)
    (hcopied : Copied source target count before bus) {offset n : Nat} (hn : count + n ≤ length)
    (hbase : Region.rdram.base + offset = (target + UInt32.ofNat count).toNat)
    (hlength : offset + n ≤ Region.rdram.size)
    (hmapped : ∀ i < n, Mapped (source + UInt32.ofNat count + UInt32.ofNat i)) (writes : WriteLog) :
    Copied source target (count + n) before
      { bus with
        rdram := bus.rdram.store offset (bus.bytesOn (source + UInt32.ofNat count) n)
        writes } := by
  have hbytes : (bus.bytesOn (source + UInt32.ofNat count) n).length = n := length_bytesFrom _ _ _
  have haddress : ∀ i < n, (target + UInt32.ofNat (count + i)).toNat = offset + i := by
    intro i hi
    have hinside := toNat_add_inside hbase (by omega : offset + i ≤ _)
    rw [add_ofNat_add, Region.base, Nat.zero_add] at hinside
    exact hinside.symm
  have hlt := h.length_lt
  refine ⟨?_, ?_, fun i hi hrdram hinstalled => ?_, fun a ha => ?_⟩
  · rw [hcopied.elsewhere]
  · exact (Rdram.size_store _ _ _).trans hcopied.installed
  · dsimp only
    by_cases hold : i < count
    · -- It was there before, and the new bytes are elsewhere
      rw [Rdram.byteAt_store_of_not_mem]
      · exact hcopied.arrived i hold hrdram hinstalled
      · apply Decidable.byContradiction
        intro hmem
        rw [hbytes] at hmem
        have hsame := haddress ((target + UInt32.ofNat i).toNat - offset) (by omega)
        rw [Nat.add_sub_cancel' (by omega), UInt32.toNat_inj] at hsame
        have := add_ofNat_inj (by omega) (by omega) hsame
        omega
    · obtain ⟨k, rfl⟩ := Nat.exists_eq_add_of_le (Nat.le_of_not_lt hold)
      have hk : k < n := by omega
      have hsource : Mapped (source + UInt32.ofNat (count + k)) := by
        rw [← add_ofNat_add]
        exact hmapped k hk
      rw [haddress k hk] at hinstalled ⊢
      rw [read_byteOn (h.quiet _ (by omega)) hsource, answerOf, Rdram.byteAt_store,
        if_pos ⟨Nat.le_add_right _ _, by rw [hcopied.installed]; exact hinstalled⟩,
        Nat.add_sub_cancel_left, bytesOn, getElem?_bytesFrom _ _ hk, Option.getD_some, Nat.zero_add,
        add_ofNat_add, hcopied.byteOn_eq h (by omega) (by omega)]
  -- A byte that no part of the target so far goes to
  · dsimp only
    rw [Rdram.byteAt_store_of_not_mem]
    · exact hcopied.others a fun i hi hrdram => ha i (by omega) hrdram
    · apply Decidable.byContradiction
      intro hmem
      rw [hbytes] at hmem
      have hsame := haddress (a - offset) (by omega)
      rw [Nat.add_sub_cancel' (by omega)] at hsame
      refine ha (count + (a - offset)) (by omega) ?_ hsame
      rw [rdram_contains_iff, hsame]
      omega

/-- The next bytes of a copy: they arrive, or one of them is unmapped in the target. -/
private theorem Copied.chunk (copy : BlockCopy) (h : Copyable source target length)
    (hcopied : Copied source target count before bus) {n : Nat} (hpos : 0 < n)
    (hn : count + n ≤ length)
    (hsource : ∀ i < n, Mapped (source + UInt32.ofNat count + UInt32.ofNat i)) :
    let data := bus.bytesOn (source + UInt32.ofNat count) n
    (∃ after, storeSpan copy .unaligned (target + UInt32.ofNat count) data bus = .ok () after ∧
        Copied source target (count + n) before after ∧
        ∀ i < n, Mapped (target + UInt32.ofNat count + UInt32.ofNat i)) ∨
      ∃ i < n, Unmapped (target + UInt32.ofNat count + UInt32.ofNat i) ∧
        storeSpan copy .unaligned (target + UInt32.ofNat count) data bus =
          .error (.unmapped (target + UInt32.ofNat count + UInt32.ofNat i)) bus := by
  intro data
  have hdata : data.length = n := length_bytesFrom _ _ _
  -- The target is mapped all through, or somewhere it is not, and then nothing is stored
  rcases mapped_span (target + UInt32.ofNat count) n with hall | hun
  · left
    obtain ⟨region, offset, hregion, hbase, hfits⟩ := h.target_inside hpos hn hall
    have hstore : storeSpan copy .unaligned (target + UInt32.ofNat count) data bus =
        storeRun copy region offset data bus :=
      storeSpan_inside hbase (by rw [hdata]; exact hfits) (by rw [hdata]; exact hpos) bus
    rcases hregion with rfl | rfl
    · exact ⟨_, hstore, hcopied.append_rdram h hn hbase hfits hsource _, hall⟩
    · exact ⟨_, hstore, hcopied.append_cartridge hbase hfits, hall⟩
  · right
    rw [← hdata] at hun ⊢
    exact storeSpan_unmapped copy hun bus

end

/-! ## The whole copy -/

/-- Both ends of byte `i` are mapped. -/
def BothMapped (source target : UInt32) (i : Nat) : Prop :=
  Mapped (source + UInt32.ofNat i) ∧ Mapped (target + UInt32.ofNat i)

/-- How a copy can end: all bytes have arrived, or four bytes at a time up to some of which one
is unmapped. -/
inductive CopyOutcome (source target : UInt32) (length : Nat) (before : Bus) :
    EStateM.Result BusError Bus Unit → Prop
  | complete {after : Bus} (hcopied : Copied source target length before after)
    (hmapped : ∀ i < length, BothMapped source target i) :
    CopyOutcome source target length before (.ok () after)
  | aborted {after : Bus} {k i : Nat} {a : UInt32}
    (hcopied : Copied source target (4 * k) before after)
    (hmapped : ∀ i < 4 * k, BothMapped source target i)
    (hunit : 4 * k ≤ i ∧ i < 4 * k + 4 ∧ i < length)
    (haddress : a = source + UInt32.ofNat i ∨ a = target + UInt32.ofNat i) (hun : Unmapped a) :
    CopyOutcome source target length before (.error (.copyAborted (4 * k) (.unmapped a)) after)

section
variable {source target : UInt32} {length : Nat} {before : Bus}

/-- The rest of a copy, once `k` times four bytes have arrived. -/
private theorem copyUnits_outcome (copy : BlockCopy) (h : Copyable source target length)
    {units k : Nat} (hunits : units + k = (length + 3) / 4) {bus : Bus}
    (hcopied : Copied source target (min (4 * k) length) before bus)
    (hmapped : ∀ i < min (4 * k) length, BothMapped source target i) :
    CopyOutcome source target length before
      (copyUnits copy source target length units (min (4 * k) length) bus) := by
  induction units generalizing k bus with
  | zero =>
    have hall : min (4 * k) length = length := by omega
    rw [hall] at hcopied hmapped
    exact .complete hcopied hmapped
  | succ units ih =>
    have hdone : min (4 * k) length = 4 * k := by omega
    obtain ⟨n, hn⟩ : ∃ n, min copyUnit (length - 4 * k) = n := ⟨_, rfl⟩
    have hcount : min 4 (length - 4 * k) = n := hn
    rw [hdone] at hcopied hmapped ⊢
    -- The source of the unit is mapped or not; if it is, its target is or is not
    rcases mapped_span (source + UInt32.ofNat (4 * k)) n with hsource | hun
    · have hquiet : ∀ i < n, quiet (source + UInt32.ofNat (4 * k) + UInt32.ofNat i) := by
        intro i hi
        rw [add_ofNat_add]
        exact h.quiet _ (by omega)
      have hload := loadSpan_quiet hquiet hsource bus
      rcases hcopied.chunk copy h (by omega) (by omega) hsource with
        ⟨after, hstore, hafter, htarget⟩ | ⟨i, hi, hun, hstore⟩
      · -- These bytes have arrived as well
        have hnext : 4 * k + n = min (4 * (k + 1)) length := by omega
        rw [copyUnits_of_ok hn hload hstore, hnext]
        rw [hnext] at hafter
        apply ih (by omega) hafter
        intro i hi
        by_cases hold : i < 4 * k
        · exact hmapped i hold
        · obtain ⟨m, rfl⟩ := Nat.exists_eq_add_of_le (Nat.le_of_not_lt hold)
          rw [BothMapped, ← add_ofNat_add, ← add_ofNat_add]
          exact ⟨hsource m (by omega), htarget m (by omega)⟩
      · rw [copyUnits_of_error hn (.inr ⟨_, _, hload, hstore⟩)]
        have hunit : 4 * k ≤ 4 * k + i ∧ 4 * k + i < 4 * k + 4 ∧ 4 * k + i < length := by omega
        exact .aborted hcopied hmapped hunit (.inr (add_ofNat_add _ _ _)) hun
    · obtain ⟨i, hi, hun, hload⟩ := loadSpan_unmapped hun bus
      rw [copyUnits_of_error hn (.inl hload)]
      have hunit : 4 * k ≤ 4 * k + i ∧ 4 * k + i < 4 * k + 4 ∧ 4 * k + i < length := by omega
      exact .aborted hcopied hmapped hunit (.inl (add_ofNat_add _ _ _)) hun

/-- However a copy is nested, it ends in one of the two ways. -/
theorem copyThrough_outcome (copy : BlockCopy) (h : Copyable source target length) (bus : Bus) :
    CopyOutcome source target length bus (copyThrough copy source target length bus) := by
  have hstart : min (4 * 0) length = 0 := Nat.zero_min length
  have houtcome := copyUnits_outcome (k := 0) copy h rfl (hstart ▸ Copied.refl source target bus)
    (by rw [hstart]; exact fun i hi => absurd hi (Nat.not_lt_zero i))
  rwa [hstart] at houtcome

/-- If nothing is unmapped, all bytes arrive. -/
theorem CopyOutcome.of_mapped {result : EStateM.Result BusError Bus Unit}
    (houtcome : CopyOutcome source target length before result)
    (hall : ∀ i < length, BothMapped source target i) :
    ∃ after, result = .ok () after ∧ Copied source target length before after := by
  cases houtcome with
  | complete hcopied _ => exact ⟨_, rfl, hcopied⟩
  | @aborted _ k i a _ _ hunit haddress hun =>
    obtain ⟨hsource, htarget⟩ := hall i hunit.2.2
    rcases haddress with rfl | rfl
    · exact absurd hun hsource.not_unmapped
    · exact absurd hun htarget.not_unmapped

/-- The copy that the host asks for is the copy that a device asks for. -/
private theorem copy_eq (source target : UInt32) (length : Nat) (bus : Bus) :
    copy source target length bus =
      match copyThrough (nestedCopy nestingLimit) source target length bus with
      | .ok _ after => .ok length after
      | .error e after => .error e after := by
  cases hrun : copyThrough (nestedCopy nestingLimit) source target length bus with
  | ok u after => exact bind_of_ok hrun
  | error e after => exact bind_of_error hrun

/-- A block copy moves bytes and nothing else, wherever its ends lie in their regions.  If all
addresses are mapped, the answer is the length, and each byte that is installed is the one that
a read of one byte gave before.  Otherwise it fails at an unmapped address, among the same four
bytes as the first one, and exactly the bytes before these four have been moved. -/
theorem copy_exact (h : Copyable source target length) (bus : Bus) :
    ((∀ i < length, BothMapped source target i) →
      ∃ after, copy source target length bus = .ok length after ∧
        Copied source target length bus after) ∧
    ∀ j < length, (Unmapped (source + UInt32.ofNat j) ∨ Unmapped (target + UInt32.ofNat j)) →
      (∀ i < j, BothMapped source target i) →
      ∃ after a i,
        copy source target length bus = .error (.copyAborted (4 * (j / 4)) (.unmapped a)) after ∧
        Copied source target (4 * (j / 4)) bus after ∧ Unmapped a ∧
        (a = source + UInt32.ofNat i ∨ a = target + UInt32.ofNat i) ∧ i / 4 = j / 4 ∧
        i < length := by
  have houtcome := copyThrough_outcome (nestedCopy nestingLimit) h bus
  rw [copy_eq]
  generalize copyThrough (nestedCopy nestingLimit) source target length bus = result at houtcome ⊢
  constructor
  · intro hall
    obtain ⟨after, rfl, hcopied⟩ := houtcome.of_mapped hall
    exact ⟨after, rfl, hcopied⟩
  · intro j hj hun hfirst
    have hnot : ¬ BothMapped source target j := by
      rintro ⟨hsource, htarget⟩
      rcases hun with hun | hun
      · exact hsource.not_unmapped hun
      · exact htarget.not_unmapped hun
    cases houtcome with
    | complete _ hmapped => exact absurd (hmapped j hj) hnot
    | @aborted after k i a hcopied hmapped hunit haddress huna =>
      -- Neither comes the first unmapped address before these four bytes nor after them
      have hbefore : ¬ j < 4 * k := fun hlt => hnot (hmapped j hlt)
      have hafter : ¬ i < j := by
        intro hlt
        obtain ⟨hsource, htarget⟩ := hfirst i hlt
        rcases haddress with rfl | rfl
        · exact hsource.not_unmapped huna
        · exact htarget.not_unmapped huna
      have hk : 4 * (j / 4) = 4 * k := by omega
      rw [hk]
      exact ⟨after, a, i, rfl, hcopied, huna, haddress, by omega, hunit.2.2⟩

end

/-- A device answers in its window. -/
private theorem mapped_of_contains {a : UInt32} {r : Region} (h : r.contains a.toNat = true) :
    Mapped a := ⟨_, Region.resolve_of_contains h⟩

/-- From the cartridge to the end of installed memory, and from the end of the SI registers into
the hole behind them: the one copy is carried out, and the other one stops after four bytes. -/
theorem copy_exact_small :
    let bus := Bus.initial .smallest 0x120
    (∃ after, copy 0x10000001 0x11E 5 bus = .ok 5 after ∧
        Copied 0x10000001 0x11E 5 bus after) ∧
      ∃ after a i, copy 0x048FFFFA 0x101 8 bus = .error (.copyAborted 4 (.unmapped a)) after ∧
        Copied 0x048FFFFA 0x101 4 bus after ∧ Unmapped a ∧
        (a = 0x048FFFFA + UInt32.ofNat i ∨ a = 0x101 + UInt32.ofNat i) ∧ i / 4 = 1 ∧ i < 8 := by
  intro bus
  have hcode : ∀ i < 8, inCodeMemory (0x11E + UInt32.ofNat i) = true ∧
      inCodeMemory (0x101 + UInt32.ofNat i) = true := by
    decide
  have hfirst : Copyable 0x10000001 0x11E 5 :=
    ⟨by decide, fun i hi => .inl (hcode i (by omega)).1, by decide⟩
  have hsecond : Copyable 0x048FFFFA 0x101 8 :=
    ⟨by decide, fun i hi => .inl (hcode i hi).2, by decide⟩
  have hcartridge : ∀ i < 5, Region.cartridge.contains (0x10000001 + UInt32.ofNat i).toNat = true ∧
      Region.rdram.contains (0x11E + UInt32.ofNat i).toNat = true := by
    decide
  have hserial : ∀ i < 6, Region.si.contains (0x048FFFFA + UInt32.ofNat i).toNat = true ∧
      Region.rdram.contains (0x101 + UInt32.ofNat i).toNat = true := by
    decide
  -- The first copy has all its bytes; in the second the unit that begins at byte 4 meets the gap
  constructor
  · apply (copy_exact hfirst bus).1
    intro i hi
    exact ⟨mapped_of_contains (hcartridge i hi).1, mapped_of_contains (hcartridge i hi).2⟩
  · apply (copy_exact hsecond bus).2 6 (by decide) (.inl rfl)
    intro i hi
    exact ⟨mapped_of_contains (hserial i hi).1, mapped_of_contains (hserial i hi).2⟩

end Bus

end Console64

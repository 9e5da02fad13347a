import Console64.Proofs.BusUse
import Console64.Proofs.DecodeAgreement
import Console64.Proofs.DeviceCopy
import Console64.Proofs.FirstVisit
import Console64.Proofs.PageTranslation
import Console64.Proofs.PartialWords
import Console64.Proofs.Retirement
import Mathlib.Algebra.Group.Nat.Defs

/-!
# Unaligned data

Words and doublewords at any address are transferred by two instructions each, one for the
part up to the end of the aligned word that the address lies in, and one for the rest.  In
main memory the two of them transfer exactly the bytes at the address, whatever its
alignment, and whatever the register and the memory around it hold.

## Key results

- `Cpu.Unmapped.resolve`: where an address without translation leads
- `Machine.execute_load` / `Machine.execute_store`: what each of the eight instructions does
- `PartialSize.merge_right_left`: the two parts that are loaded make up the data
- `PartialSize.byteAt_store_parts`: so do the two parts that are stored
- `Machine.unaligned_pairs`: pairs of loads and pairs of stores, one after the other, with
  handlers in between or without
-/

namespace Console64

/-! ## Addresses without translation -/

/-- The kernel finds physical address `p` at `a`, in one of the two segments that the TLB does
not map. -/
structure Cpu.Unmapped (c : Cpu) (a : UInt64) (p : Nat) : Prop where
  kernel : c.cop0.privilege = .kernel
  segment : a.toNat % 2 ^ 32 = 0x80000000 + p ∨ a.toNat % 2 ^ 32 = 0xA0000000 + p
  /-- In 64-bit addressing both lie at the end of the address space. -/
  extended : c.cop0.wideAddresses = true → 0xFFFFFFFF00000000 ≤ a.toNat

namespace Cpu.Unmapped

variable {c : Cpu} {a : UInt64} {p : Nat}

/-- The address is in a segment without translation, -/
private theorem segmentOf (h : c.Unmapped a p) (hp : p < 0x20000000) :
    c.segmentOf a = .direct (a.toUInt32 &&& 0x1FFFFFFF) := by
  have hsegment := h.segment
  have hlow : a.toUInt32.toNat = a.toNat % 2 ^ 32 := UInt64.toNat_toUInt32 a
  rw [Cpu.segmentOf, h.kernel]
  cases hwide : c.cop0.wideAddresses with
  | true =>
    have hextended := h.extended hwide
    have hlt := a.toNat_lt
    have hbelow : ∀ least greatest, greatest.toNat < a.toNat → within least greatest a = false := by
      intro least greatest hgreatest
      simp only [within, UInt64.le_iff_toNat_le, decide_eq_false (Nat.not_le.mpr hgreatest),
        Bool.and_false]
    have hinside : within 0xFFFFFFFF80000000 0xFFFFFFFFBFFFFFFF a = true := by
      simp only [within, UInt64.le_iff_toNat_le, Bool.and_eq_true, decide_eq_true_eq,
        UInt64.toNat_ofNat]
      omega
    simp only [wideSegment, hinside]
    -- The other segments before it end below the address
    repeat rw [hbelow _ _ (by simp only [UInt64.toNat_ofNat]; omega)]
    rfl
  | false =>
    have hlower : ¬ a.toUInt32 < 0x80000000 := by
      rw [UInt32.lt_iff_toNat_lt, hlow]
      simp only [UInt32.toNat_ofNat]
      omega
    have hupper : a.toUInt32 < 0xC0000000 := by
      rw [UInt32.lt_iff_toNat_lt, hlow]
      simp only [UInt32.toNat_ofNat]
      omega
    simp only [narrowSegment, if_neg hlower, if_pos hupper]
    rfl

/-- so it is resolved to where it is in main memory. -/
theorem resolve (h : c.Unmapped a p) (hp : p < 0x20000000) (access : Access) :
    c.resolve a access = .ok (UInt32.ofNat p) := by
  have hsegment := h.segment
  have hphysical : a.toUInt32 &&& 0x1FFFFFFF = UInt32.ofNat p := by
    have hmask : (0x1FFFFFFF : UInt32).toNat = 2 ^ 29 - 1 := rfl
    apply UInt32.toNat_inj.mp
    rw [UInt32.toNat_and, hmask, Nat.and_two_pow_sub_one_eq_mod, UInt64.toNat_toUInt32,
      UInt32.toNat_ofNat']
    omega
  rw [resolve_eq, h.segmentOf hp, hphysical]

/-- Addresses nearby are found nearby. -/
theorem move (h : c.Unmapped a p) {a' : UInt64} {p' : Nat} (ha : a'.toNat + p = a.toNat + p')
    (hp : p < 0x20000000) (hp' : p' < 0x20000000) : c.Unmapped a' p' := by
  have hsegment := h.segment
  refine ⟨h.kernel, ?_, fun hwide => ?_⟩
  · omega
  · have := h.extended hwide
    omega

end Cpu.Unmapped

/-! ## Accesses to main memory -/

/-- The window of main memory. -/
private theorem Region.size_rdram_lt : rdram.size < 0x10000000 := by decide

/-- Both segments without translation reach all of main memory. -/
private theorem Region.lt_of_fits {p length : Nat} (hfits : p + length ≤ rdram.size) :
    p < 0x20000000 := by
  have hsize := size_rdram_lt
  omega

namespace Bus

/-- It begins at address zero, and no address in it is lost. -/
private theorem rdram_base {p length : Nat} (hfits : p + length ≤ Region.rdram.size) :
    Region.rdram.base + p = (UInt32.ofNat p).toNat := by
  have hp := Region.lt_of_fits hfits
  rw [UInt32.toNat_ofNat_of_lt' (Nat.lt_trans hp (by decide))]
  exact Nat.zero_add p

/-- A load inside main memory finds the bytes there, however it is routed. -/
theorem read_rdram {p length : Nat} (hfits : p + length ≤ Region.rdram.size) (hpos : 0 < length)
    (bus : Bus) : read (UInt32.ofNat p) length bus = .ok (bus.rdram.load p length) bus := by
  have hbase := rdram_base hfits
  have hroute : ∀ transfer, loadSpan transfer (UInt32.ofNat p) length bus =
      .ok (bus.rdram.load p length) bus := by
    intro transfer
    cases transfer with
    | aligned => exact loadSpan_aligned hbase hfits hpos bus
    | unaligned => exact loadSpan_inside hbase hfits hpos bus
  exact hroute _

/-- A store inside main memory changes nothing but the bytes there and the log. -/
theorem write_rdram {p : Nat} {data : List UInt8} (hfits : p + data.length ≤ Region.rdram.size)
    (hpos : 0 < data.length) (bus : Bus) : ∃ writes,
      write (UInt32.ofNat p) data bus =
        .ok () { bus with rdram := bus.rdram.store p data, writes } := by
  have hbase := rdram_base hfits
  have hroute : ∀ copy transfer, storeSpan copy transfer (UInt32.ofNat p) data bus =
      storeRun copy .rdram p data bus := by
    intro copy transfer
    cases transfer with
    | aligned => exact storeSpan_aligned hbase hfits hpos bus
    | unaligned => exact storeSpan_inside hbase hfits hpos bus
  exact ⟨_, hroute _ _⟩

end Bus

namespace Machine

variable {s : PartialSize} {a : UInt64} {p : Nat}

/-- The aligned word or doubleword at an address without translation. -/
private theorem load_rdram {m : Machine} (h : m.cpu.Unmapped a p) (halign : p % s.length = 0)
    (hfits : p + s.length ≤ Region.rdram.size) :
    load a s.length m = .ok (some (BigEndian.value (m.bus.rdram.load p s.length))) m := by
  have hp := Region.lt_of_fits hfits
  -- Alignment of the address in memory is that of the address of the program
  have haligned : a % UInt64.ofNat s.length = 0 := by
    have hsegment := h.segment
    apply UInt64.toNat_inj.mp
    cases s <;> simp only [PartialSize.length, UInt64.toNat_mod] at * <;> simp <;> omega
  have htranslate : onCpu (·.translateAligned a s.length .load) m =
      .ok (some (UInt32.ofNat p)) m := by
    simp only [onCpu, Cpu.translateAligned, haligned, Cpu.translate, h.resolve hp, if_true]
  have hread : onBus (Bus.readValue (UInt32.ofNat p) s.length) m =
      .ok (BigEndian.value (m.bus.rdram.load p s.length)) m := by
    have hbytes := Bus.read_rdram hfits s.length_pos m.bus
    simp only [onBus, Bus.readValue, bind_of_ok hbytes]
    rfl
  rw [load, bind_of_ok htranslate]
  exact bind_of_ok hread

/-- Bytes at an address without translation. -/
private theorem storeBytes_rdram {m : Machine} {data : List UInt8} (h : m.cpu.Unmapped a p)
    (hfits : p + data.length ≤ Region.rdram.size) (hpos : 0 < data.length) : ∃ writes,
    storeBytes a data m =
      .ok true ⟨m.cpu, { m.bus with rdram := m.bus.rdram.store p data, writes }⟩ := by
  have hp := Region.lt_of_fits hfits
  have htranslate : onCpu (·.translate a .store) m = .ok (some (UInt32.ofNat p)) m := by
    simp only [onCpu, Cpu.translate, h.resolve hp]
  obtain ⟨writes, hwrite⟩ := Bus.write_rdram hfits hpos m.bus
  have hstore : onBus (Bus.write (UInt32.ofNat p) data) m =
      .ok () ⟨m.cpu, { m.bus with rdram := m.bus.rdram.store p data, writes }⟩ := by
    simp only [onBus, hwrite]
  refine ⟨writes, ?_⟩
  rw [storeBytes, bind_of_ok htranslate]
  exact bind_of_ok hstore

end Machine

/-! ## The eight instructions -/

namespace PartialSize

/-- The parts of data on the two sides of an address: up to the end of the aligned word or
doubleword that the address lies in, or from its start on. -/
inductive Side where
  | left
  | right
  deriving DecidableEq, Repr

/-- LWL, LWR, LDL and LDR. -/
def loadOpcode : PartialSize → Side → UInt32
  | word, .left => 0x22
  | word, .right => 0x26
  | doubleword, .left => 0x1A
  | doubleword, .right => 0x1B

/-- SWL, SWR, SDL and SDR. -/
def storeOpcode : PartialSize → Side → UInt32
  | word, .left => 0x2A
  | word, .right => 0x2E
  | doubleword, .left => 0x2C
  | doubleword, .right => 0x2D

/-- The register once a part of `memory` is merged in. -/
def merge (s : PartialSize) : Side → (register memory a : UInt64) → UInt64
  | .left => s.left
  | .right => s.right

/-- The bytes of the part of a register, for an address `k` bytes into the aligned word or
doubleword. -/
def part (s : PartialSize) (side : Side) (k : Nat) (register : UInt64) : List UInt8 :=
  match side with
  | .left => (BigEndian.bytes s.length register).take (s.length - k)
  | .right => (BigEndian.bytes s.length register).drop (s.length - 1 - k)

/-- A left part has the bytes from the address on, -/
theorem length_part_left (s : PartialSize) (k : Nat) (register : UInt64) :
    (s.part .left k register).length = s.length - k := by
  rw [part, List.length_take, BigEndian.length_bytes]
  exact Nat.min_eq_left (Nat.sub_le _ _)

/-- and a right one those up to it. -/
theorem length_part_right (s : PartialSize) {k : Nat} (hk : k < s.length) (register : UInt64) :
    (s.part .right k register).length = k + 1 := by
  rw [part, List.length_drop, BigEndian.length_bytes]
  omega

/-- Where the part at `p` starts in memory. -/
def partStart (s : PartialSize) (side : Side) (p : Nat) : Nat :=
  match side with
  | .left => p
  | .right => p - p % s.length

end PartialSize

namespace Machine

variable {s : PartialSize} {p : Nat} {i : Instruction} {m : Machine}

/-- The kernel may use 64-bit operations. -/
private theorem ifWide_kernel (h : m.cpu.cop0.privilege = .kernel) (x : MachineM Unit) :
    ifWide x m = x m := by
  have hwide : withCpu (·.cop0.wideOperations) m = .ok true m := by
    simp only [withCpu, Cop0.wideOperations, h, decide_true, Bool.true_or]
  rw [ifWide, bind_of_ok hwide, if_pos rfl]

/-- An address and the offset in memory behind it have the same alignment. -/
private theorem mod_length {c : Cpu} {a : UInt64} (h : c.Unmapped a p) (s : PartialSize) :
    a.toNat % s.length = p % s.length := by
  have hsegment := h.segment
  cases s <;> simp only [PartialSize.length] <;> omega

/-- The aligned word or doubleword that an address lies in is loaded. -/
private theorem loading_around {a a' : UInt64} (h : m.cpu.Unmapped a p)
    (ha' : a'.toNat + a.toNat % s.length = a.toNat)
    (hfits : p - p % s.length + s.length ≤ Region.rdram.size) (use : UInt64 → Cpu → Cpu) :
    loading a' s.length use m =
      .ok () ⟨use (BigEndian.value (m.bus.rdram.load (p - p % s.length) s.length)) m.cpu,
        m.bus⟩ := by
  have hle := Nat.mod_le p s.length
  have hsize := Region.size_rdram_lt
  have hlength := s.length_le
  have hmod := mod_length h s
  have hlt := Nat.mod_lt p s.length_pos
  have hbase : m.cpu.Unmapped a' (p - p % s.length) := h.move (by omega) (by omega) (by omega)
  have halign : (p - p % s.length) % s.length = 0 := by
    cases s <;> simp only [PartialSize.length] <;> omega
  rw [loading, bind_of_ok (load_rdram hbase halign hfits)]
  rfl

/-- Clearing the low bits of an address leads to the start of what it lies in. -/
private theorem toNat_clear_low {n : Nat} (a mask : UInt64) (hn : n ≤ 64)
    (hhigh : mask.toNat / 2 ^ n = 2 ^ (64 - n) - 1) (hlow : mask.toNat % 2 ^ n = 0) :
    (a &&& mask).toNat + a.toNat % 2 ^ n = a.toNat := by
  -- The quotient keeps every bit, and the remainder keeps none
  have hlt : a.toNat / 2 ^ n < 2 ^ (64 - n) := by
    apply Nat.div_lt_of_lt_mul
    rw [← Nat.pow_add, Nat.add_sub_cancel' hn]
    exact a.toNat_lt
  have hdiv : (a &&& mask).toNat / 2 ^ n = a.toNat / 2 ^ n := by
    rw [UInt64.toNat_and, Nat.and_div_two_pow, hhigh, Nat.and_two_pow_sub_one_eq_mod,
      Nat.mod_eq_of_lt hlt]
  have hmod : (a &&& mask).toNat % 2 ^ n = 0 := by
    rw [UInt64.toNat_and, Nat.and_mod_two_pow, hlow, Nat.and_zero]
  calc (a &&& mask).toNat + a.toNat % 2 ^ n
      = 2 ^ n * ((a &&& mask).toNat / 2 ^ n) + a.toNat % 2 ^ n := by
        rw [Nat.mul_div_cancel' (Nat.dvd_of_mod_eq_zero hmod)]
    _ = a.toNat := by rw [hdiv, Nat.div_add_mod]

/-- LWL and LDL merge the left part of what the address lies in into the register, LWR and
LDR the right part. -/
theorem execute_load (side : PartialSize.Side) (hop : i.opcode = s.loadOpcode side) (pc : UInt64)
    (h : m.cpu.Unmapped (m.cpu.effectiveAddress i) p)
    (hfits : p - p % s.length + s.length ≤ Region.rdram.size) :
    execute i pc m =
      .ok () ⟨m.cpu.setGpr i.rt (s.merge side (m.cpu.reg i.rt)
        (BigEndian.value (m.bus.rdram.load (p - p % s.length) s.length))
        (m.cpu.effectiveAddress i)), m.bus⟩ := by
  cases s with
  | word =>
    have hload := loading_around h (toNat_clear_low (n := 2) _ (~~~3) (by decide) rfl rfl) hfits
    cases side <;> simp only [execute, hop, PartialSize.loadOpcode] <;> exact hload _
  | doubleword =>
    have hload := loading_around h (toNat_clear_low (n := 3) _ (~~~7) (by decide) rfl rfl) hfits
    cases side <;> simp only [execute, hop, PartialSize.loadOpcode] <;>
      rw [ifWide_kernel h.kernel] <;> exact hload _

/-- The kernel may use all of these instructions, also those for doublewords. -/
private theorem execute_storeOpcode (side : PartialSize.Side)
    (hop : i.opcode = s.storeOpcode side) (pc : UInt64) (h : m.cpu.cop0.privilege = .kernel) :
    execute i pc m = (match side with
      | .left => storeLeft i s.length
      | .right => storeRight i s.length) m := by
  cases s with
  | word => cases side <;> simp only [execute, hop, PartialSize.storeOpcode] <;> rfl
  | doubleword =>
    cases side <;> simp only [execute, hop, PartialSize.storeOpcode] <;> exact ifWide_kernel h _

/-- Bytes at an address near one without translation. -/
private theorem storeBytes_part {a a' : UInt64} {p' : Nat} {data : List UInt8}
    (h : m.cpu.Unmapped a p) (ha' : a'.toNat + p = a.toNat + p') (hp : p < 0x20000000)
    (hfits : p' + data.length ≤ Region.rdram.size) (hpos : 0 < data.length) :
    ∃ writes, (discard (storeBytes a' data) : MachineM Unit) m = .ok () ⟨m.cpu, { m.bus with
      rdram := m.bus.rdram.store p' data, writes }⟩ := by
  obtain ⟨writes, hstored⟩ := storeBytes_rdram (h.move ha' hp (Region.lt_of_fits hfits)) hfits hpos
  refine ⟨writes, ?_⟩
  rw [discard_eq, bind_of_ok hstored]
  rfl

/-- The start of what an address lies in. -/
private theorem toNat_sub_mod (a : UInt64) (s : PartialSize) :
    (a - UInt64.ofNat (a.toNat % s.length)).toNat = a.toNat - a.toNat % s.length := by
  have hlt := Nat.mod_lt a.toNat s.length_pos
  have hofNat : (UInt64.ofNat (a.toNat % s.length)).toNat = a.toNat % s.length :=
    UInt64.toNat_ofNat_of_lt' (Nat.lt_of_lt_of_le hlt (Nat.le_trans s.length_le (by decide)))
  have hle : UInt64.ofNat (a.toNat % s.length) ≤ a := by
    rw [UInt64.le_iff_toNat_le, hofNat]
    exact Nat.mod_le _ _
  rw [UInt64.toNat_sub_of_le _ _ hle, hofNat]

/-- SWL and SDL store the bytes up to the end of the aligned word or doubleword, SWR and SDR
those from its start on. -/
theorem execute_store (side : PartialSize.Side) (hop : i.opcode = s.storeOpcode side) (pc : UInt64)
    (h : m.cpu.Unmapped (m.cpu.effectiveAddress i) p)
    (hfits : p - p % s.length + s.length ≤ Region.rdram.size) :
    ∃ writes, execute i pc m = .ok () ⟨m.cpu, { m.bus with
      rdram := m.bus.rdram.store (s.partStart side p) (s.part side (p % s.length) (m.cpu.reg i.rt))
      writes }⟩ := by
  have hmod := mod_length h s
  have hk : (m.cpu.effectiveAddress i % UInt64.ofNat s.length).toNat = p % s.length := by
    rw [← hmod, UInt64.toNat_mod]
    cases s <;> rfl
  have hlt := Nat.mod_lt p s.length_pos
  have hle := Nat.mod_le p s.length
  have hsize := Region.size_rdram_lt
  rw [execute_storeOpcode side hop pc h.kernel]
  -- The parts are those that the instructions store, by the place of the address in its word
  cases side with
  | left =>
    have hlength := s.length_part_left (p % s.length) (m.cpu.reg i.rt)
    have hpart : storeLeft i s.length m = (discard (storeBytes (m.cpu.effectiveAddress i)
        (s.part .left (p % s.length) (m.cpu.reg i.rt))) : MachineM Unit) m := by
      rw [PartialSize.part, ← hk]
      rfl
    simp only [hpart]
    exact storeBytes_part h rfl (by omega) (by rw [hlength, PartialSize.partStart]; omega)
      (by rw [hlength]; omega)
  | right =>
    have hlength := s.length_part_right hlt (m.cpu.reg i.rt)
    have hpart : storeRight i s.length m = (discard (storeBytes
        (m.cpu.effectiveAddress i - UInt64.ofNat (p % s.length))
        (s.part .right (p % s.length) (m.cpu.reg i.rt))) : MachineM Unit) m := by
      rw [PartialSize.part, ← hk]
      rfl
    have hback := toNat_sub_mod (m.cpu.effectiveAddress i) s
    have hback' := Nat.mod_le (m.cpu.effectiveAddress i).toNat s.length
    rw [hmod] at hback hback'
    simp only [hpart]
    exact storeBytes_part h (by rw [hback, PartialSize.partStart]; omega) (by omega)
      (by rw [hlength, PartialSize.partStart]; omega) (by rw [hlength]; omega)

end Machine

/-! ## Both parts together -/

/-- The bits of a number in memory, of which the last byte is the lowest. -/
private theorem Rdram.getLsbD_load (m : Rdram) (p : Nat) {n j : Nat} (hn : n ≤ 8)
    (hj : j < 8 * n) :
    (BigEndian.value (m.load p n)).toBitVec.getLsbD j =
      (m.byteAt (p + (n - 1 - j / 8))).toBitVec.getLsbD (j % 8) := by
  have hlength : (m.load p n).length = n := by simp [Rdram.load]
  rw [BigEndian.getLsbD_value (by rw [hlength]; exact hn) (by rw [hlength]; exact hj), hlength,
    Rdram.load, List.getElem?_map, List.getElem?_range (by omega), Option.map_some,
    Option.getD_some]

/-- What is stored is found again, where memory is installed. -/
theorem Rdram.load_store (m : Rdram) {p : Nat} {data : List UInt8}
    (hfits : p + data.length ≤ m.size) : (m.store p data).load p data.length = data := by
  apply List.ext_getElem?
  intro i
  rw [load, List.getElem?_map]
  by_cases hi : i < data.length
  · rw [List.getElem?_range hi, Option.map_some, byteAt_store, if_pos (by omega),
      Nat.add_sub_cancel_left, List.getElem?_eq_getElem hi, Option.getD_some]
  · rw [List.getElem?_eq_none (by simpa using Nat.le_of_not_lt hi),
      List.getElem?_eq_none (Nat.le_of_not_lt hi), Option.map_none]

/-- A run of bytes may be stored in two parts, which may overlap. -/
private theorem Rdram.byteAt_store_take_drop (m : Rdram) {p i j : Nat} (h : j ≤ i)
    (data : List UInt8) (x : Nat) :
    ((m.store p (data.take i)).store (p + j) (data.drop j)).byteAt x =
      (m.store p data).byteAt x := by
  simp only [byteAt_store, size_store, List.getElem?_take, List.getElem?_drop]
  by_cases hx : p + j ≤ x ∧ x < m.size
  · have hindex : j + (x - (p + j)) = x - p := by omega
    have hp : p ≤ x ∧ x < m.size := by omega
    simp only [if_pos hx, if_pos hp, hindex]
    -- Behind the last byte neither part has one
    cases hbyte : data[x - p]? with
    | some byte => rfl
    | none => simp only [Option.getD_none, ite_self]
  · rw [if_neg hx]
    by_cases hleft : p ≤ x ∧ x < m.size
    · rw [if_pos hleft, if_pos hleft, if_pos (by omega)]
    · rw [if_neg hleft, if_neg hleft]

namespace PartialSize

/-- The places of an address and of the last byte of the data there. -/
private theorem places (s : PartialSize) (p : Nat) :
    (p % s.length = 0 ∧ (p + (s.length - 1)) % s.length = s.length - 1) ∨
      (0 < p % s.length ∧ (p + (s.length - 1)) % s.length = p % s.length - 1) := by
  cases s <;> simp only [length] <;> omega

/-- The left part of the data at `p` and the right part of what its last byte lies in make up
the data, whatever was in the register. -/
theorem merge_right_left (s : PartialSize) (m : Rdram) (register : UInt64) {a a' : UInt64}
    {p last : Nat} (hlast : last = p + (s.length - 1))
    (ha : a.toNat % s.length = p % s.length) (ha' : a'.toNat % s.length = last % s.length) :
    s.merge .right
      (s.merge .left register (BigEndian.value (m.load (p - p % s.length) s.length)) a)
      (BigEndian.value (m.load (last - last % s.length) s.length)) a' =
    s.image (BigEndian.value (m.load p s.length)) := by
  subst hlast
  have hn := s.length_le
  have hpos := s.length_pos
  have hplaces := s.places p
  have hle := Nat.mod_le p s.length
  have hle' := Nat.mod_le (p + (s.length - 1)) s.length
  have hlt := Nat.mod_lt p hpos
  show s.right (s.left register _ a) _ a' = _
  rw [← image_right]
  apply s.image_congr
  intro j hj
  rw [getLsbD_right _ _ _ _ hj, ha', m.getLsbD_load p hn hj]
  split
  case isTrue hlow =>
    -- The byte is one of the right part
    rw [m.getLsbD_load _ hn hlow]
    exact congrArg₂ (fun x i => (m.byteAt x).toBitVec.getLsbD i) (by omega) (by omega)
  case isFalse hhigh =>
    -- It is one of the left part, which the right part has left alone
    rw [getLsbD_left _ _ _ _ hj, ha, if_neg (by omega), m.getLsbD_load _ hn (by omega)]
    exact congrArg₂ (fun x i => (m.byteAt x).toBitVec.getLsbD i) (by omega) (by omega)

/-- What the two parts of a register store is what all of its bytes do. -/
theorem byteAt_store_parts (s : PartialSize) (m : Rdram) (v : UInt64) (p x : Nat) :
    ((m.store p (s.part .left (p % s.length) v)).store
      (s.partStart .right (p + (s.length - 1)))
      (s.part .right ((p + (s.length - 1)) % s.length) v)).byteAt x =
    (m.store p (BigEndian.bytes s.length v)).byteAt x := by
  have hpos := s.length_pos
  have hplaces := s.places p
  have hlt := Nat.mod_lt p hpos
  have hstart : s.partStart .right (p + (s.length - 1)) =
      p + (s.length - 1 - (p + (s.length - 1)) % s.length) := by
    rw [partStart]
    omega
  rw [hstart]
  exact m.byteAt_store_take_drop (by omega) _ x

end PartialSize

/-! ## Sequences of instructions -/

/-- Both find the same things at addresses without translation. -/
structure Cpu.SameMode (c c' : Cpu) : Prop where
  privilege : c'.cop0.privilege = c.cop0.privilege
  wideAddresses : c'.cop0.wideAddresses = c.cop0.wideAddresses

namespace Cpu

/-- Then what the one finds without translation, the other one finds there. -/
theorem Unmapped.sameMode {c c' : Cpu} {a : UInt64} {p : Nat} (h : c.Unmapped a p)
    (hmode : c.SameMode c') : c'.Unmapped a p :=
  ⟨hmode.privilege.trans h.kernel, h.segment,
    fun hwide => h.extended (hmode.wideAddresses.symm.trans hwide)⟩

/-- The end of an instruction clears register 0 and keeps the others. -/
private theorem reg_retire (c : Cpu) (r : RegisterIndex) :
    c.retire.1.reg r = if 0 = r then 0 else c.reg r := by
  cases hretire : c.retire with
  | mk c' onPath =>
    cases onPath with
    | true =>
      obtain ⟨-, rfl⟩ := retire_true hretire
      exact c.reg_ended r
    | false =>
      obtain ⟨target, cop0, -, rfl⟩ := retire_false hretire
      exact c.reg_ended r

/-- Unless something is taken, the program goes on in the same mode. -/
private theorem sameMode_retire {c c' : Cpu} (h : c.retire = (c', true)) : c.SameMode c' := by
  obtain ⟨-, rfl⟩ := retire_true h
  have hstatus : c.cop0.ticked.status = c.cop0.status := congrArg Prod.snd c.cop0.ticked_keeps.2
  constructor
  · show c.cop0.ticked.privilege = c.cop0.privilege
    rw [Cop0.privilege, Cop0.privilege, hstatus]
  · show c.cop0.ticked.wideAddresses = c.cop0.wideAddresses
    rw [Cop0.wideAddresses, Cop0.wideAddresses, Cop0.privilege, Cop0.privilege, hstatus]

end Cpu

namespace Machine

/-- The program goes on in `m₂` after an instruction that has led from `m` to `m₁`: at once, or
when handlers have returned that left its registers and main memory alone. -/
structure Resumes (m m₁ m₂ : Machine) : Prop where
  gpr : m₂.cpu.gpr = m₁.cpu.gpr
  rdram : m₂.bus.rdram = m₁.bus.rdram
  mode : m.cpu.SameMode m₂.cpu

/-- The instructions are carried out one after the other, without a fault and without an effect
on any device but main memory, and `P` holds in the end, whatever handlers run in between. -/
def Completes : List UInt32 → (Machine → Prop) → Machine → Prop
  | [], P, m => P m
  | word :: rest, P, m => ∃ onPath m₁, carryOut word m.cpu.pc m = .ok onPath m₁ ∧
      (∃ rdram writes, m₁.bus = { m.bus with rdram, writes }) ∧
      (onPath = true → Resumes m m₁ m₁) ∧ ∀ m₂, Resumes m m₁ m₂ → Completes rest P m₂

/-- What holds in the end may be weakened. -/
theorem Completes.mono {words : List UInt32} {P Q : Machine → Prop} (hPQ : ∀ m, P m → Q m)
    {m : Machine} (h : Completes words P m) : Completes words Q m := by
  induction words generalizing m with
  | nil => exact hPQ m h
  | cons word rest ih =>
    obtain ⟨onPath, m₁, hcarry, hbus, hpath, hrest⟩ := h
    exact ⟨onPath, m₁, hcarry, hbus, hpath, fun m₂ hresumes => ih (hrest m₂ hresumes)⟩

/-- An instruction that is carried out and leaves the coprocessor and devices alone. -/
private theorem completes_cons {word : UInt32} {rest : List UInt32} {P : Machine → Prop}
    {m m₁ : Machine}
    (hexecute : execute ⟨word⟩ m.cpu.pc ⟨m.cpu.begin m.cpu.pc word, m.bus⟩ = .ok () m₁)
    (hcop0 : m₁.cpu.cop0 = m.cpu.cop0)
    (hbus : ∃ rdram writes, m₁.bus = { m.bus with rdram, writes })
    (hrest : ∀ m₂, (∀ r, m₂.cpu.reg r = if 0 = r then 0 else m₁.cpu.reg r) →
      m₂.bus.rdram = m₁.bus.rdram → m.cpu.SameMode m₂.cpu → Completes rest P m₂) :
    Completes (word :: rest) P m := by
  -- The instruction is carried out, and the rest goes on from where it leaves
  have hbegin : modifyCpu (·.begin m.cpu.pc word) m =
      .ok () ⟨m.cpu.begin m.cpu.pc word, m.bus⟩ := rfl
  have hcarry : carryOut word m.cpu.pc m =
      .ok m₁.cpu.retire.2 ⟨m₁.cpu.retire.1, m₁.bus⟩ := by
    rw [carryOut, interpret, bind_assoc, bind_of_ok hbegin, bind_of_ok hexecute]
    rfl
  refine ⟨_, _, hcarry, hbus, fun honPath => ⟨rfl, rfl, ?_⟩, fun m₂ hresumes => ?_⟩
  · obtain ⟨hprivilege, hwide⟩ := Cpu.sameMode_retire (Prod.ext rfl honPath)
    exact ⟨hcop0 ▸ hprivilege, hcop0 ▸ hwide⟩
  · refine hrest m₂ (fun r => ?_) hresumes.rdram hresumes.mode
    rw [Cpu.reg, hresumes.gpr]
    exact m₁.cpu.reg_retire r

end Machine

/-! ## The pairs -/

/-- The word of the instruction that is written `opcode rt, offset(base)`. -/
structure Encodes (word opcode : UInt32) (rt base : RegisterIndex) (offset : UInt16) : Prop where
  opcode : (Instruction.mk word).opcode = opcode
  rt : (Instruction.mk word).rt = rt
  base : (Instruction.mk word).rs = base
  offset : (Instruction.mk word).immediate = offset

/-- The two instructions that transfer register `rt`: one for the left part at the address in
register `base`, and one for the right part at the last byte of the data there. -/
def PartialSize.Pair (s : PartialSize) (opcode : Side → UInt32) (rt base : RegisterIndex)
    (words : List UInt32) : Prop :=
  ∃ left right, words = [left, right] ∧ Encodes left (opcode .left) rt base 0 ∧
    Encodes right (opcode .right) rt base (UInt16.ofNat (s.length - 1))

namespace Machine

/-- After a pair of loads the value is in its register.  The other registers and main memory are
as they were. -/
structure PairLoaded (m : Machine) (rt : RegisterIndex) (v : UInt64) (m' : Machine) : Prop where
  loaded : m'.cpu.reg rt = v
  others : ∀ r, r ≠ rt → m'.cpu.reg r = m.cpu.reg r
  rdram : m'.bus.rdram = m.bus.rdram

/-- After a pair of stores the bytes are in main memory.  The other bytes and the registers are
as they were. -/
structure PairStored (m : Machine) (p : Nat) (data : List UInt8) (m' : Machine) : Prop where
  stored : m'.bus.rdram.load p data.length = data
  others : ∀ x, x < p ∨ p + data.length ≤ x → m'.bus.rdram.byteAt x = m.bus.rdram.byteAt x
  size : m'.bus.rdram.size = m.bus.rdram.size
  registers : ∀ r, m'.cpu.reg r = m.cpu.reg r

variable {s : PartialSize} {m : Machine} {word : UInt32} {rest : List UInt32}
  {rt base : RegisterIndex} {offset : UInt16} {p : Nat} {P : Machine → Prop}

/-- What is around a place of main memory is main memory. -/
private theorem around_fits (s : PartialSize) (hp : p < Region.rdram.size) :
    p - p % s.length + s.length ≤ Region.rdram.size := by
  have hsize : Region.rdram.size % 8 = 0 := by decide
  cases s <;> simp only [PartialSize.length] <;> omega

/-- A load of a part is carried out, and merges it into the register. -/
private theorem completes_load (side : PartialSize.Side)
    (hword : Encodes word (s.loadOpcode side) rt base offset)
    (h : m.cpu.Unmapped (m.cpu.reg base + signExtend16 offset) p) (hp : p < Region.rdram.size)
    (hzero : m.cpu.reg 0 = 0) (hrt : rt ≠ 0)
    (hrest : ∀ m₂, (∀ r, m₂.cpu.reg r = if rt = r then
        s.merge side (m.cpu.reg rt)
          (BigEndian.value (m.bus.rdram.load (p - p % s.length) s.length))
          (m.cpu.reg base + signExtend16 offset)
        else m.cpu.reg r) →
      m₂.bus.rdram = m.bus.rdram → m.cpu.SameMode m₂.cpu → Completes rest P m₂) :
    Completes (word :: rest) P m := by
  -- Register zero is among the registers that are read, which is why it has to be zero
  obtain ⟨hop, rfl, rfl, rfl⟩ := hword
  have hexecute := execute_load (m := ⟨m.cpu.begin m.cpu.pc word, m.bus⟩) side hop m.cpu.pc
    ⟨h.kernel, h.segment, h.extended⟩ (around_fits s hp)
  refine completes_cons hexecute rfl ⟨m.bus.rdram, m.bus.writes, rfl⟩ fun m₂ hreg hrdram hmode => ?_
  refine hrest m₂ (fun r => ?_) hrdram hmode
  rw [hreg r, Cpu.reg_setGpr]
  split
  case isTrue hr =>
    subst hr
    rw [if_neg hrt]
    exact hzero.symm
  case isFalse => rfl

/-- A store of a part is carried out, and stores it. -/
private theorem completes_store (side : PartialSize.Side)
    (hword : Encodes word (s.storeOpcode side) rt base offset)
    (h : m.cpu.Unmapped (m.cpu.reg base + signExtend16 offset) p) (hp : p < Region.rdram.size)
    (hzero : m.cpu.reg 0 = 0)
    (hrest : ∀ m₂, (∀ r, m₂.cpu.reg r = m.cpu.reg r) →
      m₂.bus.rdram = m.bus.rdram.store (s.partStart side p)
        (s.part side (p % s.length) (m.cpu.reg rt)) →
      m.cpu.SameMode m₂.cpu → Completes rest P m₂) :
    Completes (word :: rest) P m := by
  obtain ⟨hop, rfl, rfl, rfl⟩ := hword
  obtain ⟨writes, hexecute⟩ := execute_store (m := ⟨m.cpu.begin m.cpu.pc word, m.bus⟩) side hop
    m.cpu.pc ⟨h.kernel, h.segment, h.extended⟩ (around_fits s hp)
  refine completes_cons hexecute rfl ⟨_, writes, rfl⟩ fun m₂ hreg hrdram hmode => ?_
  refine hrest m₂ (fun r => ?_) hrdram hmode
  rw [hreg r]
  split
  case isTrue hr =>
    subst hr
    exact hzero.symm
  case isFalse => rfl

/-- The last byte of data in main memory is in main memory too. -/
private theorem unmapped_lastByte {c : Cpu} {a : UInt64} (h : c.Unmapped a p)
    (hfits : p + s.length ≤ Region.rdram.size) :
    c.Unmapped (a + signExtend16 (UInt16.ofNat (s.length - 1))) (p + (s.length - 1)) := by
  have hsegment := h.segment
  have hsize := Region.size_rdram_lt
  have hlast : (signExtend16 (UInt16.ofNat (s.length - 1))).toNat = s.length - 1 := by
    cases s <;> rfl
  have hlt := a.toNat_lt
  refine h.move ?_ (by omega) (by omega)
  rw [UInt64.toNat_add, hlast]
  omega

/-- A pair of loads. -/
private theorem completes_loads {words : List UInt32}
    (hpair : s.Pair s.loadOpcode rt base words) (h : m.cpu.Unmapped (m.cpu.reg base) p)
    (hfits : p + s.length ≤ Region.rdram.size) (hzero : m.cpu.reg 0 = 0) (hrt : rt ≠ 0)
    (hbase : rt ≠ base) :
    Completes words
      (m.PairLoaded rt (s.image (BigEndian.value (m.bus.rdram.load p s.length)))) m := by
  obtain ⟨left, right, rfl, hleft, hright⟩ := hpair
  have hpos := s.length_pos
  have ha : m.cpu.reg base + signExtend16 0 = m.cpu.reg base := UInt64.add_zero _
  -- The left part comes first, and leaves the base that the right part needs
  refine completes_load .left hleft (ha.symm ▸ h) (by omega) hzero hrt
    fun m₁ hreg₁ hrdram₁ hmode₁ => ?_
  have hbase₁ : m₁.cpu.reg base = m.cpu.reg base := (hreg₁ base).trans (if_neg hbase)
  have hzero₁ : m₁.cpu.reg 0 = 0 := ((hreg₁ 0).trans (if_neg hrt)).trans hzero
  have h₁ := (unmapped_lastByte h hfits).sameMode hmode₁
  rw [← hbase₁] at h₁
  refine completes_load .right hright h₁ (by omega) hzero₁ hrt fun m₂ hreg₂ hrdram₂ _ => ?_
  refine ⟨?_, fun r hr => ?_, hrdram₂.trans hrdram₁⟩
  · rw [hreg₂, if_pos rfl, hreg₁, if_pos rfl, hrdram₁]
    exact s.merge_right_left _ _ rfl (mod_length (ha.symm ▸ h) s) (mod_length h₁ s)
  · rw [hreg₂, if_neg hr.symm, hreg₁, if_neg hr.symm]

/-- A pair of stores, and what comes after it. -/
private theorem completes_stores {words : List UInt32}
    (hpair : s.Pair s.storeOpcode rt base words) (h : m.cpu.Unmapped (m.cpu.reg base) p)
    (hfits : p + s.length ≤ Region.rdram.size) (hinstalled : p + s.length ≤ m.bus.rdram.size)
    (hzero : m.cpu.reg 0 = 0)
    (hrest : ∀ m₂, m.PairStored p (BigEndian.bytes s.length (m.cpu.reg rt)) m₂ →
      m.cpu.SameMode m₂.cpu → Completes rest P m₂) :
    Completes (words ++ rest) P m := by
  obtain ⟨left, right, rfl, hleft, hright⟩ := hpair
  have hpos := s.length_pos
  have ha : m.cpu.reg base + signExtend16 0 = m.cpu.reg base := UInt64.add_zero _
  refine completes_store .left hleft (ha.symm ▸ h) (by omega) hzero
    fun m₁ hreg₁ hrdram₁ hmode₁ => ?_
  have h₁ := (unmapped_lastByte h hfits).sameMode hmode₁
  rw [← hreg₁ base] at h₁
  refine completes_store .right hright h₁ (by omega) ((hreg₁ 0).trans hzero)
    fun m₂ hreg₂ hrdram₂ hmode₂ => ?_
  have hdata : (BigEndian.bytes s.length (m.cpu.reg rt)).length = s.length :=
    BigEndian.length_bytes _ _
  -- The second store finds the register as it was, and completes what the first one has left
  have hbytes : ∀ x, m₂.bus.rdram.byteAt x =
      (m.bus.rdram.store p (BigEndian.bytes s.length (m.cpu.reg rt))).byteAt x := by
    intro x
    rw [hrdram₂, hrdram₁, hreg₁]
    exact s.byteAt_store_parts _ _ _ _
  refine hrest m₂ ⟨?_, fun x hx => ?_, ?_, fun r => (hreg₂ r).trans (hreg₁ r)⟩ ?_
  · rw [Rdram.load, List.map_congr_left fun i _ => hbytes (p + i)]
    exact m.bus.rdram.load_store (hdata.symm ▸ hinstalled)
  · rw [hbytes, Rdram.byteAt_store_of_not_mem _ _ _ _ hx]
  · rw [hrdram₂, hrdram₁, Rdram.size_store, Rdram.size_store]
  · exact ⟨hmode₂.privilege.trans hmode₁.privilege,
      hmode₂.wideAddresses.trans hmode₁.wideAddresses⟩

/-- Pairs of instructions for unaligned data.  For words and for doublewords, at any address `p`
of installed main memory that the kernel reaches without translation through the register
`base`: a pair of loads leaves the bytes at `p`, as a number, in its register and nothing else
changed, a pair of stores leaves the bytes of its register at `p` and nothing else changed, and
a pair of loads after a pair of stores leaves what the register held. -/
theorem unaligned_pairs (s : PartialSize) {m : Machine} {base : RegisterIndex} {p : Nat}
    (hzero : m.cpu.reg 0 = 0) (h : m.cpu.Unmapped (m.cpu.reg base) p)
    (hinstalled : p + s.length ≤ m.bus.rdram.size) (hfits : p + s.length ≤ Region.rdram.size) :
    (∀ {rt words}, s.Pair s.loadOpcode rt base words → rt ≠ base → rt ≠ 0 →
      Completes words
        (m.PairLoaded rt (s.image (BigEndian.value (m.bus.rdram.load p s.length)))) m) ∧
    (∀ {rt words}, s.Pair s.storeOpcode rt base words →
      Completes words (m.PairStored p (BigEndian.bytes s.length (m.cpu.reg rt))) m) ∧
    ∀ {rt rt' stores loads}, s.Pair s.storeOpcode rt base stores →
      s.Pair s.loadOpcode rt' base loads → rt' ≠ base → rt' ≠ 0 →
      Completes (stores ++ loads) (fun m' => m'.cpu.reg rt' = s.image (m.cpu.reg rt)) m := by
  refine ⟨fun hpair hbase hrt => ?_, fun {rt words} hpair => ?_, fun hstores hloads hbase hrt => ?_⟩
  · exact completes_loads hpair h hfits hzero hrt hbase
  · have hdone : Completes (words ++ [])
        (m.PairStored p (BigEndian.bytes s.length (m.cpu.reg rt))) m :=
      completes_stores hpair h hfits hinstalled hzero fun m₂ hstored _ => hstored
    rwa [List.append_nil] at hdone
  -- The loads begin from what the stores leave, in the same mode and with the same base
  · refine completes_stores hstores h hfits hinstalled hzero fun m₂ hstored hmode => ?_
    have h₂ := h.sameMode hmode
    rw [← hstored.registers] at h₂
    refine (completes_loads hloads h₂ hfits ((hstored.registers 0).trans hzero) hrt hbase).mono
      fun m' hloaded => ?_
    have hdata := hstored.stored
    rw [BigEndian.length_bytes] at hdata
    rw [hloaded.loaded, hdata]
    exact s.image_congr fun j hj => BigEndian.getLsbD_value_bytes s.length_le _ hj

/-- A machine with an address one byte before a word in register 4. -/
def misaligned : Machine :=
  loaded 0xFFFFFFFF80000100 [(4, 0xFFFFFFFF80000003), (8, 0x0123456789ABCDEF)]
    [(.rdram, 0, 0x000000F1), (.rdram, 4, 0xE2D3C4B5)]

/-- LWL and LWR load a word from there, SWL and SWR store one. -/
theorem unaligned_pairs_misaligned :
    Completes [0x88890000, 0x98890003] (misaligned.PairLoaded 9 0xFFFFFFFFF1E2D3C4) misaligned ∧
    Completes [0xA8880000, 0xB8880003]
      (misaligned.PairStored 3 [0x89, 0xAB, 0xCD, 0xEF]) misaligned ∧
    Completes [0xA8880000, 0xB8880003, 0x88890000, 0x98890003]
      (fun m' => m'.cpu.reg 9 = 0xFFFFFFFF89ABCDEF) misaligned := by
  have haddress : misaligned.cpu.Unmapped (misaligned.cpu.reg 4) 3 :=
    ⟨by decide +kernel, .inl (by decide +kernel), by decide +kernel⟩
  have hloads : PartialSize.word.Pair PartialSize.word.loadOpcode 9 4 [0x88890000, 0x98890003] :=
    ⟨_, _, rfl, ⟨rfl, rfl, rfl, rfl⟩, ⟨rfl, rfl, rfl, rfl⟩⟩
  have hstores : PartialSize.word.Pair PartialSize.word.storeOpcode 8 4 [0xA8880000, 0xB8880003] :=
    ⟨_, _, rfl, ⟨rfl, rfl, rfl, rfl⟩, ⟨rfl, rfl, rfl, rfl⟩⟩
  obtain ⟨hload, hstore, hround⟩ := unaligned_pairs .word (by decide +kernel) haddress
    (by decide +kernel) (by decide +kernel)
  have hvalue : PartialSize.word.image (BigEndian.value (misaligned.bus.rdram.load 3 4)) =
      0xFFFFFFFFF1E2D3C4 := by
    decide +kernel
  have hbytes : BigEndian.bytes 4 (misaligned.cpu.reg 8) = [0x89, 0xAB, 0xCD, 0xEF] := by
    decide +kernel
  have himage : PartialSize.word.image (misaligned.cpu.reg 8) = 0xFFFFFFFF89ABCDEF := by
    decide +kernel
  refine ⟨?_, ?_, ?_⟩
  · exact hvalue ▸ hload hloads (by decide) (by decide)
  · exact hbytes ▸ hstore hstores
  · exact himage ▸ hround hstores hloads (by decide) (by decide)

end Machine

end Console64

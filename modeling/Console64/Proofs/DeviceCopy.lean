import Console64.Proofs.CodeMemory

/-!
# Copies between two devices

A block copy moves four bytes at a time, and each four bytes are routed byte by byte.  Where both
ends lie inside one device each, nothing of this shows: the bytes of the source arrive at the
target, in stores of four bytes.

## Key results

- `Bus.runs_inside`: a span inside a region is one run
- `Bus.copyUnits_inside`: a block copy between two regions is a sequence of stores into the
  second one
- `Rdram.byteAt_store`: what is in main memory after a store
-/

namespace Console64

/-- Bytes as they arrive at a device. -/
structure Arrival where
  offset : Nat
  data : List UInt8
  deriving DecidableEq, Repr

namespace Arrival

/-- Bytes that arrive from `offset` on, in the first `n` units of a block copy. -/
def units (offset : Nat) : (n : Nat) → List UInt8 → List Arrival
  | 0, _ => []
  | n + 1, data =>
    ⟨offset, data.take Bus.copyUnit⟩ ::
      units (offset + Bus.copyUnit) n (data.drop Bus.copyUnit)

/-- More units take what the first ones have left. -/
theorem units_add (offset m n : Nat) (data : List UInt8) :
    units offset (m + n) data =
      units offset m data ++
        units (offset + Bus.copyUnit * m) n (data.drop (Bus.copyUnit * m)) := by
  induction m generalizing offset data with
  | zero => simp [units]
  | succ m ih =>
    rw [Nat.succ_add, units, units, ih, List.drop_drop, List.cons_append, Nat.mul_succ,
      Nat.add_comm (Bus.copyUnit * m), Nat.add_assoc]

end Arrival

/-! ## Bytes from a place on -/

/-- The bytes of a device from `offset` on. -/
def bytesFrom (view : Nat → UInt8) (offset length : Nat) : List UInt8 :=
  (List.range length).map fun i => view (offset + i)

/-- There are as many as were asked for, -/
@[simp] theorem length_bytesFrom (view : Nat → UInt8) (offset length : Nat) :
    (bytesFrom view offset length).length = length := by
  simp [bytesFrom]

/-- each where it was, -/
theorem getElem?_bytesFrom (view : Nat → UInt8) (offset : Nat) {i length : Nat} (h : i < length) :
    (bytesFrom view offset length)[i]? = some (view (offset + i)) := by
  simp only [bytesFrom, List.getElem?_map, List.getElem?_range h, Option.map_some]

/-- the first one and then those behind it. -/
theorem bytesFrom_succ (view : Nat → UInt8) (offset length : Nat) :
    bytesFrom view offset (length + 1) = view offset :: bytesFrom view (offset + 1) length := by
  have hview : ∀ i, view (offset + (i + 1)) = view (offset + 1 + i) := by
    intro i
    rw [Nat.add_assoc, Nat.add_comm 1 i]
  simp only [bytesFrom, List.range_succ_eq_map, List.map_cons, List.map_map, Nat.add_zero,
    Function.comp_def, Nat.succ_eq_add_one, hview]

/-- The first of them are a shorter stretch, -/
theorem take_bytesFrom (view : Nat → UInt8) (offset : Nat) {n length : Nat} (h : n ≤ length) :
    (bytesFrom view offset length).take n = bytesFrom view offset n := by
  rw [bytesFrom, ← List.map_take, List.take_range, Nat.min_eq_left h, bytesFrom]

/-- and those that are left start further on. -/
theorem drop_bytesFrom (view : Nat → UInt8) (offset n length : Nat) :
    (bytesFrom view offset length).drop n = bytesFrom view (offset + n) (length - n) := by
  apply List.ext_getElem?
  intro i
  rw [List.getElem?_drop]
  by_cases h : n + i < length
  · rw [getElem?_bytesFrom view offset h, getElem?_bytesFrom view _ (by omega), Nat.add_assoc]
  · rw [List.getElem?_eq_none (by simp; omega), List.getElem?_eq_none (by simp; omega)]

/-! ## Main memory -/

namespace Rdram

/-- A store in two parts. -/
theorem store_append (m : Rdram) (offset : Nat) (data data' : List UInt8) :
    m.store offset (data ++ data') = (m.store offset data).store (offset + data.length) data' := by
  induction data generalizing m offset with
  | nil => rfl
  | cons byte rest ih =>
    rw [List.cons_append, store, store, ih, List.length_cons, Nat.add_assoc, Nat.add_comm 1]

/-- After a store its bytes are there, as far as that is installed. -/
theorem byteAt_store (m : Rdram) (offset a : Nat) (data : List UInt8) :
    (m.store offset data).byteAt a =
      if offset ≤ a ∧ a < m.size then (data[a - offset]?).getD (m.byteAt a) else m.byteAt a := by
  induction data generalizing m offset with
  | nil =>
    simp only [store, List.getElem?_nil, Option.getD_none, ite_self]
  | cons byte rest ih =>
    rw [store, ih, byteAt_storeByte, size_storeByte]
    -- Below, at or behind the first byte
    rcases Nat.lt_trichotomy a offset with h | rfl | h
    · rw [if_neg (by omega), if_neg (by omega), if_neg (by omega)]
    · rw [if_neg (by omega)]
      simp
    · have hindex : a - offset = a - (offset + 1) + 1 := by omega
      have hother : ¬(offset = a ∧ offset < m.size) := by omega
      rw [if_neg hother, hindex, List.getElem?_cons_succ]
      simp only [show offset + 1 ≤ a ↔ offset ≤ a from ⟨fun _ => by omega, fun _ => by omega⟩]

end Rdram

namespace Bus

/-! ## Routing inside a region -/

/-- All windows lie below the end of the address space. -/
private theorem window_lt (region : Region) : region.base + region.size < 0x100000000 := by
  cases region <;> decide

/-- Addresses go on inside a region. -/
theorem toNat_add_inside {region : Region} {offset length : Nat} {address : UInt32}
    (haddress : region.base + offset = address.toNat) (hlength : offset + length ≤ region.size) :
    region.base + (offset + length) = (address + UInt32.ofNat length).toNat := by
  have hwindow := window_lt region
  have hofNat : (UInt32.ofNat length).toNat = length :=
    UInt32.toNat_ofNat_of_lt' (show length < 2 ^ 32 by omega)
  rw [UInt32.toNat_add, hofNat, Nat.mod_eq_of_lt] <;> omega

/-- An address inside a region belongs to it. -/
theorem contains_inside {region : Region} {offset : Nat} {address : UInt32}
    (haddress : region.base + offset = address.toNat) (hoffset : offset < region.size) :
    region.contains address.toNat = true := by
  rw [Region.contains, Bool.and_eq_true, Region.stop]
  exact ⟨decide_eq_true (by omega), decide_eq_true (by omega)⟩

/-- So it is resolved to the region and the offset there. -/
theorem resolve_inside {region : Region} {offset : Nat} {address : UInt32}
    (haddress : region.base + offset = address.toNat) (hoffset : offset < region.size) :
    Region.resolve address = .ok (region, offset) := by
  rw [Region.resolve_of_contains (contains_inside haddress hoffset), ← haddress,
    Nat.add_sub_cancel_left]

/-- A span inside a region is one run. -/
theorem runs_inside {region : Region} {offset length : Nat} {address : UInt32}
    (haddress : region.base + offset = address.toNat) (hlength : offset + length ≤ region.size) :
    runs address length = .ok (if length = 0 then [] else [⟨region, offset, length⟩]) := by
  induction length generalizing offset address with
  | zero => rfl
  | succ length ih =>
    have hresolve := resolve_inside haddress (Nat.lt_of_lt_of_le (by omega) hlength)
    have hnext : region.base + (offset + 1) = (address + 1).toNat :=
      toNat_add_inside haddress (by omega)
    -- The first byte joins the run of the other ones
    rw [runs, hresolve, ih hnext (by omega)]
    cases length with
    | zero => rfl
    | succ length => simp [bind, Except.bind, pure, Except.pure]

/-- A load from there is one from the device, -/
theorem loadSpan_inside {region : Region} {offset length : Nat} {address : UInt32}
    (haddress : region.base + offset = address.toNat) (hlength : offset + length ≤ region.size)
    (hpos : 0 < length) (bus : Bus) :
    loadSpan .unaligned address length bus =
      .ok (bus.deviceLoad region offset length).1 (bus.deviceLoad region offset length).2 := by
  simp only [loadSpan, route, runs_inside haddress hlength, if_neg (Nat.ne_of_gt hpos), loadRuns,
    List.append_nil]

/-- and a store is one into it. -/
theorem storeSpan_inside {copy : BlockCopy} {region : Region} {offset : Nat} {address : UInt32}
    {data : List UInt8} (haddress : region.base + offset = address.toNat)
    (hlength : offset + data.length ≤ region.size) (hpos : 0 < data.length) (bus : Bus) :
    storeSpan copy .unaligned address data bus = storeRun copy region offset data bus := by
  simp only [storeSpan, route, runs_inside haddress hlength, if_neg (Nat.ne_of_gt hpos), storeRuns,
    List.take_length, bind_pure_unit]

/-- A span that goes as a whole is one run too. -/
theorem route_aligned {region : Region} {offset length : Nat} {address : UInt32}
    (haddress : region.base + offset = address.toNat) (hlength : offset + length ≤ region.size)
    (hpos : 0 < length) : route .aligned address length = .ok [⟨region, offset, length⟩] := by
  simp only [route, alignedRun, resolve_inside haddress (by omega), bind, Except.bind,
    if_neg (Nat.not_lt.mpr hlength)]
  rfl

/-- A span inside a region is one run, however it is routed. -/
theorem route_inside {region : Region} {offset length : Nat} {address : UInt32}
    (haddress : region.base + offset = address.toNat) (hlength : offset + length ≤ region.size)
    (hpos : 0 < length) (transfer : Transfer) :
    route transfer address length = .ok [⟨region, offset, length⟩] := by
  cases transfer with
  | aligned => exact route_aligned haddress hlength hpos
  | unaligned => rw [route, runs_inside haddress hlength, if_neg (Nat.ne_of_gt hpos)]

/-- So are a load -/
theorem loadSpan_aligned {region : Region} {offset length : Nat} {address : UInt32}
    (haddress : region.base + offset = address.toNat) (hlength : offset + length ≤ region.size)
    (hpos : 0 < length) (bus : Bus) :
    loadSpan .aligned address length bus =
      .ok (bus.deviceLoad region offset length).1 (bus.deviceLoad region offset length).2 := by
  simp only [loadSpan, route_aligned haddress hlength hpos, loadRuns, List.append_nil]

/-- and a store as a whole. -/
theorem storeSpan_aligned {copy : BlockCopy} {region : Region} {offset : Nat} {address : UInt32}
    {data : List UInt8} (haddress : region.base + offset = address.toNat)
    (hlength : offset + data.length ≤ region.size) (hpos : 0 < data.length) (bus : Bus) :
    storeSpan copy .aligned address data bus = storeRun copy region offset data bus := by
  simp only [storeSpan, route_aligned haddress hlength hpos, storeRuns, List.take_length,
    bind_pure_unit]

/-- A word goes to one device, and the side effects of that store follow. -/
theorem writeValue_word {region : Region} {offset : Nat} {address : UInt32}
    (haddress : region.base + offset = address.toNat) (haligned : transferFor address 4 = .aligned)
    (hinside : offset + 4 ≤ region.size) (v : UInt64) (bus : Bus) :
    writeValue address 4 v bus = postStore (nestedCopy nestingLimit) region offset 4
      ((bus.deviceStore region offset (BigEndian.bytes 4 v)).noteStore region offset 4) := by
  have hlength : (BigEndian.bytes 4 v).length = 4 := BigEndian.length_bytes 4 v
  have hrun : storeRun (nestedCopy nestingLimit) region offset (BigEndian.bytes 4 v) bus =
      postStore (nestedCopy nestingLimit) region offset (BigEndian.bytes 4 v).length
        ((bus.deviceStore region offset (BigEndian.bytes 4 v)).noteStore region offset
          (BigEndian.bytes 4 v).length) := rfl
  rw [writeValue, write, hlength, haligned, store,
    storeSpan_aligned haddress (by rwa [hlength]) (by rw [hlength]; decide), hrun, hlength]

/-! ## Block copies -/

section
variable {copy : BlockCopy} {source target : UInt32} {length units moved n : Nat} {bus bus' : Bus}

/-- One unit of a block copy that is loaded and stored without a fault. -/
theorem copyUnits_of_ok {bytes : List UInt8} {bus'' : Bus}
    (hn : min copyUnit (length - moved) = n)
    (hload : loadSpan .unaligned (source + UInt32.ofNat moved) n bus = .ok bytes bus')
    (hstore : storeSpan copy .unaligned (target + UInt32.ofNat moved) bytes bus' = .ok () bus'') :
    copyUnits copy source target length (units + 1) moved bus =
      copyUnits copy source target length units (moved + n) bus'' := by
  subst hn
  simp only [copyUnits]
  apply bind_of_ok (a := ())
  simp only [EStateM.adaptExcept, bind_of_ok hload, hstore]

/-- One unit that is not. -/
theorem copyUnits_of_error {e : BusError} (hn : min copyUnit (length - moved) = n)
    (hfault : loadSpan .unaligned (source + UInt32.ofNat moved) n bus = .error e bus' ∨
      ∃ bytes mid, loadSpan .unaligned (source + UInt32.ofNat moved) n bus = .ok bytes mid ∧
        storeSpan copy .unaligned (target + UInt32.ofNat moved) bytes mid = .error e bus') :
    copyUnits copy source target length (units + 1) moved bus =
      .error (.copyAborted moved e) bus' := by
  subst hn
  simp only [copyUnits]
  apply bind_of_error
  rcases hfault with hload | ⟨bytes, mid, hload, hstore⟩
  · simp only [EStateM.adaptExcept, bind_of_error hload]
  · simp only [EStateM.adaptExcept, bind_of_ok hload, hstore]

end

/-- Nothing has changed but what copies to a memory may change: main memory and its log, and the
signal processor, which loads change too. -/
def CopyFrame (s t : Bus) : Prop := t = { s with rdram := t.rdram, sp := t.sp, writes := t.writes }

namespace CopyFrame

/-- Nothing has changed at all. -/
theorem refl (s : Bus) : CopyFrame s s := rfl

/-- What both leave alone, one after the other leaves alone. -/
theorem trans {s t u : Bus} (h : CopyFrame s t) (h' : CopyFrame t u) : CopyFrame s u := by
  rw [CopyFrame] at h h' ⊢
  rw [h', h]

/-- The PI is not concerned, -/
theorem pi {s t : Bus} (h : CopyFrame s t) : t.pi = s.pi := by rw [h]

/-- and neither is the MI. -/
theorem mi {s t : Bus} (h : CopyFrame s t) : t.mi = s.mi := by rw [h]

end CopyFrame

/-- Stores into one device, in order. -/
def storeArrivals (copy : BlockCopy) (region : Region) (ws : List Arrival) : BusM Unit :=
  ws.forM fun w => storeRun copy region w.offset w.data

/-- The first store, and then the others. -/
theorem storeArrivals_cons (copy : BlockCopy) (region : Region) (w : Arrival) (ws : List Arrival) :
    storeArrivals copy region (w :: ws) =
      storeRun copy region w.offset w.data >>= fun _ => storeArrivals copy region ws := rfl

section
variable {copy : BlockCopy} {source target : Region} {view : Bus → Nat → UInt8}
  {start stop length : Nat}

/-- A block copy between two regions, if there the stores succeed and leave the source as it is,
is a sequence of stores. -/
theorem copyUnits_inside
    (hload : ∀ bus offset n, offset + n ≤ start + length →
      bus.deviceLoad source offset n = (bytesFrom (view bus) offset n, bus))
    (hstore : ∀ bus offset data, offset + data.length ≤ stop + length →
      ∃ bus', storeRun copy target offset data bus = .ok () bus' ∧ view bus' = view bus)
    {a b : UInt32} (ha : source.base + start = a.toNat) (hb : target.base + stop = b.toNat)
    (hsource : start + length ≤ source.size) (htarget : stop + length ≤ target.size)
    {units moved : Nat}
    (hunits : copyUnit * units + moved = length) (bus : Bus) :
    copyUnits copy a b length units moved bus =
      storeArrivals copy target (Arrival.units (stop + moved) units
        (bytesFrom (view bus) (start + moved) (length - moved))) bus := by
  induction units generalizing moved bus with
  | zero => rfl
  | succ units ih =>
    rw [Nat.mul_succ] at hunits
    have hmin : min copyUnit (length - moved) = copyUnit := by omega
    have hpos : 0 < copyUnit := by decide
    -- The next four bytes
    have hbytes : (bytesFrom (view bus) (start + moved) (length - moved)).take copyUnit =
        bytesFrom (view bus) (start + moved) copyUnit := take_bytesFrom _ _ (by omega)
    have hloaded : loadSpan .unaligned (a + UInt32.ofNat moved) copyUnit bus =
        .ok (bytesFrom (view bus) (start + moved) copyUnit) bus := by
      rw [loadSpan_inside (toNat_add_inside ha (by omega)) (by omega) hpos,
        hload _ _ _ (by omega)]
    obtain ⟨bus', hrun, hkept⟩ :=
      hstore bus (stop + moved) (bytesFrom (view bus) (start + moved) copyUnit)
        (by rw [length_bytesFrom]; omega)
    have hstored : storeSpan copy .unaligned (b + UInt32.ofNat moved)
        (bytesFrom (view bus) (start + moved) copyUnit) bus = .ok () bus' := by
      rw [storeSpan_inside (toNat_add_inside hb (by omega)) (by simp; omega) (by simp [hpos]), hrun]
    have hmoved : copyUnit * units + (moved + copyUnit) = length := by omega
    have hrest := ih hmoved bus'
    rw [hkept, ← Nat.add_assoc, ← Nat.add_assoc, ← Nat.sub_sub, ← drop_bytesFrom] at hrest
    rw [copyUnits_of_ok hmin hloaded hstored, Arrival.units, hbytes, hrest, storeArrivals_cons]
    symm
    exact bind_of_ok hrun

/-- So it is with the whole copy, if no unit of it is cut short. -/
theorem copyThrough_inside
    (hload : ∀ bus offset n, offset + n ≤ start + length →
      bus.deviceLoad source offset n = (bytesFrom (view bus) offset n, bus))
    (hstore : ∀ bus offset data, offset + data.length ≤ stop + length →
      ∃ bus', storeRun copy target offset data bus = .ok () bus' ∧ view bus' = view bus)
    {a b : UInt32} (ha : source.base + start = a.toNat) (hb : target.base + stop = b.toNat)
    (hsource : start + length ≤ source.size) (htarget : stop + length ≤ target.size)
    {units : Nat} (hunits : length = copyUnit * units) (bus : Bus) :
    copyThrough copy a b length bus =
      storeArrivals copy target (Arrival.units stop units (bytesFrom (view bus) start length))
        bus := by
  have hcount : (length + copyUnit - 1) / copyUnit = units := by
    rw [hunits, copyUnit]
    omega
  rw [copyThrough, hcount]
  exact copyUnits_inside hload hstore ha hb hsource htarget hunits.symm bus

end

end Bus

end Console64
